import Postkeys.Effects.Operations
import Postkeys.Relational.Total

/-! # What every command does to the tables

The operations on whole keys, and `Cmd.exec_effect`: what any command leaves of the tables. -/

namespace Postkeys

open Relational Program

variable {S : Type} {e : Env} {d d' : DB S} {k : Bytes} {c : Cmd S}

/-! ### Operations on whole keys -/

theorem deleteKeyFromAllTables_trimmed : (deleteKeyFromAllTables k : Op S _).Within Trimmed :=
  .bind (within_acquire _) fun _ => .forEach fun _ => .query trimmed_deleteKey

theorem del_trimmed (keys : List Bytes) : (del keys : Op S _).Within Trimmed := by
  have hloop (ks : List Bytes) (n : ℤ) : (delLoop n ks : Op S _).Within Trimmed := by
    induction ks generalizing n with
    | nil => exact trivial
    | cons k ks ih =>
        refine .bind (.bind (trimmed_of_blind (blind_getKeyType k)) fun _ => ?_) fun _ => ih _
        exact .ite trivial (.bind deleteKeyFromAllTables_trimmed fun _ => trivial)
  exact hloop _ _

theorem flushDB_trimmed : (flushDB : Op S _).Within Trimmed := by
  refine .forEach fun t => .query ?_
  rintro c d d' b ⟨⟩ t' k s r hr
  by_cases ht : t' = t
  · subst ht
    simp [Store.rows] at hr
  · refine ⟨s, r, ?_, rfl, fun _ => rfl⟩
    simpa [Store.rows, ht] using hr

/-- What `EXPIRE` does when it applies: the `kv_meta` row and the rows in the table the source looks
up for its type get the expiry `x`. -/
def ExpiryApplied (now : Time) (opts : ExpireOptions) (x : Time) (d d' : DB S) (k : Bytes) : Prop :=
  ∃ m, (d.rows .kvMeta k).row () = some m ∧ expireWhereClause opts now x m.expiresAt = true ∧
    RetimedAt d d' k (dataTableForType m.val).toList (some x)

theorem expireWhereClause_live {opts : ExpireOptions} {now new : Time} {V : Type} {c : Cell V}
    (h : expireWhereClause opts now new c.expiresAt = true) : c.live now = true := by
  unfold expireWhereClause at h
  unfold Cell.live
  cases hx : c.expiresAt with
  | none => rfl
  | some t =>
      simp only [hx, Option.isNone_some, Option.elim_some] at h
      split_ifs at h <;> simp_all

/-- An update that meets no row changes nothing. -/
theorem update_none {t : Tab} {p : t.Sub → Row S t → Bool} {f : Row S t → Row S t}
    (h : ((d.rows t k).restrict p).toList = []) :
    d.setRows t k ((d.rows t k).update p f) = d := by
  have hsame : (d.rows t k).update p f = d.rows t k := by
    refine Table.ext_row fun s => ?_
    rw [Table.update_row]
    cases hc : (d.rows t k).row s with
    | none => rfl
    | some c =>
        have hp : ¬ p s c = true := fun hp => by
          have hmem := Table.mem_toList.mpr (Table.restrict_row_some.mpr ⟨hc, hp⟩)
          rw [h] at hmem
          cases hmem
        simp [hp]
  rw [hsame]
  exact Store.setRows_rows d t k

/-- An update of the `kv_meta` row that meets one rewrites it. -/
theorem update_some {p : Unit → Row S .kvMeta → Bool} {f : Row S .kvMeta → Row S .kvMeta}
    {s : Unit} {m : Row S .kvMeta} {l : List (Unit × Row S .kvMeta)}
    (h : ((d.rows .kvMeta k).restrict p).toList = (s, m) :: l) :
    (d.rows .kvMeta k).row () = some m ∧ p () m = true ∧
      ((d.rows .kvMeta k).update p f).row () = ((d.rows .kvMeta k).row ()).map f := by
  have hmem : (s, m) ∈ ((d.rows .kvMeta k).restrict p).toList := by
    rw [h]
    exact List.mem_cons_self ..
  obtain ⟨hrow, hp⟩ := Table.restrict_row_some.mp (Table.mem_toList.mp hmem)
  refine ⟨hrow, hp, ?_⟩
  rw [Table.update_row, hrow]
  exact congrArg some (if_pos hp)

theorem applyExpiry_effect (expiresAt : Time) (opts : ExpireOptions) :
    wp e (applyExpiry k expiresAt opts)
      (fun _ d' => Trimmed d d' ∨ ExpiryApplied e.now opts expiresAt d d' k) d := by
  unfold applyExpiry
  rw [wp_bind, wp_query, wpSql_updateWhere]
  split
  · rename_i hnone
    exact Or.inl (Trimmed.of_eq <| update_none hnone)
  · rename_i s m l hsome
    obtain ⟨hrow, hp, hupd⟩ := update_some (f := fun r => ⟨r.val, some expiresAt⟩) hsome
    cases htable : dataTableForType m.val with
    | none =>
        refine Or.inr ⟨m, hrow, hp, ?_⟩
        rw [htable]
        exact RetimedAt.of_meta hupd
    | some t =>
        have ht : t ≠ .kvMeta := by
          rintro rfl
          cases hm : m.val <;> simp [hm, dataTableForType] at htable
        simp only [wp_bind, wp_query, wpSql_setExpiry, pure_eq, wp_ret]
        refine Or.inr ⟨m, hrow, hp, ?_⟩
        rw [htable]
        exact RetimedAt.of_table ht hupd rfl

theorem expire_effect (key : Bytes) (ttl : ℤ) (opts : ExpireOptions) :
    wp e (expire key ttl opts) (fun _ d' => Trimmed d d' ∨
      ExpiryApplied e.now opts (pgTime (e.time + ttl)) d d' (encodeKey key)) d := by
  unfold expire
  simp only [wp_bind, wp_lockKey, wp_clock]
  exact applyExpiry_effect _ _

theorem expireAt_effect (key : Bytes) (timestamp : ℤ) (opts : ExpireOptions) :
    wp e (expireAt key timestamp opts) (fun _ d' => Trimmed d d' ∨
      ExpiryApplied e.now opts (sentTime timestamp) d d' (encodeKey key)) d := by
  unfold expireAt
  rw [wp_bind, wp_lockKey, wp_bind, wp_query, sendTime]
  split
  · exact applyExpiry_effect _ _
  · exact wpSql_error _

theorem persist_effect (key : Bytes) :
    wp e (persist key) (fun _ d' => d' = d ∨
      (∃ m, (d.rows .kvMeta (encodeKey key)).row () = some m ∧ m.live e.now = true) ∧
        RetimedAt d d' (encodeKey key) dataTables none) d := by
  unfold persist
  simp only [wp_bind, wp_lockKey, wp_query]
  rw [wpSql_updateWhere, wp_ite]
  refine ⟨fun hnone => Or.inl (update_none (List.isEmpty_iff.mp hnone)), fun hsome => ?_⟩
  obtain ⟨⟨s, m⟩, l, hl⟩ := List.exists_cons_of_ne_nil (mt List.isEmpty_iff.mpr hsome)
  obtain ⟨hrow, hp, hupd⟩ := update_some (f := fun r => ⟨r.val, none⟩) hl
  have hlive : m.live e.now = true := by
    unfold Cell.live
    cases hx : m.expiresAt with
    | none => rfl
    | some t => simpa [hx] using hp
  simp only [wp_bind, dataTables, Program.forEach, wp_queryIgnored, wpSql_setExpiry, pure_eq, wp_ret]
  refine Or.inr ⟨⟨m, hrow, hlive⟩, ?_, ?_, ?_⟩
  · intro t k' hk
    simp [hk]
  · simpa [keyRows] using hupd
  · intro t ht
    cases t <;> simp [keyRows] at ht ⊢

/-- The rows moved to a key without rows are the rows that were there. -/
theorem addRows_toList {t : Tab} {u u' : Table t.Sub (Row S t)}
    (h : addRows t ∅ u.toList = .ok u') : u' = u := by
  refine Table.ext_row fun s => Option.ext fun c => ?_
  have hrow := addRows_row h s c
  simpa [Table.mem_toList] using hrow

theorem rename_effect (oldKey newKey : Bytes) :
    wp e (rename oldKey newKey) (fun _ d' => d' = d.dropKey (encodeKey newKey) ∨
      encodeKey oldKey ≠ encodeKey newKey ∧ ∃ T, liveType e.now d (encodeKey oldKey) = some T ∧
        Renamed d d' (encodeKey oldKey) (encodeKey newKey) T) d := by
  unfold rename
  simp only [wp_bind, wp_lockKeys, wp_getKeyType]
  split
  · exact wp_raise _
  · rename_i T hT
    simp only [wp_bind, wp_deleteKeyFromAllTables]
    split
    · exact wp_raise _
    · rename_i t ht
      have htable : t = T.table := by
        cases T <;> simp [dataTableForType] at ht <;> exact ht.symm
      subst htable
      simp only [wp_bind, wp_query]
      by_cases hk : encodeKey oldKey = encodeKey newKey
      · simp only [moveKey, hk, if_true]
        exact Or.inl rfl
      · rw [wpSql_moveKey hk]
        intro um hum
        rw [wpSql_moveKey hk]
        intro u hu
        simp only [Store.rows_dropKey_self, Store.rows_setRows_of_ne_table _ T.table_ne_meta,
          Store.rows_dropKey_of_ne _ _ hk] at hum hu
        obtain rfl := addRows_toList hum
        obtain rfl := addRows_toList hu
        refine Or.inr ⟨hk, T, hT, ?_, ?_, ?_⟩
        · intro t k hold hnew
          simp [hold, hnew]
        · intro t
          by_cases hm : t = .kvMeta
          · subst hm
            simp [T.table_ne_meta.symm]
          · by_cases ht' : t = T.table
            · subst ht'
              simp
            · simp [hm, ht']
        · intro t
          by_cases hm : t = .kvMeta
          · subst hm
            simp [T.table_ne_meta.symm, hk]
          · by_cases ht' : t = T.table
            · subst ht'
              simp [hk]
            · simp [hm, ht', hk]

/-- The expiry that `COPY` writes into the `kv_meta` row of its destination. -/
def copiedExpiry (d : DB S) (source : Bytes) (T : KeyType) : Option Time :=
  if T = .string then ((d.rows .kvStrings source).row ()).bind Cell.expiresAt else none

theorem copyRows_effect {t : Tab} {T : KeyType} {source : Bytes} (ht : t ≠ .kvMeta) :
    wp e (copyRows t T source k) (fun _ d' =>
      d.rows t source = ∅ ∧ d' = d.setRows .kvMeta k (Table.single () ⟨T, none⟩)) d := by
  unfold copyRows
  simp only [wp_bind, wp_setMeta, wp_queryRows, wpSql_selectAll,
    Store.rows_setRows_of_ne_table _ ht]
  split
  · rename_i hnil
    exact ⟨Table.toList_eq_nil_iff.mp hnil, rfl⟩
  · exact wp_raise _

/-- A copied string has the expiry of its source. -/
theorem addRows_single {r : Row S .kvStrings} {u u' : Table Unit (Row S .kvStrings)}
    (h : addRows .kvStrings u [((), r)] = .ok u') : ∀ s c, u'.row s = some c → c = r := by
  intro s c hc
  rw [addRows] at h
  split at h
  · cases h
  · cases h
    simp only [Table.put_unit, Table.single_unit_row, Option.some.injEq] at hc
    exact hc.symm

/-- A destination without rows becomes a copy of type `T`, of a string with its row; a collection is
copied only if it has no rows, and a HyperLogLog not at all. -/
theorem copyByType_fresh {source : Bytes} (T : KeyType) :
    wp e (copyByType T source k) (fun _ d' =>
      FreshAt d d' k T (copiedExpiry (d.dropKey k) source T) ∧
        (Full (keyRows d' k) T ∨ d' = d.dropKey k ∨
          (T ≠ .string ∧ T ≠ .hyperloglog) ∧ (d.dropKey k).rows T.table source = ∅))
      (d.dropKey k) := by
  have hempty (T : KeyType) :
      FreshAt d ((d.dropKey k).setRows .kvMeta k (Table.single () ⟨T, none⟩)) k T none := by
    refine ⟨Frame.dropKey.trans (Frame.setRows _ _), fun t hm _ => ?_, fun m hm => ?_, fun s c hc => ?_⟩
    · simp [keyRows, hm]
    · simp [keyRows] at hm
      exact hm.symm
    · simp [keyRows, T.table_ne_meta] at hc
  cases T with
  | string =>
      simp only [copyByType, wp_bind, wp_query, wpSql_selectAll]
      split
      · exact wp_raise _
      · rename_i r hr
        simp only [wp_bind, wp_setMeta, wp_query, wpSql_insertRows, pure_eq, wp_ret]
        intro u hu
        have hx : copiedExpiry (d.dropKey k) source .string = r.expiresAt := by simp [copiedExpiry, hr]
        rw [hx]
        exact ⟨Fresh.of_write .string r.expiresAt fun s c hc => by rw [addRows_single hu s c hc],
          Or.inl (Full.of_write .string _ (addRows_ne_empty hu (Or.inl (List.cons_ne_nil _ _))))⟩
  | hyperloglog =>
      exact ⟨⟨Frame.dropKey, Fresh.of_empty (fun t => Store.rows_dropKey_self d t k) _ _⟩,
        Or.inr (Or.inl rfl)⟩
  | hash | list | set | zset =>
      refine wp_mono (copyRows_effect (by decide)) ?_
      rintro _ _ ⟨hrows, rfl⟩
      exact ⟨hempty _, Or.inr (Or.inr ⟨by decide, hrows⟩)⟩

/-- The destination becomes a copy of type `T` next to what is there. -/
theorem copyByType_copied {source : Bytes} (T : KeyType) :
    wp e (copyByType T source k) (fun _ d' => d' = d ∨
      T ≠ .hyperloglog ∧ CopiedAt d d' k T (copiedExpiry d source T) ∧
        (d'.rows T.table k ≠ ∅ ∨ d.rows T.table source = ∅)) d := by
  have hmeta (T : KeyType) (hs : T ≠ .string) :
      CopiedAt d (d.setRows .kvMeta k (Table.single () ⟨T, none⟩)) k T
        (copiedExpiry d source T) :=
    ⟨Frame.setRows _ _, fun t hm _ => by simp [hm], by simp [copiedExpiry, hs],
      by simp [hs, T.table_ne_meta]⟩
  cases T with
  | string =>
      simp only [copyByType, wp_bind, wp_query, wpSql_selectAll]
      split
      · exact wp_raise _
      · rename_i r hr
        simp only [wp_bind, wp_setMeta, wp_query, wpSql_insertRows, pure_eq, wp_ret]
        intro u hu
        have hx : copiedExpiry d source .string = r.expiresAt := by simp [copiedExpiry, hr]
        refine Or.inr ⟨by decide, ⟨(Frame.setRows _ _).trans (Frame.setRows _ _), ?_, ?_, ?_⟩, ?_⟩
        · intro t hm ht
          have ht' : t ≠ .kvStrings := ht
          simp [hm, ht']
        · simp [hx]
        · intro s c hc
          rw [hx, addRows_single hu s c (by simpa [KeyType.table] using hc)]
        · exact Or.inl (Full.of_write .string r.expiresAt
            (addRows_ne_empty hu (Or.inl (List.cons_ne_nil _ _)))).data
  | hyperloglog => exact Or.inl rfl
  | hash | list | set | zset =>
      refine wp_mono (copyRows_effect (by decide)) ?_
      rintro _ _ ⟨hrows, rfl⟩
      exact Or.inr ⟨by decide, hmeta _ (by decide), Or.inr hrows⟩

theorem copyKey_effect (source destination : Bytes) (replace : Bool) :
    wp e (copyKey source destination replace) (fun _ d' => d' = d ∨
      ∃ T, liveType e.now d (encodeKey source) = some T ∧
        (replace = true ∧ FreshAt d d' (encodeKey destination) T
            (copiedExpiry (d.dropKey (encodeKey destination)) (encodeKey source) T) ∧
            (Full (keyRows d' (encodeKey destination)) T ∨ d' = d.dropKey (encodeKey destination) ∨
              (T ≠ .string ∧ T ≠ .hyperloglog) ∧
                (d.dropKey (encodeKey destination)).rows T.table (encodeKey source) = ∅) ∨
          liveType e.now d (encodeKey destination) = none ∧ T ≠ .hyperloglog ∧
            CopiedAt d d' (encodeKey destination) T (copiedExpiry d (encodeKey source) T) ∧
              (d'.rows T.table (encodeKey destination) ≠ ∅ ∨
                d.rows T.table (encodeKey source) = ∅))) d := by
  unfold copyKey
  simp only [wp_bind, wp_lockKeys, wp_getKeyType]
  split
  · exact Or.inl rfl
  · rename_i T hT
    simp only [wp_bind, wp_getKeyType, wp_ite, wp_deleteKeyFromAllTables, pure_eq, wp_ret]
    refine ⟨fun _ => Or.inl trivial, fun hrep => ⟨fun hsome => ?_, fun hnone => ?_⟩⟩
    · have hrep : replace = true := by
        by_contra hr
        exact hrep ⟨hsome, Bool.eq_false_iff.mpr hr⟩
      exact wp_mono (copyByType_fresh T) fun _ _ h => Or.inr ⟨T, hT, Or.inl ⟨hrep, h⟩⟩
    · refine wp_mono (copyByType_copied T) fun _ _ h => h.imp id fun h => ?_
      exact ⟨T, hT, Or.inr ⟨not_not.mp hnone, h⟩⟩

/-! ### Commands -/

theorem replaced_of_settled {α : Type} {p : Op S α} {T : KeyType}
    (h : wp e p (fun _ d' => Settled d d' T) d) : wp e p (fun _ d' => Replaced d d' T) d :=
  wp_mono h fun _ _ h => h.replaced

section commands
variable [Float64 S]

theorem Cmd.exec_ok {Q : Reply S → DB S → Prop} {r : Reply S} (hp : c.pooled = false)
    (h : wp e c.op Q d) (hr : (c.exec e d).1 = .ok r) : Q r (c.exec e d).2 := by
  unfold Cmd.exec at hr ⊢
  split at hr
  · rename_i r' tx htx
    split at hr
    · cases hr
    · rename_i hab
      rw [if_neg hab]
      cases hr
      exact wp_sound h htx (by simpa [hp] using hab)
  · cases hr

theorem Cmd.exec_error {f : Failure} (hp : c.pooled = false)
    (hr : (c.exec e d).1 = .error f) : (c.exec e d).2 = d := by
  unfold Cmd.exec at hr ⊢
  split at hr
  · split
    · rfl
    · rename_i hne
      rw [if_neg hne] at hr
      cases hr
  · simp [hp]

/-- A command that meets no error answers. -/
theorem Cmd.exec_total {Q : Reply S → DB S → Prop} (h : total e c.op Q d) :
    ∃ r, (c.exec e d).1 = .ok r ∧ Q r (c.exec e d).2 := by
  obtain ⟨r, d', heval, hQ⟩ := total_sound h
  refine ⟨r, ?_, ?_⟩
  · rw [Cmd.exec, heval]
    rfl
  · rw [Cmd.exec, heval]
    exact hQ

theorem Cmd.exec_of_wp {Q : DB S → Prop} (hp : c.pooled = false)
    (h : wp e c.op (fun _ d' => Q d') d) (hd : Q d) : Q (c.exec e d).2 := by
  cases hr : (c.exec e d).1 with
  | ok r => exact Cmd.exec_ok hp h hr
  | error f => rwa [Cmd.exec_error hp hr]

theorem Cmd.exec_within {R : DB S → DB S → Prop} (hrefl : ∀ d, R d d)
    (htrans : ∀ d₁ d₂ d₃, R d₁ d₂ → R d₂ d₃ → R d₁ d₃) (h : c.op.Within R) :
    R d (c.exec e d).2 := by
  have heval : R d (c.op.eval e (Tx.clean d)).2.view := eval_within hrefl htrans h (Tx.clean d)
  unfold Cmd.exec
  split
  · rename_i r tx htx
    rw [htx] at heval
    split
    · exact hrefl d
    · exact heval
  · rename_i f tx htx
    rw [htx] at heval
    dsimp only
    split
    · exact heval
    · exact hrefl d

/-- The key and type a command writes next to what is there, if it goes through; `checked` commands
are refused where the key is of another type. -/
def Cmd.upserts (now : Time) (c : Cmd S) (d : DB S) : Option (Bytes × KeyType) :=
  match c with
  | .incr key _ | .append key _ | .setRange key _ _ | .setBit key _ _ => some (encodeKey key, .string)
  | .bitField key ops =>
      if ((live now (d.rows .kvStrings (encodeKey key))).row ()).isNone ∧
        ∃ op ∈ ops, op.opType ≠ .get then some (encodeKey key, .string) else none
  | .incrByFloat key _ => checked key .string
  | .hSet key fields => if fields = ∅ then none else checked key .hash
  | .hIncrBy key _ _ | .hIncrByFloat key _ _ | .hSetNX key _ _ => checked key .hash
  | .lPush key values | .rPush key values => if values = [] then none else checked key .list
  | .sAdd key members => if members = [] then none else checked key .set
  | .zAdd key _ opts =>
      if liveType now d (encodeKey key) = none ∧ opts.XX = true then none else checked key .zset
  | .pfAdd key _ | .pfMerge key _ => checked key .hyperloglog
  | _ => none
where
  checked (key : Bytes) (T : KeyType) : Option (Bytes × KeyType) :=
    if liveType now d (encodeKey key) = none ∨ liveType now d (encodeKey key) = some T then
      some (encodeKey key, T)
    else none

/-- What a command does to the tables. -/
def Cmd.Effect (e : Env) (c : Cmd S) (d d' : DB S) : Prop :=
  match c with
  | .set _ _ _ | .setNX _ _ _ | .mSet _ | .bitOp _ _ _ => Replaced d d' .string
  | .sInterStore _ _ | .sUnionStore _ _ | .sDiffStore _ _ => Replaced d d' .set
  | .zRangeStore _ _ _ | .zUnionStore _ _ _ _ | .zInterStore _ _ _ _ => Replaced d d' .zset
  | .getSet key _ => Trimmed d d' ∨ UpsertedAt d d' (encodeKey key) .string ∧
      ∀ s c, (d'.rows .kvStrings (encodeKey key)).row s = some c → c.expiresAt = none
  | .zIncrBy key _ member => Trimmed d d' ∨ EnsuredAt d d' (encodeKey key) .zset ∧
      ((d.rows .kvMeta (encodeKey key)).row () = none ∨
        (d.rows .kvZsets (encodeKey key)).row member = none)
  | .rPopLPush source destination =>
      Trimmed d d' ∨ Rotated d d' (encodeKey source) (encodeKey destination)
  | .lInsert key pivot _ _ => Trimmed d d' ∨
      (∃ i c, (d.rows .kvLists (encodeKey key)).row i = some c ∧ c.val = pivot) ∧
        GrownAt d d' (encodeKey key) .list
  | .getEx key t p => Trimmed d d' ∨
      ((live e.now (d.rows .kvStrings (encodeKey key))).row ()).isSome ∧
        (p = true ∨ 0 < t) ∧ ∃ x, RetimedAt d d' (encodeKey key) [.kvStrings] x
  | .expire key t opts =>
      Trimmed d d' ∨ ExpiryApplied e.now opts (pgTime (e.time + t)) d d' (encodeKey key)
  | .expireAt key timestamp opts =>
      Trimmed d d' ∨ ExpiryApplied e.now opts (sentTime timestamp) d d' (encodeKey key)
  | .persist key => Trimmed d d' ∨
      (∃ m, (d.rows .kvMeta (encodeKey key)).row () = some m ∧ m.live e.now = true) ∧
        RetimedAt d d' (encodeKey key) dataTables none
  | .rename oldKey newKey => Trimmed d d' ∨
      encodeKey oldKey ≠ encodeKey newKey ∧ ∃ T, liveType e.now d (encodeKey oldKey) = some T ∧
        Renamed d d' (encodeKey oldKey) (encodeKey newKey) T
  | .copy source destination _ => Trimmed d d' ∨
      ∃ T, liveType e.now d (encodeKey source) = some T ∧
        ((∃ x, FreshAt d d' (encodeKey destination) T x) ∨
          liveType e.now d (encodeKey destination) = none ∧ T ≠ .hyperloglog ∧
            CopiedAt d d' (encodeKey destination) T (copiedExpiry d (encodeKey source) T))
  | c => Trimmed d d' ∨ ∃ k T, c.upserts e.now d = some (k, T) ∧ UpsertedAt d d' k T

theorem Cmd.exec_trimmed (h : c.op.Within Trimmed) : Trimmed d (c.exec e d).2 :=
  Cmd.exec_within Trimmed.refl (fun _ _ _ => Trimmed.trans) h

/-- What holds before a command, and after every run of its operation that goes through, holds after
the command. -/
theorem Cmd.exec_op {α : Type} {p : Op S α} {f : α → Reply S} {P : α → DB S → Prop}
    {Q : DB S → Prop} (hd : Q d) (h : wp e p P d) (hQ : ∀ r d', P r d' → Q d')
    (hop : c.op = f <$> p := by rfl) (hp : c.pooled = false := by rfl) : Q (c.exec e d).2 := by
  refine Cmd.exec_of_wp hp ?_ hd
  rw [hop, wp_map]
  exact wp_mono h hQ

/-- **What a command leaves of the tables**, whether it succeeds or not. -/
theorem Cmd.exec_effect (c : Cmd S) : c.Effect e d (c.exec e d).2 := by
  have hd : Trimmed d d := Trimmed.refl d
  cases c
  case set key value t =>
    refine Cmd.exec_op (Replaced.refl d _) (set_effect key value t) ?_
    rintro _ _ ⟨_, h, -⟩
    exact h.1.replaced
  case setNX key value t =>
    refine Cmd.exec_op (Replaced.refl d _) (setNX_effect key value t) fun _ d' h => ?_
    rcases h with rfl | ⟨_, h, -⟩
    · exact Replaced.refl _ _
    · exact h.1.replaced
  case mSet pairs =>
    exact Cmd.exec_op (Replaced.refl d _) (mSet_effect pairs) fun _ _ h => h.replaced
  case bitOp op key ks =>
    exact Cmd.exec_op (Replaced.refl d _) (bitOp_effect op key ks) fun _ _ h => h.replaced
  case sInterStore key ks =>
    exact Cmd.exec_op (Replaced.refl d _) (sInterStore_effect key ks) fun _ _ h => h.replaced
  case sUnionStore key ks =>
    exact Cmd.exec_op (Replaced.refl d _) (sUnionStore_effect key ks) fun _ _ h => h.replaced
  case sDiffStore key ks =>
    exact Cmd.exec_op (Replaced.refl d _) (sDiffStore_effect key ks) fun _ _ h => h.replaced
  case zRangeStore dst src spec =>
    exact Cmd.exec_op (Replaced.refl d _) (zRangeStore_effect dst src spec) fun _ _ h => h.replaced
  case zUnionStore key ks ws a =>
    exact Cmd.exec_op (Replaced.refl d _) (zUnionStore_effect key ks ws a) fun _ _ h => h.replaced
  case zInterStore key ks ws a =>
    exact Cmd.exec_op (Replaced.refl d _) (zInterStore_effect key ks ws a) fun _ _ h => h.replaced
  case getSet key value =>
    exact Cmd.exec_op (Or.inl hd) (getSet_effect key value) fun _ _ h => Or.inr ⟨h.1.1, h.2⟩
  case zIncrBy key x m =>
    refine Cmd.exec_op (Or.inl hd) (zIncrBy_effect key x m) fun _ d' h => ?_
    by_cases hm : (d.rows .kvMeta (encodeKey key)).row () = none
    · exact Or.inr ⟨h.1, Or.inl hm⟩
    · by_cases hz : (d.rows .kvZsets (encodeKey key)).row m = none
      · exact Or.inr ⟨h.1, Or.inr hz⟩
      · exact Or.inl (h.2.2 hm hz)
  case rPopLPush src dst =>
    exact Cmd.exec_op (Or.inl hd) (rPopLPush_effect src dst) fun _ _ h => h.imp Trimmed.of_eq And.left
  case lInsert key p x b =>
    exact Cmd.exec_op (Or.inl hd) (lInsert_effect key p x b) fun _ _ h => h.imp Trimmed.of_eq fun h => ⟨h.1, h.2.1⟩
  case getEx key t p =>
    exact Cmd.exec_op (Or.inl hd) (getEx_effect key t p) fun _ _ h => h.imp Trimmed.of_eq fun h =>
      ⟨h.1, h.2.1, h.2.2.imp fun _ h => h.1⟩
  case expire key t opts =>
    exact Cmd.exec_op (Or.inl hd) (expire_effect key t opts) fun _ _ h => h
  case expireAt key t opts =>
    exact Cmd.exec_op (Or.inl hd) (expireAt_effect key t opts) fun _ _ h => h
  case persist key =>
    exact Cmd.exec_op (Or.inl hd) (persist_effect key) fun _ _ h => h.imp Trimmed.of_eq id
  case rename old new =>
    refine Cmd.exec_op (Or.inl hd) (rename_effect old new) fun _ _ h => ?_
    rcases h with rfl | h
    · exact Or.inl Trimmed.dropKey
    · exact Or.inr h
  case copy src dst r =>
    refine Cmd.exec_op (Or.inl hd) (copyKey_effect src dst r) fun _ _ h => ?_
    rcases h with rfl | ⟨T, hT, ⟨-, h, -⟩ | ⟨hnone, hhll, h, -⟩⟩
    · exact Or.inl (Trimmed.refl _)
    · exact Or.inr ⟨T, hT, Or.inl ⟨_, h⟩⟩
    · exact Or.inr ⟨T, hT, Or.inr ⟨hnone, hhll, h⟩⟩
  case incr key n =>
    exact Cmd.exec_op (Or.inl hd) (incr_effect key n) fun _ _ h => Or.inr ⟨_, _, rfl, h.1⟩
  case append key v =>
    exact Cmd.exec_op (Or.inl hd) (appendStr_effect key v) fun _ _ h => Or.inr ⟨_, _, rfl, h.1⟩
  case setRange key o v =>
    exact Cmd.exec_op (Or.inl hd) (setRange_effect key o v) fun _ _ h => Or.inr ⟨_, _, rfl, h.1⟩
  case setBit key o v =>
    exact Cmd.exec_op (Or.inl hd) (setBit_effect key o v) fun _ _ h => Or.inr ⟨_, _, rfl, h.1⟩
  case bitField key ops =>
    exact Cmd.exec_op (Or.inl hd) (bitField_effect key ops) fun _ _ h => h.imp And.left fun h =>
      ⟨_, _, if_pos ⟨h.1, h.2.1⟩, h.2.2.1⟩
  case incrByFloat key x =>
    exact Cmd.exec_op (Or.inl hd) (incrByFloat_effect key x) fun _ _ h => Or.inr ⟨_, _, if_pos h.1, h.2.1⟩
  case hSet key fs =>
    exact Cmd.exec_op (Or.inl hd) (hSet_effect key fs) fun _ _ h => h.imp Trimmed.of_eq fun h =>
      ⟨_, _, (if_neg h.1).trans (if_pos h.2.1), h.2.2.1⟩
  case hIncrBy key f n =>
    exact Cmd.exec_op (Or.inl hd) (hIncrBy_effect key f n) fun _ _ h => Or.inr ⟨_, _, if_pos h.1, h.2.1⟩
  case hIncrByFloat key f x =>
    exact Cmd.exec_op (Or.inl hd) (hIncrByFloat_effect key f x) fun _ _ h => Or.inr ⟨_, _, if_pos h.1, h.2.1⟩
  case hSetNX key f v =>
    exact Cmd.exec_op (Or.inl hd) (hSetNX_effect key f v) fun _ _ h => Or.inr ⟨_, _, if_pos h.1, h.2.1⟩
  case lPush key vs =>
    exact Cmd.exec_op (Or.inl hd) (push_effect key vs _ _ _) fun _ _ h => h.imp Trimmed.of_eq fun h =>
      ⟨_, _, (if_neg h.1).trans (if_pos h.2.1), h.2.2.1⟩
  case rPush key vs =>
    exact Cmd.exec_op (Or.inl hd) (push_effect key vs _ _ _) fun _ _ h => h.imp Trimmed.of_eq fun h =>
      ⟨_, _, (if_neg h.1).trans (if_pos h.2.1), h.2.2.1⟩
  case sAdd key ms =>
    exact Cmd.exec_op (Or.inl hd) (sAdd_effect key ms) fun _ _ h => h.imp Trimmed.of_eq fun h =>
      ⟨_, _, (if_neg h.1).trans (if_pos h.2.1), h.2.2.1⟩
  case zAdd key ms opts =>
    exact Cmd.exec_op (Or.inl hd) (zAdd_effect key ms opts) fun _ _ h => h.imp Trimmed.of_eq fun h =>
      ⟨_, _, (if_neg h.1).trans (if_pos h.2.1), h.2.2.1⟩
  case pfAdd key es =>
    exact Cmd.exec_op (Or.inl hd) (pfAdd_effect key es) fun _ _ h => Or.inr ⟨_, _, if_pos h.1, h.2.1⟩
  case pfMerge key ks =>
    exact Cmd.exec_op (Or.inl hd) (pfMerge_effect key ks) fun _ _ h => Or.inr ⟨_, _, if_pos h.1, h.2.1⟩
  all_goals refine Or.inl (Cmd.exec_trimmed ?_)
  case getDel =>
    refine .map _ (.bind (within_acquire _) fun _ =>
      .bind (.query (trimmed_of_blindSql (blind_selectLive _))) fun v => ?_)
    cases v with
    | none => exact trivial
    | some v =>
        exact .bind (.queryIgnored trimmed_deleteKey) fun _ =>
          .bind (.query trimmed_deleteKey) fun _ => trivial
  case hDel | sRem | zRem | zRemRangeByScore => exact .map _ (.query (trimmed_deleteWhere _))
  case lPop | rPop => exact .map _ (.bind (.query (trimmed_popRows _)) fun _ => trivial)
  case lPopMulti | rPopMulti | lMPop | rMPop | zMPopMin | zMPopMax =>
    exact .map _ (.ite trivial (.bind (.query (trimmed_popAt (trimmed_readRowsIn _ _ _)
      (fun _ => trimmed_popRows _) _)) fun _ => trivial))
  case lRem =>
    exact .map _ (.ite (.query (trimmed_deleteWhere _)) <| .ite (.query (within_error _)) <|
      .bind (.query (trimmed_deleteRows _)) fun _ => trivial)
  case lTrim =>
    exact .map _ (.bind (within_acquire _) fun _ => .bind (.query (trimmed_selectAll _)) fun _ =>
      .ite trivial <| .ite (.bind (.query trimmed_deleteKey) fun _ => .query trimmed_deleteKey)
        (.bind (.query (trimmed_deleteRows _)) fun _ => trivial))
  case lSet =>
    refine .map _ (.bind (.query (trimmed_selectAll _)) fun total => .ite trivial <| .ite trivial <|
      .bind (.query (trimmed_selectAll _)) fun idx => ?_)
    cases idx with
    | none => exact trivial
    | some idx =>
        exact .bind (.query (trimmed_updateWhere (by decide) _ fun _ => rfl)) fun _ => trivial
  case lRange =>
    exact .map _ (.bind (trimmed_of_blind (blind_readTypeCheck _ _)) fun _ =>
      .bind (.queryContext _ (trimmed_selectAll _)) fun _ =>
        .ite trivial (.queryRows (within_readRows Trimmed.refl _ _ _)))
  case lPos => exact .map _ (.bind (.queryRows (trimmed_selectAll _)) fun _ => trivial)
  case zRemRangeByRank =>
    refine .map _ (.bind (within_acquire _) fun _ =>
      .bind (.query (trimmed_of_blindSql (blind_selectLive _))) fun _ => .ite trivial ?_)
    refine .query (within_onRows _ _ fun _ _ _ _ h => ?_)
    cases h
    exact Trimmed.restrict _
  case zPopMin | zPopMax =>
    refine .map _ (.bind (.queryRows (trimmed_of_blindSql (blind_selectLiveLimit _))) fun members => ?_)
    exact .ite trivial (.bind (.query (trimmed_deleteWhere _)) fun _ => trivial)
  case del ks => exact (del_trimmed ks).map _
  case flushDB => exact flushDB_trimmed.map _
  all_goals exact trimmed_of_blind (Cmd.blind_op rfl)

end commands

end Postkeys
