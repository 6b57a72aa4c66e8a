import Postkeys.Effects.Commands

/-! # The copies of the expiry

The expiry of a key is stored in its `kv_meta` row and again in each of its data rows.  Commands
that write `kv_meta` anew drop the expiry there and keep it in the rows, and some change the expiry
of the rows of one table only.  `Cmd.KeepsTtl` is the condition on the tables under which the next
command keeps all copies in step, and `ttlAgreement_of_reached` what then holds in all states of a
run. -/

namespace Postkeys

open Relational

variable {S : Type} {now now' : Time} {d d' : DB S} {k : Bytes} {T : KeyType} {r r' : KeyRows S}

/-- Every data row of a key that has a `kv_meta` row carries the expiry of that row. -/
def TtlAgreement (d : DB S) : Prop :=
  ∀ k m, (d.rows .kvMeta k).row () = some m →
    ∀ t, t ≠ .kvMeta → ∀ s c, (d.rows t k).row s = some c → c.expiresAt = m.expiresAt

/-- No data row of the key outside the tables `ts` carries an expiry. -/
def Unexpiring (d : DB S) (k : Bytes) (ts : List Tab) : Prop :=
  ∀ t, t ≠ .kvMeta → t ∉ ts → ∀ s c, (d.rows t k).row s = some c → c.expiresAt = none

/-- The data rows of the key are in the tables `ts`. -/
def RowsIn (d : DB S) (k : Bytes) (ts : List Tab) : Prop :=
  ∀ t, t ≠ .kvMeta → d.rows t k ≠ ∅ → t ∈ ts

/-- What a write that leaves an existing `kv_meta` row alone needs. -/
def NoTtl (d : DB S) (k : Bytes) : Prop :=
  match (d.rows .kvMeta k).row () with
  | some m => m.expiresAt = none
  | none => Unexpiring d k []

/-- When a command keeps the copies of the expiry in step: a write next to what is there finds no
row with an expiry, and a change of the expiry reaches all rows of the key. -/
def Cmd.KeepsTtl (e : Env) (c : Cmd S) (d : DB S) : Prop :=
  match c with
  | .getSet key _ => Unexpiring d (encodeKey key) [.kvStrings]
  | .zIncrBy key _ member => NoTtl d (encodeKey key) ∨
      (d.rows .kvMeta (encodeKey key)).row () ≠ none ∧
        (d.rows .kvZsets (encodeKey key)).row member ≠ none
  | .rPopLPush source destination =>
      d.rows .kvLists (encodeKey source) = ∅ ∨ NoTtl d (encodeKey destination)
  | .lInsert key pivot _ _ =>
      (∀ i c, (d.rows .kvLists (encodeKey key)).row i = some c → c.val ≠ pivot) ∨
        ∀ m, (d.rows .kvMeta (encodeKey key)).row () = some m → m.expiresAt = none
  | .expire key t opts => ∀ m, (d.rows .kvMeta (encodeKey key)).row () = some m →
      expireWhereClause opts e.now (pgTime (e.time + t)) m.expiresAt = true →
        RowsIn d (encodeKey key) (dataTableForType m.val).toList
  | .expireAt key timestamp opts => ∀ m, (d.rows .kvMeta (encodeKey key)).row () = some m →
      expireWhereClause opts e.now (sentTime timestamp) m.expiresAt = true →
        RowsIn d (encodeKey key) (dataTableForType m.val).toList
  | .getEx key t p => (p = true ∨ 0 < t) →
      ((live e.now (d.rows .kvStrings (encodeKey key))).row ()).isSome →
        (d.rows .kvMeta (encodeKey key)).row () = none ∨ RowsIn d (encodeKey key) [.kvStrings]
  | .copy source destination _ => ∀ T, liveType e.now d (encodeKey source) = some T →
      T ≠ .hyperloglog → liveType e.now d (encodeKey destination) = none →
        ∀ t, t ≠ .kvMeta → (t = .kvStrings → T ≠ .string) →
          ∀ s c, (d.rows t (encodeKey destination)).row s = some c →
            c.expiresAt = copiedExpiry d (encodeKey source) T
  | c => ∀ k T, c.upserts e.now d = some (k, T) → Unexpiring d k []

/-! ### The invariant of one key -/

/-- The invariant of a key. -/
def KeyTtl (r : KeyRows S) : Prop :=
  ∀ m, (r .kvMeta).row () = some m →
    ∀ t, t ≠ .kvMeta → ∀ s c, (r t).row s = some c → c.expiresAt = m.expiresAt

theorem KeyTtl.of_trimmed (hr : KeyTtl (keyRows d k)) (h : Trimmed d d') : KeyTtl (keyRows d' k) := by
  intro m hm t ht s c hc
  obtain ⟨_, m₀, hm₀, hme, -⟩ := h .kvMeta k () m hm
  obtain ⟨s₀, c₀, hc₀, hce, -⟩ := h t k s c hc
  rw [← hce, ← hme]
  exact hr m₀ hm₀ t ht s₀ c₀ hc₀

theorem KeyTtl.of_fresh {x : Option Time} (h : Fresh r T x) : KeyTtl r := by
  intro m hm t ht s c hc
  rw [h.info m hm]
  by_cases htT : t = T.table
  · subst htT
    exact h.data s c hc
  · rw [h.other t ht htT] at hc
    cases hc

/-- Rows written where no row carries an expiry. -/
theorem Written.unexpiring (h : Written r r' T)
    (hr : ∀ t, t ≠ .kvMeta → ∀ s c, (r t).row s = some c → c.expiresAt = none) :
    ∀ t, t ≠ .kvMeta → ∀ s c, (r' t).row s = some c → c.expiresAt = none := by
  intro t ht s c hc
  by_cases htT : t = T.table
  · subst htT
    rcases h.data s c hc with hn | ⟨s₀, c₀, hc₀, he⟩
    · exact hn
    · rw [← he]
      exact hr _ ht s₀ c₀ hc₀
  · rw [h.other t ht htT] at hc
    exact hr t ht s c hc

/-- No row of the key, in `kv_meta` or elsewhere, carries an expiry. -/
theorem KeyTtl.of_none (hmeta : ∀ m, (r .kvMeta).row () = some m → m.expiresAt = none)
    (hr : ∀ t, t ≠ .kvMeta → ∀ s c, (r t).row s = some c → c.expiresAt = none) : KeyTtl r := by
  intro m hm t ht s c hc
  rw [hmeta m hm, hr t ht s c hc]

theorem NoTtl.unexpiring (h : NoTtl d k) (hr : KeyTtl (keyRows d k)) :
    ∀ t, t ≠ .kvMeta → ∀ s c, (d.rows t k).row s = some c → c.expiresAt = none := by
  intro t ht s c hc
  unfold NoTtl at h
  cases hm : (d.rows .kvMeta k).row () with
  | none =>
      rw [hm] at h
      exact h t ht List.not_mem_nil s c hc
  | some m =>
      rw [hm] at h
      rw [hr m hm t ht s c hc]
      exact h

theorem KeyTtl.of_ensured (hr : KeyTtl (keyRows d k)) (h : Ensured (keyRows d k) r' T)
    (hno : NoTtl d k) : KeyTtl r' := by
  refine .of_none (fun m hm => ?_) (h.toWritten.unexpiring (hno.unexpiring hr))
  rw [h.info, Option.some.injEq] at hm
  unfold NoTtl at hno
  subst hm
  cases hrow : (d.rows .kvMeta k).row () with
  | none => simp [keyRows, hrow]
  | some m₀ =>
      rw [hrow] at hno
      simpa [keyRows, hrow] using hno

theorem KeyTtl.of_retimed {ts : List Tab} {x : Option Time} (h : Retimed r r' ts x)
    (hts : ∀ t, t ≠ .kvMeta → r t ≠ ∅ → t ∈ ts) : KeyTtl r' := by
  intro m hm t ht s c hc
  rw [h.info] at hm
  obtain ⟨m₀, -, rfl⟩ := Option.map_eq_some_iff.mp hm
  rw [h.data t ht] at hc
  split at hc
  · rw [Table.update_row] at hc
    obtain ⟨c₀, -, rfl⟩ := Option.map_eq_some_iff.mp hc
    rfl
  · rename_i hnot
    exact absurd (hts t ht (Table.ne_empty_of_row hc)) hnot

/-! ### The invariant of the store -/

theorem TtlAgreement.of_frame (hd : TtlAgreement d) (hf : Frame d d' k) (hk : KeyTtl (keyRows d' k)) :
    TtlAgreement d' := by
  intro k' m hm t ht s c hc
  by_cases hkk : k' = k
  · subst hkk
    exact hk m hm t ht s c hc
  · rw [hf _ k' hkk] at hm hc
    exact hd k' m hm t ht s c hc

theorem TtlAgreement.of_replaced (hd : TtlAgreement d) (h : Replaced d d' T) : TtlAgreement d' := by
  intro k
  rcases h k with heq | ⟨x, hfresh⟩
  · have hk : KeyTtl (keyRows d' k) := by
      rw [heq]
      exact hd k
    exact hk
  · exact KeyTtl.of_fresh hfresh

theorem TtlAgreement.of_trimmed (hd : TtlAgreement d) (h : Trimmed d d') : TtlAgreement d' :=
  fun k => KeyTtl.of_trimmed (hd k) h

theorem TtlAgreement.of_upsertedAt (hd : TtlAgreement d) (h : UpsertedAt d d' k T)
    (hno : Unexpiring d k []) : TtlAgreement d' := by
  refine hd.of_frame h.1 (.of_none (fun m hm => ?_)
    (h.2.toWritten.unexpiring fun t ht => hno t ht List.not_mem_nil))
  rw [h.2.info, Option.some.injEq] at hm
  rw [← hm]

/-- `GETSET` writes its row anew. -/
theorem TtlAgreement.of_getSet (hd : TtlAgreement d) (h : UpsertedAt d d' k .string)
    (hdata : ∀ s c, (d'.rows .kvStrings k).row s = some c → c.expiresAt = none)
    (hno : Unexpiring d k [.kvStrings]) : TtlAgreement d' := by
  refine hd.of_frame h.1 (.of_none (fun m hm => ?_) fun t ht s c hc => ?_)
  · rw [h.2.info, Option.some.injEq] at hm
    rw [← hm]
  · by_cases hts : t = .kvStrings
    · subst hts
      exact hdata s c hc
    · rw [h.2.other t ht hts] at hc
      exact hno t ht (by simpa using hts) s c hc

theorem TtlAgreement.of_rotated {source destination : Bytes} (hd : TtlAgreement d)
    (h : Rotated d d' source destination) (hno : NoTtl d destination) : TtlAgreement d' := by
  obtain ⟨-, d₁, htrim, hmeta, hframe, hens⟩ := h
  have hno₁ : NoTtl d₁ destination := by
    unfold NoTtl at hno ⊢
    rw [hmeta]
    cases hm : (d.rows .kvMeta destination).row () with
    | some m =>
        rw [hm] at hno
        exact hno
    | none =>
        rw [hm] at hno
        intro t ht _ s c hc
        obtain ⟨s₀, c₀, hc₀, he, -⟩ := htrim t destination s c hc
        rw [← he]
        exact hno t ht List.not_mem_nil s₀ c₀ hc₀
  exact (hd.of_trimmed htrim).of_frame hframe (.of_ensured (hd.of_trimmed htrim destination) hens hno₁)

theorem TtlAgreement.of_grownAt (hd : TtlAgreement d) (h : GrownAt d d' k T)
    (hno : ∀ m, (d.rows .kvMeta k).row () = some m → m.expiresAt = none) : TtlAgreement d' := by
  refine hd.of_frame h.frame fun m hm t ht s c hc => ?_
  rw [keyRows, h.info] at hm
  rw [hno m hm]
  refine h.written.unexpiring (fun t ht s c hc => ?_) t ht s c hc
  rw [hd k m hm t ht s c hc, hno m hm]

theorem TtlAgreement.of_renamed {old new : Bytes} (hd : TtlAgreement d)
    (h : Renamed d d' old new T) : TtlAgreement d' := by
  intro k m hm t ht s c hc
  by_cases hnew : k = new
  · subst hnew
    rw [h.moved, if_pos (Or.inl rfl)] at hm
    rw [h.moved] at hc
    split at hc
    · exact hd old m hm t ht s c hc
    · cases hc
  · by_cases hold : k = old
    · subst hold
      rw [h.left, if_pos (Or.inl rfl)] at hm
      cases hm
    · rw [h.frame _ k hold hnew] at hm hc
      exact hd k m hm t ht s c hc

theorem TtlAgreement.of_copiedAt {x : Option Time} (hd : TtlAgreement d) (h : CopiedAt d d' k T x)
    (hrows : ∀ t, t ≠ .kvMeta → (t = .kvStrings → T ≠ .string) →
      ∀ s c, (d.rows t k).row s = some c → c.expiresAt = x) : TtlAgreement d' := by
  refine hd.of_frame h.frame fun m hm t ht s c hc => ?_
  rw [keyRows, h.info, Option.some.injEq] at hm
  rw [← hm]
  by_cases htT : t = T.table
  · subst htT
    have hdata := h.data
    by_cases hs : T = .string
    · rw [if_pos hs] at hdata
      exact hdata s c hc
    · rw [if_neg hs] at hdata
      rw [keyRows, hdata] at hc
      exact hrows _ ht (fun _ => hs) s c hc
  · rw [keyRows, h.other t ht htT] at hc
    refine hrows t ht (fun hts hs => htT ?_) s c hc
    rw [hts, hs]
    rfl

/-! ### Runs -/

theorem TtlAgreement.step {e : Env} {c : Cmd S} (hd : TtlAgreement d) (hc : c.KeepsTtl e d)
    (he : c.Effect e d d') : TtlAgreement d' := by
  cases c
  case set | setNX | mSet | bitOp | sInterStore | sUnionStore | sDiffStore | zRangeStore |
      zUnionStore | zInterStore => exact hd.of_replaced he
  case getSet key value =>
    rcases he with h | ⟨h, hdata⟩
    · exact hd.of_trimmed h
    · exact hd.of_getSet h hdata hc
  case zIncrBy key x m =>
    rcases he with h | ⟨h, hnew⟩
    · exact hd.of_trimmed h
    · rcases hc with hno | ⟨hmeta, hmember⟩
      · exact hd.of_frame h.1 (.of_ensured (hd _) h.2 hno)
      · exact absurd hnew (not_or.mpr ⟨hmeta, hmember⟩)
  case rPopLPush source destination =>
    rcases he with h | h
    · exact hd.of_trimmed h
    · rcases hc with hempty | hno
      · exact absurd hempty h.present
      · exact hd.of_rotated h hno
  case lInsert key p x b =>
    rcases he with h | ⟨⟨i, c, hrow, hval⟩, h⟩
    · exact hd.of_trimmed h
    · rcases hc with hmissing | hno
      · exact absurd hval (hmissing i c hrow)
      · exact hd.of_grownAt h hno
  case getEx key t p =>
    rcases he with h | ⟨hsome, happlied, x, h⟩
    · exact hd.of_trimmed h
    · refine hd.of_frame h.1 ?_
      rcases hc happlied hsome with hnone | hin
      · intro m hm
        rw [h.2.info] at hm
        simp [keyRows, hnone] at hm
      · exact .of_retimed h.2 hin
  case expire key t opts | expireAt key t opts =>
    rcases he with h | ⟨m, hm, hwhere, h⟩
    · exact hd.of_trimmed h
    · exact hd.of_frame h.1 (.of_retimed h.2 (hc m hm hwhere))
  case persist key =>
    rcases he with h | ⟨-, h⟩
    · exact hd.of_trimmed h
    · refine hd.of_frame h.1 (.of_retimed h.2 fun t ht _ => ?_)
      cases t <;> first | decide | exact absurd rfl ht
  case rename old new =>
    rcases he with h | ⟨-, T, -, h⟩
    · exact hd.of_trimmed h
    · exact hd.of_renamed h
  case copy source destination replace =>
    rcases he with h | ⟨T, hlive, ⟨x, h⟩ | ⟨hnone, hhll, h⟩⟩
    · exact hd.of_trimmed h
    · exact hd.of_replaced h.replaced
    · exact hd.of_copiedAt h (hc T hlive hhll hnone)
  all_goals
    rcases he with h | ⟨k, T, hu, h⟩
    · exact hd.of_trimmed h
    · exact hd.of_upsertedAt h (hc k T hu)

theorem ttlAgreement_invariant [Float64 S] (h : Reached (fun _ => Cmd.KeepsTtl) now d) : TtlAgreement d := by
  induction h with
  | start now => intro k m hm; cases hm
  | step e c _ hc ih => exact ih.step hc c.exec_effect

/-- **All copies of the expiry agree** in every state reached by commands that meet the condition,
so at every instant `kv_meta` and the data rows agree on whether a key is alive. -/
theorem ttlAgreement_of_reached [Float64 S] (h : Reached (fun _ => Cmd.KeepsTtl) now d) :
    TtlAgreement d ∧ ∀ (now' : Time) (k : Bytes) (t : Tab), t ≠ .kvMeta →
      d.rows .kvMeta k ≠ ∅ → d.rows t k ≠ ∅ →
        ((liveType now' d k).isSome ↔ live now' (d.rows t k) ≠ ∅) := by
  have hd := ttlAgreement_invariant h
  refine ⟨hd, fun now' k t ht hmeta hrows => ?_⟩
  obtain ⟨⟨⟩, m, hm⟩ := Table.ne_empty_iff.mp hmeta
  have hmlive : (liveType now' d k).isSome ↔ m.live now' = true := by
    cases hl : m.live now' <;> simp [liveType, live_row, hm, hl]
  rw [hmlive, live_ne_empty]
  constructor
  · intro hlive
    obtain ⟨s, c, hc⟩ := Table.ne_empty_iff.mp hrows
    exact ⟨s, c, hc, (Cell.live_congr (hd k m hm t ht s c hc)).trans hlive⟩
  · rintro ⟨s, c, hc, hlive⟩
    exact (Cell.live_congr (hd k m hm t ht s c hc)).symm.trans hlive

/-- The condition at work: `SET k 1 EX 10`, then `EXPIRE k 20`. -/
theorem ttlAgreement_of_reached_setThenExpire : TtlAgreement
    ((Cmd.expire [107] 20000000000 ⟨false, false, false, false⟩).exec (envAt 0)
      ((Cmd.set [107] [49] 10000000000).exec (envAt 0) emptyDB).2 : _ × DB ℤ).2 := by
  refine (ttlAgreement_of_reached (.step (envAt 0) _
    (.step (envAt 0) (.set [107] [49] 10000000000) (.start 0) nofun) ?_)).1
  intro m hm _ t ht hne
  have hmeta : (((Cmd.set [107] [49] 10000000000).exec (envAt 0) emptyDB : _ × DB ℤ).2.rows .kvMeta
      [107]).row () = some ⟨.string, some 10000000⟩ := by decide
  obtain rfl := Option.some.inj (hmeta.symm.trans hm)
  revert t
  decide

/-! ### An expiry left behind -/

/-- `SET k 1 EX 10`, then `INCR k`. -/
def setThenIncr : DB ℤ :=
  ((Cmd.incr [107] 1).exec (envAt 0) ((Cmd.set [107] [49] 10000000000).exec (envAt 0) emptyDB).2).2

/-- `INCR` writes a `kv_meta` row without expiry and keeps the expiry of the string row. -/
theorem ttlAgreement_fails :
    Reached (fun _ _ _ _ => True) 0 setThenIncr ∧ ¬ TtlAgreement setThenIncr := by
  refine ⟨.step (envAt 0) _ (.step (envAt 0) _ (.start 0) trivial) trivial, fun h => ?_⟩
  have hmeta : (setThenIncr.rows .kvMeta [107]).row () = some ⟨.string, none⟩ := by decide
  have hrow : (setThenIncr.rows .kvStrings [107]).row () = some ⟨[50], some 10000000⟩ := by
    decide
  have heq := h [107] _ hmeta .kvStrings (by decide) () _ hrow
  cases heq

end Postkeys
