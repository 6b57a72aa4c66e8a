import Postkeys.Effects.Kinds
import Postkeys.Ghost.Reads

/-! # What the operations on values do to the tables

One lemma per writing operation on strings, hashes, lists, sets, sorted sets and HyperLogLogs says
which kind of change it makes. -/

namespace Postkeys

open Relational Program

variable {S : Type} {e : Env} {d d' : DB S} {k : Bytes} {ks : List Bytes} {Q : Unit → DB S → Prop}

/-- A statement that sees live rows only changes nothing. -/
theorem trimmed_of_blindSql {β : Type} {s : Stm S β} (h : s.Blind Ghost) : s.Within Trimmed :=
  h.within Ghost.refl Trimmed.refl

/-- An operation that sees live rows only changes nothing. -/
theorem trimmed_of_blind {α : Type} {p : Op S α} (h : p.Blind Ghost) : p.Within Trimmed :=
  h.within Ghost.refl Trimmed.refl

/-! ### String operations -/

/-- The write behind `INCR` and its like. -/
theorem wp_writeString (value : Bytes) :
    wp e (do setMeta k .string none; query (upsertString k value))
      (fun _ d' => StoredAt d d' k .string) d := by
  simp only [upsertString, wp_bind, wp_setMeta, wp_query, wpSql_upsertRow]
  exact StoredAt.of_write .string (Grown.putOr rfl fun _ => Or.inr rfl) putOr_ne_empty

theorem set_effect (key value : Bytes) (ttl : ℤ) :
    wp e (set key value ttl) (fun _ d' =>
      ∃ x, PlacedAt d d' (encodeKey key) .string x ∧ (ttl ≤ 0 → x = none)) d := by
  have hput (u : Table Unit (Row S .kvStrings)) (x : Option Time) :
      ∀ s c, (putOr .kvStrings u () ⟨value, x⟩ fun _ => ⟨value, x⟩).row s = some c →
        c.expiresAt = x := by
    intro s c hc
    cases hu : u.row () <;> simp [putOr, hu] at hc <;> rw [← hc]
  unfold set
  simp only [wp_bind, wp_deleteKeyFromAllTables, wp_ite, wp_clock, pure_eq, wp_ret, wp_setMeta,
    wp_query, wpSql_upsertRow]
  refine ⟨fun ht => ⟨_, ⟨Fresh.of_write .string _ (hput _ _), Full.of_write .string _ putOr_ne_empty⟩,
    fun h => absurd h (not_le.mpr ht)⟩, fun _ => ⟨_, ⟨Fresh.of_write .string _ (hput _ _),
    Full.of_write .string _ putOr_ne_empty⟩, fun _ => rfl⟩⟩

theorem setNX_effect (key value : Bytes) (ttl : ℤ) :
    wp e (setNX key value ttl)
      (fun _ d' => d' = d ∨
        ∃ x, PlacedAt d d' (encodeKey key) .string x ∧ (ttl ≤ 0 → x = none)) d := by
  unfold setNX
  simp only [wp_bind, wp_lockKey, wp_query, wpSql_selectLive, wp_ite, pure_eq, wp_ret]
  refine ⟨fun _ => Or.inl trivial, fun _ => ?_⟩
  exact wp_mono (set_effect key value ttl) fun _ d' h => Or.inr h

theorem incr_effect (key : Bytes) (delta : ℤ) :
    wp e (incr key delta) (fun _ d' => StoredAt d d' (encodeKey key) .string) d := by
  unfold incr selectString
  simp only [wp_bind, wp_query, wpSql_selectLive, pure_eq]
  cases (live e.now (d.rows .kvStrings (encodeKey key))).row () with
  | none => exact wp_writeString _
  | some v =>
      dsimp only
      cases parseInt v with
      | none => exact wp_raise _
      | some n => exact wp_writeString _

theorem appendStr_effect (key value : Bytes) :
    wp e (appendStr key value) (fun _ d' => StoredAt d d' (encodeKey key) .string) d := by
  unfold appendStr
  simp only [wp_bind, wp_query, wpSql_selectAll, wp_setMeta, wpSql_upsertRow]
  split
  · exact StoredAt.of_write .string (Grown.putOr rfl fun _ => Or.inr rfl) putOr_ne_empty
  · exact wp_raise _

theorem setRange_effect (key : Bytes) (offset : ℤ) (value : Bytes) :
    wp e (setRange key offset value) (fun _ d' => StoredAt d d' (encodeKey key) .string) d := by
  unfold setRange selectString
  simp only [wp_bind, wp_query, wpSql_selectLive]
  split
  · exact wp_fail _
  · exact wp_writeString _

theorem setBit_effect (key : Bytes) (offset value : ℤ) :
    wp e (setBit key offset value) (fun _ d' => StoredAt d d' (encodeKey key) .string) d := by
  unfold setBit selectString
  simp only [wp_bind, wp_query, wpSql_selectLive]
  split
  · exact wp_fail _
  · exact wp_writeString _

theorem getSet_effect (key value : Bytes) :
    wp e (getSet key value) (fun _ d' => StoredAt d d' (encodeKey key) .string ∧
      ∀ s c, (d'.rows .kvStrings (encodeKey key)).row s = some c → c.expiresAt = none) d := by
  unfold getSet selectString
  simp only [wp_bind, wp_query, wpSql_selectLive, wp_setMeta, wpSql_upsertRow, pure_eq, wp_ret]
  refine ⟨StoredAt.of_write .string (Grown.putOr rfl fun _ => Or.inl rfl) putOr_ne_empty,
    fun s c hc => ?_⟩
  cases hu : (d.rows .kvStrings (encodeKey key)).row () <;> simp [putOr, hu] at hc <;> rw [← hc]

theorem incrByFloat_effect [Float64 S] (key : Bytes) (delta : S) :
    wp e (incrByFloat key delta) (fun _ d' => TypeOk e.now d (encodeKey key) .string ∧
      StoredAt d d' (encodeKey key) .string) d := by
  unfold incrByFloat selectString
  simp only [wp_requireType, wp_bind, wp_query, wpSql_selectLive, pure_eq]
  intro hk
  cases (live e.now (d.rows .kvStrings (encodeKey key))).row () with
  | none => exact wp_mono (wp_writeString _) fun _ _ h => ⟨hk, h⟩
  | some v =>
      dsimp only
      cases (Float64.parseFloat v : Option S) with
      | none => exact wp_raise _
      | some x => exact wp_mono (wp_writeString _) fun _ _ h => ⟨hk, h⟩


theorem bitField_modified {st st' : BitFieldState} {ops : List BitFieldOp}
    (hops : ∀ op ∈ ops, op.opType = .get) (h : bitFieldLoop st ops = some st') :
    st'.modified = st.modified := by
  induction ops generalizing st with
  | nil =>
      cases h
      rfl
  | cons op ops ih =>
      rw [bitFieldLoop, List.foldlM_cons] at h
      obtain ⟨st₁, h₁, h₂⟩ := Option.bind_eq_some_iff.mp h
      rw [ih (fun op' hop' => hops op' (List.mem_cons_of_mem op hop')) h₂]
      simp only [bitFieldStep, hops op (List.mem_cons_self ..)] at h₁
      obtain ⟨value, -, h₁⟩ := Option.bind_eq_some_iff.mp h₁
      obtain ⟨oldValue, -, h₁⟩ := Option.bind_eq_some_iff.mp h₁
      cases h₁
      rfl

theorem bitField_effect (key : Bytes) (ops : List BitFieldOp) :
    wp e (bitField key ops) (fun _ d' => Trimmed d d' ∧ SameKeys d d' ∨
      ((live e.now (d.rows .kvStrings (encodeKey key))).row ()).isNone ∧
        (∃ op ∈ ops, op.opType ≠ .get) ∧ StoredAt d d' (encodeKey key) .string) d := by
  unfold bitField selectString
  simp only [wp_bind, wp_query, wpSql_selectLive]
  split
  · exact wp_fail _
  · rename_i st hloop
    simp only [wp_ite]
    refine ⟨fun hmod => ?_, fun _ => Or.inl ⟨Trimmed.refl d, SameKeys.refl d⟩⟩
    have hops : ∃ op ∈ ops, op.opType ≠ .get := by
      by_contra hget
      push Not at hget
      rw [bitField_modified hget hloop] at hmod
      cases hmod
    simp only [wp_bind, pure_eq]
    refine ⟨fun hnone => ?_, fun hsome => ?_⟩
    · exact wp_mono (wp_writeString _) fun _ _ h => Or.inr ⟨hnone, hops, h⟩
    · -- the live row keeps its expiry
      simp only [wp_lockKey, wp_query, upsertString, wpSql_upsertRow, wp_ret]
      cases hrow : (d.rows .kvStrings (encodeKey key)).row () with
      | none => simp [live_row, hrow] at hsome
      | some r =>
          refine Or.inl ⟨Trimmed.setRows fun s c hc => ?_, SameKeys.setRows (by decide)
            (iff_of_false putOr_ne_empty (Table.ne_empty_of_row hrow))⟩
          simp only [putOr, hrow, Option.elim_some, Table.put_unit, Table.single_unit_row,
            Option.some.injEq] at hc
          subst hc
          exact ⟨(), r, hrow, rfl, fun ht => absurd ht (by decide)⟩

theorem getEx_effect (key : Bytes) (ttl : ℤ) (persist : Bool) :
    wp e (getEx key ttl persist) (fun _ d' => d' = d ∨
      ((live e.now (d.rows .kvStrings (encodeKey key))).row ()).isSome ∧
        (persist = true ∨ 0 < ttl) ∧
          ∃ x, RetimedAt d d' (encodeKey key) [.kvStrings] x ∧ (ttl ≤ 0 → x = none)) d := by
  have hm (x : Option Time) : ((d.rows .kvMeta (encodeKey key)).update (fun _ _ => true)
      fun r => ⟨r.val, x⟩).row () = ((d.rows .kvMeta (encodeKey key)).row ()).map
        fun m => ⟨m.val, x⟩ := by simp [Table.update_row]
  unfold getEx selectString
  simp only [wp_bind, wp_lockKey, wp_query, wpSql_selectLive]
  split
  · exact Or.inl rfl
  · rename_i v hv
    simp only [wp_bind, wp_ite, wp_query, wpSql_setExpiry, wp_clock, pure_eq, wp_ret, hv]
    refine ⟨fun hp => Or.inr ⟨rfl, Or.inl hp, none, ?_, fun _ => rfl⟩, fun _ =>
      ⟨fun ht => Or.inr ⟨rfl, Or.inr ht, some (pgTime (e.time + ttl)), ?_,
        fun h => absurd h (not_le.mpr ht)⟩, fun _ => ?_⟩⟩
    · exact RetimedAt.of_table (t := .kvStrings) (by decide) (hm _) rfl
    · exact RetimedAt.of_table (t := .kvStrings) (by decide) (hm _) rfl
    · exact Or.inl trivial

/-- Deleting several keys from one table. -/
theorem wpSql_deleteKeys (t : Tab) (ks : List Bytes) :
    wpSql e (Sql.forEach (deleteKey t) ks)
      (fun _ d' => ∀ t' k, d'.rows t' k = if t' = t ∧ k ∈ ks then ∅ else d.rows t' k) d := by
  induction ks generalizing d with
  | nil => exact fun t' k => by simp
  | cons k ks ih =>
      rw [Sql.forEach, wpSql_bind, wpSql_deleteKey]
      refine wpSql_mono ih fun _ d' h t' k' => ?_
      rw [h]
      by_cases ht : t' = t
      · subst ht
        by_cases hk : k' = k <;> simp [hk]
      · simp [ht]

theorem wp_deleteKeysFrom (ts : List Tab) (ks : List Bytes) :
    wp e (Program.forEach (fun t => query (Sql.forEach (deleteKey t) ks)) ts : Op S Unit)
      (fun _ d' => ∀ t k, d'.rows t k = if t ∈ ts ∧ k ∈ ks then ∅ else d.rows t k) d := by
  induction ts generalizing d with
  | nil => exact fun t k => by simp
  | cons t ts ih =>
      rw [Program.forEach, wp_bind, wp_query]
      refine wpSql_mono (wpSql_deleteKeys t ks) fun _ d₁ h₁ => ?_
      refine wp_mono ih fun _ d' h t' k' => ?_
      rw [h, h₁]
      by_cases ht : t' = t
      · subst ht
        by_cases hk : k' ∈ ks <;> simp [hk]
      · simp [ht]

/-- The keys `ks` are strings without expiry, the others as they were. -/
def StringsAt (d d' : DB S) (ks : List Bytes) : Prop :=
  ∀ k, if k ∈ ks then Fresh (keyRows d' k) .string none else keyRows d' k = keyRows d k

theorem StringsAt.setRows {t : Tab} {u : Table t.Sub (Row S t)}
    (h : StringsAt d d' ks) (hk : k ∈ ks)
    (hf : Fresh (keyRows (d'.setRows t k u) k) .string none) :
    StringsAt d (d'.setRows t k u) ks := by
  intro k'
  by_cases hkk : k' = k
  · subst hkk
    rw [if_pos hk]
    exact hf
  · have hrows : keyRows (d'.setRows t k u) k' = keyRows d' k' :=
      funext fun t' => Store.rows_setRows_of_ne_key _ _ _ hkk _
    rw [hrows]
    exact h k'

theorem StringsAt.fresh (h : StringsAt d d' ks) (hk : k ∈ ks) :
    Fresh (keyRows d' k) .string none := by
  have hk' := h k
  rwa [if_pos hk] at hk'

theorem wp_deleteKeysFromAllTables (ks : List Bytes) :
    wp e (deleteKeysFromAllTables ks) (fun _ d' => StringsAt d d' ks) d := by
  unfold deleteKeysFromAllTables
  simp only [wp_ite, pure_eq, wp_ret, wp_bind, wp_lockKeys]
  refine ⟨fun hks k => by simp [hks], fun _ => ?_⟩
  refine wp_mono (wp_deleteKeysFrom allTables ks) fun _ d' h k => ?_
  have hall (t : Tab) : t ∈ allTables := by cases t <;> decide
  split
  · rename_i hk
    exact Fresh.of_empty (fun t => by simp [keyRows, h, hall, hk]) _ _
  · rename_i hk
    exact funext fun t => by simp [keyRows, h, hk]

theorem wp_setMetaBatch (h : StringsAt d d' ks) :
    wp e (setMetaBatch ks .string) (fun _ d'' => StringsAt d d'' ks) d' := by
  unfold setMetaBatch
  simp only [wp_ite, pure_eq, wp_ret, wp_bind, wp_lockKeys, wp_query, wpSql_ite]
  refine ⟨fun _ => h, fun _ => ⟨fun _ => ?_, fun _ => wpSql_error _⟩⟩
  refine wpSql_forEach (fun k hk d₁ h₁ => ?_) h
  rw [wpSql_upsertRow]
  refine h₁.setRows hk ⟨fun t hm ht => ?_, fun m hm => ?_, fun s c hc => ?_⟩
  · simpa [keyRows, hm] using (h₁.fresh hk).other t hm ht
  · cases hrow : (d₁.rows .kvMeta k).row () with
    | none =>
        simp [keyRows, putOr, hrow] at hm
        exact hm.symm
    | some r =>
        have hr := (h₁.fresh hk).info r hrow
        simp [keyRows, putOr, hrow, hr] at hm
        exact hm.symm
  · refine (h₁.fresh hk).data s c ?_
    simpa [keyRows, KeyType.table] using hc

theorem wpSql_upsertStrings {pairs : List (Bytes × Bytes)}
    (hp : ∀ p ∈ pairs, p.1 ∈ ks) (h : StringsAt d d' ks) :
    wpSql e (Sql.forEach (fun p => upsertString p.1 p.2) pairs)
      (fun _ d'' => StringsAt d d'' ks) d' := by
  refine wpSql_forEach (fun p hmem d₁ h₁ => ?_) h
  have hk := hp p hmem
  rw [upsertString, wpSql_upsertRow]
  refine h₁.setRows hk ⟨fun t hm ht => ?_, fun m hm => ?_, fun s c hc => ?_⟩
  · have ht' : t ≠ .kvStrings := ht
    simpa [keyRows, ht'] using (h₁.fresh hk).other t hm ht
  · refine (h₁.fresh hk).info m ?_
    simpa [keyRows] using hm
  · have hgrown : Grown (d₁.rows .kvStrings p.1) (putOr .kvStrings (d₁.rows .kvStrings p.1) ()
        ⟨p.2, none⟩ fun r => ⟨p.2, r.expiresAt⟩) := Grown.putOr rfl fun _ => Or.inr rfl
    refine hgrown.without_expiry (h₁.fresh hk).data s c ?_
    simpa [keyRows, KeyType.table] using hc

/-- A row that is there is still there after an upsert. -/
theorem row_after_upsert {t : Tab} {k' : Bytes} {s s' : t.Sub} {r : Row S t} {f : Row S t → Row S t}
    (h : ((d.rows t k).row s).isSome = true) :
    wpSql e (upsertRow t k' s' r f) (fun _ d' => ((d'.rows t k).row s).isSome = true) d := by
  rw [wpSql_upsertRow]
  by_cases hk : k = k'
  · subst hk
    rw [Store.rows_setRows_self, putOr, Table.put_row]
    split
    · rfl
    · exact h
  · rwa [Store.rows_setRows_of_ne_key _ _ _ hk]

/-- `kv_meta` and then the strings of all pairs are written. -/
theorem wp_writeStrings (pairs : List (Bytes × Bytes))
    (hks : ∀ k ∈ ks, ∃ p ∈ pairs, p.1 = k) (hne : ks ≠ []) :
    wp e (do setMetaBatch ks .string; query (Sql.forEach (fun p => upsertString p.1 p.2) pairs))
      (fun _ d' => ∀ k ∈ ks, ((d'.rows .kvMeta k).row ()).isSome ∧ d'.rows .kvStrings k ≠ ∅) d := by
  unfold setMetaBatch
  simp only [wp_bind, wp_ite, wp_lockKeys, wp_query, wpSql_ite, pure_eq]
  refine ⟨fun h => absurd h hne, fun _ => ⟨fun _ => ?_, fun _ => wpSql_error _⟩⟩
  refine wpSql_mono (wpSql_forEach_all (P := fun k d => ((d.rows .kvMeta k).row ()).isSome = true)
    (fun k d => ?_) fun k k' d h => row_after_upsert h) fun _ d₁ hmeta => ?_
  · simp [putOr]
  · have hrows := wpSql_forEach_all (e := e) (d := d₁) (l := pairs)
      (f := fun p => (upsertString p.1 p.2 : Stm S Unit))
      (P := fun (p : Bytes × Bytes) (d : DB S) => ((d.rows .kvStrings p.1).row ()).isSome = true)
      (fun p d => by simp [upsertString, putOr]) fun p p' d h => row_after_upsert h
    have hsame := wpSql_forEach (e := e) (d := d₁) (l := pairs)
      (f := fun p => (upsertString p.1 p.2 : Stm S Unit))
      (I := fun d => ∀ k ∈ ks, ((d.rows .kvMeta k).row ()).isSome)
      (fun p _ d h k hk => by simpa using h k hk) hmeta
    refine wpSql_mono (wpSql_and hrows hsame) ?_
    rintro _ d' ⟨hrows, hmeta⟩ k hk
    obtain ⟨p, hp, rfl⟩ := hks k hk
    refine ⟨hmeta p.1 hk, fun hempty => ?_⟩
    have hrow := hrows p hp
    rw [hempty] at hrow
    cases hrow

theorem mSet_effect (pairs : Table Bytes Bytes) :
    wp e (mSet pairs) (fun _ d' => Settled d d' .string) d := by
  unfold mSet
  simp only [wp_bind, wp_random, wp_ite, pure_eq, wp_ret]
  refine ⟨fun _ => Settled.refl d _, fun hne => ?_⟩
  refine wp_mono (wp_deleteKeysFromAllTables _) fun _ d₁ h₁ => ?_
  have hmem : ∀ p ∈ (encodePairs e.random pairs).toList,
      p.1 ∈ Table.ascending (encodePairs e.random pairs).dom := by
    rintro ⟨k, v⟩ hp
    exact Table.mem_ascending.mpr (Table.mem_dom_of_row (Table.mem_toList.mp hp))
  have hfresh : wp e (do
      setMetaBatch (Table.ascending (encodePairs e.random pairs).dom) .string
      query (Sql.forEach (fun p => upsertString p.1 p.2) (encodePairs e.random pairs).toList))
      (fun _ d' => StringsAt d d' (Table.ascending (encodePairs e.random pairs).dom)) d₁ :=
    (wp_bind _ _).mpr (wp_mono (wp_setMetaBatch h₁) fun _ d₂ h₂ => wpSql_upsertStrings hmem h₂)
  have hks : ∀ k ∈ Table.ascending (encodePairs e.random pairs).dom,
      ∃ p ∈ (encodePairs e.random pairs).toList, p.1 = k := by
    intro k hk
    obtain ⟨v, hv⟩ := Option.isSome_iff_exists.mp
      ((Table.mem_dom _ k).mp (Table.mem_ascending.mp hk))
    exact ⟨(k, v), Table.mem_toList.mpr hv, rfl⟩
  have hnil : Table.ascending (encodePairs e.random pairs).dom ≠ [] := by
    obtain ⟨k, v, hv⟩ := Table.ne_empty_iff.mp hne
    exact List.ne_nil_of_mem (Table.mem_ascending.mpr (Table.mem_dom_of_row hv))
  refine (wp_bind _ _).mp (wp_mono (wp_and hfresh (wp_writeStrings _ hks hnil)) ?_)
  rintro _ d' ⟨hfresh, hfull⟩ k
  have hk := hfresh k
  split at hk
  · rename_i hmem
    obtain ⟨m, hm⟩ := Option.isSome_iff_exists.mp (hfull k hmem).1
    exact Or.inr (Or.inr ⟨hk, ⟨none, by rw [keyRows, hm, hk.info m hm]⟩, (hfull k hmem).2⟩)
  · exact Or.inl hk

theorem bitOp_effect (operation : BitOperation) (destKey : Bytes) (keys : List Bytes) :
    wp e (bitOp operation destKey keys) (fun _ d' => Settled d d' .string) d := by
  unfold bitOp
  simp only [wp_ite, wp_bind, pure_eq, wp_ret]
  refine ⟨fun _ => Settled.refl d _, fun _ => (blind_selectStrings _).wp Ghost.refl fun values => ?_⟩
  split
  · exact wp_raise _
  · simp only [wp_bind, wp_deleteKeyFromAllTables, wp_setMeta, upsertString, wp_query,
      wpSql_upsertRow, wp_ret]
    refine PlacedAt.settled (k := encodeKey destKey) ⟨?_, Full.of_write .string none putOr_ne_empty⟩
    exact Fresh.of_grown .string (Grown.putOr rfl fun _ => Or.inr rfl)

/-! ### Hash operations -/

/-- The write behind `HINCRBY` and its like. -/
theorem wp_writeField (field value : Bytes) :
    wp e (do setMeta k .hash none; query (upsertField k field value))
      (fun _ d' => StoredAt d d' k .hash) d := by
  simp only [upsertField, wp_bind, wp_setMeta, wp_query, wpSql_upsertRow]
  exact StoredAt.of_write .hash (Grown.putOr rfl fun _ => Or.inr rfl) putOr_ne_empty

theorem fieldRows_ne_nil {order : List ℕ} {fields : Table Bytes Bytes} (h : fields ≠ ∅) :
    (fieldRows order fields : List (Bytes × Row S .kvHashes)) ≠ [] := by
  obtain ⟨f, v, hf⟩ := Table.ne_empty_iff.mp h
  have hmem := (Table.shuffle_perm order _).mem_iff.mpr (Table.mem_toList.mpr hf)
  exact List.ne_nil_of_mem (List.mem_map_of_mem hmem)

theorem hSet_effect (key : Bytes) (fields : Table Bytes Bytes) :
    wp e (hSet key fields) (fun _ d' => d' = d ∨ fields ≠ ∅ ∧
      TypeOk e.now d (encodeKey key) .hash ∧ StoredAt d d' (encodeKey key) .hash) d := by
  unfold hSet
  simp only [wp_ite, wp_requireType, wp_bind, wp_random, wp_query, wpSql_selectAll, wp_setMeta,
    wpSql_upsertRows, pure_eq, wp_ret]
  refine ⟨fun _ => Or.inl trivial, fun hne hok _ => Or.inr ⟨hne, hok, ?_⟩⟩
  exact StoredAt.of_write .hash
    (Grown.putAll (List.forall_mem_map.mpr fun _ _ => rfl) fun _ _ => rfl)
    (putAll_ne_empty (Or.inl (fieldRows_ne_nil hne)))

theorem hIncrBy_effect (key field : Bytes) (increment : ℤ) :
    wp e (hIncrBy key field increment) (fun _ d' => TypeOk e.now d (encodeKey key) .hash ∧
      StoredAt d d' (encodeKey key) .hash) d := by
  unfold hIncrBy selectField
  simp only [wp_requireType, wp_bind, wp_query, wpSql_selectLive, pure_eq]
  intro hk
  cases (live e.now (d.rows .kvHashes (encodeKey key))).row (encodeField field) with
  | none => exact wp_mono (wp_writeField _ _) fun _ _ h => ⟨hk, h⟩
  | some v =>
      dsimp only
      cases parseInt v with
      | none => exact wp_raise _
      | some n => exact wp_mono (wp_writeField _ _) fun _ _ h => ⟨hk, h⟩

theorem hIncrByFloat_effect [Float64 S] (key field : Bytes) (increment : S) :
    wp e (hIncrByFloat key field increment) (fun _ d' => TypeOk e.now d (encodeKey key) .hash ∧
      StoredAt d d' (encodeKey key) .hash) d := by
  unfold hIncrByFloat selectField
  simp only [wp_requireType, wp_bind, wp_query, wpSql_selectLive, pure_eq]
  intro hk
  cases (live e.now (d.rows .kvHashes (encodeKey key))).row (encodeField field) with
  | none => exact wp_mono (wp_writeField _ _) fun _ _ h => ⟨hk, h⟩
  | some v =>
      dsimp only
      cases (Float64.parseFloat v : Option S) with
      | none => exact wp_raise _
      | some x => exact wp_mono (wp_writeField _ _) fun _ _ h => ⟨hk, h⟩

theorem hSetNX_effect (key field value : Bytes) :
    wp e (hSetNX key field value) (fun _ d' => TypeOk e.now d (encodeKey key) .hash ∧
      StoredAt d d' (encodeKey key) .hash) d := by
  unfold hSetNX
  simp only [wp_requireType, wp_bind, wp_setMeta, wp_query, wpSql_insertIgnore, pure_eq, wp_ret]
  exact fun hk => ⟨hk, StoredAt.of_write .hash (Grown.addFree (List.forall_mem_singleton.mpr rfl))
    (addFree_ne_empty (Or.inl (List.cons_ne_nil _ _)))⟩

/-! ### List operations -/

theorem push_effect (key : Bytes) (values : List Bytes) (message : String)
    (start : Table ℤ (Row S .kvLists) → ℤ) (index : ℤ → ℕ → ℤ) :
    wp e (push key values message start index) (fun _ d' => d' = d ∨ values ≠ [] ∧
      TypeOk e.now d (encodeKey key) .list ∧ StoredAt d d' (encodeKey key) .list) d := by
  unfold push selectListLength
  simp only [wp_requireType, wp_ite, wp_bind, wp_queryContext, wpSql_selectAll, wp_lockKey, wp_setMeta,
    wp_query, wpSql_insertRows]
  refine fun hok => ⟨fun _ => Or.inl trivial, fun hne u hu => Or.inr ⟨hne, hok, ?_⟩⟩
  have hrows : values.zipIdx ≠ [] := fun h => hne (List.zipIdx_eq_nil_iff.mp h)
  exact StoredAt.of_write .list (Grown.addRows (List.forall_mem_map.mpr fun _ _ => rfl) hu)
    (addRows_ne_empty hu (Or.inl (by simpa using hrows)))

/-- A statement that finds a key and pops from it. -/
theorem trimmed_popAt {α β : Type} {find : Stm S (Option Bytes)} (hfind : find.Within Trimmed)
    {pop : Bytes → Stm S α} (hpop : ∀ k, (pop k).Within Trimmed) (f : Bytes → α → Option β) :
    (do
      let winner ← find
      match winner with
      | none => pure none
      | some k => do
          let rows ← pop k
          pure (f k rows) : Stm S (Option β)).Within Trimmed := by
  refine within_bind (R := Trimmed) (fun _ _ _ => Trimmed.trans) hfind fun winner => ?_
  cases winner with
  | none => exact within_pure Trimmed.refl _
  | some k =>
      exact within_bind (R := Trimmed) (fun _ _ _ => Trimmed.trans) (hpop k) fun _ => within_pure Trimmed.refl _

theorem trimmed_readRowsIn {β : Type} (t : Tab) (ks : List Bytes)
    (f : Ctx Bytes Tab.Sub → (Bytes → Table t.Sub (Row S t)) → β) :
    (Sql.readRowsIn t ks f).Within Trimmed := by
  rintro c d d' b ⟨⟩
  exact Trimmed.refl d

/-- Shifted rows keep their expiry. -/
theorem shiftRows_grown {u u' : Table ℤ (Row S .kvLists)} {is : List ℤ}
    (h : shiftRows u is = .ok u') : Grown (t := .kvLists) u u' := by
  induction is generalizing u with
  | nil =>
      cases h
      exact Grown.refl (t := .kvLists) _
  | cons i is ih =>
      rw [shiftRows] at h
      split at h
      · exact ih h
      · rename_i r hr
        split_ifs at h
        refine Grown.trans (t := .kvLists) ?_ (ih h)
        intro s c hc
        rw [Table.put_row] at hc
        split at hc
        · cases hc
          exact Or.inr ⟨i, r, hr, rfl⟩
        · exact Or.inr ⟨s, c, (Table.restrict_row_some.mp hc).1, rfl⟩

theorem wpSql_shiftWhere (p : ℤ → Bool) :
    wpSql e (shiftWhere k p) Q d ↔
      ∀ u, shiftRows (d.rows .kvLists k) (Table.shuffle e.order
        (((listRows (d.rows .kvLists k)).map Prod.fst).filter p)) = .ok u →
          Q () (d.setRows .kvLists k u) := by
  simp only [wpSql, shiftWhere, Sql.onRows, Env.ctx]
  cases shiftRows (d.rows .kvLists k) (Table.shuffle e.order
    (((listRows (d.rows .kvLists k)).map Prod.fst).filter p)) <;> simp [Except.map]

/-- Moving rows up and inserting one at a free index. -/
theorem lInsert_grown {p : ℤ → Bool} {i : ℤ} {element : Bytes}
    (hQ : ∀ u, Grown (t := .kvLists) (d.rows .kvLists k) u → u ≠ ∅ → Q () (d.setRows .kvLists k u)) :
    wpSql e (shiftWhere k p) (fun _ d' =>
      wpSql e (insertRows .kvLists k [(i, ⟨element, none⟩)]) Q d') d := by
  simp only [wpSql_shiftWhere, wpSql_insertRows, Store.rows_setRows_self, Store.setRows_setRows]
  intro u hu u' hu'
  exact hQ u' (Grown.trans (t := .kvLists) (shiftRows_grown hu)
    (Grown.addRows (List.forall_mem_singleton.mpr rfl) hu'))
    (addRows_ne_empty hu' (Or.inl (List.cons_ne_nil _ _)))

theorem lInsert_effect (key pivot element : Bytes) (before : Bool) :
    wp e (lInsert key pivot element before) (fun _ d' => d' = d ∨
      (∃ i c, (d.rows .kvLists (encodeKey key)).row i = some c ∧ c.val = pivot) ∧
        GrownAt d d' (encodeKey key) .list ∧ d'.rows .kvLists (encodeKey key) ≠ ∅) d := by
  unfold lInsert selectListLength
  simp only [wp_bind, wp_query, wpSql_selectAll]
  split
  · exact Or.inl rfl
  · rename_i idx hidx
    obtain ⟨⟨i, c⟩, hfind, -⟩ := Option.map_eq_some_iff.mp hidx
    have hrow : (d.rows .kvLists (encodeKey key)).row i = some c :=
      Table.mem_toList.mp (List.mem_of_find?_eq_some hfind)
    have hval : c.val = pivot := by simpa using List.find?_some hfind
    have hgrown (u : Table ℤ (Row S .kvLists))
        (hu : Grown (t := .kvLists) (d.rows .kvLists (encodeKey key)) u) (hne : u ≠ ∅) :
        GrownAt d (d.setRows .kvLists (encodeKey key) u) (encodeKey key) .list ∧
          (d.setRows .kvLists (encodeKey key) u).rows .kvLists (encodeKey key) ≠ ∅ := by
      refine ⟨⟨Frame.setRows _ _, fun hempty => ?_, by simp, Written.of_setRows .list hu fun _ _ => rfl⟩,
        by rwa [Store.rows_setRows_self]⟩
      rw [show d.rows .kvLists (encodeKey key) = ∅ from hempty] at hrow
      cases hrow
    simp only [wp_bind, wp_lockKey, wp_ite, wp_query, wpSql_selectAll]
    exact ⟨fun _ => lInsert_grown fun u hu hne => Or.inr ⟨⟨i, c, hrow, hval⟩, hgrown u hu hne⟩,
      fun _ => lInsert_grown fun u hu hne => Or.inr ⟨⟨i, c, hrow, hval⟩, hgrown u hu hne⟩⟩

/-- What `RPOPLPUSH` does when its source is not empty: a row leaves the source, and one comes to
the destination. -/
structure Rotated (d d' : DB S) (source destination : Bytes) : Prop where
  present : d.rows .kvLists source ≠ ∅
  middle : ∃ d₁, Trimmed d d₁ ∧ (∀ k, d₁.rows .kvMeta k = d.rows .kvMeta k) ∧
    EnsuredAt d₁ d' destination .list

/-- `INSERT … ON CONFLICT DO NOTHING` of the `kv_meta` row, then rows of the type. -/
theorem Ensured.of_write (T : KeyType) {u : Table T.table.Sub (Row S T.table)}
    (hu : Grown ((d.setRows .kvMeta k
      (addFree .kvMeta (d.rows .kvMeta k) [((), ⟨T, none⟩)]).1).rows T.table k) u) :
    EnsuredAt d ((d.setRows .kvMeta k
      (addFree .kvMeta (d.rows .kvMeta k) [((), ⟨T, none⟩)]).1).setRows T.table k u) k T := by
  rw [Store.rows_setRows_of_ne_table _ T.table_ne_meta] at hu
  refine ⟨(Frame.setRows _ _).trans (Frame.setRows _ _), Written.of_setRows T hu fun t ht => ?_, ?_⟩
  · simp [ht]
  · simp only [keyRows, Store.rows_setRows_of_ne_table _ T.table_ne_meta.symm,
      Store.rows_setRows_self, addFree]
    cases hm : (d.rows .kvMeta k).row () with
    | none => simp [Table.single_unit_row]
    | some m => simp [hm]

theorem wpSql_insertHead {value : Bytes}
    (hQ : ∀ u, Grown (t := .kvLists) (d.rows .kvLists k) u → u ≠ ∅ → Q () (d.setRows .kvLists k u)) :
    wpSql e (insertHead k value) Q d := by
  rw [insertHead, wpSql_onRows]
  intro u _ hu
  dsimp only at hu
  split at hu
  · cases hu
  · obtain ⟨u', hadd, heq⟩ := map_eq_ok hu
    cases heq
    exact hQ u (Grown.addRows (List.forall_mem_singleton.mpr rfl) hadd)
      (addRows_ne_empty hadd (Or.inl (List.cons_ne_nil _ _)))

theorem rPopLPush_effect (source destination : Bytes) :
    wp e (rPopLPush source destination) (fun _ d' => d' = d ∨
      Rotated d d' (encodeKey source) (encodeKey destination) ∧
        d'.rows .kvLists (encodeKey destination) ≠ ∅ ∧
        ∃ idx, EnsuredAt (d.setRows .kvLists (encodeKey source)
          ((d.rows .kvLists (encodeKey source)).restrict fun i _ => !decide (i = idx))) d'
          (encodeKey destination) .list) d := by
  unfold rPopLPush
  simp only [wp_bind, wp_lockKeys, wp_queryForUpdate, wpSql_readRows, visible_ctx, Except.ok.injEq,
    forall_eq']
  split
  · exact Or.inl rfl
  · rename_i idx r hlast
    simp only [wp_bind, wp_query, wpSql_deleteWhere, wpSql_insertIgnore, pure_eq, wp_ret]
    refine wpSql_insertHead fun u hu hne => Or.inr ⟨⟨fun hempty => ?_, _, Trimmed.restrict
      (t := .kvLists) (k := encodeKey source) fun i _ => !decide (i = idx), fun k => ?_, ?_⟩, ?_, idx, ?_⟩
    · rw [hempty] at hlast
      cases hlast
    · exact Store.rows_setRows_of_ne_table _ (by decide) _ _ _
    · exact Ensured.of_write .list hu
    · rwa [Store.rows_setRows_self]
    · exact Ensured.of_write .list hu

/-! ### Set operations -/

theorem sAdd_effect (key : Bytes) (members : List Bytes) :
    wp e (sAdd key members) (fun _ d' => d' = d ∨ members ≠ [] ∧
      TypeOk e.now d (encodeKey key) .set ∧ StoredAt d d' (encodeKey key) .set) d := by
  unfold sAdd
  simp only [wp_ite, wp_requireType, wp_bind, wp_setMeta, wp_query, wpSql_insertIgnore, pure_eq, wp_ret]
  refine ⟨fun _ => Or.inl trivial, fun hne hok => Or.inr ⟨hne, hok, ?_⟩⟩
  exact StoredAt.of_write .set (Grown.addFree (List.forall_mem_map.mpr fun _ _ => rfl))
    (addFree_ne_empty (Or.inl (by simpa using hne)))

theorem storeSet_effect (destination : Bytes) (members : List Bytes) :
    wp e (storeSet (encodeKey destination) members) (fun _ d' => Settled d d' .set) d := by
  unfold storeSet sAdd
  simp only [encodeKey_encodeKey, wp_bind, wp_deleteKeyFromAllTables, wp_ite, wp_requireType,
    wp_setMeta, wp_query, wpSql_insertIgnore, pure_eq, wp_ret]
  refine ⟨fun _ => Settled.dropKey _, fun hne => ⟨fun _ => Settled.dropKey _, fun _ _ => ?_⟩⟩
  exact PlacedAt.settled (k := encodeKey destination)
    ⟨Fresh.of_grown .set (Grown.addFree (List.forall_mem_map.mpr fun _ _ => rfl)),
      Full.of_write .set none (addFree_ne_empty (Or.inl (by simpa using hne)))⟩

theorem sInterStore_effect (destination : Bytes) (keys : List Bytes) :
    wp e (sInterStore destination keys) (fun _ d' => Settled d d' .set) d :=
  (wp_bind _ _).mpr ((blind_sInter _).wp Ghost.refl fun _ => storeSet_effect _ _)

theorem sUnionStore_effect (destination : Bytes) (keys : List Bytes) :
    wp e (sUnionStore destination keys) (fun _ d' => Settled d d' .set) d :=
  (wp_bind _ _).mpr ((blind_sUnion _).wp Ghost.refl fun _ => storeSet_effect _ _)

theorem sDiffStore_effect (destination : Bytes) (keys : List Bytes) :
    wp e (sDiffStore destination keys) (fun _ d' => Settled d d' .set) d :=
  (wp_bind _ _).mpr ((blind_sDiff _).wp Ghost.refl fun _ => storeSet_effect _ _)

/-! ### Sorted set operations -/

section scores
variable [Float64 S]

/-- The `ZADD` loop touches the rows of its sorted set only. -/
theorem zAddLoop_grown (opts : ZAddOptions) (members : List (ZMember S)) (added changed : ℤ) :
    wp e (zAddLoop k opts added changed members)
      (fun _ d' => ∃ u, Grown (t := .kvZsets) (d.rows .kvZsets k) u ∧ d' = d.setRows .kvZsets k u ∧
        (d.rows .kvZsets k ≠ ∅ ∨ members ≠ [] ∧ opts.XX = false → u ≠ ∅)) d := by
  induction members generalizing d added changed with
  | nil => exact ⟨_, Grown.refl (t := .kvZsets) _, (Store.setRows_rows d _ _).symm, by simp⟩
  | cons m members ih =>
      have hstep {u : Table Bytes (Row S .kvZsets)} (hu : Grown (t := .kvZsets) (d.rows .kvZsets k) u)
          (hne : u ≠ ∅) (added changed : ℤ) : wp e (zAddLoop k opts added changed members)
            (fun _ d' => ∃ u, Grown (t := .kvZsets) (d.rows .kvZsets k) u ∧
              d' = d.setRows .kvZsets k u ∧ (d.rows .kvZsets k ≠ ∅ ∨
                m :: members ≠ [] ∧ opts.XX = false → u ≠ ∅)) (d.setRows .kvZsets k u) := by
        refine wp_mono (ih _ _) ?_
        rintro _ _ ⟨u', hu', rfl, hne'⟩
        rw [Store.rows_setRows_self] at hu' hne'
        exact ⟨u', Grown.trans (t := .kvZsets) hu hu', Store.setRows_setRows d _ _ _ _,
          fun _ => hne' (Or.inl hne)⟩
      simp only [zAddLoop, wp_bind, wp_query, wpSql_selectAll]
      cases hrow : (d.rows .kvZsets k).row m.member with
      | none =>
          by_cases hxx : opts.XX = true
          · rw [Option.map_none, show zAddAction opts m.score none = .skip from if_pos hxx]
            refine wp_mono (ih _ _) ?_
            rintro _ _ ⟨u, hu, rfl, hne⟩
            refine ⟨u, hu, rfl, fun h => hne (h.imp id fun h => ?_)⟩
            rw [hxx] at h
            cases h.2
          · rw [Option.map_none, show zAddAction opts m.score none = .add from if_neg hxx]
            simp only [wp_bind, wp_query, wpSql_insertRows]
            exact fun u hu => hstep (Grown.addRows (List.forall_mem_singleton.mpr rfl) hu)
              (addRows_ne_empty hu (Or.inl (List.cons_ne_nil _ _))) _ _
      | some r =>
          have hold : d.rows .kvZsets k ≠ ∅ := Table.ne_empty_of_row hrow
          split
          · refine wp_mono (ih _ _) ?_
            rintro _ _ ⟨u, hu, rfl, hne⟩
            exact ⟨u, hu, rfl, fun _ => hne (Or.inl hold)⟩
          · simp only [wp_bind, wp_query]
            refine hstep (fun s c hc => ?_) (fun hempty => ?_) _ _
            · rw [Table.update_row] at hc
              obtain ⟨c₀, hc₀, rfl⟩ := Option.map_eq_some_iff.mp hc
              refine Or.inr ⟨s, c₀, hc₀, ?_⟩
              split <;> rfl
            · have hupd := congrArg (fun u => u.row m.member) hempty
              simp [Table.update_row, hrow] at hupd
          · simp only [wp_bind, wp_query, wpSql_insertRows]
            exact fun u hu => hstep (Grown.addRows (List.forall_mem_singleton.mpr rfl) hu)
              (addRows_ne_empty hu (Or.inr hold)) _ _

theorem zAdd_effect (key : Bytes) (members : List (ZMember S)) (opts : ZAddOptions) :
    wp e (zAdd key members opts) (fun _ d' => d' = d ∨
      ¬ (liveType e.now d (encodeKey key) = none ∧ opts.XX = true) ∧
        TypeOk e.now d (encodeKey key) .zset ∧ UpsertedAt d d' (encodeKey key) .zset ∧
          (d.rows .kvZsets (encodeKey key) ≠ ∅ ∨ members ≠ [] ∧ opts.XX = false →
            d'.rows .kvZsets (encodeKey key) ≠ ∅)) d := by
  unfold zAdd
  simp only [wp_requireType, wp_ite, pure_eq, wp_ret, wp_bind, wp_setMeta]
  refine fun hok => ⟨fun _ => Or.inl trivial, fun hxx => ?_⟩
  refine wp_mono (zAddLoop_grown opts members 0 0) ?_
  rintro _ _ ⟨u, hu, rfl, hne⟩
  refine Or.inr ⟨hxx, hok, Upserted.of_write .zset hu, fun h => ?_⟩
  rw [Store.rows_setRows_self]
  exact hne (h.imp_left fun h => by rwa [Store.rows_setRows_of_ne_table _ (by decide)])

theorem storeScores_effect (destination : Bytes) (aggregate : Aggregate)
    (scores : Table Bytes (List S)) :
    wp e (storeScores (encodeKey destination) aggregate scores)
      (fun _ d' => Settled d d' .zset) d := by
  unfold storeScores zAdd
  simp only [encodeKey_encodeKey, wp_bind, wp_deleteKeyFromAllTables, wp_ite, wp_random,
    wp_requireType, wp_setMeta, pure_eq, wp_ret]
  refine ⟨fun _ => Settled.dropKey _, fun hscores _ => ⟨fun _ => Settled.dropKey _, fun _ => ?_⟩⟩
  have hmembers : aggregated aggregate e.random scores ≠ [] := by
    obtain ⟨m, l, hm⟩ := Table.ne_empty_iff.mp hscores
    have hmem := (Table.shuffle_perm e.random _).mem_iff.mpr (Table.mem_toList.mpr hm)
    exact List.ne_nil_of_mem (List.mem_map_of_mem hmem)
  refine wp_mono (zAddLoop_grown _ _ 0 0) ?_
  rintro _ _ ⟨u, hu, rfl, hne⟩
  exact PlacedAt.settled (k := encodeKey destination)
    ⟨Fresh.of_grown .zset hu, Full.of_write .zset none (hne (Or.inr ⟨hmembers, rfl⟩))⟩

theorem zUnionStore_effect (destination : Bytes) (keys : List Bytes) (weights : List S)
    (aggregate : Aggregate) :
    wp e (zUnionStore destination keys weights aggregate) (fun _ d' => Settled d d' .zset) d :=
  (wp_bind _ _).mpr ((blind_zUnionLoop _ _ _).wp Ghost.refl fun _ => storeScores_effect _ _ _)

theorem zInterStore_effect (destination : Bytes) (keys : List Bytes) (weights : List S)
    (aggregate : Aggregate) :
    wp e (zInterStore destination keys weights aggregate) (fun _ d' => Settled d d' .zset) d := by
  unfold zInterStore
  dsimp only
  split
  · exact Settled.refl d _
  · refine (wp_bind _ _).mpr ((blind_zRange _ _ _).wp Ghost.refl fun first => ?_)
    split
    · rw [wp_ite]
      exact ⟨fun _ => (wp_bind _ _).mpr ((blind_zInterLoop _ _ _).wp Ghost.refl
        fun _ => storeScores_effect _ _ _), fun _ => wp_fail _⟩
    · exact (wp_bind _ _).mpr ((blind_zInterLoop _ _ _).wp Ghost.refl
        fun _ => storeScores_effect _ _ _)

theorem zRangeStore_effect (dst src : Bytes) (spec : ZRangeStoreSpec S) :
    wp e (zRangeStore dst src spec) (fun _ d' => Settled d d' .zset) d := by
  unfold zRangeStore
  simp only [wp_bind, wp_deleteKeyFromAllTables, wp_query, wpSql_bind, wpSql_selectLiveLimit,
    wpSql_insertRows, wpSql_pure, wp_ite, wp_setMeta, pure_eq, wp_ret]
  intro members _ u hu
  rw [Store.rows_dropKey_self] at hu
  refine ⟨fun hn => ?_, fun hn => ?_⟩
  · have hgrown : Grown (t := .kvZsets) ∅ u := Grown.addRows (List.forall_mem_map.mpr fun _ _ => rfl) hu
    have hdata := hgrown.without_expiry fun s c hc => by simp at hc
    have hmembers : members ≠ [] := by
      rintro rfl
      exact absurd hn (by simp)
    refine PlacedAt.settled (k := encodeKey dst)
      ⟨⟨(Frame.dropKey.trans (Frame.setRows _ _)).trans (Frame.setRows _ _), ?_, ?_, ?_⟩, ?_, ?_⟩
    · intro t hm ht
      have ht' : t ≠ .kvZsets := ht
      simp [keyRows, hm, ht']
    · intro m hm
      simp [keyRows] at hm
      exact hm.symm
    · simpa [keyRows, KeyType.table] using hdata
    · exact ⟨none, by simp [keyRows]⟩
    · show Store.rows _ Tab.kvZsets _ ≠ ∅
      rw [Store.rows_setRows_of_ne_table _ (by decide), Store.rows_setRows_self]
      exact addRows_ne_empty hu (Or.inl (by simpa using hmembers))
  · -- nothing selected, so nothing inserted
    have hmembers : members = [] := by
      cases members with
      | nil => rfl
      | cons m ms => exact absurd (by simp) hn
    subst hmembers
    cases hu
    have hsame : (d.dropKey (encodeKey dst)).setRows .kvZsets (encodeKey dst) ∅ =
        d.dropKey (encodeKey dst) := by
      rw [← Store.rows_dropKey_self d .kvZsets (encodeKey dst)]
      exact Store.setRows_rows _ _ _
    rw [hsame]
    exact Settled.dropKey _

theorem zIncrBy_effect (key : Bytes) (increment : S) (member : Bytes) :
    wp e (zIncrBy key increment member) (fun _ d' =>
      EnsuredAt d d' (encodeKey key) .zset ∧ d'.rows .kvZsets (encodeKey key) ≠ ∅ ∧
        ((d.rows .kvMeta (encodeKey key)).row () ≠ none →
          (d.rows .kvZsets (encodeKey key)).row member ≠ none → Trimmed d d')) d := by
  unfold zIncrBy
  simp only [wp_bind, wp_lockKey, wp_query, wpSql_insertIgnore, wpSql_onRows]
  intro u x hu
  rw [Store.rows_setRows_of_ne_table _ (by decide)] at hu
  have hgrown : Grown (t := .kvZsets) (d.rows .kvZsets (encodeKey key)) u ∧ u ≠ ∅ ∧
      ((d.rows .kvZsets (encodeKey key)).row member ≠ none → ∀ s c, u.row s = some c →
        ∃ s₀ c₀, (d.rows .kvZsets (encodeKey key)).row s₀ = some c₀ ∧
          c₀.expiresAt = c.expiresAt) := by
    split at hu
    · rename_i hnone
      cases hu
      exact ⟨Grown.put (t := .kvZsets) (Or.inl rfl),
        Table.ne_empty_of_row (Table.put_row_self _ _ _), fun h => absurd hnone h⟩
    · rename_i r hr
      split at hu
      · cases hu
      · cases hu
        refine ⟨Grown.put (t := .kvZsets) (r := ⟨x, r.expiresAt⟩) (Or.inr ⟨r, hr, rfl⟩),
          Table.ne_empty_of_row (Table.put_row_self _ _ _), fun _ s c hc => ?_⟩
        rw [Table.put_row] at hc
        split at hc
        · cases hc
          exact ⟨member, r, hr, rfl⟩
        · exact ⟨s, c, hc, rfl⟩
  refine ⟨Ensured.of_write .zset (by simpa [KeyType.table] using hgrown.1),
    by rw [Store.rows_setRows_self]; exact hgrown.2.1, fun hmeta hmember => ?_⟩
  -- with the `kv_meta` row in place only the score of the member changes
  have hsame : d.setRows .kvMeta (encodeKey key)
      (addFree .kvMeta (d.rows .kvMeta (encodeKey key)) [((), ⟨.zset, none⟩)]).1 = d := by
    cases hm : (d.rows .kvMeta (encodeKey key)).row () with
    | none => exact absurd hm hmeta
    | some m => simp [addFree, hm]
  rw [hsame]
  refine Trimmed.setRows fun s c hc => ?_
  obtain ⟨s₀, c₀, hc₀, he⟩ := hgrown.2.2 hmember s c hc
  exact ⟨s₀, c₀, hc₀, he, fun ht => absurd ht (by decide)⟩

end scores

/-! ### HyperLogLog operations -/

/-- The write behind `PFADD` and `PFMERGE`. -/
theorem wp_writeRegisters (hll : HyperLogLog) :
    wp e (do setMeta k .hyperloglog none; query (upsertRegisters k hll))
      (fun _ d' => StoredAt d d' k .hyperloglog) d := by
  simp only [upsertRegisters, wp_bind, wp_setMeta, wp_query, wpSql_upsertRow]
  exact StoredAt.of_write .hyperloglog (Grown.putOr rfl fun _ => Or.inr rfl) putOr_ne_empty

theorem pfAdd_effect (key : Bytes) (elements : List Bytes) :
    wp e (pfAdd key elements) (fun _ d' => TypeOk e.now d (encodeKey key) .hyperloglog ∧
      StoredAt d d' (encodeKey key) .hyperloglog) d := by
  unfold pfAdd selectRegisters
  simp only [wp_bind, wp_lockKey, wp_requireType, wp_query, wpSql_selectLive]
  exact fun hk => wp_mono (wp_writeRegisters _) fun _ _ h => ⟨hk, h⟩

theorem pfMerge_effect (destKey : Bytes) (sourceKeys : List Bytes) :
    wp e (pfMerge destKey sourceKeys) (fun _ d' => TypeOk e.now d (encodeKey destKey) .hyperloglog ∧
      StoredAt d d' (encodeKey destKey) .hyperloglog) d := by
  unfold pfMerge selectRegisters
  simp only [wp_bind, wp_lockKeys, wp_requireType, wp_query, wpSql_selectLive]
  refine fun hk => (blind_pfMergeLoop _ _).wp Ghost.refl fun merged => ?_
  exact wp_mono (wp_writeRegisters merged) fun _ _ h => ⟨hk, h⟩

end Postkeys
