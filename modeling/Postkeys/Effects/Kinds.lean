import Postkeys.Querier.Rules

/-! # The ways in which a write changes a key

A completed write changes the rows of a key in one of a few ways: it only removes or rewrites
rows (`Trimmed`), replaces the key (`Fresh`), writes rows of one type next to what is there
(`Upserted`), does so while it leaves an existing `kv_meta` row alone (`Ensured`), changes the
expiry of rows (`Retimed`), or moves or copies a key (`Renamed`, `CopiedAt`).  The invariants of the
store are proved for these kinds of change and not for the operations. -/

namespace Postkeys

open Relational Program

variable {S : Type} {e : Env} {d d' d'' : DB S} {k : Bytes} {T : KeyType} {t : Tab}
  {rows : List (t.Sub × Row S t)}

/-- The rows of one key in all tables. -/
abbrev KeyRows (S : Type) := (t : Tab) → Table t.Sub (Row S t)

/-- The rows of a key. -/
def keyRows (d : DB S) (k : Bytes) : KeyRows S := fun t => d.rows t k

/-! ### Kinds of change -/

/-- Only rows of `k` differ. -/
def Frame (d d' : DB S) (k : Bytes) : Prop := ∀ t k', k' ≠ k → d'.rows t k' = d.rows t k'

/-- Every row of `d'` has a row of `d` of the same key and table behind it, with the same expiry
and, in `kv_meta`, the same type. -/
def Trimmed (d d' : DB S) : Prop :=
  ∀ t k s c, (d'.rows t k).row s = some c →
    ∃ s₀ c₀, (d.rows t k).row s₀ = some c₀ ∧ c₀.expiresAt = c.expiresAt ∧
      (t = .kvMeta → c₀.val = c.val)

/-- `r` holds rows of type `T` only, all with the expiry `x`. -/
structure Fresh (r : KeyRows S) (T : KeyType) (x : Option Time) : Prop where
  other : ∀ t, t ≠ .kvMeta → t ≠ T.table → r t = ∅
  info : ∀ m, (r .kvMeta).row () = some m → m = ⟨T, x⟩
  data : ∀ s c, (r T.table).row s = some c → c.expiresAt = x

/-- `r` became `r'` by writing rows of type `T`: a row of that type is new and without expiry, or
keeps the expiry it had. -/
structure Written (r r' : KeyRows S) (T : KeyType) : Prop where
  other : ∀ t, t ≠ .kvMeta → t ≠ T.table → r' t = r t
  data : ∀ s c, (r' T.table).row s = some c →
    c.expiresAt = none ∨ ∃ s₀ c₀, (r T.table).row s₀ = some c₀ ∧ c₀.expiresAt = c.expiresAt

/-- Rows of type `T` were written and the `kv_meta` row says `T` without expiry. -/
structure Upserted (r r' : KeyRows S) (T : KeyType) : Prop extends Written r r' T where
  info : (r' .kvMeta).row () = some ⟨T, none⟩

/-- Rows of type `T` were written; the `kv_meta` row stayed or, if there was none, says `T` without
expiry. -/
structure Ensured (r r' : KeyRows S) (T : KeyType) : Prop extends Written r r' T where
  info : (r' .kvMeta).row () = some (((r .kvMeta).row ()).getD ⟨T, none⟩)

/-- Only `k` changed, by a write of type `T`. -/
def UpsertedAt (d d' : DB S) (k : Bytes) (T : KeyType) : Prop :=
  Frame d d' k ∧ Upserted (keyRows d k) (keyRows d' k) T

/-- Only `k` changed, by a write of type `T` that leaves an existing `kv_meta` row alone. -/
def EnsuredAt (d d' : DB S) (k : Bytes) (T : KeyType) : Prop :=
  Frame d d' k ∧ Ensured (keyRows d k) (keyRows d' k) T

/-- Only `k` changed, and it holds rows of type `T` with the expiry `x`, if any. -/
def FreshAt (d d' : DB S) (k : Bytes) (T : KeyType) (x : Option Time) : Prop :=
  Frame d d' k ∧ Fresh (keyRows d' k) T x

/-- Every key is as it was or holds rows of type `T` only. -/
def Replaced (d d' : DB S) (T : KeyType) : Prop :=
  ∀ k, keyRows d' k = keyRows d k ∨ ∃ x, Fresh (keyRows d' k) T x

/-- The `kv_meta` row and the rows in the tables `ts` got the expiry `x`. -/
structure Retimed (r r' : KeyRows S) (ts : List Tab) (x : Option Time) : Prop where
  info : (r' .kvMeta).row () = ((r .kvMeta).row ()).map fun m => ⟨m.val, x⟩
  data : ∀ t, t ≠ .kvMeta →
    r' t = if t ∈ ts then (r t).update (fun _ _ => true) fun c => ⟨c.val, x⟩ else r t

/-- Only `k` changed, by a new expiry of its `kv_meta` row and its rows in the tables `ts`. -/
def RetimedAt (d d' : DB S) (k : Bytes) (ts : List Tab) (x : Option Time) : Prop :=
  Frame d d' k ∧ Retimed (keyRows d k) (keyRows d' k) ts x

/-- Only `k` changed, by rows of type `T` that came to others of that type. -/
structure GrownAt (d d' : DB S) (k : Bytes) (T : KeyType) : Prop where
  frame : Frame d d' k
  present : d.rows T.table k ≠ ∅
  info : d'.rows .kvMeta k = d.rows .kvMeta k
  written : Written (keyRows d k) (keyRows d' k) T

/-- The rows of `old` in `kv_meta` and in the table of `T` went to `new`, which holds nothing else. -/
structure Renamed (d d' : DB S) (old new : Bytes) (T : KeyType) : Prop where
  frame : ∀ t k, k ≠ old → k ≠ new → d'.rows t k = d.rows t k
  moved : ∀ t, d'.rows t new = if t = .kvMeta ∨ t = T.table then d.rows t old else ∅
  left : ∀ t, d'.rows t old = if t = .kvMeta ∨ t = T.table then ∅ else d.rows t old

/-- Only `k` changed: it became a copy of type `T` next to what was there, with the expiry `x` in
`kv_meta`; a string came with its row, anything else without rows. -/
structure CopiedAt (d d' : DB S) (k : Bytes) (T : KeyType) (x : Option Time) : Prop where
  frame : Frame d d' k
  other : ∀ t, t ≠ .kvMeta → t ≠ T.table → d'.rows t k = d.rows t k
  info : (d'.rows .kvMeta k).row () = some ⟨T, x⟩
  data : if T = .string then ∀ s c, (d'.rows T.table k).row s = some c → c.expiresAt = x
    else d'.rows T.table k = d.rows T.table k

/-- The `kv_meta` row of the key says `T`, and the key has rows of that type. -/
structure Full (r : KeyRows S) (T : KeyType) : Prop where
  info : ∃ x, (r .kvMeta).row () = some ⟨T, x⟩
  data : r T.table ≠ ∅

/-- Only `k` changed, by a write of type `T` that left a row of that type. -/
def StoredAt (d d' : DB S) (k : Bytes) (T : KeyType) : Prop :=
  UpsertedAt d d' k T ∧ d'.rows T.table k ≠ ∅

/-- Only `k` changed, and it holds rows of type `T`, all with the expiry `x`. -/
def PlacedAt (d d' : DB S) (k : Bytes) (T : KeyType) (x : Option Time) : Prop :=
  FreshAt d d' k T x ∧ Full (keyRows d' k) T

/-- Every key is as it was, has no rows any more, or holds rows of type `T` without expiry. -/
def Settled (d d' : DB S) (T : KeyType) : Prop :=
  ∀ k, keyRows d' k = keyRows d k ∨ (∀ t, d'.rows t k = ∅) ∨
    Fresh (keyRows d' k) T none ∧ Full (keyRows d' k) T

/-- Every key has rows in the same tables as before, and the same type in `kv_meta`. -/
def SameKeys (d d' : DB S) : Prop :=
  ∀ k, ((d'.rows .kvMeta k).row ()).map Cell.val = ((d.rows .kvMeta k).row ()).map Cell.val ∧
    ∀ t, d'.rows t k = ∅ ↔ d.rows t k = ∅

/-- The key is missing or of type `T`, so that a checked write of type `T` goes through. -/
def TypeOk (now : Time) (d : DB S) (k : Bytes) (T : KeyType) : Prop :=
  liveType now d k = none ∨ liveType now d k = some T

/-! ### Basic facts -/

theorem KeyType.table_ne_meta (T : KeyType) : T.table ≠ .kvMeta := by cases T <;> decide

theorem Trimmed.refl (d : DB S) : Trimmed d d := fun _ _ s c h => ⟨s, c, h, rfl, fun _ => rfl⟩

theorem Trimmed.of_eq (h : d' = d) : Trimmed d d' := h ▸ Trimmed.refl d

theorem Trimmed.trans (h : Trimmed d d') (h' : Trimmed d' d'') : Trimmed d d'' := by
  intro t k s c hc
  obtain ⟨s₁, c₁, hc₁, he₁, hv₁⟩ := h' t k s c hc
  obtain ⟨s₀, c₀, hc₀, he₀, hv₀⟩ := h t k s₁ c₁ hc₁
  exact ⟨s₀, c₀, hc₀, he₀.trans he₁, fun ht => (hv₀ ht).trans (hv₁ ht)⟩

/-- Replacing the rows of one key in one table by rows that come from them is a trim. -/
theorem Trimmed.setRows {u : Table t.Sub (Row S t)}
    (hu : ∀ s c, u.row s = some c → ∃ s₀ c₀, (d.rows t k).row s₀ = some c₀ ∧
      c₀.expiresAt = c.expiresAt ∧ (t = .kvMeta → c₀.val = c.val)) :
    Trimmed d (d.setRows t k u) := by
  intro t' k' s c hc
  by_cases hk : k' = k
  · subst hk
    by_cases ht : t' = t
    · subst ht
      rw [Store.rows_setRows_self] at hc
      exact hu s c hc
    · rw [Store.rows_setRows_of_ne_table _ ht] at hc
      exact ⟨s, c, hc, rfl, fun _ => rfl⟩
  · rw [Store.rows_setRows_of_ne_key _ _ _ hk] at hc
    exact ⟨s, c, hc, rfl, fun _ => rfl⟩

/-- Deleting rows is a trim. -/
theorem Trimmed.restrict (p : t.Sub → Row S t → Bool) :
    Trimmed d (d.setRows t k ((d.rows t k).restrict p)) :=
  Trimmed.setRows fun s c hc => ⟨s, c, (Table.restrict_row_some.mp hc).1, rfl, fun _ => rfl⟩

theorem Trimmed.empty : Trimmed d (d.setRows t k ∅) :=
  Trimmed.setRows fun s c hc => by simp at hc

theorem Trimmed.dropKey : Trimmed d (d.dropKey k) := by
  intro t k' s c hc
  by_cases hk : k' = k
  · subst hk
    simp at hc
  · rw [Store.rows_dropKey_of_ne _ _ hk] at hc
    exact ⟨s, c, hc, rfl, fun _ => rfl⟩

theorem Frame.refl (d : DB S) (k : Bytes) : Frame d d k := fun _ _ _ => rfl

theorem Frame.trans (h : Frame d d' k) (h' : Frame d' d'' k) : Frame d d'' k :=
  fun t k' hk => (h' t k' hk).trans (h t k' hk)

theorem Frame.setRows (t : Tab) (u : Table t.Sub (Row S t)) : Frame d (d.setRows t k u) k :=
  fun t' _ hk => d.rows_setRows_of_ne_key t t' hk u

theorem Frame.dropKey : Frame d (d.dropKey k) k := fun t _ hk => d.rows_dropKey_of_ne t hk

/-! ### Writes into a table -/

/-- Every row of `u'` is new and without expiry, or keeps the expiry of a row of `u`. -/
def Grown {t : Tab} (u u' : Table t.Sub (Row S t)) : Prop :=
  ∀ s c, u'.row s = some c →
    c.expiresAt = none ∨ ∃ s₀ c₀, u.row s₀ = some c₀ ∧ c₀.expiresAt = c.expiresAt

theorem Grown.refl (u : Table t.Sub (Row S t)) : Grown u u :=
  fun s c h => Or.inr ⟨s, c, h, rfl⟩

theorem Grown.trans {u u' u'' : Table t.Sub (Row S t)} (h : Grown u u')
    (h' : Grown u' u'') : Grown u u'' := by
  intro s c hc
  rcases h' s c hc with hn | ⟨s₁, c₁, hc₁, he₁⟩
  · exact Or.inl hn
  · rcases h s₁ c₁ hc₁ with hn | ⟨s₀, c₀, hc₀, he₀⟩
    · exact Or.inl (he₁ ▸ hn)
    · exact Or.inr ⟨s₀, c₀, hc₀, he₀.trans he₁⟩

theorem Grown.put [DecidableEq t.Sub] {u : Table t.Sub (Row S t)} {s : t.Sub} {r : Row S t}
    (hr : r.expiresAt = none ∨ ∃ c₀, u.row s = some c₀ ∧ c₀.expiresAt = r.expiresAt) :
    Grown u (u.put s r) := by
  intro s' c hc
  rw [Table.put_row] at hc
  split at hc
  · cases hc
    rcases hr with hn | ⟨c₀, hc₀, he⟩
    · exact Or.inl hn
    · exact Or.inr ⟨s, c₀, hc₀, he⟩
  · exact Or.inr ⟨s', c, hc, rfl⟩

theorem Grown.putOr {u : Table t.Sub (Row S t)} {s : t.Sub} {r : Row S t}
    {f : Row S t → Row S t} (hr : r.expiresAt = none)
    (hf : ∀ c, (f c).expiresAt = none ∨ (f c).expiresAt = c.expiresAt) :
    Grown u (putOr t u s r f) := by
  refine Grown.put ?_
  cases hu : u.row s with
  | none => exact Or.inl hr
  | some c₀ => exact (hf c₀).imp id fun h => ⟨c₀, rfl, h.symm⟩

theorem Grown.putAll {f : Row S t → Row S t → Row S t}
    {u : Table t.Sub (Row S t)} (hr : ∀ p ∈ rows, p.2.expiresAt = none)
    (hf : ∀ r c, (f r c).expiresAt = c.expiresAt) : Grown u (putAll t f u rows) := by
  induction rows generalizing u with
  | nil => exact Grown.refl u
  | cons p rows ih =>
      have h₁ := Grown.putOr (u := u) (s := p.1) (hr p (List.mem_cons_self ..)) fun c => Or.inr (hf p.2 c)
      exact h₁.trans (ih fun q hq => hr q (List.mem_cons_of_mem p hq))

theorem Grown.addRows {u u' : Table t.Sub (Row S t)}
    (hr : ∀ p ∈ rows, p.2.expiresAt = none) (h : addRows t u rows = .ok u') : Grown u u' := by
  induction rows generalizing u with
  | nil =>
      cases h
      exact Grown.refl _
  | cons p rows ih =>
      rw [Postkeys.addRows] at h
      split at h
      · cases h
      · exact (Grown.put (Or.inl (hr p (List.mem_cons_self ..)))).trans
          (ih (fun q hq => hr q (List.mem_cons_of_mem p hq)) h)

theorem Grown.addFree {u : Table t.Sub (Row S t)}
    (hr : ∀ p ∈ rows, p.2.expiresAt = none) : Grown u (addFree t u rows).1 := by
  induction rows generalizing u with
  | nil => exact Grown.refl u
  | cons p rows ih =>
      have hr' : ∀ q ∈ rows, q.2.expiresAt = none := fun q hq => hr q (List.mem_cons_of_mem p hq)
      rw [Postkeys.addFree]
      split
      · exact ih hr'
      · exact (Grown.put (Or.inl (hr p (List.mem_cons_self ..)))).trans (ih hr')

section rows
variable {t : Tab} {u u' : Table t.Sub (Row S t)} {rows : List (t.Sub × Row S t)}

theorem putOr_ne_empty {s : t.Sub} {r : Row S t} {f : Row S t → Row S t} : putOr t u s r f ≠ ∅ :=
  Table.ne_empty_of_row (Table.put_row_self u s _)

theorem putAll_ne_empty {f : Row S t → Row S t → Row S t} (h : rows ≠ [] ∨ u ≠ ∅) :
    putAll t f u rows ≠ ∅ := by
  induction rows generalizing u with
  | nil => exact h.resolve_left fun hne => hne rfl
  | cons p rows ih => exact ih (Or.inr putOr_ne_empty)

theorem addFree_ne_empty (h : rows ≠ [] ∨ u ≠ ∅) : (addFree t u rows).1 ≠ ∅ := by
  induction rows generalizing u with
  | nil => exact h.resolve_left fun hne => hne rfl
  | cons p rows ih =>
      rw [addFree]
      split
      · rename_i hp
        exact ih (Or.inr (Table.ne_empty_of_row hp))
      · exact ih (Or.inr (Table.ne_empty_of_row (Table.put_row_self u p.1 p.2)))

theorem addRows_ne_empty (hadd : addRows t u rows = .ok u') (h : rows ≠ [] ∨ u ≠ ∅) : u' ≠ ∅ := by
  induction rows generalizing u with
  | nil =>
      cases hadd
      exact h.resolve_left fun hne => hne rfl
  | cons p rows ih =>
      rw [addRows] at hadd
      split at hadd
      · cases hadd
      · exact ih hadd (Or.inr (Table.ne_empty_of_row (Table.put_row_self u p.1 p.2)))

end rows

/-- Writing into the table of a type changes the key as `Written` says. -/
theorem Written.of_setRows (T : KeyType) {u : Table T.table.Sub (Row S T.table)}
    (hu : Grown (d.rows T.table k) u) (hm : ∀ t, t ≠ .kvMeta → d'.rows t k = d.rows t k) :
    Written (keyRows d k) (keyRows (d'.setRows T.table k u) k) T where
  other t hmeta ht := by simp [keyRows, ht, hm t hmeta]
  data := by simpa [keyRows, Grown] using hu

/-- The usual write: `kv_meta` first, then the rows. -/
theorem Upserted.of_write (T : KeyType) {u : Table T.table.Sub (Row S T.table)}
    (hu : Grown ((d.setRows .kvMeta k (Table.single () ⟨T, none⟩)).rows T.table k) u) :
    UpsertedAt d ((d.setRows .kvMeta k (Table.single () ⟨T, none⟩)).setRows T.table k u) k T := by
  rw [Store.rows_setRows_of_ne_table _ T.table_ne_meta] at hu
  refine ⟨(Frame.setRows _ _).trans (Frame.setRows _ _), Written.of_setRows T hu ?_, ?_⟩
  · intro t ht
    simp [ht]
  · simp [keyRows, T.table_ne_meta.symm, Table.single_row]

theorem StoredAt.of_write (T : KeyType) {u : Table T.table.Sub (Row S T.table)}
    (hu : Grown ((d.setRows .kvMeta k (Table.single () ⟨T, none⟩)).rows T.table k) u) (hne : u ≠ ∅) :
    StoredAt d ((d.setRows .kvMeta k (Table.single () ⟨T, none⟩)).setRows T.table k u) k T :=
  ⟨Upserted.of_write T hu, by rwa [Store.rows_setRows_self]⟩

/-- A replaced key: all rows gone, then one type written. -/
theorem Fresh.of_write (T : KeyType) (x : Option Time) {u : Table T.table.Sub (Row S T.table)}
    (hu : ∀ s c, u.row s = some c → c.expiresAt = x) :
    FreshAt d (((d.dropKey k).setRows .kvMeta k (Table.single () ⟨T, x⟩)).setRows T.table k u)
      k T x := by
  refine ⟨(Frame.dropKey.trans (Frame.setRows _ _)).trans (Frame.setRows _ _), ?_, ?_, ?_⟩
  · intro t hm ht
    simp [keyRows, hm, ht]
  · intro m hm
    simp [keyRows, T.table_ne_meta.symm, Table.single_row] at hm
    exact hm.symm
  · simpa [keyRows] using hu

theorem Fresh.of_empty {r : KeyRows S} (h : ∀ t, r t = ∅) (T : KeyType) (x : Option Time) :
    Fresh r T x where
  other t _ _ := h t
  info m hm := by simp [h] at hm
  data s c hc := by simp [h] at hc

theorem Replaced.refl (d : DB S) (T : KeyType) : Replaced d d T := fun _ => Or.inl rfl

theorem FreshAt.replaced {x : Option Time} (h : FreshAt d d' k T x) : Replaced d d' T := by
  intro k'
  by_cases hk : k' = k
  · subst hk
    exact Or.inr ⟨x, h.2⟩
  · exact Or.inl (funext fun t => h.1 t k' hk)

/-- Rows that grew out of rows without expiry carry none. -/
theorem Grown.without_expiry {u u' : Table t.Sub (Row S t)} (h : Grown u u')
    (hu : ∀ s c, u.row s = some c → c.expiresAt = none) :
    ∀ s c, u'.row s = some c → c.expiresAt = none := by
  intro s c hc
  rcases h s c hc with hn | ⟨s₀, c₀, hc₀, he⟩
  · exact hn
  · rw [← he, hu s₀ c₀ hc₀]

/-- A replaced key without expiry, its rows grown out of nothing. -/
theorem Fresh.of_grown (T : KeyType) {u : Table T.table.Sub (Row S T.table)}
    (hu : Grown (((d.dropKey k).setRows .kvMeta k (Table.single () ⟨T, none⟩)).rows T.table k) u) :
    FreshAt d (((d.dropKey k).setRows .kvMeta k (Table.single () ⟨T, none⟩)).setRows T.table k u)
      k T none := by
  refine Fresh.of_write T none (hu.without_expiry fun s c hc => ?_)
  simp [T.table_ne_meta] at hc

theorem Full.of_write (T : KeyType) (x : Option Time) {u : Table T.table.Sub (Row S T.table)}
    (hne : u ≠ ∅) :
    Full (keyRows ((d.setRows .kvMeta k (Table.single () ⟨T, x⟩)).setRows T.table k u) k) T where
  info := ⟨x, by simp [keyRows, T.table_ne_meta.symm]⟩
  data := by simpa [keyRows] using hne

theorem PlacedAt.settled (h : PlacedAt d d' k T none) : Settled d d' T := by
  intro k'
  by_cases hk : k' = k
  · subst hk
    exact Or.inr (Or.inr ⟨h.1.2, h.2⟩)
  · exact Or.inl (funext fun t => h.1.1 t k' hk)

theorem Settled.refl (d : DB S) (T : KeyType) : Settled d d T := fun _ => Or.inl rfl

theorem Settled.dropKey (T : KeyType) : Settled d (d.dropKey k) T := by
  intro k'
  by_cases hk : k' = k
  · subst hk
    exact Or.inr (Or.inl fun t => Store.rows_dropKey_self d t k')
  · exact Or.inl (funext fun t => Store.rows_dropKey_of_ne d t hk)

theorem Settled.replaced (h : Settled d d' T) : Replaced d d' T := by
  intro k
  rcases h k with hsame | hempty | ⟨hfresh, -⟩
  · exact Or.inl hsame
  · exact Or.inr ⟨none, Fresh.of_empty hempty T none⟩
  · exact Or.inr ⟨none, hfresh⟩

theorem SameKeys.refl (d : DB S) : SameKeys d d := fun _ => ⟨rfl, fun _ => Iff.rfl⟩

/-- New rows for one key in one data table, there as before. -/
theorem SameKeys.setRows (ht : t ≠ .kvMeta) {u : Table t.Sub (Row S t)}
    (hu : u = ∅ ↔ d.rows t k = ∅) : SameKeys d (d.setRows t k u) := by
  intro k'
  rw [Store.rows_setRows_of_ne_table d ht.symm]
  refine ⟨rfl, fun t' => ?_⟩
  by_cases hk : k' = k
  · subst hk
    by_cases htt : t' = t
    · subst htt
      rwa [Store.rows_setRows_self]
    · rw [Store.rows_setRows_of_ne_table d htt]
  · rw [Store.rows_setRows_of_ne_key d t t' hk]

/-- A new expiry for the `kv_meta` row and the rows of one table. -/
theorem RetimedAt.of_table (ht : t ≠ .kvMeta) {x : Option Time}
    {um : Table Unit (Row S .kvMeta)} {u : Table t.Sub (Row S t)}
    (hm : um.row () = ((d.rows .kvMeta k).row ()).map fun m => ⟨m.val, x⟩)
    (hu : u = ((d.setRows .kvMeta k um).rows t k).update (fun _ _ => true) fun c => ⟨c.val, x⟩) :
    RetimedAt d ((d.setRows .kvMeta k um).setRows t k u) k [t] x := by
  refine ⟨(Frame.setRows _ _).trans (Frame.setRows _ _), ?_, fun t' ht' => ?_⟩
  · simpa [keyRows, ht.symm] using hm
  · by_cases hs : t' = t
    · subst hs
      simp [keyRows, hu, ht']
    · simp [keyRows, hs, ht']

theorem RetimedAt.of_meta {x : Option Time} {um : Table Unit (Row S .kvMeta)}
    (hm : um.row () = ((d.rows .kvMeta k).row ()).map fun m => ⟨m.val, x⟩) :
    RetimedAt d (d.setRows .kvMeta k um) k [] x := by
  refine ⟨Frame.setRows _ _, ?_, fun t' ht' => ?_⟩
  · simpa [keyRows] using hm
  · simp [keyRows, ht']

/-! ### Statements that only trim -/

section statements
variable {t : Tab}

theorem trimmed_deleteKey : (deleteKey t k : Stm S _).Within Trimmed :=
  within_onRows t k fun _ _ _ _ h => by
    cases h
    exact Trimmed.empty

theorem trimmed_deleteWhere (p : t.Sub → Row S t → Bool) : (deleteWhere t k p).Within Trimmed :=
  within_onRows t k fun _ _ _ _ h => by
    cases h
    exact Trimmed.restrict _

theorem trimmed_deleteRows (choose : Table t.Sub (Row S t) → List (t.Sub × Row S t)) :
    (deleteRows t k choose).Within Trimmed :=
  within_onRows t k fun _ _ _ _ h => by
    cases h
    exact Trimmed.restrict _

theorem trimmed_popRows (choose : Time → Table t.Sub (Row S t) → List (t.Sub × Row S t)) :
    (popRows t k choose).Within Trimmed :=
  within_onRows t k fun _ _ _ _ h => by
    cases h
    exact Trimmed.restrict _

theorem trimmed_selectAll {β : Type} (f : Table t.Sub (Row S t) → β) :
    (selectAll t k f).Within Trimmed := within_readRows Trimmed.refl t k _

/-- An update that keeps the expiry, outside `kv_meta`. -/
theorem trimmed_updateWhere (ht : t ≠ .kvMeta) (p : Time → t.Sub → Row S t → Bool)
    {f : Row S t → Row S t} (hf : ∀ c, (f c).expiresAt = c.expiresAt) :
    (updateWhere t k p f).Within Trimmed := by
  refine within_onRows t k fun c d u b h => ?_
  cases h
  refine Trimmed.setRows fun s c' hc' => ?_
  rw [Table.update_row] at hc'
  obtain ⟨c₀, hc₀, rfl⟩ := Option.map_eq_some_iff.mp hc'
  refine ⟨s, c₀, hc₀, ?_, fun hm => absurd hm ht⟩
  split
  · exact (hf c₀).symm
  · rfl

end statements

end Postkeys
