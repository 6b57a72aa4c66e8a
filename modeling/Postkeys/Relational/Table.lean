import Mathlib

/-! # Tables with a primary key

`Table κ ρ` is the content of an SQL table: finitely many rows, at most one for every value
of the primary key `κ`.  The row function is the table; the domain is kept beside it so that
the table can be enumerated, and the two agree by a field of the structure, so two tables with
the same rows are equal (`Table.ext_row`).

A table whose primary key is a pair `(k, s)` is cut into *slices*: `t.slice k` holds the rows
whose first component is `k`, as a table over `s`, and `t.setSlice k` replaces them
(`WHERE key = $1` in the statements of a program). -/

namespace Relational

/-- A finite table: the primary keys in use and the row stored under each of them. -/
structure Table (κ ρ : Type) where
  dom : Finset κ
  row : κ → Option ρ
  mem_dom : ∀ k, k ∈ dom ↔ (row k).isSome

namespace Table

variable {κ σ ρ ρ' : Type} {t : Table κ ρ}

theorem ext_row {t₁ t₂ : Table κ ρ} (h : ∀ k, t₁.row k = t₂.row k) : t₁ = t₂ := by
  obtain ⟨d₁, r₁, m₁⟩ := t₁
  obtain ⟨d₂, r₂, m₂⟩ := t₂
  obtain rfl : r₁ = r₂ := funext h
  obtain rfl : d₁ = d₂ := Finset.ext fun k => by rw [m₁, m₂]
  rfl

theorem row_eq_none {k : κ} : t.row k = none ↔ k ∉ t.dom := by
  rw [t.mem_dom, Option.not_isSome_iff_eq_none]

theorem mem_dom_of_row {k : κ} {r : ρ} (h : t.row k = some r) : k ∈ t.dom := by
  rw [t.mem_dom, h]; rfl

/-! ### Building and changing tables -/

/-- The table without rows. -/
def empty : Table κ ρ := ⟨∅, fun _ => none, by simp⟩

instance : EmptyCollection (Table κ ρ) := ⟨empty⟩

@[simp] theorem empty_row (k : κ) : (∅ : Table κ ρ).row k = none := rfl
@[simp] theorem empty_dom : (∅ : Table κ ρ).dom = ∅ := rfl

theorem eq_empty_iff : t = ∅ ↔ ∀ k, t.row k = none :=
  ⟨fun h k => by rw [h]; rfl, fun h => ext_row fun k => by rw [h k]; rfl⟩

theorem ne_empty_iff : t ≠ ∅ ↔ ∃ k r, t.row k = some r := by
  simp only [Ne, eq_empty_iff, not_forall, ← Option.isSome_iff_ne_none, Option.isSome_iff_exists]

theorem ne_empty_of_row {k : κ} {r : ρ} (h : t.row k = some r) : t ≠ ∅ :=
  ne_empty_iff.mpr ⟨k, r, h⟩

theorem dom_eq_empty_iff : t.dom = ∅ ↔ t = ∅ := by
  rw [eq_empty_iff, Finset.eq_empty_iff_forall_notMem]
  exact forall_congr' fun k => row_eq_none.symm

instance (t : Table κ ρ) : Decidable (t = ∅) :=
  decidable_of_iff (t.dom.card = 0) (by rw [Finset.card_eq_zero, dom_eq_empty_iff])

/-- Store `r` under `k`, replacing what was there. -/
def put [DecidableEq κ] (t : Table κ ρ) (k : κ) (r : ρ) : Table κ ρ where
  dom := insert k t.dom
  row k' := if k' = k then some r else t.row k'
  mem_dom k' := by
    by_cases h : k' = k <;> simp [h, t.mem_dom]

theorem put_row [DecidableEq κ] (t : Table κ ρ) (k : κ) (r : ρ) (k' : κ) :
    (t.put k r).row k' = if k' = k then some r else t.row k' := rfl

@[simp] theorem put_row_self [DecidableEq κ] (t : Table κ ρ) (k : κ) (r : ρ) :
    (t.put k r).row k = some r := by simp [put_row]

/-- The table with a single row. -/
def single [DecidableEq κ] (k : κ) (r : ρ) : Table κ ρ := (∅ : Table κ ρ).put k r

theorem single_row [DecidableEq κ] (k : κ) (r : ρ) (k' : κ) :
    (single k r).row k' = if k' = k then some r else none := rfl

@[simp] theorem put_unit [DecidableEq Unit] (t : Table Unit ρ) (r : ρ) : t.put () r = single () r :=
  ext_row fun _ => by simp [single_row]

@[simp] theorem single_unit_row [DecidableEq Unit] (r : ρ) (s : Unit) :
    (single () r).row s = some r := by simp [single_row]

/-- Rewrite every row, dropping those for which `f` answers `none`. -/
def mapRows (f : κ → ρ → Option ρ') (t : Table κ ρ) : Table κ ρ' where
  dom := t.dom.filter fun k => ((t.row k).bind (f k)).isSome
  row k := (t.row k).bind (f k)
  mem_dom k := by
    rw [Finset.mem_filter, t.mem_dom]
    cases t.row k <;> simp

@[simp] theorem mapRows_row (f : κ → ρ → Option ρ') (t : Table κ ρ) (k : κ) :
    (t.mapRows f).row k = (t.row k).bind (f k) := rfl

/-- The rows that satisfy `p`. -/
def restrict (p : κ → ρ → Bool) (t : Table κ ρ) : Table κ ρ :=
  t.mapRows fun k r => if p k r then some r else none

theorem restrict_row (p : κ → ρ → Bool) (t : Table κ ρ) (k : κ) :
    (t.restrict p).row k = (t.row k).bind fun r => if p k r then some r else none := rfl

theorem restrict_row_some {p : κ → ρ → Bool} {k : κ} {r : ρ} :
    (t.restrict p).row k = some r ↔ t.row k = some r ∧ p k r = true := by
  rw [restrict_row]
  cases t.row k with
  | none => simp
  | some r' =>
      by_cases h : p k r' = true
      · simp only [Option.bind_some, h, if_true, Option.some.injEq]
        constructor
        · rintro rfl; exact ⟨rfl, h⟩
        · exact fun h' => h'.1
      · simp only [Option.bind_some, h, Option.some.injEq]
        constructor
        · intro h'; cases h'
        · rintro ⟨rfl, h'⟩; exact absurd h' h

@[simp] theorem restrict_true (t : Table κ ρ) : t.restrict (fun _ _ => true) = t :=
  ext_row fun k => by simp [restrict_row]

@[simp] theorem restrict_empty (p : κ → ρ → Bool) : (∅ : Table κ ρ).restrict p = ∅ :=
  ext_row fun k => by simp [restrict_row]

/-- Rewrite the rows that satisfy `p`. -/
def update (p : κ → ρ → Bool) (f : ρ → ρ) (t : Table κ ρ) : Table κ ρ :=
  t.mapRows fun k r => some (if p k r then f r else r)

theorem update_row (p : κ → ρ → Bool) (f : ρ → ρ) (t : Table κ ρ) (k : κ) :
    (t.update p f).row k = (t.row k).map fun r => if p k r then f r else r := by
  simp only [update, mapRows_row]
  cases t.row k <;> rfl

@[simp] theorem update_eq_empty_iff {p : κ → ρ → Bool} {f : ρ → ρ} :
    t.update p f = ∅ ↔ t = ∅ := by
  simp only [eq_empty_iff, update_row, Option.map_eq_none_iff]

/-! ### Enumeration -/

/-- The elements of a finite set in increasing order. -/
def ascending [LinearOrder κ] (s : Finset κ) : List κ :=
  Quot.liftOn s.val (List.insertionSort (· ≤ ·)) fun l₁ l₂ h =>
    List.Perm.eq_of_pairwise (fun _ _ _ _ => le_antisymm)
      (List.pairwise_insertionSort _ l₁) (List.pairwise_insertionSort _ l₂)
      (((List.perm_insertionSort _ l₁).trans h).trans (List.perm_insertionSort _ l₂).symm)

@[simp] theorem mem_ascending [LinearOrder κ] {s : Finset κ} {k : κ} : k ∈ ascending s ↔ k ∈ s := by
  obtain ⟨⟨l⟩, hl⟩ := s
  exact (List.perm_insertionSort _ l).mem_iff

theorem ascending_filter [LinearOrder κ] (s : Finset κ) (p : κ → Bool) :
    (ascending s).filter p = ascending (s.filter fun k => p k = true) := by
  obtain ⟨⟨l⟩, hl⟩ := s
  have hleft : ((List.insertionSort (· ≤ ·) l).filter p).Perm (l.filter p) :=
    (List.perm_insertionSort _ l).filter p
  have hright : (List.insertionSort (· ≤ ·) (l.filter p)).Perm (l.filter p) :=
    List.perm_insertionSort _ _
  refine List.Perm.eq_of_pairwise (fun _ _ _ _ => le_antisymm)
    ((List.pairwise_insertionSort _ l).filter p) (List.pairwise_insertionSort _ _) ?_
  refine (hleft.trans hright.symm).trans (List.Perm.of_eq ?_)
  congr 2
  exact funext fun k => (Bool.decide_eq_true (b := p k)).symm

/-- The rows of a table in the order of the primary key. -/
def toList [LinearOrder κ] (t : Table κ ρ) : List (κ × ρ) :=
  (ascending t.dom).filterMap fun k => (t.row k).map fun r => (k, r)

theorem mem_toList [LinearOrder κ] {k : κ} {r : ρ} :
    (k, r) ∈ t.toList ↔ t.row k = some r := by
  simp only [toList, List.mem_filterMap, mem_ascending, Option.map_eq_some_iff, Prod.mk.injEq]
  constructor
  · rintro ⟨k', _, r', h, rfl, rfl⟩; exact h
  · intro h; exact ⟨k, mem_dom_of_row h, r, h, rfl, rfl⟩

theorem nodup_ascending [LinearOrder κ] (s : Finset κ) : (ascending s).Nodup := by
  obtain ⟨⟨l⟩, hl⟩ := s
  exact (List.perm_insertionSort _ l).nodup_iff.mpr hl

theorem toList_eq_nil_iff [LinearOrder κ] : t.toList = [] ↔ t = ∅ := by
  constructor
  · intro h
    refine ext_row fun k => Option.eq_none_iff_forall_not_mem.mpr fun r hr => ?_
    have hmem := mem_toList.mpr hr
    rw [h] at hmem
    cases hmem
  · rintro rfl
    rfl

theorem length_ascending [LinearOrder κ] (s : Finset κ) : (ascending s).length = s.card := by
  obtain ⟨⟨l⟩, hl⟩ := s
  exact (List.perm_insertionSort _ l).length_eq

theorem map_fst_toList [LinearOrder κ] (t : Table κ ρ) : t.toList.map Prod.fst = ascending t.dom := by
  rw [toList, List.map_filterMap]
  refine (List.filterMap_congr (g := some) fun k hk => ?_).trans List.filterMap_some
  obtain ⟨r, hr⟩ := Option.isSome_iff_exists.mp ((t.mem_dom k).mp (mem_ascending.mp hk))
  simp [hr]

theorem nodup_toList [LinearOrder κ] (t : Table κ ρ) : (t.toList.map Prod.fst).Nodup := by
  rw [map_fst_toList]
  exact nodup_ascending _

theorem pairwise_toList [LinearOrder κ] (t : Table κ ρ) : (t.toList.map Prod.fst).Pairwise (· < ·) := by
  have hle : (ascending t.dom).Pairwise (· ≤ ·) := by
    obtain ⟨⟨l⟩, hl⟩ := t.dom
    exact List.pairwise_insertionSort _ l
  rw [map_fst_toList]
  exact (hle.and (nodup_ascending t.dom)).imp fun h => lt_of_le_of_ne h.1 h.2

/-- The rows of a table are the one sorted list of its rows. -/
theorem toList_eq_of_sorted [LinearOrder κ] {l : List (κ × ρ)}
    (hsorted : (l.map Prod.fst).Pairwise (· < ·)) (hmem : ∀ k r, (k, r) ∈ l ↔ t.row k = some r) :
    t.toList = l := by
  have hkeys {l : List (κ × ρ)} (h : (l.map Prod.fst).Pairwise (· < ·)) :
      l.Pairwise fun p q => p.1 < q.1 := List.pairwise_map.mp h
  have hnodup {l : List (κ × ρ)} (h : l.Pairwise fun p q => p.1 < q.1) : l.Nodup :=
    h.imp fun hlt heq => absurd (congrArg Prod.fst heq) hlt.ne
  have hperm : t.toList.Perm l := (List.perm_ext_iff_of_nodup (hnodup (hkeys t.pairwise_toList))
    (hnodup (hkeys hsorted))).mpr fun ⟨k, r⟩ => mem_toList.trans (hmem k r).symm
  exact hperm.eq_of_pairwise (fun p q _ _ hpq hqp => absurd (hpq.trans hqp) (lt_irrefl _))
    (hkeys t.pairwise_toList) (hkeys hsorted)

theorem length_toList [LinearOrder κ] (t : Table κ ρ) : t.toList.length = t.dom.card := by
  rw [← List.length_map (f := Prod.fst), map_fst_toList, length_ascending]

theorem toList_filter [LinearOrder κ] (t : Table κ ρ) (p : κ → ρ → Bool) :
    t.toList.filter (fun q => p q.1 q.2) = (t.restrict p).toList := by
  have hdom : (t.restrict p).dom =
      t.dom.filter fun k => ((t.row k).bind fun r => if p k r then some r else none).isSome := rfl
  rw [toList, toList, hdom, ← ascending_filter, List.filterMap_filter, List.filter_filterMap]
  refine List.filterMap_congr fun k _ => ?_
  rw [restrict_row]
  cases t.row k with
  | none => rfl
  | some r => by_cases h : p k r = true <;> simp [h]

/-- Rearrange a list as the numbers say: each picks the next element among those left. -/
def shuffle {α : Type} : List ℕ → List α → List α
  | [], l => l
  | i :: is, l =>
      match l[i % l.length]? with
      | some x => x :: shuffle is (l.eraseIdx (i % l.length))
      | none => l

theorem shuffle_perm {α : Type} (is : List ℕ) (l : List α) : (shuffle is l).Perm l := by
  induction is generalizing l with
  | nil => exact List.Perm.refl l
  | cons i is ih =>
      rw [shuffle]
      split
      · rename_i x hx
        obtain ⟨hi, rfl⟩ := List.getElem?_eq_some_iff.mp hx
        exact ((ih _).cons _).trans (List.getElem_cons_eraseIdx_perm hi)
      · exact List.Perm.refl l

/-! ### Slices of a table with a composite key -/

section slices
variable [DecidableEq κ] [DecidableEq σ]

/-- The first components of the primary keys in use. -/
def groups (t : Table (κ × σ) ρ) : Finset κ := t.dom.image Prod.fst

/-- The rows of `t` whose key starts with `k`. -/
def slice (t : Table (κ × σ) ρ) (k : κ) : Table σ ρ where
  dom := (t.dom.filter fun p => p.1 = k).image Prod.snd
  row s := t.row (k, s)
  mem_dom s := by
    simp only [Finset.mem_image, Finset.mem_filter, ← t.mem_dom]
    constructor
    · rintro ⟨⟨k', s'⟩, ⟨h, rfl⟩, rfl⟩; exact h
    · intro h; exact ⟨(k, s), ⟨h, rfl⟩, rfl⟩

@[simp] theorem slice_row (t : Table (κ × σ) ρ) (k : κ) (s : σ) : (t.slice k).row s = t.row (k, s) :=
  rfl

/-- Replace the rows of `t` whose key starts with `k`. -/
def setSlice (t : Table (κ × σ) ρ) (k : κ) (u : Table σ ρ) : Table (κ × σ) ρ where
  dom := (t.dom.filter fun p => p.1 ≠ k) ∪ u.dom.image fun s => (k, s)
  row p := if p.1 = k then u.row p.2 else t.row p
  mem_dom p := by
    obtain ⟨k', s⟩ := p
    by_cases h : k' = k
    · subst h; simp [u.mem_dom]
    · simp [h, Ne.symm h, t.mem_dom]

theorem setSlice_row (t : Table (κ × σ) ρ) (k : κ) (u : Table σ ρ) (p : κ × σ) :
    (t.setSlice k u).row p = if p.1 = k then u.row p.2 else t.row p := rfl

@[simp] theorem slice_setSlice_self (t : Table (κ × σ) ρ) (k : κ) (u : Table σ ρ) :
    (t.setSlice k u).slice k = u := ext_row fun s => by simp [setSlice_row]

theorem slice_setSlice_ne (t : Table (κ × σ) ρ) {k k' : κ} (u : Table σ ρ) (h : k' ≠ k) :
    (t.setSlice k u).slice k' = t.slice k' := ext_row fun s => by simp [setSlice_row, h]

theorem ext_slice {t₁ t₂ : Table (κ × σ) ρ} (h : ∀ k, t₁.slice k = t₂.slice k) : t₁ = t₂ :=
  ext_row fun p => by
    have := congrArg (fun u => u.row p.2) (h p.1)
    simpa using this

end slices

end Table

end Relational
