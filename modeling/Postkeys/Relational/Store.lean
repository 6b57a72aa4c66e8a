import Postkeys.Relational.Table

/-! # Databases

A `Store` is a family of tables whose primary keys all start with a column of one type `K`.
The rows of table `t` that carry the key `k` are `d.rows t k`, and `d.setRows t k` replaces
them and nothing else.  A single row sits at a `Loc`. -/

namespace Relational

variable {ι K : Type} {sub ρ : ι → Type}

/-- A database: a family of tables whose primary keys start with a column of type `K`. -/
abbrev Store (K : Type) (sub ρ : ι → Type) := (t : ι) → Table (K × sub t) (ρ t)

/-- The position of a row: its table and its primary key. -/
abbrev Loc (K : Type) (sub : ι → Type) := (t : ι) × (K × sub t)

namespace Store

/-- The row at a position. -/
def get (d : Store K sub ρ) (l : Loc K sub) : Option (ρ l.1) := (d l.1).row l.2

/-! ### The rows of one key in one table -/

section rows
variable [DecidableEq K] [∀ t, DecidableEq (sub t)]

/-- The rows of table `t` under key `k`. -/
def rows (d : Store K sub ρ) (t : ι) (k : K) : Table (sub t) (ρ t) := (d t).slice k

theorem rows_row (d : Store K sub ρ) (t : ι) (k : K) (s : sub t) :
    (d.rows t k).row s = d.get ⟨t, k, s⟩ := rfl

theorem ext_rows {d₁ d₂ : Store K sub ρ} (h : ∀ t k, d₁.rows t k = d₂.rows t k) : d₁ = d₂ :=
  funext fun t => Table.ext_slice fun k => h t k

/-- The keys that have rows in table `t`. -/
def keysOf (d : Store K sub ρ) (t : ι) : Finset K := (d t).groups

theorem mem_keysOf {d : Store K sub ρ} {t : ι} {k : K} : k ∈ d.keysOf t ↔ d.rows t k ≠ ∅ := by
  rw [ne_eq, Table.eq_empty_iff, not_forall]
  simp only [keysOf, Table.groups, Finset.mem_image, Prod.exists, Table.mem_dom, rows_row,
    exists_and_right, exists_eq_right, ← ne_eq, Option.ne_none_iff_isSome]
  rfl

/-- The store without the rows of a key. -/
def dropKey (d : Store K sub ρ) (k : K) : Store K sub ρ := fun t => (d t).setSlice k ∅

@[simp] theorem rows_dropKey_self (d : Store K sub ρ) (t : ι) (k : K) : (d.dropKey k).rows t k = ∅ :=
  Table.slice_setSlice_self _ _ _

@[simp] theorem rows_dropKey_of_ne (d : Store K sub ρ) (t : ι) {k k' : K} (h : k' ≠ k) :
    (d.dropKey k).rows t k' = d.rows t k' :=
  Table.slice_setSlice_ne _ _ h

variable [DecidableEq ι]

/-- Replace the rows of table `t` under key `k`. -/
def setRows (d : Store K sub ρ) (t : ι) (k : K) (u : Table (sub t) (ρ t)) : Store K sub ρ :=
  Function.update d t ((d t).setSlice k u)

@[simp] theorem rows_setRows_self (d : Store K sub ρ) (t : ι) (k : K) (u : Table (sub t) (ρ t)) :
    (d.setRows t k u).rows t k = u := by
  simp [rows, setRows]

@[simp] theorem rows_setRows_of_ne_table (d : Store K sub ρ) {t t' : ι} (h : t' ≠ t) (k k' : K)
    (u : Table (sub t) (ρ t)) : (d.setRows t k u).rows t' k' = d.rows t' k' := by
  simp [rows, setRows, Function.update_of_ne h]

@[simp] theorem rows_setRows_of_ne_key (d : Store K sub ρ) (t t' : ι) {k k' : K} (h : k' ≠ k)
    (u : Table (sub t) (ρ t)) : (d.setRows t k u).rows t' k' = d.rows t' k' := by
  by_cases ht : t' = t
  · subst ht
    simp [rows, setRows, Table.slice_setSlice_ne _ _ h]
  · exact d.rows_setRows_of_ne_table ht k k' u

@[simp] theorem setRows_setRows (d : Store K sub ρ) (t : ι) (k : K) (u u' : Table (sub t) (ρ t)) :
    (d.setRows t k u).setRows t k u' = d.setRows t k u' := by
  refine ext_rows fun t' k' => ?_
  by_cases hk : k' = k
  · subst hk
    by_cases ht : t' = t
    · subst ht
      simp
    · simp [ht]
  · simp [hk]

@[simp] theorem setRows_rows (d : Store K sub ρ) (t : ι) (k : K) :
    d.setRows t k (d.rows t k) = d := by
  refine ext_rows fun t' k' => ?_
  by_cases ht : t' = t
  · subst ht
    by_cases hk : k' = k
    · subst hk; simp
    · simp [hk]
  · simp [ht]

end rows

end Store

end Relational
