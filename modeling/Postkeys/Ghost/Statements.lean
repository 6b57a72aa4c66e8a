import Postkeys.Ghost.Reads

/-! # Statements that leave expired rows alone

`GhostOut X now d₁ d₂` is `Ghost now d₁ d₂` with the rows in `X` kept: `d₂` is `d₁` without some of
its expired rows outside `X`.  A statement that looks only at live rows and at rows in `X` answers
the same on both databases and keeps them related, and so does a statement that overwrites a row
without looking at it. -/

namespace Postkeys

open Relational Program

variable {S β : Type} {now : Time}

/-! ### Rows -/

section rows
variable {σ V : Type} {P : σ → Cell V → Prop} {u₁ u₂ : Table σ (Cell V)}

/-- `u₂` is `u₁` without some of its expired rows outside `P`. -/
def GhostRowsOut (P : σ → Cell V → Prop) (now : Time) (u₁ u₂ : Table σ (Cell V)) : Prop :=
  ∀ s, u₂.row s = u₁.row s ∨
    u₂.row s = none ∧ ∃ c, u₁.row s = some c ∧ c.live now = false ∧ ¬ P s c

namespace GhostRowsOut

theorem refl (u : Table σ (Cell V)) : GhostRowsOut P now u u := fun _ => Or.inl rfl

theorem ghostRows (h : GhostRowsOut P now u₁ u₂) : GhostRows now u₁ u₂ := by
  intro s
  rcases h s with heq | ⟨hn, c, hc, hl, -⟩
  · exact Or.inl heq
  · exact Or.inr ⟨hn, c, hc, hl⟩

theorem mono {P' : σ → Cell V → Prop} (h : GhostRowsOut P now u₁ u₂)
    (hP : ∀ s c, u₁.row s = some c → P' s c → P s c) : GhostRowsOut P' now u₁ u₂ := by
  intro s
  rcases h s with heq | ⟨hn, c, hc, hl, hnot⟩
  · exact Or.inl heq
  · exact Or.inr ⟨hn, c, hc, hl, fun hP' => hnot (hP s c hc hP')⟩

theorem row_eq (h : GhostRowsOut P now u₁ u₂) {s : σ} (hs : ∀ c, P s c) : u₂.row s = u₁.row s := by
  rcases h s with heq | ⟨-, c, -, -, hnot⟩
  · exact heq
  · exact absurd (hs c) hnot

theorem eq (h : GhostRowsOut P now u₁ u₂) (hP : ∀ s c, P s c) : u₂ = u₁ :=
  Table.ext_row fun s => h.row_eq (hP s)

/-- The rows that satisfy `p` are the same if all of them are live or kept. -/
theorem restrict_eq (h : GhostRowsOut P now u₁ u₂) {p : σ → Cell V → Bool}
    (hp : ∀ s c, u₁.row s = some c → p s c = true → c.live now = true ∨ P s c) :
    u₂.restrict p = u₁.restrict p := by
  refine Table.ext_row fun s => ?_
  rw [Table.restrict_row, Table.restrict_row]
  rcases h s with heq | ⟨hn, c, hc, hl, hnot⟩
  · rw [heq]
  · have hpc : ¬ p s c = true := by
      intro hpc
      rcases hp s c hc hpc with hlive | hkept
      · rw [hl] at hlive
        cases hlive
      · exact hnot hkept
    simp [hn, hc, hpc]

theorem restrict (h : GhostRowsOut P now u₁ u₂) (p : σ → Cell V → Bool) :
    GhostRowsOut P now (u₁.restrict p) (u₂.restrict p) := by
  intro s
  rw [Table.restrict_row, Table.restrict_row]
  rcases h s with heq | ⟨hn, c, hc, hl, hnot⟩
  · exact Or.inl (by rw [heq])
  · by_cases hp : p s c = true
    · exact Or.inr ⟨by rw [hn]; rfl, c, by simp [hc, hp], hl, hnot⟩
    · exact Or.inl (by simp [hn, hc, hp])

theorem put [DecidableEq σ] (h : GhostRowsOut P now u₁ u₂) (s : σ) (r : Cell V) :
    GhostRowsOut P now (u₁.put s r) (u₂.put s r) := by
  intro s'
  rw [Table.put_row, Table.put_row]
  by_cases hs : s' = s
  · exact Or.inl (by rw [if_pos hs, if_pos hs])
  · rw [if_neg hs, if_neg hs]
    exact h s'

/-- Rewriting live or kept rows. -/
theorem update (h : GhostRowsOut P now u₁ u₂) {p : σ → Cell V → Bool} {f : Cell V → Cell V}
    (hp : ∀ s c, p s c = true → c.live now = true ∨ P s c) :
    GhostRowsOut P now (u₁.update p f) (u₂.update p f) := by
  intro s
  rw [Table.update_row, Table.update_row]
  rcases h s with heq | ⟨hn, c, hc, hl, hnot⟩
  · exact Or.inl (by rw [heq])
  · have hpc : ¬ p s c = true := by
      intro hpc
      rcases hp s c hpc with hlive | hkept
      · rw [hl] at hlive
        cases hlive
      · exact hnot hkept
    exact Or.inr ⟨by rw [hn]; rfl, c, by simp [hc, hpc], hl, hnot⟩

end GhostRowsOut

end rows

/-! ### Databases -/

/-- A set of rows, by table, key and row. -/
abbrev RowSet (S : Type) := (t : Tab) → Bytes → t.Sub → Row S t → Prop

/-- `d₂` is `d₁` without some of its expired rows outside `X`. -/
def GhostOut (X : RowSet S) (now : Time) (d₁ d₂ : DB S) : Prop :=
  ∀ t k, GhostRowsOut (X t k) now (d₁.rows t k) (d₂.rows t k)

/-- The rows that are not expired rows of `d`. -/
def Unexpired (now : Time) (d : DB S) : RowSet S := fun t k s c =>
  (d.rows t k).row s = some c → c.live now = true

/-- The rows in `X` and all rows of the keys `ks`. -/
def RowSet.withKeys (X : RowSet S) (ks : List Bytes) : RowSet S := fun t k s c => X t k s c ∨ k ∈ ks

section
variable {X X' : RowSet S} {d₁ d₂ : DB S} {t : Tab} {k : Bytes}

theorem GhostOut.ghost (h : GhostOut X now d₁ d₂) : Ghost now d₁ d₂ := fun t k => (h t k).ghostRows

theorem Ghost.out (h : Ghost now d₁ d₂) : GhostOut (Unexpired now d₁) now d₁ d₂ := by
  intro t k s
  rcases h t k s with heq | ⟨hn, c, hc, hl⟩
  · exact Or.inl heq
  · refine Or.inr ⟨hn, c, hc, hl, fun hun => ?_⟩
    rw [hun hc] at hl
    cases hl

theorem GhostOut.mono (h : GhostOut X now d₁ d₂)
    (hX : ∀ t k s c, (d₁.rows t k).row s = some c → X' t k s c → X t k s c) :
    GhostOut X' now d₁ d₂ :=
  fun t k => (h t k).mono (hX t k)

theorem GhostOut.setRows (h : GhostOut X now d₁ d₂) {u₁ u₂ : Table t.Sub (Row S t)}
    (hu : GhostRowsOut (X t k) now u₁ u₂) : GhostOut X now (d₁.setRows t k u₁) (d₂.setRows t k u₂) := by
  intro t' k'
  by_cases hk : k' = k
  · subst hk
    by_cases ht : t' = t
    · subst ht
      simpa using hu
    · simpa [ht] using h t' k'
  · simpa [hk] using h t' k'

/-- Keys without rows count as kept. -/
theorem GhostOut.withKeys (h : GhostOut X now d₁ d₂) {ks : List Bytes}
    (hks : ∀ t, ∀ k ∈ ks, d₁.rows t k = ∅) : GhostOut (X.withKeys ks) now d₁ d₂ := by
  refine h.mono fun t k s c hc hX => ?_
  rcases hX with hX | hk
  · exact hX
  · rw [hks t k hk] at hc
    cases hc

end

/-! ### Steady statements -/

section statements
variable {X : RowSet S} {t : Tab} {k : Bytes} {rows : List (t.Sub × Row S t)}

theorem steady_of_blind {s : Stm S β} (h : s.Blind Ghost) : s.Steady (GhostOut X) :=
  h.steady fun _ _ _ h => h.ghost

theorem steady_onRows
    {f : Ctx Bytes Tab.Sub → Table t.Sub (Row S t) → Except PgError (Table t.Sub (Row S t) × β)}
    (hf : ∀ c u₁ u₂, GhostRowsOut (X t k) c.now u₁ u₂ →
      (∃ x, f c u₁ = .error x ∧ f c u₂ = .error x) ∨
        ∃ b u₁' u₂', f c u₁ = .ok (u₁', b) ∧ f c u₂ = .ok (u₂', b) ∧
          GhostRowsOut (X t k) c.now u₁' u₂') :
    (Sql.onRows t k f : Stm S β).Steady (GhostOut X) := by
  intro c d₁ d₂ h
  simp only [Sql.onRows]
  rcases hf c _ _ (h t k) with ⟨x, h₁, h₂⟩ | ⟨b, u₁', u₂', h₁, h₂, hu⟩
  · exact Or.inl ⟨x, by rw [h₁], by rw [h₂]⟩
  · exact Or.inr ⟨b, _, _, by rw [h₁], by rw [h₂], h.setRows hu⟩

/-- A statement on rows that are all kept. -/
theorem steady_onKept
    {f : Ctx Bytes Tab.Sub → Table t.Sub (Row S t) → Except PgError (Table t.Sub (Row S t) × β)}
    (hX : ∀ s c, X t k s c) : (Sql.onRows t k f : Stm S β).Steady (GhostOut X) := by
  refine steady_onRows fun c u₁ u₂ h => ?_
  rw [h.eq hX]
  cases f c u₁ with
  | error x => exact Or.inl ⟨x, rfl, rfl⟩
  | ok p => exact Or.inr ⟨p.2, p.1, p.1, rfl, rfl, .refl _⟩

theorem steady_readRows {f : Ctx Bytes Tab.Sub → Table t.Sub (Row S t) → Except PgError β}
    (hf : ∀ c u₁ u₂, GhostRowsOut (X t k) c.now u₁ u₂ → f c u₂ = f c u₁) :
    (Sql.readRows t k f : Stm S β).Steady (GhostOut X) := by
  intro c d₁ d₂ h
  simp only [Sql.readRows, hf c _ _ (h t k)]
  cases f c (d₁.rows t k) with
  | error x => exact Or.inl ⟨x, rfl, rfl⟩
  | ok b => exact Or.inr ⟨b, d₁, d₂, rfl, rfl, h⟩

/-- A query over rows that are all kept. -/
theorem steady_readKept {f : Ctx Bytes Tab.Sub → Table t.Sub (Row S t) → Except PgError β}
    (hX : ∀ s c, X t k s c) : (Sql.readRows t k f : Stm S β).Steady (GhostOut X) :=
  steady_readRows fun c u₁ u₂ h => by rw [h.eq hX]

theorem steady_selectAll (f : Table t.Sub (Row S t) → β) (hX : ∀ s c, X t k s c) :
    (selectAll t k f).Steady (GhostOut X) := steady_readKept hX

/-- A query over a part of the rows that is kept. -/
theorem steady_selectPart {p : t.Sub → Row S t → Bool} (f : Table t.Sub (Row S t) → β)
    (hX : ∀ s c, p s c = true → X t k s c) :
    (selectAll t k fun u => f (u.restrict p)).Steady (GhostOut X) := by
  refine steady_readRows fun c u₁ u₂ h => ?_
  dsimp only
  rw [h.restrict_eq fun s r _ hp => Or.inr (hX s r hp)]

/-- A query of one kept row. -/
theorem steady_selectRow {s : t.Sub} (f : Option (Row S t) → β) (hX : ∀ c, X t k s c) :
    (selectAll t k fun u => f (u.row s)).Steady (GhostOut X) := by
  refine steady_readRows fun c u₁ u₂ h => ?_
  dsimp only
  rw [h.row_eq hX]

theorem blind_readRowsIn {ks : List Bytes}
    {f : Ctx Bytes Tab.Sub → (Bytes → Table t.Sub (Row S t)) → β}
    (hf : ∀ c r₁ r₂, (∀ k, GhostRows c.now (r₁ k) (r₂ k)) → f c r₂ = f c r₁) :
    (Sql.readRowsIn t ks f : Stm S β).Blind Ghost := by
  intro c d₁ d₂ h
  refine Or.inr ⟨_, rfl, congrArg (fun b => Except.ok (d₂, b)) (hf c _ _ fun k => ?_)⟩
  split
  · exact h t k
  · exact GhostRows.refl _

theorem steady_deleteKey : (deleteKey t k : Stm S _).Steady (GhostOut X) :=
  steady_onRows fun _ _ _ _ => Or.inr ⟨(), ∅, ∅, rfl, rfl, .refl _⟩

/-- An upsert that does not look at the old row. -/
theorem steady_overwrite (s : t.Sub) (r : Row S t) :
    (upsertRow t k s r fun _ => r).Steady (GhostOut X) := by
  refine steady_onRows fun c u₁ u₂ h => Or.inr ⟨(), _, _, rfl, rfl, ?_⟩
  have hput (u : Table t.Sub (Row S t)) : putOr t u s r (fun _ => r) = u.put s r := by
    unfold putOr
    cases u.row s <;> rfl
  rw [hput, hput]
  exact h.put s r

theorem GhostRowsOut.putOr {P : t.Sub → Row S t → Prop} {u₁ u₂ : Table t.Sub (Row S t)}
    (h : GhostRowsOut P now u₁ u₂) {s : t.Sub} (hs : ∀ c, P s c) (r : Row S t)
    (f : Row S t → Row S t) : GhostRowsOut P now (putOr t u₁ s r f) (putOr t u₂ s r f) := by
  unfold Postkeys.putOr
  rw [h.row_eq hs]
  exact h.put s _

theorem steady_upsertRow {s : t.Sub} (r : Row S t) (f : Row S t → Row S t) (hX : ∀ c, X t k s c) :
    (upsertRow t k s r f).Steady (GhostOut X) :=
  steady_onRows fun _ _ _ h => Or.inr ⟨(), _, _, rfl, rfl, h.putOr hX r f⟩

theorem steady_upsertRows (f : Row S t → Row S t → Row S t)
    (hX : ∀ p ∈ rows, ∀ c, X t k p.1 c) : (upsertRows t k rows f).Steady (GhostOut X) := by
  have hall (now : Time) (l : List (t.Sub × Row S t)) (hl : ∀ p ∈ l, ∀ c, X t k p.1 c)
      (u₁ u₂ : Table t.Sub (Row S t)) (h : GhostRowsOut (X t k) now u₁ u₂) :
      GhostRowsOut (X t k) now (putAll t f u₁ l) (putAll t f u₂ l) := by
    induction l generalizing u₁ u₂ with
    | nil => exact h
    | cons p l ih =>
        exact ih (fun q hq => hl q (List.mem_cons_of_mem p hq)) _ _
          (h.putOr (hl p (List.mem_cons_self ..)) _ _)
  refine steady_onRows fun c u₁ u₂ h => ?_
  by_cases hnd : (rows.map Prod.fst).Nodup
  · rw [if_pos hnd, if_pos hnd]
    exact Or.inr ⟨(), _, _, rfl, rfl, hall c.now rows hX u₁ u₂ h⟩
  · rw [if_neg hnd, if_neg hnd]
    exact Or.inl ⟨_, rfl, rfl⟩

theorem steady_insertRows (hX : ∀ p ∈ rows, ∀ c, X t k p.1 c) :
    (insertRows t k rows).Steady (GhostOut X) := by
  have hall (now : Time) (l : List (t.Sub × Row S t)) (hl : ∀ p ∈ l, ∀ c, X t k p.1 c)
      (u₁ u₂ : Table t.Sub (Row S t)) (h : GhostRowsOut (X t k) now u₁ u₂) :
      (∃ x, addRows t u₁ l = .error x ∧ addRows t u₂ l = .error x) ∨
        ∃ u₁' u₂', addRows t u₁ l = .ok u₁' ∧ addRows t u₂ l = .ok u₂' ∧
          GhostRowsOut (X t k) now u₁' u₂' := by
    induction l generalizing u₁ u₂ with
    | nil => exact Or.inr ⟨u₁, u₂, rfl, rfl, h⟩
    | cons p l ih =>
        obtain ⟨s, r⟩ := p
        simp only [addRows, h.row_eq (hl (s, r) (List.mem_cons_self ..))]
        cases u₁.row s with
        | some c => exact Or.inl ⟨_, rfl, rfl⟩
        | none => exact ih (fun q hq => hl q (List.mem_cons_of_mem _ hq)) _ _ (h.put s r)
  refine steady_onRows fun c u₁ u₂ h => ?_
  rcases hall c.now rows hX u₁ u₂ h with ⟨x, h₁, h₂⟩ | ⟨u₁', u₂', h₁, h₂, h'⟩
  · exact Or.inl ⟨x, by rw [h₁]; rfl, by rw [h₂]; rfl⟩
  · exact Or.inr ⟨(), u₁', u₂', by rw [h₁]; rfl, by rw [h₂]; rfl, h'⟩

theorem steady_insertIgnore (hX : ∀ p ∈ rows, ∀ c, X t k p.1 c) :
    (insertIgnore t k rows).Steady (GhostOut X) := by
  have hall (now : Time) (l : List (t.Sub × Row S t)) (hl : ∀ p ∈ l, ∀ c, X t k p.1 c)
      (u₁ u₂ : Table t.Sub (Row S t)) (h : GhostRowsOut (X t k) now u₁ u₂) :
      (addFree t u₂ l).2 = (addFree t u₁ l).2 ∧
        GhostRowsOut (X t k) now (addFree t u₁ l).1 (addFree t u₂ l).1 := by
    induction l generalizing u₁ u₂ with
    | nil => exact ⟨rfl, h⟩
    | cons p l ih =>
        obtain ⟨s, r⟩ := p
        have hl' := fun q hq => hl q (List.mem_cons_of_mem (s, r) hq)
        simp only [addFree, h.row_eq (hl (s, r) (List.mem_cons_self ..))]
        cases u₁.row s with
        | some c => exact ih hl' _ _ h
        | none =>
            obtain ⟨hcount, hrows⟩ := ih hl' _ _ (h.put s r)
            exact ⟨by rw [hcount], hrows⟩
  refine steady_onRows fun c u₁ u₂ h => ?_
  obtain ⟨hcount, hrows⟩ := hall c.now rows hX u₁ u₂ h
  exact Or.inr ⟨(addFree t u₁ rows).2, (addFree t u₁ rows).1, (addFree t u₂ rows).1, rfl,
    by rw [← hcount], hrows⟩

/-- A delete of kept rows. -/
theorem steady_deleteWhere {p : t.Sub → Row S t → Bool} (hX : ∀ s c, p s c = true → X t k s c) :
    (deleteWhere t k p).Steady (GhostOut X) := by
  refine steady_onRows fun c u₁ u₂ h => ?_
  rw [h.restrict_eq fun s r _ hp => Or.inr (hX s r hp)]
  exact Or.inr ⟨_, _, _, rfl, rfl, h.restrict _⟩

/-- A delete of rows chosen among the live ones. -/
theorem steady_popRows {choose : Time → Table t.Sub (Row S t) → List (t.Sub × Row S t)}
    (hc : ∀ now u₁ u₂, liveRows now u₁ = liveRows now u₂ → choose now u₁ = choose now u₂) :
    (popRows t k choose).Steady (GhostOut X) := by
  refine steady_onRows fun c u₁ u₂ h => ?_
  have heq : choose c.now (visible c t k u₁) = choose c.now (visible c t k u₂) :=
    hc _ _ _ (h.restrict _).ghostRows.liveRows_eq
  dsimp only
  rw [heq]
  exact Or.inr ⟨_, _, _, rfl, rfl, h.restrict _⟩

/-- A delete of rows chosen in the same way in both databases. -/
theorem steady_deleteRows {choose : Table t.Sub (Row S t) → List (t.Sub × Row S t)}
    (hc : ∀ now u₁ u₂, GhostRowsOut (X t k) now u₁ u₂ → choose u₂ = choose u₁) :
    (deleteRows t k choose).Steady (GhostOut X) := by
  refine steady_onRows fun c u₁ u₂ h => ?_
  rw [hc _ _ _ h]
  exact Or.inr ⟨_, _, _, rfl, rfl, h.restrict _⟩

/-- An update of live or kept rows. -/
theorem steady_updateWhere {p : Time → t.Sub → Row S t → Bool} (f : Row S t → Row S t)
    (hp : ∀ now s c, p now s c = true → c.live now = true ∨ X t k s c) :
    (updateWhere t k p f).Steady (GhostOut X) := by
  refine steady_onRows fun c u₁ u₂ h => ?_
  rw [h.restrict_eq fun s r _ hpr => hp _ s r hpr]
  exact Or.inr ⟨_, _, _, rfl, rfl, h.update fun s r => hp _ s r⟩

theorem steady_replace : (Sql.replace t ∅ : Stm S _).Steady (GhostOut X) := by
  intro c d₁ d₂ h
  refine Or.inr ⟨(), _, _, rfl, rfl, fun t' k' => ?_⟩
  by_cases ht : t' = t
  · subst ht
    simpa [Store.rows] using GhostRowsOut.refl _
  · simpa [Store.rows, ht] using h t' k'

end statements

end Postkeys
