import Postkeys.Relational.Hoare

/-! # Footprints

A program writes within `W`, a set of pairs of a table and a key, if every statement of it leaves
the rows at all other pairs as they are.  The footprint of a program is read off its statements,
whatever they are answered, so it also holds of a program that fails half way. -/

namespace Relational

variable {ι K Lk : Type} {sub ρ : ι → Type} {α β γ : Type}

section footprint
variable [DecidableEq K] [∀ t, DecidableEq (sub t)] {W : ι → K → Prop}

/-- The two stores have the same rows at all pairs outside `W`. -/
def Store.AgreeOff (W : ι → K → Prop) (d d' : Store K sub ρ) : Prop :=
  ∀ t k, ¬ W t k → d'.rows t k = d.rows t k

theorem Store.AgreeOff.refl (d : Store K sub ρ) : Store.AgreeOff W d d := fun _ _ _ => rfl

theorem Store.AgreeOff.trans (d₁ d₂ d₃ : Store K sub ρ) (h : Store.AgreeOff W d₁ d₂)
    (h' : Store.AgreeOff W d₂ d₃) : Store.AgreeOff W d₁ d₃ :=
  fun t k hk => (h' t k hk).trans (h t k hk)

/-- The statement writes within `W`. -/
abbrev Sql.Writes (W : ι → K → Prop) (s : Sql K sub ρ β) : Prop := s.Within (Store.AgreeOff W)

/-- The program writes within `W`. -/
abbrev Program.Writes (W : ι → K → Prop) (p : Program K Lk sub ρ α) : Prop :=
  p.Within (Store.AgreeOff W)

/-! ### Statements -/

namespace Sql

theorem writes_onRows [DecidableEq ι] {t : ι} {k : K} (h : W t k)
    (f : Ctx K sub → Table (sub t) (ρ t) → Except PgError (Table (sub t) (ρ t) × β)) :
    (Sql.onRows t k f).Writes W := by
  refine Program.within_onRows t k fun c d u b _ t' k' hk => ?_
  by_cases ht : t' = t
  · subst ht
    have hne : k' ≠ k := fun heq => hk (heq ▸ h)
    exact d.rows_setRows_of_ne_key _ _ hne u
  · exact d.rows_setRows_of_ne_table ht _ _ u

theorem writes_readRows (t : ι) (k : K)
    (f : Ctx K sub → Table (sub t) (ρ t) → Except PgError β) : (Sql.readRows t k f).Writes W :=
  Program.within_readRows Store.AgreeOff.refl t k f

theorem writes_readRowsIn (t : ι) (ks : List K)
    (f : Ctx K sub → (K → Table (sub t) (ρ t)) → β) : (Sql.readRowsIn t ks f).Writes W := by
  rintro c d d' b ⟨⟩
  exact Store.AgreeOff.refl d

theorem writes_replace [DecidableEq ι] {t : ι} (h : ∀ k, W t k) (u : Table (K × sub t) (ρ t)) :
    (Sql.replace t u).Writes W := by
  rintro c d d' b ⟨⟩ t' k hk
  have ht : t' ≠ t := fun heq => hk (heq ▸ h k)
  simp [Store.rows, Function.update_of_ne ht]

theorem writes_pure (b : β) : (pure b : Sql K sub ρ β).Writes W :=
  Program.within_pure Store.AgreeOff.refl b

theorem Writes.bind {s : Sql K sub ρ α} {f : α → Sql K sub ρ β} (hs : s.Writes W)
    (hf : ∀ a, (f a).Writes W) : (s >>= f).Writes W :=
  Program.within_bind Store.AgreeOff.trans hs hf

/-- The second statement may rely on what the first one can answer. -/
theorem Writes.bind_of {P : α → Prop} {s : Sql K sub ρ α} {f : α → Sql K sub ρ β} (hs : s.Writes W)
    (hP : ∀ c d d' a, s c d = .ok (d', a) → P a) (hf : ∀ a, P a → (f a).Writes W) :
    (s >>= f).Writes W := by
  intro c d d' b h
  simp only [Bind.bind] at h
  cases hr : s c d with
  | ok r =>
      rw [hr] at h
      exact Store.AgreeOff.trans _ _ _ (hs c d r.1 r.2 hr)
        (hf r.2 (hP c d r.1 r.2 hr) c r.1 d' b h)
  | error x =>
      rw [hr] at h
      cases h

theorem Writes.forEach {f : γ → Sql K sub ρ Unit} {l : List γ} (h : ∀ x ∈ l, (f x).Writes W) :
    (Sql.forEach f l).Writes W := by
  induction l with
  | nil => exact writes_pure _
  | cons x xs ih =>
      refine Writes.bind (h x (List.mem_cons_self ..)) fun _ => ?_
      exact ih fun y hy => h y (List.mem_cons_of_mem x hy)

end Sql

end footprint

end Relational
