import Postkeys.Relational.Hoare

/-! # Programs that give up on their own

`Program.Outcome` is the companion of `Program.wp` for programs that may give up although the server
has reported no error: it speaks about both ways in which a program can end while its transaction
can still be committed.  `Program.Completes` singles out the programs that never do so; for them
the two notions are one (`Completes.outcome`). -/

namespace Relational

variable {ι K Lk : Type} {sub ρ : ι → Type} {α β γ : Type} {p : Program K Lk sub ρ β}

namespace Program

variable {e : Env} {d : Store K sub ρ}

/-- What must hold of `d` for `Q` to hold of the result, or of the failure `p` ends with on its
own, and of the store `p` leaves if its transaction can still be committed. -/
def Outcome (e : Env) : Program K Lk sub ρ α → (Except Failure α → Store K sub ρ → Prop) →
    Store K sub ρ → Prop
  | ret a, Q, d => Q (.ok a) d
  | fail f, Q, d => Q (.error f) d
  | lock _ next, Q, d => Outcome e (next (.ok ())) Q d
  | tryLock _ next, Q, d => Outcome e (next (.ok true)) Q d
  | read next, Q, d => Outcome e (next e.reading) Q d
  | stmt s next, Q, d => wpSql e s.run (fun b d' => Outcome e (next (.ok b)) Q d') d

theorem outcome_sound {p : Program K Lk sub ρ α} {Q : Except Failure α → Store K sub ρ → Prop}
    (h : p.Outcome e Q d) {r : Except Failure α} {tx : Tx K sub ρ}
    (hp : p.eval e (Tx.clean d) = (r, tx)) (ha : tx.aborted = false) :
    Q r tx.view ∧ tx = Tx.clean tx.view := by
  induction p generalizing d with
  | ret a =>
      cases hp
      exact ⟨h, rfl⟩
  | fail f =>
      cases hp
      exact ⟨h, rfl⟩
  | read next ih => exact ih _ h hp
  | lock l next ih => exact ih _ h hp
  | tryLock l next ih => exact ih _ h hp
  | stmt s next ih =>
      rw [Program.eval, Tx.request_clean] at hp
      rw [Outcome, wpSql] at h
      cases hs : s.run e.ctx d with
      | ok r =>
          rw [hs] at hp h
          exact ih _ h hp
      | error x =>
          rw [hs] at hp
          have hab : tx = ⟨d, true, []⟩ := by
            rw [← eval_aborted (next (.error x)) ⟨d, true, []⟩ rfl]
            exact (congrArg Prod.snd hp).symm
          rw [hab] at ha
          cases ha

section rules
variable {Q : Except Failure β → Store K sub ρ → Prop}

theorem Outcome.mono {Q' : Except Failure β → Store K sub ρ → Prop}
    (h : p.Outcome e Q d) (hQ : ∀ r d', Q r d' → Q' r d') : p.Outcome e Q' d := by
  induction p generalizing d with
  | ret b => exact hQ _ d h
  | fail x => exact hQ _ d h
  | lock l next ih => exact ih _ h
  | tryLock l next ih => exact ih _ h
  | read next ih => exact ih _ h
  | stmt s next ih => exact wpSql_mono h fun b d' h' => ih _ h'

@[simp] theorem outcome_bind (p : Program K Lk sub ρ α) (f : α → Program K Lk sub ρ β) :
    (p >>= f).Outcome e Q d ↔ p.Outcome e (fun r d' =>
      match r with
      | .ok a => (f a).Outcome e Q d'
      | .error x => Q (.error x) d') d := by
  induction p generalizing d with
  | ret a => exact Iff.rfl
  | fail x => exact Iff.rfl
  | lock l next ih => exact ih _
  | tryLock l next ih => exact ih _
  | read next ih => exact ih _
  | stmt s next ih =>
      simp only [stmt_bind, Outcome, wpSql]
      cases s.run e.ctx d with
      | ok r => exact ih _
      | error x => exact Iff.rfl

@[simp] theorem outcome_map (p : Program K Lk sub ρ α) (f : α → β) :
    (f <$> p).Outcome e Q d ↔ p.Outcome e (fun r d' => Q (r.map f) d') d := by
  rw [map_eq_pure_bind, outcome_bind]
  constructor
  · intro h
    refine h.mono fun r d' hr => ?_
    cases r with
    | ok a => exact hr
    | error x => exact hr
  · intro h
    refine h.mono fun r d' hr => ?_
    cases r with
    | ok a => exact hr
    | error x => exact hr

@[simp] theorem outcome_query (s : Sql K sub ρ β) :
    (query s : Program K Lk sub ρ β).Outcome e Q d ↔ wpSql e s (fun b => Q (.ok b)) d := Iff.rfl

@[simp] theorem outcome_ite {c : Prop} [Decidable c] (p q : Program K Lk sub ρ β) :
    (if c then p else q).Outcome e Q d ↔ (c → p.Outcome e Q d) ∧ (¬ c → q.Outcome e Q d) := by
  split <;> simp_all

end rules

/-! ### Programs that never give up -/

/-- The program does not give up as long as the server reports no error. -/
def Completes : Program K Lk sub ρ α → Prop
  | ret _ => True
  | fail _ => False
  | lock _ next => Completes (next (.ok ()))
  | tryLock _ next => ∀ b, Completes (next (.ok b))
  | read next => ∀ r, Completes (next r)
  | stmt _ next => ∀ b, Completes (next (.ok b))

theorem Completes.outcome (h : p.Completes)
    {Q : Except Failure β → Store K sub ρ → Prop} (hQ : wp e p (fun b d' => Q (.ok b) d') d) :
    p.Outcome e Q d := by
  induction p generalizing d with
  | ret a => exact hQ
  | fail f => cases h
  | lock l next ih => exact ih _ h hQ
  | tryLock l next ih => exact ih _ (h _) hQ
  | read next ih => exact ih _ (h _) hQ
  | stmt s next ih => exact wpSql_mono hQ fun b d' hb => ih _ (h b) hb

theorem Completes.bind {p : Program K Lk sub ρ α} {f : α → Program K Lk sub ρ β} (hp : p.Completes)
    (hf : ∀ a, (f a).Completes) : (p >>= f).Completes := by
  induction p with
  | ret a => exact hf a
  | fail x => cases hp
  | lock l next ih => exact ih _ hp
  | tryLock l next ih => exact fun b => ih _ (hp b)
  | read next ih => exact fun r => ih _ (hp r)
  | stmt s next ih => exact fun b => ih _ (hp b)

theorem Completes.ite {c : Prop} [Decidable c] {p q : Program K Lk sub ρ α} (hp : p.Completes)
    (hq : q.Completes) : (if c then p else q).Completes := by
  split
  · exact hp
  · exact hq

theorem completes_query (s : Sql K sub ρ β) : (query s : Program K Lk sub ρ β).Completes :=
  fun _ => trivial

theorem completes_queryIgnored (s : Sql K sub ρ β) :
    (queryIgnored s : Program K Lk sub ρ Unit).Completes := fun _ => trivial

theorem completes_acquire (l : Lk) : (acquire l : Program K Lk sub ρ Unit).Completes := trivial

theorem completes_clock : (clock : Program K Lk sub ρ ℤ).Completes := fun _ => trivial

theorem completes_random : (random : Program K Lk sub ρ (List ℕ)).Completes := fun _ => trivial

theorem Completes.forEach {f : γ → Program K Lk sub ρ Unit} {l : List γ}
    (h : ∀ x, (f x).Completes) : (forEach f l).Completes := by
  induction l with
  | nil => exact trivial
  | cons x xs ih => exact .bind (h x) fun _ => ih

/-- A footprint, as a fact about both ways to end. -/
theorem Within.outcome {R : Store K sub ρ → Store K sub ρ → Prop} (hrefl : ∀ d, R d d)
    (htrans : ∀ d₁ d₂ d₃, R d₁ d₂ → R d₂ d₃ → R d₁ d₃)
    (h : p.Within R) : p.Outcome e (fun _ d' => R d d') d := by
  induction p generalizing d with
  | ret a => exact hrefl d
  | fail f => exact hrefl d
  | lock l next ih => exact ih _ (h _)
  | tryLock l next ih => exact ih _ (h _)
  | read next ih => exact ih _ (h _)
  | stmt s next ih =>
      simp only [Outcome, wpSql]
      cases hs : s.run e.ctx d with
      | error x => trivial
      | ok r =>
          obtain ⟨d', b⟩ := r
          exact (ih _ (h.2 _)).mono fun _ _ h' => htrans _ _ _ (h.1 _ _ _ _ hs) h'

end Program

end Relational
