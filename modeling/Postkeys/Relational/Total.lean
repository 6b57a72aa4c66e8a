import Postkeys.Relational.Hoare

/-! # Programs that return

`Program.total e p Q d` is the companion of `Program.wp` that promises a result: started alone on
`d`, the program meets no error, neither one of the server nor one of its own, and `Q` holds of what
it returns and of the store it leaves (`total_sound`). -/

namespace Relational

variable {ι K Lk : Type} {sub ρ : ι → Type} {α β γ : Type}

namespace Program

/-- The statement is answered without an error, and `Q` holds of the answer and the store. -/
def totalSql (e : Env) (s : Sql K sub ρ β) (Q : β → Store K sub ρ → Prop) (d : Store K sub ρ) :
    Prop :=
  match s e.ctx d with
  | .ok (d', b) => Q b d'
  | .error _ => False

/-- What must hold of `d` for `p` to return, without meeting an error, and establish `Q`. -/
def total (e : Env) : Program K Lk sub ρ α → (α → Store K sub ρ → Prop) → Store K sub ρ → Prop
  | ret a, Q, d => Q a d
  | fail _, _, _ => False
  | lock _ next, Q, d => total e (next (.ok ())) Q d
  | tryLock _ next, Q, d => total e (next (.ok true)) Q d
  | read next, Q, d => total e (next e.reading) Q d
  | stmt s next, Q, d => totalSql e s.run (fun b d' => total e (next (.ok b)) Q d') d

variable {e : Env} {Q : β → Store K sub ρ → Prop} {d : Store K sub ρ}

/-! ### Soundness -/

theorem totalSql_iff {s : Sql K sub ρ β} :
    totalSql e s Q d ↔ ∃ d' b, s e.ctx d = .ok (d', b) ∧ Q b d' := by
  unfold totalSql
  cases hs : s e.ctx d with
  | ok r =>
      constructor
      · exact fun h => ⟨r.1, r.2, rfl, h⟩
      · rintro ⟨d', b, heq, h⟩
        cases heq
        exact h
  | error x => simp

theorem total_sound {p : Program K Lk sub ρ β} (h : total e p Q d) :
    ∃ b d', p.eval e (Tx.clean d) = (.ok b, Tx.clean d') ∧ Q b d' := by
  induction p generalizing d with
  | ret b => exact ⟨b, d, rfl, h⟩
  | fail f => cases h
  | lock l next ih => exact ih _ h
  | tryLock l next ih => exact ih _ h
  | read next ih => exact ih _ h
  | stmt s next ih =>
      obtain ⟨d', b, hs, hnext⟩ := totalSql_iff.mp h
      obtain ⟨a, d'', heval, hQ⟩ := ih _ hnext
      refine ⟨a, d'', ?_, hQ⟩
      rw [eval, Tx.request_clean, hs]
      exact heval

/-! ### Rules -/

theorem totalSql_mono {s : Sql K sub ρ β} {Q' : β → Store K sub ρ → Prop} (h : totalSql e s Q d)
    (hQ : ∀ b d', Q b d' → Q' b d') : totalSql e s Q' d := by
  obtain ⟨d', b, hs, hb⟩ := totalSql_iff.mp h
  exact totalSql_iff.mpr ⟨d', b, hs, hQ b d' hb⟩

theorem total_mono {p : Program K Lk sub ρ β} {Q' : β → Store K sub ρ → Prop} (h : total e p Q d)
    (hQ : ∀ b d', Q b d' → Q' b d') : total e p Q' d := by
  induction p generalizing d with
  | ret b => exact hQ b d h
  | fail f => cases h
  | lock l next ih => exact ih _ h
  | tryLock l next ih => exact ih _ h
  | read next ih => exact ih _ h
  | stmt s next ih => exact totalSql_mono h fun b _ hb => ih _ hb

@[simp] theorem total_ret (b : β) : total e (ret b : Program K Lk sub ρ β) Q d ↔ Q b d := Iff.rfl

@[simp] theorem total_bind (p : Program K Lk sub ρ α) (f : α → Program K Lk sub ρ β) :
    total e (p >>= f) Q d ↔ total e p (fun a d' => total e (f a) Q d') d := by
  induction p generalizing d with
  | ret a => exact Iff.rfl
  | fail x => exact Iff.rfl
  | lock l next ih => exact ih _
  | tryLock l next ih => exact ih _
  | read next ih => exact ih _
  | stmt s next ih =>
      simp only [stmt_bind, total, totalSql]
      cases s.run e.ctx d with
      | ok r => exact ih _
      | error x => exact Iff.rfl

@[simp] theorem total_map (p : Program K Lk sub ρ α) (f : α → β) :
    total e (f <$> p) Q d ↔ total e p (fun a d' => Q (f a) d') d := by
  rw [map_eq_pure_bind, total_bind]
  rfl

@[simp] theorem total_query (s : Sql K sub ρ β) :
    total e (query s : Program K Lk sub ρ β) Q d ↔ totalSql e s Q d := Iff.rfl

@[simp] theorem total_queryRows (s : Sql K sub ρ (List β)) {Q : List β → Store K sub ρ → Prop} :
    total e (queryRows s : Program K Lk sub ρ (List β)) Q d ↔ totalSql e s Q d := Iff.rfl

@[simp] theorem total_clock {Q : ℤ → Store K sub ρ → Prop} :
    total e (clock : Program K Lk sub ρ ℤ) Q d ↔ Q e.time d := Iff.rfl

@[simp] theorem total_random {Q : List ℕ → Store K sub ρ → Prop} :
    total e (random : Program K Lk sub ρ (List ℕ)) Q d ↔ Q e.random d := Iff.rfl

@[simp] theorem totalSql_pure (b : β) : totalSql e (pure b : Sql K sub ρ β) Q d ↔ Q b d := Iff.rfl

@[simp] theorem totalSql_bind (s : Sql K sub ρ α) (f : α → Sql K sub ρ β) :
    totalSql e (s >>= f) Q d ↔ totalSql e s (fun a d' => totalSql e (f a) Q d') d := by
  simp only [totalSql, Bind.bind]
  cases s e.ctx d <;> rfl

@[simp] theorem total_ite {c : Prop} [Decidable c] (p q : Program K Lk sub ρ β) :
    total e (if c then p else q) Q d ↔ (c → total e p Q d) ∧ (¬ c → total e q Q d) := by
  split <;> simp_all

end Program

end Relational
