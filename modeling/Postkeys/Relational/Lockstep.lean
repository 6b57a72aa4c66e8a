import Postkeys.Relational.Hoare

/-! # Two runs of one program

A program is run on two stores that a relation `R` connects.  A statement is `Blind` for `R` if it
answers the same on related stores and changes neither; a program is blind if its statements are,
whatever it sees.  A `Steady` program may change both stores, as long as every statement keeps them
related.  `Program.Lockstep` is the general case: the two runs get the same answers all the way, and
the relation holds again at the end.  `lockstep_sound` says what this means for `Program.eval`: the
same outcome, and related stores. -/

namespace Relational

variable {ι K Lk : Type} {sub ρ : ι → Type} {α β γ : Type}
  {R : ℤ → Store K sub ρ → Store K sub ρ → Prop} {Q : β → Store K sub ρ → Store K sub ρ → Prop}
  {s : Sql K sub ρ β} {p : Program K Lk sub ρ β}

/-! ### Blind statements and programs -/

/-- The statement answers the same on related stores and changes neither. -/
def Sql.Blind (R : ℤ → Store K sub ρ → Store K sub ρ → Prop) (s : Sql K sub ρ β) : Prop :=
  ∀ c d₁ d₂, R c.now d₁ d₂ →
    (∃ x, s c d₁ = .error x ∧ s c d₂ = .error x) ∨
      ∃ b, s c d₁ = .ok (d₁, b) ∧ s c d₂ = .ok (d₂, b)

theorem Sql.Blind.within (h : s.Blind R) (hR : ∀ t d, R t d d)
    {R' : Store K sub ρ → Store K sub ρ → Prop} (hrefl : ∀ d, R' d d) : s.Within R' := by
  intro c d d' b hs
  rcases h c d d (hR _ d) with ⟨x, hx, -⟩ | ⟨b', hb, -⟩
  · rw [hx] at hs
    cases hs
  · rw [hb] at hs
    cases hs
    exact hrefl d

theorem Sql.blind_pure (b : β) : (pure b : Sql K sub ρ β).Blind R :=
  fun _ _ _ _ => Or.inr ⟨b, rfl, rfl⟩

theorem Sql.blind_error (x : PgError) : (Sql.error x : Sql K sub ρ β).Blind R :=
  fun _ _ _ _ => Or.inl ⟨x, rfl, rfl⟩

/-- The statement answers the same on related stores and keeps them related. -/
def Sql.Steady (R : ℤ → Store K sub ρ → Store K sub ρ → Prop) (s : Sql K sub ρ β) : Prop :=
  ∀ c d₁ d₂, R c.now d₁ d₂ →
    (∃ x, s c d₁ = .error x ∧ s c d₂ = .error x) ∨
      ∃ b d₁' d₂', s c d₁ = .ok (d₁', b) ∧ s c d₂ = .ok (d₂', b) ∧ R c.now d₁' d₂'

theorem Sql.Blind.steady {R' : ℤ → Store K sub ρ → Store K sub ρ → Prop}
    (h : s.Blind R) (hR : ∀ t d₁ d₂, R' t d₁ d₂ → R t d₁ d₂) : s.Steady R' := by
  intro c d₁ d₂ h'
  rcases h c d₁ d₂ (hR _ _ _ h') with hx | ⟨b, h₁, h₂⟩
  · exact Or.inl hx
  · exact Or.inr ⟨b, d₁, d₂, h₁, h₂, h'⟩

theorem Sql.steady_error (x : PgError) : (Sql.error x : Sql K sub ρ β).Steady R :=
  fun _ _ _ _ => Or.inl ⟨x, rfl, rfl⟩

theorem Sql.steady_pure (b : β) : (pure b : Sql K sub ρ β).Steady R :=
  fun _ d₁ d₂ h => Or.inr ⟨b, d₁, d₂, rfl, rfl, h⟩

theorem Sql.Steady.bind {s : Sql K sub ρ α} {f : α → Sql K sub ρ β} (hs : s.Steady R)
    (hf : ∀ a, (f a).Steady R) : (s >>= f).Steady R := by
  intro c d₁ d₂ h
  simp only [Bind.bind]
  rcases hs c d₁ d₂ h with ⟨x, h₁, h₂⟩ | ⟨a, d₁', d₂', h₁, h₂, h'⟩
  · exact Or.inl ⟨x, by rw [h₁], by rw [h₂]⟩
  · rw [h₁, h₂]
    exact hf a c d₁' d₂' h'

theorem Sql.Steady.forEach {f : γ → Sql K sub ρ Unit} {l : List γ}
    (h : ∀ x ∈ l, (f x).Steady R) : (Sql.forEach f l).Steady R := by
  induction l with
  | nil => exact Sql.steady_pure _
  | cons x xs ih =>
      exact .bind (h x (List.mem_cons_self ..)) fun _ =>
        ih fun y hy => h y (List.mem_cons_of_mem x hy)

namespace Program

/-- All statements of the program are blind. -/
def Blind (R : ℤ → Store K sub ρ → Store K sub ρ → Prop) : Program K Lk sub ρ α → Prop
  | ret _ => True
  | fail _ => True
  | lock _ next => ∀ r, Blind R (next r)
  | tryLock _ next => ∀ r, Blind R (next r)
  | read next => ∀ r, Blind R (next r)
  | stmt s next => s.run.Blind R ∧ ∀ r, Blind R (next r)

/-- A blind program only reads. -/
theorem Blind.within {p : Program K Lk sub ρ α} (h : p.Blind R) (hR : ∀ t d, R t d d)
    {R' : Store K sub ρ → Store K sub ρ → Prop} (hrefl : ∀ d, R' d d) : p.Within R' := by
  induction p with
  | ret a => exact trivial
  | fail f => exact trivial
  | lock l next ih => exact fun r => ih r (h r)
  | tryLock l next ih => exact fun r => ih r (h r)
  | read next ih => exact fun r => ih r (h r)
  | stmt s next ih => exact ⟨h.1.within hR hrefl, fun r => ih r (h.2 r)⟩

@[simp] theorem blind_clock : (clock : Program K Lk sub ρ ℤ).Blind R := fun _ => trivial

@[simp] theorem blind_random : (random : Program K Lk sub ρ (List ℕ)).Blind R := fun _ => trivial

theorem Blind.bind {p : Program K Lk sub ρ α} {f : α → Program K Lk sub ρ β} (hp : p.Blind R)
    (hf : ∀ a, (f a).Blind R) : (p >>= f).Blind R := by
  induction p with
  | ret a => exact hf a
  | fail x => exact trivial
  | lock l next ih => exact fun r => ih r (hp r)
  | tryLock l next ih => exact fun r => ih r (hp r)
  | read next ih => exact fun r => ih r (hp r)
  | stmt s next ih => exact ⟨hp.1, fun r => ih r (hp.2 r)⟩

theorem Blind.map (f : α → β) {p : Program K Lk sub ρ α} (hp : p.Blind R) : (f <$> p).Blind R := by
  rw [map_eq_pure_bind]
  exact hp.bind fun _ => trivial

theorem Blind.ite {c : Prop} [Decidable c] {p q : Program K Lk sub ρ α} (hp : p.Blind R)
    (hq : q.Blind R) : (if c then p else q).Blind R := by
  split
  · exact hp
  · exact hq

theorem blind_orFail (m : String) (r : Except PgError β) :
    (orFail m r : Program K Lk sub ρ β).Blind R := by
  cases r <;> trivial

theorem Blind.query (h : s.Blind R) :
    (query s : Program K Lk sub ρ β).Blind R := ⟨h, blind_orFail _⟩

theorem Blind.queryRows {s : Sql K sub ρ (List β)} (h : s.Blind R) :
    (queryRows s : Program K Lk sub ρ (List β)).Blind R := ⟨h, fun _ => trivial⟩

/-- What a blind program establishes. -/
theorem Blind.wp {e : Env} {d : Store K sub ρ} (h : p.Blind R)
    (hR : ∀ t d, R t d d) {Q : β → Store K sub ρ → Prop} (hQ : ∀ b, Q b d) : wp e p Q d := by
  refine wp_mono (Within.wp (R := fun d d' => d' = d) (fun _ => rfl) ?_ (h.within hR fun _ => rfl)) ?_
  · rintro d₁ d₂ d₃ rfl rfl
    rfl
  · rintro b d' rfl
    exact hQ b

/-! ### Steady programs -/

/-- All statements of the program are steady. -/
def Steady (R : ℤ → Store K sub ρ → Store K sub ρ → Prop) : Program K Lk sub ρ α → Prop
  | ret _ => True
  | fail _ => True
  | lock _ next => ∀ r, Steady R (next r)
  | tryLock _ next => ∀ r, Steady R (next r)
  | read next => ∀ r, Steady R (next r)
  | stmt s next => s.run.Steady R ∧ ∀ r, Steady R (next r)

theorem steady_pure (a : α) : (pure a : Program K Lk sub ρ α).Steady R := trivial

theorem Blind.steady {R' : ℤ → Store K sub ρ → Store K sub ρ → Prop} {p : Program K Lk sub ρ α}
    (h : p.Blind R) (hR : ∀ t d₁ d₂, R' t d₁ d₂ → R t d₁ d₂) : p.Steady R' := by
  induction p with
  | ret a => exact trivial
  | fail f => exact trivial
  | lock l next ih => exact fun r => ih r (h r)
  | tryLock l next ih => exact fun r => ih r (h r)
  | read next ih => exact fun r => ih r (h r)
  | stmt s next ih => exact ⟨h.1.steady hR, fun r => ih r (h.2 r)⟩

theorem Steady.bind {p : Program K Lk sub ρ α} {f : α → Program K Lk sub ρ β} (hp : p.Steady R)
    (hf : ∀ a, (f a).Steady R) : (p >>= f).Steady R := by
  induction p with
  | ret a => exact hf a
  | fail x => exact trivial
  | lock l next ih => exact fun r => ih r (hp r)
  | tryLock l next ih => exact fun r => ih r (hp r)
  | read next ih => exact fun r => ih r (hp r)
  | stmt s next ih => exact ⟨hp.1, fun r => ih r (hp.2 r)⟩

theorem Steady.ite {c : Prop} [Decidable c] {p q : Program K Lk sub ρ α} (hp : p.Steady R)
    (hq : q.Steady R) : (if c then p else q).Steady R := by
  split
  · exact hp
  · exact hq

theorem steady_orFail (m : String) (r : Except PgError β) :
    (orFail m r : Program K Lk sub ρ β).Steady R := by
  cases r <;> trivial

theorem Steady.query (h : s.Steady R) :
    (query s : Program K Lk sub ρ β).Steady R := ⟨h, steady_orFail _⟩

theorem Steady.queryContext (m : String) (h : s.Steady R) :
    (queryContext m s : Program K Lk sub ρ β).Steady R := ⟨h, steady_orFail _⟩

theorem Steady.queryForUpdate (h : s.Steady R)
    (locks : Ctx K sub → Store K sub ρ → Finset (Loc K sub)) :
    (queryForUpdate s locks : Program K Lk sub ρ β).Steady R := ⟨h, steady_orFail _⟩

theorem Steady.queryRows {s : Sql K sub ρ (List β)} (h : s.Steady R) :
    (queryRows s : Program K Lk sub ρ (List β)).Steady R := ⟨h, fun _ => trivial⟩

theorem Steady.queryIgnored (h : s.Steady R) :
    (queryIgnored s : Program K Lk sub ρ Unit).Steady R := ⟨h, fun _ => trivial⟩

theorem steady_acquire (l : Lk) : (acquire l : Program K Lk sub ρ Unit).Steady R := steady_orFail _

theorem steady_clock : (clock : Program K Lk sub ρ ℤ).Steady R := fun _ => trivial

theorem steady_random : (random : Program K Lk sub ρ (List ℕ)).Steady R := fun _ => trivial

theorem Steady.forEach {f : γ → Program K Lk sub ρ Unit} {l : List γ}
    (h : ∀ x ∈ l, (f x).Steady R) : (forEach f l).Steady R := by
  induction l with
  | nil => exact trivial
  | cons x xs ih =>
      exact .bind (h x (List.mem_cons_self ..)) fun _ =>
        ih fun y hy => h y (List.mem_cons_of_mem x hy)

/-! ### Lockstep -/

/-- The statement answers the same on both stores, and `Q` holds afterwards; where both refuse it,
`R` holds. -/
def LockstepSql (e : Env) (R : Store K sub ρ → Store K sub ρ → Prop) (s : Sql K sub ρ β)
    (Q : β → Store K sub ρ → Store K sub ρ → Prop) (d₁ d₂ : Store K sub ρ) : Prop :=
  (∃ x, s e.ctx d₁ = .error x ∧ s e.ctx d₂ = .error x ∧ R d₁ d₂) ∨
    ∃ b d₁' d₂', s e.ctx d₁ = .ok (d₁', b) ∧ s e.ctx d₂ = .ok (d₂', b) ∧ Q b d₁' d₂'

/-- The runs of `p` on `d₁` and `d₂` get the same answers; `Q` holds where they return and `R` where
they give up. -/
def Lockstep (e : Env) (R : Store K sub ρ → Store K sub ρ → Prop) :
    Program K Lk sub ρ α → (α → Store K sub ρ → Store K sub ρ → Prop) →
      Store K sub ρ → Store K sub ρ → Prop
  | ret a, Q, d₁, d₂ => Q a d₁ d₂
  | fail _, _, d₁, d₂ => R d₁ d₂
  | lock _ next, Q, d₁, d₂ => Lockstep e R (next (.ok ())) Q d₁ d₂
  | tryLock _ next, Q, d₁, d₂ => Lockstep e R (next (.ok true)) Q d₁ d₂
  | read next, Q, d₁, d₂ => Lockstep e R (next e.reading) Q d₁ d₂
  | stmt s next, Q, d₁, d₂ => LockstepSql e R s.run (fun b => Lockstep e R (next (.ok b)) Q) d₁ d₂

variable {e : Env} {R₀ : Store K sub ρ → Store K sub ρ → Prop} {d₁ d₂ : Store K sub ρ}

/-- In an aborted transaction the outcome does not depend on the rows. -/
theorem eval_aborted_fst (p : Program K Lk sub ρ β) (tx₁ tx₂ : Tx K sub ρ)
    (h₁ : tx₁.aborted = true) (h₂ : tx₂.aborted = true) : (p.eval e tx₁).1 = (p.eval e tx₂).1 := by
  induction p with
  | ret a => rfl
  | fail f => rfl
  | read next ih => exact ih _
  | lock l next ih =>
      simp only [eval, Tx.request, h₁, h₂]
      exact ih _
  | tryLock l next ih =>
      simp only [eval, Tx.request, h₁, h₂]
      exact ih _
  | stmt s next ih =>
      simp only [eval, Tx.request, h₁, h₂]
      exact ih _

theorem lockstep_sound (h : Lockstep e R₀ p (fun _ => R₀) d₁ d₂) :
    (p.eval e (Tx.clean d₁)).1 = (p.eval e (Tx.clean d₂)).1 ∧
      (p.eval e (Tx.clean d₁)).2.aborted = (p.eval e (Tx.clean d₂)).2.aborted ∧
      R₀ (p.eval e (Tx.clean d₁)).2.view (p.eval e (Tx.clean d₂)).2.view := by
  induction p generalizing d₁ d₂ with
  | ret a => exact ⟨rfl, rfl, h⟩
  | fail f => exact ⟨rfl, rfl, h⟩
  | read next ih => exact ih _ h
  | lock l next ih => exact ih _ h
  | tryLock l next ih => exact ih _ h
  | stmt s next ih =>
      rcases h with ⟨x, h₁, h₂, hR⟩ | ⟨b, d₁', d₂', h₁, h₂, hQ⟩
      · simp only [eval, Tx.request_clean, h₁, h₂]
        rw [eval_aborted _ ⟨d₁, true, []⟩ rfl, eval_aborted _ ⟨d₂, true, []⟩ rfl]
        exact ⟨eval_aborted_fst _ _ _ rfl rfl, rfl, hR⟩
      · simp only [eval, Tx.request_clean, h₁, h₂]
        exact ih _ hQ

@[simp] theorem lockstep_bind
    (p : Program K Lk sub ρ α) (f : α → Program K Lk sub ρ β) :
    Lockstep e R₀ (p >>= f) Q d₁ d₂ ↔ Lockstep e R₀ p (fun a => Lockstep e R₀ (f a) Q) d₁ d₂ := by
  induction p generalizing d₁ d₂ with
  | ret a => exact Iff.rfl
  | fail x => exact Iff.rfl
  | lock l next ih => exact ih _
  | tryLock l next ih => exact ih _
  | read next ih => exact ih _
  | stmt s next ih =>
      simp only [stmt_bind, Lockstep, LockstepSql]
      refine or_congr Iff.rfl ?_
      constructor
      · rintro ⟨b, d₁', d₂', h₁, h₂, h⟩
        exact ⟨b, d₁', d₂', h₁, h₂, (ih _).mp h⟩
      · rintro ⟨b, d₁', d₂', h₁, h₂, h⟩
        exact ⟨b, d₁', d₂', h₁, h₂, (ih _).mpr h⟩

@[simp] theorem lockstep_map
    (p : Program K Lk sub ρ α) (f : α → β) :
    Lockstep e R₀ (f <$> p) Q d₁ d₂ ↔ Lockstep e R₀ p (fun a => Q (f a)) d₁ d₂ := by
  rw [map_eq_pure_bind, lockstep_bind]
  rfl

theorem Lockstep.mono
    {Q Q' : β → Store K sub ρ → Store K sub ρ → Prop} (h : Lockstep e R₀ p Q d₁ d₂)
    (hQ : ∀ b d₁ d₂, Q b d₁ d₂ → Q' b d₁ d₂) : Lockstep e R₀ p Q' d₁ d₂ := by
  induction p generalizing d₁ d₂ with
  | ret b => exact hQ b d₁ d₂ h
  | fail x => exact h
  | lock l next ih => exact ih _ h
  | tryLock l next ih => exact ih _ h
  | read next ih => exact ih _ h
  | stmt s next ih =>
      rcases h with h | ⟨b, d₁', d₂', h₁, h₂, h⟩
      · exact Or.inl h
      · exact Or.inr ⟨b, d₁', d₂', h₁, h₂, ih _ h⟩

@[simp] theorem lockstep_query (s : Sql K sub ρ β) :
    Lockstep e R₀ (query s : Program K Lk sub ρ β) Q d₁ d₂ ↔ LockstepSql e R₀ s Q d₁ d₂ := Iff.rfl

@[simp] theorem lockstep_acquire {Q : Unit → Store K sub ρ → Store K sub ρ → Prop} (l : Lk) :
    Lockstep e R₀ (acquire l : Program K Lk sub ρ Unit) Q d₁ d₂ ↔ Q () d₁ d₂ := Iff.rfl

@[simp] theorem lockstep_random {Q : List ℕ → Store K sub ρ → Store K sub ρ → Prop} :
    Lockstep e R₀ (random : Program K Lk sub ρ (List ℕ)) Q d₁ d₂ ↔ Q e.random d₁ d₂ := Iff.rfl

theorem Sql.Blind.lockstep (h : s.Blind R) (hR : R e.now d₁ d₂)

    (hQ : ∀ b, s e.ctx d₁ = .ok (d₁, b) → Q b d₁ d₂) : LockstepSql e (R e.now) s Q d₁ d₂ := by
  rcases h e.ctx d₁ d₂ hR with ⟨x, h₁, h₂⟩ | ⟨b, h₁, h₂⟩
  · exact Or.inl ⟨x, h₁, h₂, hR⟩
  · exact Or.inr ⟨b, d₁, d₂, h₁, h₂, hQ b h₁⟩

theorem Blind.lockstep (h : p.Blind R) (hR : R e.now d₁ d₂)
    (hQ : ∀ b, Q b d₁ d₂) :
    Lockstep e (R e.now) p Q d₁ d₂ := by
  induction p with
  | ret b => exact hQ b
  | fail f => exact hR
  | lock l next ih => exact ih _ (h _)
  | tryLock l next ih => exact ih _ (h _)
  | read next ih => exact ih _ (h _)
  | stmt s next ih => exact Sql.Blind.lockstep h.1 hR fun b _ => ih _ (h.2 _)

theorem Sql.Steady.lockstep (h : s.Steady R) (hR : R e.now d₁ d₂)
    (hR₀ : ∀ d₁ d₂, R e.now d₁ d₂ → R₀ d₁ d₂)
    (hQ : ∀ b d₁' d₂', R e.now d₁' d₂' → Q b d₁' d₂') : LockstepSql e R₀ s Q d₁ d₂ := by
  rcases h e.ctx d₁ d₂ hR with ⟨x, h₁, h₂⟩ | ⟨b, d₁', d₂', h₁, h₂, h'⟩
  · exact Or.inl ⟨x, h₁, h₂, hR₀ _ _ hR⟩
  · exact Or.inr ⟨b, d₁', d₂', h₁, h₂, hQ b _ _ h'⟩

theorem Steady.lockstep (h : p.Steady R) (hR : R e.now d₁ d₂)
    (hR₀ : ∀ d₁ d₂, R e.now d₁ d₂ → R₀ d₁ d₂)
    (hQ : ∀ b d₁' d₂', R e.now d₁' d₂' → Q b d₁' d₂') : Lockstep e R₀ p Q d₁ d₂ := by
  induction p generalizing d₁ d₂ with
  | ret b => exact hQ b _ _ hR
  | fail f => exact hR₀ _ _ hR
  | lock l next ih => exact ih _ (h _) hR
  | tryLock l next ih => exact ih _ (h _) hR
  | read next ih => exact ih _ (h _) hR
  | stmt s next ih =>
      exact Sql.Steady.lockstep h.1 hR hR₀ fun b d₁' d₂' h' => ih _ (h.2 _) h'

/-- What one of the two runs establishes may be used in both. -/
theorem Lockstep.and_wp
    {Q₁ : β → Store K sub ρ → Prop} (h : Lockstep e R₀ p Q d₁ d₂) (hw : wp e p Q₁ d₁) :
    Lockstep e R₀ p (fun b d₁' d₂' => Q b d₁' d₂' ∧ Q₁ b d₁') d₁ d₂ := by
  induction p generalizing d₁ d₂ with
  | ret b => exact ⟨h, hw⟩
  | fail f => exact h
  | lock l next ih => exact ih _ h hw
  | tryLock l next ih => exact ih _ h hw
  | read next ih => exact ih _ h hw
  | stmt s next ih =>
      rcases h with h | ⟨b, d₁', d₂', h₁, h₂, h⟩
      · exact Or.inl h
      · refine Or.inr ⟨b, d₁', d₂', h₁, h₂, ih _ h ?_⟩
        simpa only [wp, wpSql, h₁] using hw

end Program

end Relational
