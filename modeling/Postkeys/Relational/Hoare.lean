import Postkeys.Relational.Program

/-! # Postconditions of programs

`Program.wp e p Q d` says that if `p`, started alone on `d`, returns and its transaction can be
committed, then `Q` holds of the result and of the store.  It is computed from the program, one
equation per construct; `wp_sound` connects it with `Program.eval`.

`Program.Within R p` says that every statement of `p`, whatever it is answered, relates the store
before it to the store after it by `R`; `eval_within` concludes the same of the whole program when
`R` is reflexive and transitive. -/

namespace Relational

variable {ι K Lk : Type} {sub ρ : ι → Type} {α β γ : Type} {p : Program K Lk sub ρ β}
  {s : Sql K sub ρ β} {Q' : β → Store K sub ρ → Prop}

/-- Whatever the statement does, `R` relates the store before it to the store after it. -/
def Sql.Within (R : Store K sub ρ → Store K sub ρ → Prop) (s : Sql K sub ρ β) : Prop :=
  ∀ c d d' b, s c d = .ok (d', b) → R d d'

namespace Program

/-- The postcondition of a single statement. -/
def wpSql (e : Env) (s : Sql K sub ρ β) (Q : β → Store K sub ρ → Prop) (d : Store K sub ρ) : Prop :=
  match s e.ctx d with
  | .ok (d', b) => Q b d'
  | .error _ => True

/-- What must hold of `d` for `p` to establish `Q` if it returns and can be committed. -/
def wp (e : Env) : Program K Lk sub ρ α → (α → Store K sub ρ → Prop) → Store K sub ρ → Prop
  | ret a, Q, d => Q a d
  | fail _, _, _ => True
  | lock _ next, Q, d => wp e (next (.ok ())) Q d
  | tryLock _ next, Q, d => wp e (next (.ok true)) Q d
  | read next, Q, d => wp e (next e.reading) Q d
  | stmt s next, Q, d => wpSql e s.run (fun b d' => wp e (next (.ok b)) Q d') d

variable {e : Env} {Q : β → Store K sub ρ → Prop} {d : Store K sub ρ}

/-! ### Soundness -/

theorem request_aborted {tx : Tx K sub ρ} (h : tx.aborted = true)
    (m : Store K sub ρ → Except PgError (Store K sub ρ × β)) : (tx.request m).2 = tx := by
  simp [Tx.request, h]

theorem eval_aborted (p : Program K Lk sub ρ β) (tx : Tx K sub ρ) (h : tx.aborted = true) :
    (p.eval e tx).2 = tx := by
  induction p with
  | ret a => rfl
  | fail f => rfl
  | read next ih => exact ih _
  | lock l next ih =>
      rw [eval, request_aborted h]
      exact ih _
  | tryLock l next ih =>
      rw [eval, request_aborted h]
      exact ih _
  | stmt s next ih =>
      rw [eval, request_aborted h]
      exact ih _

theorem wp_sound (h : wp e p Q d) {b : β} {tx : Tx K sub ρ}
    (hp : p.eval e (Tx.clean d) = (.ok b, tx)) (ha : tx.aborted = false) : Q b tx.view := by
  induction p generalizing d with
  | ret a =>
      cases hp
      exact h
  | fail f => cases hp
  | read next ih => exact ih _ h hp
  | lock l next ih => exact ih _ h hp
  | tryLock l next ih => exact ih _ h hp
  | stmt s next ih =>
      rw [eval, Tx.request_clean] at hp
      rw [wp, wpSql] at h
      cases hs : s.run e.ctx d with
      | ok r =>
          rw [hs] at hp h
          exact ih _ h hp
      | error x =>
          rw [hs] at hp
          -- the statement aborted the transaction, so nothing of it can be committed
          have hab : tx = ⟨d, true, []⟩ := by
            rw [← eval_aborted (next (.error x)) ⟨d, true, []⟩ rfl]
            exact (congrArg Prod.snd hp).symm
          rw [hab] at ha
          cases ha

/-! ### Rules -/

@[simp] theorem wp_ret (b : β) : wp e (ret b : Program K Lk sub ρ β) Q d ↔ Q b d := Iff.rfl

@[simp] theorem wp_fail (f : Failure) : wp e (fail f : Program K Lk sub ρ β) Q d := trivial

@[simp] theorem wp_raise (m : String) : wp e (raise m : Program K Lk sub ρ β) Q d := trivial

@[simp] theorem wp_bind (p : Program K Lk sub ρ α) (f : α → Program K Lk sub ρ β) :
    wp e (p >>= f) Q d ↔ wp e p (fun a d' => wp e (f a) Q d') d := by
  induction p generalizing d with
  | ret a => exact Iff.rfl
  | fail x => exact Iff.rfl
  | lock l next ih => exact ih _
  | tryLock l next ih => exact ih _
  | read next ih => exact ih _
  | stmt s next ih =>
      simp only [stmt_bind, wp, wpSql]
      cases s.run e.ctx d with
      | ok r => exact ih _
      | error x => exact Iff.rfl

@[simp] theorem wp_map (p : Program K Lk sub ρ α) (f : α → β) :
    wp e (f <$> p) Q d ↔ wp e p (fun a d' => Q (f a) d') d := by
  rw [map_eq_pure_bind, wp_bind]
  rfl

theorem wp_mono (h : wp e p Q d)
    (hQ : ∀ b d', Q b d' → Q' b d') : wp e p Q' d := by
  induction p generalizing d with
  | ret b => exact hQ b d h
  | fail x => exact trivial
  | lock l next ih => exact ih _ h
  | tryLock l next ih => exact ih _ h
  | read next ih => exact ih _ h
  | stmt s next ih =>
      simp only [wp, wpSql] at h ⊢
      cases hs : s.run e.ctx d with
      | ok r =>
          rw [hs] at h
          exact ih _ h
      | error x => exact trivial

theorem wp_of_forall (p : Program K Lk sub ρ β) (h : ∀ b d, Q b d) : wp e p Q d := by
  induction p generalizing d with
  | ret b => exact h b d
  | fail x => exact trivial
  | lock l next ih => exact ih _
  | tryLock l next ih => exact ih _
  | read next ih => exact ih _
  | stmt s next ih =>
      simp only [wp, wpSql]
      cases s.run e.ctx d with
      | ok r => exact ih _
      | error x => exact trivial

theorem wp_and (h : wp e p Q d)
    (h' : wp e p Q' d) : wp e p (fun b d' => Q b d' ∧ Q' b d') d := by
  induction p generalizing d with
  | ret b => exact ⟨h, h'⟩
  | fail x => exact trivial
  | lock l next ih => exact ih _ h h'
  | tryLock l next ih => exact ih _ h h'
  | read next ih => exact ih _ h h'
  | stmt s next ih =>
      simp only [wp, wpSql] at h h' ⊢
      cases hs : s.run e.ctx d with
      | ok r =>
          rw [hs] at h h'
          exact ih _ h h'
      | error x => exact trivial

@[simp] theorem wp_query (s : Sql K sub ρ β) :
    wp e (query s : Program K Lk sub ρ β) Q d ↔ wpSql e s Q d := Iff.rfl

@[simp] theorem wp_queryContext (m : String) (s : Sql K sub ρ β) :
    wp e (queryContext m s : Program K Lk sub ρ β) Q d ↔ wpSql e s Q d := Iff.rfl

@[simp] theorem wp_queryForUpdate (s : Sql K sub ρ β)
    (locks : Ctx K sub → Store K sub ρ → Finset (Loc K sub)) :
    wp e (queryForUpdate s locks : Program K Lk sub ρ β) Q d ↔ wpSql e s Q d := Iff.rfl

@[simp] theorem wp_queryRows {Q : List β → Store K sub ρ → Prop} (s : Sql K sub ρ (List β)) :
    wp e (queryRows s : Program K Lk sub ρ (List β)) Q d ↔ wpSql e s Q d := Iff.rfl

@[simp] theorem wp_queryIgnored {Q : Unit → Store K sub ρ → Prop} (s : Sql K sub ρ α) :
    wp e (queryIgnored s : Program K Lk sub ρ Unit) Q d ↔ wpSql e s (fun _ => Q ()) d := Iff.rfl

@[simp] theorem wp_clock {Q : ℤ → Store K sub ρ → Prop} :
    wp e (clock : Program K Lk sub ρ ℤ) Q d ↔ Q e.time d := Iff.rfl

@[simp] theorem wp_random {Q : List ℕ → Store K sub ρ → Prop} :
    wp e (random : Program K Lk sub ρ (List ℕ)) Q d ↔ Q e.random d := Iff.rfl

@[simp] theorem wp_ite {c : Prop} [Decidable c] (p q : Program K Lk sub ρ β) :
    wp e (if c then p else q) Q d ↔ (c → wp e p Q d) ∧ (¬ c → wp e q Q d) := by
  split <;> simp_all

/-! ### Statements -/

@[simp] theorem wpSql_pure (b : β) : wpSql e (pure b : Sql K sub ρ β) Q d ↔ Q b d := Iff.rfl

@[simp] theorem wpSql_error (x : PgError) : wpSql e (Sql.error x : Sql K sub ρ β) Q d := trivial

theorem wpSql_mono (h : wpSql e s Q d)
    (hQ : ∀ b d', Q b d' → Q' b d') : wpSql e s Q' d := by
  simp only [wpSql] at h ⊢
  cases hs : s e.ctx d with
  | ok r =>
      rw [hs] at h
      exact hQ _ _ h
  | error x => exact trivial

theorem wpSql_and (h : wpSql e s Q d)
    (h' : wpSql e s Q' d) : wpSql e s (fun b d' => Q b d' ∧ Q' b d') d := by
  simp only [wpSql] at h h' ⊢
  cases hs : s e.ctx d with
  | ok r =>
      rw [hs] at h h'
      exact ⟨h, h'⟩
  | error x => exact trivial

@[simp] theorem wpSql_bind (s : Sql K sub ρ α) (f : α → Sql K sub ρ β) :
    wpSql e (s >>= f) Q d ↔ wpSql e s (fun a d' => wpSql e (f a) Q d') d := by
  simp only [wpSql, Bind.bind]
  cases s e.ctx d <;> rfl

@[simp] theorem wpSql_ite {c : Prop} [Decidable c] (p q : Sql K sub ρ β) :
    wpSql e (if c then p else q) Q d ↔ (c → wpSql e p Q d) ∧ (¬ c → wpSql e q Q d) := by
  split <;> simp_all

section rows
variable [DecidableEq K] [∀ t, DecidableEq (sub t)]

theorem wpSql_readRows (t : ι) (k : K)
    (f : Ctx K sub → Table (sub t) (ρ t) → Except PgError β) :
    wpSql e (Sql.readRows t k f) Q d ↔ ∀ b, f e.ctx (d.rows t k) = .ok b → Q b d := by
  simp only [wpSql, Sql.readRows]
  cases f e.ctx (d.rows t k) <;> simp

@[simp] theorem wpSql_readRowsIn (t : ι) (ks : List K)
    (f : Ctx K sub → (K → Table (sub t) (ρ t)) → β) :
    wpSql e (Sql.readRowsIn t ks f) Q d ↔
      Q (f e.ctx fun k => if k ∈ ks then d.rows t k else ∅) d := Iff.rfl

variable [DecidableEq ι]

theorem wpSql_onRows (t : ι) (k : K)
    (f : Ctx K sub → Table (sub t) (ρ t) → Except PgError (Table (sub t) (ρ t) × β)) :
    wpSql e (Sql.onRows t k f) Q d ↔
      ∀ u b, f e.ctx (d.rows t k) = .ok (u, b) → Q b (d.setRows t k u) := by
  simp only [wpSql, Sql.onRows]
  cases f e.ctx (d.rows t k) with
  | ok r =>
      obtain ⟨u, b⟩ := r
      simp only [Except.ok.injEq, Prod.mk.injEq]
      exact ⟨fun h u' b' heq => heq.1 ▸ heq.2 ▸ h, fun h => h u b ⟨rfl, rfl⟩⟩
  | error x => simp

end rows

/-- A loop inside a statement. -/
theorem wpSql_forEach {f : γ → Sql K sub ρ Unit} {I : Store K sub ρ → Prop} {l : List γ}
    (hf : ∀ x ∈ l, ∀ d, I d → wpSql e (f x) (fun _ d' => I d') d) (hd : I d) :
    wpSql e (Sql.forEach f l) (fun _ d' => I d') d := by
  induction l generalizing d with
  | nil => exact hd
  | cons x xs ih =>
      rw [Sql.forEach, wpSql_bind]
      have hx := hf x (List.mem_cons_self ..) d hd
      simp only [wpSql] at hx ⊢
      cases hs : f x e.ctx d with
      | ok r =>
          rw [hs] at hx
          exact ih (fun y hy => hf y (List.mem_cons_of_mem x hy)) hx
      | error y => trivial

/-- What every round of a loop brings about and no round spoils, holds for all rounds at its end. -/
theorem wpSql_forEach_all {f : γ → Sql K sub ρ Unit} {P : γ → Store K sub ρ → Prop} {l : List γ}
    (hf : ∀ x d, wpSql e (f x) (fun _ d' => P x d') d)
    (hkeep : ∀ x y d, P y d → wpSql e (f x) (fun _ d' => P y d') d) :
    wpSql e (Sql.forEach f l) (fun _ d' => ∀ x ∈ l, P x d') d := by
  induction l generalizing d with
  | nil => exact fun x hx => by cases hx
  | cons x xs ih =>
      rw [Sql.forEach, wpSql_bind]
      refine wpSql_mono (hf x d) fun _ d₁ hx => ?_
      have hrest := wpSql_forEach (l := xs) (fun y _ d => hkeep y x d) hx
      refine wpSql_mono (wpSql_and hrest ih) ?_
      rintro _ d' ⟨hx, hxs⟩
      exact List.forall_mem_cons.mpr ⟨hx, hxs⟩

/-! ### Programs whose statements stay within a relation -/

/-- Every statement of the program relates the store before it to the store after it by `R`. -/
def Within (R : Store K sub ρ → Store K sub ρ → Prop) : Program K Lk sub ρ α → Prop
  | ret _ => True
  | fail _ => True
  | lock _ next => ∀ r, Within R (next r)
  | tryLock _ next => ∀ r, Within R (next r)
  | read next => ∀ r, Within R (next r)
  | stmt s next => s.run.Within R ∧ ∀ r, Within R (next r)

section within
variable {R : Store K sub ρ → Store K sub ρ → Prop}

theorem request_within (hrefl : ∀ d, R d d) {tx : Tx K sub ρ}
    {m : Store K sub ρ → Except PgError (Store K sub ρ × β)}
    (h : ∀ d' b, m tx.view = .ok (d', b) → R tx.view d') : R tx.view (tx.request m).2.view := by
  unfold Tx.request
  split
  · exact hrefl _
  · split
    · exact hrefl _
    · split
      · rename_i d' b hm
        exact h d' b hm
      · exact hrefl _

/-- The whole program stays within a reflexive and transitive relation, also where it fails. -/
theorem eval_within (hrefl : ∀ d, R d d) (htrans : ∀ d₁ d₂ d₃, R d₁ d₂ → R d₂ d₃ → R d₁ d₃)
    (h : p.Within R) (tx : Tx K sub ρ) :
    R tx.view (p.eval e tx).2.view := by
  induction p generalizing tx with
  | ret a => exact hrefl _
  | fail f => exact hrefl _
  | read next ih => exact ih _ (h _) tx
  | lock l next ih =>
      refine htrans _ _ _ (request_within hrefl ?_) (ih _ (h _) _)
      rintro d' b ⟨⟩
      exact hrefl _
  | tryLock l next ih =>
      refine htrans _ _ _ (request_within hrefl ?_) (ih _ (h _) _)
      rintro d' b ⟨⟩
      exact hrefl _
  | stmt s next ih =>
      refine htrans _ _ _ (request_within hrefl ?_) (ih _ (h.2 _) _)
      exact fun d' b hm => h.1 _ _ _ _ hm

/-- A program that stays within a relation, as a postcondition. -/
theorem Within.wp (hrefl : ∀ d, R d d) (htrans : ∀ d₁ d₂ d₃, R d₁ d₂ → R d₂ d₃ → R d₁ d₃)
    (h : p.Within R) : wp e p (fun _ d' => R d d') d := by
  induction p generalizing d with
  | ret a => exact hrefl d
  | fail f => exact trivial
  | lock l next ih => exact ih _ (h _)
  | tryLock l next ih => exact ih _ (h _)
  | read next ih => exact ih _ (h _)
  | stmt s next ih =>
      simp only [Program.wp, wpSql]
      cases hs : s.run e.ctx d with
      | error x => trivial
      | ok r =>
          obtain ⟨d', b⟩ := r
          exact wp_mono (ih _ (h.2 _)) fun _ _ h' => htrans _ _ _ (h.1 _ _ _ _ hs) h'

theorem Within.bind {p : Program K Lk sub ρ α} {f : α → Program K Lk sub ρ β} (hp : p.Within R)
    (hf : ∀ a, (f a).Within R) : (p >>= f).Within R := by
  induction p with
  | ret a => exact hf a
  | fail x => exact trivial
  | lock l next ih => exact fun r => ih r (hp r)
  | tryLock l next ih => exact fun r => ih r (hp r)
  | read next ih => exact fun r => ih r (hp r)
  | stmt s next ih => exact ⟨hp.1, fun r => ih r (hp.2 r)⟩

theorem Within.ite {c : Prop} [Decidable c] {p q : Program K Lk sub ρ α} (hp : p.Within R)
    (hq : q.Within R) : (if c then p else q).Within R := by
  split
  · exact hp
  · exact hq

theorem Within.map {p : Program K Lk sub ρ α} (f : α → β) (hp : p.Within R) :
    (f <$> p).Within R := by
  rw [map_eq_pure_bind]
  exact hp.bind fun _ => trivial

theorem within_orFail (m : String) (r : Except PgError β) :
    (orFail m r : Program K Lk sub ρ β).Within R := by
  cases r <;> trivial

theorem Within.query (h : s.Within R) :
    (query s : Program K Lk sub ρ β).Within R := ⟨h, within_orFail _⟩

theorem Within.queryContext (m : String) (h : s.Within R) :
    (queryContext m s : Program K Lk sub ρ β).Within R := ⟨h, within_orFail _⟩

theorem Within.queryForUpdate (h : s.Within R)
    (locks : Ctx K sub → Store K sub ρ → Finset (Loc K sub)) :
    (queryForUpdate s locks : Program K Lk sub ρ β).Within R := ⟨h, within_orFail _⟩

theorem Within.queryRows {s : Sql K sub ρ (List β)} (h : s.Within R) :
    (queryRows s : Program K Lk sub ρ (List β)).Within R := ⟨h, fun _ => trivial⟩

theorem Within.queryIgnored (h : s.Within R) :
    (queryIgnored s : Program K Lk sub ρ Unit).Within R := ⟨h, fun _ => trivial⟩

theorem within_acquire (l : Lk) : (acquire l : Program K Lk sub ρ Unit).Within R := within_orFail _

theorem within_clock : (clock : Program K Lk sub ρ ℤ).Within R := fun _ => trivial

theorem within_random : (random : Program K Lk sub ρ (List ℕ)).Within R := fun _ => trivial

theorem Within.forEach {f : γ → Program K Lk sub ρ Unit} {l : List γ} (h : ∀ x, (f x).Within R) :
    (forEach f l).Within R := by
  induction l with
  | nil => exact trivial
  | cons x xs ih => exact .bind (h x) fun _ => ih

/-! ### Statements that stay within a relation -/

theorem within_readRows [DecidableEq K] [∀ t, DecidableEq (sub t)] (hrefl : ∀ d, R d d) (t : ι) (k : K)
    (f : Ctx K sub → Table (sub t) (ρ t) → Except PgError β) : (Sql.readRows t k f).Within R := by
  intro c d d' b h
  simp only [Sql.readRows] at h
  cases hf : f c (d.rows t k) with
  | ok r =>
      rw [hf] at h
      cases h
      exact hrefl d
  | error x =>
      rw [hf] at h
      cases h

theorem within_onRows [DecidableEq ι] [DecidableEq K] [∀ t, DecidableEq (sub t)] (t : ι) (k : K)
    {f : Ctx K sub → Table (sub t) (ρ t) → Except PgError (Table (sub t) (ρ t) × β)}
    (hf : ∀ c d u b, f c (d.rows t k) = .ok (u, b) → R d (d.setRows t k u)) :
    (Sql.onRows t k f).Within R := by
  intro c d d' b h
  simp only [Sql.onRows] at h
  cases hr : f c (d.rows t k) with
  | ok r =>
      rw [hr] at h
      cases h
      exact hf c d r.1 r.2 hr
  | error x =>
      rw [hr] at h
      cases h

theorem within_pure (hrefl : ∀ d, R d d) (b : β) : (pure b : Sql K sub ρ β).Within R := by
  intro c d d' b' h
  cases h
  exact hrefl d

theorem within_error (x : PgError) : (Sql.error x : Sql K sub ρ β).Within R := by
  rintro c d d' b ⟨⟩

theorem within_bind (htrans : ∀ d₁ d₂ d₃, R d₁ d₂ → R d₂ d₃ → R d₁ d₃) {s : Sql K sub ρ α}
    {f : α → Sql K sub ρ β} (hs : s.Within R) (hf : ∀ a, (f a).Within R) : (s >>= f).Within R := by
  intro c d d' b h
  simp only [Bind.bind] at h
  cases hr : s c d with
  | ok r =>
      rw [hr] at h
      exact htrans _ _ _ (hs c d r.1 r.2 hr) (hf r.2 c r.1 d' b h)
  | error x =>
      rw [hr] at h
      cases h

end within

end Program

end Relational
