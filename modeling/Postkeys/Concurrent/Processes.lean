import Mathlib.Logic.Function.Basic
import Mathlib.Data.List.Basic

/-! # Processes with private parts of a shared state

Processes run scripts, one after another, whose actions are atomic on a state they share; a schedule
interleaves the actions of all processes in any way.  If every process reads and writes only its own
part of the state (`Private`), then each sees what it would see alone: what a process has finished,
and its part of the state, are those of its scripts run one after another (`Pool.run_finished`,
`Pool.run_sequential`). -/

namespace Concurrent

variable {ι A R O C σ ω : Type}

/-- A script: actions, each with what follows its result, and an outcome. -/
inductive Script (A R O : Type)
  | ret (o : O)
  | act (a : A) (next : R → Script A R O)

namespace Script

/-- Run a script without interruption. -/
def alone (f : A → ω → R × ω) : Script A R O → ω → O × ω
  | .ret o, v => (o, v)
  | .act a next, v => alone f (next (f a v).1) (f a v).2

/-- Run the scripts of a list of commands one after another. -/
def runAll (code : C → Script A R O) (f : A → ω → R × ω) : List C → ω → List O × ω
  | [], v => ([], v)
  | c :: cs, v =>
      let r := (code c).alone f v
      let rest := runAll code f cs r.2
      (r.1 :: rest.1, rest.2)

theorem runAll_concat (code : C → Script A R O) (f : A → ω → R × ω) (cs : List C) (c : C) (v : ω) :
    runAll code f (cs ++ [c]) v =
      ((runAll code f cs v).1 ++ [((code c).alone f (runAll code f cs v).2).1],
        ((code c).alone f (runAll code f cs v).2).2) := by
  induction cs generalizing v with
  | nil => rfl
  | cons d cs ih => simp [runAll, ih]

end Script

/-- Processes with what they share: the script a process is in, the commands it has started and
the outcomes of those it has finished. -/
structure Pool (ι A R O C σ : Type) where
  shared : σ
  current : ι → Option (Script A R O)
  started : ι → List C
  finished : ι → List O

/-- What a schedule may ask for. -/
inductive Event (ι C : Type)
  | start (i : ι) (c : C)
  | advance (i : ι)

namespace Pool

/-- All processes idle. -/
def idle (s : σ) : Pool ι A R O C σ := ⟨s, fun _ => none, fun _ => [], fun _ => []⟩

variable [DecidableEq ι] (code : C → Script A R O) (act : ι → A → σ → R × σ)

/-- One event: an idle process starts a command, or a process does its next action or ends. -/
def step : Event ι C → Pool ι A R O C σ → Pool ι A R O C σ
  | .start i c, p =>
      match p.current i with
      | some _ => p
      | none =>
          { p with
            current := Function.update p.current i (some (code c))
            started := Function.update p.started i (p.started i ++ [c]) }
  | .advance i, p =>
      match p.current i with
      | none => p
      | some (.ret o) =>
          { p with
            current := Function.update p.current i none
            finished := Function.update p.finished i (p.finished i ++ [o]) }
      | some (.act a next) =>
          let r := act i a p.shared
          { p with shared := r.2, current := Function.update p.current i (some (next r.1)) }

/-- A whole schedule. -/
def run (events : List (Event ι C)) (p : Pool ι A R O C σ) : Pool ι A R O C σ :=
  events.foldl (fun p e => step code act e p) p

/-- What every action keeps holds after every schedule. -/
theorem run_invariant {P : σ → Prop} (hact : ∀ i a s, P s → P (act i a s).2)
    (events : List (Event ι C)) (p : Pool ι A R O C σ) (h : P p.shared) :
    P (run code act events p).shared := by
  induction events generalizing p with
  | nil => exact h
  | cons e events ih =>
      have hstep : P (step code act e p).shared := by
        cases e with
        | start i c =>
            rw [step]
            split <;> exact h
        | advance i =>
            rw [step]
            split
            · exact h
            · exact h
            · exact hact _ _ _ h
      exact ih _ hstep

end Pool

/-- Every process acts on its own part of the state only. -/
structure Private (act : ι → A → σ → R × σ) (own : ι → σ → ω) (f : A → ω → R × ω) : Prop where
  result : ∀ i a s, (act i a s).1 = (f a (own i s)).1
  own_self : ∀ i a s, own i (act i a s).2 = (f a (own i s)).2
  own_other : ∀ i j a s, j ≠ i → own j (act i a s).2 = own j s

namespace Pool

variable [DecidableEq ι] {code : C → Script A R O} {act : ι → A → σ → R × σ} {own : ι → σ → ω}
  {f : A → ω → R × ω}

/-- What a process will have done when its script has ended, if no other moves. -/
def ahead (own : ι → σ → ω) (f : A → ω → R × ω) (i : ι) (p : Pool ι A R O C σ) : List O × ω :=
  match p.current i with
  | none => (p.finished i, own i p.shared)
  | some s => (p.finished i ++ [(s.alone f (own i p.shared)).1], (s.alone f (own i p.shared)).2)

/-- No event changes what a process is heading for, other than its starting a command. -/
theorem ahead_step (h : Private act own f) (v : ω) (i : ι) (e : Event ι C) (p : Pool ι A R O C σ)
    (hp : Script.runAll code f (p.started i) v = p.ahead own f i) :
    Script.runAll code f ((step code act e p).started i) v = (step code act e p).ahead own f i := by
  unfold ahead at hp ⊢
  cases e with
  | start j c =>
      rw [step]
      cases hj : p.current j with
      | some s => exact hp
      | none =>
          by_cases hij : i = j
          · subst hij
            rw [hj] at hp
            simp [Script.runAll_concat, hp]
          · simpa [hij] using hp
  | advance j =>
      rw [step]
      rcases hj : p.current j with _ | ⟨o⟩ | ⟨a, next⟩
      · exact hp
      · by_cases hij : i = j
        · subst hij
          rw [hj] at hp
          simpa [Script.alone] using hp
        · simpa [hij] using hp
      · by_cases hij : i = j
        · subst hij
          rw [hj] at hp
          simpa [Script.alone, h.result, h.own_self] using hp
        · simpa [hij, h.own_other j i _ _ hij] using hp

theorem ahead_run (h : Private act own f) (v : ω) (i : ι) (events : List (Event ι C))
    (p : Pool ι A R O C σ) (hp : Script.runAll code f (p.started i) v = p.ahead own f i) :
    Script.runAll code f ((run code act events p).started i) v =
      (run code act events p).ahead own f i := by
  induction events generalizing p with
  | nil => exact hp
  | cons e events ih => exact ih _ (ahead_step h v i e p hp)

/-- **Interleaving is invisible to a process.**  After any schedule, what a process has finished is
what its commands do one after another on its own part of the state. -/
theorem run_finished (h : Private act own f) (s : σ) (events : List (Event ι C)) (i : ι) :
    (run code act events (idle s)).finished i <+:
      (Script.runAll code f ((run code act events (idle s)).started i) (own i s)).1 := by
  rw [ahead_run h (own i s) i events (idle s) rfl, ahead]
  split
  · exact List.prefix_rfl
  · exact List.prefix_append _ _

/-- An idle process has finished all its commands, and its part of the state is what they leave. -/
theorem run_sequential (h : Private act own f) (s : σ) (events : List (Event ι C)) (i : ι)
    (hidle : (run code act events (idle s)).current i = none) :
    Script.runAll code f ((run code act events (idle s)).started i) (own i s) =
      ((run code act events (idle s)).finished i, own i (run code act events (idle s)).shared) := by
  rw [ahead_run h (own i s) i events (idle s) rfl, ahead, hidle]

end Pool

end Concurrent
