import Mathlib.Logic.Function.Basic
import Mathlib.Data.List.Basic

/-! # Processes that call a service over a network

A process is a dialog: it asks questions and goes on with the answers.  Some questions are about
things of its own and are answered at once; the others are requests to a service.  The network may
delay a request, or lose the request or its answer: the process then goes on with a failure, and a
request that it has given up may still reach the service at any later time.  Processes may also die
at any time.

`Contract` is a contract for dialogs between a process and everything around it, in the manner of
rely and guarantee: what a process may ask, what it is told, and what the others may do meanwhile.
`Sound.step` is the rule: if every dialog keeps the contract when it starts, and the service meets
it, then the contract holds after every event. -/

namespace Concurrent

/-! ### Dialogs -/

/-- A program that asks questions. -/
inductive Dialog (Q : Type) (A : Q → Type) (α : Type)
  | ret (a : α)
  | ask (q : Q) (next : A q → Dialog Q A α)

namespace Dialog

variable {Q : Type} {A : Q → Type} {α β : Type}

def bind : Dialog Q A α → (α → Dialog Q A β) → Dialog Q A β
  | .ret a, k => k a
  | .ask q next, k => .ask q fun a => bind (next a) k

instance : Monad (Dialog Q A) where
  pure := .ret
  bind := bind

/-- A single question. -/
def query (q : Q) : Dialog Q A (A q) := .ask q .ret

/-- Run a dialog with a state that gives the answers. -/
def play {σ : Type} (exec : (q : Q) → σ → A q × σ) : Dialog Q A α → σ → α × σ
  | .ret a, s => (a, s)
  | .ask q next, s => play exec (next (exec q s).1) (exec q s).2

/-- All questions of a dialog are of one kind. -/
def Asks (P : Q → Prop) : Dialog Q A α → Prop
  | .ret _ => True
  | .ask q next => P q ∧ ∀ a, Asks P (next a)

theorem Asks.bind {P : Q → Prop} {p : Dialog Q A α} {f : α → Dialog Q A β} (h : p.Asks P)
    (hf : ∀ a, (f a).Asks P) : (p >>= f).Asks P := by
  induction p with
  | ret a => exact hf a
  | ask q next ih => exact ⟨h.1, fun a => ih a (h.2 a)⟩

end Dialog

/-! ### The network -/

section network

variable {ι C Q E : Type} {A : Q → Type}

/-- Where a process stands: about to go on, waiting for the answer to a request, or with the answer
on its way; in the last case it goes on in one way if it gets the answer and in another if not. -/
inductive Task (Q : Type) (A : Q → Type)
  | ready (p : Dialog Q A Unit)
  | sent (q : Q) (next : A q → Dialog Q A Unit)
  | answered (got lost : Dialog Q A Unit)

/-- A service with the programs of its users. -/
structure Service (ι C Q E : Type) (A : Q → Type) where
  remote : Q → Bool
  failed : (q : Q) → A q
  exec : ι → (q : Q) → E → A q × E
  begin : ι → C → E → E
  crash : ι → E → E
  code : ι → C → Dialog Q A Unit

/-- What the processes share: the service and the requests that were given up but are still on
their way. -/
structure World (ι Q E : Type) where
  env : E
  flying : List (ι × Q)

structure Net (ι Q E : Type) (A : Q → Type) extends World ι Q E where
  task : ι → Option (Task Q A)

/-- What can happen. -/
inductive NetEvent (ι C : Type)
  | start (i : ι) (c : C)
  | act (i : ι)
  | serve (i : ι)
  | fail (i : ι)
  | land (n : ℕ)
  | crash (i : ι)

namespace Service

variable [DecidableEq ι] (svc : Service ι C Q E A)

/-- What the service does with a question of a process. -/
def after (i : ι) (q : Q) (w : World ι Q E) : World ι Q E := { w with env := (svc.exec i q w.env).2 }

/-- A request is given up. -/
def drop (i : ι) (q : Q) (w : World ι Q E) : World ι Q E := { w with flying := (i, q) :: w.flying }

/-- A request that was given up reaches the service. -/
def landing (n : ℕ) (i : ι) (q : Q) (w : World ι Q E) : World ι Q E :=
  ⟨(svc.exec i q w.env).2, w.flying.eraseIdx n⟩

/-- The world and the task of process `i` after a step of its own. -/
def set (i : ι) (t : Option (Task Q A)) (w : World ι Q E) (s : Net ι Q E A) : Net ι Q E A :=
  ⟨w, Function.update s.task i t⟩

theorem set_task_self (i : ι) (t : Option (Task Q A)) (w : World ι Q E) (s : Net ι Q E A) :
    (set i t w s).task i = t := Function.update_self _ _ _

theorem set_task_of_ne {i j : ι} (h : j ≠ i) (t : Option (Task Q A)) (w : World ι Q E)
    (s : Net ι Q E A) : (set i t w s).task j = s.task j := Function.update_of_ne h _ _

/-- One event; an event that is not possible changes nothing. -/
def step : NetEvent ι C → Net ι Q E A → Net ι Q E A
  | .start i c, s =>
      match s.task i with
      | none => set i (some (.ready (svc.code i c))) { s.toWorld with env := svc.begin i c s.env } s
      | some _ => s
  | .act i, s =>
      match s.task i with
      | some (.ready (.ret _)) => set i none s.toWorld s
      | some (.ready (.ask q next)) =>
          if svc.remote q then set i (some (.sent q next)) s.toWorld s
          else set i (some (.ready (next (svc.exec i q s.env).1))) (svc.after i q s.toWorld) s
      | some (.answered got _) => set i (some (.ready got)) s.toWorld s
      | _ => s
  | .serve i, s =>
      match s.task i with
      | some (.sent q next) =>
          set i (some (.answered (next (svc.exec i q s.env).1) (next (svc.failed q))))
            (svc.after i q s.toWorld) s
      | _ => s
  | .fail i, s =>
      match s.task i with
      | some (.sent q next) => set i (some (.ready (next (svc.failed q)))) (drop i q s.toWorld) s
      | some (.answered _ lost) => set i (some (.ready lost)) s.toWorld s
      | _ => s
  | .land n, s =>
      match s.flying[n]? with
      | some (i, q) => { s with toWorld := svc.landing n i q s.toWorld }
      | none => s
  | .crash i, s =>
      match s.task i with
      | some (.sent q _) => set i none { drop i q s.toWorld with env := svc.crash i s.env } s
      | _ => set i none { s.toWorld with env := svc.crash i s.env } s

end Service

/-! ### Contracts -/

/-- A contract: what is always true of the world, what a process may ask while it waits for the
answer, what must be true of a request that was given up, what a process relies on while others
move, what it knows when it gets an answer, and what is true when its program ends. -/
structure Contract (ι Q E : Type) (A : Q → Type) where
  good : World ι Q E → Prop
  asks : ι → Q → World ι Q E → Prop
  may : ι → Q → World ι Q E → Prop
  rely : ι → World ι Q E → World ι Q E → Prop
  answered : ι → (q : Q) → A q → World ι Q E → World ι Q E → Prop
  post : ι → World ι Q E → Prop

namespace Contract

variable (k : Contract ι Q E A)

/-- A dialog keeps the contract and ends with `post`. -/
def Safe {α : Type} (i : ι) (post : α → World ι Q E → Prop) : Dialog Q A α → World ι Q E → Prop
  | .ret a, w => post a w
  | .ask q next, w => k.asks i q w ∧
      ∀ a w', k.answered i q a w w' → k.good w' → Safe i post (next a) w'

variable {k} {i : ι}

theorem safe_bind {α β : Type} {post : β → World ι Q E → Prop} {p : Dialog Q A α}
    {f : α → Dialog Q A β} {w : World ι Q E} (h : k.Safe i (fun a w => k.Safe i post (f a) w) p w) :
    k.Safe i post (p >>= f) w := by
  induction p generalizing w with
  | ret a => exact h
  | ask q next ih => exact ⟨h.1, fun a w' hanswered hgood => ih a (h.2 a w' hanswered hgood)⟩

theorem Safe.mono {α : Type} {post post' : α → World ι Q E → Prop} {p : Dialog Q A α}
    {w : World ι Q E} (h : k.Safe i post p w) (hpost : ∀ a w, post a w → post' a w) :
    k.Safe i post' p w := by
  induction p generalizing w with
  | ret a => exact hpost a w h
  | ask q next ih => exact ⟨h.1, fun a w' hanswered hgood => ih a (h.2 a w' hanswered hgood)⟩

/-- What the contract says about a process. -/
def TaskOk (k : Contract ι Q E A) (svc : Service ι C Q E A) (i : ι) (w : World ι Q E) : Task Q A → Prop
  | .ready p => k.Safe i (fun _ => k.post i) p w
  | .sent q next => svc.remote q = true ∧ k.Safe i (fun _ => k.post i) (.ask q next) w
  | .answered got lost => k.Safe i (fun _ => k.post i) got w ∧ k.Safe i (fun _ => k.post i) lost w

/-- The contract holds in a state. -/
structure Holds (k : Contract ι Q E A) (svc : Service ι C Q E A) (s : Net ι Q E A) : Prop where
  good : k.good s.toWorld
  task : ∀ i t, s.task i = some t → k.TaskOk svc i s.toWorld t
  flying : ∀ i q, (i, q) ∈ s.flying → k.may i q s.toWorld

/-- A change of the world that process `i` makes, as the others see it. -/
structure Moves (k : Contract ι Q E A) (i : ι) (w w' : World ι Q E) : Prop where
  good : k.good w'
  rely : ∀ j, j ≠ i → k.rely j w w'
  may : ∀ j q, k.may j q w → k.may j q w'

/-- The service meets the contract. -/
structure Sound (k : Contract ι Q E A) (svc : Service ι C Q E A) : Prop where
  rely_asks : ∀ i q w w', k.rely i w w' → k.asks i q w → k.asks i q w'
  rely_post : ∀ i w w', k.rely i w w' → k.post i w → k.post i w'
  rely_answered : ∀ i q a w w' w'', k.rely i w w' → k.answered i q a w' w'' → k.answered i q a w w''
  asks_may : ∀ i q w, svc.remote q = true → k.asks i q w → k.may i q w
  exec : ∀ i q w, k.good w → k.asks i q w → k.Moves i w (svc.after i q w) ∧
    k.answered i q (svc.exec i q w.env).1 w (svc.after i q w)
  lost : ∀ i q w, k.good w → svc.remote q = true → k.asks i q w →
    k.answered i q (svc.failed q) w (svc.after i q w)
  drop : ∀ i q w, k.good w → svc.remote q = true → k.may i q w → k.Moves i w (Service.drop i q w)
  dropped : ∀ i q w, k.good w → svc.remote q = true → k.asks i q w →
    k.answered i q (svc.failed q) w (Service.drop i q w)
  land : ∀ n i q w, k.good w → w.flying[n]? = some (i, q) → k.may i q w →
    k.Moves i w (svc.landing n i q w) ∧ k.rely i w (svc.landing n i q w)
  begin : ∀ i c w, k.good w → k.Moves i w { w with env := svc.begin i c w.env } ∧
    k.Safe i (fun _ => k.post i) (svc.code i c) { w with env := svc.begin i c w.env }
  crash : ∀ i w, k.good w → k.Moves i w { w with env := svc.crash i w.env }

variable {svc : Service ι C Q E A} {w w' : World ι Q E} {s : Net ι Q E A}

theorem Safe.of_rely (hk : k.Sound svc) {p : Dialog Q A Unit} (hrely : k.rely i w w')
    (h : k.Safe i (fun _ => k.post i) p w) : k.Safe i (fun _ => k.post i) p w' := by
  cases p with
  | ret a => exact hk.rely_post i w w' hrely h
  | ask q next =>
      refine ⟨hk.rely_asks i q w w' hrely h.1, fun a w'' hanswered hgood => ?_⟩
      exact h.2 a w'' (hk.rely_answered i q a w w' w'' hrely hanswered) hgood

theorem TaskOk.of_rely (hk : k.Sound svc) {t : Task Q A} (hrely : k.rely i w w')
    (h : k.TaskOk svc i w t) : k.TaskOk svc i w' t := by
  cases t with
  | ready p => exact Safe.of_rely hk hrely h
  | sent q next => exact ⟨h.1, Safe.of_rely hk hrely h.2⟩
  | answered got lost => exact ⟨Safe.of_rely hk hrely h.1, Safe.of_rely hk hrely h.2⟩

/-- A change that every process may rely on keeps the contract. -/
theorem Holds.of_rely (hk : k.Sound svc) (h : k.Holds svc s) (hgood : k.good w')
    (hrely : ∀ i, k.rely i s.toWorld w') (hmay : ∀ i q, k.may i q s.toWorld → k.may i q w')
    (hflying : w'.flying = s.flying) : k.Holds svc { s with toWorld := w' } where
  good := hgood
  task := fun i t ht => (h.task i t ht).of_rely hk (hrely i)
  flying := fun i q hq => hmay i q (h.flying i q (hflying ▸ hq))

variable [DecidableEq ι]

/-- A step of process `i` keeps the contract if its new task does. -/
theorem Holds.set (hk : k.Sound svc) (h : k.Holds svc s)
    (hmoves : k.Moves i s.toWorld w') {t : Option (Task Q A)}
    (ht : ∀ t', t = some t' → k.TaskOk svc i w' t')
    (hflying : ∀ j q, (j, q) ∈ w'.flying → (j, q) ∈ s.flying ∨ k.may j q w') :
    k.Holds svc (Service.set i t w' s) where
  good := hmoves.good
  task := by
    intro j t' htask
    by_cases hji : j = i
    · subst hji
      rw [Service.set_task_self] at htask
      exact ht t' htask
    · rw [Service.set_task_of_ne hji] at htask
      exact (h.task j t' htask).of_rely hk (hmoves.rely j hji)
  flying := by
    intro j q hq
    rcases hflying j q hq with hold | hmay
    · exact hmoves.may j q (h.flying j q hold)
    · exact hmay

/-- A step of process `i` that leaves the world as it is. -/
theorem Holds.set_same (hk : k.Sound svc) (h : k.Holds svc s)
    (hrely : ∀ j w, k.rely j w w) {t : Option (Task Q A)}
    (ht : ∀ t', t = some t' → k.TaskOk svc i s.toWorld t') :
    k.Holds svc (Service.set i t s.toWorld s) :=
  h.set hk ⟨h.good, fun j _ => hrely j _, fun _ _ hq => hq⟩ ht fun _ _ hq => Or.inl hq

/-- **One event keeps the contract.** -/
theorem Sound.step (hk : k.Sound svc) (hrefl : ∀ j w, k.rely j w w)
    (h : k.Holds svc s) (event : NetEvent ι C) : k.Holds svc (svc.step event s) := by
  cases event with
  | start i c =>
      rw [Service.step]
      split
      · obtain ⟨hmoves, hsafe⟩ := hk.begin i c s.toWorld h.good
        refine h.set hk hmoves (fun t' ht' => ?_) fun _ _ hq => Or.inl hq
        cases ht'
        exact hsafe
      · exact h
  | act i =>
      rw [Service.step]
      split
      · exact h.set_same hk hrefl fun t' ht' => by cases ht'
      · rename_i q next htask
        have hsafe : k.Safe i (fun _ => k.post i) (.ask q next) s.toWorld := h.task i _ htask
        split
        · rename_i hremote
          refine h.set_same hk hrefl fun t' ht' => ?_
          cases ht'
          exact ⟨hremote, hsafe⟩
        · obtain ⟨hmoves, hanswered⟩ := hk.exec i q s.toWorld h.good hsafe.1
          refine h.set hk hmoves (fun t' ht' => ?_) fun _ _ hq => Or.inl hq
          cases ht'
          exact hsafe.2 _ _ hanswered hmoves.good
      · rename_i got lost htask
        refine h.set_same hk hrefl fun t' ht' => ?_
        cases ht'
        exact (h.task i _ htask).1
      · exact h
  | serve i =>
      rw [Service.step]
      split
      · rename_i q next htask
        obtain ⟨hremote, hsafe⟩ := h.task i _ htask
        obtain ⟨hmoves, hanswered⟩ := hk.exec i q s.toWorld h.good hsafe.1
        have hlost := hk.lost i q s.toWorld h.good hremote hsafe.1
        refine h.set hk hmoves (fun t' ht' => ?_) fun _ _ hq => Or.inl hq
        cases ht'
        exact ⟨hsafe.2 _ _ hanswered hmoves.good, hsafe.2 _ _ hlost hmoves.good⟩
      · exact h
  | fail i =>
      rw [Service.step]
      split
      · rename_i q next htask
        obtain ⟨hremote, hsafe⟩ := h.task i _ htask
        have hmay := hk.asks_may i q s.toWorld hremote hsafe.1
        have hmoves := hk.drop i q s.toWorld h.good hremote hmay
        refine h.set hk hmoves (fun t' ht' => ?_) fun j q' hq' => ?_
        · cases ht'
          exact hsafe.2 _ _ (hk.dropped i q s.toWorld h.good hremote hsafe.1) hmoves.good
        · rcases List.mem_cons.mp hq' with heq | hold
          · cases heq
            exact Or.inr (hmoves.may i q hmay)
          · exact Or.inl hold
      · rename_i got lost htask
        refine h.set_same hk hrefl fun t' ht' => ?_
        cases ht'
        exact (h.task i _ htask).2
      · exact h
  | land n =>
      rw [Service.step]
      split
      · rename_i i q hn
        have hmem : (i, q) ∈ s.flying := List.mem_of_getElem? hn
        obtain ⟨hmoves, hrely⟩ := hk.land n i q s.toWorld h.good hn (h.flying i q hmem)
        refine ⟨hmoves.good, fun j t ht => ?_, fun j q' hq' => ?_⟩
        · by_cases hji : j = i
          · subst hji
            exact (h.task j t ht).of_rely hk hrely
          · exact (h.task j t ht).of_rely hk (hmoves.rely j hji)
        · exact hmoves.may j q' (h.flying j q' (List.mem_of_mem_eraseIdx hq'))
      · exact h
  | crash i =>
      have hnone (t' : Task Q A) (w' : World ι Q E) (ht' : none = some t') : k.TaskOk svc i w' t' := by
        cases ht'
      rw [Service.step]
      split
      · -- the request it was waiting for stays on its way
        rename_i q next htask
        obtain ⟨hremote, hsafe⟩ := h.task i _ htask
        have hmay := hk.asks_may i q s.toWorld hremote hsafe.1
        have hdrop := hk.drop i q s.toWorld h.good hremote hmay
        have hcrash := hk.crash i (Service.drop i q s.toWorld) hdrop.good
        have hmid : k.Holds svc (Service.set i none (Service.drop i q s.toWorld) s) := by
          refine h.set hk hdrop (fun t' => hnone t' _) fun j q' hq' => ?_
          rcases List.mem_cons.mp hq' with heq | hold
          · cases heq
            exact Or.inr (hdrop.may i q hmay)
          · exact Or.inl hold
        have hend := hmid.set hk hcrash (t := none) (fun t' => hnone t' _) fun _ _ hq => Or.inl hq
        have hsame : Service.set i none { Service.drop i q s.toWorld with env := svc.crash i s.env } s =
            Service.set i none { Service.drop i q s.toWorld with env := svc.crash i s.env }
              (Service.set i none (Service.drop i q s.toWorld) s) := by
          rw [Service.set, Service.set, Service.set, Function.update_idem]
        rw [hsame]
        exact hend
      · exact h.set hk (hk.crash i s.toWorld h.good) (fun t' => hnone t' _) fun _ _ hq => Or.inl hq

end Contract

end network

end Concurrent
