import Postkeys.Leader.Ownership
import Mathlib.Data.Fintype.Basic

/-! # At most one leader

The pods on one exact clock: ticks start when the ticker fires, every command ends within its time
limit, and in between the requests of the pods may be lost or take any time.  A leader that cannot
renew the lease steps down before another pod may take it over, so two pods that both run or wait for
a tick are never leaders at once (`leaders_agree`).

A pod that stops gives up the lease before it stops being the leader: another pod can take the lease
over in between.  `one_leader_iff` says that this is the only way to two leaders. -/

namespace Postkeys.Leader

open Concurrent

variable {ι : Type} {task : Task Query Answer} {q : Query} {sync : Prop} {next : Option ℤ}
  {l₀ : Option LeaseSpec}

/-! ### The loop of a pod -/

/-- Where the loop of a pod stands: not running, in a tick, waiting for the ticker, or stopping.  Of
a tick it is known when the ticker fires next; in the first tick there is no ticker yet. -/
inductive Mode
  | off
  | ticking (next : Option ℤ)
  | waiting (next : ℤ)
  | stopping
deriving DecidableEq

/-- The cluster with the loops of its pods, and whether `Stop` was called on them during a tick. -/
structure Timed (ι : Type) where
  net : Net ι
  mode : ι → Mode
  stopCalled : ι → Bool

/-- Events of the loops, and those of the network. -/
inductive TimedEvent (ι : Type)
  | boot (i : ι)
  | fire (i : ι)
  | finish (i : ι)
  | halt (i : ι)
  | crash (i : ι)
  | act (i : ι)
  | serve (i : ι)
  | fail (i : ι)
  | land (n : ℕ)

namespace Timed

/-- All pods off, and no lease. -/
def start : Timed ι := ⟨Leader.start none, fun _ => .off, fun _ => false⟩

/-- The time until which a pod has to move: a tick and the end of `Stop` have a time limit, and a pod
that waits goes on when the ticker fires. -/
def limit (s : Timed ι) (i : ι) : Option ℤ :=
  match s.mode i with
  | .off => none
  | .ticking _ => some (s.net.env.started i + retryPeriod)
  | .waiting next => some next
  | .stopping => some (s.net.env.started i + stopTimeout)

/-- Time may pass until `t`. -/
def Possible (t : ℤ) (s : Timed ι) : Prop :=
  s.net.env.clock ≤ t ∧ ∀ i, ∀ bound, s.limit i = some bound → t ≤ bound

variable [DecidableEq ι]

instance [Fintype ι] (t : ℤ) (s : Timed ι) : Decidable (s.Possible t) :=
  decidable_of_iff (s.net.env.clock ≤ t ∧ ∀ i, ∀ bound ∈ (s.limit i).toList, t ≤ bound) <|
    and_congr_right fun _ => forall_congr' fun i => forall_congr' fun bound => by
      rw [Option.mem_toList]

variable (pods : Pods ι)

/-- A pod begins a command. -/
def begin (t : ℤ) (i : ι) (c : Command) (mode : Mode) (s : Timed ι) : Timed ι where
  net := stepAt pods t (.start i c) s.net
  mode := Function.update s.mode i mode
  stopCalled := Function.update s.stopCalled i false

/-- A pod leaves the command that it has ended. -/
def leave (t : ℤ) (i : ι) (mode : Mode) (s : Timed ι) : Timed ι :=
  { s with
    net := stepAt pods t (.act i) s.net
    mode := Function.update s.mode i mode }

/-- The command of a pod has ended. -/
def ended (s : Timed ι) (i : ι) : Bool :=
  match s.net.task i with
  | some (.ready (.ret _)) => true
  | _ => false

/-- The pod is in the middle of a command. -/
def busy (s : Timed ι) (i : ι) : Bool := (s.net.task i).isSome && !s.ended i

/-- What an event does at a time at which it is possible. -/
def effect (t : ℤ) (s : Timed ι) : TimedEvent ι → Timed ι
  | .boot i =>
      match s.mode i with
      | .off => s.begin pods t i .tick (.ticking none)
      | _ => s
  | .fire i =>
      match s.mode i with
      | .waiting next => if t = next then s.begin pods t i .tick (.ticking (some (next + retryPeriod))) else s
      | _ => s
  | .finish i =>
      if s.ended i then
        match s.mode i with
        | .ticking next =>
            if s.stopCalled i then
              ({ s with net := stepAt pods t (.act i) s.net } : Timed ι).begin pods t i .stop .stopping
            else s.leave pods t i (.waiting (next.getD (t + retryPeriod)))
        | _ => s.leave pods t i .off
      else s
  | .halt i =>
      match s.mode i with
      | .waiting _ => s.begin pods t i .stop .stopping
      | .ticking _ => { s with stopCalled := Function.update s.stopCalled i true }
      | _ => s
  | .crash i => ⟨stepAt pods t (.crash i) s.net, Function.update s.mode i .off,
      Function.update s.stopCalled i false⟩
  | .act i => if s.busy i then { s with net := stepAt pods t (.act i) s.net } else s
  | .serve i => { s with net := stepAt pods t (.serve i) s.net }
  | .fail i => { s with net := stepAt pods t (.fail i) s.net }
  | .land n => { s with net := stepAt pods t (.land n) s.net }

variable [Fintype ι]

/-- An event with its time; an event that is not possible then changes nothing. -/
def step (s : Timed ι) (event : ℤ × TimedEvent ι) : Timed ι :=
  if s.Possible event.1 then s.effect pods event.1 event.2 else s

def run (events : List (ℤ × TimedEvent ι)) (s : Timed ι) : Timed ι := events.foldl (step pods) s

/-- At most one pod considers itself leader. -/
def OneLeader (s : Timed ι) : Prop :=
  ∀ i j, s.net.env.isLeader i = true → s.net.env.isLeader j = true → i = j

end Timed

/-! ### What one event of the network does -/

section network

variable [DecidableEq ι] {pods : Pods ι} {s : Net ι}

/-- The variables of the pods, the clock and the times at which they began are the same. -/
structure Untouched (e e' : Cluster ι) : Prop where
  isLeader : e'.isLeader = e.isLeader
  lastRenew : e'.lastRenew = e.lastRenew
  started : e'.started = e.started
  running : e'.running = e.running
  clock : e'.clock = e.clock

omit [DecidableEq ι] in
theorem Untouched.refl (e : Cluster ι) : Untouched e e := ⟨rfl, rfl, rfl, rfl, rfl⟩

theorem exec_clock (pods : Pods ι) (i : ι) (q : Query) (e : Cluster ι) :
    (Cluster.exec pods i q e).2.clock = e.clock ∧ (Cluster.exec pods i q e).2.started = e.started ∧
      (Cluster.exec pods i q e).2.running = e.running := by
  cases q with
  | getLease =>
      rw [(exec_getLease pods i e).1]
      exact ⟨rfl, rfl, rfl⟩
  | createLease d t =>
      rw [Cluster.exec]
      split <;> exact ⟨rfl, rfl, rfl⟩
  | updateLease l =>
      rw [Cluster.exec]
      split
      · exact ⟨rfl, rfl, rfl⟩
      · split <;> exact ⟨rfl, rfl, rfl⟩
  | _ => exact ⟨rfl, rfl, rfl⟩

theorem exec_isLeader (i : ι) (hq : ∀ b, q ≠ .storeLeader b) (e : Cluster ι) :
    (Cluster.exec pods i q e).2.isLeader = e.isLeader := by
  cases q with
  | getLease => rw [(exec_getLease pods i e).1]
  | createLease d t =>
      rw [Cluster.exec]
      split <;> rfl
  | updateLease l =>
      rw [Cluster.exec]
      split
      · rfl
      · split <;> rfl
  | storeLeader b => exact absurd rfl (hq b)
  | _ => rfl

theorem exec_lastRenew (i : ι) (hq : ∀ t, q ≠ .storeLastRenew t) (e : Cluster ι) :
    (Cluster.exec pods i q e).2.lastRenew = e.lastRenew := by
  cases q with
  | getLease => rw [(exec_getLease pods i e).1]
  | createLease d t =>
      rw [Cluster.exec]
      split <;> rfl
  | updateLease l =>
      rw [Cluster.exec]
      split
      · rfl
      · split <;> rfl
  | storeLastRenew t => exact absurd rfl (hq t)
  | _ => rfl

theorem exec_other (pods : Pods ι) {i j : ι} (hji : j ≠ i) (q : Query) (e : Cluster ι) :
    (Cluster.exec pods i q e).2.isLeader j = e.isLeader j ∧
      (Cluster.exec pods i q e).2.lastRenew j = e.lastRenew j := by
  constructor
  · by_cases hq : ∃ b, q = .storeLeader b
    · obtain ⟨b, rfl⟩ := hq
      exact Function.update_of_ne hji _ _
    · rw [exec_isLeader i (fun b hb => hq ⟨b, hb⟩)]
  · by_cases hq : ∃ t, q = .storeLastRenew t
    · obtain ⟨t, rfl⟩ := hq
      exact Function.update_of_ne hji _ _
    · rw [exec_lastRenew i (fun t ht => hq ⟨t, ht⟩)]

theorem exec_remote (i : ι) (hq : q.remote = true) (e : Cluster ι) :
    Untouched e (Cluster.exec pods i q e).2 := by
  obtain ⟨hclock, hstarted, hrunning⟩ := exec_clock pods i q e
  refine ⟨exec_isLeader i (fun b hb => ?_) e, exec_lastRenew i (fun t ht => ?_) e, hstarted, hrunning, hclock⟩
  · subst hb
    cases hq
  · subst ht
    cases hq

theorem exec_history_local (pods : Pods ι) (i : ι) (hq : q.remote = false) (e : Cluster ι) :
    (Cluster.exec pods i q e).2.history = e.history := by
  cases q with
  | getLease => cases hq
  | createLease d t => cases hq
  | updateLease l => cases hq
  | setLeaderLabel b => cases hq
  | _ => rfl

/-- What can come into force in one event: the update of a pod that waits for the answer, or one that
was given up; or the first lease. -/
def Writes (s : Net ι) (e : Cluster ι) : Prop :=
  e.history = s.env.history ∨ ∃ j spec, e.history = s.env.history ++ [⟨some j, spec⟩] ∧
    (s.env.history = [] ∨ ∃ l, spec = l.spec ∧ l.resourceVersion + 1 = s.env.history.length ∧
      ((∃ next, s.task j = some (.sent (.updateLease l) next)) ∨ (j, .updateLease l) ∈ s.flying))

theorem exec_writes (i : ι)
    (hq : ∀ l, q = .updateLease l →
      (∃ next, s.task i = some (.sent (.updateLease l) next)) ∨ (i, .updateLease l) ∈ s.flying) :
    Writes s (Cluster.exec pods i q s.env).2 := by
  cases q with
  | getLease =>
      rw [(exec_getLease pods i s.env).1]
      exact Or.inl rfl
  | createLease d t =>
      rw [Cluster.exec]
      split
      · exact Or.inr ⟨i, _, rfl, Or.inl ‹_›⟩
      · exact Or.inl rfl
  | updateLease l =>
      rw [Cluster.exec]
      split
      · exact Or.inl rfl
      · split
        · exact Or.inr ⟨i, _, rfl, Or.inr ⟨l, rfl, ‹_›, hq l rfl⟩⟩
        · exact Or.inl rfl
  | _ => exact Or.inl rfl

/-- What an event does to the history and to the requests under way. -/
structure Carries (s s' : Net ι) : Prop where
  history : Writes s s'.env
  flying : ∀ j l, (j, .updateLease l) ∈ s'.flying →
    (j, .updateLease l) ∈ s.flying ∨ ∃ next, s.task j = some (.sent (.updateLease l) next)

omit [DecidableEq ι] in
theorem Carries.same {s s' : Net ι} (hhistory : s'.env.history = s.env.history)
    (hflying : s'.flying = s.flying) : Carries s s' :=
  ⟨Or.inl hhistory, fun _ _ hl => Or.inl (hflying ▸ hl)⟩

omit [DecidableEq ι] in
theorem Carries.dropped {s s' : Net ι} {i : ι} {next : Answer q → Code Unit}
    (htask : s.task i = some (.sent q next)) (hhistory : s'.env.history = s.env.history)
    (hflying : s'.flying = (i, q) :: s.flying) : Carries s s' := by
  refine ⟨Or.inl hhistory, fun j l hl => ?_⟩
  rw [hflying] at hl
  rcases List.mem_cons.mp hl with heq | hold
  · cases heq
    exact Or.inr ⟨next, htask⟩
  · exact Or.inl hold

theorem step_carries (pods : Pods ι) (s : Net ι) (event : NetEvent ι Command) :
    Carries s ((kubernetes pods).step event s) := by
  cases event with
  | start i c =>
      rw [Service.step]
      split <;> exact .same rfl rfl
  | act i =>
      rw [Service.step]
      split
      · exact .same rfl rfl
      · rename_i q next htask
        split
        · exact .same rfl rfl
        · rename_i hremote
          exact .same (exec_history_local pods i (by simpa [kubernetes] using hremote) s.env) rfl
      · exact .same rfl rfl
      · exact .same rfl rfl
  | serve i =>
      rw [Service.step]
      split
      · rename_i q next htask
        refine ⟨exec_writes i fun l hl => ?_, fun _ _ hl => Or.inl hl⟩
        subst hl
        exact Or.inl ⟨next, htask⟩
      · exact .same rfl rfl
  | fail i =>
      rw [Service.step]
      split
      · exact .dropped ‹_› rfl rfl
      · exact .same rfl rfl
      · exact .same rfl rfl
  | land n =>
      rw [Service.step]
      split
      · rename_i i q hn
        refine ⟨exec_writes i fun l hl => ?_, fun _ _ hl => Or.inl (List.mem_of_mem_eraseIdx hl)⟩
        subst hl
        exact Or.inr (List.mem_of_getElem? hn)
      · exact .same rfl rfl
  | crash i =>
      rw [Service.step]
      split
      · exact .dropped ‹_› rfl rfl
      · exact .same rfl rfl

/-- Requests that are carried out leave the variables of the pods alone. -/
theorem serve_untouched
    (h : (contract pods sync l₀).Holds (kubernetes pods) s) (i : ι) :
    Untouched s.env ((kubernetes pods).step (.serve i) s).env := by
  rw [Service.step]
  split
  · rename_i q next htask
    obtain ⟨hremote, -⟩ := h.task i _ htask
    exact exec_remote i hremote s.env
  · exact .refl _

theorem fail_untouched (s : Net ι) (i : ι) : Untouched s.env ((kubernetes pods).step (.fail i) s).env := by
  rw [Service.step]
  split <;> exact .refl _

theorem land_untouched
    (h : (contract pods sync l₀).Holds (kubernetes pods) s) (n : ℕ) :
    Untouched s.env ((kubernetes pods).step (.land n) s).env := by
  rw [Service.step]
  split
  · rename_i i q hn
    have hmay : May pods sync i q s.toWorld := h.flying i q (List.mem_of_getElem? hn)
    refine exec_remote i ?_ s.env
    cases q with
    | getLease => rfl
    | createLease d t => rfl
    | updateLease l => rfl
    | setLeaderLabel b => rfl
    | _ => exact hmay.elim
  · exact .refl _

end network

/-! ### How long a lease holds -/

section held

variable {pods : Pods ι} {i j : ι} {n : ℕ} {r : ℤ} {w : World ι}

/-- Pod `i` became the holder with entry `n` of the history, renewed at `r`, and what it has written or
sent since names it as the holder. -/
structure Held (pods : Pods ι) (i : ι) (n : ℕ) (r : ℤ) (w : World ι) : Prop where
  found : ∃ entry, w.env.history[n]? = some entry ∧ entry.spec.holderIdentity = some (pods.name i) ∧
    entry.spec.renewTime = some (microTime r)
  own : ∀ m entry, n < m → w.env.history[m]? = some entry → entry.writer = some i →
    entry.spec.holderIdentity = some (pods.name i)
  flying : ∀ l, (i, .updateLease l) ∈ w.flying → l.resourceVersion < n ∨
    l.spec.holderIdentity = some (pods.name i)

theorem Held.of_acquired (hs : sync) (h : Acquired pods sync i w) :
    ∃ n r, Held pods i n r w ∧ w.env.started i ≤ r := by
  obtain ⟨n, entry, r, hfresh, hholder, hrenew, hstarted⟩ := h
  refine ⟨n, r, ⟨⟨entry, hfresh.found, hholder, hrenew⟩, fun m entry' hm hentry' hwriter => ?_,
    fun l hl => Or.inl (hfresh.flying l hl)⟩, hstarted hs⟩
  exact absurd hwriter (hfresh.last m entry' hm hentry')

/-- Pods write leases of fifteen seconds. -/
theorem Good.leaseSeconds (h : Good pods sync none w) {entry : Entry ι}
    (hentry : w.env.history[n]? = some entry) :
    entry.spec.leaseDurationSeconds = some Leader.leaseSeconds := by
  induction n generalizing entry with
  | zero =>
      rcases h.first entry hentry with ⟨-, hsome⟩ | ⟨-, j, t, rfl, -, -⟩
      · cases hsome
      · rfl
  | succ n ih =>
      have hlt := (List.getElem?_eq_some_iff.mp hentry).1
      have hold := List.getElem?_eq_getElem (Nat.lt_of_succ_lt hlt)
      have hduration := ih hold
      obtain ⟨j, -, hchange⟩ := h.change n _ entry hold hentry
      cases hchange with
      | renewed t _ _ _ hnew =>
          rw [hnew, LeaseSpec.renewed, hduration]
          rfl
      | takenOver t _ _ _ _ hnew =>
          rw [hnew]
          rfl
      | released _ hnew =>
          rw [hnew]
          exact hduration

/-- **A lease holds for its duration.**  Until then every lease in force names the holder. -/
theorem Held.until (h : Held pods i n r w) (hgood : Good pods True none w)
    (hclock : w.env.clock ≤ r + 14 * second) {m : ℕ} (hm : n ≤ m) {entry : Entry ι}
    (hentry : w.env.history[m]? = some entry) :
    entry.spec.holderIdentity = some (pods.name i) ∧
      ∃ rt, entry.spec.renewTime = some (.micro rt) ∧ r / 1000 ≤ rt := by
  induction m, hm using Nat.le_induction generalizing entry with
  | base =>
      obtain ⟨entry', hfound, hholder, hrenew⟩ := h.found
      rw [hentry] at hfound
      cases hfound
      exact ⟨hholder, r / 1000, hrenew, le_rfl⟩
  | succ m hm ih =>
      have hlt := (List.getElem?_eq_some_iff.mp hentry).1
      have hold := List.getElem?_eq_getElem (Nat.lt_of_succ_lt hlt)
      obtain ⟨hholder, rt, hrt, hle⟩ := ih hold
      have hduration := hgood.leaseSeconds hold
      obtain ⟨j, hwriter, hchange⟩ := hgood.change m _ entry hold hentry
      cases hchange with
      | renewed t _ hread _ hnew =>
          rw [hnew]
          exact ⟨hholder, t / 1000, rfl, hle.trans ((hread trivial).2 rt hrt)⟩
      | takenOver t _ hread _ hexpired _ =>
          -- fifteen seconds have not passed yet
          have hbefore := hread trivial
          rw [leaseExpired, hrt, hduration] at hexpired
          have hlapsed := of_decide_eq_true hexpired
          simp only [leaseSeconds, leaseDuration, second] at hlapsed hclock
          omega
      | released hname hnew =>
          have hij : j = i := pods.injective (Option.some.inj (hname.symm.trans hholder))
          subst hij
          have hown := h.own (m + 1) entry (by omega) hentry hwriter
          rw [hnew] at hown
          exact absurd (Option.some.inj hown).symm (pods.name_ne j)

/-- Two pods cannot hold the lease at once. -/
theorem Held.unique {n' : ℕ} {r' : ℤ} (h : Held pods i n r w) (h' : Held pods j n' r' w)
    (hgood : Good pods True none w) (hclock : w.env.clock ≤ r + 14 * second)
    (hclock' : w.env.clock ≤ r' + 14 * second) : i = j := by
  obtain ⟨entry, hfound, hholder, -⟩ := h.found
  obtain ⟨entry', hfound', hholder', -⟩ := h'.found
  rcases Nat.le_total n n' with hle | hle
  · have hsame := (h.until hgood hclock hle hfound').1
    exact pods.injective (Option.some.inj (hsame.symm.trans hholder'))
  · have hsame := (h'.until hgood hclock' hle hfound).1
    exact pods.injective (Option.some.inj (hholder.symm.trans hsame))

/-- What the pod knows about its lease stays true while it runs ticks. -/
theorem Held.carry [DecidableEq ι] {s s' : Net ι}
    (h : Held pods i n r s.toWorld) (hholds : (contract pods sync l₀).Holds (kubernetes pods) s)
    (hrunning : s.env.running i = .tick) (hcarries : Carries s s') : Held pods i n r s'.toWorld := by
  have hsent {l : Lease} {next : WriteAnswer → Code Unit}
      (htask : s.task i = some (.sent (.updateLease l) next)) :
      l.spec.holderIdentity = some (pods.name i) := (hholds.task i _ htask).2.1.2 hrunning
  obtain ⟨entry, hfound, hholder, hrenew⟩ := h.found
  have hlength := (List.getElem?_eq_some_iff.mp hfound).1
  refine ⟨?_, fun m entry' hm hentry' hwriter => ?_, fun l hl => ?_⟩
  · refine ⟨entry, ?_, hholder, hrenew⟩
    rcases hcarries.history with hsame | ⟨j, spec, hwrites, -⟩
    · rwa [hsame]
    · rw [hwrites]
      exact getElem?_mono (List.prefix_append _ _) hfound
  · rcases hcarries.history with hsame | ⟨j, spec, hwrites, hfrom⟩
    · rw [hsame] at hentry'
      exact h.own m entry' hm hentry' hwriter
    · rw [hwrites] at hentry'
      rcases getElem?_concat hentry' with hold | ⟨hlast, rfl⟩
      · exact h.own m entry' hm hold hwriter
      · cases hwriter
        rcases hfrom with hnil | ⟨l, rfl, hversion, ⟨next, htask⟩ | hl⟩
        · rw [hnil] at hlength
          exact absurd hlength (Nat.not_lt_zero _)
        · exact hsent htask
        · rcases h.flying l hl with hlt | hname
          · omega
          · exact hname
  · rcases hcarries.flying i l hl with hold | ⟨next, htask⟩
    · exact h.flying l hold
    · exact Or.inr (hsent htask)

end held

/-! ### The time of a leader -/

section leaders

variable {pods : Pods ι} {i j : ι} {s s' : Timed ι} {t : ℤ} {event : ℤ × TimedEvent ι}

namespace Timed

/-- What is true of a pod in each mode of its loop. -/
def ModeOk (s : Timed ι) (i : ι) : Prop :=
  match s.mode i with
  | .off => s.net.task i = none ∧ s.net.env.isLeader i = false
  | .ticking next => s.net.env.running i = .tick ∧ s.net.env.started i ≤ s.net.env.clock ∧
      s.net.env.clock ≤ s.net.env.started i + retryPeriod ∧
      ∀ f, next = some f → f = s.net.env.started i + retryPeriod
  | .waiting next => s.net.task i = none ∧ s.net.env.running i = .tick ∧ s.net.env.clock ≤ next
  | .stopping => s.net.env.running i = .stop

/-- The tick that last renewed the lease began at `b`; then the ticks since are at even distances from
a time `g` between that renewal and the next tick, and not more than ten seconds after it. -/
def Phase (s : Timed ι) (i : ι) (b : ℤ) : Prop :=
  match s.mode i with
  | .ticking next => b = s.net.env.started i ∨ next ≠ none ∧ ∃ g k : ℤ,
      s.net.env.lastRenew i ≤ g ∧ g ≤ b + retryPeriod ∧ s.net.env.started i = g + k * retryPeriod ∧
      s.net.env.started i ≤ g + renewDeadline
  | .waiting next => ∃ g k : ℤ, s.net.env.lastRenew i ≤ g ∧ g ≤ b + retryPeriod ∧
      next = g + k * retryPeriod ∧ next ≤ g + renewDeadline
  | _ => False

/-- The leader holds the lease, since a time that is not long ago. -/
def LeaderOk (pods : Pods ι) (s : Timed ι) (i : ι) : Prop :=
  s.net.env.isLeader i = true → s.mode i ≠ .stopping →
    ∃ n r b, Held pods i n r s.net.toWorld ∧ b ≤ r ∧ s.Phase i b

/-- A leader that has not stepped down is within fourteen seconds of its last renewal. -/
theorem Phase.clock_le {b : ℤ} (h : s.Phase i b) (hmode : s.ModeOk i) :
    s.net.env.clock ≤ b + 14 * second := by
  unfold Phase at h
  unfold ModeOk at hmode
  split at h
  · rename_i next hnext
    rw [hnext] at hmode
    obtain ⟨-, -, hclock, -⟩ := hmode
    rcases h with rfl | ⟨-, g, k, -, hg, -, hstarted⟩
    · simp only [retryPeriod, second] at hclock ⊢
      omega
    · simp only [retryPeriod, renewDeadline, second] at hclock hg hstarted ⊢
      omega
  · rename_i next hnext
    rw [hnext] at hmode
    obtain ⟨-, -, hclock⟩ := hmode
    obtain ⟨g, k, -, hg, -, hle⟩ := h
    simp only [retryPeriod, renewDeadline, second] at hclock hg hle ⊢
    omega
  · exact h.elim

/-- What is true in every state. -/
structure Ok [DecidableEq ι] (pods : Pods ι) (s : Timed ι) : Prop where
  holds : (contract pods True none).Holds (kubernetes pods) s.net
  mode : ∀ i, s.ModeOk i
  lastRenew : ∀ i, s.net.env.lastRenew i ≤ s.net.env.clock
  clock : 0 ≤ s.net.env.clock
  leader : ∀ i, s.LeaderOk pods i

/-- **Two leaders that do not stop are one.** -/
theorem leaders_agree [DecidableEq ι] (h : s.Ok pods)
    (hi : s.net.env.isLeader i = true) (hstop : s.mode i ≠ .stopping)
    (hj : s.net.env.isLeader j = true) (hstop' : s.mode j ≠ .stopping) : i = j := by
  obtain ⟨n, r, b, hheld, hb, hphase⟩ := h.leader i hi hstop
  obtain ⟨n', r', b', hheld', hb', hphase'⟩ := h.leader j hj hstop'
  have hclock := hphase.clock_le (h.mode i)
  have hclock' := hphase'.clock_le (h.mode j)
  exact hheld.unique hheld' h.holds.good (by omega) (by omega)

/-- A pod that has just become the holder. -/
theorem acquired_leader {w : World ι} (hacquired : Acquired pods True i w)
    (hhistory : s'.net.env.history = w.env.history) (hflying : s'.net.flying = w.flying)
    (hstarted : s'.net.env.started i = w.env.started i) (hmode : s'.mode i = .ticking next) :
    ∃ n r b, Held pods i n r s'.net.toWorld ∧ b ≤ r ∧ s'.Phase i b := by
  obtain ⟨n, r, hheld, hle⟩ := Held.of_acquired trivial hacquired
  refine ⟨n, r, w.env.started i, ⟨?_, ?_, ?_⟩, hle, ?_⟩
  · rw [hhistory]
    exact hheld.found
  · rw [hhistory]
    exact hheld.own
  · rw [hflying]
    exact hheld.flying
  · rw [Phase, hmode]
    exact Or.inl hstarted.symm

theorem ModeOk.off (h : s.ModeOk i) (hmode : s.mode i = .off) :
    s.net.task i = none ∧ s.net.env.isLeader i = false := by
  rwa [ModeOk, hmode] at h

theorem ModeOk.waiting {next : ℤ} (h : s.ModeOk i) (hmode : s.mode i = .waiting next) :
    s.net.task i = none ∧ s.net.env.running i = .tick ∧ s.net.env.clock ≤ next := by
  rwa [ModeOk, hmode] at h

theorem ModeOk.ticking (h : s.ModeOk i) (hmode : s.mode i = .ticking next) :
    s.net.env.running i = .tick ∧ s.net.env.started i ≤ s.net.env.clock ∧
      s.net.env.clock ≤ s.net.env.started i + retryPeriod ∧
      ∀ f, next = some f → f = s.net.env.started i + retryPeriod := by
  rwa [ModeOk, hmode] at h

theorem ModeOk.stopping (h : s.ModeOk i) (hmode : s.mode i = .stopping) :
    s.net.env.running i = .stop := by
  rwa [ModeOk, hmode] at h

theorem Possible.ticking (ht : s.Possible t) (hmode : s.mode i = .ticking next) :
    t ≤ s.net.env.started i + retryPeriod := by
  refine ht.2 i _ ?_
  rw [limit, hmode]

theorem ended_task (h : s.ended i = true) : s.net.task i = some (.ready (.ret ())) := by
  rw [ended] at h
  split at h
  · assumption
  · cases h

/-- A pod whose loop and variables an event leaves alone. -/
structure Same (s s' : Timed ι) (j : ι) : Prop where
  mode : s'.mode j = s.mode j
  task : s.net.task j = none → s'.net.task j = none
  isLeader : s'.net.env.isLeader j = s.net.env.isLeader j
  lastRenew : s'.net.env.lastRenew j = s.net.env.lastRenew j
  started : s'.net.env.started j = s.net.env.started j
  running : s'.net.env.running j = s.net.env.running j

variable [DecidableEq ι]

/-- What is true of one pod. -/
structure PodOk (pods : Pods ι) (s : Timed ι) (i : ι) : Prop where
  mode : s.ModeOk i
  lastRenew : s.net.env.lastRenew i ≤ s.net.env.clock
  leader : s.LeaderOk pods i

theorem Ok.running (h : s.Ok pods) (hleader : s.net.env.isLeader i = true)
    (hstop : s.mode i ≠ .stopping) : s.net.env.running i = .tick := by
  have hmode := h.mode i
  unfold ModeOk at hmode
  split at hmode
  · rw [hleader] at hmode
    cases hmode.2
  · exact hmode.1
  · exact hmode.2.1
  · exact absurd ‹_› hstop

/-- Time passes for a pod that does nothing. -/
theorem Same.pod (hsame : Same s s' j) (h : s.Ok pods) (ht : s.Possible t)
    (hclock : s'.net.env.clock = t) (hcarries : Carries s.net s'.net) : s'.PodOk pods j where
  mode := by
    have hmode := h.mode j
    have hlimit := ht.2 j
    unfold ModeOk at hmode ⊢
    unfold limit at hlimit
    rw [hsame.mode, hsame.isLeader, hsame.running, hsame.started, hclock]
    split at hmode
    · exact ⟨hsame.task hmode.1, hmode.2⟩
    · rename_i next hnext
      rw [hnext] at hlimit
      exact ⟨hmode.1, hmode.2.1.trans ht.1, hlimit _ rfl, hmode.2.2.2⟩
    · rename_i next hnext
      rw [hnext] at hlimit
      exact ⟨hsame.task hmode.1, hmode.2.1, hlimit _ rfl⟩
    · exact hmode
  lastRenew := by
    rw [hsame.lastRenew, hclock]
    exact (h.lastRenew j).trans ht.1
  leader := by
    intro hleader hstop
    rw [hsame.isLeader] at hleader
    rw [hsame.mode] at hstop
    obtain ⟨n, r, b, hheld, hb, hphase⟩ := h.leader j hleader hstop
    refine ⟨n, r, b, hheld.carry h.holds (h.running hleader hstop) hcarries, hb, ?_⟩
    unfold Phase at hphase ⊢
    rw [hsame.mode, hsame.lastRenew, hsame.started]
    exact hphase

/-- An event of the network at time `t`. -/
theorem stepAt_carries (pods : Pods ι) (t : ℤ) (event : NetEvent ι Command) (s : Net ι) :
    Carries s (stepAt pods t event s) := by
  have h := step_carries pods { s with env := { s.env with clock := t } } event
  exact ⟨h.history, h.flying⟩

theorem Ok.of_pods (h : s.Ok pods) (ht : s.Possible t)
    (hholds : (contract pods True none).Holds (kubernetes pods) s'.net)
    (hclock : s'.net.env.clock = t) (hpods : ∀ j, s'.PodOk pods j) : s'.Ok pods where
  holds := hholds
  mode j := (hpods j).mode
  lastRenew j := (hpods j).lastRenew
  clock := by
    rw [hclock]
    exact h.clock.trans ht.1
  leader j := (hpods j).leader

/-- The state of the network with its clock set. -/
theorem Ok.holds_at (h : s.Ok pods) (ht : s.Possible t) (event : NetEvent ι Command) :
    (contract pods True none).Holds (kubernetes pods) (stepAt pods t event s.net) :=
  holds_stepAt (fun _ => rfl) h.holds (fun _ => ht.1) event

/-- An event of the network that leaves the variables of all pods alone. -/
theorem Ok.untouched (h : s.Ok pods) (ht : s.Possible t) (event : NetEvent ι Command)
    (hsame : Untouched { s.net.env with clock := t } (stepAt pods t event s.net).env)
    (htask : ∀ j, s.net.task j = none → (stepAt pods t event s.net).task j = none) :
    ({ s with net := stepAt pods t event s.net } : Timed ι).Ok pods := by
  refine h.of_pods ht (h.holds_at ht event) hsame.clock fun j => ?_
  have hpod : Same s { s with net := stepAt pods t event s.net } j :=
    ⟨rfl, htask j, congrFun hsame.isLeader j, congrFun hsame.lastRenew j, congrFun hsame.started j,
      congrFun hsame.running j⟩
  exact hpod.pod h ht hsame.clock (stepAt_carries pods t event s.net)

/-! ### The events of the loops -/

theorem stepAt_start (pods : Pods ι) (t : ℤ) (c : Command) {s : Net ι} (h : s.task i = none) :
    stepAt pods t (.start i c) s = Service.set i (some (.ready (c.code (pods.name i))))
      { s.toWorld with env := { s.env with
          clock := t
          started := Function.update s.env.started i t
          running := Function.update s.env.running i c } } s := by
  rw [stepAt, Service.step, h]
  rfl

/-- Pod `i` begins a command; the others wait. -/
theorem Ok.begin (h : s.Ok pods) (ht : s.Possible t) (hidle : s.net.task i = none) (c : Command)
    (mode : Mode) (hpod : (s.begin pods t i c mode).PodOk pods i) : (s.begin pods t i c mode).Ok pods := by
  have hnet : (s.begin pods t i c mode).net = stepAt pods t (.start i c) s.net := rfl
  have hclock : (s.begin pods t i c mode).net.env.clock = t := by rw [hnet, stepAt_start pods t c hidle]; rfl
  refine h.of_pods ht (h.holds_at ht (.start i c)) hclock fun j => ?_
  by_cases hji : j = i
  · rw [hji]
    exact hpod
  · have hsame : Same s (s.begin pods t i c mode) j := by
      refine ⟨Function.update_of_ne hji _ _, fun hnone => ?_, ?_, ?_, ?_, ?_⟩ <;>
        rw [hnet, stepAt_start pods t c hidle]
      · rw [Service.set_task_of_ne hji]
        exact hnone
      · rfl
      · rfl
      · exact Function.update_of_ne hji _ _
      · exact Function.update_of_ne hji _ _
    exact hsame.pod h ht hclock (stepAt_carries pods t (.start i c) s.net)

/-- A pod that has just begun a tick. -/
theorem begin_tick (h : s.Ok pods) (ht : s.Possible t) (hidle : s.net.task i = none) (next : Option ℤ)
    (hnext : ∀ f, next = some f → f = t + retryPeriod)
    (hleader : s.net.env.isLeader i = true → ∃ n r b, Held pods i n r s.net.toWorld ∧ b ≤ r ∧
      next ≠ none ∧ ∃ g k : ℤ, s.net.env.lastRenew i ≤ g ∧ g ≤ b + retryPeriod ∧
        t = g + k * retryPeriod ∧ t ≤ g + renewDeadline)
    (hstop : s.mode i ≠ .stopping) :
    (s.begin pods t i .tick (.ticking next)).Ok pods := by
  have hnet : (s.begin pods t i .tick (.ticking next)).net = stepAt pods t (.start i .tick) s.net := rfl
  have hmode : (s.begin pods t i .tick (.ticking next)).mode i = .ticking next := Function.update_self _ _ _
  have hstarted : (s.begin pods t i .tick (.ticking next)).net.env.started i = t := by
    rw [hnet, stepAt_start pods t .tick hidle]
    exact Function.update_self _ _ _
  have hrunning : (s.begin pods t i .tick (.ticking next)).net.env.running i = .tick := by
    rw [hnet, stepAt_start pods t .tick hidle]
    exact Function.update_self _ _ _
  have hclock : (s.begin pods t i .tick (.ticking next)).net.env.clock = t := by
    rw [hnet, stepAt_start pods t .tick hidle]
    rfl
  have hlast : (s.begin pods t i .tick (.ticking next)).net.env.lastRenew i = s.net.env.lastRenew i := by
    rw [hnet, stepAt_start pods t .tick hidle]
    rfl
  refine h.begin ht hidle .tick _ ⟨?_, ?_, fun hleader' _ => ?_⟩
  · rw [ModeOk, hmode]
    refine ⟨hrunning, ?_, ?_, ?_⟩
    · rw [hstarted, hclock]
    · rw [hstarted, hclock, retryPeriod, second]
      omega
    · rw [hstarted]
      exact hnext
  · rw [hlast, hclock]
    exact (h.lastRenew i).trans ht.1
  · have hleader₀ : s.net.env.isLeader i = true := by
      rw [hnet, stepAt_start pods t .tick hidle] at hleader'
      exact hleader'
    obtain ⟨n, r, b, hheld, hb, hne, g, k, hg⟩ := hleader hleader₀
    have hcarries := stepAt_carries pods t (.start i .tick) s.net
    refine ⟨n, r, b, hheld.carry h.holds (h.running hleader₀ hstop) hcarries, hb, ?_⟩
    rw [Phase, hmode, hstarted, hlast]
    exact Or.inr ⟨hne, g, k, hg⟩

/-- A pod that begins to stop. -/
theorem begin_stop (h : s.Ok pods) (ht : s.Possible t) (hidle : s.net.task i = none) :
    (s.begin pods t i .stop .stopping).Ok pods := by
  have hnet : (s.begin pods t i .stop .stopping).net = stepAt pods t (.start i .stop) s.net := rfl
  have hmode : (s.begin pods t i .stop .stopping).mode i = .stopping := Function.update_self _ _ _
  refine h.begin ht hidle .stop _ ⟨?_, ?_, fun _ hstop => absurd hmode hstop⟩
  · rw [ModeOk, hmode, hnet, stepAt_start pods t .stop hidle]
    exact Function.update_self _ _ _
  · rw [hnet, stepAt_start pods t .stop hidle]
    exact (h.lastRenew i).trans ht.1

theorem Ok.boot (h : s.Ok pods) (ht : s.Possible t) (hmode : s.mode i = .off) :
    (s.begin pods t i .tick (.ticking none)).Ok pods := by
  obtain ⟨hidle, hfalse⟩ := (h.mode i).off hmode
  refine begin_tick h ht hidle none (fun f hf => by cases hf) (fun hleader => ?_) (by rw [hmode]; decide)
  rw [hfalse] at hleader
  cases hleader

theorem Ok.fire (h : s.Ok pods) (ht : s.Possible t) (hmode : s.mode i = .waiting t) :
    (s.begin pods t i .tick (.ticking (some (t + retryPeriod)))).Ok pods := by
  have hstop : s.mode i ≠ .stopping := by
    rw [hmode]
    exact fun heq => Mode.noConfusion heq
  refine begin_tick h ht ((h.mode i).waiting hmode).1 _ (fun f hf => (Option.some.inj hf).symm)
    (fun hleader => ?_) hstop
  obtain ⟨n, r, b, hheld, hb, hphase⟩ := h.leader i hleader hstop
  rw [Phase, hmode] at hphase
  exact ⟨n, r, b, hheld, hb, Option.some_ne_none _, hphase⟩

/-! ### The events in a command -/

/-- A pod in the middle of a command is in a tick or stops. -/
theorem Ok.busy_mode (h : s.Ok pods) (htask : s.net.task i = some task) :
    (∃ next, s.mode i = .ticking next) ∨ s.mode i = .stopping := by
  have hmode := h.mode i
  unfold ModeOk at hmode
  split at hmode
  · rw [htask] at hmode
    cases hmode.1
  · rename_i next hnext
    exact Or.inl ⟨next, hnext⟩
  · rw [htask] at hmode
    cases hmode.1
  · exact Or.inr ‹_›

/-- The loop of a pod in the middle of a command, while it goes on. -/
theorem Ok.busy_pod (h : s.Ok pods) (ht : s.Possible t)
    (htask : s.net.task i = some task) (hmode : s'.mode i = s.mode i)
    (hrunning : s'.net.env.running i = s.net.env.running i)
    (hstarted : s'.net.env.started i = s.net.env.started i) (hclock : s'.net.env.clock = t) :
    s'.ModeOk i := by
  have hmodeOk := h.mode i
  rcases h.busy_mode htask with ⟨next, hnext⟩ | hstop
  · obtain ⟨hrun, hle, -, hf⟩ := hmodeOk.ticking hnext
    rw [ModeOk, hmode, hnext, hrunning, hstarted, hclock]
    exact ⟨hrun, hle.trans ht.1, ht.ticking hnext, hf⟩
  · rw [ModeOk, hmode, hstop, hrunning]
    exact hmodeOk.stopping hstop

/-- A pod that asks something of its own. -/
theorem Ok.asking (h : s.Ok pods) (ht : s.Possible t)
    (htask : s.net.task i = some task) (hlocal : q.remote = false)
    (hasks : Asks pods True i q { s.net.toWorld with env := { s.net.env with clock := t } })
    (hmode : s'.mode = s.mode) (hflying : s'.net.flying = s.net.flying)
    (henv : s'.net.env = (Cluster.exec pods i q { s.net.env with clock := t }).2) :
    s'.PodOk pods i := by
  obtain ⟨hclock, hstarted, hrunning⟩ := exec_clock pods i q { s.net.env with clock := t }
  have hhistory := exec_history_local pods i hlocal { s.net.env with clock := t }
  rw [← henv] at hclock hstarted hrunning hhistory
  have hmodei : s'.mode i = s.mode i := by rw [hmode]
  have hpod : s'.ModeOk i := h.busy_pod ht htask hmodei (congrFun hrunning i) (congrFun hstarted i) hclock
  have hcarries : Carries s.net s'.net := .same hhistory hflying
  have hsame (hl : ∀ b, q ≠ .storeLeader b) (hr : ∀ t', q ≠ .storeLastRenew t') : s'.PodOk pods i := by
    refine ⟨hpod, ?_, fun hleader hstop => ?_⟩
    · rw [henv, exec_lastRenew i hr, (exec_clock pods i q _).1]
      exact (h.lastRenew i).trans ht.1
    · rw [henv, exec_isLeader i hl] at hleader
      rw [hmodei] at hstop
      obtain ⟨n, r, b, hheld, hb, hphase⟩ := h.leader i hleader hstop
      refine ⟨n, r, b, hheld.carry h.holds (h.running hleader hstop) hcarries, hb, ?_⟩
      unfold Phase at hphase ⊢
      rw [hmodei, hstarted, henv, exec_lastRenew i hr]
      exact hphase
  cases q with
  | storeLeader leader =>
      have hlast : s'.net.env.lastRenew i = s.net.env.lastRenew i := by
        rw [henv]
        rfl
      refine ⟨hpod, ?_, fun hleader hstop => ?_⟩
      · rw [hlast, hclock]
        exact (h.lastRenew i).trans ht.1
      · have hself : s'.net.env.isLeader i = leader := by
          rw [henv]
          exact Function.update_self _ _ _
        rw [hself] at hleader
        subst hleader
        rcases h.busy_mode htask with ⟨next, hnext⟩ | hstopping
        · exact acquired_leader hasks.1 hhistory hflying (congrFun hstarted i) (hmodei.trans hnext)
        · exact absurd (hmodei.trans hstopping) hstop
  | storeLastRenew t' =>
      have hlast : s'.net.env.lastRenew i = t' := by
        rw [henv]
        exact Function.update_self _ _ _
      refine ⟨hpod, ?_, fun _ hstop => ?_⟩
      · rw [hlast, hclock]
        exact (hasks.2 trivial).2
      · rcases h.busy_mode htask with ⟨next, hnext⟩ | hstopping
        · exact acquired_leader hasks.1 hhistory hflying (congrFun hstarted i) (hmodei.trans hnext)
        · exact absurd (hmodei.trans hstopping) hstop
  | getLease => cases hlocal
  | createLease d t' => cases hlocal
  | updateLease l => cases hlocal
  | setLeaderLabel b => cases hlocal
  | now => exact hsame (fun _ hq => Query.noConfusion hq) (fun _ hq => Query.noConfusion hq)
  | loadLeader => exact hsame (fun _ hq => Query.noConfusion hq) (fun _ hq => Query.noConfusion hq)
  | loadLastRenew => exact hsame (fun _ hq => Query.noConfusion hq) (fun _ hq => Query.noConfusion hq)

theorem stepAt_idle (pods : Pods ι) (t : ℤ) {event : NetEvent ι Command} {s : Net ι}
    (hevent : ∀ c, event ≠ .start j c) (h : s.task j = none) : (stepAt pods t event s).task j = none := by
  have hset (i : ι) (task : Option (Task Query Answer)) (w : World ι) (s' : Net ι) (hs' : s'.task = s.task)
      (hij : j = i → task = none) : (Service.set i task w s').task j = none := by
    by_cases hji : j = i
    · rw [← hji, Service.set_task_self]
      exact hij hji
    · rw [Service.set_task_of_ne hji, hs']
      exact h
  have hne {i : ι} {task : Task Query Answer} (htask : s.task i = some task) : j ≠ i := by
    intro hji
    rw [← hji, h] at htask
    cases htask
  rw [stepAt]
  cases event with
  | start i c =>
      have hji : j ≠ i := fun hji => hevent c (by rw [hji])
      rw [Service.step]
      split
      · exact hset _ _ _ _ rfl fun heq => absurd heq hji
      · exact h
  | act i =>
      rw [Service.step]
      split
      · exact hset _ _ _ _ rfl fun _ => rfl
      · split <;> exact hset _ _ _ _ rfl fun heq => absurd heq (hne ‹_›)
      · exact hset _ _ _ _ rfl fun heq => absurd heq (hne ‹_›)
      · exact h
  | serve i =>
      rw [Service.step]
      split
      · exact hset _ _ _ _ rfl fun heq => absurd heq (hne ‹_›)
      · exact h
  | fail i =>
      rw [Service.step]
      split
      · exact hset _ _ _ _ rfl fun heq => absurd heq (hne ‹_›)
      · exact hset _ _ _ _ rfl fun heq => absurd heq (hne ‹_›)
      · exact h
  | land n =>
      rw [Service.step]
      split <;> exact h
  | crash i =>
      rw [Service.step]
      split <;> exact hset _ _ _ _ rfl fun _ => rfl

theorem Ok.act (h : s.Ok pods) (ht : s.Possible t)
    (htask : s.net.task i = some task) :
    ({ s with net := stepAt pods t (.act i) s.net } : Timed ι).Ok pods := by
  have hidle (j : ι) : s.net.task j = none → (stepAt pods t (.act i) s.net).task j = none :=
    stepAt_idle pods t fun _ heq => by cases heq
  by_cases hq : ∃ q next, s.net.task i = some (.ready (.ask q next)) ∧ q.remote = false
  · obtain ⟨q, next, hask, hlocal⟩ := hq
    have hholds := holds_clock (fun _ => rfl) h.holds (fun _ => ht.1)
    have hasks : Asks pods True i q { s.net.toWorld with env := { s.net.env with clock := t } } :=
      (hholds.task i _ hask).1
    have hnet : stepAt pods t (.act i) s.net = Service.set i
        (some (.ready (next (Cluster.exec pods i q { s.net.env with clock := t }).1)))
        ⟨(Cluster.exec pods i q { s.net.env with clock := t }).2, s.net.flying⟩ s.net := by
      rw [stepAt, Service.step, hask]
      simp only [kubernetes, hlocal, Bool.false_eq_true, if_false]
      rfl
    obtain ⟨hclock, hstarted, hrunning⟩ := exec_clock pods i q { s.net.env with clock := t }
    have hclock' : (stepAt pods t (.act i) s.net).env.clock = t := by
      rw [hnet]
      exact hclock
    refine h.of_pods ht (h.holds_at ht (.act i)) hclock' fun j => ?_
    by_cases hji : j = i
    · rw [hji]
      refine h.asking ht htask hlocal hasks rfl ?_ ?_
      · rw [hnet]
        rfl
      · rw [hnet]
        rfl
    · obtain ⟨hleader, hlast⟩ := exec_other pods hji q { s.net.env with clock := t }
      have hsame : Same s { s with net := stepAt pods t (.act i) s.net } j := by
        refine ⟨rfl, hidle j, ?_, ?_, ?_, ?_⟩ <;> rw [hnet]
        · exact hleader
        · exact hlast
        · exact congrFun hstarted j
        · exact congrFun hrunning j
      exact hsame.pod h ht hclock' (stepAt_carries pods t (.act i) s.net)
  · refine h.untouched ht (.act i) ?_ hidle
    rw [stepAt, Service.step]
    split
    · exact .refl _
    · rename_i q next hask
      rw [if_pos]
      · exact .refl _
      · by_contra hremote
        exact hq ⟨q, next, hask, by simpa [kubernetes] using hremote⟩
    · exact .refl _
    · exact .refl _

theorem Ok.crash (h : s.Ok pods) (ht : s.Possible t) (i : ι) :
    (s.effect pods t (.crash i)).Ok pods := by
  have hnet : (s.effect pods t (.crash i)).net = stepAt pods t (.crash i) s.net := rfl
  have henv : (stepAt pods t (.crash i) s.net).env =
      (kubernetes pods).crash i { s.net.env with clock := t } ∧
      (stepAt pods t (.crash i) s.net).task i = none := by
    rw [stepAt, Service.step]
    split
    · exact ⟨rfl, Service.set_task_self _ _ _ _⟩
    · exact ⟨rfl, Service.set_task_self _ _ _ _⟩
  obtain ⟨henv, hnone⟩ := henv
  have hclock : (s.effect pods t (.crash i)).net.env.clock = t := by
    rw [hnet, henv]
    rfl
  refine h.of_pods ht (h.holds_at ht (.crash i)) hclock fun j => ?_
  by_cases hji : j = i
  · subst hji
    have hmode : (s.effect pods t (.crash j)).mode j = .off := Function.update_self _ _ _
    have hleader : (s.effect pods t (.crash j)).net.env.isLeader j = false := by
      rw [hnet, henv]
      exact Function.update_self _ _ _
    refine ⟨?_, ?_, fun htrue => ?_⟩
    · rw [ModeOk, hmode]
      exact ⟨hnone, hleader⟩
    · have hlast : (s.effect pods t (.crash j)).net.env.lastRenew j = 0 := by
        rw [hnet, henv]
        exact Function.update_self _ _ _
      rw [hlast, hclock]
      exact h.clock.trans ht.1
    · rw [hleader] at htrue
      cases htrue
  · have hsame : Same s (s.effect pods t (.crash i)) j := by
      refine ⟨Function.update_of_ne hji _ _, ?_, ?_, ?_, ?_, ?_⟩
      · exact stepAt_idle pods t fun _ heq => by cases heq
      · rw [hnet, henv]
        exact Function.update_of_ne hji _ _
      · rw [hnet, henv]
        exact Function.update_of_ne hji _ _
      · rw [hnet, henv]
        rfl
      · rw [hnet, henv]
        rfl
    exact hsame.pod h ht hclock (stepAt_carries pods t (.crash i) s.net)

/-! ### The end of a command -/

theorem Ok.post (h : s.Ok pods) (hended : s.ended i = true) : Post True i s.net.toWorld :=
  h.holds.task i _ (ended_task hended)

theorem stepAt_ended (pods : Pods ι) (t : ℤ) (hended : s.ended i = true) :
    stepAt pods t (.act i) s.net = Service.set i none
      { s.net.toWorld with env := { s.net.env with clock := t } } s.net := by
  rw [stepAt, Service.step, ended_task hended]
  rfl

theorem leave_net (pods : Pods ι) (t : ℤ) (mode : Mode) (hended : s.ended i = true) :
    (s.leave pods t i mode).net = Service.set i none
      { s.net.toWorld with env := { s.net.env with clock := t } } s.net := stepAt_ended pods t hended

theorem leave_mode (pods : Pods ι) (s : Timed ι) (t : ℤ) (i : ι) (mode : Mode) :
    (s.leave pods t i mode).mode i = mode := Function.update_self _ _ _

/-- Pod `i` has ended its command and changes its mode. -/
theorem Ok.leave (h : s.Ok pods) (ht : s.Possible t) (hended : s.ended i = true) (mode : Mode)
    (hpod : (s.leave pods t i mode).PodOk pods i) : (s.leave pods t i mode).Ok pods := by
  have hnet := leave_net pods t mode hended
  have hclock : (s.leave pods t i mode).net.env.clock = t := by
    rw [hnet]
    rfl
  refine h.of_pods ht (h.holds_at ht (.act i)) hclock fun j => ?_
  by_cases hji : j = i
  · rw [hji]
    exact hpod
  · have hsame : Same s (s.leave pods t i mode) j := by
      refine ⟨Function.update_of_ne hji _ _, ?_, ?_, ?_, ?_, ?_⟩
      · exact stepAt_idle pods t fun _ heq => by cases heq
      all_goals
        rw [hnet]
        rfl
    exact hsame.pod h ht hclock (stepAt_carries pods t (.act i) s.net)

/-- A tick ends, and the loop waits for the ticker. -/
theorem Ok.finish_tick (h : s.Ok pods) (ht : s.Possible t) (hended : s.ended i = true)
    (hmode : s.mode i = .ticking next) :
    (s.leave pods t i (.waiting (next.getD (t + retryPeriod)))).Ok pods := by
  have hnet := leave_net pods t (.waiting (next.getD (t + retryPeriod))) hended
  obtain ⟨hrunning, -, -, hnext⟩ := (h.mode i).ticking hmode
  have hlimit := ht.ticking hmode
  have hlast := (h.lastRenew i).trans ht.1
  refine h.leave ht hended _ ⟨?_, ?_, fun hleader _ => ?_⟩
  · rw [ModeOk, leave_mode, hnet]
    refine ⟨Service.set_task_self _ _ _ _, hrunning, ?_⟩
    cases next with
    | none =>
        simp only [Service.set, Option.getD_none, retryPeriod, second]
        omega
    | some f =>
        rw [hnext f rfl]
        exact hlimit
  · rw [hnet]
    exact hlast
  · rw [hnet] at hleader
    have hstop : s.mode i ≠ .stopping := by
      rw [hmode]
      exact fun heq => Mode.noConfusion heq
    have hpost := h.post hended
    rw [Post, hrunning] at hpost
    have hgrace := hpost trivial hleader
    obtain ⟨n, r, b, hheld, hb, hphase⟩ := h.leader i hleader hstop
    have hcarries := stepAt_carries pods t (.act i) s.net
    refine ⟨n, r, b, hheld.carry h.holds hrunning hcarries, hb, ?_⟩
    rw [Phase, hmode] at hphase
    rw [Phase, leave_mode, hnet]
    simp only [retryPeriod, renewDeadline, second] at hnext hlimit hgrace hphase ⊢
    rcases hphase with rfl | ⟨hne, g, k, hg, hgb, hstarted, hle⟩
    · cases next with
      | none => exact ⟨t, 1, hlast, hlimit, by rw [Option.getD_none]; omega, by rw [Option.getD_none]; omega⟩
      | some f =>
          have hf := hnext f rfl
          exact ⟨f, 0, by rw [hf]; exact hlast.trans hlimit, by omega, by rw [Option.getD_some]; omega,
            by rw [Option.getD_some]; omega⟩
    · -- the grace period is over at the fifth tick after `g`
      cases next with
      | none => exact absurd rfl hne
      | some f =>
          have hf := hnext f rfl
          exact ⟨g, k + 1, hg, hgb, by rw [Option.getD_some]; omega, by rw [Option.getD_some]; omega⟩

theorem Ok.finish_stop (h : s.Ok pods) (ht : s.Possible t) (hended : s.ended i = true)
    (hmode : s.mode i = .stopping) : (s.leave pods t i .off).Ok pods := by
  have hnet := leave_net pods t .off hended
  have hpost := h.post hended
  rw [Post, (h.mode i).stopping hmode] at hpost
  refine h.leave ht hended _ ⟨?_, ?_, fun hleader _ => ?_⟩
  · rw [ModeOk, leave_mode, hnet]
    exact ⟨Service.set_task_self _ _ _ _, hpost⟩
  · rw [hnet]
    exact (h.lastRenew i).trans ht.1
  · rw [hnet] at hleader
    exact absurd (hpost.symm.trans hleader) Bool.false_ne_true

theorem Ok.finish (h : s.Ok pods) (ht : s.Possible t) (i : ι) : (s.effect pods t (.finish i)).Ok pods := by
  rw [effect]
  split
  · rename_i hended
    have hact := h.act ht (ended_task hended)
    split
    · rename_i next hmode
      split
      · refine begin_stop hact ⟨?_, fun j bound hbound => ?_⟩ ?_
        · rw [stepAt_ended pods t hended]
          exact le_rfl
        · refine ht.2 j bound ?_
          rw [limit, stepAt_ended pods t hended] at hbound
          exact hbound
        · rw [stepAt_ended pods t hended]
          exact Service.set_task_self _ _ _ _
      · exact h.finish_tick ht hended hmode
    · rename_i hmode
      rcases h.busy_mode (ended_task hended) with ⟨next, hnext⟩ | hstop
      · exact absurd hnext (hmode next)
      · exact h.finish_stop ht hended hstop
  · exact h

/-! ### Every run -/

theorem Ok.effect (h : s.Ok pods) (ht : s.Possible t) (event : TimedEvent ι) :
    (s.effect pods t event).Ok pods := by
  have hnet := holds_clock (fun _ => rfl) h.holds (fun _ => ht.1)
  cases event with
  | boot i =>
      rw [Timed.effect]
      split
      · exact h.boot ht ‹_›
      · exact h
  | fire i =>
      rw [Timed.effect]
      split
      · split
        · rename_i next hmode heq
          subst heq
          exact h.fire ht hmode
        · exact h
      · exact h
  | finish i => exact h.finish ht i
  | halt i =>
      rw [Timed.effect]
      split
      · exact begin_stop h ht ((h.mode i).waiting ‹_›).1
      · exact ⟨h.holds, h.mode, h.lastRenew, h.clock, h.leader⟩
      · exact h
  | crash i => exact h.crash ht i
  | act i =>
      rw [Timed.effect]
      split
      · rename_i hbusy
        obtain ⟨task, htask⟩ := Option.isSome_iff_exists.mp (Bool.and_eq_true_iff.mp hbusy).1
        exact h.act ht htask
      · exact h
  | serve i =>
      exact h.untouched ht (.serve i) (serve_untouched hnet i) fun j =>
        stepAt_idle pods t fun _ heq => by cases heq
  | fail i =>
      exact h.untouched ht (.fail i) (fail_untouched { s.net with env := { s.net.env with clock := t } } i) fun j =>
        stepAt_idle pods t fun _ heq => by cases heq
  | land n =>
      exact h.untouched ht (.land n) (land_untouched hnet n) fun j =>
        stepAt_idle pods t fun _ heq => by cases heq

theorem Ok.start (pods : Pods ι) : (Timed.start : Timed ι).Ok pods where
  holds := holds_start pods True none
  mode _ := ⟨rfl, rfl⟩
  lastRenew _ := le_rfl
  clock := le_rfl
  leader _ h := by cases h

variable [Fintype ι]

theorem Ok.step (h : s.Ok pods) (event : ℤ × TimedEvent ι) : (s.step pods event).Ok pods := by
  rw [Timed.step]
  split
  · exact h.effect ‹_› event.2
  · exact h

theorem Ok.run (pods : Pods ι) (events : List (ℤ × TimedEvent ι)) :
    ((Timed.start : Timed ι).run pods events).Ok pods := by
  induction events using List.reverseRecOn with
  | nil => exact Ok.start pods
  | append_singleton events event ih =>
      rw [Timed.run, List.foldl_concat]
      exact ih.step event

/-! ### How a pod becomes the leader -/

/-- The event with which pod `i` stores that it is the leader. -/
def Becomes (s : Timed ι) (event : ℤ × TimedEvent ι) (i : ι) : Prop :=
  s.Possible event.1 ∧ event.2 = .act i ∧
    ∃ next, s.net.task i = some (.ready (.ask (.storeLeader true) next))

omit [Fintype ι] in
theorem stepAt_leader (h : s.Ok pods) (ht : s.Possible t) {event : NetEvent ι Command}
    (hleader : (stepAt pods t event s.net).env.isLeader i = true) :
    s.net.env.isLeader i = true ∨ event = .act i ∧
      ∃ next, s.net.task i = some (.ready (.ask (.storeLeader true) next)) := by
  have hnet := holds_clock (fun _ => rfl) h.holds (fun _ => ht.1)
  have hsame {e : Cluster ι} (he : Untouched { s.net.env with clock := t } e)
      (hleader : e.isLeader i = true) : s.net.env.isLeader i = true := by
    rw [he.isLeader] at hleader
    exact hleader
  rw [stepAt] at hleader
  cases event with
  | start j c =>
      rw [Service.step] at hleader
      split at hleader <;> exact Or.inl hleader
  | act j =>
      rw [Service.step] at hleader
      split at hleader
      · exact Or.inl hleader
      · rename_i q next htask
        split at hleader
        · exact Or.inl hleader
        · have hexec : (Cluster.exec pods j q { s.net.env with clock := t }).2.isLeader i = true := hleader
          by_cases hji : i = j
          · subst hji
            by_cases hq : ∃ b, q = .storeLeader b
            · obtain ⟨b, rfl⟩ := hq
              have hself : Function.update s.net.env.isLeader i b i = true := hexec
              rw [Function.update_self] at hself
              subst hself
              exact Or.inr ⟨rfl, next, htask⟩
            · rw [exec_isLeader i fun b hb => hq ⟨b, hb⟩] at hexec
              exact Or.inl hexec
          · have hother := (exec_other pods hji q { s.net.env with clock := t }).1
            exact Or.inl (hother.symm.trans hexec)
      · exact Or.inl hleader
      · exact Or.inl hleader
  | serve j => exact Or.inl (hsame (serve_untouched hnet j) hleader)
  | fail j =>
      exact Or.inl (hsame (fail_untouched { s.net with env := { s.net.env with clock := t } } j) hleader)
  | land n => exact Or.inl (hsame (land_untouched hnet n) hleader)
  | crash j =>
      have hcrash : Function.update s.net.env.isLeader j false i = true := by
        rw [Service.step] at hleader
        split at hleader <;> exact hleader
      by_cases hij : i = j
      · rw [hij, Function.update_self] at hcrash
        cases hcrash
      · rw [Function.update_of_ne hij] at hcrash
        exact Or.inl hcrash

theorem step_leader (h : s.Ok pods)
    (hleader : (s.step pods event).net.env.isLeader i = true) :
    s.net.env.isLeader i = true ∨ s.Becomes event i := by
  obtain ⟨t, event⟩ := event
  rw [step] at hleader
  split at hleader
  · rename_i ht
    have hstep {net : NetEvent ι Command} (hnet : net ≠ .act i)
        (hleader : (stepAt pods t net s.net).env.isLeader i = true) : s.net.env.isLeader i = true :=
      (stepAt_leader h ht hleader).resolve_right fun hact => hnet hact.1
    cases event with
    | boot j =>
        rw [effect] at hleader
        split at hleader
        · exact Or.inl (hstep (fun heq => by cases heq) hleader)
        · exact Or.inl hleader
    | fire j =>
        rw [effect] at hleader
        split at hleader
        · split at hleader
          · exact Or.inl (hstep (fun heq => by cases heq) hleader)
          · exact Or.inl hleader
        · exact Or.inl hleader
    | finish j =>
        rw [effect] at hleader
        split at hleader
        · rename_i hended
          have hact := stepAt_ended pods t hended
          split at hleader
          · split at hleader
            · rw [begin, hact, stepAt_start pods t .stop (Service.set_task_self _ _ _ _)] at hleader
              exact Or.inl hleader
            · rw [leave_net pods t _ hended] at hleader
              exact Or.inl hleader
          · rw [leave_net pods t _ hended] at hleader
            exact Or.inl hleader
        · exact Or.inl hleader
    | halt j =>
        rw [effect] at hleader
        split at hleader
        · exact Or.inl (hstep (fun heq => by cases heq) hleader)
        · exact Or.inl hleader
        · exact Or.inl hleader
    | crash j => exact Or.inl (hstep (fun heq => by cases heq) hleader)
    | act j =>
        rw [effect] at hleader
        split at hleader
        · rcases stepAt_leader h ht hleader with hold | ⟨hact, hnext⟩
          · exact Or.inl hold
          · cases hact
            exact Or.inr ⟨ht, rfl, hnext⟩
        · exact Or.inl hleader
    | serve j => exact Or.inl (hstep (fun heq => by cases heq) hleader)
    | fail j => exact Or.inl (hstep (fun heq => by cases heq) hleader)
    | land n => exact Or.inl (hstep (fun heq => by cases heq) hleader)
  · exact Or.inl hleader

theorem Becomes.step (pods : Pods ι) (h : s.Becomes event i) :
    s.step pods event = { s with net := stepAt pods event.1 (.act i) s.net } ∧
      (s.step pods event).net.env.isLeader = Function.update s.net.env.isLeader i true := by
  obtain ⟨hpossible, hact, next, htask⟩ := h
  have hbusy : s.busy i = true := by rw [busy, ended, htask]; rfl
  have hstep : s.step pods event = { s with net := stepAt pods event.1 (.act i) s.net } := by
    rw [Timed.step, if_pos hpossible, hact, Timed.effect, if_pos hbusy]
  refine ⟨hstep, ?_⟩
  rw [hstep, stepAt, Service.step, htask]
  rfl

omit [Fintype ι] in
theorem Becomes.mode_ne (h : s.Ok pods) (hbecomes : s.Becomes event i) :
    s.mode i ≠ .stopping := by
  intro hstop
  obtain ⟨-, -, next, htask⟩ := hbecomes
  have hasks : Asks pods True i (.storeLeader true) s.net.toWorld := (h.holds.task i _ htask).1
  have hstopping := (h.mode i).stopping hstop
  rw [hasks.2] at hstopping
  cases hstopping

/-- Nothing but a pod that stops is in the way of one that becomes the leader. -/
theorem OneLeader.step (h : s.Ok pods) (hone : s.OneLeader)
    (hstop : ∀ i j, s.Becomes event i → j ≠ i → s.mode j = .stopping → s.net.env.isLeader j = false) :
    (s.step pods event).OneLeader := by
  have hnew {i j : ι} (hbecomes : s.Becomes event i) (hj : (s.step pods event).net.env.isLeader j = true) :
      j = i := by
    by_contra hji
    obtain ⟨hstep, hleaders⟩ := hbecomes.step pods
    have hold : s.net.env.isLeader j = true := by
      rw [hleaders, Function.update_of_ne hji] at hj
      exact hj
    have hmode (j : ι) : (s.step pods event).mode j = s.mode j := by rw [hstep]
    have hmodej : s.mode j ≠ .stopping := by
      intro hmodej
      rw [hstop i j hbecomes hji hmodej] at hold
      cases hold
    refine hji (leaders_agree (h.step event) hj ?_ ?_ ?_)
    · rwa [hmode]
    · rw [hleaders, Function.update_self]
    · rw [hmode]
      exact hbecomes.mode_ne h
  intro i j hi hj
  rcases step_leader h hi with hi₀ | hbecomes
  · rcases step_leader h hj with hj₀ | hbecomes
    · exact hone i j hi₀ hj₀
    · exact hnew hbecomes hi
  · exact (hnew hbecomes hj).symm

theorem run_take_succ (pods : Pods ι) (s : Timed ι) {events : List (ℤ × TimedEvent ι)} {n : ℕ}
    (h : events[n]? = some event) :
    s.run pods (events.take (n + 1)) = (s.run pods (events.take n)).step pods event := by
  rw [run, run, List.take_add_one, h, Option.toList_some, List.foldl_concat]

/-- **At most one leader.**  Two pods consider themselves leader at some time exactly if a pod becomes
the leader while another one that is stopping has not put down its leadership yet. -/
theorem one_leader_iff (pods : Pods ι) (events : List (ℤ × TimedEvent ι)) :
    (∀ n, ((start : Timed ι).run pods (events.take n)).OneLeader) ↔
      ∀ n event, events[n]? = some event → ∀ i j,
        ((start : Timed ι).run pods (events.take n)).Becomes event i → j ≠ i →
          ((start : Timed ι).run pods (events.take n)).mode j = .stopping →
            ((start : Timed ι).run pods (events.take n)).net.env.isLeader j = false := by
  constructor
  · intro hone n event hevent i j hbecomes hji hstop
    by_contra hleader
    rw [Bool.not_eq_false] at hleader
    have hafter := hone (n + 1)
    rw [run_take_succ pods start hevent] at hafter
    refine hji (hafter j i ?_ ?_)
    · rw [(hbecomes.step pods).2, Function.update_of_ne hji]
      exact hleader
    · rw [(hbecomes.step pods).2, Function.update_self]
  · intro hstop n
    induction n with
    | zero =>
        intro i j hi
        cases hi
    | succ n ih =>
        cases hevent : events[n]? with
        | none =>
            rw [List.take_add_one, hevent, Option.toList_none, List.append_nil]
            exact ih
        | some event =>
            rw [run_take_succ pods start hevent]
            exact ih.step (Ok.run pods _) fun i j => hstop n event hevent i j

/-! ### Two leaders -/

/-- A deployment of two pods. -/
def twoPods : Pods Bool where
  name i := if i then "postkeys-1" else "postkeys-0"
  name_ne i := by cases i <;> decide
  injective := by decide

/-- `n` steps of a pod at one time, of which those that are requests are answered. -/
def steps (i : Bool) (t : ℤ) (n : ℕ) : List (ℤ × TimedEvent Bool) :=
  (List.replicate n [(t, .act i), (t, .serve i)]).flatten

/-- The first pod becomes the leader, and the second finds the lease held.  Then the first stops: it
gives up the lease, but does not get to the end of `surrender` before the next tick of the second. -/
def takeoverAtStop : List (ℤ × TimedEvent Bool) :=
  (100 * second, .boot false) :: steps false (100 * second) 11 ++ (100 * second, .finish false) ::
  (101 * second, .boot true) :: steps true (101 * second) 5 ++ (101 * second, .finish true) ::
  (102 * second, .halt false) :: steps false (102 * second) 5 ++
  (103 * second, .fire true) :: steps true (103 * second) 9

theorem two_leaders_at_stop : ¬ (start.run twoPods takeoverAtStop).OneLeader := by
  intro hone
  have hleaders : (start.run twoPods takeoverAtStop).net.env.isLeader false = true ∧
      (start.run twoPods takeoverAtStop).net.env.isLeader true = true := by decide +kernel
  exact Bool.false_ne_true (hone false true hleaders.1 hleaders.2)

end Timed

end leaders

end Postkeys.Leader
