import Postkeys.Concurrent.Remote
import Mathlib.Algebra.Order.Group.Int

/-! # Leader election

The election of a leader among the pods of a deployment.  Leadership is a lease that the API server
of the cluster keeps: the holder renews it every two seconds, and a pod that finds it expired takes
it over, with an update that the server rejects unless it is based on the version in force.

The code of a pod (`attempt`, `tick`, `surrender`) is a dialog with the API server, the clock and its
own two variables; `kubernetes` is the service that answers it.  Instants and durations are in
nanoseconds. -/

namespace Postkeys.Leader

open Concurrent

/-! ### Times -/

def second : ℤ := 1000000000

def leaseDuration : ℤ := 15 * second

def renewDeadline : ℤ := 10 * second

def retryPeriod : ℤ := 2 * second

def stopTimeout : ℤ := 2 * second

/-- `int32(leaseDuration.Seconds())`. -/
def leaseSeconds : ℤ := leaseDuration / second

/-- The value of an `int32` computation that may have overflowed. -/
def int32 (x : ℤ) : ℤ := Int.bmod x 0x100000000

/-- The text of a time in an object of the API server, by what the parser makes of it: a time in
microseconds, or a text that it does not read. -/
inductive TimeText
  | micro (t : ℤ)
  | unreadable (text : String)
deriving DecidableEq, Repr

def microTime (t : ℤ) : TimeText := .micro (t / 1000)

/-- `time.Parse` with the layout of `microTime`. -/
def TimeText.parse : TimeText → Option ℤ
  | .micro t => some (t * 1000)
  | .unreadable _ => none

/-! ### The lease -/

structure LeaseSpec where
  holderIdentity : Option String
  leaseDurationSeconds : Option ℤ
  acquireTime : Option TimeText
  renewTime : Option TimeText
  leaseTransitions : Option ℤ
deriving DecidableEq, Repr

/-- A lease as the API server sends it. -/
structure Lease where
  resourceVersion : ℕ
  spec : LeaseSpec
deriving DecidableEq, Repr

def leaseExpired (l : LeaseSpec) (now : ℤ) : Bool :=
  match l.renewTime, l.leaseDurationSeconds with
  | some rt, some d =>
      match rt.parse with
      | some rt => decide (rt + d * second < now)
      | none => true
  | _, _ => true

/-- The lease of `createLease`. -/
def newLease (podName : String) (durationSeconds now : ℤ) : LeaseSpec where
  holderIdentity := some podName
  leaseDurationSeconds := some durationSeconds
  acquireTime := some (microTime now)
  renewTime := some (microTime now)
  leaseTransitions := some 0

namespace LeaseSpec

/-- The lease that its holder writes to renew it. -/
def renewed (now : ℤ) (l : LeaseSpec) : LeaseSpec :=
  { l with
    renewTime := some (microTime now)
    leaseDurationSeconds := some (l.leaseDurationSeconds.getD leaseSeconds) }

/-- The lease that a pod writes to take it over. -/
def takenOver (podName : String) (now : ℤ) (l : LeaseSpec) : LeaseSpec where
  holderIdentity := some podName
  leaseDurationSeconds := some leaseSeconds
  acquireTime := some (microTime now)
  renewTime := some (microTime now)
  leaseTransitions := some (int32 (l.leaseTransitions.getD 0 + 1))

/-- The lease that its holder writes to give it up. -/
def released (l : LeaseSpec) : LeaseSpec :=
  { l with holderIdentity := some "", renewTime := some (microTime 0) }

end LeaseSpec

/-! ### The code of a pod -/

/-- Answers to `getLease`. -/
inductive GetAnswer
  | found (l : Lease)
  | notFound
  | failed

/-- Answers to `createLease` and `updateLease`. -/
inductive WriteAnswer
  | accepted
  | conflict
  | failed
deriving DecidableEq

/-- What the code asks: the API server, the clock, and the variables `isLeader` and `lastRenew`. -/
inductive Query
  | getLease
  | createLease (durationSeconds now : ℤ)
  | updateLease (l : Lease)
  | setLeaderLabel (leader : Bool)
  | now
  | loadLeader
  | storeLeader (leader : Bool)
  | loadLastRenew
  | storeLastRenew (t : ℤ)

@[reducible] def Answer : Query → Type
  | .getLease => GetAnswer
  | .createLease _ _ => WriteAnswer
  | .updateLease _ => WriteAnswer
  | .setLeaderLabel _ => Bool
  | .now => ℤ
  | .loadLeader => Bool
  | .storeLeader _ => Unit
  | .loadLastRenew => ℤ
  | .storeLastRenew _ => Unit

/-- Code of a pod. -/
abbrev Code (α : Type) := Dialog Query Answer α

def ask (q : Query) : Code (Answer q) := Dialog.query q

def getLease : Code GetAnswer := ask .getLease

def createLease (durationSeconds now : ℤ) : Code WriteAnswer :=
  ask (.createLease durationSeconds now)

def updateLease (l : Lease) : Code WriteAnswer := ask (.updateLease l)

def setLeaderLabel (leader : Bool) : Code Bool := ask (.setLeaderLabel leader)

def now : Code ℤ := ask .now

/-- How `attempt` answers after a write: acquired, not acquired, or a transient failure. -/
def WriteAnswer.outcome : WriteAnswer → Except Unit Bool
  | .accepted => .ok true
  | .conflict => .ok false
  | .failed => .error ()

/-- `attempt`: `.ok true` if the lease was acquired, renewed or taken over, `.ok false` if there is
another valid holder, and an error after a transient failure. -/
def attempt (podName : String) : Code (Except Unit Bool) := do
  match ← getLease with
  | .failed => pure (.error ())
  | .notFound => do
      let t ← now
      let answer ← createLease leaseSeconds t
      pure answer.outcome
  | .found l => do
      let t ← now
      if l.spec.holderIdentity.getD "" = podName then do
        let answer ← updateLease { l with spec := l.spec.renewed t }
        pure answer.outcome
      else if !leaseExpired l.spec t then pure (.ok false)
      else do
        let answer ← updateLease { l with spec := l.spec.takenOver podName t }
        pure answer.outcome

/-- What `tick` does after a failed attempt of the leader. -/
def loseLease (failed : Bool) (t : ℤ) : Code Unit := do
  let lastRenew ← ask .loadLastRenew
  if failed && decide (t - lastRenew < renewDeadline) then pure ()
  else do
    ask (.storeLeader false)
    let _ ← setLeaderLabel false
    pure ()

/-- What `tick` does after its attempt. -/
def settle (wasLeader : Bool) (attempted : Except Unit Bool) : Code Unit := do
  let t ← now
  match attempted with
  | .ok true => do
      ask (.storeLastRenew t)
      if wasLeader then pure ()
      else do
        ask (.storeLeader true)
        let _ ← setLeaderLabel true
        pure ()
  | .ok false => if wasLeader then loseLease false t else pure ()
  | .error _ => if wasLeader then loseLease true t else pure ()

def tick (podName : String) : Code Unit := do
  let wasLeader ← ask .loadLeader
  let attempted ← attempt podName
  settle wasLeader attempted

/-- The part of `surrender` that gives up the lease. -/
def releaseLease (podName : String) : Code Unit := do
  match ← getLease with
  | .found l =>
      if l.spec.holderIdentity = some podName then do
        let _ ← updateLease { l with spec := l.spec.released }
        pure ()
      else pure ()
  | .notFound => pure ()
  | .failed => pure ()

def surrender (podName : String) : Code Unit := do
  releaseLease podName
  let _ ← setLeaderLabel false
  ask (.storeLeader false)

/-- The end of `Stop`, when the loop has ended. -/
def stop (podName : String) : Code Unit := do
  if ← ask .loadLeader then surrender podName else pure ()

/-- What a pod runs. -/
inductive Command
  | tick
  | stop
deriving DecidableEq

def Command.code (podName : String) : Command → Code Unit
  | .tick => Leader.tick podName
  | .stop => Leader.stop podName

/-! ### The cluster -/

/-- The pods of a deployment: their names are not empty and differ. -/
structure Pods (ι : Type) where
  name : ι → String
  name_ne : ∀ i, name i ≠ ""
  injective : Function.Injective name

variable {ι : Type}

/-- A lease that was in force, with the pod that wrote it. -/
structure Entry (ι : Type) where
  writer : Option ι
  spec : LeaseSpec

/-- The state of the cluster: all leases that were in force so far, the last of them being the one
in force, the labels of the pods and their variables.  The clock readings of a pod, when it began
what it runs and what that is, are recorded for the proofs only. -/
structure Cluster (ι : Type) where
  history : List (Entry ι)
  label : ι → Bool
  isLeader : ι → Bool
  lastRenew : ι → ℤ
  clock : ℤ
  readings : ι → List ℤ
  started : ι → ℤ
  running : ι → Command

namespace Cluster

/-- A lease comes into force. -/
def write (i : ι) (spec : LeaseSpec) (e : Cluster ι) : Cluster ι :=
  { e with history := e.history ++ [⟨some i, spec⟩] }

variable [DecidableEq ι] (pods : Pods ι)

/-- What the API server, the clock and the variables of a pod answer. -/
def exec (i : ι) : (q : Query) → Cluster ι → Answer q × Cluster ι
  | .getLease, e =>
      match e.history.getLast? with
      | some entry => (.found ⟨e.history.length - 1, entry.spec⟩, e)
      | none => (.notFound, e)
  | .createLease durationSeconds t, e =>
      if e.history = [] then (.accepted, e.write i (newLease (pods.name i) durationSeconds t))
      else (.conflict, e)
  | .updateLease l, e =>
      if e.history = [] then (.failed, e)
      else if l.resourceVersion + 1 = e.history.length then (.accepted, e.write i l.spec)
      else (.conflict, e)
  | .setLeaderLabel leader, e => (true, { e with label := Function.update e.label i leader })
  | .now, e => (e.clock, { e with readings := Function.update e.readings i (e.clock :: e.readings i) })
  | .loadLeader, e => (e.isLeader i, e)
  | .storeLeader leader, e => ((), { e with isLeader := Function.update e.isLeader i leader })
  | .loadLastRenew, e => (e.lastRenew i, e)
  | .storeLastRenew t, e => ((), { e with lastRenew := Function.update e.lastRenew i t })

end Cluster

/-- Requests to the API server. -/
def Query.remote : Query → Bool
  | .getLease => true
  | .createLease _ _ => true
  | .updateLease _ => true
  | .setLeaderLabel _ => true
  | _ => false

/-- The answer to a request that was lost. -/
def Query.failed : (q : Query) → Answer q
  | .getLease => .failed
  | .createLease _ _ => .failed
  | .updateLease _ => .failed
  | .setLeaderLabel _ => false
  | .now => (0 : ℤ)
  | .loadLeader => false
  | .storeLeader _ => ()
  | .loadLastRenew => (0 : ℤ)
  | .storeLastRenew _ => ()

/-- The cluster as a service to its pods. -/
def kubernetes [DecidableEq ι] (pods : Pods ι) : Service ι Command Query (Cluster ι) Answer where
  remote := Query.remote
  failed := Query.failed
  exec := Cluster.exec pods
  begin i c e := { e with
    started := Function.update e.started i e.clock
    running := Function.update e.running i c }
  crash i e := { e with
    isLeader := Function.update e.isLeader i false
    lastRenew := Function.update e.lastRenew i 0 }
  code i c := c.code (pods.name i)

/-- Pods and network. -/
abbrev Net (ι : Type) := Concurrent.Net ι Query (Cluster ι) Answer

/-- All pods idle, with the lease `l` in force, if any. -/
def start (l : Option LeaseSpec) : Net ι where
  env := {
    history := l.toList.map fun spec => ⟨none, spec⟩
    label := fun _ => false
    isLeader := fun _ => false
    lastRenew := fun _ => 0
    clock := 0
    readings := fun _ => []
    started := fun _ => 0
    running := fun _ => .tick }
  flying := []
  task := fun _ => none

/-- An event with the time that clocks show at it: the reading of the pod that reads its clock. -/
def stepAt [DecidableEq ι] (pods : Pods ι) (t : ℤ) (event : NetEvent ι Command) (s : Net ι) : Net ι :=
  (kubernetes pods).step event { s with env := { s.env with clock := t } }

/-- A sequence of events. -/
def run [DecidableEq ι] (pods : Pods ι) (events : List (ℤ × NetEvent ι Command)) (s : Net ι) : Net ι :=
  events.foldl (fun s event => stepAt pods event.1 event.2 s) s

end Postkeys.Leader
