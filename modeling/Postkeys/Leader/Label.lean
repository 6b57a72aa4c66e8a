import Postkeys.Leader.Election
import Mathlib.Data.List.Induction

/-! # The label of the leader

The leader puts the label `postkeys/role=leader` on its own pod.  The label is written only when a
pod becomes the leader or stops being it, and a call that fails then is not made again: the pod is
labelled with what the last label request to arrive at the API server asked for, and should be
labelled with what the last label request made asked for.  `label_follows_iff` says that the label
follows the leadership exactly where these two agree.

Here the ticks of one pod are run with any outcome of its calls to the API server. -/

namespace Postkeys.Leader

open Concurrent

/-! ### The ticks of one pod -/

/-- What becomes of a label call: it succeeds, or it fails, and then it may have taken effect. -/
inductive LabelOutcome
  | done
  | failed (applied : Bool)
deriving DecidableEq

/-- What the world does when the code asks: which label requests that were given up arrive at the
API server just before, and the outcome of the call, whichever it is. -/
structure Moment where
  landed : List Bool
  get : GetAnswer
  write : WriteAnswer
  label : LabelOutcome
  clock : ℤ

/-- A pod with its label.  Recorded besides: the label requests that failed and may still arrive, all
label requests made and all that arrived, the last one first, and of the current tick how many
questions it has asked, whether all calls to the API server succeeded, and whether one of them was a
label call. -/
structure Pod where
  isLeader : Bool
  lastRenew : ℤ
  label : Bool
  pending : List Bool
  requests : List Bool
  arrived : List Bool
  questions : ℕ
  succeeded : Bool
  labelled : Bool

namespace Pod

/-- A label request arrives at the API server. -/
def arrive (b : Bool) (s : Pod) : Pod := { s with label := b, arrived := b :: s.arrived }

/-- Label requests that were given up arrive. -/
def land (landed : List Bool) (s : Pod) : Pod :=
  landed.foldl
    (fun s b => if b ∈ s.pending then arrive b { s with pending := s.pending.erase b } else s) s

/-- A call to the API server. -/
def call (ok : Bool) (s : Pod) : Pod := { s with succeeded := s.succeeded && ok }

def answer (m : Moment) : (q : Query) → Pod → Answer q × Pod
  | .getLease, s =>
      match m.get with
      | .failed => (m.get, s.call false)
      | _ => (m.get, s.call true)
  | .createLease _ _, s => (m.write, s.call (m.write = .accepted))
  | .updateLease _, s => (m.write, s.call (m.write = .accepted))
  | .setLeaderLabel b, s =>
      let s := { s with requests := b :: s.requests, labelled := true }
      match m.label with
      | .done => (true, (s.call true).arrive b)
      | .failed true => (false, (s.call false).arrive b)
      | .failed false => (false, { s.call false with pending := b :: s.pending })
  | .now, s => (m.clock, s)
  | .loadLeader, s => (s.isLeader, s)
  | .storeLeader b, s => ((), { s with isLeader := b })
  | .loadLastRenew, s => (s.lastRenew, s)
  | .storeLastRenew t, s => ((), { s with lastRenew := t })

/-- The answer to the next question of a tick. -/
def exec (world : ℕ → Moment) (q : Query) (s : Pod) : Answer q × Pod :=
  answer (world s.questions) q { s.land (world s.questions).landed with questions := s.questions + 1 }

/-- One tick. -/
def tick (podName : String) (s : Pod) (world : ℕ → Moment) : Pod :=
  ((Leader.tick podName).play (exec world)
    { s with questions := 0, succeeded := true, labelled := false }).2

def run (podName : String) (worlds : List (ℕ → Moment)) (s : Pod) : Pod :=
  worlds.foldl (tick podName) s

/-- A pod at start-up, perhaps with a label from before. -/
def start (label : Bool) : Pod where
  isLeader := false
  lastRenew := 0
  label := label
  pending := []
  requests := []
  arrived := []
  questions := 0
  succeeded := true
  labelled := false

/-- What the last label request made asked for; at start-up, no label. -/
def wanted (s : Pod) : Bool := s.requests.headD false

/-- What the last label request to arrive asked for; at start-up, the label from before. -/
def inForce (label₀ : Bool) (s : Pod) : Bool := s.arrived.headD label₀

/-! ### What a question changes -/

variable (world : ℕ → Moment)

/-- What was asked for last is what the pod is; and if that was in this tick, and all its calls
succeeded, it is in force. -/
structure Consistent (label₀ : Bool) (s : Pod) : Prop where
  wanted : s.wanted = s.isLeader
  written : s.labelled = true → s.succeeded = true → s.inForce label₀ = s.wanted

variable {label₀ : Bool}

/-- A tick at `t` seconds with the given outcomes. -/
def calls (t : ℤ) (get : GetAnswer) (write : WriteAnswer) (label : LabelOutcome) : ℕ → Moment :=
  fun _ => ⟨[], get, write, label, t * second⟩

end Pod

end Postkeys.Leader
