import Postkeys.Concurrent.Processes
import Postkeys.Connection

/-! # The bookkeeping of the hub

The calls of the hub lock one registry each, so a command of a client is a script of atomic calls
and the commands of all clients interleave.  A client only touches its own subscriptions
(`HubCall.act_private`), and every call keeps the two maps of a registry converse to each other
(`Registry.Consistent`).  So after any schedule the maps agree, and each client has been answered as
if it were alone, with the number of its subscriptions after every name (`hub_bookkeeping`). -/

namespace Postkeys

open Relational Concurrent

/-! ### One registry -/

/-- The subscriptions of a client, if the registry knows it. -/
abbrev Subs := Option (Finset Bytes)

/-- The subscriptions with one more name. -/
def Subs.add (name : Bytes) (row : Subs) : Subs := some (insert name (row.getD ∅))

/-- The subscriptions with one name less; a client without any is forgotten. -/
def Subs.drop (name : Bytes) (row : Subs) : Subs :=
  row.bind fun own => if own.erase name = ∅ then none else some (own.erase name)

/-- Go through names; the number of subscriptions after each. -/
def Subs.steps (f : Bytes → Subs → Subs) : List Bytes → Subs → List ℕ × Subs
  | [], row => ([], row)
  | name :: names, row =>
      let rest := Subs.steps f names (f name row)
      (((f name row).getD ∅).card :: rest.1, rest.2)

/-- The names of a row in the order in which the map yields them. -/
def Subs.listed (order : List ℕ) : Subs → List Bytes
  | none => []
  | some own => Table.shuffle order (Table.ascending own)

namespace Registry

variable {r : Registry} {id : ℕ} {name : Bytes}

/-- The two maps of a registry are converse to each other, and no name is kept without
subscribers. -/
structure Consistent (r : Registry) : Prop where
  converse : ∀ id name, id ∈ (r.subscriptions.row name).getD ∅ ↔ name ∈ (r.subscribers.row id).getD ∅
  nonempty : ∀ name ids, r.subscriptions.row name = some ids → ids.Nonempty

/-- Subscribe to one name. -/
def add (id : ℕ) (name : Bytes) (r : Registry) : Registry :=
  ⟨r.subscriptions.put name (insert id ((r.subscriptions.row name).getD ∅)),
    r.subscribers.put id (insert name ((r.subscribers.row id).getD ∅))⟩

theorem add_row (id' : ℕ) : (r.add id name).subscribers.row id' =
    if id' = id then Subs.add name (r.subscribers.row id) else r.subscribers.row id' := rfl

theorem Consistent.add (h : r.Consistent) : (r.add id name).Consistent where
  converse id' name' := by
    simp only [Registry.add, Table.put_row]
    have hconverse := h.converse id' name'
    by_cases hid : id' = id <;> by_cases hname : name' = name
    · simp [hid, hname]
    · subst hid
      simp [hname, hconverse]
    · subst hname
      simp [hid, hconverse]
    · simp [hid, hname, hconverse]
  nonempty name' ids hids := by
    simp only [Registry.add, Table.put_row] at hids
    split at hids
    · cases hids
      exact Finset.insert_nonempty _ _
    · exact h.nonempty name' ids hids

/-- The client's row after one name is taken from it. -/
def dropRow (id : ℕ) (name : Bytes) (subscribers : Table ℕ (Finset Bytes)) : Table ℕ (Finset Bytes) :=
  match subscribers.row id with
  | none => subscribers
  | some own =>
      if own.erase name = ∅ then subscribers.restrict fun i _ => decide (i ≠ id)
      else subscribers.put id (own.erase name)

/-- Unsubscribe from one name. -/
def drop (id : ℕ) (name : Bytes) (r : Registry) : Registry :=
  ⟨leaveName id name r.subscriptions, dropRow id name r.subscribers⟩

theorem drop_row (id' : ℕ) : (r.drop id name).subscribers.row id' =
    if id' = id then Subs.drop name (r.subscribers.row id) else r.subscribers.row id' := by
  simp only [drop, dropRow, Subs.drop]
  by_cases hid : id' = id
  · subst hid
    cases hrow : r.subscribers.row id' with
    | none => simp [hrow]
    | some own =>
        by_cases hempty : own.erase name = ∅ <;> simp [hempty, Table.restrict_row, hrow]
  · cases hrow : r.subscribers.row id with
    | none => simp [hid]
    | some own =>
        by_cases hempty : own.erase name = ∅ <;>
          simp [hempty, hid, Table.restrict_row, Table.put_row]

theorem leaveName_row (subscriptions : Table Bytes (Finset ℕ)) (name' : Bytes) :
    (leaveName id name subscriptions).row name' =
      if name' = name then
        (subscriptions.row name).bind fun ids => if ids.erase id = ∅ then none else some (ids.erase id)
      else subscriptions.row name' := by
  unfold leaveName
  by_cases hname : name' = name
  · subst hname
    cases hrow : subscriptions.row name' with
    | none => simp [hrow]
    | some ids => by_cases hempty : ids.erase id = ∅ <;> simp [hempty, Table.restrict_row, hrow]
  · cases hrow : subscriptions.row name with
    | none => simp [hname]
    | some ids =>
        by_cases hempty : ids.erase id = ∅ <;>
          simp [hempty, hname, Table.restrict_row, Table.put_row]

theorem getD_bind_erase {α : Type} [DecidableEq α] (row : Option (Finset α)) (a : α) :
    (row.bind fun s => if s.erase a = ∅ then none else some (s.erase a)).getD ∅ =
      (row.getD ∅).erase a := by
  cases row with
  | none => rfl
  | some s => by_cases hs : s.erase a = ∅ <;> simp [hs]

theorem Consistent.drop (h : r.Consistent) : (r.drop id name).Consistent where
  converse id' name' := by
    have hconverse := h.converse id' name'
    rw [drop_row, Registry.drop, leaveName_row]
    by_cases hid : id' = id <;> by_cases hname : name' = name
    · simp [hid, hname, Subs.drop, getD_bind_erase]
    · subst hid
      simp [hname, Subs.drop, getD_bind_erase, hconverse]
    · subst hname
      simp [hid, getD_bind_erase, hconverse]
    · simp [hid, hname, hconverse]
  nonempty name' ids hids := by
    simp only [Registry.drop, leaveName_row] at hids
    split at hids
    · obtain ⟨old, -, hold⟩ := Option.bind_eq_some_iff.mp hids
      split at hold
      · cases hold
      · cases hold
        exact Finset.nonempty_iff_ne_empty.mpr ‹_›
    · exact h.nonempty name' ids hids

/-! ### Calls -/

theorem subscribeLoop_spec (id : ℕ) (names : List Bytes) (r : Registry) :
    (subscribeLoop id names r).2 = (Subs.steps Subs.add names (r.subscribers.row id)).1 ∧
    (∀ id', (subscribeLoop id names r).1.subscribers.row id' =
      if id' = id then (Subs.steps Subs.add names (r.subscribers.row id)).2
      else r.subscribers.row id') ∧
    (r.Consistent → (subscribeLoop id names r).1.Consistent) := by
  induction names generalizing r with
  | nil => exact ⟨rfl, fun id' => by split <;> simp_all [subscribeLoop, Subs.steps], fun h => h⟩
  | cons name names ih =>
      obtain ⟨hcounts, hrows, hconsistent⟩ := ih (r.add id name)
      rw [add_row, if_pos rfl] at hcounts
      refine ⟨congrArg _ hcounts, fun id' => ?_, fun h => hconsistent h.add⟩
      have hrow := hrows id'
      rw [add_row, if_pos rfl, add_row] at hrow
      refine hrow.trans ?_
      split <;> simp_all [Subs.steps]

theorem unsubscribeLoop_cons (id : ℕ) (name : Bytes) (names : List Bytes) (r : Registry) :
    unsubscribeLoop id (name :: names) r =
      ((unsubscribeLoop id names (r.drop id name)).1,
        ((Subs.drop name (r.subscribers.row id)).getD ∅).card ::
          (unsubscribeLoop id names (r.drop id name)).2) := by
  rw [unsubscribeLoop, drop, dropRow, Subs.drop, getD_bind_erase]
  cases hrow : r.subscribers.row id <;> simp

theorem unsubscribeLoop_spec (id : ℕ) (names : List Bytes) (r : Registry) :
    (unsubscribeLoop id names r).2 = (Subs.steps Subs.drop names (r.subscribers.row id)).1 ∧
    (∀ id', (unsubscribeLoop id names r).1.subscribers.row id' =
      if id' = id then (Subs.steps Subs.drop names (r.subscribers.row id)).2
      else r.subscribers.row id') ∧
    (r.Consistent → (unsubscribeLoop id names r).1.Consistent) := by
  induction names generalizing r with
  | nil => exact ⟨rfl, fun id' => by split <;> simp_all [unsubscribeLoop, Subs.steps], fun h => h⟩
  | cons name names ih =>
      obtain ⟨hcounts, hrows, hconsistent⟩ := ih (r.drop id name)
      rw [drop_row, if_pos rfl] at hcounts
      rw [unsubscribeLoop_cons]
      refine ⟨congrArg _ hcounts, fun id' => ?_, fun h => hconsistent h.drop⟩
      have hrow := hrows id'
      rw [drop_row, if_pos rfl, drop_row] at hrow
      refine hrow.trans ?_
      split <;> simp_all [Subs.steps]

/-- The client's row after `Subscribe`: known from now on, also without names. -/
theorem subscribe_spec (id : ℕ) (names : List Bytes) (r : Registry) :
    (r.subscribe id names).2 = (Subs.steps Subs.add names (some ((r.subscribers.row id).getD ∅))).1 ∧
    (∀ id', (r.subscribe id names).1.subscribers.row id' =
      if id' = id then (Subs.steps Subs.add names (some ((r.subscribers.row id).getD ∅))).2
      else r.subscribers.row id') ∧
    (r.Consistent → (r.subscribe id names).1.Consistent) := by
  unfold subscribe
  cases hrow : r.subscribers.row id with
  | some own =>
      have hspec := subscribeLoop_spec id names r
      rw [hrow] at hspec
      exact hspec
  | none =>
      obtain ⟨hcounts, hrows, hconsistent⟩ :=
        subscribeLoop_spec id names { r with subscribers := r.subscribers.put id ∅ }
      simp only [Table.put_row_self] at hcounts hrows
      refine ⟨hcounts, fun id' => ?_, fun h => hconsistent ⟨fun id' name => ?_, h.nonempty⟩⟩
      · rw [hrows id', Table.put_row]
        split <;> rfl
      · rw [h.converse id' name, Table.put_row]
        by_cases hid : id' = id
        · simp [hid, hrow]
        · simp [hid]

theorem subscribed_eq (order : List ℕ) (id : ℕ) (r : Registry) :
    r.subscribed order id = Subs.listed order (r.subscribers.row id) := by
  unfold subscribed Subs.listed
  cases r.subscribers.row id <;> rfl

theorem removeSubscriber_row (id id' : ℕ) (r : Registry) :
    (r.removeSubscriber id).subscribers.row id' = if id' = id then none else r.subscribers.row id' := by
  unfold removeSubscriber
  cases hrow : r.subscribers.row id with
  | none =>
      by_cases hid : id' = id
      · simp [hid, hrow]
      · simp [hid]
  | some own => by_cases hid : id' = id <;> simp [hid, Table.restrict_row]

theorem Consistent.removeSubscriber (h : r.Consistent) : (r.removeSubscriber id).Consistent := by
  have hrows := fun id' => removeSubscriber_row id id' r
  cases hrow : r.subscribers.row id with
  | none => simpa [Registry.removeSubscriber, hrow] using h
  | some own =>
      have hnames (name : Bytes) : (r.removeSubscriber id).subscriptions.row name =
          (r.subscriptions.row name).bind fun ids =>
            if name ∈ own then (if ids.erase id = ∅ then none else some (ids.erase id)) else some ids := by
        simp [Registry.removeSubscriber, hrow]
      have hids (name : Bytes) : ((r.removeSubscriber id).subscriptions.row name).getD ∅ =
          ((r.subscriptions.row name).getD ∅).erase id := by
        rw [hnames]
        by_cases hown : name ∈ own
        · simp only [hown, if_true, getD_bind_erase]
        · have hnot : id ∉ (r.subscriptions.row name).getD ∅ := by simp [h.converse, hrow, hown]
          rw [Finset.erase_eq_of_notMem hnot]
          cases r.subscriptions.row name <;> simp [hown]
      refine ⟨fun id' name => ?_, fun name ids heq => ?_⟩
      · rw [hids, hrows]
        by_cases hid : id' = id
        · simp [hid]
        · simp [hid, h.converse]
      · rw [hnames] at heq
        obtain ⟨old, hold, heq⟩ := Option.bind_eq_some_iff.mp heq
        split at heq
        · split at heq
          · cases heq
          · cases heq
            exact Finset.nonempty_iff_ne_empty.mpr ‹_›
        · cases heq
          exact h.nonempty name ids hold

end Registry

/-! ### The calls of the hub -/

/-- The two kinds of subscriptions. -/
inductive Topic
  | channel
  | pattern
deriving DecidableEq

namespace Hub

def registry : Topic → Hub → Registry
  | .channel, h => h.channels
  | .pattern, h => h.patterns

def setRegistry : Topic → Registry → Hub → Hub
  | .channel, r, h => { h with channels := r }
  | .pattern, r, h => { h with patterns := r }

theorem registry_setRegistry (t t' : Topic) (r : Registry) (h : Hub) :
    (h.setRegistry t r).registry t' = if t' = t then r else h.registry t' := by
  cases t <;> cases t' <;> rfl

/-- A hub without subscriptions. -/
def empty : Hub := ⟨⟨∅, ∅⟩, ⟨∅, ∅⟩⟩

/-- Both registries are consistent. -/
def Consistent (h : Hub) : Prop := ∀ t, (h.registry t).Consistent

theorem consistent_empty : empty.Consistent := by
  intro t
  cases t <;> exact ⟨fun id name => by simp [empty, registry], fun name ids hids => by cases hids⟩

theorem Consistent.setRegistry {h : Hub} (hc : h.Consistent) {t : Topic} {r : Registry}
    (hr : r.Consistent) : (h.setRegistry t r).Consistent := by
  intro t'
  rw [registry_setRegistry]
  split
  · exact hr
  · exact hc t'

/-- The subscriptions of a client. -/
def subsOf (id : ℕ) (h : Hub) (t : Topic) : Subs := (h.registry t).subscribers.row id

theorem subsOf_empty (id : ℕ) : empty.subsOf id = fun _ => none := by
  funext t
  cases t <;> rfl

theorem subsOf_setRegistry (id : ℕ) (t : Topic) (r : Registry) (h : Hub) :
    (h.setRegistry t r).subsOf id = Function.update (h.subsOf id) t (r.subscribers.row id) := by
  funext t'
  rw [subsOf, registry_setRegistry, Function.update_apply]
  split <;> rfl

end Hub

/-- The calls of the hub, each under the lock of one registry; `GetSubscriptionCount` and
`RemoveSubscriber` make two of them. -/
inductive HubCall
  | subscribe (t : Topic) (names : List Bytes)
  | unsubscribe (t : Topic) (order : List ℕ) (names : List Bytes)
  | count (t : Topic)
  | subscribed (t : Topic) (order : List ℕ)
  | remove (t : Topic)

/-- What a call answers: counts or names. -/
structure HubAnswer where
  counts : List ℕ
  names : List Bytes

namespace HubCall

/-- A call by a client. -/
def act (id : ℕ) : HubCall → Hub → HubAnswer × Hub
  | .subscribe t names, h =>
      let r := (h.registry t).subscribe id names
      (⟨r.2, []⟩, h.setRegistry t r.1)
  | .unsubscribe t order names, h =>
      let r := (h.registry t).unsubscribe order id names
      (⟨r.2, []⟩, h.setRegistry t r.1)
  | .count t, h => (⟨[(h.registry t).subscriptionCount id], []⟩, h)
  | .subscribed t order, h => (⟨[], (h.registry t).subscribed order id⟩, h)
  | .remove t, h => (⟨[], []⟩, h.setRegistry t ((h.registry t).removeSubscriber id))

/-- What a call does to the subscriptions of its client. -/
def alone : HubCall → (Topic → Subs) → HubAnswer × (Topic → Subs)
  | .subscribe t names, v =>
      let r := Subs.steps Subs.add names (some ((v t).getD ∅))
      (⟨r.1, []⟩, Function.update v t r.2)
  | .unsubscribe t order names, v =>
      let r := Subs.steps Subs.drop (if names = [] then Subs.listed order (v t) else names) (v t)
      (⟨r.1, []⟩, Function.update v t r.2)
  | .count t, v => (⟨[((v t).getD ∅).card], []⟩, v)
  | .subscribed t order, v => (⟨[], Subs.listed order (v t)⟩, v)
  | .remove t, v => (⟨[], []⟩, Function.update v t none)

theorem act_consistent (id : ℕ) (c : HubCall) (h : Hub) (hc : h.Consistent) :
    (c.act id h).2.Consistent := by
  cases c with
  | subscribe t names => exact hc.setRegistry ((Registry.subscribe_spec id names _).2.2 (hc t))
  | unsubscribe t order names =>
      exact hc.setRegistry ((Registry.unsubscribeLoop_spec id _ _).2.2 (hc t))
  | count t => exact hc
  | subscribed t order => exact hc
  | remove t => exact hc.setRegistry (hc t).removeSubscriber

/-- A call reads and writes the subscriptions of its client only. -/
theorem act_private : Private act Hub.subsOf alone := by
  refine ⟨fun id c h => ?_, fun id c h => ?_, fun id id' c h hne => ?_⟩
  · cases c with
    | subscribe t names => exact congrArg (HubAnswer.mk · []) (Registry.subscribe_spec id names _).1
    | unsubscribe t order names =>
        refine congrArg (HubAnswer.mk · []) ?_
        rw [Registry.unsubscribe, (Registry.unsubscribeLoop_spec id _ _).1, Registry.subscribed_eq]
        rfl
    | count t => rfl
    | subscribed t order => exact congrArg (HubAnswer.mk []) (Registry.subscribed_eq order id _)
    | remove t => rfl
  · cases c with
    | subscribe t names =>
        rw [act, Hub.subsOf_setRegistry, (Registry.subscribe_spec id names _).2.1, if_pos rfl]
        rfl
    | unsubscribe t order names =>
        rw [act, Hub.subsOf_setRegistry, Registry.unsubscribe,
          (Registry.unsubscribeLoop_spec id _ _).2.1, if_pos rfl, Registry.subscribed_eq]
        rfl
    | count t => rfl
    | subscribed t order => rfl
    | remove t => rw [act, Hub.subsOf_setRegistry, Registry.removeSubscriber_row, if_pos rfl]; rfl
  · have hsame (t : Topic) {r : Registry} (hr : r.subscribers.row id' = h.subsOf id' t) :
        (h.setRegistry t r).subsOf id' = h.subsOf id' := by
      rw [Hub.subsOf_setRegistry, hr, Function.update_eq_self]
    cases c with
    | subscribe t names =>
        exact hsame t (((Registry.subscribe_spec id names _).2.1 id').trans (if_neg hne))
    | unsubscribe t order names =>
        exact hsame t (((Registry.unsubscribeLoop_spec id _ _).2.1 id').trans (if_neg hne))
    | count t => rfl
    | subscribed t order => rfl
    | remove t => exact hsame t ((Registry.removeSubscriber_row id id' _).trans (if_neg hne))

end HubCall

/-! ### The commands of a client -/

/-- The commands that change subscriptions, `RemoveSubscriber`, and single calls of the hub. -/
inductive HubCommand
  | subscribe (t : Topic) (names : List Bytes)
  | unsubscribe (t : Topic) (order : List ℕ) (names : List Bytes)
  | removeSubscriber
  | call (c : HubCall)

/-- The word in the replies to a subscription. -/
def Topic.subscribeWord : Topic → String
  | .channel => "subscribe"
  | .pattern => "psubscribe"

def Topic.unsubscribeWord : Topic → String
  | .channel => "unsubscribe"
  | .pattern => "punsubscribe"

/-- Of the two counts of `GetSubscriptionCount` the one of the other kind. -/
def Topic.other : Topic → HubAnswer → HubAnswer → ℕ
  | .channel, _, patterns => patterns.counts.sum
  | .pattern, channels, _ => channels.counts.sum

namespace HubCommand

/-- The second part of `HandleUnsubscribe` and `HandlePUnsubscribe`. -/
def unsubscribeNames (t : Topic) (order : List ℕ) (names : List Bytes) :
    Script HubCall HubAnswer (List Value) :=
  .act (.unsubscribe t order names) fun r =>
    .act (.count .channel) fun channels => .act (.count .pattern) fun patterns =>
      .ret (if names = [] then
          [buildSubscriptionResponse t.unsubscribeWord [] (t.other channels patterns)]
        else Server.subscriptionResponses t.unsubscribeWord names r.counts (t.other channels patterns))

/-- The calls of a command, and its replies. -/
def code : HubCommand → Script HubCall HubAnswer (List Value)
  | .subscribe t names =>
      if names = [] then .ret [.errWrongArgs t.subscribeWord]
      else .act (.subscribe t names) fun r =>
        .act (.count .channel) fun channels => .act (.count .pattern) fun patterns =>
          .ret (Server.subscriptionResponses t.subscribeWord names r.counts (t.other channels patterns))
  | .unsubscribe t order names =>
      if names = [] then .act (.subscribed t order) fun r => unsubscribeNames t order r.names
      else unsubscribeNames t order names
  | .removeSubscriber => .act (.remove .channel) fun _ => .act (.remove .pattern) fun _ => .ret []
  | .call c => .act c fun _ => .ret []

/-! ### The scripts are the handlers -/

/-! ### What the commands answer -/

/-- The number of subscriptions of a client, channels and patterns together. -/
def total (v : Topic → Subs) : ℕ := ((v .channel).getD ∅).card + ((v .pattern).getD ∅).card

/-- Go through names, one step for each; the replies carry the number of subscriptions after the
step. -/
def stepReplies (word : String) (f : Bytes → (Topic → Subs) → Topic → Subs) :
    List Bytes → (Topic → Subs) → List Value × (Topic → Subs)
  | [], v => ([], v)
  | name :: names, v =>
      let rest := stepReplies word f names (f name v)
      (buildSubscriptionResponse word name (total (f name v)) :: rest.1, rest.2)

/-- Change the subscriptions of one kind. -/
def atTopic (t : Topic) (f : Bytes → Subs → Subs) (name : Bytes) (v : Topic → Subs) : Topic → Subs :=
  Function.update v t (f name (v t))

/-- What a command does to a client's subscriptions and answers, name by name. -/
def spec : HubCommand → (Topic → Subs) → List Value × (Topic → Subs)
  | .subscribe t names, v =>
      if names = [] then ([.errWrongArgs t.subscribeWord], v)
      else stepReplies t.subscribeWord (atTopic t Subs.add) names v
  | .unsubscribe t order names, v =>
      let names := if names = [] then Subs.listed order (v t) else names
      if names = [] then ([buildSubscriptionResponse t.unsubscribeWord [] (total v)], v)
      else stepReplies t.unsubscribeWord (atTopic t Subs.drop) names v
  | .removeSubscriber, _ => ([], fun _ => none)
  | .call c, v => ([], (c.alone v).2)

/-- The number of subscriptions of the other kind. -/
def otherCount (t : Topic) (v : Topic → Subs) : ℕ :=
  match t with
  | .channel => ((v .pattern).getD ∅).card
  | .pattern => ((v .channel).getD ∅).card

theorem total_update (t : Topic) (row : Subs) (v : Topic → Subs) :
    total (Function.update v t row) = (row.getD ∅).card + otherCount t v := by
  cases t with
  | channel => simp [total, otherCount]
  | pattern => simp [total, otherCount, Nat.add_comm]

theorem otherCount_update (t : Topic) (row : Subs) (v : Topic → Subs) :
    otherCount t (Function.update v t row) = otherCount t v := by
  cases t <;> simp [otherCount]

theorem stepReplies_atTopic (word : String) (t : Topic) (f : Bytes → Subs → Subs) (names : List Bytes)
    (v : Topic → Subs) :
    stepReplies word (atTopic t f) names v =
      (Server.subscriptionResponses word names (Subs.steps f names (v t)).1 (otherCount t v),
        Function.update v t (Subs.steps f names (v t)).2) := by
  induction names generalizing v with
  | nil => simp [stepReplies, Subs.steps, Server.subscriptionResponses]
  | cons name names ih =>
      rw [stepReplies, ih]
      simp [atTopic, Subs.steps, total_update, otherCount_update, Server.subscriptionResponses]

theorem other_counts (t : Topic) (v : Topic → Subs) :
    t.other (HubCall.alone (.count .channel) v).1 (HubCall.alone (.count .pattern) v).1 =
      otherCount t v := by
  cases t <;> simp [Topic.other, HubCall.alone, otherCount]

theorem steps_add_known (names : List Bytes) (hnames : names ≠ []) (row : Subs) :
    Subs.steps Subs.add names (some (row.getD ∅)) = Subs.steps Subs.add names row := by
  cases names with
  | nil => exact absurd rfl hnames
  | cons name names => simp [Subs.steps, Subs.add]

theorem listed_eq_nil {order : List ℕ} {row : Subs} (h : Subs.listed order row = []) :
    row.getD ∅ = ∅ := by
  cases row with
  | none => rfl
  | some own =>
      have hlength : (Table.shuffle order (Table.ascending own)).length = own.card := by
        rw [(Table.shuffle_perm order _).length_eq, Table.length_ascending]
      rw [Subs.listed] at h
      rw [h, List.length_nil] at hlength
      exact Finset.card_eq_zero.mp hlength.symm

theorem unsubscribeNames_alone (t : Topic) (order : List ℕ) (names : List Bytes) (v : Topic → Subs)
    (hlisted : names = [] → Subs.listed order (v t) = []) :
    (unsubscribeNames t order names).alone HubCall.alone v =
      if names = [] then ([buildSubscriptionResponse t.unsubscribeWord [] (total v)], v)
      else stepReplies t.unsubscribeWord (atTopic t Subs.drop) names v := by
  have hrun : (unsubscribeNames t order names).alone HubCall.alone v =
      (let w := (HubCall.alone (.unsubscribe t order names) v).2
       (if names = [] then
          [buildSubscriptionResponse t.unsubscribeWord [] (otherCount t w)]
        else Server.subscriptionResponses t.unsubscribeWord names
          (HubCall.alone (.unsubscribe t order names) v).1.counts (otherCount t w), w)) := by
    dsimp only
    rw [← other_counts]
    rfl
  rw [hrun]
  by_cases hnames : names = []
  · -- nothing is subscribed, so the other kind is all there is
    have hnone := hlisted hnames
    have hempty : ((v t).getD ∅).card = 0 := by rw [listed_eq_nil hnone, Finset.card_empty]
    have htotal : total v = otherCount t v := by
      have h := total_update t (v t) v
      rw [Function.update_eq_self] at h
      omega
    simp [hnames, HubCall.alone, hnone, Subs.steps, htotal]
  · simp [hnames, HubCall.alone, stepReplies_atTopic, otherCount_update]

/-- The scripts answer as specified. -/
theorem code_spec (c : HubCommand) (v : Topic → Subs) : (code c).alone HubCall.alone v = spec c v := by
  cases c with
  | subscribe t names =>
      by_cases hnames : names = []
      · simp [code, spec, hnames, Script.alone]
      · rw [code, if_neg hnames, spec, if_neg hnames, stepReplies_atTopic, ← steps_add_known names hnames,
          ← otherCount_update t (Subs.steps Subs.add names (some ((v t).getD ∅))).2, ← other_counts]
        rfl
  | unsubscribe t order names =>
      by_cases hnames : names = []
      · rw [code, if_pos hnames, spec, if_pos hnames]
        exact unsubscribeNames_alone t order (Subs.listed order (v t)) v id
      · rw [code, if_neg hnames, spec, if_neg hnames]
        exact unsubscribeNames_alone t order names v fun h => absurd h hnames
  | removeSubscriber =>
      refine Prod.ext rfl (funext fun t => ?_)
      cases t <;> rfl
  | call c => rfl

/-- Commands one after another. -/
def specAll : List HubCommand → (Topic → Subs) → List (List Value) × (Topic → Subs)
  | [], v => ([], v)
  | c :: cs, v => ((spec c v).1 :: (specAll cs (spec c v).2).1, (specAll cs (spec c v).2).2)

theorem runAll_spec (cs : List HubCommand) (v : Topic → Subs) :
    Script.runAll code HubCall.alone cs v = specAll cs v := by
  induction cs generalizing v with
  | nil => rfl
  | cons c cs ih => simp [Script.runAll, specAll, ih, code_spec]

theorem specAll_concat (cs : List HubCommand) (c : HubCommand) (v : Topic → Subs) :
    (specAll (cs ++ [c]) v).2 = (spec c (specAll cs v).2).2 := by
  induction cs generalizing v with
  | nil => rfl
  | cons d cs ih => exact ih _

end HubCommand

/-- Nothing of a client is left in the hub. -/
def Hub.NoTrace (id : ℕ) (h : Hub) : Prop :=
  ∀ t, (h.registry t).subscribers.row id = none ∧
    ∀ name ids, (h.registry t).subscriptions.row name = some ids → id ∉ ids

/-- The hub after a schedule of the commands of all clients. -/
def hubRun (events : List (Event ℕ HubCommand)) : Pool ℕ HubCall HubAnswer (List Value) HubCommand Hub :=
  Pool.run HubCommand.code HubCall.act events (Pool.idle Hub.empty)

/-- **The bookkeeping of the hub.**  After every schedule both registries are consistent; every
client has been answered by the number of its subscriptions after every name, and once it has no
command under way it has the subscriptions its commands leave, and no trace is left of it if the
last of them was `RemoveSubscriber`. -/
theorem hub_bookkeeping (events : List (Event ℕ HubCommand)) :
    (hubRun events).shared.channels.Consistent ∧ (hubRun events).shared.patterns.Consistent ∧
    ∀ id, (hubRun events).finished id <+:
        (HubCommand.specAll ((hubRun events).started id) fun _ => none).1 ∧
      ((hubRun events).current id = none →
        ((hubRun events).finished id, (hubRun events).shared.subsOf id) =
          HubCommand.specAll ((hubRun events).started id) (fun _ => none) ∧
        (((hubRun events).started id).getLast? = some .removeSubscriber →
          (hubRun events).shared.NoTrace id)) := by
  have hconsistent : (hubRun events).shared.Consistent :=
    Pool.run_invariant HubCommand.code HubCall.act HubCall.act_consistent events _ Hub.consistent_empty
  refine ⟨hconsistent .channel, hconsistent .pattern, fun id => ?_⟩
  have hfinished : (hubRun events).finished id <+: _ :=
    Pool.run_finished HubCall.act_private Hub.empty events id
  rw [HubCommand.runAll_spec, Hub.subsOf_empty] at hfinished
  refine ⟨hfinished, fun hidle => ?_⟩
  have hanswered := Pool.run_sequential HubCall.act_private Hub.empty events id hidle
  rw [HubCommand.runAll_spec, Hub.subsOf_empty] at hanswered
  refine ⟨hanswered.symm, fun hlast t => ?_⟩
  have hrow : ((hubRun events).shared.registry t).subscribers.row id = none := by
    obtain ⟨cs, hcs⟩ := List.getLast?_eq_some_iff.mp hlast
    have hsubs := congrArg Prod.snd hanswered
    have hstarted : (Pool.run HubCommand.code HubCall.act events (Pool.idle Hub.empty)).started id =
        cs ++ [.removeSubscriber] := hcs
    rw [hstarted, HubCommand.specAll_concat] at hsubs
    exact (congrFun hsubs t).symm
  refine ⟨hrow, fun name ids hids hmem => ?_⟩
  have hconverse := (hconsistent t).converse id name
  rw [hids, hrow] at hconverse
  exact absurd (hconverse.mp hmem) (Finset.notMem_empty name)

end Postkeys
