import Postkeys.Resp

/-! # The pub/sub hub

Which client subscribes to which channels and patterns.  The hub keeps every subscription twice, by
name and by client; `Registry` is one such pair of maps, and the hub has one for channels and one
for patterns. -/

namespace Postkeys

open Relational

/-- Subscriptions by name and by client. -/
structure Registry where
  subscriptions : Table Bytes (Finset ℕ)
  subscribers : Table ℕ (Finset Bytes)

namespace Registry

/-- Add a subscriber to names; the counts of its subscriptions after each. -/
def subscribeLoop (id : ℕ) : List Bytes → Registry → Registry × List ℕ
  | [], r => (r, [])
  | name :: names, r =>
      let ids := insert id ((r.subscriptions.row name).getD ∅)
      let own := insert name ((r.subscribers.row id).getD ∅)
      let rest := subscribeLoop id names ⟨r.subscriptions.put name ids, r.subscribers.put id own⟩
      (rest.1, own.card :: rest.2)

/-- `Subscribe` and `PSubscribe`. -/
def subscribe (id : ℕ) (names : List Bytes) (r : Registry) : Registry × List ℕ :=
  let r := match r.subscribers.row id with
    | some _ => r
    | none => { r with subscribers := r.subscribers.put id ∅ }
  subscribeLoop id names r

/-- Take a subscriber out of the set of one name; a name without subscribers is dropped. -/
def leaveName (id : ℕ) (name : Bytes) (subscriptions : Table Bytes (Finset ℕ)) :
    Table Bytes (Finset ℕ) :=
  match subscriptions.row name with
  | none => subscriptions
  | some ids =>
      let ids := ids.erase id
      if ids = ∅ then subscriptions.restrict fun n _ => decide (n ≠ name)
      else subscriptions.put name ids

/-- Remove a subscriber from names; the counts of its subscriptions after each. -/
def unsubscribeLoop (id : ℕ) : List Bytes → Registry → Registry × List ℕ
  | [], r => (r, [])
  | name :: names, r =>
      let subscriptions := leaveName id name r.subscriptions
      match r.subscribers.row id with
      | none =>
          let rest := unsubscribeLoop id names ⟨subscriptions, r.subscribers⟩
          (rest.1, 0 :: rest.2)
      | some own =>
          let own := own.erase name
          let subscribers :=
            if own = ∅ then r.subscribers.restrict fun i _ => decide (i ≠ id)
            else r.subscribers.put id own
          let rest := unsubscribeLoop id names ⟨subscriptions, subscribers⟩
          (rest.1, own.card :: rest.2)

/-- `GetSubscribedChannels` and `GetSubscribedPatterns`, in the order in which the map yields them. -/
def subscribed (order : List ℕ) (id : ℕ) (r : Registry) : List Bytes :=
  match r.subscribers.row id with
  | none => []
  | some own => Table.shuffle order (Table.ascending own)

/-- `Unsubscribe` and `PUnsubscribe`; without names they remove all. -/
def unsubscribe (order : List ℕ) (id : ℕ) (names : List Bytes) (r : Registry) : Registry × List ℕ :=
  unsubscribeLoop id (if names = [] then r.subscribed order id else names) r

/-- The number of subscriptions of a client. -/
def subscriptionCount (id : ℕ) (r : Registry) : ℕ := ((r.subscribers.row id).getD ∅).card

/-- Remove a client from all its names. -/
def removeSubscriber (id : ℕ) (r : Registry) : Registry :=
  match r.subscribers.row id with
  | none => r
  | some own => ⟨r.subscriptions.mapRows fun name ids =>
        if name ∈ own then
          let ids := ids.erase id
          if ids = ∅ then none else some ids
        else some ids,
      r.subscribers.restrict fun i _ => decide (i ≠ id)⟩

end Registry

/-- The hub. -/
structure Hub where
  channels : Registry
  patterns : Registry

namespace Hub

/-- `GetSubscriptionCount`: the channel and the pattern subscriptions of a client. -/
def getSubscriptionCount (id : ℕ) (h : Hub) : ℕ × ℕ :=
  (h.channels.subscriptionCount id, h.patterns.subscriptionCount id)

/-- `RemoveSubscriber`. -/
def removeSubscriber (id : ℕ) (h : Hub) : Hub :=
  ⟨h.channels.removeSubscriber id, h.patterns.removeSubscriber id⟩

/-- The client has never subscribed to anything. -/
def Fresh (id : ℕ) (h : Hub) : Prop :=
  h.channels.subscribers.row id = none ∧ h.patterns.subscribers.row id = none

theorem removeSubscriber_of_fresh {id : ℕ} {h : Hub} (hf : h.Fresh id) : h.removeSubscriber id = h := by
  have hregistry {r : Registry} (hr : r.subscribers.row id = none) : r.removeSubscriber id = r := by
    rw [Registry.removeSubscriber, hr]
  rw [removeSubscriber, hregistry hf.1, hregistry hf.2]

end Hub

/-- `BuildSubscribeResponse` and its siblings, which differ in the first element. -/
def buildSubscriptionResponse (kind : String) (name : Bytes) (cnt : ℕ) : Value :=
  .arr [.bulkOf (utf8 kind), .bulkOf name, .int cnt]

end Postkeys
