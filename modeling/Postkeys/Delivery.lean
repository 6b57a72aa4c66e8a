import Postkeys.HubBookkeeping
import Postkeys.KeyEncoding
import Postkeys.Querier.SortedSets

/-! # Delivery of messages

A published message goes through PostgreSQL as base64 of JSON of base64, comes back to the hub, and
is sent to the clients that subscribe to the channel or to a pattern that matches it.  A message for
a pattern carries the pattern and the channel as one text, joined by a NUL byte and split at the
first one.

Every client gets one reply for each of its subscriptions that match, with the bytes that were
published, exactly if no such pattern contains a NUL byte (`delivery_iff`). -/

namespace Postkeys

open Relational

/-! ### The broadcast -/

/-- `broadcastPayload`. -/
structure BroadcastPayload where
  channel : Bytes
  message : Bytes
  binary : Bool

/-- Encoding and decoding of the envelope as JSON: inverse to each other on texts that are valid
UTF-8, which is what `json.Marshal` keeps as it is. -/
structure JsonCodec where
  marshal : BroadcastPayload → Bytes
  unmarshal : Bytes → Option BroadcastPayload
  unmarshal_marshal : ∀ bp, validString bp.channel = true → validString bp.message = true →
    unmarshal (marshal bp) = some bp

/-- The payload that `Publish` hands to `pg_notify`. -/
def broadcast (json : JsonCodec) (channel message : Bytes) : Bytes :=
  base64Encode (json.marshal ⟨base64Encode channel, base64Encode message, true⟩)

/-- What `listenLoop` reads from a notification: the channel and the message. -/
def readBroadcast (json : JsonCodec) (payload : Bytes) : Option (Bytes × Bytes) :=
  (base64Decode payload).bind fun jsonBytes =>
    (json.unmarshal jsonBytes).map fun bp =>
      if bp.binary then
        ((base64Decode bp.channel).getD bp.channel, (base64Decode bp.message).getD bp.message)
      else (bp.channel, bp.message)

theorem validString_base64Encode (s : Bytes) : validString (base64Encode s) = true :=
  validString_of_ascii fun b hb => (base64Encode_ascii s b hb).1

/-- The hub reads what was published, whatever the bytes. -/
theorem readBroadcast_broadcast (json : JsonCodec) (channel message : Bytes) :
    readBroadcast json (broadcast json channel message) = some (channel, message) := by
  rw [readBroadcast, broadcast, base64Decode_base64Encode, Option.bind_some,
    json.unmarshal_marshal _ (validString_base64Encode _) (validString_base64Encode _)]
  simp [base64Decode_base64Encode]

/-! ### Replies -/

/-- The kinds of messages. -/
inductive MessageType
  | message
  | pmessage
deriving DecidableEq

/-- `strings.SplitN(s, "\x00", 2)`, if there are two parts. -/
def splitNul : Bytes → Option (Bytes × Bytes)
  | [] => none
  | b :: s => if b = 0 then some ([], s) else (splitNul s).map fun p => (b :: p.1, p.2)

theorem splitNul_append {s : Bytes} (hs : 0 ∉ s) (t : Bytes) : splitNul (s ++ 0 :: t) = some (s, t) := by
  induction s with
  | nil => rfl
  | cons b s ih =>
      rw [List.mem_cons, not_or] at hs
      rw [List.cons_append, splitNul, if_neg (Ne.symm hs.1), ih hs.2, Option.map_some]

theorem splitNul_isSome (s t : Bytes) : ∃ p, splitNul (s ++ 0 :: t) = some p ∧ 0 ∉ p.1 := by
  induction s with
  | nil => exact ⟨([], t), rfl, List.not_mem_nil⟩
  | cons b s ih =>
      obtain ⟨p, hp, hnul⟩ := ih
      rw [List.cons_append, splitNul]
      by_cases hb : b = 0
      · exact ⟨_, if_pos hb, List.not_mem_nil⟩
      · refine ⟨(b :: p.1, p.2), by rw [if_neg hb, hp, Option.map_some], ?_⟩
        rw [List.mem_cons, not_or]
        exact ⟨Ne.symm hb, hnul⟩

/-- A message as the client sees it: a push message in RESP3, an array in RESP2. -/
def pubSubReply (resp3 : Bool) (parts : List Bytes) : Value :=
  { Value.empty (if resp3 then .push else .array) with array := parts.map .bulkOf }

/-- `BuildMessageResponse`, in the protocol of the client. -/
def messageReply (resp3 : Bool) (channel message : Bytes) : Value :=
  pubSubReply resp3 [utf8 "message", channel, message]

/-- `BuildPMessageResponse`, in the protocol of the client. -/
def pmessageReply (resp3 : Bool) (pattern channel message : Bytes) : Value :=
  pubSubReply resp3 [utf8 "pmessage", pattern, channel, message]

/-- `SendPubSubMessage`: the reply it writes, or the error. -/
def sendPubSubMessage (resp3 : Bool) : MessageType → Bytes → Bytes → Except Bytes Value
  | .message, channel, payload => .ok (messageReply resp3 channel payload)
  | .pmessage, channel, payload =>
      match splitNul channel with
      | some (pattern, channel) => .ok (pmessageReply resp3 pattern channel payload)
      | none => .error (utf8 "invalid pmessage channel format")

/-! ### The hub -/

/-- `globMatch`, the same loop as `matchGlob`. -/
def globMatch (pattern str : Bytes) : Bool := matchGlob pattern str

/-- A call of `SendPubSubMessage`. -/
structure Send where
  id : ℕ
  type : MessageType
  channel : Bytes
  payload : Bytes

/-- The orders in which the maps are walked: the patterns, and the clients of each name. -/
structure WalkOrder where
  names : List ℕ
  ids : Bytes → List ℕ

namespace Hub

/-- `deliverToChannel`. -/
def deliverToChannel (order : WalkOrder) (channel payload : Bytes) (h : Hub) : List Send :=
  (Table.shuffle (order.ids channel) (Table.ascending ((h.channels.subscriptions.row channel).getD ∅))).map
    fun id => ⟨id, .message, channel, payload⟩

/-- `deliverToPatterns`. -/
def deliverToPatterns (order : WalkOrder) (channel payload : Bytes) (h : Hub) : List Send :=
  (Table.shuffle order.names h.patterns.subscriptions.toList).flatMap fun entry =>
    if globMatch entry.1 channel then
      (Table.shuffle (order.ids entry.1) (Table.ascending entry.2)).map fun id =>
        ⟨id, .pmessage, entry.1 ++ 0 :: channel, payload⟩
    else []

/-- `countSubscribers`. -/
def countSubscribers (channel : Bytes) (h : Hub) : ℕ :=
  ((h.channels.subscriptions.row channel).getD ∅).card +
    ((h.patterns.subscriptions.toList.filter fun entry => globMatch entry.1 channel).map
      fun entry => entry.2.card).sum

/-- `Publish` once PostgreSQL has taken the notification: its payload and the answer. -/
def publish (json : JsonCodec) (channel message : Bytes) (h : Hub) : Bytes × ℤ :=
  (broadcast json channel message, h.countSubscribers channel)

/-- What `listenLoop` sends for a notification. -/
def receive (json : JsonCodec) (order : WalkOrder) (payload : Bytes) (h : Hub) : List Send :=
  match readBroadcast json payload with
  | none => []
  | some (channel, message) =>
      h.deliverToChannel order channel message ++ h.deliverToPatterns order channel message

end Hub

/-- What the clients are sent: each with the reply written to it. -/
def delivered (resp3 : ℕ → Bool) (sends : List Send) : List (ℕ × Value) :=
  sends.filterMap fun s =>
    match sendPubSubMessage (resp3 s.id) s.type s.channel s.payload with
    | .ok v => some (s.id, v)
    | .error _ => none

/-- The replies one client gets. -/
def repliesTo (id : ℕ) (ds : List (ℕ × Value)) : List Value := (ds.filter fun d => d.1 = id).map Prod.snd

/-- The replies a client should get for a message: one if it subscribes to the channel, and one for
each of its patterns that match. -/
def expectedReplies (resp3 : ℕ → Bool) (channel message : Bytes) (h : Hub) (id : ℕ) : List Value :=
  (if channel ∈ (h.subsOf id .channel).getD ∅ then [messageReply (resp3 id) channel message] else []) ++
    ((Table.ascending ((h.subsOf id .pattern).getD ∅)).filter fun p => globMatch p channel).map
      fun p => pmessageReply (resp3 id) p channel message

/-! ### Lists of sends -/

theorem delivered_append (resp3 : ℕ → Bool) (l l' : List Send) :
    delivered resp3 (l ++ l') = delivered resp3 l ++ delivered resp3 l' := List.filterMap_append

theorem repliesTo_append (id : ℕ) (l l' : List (ℕ × Value)) :
    repliesTo id (l ++ l') = repliesTo id l ++ repliesTo id l' := by
  rw [repliesTo, List.filter_append, List.map_append]
  rfl

/-- The reply to a message for a pattern, as the client gets it. -/
def joinedReply (resp3 : Bool) (channel message pattern : Bytes) : Value :=
  let parts := (splitNul (pattern ++ 0 :: channel)).getD ([], [])
  pmessageReply resp3 parts.1 parts.2 message

theorem filter_eq_of_nodup {l : List ℕ} (hl : l.Nodup) (id : ℕ) :
    l.filter (fun i => i = id) = if id ∈ l then [id] else [] := by
  have hbeq : l.filter (fun i => i = id) = l.filter (· == id) := rfl
  rw [hbeq, List.filter_beq]
  split
  · rw [List.count_eq_one_of_mem hl ‹_›, List.replicate_one]
  · rw [List.count_eq_zero_of_not_mem ‹_›, List.replicate_zero]

/-- One send to each of a set of clients. -/
theorem repliesTo_sends (resp3 : ℕ → Bool) (is : List ℕ) (ids : Finset ℕ) (id : ℕ) (send : ℕ → Send)
    (reply : ℕ → Value) (hid : ∀ i, (send i).id = i)
    (hreply : ∀ i, sendPubSubMessage (resp3 i) (send i).type (send i).channel (send i).payload = .ok (reply i)) :
    delivered resp3 ((Table.shuffle is (Table.ascending ids)).map send) =
        (Table.shuffle is (Table.ascending ids)).map (fun i => (i, reply i)) ∧
      repliesTo id (delivered resp3 ((Table.shuffle is (Table.ascending ids)).map send)) =
        if id ∈ ids then [reply id] else [] := by
  have hdelivered : ∀ l : List ℕ, delivered resp3 (l.map send) = l.map fun i => (i, reply i) := by
    intro l
    induction l with
    | nil => rfl
    | cons i l ih =>
        rw [delivered, List.map_cons, List.filterMap_cons, hid, hreply]
        exact congrArg _ ih
  refine ⟨hdelivered _, ?_⟩
  have hperm := Table.shuffle_perm is (Table.ascending ids)
  have hnodup : (Table.shuffle is (Table.ascending ids)).Nodup := hperm.nodup_iff.mpr (Table.nodup_ascending ids)
  have hmem : id ∈ Table.shuffle is (Table.ascending ids) ↔ id ∈ ids := by
    rw [hperm.mem_iff, Table.mem_ascending]
  rw [hdelivered, repliesTo, List.filter_map, List.map_map]
  have hcomp : (fun d : ℕ × Value => decide (d.1 = id)) ∘ (fun i => (i, reply i)) = fun i => decide (i = id) := rfl
  rw [hcomp, filter_eq_of_nodup hnodup]
  simp only [hmem]
  split <;> rfl

section Deliveries

variable (resp3 : ℕ → Bool) (order : WalkOrder) (channel message : Bytes) (h : Hub)

theorem repliesTo_channel (id : ℕ) :
    repliesTo id (delivered resp3 (h.deliverToChannel order channel message)) =
      if id ∈ (h.channels.subscriptions.row channel).getD ∅ then [messageReply (resp3 id) channel message]
      else [] :=
  (repliesTo_sends resp3 _ _ id (fun i => ⟨i, .message, channel, message⟩)
    (fun i => messageReply (resp3 i) channel message) (fun _ => rfl) fun _ => rfl).2

theorem sendPubSubMessage_joined (resp3 : Bool) (pattern : Bytes) :
    sendPubSubMessage resp3 .pmessage (pattern ++ 0 :: channel) message =
      .ok (joinedReply resp3 channel message pattern) := by
  obtain ⟨p, hp, -⟩ := splitNul_isSome pattern channel
  rw [sendPubSubMessage, joinedReply, hp]
  rfl

theorem repliesTo_entry (id : ℕ) (entry : Bytes × Finset ℕ) :
    repliesTo id (delivered resp3 (if globMatch entry.1 channel then
      (Table.shuffle (order.ids entry.1) (Table.ascending entry.2)).map fun i =>
        ⟨i, .pmessage, entry.1 ++ 0 :: channel, message⟩ else [])) =
      if globMatch entry.1 channel = true ∧ id ∈ entry.2 then
        [joinedReply (resp3 id) channel message entry.1] else [] := by
  by_cases hmatch : globMatch entry.1 channel = true
  · rw [if_pos hmatch, (repliesTo_sends resp3 _ _ id _ (fun i => joinedReply (resp3 i) channel message entry.1)
      (fun _ => rfl) fun i => sendPubSubMessage_joined channel message (resp3 i) entry.1).2]
    simp only [hmatch, true_and]
  · rw [if_neg hmatch]
    simp only [hmatch]
    rfl

/-- The patterns for which a client is sent the message. -/
def matchedPatterns (id : ℕ) : List Bytes :=
  (Table.ascending ((h.subsOf id .pattern).getD ∅)).filter fun p => globMatch p channel

theorem matchedPatterns_perm (hc : h.Consistent) (id : ℕ) :
    ((h.patterns.subscriptions.toList.filter fun entry =>
      decide (globMatch entry.1 channel = true ∧ id ∈ entry.2)).map Prod.fst).Perm
      (matchedPatterns channel h id) := by
  have hnodup : (h.patterns.subscriptions.toList.map Prod.fst).Nodup := Table.nodup_toList _
  refine (List.perm_ext_iff_of_nodup (hnodup.sublist ?_) ?_).mpr fun p => ?_
  · exact List.filter_sublist.map _
  · exact (Table.nodup_ascending _).filter _
  · have hconverse := (hc .pattern).converse id p
    rw [matchedPatterns, List.mem_filter, Table.mem_ascending, List.mem_map]
    constructor
    · rintro ⟨⟨q, ids⟩, hentry, rfl⟩
      rw [List.mem_filter, Table.mem_toList, decide_eq_true_eq] at hentry
      obtain ⟨hrow, hmatch, hid⟩ := hentry
      refine ⟨hconverse.mp ?_, hmatch⟩
      rw [show (h.registry .pattern).subscriptions.row q = some ids from hrow]
      exact hid
    · rintro ⟨hown, hmatch⟩
      have hids := hconverse.mpr hown
      cases hrow : (h.registry .pattern).subscriptions.row p with
      | none => rw [hrow] at hids; cases hids
      | some ids =>
          rw [hrow] at hids
          refine ⟨(p, ids), ?_, rfl⟩
          rw [List.mem_filter, Table.mem_toList, decide_eq_true_eq]
          exact ⟨hrow, hmatch, hids⟩

theorem flatMap_singletons {α β : Type} (l : List α) (p : α → Prop) [DecidablePred p] (f : α → β) :
    l.flatMap (fun a => if p a then [f a] else []) = (l.filter fun a => decide (p a)).map f := by
  induction l with
  | nil => rfl
  | cons a l ih =>
      rw [List.flatMap_cons, ih, List.filter_cons]
      by_cases ha : p a <;> simp [ha]

/-- A client is sent one message for each of its patterns that match. -/
theorem repliesTo_patterns (hc : h.Consistent) (id : ℕ) :
    (repliesTo id (delivered resp3 (h.deliverToPatterns order channel message))).Perm
      ((matchedPatterns channel h id).map (joinedReply (resp3 id) channel message)) := by
  have hflat : ∀ l : List (Bytes × Finset ℕ), repliesTo id (delivered resp3 (l.flatMap fun entry =>
      if globMatch entry.1 channel then
        (Table.shuffle (order.ids entry.1) (Table.ascending entry.2)).map fun i =>
          ⟨i, .pmessage, entry.1 ++ 0 :: channel, message⟩ else [])) =
      ((l.filter fun entry => decide (globMatch entry.1 channel = true ∧ id ∈ entry.2)).map Prod.fst).map
        (joinedReply (resp3 id) channel message) := by
    intro l
    rw [List.map_map, ← flatMap_singletons]
    induction l with
    | nil => rfl
    | cons entry l ih =>
        rw [List.flatMap_cons, delivered_append, repliesTo_append, repliesTo_entry, ih, List.flatMap_cons]
        rfl
  rw [Hub.deliverToPatterns, hflat]
  refine (List.Perm.map _ ?_).trans ((matchedPatterns_perm channel h hc id).map _)
  exact ((Table.shuffle_perm order.names _).filter _).map _

/-- As many replies are sent as `Publish` answers. -/
theorem length_delivered : (delivered resp3 (h.deliverToChannel order channel message ++
    h.deliverToPatterns order channel message)).length = h.countSubscribers channel := by
  have hpatterns : ∀ l : List (Bytes × Finset ℕ), (delivered resp3 (l.flatMap fun entry =>
      if globMatch entry.1 channel then
        (Table.shuffle (order.ids entry.1) (Table.ascending entry.2)).map fun i =>
          ⟨i, .pmessage, entry.1 ++ 0 :: channel, message⟩ else [])).length =
      ((l.filter fun entry => globMatch entry.1 channel).map fun entry => entry.2.card).sum := by
    intro l
    induction l with
    | nil => rfl
    | cons entry l ih =>
        rw [List.flatMap_cons, delivered_append, List.length_append, ih, List.filter_cons]
        by_cases hmatch : globMatch entry.1 channel = true
        · rw [if_pos hmatch, if_pos hmatch, List.map_cons, List.sum_cons, (repliesTo_sends resp3 _ _ 0 _
            (fun i => joinedReply (resp3 i) channel message entry.1) (fun _ => rfl)
            fun i => sendPubSubMessage_joined channel message (resp3 i) entry.1).1, List.length_map,
            (Table.shuffle_perm _ _).length_eq, Table.length_ascending]
        · rw [if_neg hmatch, if_neg hmatch]
          exact Nat.zero_add _
  have hchannel : (delivered resp3 (h.deliverToChannel order channel message)).length =
      ((h.channels.subscriptions.row channel).getD ∅).card := by
    rw [Hub.deliverToChannel, (repliesTo_sends resp3 _ _ 0 (fun i => ⟨i, .message, channel, message⟩)
      (fun i => messageReply (resp3 i) channel message) (fun _ => rfl) fun _ => rfl).1, List.length_map,
      (Table.shuffle_perm _ _).length_eq, Table.length_ascending]
  rw [delivered_append, List.length_append, hchannel, Hub.countSubscribers, Hub.deliverToPatterns, hpatterns]
  congr 1
  exact (((Table.shuffle_perm order.names _).filter _).map _).sum_eq

theorem joinedReply_of_nul_free (resp3 : Bool) {pattern : Bytes} (hp : 0 ∉ pattern) :
    joinedReply resp3 channel message pattern = pmessageReply resp3 pattern channel message := by
  rw [joinedReply, splitNul_append hp]
  rfl

/-- A reply never carries a pattern with a NUL byte. -/
theorem joinedReply_ne (resp3 : Bool) (pattern : Bytes) {q : Bytes} (hq : 0 ∈ q) :
    joinedReply resp3 channel message pattern ≠ pmessageReply resp3 q channel message := by
  intro heq
  obtain ⟨p, hp, hnul⟩ := splitNul_isSome pattern channel
  rw [joinedReply, hp] at heq
  have hpart := congrArg (fun v => (v.array.map Value.bulk)[1]?) heq
  have hpq : p.1 = q := Option.some_inj.mp hpart
  exact hnul (hpq ▸ hq)

theorem messageReply_ne (resp3 : Bool) (q : Bytes) :
    messageReply resp3 channel message ≠ pmessageReply resp3 q channel message := by
  intro heq
  have hlength : 3 = 4 := congrArg (fun v => v.array.length) heq
  omega

/-- **Delivery of a message.**  When the notification of a `PUBLISH` comes back and no subscription
has changed, every client gets one reply for its subscription to the channel and one for each of its
patterns that match, with the bytes of the pattern, the channel and the message, and `PUBLISH`
answers their number, exactly if no pattern that is subscribed to and matches contains a NUL
byte. -/
theorem delivery_iff (json : JsonCodec) (hc : h.Consistent) :
    ((∀ id, (repliesTo id (delivered resp3
          (h.receive json order (h.publish json channel message).1))).Perm
        (expectedReplies resp3 channel message h id)) ∧
      (h.publish json channel message).2 =
        (delivered resp3 (h.receive json order (h.publish json channel message).1)).length) ↔
      ∀ pattern ids, h.patterns.subscriptions.row pattern = some ids →
        globMatch pattern channel = true → 0 ∉ pattern := by
  have hreceive : h.receive json order (h.publish json channel message).1 =
      h.deliverToChannel order channel message ++ h.deliverToPatterns order channel message := by
    rw [Hub.receive, Hub.publish, readBroadcast_broadcast]
  have hreplies (id : ℕ) : (repliesTo id (delivered resp3
      (h.receive json order (h.publish json channel message).1))).Perm
      ((if channel ∈ (h.subsOf id .channel).getD ∅ then [messageReply (resp3 id) channel message] else []) ++
        (matchedPatterns channel h id).map (joinedReply (resp3 id) channel message)) := by
    rw [hreceive, delivered_append, repliesTo_append, repliesTo_channel]
    have hconverse : id ∈ (h.channels.subscriptions.row channel).getD ∅ ↔
        channel ∈ (h.subsOf id .channel).getD ∅ := (hc .channel).converse id channel
    simp only [hconverse]
    exact (repliesTo_patterns resp3 order channel message h hc id).append_left _
  have hcount : (h.publish json channel message).2 =
      (delivered resp3 (h.receive json order (h.publish json channel message).1)).length := by
    rw [hreceive, length_delivered]
    rfl
  have hsubscribed {pattern : Bytes} {id : ℕ} (hp : pattern ∈ matchedPatterns channel h id) :
      globMatch pattern channel = true ∧ ∃ ids, h.patterns.subscriptions.row pattern = some ids := by
    rw [matchedPatterns, List.mem_filter, Table.mem_ascending] at hp
    have hids := ((hc .pattern).converse id pattern).mpr hp.1
    cases hrow : (h.registry .pattern).subscriptions.row pattern with
    | none => rw [hrow] at hids; cases hids
    | some ids => exact ⟨hp.2, ids, hrow⟩
  constructor
  · rintro ⟨hall, -⟩ pattern ids hrow hmatch hnul
    obtain ⟨id, hid⟩ := (hc .pattern).nonempty pattern ids hrow
    have hown : pattern ∈ matchedPatterns channel h id := by
      rw [matchedPatterns, List.mem_filter, Table.mem_ascending]
      refine ⟨((hc .pattern).converse id pattern).mp ?_, hmatch⟩
      rw [show (h.registry .pattern).subscriptions.row pattern = some ids from hrow]
      exact hid
    have hexpected : pmessageReply (resp3 id) pattern channel message ∈
        expectedReplies resp3 channel message h id :=
      List.mem_append_right _ (List.mem_map.mpr ⟨pattern, hown, rfl⟩)
    have hgot := (hreplies id).mem_iff.mp ((hall id).mem_iff.mpr hexpected)
    rcases List.mem_append.mp hgot with hmessage | hpmessage
    · split at hmessage
      · exact messageReply_ne channel message (resp3 id) pattern (List.mem_singleton.mp hmessage).symm
      · cases hmessage
    · obtain ⟨q, -, hq⟩ := List.mem_map.mp hpmessage
      exact joinedReply_ne channel message (resp3 id) q hnul hq
  · intro hnul
    refine ⟨fun id => (hreplies id).trans (List.Perm.of_eq ?_), hcount⟩
    refine congrArg _ (List.map_congr_left fun pattern hp => ?_)
    obtain ⟨hmatch, ids, hrow⟩ := hsubscribed hp
    exact joinedReply_of_nul_free channel message (resp3 id) (hnul pattern ids hrow hmatch)

end Deliveries

/-! ### Two hubs -/

/-- A codec of the envelope: base64 of both texts, separated by NUL bytes. -/
def plainCodec : JsonCodec where
  marshal bp := base64Encode bp.channel ++ 0 :: (base64Encode bp.message ++ 0 :: (if bp.binary then [1] else []))
  unmarshal s := do
    let (channel, rest) ← splitNul s
    let (message, flag) ← splitNul rest
    let channel ← base64Decode channel
    let message ← base64Decode message
    pure ⟨channel, message, decide (flag = [1])⟩
  unmarshal_marshal bp _ _ := by
    have hnul (s : Bytes) : 0 ∉ base64Encode s := fun h => (base64Encode_ascii s 0 h).2 rfl
    obtain ⟨channel, message, binary⟩ := bp
    simp only [splitNul_append (hnul _), base64Decode_base64Encode, Option.bind_eq_bind, Option.bind_some]
    cases binary <;> rfl

/-- Client 1 subscribes to a channel and to a pattern. -/
def newsHub (channel pattern : Bytes) : Hub :=
  (HubCall.act 1 (.subscribe .pattern [pattern])
    (HubCall.act 1 (.subscribe .channel [channel]) Hub.empty).2).2

theorem newsHub_consistent (channel pattern : Bytes) : (newsHub channel pattern).Consistent :=
  HubCall.act_consistent _ _ _ (HubCall.act_consistent _ _ _ Hub.consistent_empty)

/-- A message on `news.eu` for a client that subscribes to it and to `news.*`. -/
theorem delivery_news :
    (repliesTo 1 (delivered (fun _ => true) ((newsHub (utf8 "news.eu") (utf8 "news.*")).receive plainCodec
        ⟨[], fun _ => []⟩
        ((newsHub (utf8 "news.eu") (utf8 "news.*")).publish plainCodec (utf8 "news.eu") (utf8 "hi")).1))).Perm
      (expectedReplies (fun _ => true) (utf8 "news.eu") (utf8 "hi") (newsHub (utf8 "news.eu") (utf8 "news.*")) 1) := by
  refine ((delivery_iff (fun _ => true) ⟨[], fun _ => []⟩ (utf8 "news.eu") (utf8 "hi")
    (newsHub (utf8 "news.eu") (utf8 "news.*")) plainCodec (newsHub_consistent _ _)).mpr ?_).1 1
  intro pattern ids hrow _
  have hdom : ∀ p ∈ (newsHub (utf8 "news.eu") (utf8 "news.*")).patterns.subscriptions.dom, 0 ∉ p := by
    decide
  exact hdom pattern (Table.mem_dom_of_row hrow)

/-- The pattern is `news`, a NUL byte and `*`, the channel `news`, a NUL byte and `eu`: the client is
told of the pattern `news` and of a channel that does not exist. -/
theorem delivery_splits_pattern :
    let pattern := utf8 "news" ++ 0 :: utf8 "*"
    let channel := utf8 "news" ++ 0 :: utf8 "eu"
    let h := newsHub (utf8 "other") pattern
    (repliesTo 1 (delivered (fun _ => false) (h.receive plainCodec ⟨[], fun _ => []⟩
        (h.publish plainCodec channel (utf8 "hi")).1))).map (fun v => v.array.map Value.bulk) =
      [[utf8 "pmessage", utf8 "news", utf8 "*" ++ 0 :: channel, utf8 "hi"]] ∧
    (expectedReplies (fun _ => false) channel (utf8 "hi") h 1).map (fun v => v.array.map Value.bulk) =
      [[utf8 "pmessage", pattern, channel, utf8 "hi"]] ∧
    ¬ (repliesTo 1 (delivered (fun _ => false) (h.receive plainCodec ⟨[], fun _ => []⟩
        (h.publish plainCodec channel (utf8 "hi")).1))).Perm
      (expectedReplies (fun _ => false) channel (utf8 "hi") h 1) := by
  intro pattern channel h
  have hgot : (repliesTo 1 (delivered (fun _ => false) (h.receive plainCodec ⟨[], fun _ => []⟩
        (h.publish plainCodec channel (utf8 "hi")).1))).map (fun v => v.array.map Value.bulk) =
      [[utf8 "pmessage", utf8 "news", utf8 "*" ++ 0 :: channel, utf8 "hi"]] := by decide
  have hexpected : (expectedReplies (fun _ => false) channel (utf8 "hi") h 1).map
      (fun v => v.array.map Value.bulk) = [[utf8 "pmessage", pattern, channel, utf8 "hi"]] := by
    decide
  refine ⟨hgot, hexpected, fun hperm => ?_⟩
  have hmapped := hperm.map fun v => v.array.map Value.bulk
  rw [hgot, hexpected, List.perm_singleton] at hmapped
  exact absurd hmapped (by decide)

end Postkeys
