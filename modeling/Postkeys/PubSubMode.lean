import Postkeys.AuthGate
import Postkeys.HubBookkeeping

/-! # Pub/sub mode

All connections of a server with the hub they share.  A client is in pub/sub mode exactly while it
has a subscription, as long as no client that uses RESP3 sends `RESET` in that mode
(`mode_matches_iff`): `RESET` takes its subscriptions and leaves it in the mode. -/

namespace Postkeys

open Relational Concurrent

namespace Server

variable {σ : Type} {srv : Server σ} {e : Env} {cmd : Value} {c : Conn} {w : World σ}

/-! ### What one command does -/

/-- The command takes the subscriptions of a client in pub/sub mode: `RESET`, sent by an
authenticated client that uses RESP3. -/
def ResetsInMode (srv : Server σ) (cmd : Value) (c : Conn) : Prop :=
  srv.pubsub = true ∧ c.authenticated = true ∧ c.client.inPubSubMode = true ∧
    c.client.useRESP3 = true ∧ ∃ args, IsCommand cmd (utf8 "RESET") args

/-- What a command can do to the mode of its client and to the hub. -/
inductive HubEffect (srv : Server σ) (cmd : Value) (c : Conn) (w : World σ) (cl : Client) (hub : Hub) : Prop
  | none (hmode : cl.inPubSubMode = c.client.inPubSubMode) (hhub : hub = w.hub)
  | subscribed (hpubsub : srv.pubsub = true) (t : Topic) (names : List Bytes) (hnames : names ≠ [])
      (hmode : cl.inPubSubMode = true)
      (hhub : hub = (HubCall.act c.client.id (.subscribe t names) w.hub).2)
  | unsubscribed (hpubsub : srv.pubsub = true) (t : Topic) (order : List ℕ) (names : List Bytes)
      (hmode : cl.inPubSubMode =
        if hub.getSubscriptionCount c.client.id = (0, 0) then false else c.client.inPubSubMode)
      (hhub : hub = (HubCall.act c.client.id (.unsubscribe t order names) w.hub).2)
  | removed (hpubsub : srv.pubsub = true)
      (hwhen : c.client.inPubSubMode = true → srv.ResetsInMode cmd c)
      (hmode : cl.inPubSubMode = c.client.inPubSubMode)
      (hhub : hub = w.hub.removeSubscriber c.client.id)

/-- A step that keeps the client's id and has one of these effects. -/
def Stays (srv : Server σ) (cmd : Value) (c : Conn) (w : World σ) (r : List Value × Conn × World σ) : Prop :=
  r.2.1.client.id = c.client.id ∧ HubEffect srv cmd c w r.2.1.client r.2.2.hub

theorem Stays.quiet {r : List Value × Conn × World σ} (hid : r.2.1.client.id = c.client.id)
    (hmode : r.2.1.client.inPubSubMode = c.client.inPubSubMode) (hhub : r.2.2.hub = w.hub) :
    Stays srv cmd c w r := ⟨hid, .none hmode hhub⟩

theorem ite_intro {α : Type} {P : α → Prop} {p : Prop} [Decidable p] {a b : α} (ha : p → P a)
    (hb : ¬ p → P b) : P (if p then a else b) := by
  split
  · exact ha ‹_›
  · exact hb ‹_›

theorem withHub_intro {P : List Value × Conn × World σ → Prop}
    {f : Hub → Client → List Value × Client × Hub}
    (hon : srv.pubsub = true → P ((f w.hub c.client).1, { c with client := (f w.hub c.client).2.1 },
      { w with hub := (f w.hub c.client).2.2 }))
    (hoff : P ([noPubSub], c, w)) : P (srv.withHub c w f) := ite_intro hon fun _ => hoff

theorem handleSubscribe_stays (names : List Bytes) :
    Stays srv cmd c w (srv.withHub c w fun h cl => handleSubscribe h cl names) := by
  refine withHub_intro (fun hpubsub => ?_) (.quiet rfl rfl rfl)
  unfold handleSubscribe
  split
  · exact .quiet rfl rfl rfl
  · exact ⟨rfl, .subscribed hpubsub .channel names ‹_› rfl rfl⟩

theorem handlePSubscribe_stays (names : List Bytes) :
    Stays srv cmd c w (srv.withHub c w fun h cl => handlePSubscribe h cl names) := by
  refine withHub_intro (fun hpubsub => ?_) (.quiet rfl rfl rfl)
  unfold handlePSubscribe
  split
  · exact .quiet rfl rfl rfl
  · exact ⟨rfl, .subscribed hpubsub .pattern names ‹_› rfl rfl⟩

theorem afterUnsubscribe_id (hub : Hub) (cl : Client) : (afterUnsubscribe hub cl).id = cl.id := by
  unfold afterUnsubscribe
  split <;> rfl

theorem afterUnsubscribe_mode (hub : Hub) (cl : Client) : (afterUnsubscribe hub cl).inPubSubMode =
    if hub.getSubscriptionCount cl.id = (0, 0) then false else cl.inPubSubMode := by
  unfold afterUnsubscribe
  split <;> rfl

theorem handleUnsubscribe_stays (order : List ℕ) (names : List Bytes) :
    Stays srv cmd c w (srv.withHub c w fun h cl => handleUnsubscribe order h cl names) :=
  withHub_intro (fun hpubsub => ⟨afterUnsubscribe_id _ _,
    .unsubscribed hpubsub .channel order _ (afterUnsubscribe_mode _ _) rfl⟩) (.quiet rfl rfl rfl)

theorem handlePUnsubscribe_stays (order : List ℕ) (names : List Bytes) :
    Stays srv cmd c w (srv.withHub c w fun h cl => handlePUnsubscribe order h cl names) :=
  withHub_intro (fun hpubsub => ⟨afterUnsubscribe_id _ _,
    .unsubscribed hpubsub .pattern order _ (afterUnsubscribe_mode _ _) rfl⟩) (.quiet rfl rfl rfl)

/-- Two states of a client with the same id and mode. -/
def SameMode (cl cl' : Client) : Prop := cl'.id = cl.id ∧ cl'.inPubSubMode = cl.inPubSubMode

theorem setProtocolVersion_same (v : ℤ) (cl : Client) : SameMode cl (cl.setProtocolVersion v) :=
  ite_intro (fun _ => ⟨rfl, rfl⟩) fun _ => ⟨rfl, rfl⟩

/-- Two states of a client with the same id, mode and protocol version. -/
def SameSession (cl cl' : Client) : Prop :=
  SameMode cl cl' ∧ cl'.protocolVersion = cl.protocolVersion

theorem discardTransaction_same {cl cl' : Client} (h : cl.discardTransaction = .ok cl') :
    SameSession cl cl' := by
  unfold Client.discardTransaction at h
  split at h
  · cases h
    exact ⟨⟨rfl, rfl⟩, rfl⟩
  · cases h

theorem startTransaction_same {cl cl' : Client} (h : cl.startTransaction = .ok cl') :
    SameSession cl cl' := by
  unfold Client.startTransaction at h
  split at h
  · cases h
  · cases h
    exact ⟨⟨rfl, rfl⟩, rfl⟩

theorem setLibInfo_same (a b : Bytes) (cl : Client) : SameSession cl (cl.setLibInfo a b) := by
  unfold Client.setLibInfo
  dsimp only
  split <;> split <;> exact ⟨⟨rfl, rfl⟩, rfl⟩

theorem executeClientCommand_same (now : ℤ) (subCmd : Bytes) (args : List Value) (cl : Client) :
    SameSession cl (executeClientCommand now subCmd args cl).2 := by
  have hsame : SameSession cl cl := ⟨⟨rfl, rfl⟩, rfl⟩
  refine ite_intro (P := fun r : Value × Client => SameSession cl r.2) (fun _ => hsame) fun _ => ?_
  refine ite_intro (P := fun r : Value × Client => SameSession cl r.2) (fun _ => hsame) fun _ => ?_
  refine ite_intro (P := fun r : Value × Client => SameSession cl r.2) (fun _ => ?_) fun _ => ?_
  · split <;> exact ⟨⟨rfl, rfl⟩, rfl⟩
  refine ite_intro (P := fun r : Value × Client => SameSession cl r.2) (fun _ => ?_) fun _ => ?_
  · split
    · exact ite_intro (P := fun r : Value × Client => SameSession cl r.2) (fun _ => setLibInfo_same _ _ _) fun _ =>
        ite_intro (P := fun r : Value × Client => SameSession cl r.2) (fun _ => setLibInfo_same _ _ _) fun _ => hsame
    · exact hsame
  iterate 8 refine ite_intro (P := fun r : Value × Client => SameSession cl r.2) (fun _ => hsame) fun _ => ?_
  exact hsame

theorem handleClient_same (now : ℤ) (args : List Value) (cl : Client) :
    SameSession cl (handleClient now args cl).2 := by
  unfold handleClient
  split
  · exact ⟨⟨rfl, rfl⟩, rfl⟩
  · exact executeClientCommand_same _ _ _ _

/-- The client after `RESET`. -/
theorem reset_same (srv : Server σ) (c : Conn) (w : World σ) :
    SameMode c.client (srv.reset c w).2.1.client := by
  unfold reset
  dsimp only
  split
  · have hdiscard := (discardTransaction_same ‹_›).1
    have hversion := setProtocolVersion_same 2 ‹_›
    exact ⟨hversion.1.trans hdiscard.1, hversion.2.trans hdiscard.2⟩
  · exact setProtocolVersion_same 2 c.client

theorem reset_hub (srv : Server σ) (c : Conn) (w : World σ) : (srv.reset c w).2.2.hub =
    if srv.pubsub then w.hub.removeSubscriber c.client.id else w.hub := by
  unfold reset
  dsimp only
  split
  · split
    · rw [(discardTransaction_same ‹_›).1.1]
    · rfl
  · rfl

/-- `RESET` takes the subscriptions if there is a hub. -/
theorem reset_stays (hc : c.authenticated = true) {args : List Value}
    (hcmd : IsCommand cmd (utf8 "RESET") args)
    (hmode : ¬ (c.client.inPubSubMode && !c.client.useRESP3) = true) :
    Stays srv cmd c w (srv.reset c w) := by
  have hsame := reset_same srv c w
  have hhub := reset_hub srv c w
  by_cases hpubsub : srv.pubsub = true
  · rw [if_pos hpubsub] at hhub
    refine ⟨hsame.1, .removed hpubsub (fun hin => ⟨hpubsub, hc, hin, ?_, args, hcmd⟩) hsame.2 hhub⟩
    simpa [hin] using hmode
  · rw [if_neg hpubsub] at hhub
    exact .quiet hsame.1 hsame.2 hhub

/-- What a command of an authenticated connection does. -/
theorem handleAuthenticated_stays (hc : c.authenticated = true) {cmdName : Bytes} {args : List Value}
    (hcmd : IsCommand cmd cmdName args) :
    Stays srv cmd c w (srv.handleAuthenticated e cmd cmdName args c w) := by
  refine ite_intro (fun _ => handleSubscribe_stays _) fun _ => ?_
  refine ite_intro (fun _ => handleUnsubscribe_stays _ _) fun _ => ?_
  refine ite_intro (fun _ => handlePSubscribe_stays _) fun _ => ?_
  refine ite_intro (fun _ => handlePUnsubscribe_stays _ _) fun _ => ?_
  refine ite_intro (fun _ => ?_) fun _ => ?_
  · -- `PUBLISH` reads the hub only
    refine ite_intro (fun _ => .quiet rfl rfl rfl) fun _ => ?_
    split
    · split <;> exact .quiet rfl rfl rfl
    · exact .quiet rfl rfl rfl
  refine ite_intro (fun _ => ?_) fun hmode => ?_
  · exact ite_intro (fun _ => .quiet rfl rfl rfl) fun _ =>
      ite_intro (fun _ => .quiet rfl rfl rfl) fun _ => .quiet rfl rfl rfl
  refine ite_intro (fun hreset => reset_stays hc (hreset ▸ hcmd) hmode) fun _ => ?_
  refine ite_intro (fun _ => ?_) fun _ => ?_
  · split
    · exact .quiet rfl rfl rfl
    · exact .quiet (startTransaction_same ‹_›).1.1 (startTransaction_same ‹_›).1.2 rfl
  refine ite_intro (fun _ => ?_) fun _ => ?_
  · exact ite_intro (fun _ => .quiet rfl rfl rfl) fun _ => .quiet rfl rfl rfl
  refine ite_intro (fun _ => ?_) fun _ => ?_
  · split
    · exact .quiet rfl rfl rfl
    · exact .quiet (discardTransaction_same ‹_›).1.1 (discardTransaction_same ‹_›).1.2 rfl
  refine ite_intro (fun _ => .quiet rfl rfl rfl) fun _ => ?_
  refine ite_intro (fun _ => ?_) fun _ => .quiet rfl rfl rfl
  exact .quiet (handleClient_same _ _ _).1.1 (handleClient_same _ _ _).1.2 rfl

/-- **What one command does** to the mode and the hub. -/
theorem handleCommand_stays : Stays srv cmd c w (srv.handleCommand e cmd c w) := by
  unfold handleCommand
  split
  · rename_i name args htype harr
    refine ite_intro (fun _ => .quiet rfl rfl rfl) fun _ => ?_
    refine ite_intro (fun _ => .quiet (setProtocolVersion_same _ _).1 (setProtocolVersion_same _ _).2 rfl)
      fun _ => ?_
    refine ite_intro (fun _ => ?_) fun hc => ?_
    · exact ite_intro (fun _ => .quiet rfl rfl rfl) fun _ => .quiet rfl rfl rfl
    · exact handleAuthenticated_stays (by simpa using hc) ⟨name, htype, harr, rfl⟩
  · exact .quiet rfl rfl rfl

/-- `RESET` in the mode leaves the client in it without subscriptions. -/
theorem handleCommand_of_resetsInMode (h : srv.ResetsInMode cmd c) :
    (srv.handleCommand e cmd c w).2.1.client.inPubSubMode = true ∧
      (srv.handleCommand e cmd c w).2.2.hub = w.hub.removeSubscriber c.client.id := by
  obtain ⟨hpubsub, hc, hmode, hproto, args, name, htype, harr, hname⟩ := h
  have hbranch : srv.handleAuthenticated e cmd (utf8 "RESET") args c w =
      if c.client.inPubSubMode && !c.client.useRESP3 then
        ([.err (utf8 "only (P)SUBSCRIBE / (P)UNSUBSCRIBE / PING / QUIT allowed in this context")], c, w)
      else srv.reset c w := rfl
  have hstep : srv.handleCommand e cmd c w = srv.reset c w := by
    rw [handleCommand, htype, harr]
    dsimp only
    rw [hname, if_neg (by decide), if_neg (by decide), if_neg (by simp [hc]), hbranch,
      if_neg (by simp [hproto])]
  rw [hstep, reset_hub, if_pos hpubsub, (reset_same srv c w).2]
  exact ⟨hmode, rfl⟩

end Server

/-! ### Subscriptions of one client -/

/-- The hub holds a channel or a pattern for the client. -/
def Hub.HasSubscription (id : ℕ) (h : Hub) : Prop := h.getSubscriptionCount id ≠ (0, 0)

variable {id : ℕ}

theorem Hub.hasSubscription_iff {h : Hub} :
    h.HasSubscription id ↔ ∃ t name, name ∈ (h.subsOf id t).getD ∅ := by
  have hcard (s : Finset Bytes) : s.card ≠ 0 ↔ ∃ name, name ∈ s :=
    Finset.card_ne_zero.trans Iff.rfl
  have hcount : h.getSubscriptionCount id =
      (((h.subsOf id .channel).getD ∅).card, ((h.subsOf id .pattern).getD ∅).card) := rfl
  rw [HasSubscription, hcount, Ne, Prod.mk.injEq, not_and_or]
  constructor
  · rintro (hc | hp)
    · exact ⟨.channel, (hcard _).mp hc⟩
    · exact ⟨.pattern, (hcard _).mp hp⟩
  · rintro ⟨t, hname⟩
    cases t with
    | channel => exact Or.inl ((hcard _).mpr hname)
    | pattern => exact Or.inr ((hcard _).mpr hname)

theorem Hub.hasSubscription_congr {h h' : Hub} (hsame : h'.subsOf id = h.subsOf id) :
    h'.HasSubscription id ↔ h.HasSubscription id := by
  rw [hasSubscription_iff, hasSubscription_iff, hsame]

theorem Subs.steps_add_subset (names : List Bytes) (row : Subs) :
    row.getD ∅ ⊆ (Subs.steps Subs.add names row).2.getD ∅ := by
  induction names generalizing row with
  | nil => exact Finset.Subset.refl _
  | cons name names ih => exact (Finset.subset_insert name _).trans (ih (Subs.add name row))

theorem Subs.steps_drop_subset (names : List Bytes) (row : Subs) :
    (Subs.steps Subs.drop names row).2.getD ∅ ⊆ row.getD ∅ := by
  induction names generalizing row with
  | nil => exact Finset.Subset.refl _
  | cons name names ih =>
      refine (ih (Subs.drop name row)).trans ?_
      rw [Subs.drop, Registry.getD_bind_erase]
      exact Finset.erase_subset _ _

theorem Hub.hasSubscription_subscribe {h : Hub} {t : Topic} {names : List Bytes}
    (hnames : names ≠ []) : (HubCall.act id (.subscribe t names) h).2.HasSubscription id := by
  obtain ⟨name, rest, rfl⟩ := List.exists_cons_of_ne_nil hnames
  refine hasSubscription_iff.mpr ⟨t, name, ?_⟩
  rw [HubCall.act_private.own_self, HubCall.alone]
  dsimp only
  rw [Function.update_self]
  exact Subs.steps_add_subset rest _ (Finset.mem_insert_self _ _)

theorem Hub.hasSubscription_of_unsubscribe {h : Hub} {t : Topic} {order : List ℕ}
    {names : List Bytes}
    (hafter : (HubCall.act id (.unsubscribe t order names) h).2.HasSubscription id) :
    h.HasSubscription id := by
  obtain ⟨t', name, hname⟩ := hasSubscription_iff.mp hafter
  rw [HubCall.act_private.own_self, HubCall.alone] at hname
  dsimp only at hname
  rw [Function.update_apply] at hname
  refine hasSubscription_iff.mpr ⟨t', name, ?_⟩
  split at hname
  · subst t'
    exact Subs.steps_drop_subset _ _ hname
  · exact hname

theorem Hub.subsOf_removeSubscriber (id id' : ℕ) (h : Hub) (t : Topic) :
    (h.removeSubscriber id).subsOf id' t = if id' = id then none else h.subsOf id' t := by
  cases t <;> exact Registry.removeSubscriber_row id id' _

theorem Hub.not_hasSubscription_removeSubscriber (id : ℕ) (h : Hub) :
    ¬ (h.removeSubscriber id).HasSubscription id := by
  rw [hasSubscription_iff]
  rintro ⟨t, name, hname⟩
  rw [subsOf_removeSubscriber, if_pos rfl] at hname
  cases hname

/-! ### The mode -/

/-- A client is in pub/sub mode exactly while it has a subscription; so no client that uses RESP2
and has none is refused ordinary commands. -/
structure ModeMatches (cl : Client) (hub : Hub) : Prop where
  mode : cl.inPubSubMode = true ↔ hub.HasSubscription cl.id
  free : cl.useRESP3 = false → ¬ hub.HasSubscription cl.id → (cl.inPubSubMode && !cl.useRESP3) = false

theorem modeMatches_of_iff {cl : Client} {hub : Hub}
    (h : cl.inPubSubMode = true ↔ hub.HasSubscription cl.id) : ModeMatches cl hub := by
  refine ⟨h, fun _ hnone => ?_⟩
  rw [Bool.eq_false_iff.mpr (mt h.mp hnone), Bool.false_and]

namespace Server

variable {σ : Type} {srv : Server σ} {e : Env} {cmd : Value} {c : Conn} {w : World σ}

theorem HubEffect.other {cl : Client} {hub : Hub} (h : HubEffect srv cmd c w cl hub)
    (hid : id ≠ c.client.id) : hub.subsOf id = w.hub.subsOf id := by
  cases h with
  | none hmode hhub => rw [hhub]
  | subscribed hpubsub t names hnames hmode hhub =>
      rw [hhub, HubCall.act_private.own_other _ _ _ _ hid]
  | unsubscribed hpubsub t order names hmode hhub =>
      rw [hhub, HubCall.act_private.own_other _ _ _ _ hid]
  | removed hpubsub hwhen hmode hhub =>
      funext t
      rw [hhub, Hub.subsOf_removeSubscriber, if_neg hid]

/-- A command keeps the mode right, unless it is a `RESET` in the mode. -/
theorem HubEffect.matches {cl : Client} {hub : Hub} (h : HubEffect srv cmd c w cl hub)
    (hid : cl.id = c.client.id) (hbefore : ModeMatches c.client w.hub)
    (hreset : ¬ srv.ResetsInMode cmd c) : ModeMatches cl hub := by
  refine modeMatches_of_iff ?_
  rw [hid]
  cases h with
  | none hmode hhub => rw [hmode, hhub, hbefore.mode]
  | subscribed hpubsub t names hnames hmode hhub =>
      rw [hmode, hhub]
      exact iff_of_true rfl (Hub.hasSubscription_subscribe hnames)
  | unsubscribed hpubsub t order names hmode hhub =>
      rw [hmode]
      by_cases hnone : hub.getSubscriptionCount c.client.id = (0, 0)
      · rw [if_pos hnone]
        exact iff_of_false Bool.false_ne_true fun hhas => hhas hnone
      · rw [if_neg hnone]
        have hafter : hub.HasSubscription c.client.id := hnone
        rw [hhub] at hafter
        exact iff_of_true (hbefore.mode.mpr (Hub.hasSubscription_of_unsubscribe hafter)) hnone
  | removed hpubsub hwhen hmode hhub =>
      rw [hmode, hhub]
      exact iff_of_false (fun hin => hreset (hwhen hin)) (Hub.not_hasSubscription_removeSubscriber _ _)

/-! ### All connections -/

/-- The connections of a server, by the id of their client, and what they share. -/
structure System (σ : Type) where
  conns : ℕ → Option Conn
  world : World σ

/-- What happens to the connections of a server. -/
inductive ConnEvent
  | connect (id : ℕ) (addr : Bytes) (createdAt : ℤ)
  | command (id : ℕ) (e : Env) (cmd : Value)
  | close (id : ℕ)

/-- One event. -/
def systemStep (srv : Server σ) : ConnEvent → System σ → System σ
  | .connect id addr createdAt, s =>
      match s.conns id with
      | some _ => s
      | none => { s with conns := Function.update s.conns id (some (srv.connect id addr createdAt)) }
  | .command id e cmd, s =>
      match s.conns id with
      | none => s
      | some c =>
          let r := srv.handleCommand e cmd c s.world
          ⟨Function.update s.conns id (some r.2.1), r.2.2⟩
  | .close id, s =>
      match s.conns id with
      | none => s
      | some c => ⟨Function.update s.conns id none, srv.close ⟨[], c, s.world⟩⟩

def systemRun (srv : Server σ) (events : List ConnEvent) (s : System σ) : System σ :=
  events.foldl (fun s e => srv.systemStep e s) s

/-- A server before its first connection. -/
def System.start (store : σ) : System σ := ⟨fun _ => none, ⟨store, Hub.empty⟩⟩

/-- Clients have their own ids, and the hub knows nobody else. -/
structure System.Tidy (srv : Server σ) (s : System σ) : Prop where
  ids : ∀ id c, s.conns id = some c → c.client.id = id
  others : ∀ id, s.conns id = none → s.world.hub.subsOf id = fun _ => none
  off : srv.pubsub = false → s.world.hub = Hub.empty

/-- Every client's mode is right. -/
def System.Matches (s : System σ) : Prop :=
  ∀ id c, s.conns id = some c → ModeMatches c.client s.world.hub

theorem tidy_start (srv : Server σ) (store : σ) : (System.start store).Tidy srv := by
  refine ⟨?_, fun id _ => Hub.subsOf_empty id, fun _ => rfl⟩
  intro id c h
  cases h

/-- A step that concerns the client `id` only, whose connection becomes `oc`. -/
structure System.Concerns (srv : Server σ) (id : ℕ) (oc : Option Conn) (s s' : System σ) : Prop where
  conns : s'.conns = Function.update s.conns id oc
  own : ∀ c, oc = some c → c.client.id = id
  gone : oc = none → s'.world.hub.subsOf id = fun _ => none
  rest : ∀ id', id' ≠ id → s'.world.hub.subsOf id' = s.world.hub.subsOf id'
  off : srv.pubsub = false → s'.world.hub = s.world.hub

theorem System.Concerns.tidy {oc : Option Conn} {s s' : System σ}
    (h : System.Concerns srv id oc s s') (hs : s.Tidy srv) : s'.Tidy srv := by
  refine ⟨fun id' c hc => ?_, fun id' hc => ?_, fun hoff => (h.off hoff).trans (hs.off hoff)⟩
  · rw [h.conns, Function.update_apply] at hc
    split at hc
    · subst id'
      exact h.own c hc
    · exact hs.ids id' c hc
  · rw [h.conns, Function.update_apply] at hc
    split at hc
    · subst id'
      exact h.gone hc
    · rw [h.rest id' ‹_›]
      exact hs.others id' hc

theorem System.Concerns.matches {oc : Option Conn} {s s' : System σ}
    (h : System.Concerns srv id oc s s') (hs : s.Tidy srv) (hm : s.Matches)
    (hown : ∀ c, oc = some c → ModeMatches c.client s'.world.hub) : s'.Matches := by
  intro id' c hc
  rw [h.conns, Function.update_apply] at hc
  split at hc
  · exact hown c hc
  · have hid := hs.ids id' c hc
    refine modeMatches_of_iff ?_
    rw [(hm id' c hc).mode]
    refine (Hub.hasSubscription_congr (h.rest _ ?_)).symm
    rwa [hid]

theorem concerns_connect {s : System σ} (hid : s.conns id = none)
    (addr : Bytes) (createdAt : ℤ) :
    System.Concerns srv id (some (srv.connect id addr createdAt)) s
      (srv.systemStep (.connect id addr createdAt) s) := by
  rw [systemStep, hid]
  exact ⟨rfl, fun c hc => by cases hc; rfl, fun h => (Option.some_ne_none _ h).elim, fun _ _ => rfl,
    fun _ => rfl⟩

theorem concerns_command {s : System σ} (hs : s.Tidy srv) {c : Conn} (hid : s.conns id = some c)
    (e : Env) (cmd : Value) :
    System.Concerns srv id (some (srv.handleCommand e cmd c s.world).2.1) s
      (srv.systemStep (.command id e cmd) s) := by
  rw [systemStep, hid]
  obtain ⟨hsame, heffect⟩ := @handleCommand_stays σ srv e cmd c s.world
  have hc := hs.ids id c hid
  refine ⟨rfl, fun c' hc' => ?_, fun h => (Option.some_ne_none _ h).elim, fun id' hne => ?_, fun hoff => ?_⟩
  · cases hc'
    exact hsame.trans hc
  · exact heffect.other (by rwa [hc])
  · cases heffect with
    | none hmode hhub => exact hhub
    | subscribed hpubsub => rw [hoff] at hpubsub; cases hpubsub
    | unsubscribed hpubsub => rw [hoff] at hpubsub; cases hpubsub
    | removed hpubsub => rw [hoff] at hpubsub; cases hpubsub

theorem concerns_close {s : System σ} (hs : s.Tidy srv) {c : Conn} (hid : s.conns id = some c) :
    System.Concerns srv id none s (srv.systemStep (.close id) s) := by
  rw [systemStep, hid]
  have hc := hs.ids id c hid
  have hclose : (srv.close ⟨[], c, s.world⟩).hub =
      if srv.pubsub then s.world.hub.removeSubscriber id else s.world.hub := by
    rw [close, hc]
    split <;> rfl
  refine ⟨rfl, fun c hc => (Option.some_ne_none c hc.symm).elim, fun _ => ?_, fun id' hne => ?_, fun hoff => ?_⟩
  · dsimp only
    rw [hclose]
    split
    · funext t
      rw [Hub.subsOf_removeSubscriber, if_pos rfl]
    · rw [hs.off (Bool.eq_false_iff.mpr ‹_›), Hub.subsOf_empty]
  · dsimp only
    rw [hclose]
    split
    · funext t
      rw [Hub.subsOf_removeSubscriber, if_neg hne]
    · rfl
  · dsimp only
    rw [hclose, hoff]
    rfl

/-- The event takes the subscriptions of a client in pub/sub mode. -/
def System.ResetsInMode (srv : Server σ) (s : System σ) (ev : ConnEvent) : Prop :=
  ∃ id e cmd c, ev = .command id e cmd ∧ s.conns id = some c ∧ srv.ResetsInMode cmd c

/-- Every event keeps the connections in order. -/
theorem tidy_step {s : System σ} (hs : s.Tidy srv) (ev : ConnEvent) : (srv.systemStep ev s).Tidy srv := by
  cases ev with
  | connect id addr createdAt =>
      cases hid : s.conns id with
      | none => exact (concerns_connect hid addr createdAt).tidy hs
      | some c => simpa [systemStep, hid] using hs
  | command id e cmd =>
      cases hid : s.conns id with
      | none => simpa [systemStep, hid] using hs
      | some c => exact (concerns_command hs hid e cmd).tidy hs
  | close id =>
      cases hid : s.conns id with
      | none => simpa [systemStep, hid] using hs
      | some c => exact (concerns_close hs hid).tidy hs

theorem tidy_run {s : System σ} (hs : s.Tidy srv) (events : List ConnEvent) :
    (srv.systemRun events s).Tidy srv := by
  induction events generalizing s with
  | nil => exact hs
  | cons ev events ih => exact ih (tidy_step hs ev)

/-- **One step**: an event keeps every mode right exactly if it is not a `RESET` in the mode. -/
theorem matches_step {s : System σ} (hs : s.Tidy srv) (hm : s.Matches) (ev : ConnEvent) :
    (srv.systemStep ev s).Matches ↔ ¬ s.ResetsInMode srv ev := by
  cases ev with
  | connect id addr createdAt =>
      refine iff_of_true ?_ ?_
      · cases hid : s.conns id with
        | some c => simpa [systemStep, hid] using hm
        | none =>
            refine (concerns_connect hid addr createdAt).matches hs hm fun c hc => ?_
            cases hc
            refine modeMatches_of_iff (iff_of_false Bool.false_ne_true fun hhas => ?_)
            obtain ⟨t, name, hname⟩ := Hub.hasSubscription_iff.mp hhas
            have hnone : (srv.systemStep (.connect id addr createdAt) s).world.hub.subsOf id = fun _ => none := by
              rw [systemStep, hid]
              exact hs.others id hid
            rw [show (srv.connect id addr createdAt).client.id = id from rfl, hnone] at hname
            cases hname
      · rintro ⟨_, _, _, _, hev, -⟩
        cases hev
  | command id e cmd =>
      cases hid : s.conns id with
      | none =>
          refine iff_of_true (by simpa [systemStep, hid] using hm) ?_
          rintro ⟨_, _, _, c, hev, hc, -⟩
          cases hev
          rw [hid] at hc
          cases hc
      | some c =>
          have hconcerns := concerns_command hs hid e cmd
          obtain ⟨hsame, heffect⟩ := @handleCommand_stays σ srv e cmd c s.world
          have hworld : (srv.systemStep (.command id e cmd) s).world = (srv.handleCommand e cmd c s.world).2.2 := by
            rw [systemStep, hid]
          constructor
          · rintro hafter ⟨_, _, _, c', hev, hc', hreset⟩
            cases hev
            rw [hid] at hc'
            cases hc'
            obtain ⟨hmode, hhub⟩ := handleCommand_of_resetsInMode (e := e) (w := s.world) hreset
            have hmatch := hafter id _ (by rw [hconcerns.conns, Function.update_self])
            rw [hworld, hhub] at hmatch
            have hhas := hmatch.mode.mp hmode
            rw [hsame] at hhas
            exact Hub.not_hasSubscription_removeSubscriber _ _ hhas
          · intro hreset
            refine hconcerns.matches hs hm fun c' hc' => ?_
            cases hc'
            rw [hworld]
            exact heffect.matches hsame (hm id c hid) fun h => hreset ⟨id, e, cmd, c, rfl, hid, h⟩
  | close id =>
      refine iff_of_true ?_ ?_
      · cases hid : s.conns id with
        | none => simpa [systemStep, hid] using hm
        | some c => exact (concerns_close hs hid).matches hs hm fun c hc => (Option.some_ne_none c hc.symm).elim
      · rintro ⟨_, _, _, _, hev, -⟩
        cases hev

/-- **Pub/sub mode.**  Along a run, every client is in pub/sub mode exactly while it has a
subscription, in every state that is reached, if and only if no event of the run is a `RESET` of an
authenticated client that uses RESP3 and is in pub/sub mode. -/
theorem mode_matches_iff (srv : Server σ) (store : σ) (events : List ConnEvent) :
    (∀ n, (srv.systemRun (events.take n) (System.start store)).Matches) ↔
      ∀ n ev, events[n]? = some ev →
        ¬ (srv.systemRun (events.take n) (System.start store)).ResetsInMode srv ev := by
  have hstep (n : ℕ) {ev : ConnEvent} (hev : events[n]? = some ev) :
      srv.systemRun (events.take (n + 1)) (System.start store) =
        srv.systemStep ev (srv.systemRun (events.take n) (System.start store)) := by
    rw [List.take_add_one, hev, systemRun, List.foldl_append]
    rfl
  have htidy (n : ℕ) := tidy_run (tidy_start srv store) (events.take n)
  constructor
  · intro hall n ev hev
    have hnext := hall (n + 1)
    rw [hstep n hev] at hnext
    exact (matches_step (htidy n) (hall n) ev).mp hnext
  · intro hall n
    induction n with
    | zero =>
        intro id c hc
        cases hc
    | succ n ih =>
        cases hev : events[n]? with
        | none =>
            have hlength : events.length ≤ n := List.getElem?_eq_none_iff.mp hev
            rwa [List.take_of_length_le (by omega), ← List.take_of_length_le hlength]
        | some ev =>
            rw [hstep n hev]
            exact (matches_step (htidy n) ih ev).mpr (hall n ev hev)

/-- A server without a store. -/
def storeless : Server Unit where
  password := []
  pubsub := true
  executeWithOps _ _ _ _ _ := (.nullBulk, ())
  flushDB _ _ := (.ok (), ())
  runTx _ _ _ _ := (.nullArray, ())
  publish _ _ _ _ _ := (.ok 0, ())

/-- `HELLO 3`, `SUBSCRIBE c`, `RESET`: the client is back at RESP2 and without a subscription, still
in pub/sub mode, and its next command is refused. -/
theorem mode_after_reset :
    let e : Env := ⟨0, [], 0, []⟩
    let s := storeless.systemRun [.connect 1 [] 0, .command 1 e (request ["HELLO", "3"]),
      .command 1 e (request ["SUBSCRIBE", "c"]), .command 1 e (request ["RESET"])] (System.start ())
    (s.conns 1).map (fun c => (c.client.inPubSubMode, c.client.useRESP3)) = some (true, false) ∧
      s.world.hub.getSubscriptionCount 1 = (0, 0) ∧
      (s.conns 1).map (fun c => (storeless.handleCommand e (request ["GET", "k"]) c s.world).1.map Value.str) =
        some [utf8 "ERR only (P)SUBSCRIBE / (P)UNSUBSCRIBE / PING / QUIT allowed in this context"] := by
  decide

end Server

end Postkeys
