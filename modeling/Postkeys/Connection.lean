import Postkeys.Decimal
import Postkeys.Hub

/-! # Connections

The loop of a client connection: which handler a command goes to, by its name, the state of the
client and whether it has authenticated, and the handlers that do not need the store.  What the
store does is given from outside (`Server`), as functions on a state of any type. -/

namespace Postkeys

open Relational

/-! ### Clients -/

/-- The state of one connection, `ClientState`. -/
structure Client where
  id : ℕ
  name : Bytes
  addr : Bytes
  createdAt : ℤ
  libName : Bytes
  libVersion : Bytes
  protocolVersion : ℤ
  inTransaction : Bool
  queuedCommands : List Value
  inPubSubMode : Bool

namespace Client

/-- `NewClientState`. -/
def new (id : ℕ) (addr : Bytes) (createdAt : ℤ) : Client :=
  ⟨id, [], addr, createdAt, [], [], 2, false, [], false⟩

def setProtocolVersion (version : ℤ) (c : Client) : Client :=
  if 2 ≤ version ∧ version ≤ 3 then { c with protocolVersion := version } else c

def useRESP3 (c : Client) : Bool := decide (3 ≤ c.protocolVersion)

def setLibInfo (libName libVersion : Bytes) (c : Client) : Client :=
  let c := if libName ≠ [] then { c with libName := libName } else c
  if libVersion ≠ [] then { c with libVersion := libVersion } else c

/-- `GetInfo`; the age is in whole seconds. -/
def getInfo (now : ℤ) (c : Client) : Bytes :=
  utf8 "id=" ++ formatNat c.id ++ utf8 " addr=" ++ c.addr ++
    utf8 " age=" ++ formatInt ((now - c.createdAt) / 1000000000) ++ utf8 " name=" ++ c.name ++
    (if c.libName ≠ [] then utf8 " lib-name=" ++ c.libName else []) ++
    (if c.libVersion ≠ [] then utf8 " lib-ver=" ++ c.libVersion else [])

def startTransaction (c : Client) : Except Bytes Client :=
  if c.inTransaction then .error (utf8 "ERR MULTI calls can not be nested")
  else .ok { c with inTransaction := true, queuedCommands := [] }

def queueCommand (cmd : Value) (c : Client) : Client :=
  { c with queuedCommands := c.queuedCommands ++ [cmd] }

/-- `GetQueuedCommands` also ends the transaction. -/
def getQueuedCommands (c : Client) : List Value × Client :=
  (c.queuedCommands, { c with queuedCommands := [], inTransaction := false })

def discardTransaction (c : Client) : Except Bytes Client :=
  if c.inTransaction then .ok { c with inTransaction := false, queuedCommands := [] }
  else .error (utf8 "ERR DISCARD without MULTI")

end Client

/-! ### The server -/

/-- A server: its configuration, and what the store does with the commands that reach it.  `runTx`
runs a queue of commands, `publish` sends a message and counts the receivers of the hub. -/
structure Server (σ : Type) where
  password : Bytes
  pubsub : Bool
  executeWithOps : Env → ℤ → Bytes → List Value → σ → Value × σ
  flushDB : Env → σ → Except Bytes Unit × σ
  runTx : Env → ℤ → List Value → σ → Value × σ
  publish : Env → Bytes → Bytes → Hub → σ → Except Bytes ℤ × σ

/-- What all connections share: the store and the hub. -/
structure World (σ : Type) where
  store : σ
  hub : Hub

namespace Server

variable {σ : Type}

def requiresAuth (srv : Server σ) : Bool := decide (srv.password ≠ [])

def checkAuth (srv : Server σ) (providedPassword : Bytes) : Bool :=
  decide (srv.password = providedPassword)

/-! ### Commands without a store -/

def ping (args : List Value) : Value :=
  match args with
  | [] => .simple (utf8 "PONG")
  | a :: _ => .bulkOf a.bulk

def echo (args : List Value) : Value :=
  match args with
  | [a] => .bulkOf a.bulk
  | _ => .errWrongArgs "echo"

/-- `COMMAND` answers with an empty array, also to `DOCS`. -/
def command (_args : List Value) : Value := .arr []

def unknownSubcommand (subCmd : Bytes) : Value :=
  .err (utf8 "ERR Unknown subcommand or wrong number of arguments for '" ++ subCmd ++ utf8 "'")

def clusterInfo : Bytes :=
  utf8 "cluster_enabled:0\r\ncluster_state:ok\r\ncluster_slots_assigned:0\r\ncluster_slots_ok:0\r\n" ++
  utf8 "cluster_slots_pfail:0\r\ncluster_slots_fail:0\r\ncluster_known_nodes:1\r\ncluster_size:0\r\n" ++
  utf8 "cluster_current_epoch:0\r\ncluster_my_epoch:0\r\ncluster_stats_messages_sent:0\r\n" ++
  utf8 "cluster_stats_messages_received:0\r\ncluster_stats_messages_ping_sent:0\r\n" ++
  utf8 "cluster_stats_messages_pong_sent:0\r\ncluster_stats_messages_meet_sent:0\r\n" ++
  utf8 "cluster_stats_messages_ping_received:0\r\ncluster_stats_messages_pong_received:0\r\n" ++
  utf8 "cluster_stats_messages_meet_received:0"

def cluster (args : List Value) : Value :=
  match args with
  | [] => .errWrongArgs "cluster"
  | a :: _ =>
      let subCmd := toUpper a.bulk
      if subCmd = utf8 "INFO" then .bulkOf clusterInfo
      else if subCmd = utf8 "SLOTS" then .arr []
      else if subCmd = utf8 "NODES" then .bulkOf []
      else if subCmd = utf8 "MYID" then .bulkOf (utf8 "0000000000000000000000000000000000000000")
      else if subCmd = utf8 "KEYSLOT" then .int 0
      else unknownSubcommand subCmd

def selectDB (args : List Value) : Value :=
  match args with
  | [a] =>
      match parseInt a.bulk with
      | none => .err (utf8 "ERR value is not an integer or out of range")
      | some db => if db ≠ 0 then .err (utf8 "ERR DB index is out of range") else .ok
  | _ => .errWrongArgs "select"

def wait (args : List Value) : Value := if args.length < 2 then .errWrongArgs "wait" else .int 0

def config (args : List Value) : Value :=
  match args with
  | [] => .errWrongArgs "config"
  | a :: rest =>
      let subCmd := toUpper a.bulk
      if subCmd = utf8 "GET" then (if rest = [] then .errWrongArgs "config get" else .arr [])
      else if subCmd = utf8 "SET" then .ok
      else if subCmd = utf8 "RESETSTAT" then .ok
      else if subCmd = utf8 "REWRITE" then .ok
      else unknownSubcommand (utf8 "CONFIG " ++ subCmd)

def wrongPass : Value := .errCustom (utf8 "WRONGPASS invalid username-password pair")

/-- The options of `HELLO`; `some` is the error that ends them. -/
def helloOptions (srv : Server σ) : List Value → Option Value
  | [] => none
  | opt :: rest =>
      if toUpper opt.bulk = utf8 "AUTH" then
        match rest with
        | _ :: password :: rest =>
            if srv.requiresAuth && !srv.checkAuth password.bulk then some wrongPass
            else helloOptions srv rest
        | _ => some (.errWrongArgs "hello")
      else if toUpper opt.bulk = utf8 "SETNAME" then
        match rest with
        | _ :: rest => helloOptions srv rest
        | [] => some (.errWrongArgs "hello")
      else some (.err (utf8 "ERR Unknown option '" ++ opt.bulk ++ utf8 "' for HELLO"))

/-- The answer of a successful `HELLO`. -/
def helloReply (protover : ℤ) : Value :=
  .arr [.bulkOf (utf8 "server"), .bulkOf (utf8 "postkeys"), .bulkOf (utf8 "version"),
    .bulkOf (utf8 "1.0.0"), .bulkOf (utf8 "proto"), .int protover, .bulkOf (utf8 "id"), .int 0,
    .bulkOf (utf8 "mode"), .bulkOf (utf8 "standalone"), .bulkOf (utf8 "role"),
    .bulkOf (utf8 "master"), .bulkOf (utf8 "modules"), .arr []]

def hello (srv : Server σ) (args : List Value) : Value :=
  match args with
  | [] => helloReply 2
  | a :: options =>
      let version := parseInt a.bulk
      if version.any fun v => decide (v < 2 ∨ 3 < v) then .err (utf8 "NOPROTO unsupported protocol version")
      else (srv.helloOptions options).getD (helloReply (version.getD 2))

def auth (srv : Server σ) (args : List Value) : Value :=
  if !srv.requiresAuth then
    .err (utf8 ("AUTH <password> called without any password configured for the default user. " ++
      "Are you sure your configuration is correct?"))
  else
    match args with
    | [password] => if srv.checkAuth password.bulk then .ok else wrongPass
    | [_, password] => if srv.checkAuth password.bulk then .ok else wrongPass
    | _ => .errWrongArgs "auth"

/-- `GetHelloProtocolVersion`. -/
def getHelloProtocolVersion (args : List Value) : ℤ :=
  match args with
  | [] => 2
  | a :: _ => ((parseInt a.bulk).filter fun v => decide (2 ≤ v ∧ v ≤ 3)).getD 2

/-- The loop of `CheckHelloAuth`: whether there is an `AUTH` option, and whether its password is
right. -/
def checkHelloOptions (srv : Server σ) : List Value → Bool × Bool
  | [] => (false, false)
  | opt :: rest =>
      if toUpper opt.bulk = utf8 "AUTH" then
        match rest with
        | _ :: password :: _ => (true, srv.checkAuth password.bulk)
        | _ => (true, false)
      else if toUpper opt.bulk = utf8 "SETNAME" then
        match rest with
        | _ :: rest => checkHelloOptions srv rest
        | [] => (false, false)
      else (false, false)

/-- `CheckHelloAuth`: unlike `hello` it skips the first argument only if it is a number. -/
def checkHelloAuth (srv : Server σ) (args : List Value) : Bool × Bool :=
  match args with
  | [] => (false, false)
  | a :: rest => if (parseInt a.bulk).isSome then srv.checkHelloOptions rest else srv.checkHelloOptions args

/-! ### Routing -/

/-- `executeCommand`. -/
def executeCommand (srv : Server σ) (e : Env) (proto : ℤ) (cmdName : Bytes) (args : List Value)
    (s : σ) : Value × σ :=
  if cmdName = utf8 "PING" then (ping args, s)
  else if cmdName = utf8 "ECHO" then (echo args, s)
  else if cmdName = utf8 "QUIT" then (.ok, s)
  else if cmdName = utf8 "AUTH" then (srv.auth args, s)
  else if cmdName = utf8 "HELLO" then (srv.hello args, s)
  else if cmdName = utf8 "COMMAND" then (command args, s)
  else if cmdName = utf8 "CLUSTER" then (cluster args, s)
  else if cmdName = utf8 "CONFIG" then (config args, s)
  else if cmdName = utf8 "SELECT" then (selectDB args, s)
  else if cmdName = utf8 "WAIT" then (wait args, s)
  else if cmdName = utf8 "MULTI" ∨ cmdName = utf8 "EXEC" ∨ cmdName = utf8 "DISCARD" then
    (.err (utf8 "ERR " ++ cmdName ++ utf8 " must be handled with transaction context"), s)
  else if cmdName = utf8 "FLUSHDB" ∨ cmdName = utf8 "FLUSHALL" then
    match srv.flushDB e s with
    | (.error err, s) => (.err err, s)
    | (.ok _, s) => (.ok, s)
  else srv.executeWithOps e proto cmdName args s

/-- `Handle`. -/
def handle (srv : Server σ) (e : Env) (proto : ℤ) (cmd : Value) (s : σ) : Value × σ :=
  match cmd.type, cmd.array with
  | .array, name :: args => srv.executeCommand e proto (toUpper name.bulk) args s
  | _, _ => (.err (utf8 "invalid command format"), s)

/-- `executeClientCommand`. -/
def executeClientCommand (now : ℤ) (subCmd : Bytes) (args : List Value) (c : Client) : Value × Client :=
  if subCmd = utf8 "ID" then (.int c.id, c)
  else if subCmd = utf8 "GETNAME" then (if c.name = [] then .nullBulk else .bulkOf c.name, c)
  else if subCmd = utf8 "SETNAME" then
    match args with
    | [a] => (.ok, { c with name := a.bulk })
    | _ => (.errWrongArgs "client setname", c)
  else if subCmd = utf8 "SETINFO" then
    match args with
    | infoType :: infoValue :: _ =>
        if toUpper infoType.bulk = utf8 "LIB-NAME" then (.ok, c.setLibInfo infoValue.bulk [])
        else if toUpper infoType.bulk = utf8 "LIB-VER" then (.ok, c.setLibInfo [] infoValue.bulk)
        else (.err (utf8 "ERR Unknown argument for CLIENT SETINFO"), c)
    | _ => (.errWrongArgs "client setinfo", c)
  else if subCmd = utf8 "INFO" then (.bulkOf (c.getInfo now), c)
  else if subCmd = utf8 "LIST" then (.bulkOf (c.getInfo now ++ [10]), c)
  else if subCmd = utf8 "TRACKINGINFO" then (.arr [], c)
  else if subCmd = utf8 "CACHING" then (.ok, c)
  else if subCmd = utf8 "GETREDIR" then (.int (-1), c)
  else if subCmd = utf8 "UNPAUSE" ∨ subCmd = utf8 "PAUSE" then (.ok, c)
  else if subCmd = utf8 "NO-EVICT" ∨ subCmd = utf8 "NO-TOUCH" then (.ok, c)
  else if subCmd = utf8 "REPLY" then (if args.length ≠ 1 then .errWrongArgs "client reply" else .ok, c)
  else (unknownSubcommand subCmd, c)

/-- `HandleClient`. -/
def handleClient (now : ℤ) (args : List Value) (c : Client) : Value × Client :=
  match args with
  | [] => (.errWrongArgs "client", c)
  | subCmd :: args => executeClientCommand now (toUpper subCmd.bulk) args c

/-! ### Pub/sub -/

/-- The answers to a list of names with their counts, `other` subscriptions of the other kind
included. -/
def subscriptionResponses (kind : String) (names : List Bytes) (counts : List ℕ) (other : ℕ) :
    List Value :=
  List.zipWith (fun name cnt => buildSubscriptionResponse kind name (cnt + other)) names counts

/-- `HandleSubscribe`. -/
def handleSubscribe (hub : Hub) (c : Client) (channels : List Bytes) : List Value × Client × Hub :=
  if channels = [] then ([.errWrongArgs "subscribe"], c, hub)
  else
    let r := hub.channels.subscribe c.id channels
    let hub := { hub with channels := r.1 }
    (subscriptionResponses "subscribe" channels r.2 (hub.getSubscriptionCount c.id).2,
      { c with inPubSubMode := true }, hub)

/-- `HandlePSubscribe`. -/
def handlePSubscribe (hub : Hub) (c : Client) (patterns : List Bytes) : List Value × Client × Hub :=
  if patterns = [] then ([.errWrongArgs "psubscribe"], c, hub)
  else
    let r := hub.patterns.subscribe c.id patterns
    let hub := { hub with patterns := r.1 }
    (subscriptionResponses "psubscribe" patterns r.2 (hub.getSubscriptionCount c.id).1,
      { c with inPubSubMode := true }, hub)

/-- The client after `UNSUBSCRIBE` or `PUNSUBSCRIBE`: in pub/sub mode only while it has
subscriptions. -/
def afterUnsubscribe (hub : Hub) (c : Client) : Client :=
  if hub.getSubscriptionCount c.id = (0, 0) then { c with inPubSubMode := false } else c

/-- `HandleUnsubscribe`. -/
def handleUnsubscribe (order : List ℕ) (hub : Hub) (c : Client) (channels : List Bytes) :
    List Value × Client × Hub :=
  let names := if channels = [] then hub.channels.subscribed order c.id else channels
  let r := hub.channels.unsubscribe order c.id names
  let hub := { hub with channels := r.1 }
  let patternCount := (hub.getSubscriptionCount c.id).2
  (if names = [] then [buildSubscriptionResponse "unsubscribe" [] patternCount]
    else subscriptionResponses "unsubscribe" names r.2 patternCount, afterUnsubscribe hub c, hub)

/-- `HandlePUnsubscribe`. -/
def handlePUnsubscribe (order : List ℕ) (hub : Hub) (c : Client) (patterns : List Bytes) :
    List Value × Client × Hub :=
  let names := if patterns = [] then hub.patterns.subscribed order c.id else patterns
  let r := hub.patterns.unsubscribe order c.id names
  let hub := { hub with patterns := r.1 }
  let channelCount := (hub.getSubscriptionCount c.id).1
  (if names = [] then [buildSubscriptionResponse "punsubscribe" [] channelCount]
    else subscriptionResponses "punsubscribe" names r.2 channelCount, afterUnsubscribe hub c, hub)

/-! ### The connection loop -/

/-- A connection: its client and whether it has authenticated. -/
structure Conn where
  client : Client
  authenticated : Bool

/-- The start of a connection. -/
def connect (srv : Server σ) (id : ℕ) (addr : Bytes) (createdAt : ℤ) : Conn :=
  ⟨.new id addr createdAt, !srv.requiresAuth⟩

/-- The answer while there is no pub/sub hub. -/
def noPubSub : Value := .err (utf8 "pub/sub is not enabled")

/-- Run a pub/sub command if there is a hub. -/
def withHub (srv : Server σ) (c : Conn) (w : World σ)
    (f : Hub → Client → List Value × Client × Hub) : List Value × Conn × World σ :=
  if srv.pubsub then
    let r := f w.hub c.client
    (r.1, { c with client := r.2.1 }, { w with hub := r.2.2 })
  else ([noPubSub], c, w)

/-- A command the handler answers from the store. -/
def respond (srv : Server σ) (e : Env) (proto : ℤ) (cmd : Value) (c : Conn) (w : World σ) :
    List Value × Conn × World σ :=
  let r := srv.handle e proto cmd w.store
  ([r.1], c, { w with store := r.2 })

/-- `RESET`. -/
def reset (srv : Server σ) (c : Conn) (w : World σ) : List Value × Conn × World σ :=
  let client := match c.client.discardTransaction with
    | .ok client => client
    | .error _ => c.client
  ([.simple (utf8 "RESET")],
    ⟨{ client.setProtocolVersion 2 with name := [] }, c.authenticated && !srv.requiresAuth⟩,
    if srv.pubsub then { w with hub := w.hub.removeSubscriber client.id } else w)

/-- The commands an authenticated connection may send. -/
def handleAuthenticated (srv : Server σ) (e : Env) (cmd : Value) (cmdName : Bytes) (args : List Value)
    (c : Conn) (w : World σ) : List Value × Conn × World σ :=
  let names := args.map Value.bulk
  if cmdName = utf8 "SUBSCRIBE" then srv.withHub c w fun h cl => handleSubscribe h cl names
  else if cmdName = utf8 "UNSUBSCRIBE" then
    srv.withHub c w fun h cl => handleUnsubscribe e.order h cl names
  else if cmdName = utf8 "PSUBSCRIBE" then srv.withHub c w fun h cl => handlePSubscribe h cl names
  else if cmdName = utf8 "PUNSUBSCRIBE" then
    srv.withHub c w fun h cl => handlePUnsubscribe e.order h cl names
  else if cmdName = utf8 "PUBLISH" then
    if !srv.pubsub then ([noPubSub], c, w)
    else match args with
      | channel :: message :: _ =>
          match srv.publish e channel.bulk message.bulk w.hub w.store with
          | (.error err, s) => ([.err (utf8 "ERR " ++ err)], c, { w with store := s })
          | (.ok n, s) => ([.int n], c, { w with store := s })
      | _ => ([.errWrongArgs "publish"], c, w)
  else if c.client.inPubSubMode && !c.client.useRESP3 then
    if cmdName = utf8 "PING" then
      ([.arr [.bulkOf (utf8 "pong"), .bulkOf (match args with | [] => [] | a :: _ => a.bulk)]], c, w)
    else if cmdName = utf8 "QUIT" then srv.respond e c.client.protocolVersion cmd c w
    else ([.err (utf8 "only (P)SUBSCRIBE / (P)UNSUBSCRIBE / PING / QUIT allowed in this context")], c, w)
  else if cmdName = utf8 "RESET" then srv.reset c w
  else if cmdName = utf8 "MULTI" then
    match c.client.startTransaction with
    | .error err => ([.err err], c, w)
    | .ok client => ([.ok], { c with client := client }, w)
  else if cmdName = utf8 "EXEC" then
    if c.client.inTransaction then
      let queued := c.client.getQueuedCommands
      let r := srv.runTx e c.client.protocolVersion queued.1 w.store
      ([r.1], { c with client := queued.2 }, { w with store := r.2 })
    else ([.err (utf8 "EXEC without MULTI")], c, w)
  else if cmdName = utf8 "DISCARD" then
    match c.client.discardTransaction with
    | .error err => ([.err err], c, w)
    | .ok client => ([.ok], { c with client := client }, w)
  else if c.client.inTransaction then
    ([.simple (utf8 "QUEUED")], { c with client := c.client.queueCommand cmd }, w)
  else if cmdName = utf8 "CLIENT" then
    let r := handleClient e.time args c.client
    ([r.1], { c with client := r.2 }, w)
  else srv.respond e c.client.protocolVersion cmd c w

/-- One round of `handleConnection`: the replies to a command, the connection and the shared state
after it. -/
def handleCommand (srv : Server σ) (e : Env) (cmd : Value) (c : Conn) (w : World σ) :
    List Value × Conn × World σ :=
  match cmd.type, cmd.array with
  | .array, name :: args =>
      let cmdName := toUpper name.bulk
      if cmdName = utf8 "AUTH" then
        let r := srv.handle e c.client.protocolVersion cmd w.store
        ([r.1], { c with authenticated :=
            c.authenticated || decide (r.1.type = .simpleString ∧ r.1.str = utf8 "OK") },
          { w with store := r.2 })
      else if cmdName = utf8 "HELLO" then
        let a := srv.checkHelloAuth args
        let protoVersion := getHelloProtocolVersion args
        let r := srv.handle e protoVersion cmd w.store
        ([r.1], ⟨c.client.setProtocolVersion protoVersion,
            c.authenticated || (a.1 && a.2 && decide (r.1.type ≠ .error))⟩, { w with store := r.2 })
      else if !c.authenticated then
        if cmdName = utf8 "PING" ∨ cmdName = utf8 "QUIT" ∨ cmdName = utf8 "COMMAND" then
          srv.respond e c.client.protocolVersion cmd c w
        else ([.errCustom (utf8 "NOAUTH Authentication required.")], c, w)
      else srv.handleAuthenticated e cmd cmdName args c w
  | _, _ => srv.respond e c.client.protocolVersion cmd c w

/-- What one connection did: the commands with their replies, and where it stands. -/
structure Session (σ : Type) where
  replies : List (Value × List Value)
  conn : Conn
  world : World σ

/-- A sequence of commands on one connection. -/
def serve (srv : Server σ) : List (Env × Value) → Conn → World σ → Session σ
  | [], c, w => ⟨[], c, w⟩
  | (e, cmd) :: steps, c, w =>
      let r := srv.handleCommand e cmd c w
      let rest := srv.serve steps r.2.1 r.2.2
      ⟨(cmd, r.1) :: rest.replies, rest.conn, rest.world⟩

/-- The end of a connection. -/
def close (srv : Server σ) (s : Session σ) : World σ :=
  if srv.pubsub then { s.world with hub := s.world.hub.removeSubscriber s.conn.client.id } else s.world

end Server

end Postkeys
