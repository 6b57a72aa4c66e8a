import Postkeys.Connection
import Postkeys.Handlers.Hashes
import Postkeys.Handlers.Scripts
import Postkeys.Handlers.Sets
import Postkeys.Handlers.SortedSets

/-! # The commands and their handlers

`ExecuteWithOps` finds the handler of a command; `HandleExec` runs a queue of commands in one
transaction that locks the keys `commandKeys` finds in them.  `server` puts the handlers behind the
connections. -/

namespace Postkeys.Handlers

open Relational Proc

variable {S : Type} [GoFloat S]

/-! ### `ExecuteWithOps` -/

/-- How often a blocking command polls again: not at all inside a transaction. -/
def Config.pollsIn (cfg : Config) (noBlock : Bool) : ℕ := if noBlock then 0 else cfg.polls

/-- The commands besides those that run scripts. -/
def plainCommands (cfg : Config) (proto : ℤ) (noBlock : Bool) : List (String × (List Bytes → Proc S)) :=
  [("GET", getOp), ("SET", setOp), ("SETNX", setnxOp), ("SETEX", setexOp), ("MGET", mgetOp),
    ("MSET", msetOp), ("INCR", incrOp), ("DECR", decrOp), ("INCRBY", incrbyOp), ("DECRBY", decrbyOp),
    ("INCRBYFLOAT", incrbyfloatOp), ("APPEND", appendCmdOp), ("GETRANGE", getrangeOp),
    ("SETRANGE", setrangeOp), ("STRLEN", strlenOp), ("GETEX", getexOp), ("GETDEL", getdelOp),
    ("GETSET", getsetOp), ("BITFIELD", bitfieldOp),
    ("DEL", delOp), ("EXISTS", existsOp), ("EXPIRE", expireOp), ("PEXPIRE", pexpireOp),
    ("EXPIREAT", expireatOp), ("PEXPIREAT", pexpireatOp), ("TTL", ttlOp), ("PTTL", pttlOp),
    ("PERSIST", persistOp), ("KEYS", keysOp), ("TYPE", typeCmdOp), ("RENAME", renameOp),
    ("COPY", copyOp), ("RANDOMKEY", randomKeyOp), ("OBJECT", objectOp),
    ("HGET", hgetOp), ("HSET", hsetOp), ("HDEL", hdelOp), ("HGETALL", hgetallOp proto),
    ("HMGET", hmgetOp), ("HMSET", hmsetOp), ("HEXISTS", hexistsOp), ("HKEYS", hkeysOp),
    ("HVALS", hvalsOp), ("HLEN", hlenOp), ("HINCRBY", hincrbyOp), ("HINCRBYFLOAT", hincrbyfloatOp),
    ("HSETNX", hsetnxOp), ("HSCAN", hscanOp), ("HRANDFIELD", hrandfieldOp),
    ("WATCH", watchOp), ("UNWATCH", unwatchOp),
    ("LPUSH", lpushOp), ("RPUSH", rpushOp), ("LPOP", lpopOp), ("RPOP", rpopOp),
    ("BLPOP", blpopOp (cfg.pollsIn noBlock)), ("BRPOP", brpopOp (cfg.pollsIn noBlock)),
    ("LMPOP", lmpopOp), ("BLMPOP", blmpopOp (cfg.pollsIn noBlock)), ("LLEN", llenOp),
    ("LRANGE", lrangeOp), ("LINDEX", lindexOp), ("LREM", lremOp), ("LTRIM", ltrimOp),
    ("RPOPLPUSH", rpoplpushOp), ("LPOS", lposOp), ("LSET", lsetOp), ("LINSERT", linsertOp),
    ("SCAN", scanOp),
    ("SADD", saddOp), ("SREM", sremOp), ("SMEMBERS", smembersOp), ("SISMEMBER", sismemberOp),
    ("SCARD", scardOp), ("SMISMEMBER", smismemberOp), ("SINTER", sinterOp),
    ("SINTERSTORE", sinterstoreOp), ("SUNION", sunionOp), ("SUNIONSTORE", sunionstoreOp),
    ("SDIFF", sdiffOp), ("SDIFFSTORE", sdiffstoreOp), ("SINTERCARD", sintercardOp),
    ("SRANDMEMBER", srandmemberOp), ("SSCAN", sscanOp), ("UNLINK", unlinkOp),
    ("ZADD", zaddOp), ("ZRANGE", zrangeOp), ("ZRANGEBYSCORE", zrangebyscoreOp),
    ("ZREVRANGE", zrevrangeOp), ("ZREVRANGEBYSCORE", zrevrangebyscoreOp),
    ("ZRANGEBYLEX", zrangebylexOp), ("ZREVRANGEBYLEX", zrevrangebylexOp), ("ZLEXCOUNT", zlexcountOp),
    ("ZRANGESTORE", zrangestoreOp), ("ZRANDMEMBER", zrandmemberOp), ("ZMPOP", zmpopOp),
    ("BZMPOP", bzmpopOp (cfg.pollsIn noBlock)), ("ZSCORE", zscoreOp), ("ZREM", zremOp),
    ("ZREMRANGEBYSCORE", zremrangebyscoreOp), ("ZREMRANGEBYRANK", zremrangebyrankOp),
    ("ZCARD", zcardOp), ("ZINCRBY", zincrbyOp), ("ZPOPMIN", zpopminOp), ("ZPOPMAX", zpopmaxOp),
    ("ZRANK", zrankOp), ("ZREVRANK", zrevrankOp), ("ZCOUNT", zcountOp), ("ZSCAN", zscanOp),
    ("ZUNIONSTORE", zunionstoreOp), ("ZINTERSTORE", zinterstoreOp),
    ("PFADD", pfaddOp), ("PFCOUNT", pfcountOp), ("PFMERGE", pfmergeOp),
    ("SETBIT", setbitOp), ("GETBIT", getbitOp), ("BITCOUNT", bitcountOp), ("BITOP", bitopOp),
    ("BITPOS", bitposOp), ("INFO", infoOp cfg.process), ("DBSIZE", dbsizeOp)]

/-- The reply to a command nobody knows. -/
def unknownCommand (cmdName : Bytes) : Proc S :=
  reply (.err (utf8 "unknown command '" ++ cmdName ++ utf8 "'"))

/-- The handler of a command in a table. -/
def findHandler (commands : List (String × (List Bytes → Proc S))) (cmdName : Bytes) :
    Option (List Bytes → Proc S) :=
  (commands.find? fun p => decide (utf8 p.1 = cmdName)).map Prod.snd

/-- Run a command of a table. -/
def dispatch (commands : List (String × (List Bytes → Proc S))) (cmdName : Bytes) (args : List Bytes) :
    Proc S :=
  match findHandler commands cmdName with
  | some handler => handler args
  | none => unknownCommand cmdName

/-- The commands inside a script. -/
def executeInScript (cfg : Config) (proto : ℤ) : Bytes → List Bytes → Proc S :=
  dispatch (plainCommands cfg proto true)

/-- The commands that run scripts. -/
def scriptCommands (cfg : Config) (proto : ℤ) : List (String × (List Bytes → Proc S)) :=
  [("EVAL", evalOp cfg (executeInScript cfg proto)), ("EVALSHA", evalshaOp cfg (executeInScript cfg proto)),
    ("SCRIPT", scriptOp cfg)]

/-- `ExecuteWithOps`. -/
def executeWithOps (cfg : Config) (proto : ℤ) (noBlock : Bool) : Bytes → List Bytes → Proc S :=
  dispatch (plainCommands cfg proto noBlock ++ scriptCommands cfg proto)

/-! ### The keys of a command -/

/-- The keys after a number of keys at position `i`; `none` where the slice is out of range. -/
def numkeysAt (args : List Bytes) (i : ℕ) : Option (List Bytes) :=
  match args.drop i with
  | [] => some []
  | a :: rest =>
      match parseInt a with
      | none => some []
      | some n =>
          if n < 0 ∨ (args.length : ℤ) < int64 (i + 1 + n) then some []
          else if (args.length : ℤ) < i + 1 + n then none
          else some (rest.take n.toNat)

/-- Every other argument. -/
def everyOther : List Bytes → List Bytes
  | k :: _ :: rest => k :: everyOther rest
  | [k] => [k]
  | [] => []

/-- Commands without keys. -/
def keyless : List String :=
  ["PING", "ECHO", "KEYS", "SCAN", "RANDOMKEY", "INFO", "DBSIZE", "SCRIPT", "WATCH", "UNWATCH", "OBJECT"]

/-- Commands all of whose arguments are keys. -/
def keysOnly : List String :=
  ["DEL", "UNLINK", "EXISTS", "MGET", "SINTER", "SUNION", "SDIFF", "SINTERSTORE", "SUNIONSTORE",
    "SDIFFSTORE", "PFCOUNT", "PFMERGE"]

/-- `commandKeys`; `none` where the code panics. -/
def commandKeys (cmdName : Bytes) (args : List Bytes) : Option (List Bytes) :=
  if cmdName ∈ keyless.map utf8 then some []
  else if cmdName ∈ keysOnly.map utf8 then some args
  else if cmdName = utf8 "MSET" then some (everyOther args)
  else if cmdName ∈ ["RENAME", "COPY", "RPOPLPUSH", "ZRANGESTORE"].map utf8 then
    some (if args.length < 2 then [] else args.take 2)
  else if cmdName ∈ ["BLPOP", "BRPOP"].map utf8 then some args.dropLast
  else if cmdName ∈ ["LMPOP", "ZMPOP", "SINTERCARD"].map utf8 then numkeysAt args 0
  else if cmdName ∈ ["BLMPOP", "BZMPOP"].map utf8 then numkeysAt args 1
  else if cmdName ∈ ["ZUNIONSTORE", "ZINTERSTORE"].map utf8 then
    match args with
    | [] => some []
    | a :: _ => (numkeysAt args 1).map (a :: ·)
  else if cmdName = utf8 "BITOP" then some (if args.length < 2 then [] else args.tail)
  else if cmdName ∈ ["EVAL", "EVALSHA"].map utf8 then numkeysAt args 1
  else some (args.take 1)

/-! ### `EXEC` -/

/-- The name and the arguments of a command that has a name. -/
def commandWords (cmd : Value) : Option (Bytes × List Bytes) :=
  match cmd.type, cmd.array with
  | .array, name :: args => some (toUpper name.bulk, args.map Value.bulk)
  | _, _ => none

/-- One command of the queue. -/
def queuedCommand (cfg : Config) (proto : ℤ) (cmd : Value) : Proc S :=
  match commandWords cmd with
  | none => err "invalid command format"
  | some (name, args) => executeWithOps cfg proto true name args

/-- The commands of the queue one after the other, with the replies so far. -/
def execQueue (run : Value → Proc S) : List Value → List Value → Proc S
  | results, [] => reply (.arr results)
  | results, cmd :: cmds => (run cmd).andThen fun v => execQueue run (results ++ [v]) cmds

/-- The keys of all commands of a queue; `none` where the code panics. -/
def queueKeys (cmds : List Value) : Option (List Bytes) :=
  (cmds.mapM fun cmd => (commandWords cmd).elim (some []) fun w => commandKeys w.1 w.2).map List.flatten

/-- `HandleExec` inside `MULTI`. -/
def handleExec (cfg : Config) (proto : ℤ) (cmds : List Value) : Proc S :=
  match queueKeys cmds with
  | none => crash "runtime error: slice bounds out of range"
  | some keys => atomic keys (execQueue (queuedCommand cfg proto) [] cmds) reply

/-! ### Behind the connections -/

/-- The state behind all connections; a panic leaves a server that is down. -/
structure State (S : Type) where
  running : Bool
  scripts : ScriptCache
  db : DB S

/-- Run a handler on the state. -/
def State.run (e : Env) (p : Proc S) (s : State S) : Value × State S :=
  if s.running then
    match p.direct e s.scripts s.db with
    | (.ok v, sc, d) => (v, ⟨true, sc, d⟩)
    | (.error _, sc, d) => (.nullBulk, ⟨false, sc, d⟩)
  else (.nullBulk, s)

/-- The server with these handlers; `base` has the password and what pub/sub needs. -/
def server (cfg : Config) (base : Server (State S)) : Server (State S) where
  password := base.password
  pubsub := base.pubsub
  executeWithOps e proto cmdName args :=
    State.run e (executeWithOps cfg proto false cmdName (args.map Value.bulk))
  flushDB e s :=
    match Cmd.flushDB.exec e s.db with
    | (.ok _, d) => (.ok (), { s with db := d })
    | (.error f, d) => (.error (utf8 (failureText f)), { s with db := d })
  runTx e proto cmds := State.run e (handleExec cfg proto cmds)
  publish := base.publish

end Postkeys.Handlers
