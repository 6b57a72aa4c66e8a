import Postkeys.Querier.Bitmaps
import Postkeys.Querier.Hashes
import Postkeys.Querier.HyperLogLogs
import Postkeys.Querier.Keys
import Postkeys.Querier.Sets
import Postkeys.Querier.SortedSets

/-! # Storage commands

`Cmd` lists the operations of the storage interface with their arguments, `Cmd.op` is what each of
them runs, and `Cmd.exec` is one call on the store: writes run in a transaction of their own that is
rolled back on any failure, reads and the single-statement deletes run on the connection pool. -/

namespace Postkeys

open Relational

variable {S : Type}

/-- A storage command. -/
inductive Cmd (S : Type)
  | get (key : Bytes)
  | set (key value : Bytes) (ttl : ℤ)
  | setNX (key value : Bytes) (ttl : ℤ)
  | mGet (keys : List Bytes)
  | mSet (pairs : Table Bytes Bytes)
  | incr (key : Bytes) (delta : ℤ)
  | incrByFloat (key : Bytes) (delta : S)
  | append (key value : Bytes)
  | getRange (key : Bytes) (start stop : ℤ)
  | setRange (key : Bytes) (offset : ℤ) (value : Bytes)
  | strLen (key : Bytes)
  | getEx (key : Bytes) (ttl : ℤ) (persist : Bool)
  | getDel (key : Bytes)
  | getSet (key value : Bytes)
  | bitField (key : Bytes) (ops : List BitFieldOp)
  | del (keys : List Bytes)
  | existsKeys (keys : List Bytes)
  | expire (key : Bytes) (ttl : ℤ) (opts : ExpireOptions)
  | expireAt (key : Bytes) (timestamp : ℤ) (opts : ExpireOptions)
  | ttl (key : Bytes)
  | pttl (key : Bytes)
  | persist (key : Bytes)
  | keys (pattern : Bytes)
  | keyType (key : Bytes)
  | rename (oldKey newKey : Bytes)
  | copy (source destination : Bytes) (replace : Bool)
  | randomKey
  | setBit (key : Bytes) (offset value : ℤ)
  | getBit (key : Bytes) (offset : ℤ)
  | bitCount (key : Bytes) (start stop : ℤ) (useBit : Bool)
  | bitOp (operation : BitOperation) (destKey : Bytes) (keys : List Bytes)
  | bitPos (key : Bytes) (bit start stop : ℤ) (useBit : Bool)
  | hGet (key field : Bytes)
  | hSet (key : Bytes) (fields : Table Bytes Bytes)
  | hDel (key : Bytes) (fields : List Bytes)
  | hGetAll (key : Bytes)
  | hMGet (key : Bytes) (fields : List Bytes)
  | hExists (key field : Bytes)
  | hKeys (key : Bytes)
  | hVals (key : Bytes)
  | hLen (key : Bytes)
  | hIncrBy (key field : Bytes) (increment : ℤ)
  | hIncrByFloat (key field : Bytes) (increment : S)
  | hSetNX (key field value : Bytes)
  | hRandField (key : Bytes) (cnt : ℤ) (withValues : Bool)
  | lPush (key : Bytes) (values : List Bytes)
  | rPush (key : Bytes) (values : List Bytes)
  | lPop (key : Bytes)
  | rPop (key : Bytes)
  | lPopMulti (keys : List Bytes)
  | rPopMulti (keys : List Bytes)
  | lMPop (keys : List Bytes) (cnt : ℤ)
  | rMPop (keys : List Bytes) (cnt : ℤ)
  | lLen (key : Bytes)
  | lRange (key : Bytes) (start stop : ℤ)
  | lIndex (key : Bytes) (index : ℤ)
  | lRem (key : Bytes) (cnt : ℤ) (element : Bytes)
  | lTrim (key : Bytes) (start stop : ℤ)
  | rPopLPush (source destination : Bytes)
  | lPos (key element : Bytes) (rank cnt maxlen : ℤ)
  | lSet (key : Bytes) (index : ℤ) (element : Bytes)
  | lInsert (key pivot element : Bytes) (before : Bool)
  | sAdd (key : Bytes) (members : List Bytes)
  | sRem (key : Bytes) (members : List Bytes)
  | sMembers (key : Bytes)
  | sIsMember (key member : Bytes)
  | sCard (key : Bytes)
  | sMIsMember (key : Bytes) (members : List Bytes)
  | sInter (keys : List Bytes)
  | sInterStore (destination : Bytes) (keys : List Bytes)
  | sUnion (keys : List Bytes)
  | sUnionStore (destination : Bytes) (keys : List Bytes)
  | sDiff (keys : List Bytes)
  | sDiffStore (destination : Bytes) (keys : List Bytes)
  | sInterCard (keys : List Bytes) (limit : ℤ)
  | sRandMember (key : Bytes) (cnt : ℤ)
  | zAdd (key : Bytes) (members : List (ZMember S)) (opts : ZAddOptions)
  | zRange (key : Bytes) (start stop : ℤ)
  | zRangeByScore (key : Bytes) (min max : S) (offset cnt : ℤ)
  | zRevRange (key : Bytes) (start stop : ℤ)
  | zRevRangeByScore (key : Bytes) (min max : S) (offset cnt : ℤ)
  | zRangeByLex (key : Bytes) (min max : LexBound) (offset cnt : ℤ)
  | zRevRangeByLex (key : Bytes) (min max : LexBound) (offset cnt : ℤ)
  | zLexCount (key : Bytes) (min max : LexBound)
  | zRangeStore (dst src : Bytes) (spec : ZRangeStoreSpec S)
  | zRandMember (key : Bytes) (cnt : ℤ)
  | zMPopMin (keys : List Bytes) (cnt : ℤ)
  | zMPopMax (keys : List Bytes) (cnt : ℤ)
  | zScore (key member : Bytes)
  | zRem (key : Bytes) (members : List Bytes)
  | zRemRangeByScore (key : Bytes) (min max : S)
  | zRemRangeByRank (key : Bytes) (start stop : ℤ)
  | zCard (key : Bytes)
  | zIncrBy (key : Bytes) (increment : S) (member : Bytes)
  | zPopMin (key : Bytes) (cnt : ℤ)
  | zPopMax (key : Bytes) (cnt : ℤ)
  | zRank (key member : Bytes)
  | zRevRank (key member : Bytes)
  | zCount (key : Bytes) (min max : S)
  | zScan (key : Bytes) (cursor : ℤ) (pattern : Bytes) (cnt : ℤ)
  | zUnionStore (destination : Bytes) (keys : List Bytes) (weights : List S) (aggregate : Aggregate)
  | zInterStore (destination : Bytes) (keys : List Bytes) (weights : List S) (aggregate : Aggregate)
  | pfAdd (key : Bytes) (elements : List Bytes)
  | pfCount (keys : List Bytes)
  | pfMerge (destKey : Bytes) (sourceKeys : List Bytes)
  | dbSize
  | flushDB

/-- What a storage command returns. -/
inductive Reply (S : Type)
  | ok
  | int (n : ℤ)
  | bool (b : Bool)
  | bytes (v : Bytes)
  | value (v : Option Bytes)
  | values (vs : List Bytes)
  | optValues (vs : List (Option Bytes))
  | ints (ns : List ℤ)
  | optInt (n : Option ℤ)
  | optInts (ns : List (Option ℤ))
  | bools (bs : List Bool)
  | fields (m : Table Bytes Bytes)
  | float (x : S)
  | optFloat (x : Option S)
  | type (kt : Option KeyType)
  | members (ms : List (ZMember S))
  | page (p : ℤ × List (ZMember S))
  | popped (p : Option (Bytes × Bytes))
  | poppedMany (p : Option (Bytes × List Bytes))
  | poppedMembers (p : Option (Bytes × List (ZMember S)))

/-- The operation behind a command. -/
def Cmd.op [Float64 S] : Cmd S → Op S (Reply S)
  | .get key => .value <$> Postkeys.get key
  | .set key value t => (fun _ => .ok) <$> Postkeys.set key value t
  | .setNX key value t => .bool <$> Postkeys.setNX key value t
  | .mGet ks => .optValues <$> Postkeys.mGet ks
  | .mSet pairs => (fun _ => .ok) <$> Postkeys.mSet pairs
  | .incr key delta => .int <$> Postkeys.incr key delta
  | .incrByFloat key delta => .float <$> Postkeys.incrByFloat key delta
  | .append key value => .int <$> Postkeys.appendStr key value
  | .getRange key start stop => .bytes <$> Postkeys.getRange key start stop
  | .setRange key offset value => .int <$> Postkeys.setRange key offset value
  | .strLen key => .int <$> Postkeys.strLen key
  | .getEx key t p => .value <$> Postkeys.getEx key t p
  | .getDel key => .value <$> Postkeys.getDel key
  | .getSet key value => .value <$> Postkeys.getSet key value
  | .bitField key ops => .optInts <$> Postkeys.bitField key ops
  | .del ks => .int <$> Postkeys.del ks
  | .existsKeys ks => .int <$> Postkeys.existsKeys ks
  | .expire key t opts => .bool <$> Postkeys.expire key t opts
  | .expireAt key timestamp opts => .bool <$> Postkeys.expireAt key timestamp opts
  | .ttl key => .int <$> Postkeys.ttl key
  | .pttl key => .int <$> Postkeys.pttl key
  | .persist key => .bool <$> Postkeys.persist key
  | .keys pattern => .values <$> Postkeys.keys pattern
  | .keyType key => .type <$> Postkeys.keyType key
  | .rename oldKey newKey => (fun _ => .ok) <$> Postkeys.rename oldKey newKey
  | .copy source destination replace => .bool <$> Postkeys.copyKey source destination replace
  | .randomKey => .value <$> Postkeys.randomKey
  | .setBit key offset value => .int <$> Postkeys.setBit key offset value
  | .getBit key offset => .int <$> Postkeys.getBit key offset
  | .bitCount key start stop useBit => .int <$> Postkeys.bitCount key start stop useBit
  | .bitOp operation destKey ks => .int <$> Postkeys.bitOp operation destKey ks
  | .bitPos key bit start stop useBit => .int <$> Postkeys.bitPos key bit start stop useBit
  | .hGet key field => .value <$> Postkeys.hGet key field
  | .hSet key fields => .int <$> Postkeys.hSet key fields
  | .hDel key fields => .int <$> Postkeys.hDel key fields
  | .hGetAll key => .fields <$> Postkeys.hGetAll key
  | .hMGet key fields => .optValues <$> Postkeys.hMGet key fields
  | .hExists key field => .bool <$> Postkeys.hExists key field
  | .hKeys key => .values <$> Postkeys.hKeys key
  | .hVals key => .values <$> Postkeys.hVals key
  | .hLen key => .int <$> Postkeys.hLen key
  | .hIncrBy key field increment => .int <$> Postkeys.hIncrBy key field increment
  | .hIncrByFloat key field increment => .float <$> Postkeys.hIncrByFloat key field increment
  | .hSetNX key field value => .bool <$> Postkeys.hSetNX key field value
  | .hRandField key cnt withValues => .values <$> Postkeys.hRandField key cnt withValues
  | .lPush key values => .int <$> Postkeys.lPush key values
  | .rPush key values => .int <$> Postkeys.rPush key values
  | .lPop key => .value <$> Postkeys.lPop key
  | .rPop key => .value <$> Postkeys.rPop key
  | .lPopMulti ks => .popped <$> Postkeys.lPopMulti ks
  | .rPopMulti ks => .popped <$> Postkeys.rPopMulti ks
  | .lMPop ks cnt => .poppedMany <$> Postkeys.lMPop ks cnt
  | .rMPop ks cnt => .poppedMany <$> Postkeys.rMPop ks cnt
  | .lLen key => .int <$> Postkeys.lLen key
  | .lRange key start stop => .values <$> Postkeys.lRange key start stop
  | .lIndex key index => .value <$> Postkeys.lIndex key index
  | .lRem key cnt element => .int <$> Postkeys.lRem key cnt element
  | .lTrim key start stop => (fun _ => .ok) <$> Postkeys.lTrim key start stop
  | .rPopLPush source destination => .value <$> Postkeys.rPopLPush source destination
  | .lPos key element rank cnt maxlen => .ints <$> Postkeys.lPos key element rank cnt maxlen
  | .lSet key index element => (fun _ => .ok) <$> Postkeys.lSet key index element
  | .lInsert key pivot element before => .int <$> Postkeys.lInsert key pivot element before
  | .sAdd key members => .int <$> Postkeys.sAdd key members
  | .sRem key members => .int <$> Postkeys.sRem key members
  | .sMembers key => .values <$> Postkeys.sMembers key
  | .sIsMember key member => .bool <$> Postkeys.sIsMember key member
  | .sCard key => .int <$> Postkeys.sCard key
  | .sMIsMember key members => .bools <$> Postkeys.sMIsMember key members
  | .sInter ks => .values <$> Postkeys.sInter ks
  | .sInterStore destination ks => .int <$> Postkeys.sInterStore destination ks
  | .sUnion ks => .values <$> Postkeys.sUnion ks
  | .sUnionStore destination ks => .int <$> Postkeys.sUnionStore destination ks
  | .sDiff ks => .values <$> Postkeys.sDiff ks
  | .sDiffStore destination ks => .int <$> Postkeys.sDiffStore destination ks
  | .sInterCard ks limit => .int <$> Postkeys.sInterCard ks limit
  | .sRandMember key cnt => .values <$> Postkeys.sRandMember key cnt
  | .zAdd key members opts => .int <$> Postkeys.zAdd key members opts
  | .zRange key start stop => .members <$> Postkeys.zRange key start stop
  | .zRangeByScore key min max offset cnt =>
      .members <$> Postkeys.zRangeByScore key min max offset cnt
  | .zRevRange key start stop => .members <$> Postkeys.zRevRange key start stop
  | .zRevRangeByScore key min max offset cnt =>
      .members <$> Postkeys.zRevRangeByScore key min max offset cnt
  | .zRangeByLex key min max offset cnt => .values <$> Postkeys.zRangeByLex key min max offset cnt
  | .zRevRangeByLex key min max offset cnt =>
      .values <$> Postkeys.zRevRangeByLex key min max offset cnt
  | .zLexCount key min max => .int <$> Postkeys.zLexCount key min max
  | .zRangeStore dst src spec => .int <$> Postkeys.zRangeStore dst src spec
  | .zRandMember key cnt => .members <$> Postkeys.zRandMember key cnt
  | .zMPopMin ks cnt => .poppedMembers <$> Postkeys.zMPopMin ks cnt
  | .zMPopMax ks cnt => .poppedMembers <$> Postkeys.zMPopMax ks cnt
  | .zScore key member => .optFloat <$> Postkeys.zScore key member
  | .zRem key members => .int <$> Postkeys.zRem key members
  | .zRemRangeByScore key min max => .int <$> Postkeys.zRemRangeByScore key min max
  | .zRemRangeByRank key start stop => .int <$> Postkeys.zRemRangeByRank key start stop
  | .zCard key => .int <$> Postkeys.zCard key
  | .zIncrBy key increment member => .float <$> Postkeys.zIncrBy key increment member
  | .zPopMin key cnt => .members <$> Postkeys.zPopMin key cnt
  | .zPopMax key cnt => .members <$> Postkeys.zPopMax key cnt
  | .zRank key member => .optInt <$> Postkeys.zRank key member
  | .zRevRank key member => .optInt <$> Postkeys.zRevRank key member
  | .zCount key min max => .int <$> Postkeys.zCount key min max
  | .zScan key cursor pattern cnt => .page <$> Postkeys.zScan key cursor pattern cnt
  | .zUnionStore destination ks weights aggregate =>
      .int <$> Postkeys.zUnionStore destination ks weights aggregate
  | .zInterStore destination ks weights aggregate =>
      .int <$> Postkeys.zInterStore destination ks weights aggregate
  | .pfAdd key elements => .int <$> Postkeys.pfAdd key elements
  | .pfCount ks => .int <$> Postkeys.pfCount ks
  | .pfMerge destKey sourceKeys => (fun _ => .ok) <$> Postkeys.pfMerge destKey sourceKeys
  | .dbSize => .int <$> Postkeys.dbSize
  | .flushDB => (fun _ => .ok) <$> Postkeys.flushDB

/-- Whether a command runs on the connection pool, without a transaction of its own. -/
def Cmd.pooled : Cmd S → Bool
  | .get _ | .mGet _ | .getRange _ _ _ | .strLen _ | .existsKeys _ | .ttl _ | .pttl _ | .keys _
  | .keyType _ | .randomKey | .getBit _ _ | .bitCount _ _ _ _ | .bitPos _ _ _ _ _ | .hGet _ _
  | .hDel _ _ | .hGetAll _ | .hMGet _ _ | .hExists _ _ | .hKeys _ | .hVals _ | .hLen _
  | .hRandField _ _ _ | .lLen _ | .lRange _ _ _ | .lIndex _ _ | .lRem _ _ _ | .lPos _ _ _ _ _
  | .sRem _ _ | .sMembers _ | .sIsMember _ _ | .sCard _ | .sMIsMember _ _ | .sInter _ | .sUnion _
  | .sDiff _ | .sInterCard _ _ | .sRandMember _ _ | .zRange _ _ _ | .zRangeByScore _ _ _ _ _
  | .zRevRange _ _ _ | .zRevRangeByScore _ _ _ _ _ | .zRangeByLex _ _ _ _ _
  | .zRevRangeByLex _ _ _ _ _ | .zLexCount _ _ _ | .zRandMember _ _ | .zScore _ _ | .zRem _ _
  | .zRemRangeByScore _ _ _ | .zCard _ | .zRank _ _ | .zRevRank _ _ | .zCount _ _ _
  | .zScan _ _ _ _ | .pfCount _ | .dbSize | .flushDB => true
  | _ => false

/-- What `Commit` reports when the server has rolled the transaction back. -/
def commitRollback : Failure := .error "commit unexpectedly resulted in rollback"

/-- One call of a command on the store, alone: its reply and the database afterwards. -/
def Cmd.exec [Float64 S] (e : Env) (c : Cmd S) (d : DB S) : Except Failure (Reply S) × DB S :=
  match c.op.eval e (Tx.clean d) with
  | (.ok r, tx) => if tx.aborted && !c.pooled then (.error commitRollback, d) else (.ok r, tx.view)
  | (.error f, tx) => (.error f, if c.pooled then tx.view else d)

/-! ### Runs -/

/-- The database before the first command. -/
def emptyDB : DB S := fun _ => ∅

/-- The states reached from empty tables by commands that satisfy `ok` where they are called, with
the `NOW()` of the last command.  `ok` takes the `NOW()` of the command before too. -/
inductive Reached [Float64 S] (ok : Time → Env → Cmd S → DB S → Prop) : Time → DB S → Prop
  | start (now : Time) : Reached ok now emptyDB
  | step {now : Time} {d : DB S} (e : Env) (c : Cmd S) (h : Reached ok now d) (hok : ok now e c d) :
      Reached ok e.now (c.exec e d).2

/-- An environment for concrete runs, in which both clocks agree. -/
def envAt (now : Time) : Env := ⟨now, [], now * 1000, []⟩

@[simp] theorem rows_emptyDB (t : Tab) (k : Bytes) : (emptyDB : DB S).rows t k = ∅ :=
  Table.ext_row fun _ => rfl

end Postkeys
