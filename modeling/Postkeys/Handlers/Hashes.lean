import Postkeys.Handlers.Strings

/-! # Hash commands -/

namespace Postkeys.Handlers

open Relational Proc

variable {S : Type} [GoFloat S]

def hgetOp : List Bytes → Proc S
  | [key, field] => answer (.hGet key field)
  | _ => wrongArgs "hget"

/-- `HSET` and `HMSET`: the number of arguments, and the fields with their values. -/
def hsetFields (cmd : String) (next : Bytes → Table Bytes Bytes → Proc S) (args : List Bytes) : Proc S :=
  if args.length < 3 ∨ (args.length - 1) % 2 ≠ 0 then wrongArgs cmd
  else next (args.headD []) (pairsOf ∅ args.tail)

def hsetOp : List Bytes → Proc S := hsetFields "hset" fun key fields => answerTyped (.hSet key fields)

/-- `HMSET` does not send the number of new fields. -/
def hmsetOp : List Bytes → Proc S :=
  hsetFields "hmset" fun key fields => storeTyped (.hSet key fields) fun _ => reply .ok

def hdelOp : List Bytes → Proc S
  | key :: field :: fields => answer (.hDel key (field :: fields))
  | _ => wrongArgs "hdel"

/-- `HGETALL`: a map for RESP3, else one array; the map is walked in random order. -/
def hgetallOp (proto : ℤ) : List Bytes → Proc S
  | [key] => store (.hGetAll key) fun r => read fun reading =>
      let fields := Table.shuffle reading.random r.asFields.toList
      reply (if 3 ≤ proto then .mapVal fields else flatFields fields)
  | _ => wrongArgs "hgetall"

def hmgetOp : List Bytes → Proc S
  | key :: field :: fields => answer (.hMGet key (field :: fields))
  | _ => wrongArgs "hmget"

def hexistsOp : List Bytes → Proc S
  | [key, field] => answer (.hExists key field)
  | _ => wrongArgs "hexists"

def hkeysOp : List Bytes → Proc S
  | [key] => answer (.hKeys key)
  | _ => wrongArgs "hkeys"

def hvalsOp : List Bytes → Proc S
  | [key] => answer (.hVals key)
  | _ => wrongArgs "hvals"

def hlenOp : List Bytes → Proc S
  | [key] => answer (.hLen key)
  | _ => wrongArgs "hlen"

def hincrbyOp : List Bytes → Proc S
  | [key, field, n] => need (parseInt n) errNotInteger fun n => answerTyped (.hIncrBy key field n)
  | _ => wrongArgs "hincrby"

def hincrbyfloatOp : List Bytes → Proc S
  | [key, field, x] =>
      need (Float64.parseFloat x) "ERR value is not a valid float" fun x =>
        answerTyped (.hIncrByFloat key field x)
  | _ => wrongArgs "hincrbyfloat"

def hsetnxOp : List Bytes → Proc S
  | [key, field, value] => answerTyped (.hSetNX key field value)
  | _ => wrongArgs "hsetnx"

/-- The pattern of `HSCAN`: options come in pairs, and only `MATCH` counts. -/
def hscanPattern (pattern : Bytes) : List Bytes → Bytes
  | opt :: v :: rest => hscanPattern (if toUpper opt = utf8 "MATCH" then v else pattern) rest
  | _ => pattern

/-- `HSCAN` sends all fields at once, whatever the cursor. -/
def hscanOp : List Bytes → Proc S
  | key :: _ :: options =>
      let pattern := hscanPattern [] options
      store (.hGetAll key) fun r => read fun reading =>
        let fields := (Table.shuffle reading.random r.asFields.toList).filter fun p =>
          pattern = [] ∨ pattern = utf8 "*" ∨ matchGlob pattern p.1 = true
        reply (.arr [.bulkOf (utf8 "0"), flatFields fields])
  | _ => wrongArgs "hscan"

/-- `HRANDFIELD`: one field, or an array of them. -/
def hrandfieldOp : List Bytes → Proc S
  | [key] => storeTyped (.hRandField key 1 false) fun r => reply (optBulk r.asValues.head?)
  | [key, cnt] =>
      need (parseInt cnt) errNotInteger fun cnt => answerTyped (.hRandField key cnt false)
  | [key, cnt, withValues] =>
      need (parseInt cnt) errNotInteger fun cnt =>
        if toUpper withValues = utf8 "WITHVALUES" then answerTyped (.hRandField key cnt true)
        else reply syntaxError
  | _ => wrongArgs "hrandfield"

end Postkeys.Handlers
