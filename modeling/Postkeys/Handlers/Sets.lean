import Postkeys.Handlers.Keys

/-! # Set and HyperLogLog commands -/

namespace Postkeys.Handlers

open Relational Proc

variable {S : Type} [GoFloat S]

/-! ### Members -/

def saddOp : List Bytes → Proc S
  | key :: member :: members => answerTyped (.sAdd key (member :: members))
  | _ => wrongArgs "sadd"

def sremOp : List Bytes → Proc S
  | key :: member :: members => answer (.sRem key (member :: members))
  | _ => wrongArgs "srem"

def smembersOp : List Bytes → Proc S
  | [key] => answer (.sMembers key)
  | _ => wrongArgs "smembers"

def sismemberOp : List Bytes → Proc S
  | [key, member] => answer (.sIsMember key member)
  | _ => wrongArgs "sismember"

def scardOp : List Bytes → Proc S
  | [key] => answer (.sCard key)
  | _ => wrongArgs "scard"

def smismemberOp : List Bytes → Proc S
  | key :: member :: members => answerTyped (.sMIsMember key (member :: members))
  | _ => wrongArgs "smismember"

/-- `SRANDMEMBER`: one member, or an array of them. -/
def srandmemberOp : List Bytes → Proc S
  | [key] => storeTyped (.sRandMember key 1) fun r => reply (optBulk r.asValues.head?)
  | [key, cnt] => need (parseInt cnt) errNotInteger fun cnt => answerTyped (.sRandMember key cnt)
  | _ => wrongArgs "srandmember"

/-! ### Intersection, union, difference -/

/-- `SINTER`, `SUNION` and `SDIFF`. -/
def combineOp (cmd : String) (command : List Bytes → Cmd S) : List Bytes → Proc S
  | [] => wrongArgs cmd
  | keys => answerTyped (command keys)

def sinterOp : List Bytes → Proc S := combineOp "sinter" .sInter

def sunionOp : List Bytes → Proc S := combineOp "sunion" .sUnion

def sdiffOp : List Bytes → Proc S := combineOp "sdiff" .sDiff

/-- `SINTERSTORE`, `SUNIONSTORE` and `SDIFFSTORE`. -/
def combineStoreOp (cmd : String) (command : Bytes → List Bytes → Cmd S) : List Bytes → Proc S
  | destination :: key :: keys => answerTyped (command destination (key :: keys))
  | _ => wrongArgs cmd

def sinterstoreOp : List Bytes → Proc S := combineStoreOp "sinterstore" .sInterStore

def sunionstoreOp : List Bytes → Proc S := combineStoreOp "sunionstore" .sUnionStore

def sdiffstoreOp : List Bytes → Proc S := combineStoreOp "sdiffstore" .sDiffStore

/-- `SINTERCARD`.  The sum `1 + numkeys` may overflow. -/
def sintercardOp : List Bytes → Proc S
  | numkeys :: key :: keys =>
      need ((parseInt numkeys).filter (1 ≤ ·)) "ERR numkeys should be greater than 0" fun n =>
        let rest := key :: keys
        if (rest.length : ℤ) + 1 < int64 (1 + n) then wrongArgs "sintercard"
        else if (rest.length : ℤ) < n then crash "runtime error: makeslice: len out of range"
        else
          match rest.drop n.toNat with
          | [] => answerTyped (.sInterCard (rest.take n.toNat) 0)
          | [opt, limit] =>
              if toUpper opt ≠ utf8 "LIMIT" then reply syntaxError
              else need ((parseInt limit).filter (0 ≤ ·)) "ERR LIMIT can't be negative" fun limit =>
                answerTyped (.sInterCard (rest.take n.toNat) limit)
          | _ => reply syntaxError
  | _ => wrongArgs "sintercard"

/-! ### `SSCAN` -/

/-- The options of `SSCAN`: the pattern and the count; an unknown option is ignored. -/
def sscanOptions (pattern : Bytes) (cnt : ℤ) : List Bytes → Except Value (Bytes × ℤ)
  | [] => .ok (pattern, cnt)
  | a :: rest =>
      if toUpper a = utf8 "MATCH" then
        match rest with
        | pattern :: rest => sscanOptions pattern cnt rest
        | [] => .error (.errWrongArgs "sscan")
      else if toUpper a = utf8 "COUNT" then
        match rest with
        | n :: rest =>
            match parseInt n with
            | none => .error (.err (utf8 errNotInteger))
            | some n => sscanOptions pattern n rest
        | [] => .error (.errWrongArgs "sscan")
      else sscanOptions pattern cnt rest

/-- `SSCAN`; the cursor is read as a `uint64` and used as an `int`. -/
def sscanOp : List Bytes → Proc S
  | key :: cursor :: options =>
      need (parseUint cursor) "ERR invalid cursor" fun cursor =>
        parsed (sscanOptions (utf8 "*") 10 options) fun o =>
          storeTyped (.sMembers key) fun r =>
            scanPage (r.asValues.filter fun m => matchGlob o.1 m) (int64 cursor) o.2
  | _ => wrongArgs "sscan"

/-! ### HyperLogLogs -/

def pfaddOp : List Bytes → Proc S
  | key :: elements => answerTyped (.pfAdd key elements)
  | [] => wrongArgs "pfadd"

def pfcountOp : List Bytes → Proc S
  | [] => wrongArgs "pfcount"
  | keys => answerTyped (.pfCount keys)

def pfmergeOp : List Bytes → Proc S
  | destKey :: key :: keys => answerTyped (.pfMerge destKey (key :: keys))
  | _ => wrongArgs "pfmerge"

end Postkeys.Handlers
