import Postkeys.Handlers.Replies

/-! # List commands

The commands that wait for an element poll the store: `polls` is how often they try again before
the time is over or the connection ends.  Inside a transaction they try once. -/

namespace Postkeys.Handlers

open Relational Proc

variable {S : Type} [GoFloat S]

/-! ### Pushes and pops -/

def lpushOp : List Bytes → Proc S
  | key :: value :: values => answerTyped (.lPush key (value :: values))
  | _ => wrongArgs "lpush"

def rpushOp : List Bytes → Proc S
  | key :: value :: values => answerTyped (.rPush key (value :: values))
  | _ => wrongArgs "rpush"

def lpopOp : List Bytes → Proc S
  | [key] => answer (.lPop key)
  | _ => wrongArgs "lpop"

def rpopOp : List Bytes → Proc S
  | [key] => answer (.rPop key)
  | _ => wrongArgs "rpop"

def rpoplpushOp : List Bytes → Proc S
  | [source, destination] => answerTyped (.rPopLPush source destination)
  | _ => wrongArgs "rpoplpush"

/-! ### Blocking pops -/

/-- Call the store until it returns something, `polls + 1` times at most. -/
def pollStore (c : Cmd S) : ℕ → Proc S
  | 0 => answer c
  | polls + 1 => store c fun r => if r.toValue.null then pollStore c polls else reply r.toValue

/-- `BLPOP` and `BRPOP`; the last argument is the time to wait. -/
def blockingPop (cmd : String) (command : List Bytes → Cmd S) (polls : ℕ) (args : List Bytes) : Proc S :=
  if args.length < 2 then wrongArgs cmd
  else need (Float64.parseFloat (args.getLastD []) : Option S) "timeout is not a float or out of range"
    fun _ => pollStore (command args.dropLast) polls

def brpopOp (polls : ℕ) : List Bytes → Proc S := blockingPop "brpop" .rPopMulti polls

def blpopOp (polls : ℕ) : List Bytes → Proc S := blockingPop "blpop" .lPopMulti polls

/-- The arguments the pops from several keys share: the keys, the end to pop from and the count.
The sum `1 + numkeys + 1` may overflow, and the slice for that many keys cannot be made. -/
def parseMPopHead (args : List Bytes) (allowedWhere : List Bytes)
    (next : List Bytes → Bytes → ℤ → Proc S) : Proc S :=
  match args with
  | numkeys :: rest =>
      if rest = [] then reply syntaxError
      else need ((parseInt numkeys).filter (1 ≤ ·)) "ERR numkeys should be greater than 0" fun n =>
        if (args.length : ℤ) < int64 (n + 2) then reply syntaxError
        else if (args.length : ℤ) < n + 2 then crash "runtime error: makeslice: len out of range"
        else
          let keys := rest.take n.toNat
          let side := toUpper (rest.getD n.toNat [])
          if side ∉ allowedWhere then reply syntaxError
          else
            match rest.drop (n.toNat + 1) with
            | [] => next keys side 1
            | [opt, cnt] =>
                if toUpper opt ≠ utf8 "COUNT" then reply syntaxError
                else need ((parseInt cnt).filter (1 ≤ ·)) "ERR count should be greater than 0"
                  fun cnt => next keys side cnt
            | _ => reply syntaxError
  | [] => reply syntaxError

/-- The two ends of a list. -/
def leftRight : List Bytes := [utf8 "LEFT", utf8 "RIGHT"]

/-- `doLMPop` without the call. -/
def lmpopCmd (keys : List Bytes) (side : Bytes) (cnt : ℤ) : Cmd S :=
  if side = utf8 "LEFT" then .lMPop keys cnt else .rMPop keys cnt

def lmpopOp (args : List Bytes) : Proc S :=
  parseMPopHead args leftRight fun keys side cnt => answer (lmpopCmd keys side cnt)

/-- `BLMPOP` and `BZMPOP`; the first argument is the time to wait. -/
def blockingMPop (cmd : String) (allowedWhere : List Bytes)
    (command : List Bytes → Bytes → ℤ → Cmd S) (polls : ℕ) (args : List Bytes) : Proc S :=
  if args.length < 4 then wrongArgs cmd
  else need (Float64.parseFloat (args.headD []) : Option S) "timeout is not a float or out of range"
    fun _ => parseMPopHead args.tail allowedWhere fun keys side cnt =>
      pollStore (command keys side cnt) polls

def blmpopOp (polls : ℕ) : List Bytes → Proc S := blockingMPop "blmpop" leftRight lmpopCmd polls

/-! ### Queries and changes -/

def llenOp : List Bytes → Proc S
  | [key] => answer (.lLen key)
  | _ => wrongArgs "llen"

def lrangeOp : List Bytes → Proc S
  | [key, start, stop] =>
      need (parseInt start) notInteger fun start =>
        need (parseInt stop) notInteger fun stop => answer (.lRange key start stop)
  | _ => wrongArgs "lrange"

def lindexOp : List Bytes → Proc S
  | [key, index] => need (parseInt index) notInteger fun index => answer (.lIndex key index)
  | _ => wrongArgs "lindex"

def lremOp : List Bytes → Proc S
  | [key, cnt, element] =>
      need (parseInt cnt) errNotInteger fun cnt => answerTyped (.lRem key cnt element)
  | _ => wrongArgs "lrem"

def ltrimOp : List Bytes → Proc S
  | [key, start, stop] =>
      need (parseInt start) errNotInteger fun start =>
        need (parseInt stop) errNotInteger fun stop => answerTyped (.lTrim key start stop)
  | _ => wrongArgs "ltrim"

/-- The options of `LPOS`. -/
structure LPosOptions where
  rank : ℤ
  cnt : ℤ
  maxlen : ℤ

/-- The options of `LPOS` that are known, with what their value changes. -/
def lposOption (opt : Bytes) : Option (LPosOptions → ℤ → LPosOptions) :=
  if opt = utf8 "RANK" then some fun o n => { o with rank := n }
  else if opt = utf8 "COUNT" then some fun o n => { o with cnt := n }
  else if opt = utf8 "MAXLEN" then some fun o n => { o with maxlen := n }
  else none

def lposOptions (o : LPosOptions) : List Bytes → Except Value LPosOptions
  | [] => .ok o
  | a :: rest =>
      match lposOption (toUpper a), rest with
      | none, rest => lposOptions o rest
      | some _, [] => .error syntaxError
      | some change, n :: rest =>
          match parseInt n with
          | none => .error (.err (utf8 errNotInteger))
          | some n => lposOptions (change o n) rest

/-- What `LPOS` sends: one position unless another count was asked for. -/
def lposValue (cnt : ℤ) (found : List ℤ) : Value :=
  match found with
  | [] => .nullBulk
  | pos :: _ => if cnt = 1 then .int pos else .arr (found.map .int)

def lposOp : List Bytes → Proc S
  | key :: element :: options =>
      parsed (lposOptions ⟨1, 1, 0⟩ options) fun o =>
        storeTyped (.lPos key element o.rank o.cnt o.maxlen) fun r => reply (lposValue o.cnt r.asInts)
  | _ => wrongArgs "lpos"

def lsetOp : List Bytes → Proc S
  | [key, index, element] =>
      need (parseInt index) errNotInteger fun index => answerTyped (.lSet key index element)
  | _ => wrongArgs "lset"

def linsertOp : List Bytes → Proc S
  | [key, place, pivot, element] =>
      if toUpper place = utf8 "BEFORE" then answerTyped (.lInsert key pivot element true)
      else if toUpper place = utf8 "AFTER" then answerTyped (.lInsert key pivot element false)
      else reply syntaxError
  | _ => wrongArgs "linsert"

end Postkeys.Handlers
