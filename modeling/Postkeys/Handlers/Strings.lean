import Postkeys.Handlers.Replies

/-! # String and bitmap commands -/

namespace Postkeys.Handlers

open Relational Proc

variable {S : Type} [GoFloat S]

/-! ### Reading and writing -/

def getOp : List Bytes → Proc S
  | [key] => answer (.get key)
  | _ => wrongArgs "get"

/-- The duration an expiry option gives a key, if this is one. -/
def expiryOption (now : ℤ) (opt : Bytes) : Option (ℤ → ℤ) :=
  if opt = utf8 "EX" then some seconds
  else if opt = utf8 "PX" then some milliseconds
  else if opt = utf8 "EXAT" then some fun n => timeUntil now (unixTime n)
  else if opt = utf8 "PXAT" then some fun n => timeUntil now (unixMilli n)
  else none

/-- The options of `SET`. -/
structure SetOptions where
  ttl : ℤ
  nx : Bool
  xx : Bool
  keepTTL : Bool
  get : Bool

/-- An option of `SET` without an argument; an unknown one is ignored. -/
def SetOptions.flag (o : SetOptions) (opt : Bytes) : SetOptions :=
  if opt = utf8 "NX" then { o with nx := true }
  else if opt = utf8 "XX" then { o with xx := true }
  else if opt = utf8 "KEEPTTL" then { o with keepTTL := true }
  else if opt = utf8 "GET" then { o with get := true }
  else o

def setOptions (now : ℤ) (o : SetOptions) : List Bytes → Except Value SetOptions
  | [] => .ok o
  | a :: rest =>
      match expiryOption now (toUpper a), rest with
      | none, rest => setOptions now (o.flag (toUpper a)) rest
      | some _, [] => .error (.err (utf8 "syntax error"))
      | some ttl, n :: rest =>
          match parseInt n with
          | none => .error (.err (utf8 notInteger))
          | some n => setOptions now { o with ttl := ttl n } rest

/-- The end of `SET`: `old` is the value before, if `GET` asked for it. -/
def setValue (key value : Bytes) (o : SetOptions) (old : Option (Option Bytes)) : Proc S :=
  let refused := reply (old.elim .nullBulk optBulk)
  let write := store (.set key value o.ttl) fun _ => reply (old.elim .ok optBulk)
  if o.nx then
    store (.setNX key value o.ttl) fun r =>
      if r.asBool then reply (old.elim .ok optBulk) else refused
  else if o.xx then
    match old with
    | some v => if v.isSome then write else refused
    | none => store (.get key) fun r => if r.asValue.isSome then write else refused
  else write

def setOp : List Bytes → Proc S
  | key :: value :: options =>
      read fun reading => parsed (setOptions reading.time ⟨0, false, false, false, false⟩ options) fun o =>
        let withOld (o : SetOptions) : Proc S :=
          if o.get then store (.get key) fun r => setValue key value o (some r.asValue)
          else setValue key value o none
        -- an expiry given as an option wins over the one to keep
        if o.keepTTL ∧ o.ttl = 0 then
          store (.ttl key) fun r =>
            withOld (if 0 < r.asInt then { o with ttl := seconds r.asInt } else o)
        else withOld o
  | _ => wrongArgs "set"

def setnxOp : List Bytes → Proc S
  | [key, value] => answer (.setNX key value 0)
  | _ => wrongArgs "setnx"

def setexOp : List Bytes → Proc S
  | [key, secs, value] =>
      need (parseInt secs) notInteger fun secs => answer (.set key value (seconds secs))
  | _ => wrongArgs "setex"

def mgetOp : List Bytes → Proc S
  | [] => wrongArgs "mget"
  | keys => answer (.mGet keys)

/-- A map filled from alternating keys and values, the later value winning. -/
def pairsOf (m : Table Bytes Bytes) : List Bytes → Table Bytes Bytes
  | k :: v :: rest => pairsOf (m.put k v) rest
  | _ => m

def msetOp (args : List Bytes) : Proc S :=
  if args.length < 2 ∨ args.length % 2 ≠ 0 then wrongArgs "mset" else answer (.mSet (pairsOf ∅ args))

/-- `INCR` and `DECR`. -/
def stepOp (cmd : String) (delta : ℤ) : List Bytes → Proc S
  | [key] => answer (.incr key delta)
  | _ => wrongArgs cmd

def incrOp : List Bytes → Proc S := stepOp "incr" 1

def decrOp : List Bytes → Proc S := stepOp "decr" (-1)

/-- `INCRBY` and `DECRBY`. -/
def stepByOp (cmd : String) (delta : ℤ → ℤ) : List Bytes → Proc S
  | [key, n] => need (parseInt n) notInteger fun n => answer (.incr key (delta n))
  | _ => wrongArgs cmd

def incrbyOp : List Bytes → Proc S := stepByOp "incrby" id

/-- `DECRBY` negates in `int64`. -/
def decrbyOp : List Bytes → Proc S := stepByOp "decrby" fun n => int64 (-n)

def appendCmdOp : List Bytes → Proc S
  | [key, value] => answer (.append key value)
  | _ => wrongArgs "append"

def getrangeOp : List Bytes → Proc S
  | [key, start, stop] =>
      need (parseInt start) errNotInteger fun start =>
        need (parseInt stop) errNotInteger fun stop => answer (.getRange key start stop)
  | _ => wrongArgs "getrange"

def setrangeOp : List Bytes → Proc S
  | [key, offset, value] =>
      need (parseInt offset) errNotInteger fun offset =>
        if offset < 0 then err "ERR offset is out of range" else answer (.setRange key offset value)
  | _ => wrongArgs "setrange"

def strlenOp : List Bytes → Proc S
  | [key] => answerTyped (.strLen key)
  | _ => wrongArgs "strlen"

/-- The options of `GETEX`: an expiry, or none and whether to drop the one there is. -/
def getexOptions (now ttl : ℤ) (persist : Bool) : List Bytes → Except Value (ℤ × Bool)
  | [] => .ok (ttl, persist)
  | a :: rest =>
      match expiryOption now (toUpper a), rest with
      | none, rest =>
          if toUpper a = utf8 "PERSIST" then getexOptions now ttl true rest else .error syntaxError
      | some _, [] => .error syntaxError
      | some ttl, n :: rest =>
          match parseInt n with
          | none => .error (.err (utf8 errNotInteger))
          | some n => getexOptions now (ttl n) persist rest

def getexOp : List Bytes → Proc S
  | key :: options =>
      read fun reading => parsed (getexOptions reading.time 0 false options) fun o =>
        answerTyped (.getEx key o.1 o.2)
  | [] => wrongArgs "getex"

def getdelOp : List Bytes → Proc S
  | [key] => answerTyped (.getDel key)
  | _ => wrongArgs "getdel"

def getsetOp : List Bytes → Proc S
  | [key, value] => answerTyped (.getSet key value)
  | _ => wrongArgs "getset"

def incrbyfloatOp : List Bytes → Proc S
  | [key, delta] =>
      need (Float64.parseFloat delta) "ERR value is not a valid float" fun delta =>
        answerTyped (.incrByFloat key delta)
  | _ => wrongArgs "incrbyfloat"

/-! ### `BITFIELD` -/

/-- An offset in bits; after `#` it counts in widths of the encoding. -/
def parseBitfieldOffset (offset encoding : Bytes) : Option ℤ :=
  match offset with
  | 35 :: multiplier =>
      let bitWidth := if 1 < encoding.length then (parseInt (encoding.drop 1)).getD 8 else 8
      (parseInt multiplier).map fun n => int64 (n * bitWidth)
  | _ => parseInt offset

def errBitOffset : String := "ERR bit offset is not an integer or out of range"

def overflowMode (mode : Bytes) : Option Overflow :=
  if mode = utf8 "WRAP" then some .wrap
  else if mode = utf8 "SAT" then some .sat
  else if mode = utf8 "FAIL" then some .fail
  else none

/-- The operations of `BITFIELD` that write. -/
def bitfieldWrite (opType : Bytes) : Option BitFieldKind :=
  if opType = utf8 "SET" then some .set
  else if opType = utf8 "INCRBY" then some .incrBy
  else none

/-- The operations of `BITFIELD`; `OVERFLOW` holds for those that follow it. -/
def bitfieldOps (overflow : Overflow) : List Bytes → Except Value (List BitFieldOp)
  | [] => .ok []
  | a :: rest =>
      if toUpper a = utf8 "GET" then
        match rest with
        | encoding :: offset :: rest =>
            match parseBitfieldOffset offset encoding with
            | none => .error (.err (utf8 errBitOffset))
            | some offset => (bitfieldOps overflow rest).map (⟨.get, encoding, offset, 0, .wrap⟩ :: ·)
        | _ => .error syntaxError
      else if toUpper a = utf8 "OVERFLOW" then
        match rest with
        | mode :: rest =>
            match overflowMode (toUpper mode) with
            | none => .error (.err (utf8 "ERR Invalid OVERFLOW type specified"))
            | some mode => bitfieldOps mode rest
        | [] => .error syntaxError
      else
        match bitfieldWrite (toUpper a), rest with
        | some kind, encoding :: offset :: value :: rest =>
            match parseBitfieldOffset offset encoding with
            | none => .error (.err (utf8 errBitOffset))
            | some offset =>
                match parseInt value with
                | none => .error (.err (utf8 errNotInteger))
                | some value =>
                    (bitfieldOps overflow rest).map (⟨kind, encoding, offset, value, overflow⟩ :: ·)
        | _, _ => .error syntaxError

def bitfieldOp : List Bytes → Proc S
  | key :: ops => parsed (bitfieldOps .wrap ops) fun ops => answer (.bitField key ops)
  | [] => wrongArgs "bitfield"

/-! ### Bitmaps -/

def setbitOp : List Bytes → Proc S
  | [key, offset, value] =>
      need ((parseInt offset).filter (0 ≤ ·)) errBitOffset fun offset =>
        need ((parseInt value).filter fun v => v = 0 ∨ v = 1) "ERR bit is not an integer or out of range"
          fun value => answerTyped (.setBit key offset value)
  | _ => wrongArgs "setbit"

def getbitOp : List Bytes → Proc S
  | [key, offset] =>
      need ((parseInt offset).filter (0 ≤ ·)) errBitOffset fun offset => answerTyped (.getBit key offset)
  | _ => wrongArgs "getbit"

/-- Whether a range counts in bits. -/
def bitUnit (unit : Bytes) : Option Bool :=
  if toUpper unit = utf8 "BYTE" then some false else if toUpper unit = utf8 "BIT" then some true else none

/-- `BITCOUNT`; a start without an end is ignored. -/
def bitcountOp : List Bytes → Proc S
  | [] => wrongArgs "bitcount"
  | key :: start :: stop :: unit =>
      need (parseInt start) errNotInteger fun start =>
        need (parseInt stop) errNotInteger fun stop =>
          need (unit.head?.elim (some false) bitUnit) "ERR syntax error" fun useBit =>
            answerTyped (.bitCount key start stop useBit)
  | key :: _ => answerTyped (.bitCount key 0 (-1) false)

def bitOperation (operation : Bytes) : Option BitOperation :=
  if operation = utf8 "AND" then some .and
  else if operation = utf8 "OR" then some .or
  else if operation = utf8 "XOR" then some .xor
  else if operation = utf8 "NOT" then some .not
  else none

def bitopOp : List Bytes → Proc S
  | operation :: destKey :: key :: keys =>
      need (bitOperation (toUpper operation)) "ERR syntax error" fun operation =>
        if operation = .not ∧ keys ≠ [] then err "ERR BITOP NOT requires one and only one key"
        else answerTyped (.bitOp operation destKey (key :: keys))
  | _ => wrongArgs "bitop"

/-- The range of `BITPOS`, parsed from left to right. -/
def bitposRange : List Bytes → Option (ℤ × ℤ)
  | [] => some (0, -1)
  | [start] => (parseInt start).map (·, -1)
  | start :: stop :: _ => do
      let start ← parseInt start
      let stop ← parseInt stop
      pure (start, stop)

def bitposOp : List Bytes → Proc S
  | key :: bit :: range =>
      need ((parseInt bit).filter fun b => b = 0 ∨ b = 1) "ERR bit is not an integer or out of range"
        fun bit => need (bitposRange range) errNotInteger fun r =>
          need ((range.drop 2).head?.elim (some false) bitUnit) "ERR syntax error" fun useBit =>
            answerTyped (.bitPos key bit r.1 r.2 useBit)
  | _ => wrongArgs "bitpos"

end Postkeys.Handlers
