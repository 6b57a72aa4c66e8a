import Postkeys.Handlers.Proc

/-! # Arguments and replies of the handlers

What the handlers share: the texts of their own errors, numbers and times in arguments, and the
shape in which a result of the store is sent.  Most results have one shape, `Reply.toValue`; the
handlers that send another one say so themselves. -/

namespace Postkeys

open Relational

variable {S : Type}

/-! ### Go's numbers and times -/

/-- The floats the handlers name besides those of the store. -/
class GoFloat (S : Type) extends Float64 S where
  /-- `math.Inf(1)` and `math.Inf(-1)`. -/
  inf : S
  negInf : S
  /-- `1e308`, `-1e308` and `1e-9`. -/
  big : S
  negBig : S
  tiny : S
  sub : S → S → S

/-- Whole numbers as scores; the ends of the range stand far outside `int64`. -/
instance wholeGoScores : GoFloat ℤ where
  inf := 10 ^ 309
  negInf := -(10 ^ 309)
  big := 10 ^ 308
  negBig := -(10 ^ 308)
  tiny := 0
  sub := (· - ·)

/-- `strconv.ParseUint(s, 10, 64)`. -/
def parseUint (s : Bytes) : Option ℕ := (parseDigits s).filter (· < 2 ^ 64)

/-- `strings.ToLower` on a text that is compared with ASCII names: besides the ASCII capitals only
the dotted capital I and the Kelvin sign have a small letter in ASCII. -/
def toLower : Bytes → Bytes
  | 0xC4 :: 0xB0 :: s => 105 :: toLower s
  | 0xE2 :: 0x84 :: 0xAA :: s => 107 :: toLower s
  | b :: s => (if 65 ≤ b ∧ b ≤ 90 then b + 32 else b) :: toLower s
  | [] => []

/-- `time.Duration(n) * time.Second`, in nanoseconds. -/
def seconds (n : ℤ) : ℤ := int64 (n * 10 ^ 9)

/-- `time.Duration(n) * time.Millisecond`. -/
def milliseconds (n : ℤ) : ℤ := int64 (n * 10 ^ 6)

/-- `time.Unix(n, 0)`: a `Time` counts its seconds from the year 1 in an `int64`. -/
def unixTime (n : ℤ) : ℤ := (int64 (n + 62135596800) - 62135596800) * 10 ^ 9

/-- `time.UnixMilli(n)`. -/
def unixMilli (n : ℤ) : ℤ := n * 10 ^ 6

/-- The `matchGlob` of the handlers, the same loop as that of the storage layer. -/
def Handlers.matchGlob (pattern s : Bytes) : Bool := Postkeys.matchGlob pattern s

/-! ### Errors of the handlers -/

def notInteger : String := "value is not an integer or out of range"

def errNotInteger : String := "ERR value is not an integer or out of range"

def syntaxError : Value := .err (utf8 "ERR syntax error")

namespace Proc

/-- `resp.ErrWrongArgs`, as the whole reply. -/
def wrongArgs (cmd : String) : Proc S := reply (.errWrongArgs cmd)

/-- An error of the handler's own. -/
def err (message : String) : Proc S := reply (.err (utf8 message))

/-- Go on with a parsed argument, or answer with an error. -/
def need {α : Type} (a : Option α) (message : String) (next : α → Proc S) : Proc S :=
  match a with
  | some a => next a
  | none => err message

/-- Go on with parsed options, or answer with the error that ended the parsing. -/
def parsed {α : Type} (a : Except Value α) (next : α → Proc S) : Proc S :=
  match a with
  | .ok a => next a
  | .error v => reply v

end Proc

/-! ### The shapes of replies -/

/-- `1` or `0`. -/
def boolInt (b : Bool) : Value := .int (if b then 1 else 0)

/-- A bulk string, or the null one. -/
def optBulk (v : Option Bytes) : Value := v.elim .nullBulk .bulkOf

/-- An integer, or the null bulk string. -/
def optInt (n : Option ℤ) : Value := n.elim .nullBulk .int

/-- An array of bulk strings. -/
def bulks (vs : List Bytes) : Value := .arr (vs.map .bulkOf)

/-- `resp.MapVal`, with the entries in the order in which the map is walked. -/
def Value.mapVal (m : List (Bytes × Bytes)) : Value := { Value.empty .map with mapData := m }

/-- Fields and values in one array. -/
def flatFields (m : List (Bytes × Bytes)) : Value := bulks (m.flatMap fun p => [p.1, p.2])

section members
variable [Float64 S]

/-- Members without their scores. -/
def plainMembers (ms : List (ZMember S)) : Value := bulks (ms.map ZMember.member)

/-- Members and scores in one array. -/
def scoredMembers (ms : List (ZMember S)) : Value :=
  bulks (ms.flatMap fun m => [m.member, Float64.formatFloat m.score])

/-- Members, with their scores if asked for. -/
def membersValue (withScores : Bool) (ms : List (ZMember S)) : Value :=
  if withScores then scoredMembers ms else plainMembers ms

/-- A result of the store as it is sent. -/
def Reply.toValue : Reply S → Value
  | .ok => .ok
  | .int n => .int n
  | .bool b => boolInt b
  | .bytes v => .bulkOf v
  | .value v => optBulk v
  | .values vs => bulks vs
  | .optValues vs => .arr (vs.map optBulk)
  | .ints ns => .arr (ns.map .int)
  | .optInt n => Postkeys.optInt n
  | .optInts ns => .arr (ns.map Postkeys.optInt)
  | .bools bs => .arr (bs.map boolInt)
  | .fields m => flatFields m.toList
  | .float x => .bulkOf (Float64.formatFloat x)
  | .optFloat x => optBulk (x.map Float64.formatFloat)
  | .type kt => .simple (utf8 (kt.elim "none" KeyType.text))
  | .members ms => scoredMembers ms
  | .page p => .arr [.bulkOf (formatInt p.1), scoredMembers p.2]
  | .popped p => p.elim .nullBulk fun p => bulks [p.1, p.2]
  | .poppedMany p => p.elim .nullArray fun p => .arr [.bulkOf p.1, bulks p.2]
  | .poppedMembers p => p.elim .nullArray fun p => .arr [.bulkOf p.1,
      .arr (p.2.map fun m => bulks [m.member, Float64.formatFloat m.score])]

namespace Proc

/-- Call the store and send what it returns. -/
def answer (c : Cmd S) : Proc S := store c fun r => reply r.toValue

/-- The same, with `WRONGTYPE` for a wrong type. -/
def answerTyped (c : Cmd S) : Proc S := storeTyped c fun r => reply r.toValue

end Proc

end members

/-! ### Results the handlers look into -/

namespace Reply

def asInt : Reply S → ℤ
  | .int n => n
  | _ => 0

def asBool : Reply S → Bool
  | .bool b => b
  | _ => false

def asValue : Reply S → Option Bytes
  | .value v => v
  | _ => none

def asValues : Reply S → List Bytes
  | .values vs => vs
  | _ => []

def asInts : Reply S → List ℤ
  | .ints ns => ns
  | _ => []

def asFields : Reply S → Table Bytes Bytes
  | .fields m => m
  | _ => ∅

def asType : Reply S → Option KeyType
  | .type kt => kt
  | _ => none

def asMembers : Reply S → List (ZMember S)
  | .members ms => ms
  | _ => []

end Reply

end Postkeys
