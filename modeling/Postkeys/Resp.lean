import Postkeys.Schema

/-! # Replies

The values of the Redis protocol, the texts of errors, and how a handler tells from an error or from
a reply that PostgreSQL asked for a retry. -/

namespace Postkeys

open Relational

/-! ### Texts -/

/-- The bytes of a text in the source. -/
def utf8 (s : String) : Bytes := s.toUTF8.data.toList

/-- `strings.ToUpper` on a text that is compared with ASCII names: besides the ASCII letters only
the dotless i and the long s have a capital in ASCII, and every other character stays outside it. -/
def toUpper : Bytes → Bytes
  | 0xC4 :: 0xB1 :: s => 73 :: toUpper s
  | 0xC5 :: 0xBF :: s => 83 :: toUpper s
  | b :: s => (if 97 ≤ b ∧ b ≤ 122 then b - 32 else b) :: toUpper s
  | [] => []

/-- `strings.Contains`. -/
def containsText (s sub : Bytes) : Bool := decide (sub <:+: s)

/-! ### Values -/

/-- The kinds of RESP values. -/
inductive RespType
  | simpleString | error | integer | bulkString | array | null | boolean | double | bigNumber
  | bulkError | verbatimStr | map | set | push
deriving DecidableEq, Repr

/-- A RESP value. -/
structure Value where
  type : RespType
  str : Bytes
  num : ℤ
  bulk : Bytes
  array : List Value
  mapData : List (Bytes × Bytes)
  null : Bool

namespace Value

/-- A value with nothing but its type. -/
def empty (type : RespType) : Value := ⟨type, [], 0, [], [], [], false⟩

/-- A simple string. -/
def simple (s : Bytes) : Value := { empty .simpleString with str := s }

/-- `resp.ErrCustom`: an error with the text as it is. -/
def errCustom (msg : Bytes) : Value := { empty .error with str := msg }

/-- `resp.OK`. -/
def ok : Value := simple (utf8 "OK")

/-- `resp.Err`: an error whose text starts with `ERR`. -/
def err (msg : Bytes) : Value :=
  if (utf8 "ERR ").isPrefixOf msg then errCustom msg else errCustom (utf8 "ERR " ++ msg)

/-- `resp.ErrWrongArgs`. -/
def errWrongArgs (cmd : String) : Value :=
  errCustom (utf8 ("ERR wrong number of arguments for '" ++ cmd ++ "' command"))

/-- `resp.NullBulk`. -/
def nullBulk : Value := { empty .bulkString with null := true }

/-- `resp.NullArray`. -/
def nullArray : Value := { empty .array with null := true }

/-- `resp.Int`. -/
def int (n : ℤ) : Value := { empty .integer with num := n }

/-- `resp.Bulk`. -/
def bulkOf (s : Bytes) : Value := { empty .bulkString with bulk := s }

/-- `resp.Arr`. -/
def arr (values : List Value) : Value := { empty .array with array := values }

@[simp] theorem err_type (msg : Bytes) : (err msg).type = .error := by
  unfold err
  split <;> rfl

end Value

/-- A client's command. -/
def request (words : List String) : Value := .arr (words.map fun w => .bulkOf (utf8 w))

/-! ### Errors -/

/-- The text of a server error. -/
def pgErrorText (e : PgError) : String := "ERROR: " ++ e.message ++ " (SQLSTATE " ++ e.code ++ ")"

/-- The text of a Go error. -/
def failureText : Failure → String
  | .db context e => context ++ pgErrorText e
  | .error message => message
  | .crash message => message

/-- `IsRetryableError`: a deadlock or a serialization failure. -/
def isRetryableError : Failure → Bool
  | .db _ e => e.code = "40P01" || e.code = "40001"
  | _ => false

/-- `IsRetryableMessage`. -/
def isRetryableMessage (msg : Bytes) : Bool :=
  containsText msg (utf8 "(SQLSTATE 40P01)") || containsText msg (utf8 "(SQLSTATE 40001)")

/-- Whether a value, or a direct element of it, is an error reply caused by a deadlock or a
serialization failure. -/
def hasRetryableError (v : Value) : Bool :=
  if v.type = .error then isRetryableMessage v.str
  else v.array.any fun e => decide (e.type = .error) && isRetryableMessage e.str

end Postkeys
