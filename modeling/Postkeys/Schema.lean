import Postkeys.Relational.Program
import Postkeys.Runtime

/-! # The tables of the store

Seven tables hold all keys: `kv_meta` one row per key with its type and expiry, and six data
tables, one per type, whose rows carry an expiry of their own.  The primary key of every table
starts with the key column; `Tab.Sub` is what follows it and `Tab.Val` what a row holds besides
its expiry.

Scores are 64-bit floats.  What the code and PostgreSQL compute with them is the class `Float64`;
nothing below depends on more of the arithmetic than the class states. -/

namespace Postkeys

open Relational

/-- A `TIMESTAMPTZ`: microseconds. -/
abbrev Time := ℤ

/-- The type of a key. -/
inductive KeyType
  | string | hash | list | set | zset | hyperloglog
deriving DecidableEq, Repr

instance keyTypeLawfulBEq : LawfulBEq KeyType := inferInstance

/-- The seven tables. -/
inductive Tab
  | kvMeta | kvStrings | kvHashes | kvLists | kvSets | kvZsets | kvHyperloglog
deriving DecidableEq, Repr

instance Tab.fintype : Fintype Tab where
  elems := {.kvMeta, .kvStrings, .kvHashes, .kvLists, .kvSets, .kvZsets, .kvHyperloglog}
  complete t := by cases t <;> decide

/-- The six data tables. -/
def dataTables : List Tab :=
  [.kvStrings, .kvHashes, .kvLists, .kvSets, .kvZsets, .kvHyperloglog]

/-- The data table a type is stored in. -/
def KeyType.table : KeyType → Tab
  | .string => .kvStrings
  | .hash => .kvHashes
  | .list => .kvLists
  | .set => .kvSets
  | .zset => .kvZsets
  | .hyperloglog => .kvHyperloglog

/-- The data table `EXPIRE`, `RENAME` and their like look up for a type; the source has no entry
for HyperLogLogs. -/
def dataTableForType : KeyType → Option Tab
  | .string => some .kvStrings
  | .hash => some .kvHashes
  | .list => some .kvLists
  | .set => some .kvSets
  | .zset => some .kvZsets
  | .hyperloglog => none

/-- What follows the key in a primary key: nothing, a field, an index or a member. -/
@[reducible] def Tab.Sub : Tab → Type
  | .kvMeta | .kvStrings | .kvHyperloglog => Unit
  | .kvHashes | .kvSets | .kvZsets => Bytes
  | .kvLists => ℤ

instance Tab.linearOrderSub : (t : Tab) → LinearOrder t.Sub
  | .kvMeta | .kvStrings | .kvHyperloglog => inferInstanceAs (LinearOrder Unit)
  | .kvHashes | .kvSets | .kvZsets => inferInstanceAs (LinearOrder Bytes)
  | .kvLists => Int.instLinearOrder

/-- What a row holds besides its expiry. -/
@[reducible] def Tab.Val (S : Type) : Tab → Type
  | .kvMeta => KeyType
  | .kvStrings | .kvHashes | .kvLists | .kvHyperloglog => Bytes
  | .kvSets => Unit
  | .kvZsets => S

/-- The name of a table's primary key constraint. -/
def Tab.pkey : Tab → String
  | .kvMeta => "kv_meta_pkey"
  | .kvStrings => "kv_strings_pkey"
  | .kvHashes => "kv_hashes_pkey"
  | .kvLists => "kv_lists_pkey"
  | .kvSets => "kv_sets_pkey"
  | .kvZsets => "kv_zsets_pkey"
  | .kvHyperloglog => "kv_hyperloglog_pkey"

/-! ### Floating point -/

/-- The operations on 64-bit floats that the code and the database use. -/
class Float64 (S : Type) where
  decEq : DecidableEq S
  /-- PostgreSQL's order on `DOUBLE PRECISION`, NaN last. -/
  le : S → S → Bool
  le_total : ∀ a b, le a b || le b a
  le_trans : ∀ a b c, le a b → le b c → le a c
  /-- Go's `<=`, `<` and `==`. -/
  goLe : S → S → Bool
  goLt : S → S → Bool
  goEq : S → S → Bool
  zero : S
  one : S
  /-- Go's `+` and `*`. -/
  add : S → S → S
  mul : S → S → S
  /-- PostgreSQL's `+`, `none` when the result is out of range. -/
  pgAdd : S → S → Option S
  /-- `strconv.ParseFloat(s, 64)` and `strconv.FormatFloat(x, 'f', -1, 64)`. -/
  parseFloat : Bytes → Option S
  formatFloat : S → Bytes
  /-- The cardinality estimate of `HyperLogLog.Count`. -/
  hllCount : Bytes → ℤ

/-- Whole numbers as scores: an instance that computes, for runs on concrete commands. -/
instance wholeScores : Float64 ℤ where
  decEq := Int.instDecidableEq
  le a b := decide (a ≤ b)
  le_total a b := by simp [Int.le_total]
  le_trans a b c := by simpa using Int.le_trans
  goLe a b := decide (a ≤ b)
  goLt a b := decide (a < b)
  goEq a b := decide (a = b)
  zero := 0
  one := 1
  add := (· + ·)
  mul := (· * ·)
  pgAdd a b := some (a + b)
  parseFloat := parseInt
  formatFloat := formatInt
  hllCount registers := registers.countP (· ≠ 0)

instance Tab.decEqVal (S : Type) [Float64 S] : (t : Tab) → DecidableEq (t.Val S)
  | .kvMeta => inferInstanceAs (DecidableEq KeyType)
  | .kvStrings | .kvHashes | .kvLists | .kvHyperloglog => inferInstanceAs (DecidableEq Bytes)
  | .kvSets => inferInstanceAs (DecidableEq Unit)
  | .kvZsets => Float64.decEq

/-! ### Rows and their expiry -/

/-- A row without its primary key. -/
structure Cell (V : Type) where
  val : V
  expiresAt : Option Time
deriving DecidableEq, Repr

/-- `expires_at IS NULL OR expires_at > NOW()`. -/
def Cell.live {V : Type} (now : Time) (c : Cell V) : Bool :=
  match c.expiresAt with
  | none => true
  | some t => decide (now < t)

/-- The rows of table `t`. -/
abbrev Row (S : Type) (t : Tab) := Cell (t.Val S)

/-- The database. -/
abbrev DB (S : Type) := Store Bytes Tab.Sub (Row S)

/-- The advisory locks: one per key, and the one of the background cleanup. -/
inductive LockName
  | key (k : Bytes)
  | cleanup
deriving DecidableEq, Repr

/-- A statement on the database. -/
abbrev Stm (S β : Type) := Relational.Sql Bytes Tab.Sub (Row S) β

/-- A storage operation: what it does inside its transaction. -/
abbrev Op (S α : Type) := Program Bytes LockName Tab.Sub (Row S) α

/-- The live rows of a table, without their expiry. -/
def live {σ V : Type} (now : Time) (u : Table σ (Cell V)) : Table σ V :=
  u.mapRows fun _ c => if c.live now then some c.val else none

end Postkeys
