import Postkeys.Querier.Base

/-! # String operations -/

namespace Postkeys

open Relational

variable {S : Type}

/-- The live value of a string key. -/
def selectString (key : Bytes) : Stm S (Option Bytes) := selectLive .kvStrings key fun u => u.row ()

/-- The string under a stored key. -/
def liveString (now : Time) (d : DB S) (k : Bytes) : Option Bytes :=
  (live now (d.rows .kvStrings k)).row ()

/-- Write the value of a string key; the row's own expiry stays. -/
def upsertString (key value : Bytes) : Stm S Unit :=
  upsertRow .kvStrings key () ⟨value, none⟩ fun r => ⟨value, r.expiresAt⟩

def get (key : Bytes) : Op S (Option Bytes) := Program.query (selectString (encodeKey key))

def set (key value : Bytes) (ttl : ℤ) : Op S Unit := do
  let key := encodeKey key
  deleteKeyFromAllTables key
  let expiresAt ← if 0 < ttl then do
      let t ← Program.clock
      pure (some (pgTime (t + ttl)))
    else pure none
  setMeta key .string expiresAt
  Program.query (upsertRow .kvStrings key () ⟨value, expiresAt⟩ fun _ => ⟨value, expiresAt⟩)

def setNX (key value : Bytes) (ttl : ℤ) : Op S Bool := do
  let enc := encodeKey key
  lockKey enc
  let present ← Program.query (selectLive .kvMeta enc fun u => (u.row ()).isSome)
  if present then pure false
  else do
    set key value ttl
    pure true

def mGet (keys : List Bytes) : Op S (List (Option Bytes)) := do
  let keys := encodeKeys keys
  let rows ← Program.queryRows (selectLiveIn .kvStrings keys)
  pure (keys.map fun k => (rows.find? fun r => r.1 = k).map fun r => r.2.2)

/-- The pairs under their stored keys.  The map is walked in random order, which shows only where
two keys have one stored form. -/
def encodePairs (order : List ℕ) (pairs : Table Bytes Bytes) : Table Bytes Bytes :=
  (Table.shuffle order pairs.toList).foldl (fun m p => Table.put m (encodeKey p.1) p.2) ∅

def mSet (pairs : Table Bytes Bytes) : Op S Unit := do
  let order ← Program.random
  let pairs := encodePairs order pairs
  if pairs = ∅ then pure ()
  else do
    let keys := Table.ascending pairs.dom
    deleteKeysFromAllTables keys
    setMetaBatch keys .string
    Program.query (Sql.forEach (fun p => upsertString p.1 p.2) pairs.toList)

def incr (key : Bytes) (delta : ℤ) : Op S ℤ := do
  let key := encodeKey key
  let value ← Program.query (selectString key)
  let current ← match value with
    | none => pure 0
    | some v =>
        match parseInt v with
        | some n => pure n
        | none => Program.raise "value is not an integer or out of range"
  let result := int64 (current + delta)
  setMeta key .string none
  Program.query (upsertString key (formatInt result))
  pure result

def appendStr (key value : Bytes) : Op S ℤ := do
  let key := encodeKey key
  setMeta key .string none
  Program.query (upsertRow .kvStrings key () ⟨value, none⟩ fun r => ⟨r.val ++ value, r.expiresAt⟩)
  let newValue ← Program.query (selectAll .kvStrings key fun u => (u.row ()).map Cell.val)
  match newValue with
  | some v => pure v.length
  | none => Program.raise "no rows in result set"

/-- Resolve a `start`/`end` pair, negative positions counting from the end, within `length`. -/
def clampRange (length start stop : ℤ) : ℤ × ℤ :=
  let start := if start < 0 then length + start else start
  let stop := if stop < 0 then length + stop else stop
  (if start < 0 then 0 else start, if length ≤ stop then length - 1 else stop)

def getRange (key : Bytes) (start stop : ℤ) : Op S Bytes := do
  let value ← Program.query (selectString (encodeKey key))
  match value with
  | none => pure []
  | some v =>
      if v.length = 0 then pure []
      else
        let r := clampRange v.length start stop
        if r.1 > r.2 ∨ r.1 ≥ v.length then pure []
        else pure ((v.take (r.2 + 1).toNat).drop r.1.toNat)

/-- `make([]byte, n)`, which panics when `n` is out of range. -/
def makeBytes (n : ℤ) : Option Bytes :=
  if 0 ≤ n ∧ n ≤ 2 ^ 48 then some (List.replicate n.toNat 0) else none

/-- `value` copied over `buf` from `offset` on. -/
def overwrite (buf : Bytes) (offset : ℕ) (value : Bytes) : Bytes :=
  buf.take offset ++ value.take (buf.length - offset) ++ buf.drop (offset + value.length)

/-- Extend a buffer with zero bytes to at least `n` bytes. -/
def extendTo (buf : Bytes) (n : ℤ) : Option Bytes :=
  if (buf.length : ℤ) < n then (makeBytes n).map fun z => overwrite z 0 buf else some buf

/-- The new value of `SETRANGE`, `none` where the code panics. -/
def setRangeBytes (existing : Bytes) (offset : ℤ) (value : Bytes) : Option Bytes := do
  let buf ← extendTo existing (int64 (offset + value.length))
  if 0 ≤ offset ∧ offset ≤ buf.length then some (overwrite buf offset.toNat value) else none

def setRange (key : Bytes) (offset : ℤ) (value : Bytes) : Op S ℤ := do
  let key := encodeKey key
  let existing ← Program.query (selectString key)
  match setRangeBytes (existing.getD []) offset value with
  | none => Program.fail (.crash "runtime error: slice bounds out of range")
  | some buf => do
      setMeta key .string none
      Program.query (upsertString key buf)
      pure buf.length

def strLen (key : Bytes) : Op S ℤ := do
  let value ← Program.query (selectString (encodeKey key))
  pure ((value.getD []).length : ℤ)

def getEx (key : Bytes) (ttl : ℤ) (persist : Bool) : Op S (Option Bytes) := do
  let key := encodeKey key
  lockKey key
  let value ← Program.query (selectString key)
  match value with
  | none => pure none
  | some v => do
      if persist then
        Program.query (setExpiry .kvMeta key none)
        Program.query (setExpiry .kvStrings key none)
      else if 0 < ttl then
        let t ← Program.clock
        Program.query (setExpiry .kvMeta key (some (pgTime (t + ttl))))
        Program.query (setExpiry .kvStrings key (some (pgTime (t + ttl))))
      pure (some v)

def getDel (key : Bytes) : Op S (Option Bytes) := do
  let key := encodeKey key
  lockKey key
  let value ← Program.query (selectString key)
  match value with
  | none => pure none
  | some v => do
      Program.queryIgnored (deleteKey .kvMeta key)
      Program.query (deleteKey .kvStrings key)
      pure (some v)

def getSet (key value : Bytes) : Op S (Option Bytes) := do
  let key := encodeKey key
  let oldValue ← Program.query (selectString key)
  setMeta key .string none
  Program.query (upsertRow .kvStrings key () ⟨value, none⟩ fun _ => ⟨value, none⟩)
  pure oldValue

def incrByFloat [Float64 S] (key : Bytes) (delta : S) : Op S S := do
  let key := encodeKey key
  requireType key .string fun _ => do
    let value ← Program.query (selectString key)
    let currentValue ← match value with
      | none => pure Float64.zero
      | some v =>
          match Float64.parseFloat v with
          | some x => pure x
          | none => Program.raise "ERR value is not a valid float"
    let newValue := Float64.add currentValue delta
    setMeta key .string none
    Program.query (upsertString key (Float64.formatFloat newValue))
    pure newValue

end Postkeys
