import Postkeys.Querier.Base

/-! # Hash operations -/

namespace Postkeys

open Relational

variable {S : Type}

/-- The live value of a field. -/
def selectField (key field : Bytes) : Stm S (Option Bytes) :=
  selectLive .kvHashes key fun u => u.row field

/-- Write a field; the row's own expiry stays. -/
def upsertField (key field value : Bytes) : Stm S Unit :=
  upsertRow .kvHashes key field ⟨value, none⟩ fun r => ⟨value, r.expiresAt⟩

def hGet (key field : Bytes) : Op S (Option Bytes) :=
  Program.query (selectField (encodeKey key) (encodeField field))

/-- The rows of `HSET`, in the order in which the map is walked. -/
def fieldRows (order : List ℕ) (fields : Table Bytes Bytes) : List (Bytes × Row S .kvHashes) :=
  (Table.shuffle order fields.toList).map fun p => (encodeField p.1, ⟨p.2, none⟩)

def hSet (key : Bytes) (fields : Table Bytes Bytes) : Op S ℤ := do
  let key := encodeKey key
  if fields = ∅ then pure 0
  else requireType key .hash fun _ => do
    let order ← Program.random
    let rows := fieldRows order fields
    let existingCount ← Program.query (selectAll .kvHashes key fun u =>
      count (u.restrict fun f _ => f ∈ rows.map Prod.fst))
    setMeta key .hash none
    Program.query (upsertRows .kvHashes key rows fun new old => ⟨new.val, old.expiresAt⟩)
    pure (count fields - existingCount)

def hDel (key : Bytes) (fields : List Bytes) : Op S ℤ :=
  Program.query (deleteWhere .kvHashes (encodeKey key) fun f _ => f ∈ fields.map encodeField)

def hGetAll (key : Bytes) : Op S (Table Bytes Bytes) := do
  let key := encodeKey key
  readTypeCheck key .hash
  let rows ← Program.query (selectLiveRows .kvHashes key)
  pure (rows.foldl (fun m p => Table.put m (decodeField p.1) p.2) ∅)

def hMGet (key : Bytes) (fields : List Bytes) : Op S (List (Option Bytes)) := do
  let encFields := fields.map encodeField
  let rows ← Program.queryRows (selectLiveLimit .kvHashes (encodeKey key) fun _ u =>
    .ok ((u.restrict fun f _ => f ∈ encFields).toList))
  pure (encFields.map fun f => (rows.find? fun r => r.1 = f).map Prod.snd)

def hExists (key field : Bytes) : Op S Bool :=
  Program.query (selectLive .kvHashes (encodeKey key) fun u => (u.row (encodeField field)).isSome)

def hKeys (key : Bytes) : Op S (List Bytes) := do
  let rows ← Program.queryRows (selectLiveRows .kvHashes (encodeKey key))
  pure (rows.map fun r => decodeField r.1)

def hVals (key : Bytes) : Op S (List Bytes) := do
  let rows ← Program.queryRows (selectLiveRows .kvHashes (encodeKey key))
  pure (rows.map Prod.snd)

def hLen (key : Bytes) : Op S ℤ := Program.query (selectLive .kvHashes (encodeKey key) count)

def hIncrBy (key field : Bytes) (increment : ℤ) : Op S ℤ := do
  let key := encodeKey key
  requireType key .hash fun _ => do
    let encField := encodeField field
    let value ← Program.query (selectField key encField)
    let currentValue ← match value with
      | none => pure 0
      | some v =>
          match parseInt v with
          | some n => pure n
          | none => Program.raise "ERR hash value is not an integer"
    let newValue := int64 (currentValue + increment)
    setMeta key .hash none
    Program.query (upsertField key encField (formatInt newValue))
    pure newValue

def hIncrByFloat [Float64 S] (key field : Bytes) (increment : S) : Op S S := do
  let key := encodeKey key
  requireType key .hash fun _ => do
    let encField := encodeField field
    let value ← Program.query (selectField key encField)
    let currentValue ← match value with
      | none => pure Float64.zero
      | some v =>
          match Float64.parseFloat v with
          | some x => pure x
          | none => Program.raise "ERR hash value is not a valid float"
    let newValue := Float64.add currentValue increment
    setMeta key .hash none
    Program.query (upsertField key encField (Float64.formatFloat newValue))
    pure newValue

def hSetNX (key field value : Bytes) : Op S Bool := do
  let key := encodeKey key
  requireType key .hash fun _ => do
    setMeta key .hash none
    let inserted ← Program.query (insertIgnore .kvHashes key [(encodeField field, ⟨value, none⟩)])
    pure (decide (0 < inserted))

def hRandField (key : Bytes) (cnt : ℤ) (withValues : Bool) : Op S (List Bytes) :=
  if cnt = 0 then pure []
  else do
    let rows ← randomRows .kvHashes (encodeKey key) cnt 16
    pure (rows.flatMap fun r => if withValues then [decodeField r.1, r.2] else [decodeField r.1])

end Postkeys
