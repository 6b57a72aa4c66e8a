import Postkeys.Querier.Base

/-! # HyperLogLog operations

A HyperLogLog is an array of 16384 registers, stored as bytes. -/

namespace Postkeys

open Relational

/-- The number of registers. -/
def hllRegisters : ℕ := 16384

/-- The registers of a HyperLogLog. -/
structure HyperLogLog where
  registers : Bytes
  size : registers.length = hllRegisters

namespace HyperLogLog

/-- `NewHyperLogLog`. -/
def new : HyperLogLog := ⟨List.replicate hllRegisters 0, List.length_replicate⟩

/-- `HyperLogLogFromBytes`: data of the wrong length counts as empty. -/
def fromBytes (data : Bytes) : HyperLogLog :=
  if h : data.length = hllRegisters then ⟨data, h⟩ else new

/-- FNV-1a, 64 bits. -/
def fnv64a (data : Bytes) : UInt64 :=
  data.foldl (fun h b => (h ^^^ b.toUInt64) * 1099511628211) 14695981039346656037

/-- FNV followed by the finalizer of MurmurHash3. -/
def murmur64 (data : Bytes) : UInt64 :=
  let k := fnv64a data
  let k := (k ^^^ (k >>> 33)) * 0xff51afd7ed558ccd
  let k := (k ^^^ (k >>> 33)) * 0xc4ceb9fe1a85ec53
  k ^^^ (k >>> 33)

/-- The rank of a hash in `Add`: the leading zeros of its upper 50 bits, plus one.  It is at least 1
already, so the last check of the source changes nothing. -/
def rank (hash : UInt64) : UInt8 :=
  let upperBits := (hash >>> 14).toNat
  if upperBits = 0 then 51 else UInt8.ofNat (64 - (Nat.log2 upperBits + 1) - 14 + 1)

/-- `Add`: the new registers and whether they changed. -/
def add (hll : HyperLogLog) (element : Bytes) : HyperLogLog × Bool :=
  let hash := murmur64 element
  let index := hash.toNat % hllRegisters
  if hll.registers.getD index 0 < rank hash then
    (⟨hll.registers.set index (rank hash), by rw [List.length_set]; exact hll.size⟩, true)
  else (hll, false)

/-- Add several elements. -/
def addAll (hll : HyperLogLog) (elements : List Bytes) : HyperLogLog × Bool :=
  elements.foldl (fun st e => ((st.1.add e).1, st.2 || (st.1.add e).2)) (hll, false)

/-- `Merge`. -/
def merge (hll other : HyperLogLog) : HyperLogLog :=
  ⟨List.zipWith (fun a b => if a < b then b else a) hll.registers other.registers, by
    rw [List.length_zipWith, hll.size, other.size, min_self]⟩

end HyperLogLog

variable {S : Type}

/-- The live registers of a key. -/
def selectRegisters (key : Bytes) : Stm S (Option Bytes) :=
  selectLive .kvHyperloglog key fun u => u.row ()

/-- Write the registers of a key; the row's own expiry stays. -/
def upsertRegisters (key : Bytes) (hll : HyperLogLog) : Stm S Unit :=
  upsertRow .kvHyperloglog key () ⟨hll.registers, none⟩ fun r => ⟨hll.registers, r.expiresAt⟩

def pfAdd (key : Bytes) (elements : List Bytes) : Op S ℤ := do
  let key := encodeKey key
  lockKey key
  requireType key .hyperloglog fun _ => do
    let registers ← Program.query (selectRegisters key)
    let hll := (registers.elim HyperLogLog.new HyperLogLog.fromBytes).addAll elements
    setMeta key .hyperloglog none
    Program.query (upsertRegisters key hll.1)
    pure (if hll.2 then 1 else 0)

/-- Merge the registers of the remaining keys. -/
def pfMergeLoop (merged : HyperLogLog) : List Bytes → Op S HyperLogLog
  | [] => pure merged
  | key :: keys => do
      let registers ← Program.query (selectRegisters key)
      pfMergeLoop (registers.elim merged fun r => merged.merge (HyperLogLog.fromBytes r)) keys

def pfCount [Float64 S] (keys : List Bytes) : Op S ℤ :=
  match encodeKeys keys with
  | [] => pure 0
  | [key] => do
      let registers ← Program.query (selectRegisters key)
      pure (registers.elim 0 fun r => Float64.hllCount S (HyperLogLog.fromBytes r).registers)
  | keys => do
      let merged ← pfMergeLoop HyperLogLog.new keys
      pure (Float64.hllCount S merged.registers)

def pfMerge (destKey : Bytes) (sourceKeys : List Bytes) : Op S Unit := do
  let destKey := encodeKey destKey
  let sourceKeys := encodeKeys sourceKeys
  lockKeys (destKey :: sourceKeys)
  requireType destKey .hyperloglog fun _ => do
    let registers ← Program.query (selectRegisters destKey)
    let merged ← pfMergeLoop (registers.elim HyperLogLog.new HyperLogLog.fromBytes) sourceKeys
    setMeta destKey .hyperloglog none
    Program.query (upsertRegisters destKey merged)

end Postkeys
