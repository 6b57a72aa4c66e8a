import Postkeys.Querier.Strings

/-! # Bit operations on strings

`BITFIELD`, `SETBIT`, `BITOP` and the queries over bits.  Bits are numbered from the most
significant bit of the first byte.  A computation that would index outside its buffer answers
`none`: the code panics there. -/

namespace Postkeys

open Relational

variable {S : Type}

/-- Bit `i` of a byte, counted from the least significant one; no such bit reads as zero. -/
def byteBit (b : UInt8) (i : ℤ) : Bool := decide (0 ≤ i ∧ i < 8) && b.toNat.testBit i.toNat

/-- The byte with bit `i` set or cleared. -/
def setByteBit (b : UInt8) (i : ℤ) (v : Bool) : UInt8 :=
  if 0 ≤ i ∧ i < 8 then
    if v then b ||| UInt8.ofNat (2 ^ i.toNat) else b &&& ~~~ UInt8.ofNat (2 ^ i.toNat)
  else b

/-! ### `BITFIELD` -/

/-- The operations of `BITFIELD`. -/
inductive BitFieldKind
  | get | set | incrBy
deriving DecidableEq, Repr

/-- What happens to a value that does not fit. -/
inductive Overflow
  | wrap | sat | fail
deriving DecidableEq, Repr

/-- One `BITFIELD` operation. -/
structure BitFieldOp where
  opType : BitFieldKind
  encoding : Bytes
  offset : ℤ
  value : ℤ
  overflow : Overflow
deriving DecidableEq, Repr

/-- Whether an encoding is signed (`i16`, not `u16`). -/
def encodingSigned (encoding : Bytes) : Bool := encoding.head? = some 105

/-- The width of an encoding; eight bits when it is malformed. -/
def encodingWidth (encoding : Bytes) : ℤ :=
  match parseInt (encoding.drop 1) with
  | some w => if w ≤ 0 ∨ 64 < w then 8 else w
  | none => 8

/-- The least and the greatest value of an encoding, as `int64` values. -/
def bitfieldBounds (bitWidth : ℤ) (signed : Bool) : ℤ × ℤ :=
  if signed then (-(2 ^ (bitWidth - 1).toNat), 2 ^ (bitWidth - 1).toNat - 1)
  else (0, int64 (2 ^ bitWidth.toNat - 1))

/-- `for v >= max { v -= max * 2 }` in 64-bit arithmetic, for a number of rounds. -/
def wrapDown (max : ℤ) : ℕ → ℤ → ℤ
  | 0, v => v
  | n + 1, v => if max ≤ v then wrapDown max n (int64 (v - int64 (max * 2))) else v

/-- `for v < -max { v += max * 2 }`. -/
def wrapUp (max : ℤ) : ℕ → ℤ → ℤ
  | 0, v => v
  | n + 1, v => if v < -max then wrapUp max n (int64 (v + int64 (max * 2))) else v

/-- A value reduced into the range of an encoding.  No 64-bit value takes `2 ^ 63` rounds. -/
def wrapBitfield (v bitWidth : ℤ) (signed : Bool) : ℤ :=
  if 64 ≤ bitWidth then v
  else if signed then
    let max := 2 ^ (bitWidth - 1).toNat
    wrapUp max (2 ^ 63) (wrapDown max (2 ^ 63) v)
  else v % 2 ^ bitWidth.toNat

/-- The value to store under an overflow mode, `none` when the operation is rejected. -/
def bitfieldResolveOverflow (mode : Overflow) (high low : Bool) (wrapped min max : ℤ) : Option ℤ :=
  if !high && !low then some wrapped
  else match mode with
    | .sat => if high then some max else some min
    | .fail => none
    | .wrap => some wrapped

/-- The byte and the bit within it at bit position `pos`; `none` where indexing panics. -/
def bitAt (data : Bytes) (pos : ℤ) : Option Bool :=
  let byteIdx := Int.tdiv pos 8
  if byteIdx < 0 then none
  else some ((data[byteIdx.toNat]?).elim false fun b => byteBit b (7 - Int.tmod pos 8))

/-- The unsigned value of the `n` bits from `pos` on. -/
def bitsFrom (data : Bytes) (pos : ℤ) : ℕ → Option ℤ
  | 0 => some 0
  | n + 1 => do
      let b ← bitAt data pos
      let rest ← bitsFrom data (pos + 1) n
      pure (if b then 2 ^ n + rest else rest)

def getBitField (data : Bytes) (bitOffset bitWidth : ℤ) (signed : Bool) : Option ℤ := do
  let raw ← bitsFrom data bitOffset bitWidth.toNat
  pure (if signed && decide (2 ^ (bitWidth - 1).toNat ≤ raw) then raw - 2 ^ bitWidth.toNat
    else int64 raw)

/-- Write the `n` low bits of `value` from bit position `pos` on. -/
def setBitField (data : Bytes) (pos value : ℤ) : ℕ → Option Bytes
  | 0 => some data
  | n + 1 =>
      let byteIdx := Int.tdiv pos 8
      if byteIdx < 0 then none
      else
        let bitValue := decide (value / 2 ^ n % 2 = 1)
        setBitField (data.modify byteIdx.toNat fun b => setByteBit b (7 - Int.tmod pos 8) bitValue)
          (pos + 1) value n

/-- The state of the `BITFIELD` loop. -/
structure BitFieldState where
  value : Bytes
  results : List (Option ℤ)
  modified : Bool
deriving DecidableEq, Repr

/-- One operation of the `BITFIELD` loop. -/
def bitFieldStep (st : BitFieldState) (op : BitFieldOp) : Option BitFieldState := do
  let signed := encodingSigned op.encoding
  let bitWidth := encodingWidth op.encoding
  let neededBytes := Int.tdiv op.offset 8 + Int.tdiv (bitWidth + Int.tmod op.offset 8 + 7) 8
  let value ← extendTo st.value neededBytes
  let bounds := bitfieldBounds bitWidth signed
  let oldValue ← getBitField value op.offset bitWidth signed
  match op.opType with
  | .get => pure ⟨value, st.results ++ [some oldValue], st.modified⟩
  | .set =>
      match bitfieldResolveOverflow op.overflow (decide (bounds.2 < op.value))
          (decide (op.value < bounds.1)) op.value bounds.1 bounds.2 with
      | none => pure ⟨value, st.results ++ [none], st.modified⟩
      | some stored => do
          let value ← setBitField value op.offset stored bitWidth.toNat
          pure ⟨value, st.results ++ [some oldValue], true⟩
  | .incrBy =>
      let sum := int64 (oldValue + op.value)
      let addOverflow := (decide (0 < op.value) && decide (sum < oldValue)) ||
        (decide (op.value < 0) && decide (oldValue < sum))
      let high := (addOverflow && decide (0 < op.value)) || (!addOverflow && decide (bounds.2 < sum))
      let low := (addOverflow && decide (op.value < 0)) || (!addOverflow && decide (sum < bounds.1))
      match bitfieldResolveOverflow op.overflow high low (wrapBitfield sum bitWidth signed)
          bounds.1 bounds.2 with
      | none => pure ⟨value, st.results ++ [none], st.modified⟩
      | some newValue => do
          let value ← setBitField value op.offset newValue bitWidth.toNat
          pure ⟨value, st.results ++ [some newValue], true⟩

/-- The whole `BITFIELD` loop. -/
def bitFieldLoop (st : BitFieldState) (ops : List BitFieldOp) : Option BitFieldState :=
  ops.foldlM bitFieldStep st

def bitField (key : Bytes) (ops : List BitFieldOp) : Op S (List (Option ℤ)) := do
  let key := encodeKey key
  let value ← Program.query (selectString key)
  match bitFieldLoop ⟨value.getD [], [], false⟩ ops with
  | none => Program.fail (.crash "runtime error: index out of range")
  | some st =>
      if st.modified then do
        if value.isNone then setMeta key .string none else lockKey key
        Program.query (upsertString key st.value)
        pure st.results
      else pure st.results

/-! ### Single bits -/

/-- The old bit and the new value of `SETBIT`, `none` where the code panics. -/
def setBitBytes (data : Bytes) (offset value : ℤ) : Option (ℤ × Bytes) := do
  let byteOffset := Int.tdiv offset 8
  let data ← extendTo data (byteOffset + 1)
  if byteOffset < 0 then none
  else do
    let b ← data[byteOffset.toNat]?
    let bitOffset := 7 - Int.tmod offset 8
    some (if byteBit b bitOffset then 1 else 0,
      data.modify byteOffset.toNat fun b => setByteBit b bitOffset (decide (value = 1)))

def setBit (key : Bytes) (offset value : ℤ) : Op S ℤ := do
  let key := encodeKey key
  let data ← Program.query (selectString key)
  match setBitBytes (data.getD []) offset value with
  | none => Program.fail (.crash "runtime error: index out of range")
  | some (oldBit, data) => do
      setMeta key .string none
      Program.query (upsertString key data)
      pure oldBit

def getBit (key : Bytes) (offset : ℤ) : Op S ℤ := do
  let data ← Program.query (selectString (encodeKey key))
  match data with
  | none => pure 0
  | some data =>
      let byteOffset := Int.tdiv offset 8
      if (data.length : ℤ) ≤ byteOffset then pure 0
      else
        match bitAt data offset with
        | none => Program.fail (.crash "runtime error: index out of range")
        | some b => pure (if b then 1 else 0)

/-! ### Ranges of bits -/

/-- The positions from `start` to `stop`. -/
def positions (start stop : ℤ) : List ℤ :=
  (List.range (stop - start + 1).toNat).map fun (i : ℕ) => start + i

/-- `data[i]`, `none` where the index is out of range and the code panics. -/
def byteAt (data : Bytes) (i : ℤ) : Option UInt8 := if i < 0 then none else data[i.toNat]?

/-- `(b >> i) & 1`. -/
def bitVal (b : UInt8) (i : ℤ) : ℤ := if byteBit b i then 1 else 0

/-- Add the set bits of a byte to `cnt`: the byte is shifted out to the right until it is zero. -/
def popLoop : ℕ → ℤ → UInt8 → ℤ
  | 0, cnt, _ => cnt
  | n + 1, cnt, b => if b = 0 then cnt else popLoop n (cnt + (b &&& 1).toNat) (b >>> 1)

/-- Count the bit at position `i`. -/
def countBit (data : Bytes) (cnt i : ℤ) : Option ℤ := do
  let b ← byteAt data (Int.tdiv i 8)
  pure (if byteBit b (7 - Int.tmod i 8) then cnt + 1 else cnt)

/-- Count the bits of the byte at `i`, which is zero after eight shifts. -/
def countByte (data : Bytes) (cnt i : ℤ) : Option ℤ := do
  let b ← byteAt data i
  pure (popLoop 8 cnt b)

def bitCount (key : Bytes) (start stop : ℤ) (useBit : Bool) : Op S ℤ := do
  let data ← Program.query (selectString (encodeKey key))
  let data := data.getD []
  if data.length = 0 then pure 0
  else
    let r := clampRange (if useBit then data.length * 8 else data.length) start stop
    if r.1 > r.2 then pure 0
    else
      match (positions r.1 r.2).foldlM (if useBit then countBit data else countByte data) 0 with
      | none => Program.fail (.crash "runtime error: index out of range")
      | some n => pure n

/-- Position `i` if it holds `bit`. -/
def findBit (data : Bytes) (bit i : ℤ) : Option (Option ℤ) := do
  let b ← byteAt data (Int.tdiv i 8)
  pure (if bitVal b (7 - Int.tmod i 8) = bit then some i else none)

/-- The first position in the byte at `i` that holds `bit`. -/
def findInByte (data : Bytes) (bit i : ℤ) : Option (Option ℤ) := do
  let b ← byteAt data i
  pure (([7, 6, 5, 4, 3, 2, 1, 0].find? fun j => bitVal b j = bit).map fun j => i * 8 + (7 - j))

def bitPos (key : Bytes) (bit start stop : ℤ) (useBit : Bool) : Op S ℤ := do
  let data ← Program.query (selectString (encodeKey key))
  let data := data.getD []
  if data.length = 0 then pure (if bit = 0 then 0 else -1)
  else
    let r := clampRange (if useBit then data.length * 8 else data.length) start stop
    match (positions r.1 r.2).findSomeM? (if useBit then findBit data bit else findInByte data bit) with
    | none => Program.fail (.crash "runtime error: index out of range")
    | some (some pos) => pure pos
    | some none =>
        if useBit = false ∧ bit = 0 ∧ r.2 < data.length - 1 then pure (int64 ((r.2 + 1) * 8))
        else pure (-1)

/-! ### `BITOP` -/

/-- The operations of `BITOP`; the code rejects any other name. -/
inductive BitOperation
  | and | or | xor | not
  | other (name : String)
deriving DecidableEq, Repr

/-- The values of several keys, missing ones empty. -/
def selectStrings : List Bytes → Op S (List Bytes)
  | [] => pure []
  | key :: keys => do
      let data ← Program.query (selectString key)
      let rest ← selectStrings keys
      pure (data.getD [] :: rest)

/-- A value extended with zero bytes to `n` bytes. -/
def padTo (n : ℕ) (v : Bytes) : Bytes := v ++ List.replicate (n - v.length) 0

/-- The result of `BITOP` on padded values. -/
def bitOpBytes (operation : BitOperation) (values : List Bytes) : Except String Bytes :=
  let maxLen := (values.map List.length).foldl max 0
  let padded := values.map (padTo maxLen)
  let zeros := List.replicate maxLen 0
  match operation with
  | .and => .ok (padded.tail.foldl (List.zipWith (· &&& ·)) (padded.headD zeros))
  | .or => .ok (padded.foldl (List.zipWith (· ||| ·)) zeros)
  | .xor => .ok (padded.foldl (List.zipWith (· ^^^ ·)) zeros)
  | .not => .ok ((padded.headD zeros).map (~~~ ·))
  | .other name => .error ("ERR BITOP: unsupported operation '" ++ name ++ "'")

def bitOp (operation : BitOperation) (destKey : Bytes) (keys : List Bytes) : Op S ℤ := do
  let destKey := encodeKey destKey
  let keys := encodeKeys keys
  if keys = [] then pure 0
  else do
    let values ← selectStrings keys
    match bitOpBytes operation values with
    | .error message => Program.raise message
    | .ok result => do
        deleteKeyFromAllTables destKey
        setMeta destKey .string none
        Program.query (upsertString destKey result)
        pure result.length

end Postkeys
