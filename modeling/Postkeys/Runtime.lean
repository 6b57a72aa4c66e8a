import Postkeys.Relational.Table

/-! # Bytes, numbers and texts

The pieces of the Go runtime and of PostgreSQL's text functions that the storage layer is
written with: byte strings and their order, 64-bit arithmetic, decimal numbers, UTF-8 validity,
base64, the encoding of binary keys, and `LIKE`. -/

namespace Postkeys

/-- A Go string, a `BYTEA` or a `TEXT` value: its bytes. -/
abbrev Bytes := List UInt8

instance uint8LinearOrder : LinearOrder UInt8 where
  le_refl := UInt8.le_refl
  le_trans _ _ _ := UInt8.le_trans
  le_antisymm _ _ := UInt8.le_antisymm
  le_total := UInt8.le_total
  lt_iff_le_not_ge a b := by simp [UInt8.lt_iff_toNat_lt, UInt8.le_iff_toNat_le]; omega
  toDecidableLE := inferInstance
  toDecidableEq := inferInstance
  toDecidableLT := inferInstance

instance bytesLawfulBEq : LawfulBEq Bytes := inferInstance

/-! ### 64-bit arithmetic and decimal numbers -/

/-- The value of an `int64` computation that may have overflowed. -/
def int64 (x : ℤ) : ℤ := Int.bmod x (2 ^ 64)

/-- The value of a decimal digit. -/
def digit (b : UInt8) : Option ℕ := if 48 ≤ b ∧ b ≤ 57 then some (b.toNat - 48) else none

/-- The value of a nonempty string of decimal digits. -/
def parseDigits : Bytes → Option ℕ
  | [] => none
  | ds => ds.foldlM (fun n b => (digit b).map (10 * n + ·)) 0

/-- `strconv.ParseInt(s, 10, 64)`: an optional sign and decimal digits, within `int64`. -/
def parseInt (s : Bytes) : Option ℤ :=
  match s with
  | 45 :: ds => (parseDigits ds).bind fun n => if n ≤ 2 ^ 63 then some (-(n : ℤ)) else none
  | 43 :: ds => (parseDigits ds).bind fun n => if n < 2 ^ 63 then some (n : ℤ) else none
  | ds => (parseDigits ds).bind fun n => if n < 2 ^ 63 then some (n : ℤ) else none

/-- The decimal digits of a natural number. -/
def formatNat (n : ℕ) : Bytes := (Nat.toDigits 10 n).map fun c => UInt8.ofNat c.toNat

/-- `strconv.FormatInt(n, 10)`. -/
def formatInt (n : ℤ) : Bytes := if n < 0 then 45 :: formatNat n.natAbs else formatNat n.natAbs

/-! ### UTF-8 -/

/-- Where a UTF-8 text stands between two bytes: how many continuation bytes the current
character still owes, and the range the next of them must lie in. -/
structure Utf8State where
  owed : ℕ
  low : UInt8
  high : UInt8

/-- The state between two characters. -/
def Utf8State.start : Utf8State := ⟨0, 0x80, 0xBF⟩

/-- The state after one more byte, `none` where the text is not valid. -/
def Utf8State.step (q : Utf8State) (b : UInt8) : Option Utf8State :=
  match q.owed with
  | 0 =>
      if b < 0x80 then some .start
      else if 0xC2 ≤ b ∧ b ≤ 0xDF then some ⟨1, 0x80, 0xBF⟩
      else if b = 0xE0 then some ⟨2, 0xA0, 0xBF⟩
      else if b = 0xED then some ⟨2, 0x80, 0x9F⟩
      else if 0xE1 ≤ b ∧ b ≤ 0xEF then some ⟨2, 0x80, 0xBF⟩
      else if b = 0xF0 then some ⟨3, 0x90, 0xBF⟩
      else if 0xF1 ≤ b ∧ b ≤ 0xF3 then some ⟨3, 0x80, 0xBF⟩
      else if b = 0xF4 then some ⟨3, 0x80, 0x8F⟩
      else none
  | n + 1 => if q.low ≤ b ∧ b ≤ q.high then some ⟨n, 0x80, 0xBF⟩ else none

/-- `utf8.ValidString`. -/
def validString (s : Bytes) : Bool :=
  match s.foldlM Utf8State.step .start with
  | some q => q.owed == 0
  | none => false

/-! ### base64 -/

/-- The standard base64 alphabet. -/
def base64Char (n : ℕ) : UInt8 :=
  if n < 26 then UInt8.ofNat (65 + n)
  else if n < 52 then UInt8.ofNat (71 + n)
  else if n < 62 then UInt8.ofNat (n - 4)
  else if n = 62 then 43
  else 47

/-- The position of a character in the base64 alphabet. -/
def base64Value (b : UInt8) : Option ℕ :=
  if 65 ≤ b ∧ b ≤ 90 then some (b.toNat - 65)
  else if 97 ≤ b ∧ b ≤ 122 then some (b.toNat - 71)
  else if 48 ≤ b ∧ b ≤ 57 then some (b.toNat + 4)
  else if b = 43 then some 62
  else if b = 47 then some 63
  else none

/-- `base64.StdEncoding.EncodeToString`. -/
def base64Encode : Bytes → Bytes
  | [] => []
  | [a] => [base64Char (a.toNat / 4), base64Char (a.toNat % 4 * 16), 61, 61]
  | [a, b] =>
      [base64Char (a.toNat / 4), base64Char (a.toNat % 4 * 16 + b.toNat / 16),
        base64Char (b.toNat % 16 * 4), 61]
  | a :: b :: c :: rest =>
      base64Char (a.toNat / 4) :: base64Char (a.toNat % 4 * 16 + b.toNat / 16) ::
        base64Char (b.toNat % 16 * 4 + c.toNat / 64) :: base64Char (c.toNat % 64) ::
          base64Encode rest

/-- The groups of four characters of a base64 text; padding may only end the last group. -/
def base64Groups : Bytes → Option Bytes
  | [] => some []
  | [a, b, 61, 61] => do
      let a ← base64Value a
      let b ← base64Value b
      pure [UInt8.ofNat (a * 4 + b / 16)]
  | [a, b, c, 61] => do
      let a ← base64Value a
      let b ← base64Value b
      let c ← base64Value c
      pure [UInt8.ofNat (a * 4 + b / 16), UInt8.ofNat (b % 16 * 16 + c / 4)]
  | a :: b :: c :: d :: rest => do
      let a ← base64Value a
      let b ← base64Value b
      let c ← base64Value c
      let d ← base64Value d
      let rest ← base64Groups rest
      pure (UInt8.ofNat (a * 4 + b / 16) :: UInt8.ofNat (b % 16 * 16 + c / 4) ::
        UInt8.ofNat (c % 4 * 64 + d) :: rest)
  | _ => none

/-- `base64.StdEncoding.DecodeString`, which skips line ends. -/
def base64Decode (s : Bytes) : Option Bytes := base64Groups (s.filter fun b => b ≠ 10 ∧ b ≠ 13)

/-! ### Keys and fields in `TEXT` columns -/

/-- The marker `"\x1Fb64:"` of an encoded binary key. -/
def binaryPrefix : Bytes := [0x1F, 0x62, 0x36, 0x34, 0x3A]

/-- A key as it is stored: unchanged when it is valid UTF-8 without null bytes. -/
def encodeKey (key : Bytes) : Bytes :=
  if key.contains 0 || !validString key then binaryPrefix ++ base64Encode key else key

theorem base64Char_ascii (n : ℕ) : base64Char n < 0x80 ∧ base64Char n ≠ 0 := by
  by_cases h : n < 64
  · revert n
    decide
  · rw [base64Char, if_neg (by omega), if_neg (by omega), if_neg (by omega), if_neg (by omega)]
    decide

theorem base64Encode_ascii (s : Bytes) : ∀ b ∈ base64Encode s, b < 0x80 ∧ b ≠ 0 := by
  fun_induction base64Encode s with
  | case1 => simp
  | case2 a => simp [base64Char_ascii]
  | case3 a b => simp [base64Char_ascii]
  | case4 a b c rest ih => simpa [base64Char_ascii] using ih

theorem validString_of_ascii {s : Bytes} (h : ∀ b ∈ s, b < 0x80) : validString s = true := by
  have hfold : s.foldlM Utf8State.step .start = some .start := by
    induction s with
    | nil => rfl
    | cons b s ih =>
        have hb : Utf8State.step .start b = some .start := if_pos (h b (List.mem_cons_self ..))
        rw [List.foldlM_cons, hb]
        exact ih fun b' hb' => h b' (List.mem_cons_of_mem b hb')
  rw [validString, hfold]
  rfl

/-- A stored key is its own stored form. -/
@[simp] theorem encodeKey_encodeKey (key : Bytes) : encodeKey (encodeKey key) = encodeKey key := by
  by_cases h : (key.contains 0 || !validString key) = true
  · have hmarker : ∀ b ∈ binaryPrefix, b < 0x80 ∧ b ≠ 0 := by
      intro b hb
      simp only [binaryPrefix, List.mem_cons, List.not_mem_nil, or_false] at hb
      rcases hb with rfl | rfl | rfl | rfl | rfl <;> decide
    have hascii : ∀ b ∈ binaryPrefix ++ base64Encode key, b < 0x80 ∧ b ≠ 0 := by
      intro b hb
      exact (List.mem_append.mp hb).elim (hmarker b) (base64Encode_ascii key b)
    have henc : encodeKey key = binaryPrefix ++ base64Encode key := if_pos h
    have hzero : (binaryPrefix ++ base64Encode key).contains 0 = false := by
      rw [← Bool.not_eq_true, List.contains_iff_mem]
      exact fun h0 => (hascii 0 h0).2 rfl
    rw [henc, encodeKey, hzero, validString_of_ascii fun b hb => (hascii b hb).1]
    rfl
  · have henc : encodeKey key = key := if_neg h
    rw [henc, henc]

/-- The key behind a stored text. -/
def decodeKey (key : Bytes) : Bytes :=
  if binaryPrefix.isPrefixOf key then
    (base64Decode (key.drop binaryPrefix.length)).getD key
  else key

/-- Stored forms of several keys. -/
def encodeKeys (keys : List Bytes) : List Bytes := keys.map encodeKey

/-- A hash field as it is stored. -/
def encodeField (field : Bytes) : Bytes :=
  if field.contains 0 || !validString field then binaryPrefix ++ base64Encode field else field

/-- The hash field behind a stored text. -/
def decodeField (field : Bytes) : Bytes :=
  if binaryPrefix.isPrefixOf field then
    (base64Decode (field.drop binaryPrefix.length)).getD field
  else field

/-! ### `LIKE` -/

/-- Drop the first character of a UTF-8 text. -/
def dropChar : Bytes → Bytes
  | [] => []
  | _ :: rest => rest.dropWhile fun b => 0x80 ≤ b ∧ b < 0xC0

/-- One element of a `LIKE` pattern. -/
inductive LikeItem
  | any
  | one
  | byte (b : UInt8)
deriving DecidableEq, Repr

/-- Read a `LIKE` pattern: `%`, `_`, and `\` before a literal byte; `none` when it ends in `\`. -/
def likeItems : Bytes → Option (List LikeItem)
  | [] => some []
  | 92 :: rest =>
      match rest with
      | [] => none
      | b :: rest => (likeItems rest).map (.byte b :: ·)
  | 37 :: rest => (likeItems rest).map (.any :: ·)
  | 95 :: rest => (likeItems rest).map (.one :: ·)
  | b :: rest => (likeItems rest).map (.byte b :: ·)

/-- Match a text against a pattern. -/
def likeMatch : List LikeItem → Bytes → Bool
  | [], s => s.isEmpty
  | .byte b :: p, s =>
      match s with
      | [] => false
      | c :: s => b == c && likeMatch p s
  | .one :: p, s =>
      match s with
      | [] => false
      | _ :: _ => likeMatch p (dropChar s)
  | .any :: p, s => s.tails.any (likeMatch p)

end Postkeys
