import Postkeys.ByteRanges

/-! # `BITFIELD`

A sub-command of `BITFIELD` addresses a field: some consecutive bits of the string, read as a signed or an
unsigned number (`Field`).  What it is to do is said on rows of bits (`Sub.answer`, `Sub.bits`): a value that
does not fit is taken modulo a power of two, replaced by the nearer bound, or refused.  The loop of the
code computes exactly that (`bitFieldLoop_run`); the sum is tested for overflow of 64 bits by its
sign and wrapped by repeated subtraction.

* `bitfield_arithmetic`: the replies and the bits that are stored are the specified ones, and a field
  that was written reads back.
* `bitfield_frame_iff`: the string changes in the written fields only and grows to the last of their bytes
  only, exactly if no other sub-command reaches beyond them. -/

namespace Postkeys

open Relational Program Bitstring

/-! ### Fields -/

/-- A field of a row of bits: `i1` to `i64` or `u1` to `u63`, and where it starts. -/
structure Field where
  offset : ℕ
  width : ℕ
  signed : Bool
  width_pos : 0 < width
  width_le : width ≤ if signed then 64 else 63
deriving DecidableEq

namespace Field

variable (f : Field)

/-- The number of bytes up to the last one of the field. -/
def bytes : ℕ := (f.offset + f.width + 7) / 8

/-- Bit `p` belongs to the field. -/
def Has (p : ℕ) : Prop := f.offset ≤ p ∧ p < f.offset + f.width

def min : ℤ := if f.signed then -2 ^ (f.width - 1) else 0

def max : ℤ := if f.signed then 2 ^ (f.width - 1) - 1 else 2 ^ f.width - 1

/-- The values of the field. -/
def InRange (x : ℤ) : Prop := f.min ≤ x ∧ x ≤ f.max

instance (x : ℤ) : Decidable (f.InRange x) := inferInstanceAs (Decidable (_ ∧ _))

/-- The value of the field that is `x` modulo `2 ^ width`. -/
def wrap (x : ℤ) : ℤ :=
  if x % 2 ^ f.width ≤ f.max then x % 2 ^ f.width else x % 2 ^ f.width - 2 ^ f.width

/-- The value in a row of bits. -/
def read (bits : ℕ → Bool) : ℤ := f.wrap (field bits f.offset f.width)

/-- The row of bits with a value written. -/
def write (bits : ℕ → Bool) (x : ℤ) : ℕ → Bool := put bits f.offset f.width x

/-- What is stored for a mathematical value, if anything. -/
def resolve (mode : Overflow) (x : ℤ) : Option ℤ :=
  if f.InRange x then some x
  else match mode with
    | .wrap => some (f.wrap x)
    | .sat => some (if x < f.min then f.min else f.max)
    | .fail => none

variable {f}

theorem two_pow_width : (2 : ℤ) ^ f.width = 2 * 2 ^ (f.width - 1) := by
  rw [← pow_succ', Nat.sub_add_cancel f.width_pos]

theorem half_pos : (0 : ℤ) < 2 ^ (f.width - 1) := by positivity

theorem max_sub_min : f.max - f.min = 2 ^ f.width - 1 := by
  have hpow := f.two_pow_width
  rw [max, min]
  split <;> omega

theorem wrap_inRange (x : ℤ) : f.InRange (f.wrap x) := by
  have hpow := f.two_pow_width
  have hpos := f.half_pos
  have hlow : 0 ≤ x % 2 ^ f.width := Int.emod_nonneg _ (by omega)
  have hhigh : x % 2 ^ f.width < 2 ^ f.width := Int.emod_lt_of_pos _ (by omega)
  have hmin : f.min ≤ 0 := by rw [min]; split <;> omega
  have hmax : 0 ≤ f.max := by rw [max]; split <;> omega
  have hspan := f.max_sub_min
  rw [InRange, wrap]
  split <;> omega

theorem wrap_emod (x : ℤ) : f.wrap x % 2 ^ f.width = x % 2 ^ f.width := by
  rw [wrap]
  split
  · exact Int.emod_emod_of_dvd x dvd_rfl
  · rw [Int.sub_emod_right, Int.emod_emod_of_dvd x dvd_rfl]

/-- The values of a field are told apart by their residues. -/
theorem eq_of_inRange {x y : ℤ} (hx : f.InRange x) (hy : f.InRange y) (h : x % 2 ^ f.width = y % 2 ^ f.width) :
    x = y := by
  have hspan := f.max_sub_min
  obtain ⟨hx₀, hx₁⟩ := hx
  obtain ⟨hy₀, hy₁⟩ := hy
  have hdvd : (2 : ℤ) ^ f.width ∣ x - y := Int.dvd_of_emod_eq_zero (Int.emod_eq_emod_iff_emod_sub_eq_zero.mp h)
  have hzero : x - y = 0 := Int.eq_zero_of_abs_lt_dvd hdvd (abs_lt.mpr ⟨by omega, by omega⟩)
  omega

theorem wrap_eq {x y : ℤ} (hy : f.InRange y) (h : y % 2 ^ f.width = x % 2 ^ f.width) : f.wrap x = y :=
  eq_of_inRange (wrap_inRange x) hy ((wrap_emod x).trans h.symm)

theorem read_inRange (bits : ℕ → Bool) : f.InRange (f.read bits) := wrap_inRange _

theorem resolve_inRange {mode : Overflow} {x y : ℤ} (h : f.resolve mode x = some y) : f.InRange y := by
  have hspan := f.max_sub_min
  have hpow : (0 : ℤ) < 2 ^ f.width := by positivity
  unfold resolve at h
  split at h
  · cases h
    assumption
  · cases mode with
    | wrap =>
        cases h
        exact wrap_inRange x
    | sat =>
        cases h
        rw [InRange]
        split <;> omega
    | fail => cases h

/-- **A field that was written reads back.** -/
theorem read_write (bits : ℕ → Bool) {x : ℤ} (h : f.InRange x) : f.read (f.write bits x) = x := by
  refine wrap_eq h ?_
  rw [write, field_put, Int.emod_emod_of_dvd x dvd_rfl]

theorem write_congr {x y : ℤ} (h : x % 2 ^ f.width = y % 2 ^ f.width) (bits : ℕ → Bool) :
    f.write bits x = f.write bits y := put_congr h bits f.offset

theorem write_of_not_has {bits : ℕ → Bool} {x : ℤ} {p : ℕ} (h : ¬ f.Has p) : f.write bits x p = bits p :=
  put_of_notMem h

theorem inInt64_of_inRange {x : ℤ} (h : f.InRange x) : InInt64 x := by
  obtain ⟨hlow, hhigh⟩ := h
  have hle := f.width_le
  have hpos := f.half_pos
  cases hs : f.signed with
  | true =>
      have hhalf : (2 : ℤ) ^ (f.width - 1) ≤ 2 ^ 63 := by
        refine pow_le_pow_right₀ (by decide) ?_
        rw [hs, if_pos rfl] at hle
        omega
      rw [min, hs, if_pos rfl] at hlow
      rw [max, hs, if_pos rfl] at hhigh
      constructor <;> omega
  | false =>
      have hfull : (2 : ℤ) ^ f.width ≤ 2 ^ 63 := by
        refine pow_le_pow_right₀ (by decide) ?_
        rwa [hs, if_neg (by decide)] at hle
      rw [min, hs, if_neg (by decide)] at hlow
      rw [max, hs, if_neg (by decide)] at hhigh
      constructor <;> omega

end Field

/-! ### Sub-commands -/

/-- A sub-command with a valid encoding, an offset that is not negative and a 64-bit operand. -/
structure Sub where
  op : BitFieldOp
  field : Field
  signed_eq : encodingSigned op.encoding = field.signed
  width_eq : encodingWidth op.encoding = field.width
  offset_eq : op.offset = field.offset
  operand : InInt64 op.value

namespace Sub

variable (s : Sub)

/-- The mathematical value a sub-command computes. -/
def wanted (bits : ℕ → Bool) : ℤ :=
  match s.op.opType with
  | .get => s.field.read bits
  | .set => s.op.value
  | .incrBy => s.field.read bits + s.op.value

/-- What a sub-command stores; nothing if it only reads or fails. -/
def stored (bits : ℕ → Bool) : Option ℤ :=
  if s.op.opType = .get then none else s.field.resolve s.op.overflow (s.wanted bits)

/-- The reply to a sub-command: the value read, the old one or the new one, or nil where it failed. -/
def answer (bits : ℕ → Bool) : Option ℤ :=
  match s.op.opType with
  | .get => some (s.field.read bits)
  | .set => (s.stored bits).map fun _ => s.field.read bits
  | .incrBy => s.stored bits

/-- The bits after a sub-command. -/
def bits (bits : ℕ → Bool) : ℕ → Bool := (s.stored bits).elim bits (s.field.write bits)

end Sub

/-- The replies to some sub-commands. -/
def answers (bits : ℕ → Bool) : List Sub → List (Option ℤ)
  | [] => []
  | s :: subs => s.answer bits :: answers (s.bits bits) subs

/-- The bits after some sub-commands. -/
def finalBits (bits : ℕ → Bool) : List Sub → ℕ → Bool
  | [] => bits
  | s :: subs => finalBits (s.bits bits) subs

/-- The fields that some sub-commands write. -/
def writtenFields (bits : ℕ → Bool) : List Sub → List Field
  | [] => []
  | s :: subs => (if (s.stored bits).isSome then [s.field] else []) ++ writtenFields (s.bits bits) subs

/-! ### The code's arithmetic -/

section arithmetic
variable {f : Field}

theorem bitfieldBounds_eq (f : Field) : bitfieldBounds f.width f.signed = (f.min, f.max) := by
  have hwidth : ((f.width : ℤ) - 1).toNat = f.width - 1 := by omega
  have hle := f.width_le
  rw [bitfieldBounds, Field.min, Field.max, hwidth, Int.toNat_natCast]
  cases hs : f.signed with
  | true => rfl
  | false =>
      have hfull : (2 : ℤ) ^ f.width ≤ 2 ^ 63 := by
        refine pow_le_pow_right₀ (by decide) ?_
        rwa [hs, if_neg (by decide)] at hle
      have hpos : (0 : ℤ) < 2 ^ f.width := by positivity
      simp only [Bool.false_eq_true, if_false]
      rw [int64_eq_self ⟨by omega, by omega⟩]

theorem bitsFrom_natCast (data : Bytes) (p n : ℕ) : bitsFrom data p n = some (field (bit data) p n : ℤ) := by
  induction n generalizing p with
  | zero => rfl
  | succ n ih =>
      rw [bitsFrom, bitAt_natCast, ← Nat.cast_succ, ih]
      cases hb : bit data p <;> simp [field, hb]

/-- **The code reads a field.** -/
theorem getBitField_eq (data : Bytes) (f : Field) :
    getBitField data f.offset f.width f.signed = some (f.read (bit data)) := by
  have hlt : (field (bit data) f.offset f.width : ℤ) < 2 ^ f.width := by exact_mod_cast field_lt _ _ _
  have hraw : (field (bit data) f.offset f.width : ℤ) % 2 ^ f.width = field (bit data) f.offset f.width :=
    Int.emod_eq_of_lt (by omega) hlt
  have hwidth : ((f.width : ℤ) - 1).toNat = f.width - 1 := by omega
  rw [getBitField, Int.toNat_natCast, bitsFrom_natCast, hwidth, Field.read, Field.wrap, hraw]
  refine congrArg some ?_
  have hmax : f.max < field (bit data) f.offset f.width ↔
      (f.signed && decide ((2 : ℤ) ^ (f.width - 1) ≤ field (bit data) f.offset f.width)) = true := by
    rw [Field.max]
    cases f.signed with
    | true => simp
    | false => simp; omega
  by_cases h : f.max < field (bit data) f.offset f.width
  · rw [if_pos (hmax.mp h), if_neg (not_le.mpr h)]
  · have hrange : f.InRange (field (bit data) f.offset f.width) := by
      refine ⟨?_, not_lt.mp h⟩
      have hpos := f.half_pos
      rw [Field.min]
      split <;> omega
    rw [if_neg (fun hc => h (hmax.mpr hc)), if_pos (not_lt.mp h), int64_eq_self (f.inInt64_of_inRange hrange)]

/-- **The code writes a field.** -/
theorem setBitField_spec (v : ℤ) (n : ℕ) (data : Bytes) (p : ℕ) (h : p + n ≤ 8 * data.length) :
    ∃ buf, setBitField data p v n = some buf ∧ buf.length = data.length ∧ bit buf = put (bit data) p n v := by
  induction n generalizing data p with
  | zero =>
      refine ⟨data, rfl, rfl, funext fun q => (put_of_notMem ?_).symm⟩
      omega
  | succ n ih =>
      have hneg : ¬ ((p / 8 : ℕ) : ℤ) < 0 := by omega
      rw [setBitField, tdiv_natCast, if_neg hneg, Int.toNat_natCast, ← Nat.cast_succ]
      obtain ⟨buf, hbuf, hlen, hbits⟩ :=
        ih (data.modify (p / 8) fun b => setByteBit b (7 - Int.tmod p 8) (decide (v / 2 ^ n % 2 = 1))) (p + 1)
          (by rw [List.length_modify]; omega)
      refine ⟨buf, hbuf, by rw [hlen, List.length_modify], ?_⟩
      rw [hbits, ← put_succ]
      congr 1
      funext q
      exact bit_setByteBit (by omega) _ q

/-- The subtraction loop ends within the bounds, or did not start. -/
theorem wrapDown_spec {m : ℤ} (hm : 0 < m) (hmax : m ≤ 2 ^ 62) (n : ℕ) {v : ℤ} (hv : InInt64 v)
    (hn : v < m + n * (m * 2)) :
    wrapDown m n v % (2 * m) = v % (2 * m) ∧ wrapDown m n v < m ∧ InInt64 (wrapDown m n v) ∧
      (-m ≤ v → -m ≤ wrapDown m n v) := by
  induction n generalizing v with
  | zero =>
      rw [Nat.cast_zero, zero_mul, add_zero] at hn
      exact ⟨rfl, hn, hv, fun h => h⟩
  | succ n ih =>
      rw [wrapDown]
      split
      · rename_i hle
        have hsub : int64 (v - int64 (m * 2)) = v - m * 2 := by
          rw [int64, int64, Int.sub_bmod_bmod, ← int64, int64_eq_self]
          obtain ⟨hlow, hhigh⟩ := hv
          exact ⟨by omega, by omega⟩
        rw [hsub]
        obtain ⟨hmod, hlt, hin, hge⟩ := ih (v := v - m * 2) ⟨by omega, by have := hv.2; omega⟩ (by
          push_cast at hn
          rw [add_mul] at hn
          omega)
        refine ⟨?_, hlt, hin, fun _ => hge (by omega)⟩
        rw [hmod, mul_comm m 2, Int.sub_emod_right]
      · rename_i hlt
        exact ⟨rfl, not_le.mp hlt, hv, fun h => h⟩

/-- The addition loop likewise. -/
theorem wrapUp_spec {m : ℤ} (hm : 0 < m) (hmax : m ≤ 2 ^ 62) (n : ℕ) {v : ℤ} (hv : InInt64 v)
    (hn : -m ≤ v + n * (m * 2)) (hlt : v < m) :
    wrapUp m n v % (2 * m) = v % (2 * m) ∧ wrapUp m n v < m ∧ -m ≤ wrapUp m n v := by
  induction n generalizing v with
  | zero =>
      rw [Nat.cast_zero, zero_mul, add_zero] at hn
      exact ⟨rfl, hlt, hn⟩
  | succ n ih =>
      rw [wrapUp]
      split
      · rename_i hneg
        have hadd : int64 (v + int64 (m * 2)) = v + m * 2 := by
          rw [int64_add_int64, int64_eq_self]
          obtain ⟨hlow, hhigh⟩ := hv
          exact ⟨by omega, by omega⟩
        rw [hadd]
        obtain ⟨hmod, hup, hlow⟩ := ih (v := v + m * 2) ⟨by have := hv.1; omega, by omega⟩ (by
          push_cast at hn
          rw [add_mul] at hn
          omega) (by omega)
        refine ⟨?_, hup, hlow⟩
        rw [hmod, mul_comm m 2, Int.add_emod_right]
      · rename_i hge
        exact ⟨rfl, hlt, not_lt.mp hge⟩

theorem int64_emod {n : ℕ} (h : n ≤ 64) (x : ℤ) : int64 x % 2 ^ n = x % 2 ^ n := by
  have hdvd : (2 : ℤ) ^ n ∣ 2 ^ 64 := pow_dvd_pow 2 h
  have hmod : int64 x % 2 ^ 64 = x % 2 ^ 64 := by
    rw [int64, Int.bmod_def]
    omega
  rw [← Int.emod_emod_of_dvd (int64 x) hdvd, hmod, Int.emod_emod_of_dvd x hdvd]

/-- **The code wraps a value** into the range of a field. -/
theorem wrapBitfield_eq (f : Field) {v : ℤ} (hv : InInt64 v) : wrapBitfield v f.width f.signed = f.wrap v := by
  have hle := f.width_le
  have hpow := f.two_pow_width
  have hpos := f.half_pos
  obtain ⟨hlow, hhigh⟩ := hv
  symm
  rw [wrapBitfield]
  split
  · rename_i h64
    have hs : f.signed = true := by
      by_contra hs
      rw [if_neg hs] at hle
      omega
    rw [if_pos hs] at hle
    have hwidth : f.width - 1 = 63 := by omega
    refine Field.wrap_eq ?_ rfl
    rw [Field.InRange, Field.min, Field.max, hs, if_pos rfl, if_pos rfl, hwidth]
    omega
  · rename_i h64
    have hwidth : ((f.width : ℤ) - 1).toNat = f.width - 1 := by omega
    cases hs : f.signed with
    | true =>
        have hhalf : (2 : ℤ) ^ (f.width - 1) ≤ 2 ^ 62 := pow_le_pow_right₀ (by decide) (by omega)
        have hbig : ((2 ^ 63 : ℕ) : ℤ) = 2 ^ 63 := by norm_num
        rw [if_pos rfl, hwidth]
        dsimp only
        obtain ⟨hmod, hlt, hin, -⟩ := wrapDown_spec hpos hhalf (2 ^ 63) ⟨hlow, hhigh⟩ (by rw [hbig]; nlinarith)
        obtain ⟨hmod', hlt', hge'⟩ := wrapUp_spec hpos hhalf (2 ^ 63) hin (by rw [hbig]; have := hin.1; nlinarith) hlt
        refine Field.wrap_eq ?_ ?_
        · rw [Field.InRange, Field.min, Field.max, hs, if_pos rfl, if_pos rfl]
          omega
        · rw [hpow, hmod', hmod]
    | false =>
        rw [if_neg (by decide), Int.toNat_natCast]
        refine Field.wrap_eq ?_ (Int.emod_emod_of_dvd v dvd_rfl)
        have h0 : 0 ≤ v % 2 ^ f.width := Int.emod_nonneg _ (by omega)
        have h1 : v % 2 ^ f.width < 2 ^ f.width := Int.emod_lt_of_pos _ (by omega)
        rw [Field.InRange, Field.min, Field.max, hs, if_neg (by decide), if_neg (by decide)]
        omega

/-- **The code resolves an overflow.**  `high` and `low` say on which side of the range the value lies, and
`w` stands for it modulo a power of two. -/
theorem resolveOverflow_cases (f : Field) (mode : Overflow) {x w : ℤ} {high low : Bool}
    (hhigh : high = decide (f.max < x)) (hlow : low = decide (x < f.min))
    (hw : w % 2 ^ f.width = x % 2 ^ f.width) :
    (f.resolve mode x = none ∧ bitfieldResolveOverflow mode high low w f.min f.max = none) ∨
    ∃ y z, f.resolve mode x = some y ∧ bitfieldResolveOverflow mode high low w f.min f.max = some z ∧
      z % 2 ^ f.width = y % 2 ^ f.width ∧ (w = f.wrap x → z = y) := by
  have hpow : (0 : ℤ) < 2 ^ f.width := by positivity
  have hspan := f.max_sub_min
  by_cases hin : f.InRange x
  · have hfits : (!high && !low) = true := by
      rw [hhigh, hlow, decide_eq_false (not_lt.mpr hin.2), decide_eq_false (not_lt.mpr hin.1)]
      rfl
    refine Or.inr ⟨x, w, if_pos hin, if_pos hfits, hw, fun h => ?_⟩
    rw [h, Field.wrap_eq hin rfl]
  · have hfits : ¬ (!high && !low) = true := by
      rw [hhigh, hlow]
      rw [Field.InRange] at hin
      simp
      omega
    unfold Field.resolve bitfieldResolveOverflow
    rw [if_neg hin, if_neg hfits]
    cases mode with
    | wrap => exact Or.inr ⟨f.wrap x, w, rfl, rfl, hw.trans (Field.wrap_emod x).symm, fun h => h⟩
    | fail => exact Or.inl ⟨rfl, rfl⟩
    | sat =>
        have hside : (if high = true then some f.max else some f.min) =
            some (if x < f.min then f.min else f.max) := by
          rw [hhigh]
          by_cases hx : x < f.min
          · rw [if_pos hx, if_neg (by simp; omega)]
          · rw [if_neg hx, if_pos (by simp; rw [Field.InRange] at hin; omega)]
        exact Or.inr ⟨_, _, rfl, hside, rfl, fun _ => rfl⟩

/-- The sign test of the 64-bit sum finds out on which side of the range the sum lies. -/
theorem sum_high {f : Field} {a v : ℤ} (ha : f.InRange a) (hv : InInt64 v) :
    let sum := int64 (a + v)
    let addOverflow := (decide (0 < v) && decide (sum < a)) || (decide (v < 0) && decide (a < sum))
    ((addOverflow && decide (0 < v)) || (!addOverflow && decide (f.max < sum))) = decide (f.max < a + v) ∧
    ((addOverflow && decide (v < 0)) || (!addOverflow && decide (sum < f.min))) = decide (a + v < f.min) := by
  obtain ⟨ha₀, ha₁⟩ := ha
  have hmin := (f.inInt64_of_inRange (x := f.min) ⟨le_rfl, ha₀.trans ha₁⟩).1
  have hmax := (f.inInt64_of_inRange (x := f.max) ⟨ha₀.trans ha₁, le_rfl⟩).2
  obtain ⟨hv₀, hv₁⟩ := hv
  intro sum addOverflow
  have hsum : sum = a + v ∨ (sum = a + v - 2 ^ 64 ∧ 2 ^ 63 ≤ a + v) ∨ (sum = a + v + 2 ^ 64 ∧ a + v < -2 ^ 63) := by
    simp only [sum, int64, Int.bmod_def]
    omega
  have hadd : addOverflow = decide ((0 < v ∧ sum < a) ∨ (v < 0 ∧ a < sum)) := by
    simp only [addOverflow, Bool.decide_or, Bool.decide_and]
  rcases hsum with hsum | ⟨hsum, hbig⟩ | ⟨hsum, hbig⟩
  · rw [hadd, decide_eq_false (by omega), hsum]
    simp
  · rw [hadd, decide_eq_true (by omega), decide_eq_true (by omega : 0 < v), decide_eq_false (by omega : ¬ v < 0),
      decide_eq_true (by omega : f.max < a + v), decide_eq_false (by omega : ¬ a + v < f.min)]
    exact ⟨rfl, rfl⟩
  · rw [hadd, decide_eq_true (by omega), decide_eq_false (by omega : ¬ 0 < v), decide_eq_true (by omega : v < 0),
      decide_eq_false (by omega : ¬ f.max < a + v), decide_eq_true (by omega : a + v < f.min)]
    exact ⟨rfl, rfl⟩

end arithmetic

/-! ### The loop -/

/-- Write the value `z` of a field into a buffer that has room for it. -/
theorem setBitField_field (f : Field) {buf : Bytes} (hroom : f.bytes ≤ buf.length) (z : ℤ) :
    ∃ buf', setBitField buf f.offset z (f.width : ℤ).toNat = some buf' ∧ buf'.length = buf.length ∧
      bit buf' = f.write (bit buf) z := by
  rw [Field.bytes] at hroom
  exact setBitField_spec z f.width buf f.offset (by omega)

theorem bitFieldStep_spec {st st' : BitFieldState} (s : Sub) (h : bitFieldStep st s.op = some st') :
    st'.results = st.results ++ [s.answer (bit st.value)] ∧ bit st'.value = s.bits (bit st.value) ∧
    st'.value.length = max st.value.length s.field.bytes ∧
    st'.modified = (st.modified || (s.stored (bit st.value)).isSome) := by
  have hneeded : Int.tdiv (s.field.offset : ℤ) 8 +
      Int.tdiv ((s.field.width : ℤ) + Int.tmod (s.field.offset : ℤ) 8 + 7) 8 = (s.field.bytes : ℤ) := by
    have hmod : Int.tmod (s.field.offset : ℤ) 8 = ((s.field.offset % 8 : ℕ) : ℤ) := rfl
    have hsum : (s.field.width : ℤ) + ((s.field.offset % 8 : ℕ) : ℤ) + 7 =
        ((s.field.width + s.field.offset % 8 + 7 : ℕ) : ℤ) := by push_cast; rfl
    rw [hmod, hsum, tdiv_natCast, tdiv_natCast, Field.bytes]
    omega
  rw [bitFieldStep, s.signed_eq, s.width_eq, s.offset_eq] at h
  dsimp only at h
  rw [hneeded, Option.bind_eq_bind, Option.bind_eq_some_iff] at h
  obtain ⟨buf, hbuf, h⟩ := h
  have hext := extendTo_eq hbuf
  rw [Int.toNat_natCast] at hext
  have hbits : bit buf = bit st.value := by rw [hext]; exact funext (bit_padTo _ _)
  have hlen : buf.length = max st.value.length s.field.bytes := by rw [hext, length_padTo_eq]
  rw [getBitField_eq, Option.bind_eq_bind, Option.bind_some, hbits, bitfieldBounds_eq] at h
  rw [Sub.answer, Sub.bits, Sub.stored, Sub.wanted]
  cases hop : s.op.opType with
  | get =>
      rw [hop] at h
      cases h
      exact ⟨rfl, hbits, hlen, (Bool.or_false _).symm⟩
  | set =>
      rw [hop] at h
      dsimp only at h ⊢
      rcases resolveOverflow_cases s.field s.op.overflow (x := s.op.value) rfl rfl rfl with
        ⟨hres, hcode⟩ | ⟨y, z, hres, hcode, hmod, -⟩
      · rw [hcode] at h
        cases h
        rw [if_neg (by decide), hres]
        exact ⟨rfl, hbits, hlen, (Bool.or_false _).symm⟩
      · obtain ⟨buf', hset, hlen', hbits'⟩ := setBitField_field s.field (hlen ▸ le_max_right _ _) z
        rw [hcode] at h
        dsimp only at h
        rw [hset] at h
        cases h
        rw [if_neg (by decide), hres]
        refine ⟨rfl, ?_, hlen'.trans hlen, (Bool.or_true _).symm⟩
        rw [hbits', hbits, Field.write_congr hmod]
        rfl
  | incrBy =>
      rw [hop] at h
      dsimp only at h ⊢
      obtain ⟨hhigh, hlow⟩ := sum_high (s.field.read_inRange (bit st.value)) s.operand
      have hle : s.field.width ≤ 64 := s.field.width_le.trans (by split <;> decide)
      have hwrap : wrapBitfield (int64 (s.field.read (bit st.value) + s.op.value)) s.field.width s.field.signed =
          s.field.wrap (s.field.read (bit st.value) + s.op.value) := by
        rw [wrapBitfield_eq s.field (inInt64_int64 _)]
        exact Field.wrap_eq (Field.wrap_inRange _) ((Field.wrap_emod _).trans (int64_emod hle _).symm)
      rcases resolveOverflow_cases s.field s.op.overflow hhigh hlow
        (hwrap ▸ Field.wrap_emod (s.field.read (bit st.value) + s.op.value)) with
        ⟨hres, hcode⟩ | ⟨y, z, hres, hcode, -, hz⟩
      · rw [hcode] at h
        cases h
        rw [if_neg (by decide), hres]
        exact ⟨rfl, hbits, hlen, (Bool.or_false _).symm⟩
      · obtain ⟨buf', hset, hlen', hbits'⟩ := setBitField_field s.field (hlen ▸ le_max_right _ _) z
        rw [hcode] at h
        dsimp only at h
        rw [hset] at h
        cases h
        obtain rfl := hz hwrap
        rw [if_neg (by decide), hres]
        refine ⟨rfl, ?_, hlen'.trans hlen, (Bool.or_true _).symm⟩
        rw [hbits', hbits]
        rfl

/-- The number of bytes up to the last one of some fields. -/
def reach (fields : List Field) : ℕ := (fields.map Field.bytes).foldr max 0

@[simp] theorem reach_nil : reach [] = 0 := rfl

@[simp] theorem reach_cons (f : Field) (fields : List Field) : reach (f :: fields) = max f.bytes (reach fields) := rfl

theorem reach_le_iff {fields : List Field} {n : ℕ} : reach fields ≤ n ↔ ∀ f ∈ fields, f.bytes ≤ n := by
  induction fields with
  | nil => simp
  | cons f fields ih => rw [reach_cons, Nat.max_le, ih, List.forall_mem_cons]

/-- **The loop computes the specified replies and bits**; its buffer reaches to the last byte of every
field, and it is saved if something was written. -/
theorem bitFieldLoop_run {st st' : BitFieldState} (subs : List Sub)
    (h : bitFieldLoop st (subs.map Sub.op) = some st') :
    st'.results = st.results ++ answers (bit st.value) subs ∧ bit st'.value = finalBits (bit st.value) subs ∧
    st'.value.length = max st.value.length (reach (subs.map Sub.field)) ∧
    (st'.modified = true ↔ st.modified = true ∨ writtenFields (bit st.value) subs ≠ []) := by
  induction subs generalizing st with
  | nil =>
      cases h
      exact ⟨(List.append_nil _).symm, rfl, (Nat.max_zero _).symm, by simp [writtenFields]⟩
  | cons s subs ih =>
      rw [bitFieldLoop, List.map_cons, List.foldlM_cons, Option.bind_eq_bind, Option.bind_eq_some_iff] at h
      obtain ⟨mid, hstep, hrest⟩ := h
      obtain ⟨hres, hbits, hlen, hmod⟩ := bitFieldStep_spec s hstep
      obtain ⟨hres', hbits', hlen', hmod'⟩ := ih hrest
      rw [hbits] at hres' hbits' hmod'
      refine ⟨?_, hbits', ?_, ?_⟩
      · rw [hres', hres, List.append_assoc]
        rfl
      · rw [hlen', hlen, List.map_cons, reach_cons, Nat.max_assoc]
      · rw [hmod', hmod, writtenFields]
        cases s.stored (bit st.value) <;> simp

theorem answers_append (bits : ℕ → Bool) (subs subs' : List Sub) :
    answers bits (subs ++ subs') = answers bits subs ++ answers (finalBits bits subs) subs' := by
  induction subs generalizing bits with
  | nil => rfl
  | cons s subs ih => rw [List.cons_append, answers, answers, ih, List.cons_append, finalBits]

theorem finalBits_append (bits : ℕ → Bool) (subs subs' : List Sub) :
    finalBits bits (subs ++ subs') = finalBits (finalBits bits subs) subs' := by
  induction subs generalizing bits with
  | nil => rfl
  | cons s subs ih => exact ih (s.bits bits)

/-- Bits change in written fields only. -/
theorem finalBits_frame {bits : ℕ → Bool} {subs : List Sub} {p : ℕ} (h : finalBits bits subs p ≠ bits p) :
    ∃ f ∈ writtenFields bits subs, f.Has p := by
  induction subs generalizing bits with
  | nil => exact absurd rfl h
  | cons s subs ih =>
      rw [writtenFields]
      by_cases hp : s.bits bits p = bits p
      · obtain ⟨f, hf, hhas⟩ := ih (hp.symm ▸ h)
        exact ⟨f, List.mem_append_right _ hf, hhas⟩
      · rw [Sub.bits] at hp
        cases hs : s.stored bits with
        | none =>
            rw [hs] at hp
            exact absurd rfl hp
        | some x =>
            rw [hs] at hp
            refine ⟨s.field, by simp, ?_⟩
            by_contra hhas
            exact hp (Field.write_of_not_has hhas)

/-! ### The command -/

section command
variable {S : Type} [Float64 S] {e : Env} {d d' : DB S} {key : Bytes} {r : Reply S}

/-- The bytes in the row of a key. -/
def storedString (d : DB S) (k : Bytes) : Option Bytes := ((d.rows .kvStrings k).row ()).map Cell.val

/-- The database after the buffer was saved. -/
def saveBits (d : DB S) (k : Bytes) (isNew : Bool) (v : Bytes) : DB S :=
  if isNew then writeString d k v
  else d.setRows .kvStrings k (Table.single () ⟨v, ((d.rows .kvStrings k).row ()).bind Cell.expiresAt⟩)

omit [Float64 S] in
theorem rows_saveBits (d : DB S) (k : Bytes) (isNew : Bool) (v : Bytes) :
    (saveBits d k isNew v).rows .kvStrings k =
      Table.single () ⟨v, ((d.rows .kvStrings k).row ()).bind Cell.expiresAt⟩ := by
  cases isNew <;> exact Store.rows_setRows_self _ _ _ _

omit [Float64 S] in
theorem liveString_saveBits (d : DB S) (k : Bytes) (isNew : Bool) (v : Bytes) (now : Time) :
    liveString now (saveBits d k isNew v) k = liveString now (writeString d k v) k := by
  have hwrite := rows_saveBits d k true v
  rw [liveString, liveString, rows_saveBits, ← hwrite]
  rfl

theorem exec_bitField {ops : List BitFieldOp} {st : BitFieldState}
    (h : bitFieldLoop ⟨stringOf e.now d key, [], false⟩ ops = some st) :
    (Cmd.bitField key ops : Cmd S).exec e d = (.ok (.optInts st.results),
      if st.modified then saveBits d (encodeKey key) (liveString e.now d (encodeKey key)).isNone st.value else d) := by
  refine Cmd.exec_eq_of_total ?_
  have hdata : (liveString e.now d (encodeKey key)).getD [] = stringOf e.now d key := rfl
  rw [Cmd.op, total_map, Postkeys.bitField, total_bind, total_query, totalSql_selectString]
  simp only [hdata, h]
  cases st.modified with
  | false => exact ⟨rfl, rfl⟩
  | true =>
      simp only [if_true]
      cases (liveString e.now d (encodeKey key)).isNone with
      | true =>
          simp only [if_true, total_bind, total_query, total_write]
          exact ⟨rfl, rfl⟩
      | false =>
          simp only [Bool.false_eq_true, if_false, total_bind, total_lockKey, total_query, upsertString,
            totalSql_upsertRow]
          exact ⟨rfl, congrArg (d.setRows .kvStrings (encodeKey key)) (putOr_string _ _)⟩

/-- A `BITFIELD` that returns has run its loop. -/
theorem bitFieldLoop_of_exec {ops : List BitFieldOp} (h : (Cmd.bitField key ops : Cmd S).exec e d = (.ok r, d')) :
    ∃ st, bitFieldLoop ⟨stringOf e.now d key, [], false⟩ ops = some st ∧ r = .optInts st.results ∧
      d' = if st.modified then saveBits d (encodeKey key) (liveString e.now d (encodeKey key)).isNone st.value
        else d := by
  cases hst : bitFieldLoop ⟨stringOf e.now d key, [], false⟩ ops with
  | none =>
      have hdata : (liveString e.now d (encodeKey key)).getD [] = stringOf e.now d key := rfl
      rw [Cmd.exec, Cmd.op, eval_map, Postkeys.bitField, eval_bind_ok eval_selectString] at h
      simp only [hdata, hst] at h
      cases congrArg Prod.fst h
  | some st =>
      rw [exec_bitField hst] at h
      cases h
      exact ⟨st, rfl, rfl, rfl⟩

/-- **What a `BITFIELD` that returns answers and stores.** -/
theorem bitField_outcome {subs : List Sub}
    (h : (Cmd.bitField key (subs.map Sub.op) : Cmd S).exec e d = (.ok r, d')) :
    r = .optInts (answers (bit (stringOf e.now d key)) subs) ∧
    ((writtenFields (bit (stringOf e.now d key)) subs = [] ∧ d' = d) ∨
      (writtenFields (bit (stringOf e.now d key)) subs ≠ [] ∧
        ∃ v isNew, d' = saveBits d (encodeKey key) isNew v ∧
          bit v = finalBits (bit (stringOf e.now d key)) subs ∧
          v.length = max (stringOf e.now d key).length (reach (subs.map Sub.field)))) := by
  obtain ⟨st, hst, rfl, rfl⟩ := bitFieldLoop_of_exec h
  obtain ⟨hres, hbits, hlen, hmod⟩ := bitFieldLoop_run subs hst
  dsimp only at hres hbits hlen hmod
  rw [List.nil_append] at hres
  refine ⟨by rw [hres], ?_⟩
  cases hm : st.modified with
  | false =>
      refine Or.inl ⟨?_, rfl⟩
      by_contra hne
      rw [hmod.mpr (Or.inr hne)] at hm
      cases hm
  | true =>
      refine Or.inr ⟨(hmod.mp hm).resolve_left (by decide), st.value, _, rfl, hbits, hlen⟩

/-- The bits that can be read afterwards, where the row has not lapsed. -/
theorem bit_after {subs : List Sub} (hl : ¬ Lapsed e.now d (encodeKey key))
    (h : (Cmd.bitField key (subs.map Sub.op) : Cmd S).exec e d = (.ok r, d')) :
    bit (stringOf e.now d' key) = finalBits (bit (stringOf e.now d key)) subs := by
  rcases (bitField_outcome h).2 with ⟨hnone, rfl⟩ | ⟨-, v, isNew, rfl, hbits, -⟩
  · funext p
    by_contra hp
    obtain ⟨f, hf, -⟩ := finalBits_frame (Ne.symm hp)
    rw [hnone] at hf
    cases hf
  · have hlive : liveString e.now (saveBits d (encodeKey key) isNew v) (encodeKey key) = some v := by
      rw [liveString_saveBits, liveString_writeString v hl]
    rw [liveString_eq_some hlive, hbits]

/-- A read of the field that the last sub-command wrote. -/
theorem answers_get {bits : ℕ → Bool} {pre : List Sub} {s g : Sub} {y : ℤ} (hg : g.op.opType = .get)
    (hf : g.field = s.field) (hy : s.stored (finalBits bits pre) = some y) :
    answers (finalBits bits (pre ++ [s])) [g] = [some y] := by
  have hrange : s.field.InRange y := by
    rw [Sub.stored] at hy
    split at hy
    · cases hy
    · exact Field.resolve_inRange hy
  have hbits : finalBits bits (pre ++ [s]) = s.field.write (finalBits bits pre) y := by
    rw [finalBits_append, finalBits, finalBits, Sub.bits, hy]
    rfl
  rw [hbits, answers, answers, Sub.answer, hg, hf, Field.read_write _ hrange]

/-- **`BITFIELD` arithmetic.**  The replies of a `BITFIELD` that returns are the specified ones, and so are
the bits it leaves in the row of the key; a `GET` of the field that the last sub-command wrote, in the
same command or in one that follows at once, answers what was stored. -/
theorem bitfield_arithmetic (e : Env) (d d' : DB S) (key : Bytes) (subs : List Sub) (r : Reply S)
    (h : (Cmd.bitField key (subs.map Sub.op) : Cmd S).exec e d = (.ok r, d')) :
    r = .optInts (answers (bit (stringOf e.now d key)) subs) ∧
    (if writtenFields (bit (stringOf e.now d key)) subs = [] then d' = d
      else ∃ v, storedString d' (encodeKey key) = some v ∧
        bit v = finalBits (bit (stringOf e.now d key)) subs) ∧
    ∀ (pre : List Sub) (s g : Sub) (y : ℤ), subs = pre ++ [s] → g.op.opType = .get → g.field = s.field →
      s.stored (finalBits (bit (stringOf e.now d key)) pre) = some y →
      (∀ r₂ d₂, (Cmd.bitField key ((subs ++ [g]).map Sub.op) : Cmd S).exec e d = (.ok r₂, d₂) →
        r₂ = .optInts (answers (bit (stringOf e.now d key)) subs ++ [some y])) ∧
      (¬ Lapsed e.now d (encodeKey key) → ∀ r₂ d₂,
        (Cmd.bitField key [g.op] : Cmd S).exec e d' = (.ok r₂, d₂) → r₂ = .optInts [some y]) := by
  obtain ⟨hr, hstate⟩ := bitField_outcome h
  refine ⟨hr, ?_, fun pre s g y hsubs hg hf hy => ⟨fun r₂ d₂ h₂ => ?_, fun hl r₂ d₂ h₂ => ?_⟩⟩
  · rcases hstate with ⟨hnone, hd⟩ | ⟨hsome, v, isNew, rfl, hbits, -⟩
    · rw [if_pos hnone]
      exact hd
    · rw [if_neg hsome]
      refine ⟨v, ?_, hbits⟩
      rw [storedString, rows_saveBits, Table.single_unit_row]
      rfl
  · rw [(bitField_outcome h₂).1, answers_append, hsubs, answers_get hg hf hy]
  · have h₂' : (Cmd.bitField key ([g].map Sub.op) : Cmd S).exec e d' = (.ok r₂, d₂) := h₂
    rw [(bitField_outcome h₂').1, bit_after hl h, hsubs, answers_get hg hf hy]

/-! ### What a `BITFIELD` touches -/

/-- The fields of the sub-commands that wrote: those other than `GET` that were not answered with nil. -/
def effective (subs : List Sub) (replies : List (Option ℤ)) : List Field :=
  (subs.zip replies).filterMap fun sr => if sr.1.op.opType ≠ .get ∧ sr.2.isSome then some sr.1.field else none

omit [Float64 S] in
theorem effective_answers (bits : ℕ → Bool) (subs : List Sub) :
    effective subs (answers bits subs) = writtenFields bits subs := by
  induction subs generalizing bits with
  | nil => rfl
  | cons s subs ih =>
      have hhead : (s.op.opType ≠ .get ∧ (s.answer bits).isSome) ↔ (s.stored bits).isSome := by
        unfold Sub.answer Sub.stored
        cases s.op.opType <;> simp
      rw [answers, writtenFields, ← ih (s.bits bits), effective, effective, List.zip_cons_cons, List.filterMap_cons]
      by_cases hs : (s.stored bits).isSome = true
      · rw [if_pos (hhead.mpr hs), if_pos hs]
        rfl
      · rw [if_neg fun hc => hs (hhead.mp hc), if_neg hs]
        rfl

/-- `BITFIELD` touches only what it writes: the bits of the string change in the fields of sub-commands that
wrote, its length grows only to the last byte of such a field, and where none wrote nothing changes. -/
structure TouchesOnly (e : Env) (d : DB S) (key : Bytes) (subs : List Sub) (replies : List (Option ℤ))
    (d' : DB S) : Prop where
  bits : ∀ p, getbit e d' key p ≠ getbit e d key p → ∃ f ∈ effective subs replies, f.Has p
  length : (stringOf e.now d' key).length ≤ max (stringOf e.now d key).length (reach (effective subs replies))
  none : effective subs replies = [] → d' = d

/-- **What `BITFIELD` touches.**  It touches only what it writes exactly if nothing is written, the key has
a lapsed row, or no sub-command reaches beyond the string and the last byte of the written fields. -/
theorem bitfield_frame_iff (e : Env) (d d' : DB S) (key : Bytes) (subs : List Sub) (replies : List (Option ℤ))
    (h : (Cmd.bitField key (subs.map Sub.op) : Cmd S).exec e d = (.ok (.optInts replies), d')) :
    TouchesOnly e d key subs replies d' ↔
      writtenFields (bit (stringOf e.now d key)) subs = [] ∨ Lapsed e.now d (encodeKey key) ∨
        ∀ s ∈ subs, s.field.bytes ≤ max (stringOf e.now d key).length
          (reach (writtenFields (bit (stringOf e.now d key)) subs)) := by
  obtain ⟨hr, hstate⟩ := bitField_outcome h
  cases hr
  have hframe (hlength : (stringOf e.now d' key).length ≤ max (stringOf e.now d key).length
      (reach (writtenFields (bit (stringOf e.now d key)) subs))) :
      TouchesOnly e d key subs (answers (bit (stringOf e.now d key)) subs) d' := by
    refine ⟨fun p hp => ?_, by rwa [effective_answers], fun hnone => ?_⟩
    · rw [effective_answers]
      by_cases hl : Lapsed e.now d (encodeKey key)
      · refine absurd ?_ hp
        have hbefore : stringOf e.now d key = [] := liveString_eq_none (liveString_of_lapsed hl)
        have hafter : stringOf e.now d' key = [] := by
          rcases hstate with ⟨-, rfl⟩ | ⟨-, v, isNew, rfl, -, -⟩
          · exact hbefore
          · exact liveString_eq_none ((liveString_saveBits _ _ _ _ _).trans (liveString_writeString_lapsed v hl))
        rw [getbit_eq, getbit_eq, hbefore, hafter]
      · refine finalBits_frame fun heq => hp ?_
        rw [getbit_eq, getbit_eq, bit_after hl h, heq]
    · rw [effective_answers] at hnone
      rcases hstate with ⟨-, hd⟩ | ⟨hsome, -⟩
      · exact hd
      · exact absurd hnone hsome
  rcases hstate with ⟨hnone, rfl⟩ | ⟨hsome, v, isNew, rfl, -, hlen⟩
  · exact iff_of_true (hframe (le_max_left _ _)) (Or.inl hnone)
  · by_cases hl : Lapsed e.now d (encodeKey key)
    · refine iff_of_true (hframe ?_) (Or.inr (Or.inl hl))
      rw [liveString_eq_none ((liveString_saveBits _ _ _ _ _).trans (liveString_writeString_lapsed v hl))]
      exact Nat.zero_le _
    · have hafter : stringOf e.now (saveBits d (encodeKey key) isNew v) key = v :=
        liveString_eq_some ((liveString_saveBits _ _ _ _ _).trans (liveString_writeString v hl))
      have hgrow : v.length ≤ max (stringOf e.now d key).length
            (reach (writtenFields (bit (stringOf e.now d key)) subs)) ↔
          ∀ s ∈ subs, s.field.bytes ≤ max (stringOf e.now d key).length
            (reach (writtenFields (bit (stringOf e.now d key)) subs)) := by
        rw [hlen, Nat.max_le, and_iff_right (le_max_left _ _), reach_le_iff, List.forall_mem_map]
      constructor
      · intro htouches
        have hlength := htouches.length
        rw [hafter, effective_answers] at hlength
        exact Or.inr (Or.inr (hgrow.mp hlength))
      · intro hcond
        refine hframe ?_
        rw [hafter]
        exact hgrow.mpr ((hcond.resolve_left hsome).resolve_left hl)

end command

/-! ### Concrete runs -/

/-- The field `u8` at an offset. -/
def u8 (offset : ℕ) : Field := ⟨offset, 8, false, by decide, by decide⟩

theorem encodingWidth_u8 : encodingWidth (utf8 "u8") = 8 := by decide

/-- A sub-command on `u8` in the mode `WRAP`. -/
def u8Sub (kind : BitFieldKind) (offset : ℕ) (value : ℤ) (h : InInt64 value) : Sub where
  op := ⟨kind, utf8 "u8", offset, value, .wrap⟩
  field := u8 offset
  signed_eq := rfl
  width_eq := encodingWidth_u8
  offset_eq := rfl
  operand := h

theorem exec_set_u8 : (Cmd.bitField [97] ([u8Sub .set 0 300 (by decide)].map Sub.op) : Cmd ℤ).exec (envAt 0) emptyDB =
    (.ok (.optInts [some 0]), saveBits emptyDB (encodeKey [97]) true [44]) := by
  have hloop : bitFieldLoop ⟨stringOf (envAt 0).now (emptyDB : DB ℤ) [97], [], false⟩
      ([u8Sub .set 0 300 (by decide)].map Sub.op) = some ⟨[44], [some 0], true⟩ := by decide
  exact exec_bitField hloop

/-- `BITFIELD a SET u8 0 300` on a missing key: the reply 0 is the specified one. -/
theorem bitfield_arithmetic_u8 :
    answers (bit (stringOf (envAt 0).now (emptyDB : DB ℤ) [97])) [u8Sub .set 0 300 (by decide)] = [some 0] :=
  (Reply.optInts.inj (bitfield_arithmetic _ _ _ _ _ _ exec_set_u8).1).symm

/-- It touches only what it writes. -/
theorem bitfield_frame_u8 : TouchesOnly (envAt 0) (emptyDB : DB ℤ) [97] [u8Sub .set 0 300 (by decide)] [some 0]
    (saveBits emptyDB (encodeKey [97]) true [44]) :=
  (bitfield_frame_iff _ _ _ _ _ _ exec_set_u8).mpr (Or.inr (Or.inr (by decide)))

/-- `BITFIELD a GET u8 100 SET u8 0 1` on a missing key leaves a string of 14 bytes, although the only
field that is written is its first byte. -/
theorem bitfield_get_extends : ∃ d' : DB ℤ,
    (Cmd.bitField [97] ([u8Sub .get 100 0 (by decide), u8Sub .set 0 1 (by decide)].map Sub.op) : Cmd ℤ).exec
      (envAt 0) emptyDB = (.ok (.optInts [some 0, some 0]), d') ∧
    ((Cmd.strLen [97] : Cmd ℤ).exec (envAt 0) d').1 = .ok (.int 14) ∧
    ¬ TouchesOnly (envAt 0) emptyDB [97] [u8Sub .get 100 0 (by decide), u8Sub .set 0 1 (by decide)]
      [some 0, some 0] d' := by
  have hloop : bitFieldLoop ⟨stringOf (envAt 0).now (emptyDB : DB ℤ) [97], [], false⟩
      ([u8Sub .get 100 0 (by decide), u8Sub .set 0 1 (by decide)].map Sub.op) =
        some ⟨1 :: List.replicate 13 0, [some 0, some 0], true⟩ := by decide
  have hrun := exec_bitField hloop
  have hnew : ¬ Lapsed (envAt 0).now (emptyDB : DB ℤ) (encodeKey [97]) := by
    rintro ⟨r, hr, -⟩
    cases hr
  have hafter : stringOf (envAt 0).now
      (saveBits (emptyDB : DB ℤ) (encodeKey [97]) true (1 :: List.replicate 13 0)) [97] = 1 :: List.replicate 13 0 :=
    liveString_eq_some ((liveString_saveBits _ _ _ _ _).trans (liveString_writeString _ hnew))
  refine ⟨_, hrun, ?_, fun htouches => ?_⟩
  · rw [exec_strLen]
    exact congrArg (fun v : Bytes => Except.ok (Reply.int v.length)) hafter
  · have hlength : (1 :: List.replicate 13 0 : Bytes).length ≤ _ := hafter ▸ htouches.length
    revert hlength
    decide

end Postkeys
