import Postkeys.BitFields

/-! # Access to bit fields

The functions under `BITFIELD` by themselves, for any width.

* `wrap_bitfield_residue`: the loops of `wrapBitfield` end, and the result is the one residue of the value
  that fits the encoding; what `setBitField` writes depends on the residue only.
* `field_access_laws`: what was written to a field is read from it, other fields are not touched, and a
  field of one bit is what `GETBIT` reads. -/

namespace Postkeys

open Relational Program Bitstring

/-! ### Wrapping -/

/-- Only the low digits of a value are written. -/
theorem setBitField_congr {v w : ℤ} {n : ℕ} (h : v % 2 ^ n = w % 2 ^ n) (data : Bytes) (p : ℤ) :
    setBitField data p v n = setBitField data p w n := by
  -- the rounds left write digits below `m`
  have hlow (m : ℕ) (hm : m ≤ n) (data : Bytes) (p : ℤ) :
      setBitField data p v m = setBitField data p w m := by
    induction m generalizing data p with
    | zero => rfl
    | succ m ih =>
        have hdigit : decide (v / 2 ^ m % 2 = 1) = decide (w / 2 ^ m % 2 = 1) := digit_congr h hm
        rw [setBitField, setBitField, hdigit]
        dsimp only
        rw [ih (by omega)]
  exact hlow n le_rfl data p

/-- A number is the residue of `v` in the `m` numbers from `low` on. -/
def IsResidue (low m v r : ℤ) : Prop := low ≤ r ∧ r < low + m ∧ r ≡ v [ZMOD m]

theorem IsResidue.unique {low m v r r' : ℤ} (h : IsResidue low m v r) (h' : IsResidue low m v r') : r = r' := by
  obtain ⟨hlow, hhigh, hmod⟩ := h
  obtain ⟨hlow', hhigh', hmod'⟩ := h'
  have hdvd : m ∣ r - r' := (hmod'.trans hmod.symm).dvd
  have hzero : r - r' = 0 := Int.eq_zero_of_abs_lt_dvd hdvd (abs_lt.mpr ⟨by omega, by omega⟩)
  omega

section wrapping
variable {v : ℤ} {w : ℕ}

/-- **The loops end** after at most `2 ^ 62` rounds each, with the balanced residue. -/
theorem wrapLoops_residue (hv : InInt64 v) (hw : 1 ≤ w) (hw' : w ≤ 63) {n : ℕ} (hn : 2 ^ 62 ≤ n) :
    wrapDown (2 ^ (w - 1)) n v < 2 ^ (w - 1) ∧
      IsResidue (-2 ^ (w - 1)) (2 ^ w) v (wrapUp (2 ^ (w - 1)) n (wrapDown (2 ^ (w - 1)) n v)) := by
  have hpos : (1 : ℤ) ≤ 2 ^ (w - 1) := one_le_pow₀ (by decide)
  have hhalf : (2 : ℤ) ^ (w - 1) ≤ 2 ^ 62 := pow_le_pow_right₀ (by decide) (by omega)
  have hpow : (2 : ℤ) ^ w = 2 * 2 ^ (w - 1) := by
    rw [← pow_succ', Nat.sub_add_cancel hw]
  have hrounds : (2 : ℤ) ^ 62 ≤ n := by exact_mod_cast hn
  obtain ⟨hlow, hhigh⟩ := hv
  obtain ⟨hmod, hlt, hin, -⟩ := wrapDown_spec (by omega) hhalf n ⟨hlow, hhigh⟩ (by nlinarith)
  obtain ⟨hmod', hlt', hge'⟩ := wrapUp_spec (by omega) hhalf n hin (by have := hin.1; nlinarith) hlt
  refine ⟨hlt, hge', ?_, ?_⟩
  · rw [hpow]
    omega
  · rw [hpow]
    exact hmod'.trans hmod

theorem wrapBitfield_signed (hw' : w ≤ 63) : wrapBitfield v w true =
    wrapUp (2 ^ (w - 1)) (2 ^ 63) (wrapDown (2 ^ (w - 1)) (2 ^ 63) v) := by
  have hwidth : ((w : ℤ) - 1).toNat = w - 1 := by omega
  rw [wrapBitfield, if_neg (by omega), if_pos rfl, hwidth]

theorem wrapBitfield_unsigned (hw' : w ≤ 63) : wrapBitfield v w false = v % 2 ^ w := by
  rw [wrapBitfield, if_neg (by omega), if_neg (by decide), Int.toNat_natCast]

/-- **`wrapBitfield` is the residue.**  Each loop of the signed branch has ended after `2 ^ 62` rounds, and any
larger number of rounds gives the same; the result is the one residue of `v` among the signed, or the
unsigned, numbers of `w` bits, and writing it writes the bits of `v`. -/
theorem wrap_bitfield_residue (v : ℤ) (w : ℕ) (hv : InInt64 v) (hw : 1 ≤ w) (hw' : w ≤ 63) :
    (∀ n, 2 ^ 62 ≤ n → wrapDown (2 ^ (w - 1)) n v < 2 ^ (w - 1) ∧
      -2 ^ (w - 1) ≤ wrapUp (2 ^ (w - 1)) n (wrapDown (2 ^ (w - 1)) n v) ∧
      wrapUp (2 ^ (w - 1)) n (wrapDown (2 ^ (w - 1)) n v) = wrapBitfield v w true) ∧
    (∀ r, r = wrapBitfield v w true ↔ -2 ^ (w - 1) ≤ r ∧ r < 2 ^ (w - 1) ∧ r ≡ v [ZMOD 2 ^ w]) ∧
    (∀ r, r = wrapBitfield v w false ↔ 0 ≤ r ∧ r < 2 ^ w ∧ r ≡ v [ZMOD 2 ^ w]) ∧
    ∀ (signed : Bool) (data : Bytes) (p : ℤ),
      setBitField data p (wrapBitfield v w signed) w = setBitField data p v w := by
  have hpow : (2 : ℤ) ^ w = 2 * 2 ^ (w - 1) := by
    rw [← pow_succ', Nat.sub_add_cancel hw]
  have hsigned : IsResidue (-2 ^ (w - 1)) (2 ^ w) v (wrapBitfield v w true) := by
    rw [wrapBitfield_signed hw']
    exact (wrapLoops_residue hv hw hw' (by decide)).2
  have hunsigned : IsResidue 0 (2 ^ w) v (wrapBitfield v w false) := by
    rw [wrapBitfield_unsigned hw']
    refine ⟨Int.emod_nonneg _ (by positivity), ?_, Int.mod_modEq v _⟩
    rw [zero_add]
    exact Int.emod_lt_of_pos _ (by positivity)
  refine ⟨fun n hn => ?_, fun r => ⟨?_, fun ⟨hlow, hhigh, hmod⟩ => ?_⟩,
    fun r => ⟨?_, fun ⟨hlow, hhigh, hmod⟩ => ?_⟩, fun signed data p => ?_⟩
  · obtain ⟨hend, hloops⟩ := wrapLoops_residue hv hw hw' hn
    exact ⟨hend, hloops.1, hloops.unique hsigned⟩
  · rintro rfl
    obtain ⟨hlow, hhigh, hmod⟩ := hsigned
    exact ⟨hlow, by omega, hmod⟩
  · exact IsResidue.unique ⟨hlow, by omega, hmod⟩ hsigned
  · rintro rfl
    obtain ⟨hlow, hhigh, hmod⟩ := hunsigned
    exact ⟨hlow, by omega, hmod⟩
  · exact IsResidue.unique ⟨hlow, by omega, hmod⟩ hunsigned
  · refine setBitField_congr ?_ data p
    cases signed with
    | true => exact hsigned.2.2
    | false => exact hunsigned.2.2

/-- The value 200 in `i8` is -56. -/
theorem wrap_bitfield_residue_i8 : InInt64 200 ∧ -56 = wrapBitfield 200 8 true :=
  ⟨by decide, ((wrap_bitfield_residue 200 8 (by decide) (by decide) (by decide)).2.1 (-56)).mpr
    ⟨by decide, by decide, by decide⟩⟩

end wrapping

/-! ### Reading and writing -/

/-- A field of 1 to 64 bits that lies within the data. -/
structure FieldIn (data : Bytes) (p w : ℕ) : Prop where
  pos : 1 ≤ w
  le : w ≤ 64
  fits : p + w ≤ 8 * data.length

/-- A value reduced to `w` bits: sign-extended, or as the bit pattern of an `int64`. -/
def reduced (signed : Bool) (w : ℕ) (v : ℤ) : ℤ :=
  if signed then Int.bmod v (2 ^ w) else int64 (v % 2 ^ w)

section access
variable {data : Bytes} {p w q u : ℕ}

theorem reduced_congr {signed : Bool} {v v' : ℤ} (h : v % 2 ^ w = v' % 2 ^ w) :
    reduced signed w v = reduced signed w v' := by
  have hcast : ((2 ^ w : ℕ) : ℤ) = 2 ^ w := by push_cast; rfl
  rw [reduced, reduced, h, Int.bmod_def, Int.bmod_def, hcast, h]

theorem reduced_emod {signed : Bool} (hw : w ≤ 64) (v : ℤ) : reduced signed w v % 2 ^ w = v % 2 ^ w := by
  have hcast : ((2 ^ w : ℕ) : ℤ) = 2 ^ w := by push_cast; rfl
  unfold reduced
  split
  · rw [← hcast, Int.bmod_emod]
  · rw [int64_emod hw, Int.emod_emod_of_dvd v dvd_rfl]

/-- **The code reads a field** of any width. -/
theorem getBitField_reduced (data : Bytes) (p : ℕ) (hw : 1 ≤ w) (hw' : w ≤ 64) (signed : Bool) :
    getBitField data p w signed = some (reduced signed w (field (bit data) p w)) := by
  have hwidth : ((w : ℤ) - 1).toNat = w - 1 := by omega
  have hlt : (field (bit data) p w : ℤ) < 2 ^ w := by exact_mod_cast field_lt _ _ _
  have hraw : (field (bit data) p w : ℤ) % 2 ^ w = field (bit data) p w :=
    Int.emod_eq_of_lt (by positivity) hlt
  rw [getBitField, Int.toNat_natCast, bitsFrom_natCast, hwidth, reduced, hraw]
  refine congrArg some ?_
  cases signed with
  | false => rfl
  | true =>
      have hpow : (2 : ℤ) ^ w = 2 * 2 ^ (w - 1) := by
        rw [← pow_succ', Nat.sub_add_cancel hw]
      have hhalf : (2 : ℤ) ^ (w - 1) ≤ 2 ^ 63 := pow_le_pow_right₀ (by decide) (by omega)
      have hcast : ((2 ^ w : ℕ) : ℤ) = 2 ^ w := by push_cast; rfl
      rw [if_pos rfl, Int.bmod_def, hcast, hraw, Bool.true_and]
      by_cases hsign : (2 : ℤ) ^ (w - 1) ≤ field (bit data) p w
      · rw [if_pos (decide_eq_true hsign), if_neg (by omega)]
      · have hsmall : InInt64 (field (bit data) p w) := ⟨by omega, by omega⟩
        rw [if_neg (by simpa using hsign), if_pos (by omega), int64_eq_self hsmall]

/-- Fields without a common bit. -/
def Apart (p w q u : ℕ) : Prop := p + w ≤ q ∨ q + u ≤ p

theorem field_put_apart {f : ℕ → Bool} {v : ℤ} (h : Apart p w q u) : field (put f p w v) q u = field f q u := by
  refine field_congr fun i hi hlt => put_of_notMem ?_
  unfold Apart at h
  omega

theorem put_comm {f : ℕ → Bool} {v v' : ℤ} (h : Apart p w q u) :
    put (put f p w v) q u v' = put (put f q u v') p w v := by
  funext i
  unfold Apart at h
  by_cases hp : p ≤ i ∧ i < p + w
  · have hq : ¬ (q ≤ i ∧ i < q + u) := by omega
    rw [put_of_notMem hq, put, if_pos hp, put, if_pos hp]
  · by_cases hq : q ≤ i ∧ i < q + u
    · rw [put_of_notMem hp, put, if_pos hq, put, if_pos hq]
    · rw [put_of_notMem hp, put_of_notMem hq, put_of_notMem hq, put_of_notMem hp]

/-- **The laws of field access.**  A field that was written reads back as the value reduced to its width; a
field that has no bit in common with it reads as before, and the two can be written in any order; a field
with the value just read written to it leaves the data as it is; and a field of one unsigned bit is what `GETBIT`
answers for the string. -/
theorem field_access_laws {S : Type} [Float64 S] (data : Bytes) (p w : ℕ) (h : FieldIn data p w) :
    (∀ (v : ℤ) (signed : Bool), ∃ buf, setBitField data p v w = some buf ∧ buf.length = data.length ∧
      getBitField buf p w signed = some (reduced signed w v)) ∧
    (∀ (q u : ℕ), FieldIn data q u → Apart p w q u → ∀ v : ℤ,
      (∀ signed, (setBitField data p v w).bind (fun buf => getBitField buf q u signed) =
        getBitField data q u signed) ∧
      ∀ v' : ℤ, (setBitField data p v w).bind (fun buf => setBitField buf q v' u) =
        (setBitField data q v' u).bind fun buf => setBitField buf p v w) ∧
    (∀ signed, (getBitField data p w signed).bind (fun v => setBitField data p v w) = some data) ∧
    ∀ (e : Env) (d : DB S) (key : Bytes), stringOf e.now d key = data → ∃ r,
      getBitField data p 1 false = some r ∧ (Cmd.getBit key p : Cmd S).exec e d = (.ok (.int r), d) := by
  obtain ⟨hw, hw', hfits⟩ := h
  refine ⟨fun v signed => ?_, fun q u hq hapart v => ⟨fun signed => ?_, fun v' => ?_⟩, fun signed => ?_,
    fun e d key hkey => ?_⟩
  · obtain ⟨buf, hset, hlen, hbits⟩ := setBitField_spec v w data p hfits
    refine ⟨buf, hset, hlen, ?_⟩
    rw [getBitField_reduced buf p hw hw', hbits]
    refine congrArg some (reduced_congr ?_)
    rw [field_put, Int.emod_emod_of_dvd v dvd_rfl]
  · obtain ⟨buf, hset, -, hbits⟩ := setBitField_spec v w data p hfits
    rw [hset, Option.bind_some, getBitField_reduced buf q hq.pos hq.le, getBitField_reduced data q hq.pos hq.le,
      hbits, field_put_apart hapart]
  · obtain ⟨a, ha, halen, habits⟩ := setBitField_spec v w data p hfits
    obtain ⟨b, hb, hblen, hbbits⟩ := setBitField_spec v' u data q hq.fits
    obtain ⟨a', ha', halen', habits'⟩ := setBitField_spec v' u a q (halen ▸ hq.fits)
    obtain ⟨b', hb', hblen', hbbits'⟩ := setBitField_spec v w b p (hblen ▸ hfits)
    rw [ha, hb, Option.bind_some, Option.bind_some, ha', hb']
    refine congrArg some (eq_of_bit (by omega) fun i => ?_)
    rw [habits', hbbits', habits, hbbits, put_comm hapart]
  · obtain ⟨buf, hset, hlen, hbits⟩ := setBitField_spec (reduced signed w (field (bit data) p w)) w data p hfits
    rw [getBitField_reduced data p hw hw', Option.bind_some, hset]
    refine congrArg some (eq_of_bit hlen fun i => ?_)
    rw [hbits, put_congr (reduced_emod hw' _), put_field]
  · refine ⟨(bit data p).toNat, ?_, hkey ▸ exec_getBit p⟩
    have hread := getBitField_reduced data p (w := 1) le_rfl (by decide) false
    rw [Nat.cast_one] at hread
    rw [hread, field, field]
    cases bit data p <;> rfl

/-- Bits 3 to 7 of one byte, written and read as a signed number. -/
theorem field_access_laws_i5 : FieldIn [255] 3 5 ∧
    ∃ buf, setBitField [255] (3 : ℕ) 17 5 = some buf ∧ getBitField buf (3 : ℕ) (5 : ℕ) true = some (-15) := by
  have hin : FieldIn [255] 3 5 := ⟨by decide, by decide, by decide⟩
  obtain ⟨buf, hset, -, hget⟩ := (field_access_laws (S := ℤ) [255] 3 5 hin).1 17 true
  exact ⟨hin, buf, hset, hget⟩

end access

end Postkeys
