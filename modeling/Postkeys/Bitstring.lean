import Mathlib

/-! # Byte strings as rows of bits

Position `p` of a byte string is a bit, counted from the most significant bit of the first byte;
beyond the end every bit is zero (`bit`).  What is written into a byte, what bytewise operations do
and how two strings of one length compare is said bit by bit.  A *field* is the number in some
consecutive positions of a row of bits; `put` writes one, and reading it back gives the number modulo
a power of two (`field_put`). -/

namespace Bitstring

/-! ### Bits of a byte string -/

/-- The bit at position `p`. -/
def bit (s : List UInt8) (p : ℕ) : Bool := (s[p / 8]?).elim false fun b => b.toNat.testBit (7 - p % 8)

variable {s : List UInt8}

theorem bit_of_getElem? {p : ℕ} {b : UInt8} (h : s[p / 8]? = some b) :
    bit s p = b.toNat.testBit (7 - p % 8) := by
  rw [bit, h, Option.elim_some]

theorem bit_of_length_le {p : ℕ} (h : s.length ≤ p / 8) : bit s p = false := by
  rw [bit, List.getElem?_eq_none h, Option.elim_none]

theorem lt_of_bit {p : ℕ} (h : bit s p = true) : p / 8 < s.length := by
  by_contra hge
  rw [bit_of_length_le (Nat.le_of_not_lt hge)] at h
  cases h

@[simp] theorem bit_nil (p : ℕ) : bit [] p = false := rfl

/-- Zero bytes at the end are not seen. -/
@[simp] theorem bit_append_zeros (s : List UInt8) (n p : ℕ) :
    bit (s ++ List.replicate n 0) p = bit s p := by
  by_cases h : p / 8 < s.length
  · rw [bit, bit, List.getElem?_append_left h]
  · rw [bit_of_length_le (Nat.le_of_not_lt h), bit, List.getElem?_append_right (Nat.le_of_not_lt h)]
    cases hget : (List.replicate n (0 : UInt8))[p / 8 - s.length]? with
    | none => rfl
    | some b =>
        have hb : b = 0 := List.eq_of_mem_replicate (List.mem_of_getElem? hget)
        rw [hb, Option.elim_some]
        exact Nat.zero_testBit _

@[simp] theorem bit_zeros (n p : ℕ) : bit (List.replicate n 0) p = false := by
  rw [← List.nil_append (List.replicate n 0), bit_append_zeros, bit_nil]

/-- Strings of one length with the same bits are equal. -/
theorem eq_of_bit {s t : List UInt8} (hlen : s.length = t.length) (h : ∀ p, bit s p = bit t p) :
    s = t := by
  refine List.ext_getElem hlen fun i hs ht => ?_
  refine UInt8.toNat_inj.mp (Nat.eq_of_testBit_eq fun j => ?_)
  by_cases hj : j < 8
  · have hp := h (8 * i + (7 - j))
    have hdiv : (8 * i + (7 - j)) / 8 = i := by omega
    have hmod : 7 - (8 * i + (7 - j)) % 8 = j := by omega
    rw [bit, bit, hdiv, hmod, List.getElem?_eq_getElem hs, List.getElem?_eq_getElem ht] at hp
    exact hp
  · have hpow : 2 ^ 8 ≤ 2 ^ j := Nat.pow_le_pow_right (by decide) (Nat.le_of_not_lt hj)
    rw [Nat.testBit_lt_two_pow ((UInt8.toNat_lt _).trans_le hpow),
      Nat.testBit_lt_two_pow ((UInt8.toNat_lt _).trans_le hpow)]

/-- A bytewise operation acts on every bit. -/
theorem bit_zipWith {f : UInt8 → UInt8 → UInt8} {g : Bool → Bool → Bool} (hg : g false false = false)
    (hf : ∀ a b i, (f a b).toNat.testBit i = g (a.toNat.testBit i) (b.toNat.testBit i))
    {s t : List UInt8} (hlen : s.length = t.length) (p : ℕ) :
    bit (List.zipWith f s t) p = g (bit s p) (bit t p) := by
  by_cases h : p / 8 < s.length
  · have ht : p / 8 < t.length := hlen ▸ h
    have hz : p / 8 < (List.zipWith f s t).length := by rw [List.length_zipWith]; omega
    rw [bit, bit, bit, List.getElem?_eq_getElem h, List.getElem?_eq_getElem ht,
      List.getElem?_eq_getElem hz, List.getElem_zipWith]
    exact hf _ _ _
  · have hs : s.length ≤ p / 8 := Nat.le_of_not_lt h
    have hz : (List.zipWith f s t).length ≤ p / 8 := by rw [List.length_zipWith]; omega
    have ht : t.length ≤ p / 8 := hlen ▸ hs
    rw [bit_of_length_le hs, bit_of_length_le ht, bit_of_length_le hz, hg]

theorem bit_complement {p : ℕ} (h : p / 8 < s.length) :
    bit (s.map (~~~ ·)) p = !bit s p := by
  rw [bit, bit, List.getElem?_map, List.getElem?_eq_getElem h, Option.map_some, Option.elim_some,
    Option.elim_some, UInt8.toNat_not]
  have hlt : 7 - p % 8 < 8 := by omega
  have hb : (s[p / 8]).toNat < 2 ^ 8 := UInt8.toNat_lt _
  rw [show UInt8.size - 1 - (s[p / 8]).toNat = 2 ^ 8 - ((s[p / 8]).toNat + 1) by simp [UInt8.size],
    Nat.testBit_two_pow_sub_succ hb]
  simp [hlt]

/-- One byte with bit `i` set to `v`, in the string. -/
theorem bit_modify {f : UInt8 → UInt8} {i : ℕ} {v : Bool} {q : ℕ} (hi : i < 8)
    (hf : ∀ b j, (f b).toNat.testBit j = if j = i then v else b.toNat.testBit j) (hq : q < s.length) (p : ℕ) :
    bit (s.modify q f) p = if p = 8 * q + (7 - i) then v else bit s p := by
  have hpos : p = 8 * q + (7 - i) ↔ q = p / 8 ∧ 7 - p % 8 = i := by omega
  rw [bit, bit, List.getElem?_modify]
  by_cases hp : q = p / 8
  · subst hp
    rw [List.getElem?_eq_getElem hq]
    simp only [if_true, Option.map_eq_map, Option.map_some, Option.elim_some, hf, hpos, true_and]
  · rw [if_neg fun h => hp (hpos.mp h).1]
    simp [hp]

/-! ### Fields -/

/-- The number in the `n` bits from position `p` on, the first of them the most significant. -/
def field (f : ℕ → Bool) (p : ℕ) : ℕ → ℕ
  | 0 => 0
  | n + 1 => (f p).toNat * 2 ^ n + field f (p + 1) n

/-- Binary digit `i` of an integer in two's complement. -/
def digit (v : ℤ) (i : ℕ) : Bool := decide (v / 2 ^ i % 2 = 1)

/-- The row of bits `f` with the `n` low digits of `v` from position `p` on. -/
def put (f : ℕ → Bool) (p n : ℕ) (v : ℤ) (q : ℕ) : Bool :=
  if p ≤ q ∧ q < p + n then digit v (p + n - 1 - q) else f q

theorem field_lt (f : ℕ → Bool) (p n : ℕ) : field f p n < 2 ^ n := by
  induction n generalizing p with
  | zero => simp [field]
  | succ n ih =>
      rw [field, pow_succ]
      have hrest := ih (p + 1)
      cases f p <;> simp <;> omega

theorem field_congr {f g : ℕ → Bool} {p n : ℕ} (h : ∀ q, p ≤ q → q < p + n → f q = g q) :
    field f p n = field g p n := by
  induction n generalizing p with
  | zero => rfl
  | succ n ih =>
      rw [field, field, h p le_rfl (by omega), ih fun q hq hlt => h q (by omega) (by omega)]

theorem put_of_notMem {f : ℕ → Bool} {p n q : ℕ} {v : ℤ} (h : ¬ (p ≤ q ∧ q < p + n)) :
    put f p n v q = f q := if_neg h

theorem digit_toNat (v : ℤ) (i : ℕ) : ((digit v i).toNat : ℤ) = v / 2 ^ i % 2 := by
  rw [digit]
  rcases Int.emod_two_eq_zero_or_one (v / 2 ^ i) with h | h <;> simp [h]

/-- The low `n + 1` digits are digit `n` and the low `n` digits. -/
theorem emod_two_pow_succ (v : ℤ) (n : ℕ) :
    v % 2 ^ (n + 1) = v / 2 ^ n % 2 * 2 ^ n + v % 2 ^ n := by
  have hpow : (0 : ℤ) < 2 ^ n := by positivity
  have hrest := Int.emod_add_mul_ediv v (2 ^ n)
  have hlast := Int.emod_add_mul_ediv (v / 2 ^ n) 2
  have hr₀ := Int.emod_nonneg v hpow.ne'
  have hr₁ := Int.emod_lt_of_pos v hpow
  have hb : v / 2 ^ n % 2 = 0 ∨ v / 2 ^ n % 2 = 1 := Int.emod_two_eq_zero_or_one _
  have hsum : v / 2 ^ n % 2 * 2 ^ n + v % 2 ^ n + 2 ^ (n + 1) * (v / 2 ^ n / 2) = v := by
    calc v / 2 ^ n % 2 * 2 ^ n + v % 2 ^ n + 2 ^ (n + 1) * (v / 2 ^ n / 2)
        = v % 2 ^ n + 2 ^ n * (v / 2 ^ n % 2 + 2 * (v / 2 ^ n / 2)) := by ring
      _ = v := by rw [hlast, hrest]
  have hdigit : 0 ≤ v / 2 ^ n % 2 * 2 ^ n + v % 2 ^ n ∧
      v / 2 ^ n % 2 * 2 ^ n + v % 2 ^ n < 2 ^ (n + 1) := by
    rw [pow_succ]
    rcases hb with hb | hb <;> rw [hb] <;> omega
  exact ((Int.ediv_emod_unique (by positivity)).mpr ⟨hsum, hdigit⟩).2

/-- **A field reads back** as the number that was put, modulo a power of two. -/
theorem field_put (f : ℕ → Bool) (p n : ℕ) (v : ℤ) : (field (put f p n v) p n : ℤ) = v % 2 ^ n := by
  -- the last `k` positions of the field hold the last `k` digits
  have hlast (k : ℕ) (hk : k ≤ n) : (field (put f p n v) (p + (n - k)) k : ℤ) = v % 2 ^ k := by
    induction k with
    | zero => simp [field]
    | succ k ih =>
        have hnext : p + (n - (k + 1)) + 1 = p + (n - k) := by omega
        have hdigit : put f p n v (p + (n - (k + 1))) = digit v k := by
          rw [put, if_pos (by omega)]
          congr 1
          omega
        rw [field, hnext, hdigit, emod_two_pow_succ, ← ih (by omega), ← digit_toNat]
        push_cast
        rfl
  simpa using hlast n le_rfl

/-- The low digits of a number are those of its residue. -/
theorem digit_congr {v w : ℤ} {n : ℕ} (h : v % 2 ^ n = w % 2 ^ n) {i : ℕ} (hi : i < n) :
    digit v i = digit w i := by
  have hdvd : (2 : ℤ) ^ (i + 1) ∣ 2 ^ n := pow_dvd_pow 2 hi
  have hmod : v % 2 ^ (i + 1) = w % 2 ^ (i + 1) := by
    rw [← Int.emod_emod_of_dvd v hdvd, h, Int.emod_emod_of_dvd w hdvd]
  have hlow : v % 2 ^ i = w % 2 ^ i := by
    rw [← Int.emod_emod_of_dvd v (pow_dvd_pow 2 hi.le), h, Int.emod_emod_of_dvd w (pow_dvd_pow 2 hi.le)]
  rw [emod_two_pow_succ, emod_two_pow_succ, hlow] at hmod
  have hpow : (0 : ℤ) < 2 ^ i := by positivity
  rw [digit, digit, mul_right_cancel₀ hpow.ne' (add_right_cancel hmod)]

/-- Only the low digits of the number matter. -/
theorem put_congr {v w : ℤ} {n : ℕ} (h : v % 2 ^ n = w % 2 ^ n) (f : ℕ → Bool) (p : ℕ) :
    put f p n v = put f p n w := by
  funext q
  unfold put
  split
  · exact digit_congr h (by omega)
  · rfl

/-- A field is put digit by digit, the most significant one first. -/
theorem put_succ (f : ℕ → Bool) (p n : ℕ) (v : ℤ) :
    put (fun q => if q = p then digit v n else f q) (p + 1) n v = put f p (n + 1) v := by
  funext q
  simp only [put]
  by_cases hq : q = p
  · subst hq
    have hout : ¬ (q + 1 ≤ q ∧ q < q + 1 + n) := by omega
    have hin : q ≤ q ∧ q < q + (n + 1) := by omega
    have hdigit : q + (n + 1) - 1 - q = n := by omega
    rw [if_neg hout, if_pos rfl, if_pos hin, hdigit]
  · have hiff : p + 1 ≤ q ∧ q < p + 1 + n ↔ p ≤ q ∧ q < p + (n + 1) := by omega
    have hdigit : p + 1 + n - 1 - q = p + (n + 1) - 1 - q := by omega
    rw [if_neg hq, hdigit]
    exact if_congr hiff rfl rfl

/-- Putting back the number that stands there changes nothing. -/
theorem put_field (f : ℕ → Bool) (p n : ℕ) : put f p n (field f p n) = f := by
  induction n generalizing p with
  | zero =>
      funext q
      exact put_of_notMem (by omega)
  | succ n ih =>
      have hlt : (field f (p + 1) n : ℤ) < 2 ^ n := by exact_mod_cast field_lt f (p + 1) n
      have htop : digit (field f p (n + 1)) n = f p := by
        rw [digit, field, Nat.cast_add, Nat.cast_mul, Nat.cast_pow, Nat.cast_two, add_comm,
          Int.add_mul_ediv_right _ _ (by positivity), Int.ediv_eq_zero_of_lt (by positivity) hlt]
        cases f p <;> rfl
      have hrow : (fun q => if q = p then digit (field f p (n + 1)) n else f q) = f := by
        funext q
        split
        · rw [htop, ‹q = p›]
        · rfl
      have hlow : ((field f p (n + 1) : ℕ) : ℤ) % 2 ^ n = (field f (p + 1) n : ℤ) % 2 ^ n := by
        rw [field, Nat.cast_add, Nat.cast_mul, Nat.cast_pow, Nat.cast_two, Int.mul_add_emod_self_right]
      rw [← put_succ, hrow, put_congr hlow, ih]

end Bitstring
