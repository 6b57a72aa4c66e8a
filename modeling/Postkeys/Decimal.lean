import Postkeys.Runtime

/-! # Decimal numbers

Printing a number in decimal and parsing it back: `parseInt_formatInt`.  What is parsed is a 64-bit
number (`parseInt_inInt64`). -/

namespace Postkeys

theorem formatNat_of_lt {n : ℕ} (h : n < 10) : formatNat n = [UInt8.ofNat (48 + n)] := by
  rw [formatNat, Nat.toDigits_of_lt_base h]
  revert n
  decide

theorem formatNat_of_le {n : ℕ} (h : 10 ≤ n) :
    formatNat n = formatNat (n / 10) ++ formatNat (n % 10) := by
  have hsplit := Nat.toDigits_append_toDigits (b := 10) (n := n / 10) (d := n % 10) (by omega) (by omega)
    (Nat.mod_lt n (by omega))
  rw [Nat.div_add_mod] at hsplit
  rw [formatNat, ← hsplit, List.map_append]
  rfl

/-- Fold the digits of a number into what has been read so far. -/
def digitsFold (n : ℕ) (ds : Bytes) : Option ℕ := ds.foldlM (fun n b => (digit b).map (10 * n + ·)) n

theorem digitsFold_append (n : ℕ) (ds es : Bytes) :
    digitsFold n (ds ++ es) = (digitsFold n ds).bind fun m => digitsFold m es := by
  rw [digitsFold, List.foldlM_append]
  rfl

theorem digitsFold_formatNat_of_lt {d : ℕ} (h : d < 10) (n : ℕ) :
    digitsFold n (formatNat d) = some (10 * n + d) := by
  rw [formatNat_of_lt h]
  have hd : digit (UInt8.ofNat (48 + d)) = some d := by
    revert d
    decide
  rw [digitsFold, List.foldlM_cons, hd]
  rfl

theorem digitsFold_formatNat (n : ℕ) : digitsFold 0 (formatNat n) = some n := by
  induction n using Nat.strongRecOn with
  | _ n ih =>
      by_cases h : n < 10
      · simpa using digitsFold_formatNat_of_lt h 0
      · rw [formatNat_of_le (by omega), digitsFold_append, ih (n / 10) (by omega), Option.bind_some,
          digitsFold_formatNat_of_lt (Nat.mod_lt n (by omega)), Nat.div_add_mod]

theorem formatNat_ne_nil (n : ℕ) : formatNat n ≠ [] := by
  intro h
  have hfold := digitsFold_formatNat n
  rw [h] at hfold
  cases hfold
  exact absurd h (by decide)

theorem parseDigits_formatNat (n : ℕ) : parseDigits (formatNat n) = some n := by
  have hfold := digitsFold_formatNat n
  cases h : formatNat n with
  | nil => exact absurd h (formatNat_ne_nil n)
  | cons b ds =>
      rw [h] at hfold
      exact hfold

/-- A decimal number consists of the bytes `0` to `9`. -/
theorem formatNat_digits (n : ℕ) : ∀ b ∈ formatNat n, 48 ≤ b ∧ b ≤ 57 := by
  induction n using Nat.strongRecOn with
  | _ n ih =>
      by_cases h : n < 10
      · rw [formatNat_of_lt h]
        intro b hb
        rw [List.mem_singleton.mp hb]
        clear ih hb
        revert n
        decide
      · rw [formatNat_of_le (by omega)]
        intro b hb
        rcases List.mem_append.mp hb with hb | hb
        · exact ih _ (by omega) b hb
        · exact ih _ (by omega) b hb

theorem parseInt_formatNat {n : ℕ} (h : n < 2 ^ 63) : parseInt (formatNat n) = some (n : ℤ) := by
  have hparse := parseDigits_formatNat n
  have hdigits := formatNat_digits n
  unfold parseInt
  split
  · rename_i ds hds
    exact absurd (hdigits 45 (by rw [hds]; exact List.mem_cons_self ..)).1 (by decide)
  · rename_i ds hds
    exact absurd (hdigits 43 (by rw [hds]; exact List.mem_cons_self ..)).1 (by decide)
  · rw [hparse, Option.bind_some, if_pos h]

/-- A 64-bit number is parsed back from its decimal form. -/
theorem parseInt_formatInt {n : ℤ} (hlow : -2 ^ 63 ≤ n) (hhigh : n < 2 ^ 63) :
    parseInt (formatInt n) = some n := by
  rw [formatInt]
  split_ifs with hneg
  · rw [parseInt, parseDigits_formatNat, Option.bind_some, if_pos (by omega)]
    exact congrArg some (by omega)
  · rw [parseInt_formatNat (by omega)]
    exact congrArg some (by omega)

theorem formatInt_ne_newline (n : ℤ) : 10 ∉ formatInt n := by
  intro h
  rw [formatInt] at h
  split_ifs at h
  · rcases List.mem_cons.mp h with h | h
    · exact absurd h (by decide)
    · exact absurd (formatNat_digits _ 10 h).1 (by decide)
  · exact absurd (formatNat_digits _ 10 h).1 (by decide)

/-! ### 64-bit numbers -/

/-- The range of `int64`. -/
def InInt64 (x : ℤ) : Prop := -2 ^ 63 ≤ x ∧ x < 2 ^ 63

instance (x : ℤ) : Decidable (InInt64 x) := inferInstanceAs (Decidable (_ ∧ _))

theorem int64_eq_self {x : ℤ} (h : InInt64 x) : int64 x = x := by
  obtain ⟨hlow, hhigh⟩ := h
  rw [int64, Int.bmod_def]
  omega

theorem inInt64_int64 (x : ℤ) : InInt64 (int64 x) := by
  rw [int64, InInt64, Int.bmod_def]
  omega

theorem int64_le {x : ℤ} (h : 0 ≤ x) : int64 x ≤ x := by
  unfold int64
  rw [Int.bmod_def]
  split <;> omega

theorem int64_add_int64 (x y : ℤ) : int64 (x + int64 y) = int64 (x + y) := Int.add_bmod_bmod

end Postkeys
