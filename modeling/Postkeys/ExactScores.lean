import Postkeys.Handlers.SortedSets
import Mathlib.Algebra.Order.Monoid.WithTop
import Mathlib.Algebra.Order.Field.Rat
import Mathlib.Tactic.Linarith

/-! # Exact scores and bounds

The bounds of the commands that select by score, over exact scores: rational numbers and two infinities.  A bound is
a number, exclusive behind a `(`, or one of the words for the infinities (`BoundWord`).  The handlers replace it by
a number to compare with: an exclusive bound is moved by `1e-9`, and three commands put `±1e308` for the words.
`lowValue_le_iff` and `le_highValue_iff` say for which scores the comparison then goes wrong, the gaps. -/

namespace Postkeys

open Relational

/-! ### The scores -/

/-- Rational numbers and two infinities. -/
abbrev ExactScore := WithBot (WithTop ℚ)

namespace ExactScore

/-- A rational number as a score. -/
def num (q : ℚ) : ExactScore := ((q : WithTop ℚ) : WithBot (WithTop ℚ))

@[elab_as_elim]
theorem induction {P : ExactScore → Prop} (bot : P ⊥) (num : ∀ q, P (num q)) (top : P ⊤) (x : ExactScore) : P x :=
  match x with
  | none => bot
  | some none => top
  | some (some q) => num q

theorem num_le_num {a b : ℚ} : num a ≤ num b ↔ a ≤ b := WithBot.coe_le_coe.trans WithTop.coe_le_coe

theorem num_lt_num {a b : ℚ} : num a < num b ↔ a < b := WithBot.coe_lt_coe.trans WithTop.coe_lt_coe

theorem num_ne_bot (q : ℚ) : num q ≠ ⊥ := WithBot.coe_ne_bot

theorem num_ne_top (q : ℚ) : num q ≠ ⊤ := by
  intro h
  cases h

/-- Subtraction; no infinity is ever subtracted from itself. -/
def sub (x y : ExactScore) : ExactScore :=
  match y with
  | none => ⊤
  | some none => ⊥
  | some (some q) => x + num (-q)

/-- Multiplication; no infinity is ever multiplied by zero. -/
def mul (x y : ExactScore) : ExactScore :=
  match x, y with
  | some (some a), some (some b) => num (a * b)
  | x, y => if 0 < x ∧ 0 < y ∨ x < 0 ∧ y < 0 then ⊤ else ⊥

end ExactScore

/-- How scores are read and written. -/
class ScoreText where
  parse : Bytes → Option ExactScore
  format : ExactScore → Bytes

/-- `1e-9`. -/
def tiny : ℚ := 1 / 10 ^ 9

/-- `1e308`. -/
def big : ℚ := 10 ^ 308

instance exactScores [ScoreText] : GoFloat ExactScore where
  decEq := inferInstance
  le a b := decide (a ≤ b)
  le_total a b := by simpa using le_total a b
  le_trans a b c := by simpa using le_trans
  goLe a b := decide (a ≤ b)
  goLt a b := decide (a < b)
  goEq a b := decide (a = b)
  zero := 0
  one := 1
  add := (· + ·)
  mul := ExactScore.mul
  pgAdd a b := some (a + b)
  parseFloat := ScoreText.parse
  formatFloat := ScoreText.format
  hllCount registers := registers.countP (· ≠ 0)
  inf := ⊤
  negInf := ⊥
  big := .num big
  negBig := .num (-big)
  tiny := .num tiny
  sub := ExactScore.sub

/-! ### Bounds as they are written -/

/-- A bound as it is written. -/
inductive BoundWord (S : Type)
  | minusInf
  | plusInf
  | number (x : S) (exclusive : Bool)

section words
variable {S : Type}

/-- Read a bound. -/
def readBound [Float64 S] (s : Bytes) : Option (BoundWord S) :=
  if s = utf8 "-inf" then some .minusInf
  else if s = utf8 "+inf" ∨ s = utf8 "inf" then some .plusInf
  else if s.head? = some 40 then (Float64.parseFloat s.tail).map fun x => .number x true
  else (Float64.parseFloat s).map fun x => .number x false

/-- What a handler puts for a bound. -/
def BoundWord.value (inf negInf : S) (shift : S → S) : BoundWord S → S
  | .minusInf => negInf
  | .plusInf => inf
  | .number x exclusive => if exclusive then shift x else x

theorem parseBound_eq [GoFloat S] (inf negInf : S) (shift : S → S) (s : Bytes) :
    Handlers.parseBound inf negInf shift s = (readBound s).map (BoundWord.value inf negInf shift) := by
  unfold Handlers.parseBound readBound
  by_cases hminus : s = utf8 "-inf"
  · rw [if_pos hminus, if_pos hminus]
    rfl
  · by_cases hplus : s = utf8 "+inf" ∨ s = utf8 "inf"
    · rw [if_neg hminus, if_neg hminus, if_pos hplus, if_pos hplus]
      rfl
    · rw [if_neg hminus, if_neg hminus, if_neg hplus, if_neg hplus]
      split
      · rw [List.head?_cons, if_pos rfl, Option.map_map]
        rfl
      · rename_i hne
        have hhead : s.head? ≠ some 40 := fun h => hne _ (List.eq_cons_of_mem_head? h)
        rw [if_neg hhead, Option.map_map]
        exact Option.map_id'.symm

end words

/-! ### What a bound says -/

/-- The score is not below the lower bound. -/
def Above : BoundWord ExactScore → ExactScore → Prop
  | .minusInf, _ => True
  | .plusInf, s => ⊤ ≤ s
  | .number x exclusive, s => if exclusive then x < s else x ≤ s

/-- The score is not above the upper bound. -/
def Below : BoundWord ExactScore → ExactScore → Prop
  | .minusInf, s => s ≤ ⊥
  | .plusInf, _ => True
  | .number x exclusive, s => if exclusive then s < x else s ≤ x

/-- The score satisfies both bounds. -/
def Within (lo hi : BoundWord ExactScore) (s : ExactScore) : Prop := Above lo s ∧ Below hi s

/-! ### What the handlers make of it -/

/-- The two ways in which the handlers read bounds: `parseScoreBound`, and the one in which `±1e308` stands for the
infinities. -/
inductive BoundStyle
  | literal
  | clamped

/-- The number a lower bound is replaced by. -/
def lowValue : BoundStyle → BoundWord ExactScore → ExactScore
  | .literal => BoundWord.value ⊤ ⊥ fun x => x + .num tiny
  | .clamped => BoundWord.value (.num big) (.num (-big)) fun x => x + .num tiny

/-- The number an upper bound is replaced by. -/
def highValue : BoundStyle → BoundWord ExactScore → ExactScore
  | .literal => BoundWord.value ⊤ ⊥ fun x => x + .num tiny
  | .clamped => BoundWord.value (.num big) (.num (-big)) fun x => .sub x (.num tiny)

section parsed
variable [ScoreText]

theorem parseScoreBound_low (s : Bytes) :
    Handlers.parseScoreBound s = (readBound s).map (lowValue .literal) := parseBound_eq ..

theorem parseScoreBound_high (s : Bytes) :
    Handlers.parseScoreBound s = (readBound s).map (highValue .literal) := parseBound_eq ..

theorem parseMin_eq (s : Bytes) : Handlers.parseMin s = (readBound s).map (lowValue .clamped) := parseBound_eq ..

theorem parseMax_eq (s : Bytes) : Handlers.parseMax s = (readBound s).map (highValue .clamped) := parseBound_eq ..

end parsed

/-- The scores that a lower bound misjudges: those less than `1e-9` above an exclusive bound, an infinity that is
excluded, and, where `±1e308` stands for the infinities, those beyond it. -/
def LowGap : BoundStyle → BoundWord ExactScore → ExactScore → Prop
  | .literal, .minusInf, _ | .literal, .plusInf, _ => False
  | .clamped, .minusInf, s => s < .num (-big)
  | .clamped, .plusInf, s => .num big ≤ s ∧ s < ⊤
  | _, .number x exclusive, s =>
      exclusive = true ∧ (x < s ∧ s < x + .num tiny ∨ s = x ∧ (x = ⊥ ∨ x = ⊤))

/-- The scores that an upper bound misjudges: `parseScoreBound` takes scores up to `1e-9` above an exclusive bound, the
other way misses those less than `1e-9` below it. -/
def HighGap : BoundStyle → BoundWord ExactScore → ExactScore → Prop
  | .literal, .minusInf, _ | .literal, .plusInf, _ => False
  | .clamped, .minusInf, s => ⊥ < s ∧ s ≤ .num (-big)
  | .clamped, .plusInf, s => .num big < s
  | .literal, .number x exclusive, s => exclusive = true ∧ x ≤ s ∧ s ≤ x + .num tiny
  | .clamped, .number x exclusive, s =>
      exclusive = true ∧ (ExactScore.sub x (.num tiny) < s ∧ s < x ∨ s = x ∧ (x = ⊥ ∨ x = ⊤))

/-! ### The gaps -/

theorem tiny_pos : 0 < tiny := by
  rw [tiny]
  norm_num

namespace ExactScore

theorem num_lt_add (q : ℚ) : num q < num q + num tiny := by
  have hadd : num q + num tiny = num (q + tiny) := rfl
  rw [hadd, num_lt_num]
  linarith [tiny_pos]

theorem sub_lt_num (q : ℚ) : sub (num q) (num tiny) < num q := by
  have hsub : sub (num q) (num tiny) = num (q + -tiny) := rfl
  rw [hsub, num_lt_num]
  linarith [tiny_pos]

theorem le_add (x : ExactScore) : x ≤ x + num tiny := by
  induction x using ExactScore.induction with
  | bot => exact bot_le
  | num q => exact (num_lt_add q).le
  | top => exact le_rfl

end ExactScore

section order
variable {x y s : ExactScore}

theorem le_iff_xor_of_lt (h : x < y) : y ≤ s ↔ Xor (x < s) (x < s ∧ s < y) := by
  constructor
  · intro hy
    exact Or.inl ⟨h.trans_le hy, fun hs => not_lt.mpr hy hs.2⟩
  · rintro (⟨hx, hnot⟩ | ⟨hs, hnot⟩)
    · exact not_lt.mp fun hlt => hnot ⟨hx, hlt⟩
    · exact absurd hs.1 hnot

theorem ge_iff_xor_of_lt (h : y < x) : s ≤ y ↔ Xor (s < x) (y < s ∧ s < x) := by
  constructor
  · intro hy
    exact Or.inl ⟨hy.trans_lt h, fun hs => not_lt.mpr hy hs.1⟩
  · rintro (⟨hx, hnot⟩ | ⟨hs, hnot⟩)
    · exact not_lt.mp fun hlt => hnot ⟨hlt, hx⟩
    · exact absurd hs.2 hnot

theorem ge_iff_xor_of_le (h : x ≤ y) : s ≤ y ↔ Xor (s < x) (x ≤ s ∧ s ≤ y) := by
  constructor
  · intro hy
    rcases lt_or_ge s x with hlt | hge
    · exact Or.inl ⟨hlt, fun hs => not_lt.mpr hs.1 hlt⟩
    · exact Or.inr ⟨⟨hge, hy⟩, not_lt.mpr hge⟩
  · rintro (⟨hx, -⟩ | ⟨hs, -⟩)
    · exact hx.le.trans h
    · exact hs.2

end order

section gaps
variable (s : ExactScore)

/-- An end without a gap. -/
theorem xor_no_gap {P Q : Prop} (hQ : ¬ Q) : Xor P Q ↔ P := by
  rw [iff_false_intro hQ, xor_comm, xor_false]
  rfl

/-- The gap of an excluded infinity. -/
theorem gap_of_infinite {Q : Prop} {x : ExactScore} (hx : x = ⊥ ∨ x = ⊤) (hQ : ¬ Q) :
    (Q ∨ s = x ∧ (x = ⊥ ∨ x = ⊤)) ↔ s = x := by
  rw [or_iff_right hQ, and_iff_left hx]

/-- A finite bound has no infinity to exclude. -/
theorem gap_of_finite {Q : Prop} (q : ℚ) :
    (Q ∨ s = .num q ∧ (ExactScore.num q = ⊥ ∨ ExactScore.num q = ⊤)) ↔ Q := by
  rw [or_iff_left]
  rintro ⟨-, hbot | htop⟩
  · exact ExactScore.num_ne_bot q hbot
  · exact ExactScore.num_ne_top q htop

theorem xor_ne_eq (P : Prop) : Xor (¬ P) P := by
  by_cases h : P
  · exact Or.inr ⟨h, not_not.mpr h⟩
  · exact Or.inl ⟨h, h⟩

theorem add_tiny_le_iff (x : ExactScore) : x + .num tiny ≤ s ↔
    Xor (x < s) (x < s ∧ s < x + .num tiny ∨ s = x ∧ (x = ⊥ ∨ x = ⊤)) := by
  induction x using ExactScore.induction with
  | bot =>
      rw [gap_of_infinite s (Or.inl rfl) fun h => not_lt_bot h.2, bot_lt_iff_ne_bot]
      exact iff_of_true bot_le (xor_ne_eq _)
  | num q =>
      rw [gap_of_finite]
      exact le_iff_xor_of_lt (ExactScore.num_lt_add q)
  | top =>
      rw [gap_of_infinite s (Or.inr rfl) fun h => not_top_lt h.1, xor_comm, xor_no_gap not_top_lt]
      exact top_le_iff

theorem le_sub_tiny_iff (x : ExactScore) : s ≤ .sub x (.num tiny) ↔
    Xor (s < x) (ExactScore.sub x (.num tiny) < s ∧ s < x ∨ s = x ∧ (x = ⊥ ∨ x = ⊤)) := by
  induction x using ExactScore.induction with
  | bot =>
      rw [gap_of_infinite s (Or.inl rfl) fun h => not_lt_bot h.2, xor_comm, xor_no_gap not_lt_bot]
      exact le_bot_iff
  | num q =>
      rw [gap_of_finite]
      exact ge_iff_xor_of_lt (ExactScore.sub_lt_num q)
  | top =>
      have htop : ExactScore.sub ⊤ (.num tiny) = ⊤ := rfl
      rw [htop, gap_of_infinite s (Or.inr rfl) fun h => not_top_lt h.1, lt_top_iff_ne_top]
      exact iff_of_true le_top (xor_ne_eq _)

/-- **The comparison with a lower bound**, and where it goes wrong. -/
theorem lowValue_le_iff (style : BoundStyle) (b : BoundWord ExactScore) :
    lowValue style b ≤ s ↔ Xor (Above b s) (LowGap style b s) := by
  cases b with
  | minusInf =>
      cases style with
      | literal => exact (iff_true_intro bot_le).trans (xor_no_gap id).symm
      | clamped =>
          rw [Above, xor_true]
          exact not_lt.symm
  | plusInf =>
      cases style with
      | literal => exact (xor_no_gap id).symm
      | clamped =>
          constructor
          · intro h
            rcases lt_or_ge s ⊤ with hlt | hge
            · exact Or.inr ⟨⟨h, hlt⟩, not_le.mpr hlt⟩
            · exact Or.inl ⟨hge, fun hgap => not_lt.mpr hge hgap.2⟩
          · rintro (⟨htop, -⟩ | ⟨hgap, -⟩)
            · exact le_top.trans htop
            · exact hgap.1
  | number x exclusive =>
      cases exclusive with
      | false => cases style <;> exact (xor_no_gap fun h => Bool.false_ne_true h.1).symm
      | true =>
          cases style with
          | literal =>
              rw [LowGap, and_iff_right rfl]
              exact add_tiny_le_iff s x
          | clamped =>
              rw [LowGap, and_iff_right rfl]
              exact add_tiny_le_iff s x

/-- **The comparison with an upper bound**, and where it goes wrong. -/
theorem le_highValue_iff (style : BoundStyle) (b : BoundWord ExactScore) :
    s ≤ highValue style b ↔ Xor (Below b s) (HighGap style b s) := by
  cases b with
  | minusInf =>
      cases style with
      | literal => exact (xor_no_gap id).symm
      | clamped =>
          constructor
          · intro h
            rcases le_or_gt s ⊥ with hle | hgt
            · exact Or.inl ⟨hle, fun hgap => not_lt.mpr hle hgap.1⟩
            · exact Or.inr ⟨⟨hgt, h⟩, not_le.mpr hgt⟩
          · rintro (⟨hbot, -⟩ | ⟨hgap, -⟩)
            · exact le_trans hbot bot_le
            · exact hgap.2
  | plusInf =>
      cases style with
      | literal => exact (iff_true_intro le_top).trans (xor_no_gap id).symm
      | clamped =>
          rw [Below, xor_true]
          exact not_lt.symm
  | number x exclusive =>
      cases exclusive with
      | false => cases style <;> exact (xor_no_gap fun h => Bool.false_ne_true h.1).symm
      | true =>
          cases style with
          | literal =>
              rw [HighGap, and_iff_right rfl]
              exact ge_iff_xor_of_le (ExactScore.le_add x)
          | clamped =>
              rw [HighGap, and_iff_right rfl]
              exact le_sub_tiny_iff s x

end gaps

end Postkeys
