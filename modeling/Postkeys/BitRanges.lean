import Postkeys.Handlers.Strings
import Postkeys.Indices
import Postkeys.StringValue

/-! # `BITCOUNT` and `BITPOS`

Both commands resolve a range of bytes or of bits and walk it.  `bitcount_counts`: `BITCOUNT` is the
number of positions of the range at which `GETBIT` answers one.  `bitpos_finds_iff`: `BITPOS` answers the
first position of the range that holds the bit, and `-1` where there is none, except that a search for
a zero bit in bytes that finds none answers the position behind the range, or `-1` where the number of
bits was due. -/

namespace Postkeys

open Relational Program Bitstring

variable {S : Type} {e : Env} {d : DB S} {key : Bytes} {data : Bytes} {useBit : Bool}
  {start stop : ℤ}

/-! ### Ranges of bits -/

/-- Bit `p` of a string of `n` bytes lies in a range of bits or of bytes. -/
def BitInRange (n : ℕ) (start stop : ℤ) (useBit : Bool) (p : ℕ) : Prop :=
  if useBit then InRange (8 * n) start stop p else InRange n start stop (p / 8)

/-- The number of places a range counts in. -/
def places (n : ℕ) (useBit : Bool) : ℕ := if useBit then 8 * n else n

/-- A range that is resolved to the places from `a` to `b`, in bits. -/
theorem bitInRange_iff {n a b : ℕ}
    (h : ∀ p, InRange (places n useBit) start stop p ↔ a ≤ p ∧ p ≤ b) (p : ℕ) :
    BitInRange n start stop useBit p ↔
      (if useBit then a else 8 * a) ≤ p ∧ p < if useBit then b + 1 else 8 * (b + 1) := by
  cases useBit with
  | true =>
      simp only [BitInRange, places, if_true] at h ⊢
      rw [h]
      omega
  | false =>
      simp only [BitInRange, places, Bool.false_eq_true, if_false] at h ⊢
      rw [h]
      omega

/-- **A range is resolved** to nothing, or to the places between two of them. -/
theorem resolve_cases (n : ℕ) (start stop : ℤ) (useBit : Bool) :
    ((clampRange (places n useBit) start stop).2 < (clampRange (places n useBit) start stop).1 ∧
      ∀ p, ¬ BitInRange n start stop useBit p) ∨
    ∃ a b : ℕ, clampRange (places n useBit) start stop = ((a : ℤ), (b : ℤ)) ∧ a ≤ b ∧ b < places n useBit ∧
      ∀ p, BitInRange n start stop useBit p ↔
        (if useBit then a else 8 * a) ≤ p ∧ p < if useBit then b + 1 else 8 * (b + 1) := by
  obtain ⟨h0, hlen, hrange⟩ := clampRange_spec (places n useBit) start stop
  rcases lt_or_ge (clampRange (places n useBit) start stop).2
    (clampRange (places n useBit) start stop).1 with hlt | hle
  · refine Or.inl ⟨hlt, fun p hp => ?_⟩
    have hplace : ∃ q, InRange (places n useBit) start stop q := by
      cases useBit
      · exact ⟨p / 8, hp⟩
      · exact ⟨p, hp⟩
    obtain ⟨q, hq⟩ := hplace
    have hbounds := (hrange q).mp hq
    omega
  · refine Or.inr ⟨(clampRange (places n useBit) start stop).1.toNat,
      (clampRange (places n useBit) start stop).2.toNat, ?_, by omega, by omega, ?_⟩
    · exact Prod.ext (Int.toNat_of_nonneg h0).symm (Int.toNat_of_nonneg (h0.trans hle)).symm
    · refine bitInRange_iff fun p => ?_
      rw [hrange p]
      omega

theorem positions_natCast (a b : ℕ) : positions a b = (List.range' a (b + 1 - a)).map Nat.cast := by
  have hlen : ((b : ℤ) - a + 1).toNat = b + 1 - a := by omega
  rw [positions, hlen, List.range'_eq_map_range, List.map_map]
  refine List.map_congr_left fun i _ => ?_
  exact (Nat.cast_add a i).symm

theorem positions_of_lt {a b : ℤ} (h : b < a) : positions a b = [] := by
  have hlen : (b - a + 1).toNat = 0 := by omega
  rw [positions, hlen]
  rfl

/-- The bits of the bytes from `a` on. -/
theorem flatMap_byte (a n : ℕ) :
    (List.range' a n).flatMap (fun i => List.range' (8 * i) 8) = List.range' (8 * a) (8 * n) := by
  induction n generalizing a with
  | zero => rfl
  | succ n ih =>
      rw [List.range'_succ, List.flatMap_cons, ih]
      have happend : List.range' (8 * a) 8 ++ List.range' (8 * a + 1 * 8) (8 * n) =
          List.range' (8 * a) (8 + 8 * n) := List.range'_append
      have hnext : 8 * (a + 1) = 8 * a + 1 * 8 := by ring
      have hlen : 8 * (n + 1) = 8 + 8 * n := by ring
      rw [hnext, happend, hlen]

/-! ### Counting -/

theorem byteAt_bit {p : ℕ} (h : p / 8 < data.length) :
    ∃ b, byteAt data (Int.tdiv p 8) = some b ∧ byteBit b (7 - Int.tmod p 8) = bit data p := by
  have hget : data[p / 8]? = some data[p / 8] := List.getElem?_eq_getElem h
  refine ⟨data[p / 8], ?_, ?_⟩
  · rw [tdiv_natCast, byteAt_natCast, hget]
  · rw [tmod_natCast, byteBit_natCast _ (by omega), bit_of_getElem? hget]

theorem countBit_natCast {p : ℕ} (cnt : ℤ) (h : p / 8 < data.length) :
    countBit data cnt p = some (cnt + (bit data p).toNat) := by
  obtain ⟨b, hbyte, hbit⟩ := byteAt_bit h
  rw [countBit, hbyte, Option.bind_eq_bind, Option.bind_some, hbit]
  cases bit data p <;> simp

/-- Shifting a byte out counts its set bits. -/
theorem popLoop_eq (n : ℕ) (cnt : ℤ) (b : UInt8) (hb : b.toNat < 2 ^ n) :
    popLoop n cnt b = cnt + ((List.range n).countP b.toNat.testBit : ℤ) := by
  induction n generalizing cnt b with
  | zero => simp [popLoop]
  | succ n ih =>
      have hzero : b.toNat = 0 → (List.range (n + 1)).countP b.toNat.testBit = 0 := by
        intro h0
        rw [h0]
        exact List.countP_eq_zero.mpr fun i _ => by simp
      rw [popLoop]
      split
      · rename_i h0
        rw [hzero (by rw [h0]; rfl)]
        simp
      · have hshift : (b >>> 1).toNat = b.toNat / 2 := by
          rw [UInt8.toNat_shiftRight]
          exact Nat.shiftRight_succ _ _
        have hlow : ((b &&& 1).toNat : ℤ) = if b.toNat.testBit 0 then 1 else 0 := by
          rw [UInt8.toNat_and, Nat.testBit_zero]
          have hand : b.toNat &&& (1 : UInt8).toNat = b.toNat % 2 := Nat.and_one_is_mod _
          rw [hand]
          rcases Nat.mod_two_eq_zero_or_one b.toNat with h | h <;> simp [h]
        have htail : ((List.range n).map Nat.succ).countP b.toNat.testBit =
            (List.range n).countP (b.toNat / 2).testBit := by
          rw [List.countP_map]
          refine List.countP_congr fun i _ => ?_
          simp [Nat.testBit_succ]
        rw [ih _ _ (by rw [hshift]; omega), hshift, List.range_succ_eq_map, List.countP_cons, htail, hlow]
        split <;> push_cast <;> ring

/-- The bits of one byte of the string, counted from either end. -/
theorem countP_byte {i : ℕ} {b : UInt8} (h : data[i]? = some b) :
    (List.range' (8 * i) 8).countP (bit data) = (List.range 8).countP b.toNat.testBit := by
  have hbit (j : ℕ) (hj : j < 8) : bit data (8 * i + j) = b.toNat.testBit (7 - j) := by
    have hdiv : (8 * i + j) / 8 = i := by omega
    have hmod : (8 * i + j) % 8 = j := by omega
    rw [bit_of_getElem? (b := b) (by rw [hdiv]; exact h), hmod]
  have hmap : List.range' (8 * i) 8 = (List.range 8).map (8 * i + ·) := by
    rw [List.range'_eq_map_range]
  rw [hmap, List.countP_map]
  have hrev : (List.range 8).countP (bit data ∘ (8 * i + ·)) =
      (List.range 8).countP fun j => b.toNat.testBit (7 - j) := by
    refine List.countP_congr fun j hj => ?_
    simp [hbit j (List.mem_range.mp hj)]
  rw [hrev]
  simp only [List.range_succ, List.range_zero, List.countP_append, List.countP_cons, List.countP_nil,
    List.nil_append]
  ring

theorem countByte_natCast {i : ℕ} (cnt : ℤ) (h : i < data.length) :
    countByte data cnt i = some (cnt + ((List.range' (8 * i) 8).countP (bit data) : ℤ)) := by
  have hget : data[i]? = some data[i] := List.getElem?_eq_getElem h
  rw [countByte, byteAt_natCast, hget, Option.bind_eq_bind, Option.bind_some, countP_byte hget,
    popLoop_eq _ _ _ (UInt8.toNat_lt _)]
  rfl

/-- A loop that adds, in every round, how many of some places are set. -/
theorem foldlM_countP (P : ℕ → Bool) (places : ℕ → List ℕ) (step : ℤ → ℤ → Option ℤ) (l : List ℕ)
    (hstep : ∀ cnt, ∀ i ∈ l, step cnt i = some (cnt + ((places i).countP P : ℤ))) (cnt : ℤ) :
    (l.map Nat.cast).foldlM step cnt = some (cnt + ((l.flatMap places).countP P : ℤ)) := by
  induction l generalizing cnt with
  | nil => simp
  | cons i l ih =>
      rw [List.map_cons, List.foldlM_cons, hstep cnt i (List.mem_cons_self ..), Option.bind_eq_bind,
        Option.bind_some, ih (fun cnt j hj => hstep cnt j (List.mem_cons_of_mem i hj)), List.flatMap_cons,
        List.countP_append]
      push_cast
      congr 1
      ring

/-- The loop over bits. -/
theorem countBits_eq {a b : ℕ} (hb : b < 8 * data.length) :
    (positions a b).foldlM (countBit data) 0 =
      some ((List.range' a (b + 1 - a)).countP (bit data) : ℤ) := by
  have hloop := foldlM_countP (bit data) (fun p => [p]) (countBit data) (List.range' a (b + 1 - a))
    (fun cnt p hp => ?_) 0
  · rw [positions_natCast, hloop, List.flatMap_singleton', zero_add]
  · rw [List.mem_range'_1] at hp
    rw [countBit_natCast cnt (by omega), List.countP_singleton]
    cases bit data p <;> rfl

/-- The loop over bytes counts the same bits. -/
theorem countBytes_eq {a b : ℕ} (hb : b < data.length) :
    (positions a b).foldlM (countByte data) 0 =
      some ((List.range' (8 * a) (8 * (b + 1 - a))).countP (bit data) : ℤ) := by
  have hloop := foldlM_countP (bit data) (fun i => List.range' (8 * i) 8) (countByte data)
    (List.range' a (b + 1 - a)) (fun cnt i hi => ?_) 0
  · rw [positions_natCast, hloop, flatMap_byte, zero_add]
  · rw [List.mem_range'_1] at hi
    exact countByte_natCast cnt (by omega)

/-- How many places of an interval have a property. -/
theorem ncard_interval (P : ℕ → Bool) (a n : ℕ) :
    {p : ℕ | (a ≤ p ∧ p < a + n) ∧ P p = true}.ncard = (List.range' a n).countP P := by
  have hset : {p : ℕ | (a ≤ p ∧ p < a + n) ∧ P p = true} = ↑((List.range' a n).filter P).toFinset := by
    ext p
    simp [List.mem_range'_1]
  have hnodup : (List.range' a n).Nodup := List.nodup_range'
  rw [hset, Set.ncard_coe_finset, List.toFinset_card_of_nodup (hnodup.filter P),
    List.countP_eq_length_filter]

/-- The set bits of a range. -/
def setBits (data : Bytes) (start stop : ℤ) (useBit : Bool) : Set ℕ :=
  {p | BitInRange data.length start stop useBit p ∧ bit data p = true}

/-- What the two loops of `BITCOUNT` make of a resolved range. -/
theorem count_loop {a b : ℕ} (hab : a ≤ b)
    (hb : b < places data.length useBit)
    (h : ∀ p, BitInRange data.length start stop useBit p ↔
      (if useBit then a else 8 * a) ≤ p ∧ p < if useBit then b + 1 else 8 * (b + 1)) :
    (positions a b).foldlM (if useBit then countBit data else countByte data) 0 =
      some ((setBits data start stop useBit).ncard : ℤ) := by
  cases useBit with
  | true =>
      have hset : setBits data start stop true =
          {p | (a ≤ p ∧ p < a + (b + 1 - a)) ∧ bit data p = true} := by
        ext p
        have hend : a + (b + 1 - a) = b + 1 := by omega
        simp only [setBits, Set.mem_ofPred_eq, h p, if_true, hend]
      simp only [if_true]
      rw [countBits_eq hb, hset, ncard_interval]
  | false =>
      have hset : setBits data start stop false =
          {p | (8 * a ≤ p ∧ p < 8 * a + 8 * (b + 1 - a)) ∧ bit data p = true} := by
        ext p
        have hend : 8 * a + 8 * (b + 1 - a) = 8 * (b + 1) := by omega
        simp only [setBits, Set.mem_ofPred_eq, h p, Bool.false_eq_true, if_false, hend]
      simp only [Bool.false_eq_true, if_false]
      rw [countBytes_eq hb, hset, ncard_interval]

theorem setBits_finite (data : Bytes) (start stop : ℤ) (useBit : Bool) :
    (setBits data start stop useBit).Finite := by
  refine (Set.finite_lt_nat (8 * data.length)).subset fun p hp => ?_
  have hlt : p / 8 < data.length := lt_of_bit hp.2
  exact Set.mem_ofPred_eq ▸ (by omega : p < 8 * data.length)

theorem ncard_setBits_of_empty
    (h : ∀ p, ¬ BitInRange data.length start stop useBit p) :
    (setBits data start stop useBit).ncard = 0 := by
  have hempty : setBits data start stop useBit = ∅ := Set.eq_empty_of_forall_notMem fun p hp => h p hp.1
  rw [hempty, Set.ncard_empty]

theorem places_cast (n : ℕ) (useBit : Bool) :
    (if useBit then (n : ℤ) * 8 else n) = places n useBit := by
  cases useBit
  · rfl
  · exact (mul_comm (n : ℤ) 8).trans (Nat.cast_mul 8 n).symm

section bitcount
variable [Float64 S]

/-- What `BITCOUNT` answers. -/
def bitcount (e : Env) (d : DB S) (key : Bytes) (start stop : ℤ) (useBit : Bool) :
    Except Failure (Reply S) :=
  ((Cmd.bitCount key start stop useBit : Cmd S).exec e d).1

theorem exec_bitCount (start stop : ℤ) (useBit : Bool) :
    (Cmd.bitCount key start stop useBit : Cmd S).exec e d =
      (.ok (.int (setBits (stringOf e.now d key) start stop useBit).ncard), d) := by
  refine Cmd.exec_eq_of_total ?_
  have hdata : (liveString e.now d (encodeKey key)).getD [] = stringOf e.now d key := rfl
  rw [Cmd.op, total_map, Postkeys.bitCount, total_bind, total_query, totalSql_selectString]
  simp only [hdata, places_cast]
  generalize stringOf e.now d key = data
  rcases resolve_cases data.length start stop useBit with ⟨hlt, hnone⟩ | ⟨a, b, hr, hab, hb, hrange⟩
  · rw [ncard_setBits_of_empty hnone, if_pos hlt, ite_self]
    exact ⟨rfl, rfl⟩
  · have hne : ¬ data.length = 0 := by
      intro h0
      rw [h0] at hb
      cases useBit <;> exact Nat.not_lt_zero _ hb
    simp only [hr]
    rw [if_neg hne, if_neg (by omega), count_loop hab hb hrange]
    exact ⟨rfl, rfl⟩

/-- **`BITCOUNT` counts** the positions of its range at which `GETBIT` answers one; so ranges that make
up another one, without a common position, add up to it. -/
theorem bitcount_counts (e : Env) (d : DB S) (key : Bytes) (useBit : Bool) :
    (∀ start stop, (Cmd.bitCount key start stop useBit : Cmd S).exec e d =
      (.ok (.int {p | BitInRange (stringOf e.now d key).length start stop useBit p ∧
        getbit e d key p = .ok (.int 1)}.ncard), d)) ∧
    ∀ start₁ stop₁ start₂ stop₂ start stop,
      (∀ p, BitInRange (stringOf e.now d key).length start stop useBit p ↔
        BitInRange (stringOf e.now d key).length start₁ stop₁ useBit p ∨
          BitInRange (stringOf e.now d key).length start₂ stop₂ useBit p) →
      (∀ p, ¬ (BitInRange (stringOf e.now d key).length start₁ stop₁ useBit p ∧
        BitInRange (stringOf e.now d key).length start₂ stop₂ useBit p)) →
      ∃ m n, bitcount e d key start₁ stop₁ useBit = .ok (.int m) ∧
        bitcount e d key start₂ stop₂ useBit = .ok (.int n) ∧
        bitcount e d key start stop useBit = .ok (.int (m + n)) := by
  constructor
  · intro start stop
    simp only [exec_bitCount, getbit_eq_one, setBits]
  · intro start₁ stop₁ start₂ stop₂ start stop hunion hdisjoint
    have hset : setBits (stringOf e.now d key) start stop useBit =
        setBits (stringOf e.now d key) start₁ stop₁ useBit ∪
          setBits (stringOf e.now d key) start₂ stop₂ useBit := by
      ext p
      simp only [setBits, Set.mem_union, Set.mem_ofPred_eq, hunion p, or_and_right]
    have hdis : Disjoint (setBits (stringOf e.now d key) start₁ stop₁ useBit)
        (setBits (stringOf e.now d key) start₂ stop₂ useBit) :=
      Set.disjoint_left.mpr fun p hp₁ hp₂ => hdisjoint p ⟨hp₁.1, hp₂.1⟩
    refine ⟨(setBits (stringOf e.now d key) start₁ stop₁ useBit).ncard,
      (setBits (stringOf e.now d key) start₂ stop₂ useBit).ncard, ?_, ?_, ?_⟩
    · rw [bitcount, exec_bitCount]
    · rw [bitcount, exec_bitCount]
    · rw [bitcount, exec_bitCount, hset, Set.ncard_union_eq hdis (setBits_finite _ _ _ _)
        (setBits_finite _ _ _ _), Nat.cast_add]

end bitcount

/-! ### Searching -/

/-- The position holds the bit `b`. -/
def holdsBit (data : Bytes) (b : ℤ) (p : ℕ) : Bool := decide (((bit data p).toNat : ℤ) = b)

theorem bitVal_natCast (b : UInt8) {i : ℕ} (hi : i < 8) :
    bitVal b (i : ℤ) = (b.toNat.testBit i).toNat := by
  rw [bitVal, byteBit_natCast b hi]
  cases b.toNat.testBit i <;> rfl

theorem findBit_natCast {p : ℕ} (b : ℤ) (h : p / 8 < data.length) :
    findBit data b p = some (([p].find? (holdsBit data b)).map Nat.cast) := by
  obtain ⟨x, hbyte, hbit⟩ := byteAt_bit h
  rw [findBit, hbyte, Option.bind_eq_bind, Option.bind_some, bitVal, hbit, List.find?_singleton]
  have hval : (if bit data p = true then (1 : ℤ) else 0) = ((bit data p).toNat : ℤ) := by
    cases bit data p <;> rfl
  rw [hval, holdsBit]
  split <;> simp_all

theorem findInByte_natCast {i : ℕ} (b : ℤ) (h : i < data.length) :
    findInByte data b i = some (((List.range' (8 * i) 8).find? (holdsBit data b)).map Nat.cast) := by
  have hget : data[i]? = some data[i] := List.getElem?_eq_getElem h
  have hbit (j : ℕ) (hj : j < 8) : holdsBit data b (8 * i + j) =
      decide (bitVal data[i] ((7 - j : ℕ) : ℤ) = b) := by
    have hdiv : (8 * i + j) / 8 = i := by omega
    have hmod : (8 * i + j) % 8 = j := by omega
    rw [holdsBit, bit_of_getElem? (b := data[i]) (by rw [hdiv]; exact hget), hmod,
      bitVal_natCast _ (by omega)]
  have hplaces : List.range' (8 * i) 8 = [7, 6, 5, 4, 3, 2, 1, 0].map fun j => 8 * i + (7 - j) := rfl
  have hindices : ([7, 6, 5, 4, 3, 2, 1, 0] : List ℤ) = ([7, 6, 5, 4, 3, 2, 1, 0] : List ℕ).map Nat.cast := rfl
  rw [findInByte, byteAt_natCast, hget, Option.bind_eq_bind, Option.bind_some, hplaces, hindices,
    List.find?_map, List.find?_map, Option.map_map, Option.map_map]
  have hmem (j : ℕ) (hj : j ∈ [7, 6, 5, 4, 3, 2, 1, 0]) : j < 8 := by
    simp only [List.mem_cons, List.not_mem_nil, or_false] at hj
    omega
  have hfind : [7, 6, 5, 4, 3, 2, 1, 0].find? (holdsBit data b ∘ fun j => 8 * i + (7 - j)) =
      [7, 6, 5, 4, 3, 2, 1, 0].find? ((fun j => decide (bitVal data[i] j = b)) ∘ Nat.cast) := by
    refine List.find?_congr fun j hj => ?_
    have hback : 7 - (7 - j) = j := by have := hmem j hj; omega
    rw [Function.comp_apply, hbit (7 - j) (by omega), hback]
    rfl
  rw [hfind]
  cases hj : [7, 6, 5, 4, 3, 2, 1, 0].find? ((fun j => decide (bitVal data[i] j = b)) ∘ Nat.cast) with
  | none => rfl
  | some j =>
      have hlt := hmem j (List.mem_of_find?_eq_some hj)
      have hpos : ((8 * i + (7 - j) : ℕ) : ℤ) = (i : ℤ) * 8 + (7 - j) := by omega
      exact congrArg (fun x => some (some x)) hpos.symm

/-- A loop that searches, in every round, some places. -/
theorem findSomeM?_find (P : ℕ → Bool) (places : ℕ → List ℕ) (step : ℤ → Option (Option ℤ)) (l : List ℕ)
    (hstep : ∀ i ∈ l, step i = some (((places i).find? P).map Nat.cast)) :
    (l.map Nat.cast).findSomeM? step = some (((l.flatMap places).find? P).map Nat.cast) := by
  induction l with
  | nil => rfl
  | cons i l ih =>
      rw [List.map_cons, List.findSomeM?, hstep i (List.mem_cons_self ..), List.flatMap_cons,
        List.find?_append, Option.bind_eq_bind, Option.bind_some]
      cases (places i).find? P with
      | none =>
          rw [Option.map_none, Option.none_or]
          exact ih fun j hj => hstep j (List.mem_cons_of_mem i hj)
      | some p => rfl

/-- What the two loops of `BITPOS` make of a resolved range. -/
theorem find_loop {a b : ℕ} (v : ℤ) (hab : a ≤ b)
    (hb : b < places data.length useBit) :
    (positions a b).findSomeM? (if useBit then findBit data v else findInByte data v) =
      some (((List.range' (if useBit then a else 8 * a)
        ((if useBit then b + 1 else 8 * (b + 1)) - if useBit then a else 8 * a)).find?
          (holdsBit data v)).map Nat.cast) := by
  cases useBit with
  | true =>
      have hloop := findSomeM?_find (holdsBit data v) (fun p => [p]) (findBit data v)
        (List.range' a (b + 1 - a)) fun p hp => ?_
      · simp only [if_true]
        rw [positions_natCast, hloop, List.flatMap_singleton']
      · rw [List.mem_range'_1] at hp
        simp only [places, if_true] at hb
        exact findBit_natCast v (by omega)
  | false =>
      have hloop := findSomeM?_find (holdsBit data v) (fun i => List.range' (8 * i) 8) (findInByte data v)
        (List.range' a (b + 1 - a)) fun i hi => ?_
      · have hlen : 8 * (b + 1) - 8 * a = 8 * (b + 1 - a) := by omega
        simp only [Bool.false_eq_true, if_false]
        rw [positions_natCast, hloop, flatMap_byte, hlen]
      · rw [List.mem_range'_1] at hi
        simp only [places, Bool.false_eq_true, if_false] at hb
        exact findInByte_natCast v (by omega)

section bitpos
variable [Float64 S] {b start stop : ℤ} {useBit : Bool}

/-- The first position of the range that holds the bit is the answer. -/
theorem exec_bitPos_found {p : ℕ} (hp : BitInRange (stringOf e.now d key).length start stop useBit p)
    (hbit : holdsBit (stringOf e.now d key) b p = true)
    (hmin : ∀ q < p, BitInRange (stringOf e.now d key).length start stop useBit q →
      holdsBit (stringOf e.now d key) b q = false) :
    (Cmd.bitPos key b start stop useBit : Cmd S).exec e d = (.ok (.int p), d) := by
  refine Cmd.exec_eq_of_total ?_
  have hdata : (liveString e.now d (encodeKey key)).getD [] = stringOf e.now d key := rfl
  rw [Cmd.op, total_map, Postkeys.bitPos, total_bind, total_query, totalSql_selectString]
  simp only [hdata, places_cast]
  generalize stringOf e.now d key = data at hp hbit hmin ⊢
  rcases resolve_cases data.length start stop useBit with ⟨hlt, hnone⟩ | ⟨x, y, hr, hxy, hy, hrange⟩
  · exact absurd hp (hnone p)
  · have hne : ¬ data.length = 0 := by
      intro h0
      rw [h0] at hy
      cases useBit <;> exact Nat.not_lt_zero _ hy
    have hfind : (List.range' (if useBit then x else 8 * x)
        ((if useBit then y + 1 else 8 * (y + 1)) - if useBit then x else 8 * x)).find? (holdsBit data b) =
          some p := by
      have hbounds := (hrange p).mp hp
      refine List.find?_range'_eq_some.mpr ⟨hbit, List.mem_range'_1.mpr (by omega), fun q hq hlt => ?_⟩
      rw [hmin q hlt ((hrange q).mpr ⟨hq, by omega⟩)]
      rfl
    simp only [hr]
    rw [if_neg hne, find_loop b hxy hy, hfind]
    exact ⟨rfl, rfl⟩

/-- What is answered when no position of the range holds the bit. -/
theorem exec_bitPos_none (hne : stringOf e.now d key ≠ [])
    (hnone : ∀ p, BitInRange (stringOf e.now d key).length start stop useBit p →
      holdsBit (stringOf e.now d key) b p = false) :
    (Cmd.bitPos key b start stop useBit : Cmd S).exec e d =
      (.ok (.int (if useBit = false ∧ b = 0 ∧
        (clampRange (stringOf e.now d key).length start stop).2 < (stringOf e.now d key).length - 1 then
          int64 (((clampRange (stringOf e.now d key).length start stop).2 + 1) * 8) else -1)), d) := by
  refine Cmd.exec_eq_of_total ?_
  have hdata : (liveString e.now d (encodeKey key)).getD [] = stringOf e.now d key := rfl
  rw [Cmd.op, total_map, Postkeys.bitPos, total_bind, total_query, totalSql_selectString]
  simp only [hdata, places_cast]
  generalize stringOf e.now d key = data at hne hnone ⊢
  have hlen : ¬ data.length = 0 := fun h => hne (List.length_eq_zero_iff.mp h)
  have hfind : (positions (clampRange (places data.length useBit) start stop).1
      (clampRange (places data.length useBit) start stop).2).findSomeM?
        (if useBit then findBit data b else findInByte data b) = some none := by
    rcases resolve_cases data.length start stop useBit with ⟨hlt, -⟩ | ⟨x, y, hr, hxy, hy, hrange⟩
    · rw [positions_of_lt hlt]
      rfl
    · rw [hr, find_loop b hxy hy, List.find?_range'_eq_none.mpr fun p hp hlt => ?_]
      · rfl
      · rw [hnone p ((hrange p).mpr ⟨hp, by omega⟩)]
        rfl
  rw [if_neg hlen, hfind]
  dsimp only
  rw [total_ite]
  cases useBit with
  | true => exact ⟨fun h => absurd h.1 (by decide), fun _ => ⟨rfl, rfl⟩⟩
  | false =>
      have hplaces : places data.length false = data.length := rfl
      rw [hplaces]
      refine ⟨fun h => ?_, fun h => ?_⟩
      · rw [if_pos h]
        exact ⟨rfl, rfl⟩
      · rw [if_neg h]
        exact ⟨rfl, rfl⟩

end bitpos

section command
variable [GoFloat S]

/-- `BITPOS` finds the first bit: the least position of the range at which `GETBIT` answers `b`; if
there is none, it answers `-1`, or the number of bits when a zero bit was looked for without an end of
the range.  A position inside the string that is answered holds the bit. -/
def BitposFinds (e : Env) (sc : ScriptCache) (d : DB S) (key bitArg : Bytes) (range : List Bytes)
    (b start stop : ℤ) (useBit : Bool) : Prop :=
  let n := (stringOf e.now d key).length
  let answer := ((Handlers.bitposOp (key :: bitArg :: range) : Proc S).direct e sc d).1
  let Holds := fun p => BitInRange n start stop useBit p ∧ getbit e d key p = .ok (.int b)
  (∀ p, Holds p → (∀ q < p, ¬ Holds q) → answer = .ok (.int p)) ∧
  ((∀ p, ¬ Holds p) → answer = .ok (.int (if b = 0 ∧ range.length < 2 then 8 * n else -1))) ∧
  ∀ p : ℕ, p < 8 * n → answer = .ok (.int p) → getbit e d key p = .ok (.int b)

theorem getbit_eq_bit {b : ℤ} {p : ℕ} :
    getbit e d key p = .ok (.int b) ↔ holdsBit (stringOf e.now d key) b p = true := by
  rw [getbit_eq, holdsBit, decide_eq_true_eq]
  exact ⟨fun h => Reply.int.inj (Except.ok.inj h), fun h => h ▸ rfl⟩

theorem bitposOp_eq {bitArg : Bytes} {range : List Bytes} {b start stop : ℤ}
    (hb : (parseInt bitArg).filter (fun b => b = 0 ∨ b = 1) = some b)
    (hrange : Handlers.bitposRange range = some (start, stop))
    (hunit : (range.drop 2).head?.elim (some false) Handlers.bitUnit = some useBit) :
    (Handlers.bitposOp (key :: bitArg :: range) : Proc S) =
      Proc.answerTyped (.bitPos key b start stop useBit) := by
  rw [Handlers.bitposOp, hb, hrange, hunit]
  rfl

/-- Without an end, the range is one of bytes up to the last. -/
theorem bitposRange_open {range : List Bytes}
    (hrange : Handlers.bitposRange range = some (start, stop))
    (hunit : (range.drop 2).head?.elim (some false) Handlers.bitUnit = some useBit)
    (hopen : range.length < 2) : stop = -1 ∧ useBit = false := by
  match range with
  | [] =>
      cases hrange
      cases hunit
      exact ⟨rfl, rfl⟩
  | [x] =>
      cases hunit
      cases hx : parseInt x with
      | none =>
          rw [Handlers.bitposRange, hx] at hrange
          cases hrange
      | some n =>
          rw [Handlers.bitposRange, hx] at hrange
          cases hrange
          exact ⟨rfl, rfl⟩
  | _ :: _ :: _ => simp at hopen

/-- The position behind a range of bytes is not `-1`, whatever the arithmetic makes of it. -/
theorem int64_mul_eight_ne (x : ℤ) : int64 (x * 8) ≠ -1 := by
  rw [int64, Int.bmod_def]
  omega

theorem exists_least {P : ℕ → Prop} (h : ¬ ∀ p, ¬ P p) : ∃ p, P p ∧ ∀ q < p, ¬ P q := by
  classical
  have hex : ∃ p, P p := not_forall_not.mp h
  exact ⟨Nat.find hex, Nat.find_spec hex, fun q hq => Nat.find_min hex hq⟩

theorem clampRange_stop_lt (n : ℕ) (start stop : ℤ) :
    (clampRange n start stop).2 < n - 1 ↔ fromEnd n stop < n - 1 := by
  simp only [clampRange, fromEnd]
  split_ifs <;> omega

/-- **`BITPOS` finds the first bit** exactly if it looks for a one, looks in a range of bits, finds a
zero in the range, or was given an end of the range that takes in the last byte. -/
theorem bitpos_finds_iff (e : Env) (sc : ScriptCache) (d : DB S) (key bitArg : Bytes) (range : List Bytes)
    (b start stop : ℤ) (useBit : Bool) (hne : stringOf e.now d key ≠ [])
    (hb : (parseInt bitArg).filter (fun b => b = 0 ∨ b = 1) = some b)
    (hrange : Handlers.bitposRange range = some (start, stop))
    (hunit : (range.drop 2).head?.elim (some false) Handlers.bitUnit = some useBit) :
    BitposFinds e sc d key bitArg range b start stop useBit ↔
      b = 1 ∨ useBit = true ∨
      (∃ p, BitInRange (stringOf e.now d key).length start stop useBit p ∧
        getbit e d key p = .ok (.int 0)) ∨
      (2 ≤ range.length ∧ (stringOf e.now d key).length - 1 ≤ fromEnd (stringOf e.now d key).length stop) := by
  have hlen : 0 < (stringOf e.now d key).length := List.length_pos_iff.mpr hne
  have hb01 : b = 0 ∨ b = 1 := by
    obtain ⟨-, hfilter⟩ := Option.filter_eq_some_iff.mp hb
    exact of_decide_eq_true hfilter
  have hanswer (r : Reply S) (h : (Cmd.bitPos key b start stop useBit : Cmd S).exec e d = (.ok r, d)) :
      ((Handlers.bitposOp (key :: bitArg :: range) : Proc S).direct e sc d).1 = .ok r.toValue := by
    rw [bitposOp_eq hb hrange hunit, Proc.direct_answerTyped h]
  have hfound (p : ℕ) (hp : BitInRange (stringOf e.now d key).length start stop useBit p ∧
      getbit e d key p = .ok (.int b))
      (hmin : ∀ q < p, ¬ (BitInRange (stringOf e.now d key).length start stop useBit q ∧
        getbit e d key q = .ok (.int b))) :
      ((Handlers.bitposOp (key :: bitArg :: range) : Proc S).direct e sc d).1 = .ok (.int p) := by
    refine hanswer (.int p) (exec_bitPos_found hp.1 (getbit_eq_bit.mp hp.2) fun q hq hin => ?_)
    by_contra hbit
    exact hmin q hq ⟨hin, getbit_eq_bit.mpr (Bool.not_eq_false _ ▸ hbit)⟩
  have hmissing (hno : ∀ p, ¬ (BitInRange (stringOf e.now d key).length start stop useBit p ∧
      getbit e d key p = .ok (.int b))) :
      ((Handlers.bitposOp (key :: bitArg :: range) : Proc S).direct e sc d).1 =
        .ok (.int (if useBit = false ∧ b = 0 ∧ fromEnd (stringOf e.now d key).length stop <
            (stringOf e.now d key).length - 1 then
          int64 (((clampRange (stringOf e.now d key).length start stop).2 + 1) * 8) else -1)) := by
    refine hanswer (.int _) ?_
    rw [exec_bitPos_none hne fun p hin => ?_]
    · simp only [clampRange_stop_lt]
    · by_contra hbit
      exact hno p ⟨hin, getbit_eq_bit.mpr (Bool.not_eq_false _ ▸ hbit)⟩
  constructor
  · rintro ⟨-, hnone, -⟩
    by_contra hcond
    simp only [not_or, not_and, not_exists, Bool.not_eq_true] at hcond
    obtain ⟨hb1, hbytes, hzero, hend⟩ := hcond
    have hb0 : b = 0 := hb01.resolve_right hb1
    subst hb0
    have hno (p : ℕ) : ¬ (BitInRange (stringOf e.now d key).length start stop useBit p ∧
        getbit e d key p = .ok (.int 0)) := fun hp => hzero p hp.1 hp.2
    have hreply := congrArg Value.num (Except.ok.inj ((hmissing hno).symm.trans (hnone hno)))
    dsimp only [Value.int] at hreply
    by_cases hopen : range.length < 2
    · obtain ⟨rfl, -⟩ := bitposRange_open hrange hunit hopen
      rw [if_neg fun h => ?_, if_pos ⟨rfl, hopen⟩] at hreply
      · omega
      · have hlast := h.2.2
        rw [fromEnd, if_pos (by decide)] at hlast
        omega
    · rw [if_pos ⟨hbytes, rfl, not_le.mp (hend (by omega))⟩, if_neg fun h => hopen h.2] at hreply
      exact int64_mul_eight_ne _ hreply
  · intro hcond
    have hright (hno : ∀ p, ¬ (BitInRange (stringOf e.now d key).length start stop useBit p ∧
        getbit e d key p = .ok (.int b))) :
        ((Handlers.bitposOp (key :: bitArg :: range) : Proc S).direct e sc d).1 = .ok (.int (-1)) ∧
          ¬ (b = 0 ∧ range.length < 2) := by
      rw [hmissing hno]
      rcases hcond with rfl | rfl | ⟨p, hin, hzero⟩ | ⟨hclosed, hend⟩
      · exact ⟨by rw [if_neg fun h => absurd h.2.1 (by decide)], fun h => absurd h.1 (by decide)⟩
      · refine ⟨by rw [if_neg fun h => absurd h.1 (by decide)], fun h => ?_⟩
        exact absurd (bitposRange_open hrange hunit h.2).2 (by decide)
      · rcases hb01 with rfl | rfl
        · exact absurd ⟨hin, hzero⟩ (hno p)
        · exact ⟨by rw [if_neg fun h => absurd h.2.1 (by decide)], fun h => absurd h.1 (by decide)⟩
      · exact ⟨by rw [if_neg fun h => absurd h.2.2 (not_lt.mpr hend)], fun h => by omega⟩
    refine ⟨hfound, fun hno => ?_, fun p hp hans => ?_⟩
    · rw [if_neg (hright hno).2, (hright hno).1]
    · by_cases hno : ∀ p, ¬ (BitInRange (stringOf e.now d key).length start stop useBit p ∧
          getbit e d key p = .ok (.int b))
      · have hnum := congrArg Value.num (Except.ok.inj ((hright hno).1.symm.trans hans))
        dsimp only [Value.int] at hnum
        omega
      · -- the position that was answered is the least one that holds the bit
        obtain ⟨q, hq, hmin⟩ := exists_least hno
        have hnum := congrArg Value.num (Except.ok.inj ((hfound q hq hmin).symm.trans hans))
        dsimp only [Value.int] at hnum
        obtain rfl : q = p := by omega
        exact hq.2

end command

/-- `BITPOS flags 0` on the bytes `FF 0F`. -/
theorem bitpos_finds_eight : BitposFinds (envAt 0) ∅ (oneString (utf8 "flags") [0xFF, 0x0F]) (utf8 "flags")
    (utf8 "0") [] 0 0 (-1) false := by
  have hstring : stringOf (envAt 0).now (oneString (utf8 "flags") [0xFF, 0x0F]) (utf8 "flags") = [0xFF, 0x0F] :=
    stringOf_oneString _
  refine (bitpos_finds_iff (envAt 0) ∅ _ (utf8 "flags") (utf8 "0") [] 0 0 (-1) false ?_ (by decide)
    rfl rfl).mpr (Or.inr (Or.inr (Or.inl ⟨8, ?_, ?_⟩)))
  · rw [hstring]
    decide
  · rw [hstring]
    exact ⟨by decide, by decide, by decide⟩
  · rw [getbit_eq_zero, hstring]
    decide

/-- On the bytes `FF FF`, `BITPOS ones 0 0 0` answers position 8, which holds a one. -/
theorem bitpos_behind_range :
    ((Handlers.bitposOp [utf8 "ones", utf8 "0", utf8 "0", utf8 "0"] : Proc ℤ).direct (envAt 0) ∅
      (oneString (utf8 "ones") [0xFF, 0xFF])).1 = .ok (.int 8) ∧
    getbit (envAt 0) (oneString (utf8 "ones") [0xFF, 0xFF]) (utf8 "ones") 8 = .ok (.int 1) := by
  have hstring : stringOf (envAt 0).now (oneString (utf8 "ones") [0xFF, 0xFF]) (utf8 "ones") = [0xFF, 0xFF] :=
    stringOf_oneString _
  have hnone : (Cmd.bitPos (utf8 "ones") 0 0 0 false : Cmd ℤ).exec (envAt 0)
      (oneString (utf8 "ones") [0xFF, 0xFF]) = (.ok (.int 8), oneString (utf8 "ones") [0xFF, 0xFF]) := by
    rw [exec_bitPos_none (by rw [hstring]; decide) fun p hp => ?_, hstring]
    · rfl
    · rw [hstring] at hp ⊢
      have hfirst : ((p / 8 : ℕ) : ℤ) ≤ 0 := hp.2.1
      have hlt : p < 8 := by omega
      have hones : ∀ q < 8, holdsBit [0xFF, 0xFF] 0 q = false := by decide
      exact hones p hlt
  have hop : (Handlers.bitposOp [utf8 "ones", utf8 "0", utf8 "0", utf8 "0"] : Proc ℤ) =
      Proc.answerTyped (.bitPos (utf8 "ones") 0 0 0 false) := bitposOp_eq (by decide) (by decide) rfl
  constructor
  · rw [hop, Proc.direct_answerTyped hnone]
    rfl
  · rw [getbit_eq_one, hstring]
    decide

end Postkeys
