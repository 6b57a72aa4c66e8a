import Postkeys.Querier.Strings

/-! # Ranges given by indices

Commands on strings, bits and sorted sets take ranges by a first and a last index, negative ones counting
from the end.  `InRange` says which places lie in such a range, and `slice` is the part of a list in
these places.  Parts of a list in any places are taken by `partIn`; taking them and reversing the list can be
exchanged exactly if the places are the same from both ends (`partIn_reverse_iff`). -/

namespace Postkeys

/-- An index into `n` places: a negative one counts from the end. -/
def fromEnd (n : ℕ) (i : ℤ) : ℤ := if i < 0 then n + i else i

/-- Place `p` of `n` lies between two indices. -/
def InRange (n : ℕ) (start stop : ℤ) (p : ℕ) : Prop :=
  fromEnd n start ≤ p ∧ p ≤ fromEnd n stop ∧ p < n

/-- The code resolves a range as `InRange` says. -/
theorem clampRange_spec (n : ℕ) (start stop : ℤ) :
    0 ≤ (clampRange n start stop).1 ∧ (clampRange n start stop).2 < n ∧
      ∀ p : ℕ, InRange n start stop p ↔
        (clampRange n start stop).1 ≤ p ∧ p ≤ (clampRange n start stop).2 := by
  simp only [clampRange, InRange, fromEnd]
  refine ⟨by split_ifs <;> omega, by split_ifs <;> omega, fun p => ?_⟩
  split_ifs <;> omega

instance decidableInRange (n : ℕ) (start stop : ℤ) (p : ℕ) : Decidable (InRange n start stop p) :=
  inferInstanceAs (Decidable (_ ∧ _ ∧ _))

variable {α : Type*}

/-- The part of a list in a range. -/
def slice (v : List α) (start stop : ℤ) : List α :=
  ((List.range v.length).filter fun i => InRange v.length start stop i).filterMap (v[·]?)

theorem filterMap_range' (v : List α) (a n : ℕ) (h : a + n ≤ v.length) :
    (List.range' a n).filterMap (v[·]?) = (v.drop a).take n := by
  induction n generalizing a with
  | zero => rfl
  | succ n ih =>
      have hget : v[a]? = some v[a] := List.getElem?_eq_getElem (by omega)
      have hdrop : v.drop a = v[a] :: v.drop (a + 1) := List.drop_eq_getElem_cons (by omega)
      rw [List.range'_succ, List.filterMap_cons, hget, ih (a + 1) (by omega), hdrop, List.take_succ_cons]

theorem filter_range {n a b : ℕ} {P : ℕ → Bool} (hab : a ≤ b) (hb : b < n)
    (h : ∀ p, P p = true ↔ a ≤ p ∧ p ≤ b) : (List.range n).filter P = List.range' a (b + 1 - a) := by
  have hsplit : List.range n =
      List.range' 0 a ++ (List.range' a (b + 1 - a) ++ List.range' (b + 1) (n - (b + 1))) := by
    have hright : List.range' a (b + 1 - a) ++ List.range' (a + 1 * (b + 1 - a)) (n - (b + 1)) =
        List.range' a (b + 1 - a + (n - (b + 1))) := List.range'_append
    have hleft : List.range' 0 a ++ List.range' (0 + 1 * a) (b + 1 - a + (n - (b + 1))) =
        List.range' 0 (a + (b + 1 - a + (n - (b + 1)))) := List.range'_append
    have hmid : a + 1 * (b + 1 - a) = b + 1 := by omega
    have hfirst : 0 + 1 * a = a := by omega
    have hall : a + (b + 1 - a + (n - (b + 1))) = n := by omega
    rw [hmid] at hright
    rw [hfirst, hall] at hleft
    rw [List.range_eq_range', hright, hleft]
  have hbefore : (List.range' 0 a).filter P = [] := by
    refine List.filter_eq_nil_iff.mpr fun p hp => ?_
    rw [List.mem_range'_1] at hp
    rw [h]
    omega
  have hinside : (List.range' a (b + 1 - a)).filter P = List.range' a (b + 1 - a) := by
    refine List.filter_eq_self.mpr fun p hp => ?_
    rw [List.mem_range'_1] at hp
    rw [h]
    omega
  have hbehind : (List.range' (b + 1) (n - (b + 1))).filter P = [] := by
    refine List.filter_eq_nil_iff.mpr fun p hp => ?_
    rw [List.mem_range'_1] at hp
    rw [h]
    omega
  rw [hsplit, List.filter_append, List.filter_append, hbefore, hinside, hbehind, List.nil_append, List.append_nil]

theorem slice_eq {v : List α} {start stop : ℤ} {a b : ℕ} (hab : a ≤ b) (hb : b < v.length)
    (h : ∀ p, InRange v.length start stop p ↔ a ≤ p ∧ p ≤ b) :
    slice v start stop = (v.take (b + 1)).drop a := by
  rw [slice, filter_range hab hb fun p => decide_eq_true_iff.trans (h p), filterMap_range' v a _ (by omega),
    List.drop_take]

theorem slice_eq_nil {v : List α} {start stop : ℤ} (h : ∀ p, ¬ InRange v.length start stop p) :
    slice v start stop = [] := by
  have hfilter : (List.range v.length).filter (fun i => decide (InRange v.length start stop i)) = [] :=
    List.filter_eq_nil_iff.mpr fun p _ hp => h p (of_decide_eq_true hp)
  rw [slice, hfilter, List.filterMap_nil]

/-- The part of a list in a range, by the indices the code resolves it to. -/
theorem slice_clampRange (v : List α) (start stop : ℤ) :
    slice v start stop = if (clampRange v.length start stop).1 ≤ (clampRange v.length start stop).2 then
      (v.drop (clampRange v.length start stop).1.toNat).take
        ((clampRange v.length start stop).2 - (clampRange v.length start stop).1 + 1).toNat
      else [] := by
  obtain ⟨h0, hlen, hrange⟩ := clampRange_spec v.length start stop
  split
  · rename_i hle
    rw [slice_eq (a := (clampRange v.length start stop).1.toNat) (b := (clampRange v.length start stop).2.toNat)
      (by omega) (by omega) fun p => ?_]
    · rw [List.drop_take]
      congr 1
      omega
    · rw [hrange p]
      omega
  · rename_i hlt
    refine slice_eq_nil fun p hp => ?_
    have hbounds := (hrange p).mp hp
    omega

/-! ### Mirrored places -/

section parts
variable {P : ℕ → Prop} [DecidablePred P] {v : List α}

/-- The part of a list in the places `P`. -/
def partIn (P : ℕ → Prop) [DecidablePred P] (v : List α) : List α :=
  ((List.range v.length).filter fun i => P i).filterMap (v[·]?)

theorem slice_eq_partIn (v : List α) (start stop : ℤ) : slice v start stop = partIn (InRange v.length start stop) v :=
  rfl

theorem mem_partIn {x : α} : x ∈ partIn P v ↔ ∃ p, P p ∧ v[p]? = some x := by
  rw [partIn, List.mem_filterMap]
  constructor
  · rintro ⟨p, hp, hx⟩
    exact ⟨p, of_decide_eq_true (List.mem_filter.mp hp).2, hx⟩
  · rintro ⟨p, hp, hx⟩
    obtain ⟨hlt, -⟩ := List.getElem?_eq_some_iff.mp hx
    exact ⟨p, List.mem_filter.mpr ⟨List.mem_range.mpr hlt, decide_eq_true hp⟩, hx⟩

/-- In a list without repetition an element has one place. -/
theorem mem_partIn_iff (hv : v.Nodup) {p : ℕ} {x : α} (hx : v[p]? = some x) : x ∈ partIn P v ↔ P p := by
  rw [mem_partIn]
  constructor
  · rintro ⟨q, hq, hqx⟩
    obtain ⟨hlt, -⟩ := List.getElem?_eq_some_iff.mp hx
    exact ((List.getElem?_inj hlt hv).mp (hx.trans hqx.symm)) ▸ hq
  · exact fun hp => ⟨p, hp, hx⟩

/-- The places are the same from both ends. -/
def Mirrored (n : ℕ) (P : ℕ → Prop) : Prop := ∀ p < n, (P p ↔ P (n - 1 - p))

theorem partIn_reverse (h : Mirrored v.length P) : partIn P v.reverse = (partIn P v).reverse := by
  have hrange : (List.range v.length).reverse = (List.range v.length).map fun p => v.length - 1 - p := by
    rw [List.range_eq_range', List.reverse_range', List.range_eq_range', Nat.zero_add]
  have hfilter : ((List.range v.length).map fun p => v.length - 1 - p).filter (fun i => decide (P i)) =
      ((List.range v.length).filter fun i => decide (P i)).map fun p => v.length - 1 - p := by
    rw [List.filter_map]
    congr 1
    refine List.filter_congr fun p hp => ?_
    exact decide_eq_decide.mpr (h p (List.mem_range.mp hp)).symm
  rw [partIn, partIn, List.length_reverse, ← List.filterMap_reverse, ← List.filter_reverse, hrange, hfilter,
    List.filterMap_map]
  refine List.filterMap_congr fun p hp => ?_
  have hlt := List.mem_range.mp (List.mem_filter.mp hp).1
  rw [Function.comp_apply, List.getElem?_reverse hlt]

/-- **Taking a part and reversing can be exchanged** exactly if the places are the same from both ends. -/
theorem partIn_reverse_iff (hv : v.Nodup) :
    partIn P v.reverse = (partIn P v).reverse ↔ Mirrored v.length P := by
  refine ⟨fun heq p hp => ?_, partIn_reverse⟩
  have hx : v[p]? = some v[p] := List.getElem?_eq_getElem hp
  have hx' : v.reverse[v.length - 1 - p]? = some v[p] := by
    rw [List.getElem?_reverse (by omega), ← hx]
    congr 1
    omega
  have hhere : v[p] ∈ partIn P v ↔ P p := mem_partIn_iff hv hx
  have hthere : v[p] ∈ partIn P v.reverse ↔ P (v.length - 1 - p) :=
    mem_partIn_iff (List.nodup_reverse.mpr hv) hx'
  rw [← hhere, ← hthere, heq, List.mem_reverse]

omit [DecidablePred P] in
/-- An interval is the same from both ends if it is empty or has its middle in the middle. -/
theorem mirrored_interval {n : ℕ} (lo hi : ℤ) (hlo : 0 ≤ lo) (hhi : hi < n)
    (hP : ∀ p < n, (P p ↔ lo ≤ p ∧ (p : ℤ) ≤ hi)) : Mirrored n P ↔ hi < lo ∨ lo + hi = n - 1 := by
  constructor
  · intro h
    by_contra hnot
    obtain ⟨hle, hsum⟩ := not_or.mp hnot
    have hfirst := (h lo.toNat (by omega)).mp ((hP _ (by omega)).mpr (by omega))
    have hlast := (h hi.toNat (by omega)).mp ((hP _ (by omega)).mpr (by omega))
    rw [hP _ (by omega)] at hfirst hlast
    omega
  · intro h p hp
    rw [hP p hp, hP _ (by omega)]
    omega

/-- What `LIMIT` and `OFFSET` leave. -/
theorem partIn_limit (v : List α) (offset cnt : ℕ) :
    partIn (fun p => offset ≤ p ∧ p < offset + cnt) v = (v.drop offset).take cnt := by
  rcases Nat.eq_zero_or_pos cnt with rfl | hcnt
  · rw [List.take_zero, List.eq_nil_iff_forall_not_mem]
    intro x hx
    obtain ⟨p, hp, -⟩ := mem_partIn.mp hx
    omega
  · rcases Nat.lt_or_ge offset v.length with hlt | hge
    · have hpart : partIn (fun p => offset ≤ p ∧ p < offset + cnt) v =
          (List.range' offset (min (offset + cnt) v.length - 1 + 1 - offset)).filterMap (v[·]?) := by
        rw [partIn]
        congr 1
        have hbound (p : ℕ) (hp : p ∈ List.range v.length) : decide (offset ≤ p ∧ p < offset + cnt) =
            decide (offset ≤ p ∧ p ≤ min (offset + cnt) v.length - 1) := by
          have := List.mem_range.mp hp
          exact decide_eq_decide.mpr (by omega)
        rw [List.filter_congr hbound]
        exact filter_range (by omega) (by omega) fun p => decide_eq_true_iff
      rw [hpart, filterMap_range' v _ _ (by omega)]
      rcases Nat.le_total (offset + cnt) v.length with hle | hle
      · rw [Nat.min_eq_left hle]
        congr 1
        omega
      · rw [Nat.min_eq_right hle, List.take_of_length_le (by rw [List.length_drop]; omega),
          List.take_of_length_le (by rw [List.length_drop]; omega)]
    · rw [List.drop_eq_nil_of_le hge, List.take_nil, List.eq_nil_iff_forall_not_mem]
      intro x hx
      obtain ⟨p, hp, hpx⟩ := mem_partIn.mp hx
      obtain ⟨hlt, -⟩ := List.getElem?_eq_some_iff.mp hpx
      omega

end parts

end Postkeys
