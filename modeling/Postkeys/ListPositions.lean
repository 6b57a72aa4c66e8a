import Postkeys.ListInsert

/-! # `LPOS`

`LPOS` looks for an element in a list, from the head or from the tail, skips matches and stops after so many.
`lposOf` says what it is to return, as a composition of `take`, `filter` and `drop`; the loop of the code is the same
composition over the rows as they are stored, always from the head (`lPosLoop_eq`).  `lpos_iff` says when the two
agree. -/

namespace Postkeys

open Relational Program

/-! ### Positions -/

section positions
variable {α : Type} {x : Bytes} {l : List Bytes}

/-- At most `n` elements, if `n` is positive. -/
def limitTo (n : ℤ) (l : List α) : List α := if 0 < n then l.take n.toNat else l

/-- The positions of an element, in the order of a scan that looks at no more than `m` elements. -/
def matchesOf (fromTail : Bool) (m : ℤ) (x : Bytes) (l : List Bytes) : List ℤ :=
  ((limitTo m (if fromTail then l.zipIdx.reverse else l.zipIdx)).filter fun p => p.1 = x).map fun p => (p.2 : ℤ)

/-- The positions that `LPOS` is to return: from the head for a positive rank `r`, from the tail for a negative one. -/
def lposOf (r c m : ℤ) (x : Bytes) (l : List Bytes) : List ℤ :=
  limitTo c ((matchesOf (decide (r < 0)) m x l).drop (r.natAbs - 1))

theorem limitTo_sublist (n : ℤ) (l : List α) : (limitTo n l).Sublist l := by
  unfold limitTo
  split
  · exact List.take_sublist _ _
  · exact List.Sublist.refl _

theorem limitTo_eq_nil_iff {n : ℤ} {l : List α} : limitTo n l = [] ↔ l = [] := by
  unfold limitTo
  split
  · rw [List.take_eq_nil_iff, or_iff_right (by omega)]
  · exact Iff.rfl

theorem length_limitTo_one (l : List α) : (limitTo 1 l).length ≤ 1 := List.length_take_le _ _

theorem getElem?_limitTo {n : ℤ} (hn : 0 ≤ n) (l : List α) (j : ℕ) :
    (limitTo n l)[j]? = if n = 0 ∨ (j : ℤ) < n then l[j]? else none := by
  unfold limitTo
  split
  · rw [List.getElem?_take]
    refine if_congr ?_ rfl rfl
    omega
  · rw [if_pos (by omega)]

theorem limitTo_cons {n : ℤ} (hn : n ≠ 1) (p : α) (l : List α) : limitTo n (p :: l) = p :: limitTo (n - 1) l := by
  unfold limitTo
  by_cases h : 0 < n
  · have hnat : n.toNat = (n - 1).toNat + 1 := by omega
    rw [if_pos h, if_pos (by omega), hnat, List.take_succ_cons]
  · rw [if_neg h, if_neg (by omega)]

theorem head?_limitTo (n : ℤ) (l : List α) : (limitTo n l).head? = l.head? := by
  unfold limitTo
  split
  · rw [List.head?_take, if_neg (by omega)]
  · rfl

theorem pairwise_zipIdx (l : List Bytes) : (l.zipIdx.map fun p => (p.2 : ℤ)).Pairwise (· < ·) := by
  have hmap : (l.zipIdx.map fun p => (p.2 : ℤ)) = (l.zipIdx.map Prod.snd).map Nat.cast := by
    rw [List.map_map]
    rfl
  rw [hmap, List.zipIdx_map_snd, List.pairwise_map, ← List.range_eq_range']
  exact List.pairwise_lt_range.imp Int.ofNat_lt.mpr

/-- A scan from the head meets the positions in ascending order, … -/
theorem pairwise_matchesOf_head (m : ℤ) : (matchesOf false m x l).Pairwise (· < ·) :=
  (pairwise_zipIdx l).sublist ((List.filter_sublist.trans (limitTo_sublist _ _)).map _)

/-- … one from the tail in descending order. -/
theorem pairwise_matchesOf_tail (m : ℤ) : (matchesOf true m x l).Pairwise (· > ·) := by
  have hsorted : (l.zipIdx.reverse.map fun p => (p.2 : ℤ)).Pairwise (· > ·) := by
    rw [List.map_reverse, List.pairwise_reverse]
    exact pairwise_zipIdx l
  exact hsorted.sublist ((List.filter_sublist.trans (limitTo_sublist _ _)).map _)

/-- Limits of an ascending and of a descending list are the same if both are empty, or if they start with the same
position and the next ones are out of sight. -/
theorem limitTo_eq_limitTo_iff {c : ℤ} {up down : List ℤ} (hup : up.Pairwise (· < ·)) (hdown : down.Pairwise (· > ·)) :
    limitTo c up = limitTo c down ↔
      (up = [] ∧ down = []) ∨
        ∃ p, up.head? = some p ∧ down.head? = some p ∧ (c = 1 ∨ up.length = 1 ∧ down.length = 1) := by
  rcases up with _ | ⟨p, up⟩
  · rw [limitTo_eq_nil_iff.mpr rfl, eq_comm, limitTo_eq_nil_iff]
    simp
  · rcases down with _ | ⟨q, down⟩
    · rw [limitTo_eq_nil_iff.mpr rfl, limitTo_eq_nil_iff]
      simp
    · rw [List.pairwise_cons] at hup hdown
      by_cases hc : c = 1
      · subst hc
        simp [limitTo, eq_comm]
      · rw [limitTo_cons hc, limitTo_cons hc, List.cons.injEq]
        constructor
        · rintro ⟨rfl, hrest⟩
          -- a next position would have to be both above and below the first
          have hnil : up = [] := by
            rcases up with _ | ⟨a, up⟩
            · rfl
            · have hhead := congrArg List.head? hrest
              rw [head?_limitTo, head?_limitTo, List.head?_cons] at hhead
              have habove := hup.1 a (List.mem_cons_self ..)
              have hbelow := hdown.1 a (List.mem_of_mem_head? hhead.symm)
              omega
          rw [hnil, limitTo_eq_nil_iff.mpr rfl, eq_comm, limitTo_eq_nil_iff] at hrest
          refine Or.inr ⟨p, rfl, rfl, Or.inr ⟨?_, ?_⟩⟩
          · rw [hnil, List.length_singleton]
          · rw [hrest, List.length_singleton]
        · rintro (⟨hnil, -⟩ | ⟨p', hp, hq, hc' | ⟨hlen, hlen'⟩⟩)
          · exact absurd hnil (List.cons_ne_nil _ _)
          · exact absurd hc' hc
          · cases hp
            cases hq
            rw [List.length_cons, Nat.add_eq_right, List.length_eq_zero_iff] at hlen hlen'
            rw [hlen, hlen']
            exact ⟨rfl, rfl⟩

end positions

/-! ### The loop -/

section loop
variable {x : Bytes} {rank cnt maxlen : ℤ}

/-- The rows that the loop still looks at. -/
def windowFrom {α : Type} (m : ℤ) (n : ℕ) (l : List α) : List α := if 0 < m then l.take (m - n).toNat else l

theorem windowFrom_cons {α : Type} {m : ℤ} {n : ℕ} (h : ¬(0 < m ∧ m < (n : ℤ) + 1)) (a : α) (l : List α) :
    windowFrom m n (a :: l) = a :: windowFrom m (n + 1) l := by
  unfold windowFrom
  by_cases hm : 0 < m
  · have hnat : (m - (n : ℤ)).toNat = (m - ((n + 1 : ℕ) : ℤ)).toNat + 1 := by omega
    rw [if_pos hm, if_pos hm, hnat, List.take_succ_cons]
  · rw [if_neg hm, if_neg hm]

/-- The positions of the element among the rows from position `n` on. -/
def matchesFrom (m : ℤ) (n : ℕ) (x : Bytes) (l : List Bytes) : List ℤ :=
  ((windowFrom m n (l.zipIdx n)).filter fun p => p.1 = x).map fun p => (p.2 : ℤ)

theorem matchesFrom_cons {m : ℤ} {n : ℕ} (h : ¬(0 < m ∧ m < (n : ℤ) + 1)) (v : Bytes) (l : List Bytes) :
    matchesFrom m n x (v :: l) = if v = x then (n : ℤ) :: matchesFrom m (n + 1) x l else matchesFrom m (n + 1) x l := by
  rw [matchesFrom, List.zipIdx_cons, windowFrom_cons h, List.filter_cons]
  by_cases hv : v = x
  · rw [if_pos hv, if_pos (decide_eq_true hv)]
    rfl
  · rw [if_neg hv, if_neg (by simpa using hv)]
    rfl

/-- **The loop** drops the matches it has still to skip and takes those it has still to find. -/
theorem lPosLoop_eq (l : List Bytes) (found : List ℤ) (skipped : ℤ) (n : ℕ)
    (hfound : cnt ≤ 0 ∨ (found.length : ℤ) < cnt) :
    lPosLoop x rank cnt maxlen ⟨found, skipped⟩ n l = found ++ limitTo (cnt - found.length)
      ((matchesFrom maxlen n x l).drop (if 0 < rank then (rank - 1 - skipped).toNat else 0)) := by
  induction l generalizing found skipped n with
  | nil =>
      have hnil : matchesFrom maxlen n x [] = [] := by simp [matchesFrom, windowFrom]
      rw [lPosLoop, hnil, List.drop_nil, limitTo_eq_nil_iff.mpr rfl, List.append_nil]
  | cons v l ih =>
      have hnext (f : List ℤ) (s : ℤ) := ih f s (n + 1)
      push_cast at hnext
      rw [lPosLoop]
      by_cases hstop : 0 < maxlen ∧ maxlen < (n : ℤ) + 1
      · have hnil : matchesFrom maxlen n x (v :: l) = [] := by
          have hzero : (maxlen - (n : ℤ)).toNat = 0 := by omega
          rw [matchesFrom, windowFrom, if_pos hstop.1, hzero]
          rfl
        rw [if_pos hstop, hnil, List.drop_nil, limitTo_eq_nil_iff.mpr rfl, List.append_nil]
      · rw [if_neg hstop, matchesFrom_cons hstop]
        by_cases hv : v = x
        · rw [if_pos hv, if_pos hv]
          by_cases hskip : 0 < rank ∧ skipped < rank - 1
          · have hnat : (rank - 1 - skipped).toNat = (rank - 1 - (skipped + 1)).toNat + 1 := by omega
            rw [if_pos hskip, hnext found (skipped + 1) hfound, if_pos hskip.1, if_pos hskip.1, hnat,
              List.drop_succ_cons]
          · have hdrop : (if 0 < rank then (rank - 1 - skipped).toNat else 0) = 0 := by
              split <;> omega
            rw [if_neg hskip, hdrop, List.drop_zero]
            dsimp only
            rw [List.length_append, List.length_singleton]
            split
            · have hone : cnt - (found.length : ℤ) = 1 := by omega
              rw [hone]
              rfl
            · rw [hnext (found ++ [(n : ℤ)]) skipped (by rw [List.length_append, List.length_singleton]; omega), hdrop,
                List.drop_zero, limitTo_cons (by omega), List.append_assoc, List.length_append, List.length_singleton]
              push_cast
              rw [sub_add_eq_sub_sub]
              rfl
        · rw [if_neg hv, if_neg hv, hnext found skipped hfound]

theorem matchesFrom_zero (m : ℤ) (x : Bytes) (l : List Bytes) : matchesFrom m 0 x l = matchesOf false m x l := by
  rw [matchesFrom, windowFrom, Nat.cast_zero, sub_zero]
  rfl

end loop

/-! ### The reply -/

theorem lposValue_inj {c : ℤ} {l l' : List ℤ} (h : c = 1 → l.length ≤ 1) (h' : c = 1 → l'.length ≤ 1)
    (heq : Handlers.lposValue c l = Handlers.lposValue c l') : l = l' := by
  rcases l with _ | ⟨p, l⟩
  · rcases l' with _ | ⟨q, l'⟩
    · rfl
    · have htype := congrArg Value.type heq
      simp only [Handlers.lposValue] at htype
      split at htype <;> cases htype
  · rcases l' with _ | ⟨q, l'⟩
    · have htype := congrArg Value.type heq
      simp only [Handlers.lposValue] at htype
      split at htype <;> cases htype
    · simp only [Handlers.lposValue] at heq
      by_cases hc : c = 1
      · have hl : l = [] := List.eq_nil_of_length_eq_zero (by simpa using h hc)
        have hl' : l' = [] := List.eq_nil_of_length_eq_zero (by simpa using h' hc)
        rw [if_pos hc, if_pos hc] at heq
        have hnum : p = q := congrArg Value.num heq
        rw [hl, hl', hnum]
      · rw [if_neg hc, if_neg hc] at heq
        have hinj : Function.Injective Value.int := fun a b hab => congrArg Value.num hab
        exact hinj.list_map (congrArg Value.array heq)

/-! ### The command -/

section command
variable {S : Type} [GoFloat S] {e : Env} {d : DB S} {key x : Bytes} {r c m : ℤ}

/-- What the code returns: the scan over the stored rows, always from the head. -/
def lposFound (r c m : ℤ) (x : Bytes) (stored : List Bytes) : List ℤ :=
  limitTo c ((matchesOf false m x stored).drop (if 0 < r then (r - 1).toNat else 0))

omit [GoFloat S] in
theorem exec_lPos [Float64 S] (hc : 0 ≤ c) : (Cmd.lPos key x r c m : Cmd S).exec e d =
    (.ok (.ints (lposFound r c m x (values (d.rows .kvLists (encodeKey key))))), d) := by
  refine Cmd.exec_eq_of_total ?_
  rw [Cmd.op, total_map, Postkeys.lPos, total_bind, total_queryRows, totalSql_selectAll]
  refine ⟨congrArg Reply.ints ?_, rfl⟩
  have hloop : lPosLoop x r c m ⟨[], 0⟩ ((0 : ℕ) : ℤ) (values (d.rows .kvLists (encodeKey key))) = _ :=
    lPosLoop_eq _ [] 0 0 (hc.eq_or_lt.imp ge_of_eq id)
  rw [matchesFrom_zero, List.nil_append, List.length_nil, Nat.cast_zero, sub_zero, sub_zero] at hloop
  exact hloop

/-- For a positive rank the matches from this rank on, as many as are asked for, stand at the same positions among
the stored rows as in the list.  For a negative one there is nothing to find in either direction, or the first match
among the stored rows is the one asked for and neither scan goes beyond it. -/
def LposAgrees (r c m : ℤ) (x : Bytes) (stored l : List Bytes) : Prop :=
  if 0 < r then ∀ j : ℕ, c = 0 ∨ (j : ℤ) < c →
    (matchesOf false m x stored)[r.toNat - 1 + j]? = (matchesOf false m x l)[r.toNat - 1 + j]?
  else
    (matchesOf false m x stored = [] ∧ (matchesOf true m x l).length < r.natAbs) ∨
      ∃ p, (matchesOf false m x stored)[0]? = some p ∧ (matchesOf true m x l)[r.natAbs - 1]? = some p ∧
        (c = 1 ∨ (matchesOf false m x stored).length = 1 ∧ (matchesOf true m x l).length = r.natAbs)

theorem lposFound_eq_iff (hr : r ≠ 0) (hc : 0 ≤ c) (stored l : List Bytes) :
    lposFound r c m x stored = lposOf r c m x l ↔ LposAgrees r c m x stored l := by
  unfold lposFound lposOf LposAgrees
  by_cases hpos : 0 < r
  · have hdrop : (r - 1).toNat = r.toNat - 1 := by omega
    have habs : r.natAbs - 1 = r.toNat - 1 := by omega
    rw [if_pos hpos, if_pos hpos, hdrop, habs, decide_eq_false (by omega), List.ext_getElem?_iff]
    refine forall_congr' fun j => ?_
    rw [getElem?_limitTo hc, getElem?_limitTo hc, List.getElem?_drop, List.getElem?_drop]
    by_cases hj : c = 0 ∨ (j : ℤ) < c
    · simp [hj]
    · simp [hj]
  · rw [if_neg hpos, if_neg hpos, List.drop_zero, decide_eq_true (by omega : r < 0),
      limitTo_eq_limitTo_iff (pairwise_matchesOf_head m) ((pairwise_matchesOf_tail m).sublist (List.drop_sublist _ _)),
      List.drop_eq_nil_iff, List.head?_drop, List.length_drop, List.head?_eq_getElem?]
    have hlast : (matchesOf true m x l).length ≤ r.natAbs - 1 ↔ (matchesOf true m x l).length < r.natAbs := by omega
    have hone : (matchesOf true m x l).length - (r.natAbs - 1) = 1 ↔ (matchesOf true m x l).length = r.natAbs := by
      omega
    rw [hlast, hone]

/-- **`LPOS`** returns the positions it is asked for exactly if the scan from the head over the stored rows finds
them. -/
theorem lpos_iff (e : Env) (sc : ScriptCache) (d : DB S) (key x : Bytes) (options : List Bytes) (r c m : ℤ)
    (hoptions : Handlers.lposOptions ⟨1, 1, 0⟩ options = .ok ⟨r, c, m⟩) (hr : r ≠ 0) (hc : 0 ≤ c) :
    (Handlers.lposOp (key :: x :: options) : Proc S).direct e sc d =
        (.ok (Handlers.lposValue c (lposOf r c m x (listValues e.now d (encodeKey key)))), sc, d) ↔
      LposAgrees r c m x (values (d.rows .kvLists (encodeKey key))) (listValues e.now d (encodeKey key)) := by
  have hdirect : (Handlers.lposOp (key :: x :: options) : Proc S).direct e sc d =
      (.ok (Handlers.lposValue c (lposFound r c m x (values (d.rows .kvLists (encodeKey key))))), sc, d) := by
    rw [Handlers.lposOp, hoptions]
    exact Proc.direct_callOr_ok (exec_lPos hc)
  rw [← lposFound_eq_iff hr hc, hdirect]
  constructor
  · intro heq
    have hvalue := Except.ok.inj (congrArg Prod.fst heq)
    refine lposValue_inj (fun hone => ?_) (fun hone => ?_) hvalue
    · rw [lposFound, hone]
      exact length_limitTo_one _
    · rw [lposOf, hone]
      exact length_limitTo_one _
  · intro heq
    rw [heq]

omit [GoFloat S] in
/-- From the head `LPOS` is right on every list without an expiry. -/
theorem lposAgrees_of_noExpiry (h : NoExpiry (d.rows .kvLists (encodeKey key))) (hr : 0 < r) {now : Time} :
    LposAgrees r c m x (values (d.rows .kvLists (encodeKey key))) (listValues now d (encodeKey key)) := by
  rw [LposAgrees, if_pos hr, listValues_eq h]
  exact fun _ _ => rfl

end command

/-- The list `a b a` under `l`. -/
def threeElements : DB ℤ :=
  (emptyDB : DB ℤ).setRows .kvLists (encodeKey [108])
    (((Table.single 0 ⟨[97], none⟩).put 1 ⟨[98], none⟩).put 2 ⟨[97], none⟩)

/-- `LPOS l a RANK 2` is 2. -/
theorem lpos_second : (Handlers.lposOp [[108], [97], utf8 "RANK", [50]] : Proc ℤ).direct (envAt 0) ∅ threeElements =
    (.ok (Handlers.lposValue 1 (lposOf 2 1 0 [97] (listValues 0 threeElements (encodeKey [108])))), ∅, threeElements) := by
  refine (lpos_iff (envAt 0) ∅ threeElements [108] [97] [utf8 "RANK", [50]] 2 1 0 rfl (by decide) (by decide)).mpr ?_
  refine lposAgrees_of_noExpiry ?_ (by decide)
  rw [threeElements, Store.rows_setRows_self]
  intro j row hrow
  rw [Table.put_row, Table.put_row, Table.single_row] at hrow
  split_ifs at hrow <;> cases hrow <;> rfl

/-- `LPOS l a RANK -1` is 0, although the last `a` stands at 2. -/
theorem lpos_from_tail :
    Handlers.lposOptions ⟨1, 1, 0⟩ [utf8 "RANK", utf8 "-1"] = .ok ⟨-1, 1, 0⟩ ∧
    listValues 0 threeElements (encodeKey [108]) = [[97], [98], [97]] ∧
    lposOf (-1) 1 0 [97] [[97], [98], [97]] = [2] ∧
    (Handlers.lposOp [[108], [97], utf8 "RANK", utf8 "-1"] : Proc ℤ).direct (envAt 0) ∅ threeElements =
      (.ok (.int 0), ∅, threeElements) := by
  have hoptions : Handlers.lposOptions ⟨1, 1, 0⟩ [utf8 "RANK", utf8 "-1"] = .ok ⟨-1, 1, 0⟩ := rfl
  have hrows : threeElements.rows .kvLists (encodeKey [108]) =
      ((Table.single 0 ⟨[97], none⟩).put 1 ⟨[98], none⟩).put 2 ⟨[97], none⟩ := Store.rows_setRows_self ..
  refine ⟨hoptions, ?_, by decide, ?_⟩
  · rw [listValues, hrows]
    rfl
  · have hexec : (Cmd.lPos [108] [97] (-1) 1 0 : Cmd ℤ).exec (envAt 0) threeElements = _ := exec_lPos (by decide)
    rw [Handlers.lposOp, hoptions]
    refine (Proc.direct_callOr_ok hexec).trans ?_
    rw [hrows]
    rfl

end Postkeys
