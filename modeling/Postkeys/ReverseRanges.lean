import Postkeys.Handlers.SortedSets
import Postkeys.SortedRanges

/-! # Two spellings of a reverse range

`ZREVRANGE` and `ZREVRANGEBYSCORE` reverse the order and then take a part of it; `ZRANGE` with `REV` takes the
part first and reverses what it got.  The two agree exactly if the part is the same from both ends
(`reverse_ranges_iff`). -/

namespace Postkeys

open Relational Program

variable {S : Type} [GoFloat S] {e : Env} {d : DB S} {sc : ScriptCache} {key : Bytes}

/-! ### Parts that are the same from both ends -/

/-- The indices of a range of `n` places are the same from both ends, or there are none. -/
def SameFromBothEnds (n : ℕ) (start stop : ℤ) : Prop :=
  (clampRange n start stop).2 < (clampRange n start stop).1 ∨
    (clampRange n start stop).1 + (clampRange n start stop).2 = n - 1

/-- A limit cuts the same places of `n` from both ends: none or all are left, or as many are cut in front
as behind. -/
def SameLimit (n : ℕ) (offset cnt : ℤ) : Prop := n ≤ offset ∨ offset = 0 ∧ n ≤ cnt ∨ 2 * offset + cnt = n

theorem mirrored_range_iff (n : ℕ) (start stop : ℤ) :
    Mirrored n (InRange n start stop) ↔ SameFromBothEnds n start stop := by
  obtain ⟨h0, hlen, hrange⟩ := clampRange_spec n start stop
  exact mirrored_interval _ _ h0 hlen fun p _ => hrange p

theorem mirrored_limit_iff (n : ℕ) {offset cnt : ℤ} (h0 : 0 ≤ offset) (hcnt : 0 < cnt) :
    Mirrored n (fun p => offset.toNat ≤ p ∧ p < offset.toNat + cnt.toNat) ↔ SameLimit n offset cnt := by
  rw [mirrored_interval offset (min (offset + cnt) n - 1) h0 (by omega) fun p hp => by omega,
    SameLimit]
  omega

/-! ### Replies -/

omit [GoFloat S] in
/-- A reply shows the members. -/
theorem membersValue_members [Float64 S] {withScores : Bool} {l l' : List (ZMember S)}
    (h : membersValue withScores l = membersValue withScores l') : l.map ZMember.member = l'.map ZMember.member := by
  have hinj : Function.Injective Value.bulkOf := fun a b hab => congrArg Value.bulk hab
  have hbulks {vs ws : List Bytes} (hvw : bulks vs = bulks ws) : vs = ws :=
    hinj.list_map (congrArg Value.array hvw)
  cases withScores with
  | false => exact hbulks h
  | true =>
      have hflat := hbulks h
      clear h
      induction l generalizing l' with
      | nil =>
          cases l' with
          | nil => rfl
          | cons m' l' => cases hflat
      | cons m l ih =>
          cases l' with
          | nil => cases hflat
          | cons m' l' =>
              obtain ⟨hmember, htail⟩ := List.cons.inj hflat
              rw [List.map_cons, List.map_cons, hmember, ih (List.cons.inj htail).2]

/-- Two parts of a sorted set that are shown alike, one of them reversed. -/
theorem membersValue_reverse_iff (P : ℕ → Prop) [DecidablePred P] (withScores : Bool) {l : List (ZMember S)}
    (hl : (l.map ZMember.member).Nodup) :
    membersValue withScores (partIn P l).reverse = membersValue withScores (partIn P l.reverse) ↔
      Mirrored l.length P := by
  have hmap (v : List (ZMember S)) : (partIn P v).map ZMember.member = partIn P (v.map ZMember.member) := by
    rw [partIn, partIn, List.map_filterMap, List.length_map]
    exact List.filterMap_congr fun p _ => by rw [List.getElem?_map]
  constructor
  · intro h
    have hmembers := membersValue_members h
    rw [List.map_reverse, hmap, hmap, List.map_reverse] at hmembers
    have hmirrored := (partIn_reverse_iff hl).mp hmembers.symm
    rwa [List.length_map] at hmirrored
  · intro h
    rw [partIn_reverse h]

/-! ### The commands -/

/-- `WITHSCORES`, if asked for. -/
def scoresWord (withScores : Bool) : List Bytes := if withScores then [utf8 "WITHSCORES"] else []

/-- The number of members of a sorted set. -/
def zSize (now : Time) (d : DB S) (key : Bytes) : ℕ := (zOrder now d key).length

theorem zrange_rev_options (withScores : Bool) :
    Handlers.rangeOptions "zrange" notInteger Handlers.zrangeFlag .none (utf8 "REV" :: scoresWord withScores) =
      .ok ⟨withScores, .index, true, 0, -1⟩ := by
  cases withScores <;> rfl

theorem zrevrange_options (withScores : Bool) :
    ((scoresWord withScores).all fun a => decide (toUpper a = utf8 "WITHSCORES")) = true ∧
      decide (scoresWord withScores ≠ []) = withScores := by
  cases withScores <;> exact ⟨by decide, by decide⟩

theorem nodup_zOrder (now : Time) (d : DB S) (key : Bytes) : ((zOrder now d key).map ZMember.member).Nodup :=
  members_zMembers _

/-- The numbers of a `LIMIT`. -/
def limitNumbers (offset cnt : Bytes) : Option (ℤ × ℤ) := do
  let offset ← parseInt offset
  let cnt ← parseInt cnt
  pure (offset, cnt)

/-- `LIMIT` with its two numbers, in front of other options. -/
theorem rangeOptions_limitWord {cmd message : String}
    {flag : Handlers.RangeOptions → Bytes → Except Value Handlers.RangeOptions} (o : Handlers.RangeOptions)
    (offset cnt : Bytes) (rest : List Bytes) :
    Handlers.rangeOptions cmd message flag o (utf8 "LIMIT" :: offset :: cnt :: rest) =
      match limitNumbers offset cnt with
      | some l => Handlers.rangeOptions cmd message flag { o with offset := l.1, cnt := l.2 } rest
      | none => .error (.err (utf8 message)) := by
  rw [Handlers.rangeOptions, if_pos (by decide), limitNumbers]
  cases parseInt offset with
  | none => rfl
  | some a => cases parseInt cnt <;> rfl

/-- The number of members with a score between two bounds. -/
def sizeBetween (now : Time) (d : DB S) (key : Bytes) (min max : S) : ℕ := (scoreRange now d key min max).length

/-- Cutting and reversing, in either order. -/
theorem limited_reverse_iff (withScores : Bool) {l : List (ZMember S)} (hl : (l.map ZMember.member).Nodup)
    (offset cnt : ℤ) : membersValue withScores (rowsOf (limited cnt offset l)).reverse =
        membersValue withScores (rowsOf (limited cnt offset l.reverse)) ↔
      cnt ≤ 0 ∨ offset < 0 ∨ SameLimit l.length offset cnt := by
  rcases le_or_gt cnt 0 with hcnt | hcnt
  · rw [limited, limited, if_neg (not_lt.mpr hcnt), if_neg (not_lt.mpr hcnt)]
    exact iff_of_true rfl (Or.inl hcnt)
  · rw [limited, limited, if_pos hcnt, if_pos hcnt, limitOffset, limitOffset]
    rcases lt_or_ge offset 0 with hneg | h0
    · rw [if_pos hneg, if_pos hneg]
      exact iff_of_true rfl (Or.inr (Or.inl hneg))
    · rw [if_neg (not_lt.mpr h0), if_neg (not_lt.mpr h0), if_neg (not_lt.mpr hcnt.le), if_neg (not_lt.mpr hcnt.le),
        or_iff_right (not_le.mpr hcnt), or_iff_right (not_lt.mpr h0), ← mirrored_limit_iff _ h0 hcnt,
        ← membersValue_reverse_iff _ withScores hl, partIn_limit, partIn_limit]
      rfl

/-- **Two spellings of a reverse range**, for all arguments: by index they agree exactly if the indices are no
numbers, the range is refused, or it is the same from both ends; by score exactly if not both limit and
bounds are malformed, and the limit cuts nothing, is refused, or cuts the same from both ends. -/
theorem reverse_ranges_iff (e : Env) (d : DB S) (sc : ScriptCache) (key : Bytes) (withScores : Bool) :
    (∀ start stop : Bytes,
      ((Handlers.zrangeOp (key :: start :: stop :: utf8 "REV" :: scoresWord withScores) : Proc S).direct e sc d).1 =
          ((Handlers.zrevrangeOp (key :: start :: stop :: scoresWord withScores)).direct e sc d).1 ↔
        ∀ a b, parseInt start = some a → parseInt stop = some b →
          RangeOverflows (zSize e.now d key) a b ∨ SameFromBothEnds (zSize e.now d key) a b) ∧
    ∀ max min offset cnt : Bytes,
      ((Handlers.zrangeOp (key :: max :: min :: utf8 "BYSCORE" :: utf8 "REV" :: utf8 "LIMIT" :: offset :: cnt ::
          scoresWord withScores) : Proc S).direct e sc d).1 =
        ((Handlers.zrevrangebyscoreOp (key :: max :: min :: utf8 "LIMIT" :: offset :: cnt ::
          scoresWord withScores)).direct e sc d).1 ↔
      ((limitNumbers offset cnt).isSome = true ∨
          (Handlers.parseScoreBound max : Option S).isSome = true ∧
            (Handlers.parseScoreBound min : Option S).isSome = true) ∧
        ∀ (hi lo : S) (o c : ℤ), Handlers.parseScoreBound max = some hi → Handlers.parseScoreBound min = some lo →
          limitNumbers offset cnt = some (o, c) →
          c ≤ 0 ∨ o < 0 ∨ SameLimit (sizeBetween e.now d key lo hi) o c := by
  refine ⟨fun start stop => ?_, fun max min offset cnt => ?_⟩
  · rw [Handlers.zrangeOp, Handlers.zrevrangeOp, zrange_rev_options, Proc.parsed]
    dsimp only
    rw [if_neg (by decide)]
    obtain ⟨hall, hscores⟩ := zrevrange_options withScores
    cases hstart : parseInt start with
    | none => exact iff_of_true rfl fun a b ha => by cases ha
    | some a =>
        cases hstop : parseInt stop with
        | none => exact iff_of_true rfl fun a b _ hb => by cases hb
        | some b =>
            simp only [Proc.need, hall, hscores, if_true]
            have hvalues : (∀ a' b', some a = some a' → some b = some b' →
                RangeOverflows (zSize e.now d key) a' b' ∨ SameFromBothEnds (zSize e.now d key) a' b') ↔
                RangeOverflows (zSize e.now d key) a b ∨ SameFromBothEnds (zSize e.now d key) a b := by
              refine ⟨fun h => h a b rfl rfl, fun h a' b' ha hb => ?_⟩
              cases ha
              cases hb
              exact h
            rw [hvalues]
            have hlen : (zOrder e.now d key).reverse.length = zSize e.now d key := List.length_reverse
            by_cases hover : RangeOverflows (zSize e.now d key) a b
            · -- both are refused
              have hrange : rangeByIndex a b (zOrder e.now d key) = .error ⟨"22003", "bigint out of range"⟩ :=
                (rangeByIndex_eq _ a b).trans (if_pos hover)
              have hrev : rangeByIndex a b (zOrder e.now d key).reverse = .error ⟨"22003", "bigint out of range"⟩ :=
                (rangeByIndex_eq _ a b).trans (if_pos (hlen ▸ hover))
              have hexec : (Cmd.zRange key a b : Cmd S).exec e d = _ := exec_zRange_eq a b
              have hexec' : (Cmd.zRevRange key a b : Cmd S).exec e d = _ := exec_zRevRange_eq a b
              rw [hrange] at hexec
              rw [hrev] at hexec'
              refine iff_of_true ?_ (Or.inl hover)
              rw [Proc.storeTyped, Proc.storeTyped, Proc.direct_callOr_error hexec (fun m hm => by cases hm),
                Proc.direct_callOr_error hexec' (fun m hm => by cases hm)]
            · have hexec : (Cmd.zRange key a b : Cmd S).exec e d = _ := exec_zRange a b hover
              have hexec' : (Cmd.zRevRange key a b : Cmd S).exec e d = _ := exec_zRevRange a b hover
              rw [Proc.storeTyped, Proc.storeTyped, Proc.direct_callOr_ok hexec, Proc.direct_callOr_ok hexec',
                or_iff_right hover, ← mirrored_range_iff]
              have hpart : slice (zOrder e.now d key).reverse a b =
                  partIn (InRange (zSize e.now d key) a b) (zOrder e.now d key).reverse := by
                rw [slice_eq_partIn, hlen]
              rw [hpart]
              have hshown := membersValue_reverse_iff (InRange (zSize e.now d key) a b) withScores
                (nodup_zOrder e.now d key)
              exact ⟨fun h => hshown.mp (Except.ok.inj h), fun h => congrArg Except.ok (hshown.mpr h)⟩
  · have hfirst : Handlers.rangeOptions "zrange" notInteger Handlers.zrangeFlag .none
          (utf8 "BYSCORE" :: utf8 "REV" :: utf8 "LIMIT" :: offset :: cnt :: scoresWord withScores) =
        Handlers.rangeOptions "zrange" notInteger Handlers.zrangeFlag ⟨false, .score, true, 0, -1⟩
          (utf8 "LIMIT" :: offset :: cnt :: scoresWord withScores) := rfl
    have hscores (l : ℤ × ℤ) : Handlers.rangeOptions "zrange" notInteger Handlers.zrangeFlag
        ⟨false, .score, true, l.1, l.2⟩ (scoresWord withScores) = .ok ⟨withScores, .score, true, l.1, l.2⟩ := by
      cases withScores <;> rfl
    have hscores' (l : ℤ × ℤ) : Handlers.rangeOptions "zrevrangebyscore" errNotInteger Handlers.withScoresOnly
        ⟨false, .index, false, l.1, l.2⟩ (scoresWord withScores) = .ok ⟨withScores, .index, false, l.1, l.2⟩ := by
      cases withScores <;> rfl
    rw [Handlers.zrangeOp, Handlers.zrevrangebyscoreOp, hfirst, rangeOptions_limitWord, rangeOptions_limitWord]
    simp only [Handlers.RangeOptions.none, hscores, hscores']
    have herror : (Value.err (utf8 notInteger)) = Value.err (utf8 errNotInteger) := rfl
    have hdiffer : (Value.err (utf8 notInteger)) ≠ Value.err (utf8 Handlers.errBound) := by
      intro h
      have htext := congrArg Value.str h
      revert htext
      decide
    cases hmax : (Handlers.parseScoreBound max : Option S) with
    | none =>
        cases hlimit : limitNumbers offset cnt with
        | none =>
            refine iff_of_false (fun h => hdiffer (Except.ok.inj h)) ?_
            rintro ⟨h | h, -⟩
            · cases h
            · cases h.1
        | some l => exact iff_of_true rfl ⟨Or.inl rfl, fun _ _ _ _ h => by cases h⟩
    | some hi =>
        cases hmin : (Handlers.parseScoreBound min : Option S) with
        | none =>
            cases hlimit : limitNumbers offset cnt with
            | none =>
                refine iff_of_false (fun h => hdiffer (Except.ok.inj h)) ?_
                rintro ⟨h | h, -⟩
                · cases h
                · cases h.2
            | some l =>
                refine iff_of_true ?_ ⟨Or.inl rfl, fun _ _ _ _ _ h => by cases h⟩
                simp only [Proc.parsed, Proc.need, if_true]
        | some lo =>
            cases hlimit : limitNumbers offset cnt with
            | none =>
                exact iff_of_true (congrArg Except.ok herror) ⟨Or.inr ⟨rfl, rfl⟩, fun _ _ _ _ _ _ h => by cases h⟩
            | some l =>
                simp only [Proc.parsed, Proc.need, if_true]
                have hexec : (Cmd.zRangeByScore key lo hi l.1 l.2 : Cmd S).exec e d = _ := exec_zRangeByScore lo hi l.1 l.2
                have hexec' : (Cmd.zRevRangeByScore key lo hi l.1 l.2 : Cmd S).exec e d = _ :=
                  exec_zRevRangeByScore lo hi l.1 l.2
                rw [Proc.storeTyped, Proc.storeTyped, Proc.direct_callOr_ok hexec, Proc.direct_callOr_ok hexec']
                have hnodup : ((scoreRange e.now d key lo hi).map ZMember.member).Nodup :=
                  (nodup_zOrder e.now d key).sublist (List.filter_sublist.map _)
                have hshown := limited_reverse_iff withScores hnodup l.1 l.2
                constructor
                · intro h
                  refine ⟨Or.inl rfl, fun hi' lo' o c hhi hlo hl => ?_⟩
                  cases hhi
                  cases hlo
                  cases hl
                  exact hshown.mp (Except.ok.inj h)
                · intro h
                  exact congrArg Except.ok (hshown.mpr (h.2 hi lo l.1 l.2 rfl rfl rfl))

/-- The sorted set `z` with the members `a` and `b`, scores 1 and 2. -/
def twoMembers : DB ℤ :=
  (emptyDB : DB ℤ).setRows .kvZsets (encodeKey [122]) ((Table.single [97] ⟨1, none⟩).put [98] ⟨2, none⟩)

theorem zOrder_twoMembers : zOrder 0 twoMembers [122] = [⟨[97], 1⟩, ⟨[98], 2⟩] := by
  rw [zOrder, twoMembers, Store.rows_setRows_self]
  rfl

/-- `ZRANGE z 0 0 REV` answers the first member, `ZREVRANGE z 0 0` the last one. -/
theorem zrange_rev_first :
    ((Handlers.zrangeOp [[122], utf8 "0", utf8 "0", utf8 "REV"] : Proc ℤ).direct (envAt 0) ∅ twoMembers).1 =
      .ok (.arr [.bulkOf [97]]) ∧
    ((Handlers.zrevrangeOp [[122], utf8 "0", utf8 "0"] : Proc ℤ).direct (envAt 0) ∅ twoMembers).1 =
      .ok (.arr [.bulkOf [98]]) := by
  have hzero : parseInt (utf8 "0") = some 0 := by decide
  have horder : zOrder (envAt 0).now twoMembers [122] = [⟨[97], 1⟩, ⟨[98], 2⟩] := zOrder_twoMembers
  have hfits : ¬ RangeOverflows (zOrder (envAt 0).now twoMembers [122]).length 0 0 := by
    rw [horder]
    decide
  have hexec : (Cmd.zRange [122] 0 0 : Cmd ℤ).exec (envAt 0) twoMembers = _ := exec_zRange 0 0 hfits
  have hexec' : (Cmd.zRevRange [122] 0 0 : Cmd ℤ).exec (envAt 0) twoMembers = _ := exec_zRevRange 0 0 hfits
  rw [horder] at hexec hexec'
  have hoptions := zrange_rev_options false
  rw [scoresWord, if_neg (by decide)] at hoptions
  constructor
  · rw [Handlers.zrangeOp, hoptions, Proc.parsed]
    dsimp only
    rw [if_neg (by decide), hzero, Proc.need, Proc.need, Proc.storeTyped, Proc.direct_callOr_ok hexec]
    rfl
  · rw [Handlers.zrevrangeOp, hzero, Proc.need, Proc.need, if_pos (by decide), Proc.storeTyped,
      Proc.direct_callOr_ok hexec']
    rfl

end Postkeys
