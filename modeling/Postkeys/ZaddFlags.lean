import Postkeys.Handlers.Runs
import Postkeys.Handlers.SortedSets
import Postkeys.Querier.Runs

/-! # The flags of `ZADD`

`ZADD` goes through its pairs of score and member one by one; each pair reads the row of its member and writes it or
not, as the flags say.  `zaddRule` is what one pair is to do to a sorted set, over any total order of the scores, and
`zadd_fold_iff` says when the command is the left fold of it: the loop reads rows whose time is over and takes them
for members, so a pair must not meet such a row unless the command leaves it alone. -/

namespace Postkeys

open Relational Program

/-! ### The loop -/

section loop
variable {S : Type} [Float64 S] {e : Env} {d : DB S} {o : ZAddOptions} {c : Table Bytes (Row S .kvZsets)}
  {m : ZMember S} {r : Row S .kvZsets}

/-- What one pass of the loop makes of the rows. -/
def zaddStep (o : ZAddOptions) (c : Table Bytes (Row S .kvZsets)) (m : ZMember S) : Table Bytes (Row S .kvZsets) :=
  match c.row m.member with
  | none => if o.XX then c else c.put m.member ⟨m.score, none⟩
  | some r => if zAddAction o m.score (some r.val) = .skip then c else c.put m.member ⟨m.score, r.expiresAt⟩

/-- What one pass adds to the two counters. -/
def zaddTick (o : ZAddOptions) (c : Table Bytes (Row S .kvZsets)) (m : ZMember S) : ℤ × ℤ :=
  match c.row m.member with
  | none => (if o.XX then 0 else 1, 0)
  | some r => (0, if zAddAction o m.score (some r.val) = .skip then 0 else 1)

/-- What the whole loop adds to them. -/
def zaddTally (o : ZAddOptions) : Table Bytes (Row S .kvZsets) → List (ZMember S) → ℤ × ℤ
  | _, [] => 0
  | c, m :: ms => zaddTick o c m + zaddTally o (zaddStep o c m) ms

theorem zaddStep_absent (h : c.row m.member = none) :
    zaddStep o c m = if o.XX then c else c.put m.member ⟨m.score, none⟩ := by
  rw [zaddStep, h]

theorem zaddStep_present (h : c.row m.member = some r) :
    zaddStep o c m =
      if zAddAction o m.score (some r.val) = .skip then c else c.put m.member ⟨m.score, r.expiresAt⟩ := by
  rw [zaddStep, h]

theorem zaddTick_absent (h : c.row m.member = none) : zaddTick o c m = (if o.XX then 0 else 1, 0) := by
  rw [zaddTick, h]

theorem zaddTick_present (h : c.row m.member = some r) :
    zaddTick o c m = (0, if zAddAction o m.score (some r.val) = .skip then 0 else 1) := by
  rw [zaddTick, h]

/-- A pair touches no row but that of its member. -/
theorem zaddStep_row_of_ne {x : Bytes} (hx : x ≠ m.member) : (zaddStep o c m).row x = c.row x := by
  rcases hrow : c.row m.member with _ | r
  · rw [zaddStep_absent hrow]
    split
    · rfl
    · rw [Table.put_row, if_neg hx]
  · rw [zaddStep_present hrow]
    split
    · rfl
    · rw [Table.put_row, if_neg hx]

omit [Float64 S] in
theorem update_eq_put (h : c.row m.member = some r) (f : Row S .kvZsets → Row S .kvZsets) :
    c.update (fun x _ => decide (x = m.member)) f = c.put m.member (f r) := by
  refine Table.ext_row fun x => ?_
  rw [Table.update_row, Table.put_row]
  by_cases hx : x = m.member
  · rw [if_pos hx, hx, h]
    simp
  · rw [if_neg hx]
    cases c.row x <;> simp [hx]

omit [Float64 S] in
theorem addRows_new (h : c.row m.member = none) (r : Row S .kvZsets) :
    addRows .kvZsets c [(m.member, r)] = .ok (c.put m.member r) := by
  rw [addRows, h]
  dsimp only
  rw [addRows]
  congr
  exact Subsingleton.elim _ _

theorem zAddAction_some (s old : S) :
    zAddAction o s (some old) = .skip ∨ zAddAction o s (some old) = .update := by
  unfold zAddAction
  dsimp only
  split_ifs <;> simp

/-- **The loop** leaves the rows its passes make, one after the other. -/
theorem total_zAddLoop (key : Bytes) (o : ZAddOptions) (ms : List (ZMember S)) (a b : ℤ) (d : DB S)
    {Q : ℤ × ℤ → DB S → Prop} :
    total e (zAddLoop key o a b ms) Q d ↔ Q ((a, b) + zaddTally o (d.rows .kvZsets key) ms)
      (d.setRows .kvZsets key (ms.foldl (zaddStep o) (d.rows .kvZsets key))) := by
  induction ms generalizing a b d with
  | nil =>
      rw [zAddLoop, zaddTally, List.foldl_nil, Store.setRows_rows, add_zero]
      exact Iff.rfl
  | cons m ms ih =>
      rw [zAddLoop, total_bind, total_query, totalSql_selectAll, zaddTally, List.foldl_cons]
      rcases hrow : (d.rows .kvZsets key).row m.member with _ | r
      · rw [zaddStep_absent hrow, zaddTick_absent hrow, Option.map_none]
        cases hXX : o.XX with
        | true =>
            have hskip : zAddAction o m.score none = .skip := by simp [zAddAction, hXX]
            rw [hskip]
            dsimp only
            rw [ih]
            simp [Prod.mk_zero_zero]
        | false =>
            have hadd : zAddAction o m.score none = .add := by simp [zAddAction, hXX]
            rw [hadd]
            dsimp only
            rw [total_bind, total_query, totalSql_insertRows, addRows_new hrow]
            simp only [Except.ok.injEq, exists_eq_left', ih, Store.rows_setRows_self, Store.setRows_setRows]
            simp [← add_assoc]
      · rw [zaddStep_present hrow, zaddTick_present hrow, Option.map_some]
        rcases zAddAction_some (o := o) m.score r.val with hskip | hupdate
        · rw [hskip]
          dsimp only
          rw [ih]
          simp [Prod.mk_zero_zero]
        · rw [hupdate]
          dsimp only
          rw [total_bind, total_query, totalSql_updateWhere, ih, update_eq_put hrow, Store.rows_setRows_self,
            Store.setRows_setRows]
          simp [← add_assoc]

end loop

/-! ### One pair -/

section rule
variable {S : Type} [LinearOrder S] {o : ZAddOptions} {u : Table Bytes S} {m : ZMember S}

/-- What a pair does to a sorted set: `NX` only adds, `XX` only updates, `GT` never lowers a score and `LT` never
raises one. -/
def zaddRule (o : ZAddOptions) (u : Table Bytes S) (m : ZMember S) : Table Bytes S :=
  match u.row m.member with
  | none => if o.XX then u else u.put m.member m.score
  | some old =>
      if o.NX ∨ (o.GT ∧ m.score < old) ∨ (o.LT ∧ old < m.score) then u else u.put m.member m.score

/-- The pair gives a member another score. -/
def rescores (o : ZAddOptions) (u : Table Bytes S) (m : ZMember S) : Bool :=
  match u.row m.member with
  | none => false
  | some old => decide ((zaddRule o u m).row m.member ≠ some old)

/-- The score updates that the pairs perform, one after the other. -/
def updates (o : ZAddOptions) : Table Bytes S → List (ZMember S) → ℕ
  | _, [] => 0
  | u, m :: ms => (if rescores o u m then 1 else 0) + updates o (zaddRule o u m) ms

/-- The members that are there afterwards and were not before. -/
def newMembers (before after : Table Bytes S) : ℕ := (after.dom \ before.dom).card

/-- The flags keep a score from being replaced, or it would be the same. -/
def Unmoved (o : ZAddOptions) (score old : S) : Prop :=
  (o.GT ∧ score ≤ old) ∨ (o.LT ∧ old ≤ score) ∨ score = old

theorem zaddRule_absent (h : u.row m.member = none) :
    zaddRule o u m = if o.XX then u else u.put m.member m.score := by
  rw [zaddRule, h]

/-- A pair removes nobody. -/
theorem dom_subset_zaddRule : u.dom ⊆ (zaddRule o u m).dom := by
  have hput : u.dom ⊆ (u.put m.member m.score).dom := Finset.subset_insert _ _
  unfold zaddRule
  split
  · split
    · exact Finset.Subset.refl _
    · exact hput
  · split
    · exact Finset.Subset.refl _
    · exact hput

theorem dom_subset_foldl (ms : List (ZMember S)) : u.dom ⊆ (ms.foldl (zaddRule o) u).dom := by
  induction ms generalizing u with
  | nil => exact Finset.Subset.refl _
  | cons m ms ih => exact dom_subset_zaddRule.trans ih

/-- Without `XX` the member of a pair is there afterwards. -/
theorem mem_zaddRule (hXX : o.XX = false) : m.member ∈ (zaddRule o u m).dom := by
  rcases hrow : u.row m.member with _ | old
  · rw [zaddRule_absent hrow, hXX]
    exact Finset.mem_insert_self _ _
  · exact dom_subset_zaddRule (Table.mem_dom_of_row hrow)

theorem mem_foldl (hXX : o.XX = false) {ms : List (ZMember S)} (hm : m ∈ ms) :
    m.member ∈ (ms.foldl (zaddRule o) u).dom := by
  induction ms generalizing u with
  | nil => cases hm
  | cons m' ms ih =>
      rw [List.foldl_cons]
      rcases List.mem_cons.mp hm with rfl | hm
      · exact dom_subset_foldl ms (mem_zaddRule hXX)
      · exact ih hm

omit [LinearOrder S] in
theorem newMembers_eq_sub {before after : Table Bytes S} (h : before.dom ⊆ after.dom) :
    (newMembers before after : ℤ) = after.dom.card - before.dom.card := by
  rw [newMembers, Finset.card_sdiff_of_subset h, Nat.cast_sub (Finset.card_le_card h)]

end rule

/-! ### The loop and the rule -/

/-- The comparisons of the code are those of a total order. -/
structure OrderedScores (S : Type) [LinearOrder S] [Float64 S] : Prop where
  goLe : ∀ a b : S, Float64.goLe a b = true ↔ a ≤ b
  goEq : ∀ a b : S, Float64.goEq a b = true ↔ a = b

/-- The row of `x` is still there although its time is over. -/
def LeftOver {S : Type} (now : Time) (c : Table Bytes (Row S .kvZsets)) (x : Bytes) : Prop :=
  ∃ r, c.row x = some r ∧ r.live now = false

section rows
variable {S : Type} {now : Time} {c : Table Bytes (Row S .kvZsets)} {x : Bytes}

theorem put_eq_of_row {u : Table Bytes S} {s : S} (h : u.row x = some s) : u.put x s = u := by
  refine Table.ext_row fun y => ?_
  rw [Table.put_row]
  split
  · rename_i hy
    rw [hy, h]
  · rfl

theorem live_put_live {r : Row S .kvZsets} (h : r.live now = true) :
    live now (c.put x r) = (live now c).put x r.val := by
  refine Table.ext_row fun y => ?_
  rw [live_row, Table.put_row, Table.put_row]
  split
  · simp [h]
  · rfl

theorem live_put_lapsed {r : Row S .kvZsets} (h : r.live now = false) (hx : (live now c).row x = none) :
    live now (c.put x r) = live now c := by
  refine Table.ext_row fun y => ?_
  rw [live_row, Table.put_row]
  split
  · rename_i hy
    rw [hy, hx]
    simp [h]
  · rfl

/-- A member is absent, present, or left over. -/
theorem row_cases (now : Time) (c : Table Bytes (Row S .kvZsets)) (x : Bytes) :
    c.row x = none ∨ (∃ r, c.row x = some r ∧ r.live now = true) ∨ LeftOver now c x := by
  rcases hrow : c.row x with _ | r
  · exact Or.inl rfl
  · cases hlive : r.live now with
    | true => exact Or.inr (Or.inl ⟨r, rfl, hlive⟩)
    | false => exact Or.inr (Or.inr ⟨r, hrow, hlive⟩)

theorem live_row_of_live {r : Row S .kvZsets} (h : c.row x = some r) (hlive : r.live now = true) :
    (live now c).row x = some r.val := by
  rw [live_row, h]
  simp [hlive]

theorem live_row_of_absent (h : c.row x = none) : (live now c).row x = none := by
  rw [live_row, h]
  rfl

theorem LeftOver.live_row (h : LeftOver now c x) : (live now c).row x = none := by
  obtain ⟨r, hr, hlive⟩ := h
  rw [Postkeys.live_row, hr]
  simp [hlive]

theorem ne_empty_of_mem_dom {u : Table Bytes S} (h : x ∈ u.dom) : u ≠ ∅ := by
  rintro rfl
  cases h

end rows

section refinement
variable {S : Type} [LinearOrder S] [Float64 S] {o : ZAddOptions} {u : Table Bytes S} {m : ZMember S}
  {c : Table Bytes (Row S .kvZsets)} {now : Time}

theorem skip_iff (hS : OrderedScores S) (s old : S) :
    zAddAction o s (some old) = .skip ↔ o.NX = true ∨ Unmoved o s old := by
  unfold zAddAction Unmoved
  dsimp only
  simp only [Bool.and_eq_true, hS.goLe, hS.goEq]
  split_ifs with hNX hGT hLT heq
  · simp [hNX]
  · simp [hGT]
  · simp [hLT]
  · simp [heq]
  · simp [hNX, hGT, hLT, heq]

/-- The code's decision for a member that is there is that of the rule. -/
theorem zaddRule_present (hS : OrderedScores S) {old : S} (h : u.row m.member = some old) :
    zaddRule o u m = if zAddAction o m.score (some old) = .skip then u else u.put m.member m.score := by
  have hsame (heq : m.score = old) : u.put m.member m.score = u := by
    rw [heq]
    exact put_eq_of_row h
  rw [zaddRule, h]
  dsimp only
  by_cases hstrict : o.NX = true ∨ (o.GT = true ∧ m.score < old) ∨ (o.LT = true ∧ old < m.score)
  · have hskip : zAddAction o m.score (some old) = .skip := by
      rw [skip_iff hS]
      rcases hstrict with hNX | ⟨hGT, hlt⟩ | ⟨hLT, hlt⟩
      · exact Or.inl hNX
      · exact Or.inr (Or.inl ⟨hGT, hlt.le⟩)
      · exact Or.inr (Or.inr (Or.inl ⟨hLT, hlt.le⟩))
    rw [if_pos hstrict, if_pos hskip]
  · rw [if_neg hstrict]
    split
    · rename_i hskip
      apply hsame
      rcases (skip_iff hS _ _).mp hskip with hNX | ⟨hGT, hle⟩ | ⟨hLT, hle⟩ | heq
      · exact absurd (Or.inl hNX) hstrict
      · exact (hle.lt_or_eq).resolve_left fun hlt => hstrict (Or.inr (Or.inl ⟨hGT, hlt⟩))
      · exact ((hle.lt_or_eq).resolve_left fun hlt => hstrict (Or.inr (Or.inr ⟨hLT, hlt⟩))).symm
      · exact heq
    · rfl

theorem rescores_present (hS : OrderedScores S) {old : S} (h : u.row m.member = some old) :
    rescores o u m = true ↔ zAddAction o m.score (some old) ≠ .skip := by
  rw [rescores, h]
  dsimp only
  rw [decide_eq_true_iff, zaddRule_present hS h]
  split
  · rename_i hskip
    simp [h, hskip]
  · rename_i hmoved
    have hne : m.score ≠ old := fun heq => hmoved ((skip_iff hS _ _).mpr (Or.inr (Or.inr (Or.inr heq))))
    simp [hmoved, hne]

omit [Float64 S] in
theorem rescores_absent (h : u.row m.member = none) : rescores o u m = false := by
  rw [rescores, h]

omit [LinearOrder S] in
/-- A pair on a row that is left over changes nothing that can be seen. -/
theorem LeftOver.live_zaddStep (h : LeftOver now c m.member) : live now (zaddStep o c m) = live now c := by
  have hrow := h.live_row
  obtain ⟨r, hr, hlive⟩ := h
  rw [zaddStep_present hr]
  split
  · rfl
  · exact live_put_lapsed hlive hrow

/-- **One pair** of the loop follows the rule, unless it should add a member whose row is left over. -/
theorem live_zaddStep (hS : OrderedScores S) (h : LeftOver now c m.member → o.XX = true) :
    live now (zaddStep o c m) = zaddRule o (live now c) m := by
  rcases row_cases now c m.member with hnone | ⟨r, hr, hlive⟩ | hlapsed
  · rw [zaddStep_absent hnone, zaddRule_absent (live_row_of_absent hnone)]
    split
    · rfl
    · exact live_put_live rfl
  · rw [zaddStep_present hr, zaddRule_present hS (live_row_of_live hr hlive)]
    split
    · rfl
    · exact live_put_live hlive
  · rw [hlapsed.live_zaddStep, zaddRule_absent hlapsed.live_row, h hlapsed]
    rfl

omit [LinearOrder S] in
/-- No pair takes a row out of the rows left over, or puts one there. -/
theorem leftOver_zaddStep (x : Bytes) : LeftOver now (zaddStep o c m) x ↔ LeftOver now c x := by
  by_cases hx : x = m.member
  · subst hx
    rcases hrow : c.row m.member with _ | r
    · rw [zaddStep_absent hrow]
      split
      · rfl
      · simp [LeftOver, hrow, Cell.live]
    · rw [zaddStep_present hrow]
      split
      · rfl
      · simp [LeftOver, hrow, Cell.live]
  · simp only [LeftOver, zaddStep_row_of_ne hx]

omit [LinearOrder S] in
/-- Whether a member's row is left over is the same throughout the loop. -/
theorem leftOver_foldl (ms : List (ZMember S)) (x : Bytes) :
    LeftOver now (ms.foldl (zaddStep o) c) x ↔ LeftOver now c x := by
  induction ms generalizing c with
  | nil => exact Iff.rfl
  | cons m ms ih => rw [List.foldl_cons, ih, leftOver_zaddStep]

/-- **The loop** is the left fold of the rule. -/
theorem live_foldl (hS : OrderedScores S) {ms : List (ZMember S)}
    (h : ∀ m ∈ ms, LeftOver now c m.member → o.XX = true) :
    live now (ms.foldl (zaddStep o) c) = ms.foldl (zaddRule o) (live now c) := by
  induction ms generalizing c with
  | nil => rfl
  | cons m ms ih =>
      rw [List.forall_mem_cons] at h
      rw [List.foldl_cons, List.foldl_cons, ← live_zaddStep hS h.1]
      refine ih fun m' hm' hlapsed => h.2 m' hm' ?_
      rwa [leftOver_zaddStep] at hlapsed

/-! ### The counters -/

/-- The pair rewrites a row that is left over. -/
def strays (now : Time) (o : ZAddOptions) (c : Table Bytes (Row S .kvZsets)) (m : ZMember S) : Bool :=
  match c.row m.member with
  | none => false
  | some r => !r.live now && decide (zAddAction o m.score (some r.val) ≠ .skip)

/-- How often the loop rewrites rows that are left over. -/
def strayUpdates (now : Time) (o : ZAddOptions) : Table Bytes (Row S .kvZsets) → List (ZMember S) → ℕ
  | _, [] => 0
  | c, m :: ms => (if strays now o c m then 1 else 0) + strayUpdates now o (zaddStep o c m) ms

omit [LinearOrder S] in
theorem strays_iff : strays now o c m = true ↔
    ∃ r, c.row m.member = some r ∧ r.live now = false ∧ zAddAction o m.score (some r.val) ≠ .skip := by
  unfold strays
  cases c.row m.member <;> simp

omit [LinearOrder S] in
/-- A pair that rewrites no such row leaves all of them as they are. -/
theorem zaddStep_row_of_not_strays (h : strays now o c m = false) {x : Bytes} {r : Row S .kvZsets}
    (hr : r.live now = false) : (zaddStep o c m).row x = some r ↔ c.row x = some r := by
  by_cases hx : x = m.member
  · subst hx
    by_cases hlapsed : LeftOver now c m.member
    · obtain ⟨r', hr', hlive'⟩ := hlapsed
      have hskip : zAddAction o m.score (some r'.val) = .skip := by
        by_contra hne
        exact Bool.false_ne_true (h.symm.trans (strays_iff.mpr ⟨r', hr', hlive', hne⟩))
      rw [zaddStep_present hr', if_pos hskip]
    · refine iff_of_false (fun hrow => hlapsed ?_) fun hrow => hlapsed ⟨r, hrow, hr⟩
      rw [← leftOver_zaddStep]
      exact ⟨r, hrow, hr⟩
  · rw [zaddStep_row_of_ne hx]

omit [LinearOrder S] in
/-- The loop leaves them alone if none of its pairs would rewrite one. -/
theorem strayUpdates_eq_zero_iff (ms : List (ZMember S)) :
    strayUpdates now o c ms = 0 ↔ ∀ m ∈ ms, strays now o c m = false := by
  induction ms generalizing c with
  | nil => simp [strayUpdates]
  | cons m ms ih =>
      rw [strayUpdates, List.forall_mem_cons, Nat.add_eq_zero_iff, ih]
      cases hm : strays now o c m with
      | true => simp
      | false =>
          have hsame (m' : ZMember S) : strays now o (zaddStep o c m) m' = strays now o c m' := by
            rw [Bool.eq_iff_iff, strays_iff, strays_iff]
            refine exists_congr fun r => ?_
            constructor
            · rintro ⟨hrow, hlive, hmoved⟩
              exact ⟨(zaddStep_row_of_not_strays hm hlive).mp hrow, hlive, hmoved⟩
            · rintro ⟨hrow, hlive, hmoved⟩
              exact ⟨(zaddStep_row_of_not_strays hm hlive).mpr hrow, hlive, hmoved⟩
          simp [hsame]

theorem zaddTick_eq (hS : OrderedScores S) (h : LeftOver now c m.member → o.XX = true) :
    zaddTick o c m = (((zaddRule o (live now c) m).dom.card : ℤ) - (live now c).dom.card,
      (if rescores o (live now c) m then 1 else 0) + (if strays now o c m then 1 else 0)) := by
  rcases row_cases now c m.member with hnone | ⟨r, hr, hlive⟩ | hlapsed
  · have hrow : (live now c).row m.member = none := live_row_of_absent hnone
    have hstray : strays now o c m = false := by
      rw [strays, hnone]
    rw [zaddTick_absent hnone, zaddRule_absent hrow, rescores_absent hrow]
    cases o.XX with
    | true => simp [hstray]
    | false =>
        have hcard : ((live now c).put m.member m.score).dom.card = (live now c).dom.card + 1 :=
          Finset.card_insert_of_notMem (Table.row_eq_none.mp hrow)
        simp [hstray, hcard]
  · have hrow := live_row_of_live hr hlive
    have hstray : strays now o c m = false := by
      rw [strays, hr]
      simp [hlive]
    have hcard : ((live now c).put m.member m.score).dom = (live now c).dom :=
      Finset.insert_eq_of_mem (Table.mem_dom_of_row hrow)
    have hrescores := rescores_present (o := o) hS hrow
    rw [zaddTick_present hr, zaddRule_present hS hrow]
    by_cases hskip : zAddAction o m.score (some r.val) = .skip
    · simp [hskip, hstray, hrescores]
    · simp [hskip, hstray, hrescores, hcard]
  · have hrow := hlapsed.live_row
    rw [zaddRule_absent hrow, rescores_absent hrow, h hlapsed]
    obtain ⟨r, hr, hlive⟩ := hlapsed
    have hstray : strays now o c m = decide (zAddAction o m.score (some r.val) ≠ .skip) := by
      rw [strays, hr]
      simp [hlive]
    rw [zaddTick_present hr]
    by_cases hskip : zAddAction o m.score (some r.val) = .skip
    · simp [hskip, hstray]
    · simp [hskip, hstray]

/-- **The counters** of the loop: the new members, and the updates of the members and of the rows left over. -/
theorem zaddTally_eq (hS : OrderedScores S) {ms : List (ZMember S)}
    (h : ∀ m ∈ ms, LeftOver now c m.member → o.XX = true) :
    zaddTally o c ms = (((ms.foldl (zaddRule o) (live now c)).dom.card : ℤ) - (live now c).dom.card,
      (updates o (live now c) ms : ℤ) + strayUpdates now o c ms) := by
  induction ms generalizing c with
  | nil => simp [zaddTally, updates, strayUpdates, Prod.mk_zero_zero]
  | cons m ms ih =>
      rw [List.forall_mem_cons] at h
      have hlater : ∀ m' ∈ ms, LeftOver now (zaddStep o c m) m'.member → o.XX = true := by
        intro m' hm' hlapsed
        rw [leftOver_zaddStep] at hlapsed
        exact h.2 m' hm' hlapsed
      rw [zaddTally, zaddTick_eq hS h.1, ih hlater, live_zaddStep hS h.1, updates, strayUpdates, List.foldl_cons,
        Prod.mk_add_mk]
      push_cast
      refine Prod.ext ?_ ?_
      · simp only
        omega
      · simp only
        omega

end refinement

/-! ### The command -/

section command
variable {S : Type} [GoFloat S] {e : Env} {d : DB S} {sc : ScriptCache} {key : Bytes} {ms : List (ZMember S)}
  {o : ZAddOptions} {args : List Bytes}

/-- The key, the pairs and the flags of a command that the handler accepts. -/
def zaddRequest : List Bytes → Option (Bytes × List (ZMember S) × ZAddOptions)
  | key :: a :: b :: rest =>
      let parsed := Handlers.zaddFlags ⟨false, false, false, false, false⟩ (a :: b :: rest)
      let o := parsed.1
      if o.NX && o.XX || o.GT && o.LT || (o.GT || o.LT) && o.NX then none
      else if parsed.2.length = 0 ∨ parsed.2.length % 2 ≠ 0 then none
      else (Handlers.zaddMembers parsed.2).map fun members => (key, members, o)
  | _ => none

theorem zaddMembers_ne_nil {words : List Bytes} (h : ¬(words.length = 0 ∨ words.length % 2 ≠ 0))
    (hms : Handlers.zaddMembers words = some ms) : ms ≠ [] := by
  rcases words with _ | ⟨score, _ | ⟨member, rest⟩⟩
  · exact absurd (Or.inl rfl) h
  · exact absurd (Or.inr Nat.one_ne_zero) h
  · rw [Handlers.zaddMembers] at hms
    obtain ⟨s, -, hrest⟩ := Option.bind_eq_some_iff.mp hms
    obtain ⟨l, -, hl⟩ := Option.bind_eq_some_iff.mp hrest
    cases hl
    exact List.cons_ne_nil _ _

/-- What the handler accepts it passes on. -/
theorem zaddRequest_spec (h : zaddRequest args = some (key, ms, o)) :
    Handlers.zaddOp args = Proc.answerTyped (.zAdd key ms o) ∧ ¬(o.NX = true ∧ o.XX = true) ∧ ms ≠ [] := by
  rcases args with _ | ⟨k, _ | ⟨a, _ | ⟨b, rest⟩⟩⟩
  · cases h
  · cases h
  · cases h
  · unfold zaddRequest at h
    dsimp only at h
    split_ifs at h with hflags hwords
    obtain ⟨members, hmembers, heq⟩ := Option.map_eq_some_iff.mp h
    cases heq
    simp only [Bool.or_eq_true, not_or, Bool.not_eq_true] at hflags
    obtain ⟨⟨hNX, hGT⟩, hboth⟩ := hflags
    refine ⟨?_, ?_, zaddMembers_ne_nil hwords hmembers⟩
    · rw [Handlers.zaddOp, if_neg (by simp [hNX]), if_neg (by simp [hGT]), if_neg (by simp [hboth]),
        if_neg hwords, hmembers]
      rfl
    · rw [← Bool.and_eq_true, hNX]
      exact Bool.false_ne_true

end command

section store
variable {S : Type} [Float64 S] {e : Env} {d : DB S} {key : Bytes} {ms : List (ZMember S)} {o : ZAddOptions}

/-- The rows of the key and its type after the loop. -/
def zaddWritten (o : ZAddOptions) (ms : List (ZMember S)) (k : Bytes) (d : DB S) : DB S :=
  (d.setRows .kvMeta k (Table.single () ⟨.zset, none⟩)).setRows .kvZsets k
    (ms.foldl (zaddStep o) (d.rows .kvZsets k))

theorem liveType_zaddWritten {now : Time} {k : Bytes} : liveType now (zaddWritten o ms k d) k = some .zset := by
  rw [liveType, zaddWritten, Store.rows_setRows_of_ne_table _ (by decide), Store.rows_setRows_self]
  rfl

theorem rows_zaddWritten {k : Bytes} :
    (zaddWritten o ms k d).rows .kvZsets k = ms.foldl (zaddStep o) (d.rows .kvZsets k) :=
  Store.rows_setRows_self ..

theorem exec_zAdd_idle (htype : liveType e.now d (encodeKey key) = none) (hXX : o.XX = true) :
    (Cmd.zAdd key ms o).exec e d = (.ok (.int 0), d) := by
  refine Cmd.exec_eq_of_total ?_
  rw [Cmd.op, total_map, Postkeys.zAdd, total_requireType]
  refine ⟨Or.inl htype, ?_⟩
  rw [if_pos ⟨htype, hXX⟩]
  exact ⟨rfl, rfl⟩

theorem exec_zAdd (htype : liveType e.now d (encodeKey key) = none ∨ liveType e.now d (encodeKey key) = some .zset)
    (hrun : ¬(liveType e.now d (encodeKey key) = none ∧ o.XX = true)) :
    (Cmd.zAdd key ms o).exec e d = (.ok (.int
      (if o.CH then (zaddTally o (d.rows .kvZsets (encodeKey key)) ms).1 +
          (zaddTally o (d.rows .kvZsets (encodeKey key)) ms).2
        else (zaddTally o (d.rows .kvZsets (encodeKey key)) ms).1)), zaddWritten o ms (encodeKey key) d) := by
  refine Cmd.exec_eq_of_total ?_
  rw [Cmd.op, total_map, Postkeys.zAdd, total_requireType]
  refine ⟨htype, ?_⟩
  rw [if_neg hrun, total_bind, total_setMeta, total_bind, total_zAddLoop,
    Store.rows_setRows_of_ne_table _ (by decide), Prod.mk_zero_zero, zero_add]
  exact ⟨rfl, rfl⟩

end store

section fold
variable {S : Type} [LinearOrder S] [Float64 S] {e : Env} {d : DB S} {sc : ScriptCache} {key : Bytes}
  {ms : List (ZMember S)} {o : ZAddOptions} {args : List Bytes}

/-- The key holds the left fold of the rule over the pairs; the reply counts the new members and, with `CH`, the
updates; and a key that was listed exactly if it had members is so still. -/
structure AddsFold (now : Time) (d d' : DB S) (k : Bytes) (o : ZAddOptions) (ms : List (ZMember S))
    (reply : Except String Value) : Prop where
  members : live now (d'.rows .kvZsets k) = ms.foldl (zaddRule o) (live now (d.rows .kvZsets k))
  counted : reply = .ok (.int (newMembers (live now (d.rows .kvZsets k)) (live now (d'.rows .kvZsets k)) +
    if o.CH then (updates o (live now (d.rows .kvZsets k)) ms : ℤ) else 0))
  listed : (liveType now d k ≠ none ↔ live now (d.rows .kvZsets k) ≠ ∅) →
    (liveType now d' k ≠ none ↔ live now (d'.rows .kvZsets k) ≠ ∅)

/-- With `XX` on a key that is not listed the rule has nothing to do; otherwise a pair may meet a row that is left
over only with `XX`, and with `CH` besides only if it leaves the score of the row. -/
def MeetsNoLapsed (now : Time) (d : DB S) (k : Bytes) (o : ZAddOptions) (ms : List (ZMember S)) : Prop :=
  if liveType now d k = none ∧ o.XX = true then
    ms.foldl (zaddRule o) (live now (d.rows .kvZsets k)) = live now (d.rows .kvZsets k) ∧
      (o.CH = true → updates o (live now (d.rows .kvZsets k)) ms = 0)
  else ∀ m ∈ ms, ∀ r, (d.rows .kvZsets k).row m.member = some r → r.live now = false →
    o.XX = true ∧ (o.CH = true → Unmoved o m.score r.val)

omit [Float64 S] in
theorem addsFold_idle_iff {now : Time} {k : Bytes} :
    AddsFold now d d k o ms (.ok (.int 0)) ↔
      ms.foldl (zaddRule o) (live now (d.rows .kvZsets k)) = live now (d.rows .kvZsets k) ∧
        (o.CH = true → updates o (live now (d.rows .kvZsets k)) ms = 0) := by
  have hnew : newMembers (live now (d.rows .kvZsets k)) (live now (d.rows .kvZsets k)) = 0 := by
    simp [newMembers]
  constructor
  · intro h
    refine ⟨h.members.symm, fun hCH => ?_⟩
    have hreply := h.counted
    rw [hnew, hCH] at hreply
    have hzero : (0 : ℤ) = ((0 : ℕ) : ℤ) + updates o (live now (d.rows .kvZsets k)) ms :=
      congrArg Value.num (Except.ok.inj hreply)
    omega
  · rintro ⟨hfold, hcount⟩
    refine ⟨hfold.symm, ?_, id⟩
    rw [hnew]
    cases hCH : o.CH with
    | true => simp [hcount hCH]
    | false => simp

/-- The loop on a listed key, or without `XX`. -/
theorem addsFold_run_iff (hS : OrderedScores S) {now : Time} {k : Bytes} (hflags : ¬(o.NX = true ∧ o.XX = true))
    (hms : ms ≠ []) (hrun : ¬(liveType now d k = none ∧ o.XX = true)) :
    AddsFold now d (zaddWritten o ms k d) k o ms (.ok (.int
      (if o.CH then (zaddTally o (d.rows .kvZsets k) ms).1 + (zaddTally o (d.rows .kvZsets k) ms).2
        else (zaddTally o (d.rows .kvZsets k) ms).1))) ↔
      ∀ m ∈ ms, ∀ r, (d.rows .kvZsets k).row m.member = some r → r.live now = false →
        o.XX = true ∧ (o.CH = true → Unmoved o m.score r.val) := by
  set c := d.rows .kvZsets k with hc
  have hcards : (newMembers (live now c) (ms.foldl (zaddRule o) (live now c)) : ℤ) =
      (ms.foldl (zaddRule o) (live now c)).dom.card - (live now c).dom.card := newMembers_eq_sub (dom_subset_foldl ms)
  constructor
  · intro h
    have hfold := h.members
    rw [rows_zaddWritten] at hfold
    have hXX : ∀ m ∈ ms, LeftOver now c m.member → o.XX = true := by
      intro m hm hlapsed
      by_contra hne
      -- the rule adds the member, the loop only rewrites its row
      have hmem : m.member ∈ (ms.foldl (zaddRule o) (live now c)).dom := mem_foldl (by simpa using hne) hm
      rw [← hfold] at hmem
      exact Table.row_eq_none.mp (((leftOver_foldl ms m.member).mpr hlapsed).live_row) hmem
    intro m hm r hr hlive
    have hx : o.XX = true := hXX m hm ⟨r, hr, hlive⟩
    refine ⟨hx, fun hCH => ?_⟩
    have hreply := h.counted
    rw [rows_zaddWritten, ← hc, live_foldl hS hXX, zaddTally_eq hS hXX, hcards, if_pos hCH, if_pos hCH] at hreply
    have hnum := congrArg Value.num (Except.ok.inj hreply)
    dsimp only [Value.int] at hnum
    have hstray : strayUpdates now o c ms = 0 := by omega
    have hkept := (strayUpdates_eq_zero_iff ms).mp hstray m hm
    have hskip : zAddAction o m.score (some r.val) = .skip := by
      by_contra hmoved
      exact Bool.false_ne_true (hkept.symm.trans (strays_iff.mpr ⟨r, hr, hlive, hmoved⟩))
    exact ((skip_iff hS _ _).mp hskip).resolve_left fun hNX => hflags ⟨hNX, hx⟩
  · intro h
    have hXX : ∀ m ∈ ms, LeftOver now c m.member → o.XX = true := by
      rintro m hm ⟨r, hr, hlive⟩
      exact (h m hm r hr hlive).1
    have hfold := live_foldl hS hXX
    refine ⟨?_, ?_, fun hlisted => ?_⟩
    · rw [rows_zaddWritten]
      exact hfold
    · rw [rows_zaddWritten, ← hc, hfold, zaddTally_eq hS hXX, hcards]
      cases hCH : o.CH with
      | false => simp
      | true =>
          have hstray : strayUpdates now o c ms = 0 := by
            rw [strayUpdates_eq_zero_iff]
            intro m hm
            by_contra hstrays
            obtain ⟨r, hr, hlive, hmoved⟩ := strays_iff.mp (by simpa using hstrays)
            exact hmoved ((skip_iff hS _ _).mpr (Or.inr ((h m hm r hr hlive).2 hCH)))
          simp [hstray]
    · rw [rows_zaddWritten, hfold]
      refine iff_of_true ?_ ?_
      · rw [liveType_zaddWritten]
        exact Option.some_ne_none _
      · by_cases hkey : liveType now d k = none
        · -- a new key gets the member of the first pair
          obtain ⟨m, rest, rfl⟩ := List.exists_cons_of_ne_nil hms
          have hx : o.XX = false := by
            cases hX : o.XX with
            | false => rfl
            | true => exact absurd ⟨hkey, hX⟩ hrun
          exact ne_empty_of_mem_dom (mem_foldl hx (List.mem_cons_self ..))
        · obtain ⟨x, s, hx⟩ := Table.ne_empty_iff.mp (hlisted.mp hkey)
          exact ne_empty_of_mem_dom (dom_subset_foldl ms (Table.mem_dom_of_row hx))

end fold

/-! ### The flags of `ZADD` -/

section flags
variable {S : Type} [LinearOrder S] [GoFloat S] {e : Env} {d : DB S} {sc : ScriptCache} {key : Bytes}
  {ms : List (ZMember S)} {o : ZAddOptions} {args : List Bytes}

/-- **`ZADD` is the left fold of the rule for one pair** exactly if its pairs meet no row that is left over, but for
those which the command leaves alone. -/
theorem zadd_fold_iff (hS : OrderedScores S) (hargs : zaddRequest args = some (key, ms, o))
    (htype : liveType e.now d (encodeKey key) = none ∨ liveType e.now d (encodeKey key) = some .zset) :
    AddsFold e.now d ((Handlers.zaddOp args : Proc S).direct e sc d).2.2 (encodeKey key) o ms
        ((Handlers.zaddOp args : Proc S).direct e sc d).1 ↔ MeetsNoLapsed e.now d (encodeKey key) o ms := by
  obtain ⟨hop, hflags, hms⟩ := zaddRequest_spec hargs
  rw [hop, MeetsNoLapsed]
  split
  · rename_i hidle
    rw [Proc.direct_answerTyped (exec_zAdd_idle hidle.1 hidle.2)]
    exact addsFold_idle_iff
  · rename_i hrun
    rw [Proc.direct_answerTyped (exec_zAdd htype hrun)]
    exact addsFold_run_iff hS hflags hms hrun

end flags

theorem orderedWholeScores : OrderedScores ℤ where
  goLe _ _ := decide_eq_true_iff
  goEq _ _ := decide_eq_true_iff

/-- `ZADD z 5 a 7 a` on a key that does not exist. -/
theorem zadd_fold_twice :
    AddsFold 0 (emptyDB : DB ℤ)
      ((Handlers.zaddOp [[122], [53], [97], [55], [97]] : Proc ℤ).direct (envAt 0) ∅ emptyDB).2.2 (encodeKey [122])
      ⟨false, false, false, false, false⟩ [⟨[97], 5⟩, ⟨[97], 7⟩]
      ((Handlers.zaddOp [[122], [53], [97], [55], [97]] : Proc ℤ).direct (envAt 0) ∅ emptyDB).1 := by
  have hnone : liveType 0 (emptyDB : DB ℤ) (encodeKey [122]) = none := by
    rw [liveType, rows_emptyDB]
    rfl
  refine (zadd_fold_iff (e := envAt 0) orderedWholeScores rfl (Or.inl hnone)).mpr ?_
  rw [MeetsNoLapsed, if_neg (by simp), rows_emptyDB]
  intro m _ r hr
  cases hr

/-- The sorted set `z` with the member `a`, after its time. -/
def expiredMember : DB ℤ :=
  (emptyDB.setRows .kvMeta (encodeKey [122]) (Table.single () ⟨.zset, some 0⟩)).setRows .kvZsets (encodeKey [122])
    (Table.single [97] ⟨5, some 0⟩)

/-- `ZADD z 7 a` replies 0 and does not add `a`, if `z` has expired and has not been cleaned up yet. -/
theorem zadd_on_expired :
    (zaddRequest [[122], [55], [97]] : Option (Bytes × List (ZMember ℤ) × ZAddOptions)) =
      some ([122], [⟨[97], 7⟩], ⟨false, false, false, false, false⟩) ∧
    live 1 (expiredMember.rows .kvZsets (encodeKey [122])) = ∅ ∧
    (zaddRule ⟨false, false, false, false, false⟩ ∅ (⟨[97], 7⟩ : ZMember ℤ)).row [97] = some 7 ∧
    ((Handlers.zaddOp [[122], [55], [97]] : Proc ℤ).direct (envAt 1) ∅ expiredMember).1 = .ok (.int 0) ∧
    live 1 (((Handlers.zaddOp [[122], [55], [97]] : Proc ℤ).direct (envAt 1) ∅ expiredMember).2.2.rows
      .kvZsets (encodeKey [122])) = ∅ ∧
    liveType 1 ((Handlers.zaddOp [[122], [55], [97]] : Proc ℤ).direct (envAt 1) ∅ expiredMember).2.2
      (encodeKey [122]) = some .zset := by
  have hrows : expiredMember.rows .kvZsets (encodeKey [122]) = Table.single [97] ⟨5, some 0⟩ :=
    Store.rows_setRows_self ..
  have hnone : liveType 1 expiredMember (encodeKey [122]) = none := by
    rw [liveType, expiredMember, Store.rows_setRows_of_ne_table _ (by decide), Store.rows_setRows_self]
    rfl
  have hrequest : (zaddRequest [[122], [55], [97]] : Option (Bytes × List (ZMember ℤ) × ZAddOptions)) =
      some ([122], [⟨[97], 7⟩], ⟨false, false, false, false, false⟩) := rfl
  obtain ⟨hop, -, -⟩ := zaddRequest_spec hrequest
  have hexec : (Cmd.zAdd [122] [(⟨[97], 7⟩ : ZMember ℤ)] ⟨false, false, false, false, false⟩).exec (envAt 1)
      expiredMember = _ := exec_zAdd (Or.inl hnone) (by simp)
  have hlapsed : LeftOver 1 (expiredMember.rows .kvZsets (encodeKey [122])) [97] := by
    rw [hrows]
    exact ⟨⟨5, some 0⟩, rfl, rfl⟩
  have hempty : live 1 (expiredMember.rows .kvZsets (encodeKey [122])) = ∅ := by
    rw [hrows, Table.eq_empty_iff]
    intro x
    rw [live_row, Table.single_row]
    split <;> rfl
  rw [hop, Proc.direct_answerTyped hexec]
  refine ⟨hrequest, hempty, rfl, ?_, ?_, liveType_zaddWritten⟩
  · rw [hrows]
    rfl
  · rw [rows_zaddWritten, List.foldl_cons, List.foldl_nil, hlapsed.live_zaddStep]
    exact hempty

end Postkeys
