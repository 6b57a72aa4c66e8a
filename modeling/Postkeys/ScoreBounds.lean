import Postkeys.ExactScores
import Postkeys.LimitLaw

/-! # Selecting by score

Six commands select the members of a sorted set whose scores satisfy two bounds.  `score_bounds_iff` says for each
of them, over exact scores, when it selects exactly these: when no score of a member lies in a gap of the bounds as
the command reads them. -/

namespace Postkeys

open Relational Program

/-! ### Parts of a sorted set -/

section parts
variable {S : Type} [Float64 S]

theorem ZMember.Before.not_symm {a b : ZMember S} (hab : a.Before b) (hba : b.Before a) : False := by
  obtain ⟨hle, hne⟩ := hab
  obtain ⟨h₁, h₂⟩ := scoreLe_iff.mp hle
  obtain ⟨h₃, h₄⟩ := scoreLe_iff.mp hba.1
  exact hne (le_antisymm (h₂ h₃) (h₄ h₁))

/-- The order of a part is the part of the order. -/
theorem zMembers_restrict (u : Table Bytes S) (p : S → Bool) :
    zMembers (u.restrict fun _ s => p s) = (zMembers u).filter fun m => p m.score := by
  have hperm : (zMembers (u.restrict fun _ s => p s)).Perm ((zMembers u).filter fun m => p m.score) := by
    refine (List.perm_ext_iff_of_nodup (members_zMembers _).of_map
      ((members_zMembers u).of_map.filter _)).mpr fun m => ?_
    rw [mem_zMembers_iff, Table.restrict_row_some, List.mem_filter, mem_zMembers_iff]
  exact hperm.eq_of_pairwise (fun a b _ _ hab hba => (hab.not_symm hba).elim) (pairwise_zMembers _)
    ((pairwise_zMembers u).sublist List.filter_sublist)

theorem membersValue_filter_iff (withScores : Bool) {l : List (ZMember S)} (hl : (l.map ZMember.member).Nodup)
    (p q : ZMember S → Bool) :
    membersValue withScores (l.filter p) = membersValue withScores (l.filter q) ↔ ∀ m ∈ l, p m = q m := by
  constructor
  · intro h m hm
    have hnames := membersValue_members h
    have hmem (r : ZMember S → Bool) : m.member ∈ (l.filter r).map ZMember.member ↔ r m = true := by
      constructor
      · intro hr
        obtain ⟨m', hm', hname⟩ := List.mem_map.mp hr
        obtain ⟨hml, hrm⟩ := List.mem_filter.mp hm'
        rwa [List.inj_on_of_nodup_map hl hml hm hname] at hrm
      · intro hr
        exact List.mem_map.mpr ⟨m, List.mem_filter.mpr ⟨hm, hr⟩, rfl⟩
    rw [Bool.eq_iff_iff, ← hmem p, ← hmem q, hnames]
  · intro h
    rw [List.filter_congr h]

end parts

/-! ### Misjudged scores -/

instance decidableAbove : (b : BoundWord ExactScore) → DecidablePred (Above b)
  | .minusInf, _ => inferInstanceAs (Decidable True)
  | .plusInf, s => inferInstanceAs (Decidable (⊤ ≤ s))
  | .number x exclusive, s => inferInstanceAs (Decidable (if exclusive then x < s else x ≤ s))

instance decidableBelow : (b : BoundWord ExactScore) → DecidablePred (Below b)
  | .minusInf, s => inferInstanceAs (Decidable (s ≤ ⊥))
  | .plusInf, _ => inferInstanceAs (Decidable True)
  | .number x exclusive, s => inferInstanceAs (Decidable (if exclusive then s < x else s ≤ x))

instance decidableWithin (lo hi : BoundWord ExactScore) : DecidablePred (Within lo hi) :=
  fun s => inferInstanceAs (Decidable (Above lo s ∧ Below hi s))

/-- A command selects the score: each bound is satisfied, or else misjudged. -/
def Taken (style : BoundStyle) (lo hi : BoundWord ExactScore) (s : ExactScore) : Prop :=
  Xor (Above lo s) (LowGap style lo s) ∧ Xor (Below hi s) (HighGap style hi s)

/-- The score satisfies the bounds and is not selected, or the other way round. -/
def Misjudged (style : BoundStyle) (lo hi : BoundWord ExactScore) (s : ExactScore) : Prop :=
  Xor (Within lo hi s) (Taken style lo hi s)

instance decidableLowGap : (style : BoundStyle) → (b : BoundWord ExactScore) → DecidablePred (LowGap style b)
  | .literal, .minusInf, _ | .literal, .plusInf, _ => inferInstanceAs (Decidable False)
  | .clamped, .minusInf, s => inferInstanceAs (Decidable (s < .num (-big)))
  | .clamped, .plusInf, s => inferInstanceAs (Decidable (.num big ≤ s ∧ s < ⊤))
  | .literal, .number x exclusive, s | .clamped, .number x exclusive, s => inferInstanceAs (Decidable
      (exclusive = true ∧ (x < s ∧ s < x + .num tiny ∨ s = x ∧ (x = ⊥ ∨ x = ⊤))))

instance decidableHighGap : (style : BoundStyle) → (b : BoundWord ExactScore) → DecidablePred (HighGap style b)
  | .literal, .minusInf, _ | .literal, .plusInf, _ => inferInstanceAs (Decidable False)
  | .clamped, .minusInf, s => inferInstanceAs (Decidable (⊥ < s ∧ s ≤ .num (-big)))
  | .clamped, .plusInf, s => inferInstanceAs (Decidable (.num big < s))
  | .literal, .number x exclusive, s =>
      inferInstanceAs (Decidable (exclusive = true ∧ x ≤ s ∧ s ≤ x + .num tiny))
  | .clamped, .number x exclusive, s => inferInstanceAs (Decidable
      (exclusive = true ∧ (ExactScore.sub x (.num tiny) < s ∧ s < x ∨ s = x ∧ (x = ⊥ ∨ x = ⊤))))

instance decidableTaken (style : BoundStyle) (lo hi : BoundWord ExactScore) : DecidablePred (Taken style lo hi) :=
  fun s => inferInstanceAs (Decidable
    (Xor (Above lo s) (LowGap style lo s) ∧ Xor (Below hi s) (HighGap style hi s)))

section scores
variable [ScoreText] {style : BoundStyle} {lo hi : BoundWord ExactScore}

theorem scoreBetween_iff (s : ExactScore) :
    scoreBetween (lowValue style lo) (highValue style hi) s = true ↔ Taken style lo hi s := by
  rw [Taken, ← lowValue_le_iff, ← le_highValue_iff, scoreBetween, Bool.and_eq_true]
  exact and_congr decide_eq_true_iff decide_eq_true_iff

theorem scoreBetween_eq_iff (s : ExactScore) :
    scoreBetween (lowValue style lo) (highValue style hi) s = decide (Within lo hi s) ↔ ¬ Misjudged style lo hi s := by
  rw [Bool.eq_iff_iff, scoreBetween_iff, decide_eq_true_iff, Misjudged, xor_comm]
  exact (not_xor _ _).symm

variable {e : Env} {d : DB ExactScore} {sc : ScriptCache} {key : Bytes}

/-- The members whose scores satisfy both bounds. -/
def membersWithin (now : Time) (d : DB ExactScore) (key : Bytes) (lo hi : BoundWord ExactScore) :
    List (ZMember ExactScore) :=
  (zOrder now d key).filter fun m => decide (Within lo hi m.score)

/-- No score of a member is misjudged. -/
def AllJudged (now : Time) (d : DB ExactScore) (key : Bytes) (style : BoundStyle) (lo hi : BoundWord ExactScore) : Prop :=
  ∀ m ∈ zOrder now d key, ¬ Misjudged style lo hi m.score

/-! ### The reads -/

theorem shown_iff (withScores : Bool) :
    membersValue withScores (scoreRange e.now d key (lowValue style lo) (highValue style hi)) =
        membersValue withScores (membersWithin e.now d key lo hi) ↔ AllJudged e.now d key style lo hi := by
  rw [scoreRange, membersWithin, membersValue_filter_iff withScores (nodup_zOrder e.now d key)]
  exact forall₂_congr fun m _ => scoreBetween_eq_iff m.score

theorem shown_reverse_iff (withScores : Bool) :
    membersValue withScores (scoreRange e.now d key (lowValue style lo) (highValue style hi)).reverse =
        membersValue withScores (membersWithin e.now d key lo hi).reverse ↔ AllJudged e.now d key style lo hi := by
  have hnodup : ((zOrder e.now d key).reverse.map ZMember.member).Nodup := by
    rw [List.map_reverse]
    exact List.nodup_reverse.mpr (nodup_zOrder e.now d key)
  rw [scoreRange, membersWithin, ← List.filter_reverse, ← List.filter_reverse,
    membersValue_filter_iff withScores hnodup]
  simp only [List.mem_reverse]
  exact forall₂_congr fun m _ => scoreBetween_eq_iff m.score

theorem eq_membersWithin_iff : scoreRange e.now d key (lowValue style lo) (highValue style hi) =
    membersWithin e.now d key lo hi ↔ AllJudged e.now d key style lo hi := by
  rw [← shown_iff false]
  refine ⟨fun h => congrArg _ h, fun h => ?_⟩
  have hall := (shown_iff false).mp h
  rw [scoreRange, membersWithin]
  exact List.filter_congr fun m hm => (scoreBetween_eq_iff m.score).mpr (hall m hm)

/-! ### Counting -/

/-- The number of members with some kind of score. -/
def numberOf (now : Time) (d : DB ExactScore) (key : Bytes) (P : ExactScore → Prop) [DecidablePred P] : ℕ :=
  (zOrder now d key).countP fun m => decide (P m.score)

omit [ScoreText] in
theorem countP_eq_iff {α : Type} (p q : α → Bool) (l : List α) :
    l.countP p = l.countP q ↔ (l.countP fun x => p x && !q x) = l.countP fun x => q x && !p x := by
  have hsplit (p q : α → Bool) : l.countP p = (l.countP fun x => p x && q x) + l.countP fun x => p x && !q x := by
    rw [List.countP_eq_countP_filter_add l p q, List.countP_filter, List.countP_filter]
  have hboth : (l.countP fun x => p x && q x) = l.countP fun x => q x && p x :=
    List.countP_congr fun x _ => by rw [Bool.and_comm]
  have hp := hsplit p q
  have hq := hsplit q p
  omega

theorem length_scoreRange_iff : (scoreRange e.now d key (lowValue style lo) (highValue style hi)).length =
      (membersWithin e.now d key lo hi).length ↔
    numberOf e.now d key (fun s => Taken style lo hi s ∧ ¬ Within lo hi s) =
      numberOf e.now d key fun s => Within lo hi s ∧ ¬ Taken style lo hi s := by
  have htaken (s : ExactScore) :
      scoreBetween (lowValue style lo) (highValue style hi) s = decide (Taken style lo hi s) := by
    rw [Bool.eq_iff_iff, scoreBetween_iff, decide_eq_true_iff]
  rw [scoreRange, membersWithin, ← List.countP_eq_length_filter, ← List.countP_eq_length_filter, countP_eq_iff,
    numberOf, numberOf]
  simp only [htaken, Bool.decide_and, decide_not]

omit [ScoreText] in
theorem exec_zCount {S : Type} [Float64 S] {d : DB S} (min max : S) :
    (Cmd.zCount key min max : Cmd S).exec e d = (.ok (.int (scoreRange e.now d key min max).length), d) := by
  rw [scoreRange, zOrder, ← zMembers_restrict, length_zMembers]
  rfl

/-! ### Removing -/

section removing
variable {V : Type} (now : Time) (u : Table Bytes (Cell V)) (p : V → Bool)

omit [ScoreText] in
theorem live_restrict : live now (u.restrict fun _ r => p r.val) = (live now u).restrict fun _ v => p v := by
  refine Table.ext_row fun m => ?_
  rw [live_row, Table.restrict_row, Table.restrict_row, live_row]
  cases u.row m with
  | none => rfl
  | some r => cases hp : p r.val <;> cases hl : r.live now <;> simp [hp, hl]

omit [ScoreText] in
/-- The rows that a statement counts besides the live ones. -/
theorem count_restrict_eq_iff :
    count (u.restrict fun _ r => p r.val) = count ((live now u).restrict fun _ v => p v) ↔
      ∀ m r, u.row m = some r → r.live now = false → p r.val = false := by
  rw [← live_restrict]
  have hmem (m : Bytes) : m ∈ (live now (u.restrict fun _ r => p r.val)).dom ↔
      ∃ r, u.row m = some r ∧ p r.val = true ∧ r.live now = true := by
    rw [Table.mem_dom, live_row, Table.restrict_row]
    cases u.row m with
    | none => simp
    | some r => cases hp : p r.val <;> cases hl : r.live now <;> simp [hp, hl]
  have hmem' (m : Bytes) : m ∈ (u.restrict fun _ r => p r.val).dom ↔ ∃ r, u.row m = some r ∧ p r.val = true := by
    rw [Table.mem_dom, Option.isSome_iff_exists]
    simp only [Table.restrict_row_some]
  have hsub : (live now (u.restrict fun _ r => p r.val)).dom ⊆ (u.restrict fun _ r => p r.val).dom := by
    intro m hm
    obtain ⟨r, hr, hp, -⟩ := (hmem m).mp hm
    exact (hmem' m).mpr ⟨r, hr, hp⟩
  constructor
  · intro h m r hr hl
    have hdom := Finset.eq_of_subset_of_card_le hsub (Int.ofNat_le.mp h.le)
    by_contra hp
    have hm := (hmem' m).mpr ⟨r, hr, by simpa using hp⟩
    rw [← hdom, hmem] at hm
    obtain ⟨r', hr', -, hl'⟩ := hm
    rw [hr] at hr'
    cases hr'
    rw [hl] at hl'
    cases hl'
  · intro h
    have hdom : (u.restrict fun _ r => p r.val).dom = (live now (u.restrict fun _ r => p r.val)).dom := by
      refine Finset.Subset.antisymm (fun m hm => ?_) hsub
      obtain ⟨r, hr, hp⟩ := (hmem' m).mp hm
      refine (hmem m).mpr ⟨r, hr, hp, ?_⟩
      by_contra hl
      rw [h m r hr (by simpa using hl)] at hp
      cases hp
    rw [count, count, hdom]

end removing

section range
variable {S : Type} [Float64 S] {d : DB S} (min max : S)

/-- The store without the rows of a range of scores. -/
def withoutRange (d : DB S) (key : Bytes) (min max : S) : DB S :=
  d.setRows .kvZsets (encodeKey key)
    ((d.rows .kvZsets (encodeKey key)).restrict fun _ r => !scoreBetween min max r.val)

omit [ScoreText] in
theorem exec_removeRange : (Cmd.zRemRangeByScore key min max : Cmd S).exec e d =
    (.ok (.int (count ((d.rows .kvZsets (encodeKey key)).restrict fun _ r => scoreBetween min max r.val))),
      withoutRange d key min max) := rfl

omit [ScoreText] in
theorem zOrder_withoutRange (now : Time) : zOrder now (withoutRange d key min max) key =
    (zOrder now d key).filter fun m => !scoreBetween min max m.score := by
  rw [zOrder, withoutRange, Store.rows_setRows_self, live_restrict now _ fun v => !scoreBetween min max v,
    zMembers_restrict _ fun v => !scoreBetween min max v]
  rfl

omit [ScoreText] in
theorem rows_withoutRange {t : Tab} {k : Bytes} (h : t ≠ .kvZsets ∨ k ≠ encodeKey key) :
    (withoutRange d key min max).rows t k = d.rows t k := by
  rcases h with ht | hk
  · exact Store.rows_setRows_of_ne_table _ ht _ _ _
  · exact Store.rows_setRows_of_ne_key _ _ _ hk _

omit [ScoreText] in
/-- A removal counts lapsed rows too. -/
theorem count_removed_iff (now : Time) (d : DB S) (key : Bytes) :
    count ((d.rows .kvZsets (encodeKey key)).restrict fun _ r => scoreBetween min max r.val) =
        (scoreRange now d key min max).length ↔
      ∀ m r, (d.rows .kvZsets (encodeKey key)).row m = some r → r.live now = false →
        scoreBetween min max r.val = false := by
  have hcount : count ((live now (d.rows .kvZsets (encodeKey key))).restrict fun _ v => scoreBetween min max v) =
      ((scoreRange now d key min max).length : ℤ) := by
    rw [← length_zMembers, zMembers_restrict _ fun v => scoreBetween min max v]
    rfl
  rw [← hcount]
  exact count_restrict_eq_iff now _ fun v => scoreBetween min max v

end range

/-- A command removes the members within the bounds: it replies their number, the others stay as they were, and so
does everything else. -/
def RemovesWithin (e : Env) (sc : ScriptCache) (d : DB ExactScore) (key : Bytes) (p : Proc ExactScore)
    (lo hi : BoundWord ExactScore) : Prop :=
  (p.direct e sc d).1 = .ok (.int (membersWithin e.now d key lo hi).length) ∧
  zOrder e.now (p.direct e sc d).2.2 key = ((zOrder e.now d key).filter fun m => !decide (Within lo hi m.score)) ∧
  ∀ t k, t ≠ .kvZsets ∨ k ≠ encodeKey key → (p.direct e sc d).2.2.rows t k = d.rows t k

theorem remaining_iff : zOrder e.now (withoutRange d key (lowValue style lo) (highValue style hi)) key =
      ((zOrder e.now d key).filter fun m => !decide (Within lo hi m.score)) ↔ AllJudged e.now d key style lo hi := by
  rw [zOrder_withoutRange]
  constructor
  · intro h
    have hall := (membersValue_filter_iff false (nodup_zOrder e.now d key) _ _).mp (congrArg (membersValue false) h)
    exact fun m hm => (scoreBetween_eq_iff m.score).mp (Bool.not_inj (hall m hm))
  · intro h
    exact List.filter_congr fun m hm => congrArg _ ((scoreBetween_eq_iff m.score).mpr (h m hm))

/-- A removal also counts the lapsed rows that it removes. -/
theorem removes_iff : RemovesWithin e sc d key
      (Proc.answerTyped (.zRemRangeByScore key (lowValue style lo) (highValue style hi))) lo hi ↔
    AllJudged e.now d key style lo hi ∧ ∀ m r, (d.rows .kvZsets (encodeKey key)).row m = some r →
      r.live e.now = false → ¬ Taken style lo hi r.val := by
  have hexec : (Cmd.zRemRangeByScore key (lowValue style lo) (highValue style hi) : Cmd ExactScore).exec e d = _ :=
    exec_removeRange ..
  have htaken (s : ExactScore) : scoreBetween (lowValue style lo) (highValue style hi) s = false ↔
      ¬ Taken style lo hi s := by
    rw [← Bool.not_eq_true, scoreBetween_iff]
  have hlapsed := count_removed_iff (lowValue style lo) (highValue style hi) e.now d key
  simp only [htaken] at hlapsed
  rw [RemovesWithin, Proc.direct_answerTyped hexec]
  dsimp only
  rw [remaining_iff]
  constructor
  · rintro ⟨hreply, hall, -⟩
    have hnum := congrArg Value.num (Except.ok.inj hreply)
    rw [← eq_membersWithin_iff.mpr hall] at hnum
    exact ⟨hall, hlapsed.mp hnum⟩
  · rintro ⟨hall, hnone⟩
    refine ⟨?_, hall, fun t k h => rows_withoutRange _ _ h⟩
    rw [← eq_membersWithin_iff.mpr hall, ← hlapsed.mpr hnone]
    rfl

/-! ### Storing -/

/-- A list, reversed if asked for. -/
def ordered {α : Type} (rev : Bool) (l : List α) : List α := if rev then l.reverse else l

/-- The two words for a range by score, the upper bound first if it is reversed. -/
def boundWords (rev : Bool) (min max : Bytes) : Bytes × Bytes := if rev then (max, min) else (min, max)

omit [ScoreText] in
theorem mem_ordered {α : Type} {rev : Bool} {l : List α} {a : α} : a ∈ ordered rev l ↔ a ∈ l := by
  cases rev with
  | false => exact Iff.rfl
  | true => exact List.mem_reverse

omit [ScoreText] in
theorem nodup_ordered {α β : Type} {f : α → β} {rev : Bool} {l : List α} (h : (l.map f).Nodup) :
    ((ordered rev l).map f).Nodup := by
  cases rev with
  | false => exact h
  | true => exact nodup_order .desc f h

theorem selected_score {rev : Bool} {min max : Bytes} (hmin : readBound min = some lo) (hmax : readBound max = some hi) :
    selected .score rev (boundWords rev min max).1 (boundWords rev min max).2 =
      some (.score (lowValue .literal lo) (highValue .literal hi)) := by
  have hlow : Handlers.parseScoreBound min = some (lowValue .literal lo) := by
    rw [parseScoreBound_low, hmin]
    rfl
  have hhigh : Handlers.parseScoreBound max = some (highValue .literal hi) := by
    rw [parseScoreBound_high, hmax]
    rfl
  cases rev with
  | false =>
      simp only [selected, boundWords, Bool.false_eq_true, if_false, hlow, hhigh]
      rfl
  | true =>
      simp only [selected, boundWords, if_true, hlow, hhigh]
      rfl

theorem stored_iff {dst : Bytes} {rev : Bool} {min max : Bytes} (hmin : readBound min = some lo)
    (hmax : readBound max = some hi) :
    Stores e sc d dst (Handlers.zrangestoreOp (dst :: key :: (boundWords rev min max).1 :: (boundWords rev min max).2 ::
        rangeWords .score rev)) (ordered rev (membersWithin e.now d key lo hi)) ↔
      if encodeKey dst = encodeKey key then membersWithin e.now d key lo hi = []
      else AllJudged e.now d key .literal lo hi := by
  rw [zrangestoreOp_eq (selected_score hmin hmax)]
  split_ifs with hkeys
  · -- the source is removed before it is read
    have hempty : sourceRows e.now d dst key = ∅ := by
      rw [sourceRows, hkeys, Store.rows_dropKey_self]
      rfl
    have hread := (rangeStoreMembers_empty (.score (lowValue .literal lo) (highValue .literal hi)) rev (-1)
      le_rfl).2 id
    rw [← hempty] at hread
    constructor
    · intro h
      have hlength := stores_length hread h
      have hnil := List.eq_nil_of_length_eq_zero hlength
      exact List.eq_nil_iff_forall_not_mem.mpr fun m hm => List.eq_nil_iff_forall_not_mem.mp hnil m (mem_ordered.mpr hm)
    · intro h
      rw [h]
      cases rev <;> exact stores_of_members hread
  · have hread : rangeStoreMembers ⟨.score (lowValue .literal lo) (highValue .literal hi), rev, 0, -1⟩
        (sourceRows e.now d dst key) =
        .ok (ordered rev (scoreRange e.now d key (lowValue .literal lo) (highValue .literal hi))) := by
      rw [sourceRows, Store.rows_dropKey_of_ne _ _ (Ne.symm hkeys)]
      cases rev with
      | false => exact membersByScore_eq .asc (lowValue .literal lo) (highValue .literal hi) 0 (-1)
      | true => exact membersByScore_eq .desc (lowValue .literal lo) (highValue .literal hi) 0 (-1)
    have hnodup (p : ZMember ExactScore → Bool) :
        ((ordered rev ((zOrder e.now d key).filter p)).map ZMember.member).Nodup :=
      nodup_ordered ((nodup_zOrder e.now d key).sublist (List.filter_sublist.map _))
    constructor
    · intro h m hm
      have hrows := (stores_of_members hread).2.data.symm.trans h.2.data
      have hmem := mem_iff_of_scoreRows (hnodup _) (hnodup _) hrows m
      rw [mem_ordered, mem_ordered, List.mem_filter, List.mem_filter, and_iff_right hm, and_iff_right hm] at hmem
      exact (scoreBetween_eq_iff m.score).mp (Bool.eq_iff_iff.mpr hmem)
    · intro h
      rw [← eq_membersWithin_iff.mpr h]
      exact stores_of_members hread

/-! ### All commands -/

/-- **When the commands select the members within two bounds.**  The reads and `ZRANGESTORE` do exactly if no score of
a member is misjudged, where `ZRANGEBYSCORE` reads bounds in one way and the others in another; `ZRANGESTORE` onto its
source stores nothing.  `ZCOUNT` counts right if as many scores are taken wrongly as are missed, and
`ZREMRANGEBYSCORE` must not meet a lapsed row that it takes. -/
theorem score_bounds_iff (e : Env) (sc : ScriptCache) (d : DB ExactScore) (key min max : Bytes)
    (lo hi : BoundWord ExactScore) (hmin : readBound min = some lo) (hmax : readBound max = some hi)
    (withScores : Bool) :
    (answerOf e sc d (Handlers.zrangebyscoreOp (key :: min :: max :: scoresWord withScores)) =
        .ok (membersValue withScores (membersWithin e.now d key lo hi)) ↔ AllJudged e.now d key .clamped lo hi) ∧
    (answerOf e sc d (Handlers.zrevrangebyscoreOp (key :: max :: min :: scoresWord withScores)) =
        .ok (membersValue withScores (membersWithin e.now d key lo hi).reverse) ↔
      AllJudged e.now d key .literal lo hi) ∧
    (answerOf e sc d (Handlers.zrangeOp (key :: min :: max :: utf8 "BYSCORE" :: scoresWord withScores)) =
        .ok (membersValue withScores (membersWithin e.now d key lo hi)) ↔ AllJudged e.now d key .literal lo hi) ∧
    (answerOf e sc d (Handlers.zrangeOp
          (key :: max :: min :: utf8 "BYSCORE" :: utf8 "REV" :: scoresWord withScores)) =
        .ok (membersValue withScores (membersWithin e.now d key lo hi).reverse) ↔
      AllJudged e.now d key .literal lo hi) ∧
    (∀ (dst : Bytes) (rev : Bool), Stores e sc d dst (Handlers.zrangestoreOp
          (dst :: key :: (boundWords rev min max).1 :: (boundWords rev min max).2 :: rangeWords .score rev))
        (ordered rev (membersWithin e.now d key lo hi)) ↔
      if encodeKey dst = encodeKey key then membersWithin e.now d key lo hi = []
      else AllJudged e.now d key .literal lo hi) ∧
    (answerOf e sc d (Handlers.zcountOp [key, min, max]) = .ok (.int (membersWithin e.now d key lo hi).length) ↔
      numberOf e.now d key (fun s => Taken .clamped lo hi s ∧ ¬ Within lo hi s) =
        numberOf e.now d key fun s => Within lo hi s ∧ ¬ Taken .clamped lo hi s) ∧
    (RemovesWithin e sc d key (Handlers.zremrangebyscoreOp [key, min, max]) lo hi ↔
      AllJudged e.now d key .clamped lo hi ∧ ∀ m r, (d.rows .kvZsets (encodeKey key)).row m = some r →
        r.live e.now = false → ¬ Taken .clamped lo hi r.val) := by
  have hlow : Handlers.parseScoreBound min = some (lowValue .literal lo) := by
    rw [parseScoreBound_low, hmin]
    rfl
  have hhigh : Handlers.parseScoreBound max = some (highValue .literal hi) := by
    rw [parseScoreBound_high, hmax]
    rfl
  have hparsed : Handlers.parseMin min = some (lowValue .clamped lo) := by
    rw [parseMin_eq, hmin]
    rfl
  have hparsed' : Handlers.parseMax max = some (highValue .clamped hi) := by
    rw [parseMax_eq, hmax]
    rfl
  have hok {v w : Value} {right : Prop} (h : v = w ↔ right) : (.ok v : Except String Value) = .ok w ↔ right := by
    rw [← h]
    exact ⟨fun heq => Except.ok.inj heq, fun heq => congrArg _ heq⟩
  have hbyscore : Handlers.rangeOptions "zrange" notInteger Handlers.zrangeFlag .none
      (utf8 "BYSCORE" :: scoresWord withScores) = .ok ⟨withScores, .score, false, 0, -1⟩ :=
    (rangeOptions_flag (by decide) rfl _).trans (rangeOptions_scores ⟨false, .score, false, 0, -1⟩ rfl rfl withScores)
  have hbyscorerev : Handlers.rangeOptions "zrange" notInteger Handlers.zrangeFlag .none
      (utf8 "BYSCORE" :: utf8 "REV" :: scoresWord withScores) = .ok ⟨withScores, .score, true, 0, -1⟩ :=
    (rangeOptions_flag (by decide) rfl _).trans ((rangeOptions_flag (by decide) rfl _).trans
      (rangeOptions_scores ⟨false, .score, true, 0, -1⟩ rfl rfl withScores))
  refine ⟨?_, ?_, ?_, ?_, fun dst rev => stored_iff hmin hmax, ?_, ?_⟩
  · rw [answerOf, direct_zrangebyscore hparsed hparsed' (rangeOptions_scores .none rfl rfl withScores)]
    exact hok (shown_iff withScores)
  · rw [answerOf, direct_zrevrangebyscore hlow hhigh (rangeOptions_scores .none rfl rfl withScores)]
    exact hok (shown_reverse_iff withScores)
  · rw [answerOf, direct_zrange_byscore hlow hhigh hbyscore rfl]
    have hshown : _ ↔ AllJudged e.now d key .literal lo hi := shown_iff withScores
    exact hok hshown
  · rw [answerOf, direct_zrange_byscore hhigh hlow hbyscorerev rfl]
    have hshown : _ ↔ AllJudged e.now d key .literal lo hi := shown_reverse_iff withScores
    exact hok hshown
  · have hexec : (Cmd.zCount key (lowValue .clamped lo) (highValue .clamped hi) : Cmd ExactScore).exec e d = _ :=
      exec_zCount ..
    rw [answerOf, Handlers.zcountOp, Handlers.minMax, hparsed, hparsed', Proc.need, Proc.need,
      Proc.direct_answerTyped hexec, ← length_scoreRange_iff]
    refine hok ⟨fun h => ?_, fun h => congrArg (fun n : ℕ => Value.int n) h⟩
    exact Int.ofNat_inj.mp (congrArg Value.num h)
  · rw [Handlers.zremrangebyscoreOp, Handlers.minMax, hparsed, hparsed', Proc.need, Proc.need]
    exact removes_iff

end scores

/-! ### Runs -/

/-- Whole numbers as texts of scores. -/
instance wholeText : ScoreText where
  parse s := (parseInt s).map fun n => .num n
  format _ := []

/-- Inclusive bounds have no gaps. -/
theorem not_misjudged_inclusive (style : BoundStyle) (x y s : ExactScore) :
    ¬ Misjudged style (.number x false) (.number y false) s := by
  have hlow : ¬ LowGap style (.number x false) s := by
    cases style <;> exact fun h => Bool.false_ne_true h.1
  have hhigh : ¬ HighGap style (.number y false) s := by
    cases style <;> exact fun h => Bool.false_ne_true h.1
  rw [Misjudged, Taken, xor_no_gap hlow, xor_no_gap hhigh]
  exact (not_xor _ _).mpr Iff.rfl

/-- The sorted set `z` with the member `a`, score 5. -/
def fiveScore : DB ExactScore :=
  (emptyDB : DB ExactScore).setRows .kvZsets (encodeKey [122]) (Table.single [97] ⟨.num 5, none⟩)

theorem zOrder_fiveScore : zOrder (envAt 0).now fiveScore [122] = [⟨[97], .num 5⟩] := by
  rw [zOrder, fiveScore, Store.rows_setRows_self]
  rfl

theorem readBound_zero : readBound (utf8 "0") = some (.number (ExactScore.num ((0 : ℤ) : ℚ)) false) := rfl

/-- `ZRANGEBYSCORE z 0 9` answers the members with a score from 0 to 9. -/
theorem score_bounds_inclusive :
    answerOf (envAt 0) ∅ fiveScore (Handlers.zrangebyscoreOp ([122] :: utf8 "0" :: utf8 "9" :: scoresWord false)) =
      .ok (membersValue false (membersWithin (envAt 0).now fiveScore [122]
        (.number (.num ((0 : ℤ) : ℚ)) false) (.number (.num ((9 : ℤ) : ℚ)) false))) := by
  have hmax : readBound (utf8 "9") = some (.number (ExactScore.num ((9 : ℤ) : ℚ)) false) := rfl
  exact (score_bounds_iff (envAt 0) ∅ fiveScore [122] (utf8 "0") (utf8 "9") _ _ readBound_zero hmax false).1.mpr
    fun m _ => not_misjudged_inclusive _ _ _ _

theorem scoreRange_fiveScore {lo hi : ExactScore} (hlo : lo ≤ .num 5) :
    scoreRange (envAt 0).now fiveScore [122] lo hi = if ExactScore.num 5 ≤ hi then [⟨[97], .num 5⟩] else [] := by
  have hle : scoreBetween lo hi (ExactScore.num 5) = decide (ExactScore.num 5 ≤ hi) := by
    have hmin : Float64.le lo (ExactScore.num 5) = true := decide_eq_true hlo
    rw [scoreBetween, hmin]
    rfl
  rw [scoreRange, zOrder_fiveScore, List.filter_cons, hle]
  simp only [decide_eq_true_eq, List.filter_nil]

/-- `ZREVRANGEBYSCORE z (5 0` answers the member with score 5, `ZRANGEBYSCORE z 0 (5` does not. -/
theorem exclusive_bound_taken :
    answerOf (envAt 0) ∅ fiveScore (Handlers.zrevrangebyscoreOp [[122], utf8 "(5", utf8 "0"]) =
      .ok (.arr [.bulkOf [97]]) ∧
    answerOf (envAt 0) ∅ fiveScore (Handlers.zrangebyscoreOp [[122], utf8 "0", utf8 "(5"]) = .ok (.arr []) := by
  have hmax : readBound (utf8 "(5") = some (.number (ExactScore.num ((5 : ℤ) : ℚ)) true) := rfl
  have hzero : ExactScore.num ((0 : ℤ) : ℚ) ≤ .num 5 := ExactScore.num_le_num.mpr (by norm_num)
  have hfive : ((5 : ℤ) : ℚ) = 5 := by norm_num
  constructor
  · have hlow : Handlers.parseScoreBound (utf8 "0") = some (ExactScore.num ((0 : ℤ) : ℚ)) := by
      rw [parseScoreBound_low, readBound_zero]
      rfl
    have hhigh : Handlers.parseScoreBound (utf8 "(5") = some (highValue .literal (.number (.num 5) true)) := by
      rw [parseScoreBound_high, hmax, hfive]
      rfl
    have htaken : ExactScore.num 5 ≤ highValue .literal (.number (.num 5) true) := (ExactScore.num_lt_add 5).le
    refine (direct_zrevrangebyscore hlow hhigh (rangeOptions_scores .none rfl rfl false)).trans ?_
    rw [scoreRange_fiveScore hzero, if_pos htaken]
    rfl
  · have hlow : Handlers.parseMin (utf8 "0") = some (ExactScore.num ((0 : ℤ) : ℚ)) := by
      rw [parseMin_eq, readBound_zero]
      rfl
    have hhigh : Handlers.parseMax (utf8 "(5") = some (highValue .clamped (.number (.num 5) true)) := by
      rw [parseMax_eq, hmax, hfive]
      rfl
    have hnot : ¬ ExactScore.num 5 ≤ highValue .clamped (.number (.num 5) true) :=
      not_le.mpr (ExactScore.sub_lt_num 5)
    refine (direct_zrangebyscore hlow hhigh (rangeOptions_scores .none rfl rfl false)).trans ?_
    rw [scoreRange_fiveScore hzero, if_neg hnot]
    rfl

end Postkeys
