import Postkeys.Decimal
import Postkeys.Rewritten
import Postkeys.SortedRanks
import Postkeys.ZaddFlags

/-! # Storing weighted unions and intersections

`ZUNIONSTORE` and `ZINTERSTORE` read all their sources, collect for every member the list of its weighted scores in
a map, remove the destination and add the members with the aggregates of their lists.  `weighted_store` says what is
stored, over scores that form a commutative ring with a total order: the lists have the scores source by source
(`exists_union`, `exists_inter`), and the order in which the map is walked is lost in the rows (`total_storeScores`). -/

namespace Postkeys

open Relational Program

/-! ### Sources -/

section sources
variable {S : Type} {e : Env} {d : DB S} {now : Time}

/-- The sorted set under a key. -/
def sortedSet (now : Time) (d : DB S) (key : Bytes) : Table Bytes S := live now (d.rows .kvZsets (encodeKey key))

/-- The weighted scores of a member in the sources that contain it, source by source. -/
def weightedScores (times : S → S → S) (now : Time) (d : DB S) (keys : List Bytes) (weights : List S) (x : Bytes) :
    List S :=
  (keys.zip weights).filterMap fun p => ((sortedSet now d p.1).row x).map fun s => times s p.2

theorem sortedSet_encodeKey (key : Bytes) : sortedSet now d (encodeKey key) = sortedSet now d key := by
  rw [sortedSet, encodeKey_encodeKey]
  rfl

theorem weightedScores_cons (times : S → S → S) (key : Bytes) (keys : List Bytes) (w : S) (ws : List S) (x : Bytes) :
    weightedScores times now d (key :: keys) (w :: ws) x =
      (((sortedSet now d key).row x).map fun s => times s w).toList ++ weightedScores times now d keys ws x := by
  rw [weightedScores, List.zip_cons_cons, List.filterMap_cons]
  cases (sortedSet now d key).row x <;> rfl

/-- A member has a weighted score exactly if a source has it. -/
theorem weightedScores_eq_nil_iff {times : S → S → S} {keys : List Bytes} {weights : List S}
    (h : keys.length ≤ weights.length) (x : Bytes) :
    weightedScores times now d keys weights x = [] ↔ ∀ k ∈ keys, (sortedSet now d k).row x = none := by
  induction keys generalizing weights with
  | nil => simp [weightedScores]
  | cons key keys ih =>
      obtain ⟨w, ws, rfl⟩ := List.exists_cons_of_length_pos (Nat.lt_of_lt_of_le (Nat.succ_pos _) h)
      rw [weightedScores_cons, List.append_eq_nil_iff, ih (Nat.le_of_succ_le_succ h), List.forall_mem_cons]
      cases (sortedSet now d key).row x <;> simp

theorem weightedScores_congr {times times' : S → S → S} (h : ∀ s w, times s w = times' s w) (keys : List Bytes)
    (weights : List S) (x : Bytes) :
    weightedScores times now d keys weights x = weightedScores times' now d keys weights x := by
  rw [funext fun s => funext (h s)]

theorem weightedScores_encodeKeys (times : S → S → S) (keys : List Bytes) (weights : List S) (x : Bytes) :
    weightedScores times now d (encodeKeys keys) weights x = weightedScores times now d keys weights x := by
  induction keys generalizing weights with
  | nil => rfl
  | cons key keys ih =>
      cases weights with
      | nil => rfl
      | cons w ws =>
          have hcons : encodeKeys (key :: keys) = encodeKey key :: encodeKeys keys := rfl
          rw [hcons, weightedScores_cons, weightedScores_cons, ih, sortedSet_encodeKey]

variable [Float64 S]

omit [Float64 S] in
theorem rangeByIndex_all {α : Type} (l : List α) : rangeByIndex 0 (-1) l = .ok l := by
  have hstart : max (if (0 : ℤ) < 0 then (l.length : ℤ) + 0 else 0) 0 = 0 := by simp
  have hstop : min (if (-1 : ℤ) < 0 then (l.length : ℤ) + -1 else -1) (l.length - 1) = (l.length : ℤ) - 1 := by
    rw [if_pos (by omega)]
    exact min_self _
  rw [rangeByIndex, hstart, hstop, if_neg (by omega)]
  by_cases hl : 0 < (l.length : ℤ)
  · rw [if_pos ⟨hl, by omega⟩, Int.toNat_zero, List.drop_zero, List.take_of_length_le (by omega)]
  · rw [if_neg fun hc => hl hc.1, List.eq_nil_of_length_eq_zero (by omega : l.length = 0)]

/-- All members of a source are read. -/
theorem total_zRange_all (key : Bytes) {Q : List (ZMember S) → DB S → Prop} :
    total e (zRange key 0 (-1)) Q d ↔ Q (zMembers (sortedSet e.now d key)) d := by
  rw [zRange, total_query, selectRange, totalSql_selectLiveLimit]
  constructor
  · rintro ⟨l, hl, hQ⟩
    rw [rangeByIndex_all] at hl
    cases hl
    exact hQ
  · intro hQ
    exact ⟨_, rangeByIndex_all _, hQ⟩

theorem find_zMembers (u : Table Bytes S) (x : Bytes) :
    ((zMembers u).find? fun z => z.member = x) = (u.row x).map fun s => ⟨x, s⟩ := by
  cases hrow : u.row x with
  | none =>
      refine List.find?_eq_none.mpr fun z hz => ?_
      rw [mem_zMembers_iff] at hz
      intro hx
      rw [of_decide_eq_true hx, hrow] at hz
      cases hz
  | some s =>
      have hmem : (⟨x, s⟩ : ZMember S) ∈ zMembers u := mem_zMembers_iff.mpr hrow
      have hsome : ((zMembers u).find? fun z => z.member = x).isSome = true := by
        rw [List.find?_isSome]
        exact ⟨_, hmem, decide_eq_true rfl⟩
      obtain ⟨z, hz⟩ := Option.isSome_iff_exists.mp hsome
      have hx : z.member = x := by simpa using List.find?_some hz
      have hrow' := mem_zMembers_iff.mp (List.mem_of_find?_eq_some hz)
      rw [hx, hrow] at hrow'
      rw [hz, Option.map_some, Option.some_inj]
      obtain ⟨y, s'⟩ := z
      cases hx
      cases hrow'
      rfl

end sources

/-! ### Collecting -/

section collecting
variable {S : Type} [Float64 S] {e : Env} {d : DB S}

omit [Float64 S] in
/-- Each member of a list is written once. -/
theorem foldl_put_row {β : Type} (f : Option β → ZMember S → β) {l : List (ZMember S)}
    (hl : (l.map ZMember.member).Nodup) (t : Table Bytes β) (x : Bytes) :
    (l.foldl (fun t z => t.put z.member (f (t.row z.member) z)) t).row x =
      ((l.find? fun z => z.member = x).map (f (t.row x))).or (t.row x) := by
  induction l generalizing t with
  | nil => rfl
  | cons z l ih =>
      rw [List.map_cons, List.nodup_cons] at hl
      rw [List.foldl_cons, ih hl.2, Table.put_row]
      by_cases hx : x = z.member
      · subst hx
        have hnone : (l.find? fun z' => z'.member = z.member) = none := by
          refine List.find?_eq_none.mpr fun z' hz' => ?_
          rw [decide_eq_true_iff]
          exact fun heq => hl.1 (List.mem_map.mpr ⟨z', hz', heq⟩)
        rw [hnone, List.find?_cons_of_pos (by simp)]
        simp
      · rw [List.find?_cons_of_neg (by simpa using Ne.symm hx), if_neg hx]

/-- The list of a member after the lists of further sources were appended; a member without any has no list. -/
def unionRow (o : Option (List S)) (l : List S) : Option (List S) := if l = [] then o else some (o.getD [] ++ l)

/-- **The map of a union** has the weighted scores of the remaining sources appended. -/
theorem exists_union (keys : List Bytes) (weights : List S) (h : keys.length ≤ weights.length)
    (t : Table Bytes (List S)) :
    ∃ t' : Table Bytes (List S),
      (∀ x, t'.row x = unionRow (t.row x) (weightedScores Float64.mul e.now d keys weights x)) ∧
      ∀ Q : Table Bytes (List S) → DB S → Prop, total e (zUnionLoop t keys weights) Q d ↔ Q t' d := by
  induction keys generalizing weights t with
  | nil => exact ⟨t, fun x => rfl, fun Q => Iff.rfl⟩
  | cons key keys ih =>
      obtain ⟨w, ws, rfl⟩ := List.exists_cons_of_length_pos (Nat.lt_of_lt_of_le (Nat.succ_pos _) h)
      obtain ⟨t', hrow, htotal⟩ := ih ws (Nat.le_of_succ_le_succ h)
        ((zMembers (sortedSet e.now d key)).foldl
          (fun m z => m.put z.member ((m.row z.member).getD [] ++ [Float64.mul z.score w])) t)
      refine ⟨t', fun x => ?_, fun Q => ?_⟩
      · have hstep := foldl_put_row (fun o z => o.getD [] ++ [Float64.mul z.score w])
          (members_zMembers (sortedSet e.now d key)) t x
        rw [hrow, hstep, find_zMembers, weightedScores_cons]
        cases (sortedSet e.now d key).row x with
        | none => rfl
        | some s => cases weightedScores Float64.mul e.now d keys ws x <;> simp [unionRow]
      · rw [zUnionLoop, total_bind, total_zRange_all, htotal]

/-- **The map of an intersection** keeps the members that the remaining sources have, with their weighted scores. -/
theorem exists_inter (keys : List Bytes) (weights : List S) (h : keys.length ≤ weights.length)
    (t : Table Bytes (List S)) :
    ∃ t' : Table Bytes (List S),
      (∀ x l, t'.row x = some l ↔ ∃ l₀, t.row x = some l₀ ∧ (∀ k ∈ keys, (sortedSet e.now d k).row x ≠ none) ∧
        l = l₀ ++ weightedScores Float64.mul e.now d keys weights x) ∧
      ∀ Q : Table Bytes (List S) → DB S → Prop, total e (zInterLoop t keys weights) Q d ↔ Q t' d := by
  induction keys generalizing weights t with
  | nil =>
      refine ⟨t, fun x l => ?_, fun Q => Iff.rfl⟩
      simp [weightedScores, eq_comm]
  | cons key keys ih =>
      obtain ⟨w, ws, rfl⟩ := List.exists_cons_of_length_pos (Nat.lt_of_lt_of_le (Nat.succ_pos _) h)
      obtain ⟨t', hrow, htotal⟩ := ih ws (Nat.le_of_succ_le_succ h)
        (t.mapRows fun m l => (((zMembers (sortedSet e.now d key)).find? fun z : ZMember S => z.member = m).map
          ZMember.score).map fun s => l ++ [Float64.mul s w])
      refine ⟨t', fun x l => ?_, fun Q => ?_⟩
      · rw [hrow, weightedScores_cons, Table.mapRows_row, List.forall_mem_cons, find_zMembers]
        cases t.row x with
        | none => simp
        | some l₀ =>
            cases (sortedSet e.now d key).row x with
            | none => simp
            | some s => simp
      · rw [zInterLoop, total_bind, total_zRange_all, htotal]

end collecting

/-! ### Storing -/

section storing
variable {S : Type} {e : Env} {d : DB S}

/-- The members of a sorted set as rows without an expiry. -/
def asRows (u : Table Bytes S) : Table Bytes (Row S .kvZsets) := u.mapRows fun _ s => some ⟨s, none⟩

theorem asRows_row (u : Table Bytes S) (x : Bytes) (r : Row S .kvZsets) :
    (asRows u).row x = some r ↔ ∃ s, u.row x = some s ∧ r = ⟨s, none⟩ := by
  rw [asRows, Table.mapRows_row]
  cases u.row x <;> simp [eq_comm]

theorem asRows_eq_empty_iff {u : Table Bytes S} : asRows u = ∅ ↔ u = ∅ := by
  rw [Table.eq_empty_iff, Table.eq_empty_iff]
  refine forall_congr' fun x => ?_
  rw [asRows, Table.mapRows_row]
  cases u.row x <;> simp

variable [Float64 S]

/-- The loop of `ZADD` on members that are not there yet. -/
theorem zaddStep_new {o : ZAddOptions} (hXX : o.XX = false) {ms : List (ZMember S)}
    (hms : (ms.map ZMember.member).Nodup) {c : Table Bytes (Row S .kvZsets)} (hc : ∀ m ∈ ms, c.row m.member = none) :
    (∀ x r, (ms.foldl (zaddStep o) c).row x = some r ↔ c.row x = some r ∨ (x, r) ∈ ms.map scoreRow) ∧
      zaddTally o c ms = ((ms.length : ℤ), 0) := by
  induction ms generalizing c with
  | nil => simp [zaddTally, Prod.mk_zero_zero]
  | cons m ms ih =>
      rw [List.map_cons, List.nodup_cons] at hms
      rw [List.forall_mem_cons] at hc
      have hstep : zaddStep o c m = c.put m.member ⟨m.score, none⟩ := by
        rw [zaddStep_absent hc.1, hXX]
        rfl
      have hother {m' : ZMember S} (hm' : m' ∈ ms) : m'.member ≠ m.member :=
        fun heq => hms.1 (List.mem_map.mpr ⟨m', hm', heq⟩)
      obtain ⟨hrows, htally⟩ := ih hms.2 (c := zaddStep o c m) fun m' hm' => by
        rw [zaddStep_row_of_ne (hother hm')]
        exact hc.2 m' hm'
      constructor
      · intro x r
        rw [List.foldl_cons, hrows, hstep, Table.put_row, List.map_cons, List.mem_cons, scoreRow]
        by_cases hx : x = m.member
        · subst hx
          simp [hc.1, eq_comm]
        · simp [hx]
      · rw [zaddTally, htally, zaddTick_absent hc.1, hXX]
        simp [add_comm]

variable {agg : Aggregate} {t : Table Bytes (List S)}

theorem members_aggregated (order : List ℕ) : ((aggregated agg order t).map ZMember.member).Nodup := by
  have hnames : (aggregated agg order t).map ZMember.member = (Table.shuffle order t.toList).map Prod.fst := by
    rw [aggregated, List.map_map]
    rfl
  rw [hnames]
  exact ((Table.shuffle_perm order t.toList).map Prod.fst).nodup_iff.mpr (Table.nodup_toList t)

theorem length_aggregated (order : List ℕ) : (aggregated agg order t).length = t.dom.card := by
  rw [aggregated, List.length_map, (Table.shuffle_perm order t.toList).length_eq, Table.length_toList]

theorem mem_aggregated (order : List ℕ) (x : Bytes) (r : Row S .kvZsets) :
    (x, r) ∈ (aggregated agg order t).map scoreRow ↔ ∃ l, t.row x = some l ∧ r = ⟨aggregateScores agg l, none⟩ := by
  rw [aggregated, List.map_map, List.mem_map]
  constructor
  · rintro ⟨⟨y, l⟩, hl, heq⟩
    cases heq
    exact ⟨l, Table.mem_toList.mp ((Table.shuffle_perm order t.toList).mem_iff.mp hl), rfl⟩
  · rintro ⟨l, hl, rfl⟩
    exact ⟨(x, l), (Table.shuffle_perm order t.toList).mem_iff.mpr (Table.mem_toList.mpr hl), rfl⟩

/-- The sorted set that a map of lists stands for. -/
def scored (agg : Aggregate) (t : Table Bytes (List S)) : Table Bytes S :=
  t.mapRows fun _ l => some (aggregateScores agg l)

theorem scored_row (x : Bytes) : (scored agg t).row x = (t.row x).map (aggregateScores agg) := by
  rw [scored, Table.mapRows_row]
  cases t.row x <;> rfl

theorem dom_scored : (scored agg t).dom = t.dom := by
  ext x
  rw [← not_iff_not, ← Table.row_eq_none, ← Table.row_eq_none, scored_row, Option.map_eq_none_iff]

/-- **The destination** holds the aggregates, whatever it held before and in whatever order they are added. -/
theorem total_storeScores {k : Bytes} (hk : encodeKey k = k) :
    total e (storeScores k agg t) (fun n d' => n = t.dom.card ∧
      Rewritten d d' k .zset .kvZsets (asRows (scored agg t))) d := by
  rw [storeScores, total_bind, total_deleteKeyFromAllTables, total_ite]
  constructor
  · rintro rfl
    have hrows : asRows (scored agg (∅ : Table Bytes (List S))) = ∅ := asRows_eq_empty_iff.mpr rfl
    rw [hrows]
    exact ⟨rfl, rewritten_dropKey⟩
  · intro hne
    have hnone : liveType e.now (d.dropKey k) k = none := by
      rw [liveType, Store.rows_dropKey_self]
      rfl
    rw [total_bind, total_random, zAdd, hk, total_requireType]
    refine ⟨Or.inl hnone, ?_⟩
    rw [if_neg (by simp), total_bind, total_setMeta, total_bind, total_zAddLoop,
      Store.rows_setRows_of_ne_table _ (by decide), Store.rows_dropKey_self]
    have hnames : ((aggregated agg e.random t).map ZMember.member).Nodup := members_aggregated ..
    obtain ⟨hrows, htally⟩ := zaddStep_new (o := ⟨false, false, false, false, false⟩) rfl hnames (c := ∅)
      fun _ _ => rfl
    have hstored : (aggregated agg e.random t).foldl (zaddStep ⟨false, false, false, false, false⟩) ∅ =
        asRows (scored agg t) := by
      refine Table.ext_row fun x => Option.ext fun r => ?_
      rw [hrows, asRows_row, scored_row, mem_aggregated]
      cases t.row x <;> simp
    have hnonempty : asRows (scored agg t) ≠ ∅ := by
      rw [Ne, asRows_eq_empty_iff, ← Table.dom_eq_empty_iff, dom_scored, Table.dom_eq_empty_iff]
      exact hne
    rw [htally, hstored, length_aggregated]
    exact ⟨by simp, rewritten_setMeta (by decide) hnonempty⟩

end storing

/-! ### Aggregates -/

/-- The operations of the code are those of a commutative ring with a total order. -/
structure RingScores (S : Type) [CommRing S] [LinearOrder S] [Float64 S] : Prop where
  zero : (Float64.zero : S) = 0
  one : (Float64.one : S) = 1
  add : ∀ a b : S, Float64.add a b = a + b
  mul : ∀ a b : S, Float64.mul a b = a * b
  goLt : ∀ a b : S, Float64.goLt a b = true ↔ a < b

/-- The score is the aggregate of the list. -/
def IsAggregate {S : Type} [CommRing S] [LinearOrder S] : Aggregate → List S → S → Prop
  | .sum, l, s => s = l.sum
  | .min, l, s => s ∈ l ∧ ∀ s' ∈ l, s ≤ s'
  | .max, l, s => s ∈ l ∧ ∀ s' ∈ l, s' ≤ s

/-- A scan that keeps the better of two scores ends with the best. -/
theorem foldl_best {S : Type} (better : S → S → Bool) {R : S → S → Prop} (hrefl : ∀ a, R a a)
    (htrans : ∀ a b c, R a b → R b c → R a c) (hyes : ∀ a b, better a b = true → R a b)
    (hno : ∀ a b, better a b = false → R b a) (a : S) (l : List S) :
    l.foldl (fun m s => if better s m then s else m) a ∈ a :: l ∧
      ∀ s ∈ a :: l, R (l.foldl (fun m s => if better s m then s else m) a) s := by
  induction l generalizing a with
  | nil => simp [hrefl]
  | cons b l ih =>
      rw [List.foldl_cons]
      cases hb : better b a with
      | true =>
          obtain ⟨hmem, hbest⟩ := ih b
          refine ⟨List.mem_cons_of_mem _ hmem, List.forall_mem_cons.mpr ⟨?_, hbest⟩⟩
          exact htrans _ _ _ (hbest b (List.mem_cons_self ..)) (hyes b a hb)
      | false =>
          obtain ⟨hmem, hbest⟩ := ih a
          rw [List.forall_mem_cons] at hbest
          constructor
          · rcases List.mem_cons.mp hmem with heq | hmem
            · exact List.mem_cons.mpr (Or.inl heq)
            · exact List.mem_cons_of_mem _ (List.mem_cons_of_mem _ hmem)
          · refine List.forall_mem_cons.mpr ⟨hbest.1, List.forall_mem_cons.mpr ⟨?_, hbest.2⟩⟩
            exact htrans _ _ _ hbest.1 (hno b a hb)

section stored
variable {S : Type} [CommRing S] [LinearOrder S] [Float64 S] {e : Env} {d d' : DB S} {dst : Bytes}
  {keys : List Bytes} {weights : List S} {agg : Aggregate}

theorem isAggregate_aggregateScores (hS : RingScores S) {l : List S} (hl : l ≠ []) :
    IsAggregate agg l (aggregateScores agg l) := by
  have hnot {a b : S} (h : Float64.goLt a b = false) : b ≤ a :=
    not_lt.mp fun hlt => Bool.false_ne_true (h.symm.trans ((hS.goLt a b).mpr hlt))
  obtain ⟨a, l, rfl⟩ := List.exists_cons_of_ne_nil hl
  cases agg with
  | sum =>
      have hadd : (Float64.add : S → S → S) = (· + ·) := funext fun a => funext (hS.add a)
      show (a :: l).foldl Float64.add Float64.zero = (a :: l).sum
      rw [hadd, hS.zero, List.sum_eq_foldl]
  | min =>
      exact foldl_best Float64.goLt (R := (· ≤ ·)) le_refl (fun _ _ _ => le_trans) (fun a b h => ((hS.goLt a b).mp h).le)
        (fun a b h => hnot h) a l
  | max =>
      exact foldl_best (fun s m => Float64.goLt m s) (R := (· ≥ ·)) le_refl (fun _ _ _ => ge_trans)
        (fun a b h => ((hS.goLt b a).mp h).le) (fun a b h => hnot h) a l

/-- The weights of a command that gives all of them or none. -/
def weightsGiven (weights : List S) (keys : List Bytes) : List S :=
  if weights = [] then keys.map fun _ => 1 else weights

/-- The destination holds exactly the members `inside`, each with the aggregate of its weighted scores, and nothing
else; `n` is their number. -/
def StoresAggregates (now : Time) (d d' : DB S) (dst : Bytes) (keys : List Bytes) (weights : List S) (agg : Aggregate)
    (inside : Bytes → Prop) (n : ℤ) : Prop :=
  ∃ u : Table Bytes S, n = u.dom.card ∧ Rewritten d d' (encodeKey dst) .zset .kvZsets (asRows u) ∧
    (∀ x, x ∈ u.dom ↔ inside x) ∧
    ∀ x s, u.row x = some s →
      IsAggregate agg (weightedScores (fun s w => w * s) now d keys (weightsGiven weights keys) x) s

theorem weightsOr_eq (hS : RingScores S) : weightsOr weights keys = weightsGiven weights keys := by
  rw [weightsOr, weightsGiven, hS.one]

omit [LinearOrder S] [Float64 S] in
theorem length_weightsGiven (h : weights = [] ∨ weights.length = keys.length) :
    (weightsGiven weights keys).length = keys.length := by
  unfold weightsGiven
  split
  · exact List.length_map ..
  · rename_i hne
    exact h.resolve_left hne

/-- A map whose lists are the weighted scores is stored as their aggregates. -/
theorem storesAggregates_of_map (hS : RingScores S) {now : Time} {t : Table Bytes (List S)} {inside : Bytes → Prop}
    (hrewritten : Rewritten d d' (encodeKey dst) .zset .kvZsets (asRows (scored agg t)))
    (hinside : ∀ x, t.row x ≠ none ↔ inside x)
    (hlists : ∀ x l, t.row x = some l →
      l ≠ [] ∧ l = weightedScores Float64.mul now d keys (weightsGiven weights keys) x) :
    StoresAggregates now d d' dst keys weights agg inside t.dom.card := by
  refine ⟨scored agg t, by rw [dom_scored], hrewritten, fun x => ?_, fun x s hs => ?_⟩
  · rw [dom_scored, ← hinside, Ne, Table.row_eq_none, not_not]
  · rw [scored_row, Option.map_eq_some_iff] at hs
    obtain ⟨l, hl, rfl⟩ := hs
    obtain ⟨hne, heq⟩ := hlists x l hl
    have hmul (s w : S) : Float64.mul s w = w * s := by rw [hS.mul, mul_comm]
    rw [weightedScores_congr hmul] at heq
    rw [← heq]
    exact isAggregate_aggregateScores hS hne

omit [LinearOrder S] [Float64 S] in
theorem weightsGiven_encodeKeys : weightsGiven weights (encodeKeys keys) = weightsGiven weights keys := by
  rw [weightsGiven, weightsGiven, encodeKeys, List.map_map]
  rfl

theorem total_zUnionStore (hS : RingScores S) (hw : weights = [] ∨ weights.length = keys.length) :
    total e (zUnionStore dst keys weights agg) (fun n d' => StoresAggregates e.now d d' dst keys weights agg
      (fun x => ∃ k ∈ keys, (sortedSet e.now d k).row x ≠ none) n) d := by
  have hlen := length_weightsGiven hw
  obtain ⟨t, hrow, htotal⟩ := exists_union (e := e) (d := d) (encodeKeys keys) (weightsGiven weights keys)
    (by rw [hlen, encodeKeys, List.length_map]) ∅
  rw [zUnionStore, total_bind, weightsOr_eq hS, weightsGiven_encodeKeys, htotal]
  refine total_mono (total_storeScores (encodeKey_encodeKey dst)) ?_
  rintro n d' ⟨rfl, hrewritten⟩
  have hlist (x : Bytes) :
      t.row x = unionRow none (weightedScores Float64.mul e.now d keys (weightsGiven weights keys) x) := by
    rw [hrow, weightedScores_encodeKeys]
    rfl
  refine storesAggregates_of_map hS hrewritten (fun x => ?_) fun x l hl => ?_
  · have hnil : weightedScores Float64.mul e.now d keys (weightsGiven weights keys) x = [] ↔ _ :=
      weightedScores_eq_nil_iff hlen.ge x
    rw [hlist, unionRow]
    split
    · rename_i hempty
      have hall := hnil.mp hempty
      refine iff_of_false (fun h => h rfl) ?_
      rintro ⟨k, hk, hne⟩
      exact hne (hall k hk)
    · rename_i hne
      refine iff_of_true (Option.some_ne_none _) ?_
      by_contra hcon
      push Not at hcon
      exact hne (hnil.mpr hcon)
  · rw [hlist, unionRow] at hl
    split at hl
    · cases hl
    · rename_i hne
      cases hl
      exact ⟨hne, rfl⟩

theorem total_zInterStore (hS : RingScores S) (hkeys : keys ≠ [])
    (hw : weights = [] ∨ weights.length = keys.length) :
    total e (zInterStore dst keys weights agg) (fun n d' => StoresAggregates e.now d d' dst keys weights agg
      (fun x => ∀ k ∈ keys, (sortedSet e.now d k).row x ≠ none) n) d := by
  have hlen := length_weightsGiven hw
  obtain ⟨key, keys, rfl⟩ := List.exists_cons_of_ne_nil hkeys
  obtain ⟨w, ws, hws⟩ := List.exists_cons_of_length_pos (lt_of_lt_of_eq (Nat.succ_pos _) hlen.symm)
  have hlater : keys.length = ws.length := by
    rw [hws] at hlen
    exact (Nat.succ.inj hlen).symm
  obtain ⟨t, hrow, htotal⟩ := exists_inter (e := e) (d := d) (encodeKeys keys) ws
    (by rw [← hlater, encodeKeys, List.length_map])
    ((zMembers (sortedSet e.now d (encodeKey key))).foldl
      (fun m z => m.put z.member [Float64.mul z.score w]) ∅)
  have hfirst (x : Bytes) := foldl_put_row (fun _ z => [Float64.mul z.score w])
    (members_zMembers (sortedSet e.now d (encodeKey key))) ∅ x
  have hcons : encodeKeys (key :: keys) = encodeKey key :: encodeKeys keys := rfl
  rw [zInterStore, weightsOr_eq hS, hws, hcons]
  dsimp only
  rw [total_bind, total_zRange_all, total_bind, htotal]
  refine total_mono (total_storeScores (encodeKey_encodeKey dst)) ?_
  rintro n d' ⟨rfl, hrewritten⟩
  have hlist (x : Bytes) (l : List S) : t.row x = some l ↔ (∀ k ∈ key :: keys, (sortedSet e.now d k).row x ≠ none) ∧
      l = weightedScores Float64.mul e.now d (key :: keys) (w :: ws) x := by
    rw [hrow, hfirst, find_zMembers, sortedSet_encodeKey, weightedScores_cons, weightedScores_encodeKeys,
      List.forall_mem_cons, encodeKeys, List.forall_mem_map]
    simp only [sortedSet_encodeKey]
    cases (sortedSet e.now d key).row x <;> simp
  refine storesAggregates_of_map hS hrewritten (fun x => ?_) fun x l hl => ?_
  · rw [Option.ne_none_iff_exists']
    constructor
    · rintro ⟨l, hl⟩
      exact ((hlist x l).mp hl).1
    · intro hall
      exact ⟨_, (hlist x _).mpr ⟨hall, rfl⟩⟩
  · obtain ⟨hall, rfl⟩ := (hlist x l).mp hl
    rw [hws]
    refine ⟨fun hnil => ?_, rfl⟩
    have hnone := (weightedScores_eq_nil_iff (hws ▸ hlen.ge) x).mp hnil key (List.mem_cons_self ..)
    exact hall key (List.mem_cons_self ..) hnone

end stored

/-! ### The commands -/

section commands
variable {S : Type} [GoFloat S] {dst numkeys : Bytes} {keys opts : List Bytes} {weights : List S} {agg : Aggregate}

/-- A command gives as many weights as keys, or none. -/
theorem length_of_zstoreOptions {n pending : ℕ} {ws : List S} {a : Aggregate} {o : List S × Aggregate}
    (h : Handlers.zstoreOptions n pending ws a opts = .ok o) (hws : ws = [] ∨ ws.length = n) :
    o.1 = [] ∨ o.1.length = n := by
  fun_induction Handlers.zstoreOptions n pending ws a opts with
  | case1 =>
      cases h
      exact hws
  | case2 => cases h
  | case3 pending ws a word rest hpending w hw ih =>
      refine ih h ?_
      rcases hws with rfl | hlen
      · exact Or.inl rfl
      · exact Or.inr (by rw [List.length_set, hlen])
  | case4 pending ws a word rest hpending hword ih => exact ih h (Or.inr (List.length_replicate ..))
  | case5 =>
      cases h
      exact hws
  | case6 => cases h
  | case7 pending ws a word hpending hword haggregate s rest agg' hagg ih => exact ih h hws
  | case8 pending ws a word rest hpending hword haggregate ih => exact ih h hws

theorem zstoreOptions_weight {n pending : ℕ} {ws : List S} {a : Aggregate} {word : Bytes} {w : S}
    (hpending : 0 < pending) (hw : Float64.parseFloat word = some w) :
    Handlers.zstoreOptions n pending ws a (word :: opts) =
      Handlers.zstoreOptions n (pending - 1) (ws.set (n - pending) w) a opts := by
  rcases opts with _ | ⟨word', opts⟩ <;> simp only [Handlers.zstoreOptions, if_pos hpending, hw]

/-- Weights that are still to come fill the places left for them. -/
theorem zstoreOptions_pending {n : ℕ} {words : List Bytes} {ws : List S} (before : List S) {a : Aggregate}
    (hn : n = before.length + words.length) (h : words.mapM Float64.parseFloat = some ws) :
    Handlers.zstoreOptions n words.length (before ++ List.replicate words.length Float64.zero) a (words ++ opts) =
      Handlers.zstoreOptions n 0 (before ++ ws) a opts := by
  induction words generalizing before ws with
  | nil =>
      cases h
      rfl
  | cons word words ih =>
      rw [List.mapM_cons] at h
      obtain ⟨w, hw, hrest⟩ := Option.bind_eq_some_iff.mp h
      obtain ⟨ws', hws', heq⟩ := Option.bind_eq_some_iff.mp hrest
      cases heq
      rw [List.length_cons] at hn
      have hset : (before ++ List.replicate (words.length + 1) Float64.zero).set before.length w =
          (before ++ [w]) ++ List.replicate words.length Float64.zero := by
        rw [List.replicate_succ, List.set_append_right _ _ (le_refl _)]
        simp
      have hplace : n - (words.length + 1) = before.length := by omega
      have hn' : n = (before ++ [w]).length + words.length := by
        rw [List.length_append, List.length_singleton]
        omega
      rw [List.cons_append, List.length_cons, zstoreOptions_weight (Nat.zero_lt_succ _) hw, hplace, hset,
        Nat.succ_sub_one, ih (before ++ [w]) hn' hws', List.append_assoc]
      rfl

/-- The words of a command that gives its weights. -/
theorem zstoreOptions_weights {words : List Bytes} {a : Aggregate} (h : words.mapM Float64.parseFloat = some weights) :
    Handlers.zstoreOptions words.length 0 [] a (utf8 "WEIGHTS" :: (words ++ opts)) =
      Handlers.zstoreOptions words.length 0 weights a opts := by
  have hword : toUpper (utf8 "WEIGHTS") = utf8 "WEIGHTS" := by decide
  have hstart : Handlers.zstoreOptions words.length 0 ([] : List S) a (utf8 "WEIGHTS" :: (words ++ opts)) =
      Handlers.zstoreOptions words.length words.length (List.replicate words.length Float64.zero) a (words ++ opts) := by
    rcases words ++ opts with _ | ⟨word, rest⟩ <;>
      simp only [Handlers.zstoreOptions, hword, lt_irrefl, if_false, if_true]
  rw [hstart]
  exact zstoreOptions_pending [] (Nat.zero_add _).symm h

theorem zstoreOp_eq (cmd : String) (command : Bytes → List Bytes → List S → Aggregate → Cmd S) (hkeys : keys ≠ [])
    (hnum : parseInt numkeys = some (keys.length : ℤ))
    (hopts : Handlers.zstoreOptions keys.length 0 [] .sum opts = .ok (weights, agg)) :
    Handlers.zstoreOp cmd command (dst :: numkeys :: (keys ++ opts)) =
      Proc.answerTyped (command dst keys weights agg) := by
  obtain ⟨key, rest, rfl⟩ := List.exists_cons_of_ne_nil hkeys
  have hpos : ((some ((key :: rest).length : ℤ)).filter fun n => decide (0 < n)) = some ((key :: rest).length : ℤ) := by
    simp
  have hle : int64 (((key :: rest).length : ℤ) + 2) ≤ ((key :: rest).length : ℤ) + 2 := int64_le (by omega)
  rw [List.cons_append, Handlers.zstoreOp, hnum, hpos]
  dsimp only [Proc.need]
  rw [← List.cons_append, List.length_append, Nat.cast_add, if_neg (by omega), if_neg (by omega), Int.toNat_natCast,
    List.drop_left, List.take_left, hopts]
  rfl

end commands

section main
variable {S : Type} [CommRing S] [LinearOrder S] [GoFloat S]

/-- **Weighted stores**: for all sources, weights and aggregates, `ZUNIONSTORE` stores the members of some source and
`ZINTERSTORE` those of every source, with the aggregates of their weighted scores. -/
theorem weighted_store (hS : RingScores S) (e : Env) (sc : ScriptCache) (d : DB S) (dst numkeys : Bytes)
    (keys opts : List Bytes) (weights : List S) (agg : Aggregate) (hkeys : keys ≠ [])
    (hnum : parseInt numkeys = some (keys.length : ℤ))
    (hopts : Handlers.zstoreOptions keys.length 0 [] .sum opts = .ok (weights, agg)) :
    (∃ n d', (Handlers.zunionstoreOp (dst :: numkeys :: (keys ++ opts)) : Proc S).direct e sc d = (.ok (.int n), sc, d') ∧
      StoresAggregates e.now d d' dst keys weights agg (fun x => ∃ k ∈ keys, (sortedSet e.now d k).row x ≠ none) n) ∧
    ∃ n d', (Handlers.zinterstoreOp (dst :: numkeys :: (keys ++ opts)) : Proc S).direct e sc d = (.ok (.int n), sc, d') ∧
      StoresAggregates e.now d d' dst keys weights agg (fun x => ∀ k ∈ keys, (sortedSet e.now d k).row x ≠ none) n := by
  have hweights : weights = [] ∨ weights.length = keys.length := length_of_zstoreOptions hopts (Or.inl rfl)
  constructor
  · rw [Handlers.zunionstoreOp, zstoreOp_eq _ _ hkeys hnum hopts]
    exact Proc.direct_answerTyped_int rfl (total_zUnionStore hS hweights) sc
  · rw [Handlers.zinterstoreOp, zstoreOp_eq _ _ hkeys hnum hopts]
    exact Proc.direct_answerTyped_int rfl (total_zInterStore hS hkeys hweights) sc

end main

theorem ringWholeScores : RingScores ℤ where
  zero := rfl
  one := rfl
  add _ _ := rfl
  mul _ _ := rfl
  goLt _ _ := decide_eq_true_iff

/-- `ZUNIONSTORE z 2 z z WEIGHTS 1 2` on a set with one member. -/
theorem weighted_store_onto_source :
    ∃ n d', (Handlers.zunionstoreOp [[122], [50], [122], [122], utf8 "WEIGHTS", [49], [50]] : Proc ℤ).direct (envAt 0) ∅
        oneMember = (.ok (.int n), ∅, d') ∧
      StoresAggregates 0 oneMember d' [122] [[122], [122]] [1, 2] .sum
        (fun x => ∃ k ∈ [[122], [122]], (sortedSet 0 oneMember k).row x ≠ none) n :=
  (weighted_store ringWholeScores (envAt 0) ∅ oneMember [122] [50] [[122], [122]] [utf8 "WEIGHTS", [49], [50]] [1, 2] .sum
    (List.cons_ne_nil _ _) rfl rfl).1

end Postkeys
