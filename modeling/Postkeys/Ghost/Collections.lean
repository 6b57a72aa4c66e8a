import Postkeys.Ghost.Writes

/-! # Writes of lists and sorted sets that leave expired rows alone

Most list operations count, sort and number the rows of a list with the expired ones, so all rows of
the list must be kept.  The pops of several keys and the pops and range removals of sorted sets
choose among live rows. -/

namespace Postkeys

open Relational Program

variable {S α β : Type} {X : RowSet S} {e : Env} {d₁ d₂ : DB S} {k : Bytes} {key : Bytes}

/-! ### Lists -/

theorem steady_selectListLength (hX : ∀ s c, X .kvLists k s c) :
    (selectListLength k).Steady (GhostOut X) := steady_selectAll _ hX

theorem agree_push (values : List Bytes) (message : String)
    (start : Table ℤ (Row S .kvLists) → ℤ) (index : ℤ → ℕ → ℤ) (hd : GhostOut X e.now d₁ d₂)
    (hX : TypeOk e.now d₁ (encodeKey key) .list → ∀ s c, X .kvLists (encodeKey key) s c) :
    Agree e (push key values message start index) d₁ d₂ := by
  refine agree_requireType hd fun hT => .ite (.queryContext _ (steady_selectListLength (hX hT))) ?_
  exact .bind steady_lockKey fun _ => .bind (.queryContext _ (steady_readKept (hX hT))) fun _ =>
    .bind (steady_setMeta _ _) fun _ => .bind (.query (steady_onKept (hX hT))) fun _ =>
      .queryContext _ (steady_selectListLength (hX hT))

theorem steady_lPop (hX : ∀ s c, X .kvLists (encodeKey key) s c) :
    (lPop key : Op S _).Steady (GhostOut X) :=
  .bind (.query (steady_onKept hX)) fun _ => steady_pure _

theorem steady_rPop (hX : ∀ s c, X .kvLists (encodeKey key) s c) :
    (rPop key : Op S _).Steady (GhostOut X) :=
  .bind (.query (steady_onKept hX)) fun _ => steady_pure _

/-- The rows a statement sees are the same up to expired rows. -/
theorem GhostRows.visible {now : Time} {t : Tab} {u₁ u₂ : Table t.Sub (Row S t)}
    (h : GhostRows now u₁ u₂) (c : Ctx Bytes Tab.Sub) :
    GhostRows now (visible c t k u₁) (visible c t k u₂) := by
  have hout : GhostRowsOut (fun _ _ => False) now u₁ u₂ := fun s =>
    (h s).imp id fun ⟨hn, c, hc, hl⟩ => ⟨hn, c, hc, hl, fun hf => hf⟩
  exact (hout.restrict _).ghostRows

theorem steady_firstLive (t : Tab) (keys : List Bytes) :
    (firstLive t keys : Stm S _).Steady (GhostOut X) :=
  steady_of_blind <| blind_readRowsIn fun c r₁ r₂ h => by simp only [(h _).liveRows_eq]

theorem steady_popFirst (keys : List Bytes) (order : SortOrder) :
    (popFirst keys order : Stm S _).Steady (GhostOut X) := by
  refine .bind (steady_of_blind <| blind_readRowsIn fun c r₁ r₂ h => ?_) fun winner => ?_
  · simp only [((h _).visible c).liveRows_eq]
  · split
    · exact Sql.steady_pure _
    · exact .bind (steady_popRows fun now u₁ u₂ h => by rw [h]) fun _ => Sql.steady_pure _

theorem steady_popMulti (keys : List Bytes) (order : SortOrder) :
    (popMulti keys order : Op S _).Steady (GhostOut X) :=
  .ite trivial (.bind (.query (steady_popFirst _ _)) fun _ => steady_pure _)

theorem steady_popFirstN (keys : List Bytes) (order : SortOrder) (cnt : ℤ) :
    (popFirstN keys order cnt : Stm S _).Steady (GhostOut X) := by
  refine .bind (steady_firstLive _ _) fun winner => ?_
  split
  · exact Sql.steady_pure _
  · exact .bind (steady_popRows fun now u₁ u₂ h => by rw [h]) fun _ => Sql.steady_pure _

theorem steady_popMultiN (keys : List Bytes) (order : SortOrder) (cnt : ℤ) :
    (popMultiN keys order cnt : Op S _).Steady (GhostOut X) :=
  .ite trivial (.bind (.query (steady_popFirstN _ _ _)) fun _ => steady_pure _)

theorem agree_rPopLPush {source destination : Bytes} (hd : GhostOut X e.now d₁ d₂)
    (hsrc : ∀ s c, X .kvLists (encodeKey source) s c)
    (hdst : d₁.rows .kvLists (encodeKey source) ≠ ∅ →
      (∀ s c, X .kvLists (encodeKey destination) s c) ∧
        ∀ s c, X .kvMeta (encodeKey destination) s c) :
    Agree e (rPopLPush source destination) d₁ d₂ := by
  refine agree_bind (Q := fun _ d => d = d₁) (steady_lockKeys _) hd (by rw [wp_lockKeys]) ?_
  intro _ d d₂ hd heq
  rw [← heq] at hdst
  refine agree_bind
    (Q := fun last d' => d' = d ∧ last = (d.rows .kvLists (encodeKey source)).toList.getLast?)
    (.queryForUpdate (steady_readKept hsrc) _) hd ?_ ?_
  · rw [wp_queryForUpdate, wpSql_readRows]
    rintro b ⟨⟩
    rw [visible_ctx]
    exact ⟨rfl, rfl⟩
  · rintro last d₁ d₂ hd' ⟨-, hlast⟩
    split
    · exact hd'.ghost
    · rename_i idx r
      have hmem := List.mem_of_getLast? hlast.symm
      obtain ⟨hlist, hmeta⟩ := hdst (Table.ne_empty_of_row (Table.mem_toList.mp hmem))
      refine agree_of_steady (.bind (.query (steady_onKept hsrc)) fun _ =>
        .bind (.query (steady_onKept hmeta)) fun _ =>
          .bind (.query (steady_onKept hlist)) fun _ => steady_pure _) hd'

theorem wp_readTypeCheck {T : KeyType} {d : DB S} :
    wp e (readTypeCheck k T) (fun _ _ => TypeOk e.now d k T) d := by
  unfold readTypeCheck
  rw [wp_bind, wp_getKeyType]
  split
  · rename_i hnone
    exact Or.inl hnone
  · rename_i T' hT'
    rw [wp_ite]
    exact ⟨fun heq => Or.inr (heq ▸ hT'), fun _ => wp_raise _⟩

theorem agree_lRange (start stop : ℤ) (hd : GhostOut X e.now d₁ d₂)
    (hX : TypeOk e.now d₁ (encodeKey key) .list → ∀ s c, X .kvLists (encodeKey key) s c) :
    Agree e (lRange key start stop) d₁ d₂ := by
  refine agree_blind (blind_readTypeCheck _ _) hd.ghost wp_readTypeCheck fun _ hT => ?_
  exact agree_of_steady (.bind (.queryContext _ (steady_selectListLength (hX hT))) fun _ =>
    .ite (steady_pure _) (.queryRows (steady_readKept (hX hT)))) hd

theorem steady_lPos (element : Bytes) (rank cnt maxlen : ℤ)
    (hX : ∀ s c, X .kvLists (encodeKey key) s c) :
    (lPos key element rank cnt maxlen : Op S _).Steady (GhostOut X) :=
  .bind (.queryRows (steady_readKept hX)) fun _ => steady_pure _

theorem steady_lRem (cnt : ℤ) {element : Bytes}
    (hX : ∀ s c, c.val = element → X .kvLists (encodeKey key) s c) :
    (lRem key cnt element : Op S _).Steady (GhostOut X) := by
  refine .ite (.query (steady_deleteWhere fun s c hs => hX s c (of_decide_eq_true hs))) ?_
  refine .ite (.query (Sql.steady_error _)) (.bind (.query ?_) fun _ => steady_pure _)
  refine steady_deleteRows fun now u₁ u₂ h => ?_
  have hrows : (listRows u₂).filter (fun r => r.2.val = element) =
      (listRows u₁).filter fun r => r.2.val = element := by
    rw [listRows, Table.toList_filter u₂ fun _ r => decide (r.val = element), listRows,
      Table.toList_filter u₁ fun _ r => decide (r.val = element),
      h.restrict_eq fun s r _ hr => Or.inr (hX s r (of_decide_eq_true hr))]
  rw [hrows]

theorem steady_lTrim (start stop : ℤ) (hX : ∀ s c, X .kvLists (encodeKey key) s c) :
    (lTrim key start stop : Op S _).Steady (GhostOut X) := by
  refine .bind steady_lockKey fun _ => .bind (.query (steady_selectListLength hX)) fun _ =>
    .ite (steady_pure _) (.ite ?_ ?_)
  · exact .bind (.query steady_deleteKey) fun _ => .query steady_deleteKey
  · exact .bind (.query (steady_onKept hX)) fun _ => steady_pure _

theorem steady_lSet (index : ℤ) (element : Bytes)
    (hX : ∀ s c, X .kvLists (encodeKey key) s c) :
    (lSet key index element : Op S _).Steady (GhostOut X) := by
  refine .bind (.query (steady_selectListLength hX)) fun _ => .ite trivial (.ite trivial ?_)
  refine .bind (.query (steady_readKept hX)) fun idx => ?_
  split
  · exact trivial
  · exact .bind (.query (steady_onKept hX)) fun _ => steady_pure _

theorem steady_lInsert (pivot element : Bytes) (before : Bool)
    (hX : ∀ s c, X .kvLists (encodeKey key) s c) :
    (lInsert key pivot element before : Op S _).Steady (GhostOut X) := by
  refine .bind (.query (steady_readKept hX)) fun idx => ?_
  split
  · exact steady_pure _
  · refine .bind steady_lockKey fun _ => ?_
    dsimp only
    split
    all_goals
      exact .bind (.query (steady_onKept hX)) fun _ => .bind (.query (steady_onKept hX)) fun _ =>
        .query (steady_selectListLength hX)

/-! ### Sorted sets -/

theorem mem_limitOffset {limit offset : ℤ} {l l' : List α} (h : limitOffset limit offset l = .ok l')
    {a : α} (ha : a ∈ l') : a ∈ l := by
  unfold limitOffset at h
  split_ifs at h
  cases h
  exact List.mem_of_mem_drop (List.mem_of_mem_take ha)

theorem steady_zRem {members : List Bytes}
    (hX : ∀ m ∈ members, ∀ c, X .kvZsets (encodeKey key) m c) :
    (zRem key members : Op S _).Steady (GhostOut X) :=
  .query (steady_deleteWhere fun s c hs => hX s (of_decide_eq_true hs) c)

section scores
variable [Float64 S]

theorem mem_zMembers {u : Table Bytes S} {m : ZMember S} (h : m ∈ zMembers u) :
    u.row m.member = some m.score := by
  obtain ⟨⟨x, s⟩, hp, rfl⟩ := List.mem_map.mp h
  exact Table.mem_toList.mp ((List.perm_insertionSort _ _).mem_iff.mp hp)

theorem steady_zAddLoop (opts : ZAddOptions) (added changed : ℤ) {members : List (ZMember S)}
    (hX : ∀ m ∈ members, ∀ c, X .kvZsets k m.member c) :
    (zAddLoop k opts added changed members).Steady (GhostOut X) := by
  induction members generalizing added changed with
  | nil => exact trivial
  | cons m members ih =>
      have hm := hX m (List.mem_cons_self ..)
      have hrest (a c : ℤ) := ih a c fun m' hm' => hX m' (List.mem_cons_of_mem m hm')
      refine .bind (.query (steady_selectRow _ hm)) fun old => ?_
      split
      · exact hrest _ _
      · refine .bind (.query (steady_updateWhere _ fun _ s c hs => Or.inr ?_)) fun _ => hrest _ _
        rw [of_decide_eq_true hs]
        exact hm c
      · refine .bind (.query (steady_insertRows fun p hp => ?_)) fun _ => hrest _ _
        rw [List.mem_singleton.mp hp]
        exact hm

theorem agree_zAdd {members : List (ZMember S)} {opts : ZAddOptions}
    (hd : GhostOut X e.now d₁ d₂)
    (hX : TypeOk e.now d₁ (encodeKey key) .zset →
      ¬ (liveType e.now d₁ (encodeKey key) = none ∧ opts.XX = true) →
      ∀ m ∈ members, ∀ c, X .kvZsets (encodeKey key) m.member c) :
    Agree e (zAdd key members opts) d₁ d₂ := by
  refine agree_requireType hd fun hT => ?_
  split
  · exact steady_pure _
  · rename_i hgo
    exact .bind (steady_setMeta _ _) fun _ => .bind (steady_zAddLoop _ _ _ (hX hT hgo)) fun _ =>
      steady_pure _

theorem steady_zIncrBy (increment : S) {member : Bytes}
    (hmeta : ∀ s c, X .kvMeta (encodeKey key) s c)
    (hX : ∀ c, X .kvZsets (encodeKey key) member c) :
    (zIncrBy key increment member).Steady (GhostOut X) := by
  refine .bind steady_lockKey fun _ => .bind (.query (steady_onKept hmeta)) fun _ => .query ?_
  refine steady_onRows fun c u₁ u₂ h => ?_
  rw [h.row_eq hX]
  cases u₁.row member with
  | none => exact Or.inr ⟨_, _, _, rfl, rfl, h.put _ _⟩
  | some r =>
      dsimp only
      cases Float64.pgAdd r.val increment with
      | none => exact Or.inl ⟨_, rfl, rfl⟩
      | some s => exact Or.inr ⟨_, _, _, rfl, rfl, h.put _ _⟩

theorem agree_zRangeStore (dst src : Bytes) (spec : ZRangeStoreSpec S)
    (hd : GhostOut X e.now d₁ d₂) : Agree e (zRangeStore dst src spec) d₁ d₂ := by
  refine agree_replace hd fun d₁' d₂' h => agree_of_steady (.bind (.query ?_) fun n => ?_) h
  · exact .bind (steady_of_blind (blind_selectLiveLimit _)) fun _ =>
      .bind (steady_insertRows fun _ _ _ => RowSet.mem_withKeys) fun _ => Sql.steady_pure _
  · exact .ite (.bind (steady_setMeta _ _) fun _ => steady_pure _) (steady_pure _)

theorem steady_zRemRangeByScore {min max : S}
    (hX : ∀ s c, scoreBetween min max c.val = true → X .kvZsets (encodeKey key) s c) :
    (zRemRangeByScore key min max).Steady (GhostOut X) :=
  .query (steady_deleteWhere hX)

theorem steady_zRemRangeByRank (key : Bytes) (start stop : ℤ) :
    (zRemRangeByRank key start stop : Op S _).Steady (GhostOut X) := by
  refine .bind steady_lockKey fun _ => .bind (.query (steady_selectLive _)) fun total => ?_
  refine .ite (steady_pure _) (.query (steady_onRows fun c u₁ u₂ h => ?_))
  dsimp only
  rw [← h.ghostRows.live_eq]
  generalize hms : ((zMembers (live c.now u₁)).drop _).take _ = members
  have hlive : ∀ s r, u₁.row s = some r → decide (s ∈ members.map ZMember.member) = true →
      r.live c.now = true := by
    intro s r hr hs
    obtain ⟨m, hm, rfl⟩ := List.mem_map.mp (of_decide_eq_true hs)
    rw [← hms] at hm
    have hrow := mem_zMembers (List.mem_of_mem_drop (List.mem_of_mem_take hm))
    rw [live_row, hr] at hrow
    by_contra hdead
    simp [hdead] at hrow
  rw [h.restrict_eq fun s r hr hs => Or.inl (hlive s r hr hs)]
  exact Or.inr ⟨_, _, _, rfl, rfl, h.restrict _⟩

theorem agree_zPop (key : Bytes) (cnt : ℤ) (order : SortOrder) (hd : Ghost e.now d₁ d₂) :
    Agree e (zPop key cnt order : Op S _) d₁ d₂ := by
  refine agree_blind (Q := fun ms _ => ∀ m ∈ ms, ∀ c, Unexpired e.now d₁ .kvZsets (encodeKey key)
    m.member c) (.queryRows (blind_selectLiveLimit _)) hd ?_ fun members hms => ?_
  · rw [wp_queryRows, wpSql_selectLiveLimit]
    intro ms hms m hm
    exact unexpired_of_live (mem_zMembers (mem_order.mp (mem_limitOffset hms hm)))
  · split
    · exact hd
    · refine agree_of_steady (.bind (.query (steady_deleteWhere fun s c hs => ?_)) fun _ =>
        steady_pure _) hd.out
      obtain ⟨m, hm, rfl⟩ := List.mem_map.mp (of_decide_eq_true hs)
      exact hms m hm c

theorem steady_zMPop (keys : List Bytes) (order : SortOrder) (cnt : ℤ) :
    (zMPop keys order cnt : Op S _).Steady (GhostOut X) := by
  refine .ite (steady_pure _) (.bind (.query (.bind (steady_firstLive _ _) fun winner => ?_)) fun _ =>
    steady_pure _)
  split
  · exact Sql.steady_pure _
  · exact .bind (steady_popRows fun now u₁ u₂ h => by rw [h]) fun _ => Sql.steady_pure _

theorem agree_storeScores (destination : Bytes) (aggregate : Aggregate)
    (scores : Table Bytes (List S)) (hd : GhostOut X e.now d₁ d₂) :
    Agree e (storeScores (encodeKey destination) aggregate scores) d₁ d₂ := by
  refine agree_replace hd fun d₁' d₂' h => ?_
  split
  · exact h.ghost
  · rw [Agree, lockstep_bind, lockstep_random]
    refine agree_zAdd h fun _ _ m _ c => ?_
    rw [encodeKey_encodeKey]
    exact RowSet.mem_withKeys

theorem agree_zUnionStore (destination : Bytes) (keys : List Bytes) (weights : List S)
    (aggregate : Aggregate) (hd : Ghost e.now d₁ d₂) :
    Agree e (zUnionStore destination keys weights aggregate) d₁ d₂ :=
  agree_query (blind_zUnionLoop _ _ _) hd fun _ => agree_storeScores _ _ _ hd.out

theorem agree_zInterStore (destination : Bytes) (keys : List Bytes) (weights : List S)
    (aggregate : Aggregate) (hd : Ghost e.now d₁ d₂) :
    Agree e (zInterStore destination keys weights aggregate) d₁ d₂ := by
  unfold zInterStore
  dsimp only
  split
  · exact hd
  · refine agree_query (blind_zRange _ _ _) hd fun first => ?_
    split
    · split
      · exact agree_query (blind_zInterLoop _ _ _) hd fun _ => agree_storeScores _ _ _ hd.out
      · exact hd
    · exact agree_query (blind_zInterLoop _ _ _) hd fun _ => agree_storeScores _ _ _ hd.out

end scores

end Postkeys
