import Postkeys.Command
import Postkeys.Querier.Rules
import Postkeys.Relational.Lockstep

/-! # Expired rows nobody looks at

`Ghost now d₁ d₂` says that `d₂` is `d₁` without some of its expired rows.  A statement that filters
on `expires_at` cannot tell the two apart, so an operation made of such statements is blind: it
answers the same on both and changes neither.  All queries of the store are, except `LRANGE` and
`LPOS`. -/

namespace Postkeys

open Relational Program

variable {S β : Type} {now now' : Time} {σ V : Type}

/-! ### The relation -/

/-- `u₂` is `u₁` without some of its expired rows. -/
def GhostRows {σ V : Type} (now : Time) (u₁ u₂ : Table σ (Cell V)) : Prop :=
  ∀ s, u₂.row s = u₁.row s ∨ u₂.row s = none ∧ ∃ c, u₁.row s = some c ∧ c.live now = false

/-- `d₂` is `d₁` without some of its expired rows. -/
def Ghost (now : Time) (d₁ d₂ : DB S) : Prop :=
  ∀ t k, GhostRows now (d₁.rows t k) (d₂.rows t k)

theorem GhostRows.refl (u : Table σ (Cell V)) : GhostRows now u u := fun _ => Or.inl rfl

theorem Ghost.refl (now : Time) (d : DB S) : Ghost now d d := fun _ _ => GhostRows.refl _

theorem Cell.live_congr {V V' : Type} {c : Cell V} {c' : Cell V'} (h : c.expiresAt = c'.expiresAt) :
    c.live now = c'.live now := by
  unfold Cell.live
  rw [h]

/-- What has expired stays expired. -/
theorem Cell.live_false_mono {V : Type} {c : Cell V} (h : c.live now = false) (hle : now ≤ now') :
    c.live now' = false := by
  unfold Cell.live at h ⊢
  cases hx : c.expiresAt with
  | none => simp [hx] at h
  | some x =>
      simp only [hx, decide_eq_false_iff_not, not_lt] at h ⊢
      exact h.trans hle

theorem Ghost.mono {d₁ d₂ : DB S} (h : Ghost now d₁ d₂) (hle : now ≤ now') : Ghost now' d₁ d₂ := by
  intro t k s
  rcases h t k s with heq | ⟨hn, c, hc, hl⟩
  · exact Or.inl heq
  · exact Or.inr ⟨hn, c, hc, Cell.live_false_mono hl hle⟩

theorem live_row (u : Table σ (Cell V)) (s : σ) :
    (live now u).row s = (u.row s).bind fun c => if c.live now then some c.val else none := rfl

theorem live_ne_empty {u : Table σ (Cell V)} :
    live now u ≠ ∅ ↔ ∃ s c, u.row s = some c ∧ c.live now = true := by
  rw [Table.ne_empty_iff]
  constructor
  · rintro ⟨s, v, hv⟩
    obtain ⟨c, hc, hval⟩ := Option.bind_eq_some_iff.mp hv
    refine ⟨s, c, hc, ?_⟩
    by_contra hdead
    dsimp only at hval
    rw [if_neg hdead] at hval
    cases hval
  · rintro ⟨s, c, hc, hlive⟩
    exact ⟨s, c.val, by simp [live_row, hc, hlive]⟩

theorem GhostRows.live_eq {u₁ u₂ : Table σ (Cell V)} (h : GhostRows now u₁ u₂) :
    live now u₁ = live now u₂ := by
  refine Table.ext_row fun s => ?_
  rw [live_row, live_row]
  rcases h s with heq | ⟨hn, c, hc, hl⟩
  · rw [heq]
  · simp [hn, hc, hl]

theorem GhostRows.liveRows_eq {u₁ u₂ : Table σ (Cell V)} (h : GhostRows now u₁ u₂) :
    liveRows now u₁ = liveRows now u₂ := by
  refine Table.ext_row fun s => ?_
  rw [liveRows, liveRows, Table.restrict_row, Table.restrict_row]
  rcases h s with heq | ⟨hn, c, hc, hl⟩
  · rw [heq]
  · simp [hn, hc, hl]

theorem Ghost.live_eq {d₁ d₂ : DB S} (h : Ghost now d₁ d₂) (t : Tab) (k : Bytes) :
    live now (d₁.rows t k) = live now (d₂.rows t k) := (h t k).live_eq

/-! ### Blind statements -/

/-- A query over live rows, whatever it computes from them. -/
theorem blind_of_live {t : Tab} {k : Bytes}
    {f : Ctx Bytes Tab.Sub → Table t.Sub (Row S t) → Except PgError β}
    (hf : ∀ c u₁ u₂, live c.now u₁ = live c.now u₂ → f c u₁ = f c u₂) :
    (Sql.readRows t k f : Stm S β).Blind Ghost := by
  intro c d₁ d₂ h
  have heq := hf c _ _ (h.live_eq t k)
  simp only [Sql.readRows, ← heq]
  cases f c (d₁.rows t k) with
  | ok b => exact Or.inr ⟨b, rfl, rfl⟩
  | error x => exact Or.inl ⟨x, rfl, rfl⟩

theorem blind_selectLive {t : Tab} {k : Bytes} (f : Table t.Sub (t.Val S) → β) :
    (selectLive t k f).Blind Ghost := blind_of_live fun c _ _ h => by rw [h]

theorem blind_selectLiveRows {t : Tab} {k : Bytes} : (selectLiveRows t k : Stm S _).Blind Ghost :=
  blind_of_live fun c _ _ h => by rw [h]

theorem blind_selectLiveLimit {t : Tab} {k : Bytes}
    (f : List ℕ → Table t.Sub (t.Val S) → Except PgError (List β)) :
    (selectLiveLimit t k f).Blind Ghost := blind_of_live fun c _ _ h => by rw [h]

theorem blind_selectLiveIn {t : Tab} (ks : List Bytes) : (selectLiveIn t ks : Stm S _).Blind Ghost := by
  intro c d₁ d₂ h
  refine Or.inr ⟨_, rfl, ?_⟩
  have hrows (r₁ r₂ : Bytes → Table t.Sub (Row S t)) (hr : ∀ k, live c.now (r₁ k) = live c.now (r₂ k)) :
      (ks.dedup.flatMap fun k => (live c.now (r₂ k)).toList.map fun p => (k, p)) =
        ks.dedup.flatMap fun k => (live c.now (r₁ k)).toList.map fun p => (k, p) := by
    simp only [hr]
  simp only [selectLiveIn, Sql.readRowsIn]
  rw [hrows]
  intro k
  split
  · exact h.live_eq t k
  · rfl

theorem blind_selectExpiry (k : Bytes) : (selectExpiry k : Stm S _).Blind Ghost := by
  intro c d₁ d₂ h
  refine Or.inr ⟨_, rfl, ?_⟩
  simp only [selectExpiry, Sql.readRows]
  rcases h .kvMeta k () with heq | ⟨hn, x, hx, hl⟩
  · rw [heq]
  · simp [hn, hx, hl]

theorem liveKeys_eq {d₁ d₂ : DB S} (h : Ghost now d₁ d₂) :
    liveKeys now (d₁ .kvMeta) = liveKeys now (d₂ .kvMeta) := by
  have hlive (k : Bytes) : live now ((d₁ .kvMeta).slice k) = live now ((d₂ .kvMeta).slice k) :=
    h.live_eq .kvMeta k
  have hgroup (d : DB S) (k : Bytes) (hk : ((live now ((d .kvMeta).slice k)).row ()).isSome) :
      k ∈ (d .kvMeta).groups := by
    refine Store.mem_keysOf.mpr fun hempty => ?_
    have hrow : ((d .kvMeta).slice k).row () = none := by
      have := congrArg (fun u => u.row ()) hempty
      exact this
    rw [live_row, hrow] at hk
    exact absurd hk (by simp)
  rw [liveKeys, liveKeys, Table.ascending_filter, Table.ascending_filter]
  congr 1
  ext k
  simp only [Finset.mem_filter]
  constructor
  · rintro ⟨-, hk⟩
    rw [hlive k] at hk
    exact ⟨hgroup d₂ k hk, hk⟩
  · rintro ⟨-, hk⟩
    exact ⟨hgroup d₁ k (hlive k ▸ hk), hlive k ▸ hk⟩

theorem blind_scanKeys (f : List ℕ → List Bytes → β) :
    (Sql.scan .kvMeta fun c u => f c.order (liveKeys c.now u) : Stm S β).Blind Ghost := by
  intro c d₁ d₂ h
  refine Or.inr ⟨_, rfl, ?_⟩
  simp only [Sql.scan, liveKeys_eq h]

/-! ### Blind operations -/

theorem blind_sendTime (ns : ℤ) : (sendTime ns : Stm S _).Blind Ghost := by
  unfold sendTime
  split
  · exact Sql.blind_pure _
  · exact Sql.blind_error _

theorem blind_getKeyType (k : Bytes) : (getKeyType k : Op S _).Blind Ghost :=
  .query (blind_selectLive _)

theorem blind_readTypeCheck (k : Bytes) (kt : KeyType) : (readTypeCheck k kt : Op S _).Blind Ghost := by
  refine .bind (blind_getKeyType k) fun kt' => ?_
  repeat' split
  all_goals trivial

theorem blind_randomRows (t : Tab) (k : Bytes) (cnt size : ℤ) :
    (randomRows t k cnt size : Op S _).Blind Ghost := by
  unfold randomRows
  split
  · exact .query (blind_selectLiveLimit _)
  · refine .bind (.query blind_selectLiveRows) fun pool => ?_
    dsimp only
    split
    · exact trivial
    · split
      · exact trivial
      · exact .bind blind_random fun _ => trivial

theorem blind_keys (pattern : Bytes) : (keys pattern : Op S _).Blind Ghost := by
  refine .bind (.queryRows ?_) fun _ => trivial
  unfold selectKeysLike
  split
  · exact Sql.blind_error _
  · split
    · exact Sql.blind_error _
    · exact blind_scanKeys fun order ks => Table.shuffle order (ks.filter _)

theorem blind_selectStrings (ks : List Bytes) : (selectStrings ks : Op S _).Blind Ghost := by
  induction ks with
  | nil => exact trivial
  | cons k ks ih => exact .bind (.query (blind_selectLive _)) fun _ => .bind ih fun _ => trivial

theorem blind_sMembers (k : Bytes) : (sMembers k : Op S _).Blind Ghost :=
  .bind (blind_readTypeCheck _ _) fun _ => .bind (.query blind_selectLiveRows) fun _ => trivial

theorem blind_walk (r : Finset Bytes) : (walk r : Op S _).Blind Ghost :=
  .bind blind_random fun _ => trivial

theorem blind_sInterLoop (r : Finset Bytes) (ks : List Bytes) :
    (sInterLoop r ks : Op S _).Blind Ghost := by
  induction ks generalizing r with
  | nil => exact trivial
  | cons k ks ih =>
      refine .bind (blind_sMembers k) fun ms => ?_
      dsimp only
      split
      · exact trivial
      · exact ih _

theorem blind_sInter (ks : List Bytes) : (sInter ks : Op S _).Blind Ghost := by
  unfold sInter
  split
  · exact trivial
  · refine .bind (blind_sMembers _) fun first => ?_
    split
    · exact trivial
    · exact .bind (blind_sInterLoop _ _) fun _ => blind_walk _

theorem blind_sUnionLoop (r : Finset Bytes) (ks : List Bytes) :
    (sUnionLoop r ks : Op S _).Blind Ghost := by
  induction ks generalizing r with
  | nil => exact trivial
  | cons k ks ih => exact .bind (blind_sMembers k) fun _ => ih _

theorem blind_sUnion (ks : List Bytes) : (sUnion ks : Op S _).Blind Ghost := by
  unfold sUnion
  split
  · exact trivial
  · exact .bind (blind_sUnionLoop _ _) fun _ => blind_walk _

theorem blind_sDiffLoop (r : Finset Bytes) (ks : List Bytes) :
    (sDiffLoop r ks : Op S _).Blind Ghost := by
  induction ks generalizing r with
  | nil => exact trivial
  | cons k ks ih => exact .bind (blind_sMembers k) fun _ => ih _

theorem blind_sDiff (ks : List Bytes) : (sDiff ks : Op S _).Blind Ghost := by
  unfold sDiff
  split
  · exact trivial
  · refine .bind (blind_sMembers _) fun first => ?_
    split
    · exact trivial
    · exact .bind (blind_sDiffLoop _ _) fun _ => blind_walk _

theorem blind_pfMergeLoop (m : HyperLogLog) (ks : List Bytes) :
    (pfMergeLoop m ks : Op S _).Blind Ghost := by
  induction ks generalizing m with
  | nil => exact trivial
  | cons k ks ih => exact .bind (.query (blind_selectLive _)) fun _ => ih _

section scores
variable [Float64 S]

theorem blind_zRange (k : Bytes) (start stop : ℤ) : (zRange k start stop : Op S _).Blind Ghost :=
  .query (blind_selectLiveLimit _)

theorem blind_zUnionLoop (scores : Table Bytes (List S)) (ks : List Bytes) (ws : List S) :
    (zUnionLoop scores ks ws).Blind Ghost := by
  induction ks generalizing scores ws with
  | nil => exact trivial
  | cons k ks ih =>
      cases ws with
      | nil => exact trivial
      | cons w ws => exact .bind (blind_zRange _ _ _) fun _ => ih _ _

theorem blind_zInterLoop (scores : Table Bytes (List S)) (ks : List Bytes) (ws : List S) :
    (zInterLoop scores ks ws).Blind Ghost := by
  induction ks generalizing scores ws with
  | nil => exact trivial
  | cons k ks ih =>
      refine .bind (blind_zRange _ _ _) fun ms => ?_
      cases ws with
      | nil =>
          dsimp only
          split
          · exact ih _ _
          · exact trivial
      | cons w ws => exact ih _ _

/-! ### Reading commands -/

/-- The commands that look at live rows only and change nothing. -/
def Cmd.reads : Cmd S → Bool
  | .get _ | .mGet _ | .getRange _ _ _ | .strLen _ | .existsKeys _ | .ttl _ | .pttl _ | .keys _
  | .keyType _ | .randomKey | .getBit _ _ | .bitCount _ _ _ _ | .bitPos _ _ _ _ _ | .hGet _ _
  | .hGetAll _ | .hMGet _ _ | .hExists _ _ | .hKeys _ | .hVals _ | .hLen _ | .hRandField _ _ _
  | .lLen _ | .lIndex _ _ | .sMembers _ | .sIsMember _ _ | .sCard _ | .sMIsMember _ _ | .sInter _
  | .sUnion _ | .sDiff _ | .sInterCard _ _ | .sRandMember _ _ | .zRange _ _ _
  | .zRangeByScore _ _ _ _ _ | .zRevRange _ _ _ | .zRevRangeByScore _ _ _ _ _
  | .zRangeByLex _ _ _ _ _ | .zRevRangeByLex _ _ _ _ _ | .zLexCount _ _ _ | .zRandMember _ _
  | .zScore _ _ | .zCard _ | .zRank _ _ | .zRevRank _ _ | .zCount _ _ _ | .zScan _ _ _ _
  | .pfCount _ | .dbSize => true
  | _ => false

/-- **A reading command cannot see expired rows.** -/
theorem Cmd.blind_op {c : Cmd S} (h : c.reads = true) : c.op.Blind Ghost := by
  cases c
  -- a single query
  case get | hGet | hExists | hLen | lIndex | sIsMember | zLexCount | zScore | zCard | zRank | zRevRank
      | zCount => exact .map _ (.query (blind_selectLive _))
  case zRange | zRevRange | zRangeByLex | zRevRangeByLex =>
    exact .map _ (.query (blind_selectLiveLimit _))
  case zRangeByScore | zRevRangeByScore => exact .map _ (.queryRows (blind_selectLiveLimit _))
  case keyType => exact .map _ (blind_getKeyType _)
  case dbSize => exact .map _ (.query (blind_scanKeys fun _ ks => (ks.length : ℤ)))
  -- a query, and what is made of its rows
  case strLen => exact .map _ (.bind (.query (blind_selectLive _)) fun _ => trivial)
  case mGet => exact .map _ (.bind (.queryRows (blind_selectLiveIn _)) fun _ => trivial)
  case existsKeys => exact .map _ (.bind (.query (blind_selectLiveIn _)) fun _ => trivial)
  case hMGet => exact .map _ (.bind (.queryRows (blind_selectLiveLimit _)) fun _ => trivial)
  case hKeys | hVals | sMIsMember =>
    exact .map _ (.bind (.queryRows blind_selectLiveRows) fun _ => trivial)
  case randomKey => exact .map _ (.bind (.query (blind_scanKeys Table.shuffle)) fun _ => trivial)
  case getRange | getBit | bitCount | bitPos =>
    refine .map _ (.bind (.query (blind_selectLive _)) fun _ => ?_)
    dsimp only
    repeat' split
    all_goals trivial
  case zScan =>
    refine .map _ (.bind (.queryRows (blind_selectLive _)) fun _ => ?_)
    dsimp only
    repeat' split
    all_goals trivial
  case ttl | pttl =>
    refine .map _ (.bind (.query (blind_selectExpiry _)) fun x => ?_)
    split
    · exact trivial
    · exact trivial
    · refine .bind blind_clock fun _ => ?_
      dsimp only
      split <;> trivial
  -- a query after a check of the type
  case hGetAll | sMembers =>
    exact .map _ (.bind (blind_readTypeCheck _ _) fun _ => .bind (.query blind_selectLiveRows) fun _ => trivial)
  case lLen | sCard =>
    exact .map _ (.bind (blind_readTypeCheck _ _) fun _ => .query (blind_selectLive _))
  case hRandField | sRandMember | zRandMember =>
    exact .map _ (.ite trivial (.bind (blind_randomRows _ _ _ _) fun _ => trivial))
  -- several keys
  case keys p => exact (blind_keys p).map _
  case sInter ks => exact (blind_sInter ks).map _
  case sUnion ks => exact (blind_sUnion ks).map _
  case sDiff ks => exact (blind_sDiff ks).map _
  case sInterCard ks n =>
    refine .map _ (.ite trivial (.bind (blind_sInter ks) fun _ => ?_))
    split <;> trivial
  case pfCount ks =>
    refine .map _ ?_
    unfold Postkeys.pfCount
    split
    · exact trivial
    · exact .bind (.query (blind_selectLive _)) fun _ => trivial
    · exact .bind (blind_pfMergeLoop _ _) fun _ => trivial
  all_goals cases h

end scores

end Postkeys
