import Postkeys.Ghost.Collections

/-! # Operations on whole keys that leave expired rows alone

A new expiry brings expired rows back to life unless it lies in the past itself; a rename takes them
along; a copy reads them. -/

namespace Postkeys

open Relational Program

variable {S α β : Type} {X : RowSet S} {e : Env} {d₁ d₂ : DB S} {k : Bytes}
  {source destination : Bytes} {t : Tab}

/-! ### Deletion -/

theorem steady_delLoop (deleted : ℤ) (ks : List Bytes) :
    (delLoop deleted ks : Op S _).Steady (GhostOut X) := by
  induction ks generalizing deleted with
  | nil => exact trivial
  | cons k ks ih =>
      exact .bind (.bind steady_getKeyType fun _ => .ite (steady_pure _)
        (.bind steady_deleteKeyFromAllTables fun _ => steady_pure _)) fun _ => ih _

theorem steady_flushDB : (flushDB : Op S _).Steady (GhostOut X) :=
  .forEach fun _ _ => .query steady_replace

/-! ### Expiry -/

theorem Ghost.setExpiry {now x : Time} (h : Ghost now d₁ d₂) (hx : x ≤ now) :
    Ghost now (d₁.setRows t k ((d₁.rows t k).update (fun _ _ => true) fun r => ⟨r.val, some x⟩))
      (d₂.setRows t k ((d₂.rows t k).update (fun _ _ => true) fun r => ⟨r.val, some x⟩)) := by
  intro t' k'
  by_cases hk : k' = k
  · subst hk
    by_cases ht : t' = t
    · subst ht
      simp only [Store.rows_setRows_self]
      intro s
      simp only [Table.update_row, if_true]
      rcases h t' k' s with heq | ⟨hn, c, hc, -⟩
      · exact Or.inl (by rw [heq])
      · exact Or.inr ⟨by rw [hn]; rfl, ⟨c.val, some x⟩, by rw [hc]; rfl,
          by simp [Cell.live, not_lt.mpr hx]⟩
    · simpa [ht] using h t' k'
  · simpa [hk] using h t' k'

/-- What an update of the `kv_meta` row returns is the row that was there. -/
theorem wp_updateMeta {p : Time → Unit → Row S .kvMeta → Bool} {f : Row S .kvMeta → Row S .kvMeta} :
    wp e (query (updateWhere .kvMeta k p f) : Op S _)
      (fun rows _ => ∀ q ∈ rows, (d₁.rows .kvMeta k).row () = some q.2 ∧ p e.now () q.2 = true) d₁ := by
  rw [wp_query, wpSql_updateWhere]
  rintro ⟨s, r⟩ hq
  exact Table.restrict_row_some.mp (Table.mem_toList.mp hq)

theorem agree_applyExpiry {x : Time} {opts : ExpireOptions} (hd : Ghost e.now d₁ d₂)
    (hX : ∀ m, (d₁.rows .kvMeta k).row () = some m → expireWhereClause opts e.now x m.expiresAt = true →
      e.now < x → ∀ t, dataTableForType m.val = some t → ∀ s c, Unexpired e.now d₁ t k s c) :
    Agree e (applyExpiry k x opts) d₁ d₂ := by
  refine agree_bind (.query (steady_updateWhere _ fun now s c hs =>
    Or.inl (expireWhereClause_live hs))) hd.out wp_updateMeta fun rows d₁' d₂' h hrows => ?_
  split
  · exact h.ghost
  · rename_i s m l
    obtain ⟨hm, hp⟩ := hrows (s, m) (List.mem_cons_self ..)
    split
    · exact h.ghost
    · rename_i t ht
      by_cases hx : e.now < x
      · exact agree_of_steady (.bind (.query (steady_onKept (hX m hm hp hx t ht))) fun _ =>
          steady_pure _) h
      · -- rows that get an expiry in the past stay expired
        rw [Agree, lockstep_bind, lockstep_query]
        exact Or.inr ⟨(), _, _, rfl, rfl, h.ghost.setExpiry (not_lt.mp hx)⟩

theorem agree_persist {key : Bytes} (hd : Ghost e.now d₁ d₂)
    (hX : ∀ m x, (d₁.rows .kvMeta (encodeKey key)).row () = some m → m.expiresAt = some x →
      e.now < x → ∀ t ∈ dataTables, ∀ s c, Unexpired e.now d₁ t (encodeKey key) s c) :
    Agree e (persist key) d₁ d₂ := by
  rw [persist, Agree, lockstep_bind]
  refine agree_bind (.query (steady_updateWhere _ fun now s c hs => Or.inl ?_)) hd.out
    wp_updateMeta fun rows d₁' d₂' h hrows => ?_
  · unfold Cell.live
    cases hx : c.expiresAt with
    | none => rfl
    | some x => simpa [hx] using hs
  · cases rows with
    | nil => exact h.ghost
    | cons q l =>
        obtain ⟨hm, hp⟩ := hrows q (List.mem_cons_self ..)
        cases hx : q.2.expiresAt with
        | none => simp [hx] at hp
        | some x =>
            have hkept := hX q.2 x hm hx (by simpa [hx] using hp)
            exact agree_of_steady (.bind (.forEach fun t ht =>
              .queryIgnored (steady_onKept (hkept t ht))) fun _ => steady_pure _) h

/-! ### Renaming and copying -/

theorem addRows_ok {rows : List (t.Sub × Row S t)} {u : Table t.Sub (Row S t)}
    (hnd : (rows.map Prod.fst).Nodup) (hfree : ∀ p ∈ rows, u.row p.1 = none) :
    ∃ u', addRows t u rows = .ok u' := by
  induction rows generalizing u with
  | nil => exact ⟨u, rfl⟩
  | cons p rows ih =>
      obtain ⟨s, r⟩ := p
      simp only [addRows, hfree (s, r) (List.mem_cons_self ..)]
      rw [List.map_cons, List.nodup_cons] at hnd
      refine ih hnd.2 fun q hq => ?_
      have hne : q.1 ≠ s := by
        rintro rfl
        exact hnd.1 (List.mem_map.mpr ⟨q, hq, rfl⟩)
      rw [Table.put_row, if_neg hne]
      exact hfree q (List.mem_cons_of_mem _ hq)

theorem addRows_empty (u : Table t.Sub (Row S t)) : addRows t ∅ u.toList = .ok u := by
  obtain ⟨u', hu'⟩ := addRows_ok (u := (∅ : Table t.Sub (Row S t))) u.nodup_toList fun _ _ => rfl
  rw [hu', addRows_toList hu']

/-- A move to a key without rows. -/
theorem moveKey_ok {c : Ctx Bytes Tab.Sub} {k' : Bytes} {d : DB S} (hk : k ≠ k')
    (hempty : d.rows t k' = ∅) :
    moveKey t k k' c d = .ok ((d.setRows t k ∅).setRows t k' (d.rows t k), ()) := by
  have hrows : (d.setRows t k ∅).rows t k' = ∅ := by
    rw [Store.rows_setRows_of_ne_key _ _ _ (Ne.symm hk), hempty]
  rw [moveKey, if_neg hk]
  simp only [Bind.bind, Sql.onRows, insertRows]
  rw [hrows, addRows_empty]
  rfl

theorem Ghost.move {now : Time} {k' : Bytes} (h : Ghost now d₁ d₂) :
    Ghost now ((d₁.setRows t k ∅).setRows t k' (d₁.rows t k))
      ((d₂.setRows t k ∅).setRows t k' (d₂.rows t k)) := by
  have hrows (d d' : DB S) (hd : Ghost now d d') {k : Bytes} {u u' : Table t.Sub (Row S t)}
      (hu : GhostRows now u u') : Ghost now (d.setRows t k u) (d'.setRows t k u') := by
    intro t₀ k₀
    by_cases hk : k₀ = k
    · subst hk
      by_cases ht : t₀ = t
      · subst ht
        simpa using hu
      · simpa [ht] using hd t₀ k₀
    · simpa [hk] using hd t₀ k₀
  exact hrows _ _ (hrows _ _ h (GhostRows.refl _)) (h t k)

theorem GhostRows.eq_empty {σ V : Type} {now : Time} {u₁ u₂ : Table σ (Cell V)}
    (h : GhostRows now u₁ u₂) (hu : u₁ = ∅) : u₂ = ∅ := by
  subst hu
  refine Table.eq_empty_iff.mpr fun s => ?_
  rcases h s with heq | ⟨hn, -⟩
  · exact heq
  · exact hn

/-- Moving the rows of a key in two tables to a key without rows. -/
theorem agree_move {k' : Bytes} (hd : Ghost e.now d₁ d₂) (ht : t ≠ .kvMeta)
    (hempty : ∀ t, d₁.rows t k' = ∅) :
    Agree e (do query (moveKey .kvMeta k k'); query (moveKey t k k') : Op S Unit) d₁ d₂ := by
  by_cases hk : k = k'
  · have hmove (t : Tab) : (moveKey t k k' : Stm S Unit) = pure () := by rw [moveKey, if_pos hk]
    rw [hmove, hmove]
    exact agree_of_steady (.bind (.query (Sql.steady_pure _)) fun _ => .query (Sql.steady_pure _)) hd.out
  · have hempty₂ (t : Tab) : d₂.rows t k' = ∅ := (hd t k').eq_empty (hempty t)
    rw [Agree, lockstep_bind, lockstep_query]
    refine Or.inr ⟨(), _, _, moveKey_ok hk (hempty _), moveKey_ok hk (hempty₂ _), ?_⟩
    dsimp only
    rw [lockstep_query]
    exact Or.inr ⟨(), _, _, moveKey_ok hk (by simp [ht, hempty]), moveKey_ok hk (by simp [ht, hempty₂]),
      hd.move.move⟩

theorem agree_rename (oldKey newKey : Bytes) (hd : Ghost e.now d₁ d₂) :
    Agree e (rename oldKey newKey : Op S _) d₁ d₂ := by
  refine agree_bind (Q := fun _ _ => True) (steady_lockKeys _) hd.out (by rw [wp_lockKeys]; trivial) ?_
  intro _ d₁ d₂ hd _
  refine agree_query (blind_getKeyType _) hd.ghost fun keyType => ?_
  split
  · exact hd.ghost
  · rename_i T
    refine agree_bind (Q := fun _ d => ∀ t, d.rows t (encodeKey newKey) = ∅)
      steady_deleteKeyFromAllTables hd ?_ fun _ d₁' d₂' hd' hempty => ?_
    · rw [wp_deleteKeyFromAllTables]
      exact fun t => Store.rows_dropKey_self d₁ t _
    · split
      · exact hd'.ghost
      · rename_i t ht
        refine agree_move hd'.ghost ?_ hempty
        rintro rfl
        cases T <;> simp [dataTableForType] at ht

theorem steady_copyRows (T : KeyType)
    (hX : ∀ s c, X t source s c) : (copyRows t T source destination).Steady (GhostOut X) := by
  refine .bind (steady_setMeta _ _) fun _ => .bind (.queryRows (steady_readKept hX)) fun rows => ?_
  split <;> trivial

theorem steady_copyByType {T : KeyType}
    (hsrc : T ≠ .hyperloglog → ∀ s c, X T.table source s c)
    (hdst : T = .string → ∀ s c, X .kvStrings destination s c) :
    (copyByType T source destination).Steady (GhostOut X) := by
  cases T with
  | string =>
      refine .bind (.query (steady_readKept (hsrc (by decide)))) fun row => ?_
      split
      · exact trivial
      · exact .bind (steady_setMeta _ _) fun _ =>
          .bind (.query (steady_onKept (hdst rfl))) fun _ => steady_pure _
  | hyperloglog => exact trivial
  | hash | list | set | zset => exact steady_copyRows _ (hsrc (by decide))

theorem agree_copyKey {replace : Bool} (hd : Ghost e.now d₁ d₂)
    (hX : ∀ T, liveType e.now d₁ (encodeKey source) = some T →
      (liveType e.now d₁ (encodeKey destination) = none ∨ replace = true) →
        (T ≠ .hyperloglog → ∀ s c, Unexpired e.now d₁ T.table (encodeKey source) s c) ∧
        (T = .string → liveType e.now d₁ (encodeKey destination) = none →
          ∀ s c, Unexpired e.now d₁ .kvStrings (encodeKey destination) s c)) :
    Agree e (copyKey source destination replace) d₁ d₂ := by
  refine agree_bind (Q := fun _ d => d = d₁) (steady_lockKeys _) hd.out (by rw [wp_lockKeys]) ?_
  rintro _ d d₂ hout heq
  rw [← heq] at hX hout
  have hd := hout.ghost
  refine agree_blind (Q := fun T _ => T = liveType e.now d (encodeKey source)) (blind_getKeyType _)
    hd rfl fun keyType hT => ?_
  split
  · exact hd
  · rename_i T
    refine agree_blind (Q := fun T _ => T = liveType e.now d (encodeKey destination))
      (blind_getKeyType _) hd rfl ?_
    rintro _ rfl
    dsimp only
    split
    · exact hd
    · rename_i hgo
      have hgo' : liveType e.now d (encodeKey destination) = none ∨ replace = true := by
        cases replace with
        | true => exact Or.inr rfl
        | false => exact Or.inl (by_contra fun hne => hgo ⟨hne, rfl⟩)
      obtain ⟨hsrc, hdst⟩ := hX T hT.symm hgo'
      split
      · refine agree_replace hout fun d₁' d₂' h => agree_of_steady (steady_copyByType ?_ ?_) h
        · exact fun hne s c => Or.inl (hsrc hne s c)
        · exact fun _ s c => RowSet.mem_withKeys
      · rename_i hnone
        exact agree_of_steady
          (steady_copyByType hsrc fun hstr => hdst hstr (not_not.mp hnone)) hout

end Postkeys
