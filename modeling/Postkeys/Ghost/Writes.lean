import Postkeys.Effects.Commands
import Postkeys.Ghost.Statements

/-! # Writes that leave expired rows alone

For every operation that writes, the rows that must be kept for the two runs to agree: where all of
them are the same in both databases, the operation answers the same on `d₁` and `d₂` and leaves
`d₂` equal to `d₁` up to expired rows. -/

namespace Postkeys

open Relational Program

variable {S α β : Type} {X : RowSet S} {e : Env} {d₁ d₂ : DB S} {k : Bytes} {key : Bytes}
  {p : Op S α}

/-! ### Runs that agree -/

/-- The runs of `p` on the two databases answer the same and leave them equal up to expired rows. -/
abbrev Agree (e : Env) (p : Op S α) (d₁ d₂ : DB S) : Prop :=
  Lockstep e (Ghost e.now) p (fun _ => Ghost e.now) d₁ d₂

theorem agree_of_steady (h : p.Steady (GhostOut X)) (hd : GhostOut X e.now d₁ d₂) :
    Agree e p d₁ d₂ :=
  h.lockstep hd (fun _ _ h => h.ghost) fun _ _ _ h => h.ghost

theorem steadyOp_of_blind (h : p.Blind Ghost) : p.Steady (GhostOut X) :=
  h.steady fun _ _ _ h => h.ghost

theorem agree_bind {f : α → Op S β} {Q : α → DB S → Prop} (hp : p.Steady (GhostOut X))
    (hd : GhostOut X e.now d₁ d₂) (hw : wp e p Q d₁)
    (hf : ∀ a d₁' d₂', GhostOut X e.now d₁' d₂' → Q a d₁' → Agree e (f a) d₁' d₂') :
    Agree e (p >>= f) d₁ d₂ := by
  rw [Agree, lockstep_bind]
  have hstep : Lockstep e (Ghost e.now) p (fun _ => GhostOut X e.now) d₁ d₂ :=
    hp.lockstep hd (fun _ _ h => h.ghost) fun _ _ _ h => h
  exact (hstep.and_wp hw).mono fun a d₁' d₂' h => hf a d₁' d₂' h.1 h.2

/-- After a query over live rows both runs are where they were. -/
theorem agree_blind {f : α → Op S β} {Q : α → DB S → Prop} (hp : p.Blind Ghost)
    (hd : Ghost e.now d₁ d₂) (hw : wp e p Q d₁) (hf : ∀ a, Q a d₁ → Agree e (f a) d₁ d₂) :
    Agree e (p >>= f) d₁ d₂ := by
  rw [Agree, lockstep_bind]
  have hstep : Lockstep e (Ghost e.now) p (fun _ d₁' d₂' => d₁' = d₁ ∧ d₂' = d₂) d₁ d₂ :=
    hp.lockstep hd fun _ => ⟨rfl, rfl⟩
  refine (hstep.and_wp hw).mono ?_
  rintro a _ _ ⟨⟨rfl, rfl⟩, hQ⟩
  exact hf a hQ

theorem agree_query {f : α → Op S β} (hp : p.Blind Ghost) (hd : Ghost e.now d₁ d₂)
    (hf : ∀ a, Agree e (f a) d₁ d₂) : Agree e (p >>= f) d₁ d₂ :=
  agree_blind (Q := fun _ _ => True) hp hd (hp.wp Ghost.refl fun _ => trivial) fun a _ => hf a

/-! ### Shared helpers -/

theorem steady_lockKey : (lockKey k : Op S _).Steady (GhostOut X) := steady_acquire _

theorem steady_lockKeys (ks : List Bytes) : (lockKeys ks : Op S _).Steady (GhostOut X) := by
  unfold lockKeys
  split
  · exact trivial
  · exact steady_lockKey
  · exact .forEach fun _ _ => steady_lockKey

theorem steady_setMeta (T : KeyType) (x : Option Time) :
    (setMeta k T x : Op S _).Steady (GhostOut X) :=
  .bind steady_lockKey fun _ => .query (steady_overwrite _ _)

theorem steady_deleteKeyFromAllTables : (deleteKeyFromAllTables k : Op S _).Steady (GhostOut X) :=
  .bind steady_lockKey fun _ => .forEach fun _ _ => .query steady_deleteKey

theorem steady_getKeyType : (getKeyType k : Op S _).Steady (GhostOut X) :=
  steadyOp_of_blind (blind_getKeyType k)

theorem steady_selectLive {t : Tab} (f : Table t.Sub (t.Val S) → β) :
    (selectLive t k f).Steady (GhostOut X) := steady_of_blind (blind_selectLive f)

/-- A key that is deleted first is written from scratch. -/
theorem agree_replace {f : Unit → Op S β} (hd : GhostOut X e.now d₁ d₂)
    (hf : ∀ d₁' d₂', GhostOut (X.withKeys [k]) e.now d₁' d₂' → Agree e (f ()) d₁' d₂') :
    Agree e (deleteKeyFromAllTables k >>= f) d₁ d₂ := by
  refine agree_bind (Q := fun _ d => ∀ t, d.rows t k = ∅) steady_deleteKeyFromAllTables hd ?_ ?_
  · rw [wp_deleteKeyFromAllTables]
    exact fun t => Store.rows_dropKey_self d₁ t k
  · intro _ d₁' d₂' h hempty
    refine hf d₁' d₂' (h.withKeys fun t k' hk' => ?_)
    rw [List.mem_singleton.mp hk']
    exact hempty t

/-- A checked write only goes on where the type fits. -/
theorem agree_requireType {T : KeyType} {next : Option KeyType → Op S α}
    (hd : GhostOut X e.now d₁ d₂)
    (hnext : TypeOk e.now d₁ k T → (next (liveType e.now d₁ k)).Steady (GhostOut X)) :
    Agree e (requireType k T next) d₁ d₂ := by
  refine agree_blind (Q := fun kt _ => kt = liveType e.now d₁ k) (blind_getKeyType k) hd.ghost rfl ?_
  rintro _ rfl
  split
  · exact hd.ghost
  · rename_i hT
    exact agree_of_steady (hnext (by unfold TypeOk; tauto)) hd

theorem RowSet.mem_withKeys {t : Tab} {s : t.Sub} {c : Row S t} : X.withKeys [k] t k s c :=
  Or.inr (List.mem_singleton_self k)

/-! ### Strings -/

theorem steady_set (key value : Bytes) (ttl : ℤ) : (set key value ttl : Op S _).Steady (GhostOut X) := by
  refine .bind steady_deleteKeyFromAllTables fun _ => ?_
  dsimp only
  split
  · exact .bind steady_clock fun _ => .bind (steady_pure _) fun _ =>
      .bind (steady_setMeta _ _) fun _ => .query (steady_overwrite _ _)
  · exact .bind (steady_pure _) fun _ =>
      .bind (steady_setMeta _ _) fun _ => .query (steady_overwrite _ _)

theorem steady_setNX (key value : Bytes) (ttl : ℤ) :
    (setNX key value ttl : Op S _).Steady (GhostOut X) :=
  .bind steady_lockKey fun _ => .bind (.query (steady_selectLive _)) fun _ =>
    .ite trivial (.bind (steady_set _ _ _) fun _ => trivial)

theorem agree_mSet (pairs : Table Bytes Bytes) (hd : GhostOut X e.now d₁ d₂) :
    Agree e (mSet pairs) d₁ d₂ := by
  rw [mSet, Agree, lockstep_bind, lockstep_random]
  dsimp only
  split
  · exact hd.ghost
  · generalize encodePairs e.random pairs = m
    have hdel : (deleteKeysFromAllTables (Table.ascending m.dom) : Op S _).Steady (GhostOut X) :=
      .ite trivial <| .bind (steady_lockKeys _) fun _ =>
        .forEach fun _ _ => .query (.forEach fun _ _ => steady_deleteKey)
    refine agree_bind (Q := fun _ d => ∀ t, ∀ k ∈ Table.ascending m.dom, d.rows t k = ∅) hdel hd ?_ ?_
    · unfold deleteKeysFromAllTables
      simp only [wp_ite, pure_eq, wp_ret, wp_bind, wp_lockKeys]
      refine ⟨fun hks t k hk => by simp [hks] at hk, fun _ => ?_⟩
      refine wp_mono (wp_deleteKeysFrom allTables _) fun _ d' h t k hk => ?_
      have hall : t ∈ allTables := by cases t <;> decide
      rw [h, if_pos ⟨hall, hk⟩]
    · intro _ d₁' d₂' h hempty
      refine agree_of_steady (.bind (.ite trivial (.bind (steady_lockKeys _) fun _ => .query ?_))
        fun _ => .query (.forEach fun p hp => ?_)) (h.withKeys hempty)
      · split
        · exact .forEach fun k hk => steady_upsertRow _ _ fun _ => Or.inr hk
        · exact Sql.steady_error _
      · have hmem : p.1 ∈ Table.ascending m.dom :=
          Table.mem_ascending.mpr (Table.mem_dom_of_row (Table.mem_toList.mp hp))
        exact steady_upsertRow _ _ fun _ => Or.inr hmem

/-- The end of a command that has computed the new value of a string. -/
theorem steady_writeString (hX : ∀ s c, X .kvStrings k s c) (value : Bytes) (b : β) :
    (do setMeta k .string none; query (upsertString k value); pure b : Op S β).Steady (GhostOut X) :=
  .bind (steady_setMeta _ _) fun _ => .bind (.query (steady_upsertRow _ _ (hX _))) fun _ =>
    steady_pure _

theorem steady_incr (delta : ℤ) (hX : ∀ s c, X .kvStrings (encodeKey key) s c) :
    (incr key delta).Steady (GhostOut X) := by
  refine .bind (.query (steady_selectLive _)) fun v => ?_
  dsimp only
  split
  · exact .bind (steady_pure _) fun _ => steady_writeString hX _ _
  · split
    · exact .bind (steady_pure _) fun _ => steady_writeString hX _ _
    · exact trivial

theorem agree_incrByFloat [Float64 S] (delta : S) (hd : GhostOut X e.now d₁ d₂)
    (hX : TypeOk e.now d₁ (encodeKey key) .string → ∀ s c, X .kvStrings (encodeKey key) s c) :
    Agree e (incrByFloat key delta) d₁ d₂ := by
  refine agree_requireType hd fun hT => .bind (.query (steady_selectLive _)) fun v => ?_
  dsimp only
  split
  · exact .bind (steady_pure _) fun _ => steady_writeString (hX hT) _ _
  · split
    · exact .bind (steady_pure _) fun _ => steady_writeString (hX hT) _ _
    · exact trivial

theorem steady_appendStr (value : Bytes)
    (hX : ∀ s c, X .kvStrings (encodeKey key) s c) :
    (appendStr key value).Steady (GhostOut X) := by
  refine .bind (steady_setMeta _ _) fun _ => .bind (.query (steady_upsertRow _ _ (hX _))) fun _ =>
    .bind (.query (steady_readKept hX)) fun v => ?_
  split <;> trivial

theorem steady_setRange (offset : ℤ) (value : Bytes)
    (hX : ∀ s c, X .kvStrings (encodeKey key) s c) :
    (setRange key offset value).Steady (GhostOut X) := by
  refine .bind (.query (steady_selectLive _)) fun v => ?_
  split
  · exact trivial
  · exact steady_writeString hX _ _

theorem steady_setBit (offset value : ℤ)
    (hX : ∀ s c, X .kvStrings (encodeKey key) s c) :
    (setBit key offset value).Steady (GhostOut X) := by
  refine .bind (.query (steady_selectLive _)) fun v => ?_
  split
  · exact trivial
  · exact steady_writeString hX _ _

/-- A row that shows among the live ones has not expired. -/
theorem unexpired_of_live {now : Time} {d : DB S} {t : Tab} {s : t.Sub} {v : t.Val S}
    (h : (live now (d.rows t k)).row s = some v) (c : Row S t) : Unexpired now d t k s c := by
  intro hc
  rw [live_row, hc] at h
  by_contra hdead
  simp [hdead] at h

theorem agree_bitField (ops : List BitFieldOp) (hd : Ghost e.now d₁ d₂)
    (hX : ∀ st, bitFieldLoop ⟨[], [], false⟩ ops = some st → st.modified = true →
      ∀ s c, Unexpired e.now d₁ .kvStrings (encodeKey key) s c) :
    Agree e (bitField key ops) d₁ d₂ := by
  refine agree_blind (Q := fun v _ => v = (live e.now (d₁.rows .kvStrings (encodeKey key))).row ())
    (.query (blind_selectLive _)) hd rfl fun v hv => ?_
  split
  · exact hd
  · rename_i st hst
    split
    · rename_i hmod
      have hkept : ∀ s c, Unexpired e.now d₁ .kvStrings (encodeKey key) s c := by
        cases v with
        | none => exact hX st hst hmod
        | some v => exact fun s c => unexpired_of_live hv.symm c
      refine agree_of_steady ?_ hd.out
      split
      · exact steady_writeString hkept _ _
      · exact .bind steady_lockKey fun _ => .bind (.query (steady_upsertRow _ _ (hkept _))) fun _ =>
          steady_pure _
    · exact hd

theorem agree_getEx {ttl : ℤ} {p : Bool} (hd : Ghost e.now d₁ d₂)
    (hX : p = true ∨ 0 < ttl → (live e.now (d₁.rows .kvStrings (encodeKey key))).row () ≠ none →
      ∀ s c, Unexpired e.now d₁ .kvMeta (encodeKey key) s c) :
    Agree e (getEx key ttl p) d₁ d₂ := by
  refine agree_blind (Q := fun _ _ => True) (p := lockKey (encodeKey key)) (fun r => by cases r <;> trivial)
    hd trivial fun _ _ => ?_
  refine agree_blind (Q := fun v _ => v = (live e.now (d₁.rows .kvStrings (encodeKey key))).row ())
    (.query (blind_selectLive _)) hd rfl fun v hv => ?_
  split
  · exact hd
  · rename_i v
    have hmeta (h : p = true ∨ 0 < ttl) := hX h (by rw [← hv]; exact Option.some_ne_none v)
    have hstr : ∀ s c, Unexpired e.now d₁ .kvStrings (encodeKey key) s c :=
      fun s c => unexpired_of_live hv.symm c
    by_cases hp : p = true
    · simp only [hp, if_true]
      exact agree_of_steady (.bind (.query (steady_onKept (hmeta (Or.inl hp)))) fun _ =>
        .bind (.query (steady_onKept hstr)) fun _ => trivial) hd.out
    · by_cases ht : 0 < ttl
      · simp only [hp, ht, if_true]
        exact agree_of_steady (.bind steady_clock fun _ =>
          .bind (.query (steady_onKept (hmeta (Or.inr ht)))) fun _ =>
            .bind (.query (steady_onKept hstr)) fun _ => trivial) hd.out
      · simp only [hp, ht, if_false]
        exact hd

theorem steady_getDel (key : Bytes) : (getDel key : Op S _).Steady (GhostOut X) := by
  refine .bind steady_lockKey fun _ => .bind (.query (steady_selectLive _)) fun v => ?_
  split
  · exact trivial
  · exact .bind (.queryIgnored steady_deleteKey) fun _ => .bind (.query steady_deleteKey)
      fun _ => trivial

theorem steady_getSet (key value : Bytes) : (getSet key value : Op S _).Steady (GhostOut X) :=
  .bind (.query (steady_selectLive _)) fun _ => .bind (steady_setMeta _ _) fun _ =>
    .bind (.query (steady_overwrite _ _)) fun _ => trivial

theorem agree_bitOp (operation : BitOperation) (destKey : Bytes) (keys : List Bytes)
    (hd : GhostOut X e.now d₁ d₂) : Agree e (bitOp operation destKey keys) d₁ d₂ := by
  unfold bitOp
  dsimp only
  split
  · exact hd.ghost
  · refine agree_query (blind_selectStrings _) hd.ghost fun values => ?_
    split
    · exact hd.ghost
    · refine agree_replace hd fun d₁' d₂' h => ?_
      exact agree_of_steady (.bind (steady_setMeta _ _) fun _ =>
        .bind (.query (steady_upsertRow _ _ fun _ => RowSet.mem_withKeys)) fun _ => trivial) h

/-! ### Hashes -/

theorem mem_fieldRows {order : List ℕ} {fields : Table Bytes Bytes} {p : Bytes × Row S .kvHashes}
    (h : p ∈ fieldRows order fields) : ∃ f v, fields.row f = some v ∧ p.1 = encodeField f := by
  obtain ⟨⟨f, v⟩, hq, rfl⟩ := List.mem_map.mp h
  exact ⟨f, v, Table.mem_toList.mp ((Table.shuffle_perm _ _).mem_iff.mp hq), rfl⟩

theorem agree_hSet {fields : Table Bytes Bytes} (hd : GhostOut X e.now d₁ d₂)
    (hX : TypeOk e.now d₁ (encodeKey key) .hash → ∀ f v, fields.row f = some v →
      ∀ c, X .kvHashes (encodeKey key) (encodeField f) c) :
    Agree e (hSet key fields) d₁ d₂ := by
  unfold hSet
  dsimp only
  split
  · exact hd.ghost
  · refine agree_requireType hd fun hT => .bind steady_random fun order => ?_
    have hrows : ∀ p ∈ (fieldRows order fields : List (Bytes × Row S .kvHashes)), ∀ c,
        X .kvHashes (encodeKey key) p.1 c := by
      intro p hp c
      obtain ⟨f, v, hf, heq⟩ := mem_fieldRows hp
      rw [heq]
      exact hX hT f v hf c
    refine .bind (.query (steady_selectPart _ fun s c hs => ?_)) fun _ =>
      .bind (steady_setMeta _ _) fun _ => .bind (.query (steady_upsertRows _ hrows)) fun _ =>
        steady_pure _
    obtain ⟨p, hp, rfl⟩ := List.mem_map.mp (of_decide_eq_true hs)
    exact hrows p hp c

theorem steady_hDel {fields : List Bytes}
    (hX : ∀ f ∈ fields, ∀ c, X .kvHashes (encodeKey key) (encodeField f) c) :
    (hDel key fields : Op S _).Steady (GhostOut X) := by
  refine .query (steady_deleteWhere fun s c hs => ?_)
  obtain ⟨f, hf, rfl⟩ := List.mem_map.mp (of_decide_eq_true hs)
  exact hX f hf c

/-- The end of a command that has computed the new value of a field. -/
theorem steady_writeField {field : Bytes} (hX : ∀ c, X .kvHashes k field c) (value : Bytes) (b : β) :
    (do setMeta k .hash none; query (upsertField k field value); pure b : Op S β).Steady
      (GhostOut X) :=
  .bind (steady_setMeta _ _) fun _ => .bind (.query (steady_upsertRow _ _ hX)) fun _ => steady_pure _

theorem agree_hIncrBy {key field : Bytes} (increment : ℤ) (hd : GhostOut X e.now d₁ d₂)
    (hX : TypeOk e.now d₁ (encodeKey key) .hash →
      ∀ c, X .kvHashes (encodeKey key) (encodeField field) c) :
    Agree e (hIncrBy key field increment) d₁ d₂ := by
  refine agree_requireType hd fun hT => .bind (.query (steady_selectLive _)) fun v => ?_
  dsimp only
  split
  · exact .bind (steady_pure _) fun _ => steady_writeField (hX hT) _ _
  · split
    · exact .bind (steady_pure _) fun _ => steady_writeField (hX hT) _ _
    · exact trivial

theorem agree_hIncrByFloat [Float64 S] {key field : Bytes} (increment : S)
    (hd : GhostOut X e.now d₁ d₂)
    (hX : TypeOk e.now d₁ (encodeKey key) .hash →
      ∀ c, X .kvHashes (encodeKey key) (encodeField field) c) :
    Agree e (hIncrByFloat key field increment) d₁ d₂ := by
  refine agree_requireType hd fun hT => .bind (.query (steady_selectLive _)) fun v => ?_
  dsimp only
  split
  · exact .bind (steady_pure _) fun _ => steady_writeField (hX hT) _ _
  · split
    · exact .bind (steady_pure _) fun _ => steady_writeField (hX hT) _ _
    · exact trivial

theorem agree_hSetNX {key field : Bytes} (value : Bytes) (hd : GhostOut X e.now d₁ d₂)
    (hX : TypeOk e.now d₁ (encodeKey key) .hash →
      ∀ c, X .kvHashes (encodeKey key) (encodeField field) c) :
    Agree e (hSetNX key field value) d₁ d₂ := by
  refine agree_requireType hd fun hT => .bind (steady_setMeta _ _) fun _ =>
    .bind (.query (steady_insertIgnore fun p hp => ?_)) fun _ => steady_pure _
  rw [List.mem_singleton.mp hp]
  exact hX hT

/-! ### Sets -/

theorem agree_sAdd {members : List Bytes} (hd : GhostOut X e.now d₁ d₂)
    (hX : TypeOk e.now d₁ (encodeKey key) .set → ∀ m ∈ members, ∀ c, X .kvSets (encodeKey key) m c) :
    Agree e (sAdd key members) d₁ d₂ := by
  unfold sAdd
  dsimp only
  split
  · exact hd.ghost
  · refine agree_requireType hd fun hT => .bind (steady_setMeta _ _) fun _ =>
      .query (steady_insertIgnore fun p hp => ?_)
    obtain ⟨m, hm, rfl⟩ := List.mem_map.mp hp
    exact hX hT m hm

theorem steady_sRem {members : List Bytes}
    (hX : ∀ m ∈ members, ∀ c, X .kvSets (encodeKey key) m c) :
    (sRem key members : Op S _).Steady (GhostOut X) :=
  .query (steady_deleteWhere fun s c hs => hX s (of_decide_eq_true hs) c)

theorem agree_storeSet (destination : Bytes) (members : List Bytes) (hd : GhostOut X e.now d₁ d₂) :
    Agree e (storeSet (encodeKey destination) members) d₁ d₂ := by
  refine agree_replace hd fun d₁' d₂' h => ?_
  split
  · exact h.ghost
  · refine agree_sAdd h fun _ m _ c => ?_
    rw [encodeKey_encodeKey]
    exact RowSet.mem_withKeys

/-! ### HyperLogLogs -/

theorem agree_pfAdd (elements : List Bytes) (hd : GhostOut X e.now d₁ d₂)
    (hX : TypeOk e.now d₁ (encodeKey key) .hyperloglog →
      ∀ s c, X .kvHyperloglog (encodeKey key) s c) :
    Agree e (pfAdd key elements) d₁ d₂ := by
  rw [pfAdd, Agree, lockstep_bind]
  exact agree_requireType hd fun hT => .bind (.query (steady_selectLive _)) fun _ =>
    .bind (steady_setMeta _ _) fun _ => .bind (.query (steady_upsertRow _ _ (hX hT _))) fun _ =>
      steady_pure _

theorem agree_pfMerge {destKey : Bytes} (sourceKeys : List Bytes) (hd : GhostOut X e.now d₁ d₂)
    (hX : TypeOk e.now d₁ (encodeKey destKey) .hyperloglog →
      ∀ s c, X .kvHyperloglog (encodeKey destKey) s c) :
    Agree e (pfMerge destKey sourceKeys) d₁ d₂ := by
  refine agree_bind (Q := fun _ d => d = d₁) (steady_lockKeys _) hd (by rw [wp_lockKeys]) ?_
  rintro _ _ d₂' hd' rfl
  exact agree_requireType hd' fun hT => .bind (.query (steady_selectLive _)) fun _ =>
    .bind (steadyOp_of_blind (blind_pfMergeLoop _ _)) fun _ =>
      .bind (steady_setMeta _ _) fun _ => .query (steady_upsertRow _ _ (hX hT _))

end Postkeys
