import Postkeys.Cache
import Postkeys.Effects.Failures

/-! # The strings a call changes

`GET` reads `kv_strings` only, so the cache goes stale where a call changes a row there and its
wrapper does not name the key.  `Cmd.op_kept` says that a call that is answered with a reply changes
no strings but those of the keys its wrapper names; `Cmd.fails_kept` says when a call that is
answered with an error, inside a transaction that goes on, has changed none. -/

namespace Postkeys

open Relational Program

variable {S : Type} {e : Env} {d d' : DB S}

/-- No string changed but those of the keys `ks`. -/
def StringsKept (ks : List Bytes) (d d' : DB S) : Prop :=
  ∀ k, (∀ key ∈ ks, encodeKey key ≠ k) → d'.rows .kvStrings k = d.rows .kvStrings k

theorem StringsKept.refl (ks : List Bytes) (d : DB S) : StringsKept ks d d := fun _ _ => rfl

/-- Every cached value is what `GET` reads at `now`, and its key is in `A`. -/
def Cache.Agrees (A : Set Bytes) (now : Time) (c : Cache) (d : DB S) : Prop :=
  ∀ key en, c.items.row key = some en →
    key ∈ A ∧ liveString now d (encodeKey key) = some en.value

/-- Dropping the keys whose strings changed keeps the cache in agreement, if no two keys in use
share a stored form. -/
theorem Cache.Agrees.deleteMulti {A : Set Bytes} {now : Time} {c : Cache} {ks : List Bytes}
    (hinj : Set.InjOn encodeKey A) (h : c.Agrees A now d) (hks : ∀ key ∈ ks, key ∈ A)
    (hd : StringsKept ks d d') : (c.deleteMulti ks).Agrees A now d' := by
  intro key en hen
  obtain ⟨hrow, hnot⟩ := Cache.row_of_deleteMulti hen
  obtain ⟨hA, hval⟩ := h key en hrow
  refine ⟨hA, ?_⟩
  have hsame : d'.rows .kvStrings (encodeKey key) = d.rows .kvStrings (encodeKey key) := by
    refine hd _ fun key' hkey' heq => hnot ?_
    rw [← hinj (hks key' hkey') hA heq]
    exact hkey'
  unfold liveString at hval ⊢
  rw [hsame]
  exact hval

/-! ### Calls answered with a reply -/

section replies

theorem bitField_kept (key : Bytes) (ops : List BitFieldOp) (h : bitFieldHasWrites ops = false) :
    wp e (bitField key ops) (fun _ d' => d' = d) d := by
  have hget : ∀ op ∈ ops, op.opType = .get := by
    intro op hop
    have := List.any_eq_false.mp h op hop
    simpa using this
  unfold bitField selectString
  simp only [wp_bind, wp_query, wpSql_selectLive]
  split
  · exact wp_fail _
  · rename_i st hloop
    have hmod : st.modified = false := bitField_modified hget hloop
    simp [hmod]

theorem setNX_kept (key value : Bytes) (ttl : ℤ) :
    wp e (setNX key value ttl) (fun b d' => b = false → d' = d) d := by
  unfold setNX
  simp only [wp_bind, wp_lockKey, wp_query, wpSql_selectLive, wp_ite, pure_eq, wp_ret]
  refine ⟨fun _ _ => trivial, fun _ => ?_⟩
  exact wp_mono (set_effect key value ttl) fun _ _ _ h => by cases h

theorem applyExpiry_kept {k : Bytes} (x : Time) (opts : ExpireOptions) :
    wp e (applyExpiry k x opts) (fun b d' => b = false → StringsKept [] d d') d := by
  unfold applyExpiry
  rw [wp_bind, wp_query, wpSql_updateWhere]
  split
  · intro _ k' _
    exact Store.rows_setRows_of_ne_table _ (by decide) _ _ _
  · split
    · intro h
      cases h
    · simp only [wp_bind, wp_query, wpSql_setExpiry, pure_eq, wp_ret]
      intro h
      cases h

/-- A copy that is not made changes nothing. -/
theorem copyByType_true {k source : Bytes} (T : KeyType) :
    wp e (copyByType T source k) (fun b _ => b = true) d := by
  cases T with
  | string =>
      simp only [copyByType, wp_bind, wp_query, wpSql_selectAll]
      split
      · exact wp_raise _
      · simp only [wp_bind, wp_setMeta, wp_query, wpSql_insertRows, pure_eq, wp_ret]
        exact fun _ _ => trivial
  | hyperloglog => exact rfl
  | hash | list | set | zset =>
      simp only [copyByType, copyRows, wp_bind, wp_setMeta, wp_queryRows, wpSql_selectAll]
      split
      · exact rfl
      · exact wp_raise _

theorem copyKey_kept (source destination : Bytes) (replace : Bool) :
    wp e (copyKey source destination replace) (fun b d' => b = false → d' = d) d := by
  have hmade {k : Bytes} (T : KeyType) (d₁ : DB S) :
      wp e (copyByType T (encodeKey source) k) (fun b d' => b = false → d' = d) d₁ :=
    wp_mono (copyByType_true T) fun b d' hb hf => by rw [hb] at hf; cases hf
  unfold copyKey
  simp only [wp_bind, wp_lockKeys, wp_getKeyType]
  split
  · exact fun _ => rfl
  · simp only [wp_bind, wp_getKeyType, wp_ite, wp_deleteKeyFromAllTables, pure_eq, wp_ret]
    exact ⟨fun _ _ => trivial, fun _ => ⟨fun _ => hmade _ _, fun _ => hmade _ _⟩⟩

/-- A reply of `false` for nothing done, and the named key otherwise. -/
theorem kept_of_bool {p : Op S Bool} {key : Bytes} {ks : Reply S → List Bytes}
    (htrue : ks (.bool true) = [key]) (hfalse : ks (.bool false) = [])
    (hw : p.Writes (allRows key)) (hp : wp e p (fun b d' => b = false → StringsKept [] d d') d) :
    wp e (.bool <$> p) (fun r d' => StringsKept (ks r) d d') d := by
  rw [wp_map]
  have hwrites := Within.wp (e := e) (d := d) Store.AgreeOff.refl Store.AgreeOff.trans hw
  refine wp_mono (wp_and hp hwrites) ?_
  rintro b d' ⟨hb, hd'⟩
  cases b with
  | false =>
      rw [hfalse]
      exact hb rfl
  | true =>
      rw [htrue]
      intro k hk
      exact hd' .kvStrings k fun heq => hk key (List.mem_singleton_self _) heq.symm

variable [Float64 S]

/-- A footprint within the strings of the named keys. -/
theorem kept_of_writes {c : Cmd S} {ks : Reply S → List Bytes}
    (h : ∀ r k, c.writes .kvStrings k → ∃ key ∈ ks r, encodeKey key = k) :
    wp e c.op (fun r d' => StringsKept (ks r) d d') d := by
  refine wp_mono (Within.wp Store.AgreeOff.refl Store.AgreeOff.trans c.op_writes) ?_
  intro r d' hd' k hk
  refine hd' .kvStrings k fun hw => ?_
  obtain ⟨key, hkey, heq⟩ := h r k hw
  exact hk key hkey heq

/-- **A call that is answered with a reply changes no strings but those its wrapper names.** -/
theorem Cmd.op_kept (c : Cmd S) (hc : c ≠ .flushDB) :
    wp e c.op (fun r d' => StringsKept (c.invalidates r) d d') d := by
  have hone (key : Bytes) (r : Reply S) (k : Bytes) (h : typedRows .string key .kvStrings k) :
      ∃ key' ∈ [key], encodeKey key' = k := ⟨key, List.mem_singleton_self _, h.2.symm⟩
  have hall (key : Bytes) (r : Reply S) (k : Bytes) (h : allRows key .kvStrings k) :
      ∃ key' ∈ [key], encodeKey key' = k := ⟨key, List.mem_singleton_self _, h.symm⟩
  cases c
  case flushDB => exact absurd rfl hc
  case setNX key value t =>
    refine kept_of_bool rfl rfl (setNX_writes (allRows_self key)) ?_
    exact wp_mono (setNX_kept key value t) fun b d' h hb => h hb ▸ StringsKept.refl _ _
  case expire key t opts =>
    refine kept_of_bool rfl rfl (expire_writes (allRows_self key)) ?_
    unfold Postkeys.expire
    simp only [wp_bind, wp_lockKey, wp_clock]
    exact applyExpiry_kept _ _
  case expireAt key t opts =>
    refine kept_of_bool rfl rfl (expireAt_writes (allRows_self key)) ?_
    unfold Postkeys.expireAt
    rw [wp_bind, wp_lockKey, wp_bind, wp_query, sendTime]
    split
    · exact applyExpiry_kept _ _
    · exact wpSql_error _
  case copy source key replace =>
    refine kept_of_bool rfl rfl (copyKey_writes (allRows_self key)) ?_
    exact wp_mono (copyKey_kept source key replace) fun b d' h hb => h hb ▸ StringsKept.refl _ _
  case bitField key ops =>
    cases hw : bitFieldHasWrites ops with
    | true => exact kept_of_writes fun r k h => by simpa [Cmd.invalidates, hw] using hone key r k h
    | false =>
        refine (wp_map _ _).mpr (wp_mono (bitField_kept key ops hw) ?_)
        rintro _ _ rfl
        exact StringsKept.refl _ _
  case mSet pairs =>
    refine kept_of_writes ?_
    rintro r k ⟨key, hkey, h⟩
    exact ⟨key, Table.mem_ascending.mpr hkey, h.symm⟩
  case del ks =>
    refine kept_of_writes ?_
    rintro r k ⟨key, hkey, h⟩
    refine ⟨encodeKey key, ?_, ?_⟩
    · exact (List.mem_insertionSort _).mpr (List.mem_map_of_mem hkey)
    · rw [encodeKey_encodeKey, h]
  case rename old new =>
    refine kept_of_writes fun r k h => ?_
    rcases h with h | h
    · exact ⟨old, by simp [Cmd.invalidates], h.symm⟩
    · exact ⟨new, by simp [Cmd.invalidates], h.symm⟩
  case set key _ _ => exact kept_of_writes (hall key)
  case incr key _ => exact kept_of_writes (hone key)
  case incrByFloat key _ => exact kept_of_writes (hone key)
  case append key _ => exact kept_of_writes (hone key)
  case setRange key _ _ => exact kept_of_writes (hone key)
  case getEx key _ _ => exact kept_of_writes (hone key)
  case getDel key => exact kept_of_writes (hone key)
  case getSet key _ => exact kept_of_writes (hone key)
  case setBit key _ _ => exact kept_of_writes (hone key)
  case persist key => exact kept_of_writes (hall key)
  case bitOp _ key _ => exact kept_of_writes (hall key)
  case sInterStore key _ => exact kept_of_writes (hall key)
  case sUnionStore key _ => exact kept_of_writes (hall key)
  case sDiffStore key _ => exact kept_of_writes (hall key)
  case zRangeStore key _ _ => exact kept_of_writes (hall key)
  case zUnionStore key _ _ _ => exact kept_of_writes (hall key)
  case zInterStore key _ _ _ => exact kept_of_writes (hall key)
  -- the footprints of all others stay out of `kv_strings`
  all_goals
    refine kept_of_writes fun r k h => ?_
    simp [Cmd.writes, typedRows, KeyType.table] at h

end replies

/-! ### Calls answered with an error -/

section failures
variable {α β : Type} {d₀ : DB S} {p : Op S α}

/-- If the result is a failure, no string differs from `d`. -/
def FailKept (d : DB S) (r : Except Failure α) (d' : DB S) : Prop :=
  ∀ f, r = .error f → StringsKept [] d d'

theorem failKept_of_completes (h : p.Completes) : p.Outcome e (FailKept d₀) d :=
  h.outcome (wp_of_forall p fun _ _ _ hf => by cases hf)

/-- A prefix that does not give up. -/
theorem failKept_bind_completes {f : α → Op S β} (hp : p.Completes)
    (hf : wp e p (fun a d' => (f a).Outcome e (FailKept d₀) d') d) :
    (p >>= f).Outcome e (FailKept d₀) d := (outcome_bind _ _).mpr (hp.outcome hf)

/-- A prefix that writes nothing. -/
theorem failKept_bind {f : α → Op S β} (hw : p.Writes fun _ _ => False)
    (hf : ∀ a, (f a).Outcome e (FailKept d) d) : (p >>= f).Outcome e (FailKept d) d := by
  refine (outcome_bind _ _).mpr ((Within.outcome Store.AgreeOff.refl Store.AgreeOff.trans hw).mono ?_)
  intro r d' hd
  obtain rfl : d' = d := Store.ext_rows fun t k => hd t k not_false
  cases r with
  | ok a => exact hf a
  | error x => exact fun _ _ => StringsKept.refl _ _

theorem failKept_fail (x : Failure) : (fail x : Op S α).Outcome e (FailKept d) d :=
  fun _ _ => StringsKept.refl _ _

theorem failKept_ite {c : Prop} [Decidable c] {p q : Op S α} (hp : p.Outcome e (FailKept d₀) d)
    (hq : q.Outcome e (FailKept d₀) d) : (if c then p else q).Outcome e (FailKept d₀) d :=
  (outcome_ite _ _).mpr ⟨fun _ => hp, fun _ => hq⟩

theorem failKept_map (g : α → β) (hp : p.Outcome e (FailKept d₀) d) :
    (g <$> p).Outcome e (FailKept d₀) d := by
  refine (outcome_map _ _).mpr (hp.mono fun r d' hr f hf => ?_)
  cases r with
  | ok a => cases hf
  | error x => exact hr x rfl

/-- A footprint without strings. -/
theorem failKept_of_writes {W : Tab → Bytes → Prop} (hp : p.Writes W)
    (h : ∀ k, ¬ W .kvStrings k) : p.Outcome e (FailKept d) d :=
  (Within.outcome Store.AgreeOff.refl Store.AgreeOff.trans hp).mono
    fun _ _ hd _ _ k _ => hd .kvStrings k (h k)

/-! ### Operations that give up before they write -/

theorem incr_fails (key : Bytes) (delta : ℤ) : (incr key delta : Op S _).Outcome e (FailKept d) d := by
  refine failKept_bind (.query writes_selectString) fun v => ?_
  cases v with
  | none => exact failKept_of_completes writeString_completes
  | some v =>
      dsimp only
      cases parseInt v with
      | none => exact failKept_fail _
      | some n => exact failKept_of_completes writeString_completes

theorem incrByFloat_fails [Float64 S] (key : Bytes) (delta : S) :
    (incrByFloat key delta : Op S _).Outcome e (FailKept d) d := by
  refine failKept_bind (writes_of_blind (blind_getKeyType _)) fun t => failKept_ite (failKept_fail _) ?_
  refine failKept_bind (.query writes_selectString) fun v => ?_
  cases v with
  | none => exact failKept_of_completes writeString_completes
  | some v =>
      dsimp only
      cases (Float64.parseFloat v : Option S) with
      | none => exact failKept_fail _
      | some x => exact failKept_of_completes writeString_completes

theorem setRange_fails (key : Bytes) (offset : ℤ) (value : Bytes) :
    (setRange key offset value : Op S _).Outcome e (FailKept d) d := by
  refine failKept_bind (.query writes_selectString) fun v => ?_
  split
  · exact failKept_fail _
  · exact failKept_of_completes writeString_completes

theorem setBit_fails (key : Bytes) (offset value : ℤ) :
    (setBit key offset value : Op S _).Outcome e (FailKept d) d := by
  refine failKept_bind (.query writes_selectString) fun v => ?_
  split
  · exact failKept_fail _
  · exact failKept_of_completes writeString_completes

theorem bitField_fails (key : Bytes) (ops : List BitFieldOp) :
    (bitField key ops : Op S _).Outcome e (FailKept d) d := by
  refine failKept_bind (.query writes_selectString) fun v => ?_
  split
  · exact failKept_fail _
  · rename_i st _
    have hput : (do
        query (upsertString (encodeKey key) st.value)
        pure st.results : Op S _).Completes := .bind (completes_query _) fun _ => trivial
    refine failKept_of_completes (.ite (.ite ?_ ?_) trivial)
    · exact .bind setMeta_completes fun _ => hput
    · exact .bind (completes_acquire _) fun _ => hput

theorem bitOp_fails (operation : BitOperation) (destKey : Bytes) (keys : List Bytes) :
    (bitOp operation destKey keys : Op S _).Outcome e (FailKept d) d := by
  refine failKept_ite (failKept_of_completes trivial) ?_
  refine failKept_bind (writes_of_blind (blind_selectStrings _)) fun values => ?_
  cases bitOpBytes operation values with
  | ok result =>
      exact failKept_of_completes (.bind deleteKeyFromAllTables_completes fun _ => writeString_completes)
  | error m => exact failKept_fail _

/-! ### Operations that check again after they have written -/

/-- The row that `APPEND` reads back is the one it has written. -/
theorem appendStr_fails (key value : Bytes) :
    (appendStr key value : Op S _).Outcome e (FailKept d₀) d := by
  refine failKept_bind_completes setMeta_completes ((wp_setMeta _ _).mpr ?_)
  refine failKept_bind_completes (completes_query _) ((wp_query _).mpr ?_)
  rw [wpSql_upsertRow]
  refine failKept_bind_completes (completes_query _) ((wp_query _).mpr ?_)
  rw [wpSql_selectAll, Store.rows_setRows_self]
  simp only [putOr, Table.put_unit, Table.single_unit_row, Option.map_some]
  exact failKept_of_completes trivial

/-- A key that has just been removed is of no type. -/
theorem failKept_requireType_removed {k : Bytes} {kt : KeyType} {next : Option KeyType → Op S α}
    (h : (next none).Completes) : (requireType k kt next).Outcome e (FailKept d₀) (d.dropKey k) := by
  refine failKept_bind_completes (completes_query _) (wp_getKeyType.mpr ?_)
  have hnone : liveType e.now (d.dropKey k) k = none := by
    rw [liveType, Store.rows_dropKey_self]
    rfl
  rw [hnone, if_neg (by simp)]
  exact failKept_of_completes h

theorem storeSet_fails (destination : Bytes) (members : List Bytes) :
    (storeSet (encodeKey destination) members : Op S _).Outcome e (FailKept d₀) d := by
  refine failKept_bind_completes deleteKeyFromAllTables_completes (wp_deleteKeyFromAllTables.mpr ?_)
  refine failKept_ite (failKept_of_completes trivial) ?_
  unfold sAdd
  simp only [encodeKey_encodeKey]
  refine failKept_ite (failKept_of_completes trivial) ?_
  exact failKept_requireType_removed (.bind setMeta_completes fun _ => completes_query _)

section scores
variable [Float64 S]

theorem storeScores_fails (destination : Bytes) (aggregate : Aggregate)
    (scores : Table Bytes (List S)) :
    (storeScores (encodeKey destination) aggregate scores).Outcome e (FailKept d₀) d := by
  refine failKept_bind_completes deleteKeyFromAllTables_completes (wp_deleteKeyFromAllTables.mpr ?_)
  refine failKept_ite (failKept_of_completes trivial) ?_
  refine failKept_bind_completes completes_random (wp_random.mpr ?_)
  unfold zAdd
  simp only [encodeKey_encodeKey]
  refine failKept_requireType_removed (.ite trivial ?_)
  exact .bind setMeta_completes fun _ => .bind (zAddLoop_completes _ _ _ _) fun _ => trivial

theorem zInterStore_fails (destination : Bytes) (keys : List Bytes) (weights : List S)
    (aggregate : Aggregate) :
    (zInterStore destination keys weights aggregate).Outcome e (FailKept d) d := by
  have hloop (ks : List Bytes) (ws : List S) (scores : Table Bytes (List S)) :
      (zInterLoop scores ks ws >>= fun scores => storeScores (encodeKey destination) aggregate scores
        ).Outcome e (FailKept d) d :=
    failKept_bind (writes_of_blind (blind_zInterLoop _ _ _)) fun _ => storeScores_fails _ _ _
  unfold zInterStore
  dsimp only
  split
  · exact failKept_of_completes trivial
  · refine failKept_bind (writes_of_blind (blind_zRange _ _ _)) fun members => ?_
    split
    · exact failKept_ite (hloop _ _ _) (failKept_fail _)
    · exact hloop _ _ _

end scores

/-! ### Operations that give up after they have written -/

/-- Whether the copy of a key of type `T` gives up: a string without its row, or a collection that
has rows. -/
def CopyGivesUp (d : DB S) (source : Bytes) : KeyType → Prop
  | .string => d.rows .kvStrings source = ∅
  | .hyperloglog => False
  | T => d.rows T.table source ≠ ∅

/-- The tables in which a call, should it be answered with an error, has not changed a string
before: not `RENAME` of a HyperLogLog onto a string, and not `COPY … REPLACE` over a string that
gives up. -/
def Cmd.FailsClean (now : Time) (d : DB S) : Cmd S → Prop
  | .rename oldKey newKey => liveType now d (encodeKey oldKey) = some .hyperloglog →
      d.rows .kvStrings (encodeKey newKey) = ∅
  | .copy source destination replace => ∀ T, liveType now d (encodeKey source) = some T →
      liveType now d (encodeKey destination) ≠ none → replace = true →
      CopyGivesUp (d.dropKey (encodeKey destination)) (encodeKey source) T →
      d.rows .kvStrings (encodeKey destination) = ∅
  | _ => True

/-- A key that had no string has been removed. -/
theorem StringsKept.dropKey {k : Bytes} (h : d.rows .kvStrings k = ∅) : StringsKept [] d (d.dropKey k) := by
  intro k' _
  by_cases hk : k' = k
  · rw [hk, Store.rows_dropKey_self, h]
  · exact Store.rows_dropKey_of_ne _ _ hk

/-- `RENAME` removes the new key before it finds that a HyperLogLog cannot be renamed. -/
theorem rename_fails {oldKey newKey : Bytes}
    (h : (Cmd.rename oldKey newKey : Cmd S).FailsClean e.now d) :
    (rename oldKey newKey : Op S _).Outcome e (FailKept d) d := by
  refine failKept_bind_completes (lockKeys_completes _) ((wp_lockKeys _).mpr ?_)
  refine failKept_bind_completes (completes_query _) (wp_getKeyType.mpr ?_)
  cases hT : liveType e.now d (encodeKey oldKey) with
  | none => exact failKept_fail _
  | some T =>
      refine failKept_bind_completes deleteKeyFromAllTables_completes (wp_deleteKeyFromAllTables.mpr ?_)
      have hmove {t : Tab} : (do
          query (moveKey .kvMeta (encodeKey oldKey) (encodeKey newKey))
          query (moveKey t (encodeKey oldKey) (encodeKey newKey)) : Op S Unit).Completes :=
        .bind (completes_query _) fun _ => completes_query _
      cases T with
      | hyperloglog => exact fun _ _ => .dropKey (h hT)
      | string | hash | list | set | zset => exact failKept_of_completes hmove

/-- If the result is a failure, the copy has given up, and no string has changed. -/
def StopsCopy (d : DB S) (source : Bytes) (T : KeyType) (r : Except Failure α) (d' : DB S) : Prop :=
  ∀ f, r = .error f → CopyGivesUp d source T ∧ StringsKept [] d d'

theorem copyRows_fails {T : KeyType} {source k : Bytes} (hT : T.table ≠ .kvMeta)
    (hstop : d.rows T.table source ≠ ∅ → CopyGivesUp d source T) :
    (copyRows T.table T source k : Op S _).Outcome e (StopsCopy d source T) d := by
  refine (outcome_bind _ _).mpr (setMeta_completes.outcome ((wp_setMeta _ _).mpr ?_))
  refine (outcome_bind _ _).mpr ?_
  change wpSql e (selectAll T.table source fun u => u.toList) _ _
  rw [wpSql_selectAll, Store.rows_setRows_of_ne_table _ hT]
  dsimp only [Except.toOption, Option.getD_some]
  cases hrows : (d.rows T.table source).toList with
  | nil =>
      intro f hf
      cases hf
  | cons r rows =>
      intro f hf
      refine ⟨hstop fun hempty => ?_, fun k' _ => Store.rows_setRows_of_ne_table _ (by decide) _ _ _⟩
      rw [hempty] at hrows
      cases hrows

theorem copyByType_fails {source k : Bytes} (T : KeyType) :
    (copyByType T source k : Op S _).Outcome e (StopsCopy d source T) d := by
  cases T with
  | string =>
      refine (outcome_bind _ _).mpr ((outcome_query _).mpr ?_)
      rw [wpSql_selectAll]
      cases hrow : (d.rows .kvStrings source).row () with
      | none => exact fun _ _ => ⟨Table.ext_row fun _ => hrow, StringsKept.refl _ _⟩
      | some r =>
          refine Completes.outcome ?_ (wp_of_forall _ fun _ _ f hf => by cases hf)
          exact .bind setMeta_completes fun _ => .bind (completes_query _) fun _ => trivial
  | hyperloglog =>
      intro f hf
      cases hf
  | hash => exact copyRows_fails (T := .hash) (by decide) id
  | list => exact copyRows_fails (T := .list) (by decide) id
  | set => exact copyRows_fails (T := .set) (by decide) id
  | zset => exact copyRows_fails (T := .zset) (by decide) id

/-- `COPY` removes the destination and writes its type before it finds that it cannot go on. -/
theorem copyKey_fails {source destination : Bytes} {replace : Bool}
    (h : (Cmd.copy source destination replace : Cmd S).FailsClean e.now d) :
    (copyKey source destination replace : Op S _).Outcome e (FailKept d) d := by
  refine failKept_bind_completes (lockKeys_completes _) ((wp_lockKeys _).mpr ?_)
  refine failKept_bind_completes (completes_query _) (wp_getKeyType.mpr ?_)
  cases hT : liveType e.now d (encodeKey source) with
  | none => exact failKept_of_completes trivial
  | some T =>
      refine failKept_bind_completes (completes_query _) (wp_getKeyType.mpr ?_)
      refine (outcome_ite _ _).mpr ⟨fun _ => failKept_of_completes trivial, fun hrep => ?_⟩
      refine (outcome_ite _ _).mpr ⟨fun hdest => ?_, fun _ => ?_⟩
      · have hreplace : replace = true := by
          cases replace with
          | true => rfl
          | false => exact absurd ⟨hdest, rfl⟩ hrep
        refine failKept_bind_completes deleteKeyFromAllTables_completes
          (wp_deleteKeyFromAllTables.mpr ?_)
        refine (copyByType_fails T).mono fun r d' hr f hf k hk => ?_
        obtain ⟨hstop, hkept⟩ := hr f hf
        rw [hkept k hk, StringsKept.dropKey (h T hT hdest hreplace hstop) k hk]
      · exact (copyByType_fails T).mono fun r d' hr f hf => (hr f hf).2

/-! ### All commands -/

/-- **A call that is answered with an error in a transaction that goes on** has changed no string.
-/
theorem Cmd.fails_kept [Float64 S] (c : Cmd S) (hc : c ≠ .flushDB) (h : c.FailsClean e.now d) :
    c.op.Outcome e (FailKept d) d := by
  have hnone {α : Type} {p : Op S α} (g : α → Reply S) (hp : p.Completes) :
      (g <$> p).Outcome e (FailKept d) d := failKept_map g (failKept_of_completes hp)
  have hset {p : Op S (List Bytes)} {key : Bytes} (hp : p.Writes fun _ _ => False) :
      (Reply.int <$> (p >>= fun ms => storeSet (encodeKey key) ms) : Op S (Reply S)).Outcome e (FailKept d) d :=
    failKept_map _ (failKept_bind hp fun _ => storeSet_fails _ _)
  cases c
  case flushDB => exact absurd rfl hc
  case rename => exact failKept_map _ (rename_fails h)
  case copy => exact failKept_map _ (copyKey_fails h)
  case incr => exact failKept_map _ (incr_fails _ _)
  case incrByFloat => exact failKept_map _ (incrByFloat_fails _ _)
  case append => exact failKept_map _ (appendStr_fails _ _)
  case setRange => exact failKept_map _ (setRange_fails _ _ _)
  case bitField => exact failKept_map _ (bitField_fails _ _)
  case setBit => exact failKept_map _ (setBit_fails _ _ _)
  case bitOp => exact failKept_map _ (bitOp_fails _ _ _)
  case sInterStore => exact hset (writes_of_blind (blind_sInter _))
  case sUnionStore => exact hset (writes_of_blind (blind_sUnion _))
  case sDiffStore => exact hset (writes_of_blind (blind_sDiff _))
  case zUnionStore =>
    exact failKept_map _ (failKept_bind (writes_of_blind (blind_zUnionLoop _ _ _)) fun _ =>
      storeScores_fails _ _ _)
  case zInterStore => exact failKept_map _ (zInterStore_fails _ _ _ _)
  case set => exact hnone _ set_completes
  case setNX => exact hnone _ setNX_completes
  case mSet => exact hnone _ mSet_completes
  case getEx => exact hnone _ getEx_completes
  case getDel => exact hnone _ getDel_completes
  case getSet => exact hnone _ getSet_completes
  case del => exact hnone _ del_completes
  case expire =>
    exact hnone _ (.bind (completes_acquire _) fun _ => .bind completes_clock fun _ => applyExpiry_completes)
  case expireAt =>
    exact hnone _ (.bind (completes_acquire _) fun _ => .bind (completes_query _) fun _ => applyExpiry_completes)
  case persist => exact hnone _ persist_completes
  case zRangeStore => exact hnone _ zRangeStore_completes
  -- the footprints of all others stay out of `kv_strings`
  all_goals
    refine failKept_of_writes (Cmd.op_writes _) fun k h => ?_
    simp [Cmd.writes, typedRows, KeyType.table] at h

end failures

end Postkeys
