import Postkeys.Ghost.Reads
import Postkeys.Relational.Footprint

/-! # What every command can touch

One lemma per operation says in which tables and under which keys it can write, whether it succeeds
or not; `Cmd.op_writes` puts them together. -/

namespace Postkeys

open Relational Program

variable {S α : Type} {W : Tab → Bytes → Prop} {k key : Bytes} {keys : List Bytes} {value : Bytes}
  {order : SortOrder} {kt : KeyType}

/-! ### Shared helpers -/

theorem writes_of_blindSql {β : Type} {s : Stm S β} (h : s.Blind Ghost) : s.Writes W :=
  h.within Ghost.refl Store.AgreeOff.refl

theorem writes_of_blind {p : Op S α} (h : p.Blind Ghost) : p.Writes W :=
  h.within Ghost.refl Store.AgreeOff.refl

theorem writes_read {β : Type} {t : Tab}
    {f : Ctx Bytes Tab.Sub → Table t.Sub (Row S t) → Except PgError β} :
    (Sql.readRows t k f : Stm S β).Writes W := Sql.writes_readRows t k f

theorem writes_rows {β : Type} {t : Tab} (h : W t k)
    {f : Ctx Bytes Tab.Sub → Table t.Sub (Row S t) → Except PgError (Table t.Sub (Row S t) × β)} :
    (Sql.onRows t k f : Stm S β).Writes W := Sql.writes_onRows h f

theorem lockKeys_writes (ks : List Bytes) : (lockKeys ks : Op S _).Writes W := by
  unfold lockKeys
  split
  · exact trivial
  · exact within_acquire _
  · exact .forEach fun _ => within_acquire _

theorem requireType_writes {next : Option KeyType → Op S α}
    (h : ∀ t, (next t).Writes W) : (requireType k kt next).Writes W :=
  .bind (writes_of_blind (blind_getKeyType k)) fun t => .ite trivial (h t)

theorem setMeta_writes {x : Option Time} (h : W .kvMeta k) :
    (setMeta k kt x : Op S _).Writes W :=
  .bind (within_acquire _) fun _ => .query (writes_rows h)

theorem deleteKeyFromAllTables_writes (h : ∀ t, W t k) :
    (deleteKeyFromAllTables k : Op S _).Writes W :=
  .bind (within_acquire _) fun _ => .forEach fun t => .query (writes_rows (h t))

theorem deleteKeysFromAllTables_writes {ks : List Bytes} (h : ∀ t, ∀ k ∈ ks, W t k) :
    (deleteKeysFromAllTables ks : Op S _).Writes W :=
  .ite trivial <| .bind (lockKeys_writes _) fun _ => .forEach fun t =>
    .query (Sql.Writes.forEach fun k hk => writes_rows (h t k hk))

theorem setMetaBatch_writes {ks : List Bytes} (h : ∀ k ∈ ks, W .kvMeta k) :
    (setMetaBatch ks kt : Op S _).Writes W := by
  refine .ite trivial <| .bind (lockKeys_writes _) fun _ => .query ?_
  split
  · exact Sql.Writes.forEach fun k hk => writes_rows (h k hk)
  · exact within_error _

/-- A read that looks for one of the keys, then a statement on the rows of that key. -/
theorem writes_popAt {α β : Type} {t : Tab}
    {p : Ctx Bytes Tab.Sub → (Bytes → Table t.Sub (Row S t)) → Bytes → Bool}
    (h : ∀ key ∈ keys, W t (encodeKey key)) {pop : Bytes → Stm S α}
    (hpop : ∀ k, W t k → (pop k).Writes W) (g : Bytes → α → Option β) :
    (do
      let winner ← Sql.readRowsIn t (encodeKeys keys) fun c rows => (encodeKeys keys).find? (p c rows)
      match winner with
      | none => pure none
      | some k => do
          let rows ← pop k
          pure (g k rows) : Stm S (Option β)).Writes W := by
  refine Sql.Writes.bind_of (P := fun w => ∀ k, w = some k → k ∈ encodeKeys keys)
    (Sql.writes_readRowsIn _ _ _) ?_ fun winner hwinner => ?_
  · rintro c d d' a ⟨⟩ k hk
    exact List.mem_of_find?_eq_some hk
  · cases winner with
    | none => exact Sql.writes_pure _
    | some k =>
        have hk : W t k := List.forall_mem_map.mpr h k (hwinner k rfl)
        exact Sql.Writes.bind (hpop k hk) fun _ => Sql.writes_pure _

/-! ### Strings -/

section strings

theorem writes_selectString : (selectString k : Stm S _).Writes W :=
  writes_of_blindSql (blind_selectLive _)

theorem writes_upsertString (hs : W .kvStrings k) :
    (upsertString k value : Stm S _).Writes W := by
  unfold upsertString upsertRow
  exact writes_rows hs

theorem writeString_writes (hm : W .kvMeta k) (hs : W .kvStrings k)
    {a : α} : (do setMeta k .string none; query (upsertString k value); pure a : Op S α).Writes W :=
  .bind (setMeta_writes hm) fun _ => .bind (.query (writes_upsertString hs)) fun _ => trivial

theorem set_writes {ttl : ℤ} (h : ∀ t, W t (encodeKey key)) :
    (set key value ttl : Op S _).Writes W := by
  have hput (x : Option Time) : (do
      setMeta (encodeKey key) .string x
      query (upsertRow .kvStrings (encodeKey key) () ⟨value, x⟩ fun _ => ⟨value, x⟩) :
      Op S Unit).Writes W :=
    .bind (setMeta_writes (h _)) fun _ => .query (writes_rows (h .kvStrings))
  refine .bind (deleteKeyFromAllTables_writes h) fun _ => ?_
  exact .ite (.bind within_clock fun _ => hput _) (hput _)

theorem setNX_writes {ttl : ℤ} (h : ∀ t, W t (encodeKey key)) :
    (setNX key value ttl : Op S _).Writes W :=
  .bind (within_acquire _) fun _ => .bind (.query writes_read) fun _ =>
    .ite trivial (.bind (set_writes h) fun _ => trivial)

theorem mem_encodePairs {order : List ℕ} {pairs : Table Bytes Bytes}
    (h : k ∈ (encodePairs order pairs).dom) : ∃ key ∈ pairs.dom, k = encodeKey key := by
  have hfold (l : List (Bytes × Bytes)) (m : Table Bytes Bytes)
      (hk : k ∈ (l.foldl (fun m p => Table.put m (encodeKey p.1) p.2) m).dom) :
      k ∈ m.dom ∨ ∃ p ∈ l, k = encodeKey p.1 := by
    induction l generalizing m with
    | nil => exact Or.inl hk
    | cons p l ih =>
        rcases ih _ hk with hm | ⟨q, hq, heq⟩
        · rw [Table.mem_dom, Table.put_row] at hm
          split at hm
          · rename_i hkp
            exact Or.inr ⟨p, List.mem_cons_self .., hkp⟩
          · exact Or.inl ((m.mem_dom k).mpr hm)
        · exact Or.inr ⟨q, List.mem_cons_of_mem p hq, heq⟩
  rcases hfold _ _ h with hempty | ⟨p, hp, heq⟩
  · simp at hempty
  · have hmem := (Table.shuffle_perm order pairs.toList).mem_iff.mp hp
    exact ⟨p.1, Table.mem_dom_of_row (Table.mem_toList.mp hmem), heq⟩

theorem mSet_writes {pairs : Table Bytes Bytes} (h : ∀ t, ∀ key ∈ pairs.dom, W t (encodeKey key)) :
    (mSet pairs : Op S _).Writes W := by
  refine .bind within_random fun order => .ite trivial ?_
  have hkeys (t : Tab) : ∀ k ∈ Table.ascending (encodePairs order pairs).dom, W t k := by
    intro k hk
    obtain ⟨key, hkey, rfl⟩ := mem_encodePairs (Table.mem_ascending.mp hk)
    exact h t key hkey
  refine .bind (deleteKeysFromAllTables_writes hkeys) fun _ =>
    .bind (setMetaBatch_writes (hkeys _)) fun _ => .query (Sql.Writes.forEach fun p hp => ?_)
  refine writes_upsertString (hkeys .kvStrings p.1 ?_)
  exact Table.mem_ascending.mpr (Table.mem_dom_of_row (Table.mem_toList.mp hp))

theorem incr_writes {delta : ℤ} (hm : W .kvMeta (encodeKey key)) (hs : W .kvStrings (encodeKey key)) :
    (incr key delta : Op S _).Writes W := by
  refine .bind (.query writes_selectString) fun v => ?_
  cases v with
  | none => exact writeString_writes hm hs
  | some v =>
      dsimp only
      cases parseInt v with
      | none => exact trivial
      | some n => exact writeString_writes hm hs

theorem incrByFloat_writes [Float64 S] {delta : S} (hm : W .kvMeta (encodeKey key))
    (hs : W .kvStrings (encodeKey key)) : (incrByFloat key delta : Op S _).Writes W := by
  refine requireType_writes fun _ => .bind (.query writes_selectString) fun v => ?_
  cases v with
  | none => exact writeString_writes hm hs
  | some v =>
      dsimp only
      cases (Float64.parseFloat v : Option S) with
      | none => exact trivial
      | some x => exact writeString_writes hm hs

theorem appendStr_writes (hm : W .kvMeta (encodeKey key))
    (hs : W .kvStrings (encodeKey key)) : (appendStr key value : Op S _).Writes W := by
  refine .bind (setMeta_writes hm) fun _ => .bind (.query (writes_rows hs)) fun _ =>
    .bind (.query writes_read) fun v => ?_
  cases v <;> exact trivial

theorem bitField_writes {ops : List BitFieldOp} (hm : W .kvMeta (encodeKey key))
    (hs : W .kvStrings (encodeKey key)) : (bitField key ops : Op S _).Writes W := by
  refine .bind (.query writes_selectString) fun v => ?_
  split
  · exact trivial
  · rename_i st _
    have hput : (do query (upsertString (encodeKey key) st.value); pure st.results : Op S _).Writes W :=
      .bind (.query (writes_upsertString hs)) fun _ => trivial
    exact .ite (.ite (.bind (setMeta_writes hm) fun _ => hput) (.bind (within_acquire _) fun _ => hput))
      trivial

theorem getEx_writes {ttl : ℤ} {persist : Bool} (hm : W .kvMeta (encodeKey key))
    (hs : W .kvStrings (encodeKey key)) : (getEx key ttl persist : Op S _).Writes W := by
  refine .bind (within_acquire _) fun _ => .bind (.query writes_selectString) fun v => ?_
  have hset (x : Option Time) (a : Option Bytes) : (do
      query (setExpiry .kvMeta (encodeKey key) x)
      query (setExpiry .kvStrings (encodeKey key) x)
      pure a : Op S (Option Bytes)).Writes W :=
    .bind (.query (writes_rows hm)) fun _ =>
      .bind (.query (writes_rows hs)) fun _ => trivial
  cases v with
  | none => exact trivial
  | some v => exact .ite (hset _ _) (.ite (.bind within_clock fun _ => hset _ _) trivial)

theorem getDel_writes (hm : W .kvMeta (encodeKey key)) (hs : W .kvStrings (encodeKey key)) :
    (getDel key : Op S _).Writes W := by
  refine .bind (within_acquire _) fun _ => .bind (.query writes_selectString) fun v => ?_
  cases v with
  | none => exact trivial
  | some v =>
      exact .bind (.queryIgnored (writes_rows hm)) fun _ =>
        .bind (.query (writes_rows hs)) fun _ => trivial

theorem getSet_writes (hm : W .kvMeta (encodeKey key))
    (hs : W .kvStrings (encodeKey key)) : (getSet key value : Op S _).Writes W :=
  .bind (.query writes_selectString) fun _ => .bind (setMeta_writes hm) fun _ =>
    .bind (.query (writes_rows hs)) fun _ => trivial

theorem bitOp_writes {operation : BitOperation} (h : ∀ t, W t (encodeKey key)) :
    (bitOp operation key keys : Op S _).Writes W := by
  refine .ite trivial <| .bind (writes_of_blind (blind_selectStrings _)) fun values => ?_
  cases bitOpBytes operation values with
  | error m => exact trivial
  | ok result =>
      exact .bind (deleteKeyFromAllTables_writes h) fun _ => writeString_writes (h _) (h _)

end strings

/-! ### Keys of any type -/

section keys

theorem del_writes (h : ∀ t, ∀ key ∈ keys, W t (encodeKey key)) :
    (del keys : Op S _).Writes W := by
  have hloop (ks : List Bytes) (hks : ∀ t, ∀ k ∈ ks, W t k) (n : ℤ) :
      (delLoop n ks : Op S _).Writes W := by
    induction ks generalizing n with
    | nil => exact trivial
    | cons k ks ih =>
        refine .bind (.bind (writes_of_blind (blind_getKeyType k)) fun _ => .ite trivial ?_) fun _ =>
          ih (fun t k' hk' => hks t k' (List.mem_cons_of_mem k hk')) _
        exact .bind (deleteKeyFromAllTables_writes fun t => hks t k (List.mem_cons_self ..))
          fun _ => trivial
  refine hloop _ (fun t k hk => ?_) 0
  rw [sortStrings, List.mem_insertionSort] at hk
  obtain ⟨key, hkey, rfl⟩ := List.mem_map.mp hk
  exact h t key hkey

theorem applyExpiry_writes {x : Time} {opts : ExpireOptions} (h : ∀ t, W t k) :
    (applyExpiry k x opts : Op S _).Writes W := by
  refine .bind (.query (writes_rows (h _))) fun rows => ?_
  cases rows with
  | nil => exact trivial
  | cons r rows =>
      dsimp only
      cases dataTableForType r.2.val with
      | none => exact trivial
      | some t => exact .bind (.query (writes_rows (h t))) fun _ => trivial

theorem expire_writes {ttl : ℤ} {opts : ExpireOptions} (h : ∀ t, W t (encodeKey key)) :
    (expire key ttl opts : Op S _).Writes W :=
  .bind (within_acquire _) fun _ => .bind within_clock fun _ => applyExpiry_writes h

theorem expireAt_writes {timestamp : ℤ} {opts : ExpireOptions} (h : ∀ t, W t (encodeKey key)) :
    (expireAt key timestamp opts : Op S _).Writes W :=
  .bind (within_acquire _) fun _ => .bind (.query (writes_of_blindSql (blind_sendTime _))) fun _ => applyExpiry_writes h

theorem persist_writes (h : ∀ t, W t (encodeKey key)) : (persist key : Op S _).Writes W :=
  .bind (within_acquire _) fun _ => .bind (.query (writes_rows (h _))) fun _ =>
    .ite trivial <| .bind (.forEach fun t => .queryIgnored (writes_rows (h t))) fun _ => trivial

theorem moveKey_writes {t : Tab} {k' : Bytes} (h : W t k) (h' : W t k') :
    (moveKey t k k' : Stm S _).Writes W := by
  unfold moveKey
  split
  · exact Sql.writes_pure _
  · exact Sql.Writes.bind (writes_rows h) fun _ => Sql.writes_onRows h' _

theorem rename_writes {newKey : Bytes} (h : ∀ t, W t (encodeKey key))
    (h' : ∀ t, W t (encodeKey newKey)) : (rename key newKey : Op S _).Writes W := by
  refine .bind (lockKeys_writes _) fun _ => .bind (writes_of_blind (blind_getKeyType _)) fun kt => ?_
  cases kt with
  | none => exact trivial
  | some kt =>
      refine .bind (deleteKeyFromAllTables_writes h') fun _ => ?_
      cases dataTableForType kt with
      | none => exact trivial
      | some t =>
          exact .bind (.query (moveKey_writes (h _) (h' _))) fun _ => .query (moveKey_writes (h t) (h' t))

theorem copyRows_writes {t : Tab} {source : Bytes} (h : W .kvMeta k) :
    (copyRows t kt source k : Op S _).Writes W := by
  refine .bind (setMeta_writes h) fun _ => .bind (.queryRows writes_read) fun rows => ?_
  cases rows <;> exact trivial

theorem copyByType_writes {source : Bytes} (h : ∀ t, W t k) :
    (copyByType kt source k : Op S _).Writes W := by
  cases kt with
  | string =>
      refine .bind (.query writes_read) fun row => ?_
      cases row with
      | none => exact trivial
      | some r =>
          exact .bind (setMeta_writes (h _)) fun _ =>
            .bind (.query (writes_rows (h .kvStrings))) fun _ => trivial
  | hyperloglog => exact trivial
  | hash | list | set | zset => exact copyRows_writes (h _)

theorem copyKey_writes {source : Bytes} {replace : Bool} (h : ∀ t, W t (encodeKey key)) :
    (copyKey source key replace : Op S _).Writes W := by
  refine .bind (lockKeys_writes _) fun _ => .bind (writes_of_blind (blind_getKeyType _)) fun kt => ?_
  cases kt with
  | none => exact trivial
  | some kt =>
      refine .bind (writes_of_blind (blind_getKeyType _)) fun _ => .ite trivial ?_
      exact .ite (.bind (deleteKeyFromAllTables_writes h) fun _ => copyByType_writes h)
        (copyByType_writes h)

end keys

/-! ### Hashes -/

section hashes

theorem writes_selectField {field : Bytes} : (selectField k field : Stm S _).Writes W :=
  writes_of_blindSql (blind_selectLive _)

theorem writes_upsertField {field value : Bytes} (hd : W .kvHashes k) :
    (upsertField k field value : Stm S _).Writes W := by
  unfold upsertField upsertRow
  exact writes_rows hd

theorem writeField_writes {field value : Bytes} (hm : W .kvMeta k) (hd : W .kvHashes k) {a : α} :
    (do setMeta k .hash none; query (upsertField k field value); pure a : Op S α).Writes W :=
  .bind (setMeta_writes hm) fun _ => .bind (.query (writes_upsertField hd)) fun _ => trivial

theorem hSet_writes {fields : Table Bytes Bytes} (hm : W .kvMeta (encodeKey key))
    (hd : W .kvHashes (encodeKey key)) : (hSet key fields : Op S _).Writes W :=
  .ite trivial <| requireType_writes fun _ => .bind within_random fun _ =>
    .bind (.query writes_read) fun _ => .bind (setMeta_writes hm) fun _ =>
      .bind (.query (writes_rows hd)) fun _ => trivial

theorem hIncrBy_writes {field : Bytes} {n : ℤ} (hm : W .kvMeta (encodeKey key))
    (hd : W .kvHashes (encodeKey key)) : (hIncrBy key field n : Op S _).Writes W := by
  refine requireType_writes fun _ => .bind (.query writes_selectField) fun v => ?_
  cases v with
  | none => exact writeField_writes hm hd
  | some v =>
      dsimp only
      cases parseInt v with
      | none => exact trivial
      | some n => exact writeField_writes hm hd

theorem hIncrByFloat_writes [Float64 S] {field : Bytes} {x : S} (hm : W .kvMeta (encodeKey key))
    (hd : W .kvHashes (encodeKey key)) : (hIncrByFloat key field x : Op S _).Writes W := by
  refine requireType_writes fun _ => .bind (.query writes_selectField) fun v => ?_
  cases v with
  | none => exact writeField_writes hm hd
  | some v =>
      dsimp only
      cases (Float64.parseFloat v : Option S) with
      | none => exact trivial
      | some x => exact writeField_writes hm hd

theorem hSetNX_writes {field value : Bytes} (hm : W .kvMeta (encodeKey key))
    (hd : W .kvHashes (encodeKey key)) : (hSetNX key field value : Op S _).Writes W :=
  requireType_writes fun _ => .bind (setMeta_writes hm) fun _ =>
    .bind (.query (writes_rows hd)) fun _ => trivial

end hashes

/-! ### Lists -/

section lists

theorem writes_selectListLength : (selectListLength k : Stm S _).Writes W := by
  unfold selectListLength selectAll
  exact writes_read

theorem push_writes {values : List Bytes} {message : String} {start : Table ℤ (Row S .kvLists) → ℤ}
    {index : ℤ → ℕ → ℤ} (hm : W .kvMeta (encodeKey key)) (hd : W .kvLists (encodeKey key)) :
    (push key values message start index).Writes W :=
  requireType_writes fun _ => .ite (.queryContext _ writes_selectListLength) <|
    .bind (within_acquire _) fun _ => .bind (.queryContext _ writes_read) fun _ =>
      .bind (setMeta_writes hm) fun _ => .bind (.query (writes_rows hd)) fun _ =>
        .queryContext _ writes_selectListLength

theorem popMulti_writes
    (hd : ∀ key ∈ keys, W .kvLists (encodeKey key)) : (popMulti keys order : Op S _).Writes W :=
  .ite trivial <| .bind (.query (writes_popAt hd (fun _ hk => writes_rows hk) _)) fun _ => trivial

theorem popMultiN_writes {cnt : ℤ}
    (hd : ∀ key ∈ keys, W .kvLists (encodeKey key)) :
    (popMultiN keys order cnt : Op S _).Writes W :=
  .ite trivial <| .bind (.query (writes_popAt hd (fun _ hk => writes_rows hk) _)) fun _ => trivial

theorem rPopLPush_writes {destination : Bytes} (hs : W .kvLists (encodeKey key))
    (hm : W .kvMeta (encodeKey destination)) (hd : W .kvLists (encodeKey destination)) :
    (rPopLPush key destination : Op S _).Writes W := by
  refine .bind (lockKeys_writes _) fun _ => .bind (.queryForUpdate writes_read _) fun last => ?_
  cases last with
  | none => exact trivial
  | some r =>
      exact .bind (.query (writes_rows hs)) fun _ => .bind (.query (writes_rows hm)) fun _ =>
        .bind (.query (writes_rows hd)) fun _ => trivial

theorem lRem_writes {cnt : ℤ} {element : Bytes} (hd : W .kvLists (encodeKey key)) :
    (lRem key cnt element : Op S _).Writes W :=
  .ite (.query (writes_rows hd)) <| .ite (.query (within_error _)) <|
    .bind (.query (writes_rows hd)) fun _ => trivial

theorem lTrim_writes {start stop : ℤ} (hm : W .kvMeta (encodeKey key))
    (hd : W .kvLists (encodeKey key)) : (lTrim key start stop : Op S _).Writes W :=
  .bind (within_acquire _) fun _ => .bind (.query writes_selectListLength) fun _ =>
    .ite trivial <| .ite
      (.bind (.query (writes_rows hm)) fun _ => .query (writes_rows hd))
      (.bind (.query (writes_rows hd)) fun _ => trivial)

theorem lSet_writes {index : ℤ} {element : Bytes} (hd : W .kvLists (encodeKey key)) :
    (lSet key index element : Op S _).Writes W := by
  refine .bind (.query writes_selectListLength) fun total => .ite trivial <| .ite trivial <|
    .bind (.query writes_read) fun idx => ?_
  cases idx with
  | none => exact trivial
  | some idx => exact .bind (.query (writes_rows hd)) fun _ => trivial

theorem lInsert_writes {pivot element : Bytes} {before : Bool} (hd : W .kvLists (encodeKey key)) :
    (lInsert key pivot element before : Op S _).Writes W := by
  refine .bind (.query writes_read) fun pivotIdx => ?_
  have hput (s s' : Stm S Unit) (hs : s.Writes W) (hs' : s'.Writes W) : (do
      query s
      query s'
      query (selectListLength (encodeKey key)) : Op S ℤ).Writes W :=
    .bind (.query hs) fun _ => .bind (.query hs') fun _ => .query writes_selectListLength
  cases pivotIdx with
  | none => exact trivial
  | some pivotIdx =>
      refine .bind (within_acquire _) fun _ => .ite ?_ ?_
      · exact hput _ _ (writes_rows hd) (writes_rows hd)
      · exact hput _ _ (writes_rows hd) (writes_rows hd)

end lists

/-! ### Sets, sorted sets and HyperLogLogs -/

section sets

theorem sAdd_writes {members : List Bytes} (hm : W .kvMeta (encodeKey key))
    (hd : W .kvSets (encodeKey key)) : (sAdd key members : Op S _).Writes W :=
  .ite trivial <| requireType_writes fun _ => .bind (setMeta_writes hm) fun _ =>
    .query (writes_rows hd)

theorem storeSet_writes {members : List Bytes} (h : ∀ t, W t (encodeKey key)) :
    (storeSet (encodeKey key) members : Op S _).Writes W := by
  refine .bind (deleteKeyFromAllTables_writes h) fun _ => .ite trivial ?_
  exact sAdd_writes (by simpa using h _) (by simpa using h _)

theorem writes_upsertRegisters {hll : HyperLogLog} (hd : W .kvHyperloglog k) :
    (upsertRegisters k hll : Stm S _).Writes W := by
  unfold upsertRegisters upsertRow
  exact writes_rows hd

theorem pfAdd_writes {elements : List Bytes} (hm : W .kvMeta (encodeKey key))
    (hd : W .kvHyperloglog (encodeKey key)) : (pfAdd key elements : Op S _).Writes W :=
  .bind (within_acquire _) fun _ => requireType_writes fun _ =>
    .bind (.query (writes_of_blindSql (blind_selectLive _))) fun _ => .bind (setMeta_writes hm) fun _ =>
      .bind (.query (writes_upsertRegisters hd)) fun _ => trivial

theorem pfMerge_writes {sourceKeys : List Bytes} (hm : W .kvMeta (encodeKey key))
    (hd : W .kvHyperloglog (encodeKey key)) : (pfMerge key sourceKeys : Op S _).Writes W :=
  .bind (lockKeys_writes _) fun _ => requireType_writes fun _ =>
    .bind (.query (writes_of_blindSql (blind_selectLive _))) fun _ => .bind (writes_of_blind (blind_pfMergeLoop _ _)) fun _ =>
      .bind (setMeta_writes hm) fun _ => .query (writes_upsertRegisters hd)

end sets

section scores
variable [Float64 S]

theorem zAddLoop_writes {opts : ZAddOptions} {members : List (ZMember S)} (hd : W .kvZsets k)
    (added changed : ℤ) : (zAddLoop k opts added changed members).Writes W := by
  induction members generalizing added changed with
  | nil => exact trivial
  | cons m members ih =>
      refine .bind (.query writes_read) fun old => ?_
      cases zAddAction opts m.score old with
      | skip => exact ih _ _
      | update => exact .bind (.query (writes_rows hd)) fun _ => ih _ _
      | add => exact .bind (.query (writes_rows hd)) fun _ => ih _ _

theorem zAdd_writes {members : List (ZMember S)} {opts : ZAddOptions}
    (hm : W .kvMeta (encodeKey key)) (hd : W .kvZsets (encodeKey key)) :
    (zAdd key members opts).Writes W :=
  requireType_writes fun _ => .ite trivial <| .bind (setMeta_writes hm) fun _ =>
    .bind (zAddLoop_writes hd _ _) fun _ => trivial

theorem zIncrBy_writes {x : S} {member : Bytes} (hm : W .kvMeta (encodeKey key))
    (hd : W .kvZsets (encodeKey key)) : (zIncrBy key x member).Writes W :=
  .bind (within_acquire _) fun _ => .bind (.query (writes_rows hm)) fun _ =>
    .query (writes_rows hd)

theorem zRangeStore_writes {src : Bytes} {spec : ZRangeStoreSpec S} (h : ∀ t, W t (encodeKey key)) :
    (zRangeStore key src spec).Writes W := by
  refine .bind (deleteKeyFromAllTables_writes h) fun _ => .bind (.query ?_) fun n =>
    .ite (.bind (setMeta_writes (h _)) fun _ => trivial) trivial
  exact Sql.Writes.bind writes_read fun _ =>
    Sql.Writes.bind (writes_rows (h .kvZsets)) fun _ => Sql.writes_pure _

theorem zRemRangeByRank_writes {start stop : ℤ} (hd : W .kvZsets (encodeKey key)) :
    (zRemRangeByRank key start stop : Op S _).Writes W :=
  .bind (within_acquire _) fun _ => .bind (.query writes_read) fun _ =>
    .ite trivial (.query (writes_rows hd))

theorem zPop_writes {cnt : ℤ} (hd : W .kvZsets (encodeKey key)) :
    (zPop key cnt order : Op S _).Writes W :=
  .bind (.queryRows writes_read) fun _ =>
    .ite trivial (.bind (.query (writes_rows hd)) fun _ => trivial)

theorem zMPop_writes {cnt : ℤ}
    (hd : ∀ key ∈ keys, W .kvZsets (encodeKey key)) : (zMPop keys order cnt : Op S _).Writes W :=
  .ite trivial <| .bind (.query (writes_popAt hd (fun _ hk => writes_rows hk) _)) fun _ => trivial

theorem storeScores_writes {aggregate : Aggregate} {scores : Table Bytes (List S)}
    (h : ∀ t, W t (encodeKey key)) :
    (storeScores (encodeKey key) aggregate scores).Writes W := by
  refine .bind (deleteKeyFromAllTables_writes h) fun _ => .ite trivial <| .bind within_random fun _ => ?_
  exact zAdd_writes (by simpa using h _) (by simpa using h _)

theorem zInterStore_writes {weights : List S} {aggregate : Aggregate}
    (h : ∀ t, W t (encodeKey key)) : (zInterStore key keys weights aggregate).Writes W := by
  unfold zInterStore
  dsimp only
  split
  · exact trivial
  · refine .bind (writes_of_blind (blind_zRange _ _ _)) fun members => ?_
    split
    · exact .ite (.bind (writes_of_blind (blind_zInterLoop _ _ _)) fun _ => storeScores_writes h) trivial
    · exact .bind (writes_of_blind (blind_zInterLoop _ _ _)) fun _ => storeScores_writes h

end scores

/-! ### Commands -/

section commands

/-- The rows of `key` as a key of type `T`. -/
def typedRows (T : KeyType) (key : Bytes) (t : Tab) (k : Bytes) : Prop :=
  (t = .kvMeta ∨ t = T.table) ∧ k = encodeKey key

/-- The rows of `key` in all tables. -/
def allRows (key : Bytes) (_ : Tab) (k : Bytes) : Prop := k = encodeKey key

/-- The tables and the keys in which a command can write. -/
def Cmd.writes : Cmd S → Tab → Bytes → Prop
  | .set key _ _ | .setNX key _ _ | .bitOp _ key _ | .expire key _ _ | .expireAt key _ _
  | .persist key | .copy _ key _ | .sInterStore key _ | .sUnionStore key _ | .sDiffStore key _
  | .zRangeStore key _ _ | .zUnionStore key _ _ _ | .zInterStore key _ _ _ => allRows key
  | .mSet pairs => fun t k => ∃ key ∈ pairs.dom, allRows key t k
  | .del ks => fun t k => ∃ key ∈ ks, allRows key t k
  | .rename oldKey newKey => fun t k => allRows oldKey t k ∨ allRows newKey t k
  | .incr key _ | .incrByFloat key _ | .append key _ | .setRange key _ _ | .getEx key _ _
  | .getDel key | .getSet key _ | .bitField key _ | .setBit key _ _ => typedRows .string key
  | .hSet key _ | .hDel key _ | .hIncrBy key _ _ | .hIncrByFloat key _ _ | .hSetNX key _ _ =>
      typedRows .hash key
  | .lPush key _ | .rPush key _ | .lPop key | .rPop key | .lRem key _ _ | .lTrim key _ _
  | .lSet key _ _ | .lInsert key _ _ _ => typedRows .list key
  | .rPopLPush source destination => fun t k =>
      typedRows .list source t k ∨ typedRows .list destination t k
  | .lPopMulti ks | .rPopMulti ks | .lMPop ks _ | .rMPop ks _ => fun t k =>
      ∃ key ∈ ks, typedRows .list key t k
  | .sAdd key _ | .sRem key _ => typedRows .set key
  | .zAdd key _ _ | .zIncrBy key _ _ | .zRem key _ | .zRemRangeByScore key _ _
  | .zRemRangeByRank key _ _ | .zPopMin key _ | .zPopMax key _ => typedRows .zset key
  | .zMPopMin ks _ | .zMPopMax ks _ => fun t k => ∃ key ∈ ks, typedRows .zset key t k
  | .pfAdd key _ | .pfMerge key _ => typedRows .hyperloglog key
  | .flushDB => fun _ _ => True
  | _ => fun _ _ => False

theorem allRows_self (key : Bytes) (t : Tab) : allRows key t (encodeKey key) := rfl

theorem typedRows_meta (T : KeyType) (key : Bytes) : typedRows T key .kvMeta (encodeKey key) :=
  ⟨Or.inl rfl, rfl⟩

theorem typedRows_table (T : KeyType) (key : Bytes) : typedRows T key T.table (encodeKey key) :=
  ⟨Or.inr rfl, rfl⟩

/-- **The footprint of a command.** -/
theorem Cmd.op_writes [Float64 S] (c : Cmd S) : c.op.Writes c.writes := by
  have hm := typedRows_meta
  have ht := typedRows_table
  have hset (key : Bytes) (members : List Bytes) :
      (storeSet (encodeKey key) members : Op S _).Writes (allRows key) := storeSet_writes (allRows_self _)
  cases c
  case set => exact (set_writes (allRows_self _)).map _
  case setNX => exact (setNX_writes (allRows_self _)).map _
  case mSet => exact (mSet_writes fun _ key hkey => ⟨key, hkey, rfl⟩).map _
  case incr => exact (incr_writes (hm _ _) (ht .string _)).map _
  case incrByFloat => exact (incrByFloat_writes (hm _ _) (ht .string _)).map _
  case append => exact (appendStr_writes (hm _ _) (ht .string _)).map _
  case setRange | setBit =>
    refine .map _ (.bind (.query writes_selectString) fun v => ?_)
    split
    · exact trivial
    · exact writeString_writes (hm _ _) (ht .string _)
  case getEx => exact (getEx_writes (hm _ _) (ht .string _)).map _
  case getDel => exact (getDel_writes (hm _ _) (ht .string _)).map _
  case getSet => exact (getSet_writes (hm _ _) (ht .string _)).map _
  case bitField => exact (bitField_writes (hm _ _) (ht .string _)).map _
  case bitOp => exact (bitOp_writes (allRows_self _)).map _
  case del => exact (del_writes fun _ key hkey => ⟨key, hkey, rfl⟩).map _
  case expire => exact (expire_writes (allRows_self _)).map _
  case expireAt => exact (expireAt_writes (allRows_self _)).map _
  case persist => exact (persist_writes (allRows_self _)).map _
  case rename => exact (rename_writes (fun _ => Or.inl rfl) fun _ => Or.inr rfl).map _
  case copy => exact (copyKey_writes (allRows_self _)).map _
  case flushDB =>
    exact .map _ (.forEach fun t => .query (Sql.writes_replace (fun _ => trivial) _))
  case hSet => exact (hSet_writes (hm _ _) (ht .hash _)).map _
  case hDel => exact .map _ (.query (writes_rows (ht .hash _)))
  case hIncrBy => exact (hIncrBy_writes (hm _ _) (ht .hash _)).map _
  case hIncrByFloat => exact (hIncrByFloat_writes (hm _ _) (ht .hash _)).map _
  case hSetNX => exact (hSetNX_writes (hm _ _) (ht .hash _)).map _
  case lPush | rPush => exact (push_writes (hm _ _) (ht .list _)).map _
  case lPop | rPop => exact .map _ (.bind (.query (writes_rows (ht .list _))) fun _ => trivial)
  case lPopMulti | rPopMulti => exact (popMulti_writes fun key hkey => ⟨key, hkey, ht .list _⟩).map _
  case lMPop | rMPop => exact (popMultiN_writes fun key hkey => ⟨key, hkey, ht .list _⟩).map _
  case rPopLPush =>
    exact (rPopLPush_writes (Or.inl (ht .list _)) (Or.inr (hm .list _)) (Or.inr (ht .list _))).map _
  case lRange =>
    exact .map _ (.bind (writes_of_blind (blind_readTypeCheck _ _)) fun _ =>
      .bind (.queryContext _ writes_selectListLength) fun _ => .ite trivial (.queryRows writes_read))
  case lPos => exact .map _ (.bind (.queryRows writes_read) fun _ => trivial)
  case lRem => exact (lRem_writes (ht .list _)).map _
  case lTrim => exact (lTrim_writes (hm _ _) (ht .list _)).map _
  case lSet => exact (lSet_writes (ht .list _)).map _
  case lInsert => exact (lInsert_writes (ht .list _)).map _
  case sAdd => exact (sAdd_writes (hm _ _) (ht .set _)).map _
  case sRem => exact .map _ (.query (writes_rows (ht .set _)))
  case sInterStore => exact .map _ (.bind (writes_of_blind (blind_sInter _)) fun _ => hset _ _)
  case sUnionStore => exact .map _ (.bind (writes_of_blind (blind_sUnion _)) fun _ => hset _ _)
  case sDiffStore => exact .map _ (.bind (writes_of_blind (blind_sDiff _)) fun _ => hset _ _)
  case zAdd => exact (zAdd_writes (hm _ _) (ht .zset _)).map _
  case zIncrBy => exact (zIncrBy_writes (hm _ _) (ht .zset _)).map _
  case zRangeStore => exact (zRangeStore_writes (allRows_self _)).map _
  case zRem | zRemRangeByScore => exact .map _ (.query (writes_rows (ht .zset _)))
  case zRemRangeByRank => exact (zRemRangeByRank_writes (ht .zset _)).map _
  case zPopMin | zPopMax => exact (zPop_writes (ht .zset _)).map _
  case zMPopMin | zMPopMax => exact (zMPop_writes fun key hkey => ⟨key, hkey, ht .zset _⟩).map _
  case zUnionStore =>
    exact .map _ (.bind (writes_of_blind (blind_zUnionLoop _ _ _)) fun _ => storeScores_writes (allRows_self _))
  case zInterStore => exact (zInterStore_writes (allRows_self _)).map _
  case pfAdd => exact (pfAdd_writes (hm _ _) (ht .hyperloglog _)).map _
  case pfMerge => exact (pfMerge_writes (hm _ _) (ht .hyperloglog _)).map _
  all_goals exact writes_of_blind (Cmd.blind_op rfl)

end commands

end Postkeys
