import Postkeys.Handlers.Runs
import Postkeys.Handlers.Sets
import Postkeys.Rewritten

/-! # Set algebra and storing

`SINTER`, `SUNION` and `SDIFF` fold the sets under their keys, with early exits, into a map and return its keys; the
storing commands do the same, remove the destination and add what was found.  `set_store` says that both work on the
sets as they were before, whatever the destination was, and that they find the same set. -/

namespace Postkeys

open Relational Program

variable {S : Type} {e : Env} {d : DB S} {keys : List Bytes} {Q : Finset Bytes → DB S → Prop}
  {key : Bytes}

/-! ### Sets -/

/-- The set under a key. -/
def setOf (now : Time) (d : DB S) (key : Bytes) : Finset Bytes := (live now (d.rows .kvSets (encodeKey key))).dom

/-- The key holds a set, or nothing. -/
def SetOrAbsent (now : Time) (d : DB S) (key : Bytes) : Prop :=
  liveType now d (encodeKey key) = none ∨ liveType now d (encodeKey key) = some .set

/-- The three operations on sets. -/
inductive SetOp
  | inter | union | diff
deriving DecidableEq, Repr

/-- What is left of, or comes to, the first set. -/
def SetOp.result (op : SetOp) (now : Time) (d : DB S) (key : Bytes) (keys : List Bytes) : Finset Bytes :=
  match op with
  | inter => (setOf now d key).filter fun x => ∀ k ∈ keys, x ∈ setOf now d k
  | union => setOf now d key ∪ keys.toFinset.biUnion (setOf now d)
  | diff => setOf now d key \ keys.toFinset.biUnion (setOf now d)

theorem setOf_encodeKey (now : Time) (key : Bytes) : setOf now d (encodeKey key) = setOf now d key := by
  rw [setOf, encodeKey_encodeKey]
  rfl

theorem setOrAbsent_encodeKey (now : Time) (key : Bytes) :
    SetOrAbsent now d (encodeKey key) ↔ SetOrAbsent now d key := by
  rw [SetOrAbsent, encodeKey_encodeKey]
  rfl

/-- The operations do not see how the keys are stored. -/
theorem SetOp.result_encodeKeys (op : SetOp) (now : Time) (key : Bytes) (keys : List Bytes) :
    op.result now d (encodeKey key) (encodeKeys keys) = op.result now d key keys := by
  ext x
  cases op <;> simp [result, encodeKeys, setOf_encodeKey]

/-! ### Reading -/

/-- The members of a set in the order in which the server returns them. -/
def memberList (e : Env) (d : DB S) (key : Bytes) : List Bytes :=
  (Table.shuffle e.order (live e.now (d.rows .kvSets (encodeKey key))).toList).map Prod.fst

theorem toFinset_memberList (key : Bytes) : (memberList e d key).toFinset = setOf e.now d key := by
  have hperm := (Table.shuffle_perm e.order (live e.now (d.rows .kvSets (encodeKey key))).toList).map Prod.fst
  rw [memberList, List.toFinset_eq_of_perm _ _ hperm, Table.map_fst_toList]
  ext x
  simp [setOf]

theorem mem_memberList (key x : Bytes) : x ∈ memberList e d key ↔ x ∈ setOf e.now d key := by
  rw [← toFinset_memberList, List.mem_toFinset]

theorem total_readTypeCheck {k : Bytes} {kt : KeyType}
    (h : liveType e.now d k = none ∨ liveType e.now d k = some kt) {Q : Unit → DB S → Prop} :
    total e (readTypeCheck k kt) Q d ↔ Q () d := by
  rw [readTypeCheck, total_bind, total_getKeyType]
  rcases h with h | h
  · rw [h]
    exact Iff.rfl
  · rw [h]
    dsimp only
    rw [if_pos rfl]
    exact Iff.rfl

theorem total_sMembers (h : SetOrAbsent e.now d key) {Q : List Bytes → DB S → Prop} :
    total e (sMembers key) Q d ↔ Q (memberList e d key) d := by
  rw [sMembers, total_bind, total_readTypeCheck h, total_bind, total_query]
  exact Iff.rfl

theorem total_sInterLoop (h : ∀ k ∈ keys, SetOrAbsent e.now d k) (result : Finset Bytes)
    :
    total e (sInterLoop result keys) Q d ↔ Q (result.filter fun x => ∀ k ∈ keys, x ∈ setOf e.now d k) d := by
  induction keys generalizing result with
  | nil =>
      rw [sInterLoop]
      simp
  | cons key keys ih =>
      rw [List.forall_mem_cons] at h
      have hstep : (result.filter fun x => x ∈ memberList e d key).filter (fun x => ∀ k ∈ keys, x ∈ setOf e.now d k) =
          result.filter fun x => ∀ k ∈ key :: keys, x ∈ setOf e.now d k := by
        rw [Finset.filter_filter]
        refine Finset.filter_congr fun x _ => ?_
        rw [List.forall_mem_cons, mem_memberList]
      rw [sInterLoop, total_bind, total_sMembers h.1, total_ite, ih h.2, hstep]
      constructor
      · rintro ⟨hstop, hgo⟩
        by_cases hempty : (result.filter fun x => x ∈ memberList e d key) = ∅
        · -- nothing is left, and nothing comes back
          rw [hempty, Finset.filter_empty] at hstep
          rw [← hstep]
          exact hstop hempty
        · exact hgo hempty
      · intro hQ
        refine ⟨fun hempty => ?_, fun _ => hQ⟩
        rw [hempty, Finset.filter_empty] at hstep
        rw [← hstep] at hQ
        exact hQ

theorem total_sUnionLoop (h : ∀ k ∈ keys, SetOrAbsent e.now d k) (result : Finset Bytes)
    :
    total e (sUnionLoop result keys) Q d ↔ Q (result ∪ keys.toFinset.biUnion (setOf e.now d)) d := by
  induction keys generalizing result with
  | nil =>
      rw [sUnionLoop]
      simp
  | cons key keys ih =>
      rw [List.forall_mem_cons] at h
      rw [sUnionLoop, total_bind, total_sMembers h.1, ih h.2, toFinset_memberList, List.toFinset_cons,
        Finset.biUnion_insert, Finset.union_assoc]

theorem total_sDiffLoop (h : ∀ k ∈ keys, SetOrAbsent e.now d k) (result : Finset Bytes)
    :
    total e (sDiffLoop result keys) Q d ↔ Q (result \ keys.toFinset.biUnion (setOf e.now d)) d := by
  induction keys generalizing result with
  | nil =>
      rw [sDiffLoop]
      simp
  | cons key keys ih =>
      rw [List.forall_mem_cons] at h
      rw [sDiffLoop, total_bind, total_sMembers h.1, ih h.2, toFinset_memberList, List.toFinset_cons,
        Finset.biUnion_insert, sdiff_sdiff_left]
      rfl

/-- The members of a set in the order in which its map is walked. -/
def walked (e : Env) (s : Finset Bytes) : List Bytes := Table.shuffle e.random (Table.ascending s)

theorem total_walk (s : Finset Bytes) {Q : List Bytes → DB S → Prop} :
    total e (walk s) Q d ↔ Q (walked e s) d := Iff.rfl

theorem nodup_walked (s : Finset Bytes) : (walked e s).Nodup :=
  (Table.shuffle_perm _ _).nodup_iff.mpr (Table.nodup_ascending s)

theorem mem_walked {s : Finset Bytes} {x : Bytes} : x ∈ walked e s ↔ x ∈ s := by
  rw [walked, (Table.shuffle_perm _ _).mem_iff, Table.mem_ascending]

theorem length_walked (s : Finset Bytes) : (walked e s).length = s.card := by
  rw [walked, (Table.shuffle_perm _ _).length_eq, Table.length_ascending]

theorem walked_eq_nil_iff {s : Finset Bytes} : walked e s = [] ↔ s = ∅ := by
  rw [← List.length_eq_zero_iff, length_walked, Finset.card_eq_zero]

/-- The command that returns the result. -/
def SetOp.members (op : SetOp) : List Bytes → Op S (List Bytes) :=
  match op with
  | inter => sInter
  | union => sUnion
  | diff => sDiff

theorem memberList_eq_nil_iff : memberList e d key = [] ↔ setOf e.now d key = ∅ := by
  rw [← toFinset_memberList, List.toFinset_eq_empty_iff]

/-- **The folds** with their early exits return the result of the operation. -/
theorem SetOp.total_members (op : SetOp)
    (h : ∀ k ∈ key :: keys, SetOrAbsent e.now d k) {Q : List Bytes → DB S → Prop} :
    total e (op.members (key :: keys)) Q d ↔ Q (walked e (op.result e.now d key keys)) d := by
  have hcons : encodeKeys (key :: keys) = encodeKey key :: encodeKeys keys := rfl
  have hencoded : ∀ k ∈ encodeKey key :: encodeKeys keys, SetOrAbsent e.now d k := by
    intro k hk
    rw [← hcons, encodeKeys, List.mem_map] at hk
    obtain ⟨k', hk', rfl⟩ := hk
    exact (setOrAbsent_encodeKey _ _).mpr (h k' hk')
  obtain ⟨hkey, hkeys⟩ := List.forall_mem_cons.mp hencoded
  -- an operation that starts from nothing has nothing to walk
  have hearly {s : Finset Bytes} {p : Op S (List Bytes)} (hs : setOf e.now d (encodeKey key) = ∅ → s = ∅)
      (hp : total e p Q d ↔ Q (walked e s) d) :
      total e (if memberList e d (encodeKey key) = [] then pure [] else p) Q d ↔ Q (walked e s) d := by
    split
    · rename_i hnil
      rw [hs (memberList_eq_nil_iff.mp hnil), walked_eq_nil_iff.mpr rfl]
      exact Iff.rfl
    · exact hp
  rw [← op.result_encodeKeys]
  cases op with
  | inter =>
      rw [members, sInter, hcons]
      dsimp only
      rw [total_bind, total_sMembers hkey]
      refine hearly (fun hempty => ?_) ?_
      · rw [result, hempty, Finset.filter_empty]
      · rw [total_bind, total_sInterLoop hkeys, total_walk, toFinset_memberList]
        rfl
  | union =>
      rw [members, sUnion, if_neg (List.cons_ne_nil _ _), hcons, total_bind, total_sUnionLoop hencoded, total_walk,
        Finset.empty_union, List.toFinset_cons, Finset.biUnion_insert]
      rfl
  | diff =>
      rw [members, sDiff, hcons]
      dsimp only
      rw [total_bind, total_sMembers hkey]
      refine hearly (fun hempty => ?_) ?_
      · rw [result, hempty, Finset.empty_sdiff]
      · rw [total_bind, total_sDiffLoop hkeys, total_walk, toFinset_memberList]
        rfl

/-! ### Storing -/

/-- The members of a set as rows without an expiry. -/
def memberRows (s : Finset Bytes) : Table Bytes (Row S .kvSets) where
  dom := s
  row x := if x ∈ s then some ⟨(), none⟩ else none
  mem_dom x := by by_cases hx : x ∈ s <;> simp [hx]

theorem memberRows_empty : (memberRows ∅ : Table Bytes (Row S .kvSets)) = ∅ := Table.dom_eq_empty_iff.mp rfl

theorem memberRows_ne_empty {s : Finset Bytes} (h : s ≠ ∅) : (memberRows s : Table Bytes (Row S .kvSets)) ≠ ∅ :=
  fun hempty => h (Table.dom_eq_empty_iff.mpr hempty)

/-- Rows that are all new are all inserted. -/
theorem addFree_new {t : Tab} {rows : List (t.Sub × Row S t)} {u : Table t.Sub (Row S t)}
    (h : (rows.map Prod.fst).Nodup) (hfree : ∀ p ∈ rows, u.row p.1 = none) :
    (∀ s c, (addFree t u rows).1.row s = some c ↔ u.row s = some c ∨ (s, c) ∈ rows) ∧
      (addFree t u rows).2 = rows.length := by
  induction rows generalizing u with
  | nil => simp [addFree]
  | cons p rows ih =>
      obtain ⟨s₀, r⟩ := p
      rw [List.map_cons, List.nodup_cons] at h
      rw [List.forall_mem_cons] at hfree
      have hother {q : t.Sub × Row S t} (hq : q ∈ rows) : q.1 ≠ s₀ :=
        fun heq => h.1 (List.mem_map.mpr ⟨q, hq, heq⟩)
      obtain ⟨hrows, hcount⟩ := ih (u := u.put s₀ r) h.2 fun q hq => by
        rw [Table.put_row, if_neg (hother hq)]
        exact hfree.2 q hq
      rw [addFree, hfree.1]
      dsimp only
      constructor
      · intro s c
        rw [hrows, Table.put_row, List.mem_cons, Prod.mk.injEq]
        by_cases hs : s = s₀
        · subst hs
          simp [hfree.1, eq_comm]
        · simp [hs]
      · rw [hcount, List.length_cons]
        push_cast
        rfl

theorem addFree_members {members : List Bytes} (h : members.Nodup) :
    addFree (S := S) .kvSets ∅ (members.map fun m => (m, ⟨(), none⟩)) =
      (memberRows members.toFinset, (members.length : ℤ)) := by
  have hnames : ((members.map fun m => ((m, ⟨(), none⟩) : Tab.kvSets.Sub × Row S .kvSets)).map Prod.fst).Nodup := by
    rw [List.map_map]
    exact (List.map_id members).symm ▸ h
  obtain ⟨hrows, hcount⟩ := addFree_new (u := ∅) hnames fun _ _ => rfl
  refine Prod.ext (Table.ext_row fun x => Option.ext fun r => ?_) ?_
  · rw [hrows, memberRows, List.mem_map]
    by_cases hx : x ∈ members
    · simp [hx, eq_comm]
    · simp [hx]
  · rw [hcount, List.length_map]

theorem totalSql_insertIgnore {t : Tab} {k : Bytes} (rows : List (t.Sub × Row S t)) {Q : ℤ → DB S → Prop} :
    totalSql e (insertIgnore t k rows) Q d ↔
      Q (addFree t (d.rows t k) rows).2 (d.setRows t k (addFree t (d.rows t k) rows).1) := Iff.rfl

/-- **The destination** holds the set, whatever it held before. -/
theorem total_storeSet {k : Bytes} (hk : encodeKey k = k) (s : Finset Bytes) :
    total e (storeSet k (walked e s)) (fun n d' => n = s.card ∧ Rewritten d d' k .set .kvSets (memberRows s)) d := by
  rw [storeSet, total_bind, total_deleteKeyFromAllTables, total_ite]
  constructor
  · intro hnil
    rw [walked_eq_nil_iff.mp hnil, memberRows_empty]
    exact ⟨rfl, rewritten_dropKey⟩
  · intro hne
    have hnone : liveType e.now (d.dropKey k) k = none := by
      rw [liveType, Store.rows_dropKey_self]
      rfl
    rw [sAdd, hk, if_neg hne, total_requireType]
    refine ⟨Or.inl hnone, ?_⟩
    rw [total_bind, total_setMeta, total_query, totalSql_insertIgnore, Store.rows_setRows_of_ne_table _ (by decide),
      Store.rows_dropKey_self, addFree_members (nodup_walked s), length_walked]
    have hset : (walked e s).toFinset = s := by
      ext x
      rw [List.mem_toFinset, mem_walked]
    rw [hset]
    refine ⟨rfl, rewritten_setMeta (by decide) (memberRows_ne_empty fun hempty => hne ?_)⟩
    exact walked_eq_nil_iff.mpr hempty

/-! ### The commands -/

section commands
variable [GoFloat S]

/-- `SINTER`, `SUNION` and `SDIFF`. -/
def SetOp.command (op : SetOp) : List Bytes → Proc S :=
  match op with
  | inter => Handlers.sinterOp
  | union => Handlers.sunionOp
  | diff => Handlers.sdiffOp

/-- `SINTERSTORE`, `SUNIONSTORE` and `SDIFFSTORE`. -/
def SetOp.storeCommand (op : SetOp) : List Bytes → Proc S :=
  match op with
  | inter => Handlers.sinterstoreOp
  | union => Handlers.sunionstoreOp
  | diff => Handlers.sdiffstoreOp

theorem SetOp.direct_command (op : SetOp)
    (h : ∀ k ∈ key :: keys, SetOrAbsent e.now d k) (sc : ScriptCache) :
    (op.command (key :: keys)).direct e sc d = (.ok (bulks (walked e (op.result e.now d key keys))), sc, d) := by
  have hexec {c : Cmd S} (hop : c.op = Reply.values <$> op.members (key :: keys)) :
      c.exec e d = (.ok (.values (walked e (op.result e.now d key keys))), d) := by
    refine Cmd.exec_eq_of_total ?_
    rw [hop, total_map, op.total_members h]
    exact ⟨rfl, rfl⟩
  cases op with
  | inter => exact Proc.direct_answerTyped (hexec rfl)
  | union => exact Proc.direct_answerTyped (hexec rfl)
  | diff => exact Proc.direct_answerTyped (hexec rfl)

theorem SetOp.direct_storeCommand (op : SetOp) (dst : Bytes)
    (h : ∀ k ∈ key :: keys, SetOrAbsent e.now d k) (sc : ScriptCache) :
    ∃ n d', (op.storeCommand (dst :: key :: keys)).direct e sc d = (.ok (.int n), sc, d') ∧
      n = (op.result e.now d key keys).card ∧
      Rewritten d d' (encodeKey dst) .set .kvSets (memberRows (op.result e.now d key keys)) := by
  have hencoded : ∀ k ∈ encodeKey key :: encodeKeys keys, SetOrAbsent e.now d k := by
    rw [List.forall_mem_cons, encodeKeys, List.forall_mem_map]
    simpa only [setOrAbsent_encodeKey, List.forall_mem_cons] using h
  have htotal : total e (op.members (encodeKeys (key :: keys)) >>= storeSet (encodeKey dst))
      (fun n d' => n = (op.result e.now d key keys).card ∧
        Rewritten d d' (encodeKey dst) .set .kvSets (memberRows (op.result e.now d key keys))) d := by
    have hcons : encodeKeys (key :: keys) = encodeKey key :: encodeKeys keys := rfl
    rw [total_bind, hcons, op.total_members hencoded, op.result_encodeKeys]
    exact total_storeSet (encodeKey_encodeKey dst) _
  cases op with
  | inter => exact Proc.direct_answerTyped_int rfl htotal sc
  | union => exact Proc.direct_answerTyped_int rfl htotal sc
  | diff => exact Proc.direct_answerTyped_int rfl htotal sc

/-- **Set algebra with storing**: for all keys that hold sets or nothing, and every destination, the reading commands
return the result of the operation on the sets as they are, and the storing ones leave exactly this set. -/
theorem set_store (op : SetOp) (e : Env) (sc : ScriptCache) (d : DB S) (dst key : Bytes) (keys : List Bytes)
    (hsets : ∀ k ∈ key :: keys, SetOrAbsent e.now d k) :
    (∃ l, (op.command (key :: keys)).direct e sc d = (.ok (bulks l), sc, d) ∧ l.Nodup ∧
      l.toFinset = op.result e.now d key keys) ∧
    ∃ d', (op.storeCommand (dst :: key :: keys)).direct e sc d =
        (.ok (.int (op.result e.now d key keys).card), sc, d') ∧
      Rewritten d d' (encodeKey dst) .set .kvSets (memberRows (op.result e.now d key keys)) := by
  constructor
  · refine ⟨_, op.direct_command hsets sc, nodup_walked _, ?_⟩
    ext x
    rw [List.mem_toFinset, mem_walked]
  · obtain ⟨n, d', hdirect, rfl, hrewritten⟩ := op.direct_storeCommand dst hsets sc
    exact ⟨d', hdirect, hrewritten⟩

end commands

/-- The set `s` with the one member `a`. -/
def oneElement : DB ℤ :=
  ((emptyDB : DB ℤ).setRows .kvMeta (encodeKey [115]) (Table.single () ⟨.set, none⟩)).setRows .kvSets (encodeKey [115])
    (Table.single [97] ⟨(), none⟩)

/-- `SUNION s s` and `SUNIONSTORE s s s`. -/
theorem set_store_onto_source :
    (∃ l, (SetOp.union.command [[115], [115]] : Proc ℤ).direct (envAt 0) ∅ oneElement = (.ok (bulks l), ∅, oneElement) ∧
      l.Nodup ∧ l.toFinset = SetOp.union.result 0 oneElement [115] [[115]]) ∧
    ∃ d', (SetOp.union.storeCommand [[115], [115], [115]] : Proc ℤ).direct (envAt 0) ∅ oneElement =
        (.ok (.int (SetOp.union.result 0 oneElement [115] [[115]]).card), ∅, d') ∧
      Rewritten oneElement d' (encodeKey [115]) .set .kvSets
        (memberRows (SetOp.union.result 0 oneElement [115] [[115]])) := by
  have hset : SetOrAbsent 0 oneElement [115] := by
    refine Or.inr ?_
    rw [liveType, oneElement, Store.rows_setRows_of_ne_table _ (by decide), Store.rows_setRows_self]
    rfl
  refine set_store .union (envAt 0) ∅ oneElement [115] [115] [[115]] ?_
  simp only [List.forall_mem_cons]
  exact ⟨hset, hset, fun _ h => absurd h List.not_mem_nil⟩

end Postkeys
