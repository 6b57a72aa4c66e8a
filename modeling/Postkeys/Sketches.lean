import Postkeys.Handlers.Runs
import Postkeys.Querier.Runs

/-! # HyperLogLogs as functions of sets

A register of a HyperLogLog holds the highest rank of the elements that fall into it, so the registers are those of a
set of elements (`ofSet`), adding elements is adding to the set and merging is the union.  `sketch_laws` carries this
through the stored bytes and every sequence of `PFADD` and `PFMERGE`, for every hash function; the commands of the
server are those with `murmur64` (`SketchCmd.exec_murmur64`). -/

namespace Postkeys

open Relational Program

namespace HyperLogLog

/-! ### Registers -/

/-- The register of an element. -/
def bucket (hash : Bytes → UInt64) (x : Bytes) : ℕ := (hash x).toNat % hllRegisters

/-- The rank of an element. -/
def rankOf (hash : Bytes → UInt64) (x : Bytes) : ℕ := (rank (hash x)).toNat

/-- `Add`, with any hash function. -/
def addWith (hash : Bytes → UInt64) (hll : HyperLogLog) (element : Bytes) : HyperLogLog × Bool :=
  let index := bucket hash element
  if hll.registers.getD index 0 < rank (hash element) then
    (⟨hll.registers.set index (rank (hash element)), by rw [List.length_set]; exact hll.size⟩, true)
  else (hll, false)

/-- Add several elements, with any hash function. -/
def addAllWith (hash : Bytes → UInt64) (hll : HyperLogLog) (elements : List Bytes) : HyperLogLog × Bool :=
  elements.foldl (fun st e => ((st.1.addWith hash e).1, st.2 || (st.1.addWith hash e).2)) (hll, false)

theorem addAllWith_murmur64 (hll : HyperLogLog) (elements : List Bytes) :
    hll.addAllWith murmur64 elements = hll.addAll elements := rfl

/-! ### Hashes -/

section hashes

end hashes

/-- The value of a register. -/
def reg (hll : HyperLogLog) (i : ℕ) : ℕ := (hll.registers.getD i 0).toNat

variable {a b : HyperLogLog} {hash : Bytes → UInt64} {x : Bytes} {s t : Finset Bytes} {i : ℕ}

theorem ext_reg (h : ∀ i < hllRegisters, a.reg i = b.reg i) : a = b := by
  obtain ⟨as, ha⟩ := a
  obtain ⟨bs, hb⟩ := b
  have hlist : as = bs := by
    refine List.ext_getElem (ha.trans hb.symm) fun i hi hi' => ?_
    have hreg : (as.getD i 0).toNat = (bs.getD i 0).toNat := h i (ha ▸ hi)
    rw [List.getD_eq_getElem _ _ hi, List.getD_eq_getElem _ _ hi'] at hreg
    exact UInt8.toNat_inj.mp hreg
  subst hlist
  rfl

/-- **Serialization** loses nothing. -/
theorem fromBytes_registers (hll : HyperLogLog) : fromBytes hll.registers = hll := by
  rw [fromBytes, dif_pos hll.size]

theorem reg_new : new.reg i = 0 := by
  simp [reg, new, List.getD_eq_getElem?_getD, List.getElem?_replicate]
  split <;> rfl

theorem reg_merge (hi : i < hllRegisters) : (a.merge b).reg i = max (a.reg i) (b.reg i) := by
  have ha : i < a.registers.length := lt_of_lt_of_eq hi a.size.symm
  have hb : i < b.registers.length := lt_of_lt_of_eq hi b.size.symm
  have hreg : (a.merge b).registers.getD i 0 =
      if a.registers.getD i 0 < b.registers.getD i 0 then b.registers.getD i 0 else a.registers.getD i 0 := by
    rw [List.getD_eq_getElem _ _ ha, List.getD_eq_getElem _ _ hb,
      List.getD_eq_getElem _ _ (lt_of_lt_of_eq hi (a.merge b).size.symm)]
    exact List.getElem_zipWith ..
  rw [reg, reg, reg, hreg]
  split
  · rename_i hlt
    rw [UInt8.lt_iff_toNat_lt] at hlt
    omega
  · rename_i hle
    rw [UInt8.lt_iff_toNat_lt] at hle
    omega

theorem bucket_lt : bucket hash x < hllRegisters := Nat.mod_lt _ (by decide)

/-- Adding raises one register, or none. -/
theorem reg_addWith (hi : i < hllRegisters) :
    (a.addWith hash x).1.reg i = max (a.reg i) (if bucket hash x = i then rankOf hash x else 0) := by
  have hbucket : bucket hash x < a.registers.length := lt_of_lt_of_eq bucket_lt a.size.symm
  unfold addWith
  dsimp only
  split
  · rename_i hlt
    rw [UInt8.lt_iff_toNat_lt] at hlt
    by_cases hx : bucket hash x = i
    · subst hx
      rw [if_pos rfl, reg, List.getD_eq_getElem?_getD, List.getElem?_set_self hbucket, Option.getD_some]
      exact (max_eq_right hlt.le).symm
    · rw [if_neg hx, reg, List.getD_eq_getElem?_getD, List.getElem?_set_ne hx,
        ← List.getD_eq_getElem?_getD]
      exact (max_eq_left (Nat.zero_le _)).symm
  · rename_i hle
    rw [UInt8.lt_iff_toNat_lt, not_lt] at hle
    by_cases hx : bucket hash x = i
    · subst hx
      rw [if_pos rfl]
      exact (max_eq_left hle).symm
    · rw [if_neg hx]
      exact (max_eq_left (Nat.zero_le _)).symm

/-- `Add` tells whether it has changed a register. -/
theorem addWith_changed : (a.addWith hash x).2 = true ↔ (a.addWith hash x).1 ≠ a := by
  have hreg : (a.addWith hash x).1.reg (bucket hash x) = max (a.reg (bucket hash x)) _ := reg_addWith bucket_lt
  rw [if_pos rfl] at hreg
  unfold addWith at hreg ⊢
  dsimp only at hreg ⊢
  split at hreg
  · rename_i hlt
    rw [if_pos hlt]
    refine iff_of_true rfl fun heq => ?_
    rw [heq] at hreg
    rw [UInt8.lt_iff_toNat_lt] at hlt
    have hlt' : a.reg (bucket hash x) < rankOf hash x := hlt
    omega
  · rename_i hle
    rw [if_neg hle]
    exact iff_of_false Bool.false_ne_true fun h => h rfl

/-! ### The registers of a set -/

/-- The highest rank of the elements of a set that fall into a register. -/
def top (hash : Bytes → UInt64) (s : Finset Bytes) (i : ℕ) : ℕ := (s.filter fun x => bucket hash x = i).sup (rankOf hash)

theorem top_lt : top hash s i < 256 := by
  rw [top, Finset.sup_lt_iff (by decide)]
  exact fun x _ => UInt8.toNat_lt _

theorem top_union : top hash (s ∪ t) i = max (top hash s i) (top hash t i) := by
  rw [top, Finset.filter_union, Finset.sup_union]
  rfl

theorem top_singleton : top hash {x} i = if bucket hash x = i then rankOf hash x else 0 := by
  rw [top, Finset.filter_singleton]
  split
  · rw [Finset.sup_singleton]
  · rfl

/-- The registers of a set of elements. -/
def ofSet (hash : Bytes → UInt64) (s : Finset Bytes) : HyperLogLog :=
  ⟨(List.range hllRegisters).map fun i => UInt8.ofNat (top hash s i), by rw [List.length_map, List.length_range]⟩

theorem reg_ofSet (hi : i < hllRegisters) : (ofSet hash s).reg i = top hash s i := by
  have hlen : i < ((List.range hllRegisters).map fun i => UInt8.ofNat (top hash s i)).length := by
    rwa [List.length_map, List.length_range]
  have hreg : (ofSet hash s).registers.getD i 0 = UInt8.ofNat (top hash s i) := by
    rw [ofSet, List.getD_eq_getElem _ _ hlen, List.getElem_map, List.getElem_range]
  rw [reg, hreg, UInt8.toNat_ofNat_of_lt' top_lt]

theorem ofSet_empty : ofSet hash ∅ = new := by
  refine ext_reg fun i hi => ?_
  rw [reg_ofSet hi, reg_new]
  rfl

/-- **Merging** is the union. -/
theorem merge_ofSet : (ofSet hash s).merge (ofSet hash t) = ofSet hash (s ∪ t) := by
  refine ext_reg fun i hi => ?_
  rw [reg_merge hi, reg_ofSet hi, reg_ofSet hi, reg_ofSet hi, top_union]

theorem addWith_ofSet : ((ofSet hash s).addWith hash x).1 = ofSet hash (s ∪ {x}) := by
  refine ext_reg fun i hi => ?_
  rw [reg_addWith hi, reg_ofSet hi, reg_ofSet hi, top_union, top_singleton]

theorem le_reg_foldl (elements : List Bytes) (st : HyperLogLog × Bool) (hi : i < hllRegisters) :
    st.1.reg i ≤ (elements.foldl
      (fun st e => ((st.1.addWith hash e).1, st.2 || (st.1.addWith hash e).2)) st).1.reg i := by
  induction elements generalizing st with
  | nil => exact le_refl _
  | cons x elements ih =>
      refine le_trans ?_ (ih _)
      rw [reg_addWith hi]
      exact le_max_left _ _

/-- What is lower in a register stays different. -/
theorem foldl_changed (elements : List Bytes) (st : HyperLogLog × Bool) :
    (elements.foldl (fun st e => ((st.1.addWith hash e).1, st.2 || (st.1.addWith hash e).2)) st).2 = true ↔
      st.2 = true ∨
        (elements.foldl (fun st e => ((st.1.addWith hash e).1, st.2 || (st.1.addWith hash e).2)) st).1 ≠ st.1 := by
  induction elements generalizing st with
  | nil => simp
  | cons x elements ih =>
      rw [List.foldl_cons, ih, Bool.or_eq_true, or_assoc]
      refine or_congr_right ?_
      rw [addWith_changed]
      by_cases hsame : (st.1.addWith hash x).1 = st.1
      · simp [hsame]
      · refine iff_of_true (Or.inl hsame) fun heq => hsame ?_
        refine ext_reg fun i hi => le_antisymm ?_ ?_
        · exact (le_reg_foldl elements ((st.1.addWith hash x).1, st.2 || (st.1.addWith hash x).2) hi).trans
            (le_of_eq (congrArg (fun h => reg h i) heq))
        · rw [reg_addWith hi]
          exact le_max_left _ _

theorem addAllWith_changed (elements : List Bytes) :
    (a.addAllWith hash elements).2 = true ↔ (a.addAllWith hash elements).1 ≠ a := by
  rw [addAllWith, foldl_changed]
  simp

/-- **Adding** elements is adding them to the set, in whatever order and as often as they come. -/
theorem addAllWith_ofSet (elements : List Bytes) :
    ((ofSet hash s).addAllWith hash elements).1 = ofSet hash (s ∪ elements.toFinset) := by
  have hfold (st : HyperLogLog × Bool) (hst : st.1 = ofSet hash s) :
      (elements.foldl (fun st e => ((st.1.addWith hash e).1, st.2 || (st.1.addWith hash e).2)) st).1 =
        ofSet hash (s ∪ elements.toFinset) := by
    induction elements generalizing st s with
    | nil => simpa using hst
    | cons x elements ih =>
        rw [List.foldl_cons, List.toFinset_cons, Finset.insert_eq, ← Finset.union_assoc]
        refine ih _ ?_
        dsimp only
        rw [hst, addWith_ofSet]
  exact hfold _ rfl

end HyperLogLog

/-! ### Commands -/

open HyperLogLog

variable {S : Type} {e : Env} {d : DB S} {hash : Bytes → UInt64}

/-- `PFADD`, with any hash function. -/
def pfAddWith (hash : Bytes → UInt64) (key : Bytes) (elements : List Bytes) : Op S ℤ := do
  let key := encodeKey key
  lockKey key
  requireType key .hyperloglog fun _ => do
    let registers ← Program.query (selectRegisters key)
    let hll := (registers.elim HyperLogLog.new HyperLogLog.fromBytes).addAllWith hash elements
    setMeta key .hyperloglog none
    Program.query (upsertRegisters key hll.1)
    pure (if hll.2 then 1 else 0)

/-- The commands that write HyperLogLogs. -/
inductive SketchCmd
  | add (key : Bytes) (elements : List Bytes)
  | merge (destKey : Bytes) (sourceKeys : List Bytes)

namespace SketchCmd

def op (hash : Bytes → UInt64) : SketchCmd → Op S (Reply S)
  | add key elements => .int <$> pfAddWith hash key elements
  | merge destKey sourceKeys => (fun _ => .ok) <$> pfMerge destKey sourceKeys

/-- One command, alone, in its own transaction. -/
def exec (hash : Bytes → UInt64) (e : Env) (c : SketchCmd) (d : DB S) : Except Failure (Reply S) × DB S :=
  match (c.op hash).eval e (Tx.clean d) with
  | (.ok r, tx) => if tx.aborted then (.error commitRollback, d) else (.ok r, tx.view)
  | (.error f, _) => (.error f, d)

theorem exec_of_total {c : SketchCmd} {r : Reply S} {d' : DB S}
    (h : total e (c.op hash) (fun r' d'' => r' = r ∧ d'' = d') d) : c.exec hash e d = (.ok r, d') := by
  obtain ⟨r', d'', heval, rfl, rfl⟩ := total_sound h
  rw [exec, heval]
  rfl

/-- The command of the server. -/
def cmd : SketchCmd → Cmd S
  | add key elements => .pfAdd key elements
  | merge destKey sourceKeys => .pfMerge destKey sourceKeys

/-- The commands of the server are those with its hash function. -/
theorem exec_murmur64 [Float64 S] (c : SketchCmd) (e : Env) (d : DB S) : c.exec murmur64 e d = c.cmd.exec e d := by
  have hop : (c.op murmur64 : Op S (Reply S)) = c.cmd.op := by cases c <;> rfl
  have hpooled : (c.cmd : Cmd S).pooled = false := by cases c <;> rfl
  rw [exec, Cmd.exec, hop, hpooled]
  rcases c.cmd.op.eval e (Tx.clean d) with ⟨r | f, tx⟩
  · rfl
  · simp

/-- The stored names of the keys of a command. -/
def keys : SketchCmd → List Bytes
  | add key _ => [encodeKey key]
  | merge destKey sourceKeys => encodeKey destKey :: encodeKeys sourceKeys

/-- The elements that each key has received, directly or through merges. -/
def received (m : Bytes → Finset Bytes) : SketchCmd → Bytes → Finset Bytes
  | add key elements => Function.update m (encodeKey key) (m (encodeKey key) ∪ elements.toFinset)
  | merge destKey sourceKeys =>
      Function.update m (encodeKey destKey) (m (encodeKey destKey) ∪ (encodeKeys sourceKeys).toFinset.biUnion m)

end SketchCmd

/-! ### What is stored -/

/-- The registers of a key; a key without any has the empty ones. -/
def registersOf (d : DB S) (k : Bytes) : HyperLogLog :=
  ((d.rows .kvHyperloglog k).row ()).elim HyperLogLog.new fun r => HyperLogLog.fromBytes r.val

/-- The key is absent and has received nothing, or holds the registers of what it has received, without an expiry. -/
def Sketch (hash : Bytes → UInt64) (d : DB S) (k : Bytes) (s : Finset Bytes) : Prop :=
  (d.rows .kvMeta k = ∅ ∧ d.rows .kvHyperloglog k = ∅ ∧ s = ∅) ∨
    (d.rows .kvMeta k = Table.single () ⟨.hyperloglog, none⟩ ∧
      d.rows .kvHyperloglog k = Table.single () ⟨(ofSet hash s).registers, none⟩)

/-- The database after the registers of a key were written. -/
def writeSketch (d : DB S) (k : Bytes) (hll : HyperLogLog) : DB S :=
  (d.setRows .kvMeta k (Table.single () ⟨.hyperloglog, none⟩)).setRows .kvHyperloglog k
    (Table.single () ⟨hll.registers, none⟩)

section stored
variable {k : Bytes} {s : Finset Bytes} {now : Time}

theorem live_single (registers : Bytes) :
    (live now (Table.single () ⟨registers, none⟩ : Table Unit (Row S .kvHyperloglog))).row () = some registers := rfl

theorem Sketch.registersOf_eq (h : Sketch hash d k s) : registersOf d k = ofSet hash s := by
  rcases h with ⟨-, hrows, rfl⟩ | ⟨-, hrows⟩
  · rw [registersOf, hrows, ofSet_empty]
    rfl
  · rw [registersOf, hrows, Table.single_unit_row, Option.elim_some, fromBytes_registers]

theorem Sketch.liveType_eq (h : Sketch hash d k s) :
    liveType now d k = none ∨ liveType now d k = some .hyperloglog := by
  rcases h with ⟨hmeta, -⟩ | ⟨hmeta, -⟩
  · rw [liveType, hmeta]
    exact Or.inl rfl
  · rw [liveType, hmeta]
    exact Or.inr rfl

/-- The bytes that are read are all of the row, or none. -/
theorem Sketch.read {β : Type} (h : Sketch hash d k s) (none' : β) (some' : HyperLogLog → β)
    (hnone : s = ∅ → none' = some' HyperLogLog.new) :
    ((live now (d.rows .kvHyperloglog k)).row ()).elim none' (fun r => some' (HyperLogLog.fromBytes r)) =
      some' (ofSet hash s) := by
  rcases h with ⟨-, hrows, rfl⟩ | ⟨-, hrows⟩
  · rw [hrows, ofSet_empty]
    exact hnone rfl
  · rw [hrows, live_single, Option.elim_some, fromBytes_registers]

theorem sketch_writeSketch : Sketch hash (writeSketch d k (ofSet hash s)) k s := by
  refine Or.inr ⟨?_, Store.rows_setRows_self ..⟩
  rw [writeSketch, Store.rows_setRows_of_ne_table _ (by decide), Store.rows_setRows_self]

theorem sketch_writeSketch_of_ne {k' : Bytes} {hll : HyperLogLog} (hk : k' ≠ k) :
    Sketch hash (writeSketch d k hll) k' s ↔ Sketch hash d k' s := by
  rw [Sketch, writeSketch, Store.rows_setRows_of_ne_key _ _ _ hk, Store.rows_setRows_of_ne_key _ _ _ hk,
    Store.rows_setRows_of_ne_key _ _ _ hk, Store.rows_setRows_of_ne_key _ _ _ hk]
  rfl

/-- Writing over a row without an expiry, or none. -/
theorem Sketch.putOr_eq (h : Sketch hash d k s) (hll : HyperLogLog) :
    putOr .kvHyperloglog (d.rows .kvHyperloglog k) () ⟨hll.registers, none⟩ (fun r => ⟨hll.registers, r.expiresAt⟩) =
      Table.single () ⟨hll.registers, none⟩ := by
  rcases h with ⟨-, hrows, -⟩ | ⟨-, hrows⟩
  · rw [hrows]
    rfl
  · rw [hrows]
    rfl

theorem Sketch.total_pfAddWith {key : Bytes} (h : Sketch hash d (encodeKey key) s) (elements : List Bytes)
    {Q : ℤ → DB S → Prop} :
    total e (pfAddWith hash key elements) Q d ↔
      Q (if ((ofSet hash s).addAllWith hash elements).2 then 1 else 0)
        (writeSketch d (encodeKey key) (ofSet hash (s ∪ elements.toFinset))) := by
  rw [pfAddWith, total_bind, total_lockKey, total_requireType, and_iff_right h.liveType_eq, total_bind, total_query,
    selectRegisters, totalSql_selectLive, total_bind, total_setMeta, total_bind, total_query, upsertRegisters,
    totalSql_upsertRow, Store.rows_setRows_of_ne_table _ (by decide), h.putOr_eq]
  have hread : ((live e.now (d.rows .kvHyperloglog (encodeKey key))).row ()).elim HyperLogLog.new
      HyperLogLog.fromBytes = ofSet hash s := h.read HyperLogLog.new id fun _ => rfl
  rw [hread, addAllWith_ofSet]
  exact Iff.rfl

/-- Merging what absent keys hold changes nothing. -/
theorem merge_new (t : Finset Bytes) : (ofSet hash t).merge HyperLogLog.new = ofSet hash t := by
  have hnew : HyperLogLog.new = ofSet hash ∅ := ofSet_empty.symm
  rw [hnew, merge_ofSet, Finset.union_empty]

variable {m : Bytes → Finset Bytes}

theorem total_pfMergeLoop {ks : List Bytes} (h : ∀ k ∈ ks, Sketch hash d k (m k)) (t : Finset Bytes)
    {Q : HyperLogLog → DB S → Prop} :
    total e (pfMergeLoop (ofSet hash t) ks) Q d ↔ Q (ofSet hash (t ∪ ks.toFinset.biUnion m)) d := by
  induction ks generalizing t with
  | nil =>
      rw [List.toFinset_nil, Finset.biUnion_empty, Finset.union_empty]
      exact Iff.rfl
  | cons k ks ih =>
      rw [List.forall_mem_cons] at h
      have hread : ((live e.now (d.rows .kvHyperloglog k)).row ()).elim (ofSet hash t)
          (fun r => (ofSet hash t).merge (HyperLogLog.fromBytes r)) = (ofSet hash t).merge (ofSet hash (m k)) :=
        h.1.read _ (fun hll => (ofSet hash t).merge hll) fun _ => (merge_new t).symm
      rw [pfMergeLoop, total_bind, total_query, selectRegisters, totalSql_selectLive, hread, merge_ofSet, ih h.2,
        List.toFinset_cons, Finset.biUnion_insert, Finset.union_assoc]

theorem total_pfMerge {destKey : Bytes} {sourceKeys : List Bytes} (hdest : Sketch hash d (encodeKey destKey) s)
    (hsources : ∀ k ∈ encodeKeys sourceKeys, Sketch hash d k (m k)) {Q : Unit → DB S → Prop} :
    total e (pfMerge destKey sourceKeys) Q d ↔
      Q () (writeSketch d (encodeKey destKey) (ofSet hash (s ∪ (encodeKeys sourceKeys).toFinset.biUnion m))) := by
  have hread : ((live e.now (d.rows .kvHyperloglog (encodeKey destKey))).row ()).elim HyperLogLog.new
      HyperLogLog.fromBytes = ofSet hash s := hdest.read HyperLogLog.new id fun _ => rfl
  rw [pfMerge, total_bind, total_lockKeys, total_requireType, and_iff_right hdest.liveType_eq, total_bind, total_query,
    selectRegisters, totalSql_selectLive, hread, total_bind, total_pfMergeLoop hsources, total_bind, total_setMeta,
    total_query, upsertRegisters, totalSql_upsertRow, Store.rows_setRows_of_ne_table _ (by decide), hdest.putOr_eq]
  exact Iff.rfl

variable [Float64 S]

/-- Of several keys the merged registers are counted. -/
theorem exec_pfCount {ks : List Bytes} (hks : 2 ≤ ks.length) (h : ∀ k ∈ encodeKeys ks, Sketch hash d k (m k)) :
    (Cmd.pfCount ks : Cmd S).exec e d =
      (.ok (.int (Float64.hllCount S (ofSet hash ((encodeKeys ks).toFinset.biUnion m)).registers)), d) := by
  refine Cmd.exec_eq_of_total ?_
  rcases ks with _ | ⟨k₁, _ | ⟨k₂, ks⟩⟩
  · exact absurd hks (Nat.not_succ_le_zero _)
  · exact absurd hks (Nat.not_succ_le_self _)
  · have hcons : encodeKeys (k₁ :: k₂ :: ks) = encodeKey k₁ :: encodeKey k₂ :: encodeKeys ks := rfl
    rw [Cmd.op, total_map, pfCount, hcons]
    rw [hcons] at h
    have hnew : HyperLogLog.new = ofSet hash ∅ := ofSet_empty.symm
    dsimp only
    rw [total_bind, hnew, total_pfMergeLoop h, Finset.empty_union]
    exact ⟨rfl, rfl⟩

/-- Of one key the stored registers are. -/
theorem exec_pfCount_one (key : Bytes) (hll : HyperLogLog) :
    (Cmd.pfCount [key] : Cmd S).exec e (writeSketch d (encodeKey key) hll) =
      (.ok (.int (Float64.hllCount S hll.registers)), writeSketch d (encodeKey key) hll) := by
  refine Cmd.exec_eq_of_total ?_
  have hrows : (writeSketch d (encodeKey key) hll).rows .kvHyperloglog (encodeKey key) =
      Table.single () ⟨hll.registers, none⟩ := Store.rows_setRows_self ..
  have hcons : encodeKeys [key] = [encodeKey key] := rfl
  rw [Cmd.op, total_map, pfCount, hcons]
  dsimp only
  rw [total_bind, total_query, selectRegisters, totalSql_selectLive, hrows, live_single, Option.elim_some,
    fromBytes_registers]
  exact ⟨rfl, rfl⟩

end stored

/-! ### Runs -/

section runs
variable {K : Set Bytes} {m : Bytes → Finset Bytes}

/-- Every key of `K` holds what it has received. -/
def Sketches (hash : Bytes → UInt64) (K : Set Bytes) (d : DB S) (m : Bytes → Finset Bytes) : Prop :=
  ∀ k ∈ K, Sketch hash d k (m k)

theorem Sketches.write (h : Sketches hash K d m) (k : Bytes) (s : Finset Bytes) :
    Sketches hash K (writeSketch d k (ofSet hash s)) (Function.update m k s) := by
  intro k' hk'
  by_cases hk : k' = k
  · subst hk
    rw [Function.update_self]
    exact sketch_writeSketch
  · rw [Function.update_of_ne hk, sketch_writeSketch_of_ne hk]
    exact h k' hk'

theorem Sketches.exec_add (h : Sketches hash K d m) {key : Bytes} (hkey : encodeKey key ∈ K) (elements : List Bytes) :
    (SketchCmd.add key elements).exec hash e d =
      (.ok (.int (if ((ofSet hash (m (encodeKey key))).addAllWith hash elements).2 then 1 else 0)),
        writeSketch d (encodeKey key) (ofSet hash (m (encodeKey key) ∪ elements.toFinset))) := by
  refine SketchCmd.exec_of_total ?_
  rw [SketchCmd.op, total_map, (h _ hkey).total_pfAddWith]
  exact ⟨rfl, rfl⟩

theorem Sketches.exec_merge (h : Sketches hash K d m) {destKey : Bytes} {sourceKeys : List Bytes}
    {s : Finset Bytes} (hdest : Sketch hash d (encodeKey destKey) s) (hsources : ∀ k ∈ encodeKeys sourceKeys, k ∈ K) :
    (SketchCmd.merge destKey sourceKeys).exec hash e d = (.ok .ok,
      writeSketch d (encodeKey destKey) (ofSet hash (s ∪ (encodeKeys sourceKeys).toFinset.biUnion m))) := by
  refine SketchCmd.exec_of_total ?_
  rw [SketchCmd.op, total_map, total_pfMerge hdest fun k hk => h k (hsources k hk)]
  exact ⟨rfl, rfl⟩

/-- **One command** keeps the registers those of the elements received. -/
theorem Sketches.step (h : Sketches hash K d m) (e : Env) (c : SketchCmd) (hc : ∀ k ∈ c.keys, k ∈ K) :
    Sketches hash K (c.exec hash e d).2 (c.received m) := by
  cases c with
  | add key elements =>
      rw [h.exec_add (hc _ (List.mem_singleton_self _))]
      exact h.write _ _
  | merge destKey sourceKeys =>
      obtain ⟨hdest, hsources⟩ := List.forall_mem_cons.mp hc
      rw [h.exec_merge (h _ hdest) hsources]
      exact h.write _ _

/-- The database after a sequence of commands, each in its environment. -/
def sketchRun (hash : Bytes → UInt64) (run : List (Env × SketchCmd)) (d : DB S) : DB S :=
  run.foldl (fun d p => (p.2.exec hash p.1 d).2) d

/-- The elements that each key has received in the run. -/
def receivedIn (run : List (Env × SketchCmd)) : Bytes → Finset Bytes :=
  run.foldl (fun m p => p.2.received m) fun _ => ∅

/-- **Every run** does. -/
theorem Sketches.run {run : List (Env × SketchCmd)} (hrun : ∀ p ∈ run, ∀ k ∈ p.2.keys, k ∈ K)
    (h : Sketches hash K d m) :
    Sketches hash K (sketchRun hash run d) (run.foldl (fun m p => p.2.received m) m) := by
  induction run generalizing d m with
  | nil => exact h
  | cons p run ih =>
      rw [List.forall_mem_cons] at hrun
      exact ih hrun.2 (h.step p.1 p.2 hrun.1)

/-- What holds of the registers in a state: they are those of the elements received; `PFADD` replies 1 exactly when
it changes one; `PFMERGE` makes them those of the union; several keys are counted as a fresh key merged from them is,
whatever their order and repetition; and the bytes are as good as the registers. -/
structure SketchLaws [Float64 S] (hash : Bytes → UInt64) (K : Set Bytes) (d : DB S) (m : Bytes → Finset Bytes) :
    Prop where
  stored : ∀ k ∈ K, registersOf d k = ofSet hash (m k)
  add : ∀ e key elements, encodeKey key ∈ K → ∃ n d',
    (SketchCmd.add key elements).exec hash e d = (.ok (.int n), d') ∧ (n = 0 ∨ n = 1) ∧
      (n = 1 ↔ registersOf d' (encodeKey key) ≠ registersOf d (encodeKey key))
  merge : ∀ e destKey sourceKeys, (∀ k ∈ (SketchCmd.merge destKey sourceKeys).keys, k ∈ K) → ∃ d',
    (SketchCmd.merge destKey sourceKeys).exec hash e d = (.ok .ok, d') ∧
      registersOf d' (encodeKey destKey) =
        ofSet hash (m (encodeKey destKey) ∪ (encodeKeys sourceKeys).toFinset.biUnion m)
  count : ∀ (e₁ e₂ e₃ : Env) (fresh : Bytes) (ks ks' : List Bytes),
    d.rows .kvMeta (encodeKey fresh) = ∅ → d.rows .kvHyperloglog (encodeKey fresh) = ∅ →
    2 ≤ ks.length → (∀ k ∈ encodeKeys ks, k ∈ K) → (∀ k, k ∈ encodeKeys ks' ↔ k ∈ encodeKeys ks) → ∃ n d',
      (SketchCmd.merge fresh ks').exec hash e₁ d = (.ok .ok, d') ∧
        ((Cmd.pfCount [fresh] : Cmd S).exec e₂ d').1 = .ok (.int n) ∧
        ((Cmd.pfCount ks : Cmd S).exec e₃ d).1 = .ok (.int n)
  serialized : ∀ hll : HyperLogLog, HyperLogLog.fromBytes hll.registers = hll

variable [Float64 S]

theorem Sketches.laws (h : Sketches hash K d m) : SketchLaws hash K d m where
  stored k hk := (h k hk).registersOf_eq
  add e key elements hkey := by
    refine ⟨_, _, h.exec_add hkey elements, ?_, ?_⟩
    · split
      · exact Or.inr rfl
      · exact Or.inl rfl
    · rw [sketch_writeSketch.registersOf_eq, (h _ hkey).registersOf_eq, ← addAllWith_ofSet, ← addAllWith_changed]
      simp
  merge e destKey sourceKeys hkeys := by
    obtain ⟨hdest, hsources⟩ := List.forall_mem_cons.mp hkeys
    exact ⟨_, h.exec_merge (h _ hdest) hsources, sketch_writeSketch.registersOf_eq⟩
  count e₁ e₂ e₃ fresh ks ks' hmeta hrows hlen hks hsame := by
    have hsources : ∀ k ∈ encodeKeys ks', k ∈ K := fun k hk => hks k ((hsame k).mp hk)
    have hset : (encodeKeys ks').toFinset = (encodeKeys ks).toFinset := by
      ext k
      rw [List.mem_toFinset, List.mem_toFinset, hsame]
    have hmerge := h.exec_merge (e := e₁) (Or.inl ⟨hmeta, hrows, rfl⟩) hsources
    rw [Finset.empty_union, hset] at hmerge
    refine ⟨Float64.hllCount S (ofSet hash ((encodeKeys ks).toFinset.biUnion m)).registers, _, hmerge, ?_, ?_⟩
    · rw [exec_pfCount_one]
    · rw [exec_pfCount hlen fun k hk => h k (hks k hk)]
  serialized := fromBytes_registers

/-- **HyperLogLogs are functions of sets**: for every hash function, after every sequence of `PFADD` and `PFMERGE` on
keys that were absent before. -/
theorem sketch_laws (hash : Bytes → UInt64) (K : Set Bytes) (d : DB S)
    (hK : ∀ k ∈ K, d.rows .kvMeta k = ∅ ∧ d.rows .kvHyperloglog k = ∅) (run : List (Env × SketchCmd))
    (hrun : ∀ p ∈ run, ∀ k ∈ p.2.keys, k ∈ K) : SketchLaws hash K (sketchRun hash run d) (receivedIn run) := by
  have hstart : Sketches hash K d fun _ => ∅ := fun k hk => Or.inl ⟨(hK k hk).1, (hK k hk).2, rfl⟩
  exact (hstart.run hrun).laws

end runs

/-- `PFADD k a b`, `PFMERGE l k` on an empty database. -/
theorem sketch_laws_merge :
    SketchLaws murmur64 {encodeKey [107], encodeKey [108]} (sketchRun murmur64
        [(envAt 0, .add [107] [[97], [98]]), (envAt 1, .merge [108] [[107]])] (emptyDB : DB ℤ))
      (receivedIn [(envAt 0, .add [107] [[97], [98]]), (envAt 1, .merge [108] [[107]])]) := by
  refine sketch_laws murmur64 _ emptyDB (fun k _ => ⟨rows_emptyDB _ _, rows_emptyDB _ _⟩) _ ?_
  simp [SketchCmd.keys, encodeKeys]

end Postkeys
