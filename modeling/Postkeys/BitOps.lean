import Postkeys.Handlers.Strings
import Postkeys.StringValue

/-! # `BITOP`

`bitop_law`: the destination of `BITOP` gets the length of the longest source, and each of its bits is
the operation on the bits the sources had at that position before the command.  The sources are all
read before the destination is replaced, so it may be one of them. -/

namespace Postkeys

open Relational Program Bitstring

variable {S : Type} {e : Env} {d : DB S} {operation : BitOperation}

/-! ### Operations on bits -/

/-- An operation on the bits of the sources at one position. -/
def BitOperation.onBits : BitOperation → List Bool → Bool
  | .and, bits => bits.all id
  | .or, bits => bits.any id
  | .xor, bits => bits.foldl Bool.xor false
  | .not, bits => !bits.headD false
  | .other _, _ => false

theorem length_padTo {n : ℕ} {v : Bytes} (h : v.length ≤ n) : (padTo n v).length = n := by
  rw [padTo, List.length_append, List.length_replicate]
  omega

@[simp] theorem bit_padTo (n : ℕ) (v : Bytes) (p : ℕ) : bit (padTo n v) p = bit v p := bit_append_zeros v _ p

/-- Folding a bytewise operation over strings of one length. -/
theorem foldl_zipWith {f : UInt8 → UInt8 → UInt8} {g : Bool → Bool → Bool} (hg : g false false = false)
    (hf : ∀ a b i, (f a b).toNat.testBit i = g (a.toNat.testBit i) (b.toNat.testBit i)) {n : ℕ}
    (vs : List Bytes) (hvs : ∀ v ∈ vs, v.length = n) (acc : Bytes) (hacc : acc.length = n) :
    (vs.foldl (List.zipWith f) acc).length = n ∧
      ∀ p, bit (vs.foldl (List.zipWith f) acc) p = (vs.map (bit · p)).foldl g (bit acc p) := by
  induction vs generalizing acc with
  | nil => exact ⟨hacc, fun _ => rfl⟩
  | cons v vs ih =>
      have hv : acc.length = v.length := hacc.trans (hvs v (List.mem_cons_self ..)).symm
      have hlen : (List.zipWith f acc v).length = n := by rw [List.length_zipWith]; omega
      obtain ⟨hlength, hbits⟩ := ih (fun w hw => hvs w (List.mem_cons_of_mem v hw)) _ hlen
      refine ⟨hlength, fun p => ?_⟩
      rw [List.foldl_cons, hbits p, bit_zipWith hg hf hv, List.map_cons, List.foldl_cons]

theorem testBit_and (a b : UInt8) (i : ℕ) :
    (a &&& b).toNat.testBit i = and (a.toNat.testBit i) (b.toNat.testBit i) := by
  rw [UInt8.toNat_and, Nat.testBit_and]

theorem testBit_or (a b : UInt8) (i : ℕ) :
    (a ||| b).toNat.testBit i = or (a.toNat.testBit i) (b.toNat.testBit i) := by
  rw [UInt8.toNat_or, Nat.testBit_or]

theorem testBit_xor (a b : UInt8) (i : ℕ) :
    (a ^^^ b).toNat.testBit i = Bool.xor (a.toNat.testBit i) (b.toNat.testBit i) := by
  rw [UInt8.toNat_xor, Nat.testBit_xor]

theorem foldl_and (bits : List Bool) (b : Bool) : bits.foldl and b = (b && bits.all id) := by
  induction bits generalizing b with
  | nil => simp
  | cons c bits ih => rw [List.foldl_cons, ih, List.all_cons, id, Bool.and_assoc]

theorem foldl_or (bits : List Bool) (b : Bool) : bits.foldl or b = (b || bits.any id) := by
  induction bits generalizing b with
  | nil => simp
  | cons c bits ih => rw [List.foldl_cons, ih, List.any_cons, id, Bool.or_assoc]

/-- The length of the longest string. -/
def longest (values : List Bytes) : ℕ := (values.map List.length).foldl max 0

theorem length_le_longest {values : List Bytes} {v : Bytes} (hv : v ∈ values) : v.length ≤ longest values := by
  have hmax (l : List ℕ) (m x : ℕ) (h : x ≤ m ∨ x ∈ l) : x ≤ l.foldl max m := by
    induction l generalizing m with
    | nil => exact h.resolve_right List.not_mem_nil
    | cons y l ih =>
        refine ih (max m y) ?_
        rcases h with hm | hmem
        · exact Or.inl (hm.trans (le_max_left m y))
        · rcases List.mem_cons.mp hmem with rfl | hl
          · exact Or.inl (le_max_right m x)
          · exact Or.inr hl
  exact hmax _ 0 _ (Or.inr (List.mem_map_of_mem hv))

/-- **What `BITOP` computes**: a string of the greatest length, and bit by bit the operation. -/
theorem bitOpBytes_spec (values : List Bytes)
    (hop : ∀ name, operation ≠ .other name) (hne : values ≠ []) (hnot : operation = .not → values.length = 1) :
    ∃ result, bitOpBytes operation values = .ok result ∧ result.length = longest values ∧
      ∀ p < 8 * longest values, bit result p = operation.onBits (values.map (bit · p)) := by
  have hpadded (vs : List Bytes) (hvs : ∀ v ∈ vs, v ∈ values) :
      ∀ v ∈ vs.map (padTo (longest values)), v.length = longest values := by
    intro w hw
    obtain ⟨v, hv, rfl⟩ := List.mem_map.mp hw
    exact length_padTo (length_le_longest (hvs v hv))
  have hbits (vs : List Bytes) (p : ℕ) :
      (vs.map (padTo (longest values))).map (bit · p) = vs.map (bit · p) := by
    rw [List.map_map]
    exact List.map_congr_left fun v _ => bit_padTo _ v p
  have hzeros : (List.replicate (longest values) (0 : UInt8)).length = longest values := List.length_replicate
  have hall : ∀ v ∈ values, v ∈ values := fun v hv => hv
  match operation with
  | .and =>
      obtain ⟨v, vs, rfl⟩ := List.exists_cons_of_ne_nil hne
      obtain ⟨hlen, hbit⟩ := foldl_zipWith rfl testBit_and
        (vs.map (padTo (longest (v :: vs)))) (hpadded vs fun w hw => List.mem_cons_of_mem v hw)
        (padTo (longest (v :: vs)) v) (length_padTo (length_le_longest (List.mem_cons_self ..)))
      refine ⟨_, rfl, hlen, fun p _ => ?_⟩
      exact (hbit p).trans (by rw [hbits, foldl_and, bit_padTo]; rfl)
  | .or =>
      obtain ⟨hlen, hbit⟩ := foldl_zipWith rfl testBit_or _ (hpadded values hall) _ hzeros
      refine ⟨_, rfl, hlen, fun p _ => ?_⟩
      exact (hbit p).trans (by rw [hbits, foldl_or, bit_zeros, Bool.false_or]; rfl)
  | .xor =>
      obtain ⟨hlen, hbit⟩ := foldl_zipWith rfl testBit_xor _ (hpadded values hall)
        _ hzeros
      refine ⟨_, rfl, hlen, fun p _ => ?_⟩
      exact (hbit p).trans (by rw [hbits, bit_zeros]; rfl)
  | .not =>
      obtain ⟨v, rfl⟩ := List.length_eq_one_iff.mp (hnot rfl)
      have hlen : (padTo (longest [v]) v).length = longest [v] :=
        length_padTo (length_le_longest (List.mem_singleton_self v))
      refine ⟨_, rfl, (List.length_map _).trans hlen, fun p hp => ?_⟩
      have hlt : p / 8 < (padTo (longest [v]) v).length := by rw [hlen]; omega
      exact (bit_complement hlt).trans (by rw [bit_padTo]; rfl)
  | .other name => exact absurd rfl (hop name)

/-! ### The command -/

theorem total_selectStrings (ks : List Bytes) {Q : List Bytes → DB S → Prop} :
    total e (selectStrings ks) Q d ↔ Q (ks.map fun k => (liveString e.now d k).getD []) d := by
  induction ks generalizing Q with
  | nil => exact Iff.rfl
  | cons k ks ih =>
      rw [selectStrings, total_bind, total_query, totalSql_selectString, total_bind, ih]
      rfl

/-- The destination afterwards: nothing but the string. -/
theorem liveString_replace (k v : Bytes) (now : Time) :
    liveString now (writeString (d.dropKey k) k v) k = some v := by
  refine liveString_writeString v ?_
  rintro ⟨r, hr, -⟩
  rw [Store.rows_dropKey_self] at hr
  cases hr

theorem rows_replace {k k' : Bytes} (h : k' ≠ k) (v : Bytes) (t : Tab) :
    (writeString (d.dropKey k) k v).rows t k' = d.rows t k' := by
  rw [writeString, Store.rows_setRows_of_ne_key _ _ _ h, Store.rows_setRows_of_ne_key _ _ _ h,
    Store.rows_dropKey_of_ne _ _ h]

theorem exec_bitOp [Float64 S] (destKey : Bytes) {keys : List Bytes}
    {result : Bytes} (hkeys : keys ≠ [])
    (hresult : bitOpBytes operation (keys.map (stringOf e.now d)) = .ok result) :
    (Cmd.bitOp operation destKey keys : Cmd S).exec e d =
      (.ok (.int result.length), writeString (d.dropKey (encodeKey destKey)) (encodeKey destKey) result) := by
  refine Cmd.exec_eq_of_total ?_
  have hvalues : (encodeKeys keys).map (fun k => (liveString e.now d k).getD []) =
      keys.map (stringOf e.now d) := by
    rw [encodeKeys, List.map_map]
    rfl
  have hne : ¬ encodeKeys keys = [] := fun h => hkeys (List.map_eq_nil_iff.mp h)
  rw [Cmd.op, total_map, Postkeys.bitOp, if_neg hne, total_bind, total_selectStrings, hvalues, hresult]
  simp only [total_bind, total_deleteKeyFromAllTables, total_query, total_write]
  exact ⟨rfl, rfl⟩

theorem bitopOp_eq [GoFloat S] {opArg destKey key : Bytes} {keys : List Bytes}
    (hop : Handlers.bitOperation (toUpper opArg) = some operation)
    (hnot : operation = .not → keys = []) :
    (Handlers.bitopOp (opArg :: destKey :: key :: keys) : Proc S) =
      Proc.answerTyped (.bitOp operation destKey (key :: keys)) := by
  rw [Handlers.bitopOp, hop]
  exact if_neg fun h => h.2 (hnot h.1)

/-- **The law of `BITOP`**: the destination has the length of the longest source, each of its bits is the
operation on what `GETBIT` answered for the sources, and no other key changes. -/
theorem bitop_law [GoFloat S] (e : Env) (sc : ScriptCache) (d : DB S) (opArg destKey key : Bytes)
    (keys : List Bytes) (operation : BitOperation)
    (hop : Handlers.bitOperation (toUpper opArg) = some operation)
    (hnot : operation = .not → keys = []) :
    let out := (Handlers.bitopOp (opArg :: destKey :: key :: keys) : Proc S).direct e sc d
    let n := longest ((key :: keys).map (stringOf e.now d))
    out.1 = .ok (.int n) ∧ (stringOf e.now out.2.2 destKey).length = n ∧
    (∀ p < 8 * n, ∃ bits : List Bool,
      (key :: keys).map (fun source => getbit e d source p) = bits.map (fun b => .ok (.int b.toNat)) ∧
      getbit e out.2.2 destKey p = .ok (.int (operation.onBits bits).toNat)) ∧
    ∀ t k, k ≠ encodeKey destKey → out.2.2.rows t k = d.rows t k := by
  have hsome (name : String) : operation ≠ .other name := by
    rintro rfl
    unfold Handlers.bitOperation at hop
    split_ifs at hop <;> cases hop
  obtain ⟨result, hresult, hlen, hbits⟩ := bitOpBytes_spec ((key :: keys).map (stringOf e.now d))
    hsome (by simp) fun h => by simp [hnot h]
  have hexec := exec_bitOp destKey (by simp) hresult
  have hdest : stringOf e.now (writeString (d.dropKey (encodeKey destKey)) (encodeKey destKey) result) destKey =
      result := liveString_eq_some (liveString_replace _ _ _)
  rw [bitopOp_eq hop hnot, Proc.direct_answerTyped hexec]
  refine ⟨by rw [← hlen]; rfl, by rw [hdest, hlen], fun p hp => ?_, fun t k hk => rows_replace hk _ t⟩
  refine ⟨(key :: keys).map fun source => bit (stringOf e.now d source) p, ?_, ?_⟩
  · rw [List.map_map]
    exact List.map_congr_left fun source _ => getbit_eq p
  · rw [getbit_eq, hdest, hbits p hp, List.map_map]
    rfl

/-- `BITOP NOT mask mask` on the byte `F0`, the destination being the source. -/
theorem bitop_law_mask :
    ((Handlers.bitopOp [utf8 "not", utf8 "mask", utf8 "mask"] : Proc ℤ).direct (envAt 0) ∅
      (oneString (utf8 "mask") [0xF0])).1 = .ok (.int 1) := by
  have hlaw := (bitop_law (envAt 0) ∅ (oneString (utf8 "mask") [0xF0]) (utf8 "not") (utf8 "mask")
    (utf8 "mask") [] .not (by decide) fun _ => rfl).1
  rwa [List.map_cons, List.map_nil, stringOf_oneString] at hlaw

end Postkeys
