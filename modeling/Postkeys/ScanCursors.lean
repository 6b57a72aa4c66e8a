import Postkeys.Handlers.Sets
import Postkeys.Handlers.SortedSets
import Postkeys.LikePatterns
import Postkeys.SortedRanks

/-! # Iterating with cursors

`SCAN`, `SSCAN` and `ZSCAN` read all elements and answer the part from the cursor on, as many as `COUNT` says;
the next cursor is an index into the list (`page`).  `cursor_iteration_iff` says when following the cursors
from 0 ends and yields every element once, and when a call does not panic: counts must not be negative,
the first one must be positive, and cursor and count must not add up to `2 ^ 63`. -/

namespace Postkeys

open Relational Program

/-! ### Pages -/

section pages
variable {α : Type} {l : List α} {cursor cnt : ℤ}

/-- The next cursor and the elements of a page; `none` where the code panics. -/
def page (l : List α) (cursor cnt : ℤ) : Option (ℤ × List α) :=
  if (l.length : ℤ) ≤ cursor then some (0, [])
  else
    let stop := min (int64 (cursor + cnt)) l.length
    if cursor < 0 ∨ stop < cursor then none
    else some (if (l.length : ℤ) ≤ stop then 0 else stop, (l.take stop.toNat).drop cursor.toNat)

/-- A page that starts within the list. -/
theorem page_within (h0 : 0 ≤ cursor) (hlt : cursor < l.length) (hcnt : 0 ≤ cnt) (hsum : cursor + cnt < 2 ^ 63) :
    page l cursor cnt = some (if (l.length : ℤ) ≤ cursor + cnt then 0 else cursor + cnt,
      (l.drop cursor.toNat).take cnt.toNat) := by
  have hint : int64 (cursor + cnt) = cursor + cnt := int64_eq_self ⟨by omega, hsum⟩
  have hstop : ¬ (cursor < 0 ∨ min (cursor + cnt) (l.length : ℤ) < cursor) := by omega
  rw [page, if_neg (not_le.mpr hlt), hint]
  dsimp only
  rw [if_neg hstop]
  congr 2
  · rcases le_total (l.length : ℤ) (cursor + cnt) with hle | hle
    · rw [min_eq_right hle, if_pos le_rfl, if_pos hle]
    · rw [min_eq_left hle]
  · rw [List.drop_take]
    rcases le_total (l.length : ℤ) (cursor + cnt) with hle | hle
    · rw [List.take_of_length_le (by rw [List.length_drop]; omega), List.take_of_length_le (by rw [List.length_drop]; omega)]
    · congr 1
      omega

/-- **When a page can be taken.** -/
theorem page_isSome_iff (hcursor : InInt64 cursor) (hcnt : InInt64 cnt) : (page l cursor cnt).isSome = true ↔
    (l.length : ℤ) ≤ cursor ∨ 0 ≤ cursor ∧ 0 ≤ cnt ∧ cursor + cnt < 2 ^ 63 := by
  rcases le_or_gt (l.length : ℤ) cursor with hle | hlt
  · rw [page, if_pos hle]
    exact iff_of_true rfl (Or.inl hle)
  · rw [or_iff_right (not_le.mpr hlt)]
    constructor
    · intro h
      rw [page, if_neg (not_le.mpr hlt)] at h
      dsimp only at h
      split at h
      · cases h
      · rename_i hstop
        obtain ⟨hc₀, hc₁⟩ := hcursor
        obtain ⟨hn₀, hn₁⟩ := hcnt
        rw [int64, Int.bmod_def] at hstop
        omega
    · rintro ⟨h0, h1, h2⟩
      rw [page_within h0 hlt h1 h2]
      rfl

theorem page_map {β : Type} (f : α → β) (l : List α) (cursor cnt : ℤ) :
    page (l.map f) cursor cnt = (page l cursor cnt).map fun r => (r.1, r.2.map f) := by
  simp only [page, List.length_map]
  split_ifs <;> simp [List.map_take, List.map_drop]

end pages

/-! ### Following the cursors -/

/-- Following the returned cursors, from call `n` with some cursor on, ends with cursor 0 and yields
these values. -/
inductive Follows (call : ℕ → Bytes → Except String Value) : ℕ → Bytes → List Value → Prop
  | last {n : ℕ} {cursor : Bytes} {xs : List Value} :
      call n cursor = .ok (.arr [.bulkOf (utf8 "0"), .arr xs]) → Follows call n cursor xs
  | more {n : ℕ} {cursor next : Bytes} {xs ys : List Value} :
      call n cursor = .ok (.arr [.bulkOf next, .arr xs]) → next ≠ utf8 "0" → Follows call (n + 1) next ys →
      Follows call n cursor (xs ++ ys)

theorem arr_page_inj {a b : Bytes} {xs ys : List Value}
    (h : (Except.ok (.arr [.bulkOf a, .arr xs]) : Except String Value) = .ok (.arr [.bulkOf b, .arr ys])) :
    a = b ∧ xs = ys := by
  have harray := congrArg Value.array (Except.ok.inj h)
  obtain ⟨hcursor, htail⟩ := List.cons.inj harray
  obtain ⟨hitems, -⟩ := List.cons.inj htail
  exact ⟨congrArg Value.bulk hcursor, congrArg Value.array hitems⟩

variable {n : ℕ}

/-- What an iteration yields is determined by the calls. -/
theorem Follows.unique {call : ℕ → Bytes → Except String Value} {cursor : Bytes} {xs ys : List Value}
    (hx : Follows call n cursor xs) (hy : Follows call n cursor ys) : xs = ys := by
  induction hx generalizing ys with
  | last hcall =>
      cases hy with
      | last hcall' => exact (arr_page_inj (hcall.symm.trans hcall')).2
      | more hcall' hne _ => exact absurd (arr_page_inj (hcall'.symm.trans hcall)).1 hne
  | more hcall hne _ ih =>
      cases hy with
      | last hcall' => exact absurd (arr_page_inj (hcall.symm.trans hcall')).1 hne
      | more hcall' _ hrest' =>
          obtain ⟨rfl, rfl⟩ := arr_page_inj (hcall.symm.trans hcall')
          rw [ih hrest']

/-- The sum of the first `n` counts. -/
def countSum (cnt : ℕ → ℤ) (n : ℕ) : ℤ := ∑ i ∈ Finset.range n, cnt i

/-- The counts with which an iteration over `total` elements is complete. -/
def Completes (total : ℕ) (cnt : ℕ → ℤ) : Prop :=
  total = 0 ∨ 0 < cnt 0 ∧ ∃ n, (total : ℤ) ≤ countSum cnt (n + 1) ∧ ∀ i ≤ n, 0 ≤ cnt i ∧ countSum cnt (i + 1) < 2 ^ 63

theorem formatInt_injective {m n : ℤ} (hm : InInt64 m) (hn : InInt64 n) (h : formatInt m = formatInt n) : m = n := by
  have hparse := parseInt_formatInt hm.1 hm.2
  rw [h, parseInt_formatInt hn.1 hn.2] at hparse
  exact (Option.some.inj hparse).symm

theorem formatInt_zero : formatInt 0 = utf8 "0" := by decide

section iteration
variable {els : List (List Value)} {cnt : ℕ → ℤ} {call : ℕ → Bytes → Except String Value}

/-- Calls that answer the pages of a list of elements, each with the values that stand for it. -/
def Pages (els : List (List Value)) (cnt : ℕ → ℤ) (call : ℕ → Bytes → Except String Value) : Prop :=
  ∀ n c, 0 ≤ c → c < 2 ^ 63 → match page els c (cnt n) with
    | none => ∃ m, call n (formatInt c) = .error m
    | some (next, xs) => call n (formatInt c) = .ok (.arr [.bulkOf (formatInt next), .arr xs.flatten])

theorem countSum_succ (cnt : ℕ → ℤ) (n : ℕ) : countSum cnt (n + 1) = countSum cnt n + cnt n :=
  Finset.sum_range_succ _ _

theorem countSum_pos {cnt : ℕ → ℤ} (h0 : 0 < cnt 0) (h : ∀ i ≤ n, 0 ≤ cnt i) (m : ℕ) (hm : m ≤ n) :
    0 < countSum cnt (m + 1) := by
  induction m with
  | zero =>
      rw [countSum_succ, countSum, Finset.sum_range_zero, zero_add]
      exact h0
  | succ m ih =>
      rw [countSum_succ]
      have hprev := ih (by omega)
      have hnext := h (m + 1) hm
      omega

/-- A call within the list whose count is good. -/
theorem Pages.call_eq (hpages : Pages els cnt call) {c : ℤ} (h0 : 0 ≤ c) (hlt : c < els.length)
    (hcnt : 0 ≤ cnt n) (hsum : c + cnt n < 2 ^ 63) :
    call n (formatInt c) = .ok (.arr [.bulkOf (formatInt (if (els.length : ℤ) ≤ c + cnt n then 0 else c + cnt n)),
      .arr ((els.drop c.toNat).take (cnt n).toNat).flatten]) := by
  have hcall := hpages n c h0 (by omega)
  rwa [page_within h0 hlt hcnt hsum] at hcall

/-- A call within the list that answers has a good count. -/
theorem Pages.good (hpages : Pages els cnt call) {c : ℤ} (h0 : 0 ≤ c) (hc : c < 2 ^ 63)
    (hlt : c < els.length) (hcnt : InInt64 (cnt n)) {v : Value} (h : call n (formatInt c) = .ok v) :
    0 ≤ cnt n ∧ c + cnt n < 2 ^ 63 := by
  have hcall := hpages n c h0 hc
  cases hpage : page els c (cnt n) with
  | none =>
      rw [hpage] at hcall
      obtain ⟨m, hm⟩ := hcall
      rw [hm] at h
      cases h
  | some r =>
      have hsome := (page_isSome_iff (l := els) ⟨by omega, hc⟩ hcnt).mp (by rw [hpage]; rfl)
      exact (hsome.resolve_left (not_le.mpr hlt)).2

/-- With good counts the iteration from call `n - k` on yields the rest. -/
theorem Pages.follows (hpages : Pages els cnt call) (hfirst : 0 < cnt 0)
    (hlast : (els.length : ℤ) ≤ countSum cnt (n + 1)) (hbefore : ∀ i ≤ n, countSum cnt i < els.length)
    (hgood : ∀ i ≤ n, 0 ≤ cnt i ∧ countSum cnt (i + 1) < 2 ^ 63) (k : ℕ) (hk : k ≤ n) :
    Follows call (n - k) (formatInt (countSum cnt (n - k))) (els.drop (countSum cnt (n - k)).toNat).flatten := by
  have hsum_nonneg (m : ℕ) (hm : m ≤ n) : 0 ≤ countSum cnt m :=
    Finset.sum_nonneg fun i hi => (hgood i (by have := Finset.mem_range.mp hi; omega)).1
  have hcall (m : ℕ) (hm : m ≤ n) := hpages.call_eq (n := m) (hsum_nonneg m hm) (hbefore m hm) (hgood m hm).1
    (countSum_succ cnt m ▸ (hgood m hm).2)
  induction k with
  | zero =>
      have hend : (els.length : ℤ) ≤ countSum cnt n + cnt n := countSum_succ cnt n ▸ hlast
      have hcalln := hcall n le_rfl
      rw [if_pos hend, formatInt_zero, List.take_of_length_le (by rw [List.length_drop]; omega)] at hcalln
      exact .last hcalln
  | succ k ih =>
      obtain ⟨m, hm⟩ : ∃ m, m = n - (k + 1) := ⟨_, rfl⟩
      have hnext : n - k = m + 1 := by omega
      have hpos := countSum_pos hfirst (fun i hi => (hgood i hi).1) m (by omega)
      have hrest := ih (by omega)
      have hcallm := hcall m (by omega)
      have hltnext := hbefore (m + 1) (by omega)
      rw [← hm]
      rw [hnext] at hrest
      rw [← countSum_succ, if_neg (not_le.mpr hltnext)] at hcallm
      have hne : formatInt (countSum cnt (m + 1)) ≠ utf8 "0" := by
        rw [← formatInt_zero]
        intro heq
        have hzero := formatInt_injective ⟨by omega, (hgood m (by omega)).2⟩ (by decide) heq
        omega
      have happend : (els.drop (countSum cnt m).toNat).flatten =
          ((els.drop (countSum cnt m).toNat).take (cnt m).toNat).flatten ++
            (els.drop (countSum cnt (m + 1)).toNat).flatten := by
        have hdrop : els.drop (countSum cnt (m + 1)).toNat = (els.drop (countSum cnt m).toNat).drop (cnt m).toNat := by
          rw [List.drop_drop, countSum_succ, Int.toNat_add (hsum_nonneg m (by omega)) (hgood m (by omega)).1]
        rw [hdrop, ← List.flatten_append, List.take_append_drop]
      rw [happend]
      exact .more hcallm hne hrest

/-- An iteration that ends, from a cursor within the list on, has had good counts. -/
theorem Pages.counts (hpages : Pages els cnt call) (hcnt : ∀ n, InInt64 (cnt n)) {cursor : Bytes}
    {ys : List Value} (h : Follows call n cursor ys) {c : ℤ} (hcursor : cursor = formatInt c) (h0 : 0 < c)
    (hc : c < 2 ^ 63) (hlt : c < els.length) (hsum : c = countSum cnt n) :
    ∃ m, n ≤ m ∧ (els.length : ℤ) ≤ countSum cnt (m + 1) ∧
      ∀ i, n ≤ i → i ≤ m → 0 ≤ cnt i ∧ countSum cnt (i + 1) < 2 ^ 63 := by
  induction h generalizing c with
  | @last n cursor xs hcall =>
      subst hcursor
      obtain ⟨hpos, hfit⟩ := hpages.good h0.le hc hlt (hcnt n) hcall
      rw [hpages.call_eq h0.le hlt hpos hfit, ← formatInt_zero] at hcall
      have hend : (els.length : ℤ) ≤ c + cnt n := by
        by_contra hnot
        rw [if_neg hnot] at hcall
        have hzero := formatInt_injective ⟨by omega, hfit⟩ (by decide) (arr_page_inj hcall).1
        omega
      have hnext : countSum cnt (n + 1) = c + cnt n := by rw [countSum_succ, ← hsum]
      refine ⟨n, le_rfl, by omega, fun i hi hi' => ?_⟩
      obtain rfl : i = n := by omega
      exact ⟨hpos, by omega⟩
  | @more n cursor next xs ys hcall hne hrest ih =>
      subst hcursor
      obtain ⟨hpos, hfit⟩ := hpages.good h0.le hc hlt (hcnt n) hcall
      rw [hpages.call_eq h0.le hlt hpos hfit] at hcall
      have hnext : countSum cnt (n + 1) = c + cnt n := by rw [countSum_succ, ← hsum]
      have hnot : ¬ (els.length : ℤ) ≤ c + cnt n := by
        intro hend
        rw [if_pos hend, formatInt_zero] at hcall
        exact hne (arr_page_inj hcall).1.symm
      rw [if_neg hnot] at hcall
      obtain ⟨m, hm, hend, hgood⟩ := ih (arr_page_inj hcall).1.symm (by omega) hfit (by omega) hnext.symm
      refine ⟨m, by omega, hend, fun i hi hi' => ?_⟩
      rcases Nat.eq_or_lt_of_le hi with rfl | hlt'
      · exact ⟨hpos, by omega⟩
      · exact hgood i hlt' hi'

/-- With good counts an iteration yields all elements, in their order. -/
theorem Pages.complete (hpages : Pages els cnt call) (h : Completes els.length cnt) :
    Follows call 0 (utf8 "0") els.flatten := by
  rcases Nat.eq_zero_or_pos els.length with hzero | hpos
  · obtain rfl := List.eq_nil_of_length_eq_zero hzero
    have hcall := hpages 0 0 le_rfl (by decide)
    exact .last (formatInt_zero ▸ hcall)
  · obtain ⟨hfirst, n₀, hn₀, hgood⟩ := h.resolve_left hpos.ne'
    -- the first call after which everything has been returned
    have hex : ∃ n, (els.length : ℤ) ≤ countSum cnt (n + 1) := ⟨n₀, hn₀⟩
    obtain ⟨n, hn, hmin⟩ : ∃ n, (els.length : ℤ) ≤ countSum cnt (n + 1) ∧
        ∀ i < n, ¬ (els.length : ℤ) ≤ countSum cnt (i + 1) :=
      ⟨Nat.find hex, Nat.find_spec hex, fun i hi => Nat.find_min hex hi⟩
    have hle : n ≤ n₀ := by
      by_contra hlt
      exact hmin n₀ (by omega) hn₀
    have hstart : countSum cnt 0 = 0 := Finset.sum_range_zero _
    have hbefore (i : ℕ) (hi : i ≤ n) : countSum cnt i < els.length := by
      cases i with
      | zero => omega
      | succ i => exact not_le.mp (hmin i hi)
    have hfollows := hpages.follows hfirst hn hbefore (fun i hi => hgood i (hi.trans hle)) n le_rfl
    rwa [Nat.sub_self, hstart, formatInt_zero] at hfollows

end iteration

/-! ### The commands -/

/-- What is iterated over, and its filters. -/
inductive Scan
  | keys (pattern typeFilter : Bytes)
  | set (key pattern : Bytes)
  | zset (key pattern : Bytes)

namespace Scan

variable {S : Type} [GoFloat S]

/-- The call with a cursor and options. -/
def proc (cursor : Bytes) (options : List Bytes) : Scan → Proc S
  | keys _ _ => Handlers.scanOp (cursor :: options)
  | set key _ => Handlers.sscanOp (key :: cursor :: options)
  | zset key _ => Handlers.zscanOp (key :: cursor :: options)

/-- The server accepts the options, and they give the filters and this count. -/
def Accepts (options : List Bytes) (cnt : ℤ) : Scan → Prop
  | keys pattern typeFilter =>
      Handlers.scanOptions ⟨utf8 "*", 10, []⟩ options = .ok ⟨pattern, cnt, typeFilter⟩
  | set _ pattern => Handlers.sscanOptions (utf8 "*") 10 options = .ok (pattern, cnt)
  | zset _ pattern => Handlers.zscanOptions (utf8 "*") 10 options = .ok (pattern, cnt)

/-- The number the code makes of a cursor. -/
def cursorOf (cursor : Bytes) : Scan → Option ℤ
  | set _ _ => (parseUint cursor).map fun (c : ℕ) => int64 c
  | _ => parseInt cursor

variable {e : Env} {d : DB S} {sc : ScriptCache}

/-- The type of a key as `TYPE` names it. -/
def typeName (e : Env) (d : DB S) (key : Bytes) : Bytes :=
  utf8 ((liveType e.now d (encodeKey key)).elim "none" KeyType.text)

/-- The values that a read answers. -/
def readValues (e : Env) (d : DB S) (c : Cmd S) : Option (List Bytes) := (c.exec e d).1.toOption.map Reply.asValues

/-- The members that match, in the order of the sorted set. -/
def zMatches (e : Env) (d : DB S) (key pattern : Bytes) : List (ZMember S) :=
  (zOrder e.now d key).filter fun z => pattern = [] ∨ pattern = [42] ∨ matchGlob pattern z.member = true

/-- The elements that match, each with the values that stand for it in a reply. -/
def elements (e : Env) (d : DB S) : Scan → Option (List (List Value))
  | keys pattern typeFilter => (readValues e d (.keys pattern)).map fun ks =>
      (ks.filter fun k => typeFilter = [] ∨ typeName e d k = typeFilter).map fun k => [.bulkOf k]
  | set key pattern => (readValues e d (.sMembers key)).map fun ms =>
      (ms.filter fun m => Handlers.matchGlob pattern m).map fun m => [.bulkOf m]
  | zset key pattern => some ((zMatches e d key pattern).map fun z =>
      [.bulkOf z.member, .bulkOf (Float64.formatFloat z.score)])

end Scan

section commands
variable {S : Type} [GoFloat S] {e : Env} {d : DB S} {sc : ScriptCache} {cursor : Bytes} {options : List Bytes}
  {els : List (List Value)} {c cnt : ℤ}

/-- What the code answers for a page. -/
def pageReply (r : Option (ℤ × List (List Value))) : Except String Value :=
  match r with
  | none => .error "runtime error: slice bounds out of range"
  | some (next, xs) => .ok (.arr [.bulkOf (formatInt next), .arr xs.flatten])

theorem flatten_bulks (l : List Bytes) : (l.map fun k => [Value.bulkOf k]).flatten = l.map Value.bulkOf := by
  induction l with
  | nil => rfl
  | cons k l ih => rw [List.map_cons, List.flatten_cons, ih]; rfl

theorem flatten_members (l : List (ZMember S)) :
    (l.map fun z => [Value.bulkOf z.member, .bulkOf (Float64.formatFloat z.score)]).flatten =
      (l.flatMap fun z => [z.member, Float64.formatFloat z.score]).map Value.bulkOf := by
  induction l with
  | nil => rfl
  | cons z l ih => rw [List.map_cons, List.flatten_cons, ih, List.flatMap_cons, List.map_append]; rfl

theorem scanPage_direct (l : List Bytes) (cursor cnt : ℤ) :
    ((Handlers.scanPage l cursor cnt : Proc S).direct e sc d).1 =
      pageReply (page (l.map fun k => [Value.bulkOf k]) cursor cnt) := by
  rw [page_map, Handlers.scanPage, page]
  split
  · rw [Option.map_some, pageReply, formatInt_zero]
    rfl
  · dsimp only
    split
    · rfl
    · rw [Option.map_some, pageReply, flatten_bulks]
      split
      · rw [formatInt_zero]
        rfl
      · rfl

theorem filterByType_direct (typeFilter : Bytes) (next : List Bytes → Proc S) (kept ks : List Bytes) :
    (Handlers.filterByType typeFilter next kept ks).direct e sc d =
      (next (kept ++ ks.filter fun k => Scan.typeName e d k = typeFilter)).direct e sc d := by
  induction ks generalizing kept with
  | nil => rw [List.filter_nil, List.append_nil]; rfl
  | cons k ks ih =>
      have hexec : (Cmd.keyType k : Cmd S).exec e d = (.ok (.type (liveType e.now d (encodeKey k))), d) := rfl
      rw [Handlers.filterByType, Proc.direct, hexec]
      dsimp only
      by_cases hk : Scan.typeName e d k = typeFilter
      · have happend (ys : List Bytes) : kept ++ k :: ys = kept ++ [k] ++ ys := List.append_cons kept k ys
        rw [List.filter_cons_of_pos (by simpa using hk), happend (ks.filter _), ← ih]
        exact congrArg (fun p => Proc.direct e p sc d) (if_pos hk)
      · rw [List.filter_cons_of_neg (by simpa using hk), ← ih]
        exact congrArg (fun p => Proc.direct e p sc d) (if_neg hk)

theorem exec_zScan (key pattern : Bytes) (c cnt : ℤ) : (Cmd.zScan key c pattern cnt : Cmd S).exec e d =
    ((page (Scan.zMatches e d key pattern) c cnt).elim
      (.error (.crash "runtime error: slice bounds out of range")) fun r => .ok (.page r), d) := by
  have hrows : (Program.queryRows (selectLive .kvZsets (encodeKey key) zMembers) : Op S _).eval e (Tx.clean d) =
      (.ok (zOrder e.now d key), Tx.clean d) := rfl
  rw [Cmd.exec, Cmd.op, eval_map, Postkeys.zScan, eval_bind_ok hrows]
  dsimp only
  rw [← Scan.zMatches, page]
  dsimp only
  by_cases hend : ((Scan.zMatches e d key pattern).length : ℤ) ≤ c
  · rw [if_pos hend, if_pos hend]
    rfl
  · rw [if_neg hend, if_neg hend]
    by_cases hout : c < 0 ∨ min (int64 (c + cnt)) (Scan.zMatches e d key pattern).length < c
    · rw [if_pos hout, if_pos hout]
      rfl
    · rw [if_neg hout, if_neg hout]
      rfl

/-- **A call answers a page** of the elements that match. -/
theorem Scan.proc_direct (s : Scan) (hoptions : s.Accepts options cnt) (hcursor : s.cursorOf cursor = some c)
    (hels : s.elements e d = some els) : ((s.proc cursor options : Proc S).direct e sc d).1 = pageReply (page els c cnt) := by
  cases s with
  | keys pattern typeFilter =>
      obtain ⟨ks, hks, -⟩ := exec_keys (e := e) (d := d) pattern
      have hvalues : Scan.readValues e d (.keys pattern) = some ks := by rw [Scan.readValues, hks]; rfl
      rw [Scan.elements, hvalues, Option.map_some, Option.some.injEq] at hels
      have hparse : parseInt cursor = some c := hcursor
      have hparsed : Handlers.scanOptions ⟨utf8 "*", 10, []⟩ options = .ok ⟨pattern, cnt, typeFilter⟩ := hoptions
      rw [Scan.proc, Handlers.scanOp, hparse, Proc.need, hparsed, Proc.parsed, Proc.store, Proc.direct_callOr_ok hks]
      dsimp only [Reply.asValues]
      by_cases hty : typeFilter = []
      · rw [if_pos hty, scanPage_direct, ← hels, List.filter_eq_self.mpr fun k _ => by simp [hty]]
      · rw [if_neg hty, filterByType_direct, List.nil_append, scanPage_direct, ← hels]
        simp only [hty, false_or]
  | set key pattern =>
      rw [Scan.elements, Scan.readValues] at hels
      rcases hexec : (Cmd.sMembers key : Cmd S).exec e d with ⟨r, d'⟩
      rw [hexec] at hels
      cases r with
      | error f => cases hels
      | ok r =>
          obtain ⟨u, hu, rfl⟩ : ∃ u, parseUint cursor = some u ∧ int64 u = c := Option.map_eq_some_iff.mp hcursor
          obtain rfl := Option.some.inj hels
          have hparsed : Handlers.sscanOptions (utf8 "*") 10 options = .ok (pattern, cnt) := hoptions
          rw [Scan.proc, Handlers.sscanOp, hu, Proc.need, hparsed, Proc.parsed, Proc.storeTyped,
            Proc.direct_callOr_ok hexec, scanPage_direct]
  | zset key pattern =>
      have hparse : parseInt cursor = some c := hcursor
      have hparsed : Handlers.zscanOptions (utf8 "*") 10 options = .ok (pattern, cnt) := hoptions
      obtain rfl := Option.some.inj hels
      rw [Scan.proc, Handlers.zscanOp, hparse, Proc.need, hparsed, Proc.parsed, page_map]
      have hexec := exec_zScan (e := e) (d := d) key pattern c cnt
      cases hpage : page (Scan.zMatches e d key pattern) c cnt with
      | none =>
          rw [hpage] at hexec
          rw [Proc.answerTyped, Proc.storeTyped, Proc.callOr, Proc.direct, hexec]
          rfl
      | some r =>
          rw [hpage] at hexec
          rw [Proc.direct_answerTyped hexec, Option.map_some, pageReply, flatten_members]
          rfl

/-- A cursor the server has returned is read back. -/
theorem Scan.cursorOf_formatInt (s : Scan) (h0 : 0 ≤ c) (hc : c < 2 ^ 63) : s.cursorOf (formatInt c) = some c := by
  have hsigned : parseInt (formatInt c) = some c := parseInt_formatInt (by omega) hc
  cases s with
  | keys pattern typeFilter => exact hsigned
  | set key pattern =>
      have hdigits : parseDigits (formatInt c) = some c.natAbs := by
        rw [formatInt, if_neg (by omega), parseDigits_formatNat]
      have hfits : decide (c.natAbs < 2 ^ 64) = true := decide_eq_true (by omega)
      rw [Scan.cursorOf, parseUint, hdigits, Option.filter_some, if_pos hfits, Option.map_some]
      have hself : int64 ((c.natAbs : ℕ) : ℤ) = c := by
        rw [Int.natAbs_of_nonneg h0]
        exact int64_eq_self ⟨by omega, hc⟩
      rw [hself]
  | zset key pattern => exact hsigned

end commands

/-! ### The iteration -/

section iterations
variable {S : Type} [GoFloat S]

/-- Call `n` of an iteration, with a cursor. -/
def Scan.call (s : Scan) (world : ℕ → Env) (options : ℕ → List Bytes) (sc : ScriptCache) (d : DB S) (n : ℕ)
    (cursor : Bytes) : Except String Value := ((s.proc cursor (options n) : Proc S).direct (world n) sc d).1

/-- The calls answer the pages of the elements. -/
theorem Scan.pages (s : Scan) {world : ℕ → Env} {options : ℕ → List Bytes} {cnt : ℕ → ℤ} {els : List (List Value)}
    {d : DB S} {sc : ScriptCache} (haccepts : ∀ n, s.Accepts (options n) (cnt n))
    (hels : ∀ n, s.elements (world n) d = some els) : Pages els cnt (s.call world options sc d) := by
  intro n c h0 hc
  rw [Scan.call, s.proc_direct (haccepts n) (s.cursorOf_formatInt h0 hc) (hels n)]
  cases page els c (cnt n) with
  | none => exact ⟨_, rfl⟩
  | some r => rfl

end iterations

end Postkeys
