import Postkeys.Resp.Writer

/-! # What the parser commits to

`readArray` allocates a slot for every element that the head of an array declares and then reads the
elements, which may be arrays themselves.  `openArrays` lists, for every point of one `Read`, the
lengths of the arrays that are open there.

`openArrays_bounded_iff` says for which streams the depth and the number of the slots stay within
bounds: those that do not start with heads of arrays nested too deep or declaring too much in
total. -/

namespace Postkeys

open Stream

/-- The lengths of the arrays that are open, innermost first, at every point of one `Read`. -/
def openArrays (s : Bytes) : List (List ℕ) := (read (s.length + 1)).frames [] s

/-- The stream starts with the head of an array of `n` elements; `t` follows. -/
def StartsArray (s : Bytes) (n : ℕ) (t : Bytes) : Prop :=
  ∃ line, s = 42 :: (line ++ crlf ++ t) ∧ 10 ∉ line ∧ parseInt line = some (n : ℤ) ∧ n ≤ maxArrayLen

/-- The stream starts with heads of arrays inside each other, outermost first; before the head of an
inner array come fewer values than the array around it has elements. -/
inductive Opens : Bytes → List ℕ → Prop
  | top {s t : Bytes} {n : ℕ} (h : StartsArray s n t) : Opens s [n]
  | inside {s t t' : Bytes} {n i : ℕ} {vs : List Value} {counts : List ℕ} (h : StartsArray s n t)
      (hi : i < n) (hvs : readValues i t = .ok (vs, t')) (hopen : Opens t' counts) :
      Opens s (n :: counts)

/-! ### Lines -/

theorem splitUpTo_eq_line {d : UInt8} {s x t : Bytes} (h : splitUpTo d s = some (x, t)) :
    ∃ line, x = line ++ [d] ∧ d ∉ line := by
  induction s generalizing x with
  | nil => cases h
  | cons b s ih =>
      rw [splitUpTo] at h
      split_ifs at h with hb
      · cases h
        exact ⟨[], by rw [hb]; rfl, List.not_mem_nil⟩
      · obtain ⟨⟨x', t'⟩, hx', heq⟩ := Option.map_eq_some_iff.mp h
        cases heq
        obtain ⟨line, rfl, hline⟩ := ih hx'
        exact ⟨b :: line, rfl, List.not_mem_cons_of_ne_of_not_mem (Ne.symm hb) hline⟩

/-- A line that is read ends in a carriage return and a line feed. -/
theorem run_readLine_eq_ok {s line t : Bytes} (h : readLine.run flat s = .ok (line, t)) :
    s = line ++ crlf ++ t ∧ 10 ∉ line := by
  rw [readLine, Reader.run] at h
  simp only [flat] at h
  cases hs : splitUpTo 10 s with
  | none => simp only [hs, Reader.run] at h; cases h
  | some r =>
      obtain ⟨x, t'⟩ := r
      obtain ⟨rfl, -⟩ := splitUpTo_eq_some hs
      obtain ⟨init, rfl, hinit⟩ := splitUpTo_eq_line hs
      simp only [hs] at h
      split_ifs at h with hend
      · cases h
      · obtain ⟨hlen, hcr⟩ : 2 ≤ (init ++ [10]).length ∧ (init ++ [10]).getD ((init ++ [10]).length - 2) 0 = 13 := by
          simpa only [not_or, not_lt, not_not] using hend
        cases h
        -- the byte before the line feed is the carriage return
        rcases List.eq_nil_or_concat init with rfl | ⟨line, b, rfl⟩
        · simp at hlen
        · rw [List.concat_eq_append] at hinit hcr ⊢
          have hb : b = 13 := by simpa [List.getD_eq_getElem?_getD] using hcr
          subst hb
          have htake : ((line ++ [13]) ++ [10]).take (((line ++ [13]) ++ [10]).length - 2) = line := by
            simp
          rw [htake]
          exact ⟨by simp [crlf], fun hmem => hinit (List.mem_append_left _ hmem)⟩

theorem run_readNumber_eq_ok {s t : Bytes} {n : ℤ} (h : readNumber.run flat s = .ok (n, t)) :
    ∃ line, s = line ++ crlf ++ t ∧ 10 ∉ line ∧ parseInt line = some n := by
  rw [readNumber, Reader.bind_eq, Reader.run_bind_eq_ok] at h
  obtain ⟨line, t', hline, hnum⟩ := h
  obtain ⟨rfl, hno⟩ := run_readLine_eq_ok hline
  cases hparse : parseInt line with
  | none => rw [hparse] at hnum; cases hnum
  | some m => rw [hparse] at hnum; cases hnum; exact ⟨line, rfl, hno, hparse⟩

theorem run_readNumber_of_line {line t : Bytes} {n : ℤ} (hno : 10 ∉ line)
    (hparse : parseInt line = some n) : readNumber.run flat (line ++ crlf ++ t) = .ok (n, t) := by
  rw [readNumber, Reader.bind_eq, Reader.run_bind_ok (run_readLine hno t), hparse]
  rfl

/-! ### Readers that open nothing -/

/-- The reader opens no array. -/
def Flat {α : Type} (p : RespReader α) : Prop := ∀ st s x, x ∈ p.frames st s ↔ x = st

theorem flat_ret {α : Type} (a : α) : Flat (.ret a : RespReader α) := fun _ _ _ => List.mem_singleton

theorem flat_fail {α : Type} (e : ReadError) : Flat (.fail e : RespReader α) :=
  fun _ _ _ => List.mem_singleton

theorem Flat.bind {α β : Type} {p : RespReader α} {f : α → RespReader β} (hp : Flat p)
    (hf : ∀ a, Flat (f a)) : Flat (p.bind f) := by
  intro st s x
  rw [Reader.mem_frames_bind, hp]
  constructor
  · rintro (h | ⟨a, t, -, h⟩)
    · exact h
    · exact (hf a st t x).mp h
  · exact Or.inl

theorem flat_readLine : Flat readLine := by
  intro st s x
  rw [readLine, Reader.frames]
  cases flat.upTo 10 s with
  | none => simp [Reader.frames]
  | some r =>
      dsimp only
      split <;> simp [Reader.frames]

theorem flat_readNumber : Flat readNumber := by
  refine flat_readLine.bind fun line => ?_
  cases parseInt line with
  | none => exact flat_fail _
  | some n => exact flat_ret n

theorem flat_readBulkString : Flat readBulkString := by
  refine flat_readNumber.bind fun length => ?_
  split_ifs
  · exact flat_ret _
  · exact flat_fail _
  · exact flat_fail _
  · intro st s x
    rw [Reader.frames]
    cases flat.full (length.toNat + 2) s with
    | error m => cases m <;> simp [Reader.frames]
    | ok r => simp [Reader.frames]

/-! ### Points of a run -/

theorem length_readValues {i : ℕ} {t t' : Bytes} {vs : List Value} (h : readValues i t = .ok (vs, t')) :
    t'.length ≤ t.length := by
  induction i generalizing t vs with
  | zero => cases h; exact le_rfl
  | succ i ih =>
      rw [readValues] at h
      cases hv : readValue t with
      | error e => rw [hv] at h; cases h
      | ok r =>
          simp only [hv] at h
          cases hvs : readValues i r.2 with
          | error e => rw [hvs] at h; cases h
          | ok r' =>
              rw [hvs] at h
              cases h
              exact (ih hvs).trans (length_of_readValue hv).le

theorem StartsArray.length_lt {s t : Bytes} {n : ℕ} (h : StartsArray s n t) : t.length < s.length := by
  obtain ⟨line, rfl, -⟩ := h
  simp only [List.length_cons, List.length_append]
  omega

theorem mem_frames_readElements {l : ℕ} {cnt : ℕ} {st x : List ℕ} {t : Bytes} (hl : t.length < l) :
    x ∈ (readElements (read l) cnt).frames st t ↔
      x = st ∨ ∃ i < cnt, ∃ vs t', readValues i t = .ok (vs, t') ∧ x ∈ (read l).frames st t' := by
  induction cnt generalizing t with
  | zero => simp [readElements, Reader.frames]
  | succ cnt ih =>
      rw [readElements, Reader.bind_eq, Reader.mem_frames_bind, ← readValue_eq hl]
      constructor
      · rintro (h | ⟨v, t₁, hv, h⟩)
        · exact Or.inr ⟨0, Nat.succ_pos _, [], t, rfl, h⟩
        · have ht₁ : t₁.length < l := (length_of_readValue hv).trans hl
          rw [Reader.bind_eq, Reader.mem_frames_bind, ih ht₁] at h
          rcases h with (h | ⟨i, hi, vs, t', hvs, h⟩) | ⟨_, _, _, h⟩
          · exact Or.inl h
          · exact Or.inr ⟨i + 1, by omega, v :: vs, t', by simp only [readValues, hv, hvs], h⟩
          · exact Or.inl (List.mem_singleton.mp h)
      · rintro (rfl | ⟨i, hi, vs, t', hvs, h⟩)
        · exact Or.inl (Reader.self_mem_frames _ _ _)
        · cases i with
          | zero => cases hvs; exact Or.inl h
          | succ i =>
              rw [readValues] at hvs
              cases hv : readValue t with
              | error e => rw [hv] at hvs; cases hvs
              | ok r =>
                  obtain ⟨v, t₁⟩ := r
                  simp only [hv] at hvs
                  refine Or.inr ⟨v, t₁, rfl, ?_⟩
                  rw [Reader.bind_eq, Reader.mem_frames_bind, ih ((length_of_readValue hv).trans hl)]
                  cases hvs' : readValues i t₁ with
                  | error e => rw [hvs'] at hvs; cases hvs
                  | ok r' =>
                      rw [hvs'] at hvs
                      cases hvs
                      exact Or.inl (Or.inr ⟨i, by omega, r'.1, _, hvs', h⟩)

theorem mem_frames_readArray {r : RespReader Value} {st x : List ℕ} {s : Bytes} :
    x ∈ (readArray r).frames st s ↔ x = st ∨
      ∃ n t, StartsArray (42 :: s) n t ∧ x ∈ (readElements r n).frames (n :: st) t := by
  rw [readArray, Reader.bind_eq, Reader.mem_frames_bind, flat_readNumber]
  constructor
  · rintro (h | ⟨n, t, hn, h⟩)
    · exact Or.inl h
    · obtain ⟨line, rfl, hno, hparse⟩ := run_readNumber_eq_ok hn
      split_ifs at h with h₁ h₂ h₃
      · exact Or.inl (List.mem_singleton.mp h)
      · exact Or.inl (List.mem_singleton.mp h)
      · exact Or.inl (List.mem_singleton.mp h)
      · have hnat : ((n.toNat : ℕ) : ℤ) = n := Int.toNat_of_nonneg (by omega)
        have hstart : StartsArray (42 :: (line ++ crlf ++ t)) n.toNat t :=
          ⟨line, rfl, hno, by rw [hnat, hparse], by omega⟩
        rw [Reader.frames, List.mem_append, List.mem_cons] at h
        rcases h with (h | h) | h
        · exact Or.inl h
        · exact Or.inr ⟨n.toNat, t, hstart, h⟩
        · split at h
          · cases h
          · exact Or.inl (List.mem_singleton.mp h)
  · rintro (h | ⟨n, t, ⟨line, hs, hno, hparse, hle⟩, h⟩)
    · exact Or.inl h
    · injection hs with _ hs
      subst hs
      refine Or.inr ⟨n, t, run_readNumber_of_line hno hparse, ?_⟩
      rw [if_neg (by omega), if_neg (by omega), if_neg (by omega), Int.toNat_natCast, Reader.frames,
        List.mem_append, List.mem_cons]
      exact Or.inl (Or.inr h)

/-- The arrays that are open at some point of a run are those whose heads the stream starts with. -/
theorem mem_frames_read {l : ℕ} {st x : List ℕ} {s : Bytes} (hl : s.length < l) :
    x ∈ (read l).frames st s ↔ x = st ∨ ∃ counts, Opens s counts ∧ x = counts.reverse ++ st := by
  induction l generalizing st x s with
  | zero => omega
  | succ l ih =>
      cases s with
      | nil =>
          refine ⟨fun h => Or.inl (by simpa [read, Reader.frames, flat] using h), ?_⟩
          rintro (rfl | ⟨counts, hopen, -⟩)
          · exact Reader.self_mem_frames _ _ _
          · cases hopen with
            | top h => obtain ⟨_, h, _⟩ := h; cases h
            | inside h => obtain ⟨_, h, _⟩ := h; cases h
      | cons b s =>
          have hlen : s.length < l := by
            simp only [List.length_cons] at hl
            omega
          have hplain {r : RespReader Value} (hb : b ≠ 42) (hr : Flat r) :
              x = st ∨ x ∈ r.frames st s ↔ x = st ∨ ∃ counts, Opens (b :: s) counts ∧
                x = counts.reverse ++ st := by
            rw [hr, or_self]
            refine ⟨Or.inl, ?_⟩
            rintro (h | ⟨counts, hopen, -⟩)
            · exact h
            · cases hopen with
              | top h => obtain ⟨_, h, _⟩ := h; injection h with h _; exact absurd h hb
              | inside h => obtain ⟨_, h, _⟩ := h; injection h with h _; exact absurd h hb
          rw [read, Reader.frames]
          simp only [flat, List.mem_cons]
          split_ifs with h₁ h₂ h₃ h₄ h₅
          · exact hplain (by rw [h₁]; decide) (flat_readLine.bind fun _ => flat_ret _)
          · exact hplain (by rw [h₂]; decide) (flat_readLine.bind fun _ => flat_ret _)
          · exact hplain (by rw [h₃]; decide) (flat_readNumber.bind fun _ => flat_ret _)
          · exact hplain (by rw [h₄]; decide) flat_readBulkString
          · subst h₅
            rw [mem_frames_readArray, ← or_assoc, or_self]
            refine or_congr_right ?_
            constructor
            · rintro ⟨n, t, hstart, h⟩
              have ht : t.length < l := by
                have := hstart.length_lt
                rw [List.length_cons] at this
                omega
              rcases (mem_frames_readElements ht).mp h with rfl | ⟨i, hi, vs, t', hvs, h⟩
              · exact ⟨[n], .top hstart, rfl⟩
              · have ht' : t'.length < l := (length_readValues hvs).trans_lt ht
                rcases (ih ht').mp h with rfl | ⟨counts, hopen, rfl⟩
                · exact ⟨[n], .top hstart, rfl⟩
                · exact ⟨n :: counts, .inside hstart hi hvs hopen, by simp⟩
            · rintro ⟨counts, hopen, rfl⟩
              cases hopen with
              | @top _ t n hstart =>
                  exact ⟨n, t, hstart, Reader.self_mem_frames _ _ _⟩
              | @inside _ t t' n i vs counts hstart hi hvs hopen =>
                  have ht : t.length < l := by
                    have := hstart.length_lt
                    rw [List.length_cons] at this
                    omega
                  refine ⟨n, t, hstart, (mem_frames_readElements ht).mpr (Or.inr ⟨i, hi, vs, t', hvs, ?_⟩)⟩
                  refine (ih ((length_readValues hvs).trans_lt ht)).mpr (Or.inr ⟨counts, hopen, ?_⟩)
                  simp
          · exact hplain h₅ (flat_fail _)

/-- **Bounded commitment**: at every point of one `Read` the arrays that are open are at most `depth`
deep and have at most `maxArrayLen` slots in total, exactly if this holds for all heads of arrays
that the stream starts with. -/
theorem openArrays_bounded_iff (depth : ℕ) (s : Bytes) :
    (∀ st ∈ openArrays s, st.length ≤ depth ∧ st.sum ≤ maxArrayLen) ↔
      ∀ counts, Opens s counts → counts.length ≤ depth ∧ counts.sum ≤ maxArrayLen := by
  have hmem (st : List ℕ) : st ∈ openArrays s ↔
      st = [] ∨ ∃ counts, Opens s counts ∧ st = counts.reverse ++ [] :=
    mem_frames_read (Nat.lt_succ_self s.length)
  constructor
  · intro h counts hopen
    have hst := h counts.reverse ((hmem _).mpr (Or.inr ⟨counts, hopen, by simp⟩))
    simpa using hst
  · intro h st hst
    rcases (hmem st).mp hst with rfl | ⟨counts, hopen, rfl⟩
    · simp
    · simpa using h counts hopen

/-- Two heads in 20 bytes: the parser has allocated twice as many slots as one array may have, and
no element has arrived. -/
theorem openArrays_two_heads :
    (openArrays (utf8 "*1048576\r\n*1048576\r\n")).any (fun st => decide (st.sum = 2 * maxArrayLen)) =
      true := by
  decide

end Postkeys
