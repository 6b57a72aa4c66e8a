import Postkeys.Cache
import Postkeys.Glob

/-! # The patterns of the cache

The cache's matcher tests for a prefix or a suffix; of several stars it takes all but one literally, and
where prefix and suffix overlap in a short key it accepts too much.  `cache_patterns_iff`: a pattern is
matched as the language of patterns says, for every key, exactly if it has at most one star and
no end of what stands before the star is a beginning of what stands behind it; and keys are cached as the
include and exclude lists say, for all lists of such patterns and no others. -/

namespace Postkeys

open Glob

/-! ### The language -/

/-- The meaning of a byte of a cache pattern. -/
def cacheToken (b : UInt8) : Token UInt8 := if b = 42 then .star else .lit b

/-- `key` is in the language of the pattern: `*` stands for any bytes, every other byte for itself. -/
def InCacheLanguage (pattern key : Bytes) : Prop := Matches (pattern.map cacheToken) key

variable {a b p key x : Bytes} {r : List (Token UInt8)}

/-- A part without stars stands for itself. -/
theorem matches_literal (ha : 42 ∉ a) : Matches (a.map cacheToken ++ r) key ↔ ∃ x, key = a ++ x ∧ Matches r x := by
  induction a generalizing key with
  | nil => simp
  | cons c a ih =>
      obtain ⟨hc, ha⟩ := not_or.mp (mt List.mem_cons.mpr ha)
      have htoken : cacheToken c = .lit c := if_neg (Ne.symm hc)
      rw [List.map_cons, List.cons_append, htoken]
      cases key with
      | nil => exact iff_of_false (not_matches_cons_nil (by simp)) (by simp)
      | cons k key =>
          rw [matches_cons (by simp), ih ha]
          constructor
          · rintro ⟨rfl, x, rfl, hx⟩
            exact ⟨x, rfl, hx⟩
          · rintro ⟨x, hx, hm⟩
            obtain ⟨rfl, rfl⟩ := List.cons.inj hx
            exact ⟨rfl, x, rfl, hm⟩

theorem inCacheLanguage_literal (ha : 42 ∉ a) : InCacheLanguage a key ↔ key = a := by
  rw [InCacheLanguage, ← List.append_nil (a.map cacheToken), matches_literal ha]
  simp

/-- One star stands for anything between what is around it. -/
theorem inCacheLanguage_star (ha : 42 ∉ a) (hb : 42 ∉ b) :
    InCacheLanguage (a ++ 42 :: b) key ↔ ∃ m, key = a ++ (m ++ b) := by
  have hstar : (a ++ 42 :: b).map cacheToken = a.map cacheToken ++ .star :: b.map cacheToken := by
    rw [List.map_append, List.map_cons]
    rfl
  rw [InCacheLanguage, hstar, matches_literal ha]
  constructor
  · rintro ⟨x, rfl, hx⟩
    obtain ⟨m, y, rfl, hy⟩ := matches_star.mp hx
    obtain rfl := (inCacheLanguage_literal hb).mp hy
    exact ⟨m, rfl⟩
  · rintro ⟨m, rfl⟩
    exact ⟨m ++ b, rfl, matches_star.mpr ⟨m, b, rfl, (inCacheLanguage_literal hb).mpr rfl⟩⟩

/-- Every star may stand for nothing. -/
theorem inCacheLanguage_filter (p : Bytes) : InCacheLanguage p (p.filter (· ≠ 42)) := by
  induction p with
  | nil => exact .nil
  | cons c p ih =>
      rw [InCacheLanguage, List.map_cons, cacheToken]
      by_cases hc : c = 42
      · rw [List.filter_cons_of_neg (by simpa using hc), if_pos hc]
        exact .skip ih
      · rw [List.filter_cons_of_pos (by simpa using hc), if_neg hc]
        exact .take rfl ih

/-! ### The matcher -/

/-- A pattern the cache can match: no star, or one whose surroundings do not overlap. -/
def PlainPattern (p : Bytes) : Prop :=
  42 ∉ p ∨ ∃ a b, p = a ++ 42 :: b ∧ 42 ∉ a ∧ 42 ∉ b ∧ ∀ w, w <:+ a → w <+: b → w = []

theorem ne_star_of_mem (ha : 42 ∉ a) : ∀ c ∈ a, decide (c ≠ 42) = true :=
  fun _ hc => decide_eq_true fun h => ha (h ▸ hc)

theorem takeWhile_ne_star (ha : 42 ∉ a) : (a ++ 42 :: b).takeWhile (· ≠ 42) = a := by
  rw [List.takeWhile_append_of_pos (ne_star_of_mem ha)]
  simp

theorem dropWhile_ne_star (ha : 42 ∉ a) : (a ++ 42 :: b).dropWhile (· ≠ 42) = 42 :: b := by
  rw [List.dropWhile_append_of_pos (ne_star_of_mem ha)]
  simp

theorem matchGlob_literal (hp : 42 ∉ p) : CachedStore.matchGlob p key = true ↔ key = p := by
  have hlast : ¬ p.getLast? = some 42 := fun h => hp (List.mem_of_getLast? h)
  have hhead : ¬ p.head? = some 42 := fun h => hp (List.mem_of_head? h)
  have hcontains : ¬ p.contains 42 = true := by simpa using hp
  rw [CachedStore.matchGlob, if_neg hlast, if_neg hhead, if_neg hcontains]
  simp [eq_comm]

/-- One star: the matcher tests for what is around it. -/
theorem matchGlob_star (ha : 42 ∉ a) (hb : 42 ∉ b) :
    CachedStore.matchGlob (a ++ 42 :: b) key = true ↔ a ++ 42 :: b = key ∨ a <+: key ∧ b <:+ key := by
  unfold CachedStore.matchGlob
  by_cases heq : a ++ 42 :: b = key
  · rw [if_pos heq]
    exact iff_of_true rfl (Or.inl heq)
  rw [if_neg heq, or_iff_right heq]
  rcases List.eq_nil_or_concat b with rfl | ⟨b', c, rfl⟩
  · rw [List.getLast?_concat, if_pos rfl, List.dropLast_concat, List.isPrefixOf_iff_prefix]
    exact (and_iff_left List.nil_suffix).symm
  · have hc : c ≠ 42 := fun h => hb (by simp [h])
    have hlast : ¬ (a ++ 42 :: b'.concat c).getLast? = some 42 := by
      rw [List.concat_eq_append, ← List.cons_append, ← List.append_assoc, List.getLast?_concat]
      simpa using hc
    rw [if_neg hlast]
    cases a with
    | nil =>
        rw [List.nil_append, List.head?_cons, if_pos rfl, List.tail_cons, List.isSuffixOf_iff_suffix]
        exact (and_iff_right List.nil_prefix).symm
    | cons d a' =>
        have hd : ¬ (d :: a' ++ 42 :: b'.concat c).head? = some 42 := by
          rw [List.cons_append, List.head?_cons]
          exact fun h => ha (by simp [Option.some.inj h])
        have hcontains : (d :: a' ++ 42 :: b'.concat c).contains 42 = true := by simp
        rw [if_neg hd, if_pos hcontains, takeWhile_ne_star ha, dropWhile_ne_star ha, List.tail_cons,
          Bool.and_eq_true, List.isPrefixOf_iff_prefix, List.isSuffixOf_iff_suffix]

/-- Of several stars the matcher takes all but one literally. -/
theorem matchGlob_stars (ha : 42 ∉ a) (hb : 42 ∈ b) (hkey : 42 ∉ key) :
    CachedStore.matchGlob (a ++ 42 :: b) key = false := by
  have hne : ¬ a ++ 42 :: b = key := fun h => hkey (h ▸ by simp)
  unfold CachedStore.matchGlob
  rw [if_neg hne]
  split_ifs with hlast hhead hcontains
  · rw [Bool.eq_false_iff]
    intro h
    refine hkey ((List.isPrefixOf_iff_prefix.mp h).subset ?_)
    have hdrop : (a ++ 42 :: b).dropLast = a ++ 42 :: b.dropLast := by
      rw [List.dropLast_append_of_ne_nil (List.cons_ne_nil _ _), List.dropLast_cons_of_ne_nil (List.ne_nil_of_mem hb)]
    rw [hdrop]
    simp
  · rw [Bool.eq_false_iff]
    intro h
    refine hkey ((List.isSuffixOf_iff_suffix.mp h).subset ?_)
    cases a with
    | nil => exact hb
    | cons d a' =>
        rw [List.cons_append, List.tail_cons]
        simp
  · rw [dropWhile_ne_star ha, List.tail_cons, Bool.eq_false_iff]
    intro h
    exact hkey ((List.isSuffixOf_iff_suffix.mp (Bool.and_eq_true_iff.mp h).2).subset hb)
  · rfl

/-- **A pattern is matched as it should be**, for every key, exactly if it is plain. -/
theorem matchGlob_right_iff (p : Bytes) :
    (∀ key, CachedStore.matchGlob p key = true ↔ InCacheLanguage p key) ↔ PlainPattern p := by
  constructor
  · intro hright
    by_cases hp : 42 ∈ p
    · obtain ⟨a, b, rfl, ha⟩ := List.eq_append_cons_of_mem hp
      have hb : 42 ∉ b := by
        intro hb
        have hstarless : 42 ∉ (a ++ 42 :: b).filter (· ≠ 42) := by simp
        have hlost := matchGlob_stars ha hb hstarless
        rw [(hright _).mpr (inCacheLanguage_filter _)] at hlost
        cases hlost
      refine Or.inr ⟨a, b, rfl, ha, hb, ?_⟩
      rintro w ⟨a', rfl⟩ ⟨b', rfl⟩
      -- the key in which both have the overlap in common is accepted, and is too short
      have haccepted : CachedStore.matchGlob (a' ++ w ++ 42 :: (w ++ b')) (a' ++ w ++ b') = true :=
        (matchGlob_star ha hb).mpr (Or.inr ⟨⟨b', rfl⟩, ⟨a', (List.append_assoc _ _ _).symm⟩⟩)
      obtain ⟨m, hm⟩ := (inCacheLanguage_star ha hb).mp ((hright _).mp haccepted)
      have hlen := congrArg List.length hm
      simp only [List.length_append] at hlen
      exact List.eq_nil_of_length_eq_zero (by omega)
    · exact Or.inl hp
  · rintro (hp | ⟨a, b, rfl, ha, hb, hoverlap⟩) key
    · rw [matchGlob_literal hp, inCacheLanguage_literal hp]
    · rw [matchGlob_star ha hb, inCacheLanguage_star ha hb]
      constructor
      · rintro (rfl | ⟨⟨x, hx⟩, ⟨y, hy⟩⟩)
        · exact ⟨[42], rfl⟩
        · rcases List.append_eq_append_iff.mp (hx.trans hy.symm) with ⟨m, hm, hmx⟩ | ⟨w, hw, hwb⟩
          · exact ⟨m, by rw [← hx, hmx]⟩
          · obtain rfl := hoverlap w ⟨y, hw.symm⟩ ⟨x, hwb.symm⟩
            exact ⟨[], by rw [← hx, hwb]; rfl⟩
      · rintro ⟨m, rfl⟩
        exact Or.inr ⟨⟨m ++ b, rfl⟩, ⟨a ++ m, List.append_assoc _ _ _⟩⟩

/-! ### The policy -/

section policy
variable {S : Type}

/-- A key is cached exactly if some include pattern matches it or no exclude pattern does. -/
def CachesAsListed (s : CachedStore S) (key : Bytes) : Prop :=
  s.shouldCache key = true ↔
    (∃ p ∈ s.includePatterns, InCacheLanguage p key) ∨ ¬ ∃ p ∈ s.excludePatterns, InCacheLanguage p key

theorem matchesAnyPattern_iff (key : Bytes) (patterns : List Bytes) :
    CachedStore.matchesAnyPattern key patterns = true ↔ ∃ p ∈ patterns, CachedStore.matchGlob p key = true :=
  List.any_eq_true

/-- What the code tests; an empty list matches nothing. -/
theorem shouldCache_iff (s : CachedStore S) (key : Bytes) : s.shouldCache key = true ↔
    (∃ p ∈ s.includePatterns, CachedStore.matchGlob p key = true) ∨
      ¬ ∃ p ∈ s.excludePatterns, CachedStore.matchGlob p key = true := by
  have hany (patterns : List Bytes) : (!patterns.isEmpty && CachedStore.matchesAnyPattern key patterns) = true ↔
      ∃ p ∈ patterns, CachedStore.matchGlob p key = true := by
    rw [Bool.and_eq_true, matchesAnyPattern_iff]
    refine and_iff_right_of_imp ?_
    rintro ⟨p, hp, -⟩
    simpa using List.ne_nil_of_mem hp
  rw [← hany, ← hany, CachedStore.shouldCache]
  cases (!s.includePatterns.isEmpty && CachedStore.matchesAnyPattern key s.includePatterns) <;>
    cases (!s.excludePatterns.isEmpty && CachedStore.matchesAnyPattern key s.excludePatterns) <;> simp

/-- **The patterns of the cache.**  A pattern is matched as its language says, for every key, exactly if it
is plain; and with patterns from some set every key is cached as the lists say, whatever the lists,
exactly if all patterns of the set are plain. -/
theorem cache_patterns_iff :
    (∀ p, (∀ key, CachedStore.matchGlob p key = true ↔ InCacheLanguage p key) ↔ PlainPattern p) ∧
    ∀ P : Set Bytes,
      (∀ s : CachedStore S, (∀ p ∈ s.includePatterns, p ∈ P) → (∀ p ∈ s.excludePatterns, p ∈ P) →
        ∀ key, CachesAsListed s key) ↔ ∀ p ∈ P, PlainPattern p := by
  refine ⟨matchGlob_right_iff, fun P => ⟨fun hlisted p hp => ?_, fun hplain s hinc hexc key => ?_⟩⟩
  · refine (matchGlob_right_iff p).mp fun key => ?_
    have hkey := hlisted (CachedStore.new ⟨0, 0, [p], []⟩ emptyDB) (by simp [CachedStore.new])
      (by simpa [CachedStore.new] using hp) key
    rw [CachesAsListed, shouldCache_iff] at hkey
    have hneg : ¬ CachedStore.matchGlob p key = true ↔ ¬ InCacheLanguage p key := by
      simpa [CachedStore.new] using hkey
    exact not_iff_not.mp hneg
  · have hsame {patterns : List Bytes} (h : ∀ p ∈ patterns, p ∈ P) :
        (∃ p ∈ patterns, CachedStore.matchGlob p key = true) ↔ ∃ p ∈ patterns, InCacheLanguage p key :=
      exists_congr fun p => and_congr_right fun hp => (matchGlob_right_iff p).mpr (hplain p (h p hp)) key
    rw [CachesAsListed, shouldCache_iff, hsame hinc, hsame hexc]

end policy

/-- The pattern `a*b*` does not match the key `axb`, and `ab*ba` matches `aba`. -/
theorem cache_patterns_wrong :
    (CachedStore.matchGlob [97, 42, 98, 42] [97, 120, 98] = false ∧
      InCacheLanguage [97, 42, 98, 42] [97, 120, 98]) ∧
    CachedStore.matchGlob [97, 98, 42, 98, 97] [97, 98, 97] = true ∧
      ¬ InCacheLanguage [97, 98, 42, 98, 97] [97, 98, 97] := by
  refine ⟨⟨by decide, .take rfl (.more (.skip (.take rfl (.skip .nil))))⟩, by decide, fun h => ?_⟩
  obtain ⟨m, hm⟩ := (inCacheLanguage_star (a := [97, 98]) (b := [98, 97]) (by decide) (by decide)).mp h
  have hlen := congrArg List.length hm
  simp at hlen

end Postkeys
