import Postkeys.Delivery
import Postkeys.Glob
import Postkeys.Handlers.Replies

/-! # The glob matcher

The matcher of `PSUBSCRIBE`, `ZSCAN`, `HSCAN` and `SSCAN` walks along pattern and text, remembers the last `*`
it has passed and, on a mismatch, lets it swallow one byte more.  It tests for equal bytes before it
tests for a `*`, so a `*` of the pattern that meets a `*` of the text is taken literally and not
remembered (`matchGlob_iff`).

`glob_match_iff`: the loop ends within a bound and never accepts a text outside the language; it loses those
texts that need a `*` to stand for more than a `*` it meets.  So it is right on a text for every
pattern exactly if the text has no `*`, and right on a pattern for every text exactly if the pattern has
no `*`. -/

namespace Postkeys

open Glob

/-! ### The language -/

/-- The meaning of a byte of a pattern. -/
def globToken (b : UInt8) : Token UInt8 := if b = 42 then .star else if b = 63 then .one else .lit b

def globTokens (pattern : Bytes) : List (Token UInt8) := pattern.map globToken

/-- `s` is in the language of the pattern: `*` stands for any bytes, `?` for any one byte, every other byte
for itself. -/
def InLanguage (pattern s : Bytes) : Prop := Matches (globTokens pattern) s

variable {p s : Bytes} {c c' : GlobState} {a b : UInt8}

@[simp] theorem globTokens_nil : globTokens [] = [] := rfl

@[simp] theorem globTokens_cons (b : UInt8) (p : Bytes) : globTokens (b :: p) = globToken b :: globTokens p := rfl

@[simp] theorem globTokens_append (p q : Bytes) : globTokens (p ++ q) = globTokens p ++ globTokens q :=
  List.map_append

theorem globToken_star : globToken b = .star ↔ b = 42 := by
  unfold globToken
  split_ifs with h₁ h₂
  · simp [h₁]
  · simp [h₁]
  · simp [h₁]

theorem globToken_takes (hb : b ≠ 42) : (globToken b).Takes a ↔ b = 63 ∨ b = a := by
  unfold globToken
  rw [if_neg hb]
  split_ifs with h
  · exact iff_of_true trivial (Or.inl h)
  · rw [or_iff_right h]
    exact eq_comm

theorem globTokens_star : (∀ t ∈ globTokens p, t = .star) ↔ ∀ b ∈ p, b = 42 := by
  rw [globTokens, List.forall_mem_map]
  exact forall₂_congr fun b _ => globToken_star

/-- Every text is in the language of itself. -/
theorem inLanguage_self (q : Bytes) {r x : Bytes} (h : InLanguage r x) : InLanguage (q ++ r) (q ++ x) := by
  induction q with
  | nil => exact h
  | cons b q ih =>
      rw [InLanguage, List.cons_append, List.cons_append, globTokens_cons]
      by_cases hb : b = 42
      · rw [globToken_star.mpr hb]
        exact .more (.skip ih)
      · exact .take ((globToken_takes hb).mpr (Or.inr rfl)) ih

/-! ### One round of the loop -/

/-- What a round can do. -/
inductive GlobMove (p s : Bytes) (c : GlobState) : GlobState ⊕ Bool → Prop
  | take {b a : UInt8} : p[c.pi]? = some b → s[c.si]? = some a → b = 63 ∨ b = a →
      GlobMove p s c (.inl ⟨c.pi + 1, c.si + 1, c.star⟩)
  | save {a : UInt8} : p[c.pi]? = some 42 → s[c.si]? = some a → a ≠ 42 →
      GlobMove p s c (.inl ⟨c.pi + 1, c.si, some (c.pi, c.si)⟩)
  | restart {a : UInt8} {k m : ℕ} : s[c.si]? = some a →
      (∀ b, p[c.pi]? = some b → b ≠ 42 ∧ ¬ (b = 63 ∨ b = a)) → c.star = some (k, m) →
      GlobMove p s c (.inl ⟨k + 1, m + 1, some (k, m + 1)⟩)
  | fail {a : UInt8} : s[c.si]? = some a → (∀ b, p[c.pi]? = some b → b ≠ 42 ∧ ¬ (b = 63 ∨ b = a)) →
      c.star = none → GlobMove p s c (.inr false)
  | finish {answer : Bool} : s[c.si]? = none → (answer = true ↔ ∀ b ∈ p.drop c.pi, b = 42) →
      GlobMove p s c (.inr answer)

theorem dropWhile_star (q : Bytes) : (q.dropWhile (· == 42)).isEmpty = true ↔ ∀ b ∈ q, b = 42 := by
  rw [List.isEmpty_iff, List.dropWhile_eq_nil_iff]
  simp

theorem globMove (p s : Bytes) (c : GlobState) : GlobMove p s c (globStep p s c) := by
  unfold globStep
  cases hs : s[c.si]? with
  | none => exact .finish hs (dropWhile_star _)
  | some a =>
      dsimp only
      split_ifs with htake hstar
      · cases hp : p[c.pi]? with
        | none =>
            rw [hp] at htake
            rcases htake with h | h <;> cases h
        | some b =>
            rw [hp] at htake
            refine .take hp hs ?_
            simpa using htake
      · refine .save hstar hs ?_
        rintro rfl
        exact htake (Or.inr hstar)
      · have hno (b : UInt8) (hb : p[c.pi]? = some b) : b ≠ 42 ∧ ¬ (b = 63 ∨ b = a) := by
          rw [hb] at htake hstar
          simpa [and_comm] using And.intro htake hstar
        cases hc : c.star with
        | none => exact .fail hs hno hc
        | some km => exact .restart hs hno hc

theorem drop_of_getElem? {l : Bytes} {i : ℕ} {x : UInt8} (h : l[i]? = some x) : l.drop i = x :: l.drop (i + 1) := by
  obtain ⟨hlt, hx⟩ := List.getElem?_eq_some_iff.mp h
  rw [List.drop_eq_getElem_cons hlt, hx]

/-- What every round keeps holds where the answer is given. -/
theorem globLoop_ends {I : GlobState → Prop} (hstep : ∀ c c', I c → GlobMove p s c (.inl c') → I c') {n : ℕ}
    {answer : Bool} (h : globLoop p s n c = some answer) (hc : I c) :
    ∃ c', I c' ∧ GlobMove p s c' (.inr answer) := by
  induction n generalizing c with
  | zero => cases h
  | succ n ih =>
      have hmove := globMove p s c
      rw [globLoop] at h
      cases hr : globStep p s c with
      | inl c' =>
          rw [hr] at h hmove
          exact ih h (hstep c c' hc hmove)
      | inr b =>
          rw [hr] at h hmove
          cases h
          exact ⟨c, hc, hmove⟩

/-! ### The loop ends -/

/-- How many rounds may still follow: a restart moves the text behind the star, everything else moves
forward in the pattern. -/
def globRounds (p s : Bytes) (c : GlobState) : ℕ :=
  (s.length + 1 - c.star.elim 0 Prod.snd) * (p.length + 2) + (p.length + 1 - c.pi)

/-- The indices of the loop are within bounds. -/
structure GlobBounds (p s : Bytes) (c : GlobState) : Prop where
  pi_le : c.pi ≤ p.length
  star_lt : ∀ k m, c.star = some (k, m) → k < p.length ∧ m ≤ c.si

theorem globRounds_lt (hc : GlobBounds p s c) (h : GlobMove p s c (.inl c')) :
    GlobBounds p s c' ∧ globRounds p s c' < globRounds p s c := by
  obtain ⟨hpi, hstar⟩ := hc
  cases h with
  | take hp hs _ =>
      obtain ⟨hlt, -⟩ := List.getElem?_eq_some_iff.mp hp
      refine ⟨⟨hlt, fun k m hkm => ?_⟩, ?_⟩
      · obtain ⟨hk, hm⟩ := hstar k m hkm
        exact ⟨hk, Nat.le_succ_of_le hm⟩
      · dsimp only [globRounds]
        omega
  | save hp hs _ =>
      obtain ⟨hlt, -⟩ := List.getElem?_eq_some_iff.mp hp
      refine ⟨⟨hlt, fun k m hkm => ?_⟩, ?_⟩
      · cases hkm
        exact ⟨hlt, le_rfl⟩
      · have hm : c.star.elim 0 Prod.snd ≤ c.si := by
          cases hst : c.star with
          | none => exact Nat.zero_le _
          | some km => exact (hstar km.1 km.2 hst).2
        have hmul := Nat.mul_le_mul_right (p.length + 2) (Nat.sub_le_sub_left hm (s.length + 1))
        dsimp only [globRounds, Option.elim_some]
        omega
  | @restart a k m hs _ hst =>
      obtain ⟨hk, hm⟩ := hstar k m hst
      obtain ⟨hlt, -⟩ := List.getElem?_eq_some_iff.mp hs
      refine ⟨⟨hk, fun k' m' hkm => ?_⟩, ?_⟩
      · cases hkm
        exact ⟨hk, le_rfl⟩
      · have hmul : (s.length + 1 - m) * (p.length + 2) =
            (s.length + 1 - (m + 1)) * (p.length + 2) + (p.length + 2) := by
          rw [← Nat.succ_mul]
          congr 1
          omega
        dsimp only [globRounds, Option.elim_some]
        rw [hst, Option.elim_some, hmul]
        omega

theorem globLoop_returns {n : ℕ} (hc : GlobBounds p s c) (hn : globRounds p s c < n) :
    ∃ answer, globLoop p s n c = some answer := by
  induction n generalizing c with
  | zero => exact absurd hn (Nat.not_lt_zero _)
  | succ n ih =>
      have hmove := globMove p s c
      rw [globLoop]
      cases hr : globStep p s c with
      | inl c' =>
          rw [hr] at hmove
          obtain ⟨hc', hlt⟩ := globRounds_lt hc hmove
          exact ih hc' (by omega)
      | inr b => exact ⟨b, rfl⟩

/-- **The matcher terminates**: the loop gives its answer within the bound. -/
theorem globLoop_terminates (p s : Bytes) :
    globLoop p s ((s.length + 2) * (s.length + p.length + 2)) ⟨0, 0, none⟩ = some (matchGlob p s) := by
  have hrounds : globRounds p s ⟨0, 0, none⟩ < (s.length + 2) * (s.length + p.length + 2) := by
    dsimp only [globRounds, Option.elim_none]
    rw [Nat.sub_zero, Nat.sub_zero]
    nlinarith
  obtain ⟨answer, h⟩ := globLoop_returns ⟨Nat.zero_le _, fun _ _ h => by cases h⟩ hrounds
  rw [matchGlob, h, Option.getD_some]

/-! ### What is accepted -/

/-- `s` is in the language of the pattern also if a `*` of the pattern that meets a `*` of the text stands for
that byte alone. -/
def InEagerLanguage (pattern s : Bytes) : Prop := Eager (· = 42) (globTokens pattern) s

theorem globToken_meets (h : b = 63 ∨ b = a) : (globToken b).Meets (· = 42) a := by
  by_cases hb : b = 42
  · refine Or.inr ⟨globToken_star.mpr hb, ?_⟩
    rcases h with h | h
    · exact absurd (hb.symm.trans h) (by decide)
    · exact h.symm.trans hb
  · exact Or.inl ((globToken_takes hb).mpr h)

/-- A match from here, or from behind the last star on, is a match of the whole. -/
structure GlobSound (p s : Bytes) (c : GlobState) : Prop where
  here : Eager (· = 42) (globTokens (p.drop c.pi)) (s.drop c.si) → InEagerLanguage p s
  back : ∀ k m, c.star = some (k, m) → ∀ i, m ≤ i →
    Eager (· = 42) (globTokens (p.drop (k + 1))) (s.drop i) → InEagerLanguage p s

theorem GlobSound.step (hc : GlobSound p s c) (h : GlobMove p s c (.inl c')) : GlobSound p s c' := by
  cases h with
  | @take b a hp hs hba =>
      refine ⟨fun hm => hc.here ?_, hc.back⟩
      rw [drop_of_getElem? hp, drop_of_getElem? hs, globTokens_cons, eager_cons (globToken_meets hba)]
      exact hm
  | @save a hp hs ha =>
      have hstar {i : ℕ} (hi : c.si ≤ i) (hm : Eager (· = 42) (globTokens (p.drop (c.pi + 1))) (s.drop i)) :
          InEagerLanguage p s := by
        have hsplit := List.take_append_drop (i - c.si) (s.drop c.si)
        rw [List.drop_drop, Nat.add_sub_cancel' hi] at hsplit
        refine hc.here ?_
        rw [drop_of_getElem? hp, globTokens_cons, globToken_star.mpr rfl, ← hsplit]
        refine .absorb (fun x hx => ?_) hm
        rw [hsplit, drop_of_getElem? hs] at hx
        cases hx
        exact ha
      refine ⟨fun hm => hstar le_rfl hm, fun k m hkm i hi hm => ?_⟩
      cases hkm
      exact hstar hi hm
  | @restart a k m hs _ hst =>
      refine ⟨fun hm => hc.back k m hst (m + 1) (Nat.le_succ m) hm, fun k' m' hkm i hi hm => ?_⟩
      cases hkm
      exact hc.back k m hst i (Nat.le_of_succ_le hi) hm

theorem not_eager_of_mismatch {x : Bytes} (hno : ∀ b, p[c.pi]? = some b → b ≠ 42 ∧ ¬ (b = 63 ∨ b = a)) :
    ¬ Eager (· = 42) (globTokens (p.drop c.pi)) (a :: x) := by
  cases hp : p[c.pi]? with
  | none =>
      rw [List.drop_eq_nil_iff.mpr (List.getElem?_eq_none_iff.mp hp)]
      intro h
      cases h
  | some b =>
      obtain ⟨hb, hba⟩ := hno b hp
      rw [drop_of_getElem? hp, globTokens_cons]
      exact not_eager_cons (fun ht => hb (globToken_star.mp ht)) fun ht => hba ((globToken_takes hb).mp ht)

/-- If there is a match, there is one from here; once a star has been passed, one in which that star
swallows at least what has been tried. -/
inductive GlobComplete (p s : Bytes) (c : GlobState) : Prop
  | start : c.star = none → (InEagerLanguage p s → Eager (· = 42) (globTokens (p.drop c.pi)) (s.drop c.si)) →
      GlobComplete p s c
  | behind {k m : ℕ} {u w : Bytes} : c.star = some (k, m) → p.drop (k + 1) = u ++ p.drop c.pi →
      s.drop m = w ++ s.drop c.si → Fits (· = 42) (globTokens u) w →
      (InEagerLanguage p s → EagerLater (· = 42) (globTokens (p.drop (k + 1))) (s.drop m)) → GlobComplete p s c

theorem GlobComplete.step (hc : GlobComplete p s c) (h : GlobMove p s c (.inl c')) : GlobComplete p s c' := by
  cases h with
  | @take b a hp hs hba =>
      have hpdrop := drop_of_getElem? hp
      have hsdrop := drop_of_getElem? hs
      cases hc with
      | start hst hm =>
          refine .start hst fun h => ?_
          have hmatch := hm h
          rwa [hpdrop, hsdrop, globTokens_cons, eager_cons (globToken_meets hba)] at hmatch
      | @behind k m u w hst hu hw hfits hm =>
          have hu' : p.drop (k + 1) = (u ++ [b]) ++ p.drop (c.pi + 1) := by
            rw [hu, hpdrop, List.append_assoc]
            rfl
          have hw' : s.drop m = (w ++ [a]) ++ s.drop (c.si + 1) := by
            rw [hw, hsdrop, List.append_assoc]
            rfl
          have hfits' : Fits (· = 42) (globTokens (u ++ [b])) (w ++ [a]) := by
            rw [globTokens_append]
            exact List.rel_append hfits (.cons (globToken_meets hba) .nil)
          exact .behind hst hu' hw' hfits' hm
  | save hp hs _ =>
      have hpdrop := drop_of_getElem? hp
      refine .behind (u := []) (w := []) rfl rfl rfl .nil fun h => ?_
      cases hc with
      | start hst hm =>
          have hmatch := hm h
          rw [hpdrop, globTokens_cons, globToken_star.mpr rfl] at hmatch
          exact hmatch.toLater
      | behind hst hu hw hfits hm =>
          have hmatch := hm h
          rw [hu, hpdrop, hw, globTokens_append, globTokens_cons, globToken_star.mpr rfl] at hmatch
          exact hfits.later_star hmatch
  | @restart a k m hs hno hst =>
      cases hc with
      | start hst' _ => rw [hst] at hst'; cases hst'
      | @behind k' m' u w hst' hu hw hfits hm =>
          obtain ⟨rfl, rfl⟩ : k = k' ∧ m = m' := by
            rw [hst] at hst'
            simpa using hst'
          have hsdrop := drop_of_getElem? hs
          have hnot : ¬ Eager (· = 42) (globTokens (p.drop (k + 1))) (s.drop m) := by
            rw [hu, hw, hsdrop, globTokens_append, hfits.eager_append]
            exact not_eager_of_mismatch hno
          have hlt : m < s.length := by
            by_contra hge
            rw [List.drop_eq_nil_iff.mpr (Nat.le_of_not_lt hge), hsdrop] at hw
            exact List.append_ne_nil_of_right_ne_nil w (List.cons_ne_nil _ _) hw.symm
          rw [List.drop_eq_getElem_cons hlt] at hnot hm
          exact .behind (u := []) (w := []) rfl rfl rfl .nil fun h => (hm h).next hnot

/-- **What the matcher accepts.** -/
theorem matchGlob_iff : matchGlob p s = true ↔ InEagerLanguage p s := by
  have hloop := globLoop_terminates p s
  constructor
  · intro h
    rw [h] at hloop
    obtain ⟨c, hc, hmove⟩ := globLoop_ends (I := GlobSound p s) (fun _ _ => GlobSound.step) hloop
      ⟨fun hm => hm, fun _ _ h => by cases h⟩
    cases hmove with
    | finish hs hanswer =>
        refine hc.here ?_
        rw [List.drop_eq_nil_iff.mpr (List.getElem?_eq_none_iff.mp hs), eager_empty, globTokens_star]
        exact hanswer.mp rfl
  · intro h
    generalize matchGlob p s = answer at hloop ⊢
    obtain ⟨c, hc, hmove⟩ := globLoop_ends (I := GlobComplete p s) (fun _ _ => GlobComplete.step) hloop
      (.start rfl fun hm => hm)
    cases hmove with
    | fail hs hno hst =>
        cases hc with
        | start _ hm =>
            have hmatch := hm h
            rw [drop_of_getElem? hs] at hmatch
            exact absurd hmatch (not_eager_of_mismatch hno)
        | behind hst' _ _ _ _ => rw [hst] at hst'; cases hst'
    | finish hs hanswer =>
        refine hanswer.mpr (globTokens_star.mp ?_)
        have hnil : s.drop c.si = [] := List.drop_eq_nil_iff.mpr (List.getElem?_eq_none_iff.mp hs)
        cases hc with
        | start _ hm =>
            have hmatch := hm h
            rwa [hnil, eager_empty] at hmatch
        | behind _ hu hw hfits hm =>
            have hmatch := hm h
            rw [hu, hw, hnil, List.append_nil, globTokens_append] at hmatch
            exact hfits.later_end hmatch

/-! ### A star that meets a star -/

theorem inEagerLanguage_of_starless (h : 42 ∉ p ∨ 42 ∉ s) (hin : InLanguage p s) : InEagerLanguage p s := by
  rcases h with hp | hs
  · refine hin.eager_of_tokens fun t ht hstar => ?_
    obtain ⟨b, hb, rfl⟩ := List.mem_map.mp ht
    exact hp (globToken_star.mp hstar ▸ hb)
  · exact hin.eager_of_letters fun a ha h42 => hs (h42 ▸ ha)

/-- **A star that meets a star is lost**: behind a part that pattern and text have in common, stars and all,
a star-free rest accepts its own length only. -/
theorem matchGlob_common {q w x : Bytes} (hw : 42 ∉ w) (hlen : w.length ≠ x.length) :
    matchGlob (q ++ w) (q ++ x) = false := by
  rw [Bool.eq_false_iff, Ne, matchGlob_iff, InEagerLanguage, globTokens_append]
  have hfits : Fits (· = 42) (globTokens q) q := by
    induction q with
    | nil => exact .nil
    | cons b q ih => exact .cons (globToken_meets (Or.inr rfl)) ih
  rw [hfits.eager_append]
  intro h
  refine hlen ?_
  have hcount := h.matches.length_eq fun t ht hstar => ?_
  · rwa [globTokens, List.length_map] at hcount
  · obtain ⟨b, hb, rfl⟩ := List.mem_map.mp ht
    exact hw (globToken_star.mp hstar ▸ hb)

theorem inLanguage_replicate (v : Bytes) : InLanguage (List.replicate v.length 63) v := by
  induction v with
  | nil => exact .nil
  | cons b v ih =>
      rw [List.length_cons, List.replicate_succ, InLanguage, globTokens_cons]
      exact .take trivial ih

/-- The three matchers of the code: of `ZSCAN`, of `HSCAN` and `SSCAN`, of `PSUBSCRIBE`. -/
def globMatchers : List (Bytes → Bytes → Bool) := [matchGlob, Handlers.matchGlob, globMatch]

/-- **The glob matchers.**  Their loop ends with an answer.  They are right on a pattern and a text exactly
if the text is not in the language, or is in it even if stars that meet stars are taken literally; they
accept nothing outside the language.  On a text they are right for every pattern exactly if the text
has no `*`; on a pattern they are right for every text exactly if the pattern has no `*`. -/
theorem glob_match_iff (p s : Bytes) :
    (∃ n, globLoop p s n ⟨0, 0, none⟩ = some (matchGlob p s)) ∧
    ∀ m ∈ globMatchers, ((m p s = true ↔ InLanguage p s) ↔ (InLanguage p s → InEagerLanguage p s)) ∧
      (m p s = true → InLanguage p s) ∧
      ((∀ q, m q s = true ↔ InLanguage q s) ↔ 42 ∉ s) ∧
      ((∀ x, m p x = true ↔ InLanguage p x) ↔ 42 ∉ p) := by
  refine ⟨⟨_, globLoop_terminates p s⟩, fun m hm => ?_⟩
  obtain rfl : m = matchGlob := by
    simp only [globMatchers, List.mem_cons, List.not_mem_nil, or_false] at hm
    rcases hm with h | h | h <;> exact h
  have hsound (q x : Bytes) : matchGlob q x = true → InLanguage q x := fun h => (matchGlob_iff.mp h).matches
  have hright (q x : Bytes) (h : 42 ∉ q ∨ 42 ∉ x) : matchGlob q x = true ↔ InLanguage q x :=
    ⟨hsound q x, fun hin => matchGlob_iff.mpr (inEagerLanguage_of_starless h hin)⟩
  refine ⟨?_, hsound p s, ⟨fun hall hstar => ?_, fun hs q => hright q s (Or.inr hs)⟩,
    ⟨fun hall hstar => ?_, fun hp x => hright p x (Or.inl hp)⟩⟩
  · rw [matchGlob_iff]
    exact ⟨Iff.mpr, fun h => ⟨Eager.matches, h⟩⟩
  · -- the part before a star, the star, and one `?` more than there are bytes left
    obtain ⟨u, v, rfl⟩ := List.append_of_mem hstar
    have hlost := matchGlob_common (q := u ++ [42]) (w := List.replicate (v.length + 1) 63) (x := v)
      (fun h => absurd (List.eq_of_mem_replicate h) (by decide)) (by simp)
    rw [List.append_assoc, List.append_assoc, List.singleton_append, List.singleton_append] at hlost
    have hin : InLanguage (u ++ 42 :: List.replicate (v.length + 1) 63) (u ++ 42 :: v) :=
      inLanguage_self u (.skip (inLanguage_replicate (42 :: v)))
    rw [(hall _).mpr hin] at hlost
    cases hlost
  · -- the pattern itself with one byte more behind its last star
    obtain ⟨w, q, hwq, hw⟩ := List.eq_append_cons_of_mem (List.mem_reverse.mpr hstar)
    obtain rfl : p = q.reverse ++ 42 :: w.reverse := by
      rw [← List.reverse_reverse p, hwq]
      simp
    have hlost := matchGlob_common (q := q.reverse ++ [42]) (w := w.reverse) (x := 120 :: w.reverse)
      (fun h => hw (List.mem_reverse.mp h)) (by simp)
    rw [List.append_assoc, List.append_assoc, List.singleton_append, List.singleton_append] at hlost
    have hself : InLanguage (w.reverse ++ []) (w.reverse ++ []) := inLanguage_self w.reverse .nil
    rw [List.append_nil] at hself
    have hin : InLanguage (q.reverse ++ 42 :: w.reverse) (q.reverse ++ 42 :: 120 :: w.reverse) :=
      inLanguage_self q.reverse (.more (.more (.skip hself)))
    rw [(hall _).mpr hin] at hlost
    cases hlost

/-- The pattern `a*` does not accept the text `a*b`. -/
theorem glob_star_lost : globMatch [97, 42] [97, 42, 98] = false ∧ InLanguage [97, 42] [97, 42, 98] :=
  ⟨by decide, inLanguage_self [97] (.more (.more (.skip .nil)))⟩

end Postkeys
