import Mathlib

/-! # Patterns with wildcards

The language of a pattern made of literals, `one` (any single letter) and `star` (any sequence), over an
arbitrary alphabet (`Matches`).  `Eager` is the smaller language in which a star that meets a letter of some
kind stands for that letter alone.  For it the facts are shown that a matcher with one saved star rests
on: a part of the pattern that takes its letters one by one (`Fits`) does so in one way only, no match that
starts later is anywhere before it (`Fits.later`), and so the leftmost occurrence of the part before the next
star is as good as any other (`Fits.later_star`). -/

namespace Glob

variable {α : Type*}

/-- One element of a pattern. -/
inductive Token (α : Type*)
  | star
  | one
  | lit (a : α)
deriving DecidableEq, Repr

/-- An element other than a star takes the letter. -/
def Token.Takes : Token α → α → Prop
  | .star, _ => False
  | .one, _ => True
  | .lit b, a => a = b

/-- The language of a pattern. -/
inductive Matches : List (Token α) → List α → Prop
  | nil : Matches [] []
  | take {t : Token α} {a : α} {p : List (Token α)} {s : List α} :
      t.Takes a → Matches p s → Matches (t :: p) (a :: s)
  | skip {p : List (Token α)} {s : List α} : Matches p s → Matches (.star :: p) s
  | more {p : List (Token α)} {a : α} {s : List α} : Matches (.star :: p) s → Matches (.star :: p) (a :: s)

variable {t : Token α} {a : α} {p q u : List (Token α)} {s w x : List α}

@[simp] theorem matches_nil : Matches ([] : List (Token α)) s ↔ s = [] := by
  constructor
  · intro h
    cases h
    rfl
  · rintro rfl
    exact .nil

theorem matches_cons (ht : t ≠ .star) : Matches (t :: p) (a :: s) ↔ t.Takes a ∧ Matches p s := by
  constructor
  · intro h
    cases h with
    | take hta h => exact ⟨hta, h⟩
    | skip h => exact absurd rfl ht
    | more h => exact absurd rfl ht
  · rintro ⟨hta, h⟩
    exact .take hta h

theorem not_matches_cons_nil (ht : t ≠ .star) : ¬ Matches (t :: p) ([] : List α) := by
  intro h
  cases h with
  | skip h => exact ht rfl

/-- Without stars every element takes one letter. -/
theorem Matches.length_eq (h : Matches p s) (hp : ∀ t ∈ p, t ≠ .star) : p.length = s.length := by
  induction h with
  | nil => rfl
  | take _ _ ih => exact congrArg Nat.succ (ih fun t ht => hp t (List.mem_cons_of_mem _ ht))
  | skip => exact absurd rfl (hp _ List.mem_cons_self)
  | more => exact absurd rfl (hp _ List.mem_cons_self)

/-! ### Stars -/

/-- A star takes any first part. -/
theorem matches_star : Matches (.star :: p) s ↔ ∃ w x, s = w ++ x ∧ Matches p x := by
  constructor
  · intro h
    generalize hq : Token.star :: p = q at h
    induction h with
    | nil => cases hq
    | take hta h ih =>
        cases hq
        cases hta
    | skip h ih =>
        cases hq
        exact ⟨[], _, rfl, h⟩
    | @more p' a s h ih =>
        obtain ⟨w, x, rfl, hx⟩ := ih hq
        exact ⟨a :: w, x, rfl, hx⟩
  · rintro ⟨w, x, rfl, hx⟩
    induction w with
    | nil => exact .skip hx
    | cons a w ih => exact .more ih

/-- What can match the empty sequence: stars only. -/
theorem matches_empty : Matches p ([] : List α) ↔ ∀ t ∈ p, t = .star := by
  induction p with
  | nil => simp
  | cons t p ih =>
      by_cases ht : t = .star
      · subst ht
        rw [matches_star, List.forall_mem_cons, ← ih]
        simp
      · rw [List.forall_mem_cons]
        exact iff_of_false (not_matches_cons_nil ht) fun h => ht h.1

/-! ### Stars that are taken literally -/

/-- A match in which a star that meets one of the letters `L` stands for that letter alone; one that meets
another letter, or the end, stands for any sequence. -/
inductive Eager (L : α → Prop) : List (Token α) → List α → Prop
  | nil : Eager L [] []
  | take {t : Token α} {a : α} {p : List (Token α)} {s : List α} :
      t.Takes a → Eager L p s → Eager L (t :: p) (a :: s)
  | single {a : α} {p : List (Token α)} {s : List α} : L a → Eager L p s → Eager L (.star :: p) (a :: s)
  | absorb {p : List (Token α)} {w s : List α} : (∀ a, (w ++ s).head? = some a → ¬ L a) → Eager L p s →
      Eager L (.star :: p) (w ++ s)

section eager
variable {L : α → Prop}

theorem Eager.matches (h : Eager L p s) : Matches p s := by
  induction h with
  | nil => exact .nil
  | take hta _ ih => exact .take hta ih
  | single _ _ ih => exact .more (.skip ih)
  | @absorb p w s _ _ ih => exact matches_star.mpr ⟨w, s, rfl, ih⟩

/-- Without letters that are taken literally nothing is lost. -/
theorem Matches.eager_of_letters (hs : ∀ a ∈ s, ¬ L a) (h : Matches p s) : Eager L p s := by
  induction p generalizing s with
  | nil =>
      obtain rfl := matches_nil.mp h
      exact .nil
  | cons t p ih =>
      by_cases ht : t = .star
      · subst ht
        obtain ⟨w, x, rfl, hx⟩ := matches_star.mp h
        refine .absorb (fun a ha => hs a (List.mem_of_head? ha)) (ih (fun a ha => ?_) hx)
        exact hs a (List.mem_append_right w ha)
      · cases s with
        | nil => exact absurd h (not_matches_cons_nil ht)
        | cons a s =>
            obtain ⟨hta, hrest⟩ := (matches_cons ht).mp h
            exact .take hta (ih (fun b hb => hs b (List.mem_cons_of_mem a hb)) hrest)

/-- Nor without stars. -/
theorem Matches.eager_of_tokens (hp : ∀ t ∈ p, t ≠ .star) (h : Matches p s) : Eager L p s := by
  induction h with
  | nil => exact .nil
  | take hta _ ih => exact .take hta (ih fun t ht => hp t (List.mem_cons_of_mem _ ht))
  | skip => exact absurd rfl (hp _ List.mem_cons_self)
  | more => exact absurd rfl (hp _ List.mem_cons_self)

theorem eager_empty : Eager L p ([] : List α) ↔ ∀ t ∈ p, t = .star := by
  rw [← matches_empty]
  exact ⟨Eager.matches, Matches.eager_of_letters fun a ha => absurd ha List.not_mem_nil⟩

/-- One element of a pattern takes one letter, a star only a letter that is taken literally. -/
def Token.Meets (L : α → Prop) (t : Token α) (a : α) : Prop := t.Takes a ∨ t = .star ∧ L a

theorem eager_cons (h : t.Meets L a) : Eager L (t :: p) (a :: s) ↔ Eager L p s := by
  constructor
  · intro hm
    generalize hx : a :: s = x at hm
    cases hm with
    | take _ hm =>
        obtain ⟨-, rfl⟩ := List.cons.inj hx
        exact hm
    | single _ hm =>
        obtain ⟨-, rfl⟩ := List.cons.inj hx
        exact hm
    | absorb hhead hm =>
        -- a star that meets a literal letter cannot absorb
        have ha : L a := h.elim False.elim And.right
        exact absurd ha (hhead a (by rw [← hx]; rfl))
  · intro hm
    rcases h with hta | ⟨rfl, ha⟩
    · exact .take hta hm
    · exact .single ha hm

theorem not_eager_cons (ht : t ≠ .star) (hta : ¬ t.Takes a) : ¬ Eager L (t :: p) (a :: s) :=
  fun h => hta ((matches_cons ht).mp h.matches).1

/-- A part of a pattern takes these letters, one by one. -/
def Fits (L : α → Prop) (u : List (Token α)) (w : List α) : Prop := List.Forall₂ (Token.Meets L) u w

theorem Fits.eager_append (h : Fits L u w) : Eager L (u ++ p) (w ++ s) ↔ Eager L p s := by
  induction h with
  | nil => rfl
  | cons hta _ ih => rw [List.cons_append, List.cons_append, eager_cons hta, ih]

/-- A match that starts later is nowhere before one that takes the letters one by one. -/
theorem Fits.later {y v : List α} (h : Fits L u w) (hm : Eager L (u ++ p) y) (hy : w ++ x = v ++ y) :
    ∃ v' y', x = v' ++ y' ∧ Eager L p y' := by
  induction h generalizing v y with
  | nil => exact ⟨v, y, hy, hm⟩
  | @cons t a u w hta hfits ih =>
      cases v with
      | nil =>
          -- both are at the same letter, and then so is the rest
          rw [List.nil_append] at hy
          rw [← hy, List.cons_append, List.cons_append, eager_cons hta, Fits.eager_append hfits] at hm
          exact ⟨[], x, rfl, hm⟩
      | cons c v =>
          have htail : w ++ x = v ++ y := (List.cons.inj hy).2
          rw [List.cons_append] at hm
          generalize ht : t :: (u ++ p) = q at hm
          cases hm with
          | nil => cases ht
          | @take _ b _ y' _ hm =>
              cases ht
              exact ih hm (v := v ++ [b]) (by rw [htail, List.append_assoc]; rfl)
          | @single b _ y' _ hm =>
              cases ht
              exact ih hm (v := v ++ [b]) (by rw [htail, List.append_assoc]; rfl)
          | @absorb _ w' y' _ hm =>
              cases ht
              exact ih hm (v := v ++ w') (by rw [htail, List.append_assoc])

/-- The pattern matches some end of the letters. -/
def EagerLater (L : α → Prop) (p : List (Token α)) (s : List α) : Prop := ∃ w x, s = w ++ x ∧ Eager L p x

theorem Eager.toLater (h : Eager L (.star :: p) s) : EagerLater L p s := by
  generalize hq : Token.star :: p = q at h
  cases h with
  | nil => cases hq
  | take hta _ =>
      cases hq
      cases hta
  | @single a _ s _ h =>
      cases hq
      exact ⟨[a], s, rfl, h⟩
  | @absorb _ w s _ h =>
      cases hq
      exact ⟨w, s, rfl, h⟩

theorem EagerLater.absorb (w : List α) (h : EagerLater L p s) : EagerLater L p (w ++ s) := by
  obtain ⟨v, x, rfl, hx⟩ := h
  exact ⟨w ++ v, x, (List.append_assoc _ _ _).symm, hx⟩

/-- **The leftmost occurrence is good enough**: the part before the next star may be taken where it fits. -/
theorem Fits.later_star (h : Fits L u w) (hm : EagerLater L (u ++ .star :: p) (w ++ x)) : EagerLater L p x := by
  obtain ⟨v, y, hy, hmatch⟩ := hm
  obtain ⟨v', y', rfl, hstar⟩ := h.later hmatch hy
  exact hstar.toLater.absorb v'

/-- At the end of the letters only stars may be left behind a part that fits. -/
theorem Fits.later_end (h : Fits L u w) (hm : EagerLater L (u ++ p) w) : ∀ t ∈ p, t = .star := by
  obtain ⟨v, y, hy, hmatch⟩ := hm
  rw [← List.append_nil w] at hy
  obtain ⟨v', y', hnil, hend⟩ := h.later hmatch hy
  obtain ⟨-, rfl⟩ := List.append_eq_nil_iff.mp hnil.symm
  exact eager_empty.mp hend

/-- Where the pattern does not match from here on, it matches from the next letter on. -/
theorem EagerLater.next (h : EagerLater L p (a :: s)) (hnot : ¬ Eager L p (a :: s)) : EagerLater L p s := by
  obtain ⟨w, x, hx, hm⟩ := h
  cases w with
  | nil =>
      rw [List.nil_append] at hx
      exact absurd (hx ▸ hm) hnot
  | cons b w =>
      obtain ⟨-, rfl⟩ := List.cons.inj hx
      exact ⟨w, x, rfl, hm⟩

end eager

end Glob
