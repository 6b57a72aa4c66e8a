import Mathlib.Data.List.Infix
import Mathlib.Tactic.Common

/-! # Programs that read a stream

A `Reader` is a client of a buffered stream of symbols.  It asks for one symbol, for everything up
to a delimiter, or for a number of symbols, and is told when the stream ends first; `within` runs a
part of it inside a frame that carries a mark.

`run` executes a reader on a `Source`.  Sources are compared by `Source.Refines`: a stream that
arrives in chunks answers like the flat stream (`chunked_refines_flat`), so a reader cannot tell how
its input was split.  A reader is `Strict` if the end of the stream is an error wherever it meets
it; `Strict.framed` says that such a reader is never mistaken about where its input ends.  `frames`
lists the marks of the open frames at every point of a run. -/

namespace Stream

/-- A reading program: symbols `σ`, errors `ε`, marks `μ`, results `α`. -/
inductive Reader (σ ε μ : Type) : Type → Type 1
  | ret {α : Type} (a : α) : Reader σ ε μ α
  | fail {α : Type} (e : ε) : Reader σ ε μ α
  | one {α : Type} (next : Option σ → Reader σ ε μ α) : Reader σ ε μ α
  | upTo {α : Type} (d : σ) (next : Option (List σ) → Reader σ ε μ α) : Reader σ ε μ α
  | full {α : Type} (n : ℕ) (next : Except ℕ (List σ) → Reader σ ε μ α) : Reader σ ε μ α
  | within {α β : Type} (m : μ) (body : Reader σ ε μ β) (next : β → Reader σ ε μ α) : Reader σ ε μ α

/-- Where a reader gets its symbols from.  `upTo` includes the delimiter; `full` reports how many
symbols there were if there are too few. -/
structure Source (σ τ : Type) where
  one : τ → Option (σ × τ)
  upTo : σ → τ → Option (List σ × τ)
  full : ℕ → τ → Except ℕ (List σ × τ)
  ended : τ

variable {σ ε μ α β γ τ τ' : Type} {p : Reader σ ε μ α} {f : α → Reader σ ε μ β}

namespace Reader

/-- Continue with `f` after `p`; a failure of `p` is final. -/
def bind : Reader σ ε μ α → (α → Reader σ ε μ β) → Reader σ ε μ β
  | ret a, f => f a
  | fail e, _ => fail e
  | one next, f => one fun x => (next x).bind f
  | upTo d next, f => upTo d fun x => (next x).bind f
  | full n next, f => full n fun x => (next x).bind f
  | within m body next, f => within m body fun b => (next b).bind f

instance readerMonad : Monad (Reader σ ε μ) where
  pure := ret
  bind := bind

/-- Run a reader on a source: its result and what is left, or its error. -/
def run (src : Source σ τ) : {α : Type} → Reader σ ε μ α → τ → Except ε (α × τ)
  | _, ret a, s => .ok (a, s)
  | _, fail e, _ => .error e
  | _, one next, s =>
      match src.one s with
      | none => (next none).run src src.ended
      | some (x, s') => (next (some x)).run src s'
  | _, upTo d next, s =>
      match src.upTo d s with
      | none => (next none).run src src.ended
      | some (x, s') => (next (some x)).run src s'
  | _, full n next, s =>
      match src.full n s with
      | .error m => (next (.error m)).run src src.ended
      | .ok (x, s') => (next (.ok x)).run src s'
  | _, within _ body next, s =>
      match body.run src s with
      | .error e => .error e
      | .ok (b, s') => (next b).run src s'

@[simp] theorem pure_eq (a : α) : (pure a : Reader σ ε μ α) = ret a := rfl

@[simp] theorem bind_eq (p : Reader σ ε μ α) (f : α → Reader σ ε μ β) : p >>= f = p.bind f := rfl

theorem run_bind (src : Source σ τ) (p : Reader σ ε μ α) (f : α → Reader σ ε μ β) (s : τ) :
    (p.bind f).run src s = match p.run src s with
      | .error e => .error e
      | .ok (a, s') => (f a).run src s' := by
  induction p generalizing s with
  | ret a => rfl
  | fail e => rfl
  | one next ih => cases h : src.one s <;> simp only [bind, run, h, ih]
  | upTo d next ih => cases h : src.upTo d s <;> simp only [bind, run, h, ih]
  | full n next ih => cases h : src.full n s <;> simp only [bind, run, h, ih]
  | within m body next _ ih => cases h : body.run src s <;> simp only [bind, run, h, ih]

theorem run_bind_ok {src : Source σ τ} {s s' : τ} {a : α}
    (h : p.run src s = .ok (a, s')) : (p.bind f).run src s = (f a).run src s' := by
  rw [run_bind, h]

/-- A bound reader succeeds only if its first part does. -/
theorem run_bind_eq_ok {src : Source σ τ} {s s' : τ}
    {b : β} : (p.bind f).run src s = .ok (b, s') ↔
      ∃ a t, p.run src s = .ok (a, t) ∧ (f a).run src t = .ok (b, s') := by
  rw [run_bind]
  constructor
  · intro h
    cases hp : p.run src s with
    | error e => rw [hp] at h; cases h
    | ok r => rw [hp] at h; exact ⟨r.1, r.2, rfl, h⟩
  · rintro ⟨a, t, hp, hf⟩
    rw [hp]
    exact hf

end Reader

/-! ### Sources -/

/-- The source `src'` answers on `f s` as `src` does on `s`. -/
structure Source.Refines (src : Source σ τ) (src' : Source σ τ') (f : τ → τ') : Prop where
  one : ∀ s, src'.one (f s) = (src.one s).map (Prod.map id f)
  upTo : ∀ d s, src'.upTo d (f s) = (src.upTo d s).map (Prod.map id f)
  full : ∀ n s, src'.full n (f s) = (src.full n s).map (Prod.map id f)
  ended : src'.ended = f src.ended

/-- A reader cannot tell a source from one that it refines. -/
theorem Source.Refines.run {src : Source σ τ} {src' : Source σ τ'} {f : τ → τ'}
    (h : src.Refines src' f) (p : Reader σ ε μ α) (s : τ) :
    p.run src' (f s) = (p.run src s).map (Prod.map id f) := by
  induction p generalizing s with
  | ret a => rfl
  | fail e => rfl
  | one next ih =>
      cases hs : src.one s <;> simp only [Reader.run, h.one, h.ended, hs, ih] <;> simp [ih]
  | upTo d next ih =>
      cases hs : src.upTo d s <;> simp only [Reader.run, h.upTo, h.ended, hs] <;> simp [ih]
  | full n next ih =>
      cases hs : src.full n s <;> simp only [Reader.run, h.full, h.ended, hs] <;> simp [Except.map, ih]
  | within m body next ihb ih =>
      simp only [Reader.run, ihb]
      cases body.run src s with
      | error e => rfl
      | ok r => exact ih r.1 r.2

variable [DecidableEq σ]

/-- Split a list after the first occurrence of `d`. -/
def splitUpTo (d : σ) : List σ → Option (List σ × List σ)
  | [] => none
  | x :: s => if x = d then some ([x], s) else (splitUpTo d s).map fun r => (x :: r.1, r.2)

/-- Split a list after `n` elements. -/
def splitFull (n : ℕ) (s : List σ) : Except ℕ (List σ × List σ) :=
  if n ≤ s.length then .ok (s.take n, s.drop n) else .error s.length

/-- A stream that is there as a whole. -/
def flat : Source σ (List σ) where
  one
    | [] => none
    | x :: s => some (x, s)
  upTo := splitUpTo
  full := splitFull
  ended := []

/-- The first symbol of a stream in chunks. -/
def chunksOne : List (List σ) → Option (σ × List (List σ))
  | [] => none
  | [] :: cs => chunksOne cs
  | (x :: c) :: cs => some (x, c :: cs)

/-- Collect chunks until one has the delimiter. -/
def chunksUpTo (d : σ) : List (List σ) → Option (List σ × List (List σ))
  | [] => none
  | c :: cs =>
      match splitUpTo d c with
      | some (x, c') => some (x, c' :: cs)
      | none => (chunksUpTo d cs).map fun r => (c ++ r.1, r.2)

/-- Collect chunks until there are `n` symbols. -/
def chunksFull (n : ℕ) : List (List σ) → Except ℕ (List σ × List (List σ))
  | [] => if n = 0 then .ok ([], []) else .error 0
  | c :: cs =>
      if n ≤ c.length then .ok (c.take n, c.drop n :: cs)
      else match chunksFull (n - c.length) cs with
        | .ok (x, cs') => .ok (c ++ x, cs')
        | .error m => .error (c.length + m)

/-- A stream that arrives in chunks. -/
def chunked : Source σ (List (List σ)) where
  one := chunksOne
  upTo := chunksUpTo
  full := chunksFull
  ended := []

theorem splitUpTo_append (d : σ) (c s : List σ) :
    splitUpTo d (c ++ s) = match splitUpTo d c with
      | some (x, c') => some (x, c' ++ s)
      | none => (splitUpTo d s).map fun r => (c ++ r.1, r.2) := by
  induction c with
  | nil => cases h : splitUpTo d s <;> simp [splitUpTo, h]
  | cons x c ih =>
      rw [List.cons_append, splitUpTo, splitUpTo, ih]
      split_ifs
      · rfl
      · cases splitUpTo d c with
        | some r => rfl
        | none => cases splitUpTo d s <;> rfl

theorem flat_one_flatten (cs : List (List σ)) :
    flat.one cs.flatten = (chunksOne cs).map (Prod.map id List.flatten) := by
  induction cs with
  | nil => rfl
  | cons c cs ih =>
      cases c with
      | nil => exact ih
      | cons x c => rfl

theorem splitUpTo_flatten (d : σ) (cs : List (List σ)) :
    splitUpTo d cs.flatten = (chunksUpTo d cs).map (Prod.map id List.flatten) := by
  induction cs with
  | nil => rfl
  | cons c cs ih =>
      rw [List.flatten_cons, splitUpTo_append, chunksUpTo, ih]
      cases splitUpTo d c with
      | some r => rfl
      | none => cases chunksUpTo d cs <;> rfl

omit [DecidableEq σ] in
theorem splitFull_flatten (n : ℕ) (cs : List (List σ)) :
    splitFull n cs.flatten = (chunksFull n cs).map (Prod.map id List.flatten) := by
  induction cs generalizing n with
  | nil =>
      by_cases h : n = 0
      · subst h; rfl
      · simp [splitFull, chunksFull, h, Except.map]
  | cons c cs ih =>
      rw [List.flatten_cons, chunksFull]
      by_cases h : n ≤ c.length
      · have hle : n ≤ (c ++ cs.flatten).length := by
          rw [List.length_append]
          omega
        rw [if_pos h, splitFull, if_pos hle, List.take_append_of_le_length h,
          List.drop_append_of_le_length h]
        rfl
      · have ih := ih (n - c.length)
        rw [if_neg h]
        rw [splitFull] at ih ⊢
        rw [List.length_append]
        by_cases hle : n - c.length ≤ cs.flatten.length
        · rw [if_pos hle] at ih
          rw [if_pos (by omega), List.take_append, List.drop_append, List.take_of_length_le (by omega),
            List.drop_of_length_le (by omega), List.nil_append]
          cases hr : chunksFull (n - c.length) cs with
          | error m => rw [hr] at ih; cases ih
          | ok r =>
              rw [hr] at ih
              injection ih with ih
              rw [Prod.mk.injEq] at ih
              simp [Except.map, ih.1, ih.2]
        · rw [if_neg hle] at ih
          rw [if_neg (by omega)]
          cases hr : chunksFull (n - c.length) cs with
          | ok r => rw [hr] at ih; cases ih
          | error m =>
              rw [hr] at ih
              injection ih with ih
              simp [Except.map, ih]

/-- A stream in chunks answers like the stream they make up. -/
theorem chunked_refines_flat : (chunked : Source σ _).Refines flat List.flatten where
  one := flat_one_flatten
  upTo := splitUpTo_flatten
  full := splitFull_flatten
  ended := rfl

/-! ### Framing -/

theorem splitUpTo_eq_some {d : σ} {s x t : List σ} (h : splitUpTo d s = some (x, t)) :
    s = x ++ t ∧ x ≠ [] ∧ (∀ t', splitUpTo d (x ++ t') = some (x, t')) ∧
      ∀ u, u <+: x → u ≠ x → splitUpTo d u = none := by
  induction s generalizing x with
  | nil => cases h
  | cons y s ih =>
      rw [splitUpTo] at h
      split_ifs at h with hy
      · cases h
        refine ⟨rfl, by simp, fun t' => by simp [splitUpTo, hy], fun u hu hne => ?_⟩
        rcases List.prefix_cons_iff.mp hu with rfl | ⟨u', rfl, hu'⟩
        · rfl
        · rw [List.prefix_nil.mp hu'] at hne
          exact absurd rfl hne
      · obtain ⟨⟨x', t₀⟩, hx', heq⟩ := Option.map_eq_some_iff.mp h
        cases heq
        obtain ⟨rfl, -, hext, hcut⟩ := ih hx'
        refine ⟨rfl, by simp, fun t' => by simp [splitUpTo, hy, hext], fun u hu hne => ?_⟩
        rcases List.prefix_cons_iff.mp hu with rfl | ⟨u', rfl, hu'⟩
        · rfl
        · have hnone := hcut u' hu' fun h => hne (by rw [h])
          simp [splitUpTo, hy, hnone]

omit [DecidableEq σ] in
theorem splitFull_eq_ok {n : ℕ} {s x t : List σ} (h : splitFull n s = .ok (x, t)) :
    s = x ++ t ∧ x.length = n := by
  rw [splitFull] at h
  split_ifs at h with hn
  cases h
  exact ⟨(List.take_append_drop n s).symm, List.length_take_of_le hn⟩

omit [DecidableEq σ] in
theorem splitFull_append {n : ℕ} {x : List σ} (hx : x.length = n) (t : List σ) :
    splitFull n (x ++ t) = .ok (x, t) := by
  subst hx
  simp [splitFull]

omit [DecidableEq σ] in
theorem splitFull_of_lt {n : ℕ} {u : List σ} (h : u.length < n) : splitFull n u = .error u.length :=
  if_neg (by omega)

namespace Reader

/-- The end of the stream is an error wherever the reader meets it. -/
def Strict : {α : Type} → Reader σ ε μ α → Prop
  | _, ret _ => True
  | _, fail _ => True
  | _, one next => (∃ e, next none = fail e) ∧ ∀ x, (next (some x)).Strict
  | _, upTo _ next => (∃ e, next none = fail e) ∧ ∀ x, (next (some x)).Strict
  | _, full _ next => (∀ n, ∃ e, next (.error n) = fail e) ∧ ∀ x, (next (.ok x)).Strict
  | _, within _ body next => body.Strict ∧ ∀ b, (next b).Strict

omit [DecidableEq σ] in
theorem Strict.bind (hp : p.Strict)
    (hf : ∀ a, (f a).Strict) : (p.bind f).Strict := by
  induction p with
  | ret a => exact hf a
  | fail e => exact trivial
  | one next ih =>
      obtain ⟨⟨e, he⟩, hnext⟩ := hp
      exact ⟨⟨e, congrArg (Reader.bind · f) he⟩, fun x => ih _ (hnext x) hf⟩
  | upTo d next ih =>
      obtain ⟨⟨e, he⟩, hnext⟩ := hp
      exact ⟨⟨e, congrArg (Reader.bind · f) he⟩, fun x => ih _ (hnext x) hf⟩
  | full n next ih =>
      obtain ⟨hfail, hnext⟩ := hp
      refine ⟨fun m => ?_, fun x => ih _ (hnext x) hf⟩
      obtain ⟨e, he⟩ := hfail m
      exact ⟨e, congrArg (Reader.bind · f) he⟩
  | within m body next _ ih => exact ⟨hp.1, fun b => ih b (hp.2 b) hf⟩

/-- The reader takes exactly the symbols `used` for the result `a`: whatever follows them stays
unread, and on a proper prefix of them it fails. -/
structure Framed (p : Reader σ ε μ α) (a : α) (used : List σ) : Prop where
  extend : ∀ t, p.run flat (used ++ t) = .ok (a, t)
  cut : ∀ u, u <+: used → u ≠ used → ∃ e, p.run flat u = .error e

/-- Extend a frame by what one request took. -/
theorem Framed.step {p q : Reader σ ε μ α} {a : α} {x used : List σ} (h : q.Framed a used)
    (hrun : ∀ t, p.run flat (x ++ t) = q.run flat t)
    (hcut : ∀ u, u <+: x → u ≠ x → ∃ e, p.run flat u = .error e) : p.Framed a (x ++ used) where
  extend t := by
    rw [List.append_assoc, hrun]
    exact h.extend t
  cut u hu hne := by
    obtain ⟨v, hv⟩ := hu
    rcases List.append_eq_append_iff.mp hv with ⟨x', rfl, -⟩ | ⟨u', rfl, rfl⟩
    · by_cases heq : u = u ++ x'
      · have hempty : ([] : List σ) ≠ used := fun h => hne (by rw [← h, List.append_nil, ← heq])
        obtain ⟨e, he⟩ := h.cut [] List.nil_prefix hempty
        have hstart := hrun []
        rw [← heq, List.append_nil, he] at hstart
        exact ⟨e, hstart⟩
      · exact hcut u (List.prefix_append u x') heq
    · rw [hrun]
      exact h.cut u' (List.prefix_append u' v) fun h => hne (congrArg (x ++ ·) h)

/-- **Framing**: a strict reader that returns a value has used a prefix of its input and depends on
nothing behind it. -/
theorem Strict.framed (hp : p.Strict) {s rest : List σ} {a : α}
    (h : p.run flat s = .ok (a, rest)) : ∃ used, s = used ++ rest ∧ p.Framed a used := by
  induction p generalizing s rest with
  | ret b =>
      cases h
      refine ⟨[], rfl, fun t => rfl, fun u hu hne => ?_⟩
      exact absurd (List.prefix_nil.mp hu) hne
  | fail e => cases h
  | one next ih =>
      obtain ⟨⟨e, he⟩, hnext⟩ := hp
      cases s with
      | nil => rw [run, flat, he] at h; cases h
      | cons x s =>
          obtain ⟨used, rfl, hframe⟩ := ih _ (hnext x) h
          refine ⟨[x] ++ used, rfl, hframe.step (fun t => rfl) fun u hu hne => ?_⟩
          rcases List.prefix_cons_iff.mp hu with rfl | ⟨u', rfl, hu'⟩
          · exact ⟨e, by rw [run, flat, he]; rfl⟩
          · rw [List.prefix_nil.mp hu'] at hne
            exact absurd rfl hne
  | upTo d next ih =>
      obtain ⟨⟨e, he⟩, hnext⟩ := hp
      rw [run, flat] at h
      cases hs : splitUpTo d s with
      | none => simp only [hs, he] at h; cases h
      | some r =>
          obtain ⟨x, t⟩ := r
          obtain ⟨rfl, -, hext, hcut⟩ := splitUpTo_eq_some hs
          simp only [hs] at h
          obtain ⟨used, rfl, hframe⟩ := ih _ (hnext x) h
          refine ⟨x ++ used, (List.append_assoc ..).symm, hframe.step (fun t => ?_) fun u hu hne => ?_⟩
          · simp only [run, flat, hext]
          · exact ⟨e, by simp only [run, flat, hcut u hu hne, he]⟩
  | full n next ih =>
      obtain ⟨hfail, hnext⟩ := hp
      rw [run, flat] at h
      cases hs : splitFull n s with
      | error m =>
          obtain ⟨e, he⟩ := hfail m
          simp only [hs, he] at h
          cases h
      | ok r =>
          obtain ⟨x, t⟩ := r
          obtain ⟨rfl, hlen⟩ := splitFull_eq_ok hs
          simp only [hs] at h
          obtain ⟨used, rfl, hframe⟩ := ih _ (hnext x) h
          refine ⟨x ++ used, (List.append_assoc ..).symm, hframe.step (fun t => ?_) fun u hu hne => ?_⟩
          · simp only [run, flat, splitFull_append hlen]
          · have hlt : u.length < n := by
              have hle := hu.length_le
              rcases hle.lt_or_eq with hlt | heq
              · omega
              · exact absurd (hu.eq_of_length heq) hne
            obtain ⟨e, he⟩ := hfail u.length
            exact ⟨e, by simp only [run, flat, splitFull_of_lt hlt, he]⟩
  | within m body next ihb ih =>
      rw [run] at h
      cases hb : body.run flat s with
      | error e => rw [hb] at h; cases h
      | ok r =>
          obtain ⟨b, t⟩ := r
          rw [hb] at h
          obtain ⟨x, rfl, hbody⟩ := ihb hp.1 hb
          obtain ⟨used, rfl, hframe⟩ := ih b (hp.2 b) h
          refine ⟨x ++ used, (List.append_assoc ..).symm, hframe.step (fun t => ?_) fun u hu hne => ?_⟩
          · simp only [run, hbody.extend]
          · obtain ⟨e, he⟩ := hbody.cut u hu hne
            exact ⟨e, by simp only [run, he]⟩

/-- What a reader leaves is a suffix of its input. -/
theorem run_suffix {s rest : List σ} {a : α} (h : p.run flat s = .ok (a, rest)) :
    rest <:+ s := by
  induction p generalizing s rest with
  | ret b => cases h; exact List.suffix_rfl
  | fail e => cases h
  | one next ih =>
      cases s with
      | nil => exact ih none h
      | cons x s => exact (ih (some x) h).trans (List.suffix_cons x s)
  | upTo d next ih =>
      rw [run, flat] at h
      cases hs : splitUpTo d s with
      | none =>
          simp only [hs] at h
          rw [List.suffix_nil.mp (ih _ h)]
          exact List.nil_suffix
      | some r =>
          obtain ⟨x, t⟩ := r
          obtain ⟨rfl, -⟩ := splitUpTo_eq_some hs
          simp only [hs] at h
          exact (ih _ h).trans (List.suffix_append x t)
  | full n next ih =>
      rw [run, flat] at h
      cases hs : splitFull n s with
      | error m =>
          simp only [hs] at h
          rw [List.suffix_nil.mp (ih _ h)]
          exact List.nil_suffix
      | ok r =>
          obtain ⟨x, t⟩ := r
          obtain ⟨rfl, -⟩ := splitFull_eq_ok hs
          simp only [hs] at h
          exact (ih _ h).trans (List.suffix_append x t)
  | within m body next ihb ih =>
      rw [run] at h
      cases hb : body.run flat s with
      | error e => rw [hb] at h; cases h
      | ok r =>
          rw [hb] at h
          exact (ih r.1 h).trans (ihb hb)

/-! ### Open frames -/

/-- The marks of the open frames, innermost first, at every point of a run that starts inside the
frames `st`. -/
def frames : {α : Type} → Reader σ ε μ α → List μ → List σ → List (List μ)
  | _, ret _, st, _ => [st]
  | _, fail _, st, _ => [st]
  | _, one next, st, s =>
      st :: match flat.one s with
        | none => (next none).frames st []
        | some (x, s') => (next (some x)).frames st s'
  | _, upTo d next, st, s =>
      st :: match flat.upTo d s with
        | none => (next none).frames st []
        | some (x, s') => (next (some x)).frames st s'
  | _, full n next, st, s =>
      st :: match flat.full n s with
        | .error m => (next (.error m)).frames st []
        | .ok (x, s') => (next (.ok x)).frames st s'
  | _, within m body next, st, s =>
      st :: body.frames (m :: st) s ++ match body.run flat s with
        | .error _ => []
        | .ok (b, s') => (next b).frames st s'

theorem self_mem_frames (p : Reader σ ε μ α) (st : List μ) (s : List σ) : st ∈ p.frames st s := by
  cases p <;> simp [frames]

theorem mem_frames_bind {st x : List μ} {s : List σ} :
    x ∈ (p.bind f).frames st s ↔ x ∈ p.frames st s ∨
      ∃ a t, p.run flat s = .ok (a, t) ∧ x ∈ (f a).frames st t := by
  induction p generalizing s with
  | ret a =>
      constructor
      · exact fun h => Or.inr ⟨a, s, rfl, h⟩
      · rintro (h | ⟨_, _, ⟨⟩, h⟩)
        · rw [frames, List.mem_singleton] at h
          rw [h]
          exact self_mem_frames _ _ _
        · exact h
  | fail e =>
      refine ⟨Or.inl, ?_⟩
      rintro (h | ⟨_, _, h, _⟩)
      · exact h
      · cases h
  | one next ih =>
      cases hs : flat.one s <;> simp only [bind, frames, run, hs, List.mem_cons, ih, or_assoc]
      rfl
  | upTo d next ih =>
      cases hs : flat.upTo d s <;> simp only [bind, frames, run, hs, List.mem_cons, ih, or_assoc]
      rfl
  | full n next ih =>
      cases hs : flat.full n s <;> simp only [bind, frames, run, hs, List.mem_cons, ih, or_assoc]
      rfl
  | within m body next _ ih =>
      cases hs : body.run flat s <;>
        simp only [bind, frames, run, hs, List.mem_append, List.mem_cons, ih, or_assoc,
          List.not_mem_nil, reduceCtorEq, false_and, exists_false, or_false]

/-! ### Readers that agree on short streams -/

/-- Two readers run alike on every stream of at most `n` symbols. -/
structure Agree (n : ℕ) (p q : Reader σ ε μ α) : Prop where
  run : ∀ s, s.length ≤ n → p.run flat s = q.run flat s
  frames : ∀ s, s.length ≤ n → ∀ st x, x ∈ p.frames st s ↔ x ∈ q.frames st s

theorem Agree.refl (n : ℕ) (p : Reader σ ε μ α) : p.Agree n p :=
  ⟨fun _ _ => rfl, fun _ _ _ _ => Iff.rfl⟩

theorem Agree.bind {n : ℕ} {p q : Reader σ ε μ α} {f g : α → Reader σ ε μ β} (h : p.Agree n q)
    (hfg : ∀ a, (f a).Agree n (g a)) : (p.bind f).Agree n (q.bind g) where
  run s hs := by
    rw [run_bind, run_bind, h.run s hs]
    cases hq : q.run flat s with
    | error e => rfl
    | ok r => exact (hfg r.1).run r.2 ((run_suffix hq).length_le.trans hs)
  frames s hs st x := by
    rw [mem_frames_bind, mem_frames_bind, h.run s hs, h.frames s hs]
    refine or_congr_right (exists_congr fun a => exists_congr fun t => and_congr_right fun hq => ?_)
    exact (hfg a).frames t ((run_suffix hq).length_le.trans hs) st x

theorem Agree.within {n : ℕ} {m : μ} {p q : Reader σ ε μ β} {f g : β → Reader σ ε μ α}
    (h : p.Agree n q) (hfg : ∀ b, (f b).Agree n (g b)) :
    (Reader.within m p f).Agree n (.within m q g) where
  run s hs := by
    rw [Reader.run, Reader.run, h.run s hs]
    cases hq : q.run flat s with
    | error e => rfl
    | ok r => exact (hfg r.1).run r.2 ((run_suffix hq).length_le.trans hs)
  frames s hs st x := by
    simp only [Reader.frames, List.mem_append, List.mem_cons, h.run s hs, h.frames s hs]
    refine or_congr_right ?_
    cases hq : q.run flat s with
    | error e => exact Iff.rfl
    | ok r => exact (hfg r.1).frames r.2 ((run_suffix hq).length_le.trans hs) st x

end Reader

end Stream
