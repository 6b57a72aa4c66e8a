import Postkeys.CacheTransparency

/-! # Concurrent reads and writes through the cached store

Any number of `Get` and `Set` calls run at the same time through one cached store, each in the steps
of the source: a `Get` looks in the cache, reads the backend and fills the cache; a `Set` writes to
the backend and drops the key from the cache.  The steps of different calls interleave freely.

`run_noStale` says when a `Get` that starts after a `Set` has returned cannot see an older value: no
fill may put a value into the cache that the backend has replaced since it was read.  The source
does not see to that (`fill_after_set`). -/

namespace Postkeys

open Relational Program

/-! ### The order of events -/

section before
variable {α : Type} {log : List α} {a b c : α}

/-- `a` happened before `b`. -/
def Before (log : List α) (a b : α) : Prop := [a, b].Sublist log

instance [DecidableEq α] : Decidable (Before log a b) :=
  inferInstanceAs (Decidable ([a, b].Sublist log))

theorem Before.append (h : Before log a b) (l : List α) : Before (log ++ l) a b :=
  h.trans (List.sublist_append_left _ _)

theorem Before.mem_left (h : Before log a b) : a ∈ log := h.subset (by simp)

theorem before_concat : Before (log ++ [c]) a b ↔ Before log a b ∨ b = c ∧ a ∈ log := by
  constructor
  · intro h
    obtain ⟨l₁, l₂, hl, h₁, h₂⟩ := List.sublist_append_iff.mp h
    rcases List.sublist_singleton.mp h₂ with rfl | rfl
    · rw [List.append_nil] at hl
      subst hl
      exact Or.inl h₁
    · obtain ⟨rfl, hc⟩ := List.append_inj' (show [a] ++ [b] = l₁ ++ [c] from hl) rfl
      exact Or.inr ⟨List.head_eq_of_cons_eq hc, List.singleton_sublist.mp h₁⟩
  · rintro (h | ⟨rfl, h⟩)
    · exact h.append _
    · exact (List.singleton_sublist.mpr h).append (List.Sublist.refl _)

/-- What happened before an event that is not among the last ones, did so before them. -/
theorem Before.of_append {l : List α} (h : Before (log ++ l) a b) (hb : b ∉ l) : Before log a b := by
  induction l using List.reverseRecOn with
  | nil => rwa [List.append_nil] at h
  | append_singleton l c ih =>
      rw [List.mem_append, List.mem_singleton, not_or] at hb
      rw [← List.append_assoc, before_concat] at h
      rcases h with h | ⟨hc, -⟩
      · exact ih h hb.1
      · exact absurd hc hb.2

end before

/-! ### Calls in steps -/

/-- The calls of the race. -/
inductive CacheCall
  | get (key : Bytes)
  | set (key value : Bytes) (ttl : ℤ)
deriving DecidableEq, Repr

def CacheCall.key : CacheCall → Bytes
  | .get key => key
  | .set key _ _ => key

/-- How far a call has come. -/
inductive CallPhase
  | idle
  | started
  | missed
  | found (value : Bytes)
  | answered (answer : Option Bytes)
  | written
  | settled
  | done
deriving DecidableEq, Repr

/-- The steps of a call, with the environment of the backend or the reading of the process clock.
`fail` is an error of the backend. -/
inductive CallStep
  | start
  | lookup (now : ℤ)
  | read (e : Env)
  | fill (now : ℤ)
  | write (e : Env)
  | invalidate
  | fail
  | ret

/-- What the calls did, in order. -/
inductive CallEvent
  | started (i : ℕ)
  | wrote (i : ℕ)
  | dropped (i : ℕ)
  | returned (i : ℕ)
  | got (i : ℕ) (answer : Option Bytes)
deriving DecidableEq, Repr

variable {S : Type} {calls : List CacheCall}

/-- One step of the call `i`. -/
def CacheCall.next [Float64 S] (i : ℕ) (c : CacheCall) (p : CallPhase) (a : CallStep)
    (s : CachedStore S) : Option (CachedStore S × CallPhase × List CallEvent) :=
  match c, p, a with
  | _, .idle, .start => some (s, .started, [.started i])
  | .get key, .started, .lookup now =>
      match s.lookup now key with
      | some v => some (s, .answered (some v), [])
      | none => some (s, .missed, [])
  | .get key, .missed, .read e =>
      match (Cmd.get key).exec e s.backend with
      | (.ok (.value (some v)), d) => some ({ s with backend := d }, .found v, [])
      | (.ok _, d) => some ({ s with backend := d }, .answered none, [])
      | (.error _, d) => some ({ s with backend := d }, .done, [])
  | .get _, .missed, .fail => some (s, .done, [])
  | .get key, .found v, .fill now => some (s.fill now key v, .answered (some v), [])
  | .get _, .answered v, .ret => some (s, .done, [.got i v])
  | .set key value ttl, .started, .write e =>
      match (Cmd.set key value ttl).exec e s.backend with
      | (.ok _, d) => some ({ s with backend := d }, .written, [.wrote i])
      | (.error _, d) => some ({ s with backend := d }, .done, [])
  | .set _ _ _, .started, .fail => some (s, .done, [])
  | .set key _ _, .written, .invalidate => some (s.invalidate key, .settled, [.dropped i])
  | .set _ _ _, .settled, .ret => some (s, .done, [.returned i])
  | _, _, _ => none

/-- The store, the phases of the calls and what happened so far. -/
structure Race (S : Type) where
  store : CachedStore S
  phase : ℕ → CallPhase
  log : List CallEvent

namespace Race

/-- What can happen next: a step of a call, a round of the background goroutine of the cache, or a
notification of another instance. -/
inductive Act
  | call (i : ℕ) (a : CallStep)
  | cleanup (now : ℤ)
  | notified (keys : Option (List Bytes))

/-- No call has started. -/
def start (s : CachedStore S) : Race S := ⟨s, fun _ => .idle, []⟩

section runs
variable [Float64 S] (calls : List CacheCall)

def step (a : Act) (R : Race S) : Option (Race S) :=
  match a with
  | .call i a =>
      match calls[i]? with
      | none => none
      | some c => (c.next i (R.phase i) a R.store).map fun r =>
          ⟨r.1, Function.update R.phase i r.2.1, R.log ++ r.2.2⟩
  | .cleanup now => some { R with store := { R.store with cache := R.store.cache.cleanup now } }
  | .notified keys => some { R with store := R.store.processNotification keys }

def run : List Act → Race S → Option (Race S)
  | [], R => some R
  | a :: acts, R => (R.step calls a).bind (run acts)

end runs

end Race

/-! ### The property -/

/-- The call `i` sets `key` to `value`. -/
def Sets (calls : List CacheCall) (i : ℕ) (key value : Bytes) : Prop :=
  ∃ ttl, calls[i]? = some (.set key value ttl)

/-- A `Get` that started after a `Set` had returned answers with the value of that `Set` or of one
that wrote after it and started before the `Get` ended. -/
def NoStale (calls : List CacheCall) (log : List CallEvent) : Prop :=
  ∀ s g key v answer, Sets calls s key v → calls[g]? = some (.get key) →
    Before log (.returned s) (.started g) → .got g answer ∈ log →
    ∃ s' v', Sets calls s' key v' ∧ answer = some v' ∧ Before log (.started s') (.got g answer) ∧
      (s' = s ∨ Before log (.wrote s) (.wrote s'))

/-- The row of a string key. -/
def stringRow (d : DB S) (key : Bytes) : Option (Row S .kvStrings) :=
  (d.rows .kvStrings (encodeKey key)).row ()

/-- Whether a step is in time: a `Get` reads a row that has not lapsed, and a fill puts into the cache
what the backend still holds. -/
def Race.Act.timely (calls : List CacheCall) (R : Race S) : Race.Act → Bool
  | .call i (.read e) =>
      match calls[i]? with
      | some (.get key) => (stringRow R.store.backend key).all fun r => r.live e.now
      | _ => true
  | .call i (.fill _) =>
      match calls[i]?, R.phase i with
      | some (.get key), .found v =>
          !R.store.shouldCache key || (stringRow R.store.backend key).any fun r => r.val = v
      | _, _ => true
  | _ => true

/-- Whether all steps of a run are in time. -/
def Race.timely [Float64 S] (calls : List CacheCall) : List Race.Act → Race S → Bool
  | [], _ => true
  | a :: acts, R => a.timely calls R && (R.step calls a).all (Race.timely calls acts)

theorem Race.Act.timely_read {R : Race S} {i : ℕ} {e : Env} {key : Bytes}
    {r : Row S .kvStrings} (h : Race.Act.timely calls R (.call i (.read e)) = true)
    (hc : calls[i]? = some (.get key)) (hr : stringRow R.store.backend key = some r) :
    r.live e.now = true := by
  unfold Race.Act.timely at h
  simpa only [hc, hr, Option.all_some] using h

theorem Race.Act.timely_fill {R : Race S} {i : ℕ} {now : ℤ} {key v : Bytes}
    (h : Race.Act.timely calls R (.call i (.fill now)) = true) (hc : calls[i]? = some (.get key))
    (hp : R.phase i = .found v) (hcache : R.store.shouldCache key = true) :
    ∃ r, stringRow R.store.backend key = some r ∧ r.val = v := by
  unfold Race.Act.timely at h
  simpa [hc, hp, hcache, Option.any_eq_true] using h

/-! ### What a step logs -/

theorem Sets.eq {i : ℕ} {key v key' v' : Bytes} {ttl : ℤ}
    (h : Sets calls i key' v') (hi : calls[i]? = some (.set key v ttl)) : key' = key := by
  obtain ⟨t, h⟩ := h
  rw [hi] at h
  cases h
  rfl

/-- The answer a `Get` is going to return. -/
def CallPhase.answer : CallPhase → Option (Option Bytes)
  | .found v => some (some v)
  | .answered v => some v
  | _ => none

/-- How the phase of the call `i` changes, and which events go with it. -/
inductive CallPhase.Emits (i : ℕ) : CallPhase → CallPhase → List CallEvent → Prop
  | start : Emits i .idle .started [.started i]
  | quiet {p p' : CallPhase} (hp : p ≠ .idle ∧ p ≠ .done)
      (hp' : p' ≠ .idle ∧ p' ≠ .written ∧ p' ≠ .settled) : Emits i p p' []
  | write : Emits i .started .written [.wrote i]
  | drop : Emits i .written .settled [.dropped i]
  | ret : Emits i .settled .done [.returned i]
  | got (v : Option Bytes) : Emits i (.answered v) .done [.got i v]

theorem CacheCall.next_emits [Float64 S] {i : ℕ} {c : CacheCall} {p p' : CallPhase} {a : CallStep}
    {s s' : CachedStore S} {evs : List CallEvent} (h : c.next i p a s = some (s', p', evs)) :
    p.Emits i p' evs := by
  have hquiet {p p' : CallPhase} (hp : p ≠ .idle ∧ p ≠ .done)
      (hp' : p' ≠ .idle ∧ p' ≠ .written ∧ p' ≠ .settled) : p.Emits i p' [] := .quiet hp hp'
  unfold CacheCall.next at h
  split at h
  · cases h
    exact .start
  · split at h <;> cases h <;> exact hquiet (by decide) (by simp)
  · split at h <;> cases h <;> exact hquiet (by decide) (by simp)
  · cases h
    exact hquiet (by decide) (by decide)
  · cases h
    exact hquiet (by simp) (by simp)
  · cases h
    exact .got _
  · split at h
    · cases h
      exact .write
    · cases h
      exact hquiet (by decide) (by decide)
  · cases h
    exact hquiet (by decide) (by decide)
  · cases h
    exact .drop
  · cases h
    exact .ret
  · cases h

/-- The log and the phases belong together. -/
structure Race.Logged (phase : ℕ → CallPhase) (log : List CallEvent) : Prop where
  started : ∀ i, phase i ≠ .idle → .started i ∈ log
  wrote : ∀ i, .wrote i ∈ log → .started i ∈ log
  dropped : ∀ i, .dropped i ∈ log → .wrote i ∈ log
  returned : ∀ i, .returned i ∈ log → .dropped i ∈ log
  written : ∀ i, phase i = .written → .wrote i ∈ log
  settled : ∀ i, phase i = .settled → .dropped i ∈ log
  got : ∀ i v, .got i v ∈ log → phase i = .done

theorem Race.Logged.emits {phase : ℕ → CallPhase} {log : List CallEvent} {i : ℕ} {p : CallPhase}
    {evs : List CallEvent} (h : Race.Logged phase log) (he : (phase i).Emits i p evs) :
    Race.Logged (Function.update phase i p) (log ++ evs) := by
  obtain ⟨h1, h2, h3, h4, h5, h6, h7⟩ := h
  generalize hq : phase i = q at he
  cases he <;> constructor <;> grind [Function.update_apply]

/-! ### The invariant -/

/-- `v` is the value of the `Set` `s` of `key`, or of one that wrote after it. -/
def UpToDate (calls : List CacheCall) (log : List CallEvent) (key : Bytes) (s : ℕ) (v : Bytes) : Prop :=
  ∃ s', Sets calls s' key v ∧ .wrote s' ∈ log ∧ (s' = s ∨ Before log (.wrote s) (.wrote s'))

variable {calls : List CacheCall} {log evs : List CallEvent} {key v : Bytes} {i s : ℕ}
  {st : CachedStore S}

theorem UpToDate.append (h : UpToDate calls log key s v) (evs : List CallEvent) :
    UpToDate calls (log ++ evs) key s v := by
  obtain ⟨s', hset, hw, hlast⟩ := h
  exact ⟨s', hset, List.mem_append_left _ hw, hlast.imp_right fun hb => hb.append _⟩

/-- The last write is up to date with all before it. -/
theorem UpToDate.write (hi : Sets calls i key v) (hw : .wrote s ∈ log ++ [.wrote i]) :
    UpToDate calls (log ++ [.wrote i]) key s v := by
  refine ⟨i, hi, by simp, ?_⟩
  rw [List.mem_append, List.mem_singleton] at hw
  rcases hw with hw | hw
  · exact Or.inr (before_concat.mpr (Or.inr ⟨rfl, hw⟩))
  · cases hw
    exact Or.inl rfl

/-- The backend holds for every key the last value written. -/
def RowsCurrent (calls : List CacheCall) (log : List CallEvent) (d : DB S) : Prop :=
  ∀ s key v, Sets calls s key v → .wrote s ∈ log →
    ∃ r, stringRow d key = some r ∧ UpToDate calls log key s r.val

/-- The cache holds no value older than that of a `Set` that has dropped the key. -/
def CacheCurrent (calls : List CacheCall) (log : List CallEvent) (c : Cache) : Prop :=
  ∀ s key v en, Sets calls s key v → .dropped s ∈ log → c.items.row key = some en →
    UpToDate calls log key s en.value

/-- The call `g`, if it is a `Get`, will not answer with a value older than that of a `Set` that had
returned when it started. -/
def AnswerCurrent (calls : List CacheCall) (log : List CallEvent) (g : ℕ) (p : CallPhase) : Prop :=
  ∀ s key v a, Sets calls s key v → calls[g]? = some (.get key) →
    Before log (.returned s) (.started g) → p.answer = some a →
    ∃ v', a = some v' ∧ UpToDate calls log key s v'

structure Race.Sound (calls : List CacheCall) (R : Race S) : Prop where
  logged : Race.Logged R.phase R.log
  rows : RowsCurrent calls R.log R.store.backend
  cache : CacheCurrent calls R.log R.store.cache
  answers : ∀ g, AnswerCurrent calls R.log g (R.phase g)
  noStale : NoStale calls R.log

theorem RowsCurrent.append {d : DB S} (h : RowsCurrent calls log d) (hw : ∀ s, .wrote s ∉ evs) :
    RowsCurrent calls (log ++ evs) d := by
  intro s key v hs hlog
  have hlog : .wrote s ∈ log := (List.mem_append.mp hlog).resolve_right (hw s)
  obtain ⟨r, hr, hup⟩ := h s key v hs hlog
  exact ⟨r, hr, hup.append evs⟩

theorem CacheCurrent.append {c c' : Cache} (h : CacheCurrent calls log c)
    (hd : ∀ s, .dropped s ∉ evs)
    (hc : ∀ key en, c'.items.row key = some en → c.items.row key = some en) :
    CacheCurrent calls (log ++ evs) c' := by
  intro s key v en hs hlog hen
  have hlog : .dropped s ∈ log := (List.mem_append.mp hlog).resolve_right (hd s)
  exact (h s key v en hs hlog (hc key en hen)).append evs

/-- What remains to be seen after a step of the call `i`: the tables, the cache and its own answer. -/
theorem Race.Sound.advance {R : Race S} {p : CallPhase} (h : R.Sound calls)
    (he : (R.phase i).Emits i p evs) (hrows : RowsCurrent calls (R.log ++ evs) st.backend)
    (hcache : CacheCurrent calls (R.log ++ evs) st.cache) (hown : AnswerCurrent calls R.log i p) :
    Race.Sound calls ⟨st, Function.update R.phase i p, R.log ++ evs⟩ := by
  refine ⟨h.logged.emits he, hrows, hcache, fun g => ?_, ?_⟩
  · intro s key v a hs hg hb ha
    have hold : Before R.log (.returned s) (.started g) := by
      refine hb.of_append fun hmem => ?_
      -- a call that starts has no answer yet
      generalize R.phase i = q at he
      cases he <;> simp at hmem
      subst hmem
      simp [CallPhase.answer] at ha
    have hcur : AnswerCurrent calls R.log g (Function.update R.phase i p g) := by
      by_cases hgi : g = i
      · subst hgi
        rwa [Function.update_self]
      · rw [Function.update_of_ne hgi]
        exact h.answers g
    obtain ⟨v', rfl, hup⟩ := hcur s key v a hs hg hold ha
    exact ⟨v', rfl, hup.append evs⟩
  · intro s g key v a hs hg hb hgot
    rcases List.mem_append.mp hgot with hlog | hev
    · have hold : Before R.log (.returned s) (.started g) := by
        refine hb.of_append fun hmem => ?_
        -- a call that has ended does not start again
        have hdone := h.logged.got g a hlog
        generalize hq : R.phase i = q at he
        cases he <;> simp at hmem
        subst hmem
        rw [hq] at hdone
        cases hdone
      obtain ⟨s', v', hs', ha, hstart, hlast⟩ := h.noStale s g key v a hs hg hold hlog
      exact ⟨s', v', hs', ha, hstart.append _, hlast.imp_right fun hb => hb.append _⟩
    · generalize hq : R.phase i = q at he
      cases he <;> simp at hev
      obtain ⟨rfl, rfl⟩ := hev
      have hold : Before R.log (.returned s) (.started g) := hb.of_append (by simp)
      have hans : (R.phase g).answer = some a := by rw [hq]; rfl
      obtain ⟨v', rfl, s', hs', hw, hlast⟩ := h.answers g s key v a hs hg hold hans
      refine ⟨s', v', hs', rfl, ?_, hlast.imp_right fun hb => hb.append _⟩
      exact before_concat.mpr (Or.inr ⟨rfl, h.logged.wrote s' hw⟩)

/-- The cache may lose entries at any time. -/
theorem Race.Sound.forget {R : Race S} (h : R.Sound calls)
    (hb : st.backend = R.store.backend)
    (hc : ∀ key en, st.cache.items.row key = some en → R.store.cache.items.row key = some en) :
    Race.Sound calls { R with store := st } := by
  refine ⟨h.logged, ?_, fun s key v en hs hd hen => h.cache s key v en hs hd (hc key en hen),
    h.answers, h.noStale⟩
  rw [hb]
  exact h.rows

/-! ### Steps -/

section steps
variable {e : Env} {d : DB S} {R R' : Race S}

theorem CachedStore.fill_backend {now : ℤ} :
    (st.fill now key v).backend = st.backend := by
  unfold CachedStore.fill
  split <;> rfl

/-- A fill with what the backend still holds. -/
theorem CacheCurrent.fill (now : ℤ) (h : CacheCurrent calls log st.cache)
    (hrows : RowsCurrent calls log st.backend) (hl : ∀ s, .dropped s ∈ log → .wrote s ∈ log)
    (ht : st.shouldCache key = true → ∃ r, stringRow st.backend key = some r ∧ r.val = v) :
    CacheCurrent calls log (st.fill now key v).cache := by
  unfold CachedStore.fill
  split
  · rename_i hcache
    obtain ⟨r, hr, rfl⟩ := ht hcache
    intro s key' v' en hs hd hen
    rcases Cache.row_of_set hen with hen | ⟨rfl, hval⟩
    · exact h s key' v' en hs hd hen
    · obtain ⟨r', hr', hup⟩ := hrows s key' v' hs (hl s hd)
      rw [hr] at hr'
      cases hr'
      rwa [hval]
  · exact h

/-- The invalidation of a `Set`. -/
theorem CacheCurrent.drop {c : Cache} {ttl : ℤ} (h : CacheCurrent calls log c)
    (hcall : calls[i]? = some (.set key v ttl)) :
    CacheCurrent calls (log ++ [.dropped i]) (c.delete key) := by
  intro s key' v' en hs hd hen
  obtain ⟨hen, hne⟩ := Cache.row_of_delete hen
  rw [List.mem_append, List.mem_singleton] at hd
  rcases hd with hd | hd
  · exact (h s key' v' en hs hd hen).append _
  · cases hd
    exact absurd (hs.eq hcall) hne

/-- A hit. -/
theorem Race.Sound.answer_hit {now : ℤ} (h : R.Sound calls) (hc : calls[i]? = some (.get key))
    (hlook : R.store.lookup now key = some v) : AnswerCurrent calls R.log i (.answered (some v)) := by
  intro s key' v' a hs hg hb ha
  rw [hc] at hg
  cases hg
  cases ha
  have hget : R.store.cache.get now key = some v := by
    unfold CachedStore.lookup at hlook
    split at hlook
    · exact hlook
    · cases hlook
  obtain ⟨en, hen, rfl⟩ := Cache.row_of_get hget
  exact ⟨en.value, rfl, h.cache s key v' en hs (h.logged.returned s hb.mem_left) hen⟩

/-- A `Get` that goes to the backend reads a value if the key has been written. -/
theorem Race.Sound.answer_read (h : R.Sound calls) (hc : calls[i]? = some (.get key))
    (ht : ∀ r, stringRow R.store.backend key = some r → r.live e.now = true) {p : CallPhase}
    (hp : ∀ v, liveString e.now R.store.backend (encodeKey key) = some v → p.answer = some (some v)) :
    AnswerCurrent calls R.log i p := by
  intro s key' v' a hs hg hb ha
  rw [hc] at hg
  cases hg
  have hwrote := h.logged.dropped s (h.logged.returned s hb.mem_left)
  obtain ⟨r, hr, hup⟩ := h.rows s key v' hs hwrote
  have hlive : liveString e.now R.store.backend (encodeKey key) = some r.val := by
    unfold liveString
    unfold stringRow at hr
    rw [live_row, hr, Option.bind_some, if_pos (ht r hr)]
  rw [hp r.val hlive] at ha
  cases ha
  exact ⟨r.val, rfl, hup⟩

section tables
variable [Float64 S]

/-- What `SET` leaves under its key. -/
theorem exec_set_row {ttl : ℤ} {r : Reply S} (h : ((Cmd.set key v ttl).exec e d).1 = .ok r) :
    ∃ c, stringRow ((Cmd.set key v ttl).exec e d).2 key = some c ∧ c.val = v := by
  have hput (u : Table Unit (Row S .kvStrings)) (x : Option Time) :
      ∃ c, (putOr .kvStrings u () ⟨v, x⟩ fun _ => ⟨v, x⟩).row () = some c ∧ c.val = v := by
    refine ⟨⟨v, x⟩, ?_, rfl⟩
    cases hu : u.row () <;> simp [putOr, hu]
  have hwp : wp e (Cmd.set key v ttl : Cmd S).op
      (fun _ d' => ∃ c, stringRow d' key = some c ∧ c.val = v) d := by
    refine (wp_map _ _).mpr ?_
    unfold set stringRow
    simp only [wp_bind, wp_deleteKeyFromAllTables, wp_ite, wp_clock, pure_eq, wp_ret, wp_setMeta,
      wp_query, wpSql_upsertRow, Store.rows_setRows_self]
    exact ⟨fun _ => hput _ _, fun _ => hput _ _⟩
  exact Cmd.exec_ok rfl hwp h

/-- `SET` leaves the strings of other keys alone. -/
theorem exec_set_other {key' : Bytes} {ttl : ℤ} (hne : encodeKey key' ≠ encodeKey key) :
    stringRow ((Cmd.set key v ttl).exec e d).2 key' = stringRow d key' := by
  have hwrites := Cmd.exec_within (e := e) (d := d) Store.AgreeOff.refl Store.AgreeOff.trans
    (Cmd.set key v ttl).op_writes
  unfold stringRow
  rw [hwrites .kvStrings (encodeKey key') hne]

/-- The keys of the calls. -/
def callKeys (calls : List CacheCall) : Set Bytes := {key | ∃ c ∈ calls, c.key = key}

theorem Sets.mem (h : Sets calls i key v) : key ∈ callKeys calls := by
  obtain ⟨ttl, h⟩ := h
  exact ⟨_, List.mem_of_getElem? h, rfl⟩

/-- A `Set` writes. -/
theorem RowsCurrent.write {ttl : ℤ} {r : Reply S} (hinj : Set.InjOn encodeKey (callKeys calls))
    (h : RowsCurrent calls log d) (hcall : calls[i]? = some (.set key v ttl))
    (hr : ((Cmd.set key v ttl).exec e d).1 = .ok r) :
    RowsCurrent calls (log ++ [.wrote i]) ((Cmd.set key v ttl).exec e d).2 := by
  have hi : Sets calls i key v := ⟨ttl, hcall⟩
  intro s key' v' hs hw
  by_cases hkey : key' = key
  · subst hkey
    obtain ⟨c, hc, rfl⟩ := exec_set_row hr
    exact ⟨c, hc, UpToDate.write hi hw⟩
  · have hne : encodeKey key' ≠ encodeKey key := fun heq => hkey (hinj hs.mem hi.mem heq)
    have hold : .wrote s ∈ log := by
      rw [List.mem_append, List.mem_singleton] at hw
      refine hw.resolve_right fun heq => hkey ?_
      cases heq
      exact hs.eq hcall
    obtain ⟨c, hc, hup⟩ := h s key' v' hs hold
    exact ⟨c, (exec_set_other hne).trans hc, hup.append _⟩

/-- One step of a call, in time, keeps the invariant. -/
theorem Race.Sound.next {c : CacheCall} {a : CallStep} {p : CallPhase}
    (hinj : Set.InjOn encodeKey (callKeys calls)) (h : R.Sound calls) (hc : calls[i]? = some c)
    (ht : Race.Act.timely calls R (.call i a) = true)
    (hn : c.next i (R.phase i) a R.store = some (st, p, evs)) :
    Race.Sound calls ⟨st, Function.update R.phase i p, R.log ++ evs⟩ := by
  have hem := CacheCall.next_emits hn
  -- most steps have no answer to give, and leave the store alone
  have hnone {p : CallPhase} (hp : p.answer = none) : AnswerCurrent calls R.log i p := by
    intro s key v a _ _ _ ha
    rw [hp] at ha
    cases ha
  have hrows {evs : List CallEvent} (hw : ∀ s, .wrote s ∉ evs) := h.rows.append hw
  have hcache {evs : List CallEvent} (hd : ∀ s, .dropped s ∉ evs) :
      CacheCurrent calls (R.log ++ evs) R.store.cache := h.cache.append hd fun _ _ hen => hen
  generalize hq : R.phase i = q at hn
  unfold CacheCall.next at hn
  split at hn
  · -- start
    cases hn
    exact h.advance hem (hrows (by simp)) (hcache (by simp)) (hnone rfl)
  · -- lookup
    split at hn
    · rename_i hlook
      cases hn
      exact h.advance hem (hrows (by simp)) (hcache (by simp)) (h.answer_hit hc hlook)
    · cases hn
      exact h.advance hem (hrows (by simp)) (hcache (by simp)) (hnone rfl)
  · -- read
    rename_i key e
    have hread {p : CallPhase} (hp : ∀ v, liveString e.now R.store.backend (encodeKey key) = some v →
        p.answer = some (some v)) : AnswerCurrent calls R.log i p :=
      h.answer_read hc (fun r hr => Race.Act.timely_read ht hc hr) hp
    rw [exec_get] at hn
    generalize liveString e.now R.store.backend (encodeKey key) = w at hn hread
    cases w with
    | some v =>
        cases hn
        exact h.advance hem (hrows (by simp)) (hcache (by simp)) (hread fun v' hv => hv ▸ rfl)
    | none =>
        cases hn
        exact h.advance hem (hrows (by simp)) (hcache (by simp)) (hread nofun)
  · -- an error of the backend
    cases hn
    exact h.advance hem (hrows (by simp)) (hcache (by simp)) (hnone rfl)
  · -- fill
    rename_i key v now
    cases hn
    have hfill := h.cache.fill now h.rows h.logged.dropped (Race.Act.timely_fill ht hc hq)
    refine h.advance hem ?_ (hfill.append (by simp) fun _ _ hen => hen) ?_
    · rw [CachedStore.fill_backend]
      exact hrows (by simp)
    · have hown := h.answers i
      rw [hq] at hown
      exact hown
  · -- a `Get` returns
    cases hn
    exact h.advance hem (hrows (by simp)) (hcache (by simp)) (hnone rfl)
  · -- write
    rename_i key v ttl e
    rcases hx : (Cmd.set key v ttl).exec e R.store.backend with ⟨r, d'⟩
    have hr := congrArg Prod.fst hx
    have hd : _ = d' := congrArg Prod.snd hx
    rw [hx] at hn
    cases r with
    | ok r =>
        cases hn
        have hwrite := h.rows.write hinj hc hr
        rw [hd] at hwrite
        exact h.advance hem hwrite (hcache (by simp)) (hnone rfl)
    | error f =>
        cases hn
        have hsame := Cmd.exec_error rfl hr
        rw [hd] at hsame
        subst hsame
        exact h.advance hem (hrows (by simp)) (hcache (by simp)) (hnone rfl)
  · cases hn
    exact h.advance hem (hrows (by simp)) (hcache (by simp)) (hnone rfl)
  · -- invalidation
    rename_i key v ttl
    cases hn
    exact h.advance hem (hrows (by simp)) (h.cache.drop hc) (hnone rfl)
  · -- a `Set` returns
    cases hn
    exact h.advance hem (hrows (by simp)) (hcache (by simp)) (hnone rfl)
  · cases hn

theorem Race.Sound.step {a : Race.Act} (hinj : Set.InjOn encodeKey (callKeys calls))
    (h : R.Sound calls) (ht : a.timely calls R = true) (hs : R.step calls a = some R') : R'.Sound calls := by
  cases a with
  | cleanup now =>
      cases hs
      exact h.forget rfl fun key en => Cache.row_of_cleanup
  | notified keys =>
      cases hs
      exact h.forget (CachedStore.processNotification_backend keys) fun key en =>
        CachedStore.row_of_processNotification
  | call i a =>
      unfold Race.step at hs
      dsimp only at hs
      split at hs
      · cases hs
      · rename_i c hc
        obtain ⟨⟨st, p, evs⟩, hn, rfl⟩ := Option.map_eq_some_iff.mp hs
        exact h.next hinj hc ht hn

end tables

end steps

/-! ### Whole runs -/

variable [Float64 S]

theorem Race.Sound.run {R R' : Race S} (hinj : Set.InjOn encodeKey (callKeys calls))
    (acts : List Race.Act) (h : R.Sound calls) (ht : Race.timely calls acts R = true)
    (hr : R.run calls acts = some R') : R'.Sound calls := by
  induction acts generalizing R with
  | nil =>
      cases hr
      exact h
  | cons a acts ih =>
      obtain ⟨R₁, hstep, hrest⟩ := Option.bind_eq_some_iff.mp hr
      rw [Race.timely, hstep, Bool.and_eq_true, Option.all_some] at ht
      exact ih (h.step hinj ht.1 hstep) ht.2 hrest

/-- **No stale fill**: if every step is in time and no two keys of the calls share a stored form,
then whatever the store at the start and however the steps interleave, a `Get` that starts after a
`Set` has returned does not answer with an older value. -/
theorem Race.run_noStale (calls : List CacheCall) (st : CachedStore S) (acts : List Race.Act)
    {R : Race S} (hinj : Set.InjOn encodeKey (callKeys calls))
    (ht : Race.timely calls acts (Race.start st) = true)
    (hr : (Race.start st).run calls acts = some R) : NoStale calls R.log := by
  have hstart : (Race.start st).Sound calls := by
    refine ⟨⟨?_, ?_, ?_, ?_, ?_, ?_, ?_⟩, ?_, ?_, ?_, ?_⟩ <;>
      simp [Race.start, RowsCurrent, CacheCurrent, AnswerCurrent, CallPhase.answer, NoStale]
  exact (hstart.run hinj acts ht hr).noStale

/-- A `Get`, a `Set` and another `Get` of the key `k`. -/
def getSetGet : List CacheCall := [.get [107], .set [107] [98] 0, .get [107]]

/-- A store in which the key `k` holds `a`. -/
def holdsA : CachedStore ℤ :=
  CachedStore.new ⟨1000, 0, [], []⟩ ((Cmd.set [107] [97] 0).exec (envAt 0) emptyDB).2

def wholeSet : List Race.Act :=
  [.call 1 .start, .call 1 (.write (envAt 0)), .call 1 .invalidate, .call 1 .ret]

/-- A run in time: the `Set`, then a `Get`. -/
def setThenGet : List Race.Act :=
  wholeSet ++ [.call 2 .start, .call 2 (.lookup 0), .call 2 (.read (envAt 0)), .call 2 (.fill 0),
    .call 2 .ret]

/-- The first `Get` reads the key, the `Set` runs from start to end, and then the first `Get` fills
the cache with what it had read. -/
def lateFill : List Race.Act :=
  [.call 0 .start, .call 0 (.lookup 0), .call 0 (.read (envAt 0))] ++ wholeSet ++
    [.call 0 (.fill 0), .call 0 .ret, .call 2 .start, .call 2 (.lookup 0), .call 2 .ret]

theorem run_noStale_setThenGet : ∃ R, (Race.start holdsA).run getSetGet setThenGet = some R ∧
    .got 2 (some [98]) ∈ R.log ∧ NoStale getSetGet R.log := by
  have hrun : ((Race.start holdsA).run getSetGet setThenGet).any
      (fun R => decide (.got 2 (some [98]) ∈ R.log)) = true := by decide
  obtain ⟨R, hR, hgot⟩ := (Option.any_eq_true _ _).mp hrun
  refine ⟨R, hR, of_decide_eq_true hgot, Race.run_noStale _ _ _ ?_ (by decide) hR⟩
  rintro _ ⟨c, hc, rfl⟩ _ ⟨c', hc', rfl⟩ -
  have hkey : ∀ c ∈ getSetGet, c.key = [107] := by decide
  rw [hkey c hc, hkey c' hc']

/-- The last `Get` starts after the `Set` has returned and still answers `a`. -/
theorem fill_after_set : ∃ R, (Race.start holdsA).run getSetGet lateFill = some R ∧
    ¬ NoStale getSetGet R.log := by
  have hrun : ((Race.start holdsA).run getSetGet lateFill).any (fun R => decide (R.log =
      [.started 0, .started 1, .wrote 1, .dropped 1, .returned 1, .got 0 (some [97]),
        .started 2, .got 2 (some [97])])) = true := by decide
  obtain ⟨R, hR, hlog⟩ := (Option.any_eq_true _ _).mp hrun
  refine ⟨R, hR, ?_⟩
  rw [of_decide_eq_true hlog]
  intro h
  obtain ⟨s', v', ⟨ttl, hs⟩, ha, -⟩ := h 1 2 [107] [98] (some [97]) ⟨0, rfl⟩ rfl (by decide) (by decide)
  cases ha
  -- the only `Set` writes `b`
  have hmem := List.mem_of_getElem? hs
  simp [getSetGet] at hmem

end Postkeys
