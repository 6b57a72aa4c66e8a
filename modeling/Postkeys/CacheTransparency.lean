import Postkeys.CacheInvalidation

/-! # Transparency of the cache

Calls through the cached store and the same calls to the backend alone are compared, whatever the
configuration, with rounds of the background goroutine and notifications of other instances in
between.  The invariant is `CachedStore.Agrees`: every cached value is what `GET` would read.

`run_eq_backendRun` says when all replies are the same: no two of the keys that the wrappers look up
in the cache or drop from it may share a stored form.  `DEL` makes that a real restriction: the
backend encodes the slice of keys in place, and the wrapper then drops the encoded keys. -/

namespace Postkeys

open Relational Program

variable {S : Type}

/-! ### Runs -/

/-- What happens at a cached store: a call, with the environment of the backend and the readings of
the process clock, a round of the background goroutine, or a notification to drop keys or, without
keys, everything. -/
inductive CacheEvent (S : Type)
  | call (e : Env) (looked filled : ℤ) (c : Cmd S)
  | cleanup (now : ℤ)
  | notified (keys : Option (List Bytes))

/-- `processNotification`. -/
def CachedStore.processNotification (keys : Option (List Bytes)) (s : CachedStore S) :
    CachedStore S :=
  match keys with
  | some keys => { s with cache := keys.foldl (fun c key => c.delete key) s.cache }
  | none => { s with cache := s.cache.flush }

section runs
variable [Float64 S]

/-- The replies of the calls through the cached store, and the store afterwards. -/
def CachedStore.run : List (CacheEvent S) → CachedStore S →
    List (Except Failure (Reply S)) × CachedStore S
  | [], s => ([], s)
  | .call e looked filled c :: events, s =>
      let r := s.call e looked filled c
      let rest := CachedStore.run events r.2
      (r.1 :: rest.1, rest.2)
  | .cleanup now :: events, s => CachedStore.run events { s with cache := s.cache.cleanup now }
  | .notified keys :: events, s => CachedStore.run events (s.processNotification keys)

/-- The replies of the backend alone to the same calls, and the database afterwards. -/
def backendRun : List (CacheEvent S) → DB S → List (Except Failure (Reply S)) × DB S
  | [], d => ([], d)
  | .call e _ _ c :: events, d =>
      let r := c.exec e d
      let rest := backendRun events r.2
      (r.1 :: rest.1, rest.2)
  | .cleanup _ :: events, d => backendRun events d
  | .notified _ :: events, d => backendRun events d

/-- No string that was alive at `now` has lapsed at `now'`. -/
def NoLapse (now now' : Time) (d : DB S) : Prop :=
  ∀ k r, (d.rows .kvStrings k).row () = some r → r.live now = true → r.live now' = true

/-- The keys that the wrapper of a call looks up or drops are in `A`. -/
def Cmd.Tracked (A : Set Bytes) : Cmd S → Prop
  | .get key => key ∈ A
  | c => ∀ r, ∀ key ∈ c.invalidates r, key ∈ A

/-- All calls of a run are tracked, and nothing lapses between them. -/
def Tracked (A : Set Bytes) : Time → DB S → List (CacheEvent S) → Prop
  | _, _, [] => True
  | now, d, .call e _ _ c :: events =>
      NoLapse now e.now d ∧ c.Tracked A ∧ Tracked A e.now (c.exec e d).2 events
  | now, d, .cleanup _ :: events => Tracked A now d events
  | now, d, .notified _ :: events => Tracked A now d events

end runs

/-! ### Steps -/

theorem exec_get [Float64 S] (e : Env) (key : Bytes) (d : DB S) :
    (Cmd.get key).exec e d = (.ok (.value (liveString e.now d (encodeKey key))), d) := rfl

variable {A : Set Bytes} {now now' : Time} {d d' : DB S} {s : CachedStore S} {c : Cmd S} {e : Env}

theorem Cache.Agrees.of_noLapse {c : Cache} (h : c.Agrees A now d) (hl : NoLapse now now' d) :
    c.Agrees A now' d := by
  intro key en hen
  obtain ⟨hA, hval⟩ := h key en hen
  refine ⟨hA, ?_⟩
  unfold liveString at hval ⊢
  rw [live_row] at hval ⊢
  obtain ⟨r, hr, hr'⟩ := Option.bind_eq_some_iff.mp hval
  split at hr'
  · rename_i hlive
    rw [hr, Option.bind_some, if_pos (hl _ _ hr hlive)]
    exact hr'
  · cases hr'

/-- The keys a tracked call drops are in `A`. -/
theorem Cmd.Tracked.mem (h : c.Tracked A) (r : Reply S) :
    ∀ key ∈ c.invalidates r, key ∈ A := by
  intro key hkey
  cases c
  case get k => simp [Cmd.invalidates] at hkey
  all_goals exact h r key hkey

theorem CachedStore.settle_ok (hc : c ≠ .flushDB) (r : Reply S) :
    s.settle c (.ok r) = s.invalidateMulti (c.invalidates r) := by
  cases c
  case flushDB => exact absurd rfl hc
  all_goals rfl

theorem CachedStore.settle_backend {r : Except Failure (Reply S)} :
    (s.settle c r).backend = s.backend := by
  cases r with
  | error f => rfl
  | ok r => cases c <;> rfl

section steps
variable [Float64 S]

/-- `GET` through the cache. -/
theorem CachedStore.get_agrees {key : Bytes} (looked filled : ℤ)
    (h : s.cache.Agrees A e.now s.backend) (hkey : key ∈ A) :
    (s.get e looked filled key).1 = ((Cmd.get key).exec e s.backend).1 ∧
      (s.get e looked filled key).2.backend = s.backend ∧
      (s.get e looked filled key).2.cache.Agrees A e.now s.backend := by
  unfold CachedStore.get
  cases hlook : s.lookup looked key with
  | some v =>
      -- a hit: the invariant says that the backend would read the same
      have hget : s.cache.get looked key = some v := by
        unfold CachedStore.lookup at hlook
        split at hlook
        · exact hlook
        · cases hlook
      obtain ⟨en, hen, rfl⟩ := Cache.row_of_get hget
      refine ⟨?_, rfl, h⟩
      rw [exec_get, (h key en hen).2]
  | none =>
      dsimp only
      rw [exec_get]
      cases hread : liveString e.now s.backend (encodeKey key) with
      | none => exact ⟨rfl, rfl, h⟩
      | some v =>
          dsimp only
          unfold CachedStore.fill
          split
          · refine ⟨rfl, rfl, fun k en hen => ?_⟩
            rcases Cache.row_of_set hen with hen | ⟨rfl, hval⟩
            · exact h k en hen
            · exact ⟨hkey, by rw [hval, hread]⟩
          · exact ⟨rfl, rfl, h⟩

/-- Commands on the connection pool never touch strings. -/
theorem Cmd.exec_pooled_kept (hc : c ≠ .flushDB) (hp : c.pooled = true)
    (ks : List Bytes) : StringsKept ks d (c.exec e d).2 := by
  have hwrites := Cmd.exec_within (e := e) (d := d) Store.AgreeOff.refl Store.AgreeOff.trans
    c.op_writes
  intro k _
  refine hwrites .kvStrings k ?_
  cases c <;> simp [Cmd.pooled, Cmd.writes, typedRows, KeyType.table] at hp hc ⊢

/-- A call that fails is rolled back. -/
theorem Cmd.exec_error_kept {f : Failure} (hc : c ≠ .flushDB)
    (h : (c.exec e d).1 = .error f) : StringsKept [] d (c.exec e d).2 := by
  cases hp : c.pooled with
  | true => exact c.exec_pooled_kept hc hp _
  | false =>
      rw [Cmd.exec_error hp h]
      exact StringsKept.refl _ _

theorem Cmd.exec_ok_kept {r : Reply S} (hc : c ≠ .flushDB)
    (h : (c.exec e d).1 = .ok r) : StringsKept (c.invalidates r) d (c.exec e d).2 := by
  cases hp : c.pooled with
  | true => exact c.exec_pooled_kept hc hp _
  | false => exact Cmd.exec_ok hp (c.op_kept hc) h

/-- Any other call through the cache. -/
theorem CachedStore.passOn_agrees (hinj : Set.InjOn encodeKey A)
    (h : s.cache.Agrees A e.now s.backend) (hc : c.Tracked A) :
    (s.passOn e c).2.cache.Agrees A e.now (c.exec e s.backend).2 := by
  unfold CachedStore.passOn
  dsimp only
  by_cases hflush : c = .flushDB
  · subst hflush
    intro key en hen
    cases hen
  · cases hr : (c.exec e s.backend).1 with
    | error f =>
        intro key en hen
        obtain ⟨hA, hval⟩ := h key en hen
        have hkept := c.exec_error_kept hflush hr (encodeKey key) (by simp)
        unfold liveString at hval ⊢
        rw [hkept]
        exact ⟨hA, hval⟩
    | ok r =>
        rw [CachedStore.settle_ok hflush]
        exact h.deleteMulti hinj (hc.mem r) (c.exec_ok_kept hflush hr)

/-- One call through the cache: the reply and the database are those of the backend, and the cache
agrees with it again. -/
theorem CachedStore.call_agrees (looked filled : ℤ)
    (hinj : Set.InjOn encodeKey A) (h : s.cache.Agrees A e.now s.backend) (hc : c.Tracked A) :
    (s.call e looked filled c).1 = (c.exec e s.backend).1 ∧
      (s.call e looked filled c).2.backend = (c.exec e s.backend).2 ∧
      (s.call e looked filled c).2.cache.Agrees A e.now (c.exec e s.backend).2 := by
  have hpass : (s.passOn e c).1 = (c.exec e s.backend).1 ∧
      (s.passOn e c).2.backend = (c.exec e s.backend).2 ∧
      (s.passOn e c).2.cache.Agrees A e.now (c.exec e s.backend).2 :=
    ⟨rfl, CachedStore.settle_backend, CachedStore.passOn_agrees hinj h hc⟩
  cases c
  case get key => exact CachedStore.get_agrees looked filled h hc
  all_goals exact hpass

end steps

/-! ### Whole runs -/

theorem CachedStore.processNotification_backend (keys : Option (List Bytes)) :
    (s.processNotification keys).backend = s.backend := by
  cases keys <;> rfl

theorem CachedStore.row_of_processNotification {keys : Option (List Bytes)} {key : Bytes}
    {en : Cache.Entry} (h : (s.processNotification keys).cache.items.row key = some en) :
    s.cache.items.row key = some en := by
  cases keys with
  | none => cases h
  | some ks => exact (Cache.row_of_deleteMulti h).1

variable [Float64 S]

/-- **The frame of a run**: calls of the store, answered or not, change rows in their footprints only. -/
theorem Cmd.run_frame (calls : List (Env × Cmd S)) (d : DB S) :
    Store.AgreeOff (fun t k => ∃ p ∈ calls, p.2.writes t k) d
      (calls.foldl (fun d p => (p.2.exec p.1 d).2) d) := by
  induction calls generalizing d with
  | nil => exact Store.AgreeOff.refl d
  | cons p calls ih =>
      intro t k hk
      have hcall : Store.AgreeOff p.2.writes d (p.2.exec p.1 d).2 :=
        Cmd.exec_within Store.AgreeOff.refl Store.AgreeOff.trans p.2.op_writes
      have hrest (d : DB S) := ih d t k fun ⟨q, hq, hw⟩ => hk ⟨q, .tail p hq, hw⟩
      exact (hrest _).trans (hcall t k fun hw => hk ⟨p, .head _, hw⟩)

/-- A run through a cache that agrees with the backend. -/
theorem CachedStore.run_agrees (hinj : Set.InjOn encodeKey A) (events : List (CacheEvent S))
    {now : Time} (h : s.cache.Agrees A now s.backend) (ht : Tracked A now s.backend events) :
    (s.run events).1 = (backendRun events s.backend).1 ∧
      (s.run events).2.backend = (backendRun events s.backend).2 := by
  induction events generalizing s now with
  | nil => exact ⟨rfl, rfl⟩
  | cons ev events ih =>
      cases ev with
      | cleanup t =>
          exact ih (s := { s with cache := s.cache.cleanup t })
            (fun key en hen => h key en (Cache.row_of_cleanup hen)) ht
      | notified keys =>
          have hback := CachedStore.processNotification_backend (s := s) keys
          have hnote : (s.processNotification keys).cache.Agrees A now s.backend :=
            fun key en hen => h key en (CachedStore.row_of_processNotification hen)
          rw [← hback] at hnote ht
          have hrest := ih hnote ht
          rw [hback] at hrest
          exact hrest
      | call e looked filled c =>
          obtain ⟨hlapse, hc, ht⟩ := ht
          obtain ⟨hreply, hback, hagree⟩ :=
            CachedStore.call_agrees looked filled hinj (h.of_noLapse hlapse) hc
          rw [← hback] at hagree ht
          obtain ⟨hreplies, hfinal⟩ := ih hagree ht
          rw [CachedStore.run, backendRun, hreply, hreplies, hfinal, hback]
          exact ⟨rfl, rfl⟩

/-- **Transparency of the cache**: whatever the configuration and the tables at the start, calls
through the cached store get the replies of the backend alone and leave the same tables, if no two
of the keys that are looked up or dropped share a stored form and nothing lapses. -/
theorem CachedStore.run_eq_backendRun (cfg : Cache.Config) (d : DB S) (now : Time)
    (events : List (CacheEvent S)) (A : Set Bytes) (hinj : Set.InjOn encodeKey A)
    (ht : Tracked A now d events) :
    ((CachedStore.new cfg d).run events).1 = (backendRun events d).1 ∧
      ((CachedStore.new cfg d).run events).2.backend = (backendRun events d).2 := by
  have hempty : (CachedStore.new cfg d).cache.Agrees A now d := fun key en hen => by cases hen
  exact CachedStore.run_agrees hinj events hempty ht

/-- `SET key v`, `GET key`, `DEL key` and `GET key`. -/
def setGetDelGet (key : Bytes) : List (CacheEvent ℤ) :=
  [.call (envAt 0) 0 0 (.set key [118] 0), .call (envAt 0) 0 0 (.get key),
    .call (envAt 0) 0 0 (.del [key]), .call (envAt 0) 0 0 (.get key)]

/-- The run with the key `k`. -/
theorem run_eq_backendRun_text :
    ((CachedStore.new ⟨1000, 0, [], []⟩ emptyDB).run (setGetDelGet [107])).1 =
      (backendRun (setGetDelGet [107]) emptyDB).1 ∧
    ((CachedStore.new ⟨1000, 0, [], []⟩ emptyDB).run (setGetDelGet [107])).2.backend =
      (backendRun (setGetDelGet [107]) emptyDB).2 := by
  refine CachedStore.run_eq_backendRun _ _ 0 _ {[107]} (by simp) ?_
  have hkeep (d : DB ℤ) : NoLapse 0 (envAt 0).now d := fun _ _ _ h => h
  refine ⟨hkeep _, fun r key hkey => ?_, hkeep _, rfl, hkeep _, fun r key hkey => ?_, hkeep _, rfl,
    trivial⟩
  · simpa [Cmd.invalidates] using hkey
  · have hdel : sortStrings (encodeKeys [[107]]) = [[107]] := by decide
    rw [Cmd.invalidates, hdel] at hkey
    exact List.mem_singleton.mp hkey

/-- The value in a reply of `GET`. -/
def Reply.found : Except Failure (Reply ℤ) → Option Bytes
  | .ok (.value v) => v
  | _ => none

/-- With a key of one byte that is no text, the last `GET` still finds the value in the cache. -/
theorem del_leaves_cached :
    ((CachedStore.new ⟨1000, 0, [], []⟩ emptyDB).run (setGetDelGet [255])).1.map Reply.found =
      [none, some [118], none, some [118]] ∧
    (backendRun (setGetDelGet [255]) emptyDB).1.map Reply.found = [none, some [118], none, none] := by
  decide

end Postkeys
