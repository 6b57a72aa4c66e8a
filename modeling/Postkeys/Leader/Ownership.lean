import Postkeys.Leader.Election
import Mathlib.Data.List.Induction

/-! # Who holds the lease

Every change of the holder of the lease is a creation, a takeover of a lease that had expired by the
clock of the taker, or a surrender by the holder (`ownership`), whatever the clocks of the pods show
and whatever the network does with their requests.

The proof is a contract between a pod and the rest of the cluster (`contract`): a pod writes only
leases that follow by one of the rules from the version they are based on (`Change`), and what it
knows about the history of the lease stays true while the history grows.  The clauses under `sync`
hold if all pods read one clock that does not run backwards; they are for the module on timing. -/

namespace Postkeys.Leader

open Concurrent

variable {ι : Type} {q : Query} {entry : Entry ι} {fl : List (ι × Query)} {n : ℕ}

abbrev World (ι : Type) := Concurrent.World ι Query (Cluster ι)

/-! ### The rules for writing a lease -/

section rules

variable (pods : Pods ι) (sync : Prop)

/-- The rules by which pod `i` may replace a lease: it renews its own, takes over an expired one, or
gives up its own. -/
inductive Change (e : Cluster ι) (i : ι) (old new : LeaseSpec) : Prop
  | renewed (t : ℤ) (hreading : t ∈ e.readings i)
      (hclock : sync → t ≤ e.clock ∧ ∀ rt, old.renewTime = some (.micro rt) → rt ≤ t / 1000)
      (hold : old.holderIdentity = some (pods.name i)) (hnew : new = old.renewed t)
  | takenOver (t : ℤ) (hreading : t ∈ e.readings i) (hclock : sync → t ≤ e.clock)
      (hold : old.holderIdentity ≠ some (pods.name i)) (hexpired : leaseExpired old t = true)
      (hnew : new = old.takenOver (pods.name i) t)
  | released (hold : old.holderIdentity = some (pods.name i)) (hnew : new = old.released)

/-- A later state of the cluster. -/
structure Grown (e e' : Cluster ι) : Prop where
  history : e.history <+: e'.history
  readings : ∀ j t, t ∈ e.readings j → t ∈ e'.readings j
  clock : sync → e.clock ≤ e'.clock

/-- A later state of the cluster in which pod `i` is still at the same command. -/
structure Later (i : ι) (e e' : Cluster ι) : Prop extends Grown sync e e' where
  started : e'.started i = e.started i
  running : e'.running i = e.running i

/-- What pod `i` may rely on for its part of the history: what it did not send does not turn up. -/
structure Keeps (i : ι) (w w' : World ι) : Prop extends Later sync i w.env w'.env where
  flying : ∀ l, (i, .updateLease l) ∈ w'.flying → (i, .updateLease l) ∈ w.flying
  own : ∀ n entry, w.env.history.length ≤ n → w'.env.history[n]? = some entry →
    entry.writer = some i → n = 0 ∨ ∃ l, (i, .updateLease l) ∈ w.flying ∧ n = l.resourceVersion + 1

/-- What pod `i` may rely on while others move. -/
structure Rely (i : ι) (w w' : World ι) : Prop extends Keeps sync i w w' where
  leader : w'.env.isLeader i = w.env.isLeader i
  lastRenew : w'.env.lastRenew i = w.env.lastRenew i

/-- Entry `n` of the history is the last that pod `i` wrote, and no request it has given up can
become a later one. -/
structure Fresh (i : ι) (n : ℕ) (entry : Entry ι) (w : World ι) : Prop where
  found : w.env.history[n]? = some entry
  writer : entry.writer = some i
  last : ∀ m entry', n < m → w.env.history[m]? = some entry' → entry'.writer ≠ some i
  flying : ∀ l, (i, .updateLease l) ∈ w.flying → l.resourceVersion < n

/-- The last write of pod `i` made it the holder, by a reading of its clock since it began. -/
def Acquired (i : ι) (w : World ι) : Prop :=
  ∃ n entry t, Fresh i n entry w ∧ entry.spec.holderIdentity = some (pods.name i) ∧
    entry.spec.renewTime = some (microTime t) ∧ (sync → w.env.started i ≤ t)

/-- What is always true of the history of the lease, which began with `l₀`, if any. -/
structure Good (l₀ : Option LeaseSpec) (w : World ι) : Prop where
  begun : w.env.history = [] → l₀ = none
  first : ∀ entry, w.env.history[0]? = some entry → (entry.writer = none ∧ l₀ = some entry.spec) ∨
    l₀ = none ∧ ∃ i t, entry = ⟨some i, newLease (pods.name i) leaseSeconds t⟩ ∧
      t ∈ w.env.readings i ∧ (sync → t ≤ w.env.clock)
  change : ∀ n old new, w.env.history[n]? = some old → w.env.history[n + 1]? = some new →
    ∃ i, new.writer = some i ∧ Change pods sync w.env i old.spec new.spec
  flying : ∀ i l, (i, .updateLease l) ∈ w.flying → l.resourceVersion < w.env.history.length

/-- What must be true of a request on its way. -/
def May (i : ι) (q : Query) (w : World ι) : Prop :=
  match q with
  | .getLease => True
  | .createLease d t => d = leaseSeconds ∧ t ∈ w.env.readings i ∧ (sync → t ≤ w.env.clock)
  | .updateLease l => ∃ entry, w.env.history[l.resourceVersion]? = some entry ∧
      Change pods sync w.env i entry.spec l.spec
  | .setLeaderLabel _ => True
  | _ => False

/-- What a pod may ask. -/
def Asks (i : ι) (q : Query) (w : World ι) : Prop :=
  match q with
  | .createLease d t => d = leaseSeconds ∧ t ∈ w.env.readings i ∧
      (sync → w.env.started i ≤ t ∧ t ≤ w.env.clock)
  | .updateLease l => (∃ entry, w.env.history[l.resourceVersion]? = some entry ∧
      Change pods sync w.env i entry.spec l.spec) ∧
      (w.env.running i = .tick → l.spec.holderIdentity = some (pods.name i))
  | .storeLeader true => Acquired pods sync i w ∧ w.env.running i = .tick
  | .storeLastRenew t => Acquired pods sync i w ∧ (sync → w.env.started i ≤ t ∧ t ≤ w.env.clock)
  | _ => True

/-- What a pod knows when it gets an answer. -/
def Answered (i : ι) (w w' : World ι) : (q : Query) → Answer q → Prop
  | .getLease, a => Rely sync i w w' ∧ ∀ l, a = .found l → ∃ entry,
      w'.env.history[l.resourceVersion]? = some entry ∧ entry.spec = l.spec
  | .createLease d t, a => Later sync i w.env w'.env ∧ w'.env.isLeader i = w.env.isLeader i ∧
      w'.env.lastRenew i = w.env.lastRenew i ∧
      (a = .accepted → Fresh i 0 ⟨some i, newLease (pods.name i) d t⟩ w')
  | .updateLease l, a => Later sync i w.env w'.env ∧ w'.env.isLeader i = w.env.isLeader i ∧
      w'.env.lastRenew i = w.env.lastRenew i ∧
      (a = .accepted → Fresh i (l.resourceVersion + 1) ⟨some i, l.spec⟩ w')
  | .setLeaderLabel _, _ => Later sync i w.env w'.env ∧ w'.env.isLeader i = w.env.isLeader i ∧
      w'.env.lastRenew i = w.env.lastRenew i
  | .now, t => Rely sync i w w' ∧ t ∈ w'.env.readings i ∧ (sync → w.env.clock ≤ t ∧ t ≤ w'.env.clock)
  | .loadLeader, b => Rely sync i w w' ∧ b = w.env.isLeader i
  | .storeLeader b, _ => Keeps sync i w w' ∧ w'.env.isLeader i = b ∧
      w'.env.lastRenew i = w.env.lastRenew i
  | .loadLastRenew, t => Rely sync i w w' ∧ t = w.env.lastRenew i
  | .storeLastRenew t, _ => Keeps sync i w w' ∧ w'.env.isLeader i = w.env.isLeader i ∧
      w'.env.lastRenew i = t

/-- What is true when a command of a pod ends. -/
def Post (i : ι) (w : World ι) : Prop :=
  match w.env.running i with
  | .tick => sync → w.env.isLeader i = true → w.env.started i < w.env.lastRenew i + renewDeadline
  | .stop => w.env.isLeader i = false

/-- The contract between a pod and the rest of the cluster. -/
def contract (l₀ : Option LeaseSpec) : Contract ι Query (Cluster ι) Answer where
  good := Good pods sync l₀
  asks := Asks pods sync
  may := May pods sync
  rely := Rely sync
  answered i q a w w' := Answered pods sync i w w' q a
  post := Post sync

end rules

/-! ### The history only grows -/

section grows

variable {pods : Pods ι} {sync : Prop} {i j : ι} {e e' e'' : Cluster ι} {w w' w'' : World ι}

theorem getElem?_mono {α : Type} {xs ys : List α} (h : xs <+: ys) {x : α}
    (hn : xs[n]? = some x) : ys[n]? = some x := by
  obtain ⟨zs, rfl⟩ := h
  rw [List.getElem?_append_left (List.getElem?_eq_some_iff.mp hn).1]
  exact hn

theorem Grown.refl (e : Cluster ι) : Grown sync e e :=
  ⟨List.prefix_rfl, fun _ _ ht => ht, fun _ => le_rfl⟩

theorem Grown.trans (h : Grown sync e e') (h' : Grown sync e' e'') : Grown sync e e'' :=
  ⟨h.history.trans h'.history, fun j t ht => h'.readings j t (h.readings j t ht),
    fun hs => (h.clock hs).trans (h'.clock hs)⟩

theorem Later.trans (h : Later sync i e e') (h' : Later sync i e' e'') : Later sync i e e'' :=
  ⟨h.toGrown.trans h'.toGrown, h'.started.trans h.started, h'.running.trans h.running⟩

theorem Keeps.trans (h : Keeps sync i w w') (h' : Keeps sync i w' w'') : Keeps sync i w w'' where
  toLater := h.toLater.trans h'.toLater
  flying l hl := h.flying l (h'.flying l hl)
  own := by
    intro n entry hn hentry hwriter
    by_cases hlt : n < w'.env.history.length
    · -- it was there at the world in between
      obtain ⟨zs, hzs⟩ := h'.history
      rw [← hzs, List.getElem?_append_left hlt] at hentry
      exact h.own n entry hn hentry hwriter
    · rcases h'.own n entry (Nat.le_of_not_lt hlt) hentry hwriter with hzero | ⟨l, hl, hnl⟩
      · exact Or.inl hzero
      · exact Or.inr ⟨l, h.flying l hl, hnl⟩

theorem Rely.refl (i : ι) (w : World ι) : Rely sync i w w where
  toKeeps := {
    toLater := ⟨Grown.refl _, rfl, rfl⟩
    flying := fun _ hl => hl
    own := by
      intro n entry hn hentry
      exact absurd (List.getElem?_eq_some_iff.mp hentry).1 (Nat.not_lt_of_le hn) }
  leader := rfl
  lastRenew := rfl

theorem Rely.trans (h : Rely sync i w w') (h' : Rely sync i w' w'') : Rely sync i w w'' :=
  ⟨h.toKeeps.trans h'.toKeeps, h'.leader.trans h.leader, h'.lastRenew.trans h.lastRenew⟩

theorem Change.mono (hgrown : Grown sync e e') {old new : LeaseSpec}
    (h : Change pods sync e i old new) : Change pods sync e' i old new := by
  cases h with
  | renewed t hreading hclock hold hnew =>
      exact .renewed t (hgrown.readings i t hreading)
        (fun hs => ⟨(hclock hs).1.trans (hgrown.clock hs), (hclock hs).2⟩) hold hnew
  | takenOver t hreading hclock hold hexpired hnew =>
      exact .takenOver t (hgrown.readings i t hreading)
        (fun hs => (hclock hs).trans (hgrown.clock hs)) hold hexpired hnew
  | released hold hnew => exact .released hold hnew

theorem May.mono (hgrown : Grown sync w.env w'.env) (h : May pods sync i q w) :
    May pods sync i q w' := by
  cases q with
  | createLease d t =>
      exact ⟨h.1, hgrown.readings i t h.2.1, fun hs => (h.2.2 hs).trans (hgrown.clock hs)⟩
  | updateLease l =>
      obtain ⟨entry, hentry, hchange⟩ := h
      exact ⟨entry, getElem?_mono hgrown.history hentry, hchange.mono hgrown⟩
  | _ => exact h

theorem Fresh.keep (hkeeps : Keeps sync i w w') (h : Fresh i n entry w) :
    Fresh i n entry w' where
  found := getElem?_mono hkeeps.history h.found
  writer := h.writer
  last := by
    intro m entry' hm hentry' hwriter
    by_cases hlt : m < w.env.history.length
    · obtain ⟨zs, hzs⟩ := hkeeps.history
      rw [← hzs, List.getElem?_append_left hlt] at hentry'
      exact h.last m entry' hm hentry' hwriter
    · rcases hkeeps.own m entry' (Nat.le_of_not_lt hlt) hentry' hwriter with hzero | ⟨l, hl, hml⟩
      · omega
      · have hversion := h.flying l hl
        omega
  flying l hl := h.flying l (hkeeps.flying l hl)

theorem Acquired.keep (hkeeps : Keeps sync i w w') (h : Acquired pods sync i w) :
    Acquired pods sync i w' := by
  obtain ⟨n, entry, t, hfresh, hholder, hrenew, hstarted⟩ := h
  exact ⟨n, entry, t, hfresh.keep hkeeps, hholder, hrenew, fun hs => hkeeps.started ▸ hstarted hs⟩

theorem Asks.keep (hrely : Rely sync i w w') (h : Asks pods sync i q w) :
    Asks pods sync i q w' := by
  have hgrown := hrely.toGrown
  cases q with
  | createLease d t =>
      refine ⟨h.1, hgrown.readings i t h.2.1, fun hs => ?_⟩
      rw [hrely.started]
      exact ⟨(h.2.2 hs).1, (h.2.2 hs).2.trans (hgrown.clock hs)⟩
  | updateLease l =>
      obtain ⟨⟨entry, hentry, hchange⟩, htick⟩ := h
      refine ⟨⟨entry, getElem?_mono hgrown.history hentry, hchange.mono hgrown⟩, ?_⟩
      rw [hrely.running]
      exact htick
  | storeLeader b =>
      cases b with
      | true => exact ⟨h.1.keep hrely.toKeeps, hrely.running.trans h.2⟩
      | false => trivial
  | storeLastRenew t =>
      refine ⟨h.1.keep hrely.toKeeps, fun hs => ?_⟩
      rw [hrely.started]
      exact ⟨(h.2 hs).1, (h.2 hs).2.trans (hgrown.clock hs)⟩
  | _ => trivial

theorem Post.keep (hrely : Rely sync i w w') (h : Post sync i w) : Post sync i w' := by
  rw [Post, hrely.running, hrely.leader, hrely.started, hrely.lastRenew]
  exact h

theorem Answered.keep {a : Answer q} (hrely : Rely sync i w w')
    (h : Answered pods sync i w' w'' q a) : Answered pods sync i w w'' q a := by
  cases q with
  | getLease => exact ⟨hrely.trans h.1, h.2⟩
  | createLease d t =>
      exact ⟨hrely.toLater.trans h.1, h.2.1.trans hrely.leader, h.2.2.1.trans hrely.lastRenew, h.2.2.2⟩
  | updateLease l =>
      exact ⟨hrely.toLater.trans h.1, h.2.1.trans hrely.leader, h.2.2.1.trans hrely.lastRenew, h.2.2.2⟩
  | setLeaderLabel b =>
      exact ⟨hrely.toLater.trans h.1, h.2.1.trans hrely.leader, h.2.2.trans hrely.lastRenew⟩
  | now => exact ⟨hrely.trans h.1, h.2.1, fun hs => ⟨(hrely.clock hs).trans (h.2.2 hs).1, (h.2.2 hs).2⟩⟩
  | loadLeader => exact ⟨hrely.trans h.1, h.2.trans hrely.leader⟩
  | storeLeader b => exact ⟨hrely.toKeeps.trans h.1, h.2.1, h.2.2.trans hrely.lastRenew⟩
  | loadLastRenew => exact ⟨hrely.trans h.1, h.2.trans hrely.lastRenew⟩
  | storeLastRenew t => exact ⟨hrely.toKeeps.trans h.1, h.2.1.trans hrely.leader, h.2.2⟩

end grows

/-! ### The cluster meets the contract -/

section sound

variable {pods : Pods ι} {sync : Prop} {l₀ : Option LeaseSpec} {i j : ι} {w w' : World ι}

theorem getElem?_concat {α : Type} {xs : List α} {x y : α} (h : (xs ++ [x])[n]? = some y) :
    xs[n]? = some y ∨ n = xs.length ∧ y = x := by
  by_cases hlt : n < xs.length
  · rw [List.getElem?_append_left hlt] at h
    exact Or.inl h
  · rw [List.getElem?_append_right (Nat.le_of_not_lt hlt)] at h
    have hn := (List.getElem?_eq_some_iff.mp h).1
    rw [List.length_singleton] at hn
    have hzero : n - xs.length = 0 := by omega
    rw [hzero] at h
    exact Or.inr ⟨by omega, (Option.some.inj h).symm⟩

theorem grown_write (i : ι) (spec : LeaseSpec) (e : Cluster ι) : Grown sync e (e.write i spec) :=
  ⟨List.prefix_append _ _, fun _ _ ht => ht, fun _ => le_rfl⟩

theorem Good.of_same (h : Good pods sync l₀ w) (hgrown : Grown sync w.env w'.env)
    (hsame : w'.env.history = w.env.history)
    (hfl : ∀ i l, (i, .updateLease l) ∈ w'.flying → (i, .updateLease l) ∈ w.flying) :
    Good pods sync l₀ w' where
  begun := by
    rw [hsame]
    exact h.begun
  first := by
    rw [hsame]
    intro entry hentry
    rcases h.first entry hentry with hold | ⟨hnone, j, t, hnew, hreading, hclock⟩
    · exact Or.inl hold
    · exact Or.inr ⟨hnone, j, t, hnew, hgrown.readings j t hreading,
        fun hs => (hclock hs).trans (hgrown.clock hs)⟩
  change := by
    rw [hsame]
    intro n old new hold hnew
    obtain ⟨j, hwriter, hchange⟩ := h.change n old new hold hnew
    exact ⟨j, hwriter, hchange.mono hgrown⟩
  flying i l hl := by
    rw [hsame]
    exact h.flying i l (hfl i l hl)

/-- A lease that follows by the rules from the one in force may come into force. -/
theorem Good.update (h : Good pods sync l₀ w) {l : Lease}
    (hfl : ∀ i l, (i, .updateLease l) ∈ fl → (i, .updateLease l) ∈ w.flying)
    (hversion : l.resourceVersion + 1 = w.env.history.length)
    (hentry : w.env.history[l.resourceVersion]? = some entry)
    (hchange : Change pods sync w.env i entry.spec l.spec) :
    Good pods sync l₀ ⟨w.env.write i l.spec, fl⟩ where
  begun hnil := by simp [Cluster.write] at hnil
  first := by
    intro entry' hentry'
    rcases getElem?_concat hentry' with hold | ⟨hzero, -⟩
    · exact h.first entry' hold
    · omega
  change := by
    intro n old new hold hnew
    have hgrown : Grown sync w.env (w.env.write i l.spec) := grown_write i l.spec w.env
    rcases getElem?_concat hnew with hnew' | ⟨hn, rfl⟩
    · have hlt := (List.getElem?_eq_some_iff.mp hnew').1
      rcases getElem?_concat hold with hold' | ⟨hn, -⟩
      · obtain ⟨j, hwriter, hchange'⟩ := h.change n old new hold' hnew'
        exact ⟨j, hwriter, hchange'.mono hgrown⟩
      · omega
    · have hn' : n = l.resourceVersion := by omega
      subst hn'
      have heq : old = entry := by
        rw [getElem?_mono hgrown.history hentry] at hold
        exact (Option.some.inj hold).symm
      subst heq
      exact ⟨i, rfl, hchange.mono hgrown⟩
  flying i' l' hl' := by
    have hlt := h.flying i' l' (hfl i' l' hl')
    simp only [Cluster.write, List.length_append, List.length_singleton]
    omega

theorem Good.create (h : Good pods sync l₀ w)
    (hfl : ∀ i l, (i, .updateLease l) ∈ fl → (i, .updateLease l) ∈ w.flying)
    (hnil : w.env.history = []) {t : ℤ} (hreading : t ∈ w.env.readings i) (hclock : sync → t ≤ w.env.clock) :
    Good pods sync l₀ ⟨w.env.write i (newLease (pods.name i) leaseSeconds t), fl⟩ where
  begun hnil' := by simp [Cluster.write] at hnil'
  first := by
    intro entry hentry
    rcases getElem?_concat hentry with hold | ⟨-, rfl⟩
    · rw [hnil] at hold
      cases hold
    · exact Or.inr ⟨h.begun hnil, i, t, rfl, hreading, hclock⟩
  change := by
    intro n old new hold hnew
    rcases getElem?_concat hnew with hnew' | ⟨hn, -⟩
    · rw [hnil] at hnew'
      cases hnew'
    · rw [hnil] at hn
      exact absurd hn (Nat.succ_ne_zero n)
  flying i' l' hl' := by
    have hlt := h.flying i' l' (hfl i' l' hl')
    rw [hnil] at hlt
    exact absurd hlt (Nat.not_lt_zero _)

/-- A pod sees a lease come into force, written by another pod or by a request of its own that it
has given up. -/
theorem rely_write (spec : LeaseSpec)
    (hfl : ∀ l, (j, .updateLease l) ∈ fl → (j, .updateLease l) ∈ w.flying)
    (hown : j = i → w.env.history = [] ∨
      ∃ l, (i, .updateLease l) ∈ w.flying ∧ w.env.history.length = l.resourceVersion + 1) :
    Rely sync j w ⟨w.env.write i spec, fl⟩ where
  toKeeps := {
    toLater := ⟨grown_write i spec w.env, rfl, rfl⟩
    flying := hfl
    own := by
      intro n entry hn hentry hwriter
      rcases getElem?_concat hentry with hold | ⟨hlength, rfl⟩
      · exact absurd (List.getElem?_eq_some_iff.mp hold).1 (Nat.not_lt_of_le hn)
      · have hji : i = j := Option.some.inj hwriter
        subst hji
        rcases hown rfl with hnil | ⟨l, hl, hversion⟩
        · rw [hnil] at hlength
          exact Or.inl hlength
        · exact Or.inr ⟨l, hl, hlength.trans hversion⟩ }
  leader := rfl
  lastRenew := rfl

/-- A pod sees a step that does not touch the history or its own variables. -/
theorem rely_same (hgrown : Grown sync w.env w'.env) (hsame : w'.env.history = w.env.history)
    (hfl : ∀ l, (j, .updateLease l) ∈ w'.flying → (j, .updateLease l) ∈ w.flying)
    (hstarted : w'.env.started j = w.env.started j) (hrunning : w'.env.running j = w.env.running j)
    (hleader : w'.env.isLeader j = w.env.isLeader j)
    (hlast : w'.env.lastRenew j = w.env.lastRenew j) : Rely sync j w w' where
  toKeeps := {
    toLater := ⟨hgrown, hstarted, hrunning⟩
    flying := hfl
    own := by
      intro n entry hn hentry
      rw [hsame] at hentry
      exact absurd (List.getElem?_eq_some_iff.mp hentry).1 (Nat.not_lt_of_le hn) }
  leader := hleader
  lastRenew := hlast

/-- A step of pod `i` that does not touch the history. -/
theorem moves_same (h : Good pods sync l₀ w) (hgrown : Grown sync w.env w'.env)
    (hsame : w'.env.history = w.env.history)
    (hfl : ∀ i l, (i, .updateLease l) ∈ w'.flying → (i, .updateLease l) ∈ w.flying)
    (hrely : ∀ j, j ≠ i → Rely sync j w w') : (contract pods sync l₀).Moves i w w' :=
  ⟨h.of_same hgrown hsame hfl, hrely, fun _ _ hmay => hmay.mono hgrown⟩

/-- What the update of a lease that may be written does: nothing, or the lease comes into force. -/
theorem update_moves [DecidableEq ι] (h : Good pods sync l₀ w) {l : Lease} (fl : List (ι × Query))
    (hmay : May pods sync i (.updateLease l) w)
    (hfl : ∀ j l', (j, .updateLease l') ∈ fl → (j, .updateLease l') ∈ w.flying) :
    (contract pods sync l₀).Moves i w ⟨(Cluster.exec pods i (.updateLease l) w.env).2, fl⟩ ∧
      (Cluster.exec pods i (.updateLease l) w.env = (.accepted, w.env.write i l.spec) ∧
          l.resourceVersion + 1 = w.env.history.length ∨
        (Cluster.exec pods i (.updateLease l) w.env).1 ≠ .accepted ∧
          (Cluster.exec pods i (.updateLease l) w.env).2 = w.env) := by
  have hstays : (contract pods sync l₀).Moves i w ⟨w.env, fl⟩ :=
    moves_same h (Grown.refl _) rfl hfl fun j _ => rely_same (Grown.refl _) rfl (hfl j) rfl rfl rfl rfl
  obtain ⟨entry, hentry, hchange⟩ := hmay
  rw [Cluster.exec]
  split
  · exact ⟨hstays, Or.inr ⟨fun heq => WriteAnswer.noConfusion heq, rfl⟩⟩
  · split
    · rename_i hversion
      refine ⟨⟨h.update hfl hversion hentry hchange, fun j hj => ?_, fun _ _ hmay => ?_⟩,
        Or.inl ⟨rfl, hversion⟩⟩
      · exact rely_write l.spec (hfl j) fun hji => absurd hji hj
      · exact hmay.mono (grown_write i l.spec w.env)
    · exact ⟨hstays, Or.inr ⟨fun heq => WriteAnswer.noConfusion heq, rfl⟩⟩

/-- The same for the creation of a lease. -/
theorem create_moves [DecidableEq ι] (h : Good pods sync l₀ w) {d t : ℤ} (fl : List (ι × Query))
    (hmay : May pods sync i (.createLease d t) w)
    (hfl : ∀ j l', (j, .updateLease l') ∈ fl → (j, .updateLease l') ∈ w.flying) :
    (contract pods sync l₀).Moves i w ⟨(Cluster.exec pods i (.createLease d t) w.env).2, fl⟩ ∧
      (Cluster.exec pods i (.createLease d t) w.env =
          (.accepted, w.env.write i (newLease (pods.name i) d t)) ∧ w.env.history = [] ∨
        (Cluster.exec pods i (.createLease d t) w.env).1 ≠ .accepted ∧
          (Cluster.exec pods i (.createLease d t) w.env).2 = w.env) := by
  have hstays : (contract pods sync l₀).Moves i w ⟨w.env, fl⟩ :=
    moves_same h (Grown.refl _) rfl hfl fun j _ => rely_same (Grown.refl _) rfl (hfl j) rfl rfl rfl rfl
  obtain ⟨rfl, hreading, hclock⟩ := hmay
  rw [Cluster.exec]
  split
  · rename_i hnil
    refine ⟨⟨h.create hfl hnil hreading hclock, fun j hj => ?_, fun _ _ hmay => ?_⟩, Or.inl ⟨rfl, hnil⟩⟩
    · exact rely_write _ (hfl j) fun hji => absurd hji hj
    · exact hmay.mono (grown_write i _ w.env)
  · exact ⟨hstays, Or.inr ⟨fun heq => WriteAnswer.noConfusion heq, rfl⟩⟩

end sound

/-! ### The code keeps the contract -/

section code

variable {pods : Pods ι} {sync : Prop} {l₀ : Option LeaseSpec} {i : ι} {w w' : World ι}

theorem safe_ask {β : Type} {post : β → World ι → Prop} (q : Query) {f : Answer q → Code β}
    (hasks : Asks pods sync i q w) (h : ∀ a w', Answered pods sync i w w' q a → Good pods sync l₀ w' →
      (contract pods sync l₀).Safe i post (f a) w') :
    (contract pods sync l₀).Safe i post (ask q >>= f) w := ⟨hasks, h⟩

/-- On one clock, the renewal time of a held lease is not in the future. -/
theorem Good.renewTime_le (h : Good pods sync l₀ w) (hs : sync) (hnone : l₀ = none)
    (hentry : w.env.history[n]? = some entry)
    (hholder : entry.spec.holderIdentity = some (pods.name i)) {rt : ℤ}
    (hrt : entry.spec.renewTime = some (.micro rt)) : rt ≤ w.env.clock / 1000 := by
  have hread {t : ℤ} (ht : t ≤ w.env.clock) (hmicro : some (microTime t) = some (.micro rt)) :
      rt ≤ w.env.clock / 1000 := by
    rw [microTime, Option.some.injEq, TimeText.micro.injEq] at hmicro
    omega
  cases n with
  | zero =>
      rcases h.first entry hentry with ⟨-, hsome⟩ | ⟨-, j, t, rfl, -, hclock⟩
      · rw [hnone] at hsome
        cases hsome
      · exact hread (hclock hs) hrt
  | succ n =>
      have hlt := (List.getElem?_eq_some_iff.mp hentry).1
      obtain ⟨j, -, hchange⟩ := h.change n _ entry (List.getElem?_eq_getElem (Nat.lt_of_succ_lt hlt)) hentry
      cases hchange with
      | renewed t _ hclock _ hnew =>
          rw [hnew] at hrt
          exact hread (hclock hs).1 hrt
      | takenOver t _ hclock _ _ hnew =>
          rw [hnew] at hrt
          exact hread (hclock hs) hrt
      | released _ hnew =>
          rw [hnew] at hholder
          exact absurd (Option.some.inj hholder).symm (pods.name_ne i)

/-- Pod `i` is at command `c`, its variables have these values. -/
structure Running (sync : Prop) (i : ι) (c : Command) (leader : Bool) (last : ℤ) (w : World ι) : Prop where
  command : w.env.running i = c
  leader : w.env.isLeader i = leader
  lastRenew : w.env.lastRenew i = last
  began : sync → w.env.started i ≤ w.env.clock

variable {c : Command} {leader : Bool} {last : ℤ}

theorem Running.later (h : Running sync i c leader last w) (hlater : Later sync i w.env w'.env)
    (hleader : w'.env.isLeader i = w.env.isLeader i)
    (hlast : w'.env.lastRenew i = w.env.lastRenew i) : Running sync i c leader last w' where
  command := hlater.running.trans h.command
  leader := hleader.trans h.leader
  lastRenew := hlast.trans h.lastRenew
  began hs := by
    rw [hlater.started]
    exact (h.began hs).trans (hlater.clock hs)

theorem Running.rely (h : Running sync i c leader last w) (hrely : Rely sync i w w') :
    Running sync i c leader last w' := h.later hrely.toLater hrely.leader hrely.lastRenew

theorem outcome_ok_true {a : WriteAnswer} (h : a.outcome = .ok true) : a = .accepted := by
  cases a with
  | accepted => rfl
  | conflict => cases h
  | failed => cases h

/-- **`attempt` answers `true` only if the last write of the pod made it the holder.** -/
theorem attempt_safe (hsync : sync → l₀ = none) (h : Running sync i .tick leader last w) :
    (contract pods sync l₀).Safe i (fun r w' => Running sync i .tick leader last w' ∧
      (r = .ok true → Acquired pods sync i w')) (attempt (pods.name i)) w := by
  refine safe_ask .getLease trivial fun a w₁ hget hgood₁ => ?_
  have h₁ := h.rely hget.1
  have hrefuse {r : Except Unit Bool} {w' : World ι} (hr : r ≠ .ok true) (hacq : r = .ok true) :
      Acquired pods sync i w' := absurd hacq hr
  cases a with
  | failed => exact ⟨h₁, hrefuse fun heq => by cases heq⟩
  | notFound =>
      refine safe_ask .now trivial fun t w₂ hnow hgood₂ => ?_
      have h₂ := h₁.rely hnow.1
      have hbegan (hs : sync) : w₂.env.started i ≤ t := by
        rw [hnow.1.started]
        exact (h₁.began hs).trans (hnow.2.2 hs).1
      refine safe_ask (.createLease leaseSeconds t)
        ⟨rfl, hnow.2.1, fun hs => ⟨hbegan hs, (hnow.2.2 hs).2⟩⟩ fun a w₃ hcreate hgood₃ => ?_
      refine ⟨h₂.later hcreate.1 hcreate.2.1 hcreate.2.2.1, fun hacq => ?_⟩
      refine ⟨0, _, t, hcreate.2.2.2 (outcome_ok_true hacq), rfl, rfl, fun hs => ?_⟩
      rw [hcreate.1.started]
      exact hbegan hs
  | found l =>
      obtain ⟨entry, hentry, hspec⟩ := hget.2 l rfl
      refine safe_ask .now trivial fun t w₂ hnow hgood₂ => ?_
      have h₂ := h₁.rely hnow.1
      have hentry₂ := getElem?_mono hnow.1.history hentry
      have hbegan (hs : sync) : w₂.env.started i ≤ t := by
        rw [hnow.1.started]
        exact (h₁.began hs).trans (hnow.2.2 hs).1
      -- a lease that names the pod and was written with this reading
      have hwrite (spec : LeaseSpec) (hholder : spec.holderIdentity = some (pods.name i))
          (hrenew : spec.renewTime = some (microTime t))
          (hchange : Change pods sync w₂.env i entry.spec spec) :
          (contract pods sync l₀).Safe i (fun r w' => Running sync i .tick leader last w' ∧
            (r = .ok true → Acquired pods sync i w'))
            (updateLease { l with spec := spec } >>= fun a => pure a.outcome) w₂ := by
        refine safe_ask (.updateLease { l with spec := spec })
          ⟨⟨entry, hentry₂, hchange⟩, fun _ => hholder⟩ fun a w₃ hupdate hgood₃ => ?_
        refine ⟨h₂.later hupdate.1 hupdate.2.1 hupdate.2.2.1, fun hacq => ?_⟩
        refine ⟨_, _, t, hupdate.2.2.2 (outcome_ok_true hacq), hholder, hrenew, fun hs => ?_⟩
        rw [hupdate.1.started]
        exact hbegan hs
      split
      · rename_i hname
        have hholder : l.spec.holderIdentity = some (pods.name i) := by
          cases hid : l.spec.holderIdentity with
          | none =>
              rw [hid] at hname
              exact absurd hname.symm (pods.name_ne i)
          | some holder =>
              rw [hid] at hname
              exact congrArg some hname
        refine hwrite (l.spec.renewed t) hholder rfl ?_
        rw [hspec]
        refine .renewed t hnow.2.1 (fun hs => ⟨(hnow.2.2 hs).2, fun rt hrt => ?_⟩) hholder rfl
        have hle := hgood₁.renewTime_le hs (hsync hs) (i := i) hentry (by rwa [hspec]) (by rwa [hspec])
        have hclock := (hnow.2.2 hs).1
        omega
      · rename_i hname
        split
        · exact ⟨h₂, hrefuse fun heq => by cases heq⟩
        · rename_i hexpired
          refine hwrite (l.spec.takenOver (pods.name i) t) rfl rfl ?_
          rw [hspec]
          refine .takenOver t hnow.2.1 (fun hs => (hnow.2.2 hs).2) (fun hholder => ?_) ?_ rfl
          · rw [hholder] at hname
            exact hname rfl
          · simpa using hexpired

theorem post_tick (hrun : w.env.running i = .tick)
    (h : sync → w.env.isLeader i = true → w.env.started i < w.env.lastRenew i + renewDeadline) :
    Post sync i w := by
  rw [Post, hrun]
  exact h

theorem loseLease_safe (h : Running sync i .tick true last w) {t : ℤ} (failed : Bool)
    (hbegan : sync → w.env.started i ≤ t) :
    (contract pods sync l₀).Safe i (fun _ => Post sync i) (loseLease failed t) w := by
  refine safe_ask .loadLastRenew trivial fun t' w₁ hload hgood₁ => ?_
  have h₁ := h.rely hload.1
  split
  · rename_i hgrace
    refine post_tick h₁.command fun hs _ => ?_
    rw [Bool.and_eq_true, decide_eq_true_eq, hload.2, h.lastRenew] at hgrace
    have hstarted := hbegan hs
    rw [h₁.lastRenew, hload.1.started]
    omega
  · refine safe_ask (.storeLeader false) trivial fun _ w₂ hstore hgood₂ => ?_
    refine safe_ask (.setLeaderLabel false) trivial fun _ w₃ hlabel hgood₃ => ?_
    refine post_tick ?_ fun _ htrue => ?_
    · rw [hlabel.1.running, hstore.1.running, h₁.command]
    · rw [hlabel.2.1, hstore.2.1] at htrue
      cases htrue

theorem settle_safe {r : Except Unit Bool} (h : Running sync i .tick leader last w)
    (hacquired : r = .ok true → Acquired pods sync i w) :
    (contract pods sync l₀).Safe i (fun _ => Post sync i) (settle leader r) w := by
  have hdeadline : 0 < renewDeadline := by decide
  refine safe_ask .now trivial fun t w₁ hnow hgood₁ => ?_
  have h₁ := h.rely hnow.1
  have hbegan (hs : sync) : w₁.env.started i ≤ t := by
    rw [hnow.1.started]
    exact (h.began hs).trans (hnow.2.2 hs).1
  -- a pod that was not the leader and stays so
  have hstandby (hleader : leader = false) : (contract pods sync l₀).Safe i (fun _ => Post sync i)
      (pure ()) w₁ := by
    refine post_tick h₁.command fun _ htrue => ?_
    rw [h₁.leader, hleader] at htrue
    cases htrue
  have hlost (failed : Bool) : (contract pods sync l₀).Safe i (fun _ => Post sync i)
      (if leader then loseLease failed t else pure ()) w₁ := by
    cases leader with
    | true => exact loseLease_safe h₁ failed hbegan
    | false => exact hstandby rfl
  rcases r with _ | (_ | _)
  · exact hlost true
  · exact hlost false
  · have hacq := (hacquired rfl).keep hnow.1.toKeeps
    refine safe_ask (.storeLastRenew t)
      ⟨hacq, fun hs => ⟨hbegan hs, (hnow.2.2 hs).2⟩⟩ fun _ w₂ hstore hgood₂ => ?_
    have hrunning₂ : w₂.env.running i = .tick := hstore.1.running.trans h₁.command
    have hstarted₂ (hs : sync) : w₂.env.started i ≤ t := by
      rw [hstore.1.started]
      exact hbegan hs
    split
    · refine post_tick hrunning₂ fun hs _ => ?_
      have hstarted := hstarted₂ hs
      rw [hstore.2.2]
      omega
    · refine safe_ask (.storeLeader true) ⟨hacq.keep hstore.1, hrunning₂⟩ fun _ w₃ hleader hgood₃ => ?_
      refine safe_ask (.setLeaderLabel true) trivial fun _ w₄ hlabel hgood₄ => ?_
      refine post_tick ?_ fun hs _ => ?_
      · rw [hlabel.1.running, hleader.1.running, hrunning₂]
      · have hstarted := hstarted₂ hs
        rw [hlabel.1.started, hleader.1.started, hlabel.2.2, hleader.2.2, hstore.2.2]
        omega

theorem tick_safe (hsync : sync → l₀ = none) (h : Running sync i .tick leader last w) :
    (contract pods sync l₀).Safe i (fun _ => Post sync i) (tick (pods.name i)) w := by
  refine safe_ask .loadLeader trivial fun b w₁ hload hgood₁ => ?_
  have h₁ := h.rely hload.1
  have hb : b = leader := hload.2.trans h.leader
  rw [hb]
  refine Contract.safe_bind ?_
  exact (attempt_safe hsync h₁).mono fun r w₂ hr => settle_safe hr.1 hr.2

theorem releaseLease_safe (h : Running sync i .stop leader last w) :
    (contract pods sync l₀).Safe i (fun _ w' => Running sync i .stop leader last w')
      (releaseLease (pods.name i)) w := by
  refine safe_ask .getLease trivial fun a w₁ hget hgood₁ => ?_
  have h₁ := h.rely hget.1
  cases a with
  | failed => exact h₁
  | notFound => exact h₁
  | found l =>
      obtain ⟨entry, hentry, hspec⟩ := hget.2 l rfl
      dsimp only
      split
      · rename_i hholder
        refine safe_ask (.updateLease { l with spec := l.spec.released })
          ⟨⟨entry, hentry, .released (by rwa [hspec]) (by rw [hspec])⟩, fun htick => ?_⟩
          fun a w₂ hupdate hgood₂ => h₁.later hupdate.1 hupdate.2.1 hupdate.2.2.1
        rw [h₁.command] at htick
        cases htick
      · exact h₁

theorem stop_safe (h : Running sync i .stop leader last w) :
    (contract pods sync l₀).Safe i (fun _ => Post sync i) (stop (pods.name i)) w := by
  refine safe_ask .loadLeader trivial fun b w₁ hload hgood₁ => ?_
  have h₁ := h.rely hload.1
  have hb : b = leader := hload.2.trans h.leader
  have hpost {w' : World ι} (hrun : w'.env.running i = .stop) (hleader : w'.env.isLeader i = false) :
      Post sync i w' := by
    rw [Post, hrun]
    exact hleader
  split
  · refine Contract.safe_bind ((releaseLease_safe h₁).mono fun _ w₂ h₂ => ?_)
    refine safe_ask (.setLeaderLabel false) trivial fun _ w₃ hlabel hgood₃ => ?_
    refine ⟨trivial, fun _ w₄ hstore hgood₄ => hpost ?_ hstore.2.1⟩
    rw [hstore.1.running, hlabel.1.running, h₂.command]
  · rename_i hfalse
    refine hpost h₁.command ?_
    rw [h₁.leader, ← hb]
    simpa using hfalse

end code

/-! ### Runs -/

section runs

variable {pods : Pods ι} {sync : Prop} {l₀ : Option LeaseSpec} {i : ι} {w w' : World ι} [DecidableEq ι]

theorem exec_getLease (pods : Pods ι) (i : ι) (e : Cluster ι) : (Cluster.exec pods i .getLease e).2 = e ∧
    ∀ l, (Cluster.exec pods i .getLease e).1 = .found l →
      ∃ entry, e.history[l.resourceVersion]? = some entry ∧ entry.spec = l.spec := by
  rw [Cluster.exec]
  split
  · rename_i entry hlast
    refine ⟨rfl, fun l hl => ?_⟩
    cases hl
    rw [List.getLast?_eq_getElem?] at hlast
    exact ⟨entry, hlast, rfl⟩
  · refine ⟨rfl, fun l hl => ?_⟩
    cases hl

omit [DecidableEq ι] in
/-- A write that comes into force is the last of its pod. -/
theorem fresh_write (spec : LeaseSpec)
    (hflying : ∀ l, (i, .updateLease l) ∈ w.flying → l.resourceVersion < w.env.history.length) :
    Fresh i w.env.history.length ⟨some i, spec⟩ ⟨w.env.write i spec, w.flying⟩ where
  found := by simp [Cluster.write]
  writer := rfl
  last := by
    intro m entry' hm hentry'
    have hlt := (List.getElem?_eq_some_iff.mp hentry').1
    simp only [Cluster.write, List.length_append, List.length_singleton] at hlt
    omega
  flying := hflying

theorem after_eq (i : ι) (q : Query) (w : World ι) :
    (kubernetes pods).after i q w = ⟨(Cluster.exec pods i q w.env).2, w.flying⟩ := rfl

/-- What is carried out meets the contract. -/
theorem contract_exec (h : Good pods sync l₀ w) (hasks : Asks pods sync i q w) :
    (contract pods sync l₀).Moves i w ((kubernetes pods).after i q w) ∧
      Answered pods sync i w ((kubernetes pods).after i q w) q (Cluster.exec pods i q w.env).1 := by
  have hnothing : (contract pods sync l₀).Moves i w w :=
    moves_same h (Grown.refl _) rfl (fun _ _ hl => hl) fun j _ => Rely.refl j w
  have hlater : Later sync i w.env w.env := ⟨Grown.refl _, rfl, rfl⟩
  cases q with
  | getLease =>
      obtain ⟨hsame, hfound⟩ := exec_getLease pods i w.env
      rw [after_eq, hsame]
      exact ⟨hnothing, Rely.refl i w, hfound⟩
  | createLease d t =>
      obtain ⟨hmoves, hresult⟩ := create_moves h w.flying
        ⟨hasks.1, hasks.2.1, fun hs => (hasks.2.2 hs).2⟩ fun _ _ hl => hl
      refine ⟨hmoves, ?_⟩
      rw [after_eq]
      rcases hresult with ⟨hexec, hnil⟩ | ⟨hne, hsame⟩
      · rw [hexec]
        refine ⟨⟨grown_write _ _ _, rfl, rfl⟩, rfl, rfl, fun _ => ?_⟩
        have hfresh := fresh_write (newLease (pods.name i) d t) (h.flying i)
        rwa [hnil] at hfresh
      · rw [hsame]
        exact ⟨hlater, rfl, rfl, fun hacc => absurd hacc hne⟩
  | updateLease l =>
      obtain ⟨hmoves, hresult⟩ := update_moves h w.flying hasks.1 fun _ _ hl => hl
      refine ⟨hmoves, ?_⟩
      rw [after_eq]
      rcases hresult with ⟨hexec, hversion⟩ | ⟨hne, hsame⟩
      · rw [hexec]
        refine ⟨⟨grown_write _ _ _, rfl, rfl⟩, rfl, rfl, fun _ => ?_⟩
        rw [hversion]
        exact fresh_write l.spec (h.flying i)
      · rw [hsame]
        exact ⟨hlater, rfl, rfl, fun hacc => absurd hacc hne⟩
  | setLeaderLabel b =>
      have hgrown : Grown sync w.env ((kubernetes pods).after i (.setLeaderLabel b) w).env :=
        ⟨List.prefix_rfl, fun _ _ ht => ht, fun _ => le_rfl⟩
      refine ⟨moves_same h hgrown rfl (fun _ _ hl => hl) fun j _ => ?_, ⟨hgrown, rfl, rfl⟩, rfl, rfl⟩
      exact rely_same hgrown rfl (fun _ hl => hl) rfl rfl rfl rfl
  | now =>
      have hgrown : Grown sync w.env ((kubernetes pods).after i .now w).env := by
        refine ⟨List.prefix_rfl, fun j t ht => ?_, fun _ => le_rfl⟩
        change t ∈ Function.update w.env.readings i (w.env.clock :: w.env.readings i) j
        by_cases hji : j = i
        · subst hji
          rw [Function.update_self]
          exact List.mem_cons_of_mem _ ht
        · rw [Function.update_of_ne hji]
          exact ht
      have hrely (j : ι) : Rely sync j w ((kubernetes pods).after i .now w) :=
        rely_same hgrown rfl (fun _ hl => hl) rfl rfl rfl rfl
      refine ⟨moves_same h hgrown rfl (fun _ _ hl => hl) fun j _ => hrely j, hrely i, ?_,
        fun _ => ⟨le_rfl, le_rfl⟩⟩
      change w.env.clock ∈ Function.update w.env.readings i (w.env.clock :: w.env.readings i) i
      rw [Function.update_self]
      exact List.mem_cons_self
  | loadLeader => exact ⟨hnothing, Rely.refl i w, rfl⟩
  | loadLastRenew => exact ⟨hnothing, Rely.refl i w, rfl⟩
  | storeLeader b =>
      have hgrown : Grown sync w.env ((kubernetes pods).after i (.storeLeader b) w).env :=
        ⟨List.prefix_rfl, fun _ _ ht => ht, fun _ => le_rfl⟩
      have hkeeps : Keeps sync i w w := (Rely.refl i w).toKeeps
      refine ⟨moves_same h hgrown rfl (fun _ _ hl => hl) fun j hj => ?_,
        ⟨⟨hgrown, rfl, rfl⟩, hkeeps.flying, hkeeps.own⟩, Function.update_self _ _ _, rfl⟩
      exact rely_same hgrown rfl (fun _ hl => hl) rfl rfl (Function.update_of_ne hj _ _) rfl
  | storeLastRenew t =>
      have hgrown : Grown sync w.env ((kubernetes pods).after i (.storeLastRenew t) w).env :=
        ⟨List.prefix_rfl, fun _ _ ht => ht, fun _ => le_rfl⟩
      have hkeeps : Keeps sync i w w := (Rely.refl i w).toKeeps
      refine ⟨moves_same h hgrown rfl (fun _ _ hl => hl) fun j hj => ?_,
        ⟨⟨hgrown, rfl, rfl⟩, hkeeps.flying, hkeeps.own⟩, rfl, Function.update_self _ _ _⟩
      exact rely_same hgrown rfl (fun _ hl => hl) rfl rfl rfl (Function.update_of_ne hj _ _)

/-- A request whose answer is lost may have been carried out. -/
theorem contract_lost (h : Good pods sync l₀ w) (hremote : q.remote = true)
    (hasks : Asks pods sync i q w) :
    Answered pods sync i w ((kubernetes pods).after i q w) q q.failed := by
  have hexec := (contract_exec h hasks).2
  cases q with
  | getLease => exact ⟨hexec.1, fun l hl => by cases hl⟩
  | createLease d t => exact ⟨hexec.1, hexec.2.1, hexec.2.2.1, fun hacc => by cases hacc⟩
  | updateLease l => exact ⟨hexec.1, hexec.2.1, hexec.2.2.1, fun hacc => by cases hacc⟩
  | setLeaderLabel b => exact hexec
  | _ => cases hremote

omit [DecidableEq ι] in
theorem contract_drop (h : Good pods sync l₀ w) (hmay : May pods sync i q w) :
    (contract pods sync l₀).Moves i w (Service.drop i q w) where
  good := by
    refine ⟨h.begun, h.first, h.change, fun j l hl => ?_⟩
    rcases List.mem_cons.mp hl with heq | hold
    · cases heq
      obtain ⟨entry, hentry, -⟩ := hmay
      exact (List.getElem?_eq_some_iff.mp hentry).1
    · exact h.flying j l hold
  rely j hj := by
    refine rely_same (Grown.refl _) rfl (fun l hl => ?_) rfl rfl rfl rfl
    rcases List.mem_cons.mp hl with heq | hold
    · cases heq
      exact absurd rfl hj
    · exact hold
  may _ _ hmay' := hmay'.mono (Grown.refl _)

omit [DecidableEq ι] in
theorem contract_dropped (hremote : q.remote = true) :
    Answered pods sync i w (Service.drop i q w) q q.failed := by
  have hlater : Later sync i w.env (Service.drop i q w).env := ⟨Grown.refl _, rfl, rfl⟩
  cases q with
  | getLease =>
      refine ⟨rely_same (Grown.refl _) rfl (fun l hl => ?_) rfl rfl rfl rfl, fun l hl => by cases hl⟩
      rcases List.mem_cons.mp hl with heq | hold
      · cases heq
      · exact hold
  | createLease d t => exact ⟨hlater, rfl, rfl, fun hacc => by cases hacc⟩
  | updateLease l => exact ⟨hlater, rfl, rfl, fun hacc => by cases hacc⟩
  | setLeaderLabel b => exact ⟨hlater, rfl, rfl⟩
  | _ => cases hremote

/-- A request that was given up may reach the server at any time. -/
theorem contract_land (h : Good pods sync l₀ w) (hn : w.flying[n]? = some (i, q))
    (hmay : May pods sync i q w) :
    (contract pods sync l₀).Moves i w ((kubernetes pods).landing n i q w) ∧
      Rely sync i w ((kubernetes pods).landing n i q w) := by
  have hfl (j : ι) (l : Lease) (hl : (j, .updateLease l) ∈ w.flying.eraseIdx n) :
      (j, .updateLease l) ∈ w.flying := List.mem_of_mem_eraseIdx hl
  have hlanding : (kubernetes pods).landing n i q w =
      ⟨(Cluster.exec pods i q w.env).2, w.flying.eraseIdx n⟩ := rfl
  have hsame (e : Cluster ι) (hgrown : Grown sync w.env e) (hhistory : e.history = w.env.history)
      (hstarted : e.started = w.env.started) (hrunning : e.running = w.env.running)
      (hleader : e.isLeader = w.env.isLeader) (hlast : e.lastRenew = w.env.lastRenew) (j : ι) :
      Rely sync j w ⟨e, w.flying.eraseIdx n⟩ :=
    rely_same hgrown hhistory (hfl j) (congrFun hstarted j) (congrFun hrunning j) (congrFun hleader j)
      (congrFun hlast j)
  have hstays (j : ι) : Rely sync j w ⟨w.env, w.flying.eraseIdx n⟩ :=
    hsame w.env (Grown.refl _) rfl rfl rfl rfl rfl j
  rw [hlanding]
  cases q with
  | getLease =>
      rw [(exec_getLease pods i w.env).1]
      exact ⟨moves_same h (Grown.refl _) rfl hfl fun j _ => hstays j, hstays i⟩
  | createLease d t =>
      obtain ⟨hmoves, hresult⟩ := create_moves h _ hmay hfl
      refine ⟨hmoves, ?_⟩
      rcases hresult with ⟨hexec, hnil⟩ | ⟨-, hsame⟩
      · rw [hexec]
        exact rely_write _ (hfl i) fun _ => Or.inl hnil
      · rw [hsame]
        exact hstays i
  | updateLease l =>
      obtain ⟨hmoves, hresult⟩ := update_moves h _ hmay hfl
      refine ⟨hmoves, ?_⟩
      rcases hresult with ⟨hexec, hversion⟩ | ⟨-, hsame⟩
      · rw [hexec]
        exact rely_write _ (hfl i) fun _ => Or.inr ⟨l, List.mem_of_getElem? hn, hversion.symm⟩
      · rw [hsame]
        exact hstays i
  | setLeaderLabel b =>
      have hgrown : Grown sync w.env (Cluster.exec pods i (.setLeaderLabel b) w.env).2 :=
        ⟨List.prefix_rfl, fun _ _ ht => ht, fun _ => le_rfl⟩
      have hrely := hsame _ hgrown rfl rfl rfl rfl rfl
      exact ⟨moves_same h hgrown rfl hfl fun j _ => hrely j, hrely i⟩
  | _ => exact hmay.elim

/-- **The cluster meets the contract.** -/
theorem contract_sound (hsync : sync → l₀ = none) : (contract pods sync l₀).Sound (kubernetes pods) where
  rely_asks _ _ _ _ hrely hasks := hasks.keep hrely
  rely_post _ _ _ hrely hpost := hpost.keep hrely
  rely_answered _ _ _ _ _ _ hrely hanswered := hanswered.keep hrely
  asks_may i q w hremote hasks := by
    cases q with
    | createLease d t => exact ⟨hasks.1, hasks.2.1, fun hs => (hasks.2.2 hs).2⟩
    | updateLease l => exact hasks.1
    | getLease => trivial
    | setLeaderLabel b => trivial
    | _ => cases hremote
  exec _ _ _ hgood hasks := contract_exec hgood hasks
  lost _ _ _ hgood hremote hasks := contract_lost hgood hremote hasks
  drop _ _ _ hgood _ hmay := contract_drop hgood hmay
  dropped _ _ _ _ hremote _ := contract_dropped hremote
  land _ _ _ _ hgood hn hmay := contract_land hgood hn hmay
  begin i c w hgood := by
    have hgrown : Grown sync w.env ((kubernetes pods).begin i c w.env) :=
      ⟨List.prefix_rfl, fun _ _ ht => ht, fun _ => le_rfl⟩
    refine ⟨moves_same hgood hgrown rfl (fun _ _ hl => hl) fun j hj => ?_, ?_⟩
    · exact rely_same hgrown rfl (fun _ hl => hl) (Function.update_of_ne hj _ _)
        (Function.update_of_ne hj _ _) rfl rfl
    · have hrunning : Running sync i c (w.env.isLeader i) (w.env.lastRenew i)
          { w with env := (kubernetes pods).begin i c w.env } :=
        ⟨Function.update_self _ _ _, rfl, rfl, fun _ => (Function.update_self (f := w.env.started) _ _).le⟩
      cases c with
      | tick => exact tick_safe hsync hrunning
      | stop => exact stop_safe hrunning
  crash i w hgood := by
    have hgrown : Grown sync w.env ((kubernetes pods).crash i w.env) :=
      ⟨List.prefix_rfl, fun _ _ ht => ht, fun _ => le_rfl⟩
    refine moves_same hgood hgrown rfl (fun _ _ hl => hl) fun j hj => ?_
    exact rely_same hgrown rfl (fun _ hl => hl) rfl rfl (Function.update_of_ne hj _ _)
      (Function.update_of_ne hj _ _)

theorem holds_start (pods : Pods ι) (sync : Prop) (l₀ : Option LeaseSpec) :
    (contract pods sync l₀).Holds (kubernetes pods) (start l₀) where
  good := by
    cases l₀ with
    | none =>
        refine ⟨fun _ => rfl, fun _ h => ?_, fun _ _ _ h => ?_, fun _ _ h => ?_⟩
        all_goals cases h
    | some l =>
        refine ⟨fun h => ?_, fun entry h => ?_, fun n old new _ h => ?_, fun _ _ h => ?_⟩
        · cases h
        · cases h
          exact Or.inl ⟨rfl, rfl⟩
        · cases h
        · cases h
  task _ _ h := by cases h
  flying _ _ h := by cases h

/-- The contract holds when time has passed; on one clock, if it does not run backwards. -/
theorem holds_clock (hsync : sync → l₀ = none) {s : Net ι}
    (h : (contract pods sync l₀).Holds (kubernetes pods) s) {t : ℤ} (hclock : sync → s.env.clock ≤ t) :
    (contract pods sync l₀).Holds (kubernetes pods) { s with env := { s.env with clock := t } } := by
  have hgrown : Grown sync s.env { s.env with clock := t } :=
    ⟨List.prefix_rfl, fun _ _ ht => ht, hclock⟩
  have hgood : Good pods sync l₀ { s.toWorld with env := { s.env with clock := t } } :=
    h.good.of_same hgrown rfl fun _ _ hl => hl
  exact h.of_rely (contract_sound hsync) hgood
    (fun i => rely_same hgrown rfl (fun _ hl => hl) rfl rfl rfl rfl) (fun _ _ hmay => hmay.mono hgrown) rfl

/-- The contract holds after every event. -/
theorem holds_stepAt (hsync : sync → l₀ = none) {s : Net ι}
    (h : (contract pods sync l₀).Holds (kubernetes pods) s) {t : ℤ} (hclock : sync → s.env.clock ≤ t)
    (event : NetEvent ι Command) :
    (contract pods sync l₀).Holds (kubernetes pods) (stepAt pods t event s) :=
  (contract_sound hsync).step Rely.refl (holds_clock hsync h hclock) event

theorem holds_run (pods : Pods ι) (l₀ : Option LeaseSpec) (events : List (ℤ × NetEvent ι Command)) :
    (contract pods False l₀).Holds (kubernetes pods) (run pods events (start l₀)) := by
  induction events using List.reverseRecOn with
  | nil => exact holds_start pods False l₀
  | append_singleton events event ih =>
      rw [run, List.foldl_concat]
      exact holds_stepAt False.elim ih False.elim event.2

/-! ### Ownership -/

/-- The lease carries no renewal time that can be read. -/
def LeaseSpec.NoRenewal (l : LeaseSpec) : Prop := l.renewTime.bind TimeText.parse = none

/-- The lease has expired at the time. -/
def LeaseSpec.Lapsed (l : LeaseSpec) (t : ℤ) : Prop :=
  ∃ rt d, l.renewTime.bind TimeText.parse = some rt ∧ l.leaseDurationSeconds = some d ∧ rt + d * second < t

theorem leaseExpired_cases {l : LeaseSpec} {t : ℤ} (h : leaseExpired l t = true) :
    l.NoRenewal ∨ l.Lapsed t ∨ l.leaseDurationSeconds = none := by
  unfold leaseExpired at h
  split at h
  · rename_i text d htext hd
    split at h
    · rename_i rt hrt
      refine Or.inr (Or.inl ⟨rt, d, ?_, hd, of_decide_eq_true h⟩)
      rw [htext]
      exact hrt
    · rename_i hrt
      refine Or.inl ?_
      rw [LeaseSpec.NoRenewal, htext]
      exact hrt
  · rename_i hnone
    cases htext : l.renewTime with
    | none =>
        refine Or.inl ?_
        rw [LeaseSpec.NoRenewal, htext]
        rfl
    | some text =>
        cases hd : l.leaseDurationSeconds with
        | none => exact Or.inr (Or.inr rfl)
        | some d => exact absurd hd (hnone text d htext)

omit [DecidableEq ι] in
/-- No pod writes a lease without a duration, unless it has found one. -/
theorem Good.duration (h : Good pods sync l₀ w)
    (hentry : w.env.history[n]? = some entry) (hnone : entry.spec.leaseDurationSeconds = none) :
    ∃ l, l₀ = some l ∧ l.leaseDurationSeconds = none := by
  induction n generalizing entry with
  | zero =>
      rcases h.first entry hentry with ⟨-, hsome⟩ | ⟨-, j, t, rfl, -, -⟩
      · exact ⟨_, hsome, hnone⟩
      · cases hnone
  | succ n ih =>
      have hlt := (List.getElem?_eq_some_iff.mp hentry).1
      have hold := List.getElem?_eq_getElem (Nat.lt_of_succ_lt hlt)
      obtain ⟨j, -, hchange⟩ := h.change n _ entry hold hentry
      cases hchange with
      | renewed t _ _ _ hnew =>
          rw [hnew] at hnone
          cases hnone
      | takenOver t _ _ _ _ hnew =>
          rw [hnew] at hnone
          cases hnone
      | released _ hnew =>
          rw [hnew] at hnone
          exact ih hold hnone

/-- **Ownership of the lease.**  Whatever the clocks of the pods show, in whatever order their requests
are carried out and whatever the network does with them, starting with the lease `l₀` or with none:

* the first lease is `l₀`, or the creation of a pod that names itself as the holder;
* whenever the holder changes, a pod has taken over a lease that carried no readable renewal time or
  had expired by a reading of its clock, or the holder has given the lease up itself (a lease without a
  duration counts as expired, but there is none unless it was there from the start);
* when `attempt` has answered `true` to a pod, its last write to the lease names it as the holder. -/
theorem ownership (pods : Pods ι) (l₀ : Option LeaseSpec) (events : List (ℤ × NetEvent ι Command)) :
    let s := run pods events (start l₀)
    (∀ entry, s.env.history[0]? = some entry → l₀ = some entry.spec ∨
      l₀ = none ∧ ∃ i, entry.writer = some i ∧ entry.spec.holderIdentity = some (pods.name i)) ∧
    (∀ n old new, s.env.history[n]? = some old → s.env.history[n + 1]? = some new →
      new.spec.holderIdentity ≠ old.spec.holderIdentity → ∃ i, new.writer = some i ∧
        ((new.spec.holderIdentity = some (pods.name i) ∧ ∃ t ∈ s.env.readings i,
            old.spec.NoRenewal ∨ old.spec.Lapsed t ∨
              ∃ l, l₀ = some l ∧ l.leaseDurationSeconds = none) ∨
          old.spec.holderIdentity = some (pods.name i) ∧ new.spec.holderIdentity = some "")) ∧
    ∀ i leader, s.task i = some (.ready (settle leader (.ok true))) →
      ∃ (n : ℕ) (entry : Entry ι), s.env.history[n]? = some entry ∧ entry.writer = some i ∧
        (∀ m entry', n < m → s.env.history[m]? = some entry' → entry'.writer ≠ some i) ∧
        entry.spec.holderIdentity = some (pods.name i) := by
  intro s
  have h : (contract pods False l₀).Holds (kubernetes pods) s := holds_run pods l₀ events
  have hgood : Good pods False l₀ s.toWorld := h.good
  refine ⟨fun entry hentry => ?_, fun n old new hold hnew hne => ?_, fun i leader htask => ?_⟩
  · rcases hgood.first entry hentry with ⟨-, hsome⟩ | ⟨hnone, i, t, rfl, -, -⟩
    · exact Or.inl hsome
    · exact Or.inr ⟨hnone, i, rfl, rfl⟩
  · obtain ⟨i, hwriter, hchange⟩ := hgood.change n old new hold hnew
    refine ⟨i, hwriter, ?_⟩
    cases hchange with
    | renewed t _ _ _ hspec =>
        rw [hspec] at hne
        exact absurd rfl hne
    | takenOver t hreading _ _ hexpired hspec =>
        refine Or.inl ⟨by rw [hspec]; rfl, t, hreading, ?_⟩
        rcases leaseExpired_cases hexpired with hno | hlapsed | hd
        · exact Or.inl hno
        · exact Or.inr (Or.inl hlapsed)
        · exact Or.inr (Or.inr (hgood.duration hold hd))
    | released hholder hspec => exact Or.inr ⟨hholder, by rw [hspec]; rfl⟩
  · -- the next thing that the tick does is to note the time of the renewal
    have hsafe := h.task i _ htask
    have hnow := contract_exec hgood (i := i) (q := .now) trivial
    obtain ⟨n, entry, t, hfresh, hholder, -, -⟩ := (hsafe.2 _ _ hnow.2 hnow.1.good).1.1
    exact ⟨n, entry, hfresh.found, hfresh.writer, hfresh.last, hholder⟩

end runs

end Postkeys.Leader
