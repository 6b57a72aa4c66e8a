import Postkeys.CleanupSafety

/-! # The cleanup comes to an end

A run of the cleanup takes up a key as long as a row has expired or a `kv_meta` row is without data,
however many there are, and every key that it takes up loses a row.  Runs at one instant therefore
leave fewer and fewer rows until there is nothing left to do (`cleanup_finishes`). -/

namespace Postkeys

open Relational

variable {S : Type} {now : Time} {d d' : DB S} {k : Bytes} {t : Tab}

/-- No row has expired, and no `kv_meta` row is without data. -/
def CleanedUp (now : Time) (d : DB S) : Prop :=
  (∀ t k s c, (d.rows t k).row s = some c → c.expired now = false) ∧ ∀ k, orphaned d k = false

/-- The number of rows in all tables. -/
def rowCount (d : DB S) : ℕ := (allTables.map fun t => (d t).dom.card).sum

/-- Runs of the cleanup at the instant `t`, one after the other. -/
def cleanupRuns (t : ℤ) (envs : ℕ → Env) (d : DB S) : ℕ → DB S
  | 0 => d
  | n + 1 => runCleanup { envs n with time := t } (cleanupRuns t envs d n)

/-! ### The candidates -/

theorem mem_of_mem_batch {order : List ℕ} {l : List Bytes} (h : k ∈ batch order l) : k ∈ l :=
  (Table.shuffle_perm order l).mem_iff.mp (List.mem_of_mem_take h)

theorem exists_mem_batch (order : List ℕ) {l : List Bytes} (h : k ∈ l) : ∃ k', k' ∈ batch order l := by
  refine List.exists_mem_of_ne_nil _ fun hnil => ?_
  have hlen := congrArg List.length hnil
  rw [batch, List.length_take, (Table.shuffle_perm order l).length_eq, List.length_nil, cleanupBatch] at hlen
  have := List.length_pos_of_mem h
  omega

/-- What a run takes up is due: a row has expired, or the `kv_meta` row is without data. -/
theorem candidate_due {order : List ℕ} (h : k ∈ candidates order now d) :
    (∃ t, anyExpired now (d.rows t k) = true) ∨ orphaned d k = true := by
  rw [candidates, List.mem_dedup, List.mem_append, List.mem_flatMap] at h
  rcases h with ⟨t, -, ht⟩ | horphan
  · exact Or.inl ⟨t, (List.mem_filter.mp (mem_of_mem_batch ht)).2⟩
  · exact Or.inr (List.mem_filter.mp (mem_of_mem_batch horphan)).2

/-- A run takes up a key as long as there is something to do. -/
theorem exists_candidate (order : List ℕ) (h : ¬ CleanedUp now d) : ∃ k, k ∈ candidates order now d := by
  simp only [candidates, List.mem_dedup, List.mem_append, List.mem_flatMap]
  by_cases hexpired : ∃ t k, anyExpired now (d.rows t k) = true
  · obtain ⟨t, k, hk⟩ := hexpired
    obtain ⟨s, c, hc, -⟩ := anyExpired_iff.mp hk
    have hmem : k ∈ (Table.ascending (d.keysOf t)).filter fun k => anyExpired now (d.rows t k) :=
      List.mem_filter.mpr ⟨Table.mem_ascending.mpr (Store.mem_keysOf.mpr (Table.ne_empty_of_row hc)), hk⟩
    obtain ⟨k', hk'⟩ := exists_mem_batch order hmem
    exact ⟨k', Or.inl ⟨t, by cases t <;> decide, hk'⟩⟩
  · have horphan : ∃ k, orphaned d k = true := by
      by_contra hnone
      refine h ⟨fun t k s c hc => ?_, fun k => ?_⟩
      · exact eq_false_of_ne_true fun hexp => hexpired ⟨t, k, anyExpired_iff.mpr ⟨s, c, hc, hexp⟩⟩
      · exact eq_false_of_ne_true fun hk => hnone ⟨k, hk⟩
    obtain ⟨k, hk⟩ := horphan
    have hne : d.rows .kvMeta k ≠ ∅ := by
      intro hempty
      rw [orphaned, hempty] at hk
      cases hk
    obtain ⟨k', hk'⟩ := exists_mem_batch order
      (List.mem_filter.mpr ⟨Table.mem_ascending.mpr (Store.mem_keysOf.mpr hne), hk⟩)
    exact ⟨k', Or.inr hk'⟩

/-- **Every key that a run takes up loses its rows in some table.** -/
theorem candidate_loses {order : List ℕ} (hswept : Swept now (candidates order now d) d d')
    (hk : k ∈ candidates order now d) : ∃ t, d.rows t k ≠ ∅ ∧ d'.rows t k = ∅ := by
  have hmeta (hlose : losesMeta now d k = true) : d.rows .kvMeta k ≠ ∅ ∧ d'.rows .kvMeta k = ∅ := by
    refine ⟨fun hempty => ?_, by rw [hswept.info, if_pos ⟨hk, hlose⟩]⟩
    rw [losesMeta, hempty] at hlose
    cases hlose
  rcases candidate_due hk with ⟨t, hexp⟩ | horph
  · obtain ⟨s, c, hc, hc'⟩ := anyExpired_iff.mp hexp
    by_cases hdata : t = .kvMeta
    · subst hdata
      refine ⟨.kvMeta, hmeta ?_⟩
      rw [losesMeta, show (d.rows .kvMeta k).row () = some c from hc]
      simp [hc']
    · refine ⟨t, Table.ne_empty_of_row hc, ?_⟩
      rw [hswept.data t k hdata, if_pos ⟨hk, by simp [losesRows, hexp]⟩]
  · refine ⟨.kvMeta, hmeta ?_⟩
    rw [orphaned] at horph
    rw [losesMeta]
    cases hm : (d.rows .kvMeta k).row () with
    | none =>
        rw [hm] at horph
        cases horph
    | some m =>
        rw [hm] at horph
        simp_all

/-! ### The number of rows -/

theorem Swept.dom_subset {keys : List Bytes} (h : Swept now keys d d') (t : Tab) : (d' t).dom ⊆ (d t).dom := by
  rintro ⟨k, s⟩ hp
  have hrows : d'.rows t k = ∅ ∨ d'.rows t k = d.rows t k := by
    by_cases ht : t = .kvMeta
    · subst ht
      rw [h.info]
      split <;> simp
    · rw [h.data t k ht]
      split <;> simp
  rw [Table.mem_dom] at hp ⊢
  have hrow : (d'.rows t k).row s = (d' t).row (k, s) := rfl
  rcases hrows with hempty | hsame
  · rw [← hrow, hempty] at hp
    cases hp
  · rw [← hrow, hsame] at hp
    exact hp

/-- A run leaves fewer rows as long as there is something to do. -/
theorem rowCount_runCleanup (e : Env) (h : ¬ CleanedUp (pgTime e.time) d) :
    rowCount (runCleanup e d) < rowCount d := by
  have hswept := runCleanup_swept e d
  obtain ⟨k, hk⟩ := exists_candidate e.order h
  obtain ⟨t, hrows, hempty⟩ := candidate_loses hswept hk
  refine List.sum_lt_sum _ _ (fun t _ => Finset.card_le_card (hswept.dom_subset t)) ⟨t, ?_, ?_⟩
  · cases t <;> decide
  · obtain ⟨s, c, hc⟩ := Table.ne_empty_iff.mp hrows
    refine Finset.card_lt_card ((Finset.ssubset_iff_of_subset (hswept.dom_subset t)).mpr ⟨(k, s), ?_, ?_⟩)
    · exact Table.mem_dom_of_row hc
    · rw [← Table.row_eq_none]
      exact congrArg (fun u => Table.row u s) hempty

/-- Otherwise it changes nothing. -/
theorem CleanedUp.runCleanup (e : Env) (h : CleanedUp (pgTime e.time) d) : runCleanup e d = d := by
  have hswept := runCleanup_swept e d
  have hnone (k : Bytes) : k ∉ candidates e.order (pgTime e.time) d := by
    intro hk
    rcases candidate_due hk with ⟨t, hexp⟩ | horph
    · obtain ⟨s, c, hc, hexp⟩ := anyExpired_iff.mp hexp
      rw [h.1 t k s c hc] at hexp
      cases hexp
    · rw [h.2 k] at horph
      cases horph
  refine Store.ext_rows fun t k => ?_
  by_cases ht : t = .kvMeta
  · subst ht
    rw [hswept.info, if_neg fun hk => hnone k hk.1]
  · rw [hswept.data t k ht, if_neg fun hk => hnone k hk.1]

/-- **The cleanup makes progress and finishes**: in every state, whatever order the server returns rows
in, a run leaves fewer rows as long as there is something to do, and after as many runs as there were
rows nothing is left to do. -/
theorem cleanup_finishes (t : ℤ) (envs : ℕ → Env) (d : DB S) :
    (∀ n, ¬ CleanedUp (pgTime t) (cleanupRuns t envs d n) →
      rowCount (cleanupRuns t envs d (n + 1)) < rowCount (cleanupRuns t envs d n)) ∧
    ∀ n, rowCount d ≤ n → CleanedUp (pgTime t) (cleanupRuns t envs d n) := by
  have hstep (n : ℕ) (h : ¬ CleanedUp (pgTime t) (cleanupRuns t envs d n)) :
      rowCount (cleanupRuns t envs d (n + 1)) < rowCount (cleanupRuns t envs d n) :=
    rowCount_runCleanup { envs n with time := t } h
  -- a state in which there is something to do is preceded by such states only
  have hlong (n : ℕ) (h : ¬ CleanedUp (pgTime t) (cleanupRuns t envs d n)) :
      rowCount (cleanupRuns t envs d n) + n ≤ rowCount d := by
    induction n with
    | zero => exact le_rfl
    | succ n ih =>
        have hbefore : ¬ CleanedUp (pgTime t) (cleanupRuns t envs d n) := by
          intro hclean
          rw [cleanupRuns, hclean.runCleanup { envs n with time := t }] at h
          exact h hclean
        have := ih hbefore
        have := hstep n hbefore
        omega
  refine ⟨hstep, fun n hn => ?_⟩
  by_contra h
  have := hlong n h
  have := hstep n h
  omega

end Postkeys
