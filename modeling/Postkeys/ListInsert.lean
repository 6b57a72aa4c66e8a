import Postkeys.Decimal
import Postkeys.Handlers.Lists
import Postkeys.Handlers.Runs
import Postkeys.Querier.Runs

/-! # `LINSERT`

`LINSERT` makes room by moving every later row up by one index, in one `UPDATE` whose rows the server
visits in an order of its own; the primary key is checked at each row.  A row therefore has to be
visited after the row at the next index, if there is one.  `linsert_inserts_iff` says that `LINSERT`
works exactly in the orders in which that is so, and as long as the indices stay in `BIGINT`. -/

namespace Postkeys

open Relational Program

variable {S : Type} {e : Env} {d : DB S} {u : Table ℤ (Row S .kvLists)}
  {u' : Table ℤ (Row S .kvLists)} {pivot element : Bytes} {u : Table ℤ (Row S .kvLists)}

/-! ### Moving rows up -/

/-- No row is visited before the one at the next index, and every new index is a `BIGINT`. -/
def ShiftOk (is : List ℤ) : Prop := is.Pairwise (fun i j => j ≠ i + 1) ∧ ∀ i ∈ is, i + 1 < 2 ^ 63

theorem row_moved (i : ℤ) (r : Row S .kvLists) (j : ℤ) :
    ((u.restrict fun j _ => j ≠ i).put (i + 1) r).row j =
      if j = i + 1 then some r else if j = i then none else u.row j := by
  rw [Table.put_row, Table.restrict_row]
  split
  · rfl
  · by_cases hj : j = i
    · cases u.row j <;> simp [hj]
    · cases u.row j <;> simp [hj]

/-- **What one `UPDATE` does to the indices.** -/
theorem shiftRows_spec {is : List ℤ} (hnd : is.Nodup) (hdom : ∀ i ∈ is, u.row i ≠ none)
    (hclosed : ∀ i ∈ is, u.row (i + 1) ≠ none → i + 1 ∈ is) :
    (ShiftOk is ∧ ∃ u', shiftRows u is = .ok u' ∧
      ∀ j, u'.row j = if j - 1 ∈ is then u.row (j - 1) else if j ∈ is then none else u.row j) ∨
    ¬ ShiftOk is ∧ ∃ x, shiftRows u is = .error x := by
  induction is generalizing u with
  | nil => exact Or.inl ⟨⟨.nil, by simp⟩, u, rfl, by simp⟩
  | cons i is ih =>
      obtain ⟨r, hr⟩ := Option.ne_none_iff_exists'.mp (hdom i (List.mem_cons_self ..))
      obtain ⟨hi, hnd'⟩ := List.nodup_cons.mp hnd
      rw [shiftRows, hr]
      dsimp only
      by_cases hbig : 2 ^ 63 ≤ i + 1
      · rw [if_pos hbig]
        exact Or.inr ⟨fun h => absurd (h.2 i (List.mem_cons_self ..)) (not_lt.mpr hbig), _, rfl⟩
      · rw [if_neg hbig]
        by_cases htaken : u.row (i + 1) = none
        · -- the next index is free, so the row moves
          rw [if_neg (by simp [htaken])]
          have hnext : i + 1 ∉ is := fun h => hdom (i + 1) (List.mem_cons_of_mem _ h) htaken
          have hne {j : ℤ} (hj : j ∈ is) : j ≠ i ∧ j ≠ i + 1 :=
            ⟨fun h => hi (h ▸ hj), fun h => hnext (h ▸ hj)⟩
          have hok : ShiftOk (i :: is) ↔ ShiftOk is := by
            simp only [ShiftOk, List.pairwise_cons, List.forall_mem_cons]
            exact ⟨fun h => ⟨h.1.2, h.2.2⟩, fun h => ⟨⟨fun j hj => (hne hj).2, h.1⟩, by omega, h.2⟩⟩
          have hstep := ih (u := (u.restrict fun j _ => j ≠ i).put (i + 1) r) hnd'
            (fun j hj => by
              rw [row_moved, if_neg (hne hj).2, if_neg (hne hj).1]
              exact hdom j (List.mem_cons_of_mem _ hj))
            (fun j hj hrow => by
              rw [row_moved] at hrow
              have hji : j + 1 ≠ i + 1 := fun h => (hne hj).1 (by omega)
              rw [if_neg hji] at hrow
              split at hrow
              · exact absurd rfl hrow
              · rename_i hne'
                exact (List.mem_cons.mp (hclosed j (List.mem_cons_of_mem _ hj) hrow)).resolve_left hne')
          rw [hok]
          rcases hstep with ⟨h, u', hu', hrows⟩ | herror
          case inr => exact Or.inr herror
          refine Or.inl ⟨h, u', hu', fun j => ?_⟩
          rw [hrows, row_moved, row_moved]
          by_cases hprev : j - 1 ∈ is
          · simp [hprev, hne hprev]
          · by_cases hj : j = i + 1
            · subst hj
              simp [hi, hnext, hr]
            · have hj' : j - 1 ≠ i := by omega
              by_cases hji : j = i
              · subst hji
                simp [hprev, hi]
              · simp [hprev, hj, hj', hji]
        · -- the next index is taken, by a row that is visited later
          rw [if_pos (Option.isSome_iff_ne_none.mpr htaken)]
          have hlater : i + 1 ∈ is :=
            (List.mem_cons.mp (hclosed i (List.mem_cons_self ..) htaken)).resolve_left (by omega)
          exact Or.inr ⟨fun h => (List.pairwise_cons.mp h.1).1 _ hlater rfl, _, rfl⟩

/-! ### Making room -/

/-- The rows from index `b` on, in the order in which the server visits them. -/
def visited (e : Env) (u : Table ℤ (Row S .kvLists)) (b : ℤ) : List ℤ :=
  Table.shuffle e.order (((listRows u).map Prod.fst).filter fun i => decide (b ≤ i))

theorem mem_visited {b i : ℤ} : i ∈ visited e u b ↔ b ≤ i ∧ u.row i ≠ none := by
  rw [visited, (Table.shuffle_perm _ _).mem_iff]
  simp only [List.mem_filter, List.mem_map, decide_eq_true_eq, listRows]
  constructor
  · rintro ⟨⟨⟨i', r⟩, hmem, rfl⟩, hb⟩
    exact ⟨hb, by simp [Table.mem_toList.mp hmem]⟩
  · rintro ⟨hb, hrow⟩
    obtain ⟨r, hr⟩ := Option.ne_none_iff_exists'.mp hrow
    exact ⟨⟨(i, r), Table.mem_toList.mpr hr, rfl⟩, hb⟩

theorem nodup_visited (b : ℤ) : (visited e u b).Nodup :=
  (Table.shuffle_perm _ _).nodup_iff.mpr ((Table.nodup_toList u).filter _)

/-- The rows from `b` on have moved up. -/
theorem shiftRows_visited (b : ℤ) :
    (ShiftOk (visited e u b) ∧ ∃ u', shiftRows u (visited e u b) = .ok u' ∧
      ∀ j, u'.row j = if b < j then u.row (j - 1) else if j = b then none else u.row j) ∨
    ¬ ShiftOk (visited e u b) ∧ ∃ x, shiftRows u (visited e u b) = .error x := by
  have hclosed : ∀ i ∈ visited e u b, u.row (i + 1) ≠ none → i + 1 ∈ visited e u b := by
    intro i hi hrow
    have hb := (mem_visited.mp hi).1
    exact mem_visited.mpr ⟨by omega, hrow⟩
  rcases shiftRows_spec (nodup_visited b) (fun i hi => (mem_visited.mp hi).2) hclosed with
    ⟨h, u', hu', hrows⟩ | herror
  case inr => exact Or.inr herror
  refine Or.inl ⟨h, u', hu', fun j => ?_⟩
  rw [hrows]
  simp only [mem_visited]
  by_cases hb : b < j
  · have hb' : b ≤ j - 1 := by omega
    have hbj : b ≤ j := by omega
    cases hprev : u.row (j - 1) <;> cases hrow : u.row j <;> simp [hb, hb', hbj]
  · have hb' : ¬ b ≤ j - 1 := by omega
    by_cases hj : j = b
    · subst hj
      cases hrow : u.row j <;> simp
    · have hbj : ¬ b ≤ j := by omega
      simp [hb, hb', hj, hbj]

/-! ### The list -/

/-- The values of a list from its head. -/
def values (u : Table ℤ (Row S .kvLists)) : List Bytes := u.toList.map fun q => q.2.val

/-- The rows with a new one at `b` and the later ones moved up. -/
theorem toList_inserted {b : ℤ} {new : Row S .kvLists}
    (h : ∀ j, u'.row j = if b < j then u.row (j - 1) else if j = b then some new else u.row j) :
    u'.toList = u.toList.filter (fun q => decide (q.1 < b)) ++
      (b, new) :: (u.toList.filter fun q => decide (b ≤ q.1)).map fun q => (q.1 + 1, q.2) := by
  refine Table.toList_eq_of_sorted ?_ fun k r => ?_
  · have hsorted := List.pairwise_map.mp u.pairwise_toList
    rw [List.map_append, List.pairwise_append, List.map_cons, List.pairwise_cons, List.pairwise_map,
      List.pairwise_map, List.pairwise_map]
    refine ⟨hsorted.filter _, ⟨fun j hj => ?_, (hsorted.filter _).imp fun h => by omega⟩, fun i hi j hj => ?_⟩
    · simp only [List.mem_map, List.mem_filter, decide_eq_true_eq] at hj
      obtain ⟨-, ⟨q, ⟨-, hq⟩, rfl⟩, rfl⟩ := hj
      exact Int.lt_add_one_of_le hq
    · simp only [List.mem_map, List.mem_filter, List.mem_cons, decide_eq_true_eq] at hi hj
      obtain ⟨p, hp, rfl⟩ := hi
      rcases hj with rfl | ⟨-, ⟨q, hq, rfl⟩, rfl⟩
      · exact hp.2
      · exact lt_trans hp.2 (Int.lt_add_one_of_le hq.2)
  · have hmoved : (k, r) ∈ ((u.toList.filter fun q => decide (b ≤ q.1)).map fun q => (q.1 + 1, q.2)) ↔
        b < k ∧ u.row (k - 1) = some r := by
      simp only [List.mem_map, List.mem_filter, decide_eq_true_eq, Prod.mk.injEq]
      constructor
      · rintro ⟨⟨i, c⟩, ⟨hmem, hb⟩, rfl, rfl⟩
        exact ⟨Int.lt_add_one_of_le hb, by simpa using Table.mem_toList.mp hmem⟩
      · rintro ⟨hb, hrow⟩
        exact ⟨(k - 1, r), ⟨Table.mem_toList.mpr hrow, Int.le_sub_one_of_lt hb⟩, by omega, rfl⟩
    rw [List.mem_append, List.mem_cons, hmoved, List.mem_filter, Table.mem_toList, h, decide_eq_true_eq,
      Prod.mk.injEq]
    by_cases hlt : b < k
    · have hne : k ≠ b := by omega
      have hnlt : ¬ k < b := by omega
      simp [hlt, hne, hnlt]
    · by_cases heq : k = b
      · subst heq
        simp [eq_comm]
      · have hklt : k < b := by omega
        simp [hlt, heq, hklt]

theorem values_inserted {b : ℤ} {new : Row S .kvLists}
    (h : ∀ j, u'.row j = if b < j then u.row (j - 1) else if j = b then some new else u.row j) :
    values u' = (u.toList.filter fun q => decide (q.1 < b)).map (fun q => q.2.val) ++
      new.val :: (u.toList.filter fun q => decide (b ≤ q.1)).map fun q => q.2.val := by
  rw [values, toList_inserted h]
  simp [Function.comp_def]

/-- The list with an element next to the first occurrence of the pivot. -/
def inserted (before : Bool) (pivot element : Bytes) : List Bytes → Option (List Bytes)
  | [] => none
  | v :: l =>
      if v = pivot then some (if before then element :: v :: l else v :: element :: l)
      else (inserted before pivot element l).map (v :: ·)

theorem inserted_eq_none {before : Bool} {l : List Bytes} (h : pivot ∉ l) :
    inserted before pivot element l = none := by
  induction l with
  | nil => rfl
  | cons v l ih =>
      rw [List.mem_cons, not_or] at h
      rw [inserted, if_neg (Ne.symm h.1), ih h.2]
      rfl

theorem inserted_append {before : Bool} {l₁ l₂ : List Bytes} (h : pivot ∉ l₁) :
    inserted before pivot element (l₁ ++ pivot :: l₂) =
      some (l₁ ++ if before then element :: pivot :: l₂ else pivot :: element :: l₂) := by
  induction l₁ with
  | nil => exact if_pos rfl
  | cons v l ih =>
      rw [List.mem_cons, not_or] at h
      rw [List.cons_append, inserted, if_neg (Ne.symm h.1), ih h.2]
      rfl

/-- The index at which the pivot is found. -/
def pivotIndex (u : Table ℤ (Row S .kvLists)) (pivot : Bytes) : Option ℤ :=
  ((listRows u).find? fun r => r.2.val = pivot).map Prod.fst

/-- The index the new element is to have. -/
def insertIndex (before : Bool) (i : ℤ) : ℤ := if before then i else i + 1

theorem inserted_none {before : Bool} (h : pivotIndex u pivot = none) :
    inserted before pivot element (values u) = none := by
  rw [pivotIndex, Option.map_eq_none_iff, List.find?_eq_none] at h
  refine inserted_eq_none fun hmem => ?_
  obtain ⟨q, hq, hval⟩ := List.mem_map.mp hmem
  exact h q hq (decide_eq_true hval)

/-- What stands before the pivot, and after it. -/
theorem pivot_split {pivot : Bytes} {i : ℤ} (h : pivotIndex u pivot = some i) :
    ∃ l₁ r l₂, u.toList = l₁ ++ (i, r) :: l₂ ∧ r.val = pivot ∧ (∀ q ∈ l₁, q.2.val ≠ pivot) ∧
      (∀ q ∈ l₁, q.1 < i) ∧ ∀ q ∈ l₂, i < q.1 := by
  obtain ⟨⟨i', r⟩, hfind, rfl⟩ := Option.map_eq_some_iff.mp h
  obtain ⟨hval, l₁, l₂, hlist, hl₁⟩ := List.find?_eq_some_iff_append.mp hfind
  have hsorted := List.pairwise_map.mp u.pairwise_toList
  rw [show u.toList = _ from hlist, List.pairwise_append, List.pairwise_cons] at hsorted
  exact ⟨l₁, r, l₂, hlist, by simpa using hval, fun q hq => by simpa using hl₁ q hq,
    fun q hq => hsorted.2.2 q hq _ (List.mem_cons_self ..), hsorted.2.1.1⟩

theorem inserted_some {before : Bool} {i : ℤ} (h : pivotIndex u pivot = some i) :
    inserted before pivot element (values u) =
      some ((u.toList.filter fun q => decide (q.1 < insertIndex before i)).map (fun q => q.2.val) ++
        element :: (u.toList.filter fun q => decide (insertIndex before i ≤ q.1)).map fun q => q.2.val) := by
  obtain ⟨l₁, r, l₂, hlist, hval, hpivot, hbelow, habove⟩ := pivot_split h
  have hmem : pivot ∉ l₁.map fun q => q.2.val := by
    intro hmem
    obtain ⟨q, hq, hqv⟩ := List.mem_map.mp hmem
    exact hpivot q hq hqv
  have hb₁ : ∀ q ∈ l₁, q.1 < insertIndex before i := fun q hq => by
    have := hbelow q hq
    cases before <;> simp only [insertIndex, if_true, Bool.false_eq_true, if_false] <;> omega
  have hb₂ : ∀ q ∈ l₂, insertIndex before i ≤ q.1 := fun q hq => by
    have := habove q hq
    cases before <;> simp only [insertIndex, if_true, Bool.false_eq_true, if_false] <;> omega
  have h₁ : l₁.filter (fun q => decide (q.1 < insertIndex before i)) = l₁ :=
    List.filter_eq_self.mpr fun q hq => decide_eq_true (hb₁ q hq)
  have h₁' : l₁.filter (fun q => decide (insertIndex before i ≤ q.1)) = [] :=
    List.filter_eq_nil_iff.mpr fun q hq => by simpa using hb₁ q hq
  have h₂ : l₂.filter (fun q => decide (q.1 < insertIndex before i)) = [] :=
    List.filter_eq_nil_iff.mpr fun q hq => by simpa using hb₂ q hq
  have h₂' : l₂.filter (fun q => decide (insertIndex before i ≤ q.1)) = l₂ :=
    List.filter_eq_self.mpr fun q hq => decide_eq_true (hb₂ q hq)
  rw [values, hlist, List.map_append, List.map_cons, hval, inserted_append hmem, List.filter_append,
    List.filter_append, List.filter_cons, List.filter_cons, h₁, h₁', h₂, h₂']
  cases before <;> simp [insertIndex, hval]

/-! ### The operation -/

section operation
variable {key pivot element : Bytes} {before : Bool} {i : ℤ}

theorem addRows_one {t : Tab} (u : Table t.Sub (Row S t)) (s : t.Sub) (r : Row S t) :
    addRows t u [(s, r)] =
      if u.row s = none then .ok (u.put s r) else .error (uniqueViolation t) := by
  cases hrow : u.row s with
  | none => simp [addRows, hrow]
  | some c => simp [addRows, hrow]

/-- The index at which the code inserts. -/
def codeIndex (before : Bool) (i : ℤ) : ℤ := if before then i else int64 (i + 1)

/-- The rows `LINSERT` leaves, if it meets no error. -/
def insertedRows (e : Env) (u : Table ℤ (Row S .kvLists)) (before : Bool) (i : ℤ) (element : Bytes) :
    Except PgError (Table ℤ (Row S .kvLists)) :=
  (shiftRows u (visited e u (insertIndex before i))).bind fun u' =>
    addRows .kvLists u' [(codeIndex before i, ⟨element, none⟩)]

theorem totalSql_shiftWhere {k : Bytes} (p : ℤ → Bool) {Q : Unit → DB S → Prop} :
    totalSql e (shiftWhere k p) Q d ↔
      ∃ u, shiftRows (d.rows .kvLists k) (Table.shuffle e.order
        (((listRows (d.rows .kvLists k)).map Prod.fst).filter p)) = .ok u ∧
          Q () (d.setRows .kvLists k u) := by
  simp only [totalSql, shiftWhere, Sql.onRows, Env.ctx]
  cases shiftRows (d.rows .kvLists k) (Table.shuffle e.order
    (((listRows (d.rows .kvLists k)).map Prod.fst).filter p)) <;> simp [Except.map]

/-- Making room at `b` and inserting at `c`. -/
def insertAt (k : Bytes) (b c : ℤ) (element : Bytes) : Op S ℤ := do
  query (shiftWhere k fun j => decide (b ≤ j))
  query (insertRows .kvLists k [(c, ⟨element, none⟩)])
  query (selectListLength k)

/-- What `LINSERT` does once the pivot is found. -/
theorem lInsert_found (before : Bool) (key element : Bytes) (i : ℤ) :
    (do
      if before then
        query (shiftWhere (encodeKey key) fun j => decide (i ≤ j))
        query (insertRows .kvLists (encodeKey key) [(i, ⟨element, none⟩)])
      else
        query (shiftWhere (encodeKey key) fun j => decide (i < j))
        query (insertRows .kvLists (encodeKey key) [(int64 (i + 1), ⟨element, none⟩)])
      query (selectListLength (encodeKey key)) : Op S ℤ) =
    insertAt (encodeKey key) (insertIndex before i) (codeIndex before i) element := by
  cases before with
  | true => rfl
  | false =>
      have hshift : (fun j => decide (i < j)) = fun j : ℤ => decide (insertIndex false i ≤ j) :=
        funext fun j => decide_eq_decide.mpr (Int.add_one_le_iff (a := i) (b := j)).symm
      rw [hshift]
      rfl

theorem total_insertAt {k : Bytes}
    (hu : insertedRows e (d.rows .kvLists k) before i element = .ok u') :
    total e (insertAt k (insertIndex before i) (codeIndex before i) element)
      (fun n d' => n = count u' ∧ d' = d.setRows .kvLists k u') d := by
  cases hshift : shiftRows (d.rows .kvLists k) (visited e (d.rows .kvLists k) (insertIndex before i)) with
  | error x =>
      rw [insertedRows, hshift] at hu
      cases hu
  | ok u₁ =>
      rw [insertedRows, hshift] at hu
      rw [insertAt, total_bind, total_query, totalSql_shiftWhere]
      refine ⟨u₁, hshift, ?_⟩
      rw [total_bind, total_query, totalSql_insertRows, Store.rows_setRows_self]
      refine ⟨u', hu, ?_⟩
      rw [total_query, selectListLength, totalSql_selectAll, Store.setRows_setRows, Store.rows_setRows_self]
      exact ⟨rfl, rfl⟩

theorem wp_insertAt {k : Bytes} :
    wp e (insertAt k (insertIndex before i) (codeIndex before i) element) (fun _ d' => ∃ u',
      insertedRows e (d.rows .kvLists k) before i element = .ok u' ∧ d' = d.setRows .kvLists k u') d := by
  rw [insertAt, wp_bind, wp_query, wpSql_shiftWhere]
  intro u₁ hshift
  rw [wp_bind, wp_query, wpSql_insertRows, Store.rows_setRows_self]
  intro u' hu
  rw [wp_query, selectListLength, wpSql_selectAll, Store.setRows_setRows]
  refine ⟨u', ?_, rfl⟩
  rw [insertedRows, visited, hshift]
  exact hu

section exec
variable [Float64 S]

theorem exec_lInsert_absent (h : pivotIndex (d.rows .kvLists (encodeKey key)) pivot = none) :
    (Cmd.lInsert key pivot element before : Cmd S).exec e d = (.ok (.int (-1)), d) := by
  refine Cmd.exec_eq_of_total ?_
  rw [pivotIndex] at h
  rw [Cmd.op, total_map, lInsert, total_bind, total_query, totalSql_selectAll, h]
  exact ⟨rfl, rfl⟩

theorem exec_lInsert_ok (h : pivotIndex (d.rows .kvLists (encodeKey key)) pivot = some i)

    (hu : insertedRows e (d.rows .kvLists (encodeKey key)) before i element = .ok u') :
    (Cmd.lInsert key pivot element before : Cmd S).exec e d =
      (.ok (.int (count u')), d.setRows .kvLists (encodeKey key) u') := by
  refine Cmd.exec_eq_of_total ?_
  rw [pivotIndex] at h
  rw [Cmd.op, total_map, lInsert, total_bind, total_query, totalSql_selectAll, h]
  dsimp only
  rw [total_bind, total_lockKey, lInsert_found]
  exact total_mono (total_insertAt hu) fun n d' hn => ⟨congrArg Reply.int hn.1, hn.2⟩

theorem exec_lInsert_done (h : pivotIndex (d.rows .kvLists (encodeKey key)) pivot = some i) {r : Reply S}
    {d' : DB S} (hexec : (Cmd.lInsert key pivot element before : Cmd S).exec e d = (.ok r, d')) :
    ∃ u', insertedRows e (d.rows .kvLists (encodeKey key)) before i element = .ok u' ∧
      d' = d.setRows .kvLists (encodeKey key) u' := by
  have hwp : wp e (Cmd.lInsert key pivot element before : Cmd S).op (fun _ d' => ∃ u',
      insertedRows e (d.rows .kvLists (encodeKey key)) before i element = .ok u' ∧
        d' = d.setRows .kvLists (encodeKey key) u') d := by
    rw [pivotIndex] at h
    rw [Cmd.op, wp_map, lInsert, wp_bind, wp_query, wpSql_selectAll, h]
    dsimp only
    rw [wp_bind, wp_lockKey, lInsert_found]
    exact wp_insertAt
  have hdone := Cmd.exec_ok rfl hwp (congrArg Prod.fst hexec)
  rwa [hexec] at hdone

theorem exec_lInsert_refused (h : pivotIndex (d.rows .kvLists (encodeKey key)) pivot = some i) {x : PgError}
    (hx : shiftRows (d.rows .kvLists (encodeKey key))
      (visited e (d.rows .kvLists (encodeKey key)) (insertIndex before i)) = .error x) :
    (Cmd.lInsert key pivot element before : Cmd S).exec e d = (.error (.db "" x), d) := by
  have hshift : (shiftWhere (encodeKey key) (fun j => decide (insertIndex before i ≤ j)) : Stm S _) e.ctx d =
      .error x := by
    rw [visited] at hx
    rw [shiftWhere, Sql.onRows, show (Env.ctx e : Ctx Bytes Tab.Sub).order = e.order from rfl, hx]
    rfl
  have hrow : (query (selectAll .kvLists (encodeKey key) fun u =>
      ((listRows u).find? fun r => r.2.val = pivot).map Prod.fst) : Op S _).eval e (Tx.clean d) =
        (.ok (some i), Tx.clean d) := by
    rw [← h]
    rfl
  have hlock : (lockKey (encodeKey key) : Op S _).eval e (Tx.clean d) = (.ok (), Tx.clean d) := rfl
  rw [Cmd.exec, Cmd.op, eval_map, lInsert, eval_bind_ok hrow]
  dsimp only
  rw [eval_bind_ok hlock, lInsert_found, insertAt, eval_bind_error (eval_query_failed hshift)]
  rfl

end exec

end operation

/-! ### What is left of the list -/

section rows
variable {before : Bool} {i : ℤ} {element : Bytes}

/-- The indices are those of a `BIGINT` column. -/
def BigintRows (u : Table ℤ (Row S .kvLists)) : Prop :=
  ∀ j, u.row j ≠ none → -2 ^ 63 ≤ j ∧ j < 2 ^ 63

/-- The least `BIGINT`. -/
def minBigint : ℤ := -2 ^ 63

/-- No element has an expiry. -/
def NoExpiry (u : Table ℤ (Row S .kvLists)) : Prop := ∀ j r, u.row j = some r → r.expiresAt = none

/-- **Below the last index** the element gets its place exactly when the rows can be moved. -/
theorem insertedRows_below (element : Bytes) (hrow : u.row i ≠ none) (hbig : BigintRows u) (hb : insertIndex before i < 2 ^ 63) :
    (ShiftOk (visited e u (insertIndex before i)) ∧ ∃ u', insertedRows e u before i element = .ok u' ∧
      ∀ j, u'.row j = if insertIndex before i < j then u.row (j - 1)
        else if j = insertIndex before i then some ⟨element, none⟩ else u.row j) ∨
    ¬ ShiftOk (visited e u (insertIndex before i)) ∧ ∃ x, insertedRows e u before i element = .error x := by
  have hcode : codeIndex before i = insertIndex before i := by
    cases before with
    | true => rfl
    | false =>
        have hlow := (hbig i hrow).1
        refine int64_eq_self ⟨?_, hb⟩
        omega
  rw [insertedRows, hcode]
  rcases shiftRows_visited (e := e) (u := u) (insertIndex before i) with ⟨hok, u₁, hu₁, hrows⟩ | ⟨hnot, x, hx⟩
  · left
    rw [hu₁]
    have hfree : u₁.row (insertIndex before i) = none := by
      rw [hrows, if_neg (lt_irrefl _), if_pos rfl]
    refine ⟨hok, _, (addRows_one _ _ _).trans (if_pos hfree), fun j => ?_⟩
    rw [Table.put_row, hrows]
    by_cases hj : j = insertIndex before i
    · subst hj
      simp
    · simp [hj]
  · right
    rw [hx]
    exact ⟨hnot, x, rfl⟩

theorem visited_last (hbig : BigintRows u) (hb : insertIndex before i = 2 ^ 63) :
    visited e u (insertIndex before i) = [] := by
  refine List.eq_nil_iff_forall_not_mem.mpr fun j hj => ?_
  obtain ⟨hle, hrow⟩ := mem_visited.mp hj
  have := (hbig j hrow).2
  omega

/-- **After the last index** the new index wraps around, and the element becomes the first. -/
theorem insertedRows_wrapped (hrow : u.row i ≠ none) (hbig : BigintRows u) (hb : insertIndex before i = 2 ^ 63)
    :
    insertedRows e u before i element = .ok u' ↔
      u.row (minBigint) = none ∧ u' = u.put (minBigint) ⟨element, none⟩ := by
  have hcode : codeIndex before i = minBigint := by
    cases before with
    | true => exact absurd hb (hbig i hrow).2.ne
    | false =>
        rw [insertIndex, if_neg (by decide)] at hb
        rw [codeIndex, if_neg (by decide), hb]
        decide
  rw [insertedRows, visited_last hbig hb, hcode]
  change addRows .kvLists u _ = _ ↔ _
  rw [addRows_one]
  split
  · rename_i hfree
    exact ⟨fun h => ⟨hfree, (Except.ok.inj h).symm⟩, fun h => congrArg Except.ok h.2.symm⟩
  · rename_i htaken
    refine ⟨fun h => ?_, fun h => absurd h.1 htaken⟩
    cases h

theorem values_wrapped (hbig : BigintRows u) (hfree : u.row (minBigint) = none) :
    values (u.put (minBigint) ⟨element, none⟩) = element :: values u := by
  have hlist : (u.put (minBigint) ⟨element, none⟩).toList = (minBigint, ⟨element, none⟩) :: u.toList := by
    refine Table.toList_eq_of_sorted ?_ fun k r => ?_
    · rw [List.map_cons, List.pairwise_cons]
      refine ⟨fun j hj => ?_, u.pairwise_toList⟩
      obtain ⟨⟨j', r⟩, hmem, rfl⟩ := List.mem_map.mp hj
      have hrow := Table.mem_toList.mp hmem
      refine lt_of_le_of_ne (hbig j' (by simp [hrow])).1 fun heq => ?_
      rw [← show _ = j' from heq, hfree] at hrow
      cases hrow
    · rw [List.mem_cons, Table.mem_toList, Table.put_row, Prod.mk.injEq]
      by_cases hk : k = minBigint
      · subst hk
        simp [hfree, eq_comm]
      · simp [hk]
  rw [values, hlist]
  rfl

/-- The only list that is the same with an element before it or after it, if the element after which it
is to stand occurs at the end only. -/
theorem rotated_eq {pivot : Bytes} {v : List Bytes} (hpivot : pivot ∉ v)
    (h : element :: (v ++ [pivot]) = v ++ [pivot] ++ [element]) : v = [] ∧ element = pivot := by
  cases v with
  | nil =>
      cases h
      exact ⟨rfl, rfl⟩
  | cons x v =>
      obtain ⟨rfl, htail⟩ := List.cons.inj h
      have hends : (element :: v) ++ [pivot] = (v ++ [pivot]) ++ [element] := htail
      have hlast : [pivot] = [element] := (List.append_inj' hends rfl).2
      cases hlast
      exact absurd (List.mem_cons_self ..) hpivot

end rows

/-! ### The command -/

section command

/-- The elements of a list that are not expired, from its head. -/
def listValues (now : Time) (d : DB S) (k : Bytes) : List Bytes :=
  (live now (d.rows .kvLists k)).toList.map Prod.snd

theorem listValues_eq {now : Time} {k : Bytes} (h : NoExpiry (d.rows .kvLists k)) :
    listValues now d k = values (d.rows .kvLists k) := by
  have hlist : (live now (d.rows .kvLists k)).toList = (d.rows .kvLists k).toList.map fun q => (q.1, q.2.val) := by
    refine Table.toList_eq_of_sorted ?_ fun i v => ?_
    · rw [List.map_map]
      exact Table.pairwise_toList _
    · rw [live, Table.mapRows_row, List.mem_map]
      constructor
      · rintro ⟨⟨i', r⟩, hmem, heq⟩
        cases heq
        have hrow := Table.mem_toList.mp hmem
        have hlive : r.live now = true := by rw [Cell.live, h _ _ hrow]
        rw [hrow, Option.bind_some, if_pos hlive]
      · intro hv
        obtain ⟨r, hr, hval⟩ := Option.bind_eq_some_iff.mp hv
        split at hval
        · cases hval
          exact ⟨(i, r), Table.mem_toList.mpr hr, rfl⟩
        · cases hval
  rw [listValues, hlist, List.map_map]
  rfl

/-- `LINSERT` puts the element next to the first occurrence of the pivot and answers with the new
length, or answers -1 and changes nothing if there is no such element. -/
def Inserts [GoFloat S] (e : Env) (sc : ScriptCache) (d : DB S) (key place pivot element : Bytes)
    (before : Bool) : Prop :=
  let out := (Handlers.linsertOp [key, place, pivot, element] : Proc S).direct e sc d
  (∀ l, inserted before pivot element (listValues e.now d (encodeKey key)) = some l →
    out.1 = .ok (.int l.length) ∧ listValues e.now out.2.2 (encodeKey key) = l) ∧
  (inserted before pivot element (listValues e.now d (encodeKey key)) = none →
    out.1 = .ok (.int (-1)) ∧ out.2.2 = d)

variable {key pivot element : Bytes} {before : Bool} {i : ℤ}

theorem length_values (u : Table ℤ (Row S .kvLists)) : ((values u).length : ℤ) = count u := by
  rw [values, List.length_map, Table.length_toList, count]

theorem NoExpiry.inserted {b : ℤ} (hu : NoExpiry u)
    (h : ∀ j, u'.row j = if b < j then u.row (j - 1) else if j = b then some ⟨element, none⟩ else u.row j) :
    NoExpiry u' := by
  intro j r hr
  rw [h] at hr
  split at hr
  · exact hu _ r hr
  · split at hr
    · cases hr
      rfl
    · exact hu _ r hr

theorem NoExpiry.put (hu : NoExpiry u) (j : ℤ) : NoExpiry (u.put j ⟨element, none⟩) := by
  intro j' r hr
  rw [Table.put_row] at hr
  split at hr
  · cases hr
    rfl
  · exact hu _ r hr

/-- What the pivot's index says about the list when the element belongs after the last index. -/
theorem inserted_last (element : Bytes) (h : pivotIndex u pivot = some i) (hbig : BigintRows u)
    (hb : insertIndex before i = 2 ^ 63) :
    ∃ v, pivot ∉ v ∧ values u = v ++ [pivot] ∧
      inserted before pivot element (values u) = some (v ++ [pivot] ++ [element]) := by
  obtain ⟨l₁, r, l₂, hlist, hval, hpivot, -, habove⟩ := pivot_split h
  have hrow {q : ℤ × Row S .kvLists} (hq : q ∈ u.toList) : u.row q.1 ≠ none := by
    simp [Table.mem_toList.mp (show (q.1, q.2) ∈ u.toList from hq)]
  have hi := (hbig i (hrow (q := (i, r)) (by simp [hlist]))).2
  have hbefore : before = false := by
    cases before with
    | true => exact absurd hb hi.ne
    | false => rfl
  subst hbefore
  have hlast : l₂ = [] := by
    refine List.eq_nil_iff_forall_not_mem.mpr fun q hq => ?_
    have hlt := (hbig q.1 (hrow (by simp [hlist, hq]))).2
    have hgt := habove q hq
    have hmax : i + 1 = 2 ^ 63 := hb
    omega
  subst hlast
  have hmem : pivot ∉ l₁.map fun q => q.2.val := by
    intro hmem
    obtain ⟨q, hq, hqv⟩ := List.mem_map.mp hmem
    exact hpivot q hq hqv
  have hvalues : values u = (l₁.map fun q => q.2.val) ++ [pivot] := by
    rw [values, hlist, List.map_append, List.map_cons, hval]
    rfl
  refine ⟨_, hmem, hvalues, ?_⟩
  rw [hvalues, inserted_append hmem]
  simp

theorem pivot_row (h : pivotIndex u pivot = some i) : u.row i ≠ none := by
  obtain ⟨l₁, r, l₂, hlist, -⟩ := pivot_split h
  simp [Table.mem_toList.mp (show (i, r) ∈ u.toList by simp [hlist])]

theorem insertIndex_le (hrow : u.row i ≠ none) (hbig : BigintRows u) :
    insertIndex before i ≤ 2 ^ 63 := by
  have hi := (hbig i hrow).2
  cases before <;> simp only [insertIndex, if_true, Bool.false_eq_true, if_false] <;> omega

/-- **The rows the code leaves** hold the list that is wanted. -/
theorem insertedRows_values_iff (h : pivotIndex u pivot = some i)
    (hbig : BigintRows u) {l : List Bytes} (hl : inserted before pivot element (values u) = some l) :
    (∃ u', insertedRows e u before i element = .ok u' ∧ values u' = l) ↔
      ShiftOk (visited e u (insertIndex before i)) ∧
        (insertIndex before i < 2 ^ 63 ∨ values u = [pivot] ∧ element = pivot) := by
  have hrow := pivot_row h
  by_cases hb : insertIndex before i < 2 ^ 63
  · rw [inserted_some h] at hl
    rcases insertedRows_below (e := e) element hrow hbig hb with
      ⟨hok, u', hu', hrows⟩ | ⟨hnot, x, hx⟩
    · have hvalues : values u' = l := (values_inserted hrows).trans (Option.some.inj hl)
      exact ⟨fun _ => ⟨hok, Or.inl hb⟩, fun _ => ⟨u', hu', hvalues⟩⟩
    · rw [hx]
      refine ⟨?_, fun hcond => absurd hcond.1 hnot⟩
      rintro ⟨u', hu', -⟩
      cases hu'
  · have hlast : insertIndex before i = 2 ^ 63 := le_antisymm (insertIndex_le hrow hbig) (not_lt.mp hb)
    obtain ⟨v, hv, hvalues, hins⟩ := inserted_last element h hbig hlast
    rw [hins] at hl
    cases hl
    have hnone : ShiftOk (visited e u (insertIndex before i)) := by
      rw [visited_last hbig hlast]
      exact ⟨.nil, by simp⟩
    constructor
    · rintro ⟨u', hu', hvals⟩
      obtain ⟨hfree, rfl⟩ := (insertedRows_wrapped hrow hbig hlast).mp hu'
      rw [values_wrapped hbig hfree, hvalues] at hvals
      obtain ⟨rfl, rfl⟩ := rotated_eq hv hvals
      exact ⟨hnone, Or.inr ⟨hvalues, rfl⟩⟩
    · rintro ⟨-, hlt | ⟨hsingle, rfl⟩⟩
      · exact absurd hlt hb
      · -- the pivot is the only row, and its index is not the least
        have hfree : u.row minBigint = none := by
          by_contra htaken
          obtain ⟨c, hc⟩ := Option.ne_none_iff_exists'.mp htaken
          obtain ⟨r, hr⟩ := Option.ne_none_iff_exists'.mp hrow
          obtain ⟨q, hq, -⟩ := List.map_eq_singleton_iff.mp hsingle
          have hmin := Table.mem_toList.mpr hc
          have hpiv := Table.mem_toList.mpr hr
          rw [hq, List.mem_singleton] at hmin hpiv
          have hi : minBigint = i := congrArg Prod.fst (hmin.trans hpiv.symm)
          rw [← hi] at hlast
          revert hlast
          cases before <;> decide
        refine ⟨_, (insertedRows_wrapped hrow hbig hlast).mpr ⟨hfree, rfl⟩, ?_⟩
        rw [values_wrapped hbig hfree, ← hvalues, hsingle]
        rfl

theorem noExpiry_insertedRows {u u' : Table ℤ (Row S .kvLists)} (hrow : u.row i ≠ none) (hbig : BigintRows u)
    (hexp : NoExpiry u) (hu' : insertedRows e u before i element = .ok u') : NoExpiry u' := by
  by_cases hb : insertIndex before i < 2 ^ 63
  · rcases insertedRows_below (e := e) element hrow hbig hb with
      ⟨-, u'', hu'', hrows⟩ | ⟨-, x, hx⟩
    · rw [hu'] at hu''
      cases hu''
      exact hexp.inserted hrows
    · rw [hx] at hu'
      cases hu'
  · have hlast : insertIndex before i = 2 ^ 63 := le_antisymm (insertIndex_le hrow hbig) (not_lt.mp hb)
    obtain ⟨-, rfl⟩ := (insertedRows_wrapped hrow hbig hlast).mp hu'
    exact hexp.put _

variable [GoFloat S]

theorem linsertOp_eq {place : Bytes} (hplace : toUpper place = utf8 (if before then "BEFORE" else "AFTER")) :
    (Handlers.linsertOp [key, place, pivot, element] : Proc S) =
      Proc.answerTyped (.lInsert key pivot element before) := by
  cases before with
  | true => exact if_pos hplace
  | false =>
      have hne : ¬ toUpper place = utf8 "BEFORE" := by
        rw [show toUpper place = utf8 "AFTER" from hplace]
        decide
      exact (if_neg hne).trans (if_pos hplace)

/-- **`LINSERT` works exactly in the orders** in which no row is visited before the one at the next
index. -/
theorem linsert_inserts_iff (e : Env) (sc : ScriptCache) (d : DB S) (key place pivot element : Bytes)
    (before : Bool) (hplace : toUpper place = utf8 (if before then "BEFORE" else "AFTER"))
    (hbig : BigintRows (d.rows .kvLists (encodeKey key))) (hexp : NoExpiry (d.rows .kvLists (encodeKey key))) :
    Inserts e sc d key place pivot element before ↔
      ∀ i, pivotIndex (d.rows .kvLists (encodeKey key)) pivot = some i →
        ShiftOk (visited e (d.rows .kvLists (encodeKey key)) (insertIndex before i)) ∧
          (insertIndex before i < 2 ^ 63 ∨
            listValues e.now d (encodeKey key) = [pivot] ∧ element = pivot) := by
  rw [Inserts, linsertOp_eq hplace, listValues_eq hexp]
  cases hpivot : pivotIndex (d.rows .kvLists (encodeKey key)) pivot with
  | none =>
      have hrun : (Proc.answerTyped (.lInsert key pivot element before) : Proc S).direct e sc d =
          (.ok (.int (-1)), sc, d) := Proc.direct_callOr_ok (exec_lInsert_absent hpivot)
      rw [inserted_none hpivot, hrun]
      simp
  | some i =>
      obtain ⟨l, hl⟩ : ∃ l, inserted before pivot element (values (d.rows .kvLists (encodeKey key))) = some l :=
        ⟨_, inserted_some hpivot⟩
      have hout {u' : Table ℤ (Row S .kvLists)}
          (hu' : insertedRows e (d.rows .kvLists (encodeKey key)) before i element = .ok u') :
          listValues e.now (d.setRows .kvLists (encodeKey key) u') (encodeKey key) = values u' := by
        have hrows := Store.rows_setRows_self d .kvLists (encodeKey key) u'
        rw [listValues_eq, hrows]
        rw [hrows]
        exact noExpiry_insertedRows (pivot_row hpivot) hbig hexp hu'
      rw [hl]
      simp only [Option.some.injEq, forall_eq', reduceCtorEq, false_implies, and_true]
      rw [← insertedRows_values_iff hpivot hbig hl]
      constructor
      · rintro ⟨hok, hvalues⟩
        obtain ⟨r, hexec, -⟩ := Proc.direct_answerTyped_ok (by simp [Value.int, Value.empty]) hok
        obtain ⟨u', hu', hd⟩ := exec_lInsert_done hpivot hexec
        rw [hd, hout hu'] at hvalues
        exact ⟨u', hu', hvalues⟩
      · rintro ⟨u', hu', rfl⟩
        have hrun : (Proc.answerTyped (.lInsert key pivot element before) : Proc S).direct e sc d =
            (.ok (.int (count u')), sc, d.setRows .kvLists (encodeKey key) u') :=
          Proc.direct_callOr_ok (exec_lInsert_ok hpivot hu')
        rw [hrun, length_values]
        exact ⟨rfl, hout hu'⟩

end command

/-! ### An insertion that meets itself -/

/-- A list of three elements. -/
def letters : DB ℤ :=
  ((emptyDB : DB ℤ).setRows .kvMeta (utf8 "letters") (Table.single () ⟨.list, none⟩)).setRows .kvLists
    (utf8 "letters") (((Table.single 0 ⟨utf8 "a", none⟩).put 1 ⟨utf8 "b", none⟩).put 2 ⟨utf8 "c", none⟩)

theorem letters_row (j : ℤ) : (letters.rows .kvLists (encodeKey (utf8 "letters"))).row j =
    if j = 2 then some ⟨utf8 "c", none⟩ else if j = 1 then some ⟨utf8 "b", none⟩
    else if j = 0 then some ⟨utf8 "a", none⟩ else none := by
  have hkey : encodeKey (utf8 "letters") = utf8 "letters" := by decide
  rw [hkey, letters, Store.rows_setRows_self, Table.put_row, Table.put_row, Table.single_row]

theorem linsert_after_b : Inserts (envAt 0) ∅ letters (utf8 "letters") (utf8 "after") (utf8 "b") (utf8 "x")
    false := by
  have hbig : BigintRows (letters.rows .kvLists (encodeKey (utf8 "letters"))) := by
    intro j hj
    rw [letters_row] at hj
    split_ifs at hj with h₂ h₁ h₀
    · omega
    · omega
    · omega
    · exact absurd rfl hj
  have hexp : NoExpiry (letters.rows .kvLists (encodeKey (utf8 "letters"))) := by
    intro j r hr
    rw [letters_row] at hr
    split_ifs at hr <;> cases hr <;> rfl
  have hpivot : pivotIndex (letters.rows .kvLists (encodeKey (utf8 "letters"))) (utf8 "b") = some 1 := by
    decide
  have hvisited : visited (envAt 0) (letters.rows .kvLists (encodeKey (utf8 "letters")))
      (insertIndex false 1) = [2] := by decide
  refine (linsert_inserts_iff (envAt 0) ∅ letters (utf8 "letters") (utf8 "after") (utf8 "b") (utf8 "x") false
    (by decide) hbig hexp).mpr fun i hi => ?_
  obtain rfl : 1 = i := Option.some.inj (hpivot.symm.trans hi)
  rw [hvisited]
  exact ⟨⟨List.pairwise_singleton _ _, by simp⟩, Or.inl (by decide)⟩

/-- `LINSERT letters BEFORE b x`: the row of `b` is visited first and finds the row of `c` in its way. -/
theorem linsert_before_b_fails :
    ((Handlers.linsertOp [utf8 "letters", utf8 "BEFORE", utf8 "b", utf8 "x"] : Proc ℤ).direct (envAt 0) ∅
      letters).1 = .ok (Proc.errReplyTyped (.db "" (uniqueViolation .kvLists))) := by
  have hpivot : pivotIndex (letters.rows .kvLists (encodeKey (utf8 "letters"))) (utf8 "b") = some 1 := by
    decide
  have hvisited : visited (envAt 0) (letters.rows .kvLists (encodeKey (utf8 "letters"))) (insertIndex true 1) =
      [1, 2] := by decide
  have hshift : shiftRows (letters.rows .kvLists (encodeKey (utf8 "letters")))
      (visited (envAt 0) (letters.rows .kvLists (encodeKey (utf8 "letters"))) (insertIndex true 1)) =
        .error (uniqueViolation .kvLists) := by
    rw [hvisited, shiftRows, letters_row, letters_row]
    rfl
  have hop : (Handlers.linsertOp [utf8 "letters", utf8 "BEFORE", utf8 "b", utf8 "x"] : Proc ℤ) =
      Proc.answerTyped (.lInsert (utf8 "letters") (utf8 "b") (utf8 "x") true) :=
    linsertOp_eq (by decide)
  rw [hop, Proc.answerTyped, Proc.storeTyped,
    Proc.direct_callOr_error (exec_lInsert_refused hpivot hshift) fun _ => Failure.noConfusion]

end Postkeys
