import Postkeys.Decimal
import Postkeys.Effects.Footprints
import Postkeys.OneType

/-! # Presence of keys

`EXISTS`, `TYPE` and `SETNX` look at `kv_meta`, the other commands at the data tables.  A key should
have a `kv_meta` row exactly when it has data rows, in the table of the type that row names.  Writes
keep this, but the commands that remove elements leave the `kv_meta` row of a collection that has
become empty: `Cmd.KeepsRow` is the condition under which the next command keeps the invariant, and
`presence_of_reached` what follows for all runs without expiry whose commands meet it. -/

namespace Postkeys

open Relational Program

variable {S : Type} {e : Env} {now : Time} {d d' : DB S} {k : Bytes} {T : KeyType} {key : Bytes}
  {ks : List Bytes} {t : Tab} {order : SortOrder} {p : t.Sub → Row S t → Bool}

/-! ### The invariant -/

/-- A key has a `kv_meta` row if it has data rows, and data rows of the type its `kv_meta` row
names. -/
structure KeyFilled (r : KeyRows S) : Prop where
  shown : ∀ m, (r .kvMeta).row () = some m → r m.val.table ≠ ∅
  typed : ∀ T : KeyType, r T.table ≠ ∅ → ((r .kvMeta).row ()).isSome

/-- No row carries an expiry. -/
def KeyLasting (r : KeyRows S) : Prop := ∀ t s c, (r t).row s = some c → c.expiresAt = none

/-- The invariant of all keys in runs without expiry. -/
def Filled (d : DB S) : Prop := ∀ k, KeyFilled (keyRows d k) ∧ KeyLasting (keyRows d k)

theorem KeyFilled.of_full {r : KeyRows S} (h : Full r T) : KeyFilled r := by
  obtain ⟨x, hx⟩ := h.info
  refine ⟨fun m hm => ?_, fun _ _ => by rw [hx]; rfl⟩
  rw [hx, Option.some.injEq] at hm
  subst hm
  exact h.data

theorem KeyFilled.of_empty {r : KeyRows S} (h : ∀ t, r t = ∅) : KeyFilled r where
  shown m hm := by simp [h] at hm
  typed T hT := absurd (h T.table) hT

theorem KeyLasting.of_empty {r : KeyRows S} (h : ∀ t, r t = ∅) : KeyLasting r := by
  intro t s c hc
  simp [h] at hc

theorem KeyLasting.of_fresh {r : KeyRows S} (h : Fresh r T none) : KeyLasting r := by
  intro t s c hc
  by_cases hm : t = .kvMeta
  · subst hm
    rw [h.info c hc]
  · by_cases ht : t = T.table
    · subst ht
      exact h.data s c hc
    · rw [h.other t hm ht] at hc
      cases hc

theorem Filled.of_frame (hd : Filled d) (hf : Frame d d' k) (hfill : KeyFilled (keyRows d' k))
    (hlast : KeyLasting (keyRows d' k)) : Filled d' := by
  intro k'
  by_cases hk : k' = k
  · subst hk
    exact ⟨hfill, hlast⟩
  · have hrows : keyRows d' k' = keyRows d k' := funext fun t => hf t k' hk
    rw [hrows]
    exact hd k'

theorem Filled.of_settled (hd : Filled d) (h : Settled d d' T) : Filled d' := by
  intro k
  rcases h k with hsame | hempty | ⟨hfresh, hfull⟩
  · rw [hsame]
    exact hd k
  · exact ⟨.of_empty hempty, .of_empty hempty⟩
  · exact ⟨.of_full hfull, .of_fresh hfresh⟩

theorem Filled.of_storedAt (hd : Filled d) (h : StoredAt d d' k T) : Filled d' := by
  obtain ⟨⟨hframe, hup⟩, hne⟩ := h
  refine hd.of_frame hframe (.of_full ⟨⟨none, hup.info⟩, hne⟩) fun t s c hc => ?_
  by_cases hm : t = .kvMeta
  · subst hm
    rw [hup.info, Option.some.injEq] at hc
    rw [← hc]
  · by_cases ht : t = T.table
    · subst ht
      rcases hup.data s c hc with hnone | ⟨s₀, c₀, hc₀, he⟩
      · exact hnone
      · rw [← he, (hd k).2 _ s₀ c₀ hc₀]
    · rw [hup.other t hm ht] at hc
      exact (hd k).2 t s c hc

theorem Filled.of_stored_or (hd : Filled d) (h : d' = d ∨ StoredAt d d' k T) : Filled d' := by
  rcases h with rfl | h
  · exact hd
  · exact hd.of_storedAt h

/-- Removing rows, but never the last ones. -/
theorem Filled.of_sameKeys (hd : Filled d) (h : SameKeys d d')
    (hlast : ∀ k, KeyLasting (keyRows d' k)) : Filled d' := by
  intro k
  obtain ⟨hmeta, hrows⟩ := h k
  refine ⟨⟨fun m hm => ?_, fun T hT => ?_⟩, hlast k⟩
  · have hval : ((d.rows .kvMeta k).row ()).map Cell.val = some m.val := by
      rw [← hmeta]
      exact congrArg (Option.map Cell.val) hm
    obtain ⟨m₀, hm₀, hv⟩ := Option.map_eq_some_iff.mp hval
    rw [← hv]
    exact mt (hrows _).mp ((hd k).1.shown m₀ hm₀)
  · have hsome := (hd k).1.typed T (mt (hrows _).mpr hT)
    rw [← Option.isSome_map (f := Cell.val)] at hsome ⊢
    exact hmeta ▸ hsome

theorem Filled.of_trimmed (hd : Filled d) (ht : Trimmed d d') (h : SameKeys d d') : Filled d' := by
  refine hd.of_sameKeys h fun k t s c hc => ?_
  obtain ⟨s₀, c₀, hc₀, he, -⟩ := ht t k s c hc
  rw [← he, (hd k).2 t s₀ c₀ hc₀]

/-- No rows of the key changed. -/
theorem Filled.of_rows (hd : Filled d) (h : ∀ t k, d'.rows t k = d.rows t k) : Filled d' := by
  intro k
  have hrows : keyRows d' k = keyRows d k := funext fun t => h t k
  rw [hrows]
  exact hd k

theorem KeyFilled.of_ensured {r r' : KeyRows S} (h : Ensured r r' T) (hne : r' T.table ≠ ∅)
    (hr : ∀ m, (r .kvMeta).row () = some m → m.val ≠ T → r m.val.table ≠ ∅) : KeyFilled r' := by
  refine ⟨fun m hm => ?_, fun _ _ => by rw [h.info]; rfl⟩
  rw [h.info, Option.some.injEq] at hm
  by_cases hT : m.val = T
  · rw [hT]
    exact hne
  · rw [h.other _ m.val.table_ne_meta fun heq => hT (KeyType.table_injective heq)]
    cases hrow : (r .kvMeta).row () with
    | none =>
        rw [hrow] at hm
        exact absurd (by rw [← hm]; rfl) hT
    | some m₀ =>
        rw [hrow, Option.getD_some] at hm
        subst hm
        exact hr m₀ hrow hT

theorem KeyLasting.of_ensured {r r' : KeyRows S} (h : Ensured r r' T) (hr : KeyLasting r) :
    KeyLasting r' := by
  intro t s c hc
  by_cases hm : t = .kvMeta
  · subst hm
    rw [h.info, Option.some.injEq] at hc
    cases hrow : (r .kvMeta).row () with
    | none =>
        rw [hrow] at hc
        rw [← hc]
        rfl
    | some m =>
        rw [hrow, Option.getD_some] at hc
        rw [← hc]
        exact hr _ _ m hrow
  · by_cases ht : t = T.table
    · subst ht
      rcases h.data s c hc with hnone | ⟨s₀, c₀, hc₀, he⟩
      · exact hnone
      · rw [← he, hr _ s₀ c₀ hc₀]
    · rw [h.other t hm ht] at hc
      exact hr t s c hc

/-! ### The condition -/

/-- The number of rows of a key in a table. -/
def size (d : DB S) (t : Tab) (k : Bytes) : ℤ := count (d.rows t k)

/-- The key has no rows in `t`, or one that satisfies `p`. -/
def Survives (d : DB S) (t : Tab) (k : Bytes) (p : t.Sub → Row S t → Prop) : Prop :=
  d.rows t k = ∅ ∨ ∃ s c, (d.rows t k).row s = some c ∧ p s c

/-- The type in the `kv_meta` row of a key. -/
def metaType (d : DB S) (k : Bytes) : Option KeyType := ((d.rows .kvMeta k).row ()).map Cell.val

/-- The first of some keys that has rows in `t`. -/
def firstWith (d : DB S) (t : Tab) (ks : List Bytes) : Option Bytes :=
  ks.find? fun k => decide (d.rows t k ≠ ∅)

/-- When a command keeps presence right: a command that removes elements leaves one, or finds none;
`GETDEL`, `RENAME` and an `LTRIM` that leaves nothing, which delete the `kv_meta` row, find no rows
of another type; a collection is not copied onto itself; and `ZADD` without members finds the key. -/
def Cmd.KeepsRow [Float64 S] (c : Cmd S) (d : DB S) : Prop :=
  match c with
  | .hDel key fields => Survives d .kvHashes (encodeKey key) fun f _ => f ∉ fields.map encodeField
  | .sRem key members => Survives d .kvSets (encodeKey key) fun m _ => m ∉ members
  | .zRem key members => Survives d .kvZsets (encodeKey key) fun m _ => m ∉ members
  | .zRemRangeByScore key min max =>
      Survives d .kvZsets (encodeKey key) fun _ r => scoreBetween min max r.val = false
  | .zRemRangeByRank key start stop => d.rows .kvZsets (encodeKey key) = ∅ ∨
      clampRange (size d .kvZsets (encodeKey key)) start stop ≠
        (0, size d .kvZsets (encodeKey key) - 1)
  | .lPop key | .rPop key => size d .kvLists (encodeKey key) ≠ 1
  | .lPopMulti ks | .rPopMulti ks =>
      ∀ k, firstWith d .kvLists (encodeKeys ks) = some k → size d .kvLists k ≠ 1
  | .lMPop ks n | .rMPop ks n =>
      ∀ k, firstWith d .kvLists (encodeKeys ks) = some k → n < size d .kvLists k
  | .zMPopMin ks n | .zMPopMax ks n =>
      ∀ k, firstWith d .kvZsets (encodeKeys ks) = some k → n < size d .kvZsets k
  | .zPopMin key n | .zPopMax key n =>
      d.rows .kvZsets (encodeKey key) = ∅ ∨ n < size d .kvZsets (encodeKey key)
  | .lRem key n element => (Survives d .kvLists (encodeKey key) fun _ r => r.val ≠ element) ∨
      n ≠ 0 ∧ |n| < size d .kvLists (encodeKey key)
  | .rPopLPush source destination =>
      encodeKey source = encodeKey destination ∨ size d .kvLists (encodeKey source) ≠ 1
  | .getDel key => d.rows .kvStrings (encodeKey key) = ∅ ∨ Free d .string (encodeKey key)
  | .lTrim key start stop =>
      (clampRange (size d .kvLists (encodeKey key)) start stop).1 ≤
        (clampRange (size d .kvLists (encodeKey key)) start stop).2 ∨ Free d .list (encodeKey key)
  | .rename oldKey newKey => encodeKey oldKey = encodeKey newKey ∨
      ∀ T, metaType d (encodeKey oldKey) = some T → Free d T (encodeKey oldKey)
  | .copy source destination replace => replace = true → encodeKey source = encodeKey destination →
      ∀ T, metaType d (encodeKey source) = some T → T = .string ∨ T = .hyperloglog
  | .zAdd key members opts =>
      members ≠ [] ∨ opts.XX = true ∨ metaType d (encodeKey key) ≠ none
  | _ => True

/-- The command gives no key an expiry. -/
def Cmd.lasting : Cmd S → Prop
  | .set _ _ t | .setNX _ _ t | .getEx _ t _ => t ≤ 0
  | .expire _ _ _ | .expireAt _ _ _ => False
  | _ => True

/-! ### Commands that remove elements -/

theorem sameKeys_restrict (ht : t ≠ .kvMeta)
    (h : Survives d t k fun s c => p s c = true) :
    SameKeys d (d.setRows t k ((d.rows t k).restrict p)) := by
  refine SameKeys.setRows ht ?_
  rcases h with hempty | ⟨s, c, hc, hp⟩
  · rw [hempty]
    exact iff_of_true (Table.ext_row fun s => by simp) rfl
  · exact iff_of_false (Table.ne_empty_of_row (Table.restrict_row_some.mpr ⟨hc, hp⟩))
      (Table.ne_empty_of_row hc)

theorem Survives.mono {p q : t.Sub → Row S t → Prop} (h : Survives d t k p)
    (hpq : ∀ s c, p s c → q s c) : Survives d t k q := by
  refine h.imp_right ?_
  rintro ⟨s, c, hc, hp⟩
  exact ⟨s, c, hc, hpq s c hp⟩

/-- Fewer names than rows leave a row unnamed. -/
theorem survives_of_length (subs : List t.Sub) (h : (subs.length : ℤ) < size d t k) :
    Survives d t k fun s _ => s ∉ subs := by
  right
  have hcard : subs.toFinset.card < (d.rows t k).dom.card := by
    have hle := List.toFinset_card_le subs
    unfold size count at h
    omega
  obtain ⟨s, hs, hns⟩ := Finset.exists_mem_notMem_of_card_lt_card hcard
  obtain ⟨c, hc⟩ := Option.isSome_iff_exists.mp (((d.rows t k).mem_dom s).mp hs)
  exact ⟨s, c, hc, fun hmem => hns (List.mem_toFinset.mpr hmem)⟩

theorem size_eq_zero (h : size d t k ≤ 0) : d.rows t k = ∅ := by
  unfold size count at h
  exact Table.dom_eq_empty_iff.mp (Finset.card_eq_zero.mp (by omega))

theorem KeyLasting.live_eq (h : KeyLasting (keyRows d k)) :
    (live now (d.rows t k)).dom = (d.rows t k).dom ∧ liveRows now (d.rows t k) = d.rows t k := by
  have hlive {s : t.Sub} {c : Row S t} (hc : (d.rows t k).row s = some c) : c.live now = true := by
    unfold Cell.live
    rw [h t s c hc]
  constructor
  · ext s
    rw [Table.mem_dom, Table.mem_dom, live_row]
    cases hc : (d.rows t k).row s with
    | none => rfl
    | some c => simp [hlive hc]
  · refine Table.ext_row fun s => ?_
    rw [liveRows, Table.restrict_row]
    cases hc : (d.rows t k).row s with
    | none => rfl
    | some c => simp [hlive hc]

/-- Without expiry, the first key with live rows is the first with rows. -/
theorem firstWith_eq {rows : Bytes → Table t.Sub (Row S t)}
    (hd : Filled d) (hrows : ∀ k ∈ ks, rows k = d.rows t k) :
    ks.find? (fun k => decide (liveRows now (rows k) ≠ ∅)) = firstWith d t ks := by
  unfold firstWith
  refine List.find?_congr fun k hk => ?_
  rw [hrows k hk, (hd k).2.live_eq.2]

theorem Filled.restrict (hd : Filled d) (ht : t ≠ .kvMeta)
    (h : Survives d t k fun s c => p s c = true) :
    Filled (d.setRows t k ((d.rows t k).restrict p)) :=
  hd.of_trimmed (Trimmed.restrict p) (sameKeys_restrict ht h)

/-- Removing some of the named rows, where the names are fewer than the rows. -/
theorem Filled.remove (hd : Filled d) (ht : t ≠ .kvMeta)
    (subs : List t.Sub) (hp : ∀ s c, s ∉ subs → p s c = true)
    (h : d.rows t k = ∅ ∨ (subs.length : ℤ) < size d t k) :
    Filled (d.setRows t k ((d.rows t k).restrict p)) := by
  refine hd.restrict ht ?_
  rcases h with hempty | hlt
  · exact Or.inl hempty
  · refine (survives_of_length _ hlt).imp_right ?_
    rintro ⟨s, c, hc, hs⟩
    exact ⟨s, c, hc, hp s c hs⟩

section lists

theorem Filled.popList (hd : Filled d) (h : size d .kvLists k ≠ 1) (l : List (ℤ × Row S .kvLists)) :
    Filled (d.setRows .kvLists k ((d.rows .kvLists k).restrict fun s _ =>
      decide (s ∉ (l.take 1).map Prod.fst))) := by
  refine hd.remove (by decide) _ (fun _ _ => decide_eq_true) ?_
  by_cases hpos : size d .kvLists k ≤ 0
  · exact Or.inl (size_eq_zero hpos)
  · right
    have hlen : (l.take 1).length ≤ 1 := List.length_take_le 1 l
    rw [List.length_map]
    omega

theorem Filled.lPop (hd : Filled d) (h : size d .kvLists (encodeKey key) ≠ 1) :
    wp e (lPop key) (fun _ d' => Filled d') d := by
  unfold Postkeys.lPop
  rw [wp_bind, wp_query, wpSql_popRows]
  exact hd.popList h _

theorem Filled.rPop (hd : Filled d) (h : size d .kvLists (encodeKey key) ≠ 1) :
    wp e (rPop key) (fun _ d' => Filled d') d := by
  unfold Postkeys.rPop
  rw [wp_bind, wp_query, wpSql_popRows]
  exact hd.popList h _

/-- A statement that pops rows of the first key that has any. -/
theorem Filled.popAt {β : Type} (hd : Filled d) (ht : t ≠ .kvMeta)
    {find : Ctx Bytes Tab.Sub → (Bytes → Table t.Sub (Row S t)) → Option Bytes}
    (hfind : ∀ rows, (∀ k ∈ ks, rows k = d.rows t k) → find e.ctx rows = firstWith d t ks)
    {choose : Time → Table t.Sub (Row S t) → List (t.Sub × Row S t)}
    {f : Bytes → List (t.Sub × Row S t) → Option β}
    (h : ∀ k, firstWith d t ks = some k → ((choose e.now (d.rows t k)).length : ℤ) < size d t k) :
    wpSql e (do
      let winner ← Sql.readRowsIn t ks find
      match winner with
      | none => pure none
      | some k => do
          let rows ← popRows t k choose
          pure (f k rows) : Stm S (Option β)) (fun _ d' => Filled d') d := by
  rw [wpSql_bind, wpSql_readRowsIn]
  have hpop : ∀ rows, (∀ k ∈ ks, rows k = d.rows t k) → wpSql e (match find e.ctx rows with
      | none => pure none
      | some k => do
          let rows ← popRows t k choose
          pure (f k rows) : Stm S (Option β)) (fun _ d' => Filled d') d := by
    intro rows hrows
    rw [hfind rows hrows]
    cases hwin : firstWith d t ks with
    | none => exact hd
    | some k =>
        dsimp only
        rw [wpSql_bind, wpSql_popRows]
        refine hd.remove ht _ (fun _ _ => decide_eq_true) (Or.inr ?_)
        rw [List.length_map]
        exact h k hwin
  refine hpop _ fun k hk => ?_
  exact if_pos hk

theorem firstWith_rows (h : firstWith d t ks = some k) :
    0 < size d t k := by
  have hne : d.rows t k ≠ ∅ := by simpa [firstWith] using List.find?_some h
  by_contra hle
  exact hne (size_eq_zero (not_lt.mp hle))

theorem Filled.popMulti (hd : Filled d)
    (h : ∀ k, firstWith d .kvLists (encodeKeys ks) = some k → size d .kvLists k ≠ 1) :
    wp e (popMulti ks order) (fun _ d' => Filled d') d := by
  unfold Postkeys.popMulti popFirst
  rw [wp_ite, wp_bind, wp_query]
  refine ⟨fun _ => hd, fun _ => hd.popAt (by decide) (fun rows hrows => ?_) fun k hk => ?_⟩
  · simp only [visible_ctx]
    exact firstWith_eq hd hrows
  · have hlen := List.length_take_le 1 (order.apply (listRows (liveRows e.now (d.rows .kvLists k))))
    have hpos := firstWith_rows hk
    have hone := h k hk
    omega

theorem Filled.popMultiN (hd : Filled d) {n : ℤ}
    (h : ∀ k, firstWith d .kvLists (encodeKeys ks) = some k → n < size d .kvLists k) :
    wp e (popMultiN ks order n) (fun _ d' => Filled d') d := by
  unfold Postkeys.popMultiN popFirstN firstLive
  rw [wp_ite, wp_bind, wp_query]
  refine ⟨fun _ => hd, fun hn => hd.popAt (by decide) (fun _ => firstWith_eq hd) fun k hk => ?_⟩
  have hlen := List.length_take_le n.toNat
    (order.apply (listRows (liveRows e.now (d.rows .kvLists k))))
  have hlt := h k hk
  omega

theorem Filled.lRem [Float64 S] (hd : Filled d) {key element : Bytes} {n : ℤ}
    (h : (Survives d .kvLists (encodeKey key) fun _ r => r.val ≠ element) ∨
      n ≠ 0 ∧ |n| < size d .kvLists (encodeKey key)) :
    Filled ((Cmd.lRem key n element).exec e d).2 := by
  by_cases hn : n = 0
  · have hsurv := h.resolve_right fun h' => h'.1 hn
    have hexec : ((Cmd.lRem key n element).exec e d).2 = d.setRows .kvLists (encodeKey key)
        ((d.rows .kvLists (encodeKey key)).restrict fun _ r => !decide (r.val = element)) := by
      subst hn
      rfl
    rw [hexec]
    refine hd.restrict (by decide) (hsurv.imp_right ?_)
    rintro ⟨s, c, hc, hne⟩
    exact ⟨s, c, hc, by simpa using hne⟩
  · set absCount : ℤ := if n < 0 then int64 (-n) else n with habs
    have hle : absCount ≤ |n| := by
      rw [habs]
      split
      · exact (int64_le (by omega)).trans (neg_le_abs n)
      · exact le_abs_self n
    by_cases hneg : absCount < 0
    · have hexec : ((Cmd.lRem key n element).exec e d).2 = d := by
        simp only [Cmd.exec, Cmd.op, Postkeys.lRem, if_neg hn, ← habs, if_pos hneg]
        rfl
      rwa [hexec]
    · have hexec : ((Cmd.lRem key n element).exec e d).2 = d.setRows .kvLists (encodeKey key)
          ((d.rows .kvLists (encodeKey key)).restrict fun s _ => decide (s ∉
            (((if 0 < n then SortOrder.asc else .desc).apply
              ((listRows (d.rows .kvLists (encodeKey key))).filter fun r => r.2.val = element)).take
                absCount.toNat).map Prod.fst)) := by
        simp only [Cmd.exec, Cmd.op, Postkeys.lRem, if_neg hn, ← habs, if_neg hneg]
        rfl
      rw [hexec]
      rcases h with hsurv | ⟨-, hlt⟩
      · refine hd.restrict (by decide) (hsurv.imp_right ?_)
        rintro ⟨s, c, hc, hne⟩
        refine ⟨s, c, hc, decide_eq_true fun hmem => ?_⟩
        obtain ⟨⟨s', c'⟩, htake, rfl⟩ := List.mem_map.mp hmem
        obtain ⟨hrow, hval⟩ := List.mem_filter.mp (mem_order.mp (List.mem_of_mem_take htake))
        rw [Table.mem_toList.mp hrow, Option.some.injEq] at hc
        exact hne (by rw [← hc]; simpa using hval)
      · refine hd.remove (by decide) _ (fun _ _ => decide_eq_true) (Or.inr ?_)
        rw [List.length_map]
        have hlen := List.length_take_le absCount.toNat ((if 0 < n then SortOrder.asc else .desc).apply
          ((listRows (d.rows .kvLists (encodeKey key))).filter fun r => r.2.val = element))
        omega

theorem clampRange_bounds (length start stop : ℤ) :
    0 ≤ (clampRange length start stop).1 ∧ (clampRange length start stop).2 ≤ length - 1 := by
  unfold clampRange
  dsimp only
  constructor <;> split_ifs <;> omega

/-- The rows of a key outside the clamped range are not all rows. -/
theorem length_outside {r : ℤ × ℤ} {l : List (ℤ × Row S .kvLists)} (h₁ : 0 ≤ r.1) (h : r.1 ≤ r.2)
    (h₂ : r.2 ≤ (l.length : ℤ) - 1) :
    ((l.zipIdx.filter fun p => (p.2 : ℤ) < r.1 ∨ r.2 < p.2).map Prod.fst).length < l.length := by
  rw [List.length_map]
  have hlt : r.1.toNat < l.length := by omega
  calc (l.zipIdx.filter fun p => (p.2 : ℤ) < r.1 ∨ r.2 < p.2).length
      < l.zipIdx.length := by
        refine List.length_filter_lt_length_iff_exists.mpr ⟨(l[r.1.toNat], r.1.toNat), ?_, ?_⟩
        · rw [List.mem_zipIdx_iff_getElem?]
          exact List.getElem?_eq_getElem hlt
        · simp only [decide_eq_true_eq]
          omega
    _ = l.length := List.length_zipIdx

/-- Deleting all rows of a key that has rows of one type only. -/
theorem Filled.clear (hd : Filled d) (hfree : Free d T k) (ts : List Tab)
    (hts : ts = [.kvMeta, T.table]) :
    Filled (ts.foldl (fun d t => d.setRows t k ∅) d) := by
  subst hts
  have hempty (t : Tab) : (((d.setRows .kvMeta k ∅).setRows T.table k ∅).rows t k) = ∅ := by
    by_cases ht : t = T.table
    · subst ht
      exact Store.rows_setRows_self ..
    · rw [Store.rows_setRows_of_ne_table _ ht]
      by_cases hm : t = .kvMeta
      · subst hm
        exact Store.rows_setRows_self ..
      · rw [Store.rows_setRows_of_ne_table _ hm]
        exact hfree t hm ht
  exact hd.of_frame ((Frame.setRows _ _).trans (Frame.setRows _ _)) (.of_empty hempty)
    (.of_empty hempty)

theorem Filled.lTrim (hd : Filled d) {start stop : ℤ}
    (h : (clampRange (size d .kvLists (encodeKey key)) start stop).1 ≤
      (clampRange (size d .kvLists (encodeKey key)) start stop).2 ∨ Free d .list (encodeKey key)) :
    wp e (lTrim key start stop) (fun _ d' => Filled d') d := by
  unfold Postkeys.lTrim selectListLength
  simp only [wp_bind, wp_lockKey, wp_query, wpSql_selectAll, wp_ite, wpSql_deleteKey, pure_eq, wp_ret]
  refine ⟨fun _ => hd, fun _ => ⟨fun hgt => ?_, fun hle => ?_⟩⟩
  · exact hd.clear (h.resolve_left (not_le.mpr hgt)) _ rfl
  · have hbounds := clampRange_bounds (count (d.rows .kvLists (encodeKey key))) start stop
    have hsize : (size d .kvLists (encodeKey key)) = (listRows (d.rows .kvLists (encodeKey key))).length := by
      rw [listRows, Table.length_toList]
      rfl
    refine hd.remove (by decide) _ (fun _ _ => decide_eq_true) (Or.inr ?_)
    rw [List.length_map, hsize]
    have := length_outside (l := listRows (d.rows .kvLists (encodeKey key))) hbounds.1 (not_lt.mp hle)
      (by rw [← hsize]; exact hbounds.2)
    exact_mod_cast this

theorem Filled.lSet (hd : Filled d) {key element : Bytes} {index : ℤ} :
    wp e (lSet key index element) (fun _ d' => Filled d') d := by
  unfold Postkeys.lSet selectListLength
  simp only [wp_bind, wp_query, wpSql_selectAll, wp_ite, wp_raise, implies_true, true_and]
  intro _ _
  split
  · exact wp_raise _
  · simp only [wp_bind, wp_query, pure_eq, wp_ret]
    refine hd.of_trimmed (Trimmed.setRows fun s c hc => ?_) (SameKeys.setRows (by decide) ?_)
    · rw [Table.update_row] at hc
      obtain ⟨c₀, hc₀, rfl⟩ := Option.map_eq_some_iff.mp hc
      exact ⟨s, c₀, hc₀, by split <;> rfl, fun ht => absurd ht (by decide)⟩
    · exact Table.update_eq_empty_iff

end lists

theorem Filled.zRemRangeByRank [Float64 S] (hd : Filled d) {start stop : ℤ}
    (h : d.rows .kvZsets (encodeKey key) = ∅ ∨
      clampRange (size d .kvZsets (encodeKey key)) start stop ≠
        (0, size d .kvZsets (encodeKey key) - 1)) :
    wp e (zRemRangeByRank key start stop) (fun _ d' => Filled d') d := by
  have htotal : count (live e.now (d.rows .kvZsets (encodeKey key))) =
      size d .kvZsets (encodeKey key) := by
    unfold count size
    rw [(hd _).2.live_eq.1]
    rfl
  unfold Postkeys.zRemRangeByRank
  simp only [wp_bind, wp_lockKey, wp_query, wpSql_selectLive, wp_ite, pure_eq, wp_ret, htotal]
  refine ⟨fun _ => hd, fun _ => ?_⟩
  have hbounds := clampRange_bounds (size d .kvZsets (encodeKey key)) start stop
  generalize clampRange (size d .kvZsets (encodeKey key)) start stop = r at *
  refine hd.remove (by decide) _ (fun _ _ => decide_eq_true) (h.imp_right fun hne => ?_)
  have hshort : r.2 - r.1 + 1 < size d .kvZsets (encodeKey key) := by
    by_contra hle
    exact hne (Prod.ext (by omega) (by omega))
  rw [List.length_map]
  refine lt_of_le_of_lt (Int.ofNat_le.mpr (List.length_take_le _ _)) ?_
  omega

theorem Filled.zPop [Float64 S] (hd : Filled d) {n : ℤ}
    (h : d.rows .kvZsets (encodeKey key) = ∅ ∨ n < size d .kvZsets (encodeKey key)) :
    wp e (zPop key n order) (fun _ d' => Filled d') d := by
  unfold Postkeys.zPop
  simp only [wp_bind, wp_queryRows, wpSql_selectLiveLimit]
  intro members hmembers
  rw [wp_ite]
  refine ⟨fun _ => hd, fun _ => ?_⟩
  simp only [wp_bind, wp_query, pure_eq, wp_ret]
  rw [wpSql_deleteWhere]
  have hlen : (members.length : ℤ) ≤ n := by
    unfold limitOffset at hmembers
    split_ifs at hmembers with hoff hneg
    cases hmembers
    refine le_trans (Int.ofNat_le.mpr (List.length_take_le _ _)) ?_
    omega
  refine hd.remove (by decide) (members.map ZMember.member) (fun m _ hm => ?_)
    (h.imp_right fun hlt => ?_)
  · rw [Bool.not_eq_true', decide_eq_false_iff_not]
    exact hm
  · rw [List.length_map]
    exact lt_of_le_of_lt hlen hlt

theorem Filled.zMPop [Float64 S] (hd : Filled d) {n : ℤ}
    (h : ∀ k, firstWith d .kvZsets (encodeKeys ks) = some k → n < size d .kvZsets k) :
    wp e (zMPop ks order n) (fun _ d' => Filled d') d := by
  unfold Postkeys.zMPop zPopFirstN firstLive
  rw [wp_ite, wp_bind, wp_query]
  refine ⟨fun _ => hd, fun hn => hd.popAt (by decide) (fun _ => firstWith_eq hd) fun k hk => ?_⟩
  have hlen := List.length_take_le n.toNat
    (order.apply (zRows (liveRows e.now (d.rows .kvZsets k))))
  have hlt := h k hk
  omega

/-! ### Commands that delete, move or copy keys -/

theorem Filled.dropKey (hd : Filled d) : Filled (d.dropKey k) := hd.of_settled (.dropKey .string)

theorem Filled.getDel (hd : Filled d)
    (h : d.rows .kvStrings (encodeKey key) = ∅ ∨ Free d .string (encodeKey key)) :
    wp e (getDel key) (fun _ d' => Filled d') d := by
  unfold Postkeys.getDel selectString
  simp only [wp_bind, wp_lockKey, wp_query, wpSql_selectLive]
  split
  · exact hd
  · rename_i v hv
    simp only [wp_bind, wp_queryIgnored, wp_query, wpSql_deleteKey, pure_eq, wp_ret]
    refine hd.clear (h.resolve_left fun hempty => ?_) _ rfl
    rw [hempty] at hv
    cases hv

theorem Filled.del (hd : Filled d) (ks : List Bytes) :
    wp e (del ks) (fun _ d' => Filled d') d := by
  unfold Postkeys.del
  generalize sortStrings (encodeKeys ks) = l
  suffices ∀ n, wp e (delLoop n l) (fun _ d' => Filled d') d from this 0
  induction l generalizing d with
  | nil => exact fun _ => hd
  | cons k l ih =>
      intro n
      simp only [delLoop, delKey, wp_bind, wp_getKeyType, wp_ite, pure_eq, wp_ret,
        wp_deleteKeyFromAllTables]
      exact ⟨fun _ => ih hd _, fun _ => ih hd.dropKey _⟩

theorem metaType_eq (hd : Filled d) : liveType now d k = metaType d k := by
  unfold liveType metaType
  rw [live_row]
  cases hm : (d.rows .kvMeta k).row () with
  | none => rfl
  | some m =>
      have hlive : m.live now = true := by
        unfold Cell.live
        rw [(hd k).2 .kvMeta () m hm]
      simp [hlive]

theorem rows_of_liveType (hd : Filled d) (h : liveType now d k = some T) :
    d.rows T.table k ≠ ∅ ∧ ∃ m, (d.rows .kvMeta k).row () = some m ∧ m.val = T := by
  obtain ⟨m, hm, -, hval⟩ := exists_of_liveType h
  exact ⟨hval ▸ (hd k).1.shown m hm, m, hm, hval⟩

theorem Filled.rename (hd : Filled d) {oldKey newKey : Bytes}
    (h : encodeKey oldKey = encodeKey newKey ∨
      ∀ T, metaType d (encodeKey oldKey) = some T → Free d T (encodeKey oldKey)) :
    wp e (rename oldKey newKey) (fun _ d' => Filled d') d := by
  refine wp_mono (rename_effect oldKey newKey) fun _ d' heff => ?_
  rcases heff with rfl | ⟨hne, T, hT, hmoved⟩
  · exact hd.dropKey
  · have hfree := h.resolve_left hne T (by rw [← metaType_eq hd]; exact hT)
    obtain ⟨hrows, m, hm, hval⟩ := rows_of_liveType hd hT
    intro k
    by_cases hold : k = encodeKey oldKey
    · have hempty (t : Tab) : d'.rows t k = ∅ := by
        rw [hold, hmoved.left t]
        split
        · rfl
        · rename_i ht
          rw [not_or] at ht
          exact hfree t ht.1 ht.2
      exact ⟨.of_empty hempty, .of_empty hempty⟩
    · by_cases hnew : k = encodeKey newKey
      · subst hnew
        have hmeta : d'.rows .kvMeta (encodeKey newKey) = d.rows .kvMeta (encodeKey oldKey) := by
          rw [hmoved.moved, if_pos (Or.inl rfl)]
        have hdata : d'.rows T.table (encodeKey newKey) = d.rows T.table (encodeKey oldKey) := by
          rw [hmoved.moved, if_pos (Or.inr rfl)]
        refine ⟨.of_full ⟨⟨m.expiresAt, ?_⟩, fun hempty => hrows (hdata ▸ hempty)⟩,
          fun t s c hc => ?_⟩
        · rw [keyRows, hmeta, hm, ← hval]
        · rw [keyRows, hmoved.moved] at hc
          split at hc
          · exact (hd (encodeKey oldKey)).2 t s c hc
          · cases hc
      · have hsame : keyRows d' k = keyRows d k := funext fun t => hmoved.frame t k hold hnew
        rw [hsame]
        exact hd k

theorem copiedExpiry_eq_none (hlast : ∀ s c, (d.rows .kvStrings k).row s = some c → c.expiresAt = none) :
    copiedExpiry d k T = none := by
  unfold copiedExpiry
  split
  · cases hrow : (d.rows .kvStrings k).row () with
    | none => rfl
    | some c => exact hlast () c hrow
  · rfl

theorem Filled.copyKey (hd : Filled d) {source destination : Bytes} {replace : Bool}
    (h : replace = true → encodeKey source = encodeKey destination →
      ∀ T, metaType d (encodeKey source) = some T → T = .string ∨ T = .hyperloglog) :
    wp e (copyKey source destination replace) (fun _ d' => Filled d') d := by
  refine wp_mono (copyKey_effect source destination replace) fun _ d' heff => ?_
  rcases heff with rfl | ⟨T, hT, ⟨hrep, hfresh, hcase⟩ | ⟨hnone, -, hcopied, hcase⟩⟩
  · exact hd
  · have hx : copiedExpiry (d.dropKey (encodeKey destination)) (encodeKey source) T = none :=
      copiedExpiry_eq_none fun s c hc => (hd.dropKey (encodeKey source)).2 .kvStrings s c hc
    rw [hx] at hfresh
    obtain hfull | rfl | ⟨hcoll, hempty⟩ := hcase
    · exact hd.of_settled (PlacedAt.settled ⟨hfresh, hfull⟩)
    · exact hd.dropKey
    · exfalso
      by_cases hk : encodeKey source = encodeKey destination
      · have htype := h hrep hk T (by rw [← metaType_eq hd]; exact hT)
        exact htype.elim hcoll.1 hcoll.2
      · rw [Store.rows_dropKey_of_ne _ _ hk] at hempty
        exact (rows_of_liveType hd hT).1 hempty
  · have hx : copiedExpiry d (encodeKey source) T = none :=
      copiedExpiry_eq_none fun s c hc => (hd (encodeKey source)).2 .kvStrings s c hc
    have hne := hcase.resolve_right (rows_of_liveType hd hT).1
    rw [hx] at hcopied
    refine hd.of_frame hcopied.frame (.of_full ⟨⟨none, hcopied.info⟩, hne⟩) fun t s c hc => ?_
    by_cases hm : t = .kvMeta
    · subst hm
      have hinfo := hcopied.info
      rw [show (d'.rows .kvMeta (encodeKey destination)).row () = some c from hc,
        Option.some.injEq] at hinfo
      rw [hinfo]
    · by_cases ht : t = T.table
      · subst ht
        have hdata := hcopied.data
        split at hdata
        · exact hdata s c hc
        · rw [keyRows, hdata] at hc
          exact (hd _).2 _ s c hc
      · rw [keyRows, hcopied.other t hm ht] at hc
        exact (hd _).2 t s c hc

/-! ### Other writes -/

/-- A write that leaves an existing `kv_meta` row alone. -/
theorem filled_of_ensuredAt
    (hother : ∀ k', k' ≠ k → KeyFilled (keyRows d k') ∧ KeyLasting (keyRows d k'))
    (hlast : KeyLasting (keyRows d k))
    (hshown : ∀ m, (d.rows .kvMeta k).row () = some m → m.val ≠ T → d.rows m.val.table k ≠ ∅)
    (h : EnsuredAt d d' k T) (hne : d'.rows T.table k ≠ ∅) : Filled d' := by
  intro k'
  by_cases hk : k' = k
  · subst hk
    exact ⟨.of_ensured h.2 hne hshown, .of_ensured h.2 hlast⟩
  · have hrows : keyRows d' k' = keyRows d k' := funext fun t => h.1 t k' hk
    rw [hrows]
    exact hother k' hk

theorem Filled.rPopLPush (hd : Filled d) {source destination : Bytes}
    (h : encodeKey source = encodeKey destination ∨ size d .kvLists (encodeKey source) ≠ 1) :
    wp e (rPopLPush source destination) (fun _ d' => Filled d') d := by
  refine wp_mono (rPopLPush_effect source destination) fun _ d' heff => ?_
  rcases heff with rfl | ⟨hrot, hne, idx, hens⟩
  · exact hd
  have htrim := Trimmed.restrict (d := d) (t := .kvLists) (k := encodeKey source)
    fun i _ => !decide (i = idx)
  have hlast (k : Bytes) : KeyLasting (keyRows (d.setRows .kvLists (encodeKey source)
      ((d.rows .kvLists (encodeKey source)).restrict fun i _ => !decide (i = idx))) k) := by
    intro t s c hc
    obtain ⟨s₀, c₀, hc₀, he, -⟩ := htrim t k s c hc
    rw [← he, (hd k).2 t s₀ c₀ hc₀]
  refine filled_of_ensuredAt (fun k hk => ⟨?_, hlast k⟩) (hlast _) (fun m hm hval => ?_) hens hne
  · -- another source keeps a row
    by_cases hsrc : k = encodeKey source
    · subst hsrc
      have hsize := h.resolve_left fun heq => hk heq
      refine (hd.restrict (by decide) ?_ _).1
      have hpos : ¬ size d .kvLists (encodeKey source) ≤ 0 := fun hle => hrot.present (size_eq_zero hle)
      refine (survives_of_length [idx] ?_).imp_right ?_
      · rw [List.length_singleton]
        omega
      · rintro ⟨s, c, hc, hs⟩
        exact ⟨s, c, hc, by simpa using hs⟩
    · have hrows : keyRows (d.setRows .kvLists (encodeKey source) ((d.rows .kvLists
          (encodeKey source)).restrict fun i _ => !decide (i = idx))) k = keyRows d k :=
        funext fun t => Frame.setRows .kvLists _ t k hsrc
      rw [hrows]
      exact (hd k).1
  · have htable : m.val.table ≠ .kvLists := fun heq =>
      hval (KeyType.table_injective (heq.trans (rfl : Tab.kvLists = KeyType.list.table)))
    rw [Store.rows_setRows_of_ne_table _ htable]
    rw [Store.rows_setRows_of_ne_table _ (by decide)] at hm
    exact (hd _).1.shown m hm

theorem Filled.of_retimedAt {ts : List Tab} (hd : Filled d) (h : RetimedAt d d' k ts none) :
    Filled d' := by
  obtain ⟨hframe, hinfo, hdata⟩ := h
  have hcell (t : Tab) (s : t.Sub) : ((keyRows d' k t).row s) = (keyRows d k t).row s := by
    by_cases hm : t = .kvMeta
    · subst hm
      rw [hinfo]
      cases hrow : (keyRows d k .kvMeta).row () with
      | none => rfl
      | some m =>
          have hx := (hd k).2 .kvMeta () m hrow
          cases m
          cases hx
          rfl
    · rw [hdata t hm]
      split
      · rw [Table.update_row]
        cases hrow : (keyRows d k t).row s with
        | none => rfl
        | some c =>
            have hx := (hd k).2 t s c hrow
            cases c
            cases hx
            rfl
      · rfl
  have hsame : keyRows d' k = keyRows d k := funext fun t => Table.ext_row fun s => hcell t s
  exact hd.of_frame hframe (hsame ▸ (hd k).1) (hsame ▸ (hd k).2)

theorem Filled.lInsert (hd : Filled d) {key pivot element : Bytes} {before : Bool} :
    wp e (lInsert key pivot element before) (fun _ d' => Filled d') d := by
  refine wp_mono (lInsert_effect key pivot element before) fun _ d' heff => ?_
  rcases heff with rfl | ⟨-, hgrown, hne⟩
  · exact hd
  obtain ⟨m, hm⟩ := Option.isSome_iff_exists.mp ((hd _).1.typed .list hgrown.present)
  have hinfo : (keyRows d' (encodeKey key) .kvMeta).row () =
      some (((keyRows d (encodeKey key) .kvMeta).row ()).getD ⟨.list, none⟩) := by
    rw [hm]
    rw [keyRows, hgrown.info]
    exact hm
  exact filled_of_ensuredAt (fun k _ => hd k) (hd _).2 (fun m hm _ => (hd _).1.shown m hm)
    ⟨hgrown.frame, hgrown.written, hinfo⟩ hne

theorem Filled.zAdd [Float64 S] (hd : Filled d) {members : List (ZMember S)}
    {opts : ZAddOptions}
    (h : members ≠ [] ∨ opts.XX = true ∨ metaType d (encodeKey key) ≠ none) :
    wp e (zAdd key members opts) (fun _ d' => Filled d') d := by
  refine wp_mono (zAdd_effect key members opts) fun _ d' heff => ?_
  rcases heff with rfl | ⟨hxx, htype, hup, hne⟩
  · exact hd
  refine hd.of_storedAt ⟨hup, hne ?_⟩
  rcases htype with hnone | hzset
  · have hXX : opts.XX = false := Bool.eq_false_iff.mpr fun hXX => hxx ⟨hnone, hXX⟩
    rw [metaType_eq hd] at hnone
    refine Or.inr ⟨?_, hXX⟩
    rcases h with h | h | h
    · exact h
    · rw [hXX] at h
      cases h
    · exact absurd hnone h
  · exact Or.inl (rows_of_liveType hd hzset).1

theorem filled_emptyDB : Filled (emptyDB : DB S) := by
  intro k
  have hempty (t : Tab) : (emptyDB : DB S).rows t k = ∅ := rows_emptyDB t k
  exact ⟨.of_empty hempty, .of_empty hempty⟩

/-- The key has a data row. -/
def Populated (d : DB S) (key : Bytes) : Prop := ∃ T : KeyType, d.rows T.table (encodeKey key) ≠ ∅

theorem liveType_isSome_iff (hd : Filled d) (now : Time) :
    (liveType now d (encodeKey key)).isSome ↔ Populated d key := by
  constructor
  · intro h
    obtain ⟨T, hT⟩ := Option.isSome_iff_exists.mp h
    exact ⟨T, (rows_of_liveType hd hT).1⟩
  · rintro ⟨T, hT⟩
    rw [metaType_eq hd, metaType, Option.isSome_map]
    exact (hd _).1.typed T hT

/-! ### One command -/

theorem total_set (key value : Bytes) (t : ℤ) :
    total e (set key value t : Op S Unit) (fun _ _ => True) d := by
  unfold set
  simp only [total_bind, total_ite, total_clock, pure_eq, total_ret]
  exact ⟨fun _ => trivial, fun _ => trivial⟩

theorem length_toList_unit {V : Type} (u : Table Unit V) :
    u.toList.length = if (u.row ()).isSome then 1 else 0 := by
  rw [Table.length_toList]
  cases hrow : u.row () with
  | none =>
      rw [Table.dom_eq_empty_iff.mpr (Table.eq_empty_iff.mpr fun _ => hrow)]
      rfl
  | some v =>
      have hdom : u.dom = {()} := by
        ext x
        simp [Table.mem_dom, hrow]
      rw [hdom]
      rfl

variable [Float64 S]

theorem exec_hDel (key : Bytes) (fields : List Bytes) :
    ((Cmd.hDel key fields : Cmd S).exec e d).2 = d.setRows .kvHashes (encodeKey key)
      ((d.rows .kvHashes (encodeKey key)).restrict fun f _ =>
        !decide (f ∈ fields.map encodeField)) := rfl

theorem exec_sRem (key : Bytes) (members : List Bytes) :
    ((Cmd.sRem key members : Cmd S).exec e d).2 = d.setRows .kvSets (encodeKey key)
      ((d.rows .kvSets (encodeKey key)).restrict fun m _ => !decide (m ∈ members)) := rfl

theorem exec_zRem (key : Bytes) (members : List Bytes) :
    ((Cmd.zRem key members : Cmd S).exec e d).2 = d.setRows .kvZsets (encodeKey key)
      ((d.rows .kvZsets (encodeKey key)).restrict fun m _ => !decide (m ∈ members)) := rfl

theorem exec_zRemRangeByScore (key : Bytes) (min max : S) :
    ((Cmd.zRemRangeByScore key min max).exec e d).2 = d.setRows .kvZsets (encodeKey key)
      ((d.rows .kvZsets (encodeKey key)).restrict fun _ r => !scoreBetween min max r.val) := rfl

theorem exec_flushDB (t : Tab) : ((Cmd.flushDB : Cmd S).exec e d).2.rows t k = ∅ := by
  cases t <;> rfl

/-- A command that writes nothing. -/
theorem Filled.exec_read (hd : Filled d) {c : Cmd S} (h : c.writes = fun _ _ => False) :
    Filled (c.exec e d).2 := by
  have hwrites := Cmd.exec_within (e := e) (d := d) Store.AgreeOff.refl Store.AgreeOff.trans
    c.op_writes
  exact hd.of_rows fun t k => hwrites t k fun hW => by rwa [h] at hW

/-- **One command without expiry** keeps the invariant if it meets the condition. -/
theorem Filled.exec (hd : Filled d) {c : Cmd S} (hlasting : c.lasting) (h : c.KeepsRow d) :
    Filled (c.exec e d).2 := by
  cases c
  case set key value t =>
    refine Cmd.exec_op hd (set_effect key value t) ?_
    rintro _ _ ⟨x, hplaced, hx⟩
    rw [hx hlasting] at hplaced
    exact hd.of_settled hplaced.settled
  case setNX key value t =>
    refine Cmd.exec_op hd (setNX_effect key value t) ?_
    rintro _ _ (rfl | ⟨x, hplaced, hx⟩)
    · exact hd
    · rw [hx hlasting] at hplaced
      exact hd.of_settled hplaced.settled
  case mSet pairs =>
    exact Cmd.exec_op hd (mSet_effect pairs) fun _ _ h => hd.of_settled h
  case bitOp op key ks =>
    exact Cmd.exec_op hd (bitOp_effect op key ks) fun _ _ h => hd.of_settled h
  case sInterStore key ks =>
    exact Cmd.exec_op hd (sInterStore_effect key ks) fun _ _ h => hd.of_settled h
  case sUnionStore key ks =>
    exact Cmd.exec_op hd (sUnionStore_effect key ks) fun _ _ h => hd.of_settled h
  case sDiffStore key ks =>
    exact Cmd.exec_op hd (sDiffStore_effect key ks) fun _ _ h => hd.of_settled h
  case zRangeStore dst src spec =>
    exact Cmd.exec_op hd (zRangeStore_effect dst src spec) fun _ _ h => hd.of_settled h
  case zUnionStore key ks ws a =>
    exact Cmd.exec_op hd (zUnionStore_effect key ks ws a) fun _ _ h => hd.of_settled h
  case zInterStore key ks ws a =>
    exact Cmd.exec_op hd (zInterStore_effect key ks ws a) fun _ _ h => hd.of_settled h
  case incr key n =>
    exact Cmd.exec_op hd (incr_effect key n) fun _ _ h => hd.of_storedAt h
  case append key v =>
    exact Cmd.exec_op hd (appendStr_effect key v) fun _ _ h => hd.of_storedAt h
  case setRange key o v =>
    exact Cmd.exec_op hd (setRange_effect key o v) fun _ _ h => hd.of_storedAt h
  case setBit key o v =>
    exact Cmd.exec_op hd (setBit_effect key o v) fun _ _ h => hd.of_storedAt h
  case getSet key v =>
    exact Cmd.exec_op hd (getSet_effect key v) fun _ _ h => hd.of_storedAt h.1
  case incrByFloat key x =>
    exact Cmd.exec_op hd (incrByFloat_effect key x) fun _ _ h => hd.of_storedAt h.2
  case hIncrBy key f n =>
    exact Cmd.exec_op hd (hIncrBy_effect key f n) fun _ _ h => hd.of_storedAt h.2
  case hIncrByFloat key f x =>
    exact Cmd.exec_op hd (hIncrByFloat_effect key f x) fun _ _ h => hd.of_storedAt h.2
  case hSetNX key f v =>
    exact Cmd.exec_op hd (hSetNX_effect key f v) fun _ _ h => hd.of_storedAt h.2
  case pfAdd key es =>
    exact Cmd.exec_op hd (pfAdd_effect key es) fun _ _ h => hd.of_storedAt h.2
  case pfMerge key ks =>
    exact Cmd.exec_op hd (pfMerge_effect key ks) fun _ _ h => hd.of_storedAt h.2
  case hSet key fs =>
    exact Cmd.exec_op hd (hSet_effect key fs) fun _ _ h => hd.of_stored_or (h.imp_right fun h => h.2.2)
  case lPush key vs =>
    exact Cmd.exec_op hd (push_effect key vs _ _ _) fun _ _ h => hd.of_stored_or (h.imp_right fun h => h.2.2)
  case rPush key vs =>
    exact Cmd.exec_op hd (push_effect key vs _ _ _) fun _ _ h => hd.of_stored_or (h.imp_right fun h => h.2.2)
  case sAdd key ms =>
    exact Cmd.exec_op hd (sAdd_effect key ms) fun _ _ h => hd.of_stored_or (h.imp_right fun h => h.2.2)
  case bitField key ops =>
    refine Cmd.exec_op hd (bitField_effect key ops) ?_
    rintro _ _ (⟨htrim, hsame⟩ | ⟨-, -, h⟩)
    · exact hd.of_trimmed htrim hsame
    · exact hd.of_storedAt h
  case zAdd key ms opts => exact Cmd.exec_op hd (hd.zAdd h) fun _ _ h => h
  case zIncrBy key x m =>
    refine Cmd.exec_op hd (zIncrBy_effect key x m) fun _ _ heff => ?_
    exact filled_of_ensuredAt (fun k _ => hd k) (hd _).2 (fun m hm _ => (hd _).1.shown m hm)
      heff.1 heff.2.1
  case getEx key t p =>
    refine Cmd.exec_op hd (getEx_effect key t p) ?_
    rintro _ _ (rfl | ⟨-, -, x, hre, hx⟩)
    · exact hd
    · rw [hx hlasting] at hre
      exact hd.of_retimedAt hre
  case persist key =>
    refine Cmd.exec_op hd (persist_effect key) ?_
    rintro _ _ (rfl | ⟨-, hre⟩)
    · exact hd
    · exact hd.of_retimedAt hre
  case expire => cases hlasting
  case expireAt => cases hlasting
  case getDel key => exact Cmd.exec_op hd (hd.getDel h) fun _ _ h => h
  case del ks => exact Cmd.exec_op hd (hd.del ks) fun _ _ h => h
  case rename => exact Cmd.exec_op hd (hd.rename h) fun _ _ h => h
  case copy => exact Cmd.exec_op hd (hd.copyKey h) fun _ _ h => h
  case flushDB =>
    exact fun k => ⟨.of_empty fun t => exec_flushDB t, .of_empty fun t => exec_flushDB t⟩
  case lPop => exact Cmd.exec_op hd (hd.lPop h) fun _ _ h => h
  case rPop => exact Cmd.exec_op hd (hd.rPop h) fun _ _ h => h
  case lPopMulti | rPopMulti h => exact Cmd.exec_op hd (hd.popMulti h) fun _ _ h => h
  case lMPop | rMPop h => exact Cmd.exec_op hd (hd.popMultiN h) fun _ _ h => h
  case lTrim => exact Cmd.exec_op hd (hd.lTrim h) fun _ _ h => h
  case lSet => exact Cmd.exec_op hd hd.lSet fun _ _ h => h
  case lInsert => exact Cmd.exec_op hd hd.lInsert fun _ _ h => h
  case rPopLPush => exact Cmd.exec_op hd (hd.rPopLPush h) fun _ _ h => h
  case lRem => exact hd.lRem h
  case zRemRangeByRank => exact Cmd.exec_op hd (hd.zRemRangeByRank h) fun _ _ h => h
  case zPopMin | zPopMax h => exact Cmd.exec_op hd (hd.zPop h) fun _ _ h => h
  case zMPopMin | zMPopMax h => exact Cmd.exec_op hd (hd.zMPop h) fun _ _ h => h
  case hDel key fs =>
    rw [exec_hDel]
    exact hd.restrict (by decide) (h.mono fun _ _ hf => by simpa using hf)
  case sRem key ms =>
    rw [exec_sRem]
    exact hd.restrict (by decide) (h.mono fun _ _ hf => by simpa using hf)
  case zRem key ms =>
    rw [exec_zRem]
    exact hd.restrict (by decide) (h.mono fun _ _ hf => by simpa using hf)
  case zRemRangeByScore key a b =>
    rw [exec_zRemRangeByScore]
    exact hd.restrict (by decide) (h.mono fun _ _ hf => by simpa using hf)
  all_goals exact hd.exec_read rfl

/-- No expiry is given, and the command meets the condition. -/
def PresenceSafe (_now : Time) (_e : Env) (c : Cmd S) (d : DB S) : Prop := c.lasting ∧ c.KeepsRow d

theorem filled_of_reached (h : Reached PresenceSafe now d) : Filled d := by
  induction h with
  | start now => exact filled_emptyDB
  | step e c _ hc ih => exact ih.exec hc.1 hc.2

/-! ### What the commands report -/

theorem exec_setNX (key value : Bytes) (t : ℤ) :
    ((Cmd.setNX key value t).exec e d).1 =
      .ok (.bool !(liveType e.now d (encodeKey key)).isSome) := by
  have h : total e (Cmd.setNX key value t).op
      (fun r _ => r = .bool !(liveType e.now d (encodeKey key)).isSome) d := by
    refine (total_map _ _).mpr ?_
    unfold setNX
    simp only [total_bind]
    change total e (if (liveType e.now d (encodeKey key)).isSome = true then pure false else _) _ _
    simp only [total_bind, total_ite, pure_eq, total_ret]
    refine ⟨fun hsome => by rw [hsome]; rfl, fun hnone => ?_⟩
    refine total_mono (total_set key value t) fun _ _ _ => ?_
    rw [Bool.eq_false_iff.mpr hnone]
    rfl
  obtain ⟨r, hr, rfl⟩ := Cmd.exec_total h
  exact hr

theorem exec_keyType (key : Bytes) :
    ((Cmd.keyType key).exec e d).1 = .ok (.type (liveType e.now d (encodeKey key))) := rfl

theorem exec_existsKeys (key : Bytes) :
    ((Cmd.existsKeys [key]).exec e d).1 =
      .ok (.int (if (liveType e.now d (encodeKey key)).isSome then 1 else 0)) := by
  have h : total e (Cmd.existsKeys [key]).op
      (fun r _ => r = .int (if (liveType e.now d (encodeKey key)).isSome then 1 else 0)) d := by
    refine (total_map _ _).mpr ?_
    unfold existsKeys
    rw [total_bind]
    show Reply.int _ = _
    rw [(Table.shuffle_perm _ _).length_eq]
    simp only [encodeKeys, List.map_cons, List.map_nil, List.dedup_cons_of_notMem List.not_mem_nil,
      List.dedup_nil, List.flatMap_cons, List.flatMap_nil, List.append_nil, List.length_map,
      List.mem_singleton, if_true]
    refine congrArg Reply.int ((congrArg Nat.cast (length_toList_unit _)).trans ?_)
    rw [Nat.cast_ite, Nat.cast_one, Nat.cast_zero]
    rfl
  obtain ⟨r, hr, rfl⟩ := Cmd.exec_total h
  exact hr

/-- `EXISTS`, `TYPE` and `SETNX` take a key as present exactly when it has a data row, and the type
that `TYPE` names is one that the key has rows of. -/
structure Presence (d : DB S) (key : Bytes) : Prop where
  existsKeys : ∀ e, ((Cmd.existsKeys [key]).exec e d).1 = .ok (.int 1) ↔ Populated d key
  keyType : ∀ e, ((Cmd.keyType key).exec e d).1 = .ok (.type none) ↔ ¬ Populated d key
  typed : ∀ e T, ((Cmd.keyType key).exec e d).1 = .ok (.type (some T)) →
    d.rows T.table (encodeKey key) ≠ ∅
  setNX : ∀ e value t, ((Cmd.setNX key value t).exec e d).1 = .ok (.bool true) ↔ ¬ Populated d key

/-- **Presence**, in every state reached without expiry by commands that never leave a `kv_meta` row
without data rows: it is decided alike by the commands that ask for a key and by its rows. -/
theorem presence_of_reached (h : Reached PresenceSafe now d) (key : Bytes) : Presence d key := by
  have hd := filled_of_reached h
  constructor
  · intro e
    rw [exec_existsKeys, ← liveType_isSome_iff hd e.now]
    cases (liveType e.now d (encodeKey key)).isSome <;> simp
  · intro e
    rw [exec_keyType, ← liveType_isSome_iff hd e.now]
    simp
  · intro e T hT
    rw [exec_keyType, Except.ok.injEq, Reply.type.injEq] at hT
    exact (rows_of_liveType hd hT).1
  · intro e value t
    rw [exec_setNX, ← liveType_isSome_iff hd e.now]
    cases (liveType e.now d (encodeKey key)).isSome <;> simp

/-- `HSET k f v g v`. -/
def twoFields : DB ℤ :=
  ((Cmd.hSet [107] ((Table.single [102] [118]).put [103] [118])).exec (envAt 0) emptyDB).2

/-- The condition at work: `HDEL k f` leaves the hash with one field. -/
theorem presence_of_reached_hDel :
    Presence ((Cmd.hDel [107] [[102]]).exec (envAt 0) twoFields).2 [107] := by
  have hstart : Reached PresenceSafe 0 twoFields :=
    .step (envAt 0) _ (.start 0) ⟨trivial, trivial⟩
  have hleft : (twoFields.rows .kvHashes [107]).row [103] = some ⟨[118], none⟩ := by decide
  exact presence_of_reached (.step (envAt 0) (.hDel [107] [[102]]) hstart
    ⟨trivial, Or.inr ⟨[103], ⟨[118], none⟩, hleft, by decide⟩⟩) [107]

/-! ### A hash without fields -/

/-- `HSET k f v`, then `HDEL k f`. -/
def emptiedHash : DB ℤ :=
  ((Cmd.hDel [107] [[102]]).exec (envAt 0)
    ((Cmd.hSet [107] (Table.single [102] [118])).exec (envAt 0) emptyDB).2).2

/-- A hash that has lost its last field still exists, has a type and is no free name for `SETNX`. -/
theorem presence_fails : Reached (fun _ _ c _ => c.lasting) 0 emptiedHash ∧
    (∀ T : KeyType, emptiedHash.rows T.table [107] = ∅) ∧ ¬ Presence emptiedHash [107] := by
  have hrows (T : KeyType) : emptiedHash.rows T.table [107] = ∅ := by
    cases T <;> decide
  refine ⟨.step (envAt 0) _ (.step (envAt 0) _ (.start 0) trivial) trivial, hrows, fun h => ?_⟩
  have hone : ((Cmd.existsKeys [[107]]).exec (envAt 0) emptiedHash).1 = .ok (.int 1) := by
    rw [exec_existsKeys]
    rfl
  obtain ⟨T, hT⟩ := (h.existsKeys (envAt 0)).mp hone
  exact hT (hrows T)

end Postkeys
