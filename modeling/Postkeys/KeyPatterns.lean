import Postkeys.ScanCursors

/-! # The keys a pattern lists

`KEYS` and a full `SCAN` should list the keys in the language of the pattern.  They do not where the pattern has
a byte with a meaning in `LIKE` (`%`, `_`, `\`), and not where a key is more than ASCII: `?` then stands
for a character and not for a byte, and a key that is no text is compared in its base64 form.

`key_patterns_iff`: the listing is right exactly if the translated pattern selects the stored forms of the
right keys; it is right for all patterns of ordinary bytes exactly if all keys are ordinary, and a
pattern is right on all ordinary keys exactly if it has none of the three bytes, or one that no
such key has. -/

namespace Postkeys

open Glob Relational Program

/-! ### OrdinaryKey keys -/

variable {p q s x : Bytes} {b : UInt8}

theorem base64Value_ascii (h : (base64Value b).isSome = true) : b ≠ 0 ∧ b < 0x80 := by
  have hrange {lo hi : UInt8} (hb : lo ≤ b ∧ b ≤ hi) (hlo : 0 < lo) (hhi : hi < 0x80) : b ≠ 0 ∧ b < 0x80 := by
    refine ⟨?_, UInt8.lt_of_le_of_lt hb.2 hhi⟩
    rintro rfl
    exact absurd (UInt8.lt_of_lt_of_le hlo hb.1) (by decide)
  unfold base64Value at h
  split_ifs at h with h₁ h₂ h₃ h₄ h₅
  · exact hrange h₁ (by decide) (by decide)
  · exact hrange h₂ (by decide) (by decide)
  · exact hrange h₃ (by decide) (by decide)
  · subst h₄; decide
  · subst h₅; decide
  · cases h

/-- The bytes of a key that looks encoded. -/
theorem chars_of_looksEncoded (h : looksEncoded x = true) (hb : b ∈ x) :
    b ∈ binaryPrefix ∨ (base64Value b).isSome = true ∨ b = 61 ∨ b = 10 ∨ b = 13 := by
  simp only [looksEncoded, Bool.and_eq_true] at h
  obtain ⟨⟨-, hmark⟩, hdecode⟩ := h
  obtain ⟨v, rfl⟩ := List.isPrefixOf_iff_prefix.mp hmark
  rw [List.drop_left] at hdecode
  obtain ⟨w, hw⟩ := Option.isSome_iff_exists.mp hdecode
  exact (List.mem_append.mp hb).imp_right (base64Decode_chars hw)

theorem ascii_of_looksEncoded (h : looksEncoded x = true) : Ascii x := by
  have hprefix : ∀ b ∈ binaryPrefix, b ≠ 0 ∧ b < 0x80 := by
    intro b hb
    simp only [binaryPrefix, List.mem_cons, List.not_mem_nil, or_false] at hb
    rcases hb with rfl | rfl | rfl | rfl | rfl <;> decide
  intro b hb
  rcases chars_of_looksEncoded h hb with hmark | hvalue | rfl | rfl | rfl
  · exact hprefix b hmark
  · exact base64Value_ascii hvalue
  · decide
  · decide
  · decide

/-- Neither `!` nor `\` occurs in a key that looks encoded. -/
theorem not_looksEncoded (hb : b ∈ x) (h : b = 33 ∨ b = 92) : looksEncoded x = false := by
  rw [Bool.eq_false_iff]
  intro hlooks
  have hchars := chars_of_looksEncoded hlooks hb
  rcases h with rfl | rfl
  · revert hchars
    decide
  · revert hchars
    decide

/-- A key of ASCII characters that does not look encoded. -/
def OrdinaryKey (k : Bytes) : Prop := Ascii k ∧ looksEncoded k = false

theorem OrdinaryKey.encodeKey (h : OrdinaryKey x) : encodeKey x = x := encodeKey_of_plain h.1.plainKey

/-- A stored key that looks encoded is read back as a shorter one. -/
theorem length_decodeKey (h : looksEncoded x = true) : (decodeKey x).length < x.length := by
  simp only [looksEncoded, Bool.and_eq_true] at h
  obtain ⟨⟨-, hmark⟩, hdecode⟩ := h
  obtain ⟨v, rfl⟩ := List.isPrefixOf_iff_prefix.mp hmark
  rw [List.drop_left] at hdecode
  obtain ⟨w, hw⟩ := Option.isSome_iff_exists.mp hdecode
  have hlen := length_base64Decode hw
  rw [decodeKey_marked, hw, Option.getD_some, List.length_append, binaryPrefix]
  simp only [List.length_cons, List.length_nil]
  omega

/-! ### Patterns that are misjudged -/

/-- A text in the language: every wildcard stands for `!`. -/
def globSample (p : Bytes) : Bytes := p.map fun b => if b = 42 ∨ b = 63 then 33 else b

theorem inLanguage_globSample (p : Bytes) : InLanguage p (globSample p) := by
  induction p with
  | nil => exact .nil
  | cons b p ih =>
      rw [InLanguage, globTokens_cons, globSample, List.map_cons]
      by_cases h42 : b = 42
      · rw [globToken_star.mpr h42]
        exact .more (.skip ih)
      · refine .take ((globToken_takes h42).mpr ?_) ih
        by_cases h63 : b = 63
        · exact Or.inl h63
        · rw [if_neg (not_or.mpr ⟨h42, h63⟩)]
          exact Or.inr rfl

theorem ascii_globSample (h : Ascii p) : Ascii (globSample p) := by
  intro b hb
  obtain ⟨c, hc, rfl⟩ := List.mem_map.mp hb
  split_ifs
  · decide
  · exact h c hc

theorem count_globSample (p : Bytes) : (globSample p).count 92 = p.count 92 := by
  induction p with
  | nil => rfl
  | cons b p ih =>
      rw [globSample, List.map_cons, List.count_cons, List.count_cons, ← globSample, ih]
      congr 1
      by_cases h : b = 42 ∨ b = 63
      · rw [if_pos h]
        rcases h with rfl | rfl <;> rfl
      · rw [if_neg h]

theorem ascii_likeSample {items : List LikeItem} (hq : Ascii q) (h : likeItems q = some items) :
    Ascii (likeSample items) := by
  intro b hb
  obtain ⟨i, hi, rfl⟩ := List.mem_map.mp hb
  cases i with
  | any => decide
  | one => decide
  | byte c => exact hq c (mem_of_likeItems h hi)

/-- Literal elements accept one text. -/
theorem eq_likeSample {items : List LikeItem} (hbang : 33 ∉ likeSample items) (h : Matches (items.map itemToken) s) :
    s = likeSample items := by
  induction items generalizing s with
  | nil => exact matches_nil.mp h
  | cons i items ih =>
      cases i with
      | any => exact absurd List.mem_cons_self hbang
      | one => exact absurd List.mem_cons_self hbang
      | byte c =>
          rw [List.map_cons] at h
          cases s with
          | nil => exact absurd h (not_matches_cons_nil (by simp [itemToken]))
          | cons a s =>
              obtain ⟨hac, hrest⟩ := (matches_cons (by simp [itemToken])).mp h
              have hc : a = c := hac
              rw [hc, ih (fun h' => hbang (List.mem_cons_of_mem _ h')) hrest]
              rfl

/-- **A pattern with `%`, `_` or `\` misjudges an ordinary key.** -/
theorem exists_misjudged (hp : Ascii p) (hu : ¬ Unescaped p) :
    ∃ k, OrdinaryKey k ∧ ¬ (likes p k = true ↔ InLanguage p k) := by
  have hsent := ascii_sentPattern hp
  have hlikes {items : List LikeItem} (hitems : likeItems (sentPattern p) = some items) {k : Bytes} (hk : Ascii k) :
      likes p k = true ↔ Matches (items.map itemToken) k := by
    rw [likes, hsent.plainKey, hitems, Bool.true_and, Option.elim_some, likeMatch_iff hk]
  by_cases h92 : 92 ∈ p
  · -- a text of the language, with as many `\` as the pattern
    have hcount := count_globSample p
    have hmem : 92 ∈ globSample p := by
      rw [← List.count_pos_iff, hcount]
      exact List.count_pos_iff.mpr h92
    have hsample : OrdinaryKey (globSample p) := ⟨ascii_globSample hp, not_looksEncoded hmem (Or.inr rfl)⟩
    cases hitems : likeItems (sentPattern p) with
    | none =>
        refine ⟨globSample p, hsample, fun h => ?_⟩
        have hno := h.mpr (inLanguage_globSample p)
        rw [likes, hitems, Option.elim_none, Bool.and_false] at hno
        cases hno
    | some items =>
        have hless : (likeSample items).count 92 < p.count 92 := by
          have hsentless := (count_likeSample hitems).2 ((mem_sentPattern (by decide)).mpr h92)
          rwa [count_sentPattern] at hsentless
        have hascii := ascii_likeSample hsent hitems
        cases hlooks : looksEncoded (likeSample items) with
        | false =>
            refine ⟨likeSample items, ⟨hascii, hlooks⟩, fun h => ?_⟩
            have hin := h.mp ((hlikes hitems hascii).mpr (matches_likeSample items))
            have hle := count_le_of_inLanguage hin (b := 92) (by decide)
            omega
        | true =>
            -- then there is no wildcard, and `LIKE` accepts nothing else
            have hbang : 33 ∉ likeSample items := by
              intro hmem
              rw [not_looksEncoded hmem (Or.inl rfl)] at hlooks
              cases hlooks
            refine ⟨globSample p, hsample, fun h => ?_⟩
            have hm := (hlikes hitems hsample.1).mp (h.mpr (inLanguage_globSample p))
            rw [← eq_likeSample hbang hm, hcount] at hless
            exact lt_irrefl _ hless
  · obtain ⟨c, hc, hc'⟩ : ∃ c ∈ p, c = 37 ∨ c = 95 := by
      by_contra hnone
      refine hu fun b hb => ⟨fun h => hnone ⟨b, hb, Or.inl h⟩, fun h => hnone ⟨b, hb, Or.inr h⟩, ?_⟩
      rintro rfl
      exact h92 hb
    have hitems := likeItems_unescaped (q := sentPattern p) fun h => h92 ((mem_sentPattern (by decide)).mp h)
    have hascii := ascii_likeSample hsent hitems
    have hsampleOf (b : UInt8) : (∃ a ∈ sentPattern p, likeByte (likeItem a) = b) ↔
        b ∈ likeSample ((sentPattern p).map likeItem) := by
      rw [likeSample, List.map_map, List.mem_map]
      rfl
    have hbang : 33 ∈ likeSample ((sentPattern p).map likeItem) := by
      refine (hsampleOf 33).mp ⟨c, ?_, ?_⟩
      · rw [sentPattern, replaceByte, replaceByte, List.map_map, List.mem_map]
        refine ⟨c, hc, ?_⟩
        rcases hc' with rfl | rfl <;> rfl
      · rcases hc' with rfl | rfl <;> rfl
    have hgone : c ∉ likeSample ((sentPattern p).map likeItem) := by
      intro h
      obtain ⟨a, -, ha⟩ := (hsampleOf c).mpr h
      unfold likeItem at ha
      split_ifs at ha with h37 h95 <;> dsimp only [likeByte] at ha
      · rcases hc' with rfl | rfl <;> exact absurd ha (by decide)
      · rcases hc' with rfl | rfl <;> exact absurd ha (by decide)
      · rcases hc' with rfl | rfl
        · exact h37 ha
        · exact h95 ha
    refine ⟨_, ⟨hascii, not_looksEncoded hbang (Or.inl rfl)⟩, fun h => hgone ?_⟩
    have hin := h.mp ((hlikes hitems hascii).mpr (matches_likeSample _))
    refine mem_of_inLanguage hin ?_ hc
    rcases hc' with rfl | rfl <;> decide

/-- A byte that no ordinary key has keeps them all out. -/
theorem likes_iff_of_not_ascii (hp : ¬ Ascii p) (hs : Ascii s) : likes p s = true ↔ InLanguage p s := by
  obtain ⟨b, hb, hb'⟩ : ∃ b ∈ p, ¬ (b ≠ 0 ∧ b < 0x80) := by
    by_contra hnone
    exact hp fun b hb => by
      by_contra h
      exact hnone ⟨b, hb, h⟩
  have hne {c : UInt8} (hc : c ≠ 0 ∧ c < 0x80) : b ≠ c := by
    rintro rfl
    exact hb' hc
  have habsent : b ∉ s := fun h => hb' (hs b h)
  refine iff_of_false (fun h => ?_) fun h => habsent (mem_of_inLanguage h ⟨hne (by decide), hne (by decide)⟩ hb)
  rw [likes, Bool.and_eq_true] at h
  cases hitems : likeItems (sentPattern p) with
  | none =>
      rw [hitems] at h
      cases h.2
  | some items =>
      rw [hitems] at h
      have hmem : b ∈ sentPattern p :=
        (mem_sentPattern ⟨hne (by decide), hne (by decide), hne (by decide), hne (by decide)⟩).mpr hb
      have hitem := byte_mem_of_likeItems hitems hmem ⟨hne (by decide), hne (by decide), hne (by decide)⟩
      exact habsent (mem_of_likeMatch hs h.2 hitem)

/-! ### Keyspaces -/

section keyspace
variable {S : Type} [GoFloat S] {e : Env} {d : DB S} {K : Set Bytes} {ks ks' : List Bytes} {k : Bytes}

/-- The live keys are those of `K`, in their stored form. -/
def Holds (now : Time) (d : DB S) (K : Set Bytes) : Prop :=
  ∀ x, (liveType now d x).isSome = true ↔ ∃ k ∈ K, encodeKey k = x

/-- The list has each key in the language once. -/
structure Lists (K : Set Bytes) (p : Bytes) (ks : List Bytes) : Prop where
  nodup : ks.Nodup
  mem : ∀ k, k ∈ ks ↔ k ∈ K ∧ InLanguage p k

/-- `KEYS` answers the keys in the language. -/
def KeysRight (e : Env) (d : DB S) (K : Set Bytes) (p : Bytes) : Prop :=
  ∃ ks, (Cmd.keys p : Cmd S).exec e d = (.ok (.values ks), d) ∧ Lists K p ks

theorem Lists.perm (h : Lists K p ks) (hperm : ks.Perm ks') : Lists K p ks' :=
  ⟨hperm.nodup_iff.mp h.nodup, fun k => hperm.mem_iff.symm.trans (h.mem k)⟩

theorem keysRight_iff : KeysRight e d K p ↔ Lists K p (listed e d p) := by
  obtain ⟨ks, hks, hperm⟩ := exec_keys (e := e) (d := d) p
  constructor
  · rintro ⟨ks', hks', hlists⟩
    obtain rfl : ks = ks' := by
      rw [hks] at hks'
      exact Reply.values.inj (Except.ok.inj (Prod.mk.inj hks').1)
    exact hlists.perm hperm
  · exact fun h => ⟨ks, hks, h.perm hperm.symm⟩

omit [GoFloat S] in
theorem mem_listed (hK : Holds e.now d K) :
    k ∈ listed e d p ↔ ∃ k' ∈ K, likes p (encodeKey k') = true ∧ decodeKey (encodeKey k') = k := by
  rw [listed, List.mem_map]
  constructor
  · rintro ⟨x, hx, rfl⟩
    obtain ⟨hlive, hlikes⟩ := List.mem_filter.mp hx
    obtain ⟨k', hk', rfl⟩ := (hK x).mp (mem_liveKeys.mp hlive)
    exact ⟨k', hk', hlikes, rfl⟩
  · rintro ⟨k', hk', hlikes, rfl⟩
    exact ⟨encodeKey k', List.mem_filter.mpr ⟨mem_liveKeys.mpr ((hK _).mpr ⟨k', hk', rfl⟩), hlikes⟩, rfl⟩

/-- **Key by key**, where all keys are read back as they were. -/
theorem keysRight_iff_of_readBack (hK : Holds e.now d K) (hback : ∀ k ∈ K, looksEncoded k = false) :
    KeysRight e d K p ↔ ∀ k ∈ K, (likes p (encodeKey k) = true ↔ InLanguage p k) := by
  have hdecode (k : Bytes) (hk : k ∈ K) : decodeKey (encodeKey k) = k := (decodeKey_encodeKey_iff k).mpr (hback k hk)
  have hmem (k : Bytes) : k ∈ listed e d p ↔ k ∈ K ∧ likes p (encodeKey k) = true := by
    rw [mem_listed hK]
    constructor
    · rintro ⟨k', hk', hlikes, rfl⟩
      rw [hdecode k' hk']
      exact ⟨hk', hlikes⟩
    · exact fun h => ⟨k, h.1, h.2, hdecode k h.1⟩
  have hnodup : (listed e d p).Nodup := by
    refine (nodup_liveKeys.filter _).map_on fun x hx y hy hxy => ?_
    obtain ⟨k₁, hk₁, rfl⟩ := (hK x).mp (mem_liveKeys.mp (List.mem_filter.mp hx).1)
    obtain ⟨k₂, hk₂, rfl⟩ := (hK y).mp (mem_liveKeys.mp (List.mem_filter.mp hy).1)
    rw [hdecode k₁ hk₁, hdecode k₂ hk₂] at hxy
    rw [hxy]
  rw [keysRight_iff]
  constructor
  · intro h k hk
    have hin := h.mem k
    rw [hmem, and_iff_right hk, and_iff_right hk] at hin
    exact hin
  · refine fun h => ⟨hnodup, fun k => ?_⟩
    rw [hmem]
    exact and_congr_right fun hk => h k hk

theorem likes_ones (n : ℕ) (x : Bytes) : likes (List.replicate n 63) x = likeMatch (List.replicate n .one) x := by
  have hsent : sentPattern (List.replicate n 63) = List.replicate n 95 := by
    rw [sentPattern, replaceByte, replaceByte, List.map_map, List.map_replicate]
    rfl
  have hascii : Ascii (List.replicate n 95) := fun b hb => by
    rw [List.eq_of_mem_replicate hb]
    decide
  have hitems : likeItems (List.replicate n 95) = some (List.replicate n .one) := by
    rw [likeItems_unescaped fun h => absurd (List.eq_of_mem_replicate h) (by decide), List.map_replicate]
    rfl
  rw [likes, hsent, hascii.plainKey, hitems, Bool.true_and, Option.elim_some]

/-- **Keyspaces**: the plain patterns are all right exactly if all keys are ordinary. -/
theorem keysRight_plain_iff (hK : Holds e.now d K) :
    (∀ q, Ascii q → Unescaped q → KeysRight e d K q) ↔ ∀ k ∈ K, OrdinaryKey k := by
  constructor
  · intro h k hk
    -- the pattern of as many `?` as the key has bytes
    have hright := h (List.replicate k.length 63) (fun b hb => by rw [List.eq_of_mem_replicate hb]; decide)
      (fun b hb => by rw [List.eq_of_mem_replicate hb]; decide)
    have hlisted := ((keysRight_iff.mp hright).mem k).mpr ⟨hk, inLanguage_replicate k⟩
    obtain ⟨k', -, hlikes, hdecode⟩ := (mem_listed hK).mp hlisted
    rw [likes_ones] at hlikes
    have hplain := plainKey_encodeKey k'
    generalize encodeKey k' = x at hlikes hdecode hplain
    cases hlooks : looksEncoded x with
    | true =>
        have hshort := length_decodeKey hlooks
        have hlen := length_of_ones_ascii (ascii_of_looksEncoded hlooks) hlikes
        rw [hdecode] at hshort
        omega
    | false =>
        have hself : decodeKey x = x := by
          have := (decodeKey_encodeKey_iff x).mpr hlooks
          rwa [encodeKey_of_plain hplain] at this
        obtain rfl : k = x := hdecode.symm.trans hself
        exact ⟨ascii_of_ones hplain hlikes, hlooks⟩
  · intro h q hq hu
    refine (keysRight_iff_of_readBack hK fun k hk => (h k hk).2).mpr fun k hk => ?_
    rw [(h k hk).encodeKey]
    exact likes_iff_of_unescaped hq hu (h k hk).1

/-- A keyspace with one key. -/
def singleKey (S : Type) (k : Bytes) : DB S :=
  (emptyDB : DB S).setRows .kvMeta (encodeKey k) (Table.single () ⟨.string, none⟩)

omit [GoFloat S] in
theorem holds_singleKey (now : Time) (k : Bytes) : Holds now (singleKey S k) {k} := by
  intro x
  simp only [Set.mem_singleton_iff, exists_eq_left]
  by_cases hx : x = encodeKey k
  · subst hx
    rw [liveType, singleKey, Store.rows_setRows_self]
    exact iff_of_true rfl rfl
  · rw [liveType, singleKey, Store.rows_setRows_of_ne_key _ _ _ hx]
    exact iff_of_false Bool.false_ne_true (Ne.symm hx)

/-- **Patterns**: a pattern is right on all ordinary keys exactly if it has no byte with a meaning of its own in
`LIKE`, or one that no ordinary key has. -/
theorem pattern_right_iff (e : Env) (p : Bytes) :
    (∀ (d : DB S) (K : Set Bytes), Holds e.now d K → (∀ k ∈ K, OrdinaryKey k) → KeysRight e d K p) ↔
      ¬ Ascii p ∨ Unescaped p := by
  constructor
  · intro h
    by_contra hbad
    obtain ⟨hp, hu⟩ := not_or.mp hbad
    obtain ⟨k, hk, hwrong⟩ := exists_misjudged (not_not.mp hp) hu
    have hall : ∀ k' ∈ ({k} : Set Bytes), OrdinaryKey k' := fun k' hk' => Set.mem_singleton_iff.mp hk' ▸ hk
    have hholds := holds_singleKey (S := S) e.now k
    have hright := h _ _ hholds hall
    rw [keysRight_iff_of_readBack hholds fun k' hk' => (hall k' hk').2] at hright
    have hjudged := hright k (Set.mem_singleton k)
    rw [hk.encodeKey] at hjudged
    exact hwrong hjudged
  · intro h d K hK hall
    refine (keysRight_iff_of_readBack hK fun k hk => (hall k hk).2).mpr fun k hk => ?_
    rw [(hall k hk).encodeKey]
    by_cases hp : Ascii p
    · exact likes_iff_of_unescaped hp (h.resolve_left (not_not.mpr hp)) (hall k hk).1
    · exact likes_iff_of_not_ascii hp (hall k hk).1

/-! ### `SCAN` -/

/-- Following the cursors of `SCAN` yields the keys in the language. -/
def ScanRight (world : ℕ → Env) (options : ℕ → List Bytes) (sc : ScriptCache) (d : DB S) (K : Set Bytes)
    (p : Bytes) : Prop :=
  ∃ ks, Follows ((Scan.keys p []).call world options sc d) 0 (utf8 "0") (ks.map .bulkOf) ∧ Lists K p ks

/-- **A full `SCAN`** of an unchanging keyspace is as right as `KEYS`. -/
theorem scanRight_iff {world : ℕ → Env} {options : ℕ → List Bytes} {cnt : ℕ → ℤ} {sc : ScriptCache}
    (haccepts : ∀ n, (Scan.keys p []).Accepts (options n) (cnt n))
    (hsame : ∀ n, (Cmd.keys p : Cmd S).exec (world n) d = (Cmd.keys p : Cmd S).exec e d)
    (hcounts : Completes (listed e d p).length cnt) :
    ScanRight world options sc d K p ↔ KeysRight e d K p := by
  obtain ⟨ks, hks, hperm⟩ := exec_keys (e := e) (d := d) p
  have hels (n : ℕ) : (Scan.keys p []).elements (world n) d = some (ks.map fun k => [Value.bulkOf k]) := by
    have hvalues : Scan.readValues (world n) d (.keys p) = some ks := by
      rw [Scan.readValues, hsame n, hks]
      rfl
    rw [Scan.elements, hvalues, Option.map_some, List.filter_eq_self.mpr fun k _ => by simp]
  have hlength : (ks.map fun k => [Value.bulkOf k]).length = (listed e d p).length := by
    rw [List.length_map]
    exact hperm.length_eq
  have hpages : Pages _ cnt ((Scan.keys p []).call world options sc d) := (Scan.keys p []).pages haccepts hels
  have hfollows := hpages.complete (hlength ▸ hcounts)
  rw [flatten_bulks] at hfollows
  constructor
  · rintro ⟨ks', hfollows', hlists⟩
    have hinj : Function.Injective Value.bulkOf := fun a b h => congrArg Value.bulk h
    obtain rfl : ks' = ks := hinj.list_map (hfollows'.unique hfollows)
    exact ⟨ks', hks, hlists⟩
  · rintro ⟨ks', hks', hlists⟩
    obtain rfl : ks = ks' := by
      rw [hks] at hks'
      exact Reply.values.inj (Except.ok.inj (Prod.mk.inj hks').1)
    exact ⟨ks, hfollows, hlists⟩

/-- **`KEYS` and `SCAN MATCH`.**  Where all keys are read back as they were, `KEYS` is right exactly if the pattern
it sends accepts the stored forms of the keys in the language and no others.  It is right for all plain
patterns exactly if all keys are ordinary, and a pattern is right on all ordinary keys exactly if it has
no `%`, `_` and `\`, or a byte that no ordinary key has.  A full `SCAN` is as right as `KEYS`. -/
theorem key_patterns_iff (e : Env) (d : DB S) (K : Set Bytes) (p : Bytes) (hK : Holds e.now d K) :
    ((∀ k ∈ K, looksEncoded k = false) →
      (KeysRight e d K p ↔ ∀ k ∈ K, (likes p (encodeKey k) = true ↔ InLanguage p k))) ∧
    ((∀ q, Ascii q → Unescaped q → KeysRight e d K q) ↔ ∀ k ∈ K, OrdinaryKey k) ∧
    ((∀ (d' : DB S) (K' : Set Bytes), Holds e.now d' K' → (∀ k ∈ K', OrdinaryKey k) → KeysRight e d' K' p) ↔
      ¬ Ascii p ∨ Unescaped p) ∧
    ∀ (world : ℕ → Env) (options : ℕ → List Bytes) (cnt : ℕ → ℤ) (sc : ScriptCache),
      (∀ n, (Scan.keys p []).Accepts (options n) (cnt n)) →
      (∀ n, (Cmd.keys p : Cmd S).exec (world n) d = (Cmd.keys p : Cmd S).exec e d) →
      Completes (listed e d p).length cnt → (ScanRight world options sc d K p ↔ KeysRight e d K p) :=
  ⟨keysRight_iff_of_readBack hK, keysRight_plain_iff hK, pattern_right_iff e p,
    fun _ _ _ _ haccepts hsame hcounts => scanRight_iff haccepts hsame hcounts⟩

end keyspace

/-- The keyspace with the one key `axb`: `KEYS *` is right on it. -/
theorem keys_star : KeysRight (envAt 0) (singleKey ℤ [97, 120, 98]) {[97, 120, 98]} [42] := by
  have hordinary : OrdinaryKey [97, 120, 98] := ⟨by decide, by decide⟩
  have hpatterns := key_patterns_iff (envAt 0) (singleKey ℤ [97, 120, 98]) {[97, 120, 98]} [42]
    (holds_singleKey 0 [97, 120, 98])
  refine hpatterns.2.1.mpr (fun k hk => ?_) [42] (by decide) (by decide)
  rw [Set.mem_singleton_iff.mp hk]
  exact hordinary

/-- On the same keyspace `KEYS a_b` lists `axb`, which is not in the language of the pattern. -/
theorem keys_underscore : ∃ ks,
    (Cmd.keys [97, 95, 98] : Cmd ℤ).exec (envAt 0) (singleKey ℤ [97, 120, 98]) =
      (.ok (.values ks), singleKey ℤ [97, 120, 98]) ∧
    [97, 120, 98] ∈ ks ∧ ¬ InLanguage [97, 95, 98] [97, 120, 98] := by
  obtain ⟨ks, hks, hperm⟩ := exec_keys (e := envAt 0) (d := singleKey ℤ [97, 120, 98]) [97, 95, 98]
  have hholds : Holds (envAt 0).now (singleKey ℤ [97, 120, 98]) {[97, 120, 98]} := holds_singleKey 0 [97, 120, 98]
  have hlikes : likes [97, 95, 98] (encodeKey [97, 120, 98]) = true := by decide
  have hdecode : decodeKey (encodeKey [97, 120, 98]) = [97, 120, 98] := by decide
  refine ⟨ks, hks, hperm.mem_iff.mpr ?_, fun h => ?_⟩
  · exact (mem_listed hholds).mpr ⟨[97, 120, 98], Set.mem_singleton _, hlikes, hdecode⟩
  · have hmem : (95 : UInt8) ∈ [97, 120, 98] := mem_of_inLanguage h (by decide) (by decide)
    revert hmem
    decide

end Postkeys
