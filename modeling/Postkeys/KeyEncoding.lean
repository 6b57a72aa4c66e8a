import Postkeys.Runtime

/-! # Keys and fields in storage

Keys and hash fields are stored in `TEXT` columns.  Those that are no text, because of a null byte
or of invalid UTF-8, are stored as a marker and their base64 form; a text is stored unchanged, also
when it already starts with the marker.

`base64Decode_base64Encode` is the inverse law of base64.  `keepIdentity_iff` says for which keys
and fields the stored form keeps their identity. -/

namespace Postkeys

/-! ### base64 -/

theorem base64Value_base64Char {n : ℕ} (h : n < 64) : base64Value (base64Char n) = some n := by
  revert n
  decide

theorem base64Char_ne_pad (n : ℕ) : base64Char n ≠ 61 := by
  by_cases h : n < 64
  · revert n
    decide
  · rw [base64Char, if_neg (by omega), if_neg (by omega), if_neg (by omega), if_neg (by omega)]
    decide

theorem base64Char_ne_lineEnd (n : ℕ) : base64Char n ≠ 10 ∧ base64Char n ≠ 13 := by
  by_cases h : n < 64
  · revert n
    decide
  · rw [base64Char, if_neg (by omega), if_neg (by omega), if_neg (by omega), if_neg (by omega)]
    decide

theorem base64Encode_ne_lineEnd (s : Bytes) : ∀ b ∈ base64Encode s, b ≠ 10 ∧ b ≠ 13 := by
  fun_induction base64Encode s with
  | case1 => simp
  | case2 a => simp [base64Char_ne_lineEnd]
  | case3 a b => simp [base64Char_ne_lineEnd]
  | case4 a b c rest ih => simpa [base64Char_ne_lineEnd] using ih

/-- A full group of base64 characters, the last of which is no padding. -/
theorem base64Groups_cons {a b c d : UInt8} {rest : Bytes} (hd : d ≠ 61) :
    base64Groups (a :: b :: c :: d :: rest) = (do
      let a ← base64Value a
      let b ← base64Value b
      let c ← base64Value c
      let d ← base64Value d
      let rest ← base64Groups rest
      pure (UInt8.ofNat (a * 4 + b / 16) :: UInt8.ofNat (b % 16 * 16 + c / 4) ::
        UInt8.ofNat (c % 4 * 64 + d) :: rest)) := by
  rw [base64Groups]
  · exact fun _ h => absurd h hd
  · exact fun h => absurd h hd

theorem base64Groups_base64Encode (s : Bytes) : base64Groups (base64Encode s) = some s := by
  fun_induction base64Encode s with
  | case1 => rfl
  | case2 a =>
      have ha := a.toNat_lt
      rw [base64Groups, base64Value_base64Char (by omega), base64Value_base64Char (by omega)]
      have h : a.toNat / 4 * 4 + a.toNat % 4 * 16 / 16 = a.toNat := by omega
      simp only [Option.bind_eq_bind, Option.bind_some, Option.pure_def, h, UInt8.ofNat_toNat]
  | case3 a b =>
      have ha := a.toNat_lt
      have hb := b.toNat_lt
      rw [base64Groups, base64Value_base64Char (by omega), base64Value_base64Char (by omega),
        base64Value_base64Char (by omega)]
      · have h₁ : a.toNat / 4 * 4 + (a.toNat % 4 * 16 + b.toNat / 16) / 16 = a.toNat := by omega
        have h₂ : (a.toNat % 4 * 16 + b.toNat / 16) % 16 * 16 + b.toNat % 16 * 4 / 4 = b.toNat := by
          omega
        simp only [Option.bind_eq_bind, Option.bind_some, Option.pure_def, h₁, h₂, UInt8.ofNat_toNat]
      · exact fun h => absurd h (base64Char_ne_pad _)
  | case4 a b c rest ih =>
      have ha := a.toNat_lt
      have hb := b.toNat_lt
      have hc := c.toNat_lt
      rw [base64Groups_cons (base64Char_ne_pad _), base64Value_base64Char (by omega),
        base64Value_base64Char (by omega), base64Value_base64Char (by omega),
        base64Value_base64Char (by omega), ih]
      have h₁ : a.toNat / 4 * 4 + (a.toNat % 4 * 16 + b.toNat / 16) / 16 = a.toNat := by omega
      have h₂ : (a.toNat % 4 * 16 + b.toNat / 16) % 16 * 16 + (b.toNat % 16 * 4 + c.toNat / 64) / 4 =
          b.toNat := by omega
      have h₃ : (b.toNat % 16 * 4 + c.toNat / 64) % 4 * 64 + c.toNat % 64 = c.toNat := by omega
      simp only [Option.bind_eq_bind, Option.bind_some, Option.pure_def, h₁, h₂, h₃, UInt8.ofNat_toNat]

/-- Base64 decoding inverts encoding. -/
theorem base64Decode_base64Encode (s : Bytes) : base64Decode (base64Encode s) = some s := by
  have hfilter : (base64Encode s).filter (fun b => b ≠ 10 ∧ b ≠ 13) = base64Encode s := by
    rw [List.filter_eq_self]
    intro b hb
    simpa using base64Encode_ne_lineEnd s b hb
  rw [base64Decode, hfilter, base64Groups_base64Encode]

theorem length_base64Groups {s v : Bytes} (h : base64Groups s = some v) : v.length ≤ s.length := by
  fun_induction base64Groups s generalizing v with
  | case1 => cases h; exact le_rfl
  | case2 a b =>
      simp only [Option.bind_eq_bind, Option.bind_eq_some_iff, Option.pure_def,
        Option.some.injEq] at h
      obtain ⟨_, _, _, _, rfl⟩ := h
      simp
  | case3 a b c _ =>
      simp only [Option.bind_eq_bind, Option.bind_eq_some_iff, Option.pure_def,
        Option.some.injEq] at h
      obtain ⟨_, _, _, _, _, _, rfl⟩ := h
      simp
  | case4 a b c d rest _ _ ih =>
      simp only [Option.bind_eq_bind, Option.bind_eq_some_iff, Option.pure_def,
        Option.some.injEq] at h
      obtain ⟨_, _, _, _, _, _, _, _, v, hv, rfl⟩ := h
      have := ih hv
      simp only [List.length_cons]
      omega
  | case5 => cases h

theorem length_base64Decode {s v : Bytes} (h : base64Decode s = some v) : v.length ≤ s.length :=
  (length_base64Groups h).trans (List.length_filter_le _ _)

theorem base64Groups_chars {s v : Bytes} (h : base64Groups s = some v) :
    ∀ b ∈ s, (base64Value b).isSome = true ∨ b = 61 := by
  fun_induction base64Groups s generalizing v with
  | case1 => simp
  | case2 a b =>
      simp only [Option.bind_eq_bind, Option.bind_eq_some_iff] at h
      obtain ⟨_, ha, _, hb, _⟩ := h
      simp [ha, hb]
  | case3 a b c _ =>
      simp only [Option.bind_eq_bind, Option.bind_eq_some_iff] at h
      obtain ⟨_, ha, _, hb, _, hc, _⟩ := h
      simp [ha, hb, hc]
  | case4 a b c d rest _ _ ih =>
      simp only [Option.bind_eq_bind, Option.bind_eq_some_iff] at h
      obtain ⟨_, ha, _, hb, _, hc, _, hd, w, hw, _⟩ := h
      have hrest := ih hw
      simp only [List.forall_mem_cons]
      exact ⟨by simp [ha], by simp [hb], by simp [hc], by simp [hd], hrest⟩
  | case5 => cases h

/-- What can be decoded consists of the alphabet, padding and line ends. -/
theorem base64Decode_chars {s v : Bytes} (h : base64Decode s = some v) {b : UInt8} (hb : b ∈ s) :
    (base64Value b).isSome = true ∨ b = 61 ∨ b = 10 ∨ b = 13 := by
  by_cases hline : b ≠ 10 ∧ b ≠ 13
  · have hmem : b ∈ s.filter fun b => b ≠ 10 ∧ b ≠ 13 := List.mem_filter.mpr ⟨hb, by simpa using hline⟩
    exact (base64Groups_chars h b hmem).imp_right Or.inl
  · rw [not_and_or, not_not, not_not] at hline
    exact Or.inr (Or.inr hline)

/-! ### Stored forms -/

/-- A text without null bytes, which is stored unchanged. -/
def plainKey (key : Bytes) : Bool := !(key.contains 0 || !validString key)

theorem encodeKey_of_plain {key : Bytes} (h : plainKey key = true) : encodeKey key = key := by
  rw [encodeKey, if_neg (by simpa only [plainKey, Bool.not_eq_true', Bool.not_eq_true] using h)]

theorem encodeKey_of_not_plain {key : Bytes} (h : plainKey key = false) :
    encodeKey key = binaryPrefix ++ base64Encode key := by
  rw [encodeKey, if_pos (by simpa only [plainKey, Bool.not_eq_false'] using h)]

/-- A stored form is a text without null bytes. -/
theorem plainKey_encodeKey (key : Bytes) : plainKey (encodeKey key) = true := by
  by_contra h
  have hlong := encodeKey_of_not_plain (Bool.not_eq_true _ ▸ h)
  rw [encodeKey_encodeKey] at hlong
  -- the stored form of a stored form would be longer than itself
  have hlen := congrArg List.length hlong
  have hbase := length_base64Decode (base64Decode_base64Encode (encodeKey key))
  simp only [List.length_append, binaryPrefix, List.length_cons, List.length_nil] at hlen
  omega

theorem decodeKey_marked (v : Bytes) : decodeKey (binaryPrefix ++ v) = (base64Decode v).getD
    (binaryPrefix ++ v) := by
  rw [decodeKey, if_pos (by simp), List.drop_left]

/-- A key that is stored unchanged and read back as something else: a text made of the marker and
anything base64 can decode. -/
def looksEncoded (key : Bytes) : Bool :=
  plainKey key && binaryPrefix.isPrefixOf key && (base64Decode (key.drop binaryPrefix.length)).isSome

/-- A stored key is read back as itself unless it looks like a stored form. -/
theorem decodeKey_encodeKey_iff (key : Bytes) :
    decodeKey (encodeKey key) = key ↔ looksEncoded key = false := by
  cases hplain : plainKey key with
  | false =>
      rw [encodeKey_of_not_plain hplain, decodeKey_marked, base64Decode_base64Encode]
      simp [looksEncoded, hplain]
  | true =>
      rw [encodeKey_of_plain hplain, looksEncoded, hplain, Bool.true_and]
      cases hmark : binaryPrefix.isPrefixOf key with
      | false => simp [decodeKey, hmark]
      | true =>
          rw [decodeKey, if_pos hmark, Bool.true_and]
          cases hdecode : base64Decode (key.drop binaryPrefix.length) with
          | none => simp
          | some v =>
              have hlen := length_base64Decode hdecode
              have hprefix := (List.isPrefixOf_iff_prefix.mp hmark).length_le
              simp only [List.length_drop, binaryPrefix, List.length_cons, List.length_nil]
                at hlen hprefix
              refine iff_of_false (fun h => ?_) (by simp)
              -- decoding shortens the key by the marker at least
              have := congrArg List.length h
              simp only [Option.getD_some] at this
              omega

/-- What storing promises about two keys, or two fields, `a` and `b`: they are read back as they
were, they share a stored form only if they are equal, and the form is a text without null bytes. -/
structure KeepIdentity (encode decode : Bytes → Bytes) (a b : Bytes) : Prop where
  decode_left : decode (encode a) = a
  decode_right : decode (encode b) = b
  injective : encode a = encode b → a = b
  valid_left : validString (encode a) = true ∧ 0 ∉ encode a
  valid_right : validString (encode b) = true ∧ 0 ∉ encode b

theorem valid_of_plainKey {key : Bytes} (h : plainKey key = true) :
    validString key = true ∧ 0 ∉ key := by
  rw [plainKey, Bool.not_eq_true', Bool.or_eq_false_iff, Bool.not_eq_false'] at h
  refine ⟨h.2, fun h0 => ?_⟩
  rw [List.contains_iff_mem.mpr h0] at h
  exact absurd h.1 (by decide)

/-- **Identity of stored keys and fields**: two keys and two fields keep their identity exactly when
neither looks like the stored form of another. -/
theorem keepIdentity_iff (a b : Bytes) :
    KeepIdentity encodeKey decodeKey a b ∧ KeepIdentity encodeField decodeField a b ↔
      looksEncoded a = false ∧ looksEncoded b = false := by
  constructor
  · rintro ⟨hkey, -⟩
    exact ⟨(decodeKey_encodeKey_iff a).mp hkey.decode_left,
      (decodeKey_encodeKey_iff b).mp hkey.decode_right⟩
  · rintro ⟨ha, hb⟩
    have hkey : KeepIdentity encodeKey decodeKey a b :=
      { decode_left := (decodeKey_encodeKey_iff a).mpr ha
        decode_right := (decodeKey_encodeKey_iff b).mpr hb
        injective := fun h => by
          rw [← (decodeKey_encodeKey_iff a).mpr ha, h, (decodeKey_encodeKey_iff b).mpr hb]
        valid_left := valid_of_plainKey (plainKey_encodeKey a)
        valid_right := valid_of_plainKey (plainKey_encodeKey b) }
    -- fields are stored in the same way
    exact ⟨hkey, hkey⟩

/-- The key `"\x1Fb64:AA=="` and the key of one null byte share a stored form. -/
theorem encodeKey_collision :
    encodeKey (binaryPrefix ++ [0x41, 0x41, 0x3D, 0x3D]) = encodeKey [0] ∧
      decodeKey (encodeKey (binaryPrefix ++ [0x41, 0x41, 0x3D, 0x3D])) = [0] := by
  decide

end Postkeys
