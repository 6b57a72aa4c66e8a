import Postkeys.Decimal
import Postkeys.Resp.Reader

/-! # Writing RESP values

`WriteValue` and the writers of the single kinds of values.  The main result, `readValues_writeValues`,
is the round trip: what the server writes, a reader of the protocol reads back, up to the line breaks
inside simple strings and errors. -/

namespace Postkeys

open Stream

/-- The end of a line. -/
def crlf : Bytes := [13, 10]

/-- `lineBreaks`: carriage returns and line feeds become spaces. -/
def lineBreaks (s : Bytes) : Bytes := s.map fun b => if b = 13 ∨ b = 10 then 32 else b

def writeSimpleString (s : Bytes) : Bytes := utf8 "+" ++ lineBreaks s ++ crlf

def writeError (s : Bytes) : Bytes := utf8 "-" ++ lineBreaks s ++ crlf

def writeInteger (n : ℤ) : Bytes := utf8 ":" ++ formatInt n ++ crlf

def writeBulkString (s : Bytes) : Bytes := utf8 "$" ++ formatInt s.length ++ crlf ++ s ++ crlf

def writeNull : Bytes := utf8 "$-1\r\n"

def writeNullArray : Bytes := utf8 "*-1\r\n"

/-- The head of a value with `n` elements. -/
def writeHead (mark : String) (n : ℕ) : Bytes := utf8 mark ++ formatInt n ++ crlf

/-- `WriteMap`; the pairs are in the order in which the map yields them. -/
def writeMap (m : List (Bytes × Bytes)) : Bytes :=
  writeHead "%" m.length ++ m.flatMap fun p => writeBulkString p.1 ++ writeBulkString p.2

mutual

/-- `WriteValue`: the bytes written, and the type for which there is no writer if it meets one. -/
def writeValue : Value → Bytes × Option RespType
  | ⟨type, str, num, bulk, array, mapData, null⟩ =>
      match type with
      | .simpleString => (writeSimpleString str, none)
      | .error => (writeError str, none)
      | .integer => (writeInteger num, none)
      | .bulkString => (if null then writeNull else writeBulkString bulk, none)
      | .array =>
          if null then (writeNullArray, none)
          else (writeHead "*" array.length ++ (writeValues array).1, (writeValues array).2)
      | .map => (writeMap mapData, none)
      | .push => (writeHead ">" array.length ++ (writeValues array).1, (writeValues array).2)
      | .null => ([], some .null)
      | .boolean => ([], some .boolean)
      | .double => ([], some .double)
      | .bigNumber => ([], some .bigNumber)
      | .bulkError => ([], some .bulkError)
      | .verbatimStr => ([], some .verbatimStr)
      | .set => ([], some .set)

/-- Values one after another, as far as they can be written. -/
def writeValues : List Value → Bytes × Option RespType
  | [] => ([], none)
  | v :: vs =>
      match writeValue v with
      | (bytes, some t) => (bytes, some t)
      | (bytes, none) => (bytes ++ (writeValues vs).1, (writeValues vs).2)

end

/-! ### Replies -/

/-- The reply values of the protocol: simple strings, errors, 64-bit integers, bulk strings and
arrays, within the limits of the parser. -/
inductive Sendable : Value → Prop
  | simple (s : Bytes) : Sendable (.simple s)
  | error (s : Bytes) : Sendable (.errCustom s)
  | int (n : ℤ) (hlow : -2 ^ 63 ≤ n) (hhigh : n < 2 ^ 63) : Sendable (.int n)
  | nullBulk : Sendable .nullBulk
  | bulk (s : Bytes) (h : s.length ≤ maxBulkLen) : Sendable (.bulkOf s)
  | nullArray : Sendable .nullArray
  | array (vs : List Value) (h : vs.length ≤ maxArrayLen) (hvs : ∀ v ∈ vs, Sendable v) :
      Sendable (.arr vs)

mutual

/-- A value as it is received: without line breaks in its simple strings and errors. -/
def received : Value → Value
  | ⟨type, str, num, bulk, array, mapData, null⟩ =>
      ⟨type, lineBreaks str, num, bulk, receivedAll array, mapData, null⟩

def receivedAll : List Value → List Value
  | [] => []
  | v :: vs => received v :: receivedAll vs

end

/-- Read `n` values one after another. -/
def readValues : ℕ → Bytes → Except ReadError (List Value × Bytes)
  | 0, s => .ok ([], s)
  | n + 1, s =>
      match readValue s with
      | .error e => .error e
      | .ok (v, s') =>
          match readValues n s' with
          | .error e => .error e
          | .ok (vs, rest) => .ok (v :: vs, rest)

/-! ### Lines -/

theorem splitUpTo_newline {line : Bytes} (h : 10 ∉ line) (rest : Bytes) :
    splitUpTo 10 (line ++ crlf ++ rest) = some (line ++ crlf, rest) := by
  induction line with
  | nil => rfl
  | cons b line ih =>
      obtain ⟨hb, hline⟩ := not_or.mp (List.mem_cons.not.mp h)
      rw [List.append_assoc] at ih
      rw [List.cons_append, List.cons_append, List.append_assoc, splitUpTo, if_neg (Ne.symm hb),
        ih hline]
      rfl

/-- A line that was written is read back. -/
theorem run_readLine {line : Bytes} (h : 10 ∉ line) (rest : Bytes) :
    readLine.run flat (line ++ crlf ++ rest) = .ok (line, rest) := by
  have hlen : (line ++ crlf).length = line.length + 2 := by simp [crlf]
  have hcr : (line ++ crlf).getD ((line ++ crlf).length - 2) 0 = 13 := by
    simp [crlf, List.getD_eq_getElem?_getD]
  rw [readLine, Reader.run]
  simp only [flat, splitUpTo_newline h]
  rw [if_neg]
  · rw [hlen, Nat.add_sub_cancel, List.take_left]
    rfl
  · rw [hcr]
    simp only [ne_eq, not_true_eq_false, or_false]
    omega

theorem run_readNumber {n : ℤ} (hlow : -2 ^ 63 ≤ n) (hhigh : n < 2 ^ 63) (rest : Bytes) :
    readNumber.run flat (formatInt n ++ crlf ++ rest) = .ok (n, rest) := by
  rw [readNumber, Reader.bind_eq, Reader.run_bind_ok (run_readLine (formatInt_ne_newline n) rest),
    parseInt_formatInt hlow hhigh]
  rfl

theorem newline_not_mem_lineBreaks (s : Bytes) : 10 ∉ lineBreaks s := by
  rw [lineBreaks, List.mem_map]
  rintro ⟨b, -, hb⟩
  split_ifs at hb with h
  · exact absurd hb (by decide)
  · exact h (Or.inr hb)

/-! ### Single values -/

/-- What the writer of `v` writes, a reader with enough levels reads back. -/
def ReadBack (v : Value) : Prop :=
  (writeValue v).2 = none ∧ ∀ l rest, (writeValue v).1.length < l →
    (read l).run flat ((writeValue v).1 ++ rest) = .ok (received v, rest)

theorem readBack_simple (s : Bytes) : ReadBack (.simple s) := by
  refine ⟨rfl, fun l rest hl => ?_⟩
  obtain ⟨l, rfl⟩ : ∃ m, l = m + 1 := ⟨l - 1, by omega⟩
  have hline := run_readLine (newline_not_mem_lineBreaks s) rest
  exact (Reader.run_bind_ok hline : (readLine.bind _).run flat _ = _)

theorem readBack_error (s : Bytes) : ReadBack (.errCustom s) := by
  refine ⟨rfl, fun l rest hl => ?_⟩
  obtain ⟨l, rfl⟩ : ∃ m, l = m + 1 := ⟨l - 1, by omega⟩
  have hline := run_readLine (newline_not_mem_lineBreaks s) rest
  exact (Reader.run_bind_ok hline : (readLine.bind _).run flat _ = _)

theorem readBack_int {n : ℤ} (hlow : -2 ^ 63 ≤ n) (hhigh : n < 2 ^ 63) : ReadBack (.int n) := by
  refine ⟨rfl, fun l rest hl => ?_⟩
  obtain ⟨l, rfl⟩ : ∃ m, l = m + 1 := ⟨l - 1, by omega⟩
  exact (Reader.run_bind_ok (run_readNumber hlow hhigh rest) : (readNumber.bind _).run flat _ = _)

theorem readBack_nullBulk : ReadBack .nullBulk := by
  refine ⟨rfl, fun l rest hl => ?_⟩
  obtain ⟨l, rfl⟩ : ∃ m, l = m + 1 := ⟨l - 1, by omega⟩
  have hnum := run_readNumber (n := -1) (by decide) (by decide) rest
  exact (Reader.run_bind_ok hnum : (readNumber.bind _).run flat _ = _)

theorem readBack_nullArray : ReadBack .nullArray := by
  refine ⟨rfl, fun l rest hl => ?_⟩
  obtain ⟨l, rfl⟩ : ∃ m, l = m + 1 := ⟨l - 1, by omega⟩
  have hnum := run_readNumber (n := -1) (by decide) (by decide) rest
  exact (Reader.run_bind_ok hnum : (readNumber.bind _).run flat _ = _)

theorem readBack_bulk {s : Bytes} (h : s.length ≤ maxBulkLen) : ReadBack (.bulkOf s) := by
  refine ⟨rfl, fun l rest hl => ?_⟩
  obtain ⟨l, rfl⟩ : ∃ m, l = m + 1 := ⟨l - 1, by omega⟩
  have hmax : maxBulkLen < 2 ^ 63 := by decide
  have hnum := run_readNumber (n := s.length) (by omega) (by omega) (s ++ crlf ++ rest)
  have hwritten : (writeValue (.bulkOf s)).1 ++ rest =
      36 :: (formatInt s.length ++ crlf ++ (s ++ crlf ++ rest)) := by
    simp only [writeValue, Value.bulkOf, Value.empty, writeBulkString, List.append_assoc,
      Bool.false_eq_true, if_false]
    rfl
  have hstep : (read (l + 1)).run flat (36 :: (formatInt s.length ++ crlf ++ (s ++ crlf ++ rest))) =
      readBulkString.run flat (formatInt s.length ++ crlf ++ (s ++ crlf ++ rest)) := rfl
  rw [hwritten, hstep, readBulkString, Reader.bind_eq, Reader.run_bind_ok hnum, if_neg (by omega),
    if_neg (by omega), if_neg (by omega), Int.toNat_natCast]
  have hfull : splitFull (s.length + 2) (s ++ crlf ++ rest) = .ok (s ++ crlf, rest) :=
    splitFull_append (by simp [crlf]) rest
  simp only [Reader.run, flat, hfull, List.take_left]
  rfl

variable {vs : List Value}

/-! ### Arrays -/

theorem writeValues_cons {v : Value} (h : (writeValue v).2 = none) :
    writeValues (v :: vs) = ((writeValue v).1 ++ (writeValues vs).1, (writeValues vs).2) := by
  rw [writeValues]
  split
  · rename_i t heq
    rw [heq] at h
    cases h
  · rename_i heq
    rw [heq]

theorem run_readElements {r : RespReader Value}
    (hvs : ∀ v ∈ vs, (writeValue v).2 = none ∧
      ∀ rest, r.run flat ((writeValue v).1 ++ rest) = .ok (received v, rest)) (rest : Bytes) :
    (writeValues vs).2 = none ∧
      (readElements r vs.length).run flat ((writeValues vs).1 ++ rest) = .ok (receivedAll vs, rest) := by
  induction vs with
  | nil => exact ⟨rfl, rfl⟩
  | cons v vs ih =>
      obtain ⟨hok, hread⟩ := hvs v (List.mem_cons_self ..)
      obtain ⟨hoks, hreads⟩ := ih fun w hw => hvs w (List.mem_cons_of_mem v hw)
      rw [writeValues_cons hok]
      refine ⟨hoks, ?_⟩
      rw [List.length_cons, readElements, Reader.bind_eq, List.append_assoc, Reader.run_bind_ok (hread _),
        Reader.bind_eq, Reader.run_bind_ok hreads]
      rfl

theorem length_writeValue_le {v : Value} (hv : v ∈ vs)
    (hok : ∀ v ∈ vs, (writeValue v).2 = none) :
    (writeValue v).1.length ≤ (writeValues vs).1.length := by
  induction vs with
  | nil => cases hv
  | cons w vs ih =>
      rw [writeValues_cons (hok w (List.mem_cons_self ..)), List.length_append]
      rcases List.mem_cons.mp hv with rfl | hv
      · omega
      · have := ih hv fun v hv => hok v (List.mem_cons_of_mem w hv)
        omega

theorem readBack_array (h : vs.length ≤ maxArrayLen) (hvs : ∀ v ∈ vs, ReadBack v) :
    ReadBack (.arr vs) := by
  have hmax : maxArrayLen < 2 ^ 63 := by decide
  have hwritten : writeValue (.arr vs) =
      (writeHead "*" vs.length ++ (writeValues vs).1, (writeValues vs).2) := rfl
  have hoks : (writeValues vs).2 = none :=
    (run_readElements (r := read ((writeValues vs).1.length + 1)) (fun v hv =>
      ⟨(hvs v hv).1, fun rest => (hvs v hv).2 _ rest (by
        have := length_writeValue_le hv fun v hv => (hvs v hv).1
        omega)⟩) []).1
  refine ⟨by rw [hwritten]; exact hoks, fun l rest hl => ?_⟩
  rw [hwritten] at hl ⊢
  obtain ⟨l, rfl⟩ : ∃ m, l = m + 1 := ⟨l - 1, by omega⟩
  -- the elements are shorter than the array, so one level less is enough for them
  have helements : (readElements (read l) vs.length).run flat ((writeValues vs).1 ++ rest) =
      .ok (receivedAll vs, rest) := by
    refine (run_readElements (fun v hv => ⟨(hvs v hv).1, fun rest => (hvs v hv).2 _ rest ?_⟩) rest).2
    have hle := length_writeValue_le hv fun v hv => (hvs v hv).1
    have hhead : 0 < (writeHead "*" vs.length).length := by
      simp only [writeHead, crlf, List.length_append, List.length_cons, List.length_nil]
      omega
    simp only [List.length_append] at hl
    omega
  have hnum := run_readNumber (n := vs.length) (by omega) (by omega) ((writeValues vs).1 ++ rest)
  have hbytes : writeHead "*" vs.length ++ (writeValues vs).1 ++ rest =
      42 :: (formatInt vs.length ++ crlf ++ ((writeValues vs).1 ++ rest)) := by
    simp only [writeHead, List.append_assoc]
    rfl
  have hstep (t : Bytes) : (read (l + 1)).run flat (42 :: t) = (readArray (read l)).run flat t := rfl
  rw [hbytes, hstep, readArray, Reader.bind_eq, Reader.run_bind_ok hnum, if_neg (by omega),
    if_neg (by omega), if_neg (by omega), Int.toNat_natCast, Reader.run, helements]
  rfl

/-- Every reply value is read back. -/
theorem Sendable.readBack {v : Value} (h : Sendable v) : ReadBack v := by
  induction h with
  | simple s => exact readBack_simple s
  | error s => exact readBack_error s
  | int n hlow hhigh => exact readBack_int hlow hhigh
  | nullBulk => exact readBack_nullBulk
  | bulk s h => exact readBack_bulk h
  | nullArray => exact readBack_nullArray
  | array vs h _ ih => exact readBack_array h ih

/-- **Round trip**: a list of reply values that is written and followed by any bytes is read back
value by value, with the line breaks of simple strings and errors replaced, and exactly the bytes
that follow are left. -/
theorem readValues_writeValues (vs : List Value) (hvs : ∀ v ∈ vs, Sendable v) (rest : Bytes) :
    (writeValues vs).2 = none ∧
      readValues vs.length ((writeValues vs).1 ++ rest) = .ok (vs.map received, rest) := by
  induction vs with
  | nil => exact ⟨rfl, rfl⟩
  | cons v vs ih =>
      obtain ⟨hok, hread⟩ := (hvs v (List.mem_cons_self ..)).readBack
      obtain ⟨hoks, hreads⟩ := ih fun w hw => hvs w (List.mem_cons_of_mem v hw)
      rw [writeValues_cons hok]
      refine ⟨hoks, ?_⟩
      have hone : readValue ((writeValue v).1 ++ ((writeValues vs).1 ++ rest)) =
          .ok (received v, (writeValues vs).1 ++ rest) := by
        refine hread _ _ ?_
        simp only [List.length_append]
        omega
      rw [List.length_cons, readValues, List.append_assoc, hone]
      simp only [hreads, List.map_cons]

/-- A reply with a line break in an error, an array with a null, and bytes that follow. -/
theorem readValues_writeValues_mixed :
    readValues 2 ((writeValues [.errCustom (utf8 "a\nb"), .arr [.int (-7), .nullBulk]]).1 ++ [1, 2]) =
      .ok ([.errCustom (utf8 "a b"), .arr [.int (-7), .nullBulk]], [1, 2]) := by
  refine (readValues_writeValues [.errCustom (utf8 "a\nb"), .arr [.int (-7), .nullBulk]]
    (fun v hv => ?_) [1, 2]).2
  rcases List.mem_cons.mp hv with rfl | hv
  · exact .error _
  · rw [List.mem_singleton.mp hv]
    refine .array _ (by decide) fun w hw => ?_
    rcases List.mem_cons.mp hw with rfl | hw
    · exact .int _ (by decide) (by decide)
    · rw [List.mem_singleton.mp hw]
      exact .nullBulk

end Postkeys
