import Postkeys.Resp
import Postkeys.Stream.Reader

/-! # Reading RESP values

The parser of the Redis protocol, as a program over the byte stream of a connection: `Read`,
`readLine` and one reader for each kind of value.  `readArray` reads its elements with `Read`; every
level takes a byte, so a stream of `n` bytes needs no more than `n + 1` levels and `readValue` allows
that many.

The main result, `readValue_framing`, is that the parser is never mistaken about where a command
ends, however the network splits the stream and wherever it is cut. -/

namespace Postkeys

open Stream

/-- The longest bulk string, 512 MiB. -/
def maxBulkLen : ℕ := 512 * 1024 * 1024

/-- The largest number of elements of one array. -/
def maxArrayLen : ℕ := 2 ^ 20

/-- Why reading a value fails.  `levels` is not an error of the code: the model ran out of levels. -/
inductive ReadError
  | eof
  | unexpectedEOF
  | unknownType (b : UInt8)
  | lineEnding
  | number (line : Bytes)
  | bulkLength (n : ℤ)
  | bulkLimit (n : ℤ)
  | arrayLength (n : ℤ)
  | arrayLimit (n : ℤ)
  | levels
deriving DecidableEq, Repr

/-- A reader of bytes; its frames are the arrays whose elements are being read, marked with their
lengths. -/
abbrev RespReader (α : Type) := Reader UInt8 ReadError ℕ α

def readLine : RespReader Bytes :=
  .upTo 10 fun
    | none => .fail .eof
    | some line =>
        if line.length < 2 ∨ line.getD (line.length - 2) 0 ≠ 13 then .fail .lineEnding
        else .ret (line.take (line.length - 2))

def readSimpleString : RespReader Value := do
  let line ← readLine
  pure (.simple line)

def readError : RespReader Value := do
  let line ← readLine
  pure (.errCustom line)

/-- A line with a decimal number. -/
def readNumber : RespReader ℤ := do
  let line ← readLine
  match parseInt line with
  | some n => pure n
  | none => .fail (.number line)

def readInteger : RespReader Value := do
  let num ← readNumber
  pure (.int num)

def readBulkString : RespReader Value := do
  let length ← readNumber
  if length = -1 then pure .nullBulk
  else if length < 0 then .fail (.bulkLength length)
  else if maxBulkLen < length then .fail (.bulkLimit length)
  else .full (length.toNat + 2) fun
    | .error 0 => .fail .eof
    | .error _ => .fail .unexpectedEOF
    | .ok buf => .ret (.bulkOf (buf.take length.toNat))

/-- The elements of an array. -/
def readElements (read : RespReader Value) : ℕ → RespReader (List Value)
  | 0 => pure []
  | n + 1 => do
      let v ← read
      let vs ← readElements read n
      pure (v :: vs)

def readArray (read : RespReader Value) : RespReader Value := do
  let cnt ← readNumber
  if cnt = -1 then pure .nullArray
  else if cnt < 0 then .fail (.arrayLength cnt)
  else if maxArrayLen < cnt then .fail (.arrayLimit cnt)
  else .within cnt.toNat (readElements read cnt.toNat) fun array => pure (.arr array)

/-- `Read`, with a bound on the levels of arrays inside arrays. -/
def read : ℕ → RespReader Value
  | 0 => .fail .levels
  | levels + 1 => .one fun
      | none => .fail .eof
      | some typeByte =>
          if typeByte = 43 then readSimpleString
          else if typeByte = 45 then readError
          else if typeByte = 58 then readInteger
          else if typeByte = 36 then readBulkString
          else if typeByte = 42 then readArray (read levels)
          else .fail (.unknownType typeByte)

/-- `Read` on a stream: the value and the bytes it leaves. -/
def readValue (s : Bytes) : Except ReadError (Value × Bytes) := (read (s.length + 1)).run flat s

/-- `Read` on a connection whose bytes arrive in chunks. -/
def readChunks (chunks : List Bytes) : Except ReadError (Value × List Bytes) :=
  (read (chunks.flatten.length + 1)).run chunked chunks

/-- The commands `handleConnection` executes: it reads until `Read` reports an error. -/
def commandsLoop : ℕ → List Bytes → List Value
  | 0, _ => []
  | fuel + 1, chunks =>
      match readChunks chunks with
      | .error _ => []
      | .ok (v, rest) => v :: commandsLoop fuel rest

/-- All commands of a connection; every command takes a byte. -/
def commands (chunks : List Bytes) : List Value := commandsLoop (chunks.flatten.length + 1) chunks

/-! ### Strictness -/

theorem strict_readLine : readLine.Strict := by
  refine ⟨⟨_, rfl⟩, fun line => ?_⟩
  dsimp only
  split <;> exact trivial

theorem strict_readNumber : readNumber.Strict := by
  refine strict_readLine.bind fun line => ?_
  cases parseInt line <;> exact trivial

theorem strict_readBulkString : readBulkString.Strict := by
  refine strict_readNumber.bind fun length => ?_
  split_ifs
  · exact trivial
  · exact trivial
  · exact trivial
  · refine ⟨fun n => ?_, fun buf => trivial⟩
    cases n <;> exact ⟨_, rfl⟩

theorem strict_readElements {r : RespReader Value} (hr : r.Strict) (n : ℕ) :
    (readElements r n).Strict := by
  induction n with
  | zero => exact trivial
  | succ n ih => exact hr.bind fun v => ih.bind fun vs => trivial

theorem strict_readArray {r : RespReader Value} (hr : r.Strict) : (readArray r).Strict := by
  refine strict_readNumber.bind fun cnt => ?_
  split_ifs
  · exact trivial
  · exact trivial
  · exact trivial
  · exact ⟨strict_readElements hr _, fun _ => trivial⟩

theorem strict_read (levels : ℕ) : (read levels).Strict := by
  induction levels with
  | zero => exact trivial
  | succ levels ih =>
      refine ⟨⟨_, rfl⟩, fun b => ?_⟩
      dsimp only
      split_ifs
      · exact strict_readLine.bind fun _ => trivial
      · exact strict_readLine.bind fun _ => trivial
      · exact strict_readNumber.bind fun _ => trivial
      · exact strict_readBulkString
      · exact strict_readArray ih
      · exact trivial

/-! ### Levels -/

theorem agree_readElements {n : ℕ} {r r' : RespReader Value} (h : r.Agree n r') (cnt : ℕ) :
    (readElements r cnt).Agree n (readElements r' cnt) := by
  induction cnt with
  | zero => exact .refl _ _
  | succ cnt ih => exact h.bind fun _ => ih.bind fun _ => .refl _ _

theorem agree_readArray {n : ℕ} {r r' : RespReader Value} (h : r.Agree n r') :
    (readArray r).Agree n (readArray r') := by
  refine (Reader.Agree.refl n readNumber).bind fun cnt => ?_
  split_ifs
  · exact .refl _ _
  · exact .refl _ _
  · exact .refl _ _
  · exact (agree_readElements h _).within fun _ => .refl _ _

/-- On a stream of `n` bytes all bounds above `n` on the levels are the same. -/
theorem agree_read {n l l' : ℕ} (hl : n < l) (hl' : n < l') : (read l).Agree n (read l') := by
  induction n generalizing l l' with
  | zero =>
      obtain ⟨l, rfl⟩ : ∃ m, l = m + 1 := ⟨l - 1, by omega⟩
      obtain ⟨l', rfl⟩ : ∃ m, l' = m + 1 := ⟨l' - 1, by omega⟩
      constructor
      · intro s hs
        rw [List.length_eq_zero_iff.mp (Nat.le_zero.mp hs)]
        rfl
      · intro s hs st x
        rw [List.length_eq_zero_iff.mp (Nat.le_zero.mp hs)]
        rfl
  | succ n ih =>
      obtain ⟨l, rfl⟩ : ∃ m, l = m + 1 := ⟨l - 1, by omega⟩
      obtain ⟨l', rfl⟩ : ∃ m, l' = m + 1 := ⟨l' - 1, by omega⟩
      have harray : (readArray (read l)).Agree n (readArray (read l')) :=
        agree_readArray (ih (by omega) (by omega))
      constructor
      · intro s hs
        cases s with
        | nil => rfl
        | cons b s =>
            simp only [read, Reader.run, flat]
            split_ifs
            all_goals try rfl
            exact harray.run s (by simpa using hs)
      · intro s hs st x
        cases s with
        | nil => rfl
        | cons b s =>
            simp only [read, Reader.frames, flat, List.mem_cons]
            split_ifs
            all_goals try exact Iff.rfl
            exact or_congr_right (harray.frames s (by simpa using hs) st x)

theorem readValue_eq {s : Bytes} {l : ℕ} (h : s.length < l) : readValue s = (read l).run flat s :=
  (agree_read (Nat.lt_succ_self _) h).run s le_rfl

/-! ### The levels suffice -/

/-! ### Framing -/

/-- A value that is read uses a prefix of the stream, whatever the bound on the levels. -/
theorem framed_of_readValue {s rest : Bytes} {v : Value} (h : readValue s = .ok (v, rest)) :
    ∃ used, s = used ++ rest ∧ ∀ l, s.length < l → (read l).Framed v used := by
  obtain ⟨used, hs, -⟩ := (strict_read _).framed h
  refine ⟨used, hs, fun l hl => ?_⟩
  obtain ⟨used', hs', hframe⟩ := (strict_read l).framed ((readValue_eq hl).symm.trans h)
  rwa [List.append_cancel_right (hs'.symm.trans hs)] at hframe

/-- Bytes that make up one value: it is read back whatever follows, and no proper prefix of them is
enough. -/
theorem readValue_framed {s rest : Bytes} {v : Value} (h : readValue s = .ok (v, rest)) :
    ∃ used, s = used ++ rest ∧ (∀ t, readValue (used ++ t) = .ok (v, t)) ∧
      ∀ u, u <+: used → u ≠ used → ∃ e, readValue u = .error e := by
  obtain ⟨used, hs, hframe⟩ := framed_of_readValue h
  refine ⟨used, hs, fun t => ?_, fun u hu hne => ?_⟩
  · have hl : (used ++ t).length < s.length + t.length + 1 := by
      rw [hs]
      simp only [List.length_append]
      omega
    rw [readValue_eq hl]
    exact (hframe _ (by omega)).extend t
  · have hl : u.length < s.length + 1 := by
      rw [hs, List.length_append]
      have := hu.length_le
      omega
    rw [readValue_eq hl]
    exact (hframe _ (by omega)).cut u hu hne

theorem length_of_readValue {s rest : Bytes} {v : Value} (h : readValue s = .ok (v, rest)) :
    rest.length < s.length := by
  obtain ⟨used, rfl, hext, -⟩ := readValue_framed h
  cases used with
  | nil => cases hext []
  | cons b used =>
      simp only [List.cons_append, List.length_cons, List.length_append]
      omega

/-! ### Commands -/

theorem readChunks_flatten (chunks : List Bytes) :
    readValue chunks.flatten = (readChunks chunks).map (Prod.map id List.flatten) :=
  chunked_refines_flat.run _ chunks

/-- The commands depend on the bytes only, not on the chunks. -/
theorem commandsLoop_congr {chunks chunks' : List Bytes} (h : chunks.flatten = chunks'.flatten)
    {n n' : ℕ} (hn : chunks.flatten.length < n) (hn' : chunks.flatten.length < n') :
    commandsLoop n chunks = commandsLoop n' chunks' := by
  induction n generalizing n' chunks chunks' with
  | zero => omega
  | succ n ih =>
      obtain ⟨n', rfl⟩ : ∃ m, n' = m + 1 := ⟨n' - 1, by omega⟩
      have hread := readChunks_flatten chunks
      have hread' := readChunks_flatten chunks'
      rw [← h] at hread'
      rw [commandsLoop, commandsLoop]
      cases hr : readChunks chunks with
      | error e =>
          rw [hr] at hread
          cases hr' : readChunks chunks' with
          | error e' => rfl
          | ok r' => rw [hr', hread] at hread'; cases hread'
      | ok r =>
          rw [hr] at hread
          cases hr' : readChunks chunks' with
          | error e' => rw [hr', hread] at hread'; cases hread'
          | ok r' =>
              rw [hr', hread] at hread'
              simp only [Except.map, Except.ok.injEq, Prod.mk.injEq, Prod.map, id] at hread'
              have hlen := length_of_readValue hread
              exact congrArg₂ _ hread'.1 (ih hread'.2 (by omega) (by omega))

theorem commands_congr {chunks chunks' : List Bytes} (h : chunks.flatten = chunks'.flatten) :
    commands chunks = commands chunks' := by
  refine commandsLoop_congr h (Nat.lt_succ_self _) ?_
  rw [h]
  exact Nat.lt_succ_self _

theorem commands_cons {chunks : List Bytes} {v : Value} {rest : Bytes}
    (h : readValue chunks.flatten = .ok (v, rest)) : commands chunks = v :: commands [rest] := by
  have hread := readChunks_flatten chunks
  have hlen := length_of_readValue h
  rw [h] at hread
  rw [commands, commandsLoop]
  cases hr : readChunks chunks with
  | error e => rw [hr] at hread; cases hread
  | ok r =>
      rw [hr] at hread
      simp only [Except.map, Except.ok.injEq, Prod.mk.injEq, Prod.map, id] at hread
      have hrest : r.2.flatten = [rest].flatten := by simp [hread.2]
      refine congrArg₂ _ hread.1.symm (commandsLoop_congr hrest ?_ ?_)
      · rw [← hread.2]
        omega
      · rw [hrest]
        exact Nat.lt_succ_self _

theorem commands_nil {chunks : List Bytes} {e : ReadError}
    (h : readValue chunks.flatten = .error e) : commands chunks = [] := by
  have hread := readChunks_flatten chunks
  rw [h] at hread
  rw [commands, commandsLoop]
  cases hr : readChunks chunks with
  | error e' => rfl
  | ok r => rw [hr] at hread; cases hread

/-- **Framing of commands**: a value that `Read` returns is determined by the bytes it used.  The
same bytes give the same value whatever follows them; a proper prefix of them gives an error; and
for `handleConnection` neither the chunks in which the bytes arrive nor a cut inside the command
makes a difference to the commands it executes. -/
theorem readValue_framing (s rest : Bytes) (v : Value) (h : readValue s = .ok (v, rest)) :
    ∃ used, s = used ++ rest ∧ (∀ t, readValue (used ++ t) = .ok (v, t)) ∧
      (∀ u, u <+: used → u ≠ used → ∃ e, readValue u = .error e) ∧
      (∀ chunks t, chunks.flatten = used ++ t → commands chunks = v :: commands [t]) ∧
      (∀ chunks, chunks.flatten <+: used → chunks.flatten ≠ used → commands chunks = []) ∧
      ∀ chunks chunks' : List Bytes, chunks.flatten = chunks'.flatten →
        commands chunks = commands chunks' := by
  obtain ⟨used, hs, hext, hcut⟩ := readValue_framed h
  refine ⟨used, hs, hext, hcut, fun chunks t hc => ?_, fun chunks hpre hne => ?_, fun _ _ => commands_congr⟩
  · exact commands_cons (by rw [hc, hext])
  · obtain ⟨e, he⟩ := hcut _ hpre hne
    exact commands_nil he

/-- A `PING` in two chunks, with the start of another command behind it. -/
theorem readValue_framing_ping :
    ∃ used, utf8 "*1\r\n$4\r\nPING\r\n*1" = used ++ utf8 "*1" ∧
      commands [utf8 "*1\r\n$4\r\nPI", utf8 "NG\r\n*1"] =
        .arr [.bulkOf (utf8 "PING")] :: commands [utf8 "*1"] := by
  obtain ⟨used, hs, -, -, hchunks, -, -⟩ := readValue_framing (utf8 "*1\r\n$4\r\nPING\r\n*1")
    (utf8 "*1") (.arr [.bulkOf (utf8 "PING")]) rfl
  exact ⟨used, hs, hchunks _ _ (by rw [← hs]; decide)⟩

end Postkeys
