/-!
# UTF-8

Texts as bytes and back. `encode` writes each character in its one to four
bytes; `decode` reads a whole byte string, and when it is not UTF-8 says *where*
and *how* it stops being so:

* `invalid length index` — from `index` on stands a sequence that no character
  starts with; its first `length` bytes are the ones to skip. They are the
  longest part that could still have begun a character, at least one byte;
* `incomplete index` — the bytes end inside the character that starts at `index`.

The reader is a machine that takes one byte at a time. Between characters it
classifies the leading byte: the payload bits it carries and the ranges in which
the following bytes must lie. The first of these ranges is narrower than `80–BF`
after `E0`, `ED`, `F0` and `F4`, which rules out overlong spellings, surrogates
and numbers above the last code point.
-/

namespace AnonymousTypes.Text.Utf8

/-- The bytes of a text. -/
def encode (text : String) : List UInt8 := text.toList.flatMap String.utf8EncodeChar

/-- Why a byte string is not UTF-8. -/
inductive Malformed where
  /-- `length` bytes from `index` on cannot begin a character -/
  | invalid (length index : Nat)
  /-- the input ends inside the character at `index` -/
  | incomplete (index : Nat)
  deriving DecidableEq

/-- The wording of the two defects. -/
def Malformed.message : Malformed → String
  | .invalid length index => s!"invalid utf-8 sequence of {length} bytes from index {index}"
  | .incomplete index => s!"incomplete utf-8 byte sequence from index {index}"

/-- What a leading byte announces: its share of the code point, and the closed
range of each byte that has to follow. -/
structure Lead where
  /-- the payload bits of the leading byte -/
  payload : Nat
  /-- the ranges of the following bytes, in order -/
  pending : List (Nat × Nat)

/-- The range of an unrestricted continuation byte. -/
def continuation : Nat × Nat := (0x80, 0xBF)

/-- Classify a leading byte; `none` if no character starts with it. -/
def Lead.ofByte? (b : Nat) : Option Lead :=
  if b < 0x80 then some ⟨b, []⟩
  else if b < 0xC2 then none
  else if b < 0xE0 then some ⟨b - 0xC0, [continuation]⟩
  else if b = 0xE0 then some ⟨0, [(0xA0, 0xBF), continuation]⟩
  else if b = 0xED then some ⟨0xD, [(0x80, 0x9F), continuation]⟩
  else if b < 0xF0 then some ⟨b - 0xE0, [continuation, continuation]⟩
  else if b = 0xF0 then some ⟨0, [(0x90, 0xBF), continuation, continuation]⟩
  else if b < 0xF4 then some ⟨b - 0xF0, [continuation, continuation, continuation]⟩
  else if b = 0xF4 then some ⟨4, [(0x80, 0x8F), continuation, continuation]⟩
  else none

/-- Where the reader stands: the index of the character it is in, how many bytes
of it are taken, the payload so far, and the ranges of the bytes still owed. -/
structure Reading where
  /-- index of the first byte of the current character -/
  start : Nat
  /-- bytes of it already taken -/
  taken : Nat
  /-- payload bits collected so far -/
  payload : Nat
  /-- ranges of the bytes still owed -/
  pending : List (Nat × Nat)

/-- Between characters, with the next one starting at `index`. -/
def Reading.between (index : Nat) : Reading := ⟨index, 0, 0, []⟩

/-- Read the characters from the given position on. -/
def decodeFrom (r : Reading) : List UInt8 → Except Malformed (List Char)
  | [] => if r.pending.isEmpty then .ok [] else .error (.incomplete r.start)
  | b :: rest =>
    match r.pending with
    | [] =>
      match Lead.ofByte? b.toNat with
      | none => .error (.invalid 1 r.start)
      | some ⟨payload, []⟩ =>
        (decodeFrom (.between (r.start + 1)) rest).map (Char.ofNat payload :: ·)
      | some ⟨payload, range :: ranges⟩ =>
        decodeFrom ⟨r.start, 1, payload, range :: ranges⟩ rest
    | (low, high) :: ranges =>
      if low ≤ b.toNat ∧ b.toNat ≤ high then
        let payload := r.payload * 64 + (b.toNat - 0x80)
        if ranges.isEmpty then
          (decodeFrom (.between (r.start + r.taken + 1)) rest).map (Char.ofNat payload :: ·)
        else
          decodeFrom ⟨r.start, r.taken + 1, payload, ranges⟩ rest
      else .error (.invalid r.taken r.start)

/-- The text that the bytes spell. -/
def decode (bytes : List UInt8) : Except Malformed String :=
  (decodeFrom (.between 0) bytes).map String.ofList

end AnonymousTypes.Text.Utf8
