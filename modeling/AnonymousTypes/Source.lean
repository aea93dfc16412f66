/-!
# Source positions

Where a piece of program text stands: a `Span` is a range of byte offsets in one
file, a `Location` is a span together with its file.

Locations are ordered by file, then start, then end. The naming of anonymous
types only ever compares *where a construction starts*, so that part of a
location is also available packed into one 64-bit word, `Location.orderKey`:
the file ordinal in the upper half, the start offset in the lower half. Two
keys are then compared by one machine comparison.

A span is not required to be well formed: `stop` may lie before `start`, in
which case the span has no length.
-/

namespace AnonymousTypes

/-- A range of byte offsets: from `start` up to, but not including, `stop`. -/
structure Span where
  /-- offset of the first byte -/
  start : UInt32
  /-- offset just after the last byte -/
  stop : UInt32
  deriving DecidableEq

namespace Span

/-- The span that stands for "nowhere in particular". -/
def dummy : Span := ⟨0, 0⟩

/-- The number of bytes covered; `none` when the span ends before it starts. -/
def length? (s : Span) : Option UInt32 :=
  if s.start ≤ s.stop then some (s.stop - s.start) else none

/-- A span is empty when it ends where it starts. -/
def isEmpty (s : Span) : Bool := s.start == s.stop

/-- The smallest span that reaches from the earlier start to the later end. -/
def merge (a b : Span) : Span := ⟨min a.start b.start, max a.stop b.stop⟩

/-- Spans are ordered by start, then by end. -/
protected def compare (a b : Span) : Ordering :=
  (compare a.start b.start).then (compare a.stop b.stop)

instance : Ord Span := ⟨Span.compare⟩

instance : ToString Span := ⟨fun s => s!"{s.start}..{s.stop}"⟩

end Span

/-- A file, by its ordinal among the files of one compilation. -/
structure FileId where
  /-- position in the list of files -/
  ordinal : UInt32
  deriving DecidableEq

/-- The diagnostic spelling of a file. -/
def FileId.describe (f : FileId) : String := s!"FileId({f.ordinal})"

/-- A span in a file. -/
structure Location where
  /-- the file -/
  file : FileId
  /-- the range of bytes in it -/
  span : Span
  deriving DecidableEq

namespace Location

/-- A location from its three numbers. -/
def ofOffsets (file start stop : UInt32) : Location := ⟨⟨file⟩, ⟨start, stop⟩⟩

/-- Locations are ordered by file, then by span. -/
protected def compare (a b : Location) : Ordering :=
  (compare a.file.ordinal b.file.ordinal).then (compare a.span b.span)

instance : Ord Location := ⟨Location.compare⟩

/-- Whether `a` may stand before `b` in a sorted list. -/
def le (a b : Location) : Bool := (compare a b).isLE

/-- File and start offset packed into one word, the file in the upper half. The
end of the span takes no part. -/
def orderKey (l : Location) : UInt64 :=
  l.file.ordinal.toUInt64 <<< 32 ||| l.span.start.toUInt64

instance : ToString Location := ⟨fun l => s!"{l.file.ordinal}:{l.span}"⟩

/-- The order key as a number: the file counts in units of two to the power of 32. -/
theorem toNat_orderKey (l : Location) :
    l.orderKey.toNat = l.file.ordinal.toNat * 4294967296 + l.span.start.toNat := by
  have hf : l.file.ordinal.toNat < 4294967296 := l.file.ordinal.toNat_lt
  have hs : l.span.start.toNat < 2 ^ 32 := l.span.start.toNat_lt
  have hshift : l.file.ordinal.toNat <<< 32 = 2 ^ 32 * l.file.ordinal.toNat := by
    rw [Nat.shiftLeft_eq, Nat.mul_comm]
  have hkey : l.orderKey.toNat =
      (l.file.ordinal.toNat <<< 32) % 2 ^ 64 ||| l.span.start.toNat := by
    rw [orderKey, UInt64.toNat_or, UInt64.toNat_shiftLeft, UInt32.toNat_toUInt64,
      UInt32.toNat_toUInt64]
    rfl
  rw [hkey, hshift, Nat.mod_eq_of_lt (by omega), ← Nat.two_pow_add_eq_or_of_lt hs]
  omega

end Location

end AnonymousTypes
