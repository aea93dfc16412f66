import AnonymousTypes.IdentityMap
import AnonymousTypes.Text.Utf8

/-!
# Identity maps as bytes

The stored form of an identity map. All numbers have a fixed width and are
little-endian; a text is its length in bytes, as an eight-byte number, followed by
its UTF-8 bytes.

```
map    =  count (8 bytes)  entry*  next shape (4 bytes)  next delegate (4 bytes)
entry  =  key text  name text  index (4 bytes)
```

Maps are written in key order. They are read in any order; of two entries with
the same key the later wins, and whatever follows the map is ignored. A text is
first taken in full and then checked, and a key is checked before the name that
follows it is read, so the first defect in the bytes is the one that is reported.
-/

namespace AnonymousTypes

/-! ## Numbers and texts -/

/-- The lowest `width` bytes of a number, the lowest byte first. -/
def littleEndian : Nat → Nat → List UInt8
  | 0, _ => []
  | width + 1, n => UInt8.ofNat (n % 256) :: littleEndian width (n / 256)

/-- The number with the given bytes, the lowest byte first. -/
def ofLittleEndian : List UInt8 → Nat
  | [] => 0
  | b :: rest => b.toNat + 256 * ofLittleEndian rest

/-- What can be wrong with the bytes of a map. -/
inductive DecodeError where
  /-- they end inside a number -/
  | cutInNumber
  /-- they end inside a text -/
  | cutInText
  /-- the bytes of a text are not UTF-8 -/
  | notUtf8 (defect : Text.Utf8.Malformed)
  /-- a key text is not the canonical text of a key -/
  | malformedKey (defect : ShapeKeyError)
  deriving DecidableEq

/-- Where the bytes come from; the wording of an early end depends on it. -/
inductive ByteSource where
  /-- a block of memory -/
  | memory
  /-- a stream -/
  | stream
  deriving DecidableEq

/-- The wording of a defect. -/
def DecodeError.message (source : ByteSource) : DecodeError → String
  | .cutInNumber =>
    match source with
    | .memory => "io error: unexpected end of file"
    | .stream => "io error: failed to fill whole buffer"
  | .cutInText =>
    match source with
    | .memory => "io error: "
    | .stream => "io error: failed to fill whole buffer"
  | .notUtf8 defect => "string is not valid utf8: " ++ defect.message
  | .malformedKey defect => defect.message

/-- A reader takes what it needs off the front of the bytes. -/
abbrev ByteReader (α : Type) : Type := List UInt8 → Except DecodeError (α × List UInt8)

/-- Read a number of the given width. -/
def readNumber (width : Nat) : ByteReader Nat := fun bytes =>
  if width ≤ bytes.length then .ok (ofLittleEndian (bytes.take width), bytes.drop width)
  else .error .cutInNumber

/-- Write a text. -/
def encodeText (text : String) : List UInt8 :=
  littleEndian 8 (Text.Utf8.encode text).length ++ Text.Utf8.encode text

/-- Read a text. -/
def readText : ByteReader String := fun bytes => do
  let (length, bytes) ← readNumber 8 bytes
  if length ≤ bytes.length then
    match Text.Utf8.decode (bytes.take length) with
    | .ok text => .ok (text, bytes.drop length)
    | .error defect => .error (.notUtf8 defect)
  else .error .cutInText

/-- Read a text that is the canonical text of a key. -/
def readKey : ByteReader ShapeKey := fun bytes => do
  let (text, bytes) ← readText bytes
  match ShapeKey.parse text with
  | .ok key => .ok (key, bytes)
  | .error defect => .error (.malformedKey defect)

namespace IdentityMap

/-! ## Maps -/

/-- Write an entry. -/
def encodeEntry (e : ShapeKey × Identity) : List UInt8 :=
  encodeText e.1.canonical ++ encodeText e.2.name ++ littleEndian 4 e.2.index.toNat

/-- Write a map. -/
def encode (m : IdentityMap) : List UInt8 :=
  littleEndian 8 m.entries.length ++ m.entries.flatMap encodeEntry ++
    littleEndian 4 m.numbering.nextShape.toNat ++
    littleEndian 4 m.numbering.nextDelegate.toNat

/-- Read an entry. -/
def readEntry : ByteReader (ShapeKey × Identity) := fun bytes => do
  let (key, bytes) ← readKey bytes
  let (name, bytes) ← readText bytes
  let (index, bytes) ← readNumber 4 bytes
  .ok ((key, ⟨name, UInt32.ofNat index⟩), bytes)

/-- Read so many entries. -/
def readEntries : Nat → ByteReader (List (ShapeKey × Identity))
  | 0, bytes => .ok ([], bytes)
  | count + 1, bytes => do
    let (entry, bytes) ← readEntry bytes
    let (entries, bytes) ← readEntries count bytes
    .ok (entry :: entries, bytes)

/-- Read the entries, in the order in which they are stored, and the counters. -/
def readContents : ByteReader (List (ShapeKey × Identity) × Numbering) := fun bytes => do
  let (count, bytes) ← readNumber 8 bytes
  let (entries, bytes) ← readEntries count bytes
  let (nextShape, bytes) ← readNumber 4 bytes
  let (nextDelegate, bytes) ← readNumber 4 bytes
  .ok ((entries, ⟨UInt32.ofNat nextShape, UInt32.ofNat nextDelegate⟩), bytes)

/-- The map with the given entries and counters. -/
def ofContents (contents : List (ShapeKey × Identity) × Numbering) : IdentityMap :=
  (empty.insertAll contents.1).withNumbering contents.2

/-- Read a map. -/
def decode (bytes : List UInt8) : Except DecodeError IdentityMap :=
  (readContents bytes).map fun read => ofContents read.1

end IdentityMap

/-! ## Storing and loading -/

/-- Why a map could not be stored or loaded. -/
inductive PersistError where
  /-- the map does not fit into the space for it -/
  | noSpace
  /-- the bytes are not those of a map -/
  | malformed (source : ByteSource) (defect : DecodeError)
  /-- there is no directory for the file -/
  | missingDirectory
  deriving DecidableEq

/-- The wording of the errors. -/
def PersistError.message : PersistError → String
  | .noSpace =>
    "failed to encode shape identity map: io error: failed to write whole buffer"
  | .malformed source defect =>
    "failed to decode shape identity map: " ++ defect.message source
  | .missingDirectory =>
    "shape identity map I/O failed: No such file or directory (os error 2)"

/-- A block of memory that is filled from the front. -/
structure Block where
  /-- the bytes written so far -/
  written : List UInt8
  /-- the bytes behind them, still as they were -/
  free : List UInt8

/-- Write some bytes behind those already written. -/
def Block.write (block : Block) (bytes : List UInt8) : Except PersistError Block :=
  if bytes.length ≤ block.free.length then
    .ok ⟨block.written ++ bytes, block.free.drop bytes.length⟩
  else .error .noSpace

/-- The pieces in which a text is written, its length first. -/
def textPieces (text : String) : List (List UInt8) :=
  [littleEndian 8 (Text.Utf8.encode text).length, Text.Utf8.encode text]

namespace IdentityMap

/-- Read a map from a source. -/
def load (source : ByteSource) (bytes : List UInt8) : Except PersistError IdentityMap :=
  (decode bytes).mapError (.malformed source)

/-- The pieces in which an entry is written. -/
def entryPieces (e : ShapeKey × Identity) : List (List UInt8) :=
  textPieces e.1.canonical ++ textPieces e.2.name ++ [littleEndian 4 e.2.index.toNat]

/-- The pieces in which a map is written. -/
def pieces (m : IdentityMap) : List (List UInt8) :=
  [littleEndian 8 m.entries.length] ++ m.entries.flatMap entryPieces ++
    [littleEndian 4 m.numbering.nextShape.toNat, littleEndian 4 m.numbering.nextDelegate.toNat]

/-- The content of a block of `space` zero bytes after the map was written to it, piece by
piece. The first piece that does not fit ends the attempt. -/
def writeInto (m : IdentityMap) (space : Nat) : Except PersistError (List UInt8) :=
  (m.pieces.foldlM Block.write ⟨[], List.replicate space 0⟩).map fun block =>
    block.written ++ block.free

end IdentityMap

end AnonymousTypes
