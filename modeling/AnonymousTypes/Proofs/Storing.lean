import Mathlib.Algebra.Group.Nat.Defs
import AnonymousTypes.IdentityMap.Bytes
import AnonymousTypes.Proofs.CanonicalText
import AnonymousTypes.Proofs.Utf8

/-!
# Stored maps are read back

Every part of the stored form of a map says how long it is, either by its width or by a length
in front of it. So each reader takes off just what was written, whatever follows, and takes off
nothing else: it gives a value exactly when the bytes start with what is written for it (`Reads`).
This composes from numbers (`reads_number`) and texts (`reads_text`) to entries
(`IdentityMap.reads_entry`) and the contents of whole maps (`IdentityMap.reads_contents`).

A length is stored in eight bytes. The lemmas therefore ask that it fits, which it does for
whatever can be held in memory.
-/

namespace AnonymousTypes

variable {α β : Type}

/-! ## Readers -/

/-- What a reader accepts: just what is written for the values that fit. -/
def Reads (reader : ByteReader α) (fits : α → Prop) (write : α → List UInt8) : Prop :=
  ∀ bytes x rest, reader bytes = .ok (x, rest) ↔ fits x ∧ bytes = write x ++ rest

namespace Reads

variable {reader : ByteReader α} {fits : α → Prop} {write : α → List UInt8}

/-- What is written is read back, and what follows it is left. -/
theorem read_back (h : Reads reader fits write) {x : α} (hx : fits x) (rest : List UInt8) :
    reader (write x ++ rest) = .ok (x, rest) := (h _ _ _).2 ⟨hx, rfl⟩

/-- **Where a value ends is written in it**: bytes start with at most one value. -/
theorem unique (h : Reads reader fits write) {x y : α} {rest rest' : List UInt8} (hx : fits x)
    (hy : fits y) (heq : write x ++ rest = write y ++ rest') : x = y ∧ rest = rest' := by
  have hread := h.read_back hx rest
  rw [heq, h.read_back hy rest'] at hread
  cases hread
  exact ⟨rfl, rfl⟩

/-- **A part of what is written is not read.** -/
theorem error_of_cut (h : Reads reader fits write) {x : α} (hx : fits x) {front : List UInt8}
    (hfront : front <+: write x) (hne : front ≠ write x) :
    ∃ defect, reader front = .error defect := by
  rcases hread : reader front with defect | ⟨y, rest⟩
  · exact ⟨defect, rfl⟩
  · obtain ⟨hy, rfl⟩ := (h _ _ _).1 hread
    obtain ⟨missing, hwrite⟩ := hfront
    rw [List.append_assoc, ← List.append_nil (write x)] at hwrite
    obtain ⟨rfl, hnil⟩ := h.unique hy hx hwrite
    rw [(List.append_eq_nil_iff.1 hnil).1, List.append_nil] at hne
    exact absurd rfl hne

end Reads

/-! ## Numbers -/

@[simp] theorem length_littleEndian (width n : Nat) : (littleEndian width n).length = width := by
  induction width generalizing n with
  | zero => rfl
  | succ width ih => rw [littleEndian, List.length_cons, ih]

theorem ofLittleEndian_littleEndian {width n : Nat} (h : n < 256 ^ width) :
    ofLittleEndian (littleEndian width n) = n := by
  induction width generalizing n with
  | zero => simpa [littleEndian, ofLittleEndian, eq_comm] using h
  | succ width ih =>
    have hdiv : n / 256 < 256 ^ width :=
      Nat.div_lt_of_lt_mul (by rwa [Nat.mul_comm, ← Nat.pow_succ])
    have hbyte : (UInt8.ofNat (n % 256)).toNat = n % 256 :=
      Nat.mod_eq_of_lt (Nat.mod_lt _ (by decide))
    rw [littleEndian, ofLittleEndian, ih hdiv, hbyte]
    omega

/-- Bytes are the digits of their number. -/
theorem littleEndian_ofLittleEndian (bytes : List UInt8) :
    littleEndian bytes.length (ofLittleEndian bytes) = bytes ∧
      ofLittleEndian bytes < 256 ^ bytes.length := by
  induction bytes with
  | nil => exact ⟨rfl, Nat.one_pos⟩
  | cons b bytes ih =>
    have hb := b.toNat_lt
    have hlow : (b.toNat + 256 * ofLittleEndian bytes) % 256 = b.toNat := by omega
    have hhigh : (b.toNat + 256 * ofLittleEndian bytes) / 256 = ofLittleEndian bytes := by omega
    rw [List.length_cons, ofLittleEndian, littleEndian, hlow, hhigh, ih.1, UInt8.ofNat_toNat,
      Nat.pow_succ]
    exact ⟨rfl, by omega⟩

theorem reads_number (width : Nat) :
    Reads (readNumber width) (· < 256 ^ width) (littleEndian width) := by
  intro bytes n rest
  rw [readNumber]
  constructor
  · intro h
    split at h
    · rename_i hlength
      cases h
      obtain ⟨hdigits, hlt⟩ := littleEndian_ofLittleEndian (bytes.take width)
      rw [List.length_take_of_le hlength] at hdigits hlt
      exact ⟨hlt, by rw [hdigits, List.take_append_drop]⟩
    · cases h
  · rintro ⟨hn, rfl⟩
    rw [if_pos (by simp), List.take_left' (length_littleEndian ..),
      List.drop_left' (length_littleEndian ..), ofLittleEndian_littleEndian hn]

/-- A number of four bytes is that of a word. -/
theorem readNumber_four_eq_ok_iff {bytes rest : List UInt8} {n : Nat} :
    readNumber 4 bytes = .ok (n, rest) ↔
      ∃ word : UInt32, word.toNat = n ∧ bytes = littleEndian 4 word.toNat ++ rest := by
  rw [reads_number 4 bytes n rest]
  constructor
  · rintro ⟨hn, rfl⟩
    have hword : (UInt32.ofNat n).toNat = n := Nat.mod_eq_of_lt hn
    exact ⟨UInt32.ofNat n, hword, by rw [hword]⟩
  · rintro ⟨word, rfl, hbytes⟩
    exact ⟨word.toNat_lt, hbytes⟩

/-! ## Texts -/

/-- The length of the text can be stored. -/
def FitsText (text : String) : Prop := (Text.Utf8.encode text).length < 2 ^ 64

instance (text : String) : Decidable (FitsText text) := inferInstanceAs (Decidable (_ < _))

theorem reads_text : Reads readText FitsText encodeText := by
  intro bytes text rest
  simp only [readText, bind_eq_ok_iff, Prod.exists]
  constructor
  · rintro ⟨length, after, hlength, h⟩
    obtain ⟨hfits, rfl⟩ := (reads_number 8 _ _ _).1 hlength
    split at h
    · rename_i hle
      split at h
      · rename_i found hdecode
        cases h
        have hbytes := Text.Utf8.encode_of_decode hdecode
        have hcount : (Text.Utf8.encode text).length = length := by
          rw [hbytes, List.length_take_of_le hle]
        rw [encodeText, FitsText, hcount, hbytes, List.append_assoc, List.take_append_drop]
        exact ⟨hfits, rfl⟩
      · cases h
    · cases h
  · rintro ⟨hfits, rfl⟩
    rw [encodeText, List.append_assoc]
    refine ⟨_, _, (reads_number 8).read_back hfits _, ?_⟩
    rw [if_pos (by simp), List.take_left, Text.Utf8.decode_encode, List.drop_left]

/-- The length of the canonical text can be stored. -/
theorem reads_key : Reads readKey (FitsText ·.canonical) (encodeText ·.canonical) := by
  intro bytes key rest
  simp only [readKey, bind_eq_ok_iff, Prod.exists]
  constructor
  · rintro ⟨text, after, htext, h⟩
    obtain ⟨hfits, rfl⟩ := (reads_text _ _ _).1 htext
    split at h
    · rename_i found hparse
      cases h
      rw [← ShapeKey.canonical_of_parse hparse] at hfits ⊢
      exact ⟨hfits, rfl⟩
    · cases h
  · rintro ⟨hfits, rfl⟩
    refine ⟨_, _, reads_text.read_back hfits rest, ?_⟩
    rw [ShapeKey.parse_canonical]

namespace IdentityMap

/-! ## Entries -/

/-- The lengths in the entry can be stored. -/
def FitsEntry (e : ShapeKey × Identity) : Prop := FitsText e.1.canonical ∧ FitsText e.2.name

instance (e : ShapeKey × Identity) : Decidable (FitsEntry e) := instDecidableAnd

theorem reads_entry : Reads readEntry FitsEntry encodeEntry := by
  intro bytes e rest
  simp only [readEntry, bind_eq_ok_iff, Prod.exists]
  constructor
  · rintro ⟨key, _, hkey, name, _, hname, index, _, hindex, h⟩
    obtain ⟨hkeyfits, rfl⟩ := (reads_key _ _ _).1 hkey
    obtain ⟨hnamefits, rfl⟩ := (reads_text _ _ _).1 hname
    obtain ⟨word, rfl, rfl⟩ := readNumber_four_eq_ok_iff.1 hindex
    rw [UInt32.ofNat_toNat] at h
    cases h
    refine ⟨⟨hkeyfits, hnamefits⟩, ?_⟩
    rw [encodeEntry, List.append_assoc, List.append_assoc]
  · rintro ⟨⟨hkey, hname⟩, rfl⟩
    rw [encodeEntry, List.append_assoc, List.append_assoc]
    refine ⟨e.1, _, reads_key.read_back hkey _, e.2.name, _, reads_text.read_back hname _,
      e.2.index.toNat, rest, readNumber_four_eq_ok_iff.2 ⟨_, rfl, rfl⟩, ?_⟩
    rw [UInt32.ofNat_toNat]

theorem reads_entries (count : Nat) : Reads (readEntries count)
    (fun es => es.length = count ∧ ∀ e ∈ es, FitsEntry e) (·.flatMap encodeEntry) := by
  induction count with
  | zero =>
    intro bytes es rest
    rw [readEntries]
    constructor
    · intro h
      cases h
      exact ⟨⟨rfl, fun e he => (nomatch he)⟩, rfl⟩
    · rintro ⟨⟨hlength, -⟩, rfl⟩
      rw [List.eq_nil_of_length_eq_zero hlength]
      rfl
  | succ count ih =>
    intro bytes es rest
    simp only [readEntries, bind_eq_ok_iff, Prod.exists]
    constructor
    · rintro ⟨key, identity, _, he, es', _, hes, h⟩
      obtain ⟨hfits, rfl⟩ := (reads_entry _ _ _).1 he
      obtain ⟨⟨rfl, hall⟩, rfl⟩ := (ih _ _ _).1 hes
      cases h
      refine ⟨⟨rfl, List.forall_mem_cons.2 ⟨hfits, hall⟩⟩, ?_⟩
      rw [List.flatMap_cons, List.append_assoc]
    · rintro ⟨⟨hlength, hall⟩, rfl⟩
      rcases es with _ | ⟨e, es⟩
      · cases hlength
      obtain ⟨hfits, hall⟩ := List.forall_mem_cons.1 hall
      rw [List.flatMap_cons, List.append_assoc]
      exact ⟨e.1, e.2, _, reads_entry.read_back hfits _, es, _,
        ih.read_back ⟨Nat.succ.inj hlength, hall⟩ _, rfl⟩

/-! ## Maps -/

/-- What is written for these entries and counters. -/
def encodeContents (contents : List (ShapeKey × Identity) × Numbering) : List UInt8 :=
  littleEndian 8 contents.1.length ++ contents.1.flatMap encodeEntry ++
    littleEndian 4 contents.2.nextShape.toNat ++ littleEndian 4 contents.2.nextDelegate.toNat

/-- The number of the entries and the lengths in them can be stored. -/
def FitsContents (contents : List (ShapeKey × Identity) × Numbering) : Prop :=
  contents.1.length < 2 ^ 64 ∧ ∀ e ∈ contents.1, FitsEntry e

instance (contents : List (ShapeKey × Identity) × Numbering) : Decidable (FitsContents contents) :=
  instDecidableAnd

theorem reads_contents : Reads readContents FitsContents encodeContents := by
  rintro bytes ⟨es, numbering⟩ rest
  simp only [readContents, bind_eq_ok_iff, Prod.exists]
  constructor
  · rintro ⟨count, _, hcount, es', _, hes, shape, _, hshape, delegate, _, hdelegate, h⟩
    obtain ⟨hfits, rfl⟩ := (reads_number 8 _ _ _).1 hcount
    obtain ⟨⟨rfl, hall⟩, rfl⟩ := (reads_entries _ _ _ _).1 hes
    obtain ⟨nextShape, rfl, rfl⟩ := readNumber_four_eq_ok_iff.1 hshape
    obtain ⟨nextDelegate, rfl, rfl⟩ := readNumber_four_eq_ok_iff.1 hdelegate
    rw [UInt32.ofNat_toNat, UInt32.ofNat_toNat] at h
    cases h
    exact ⟨⟨hfits, hall⟩, by simp only [encodeContents, List.append_assoc]⟩
  · rintro ⟨⟨hcount, hall⟩, rfl⟩
    simp only [encodeContents, List.append_assoc]
    refine ⟨es.length, _, (reads_number 8).read_back hcount _, es, _,
      (reads_entries _).read_back ⟨rfl, hall⟩ _, numbering.nextShape.toNat, _,
      readNumber_four_eq_ok_iff.2 ⟨_, rfl, rfl⟩, numbering.nextDelegate.toNat, rest,
      readNumber_four_eq_ok_iff.2 ⟨_, rfl, rfl⟩, ?_⟩
    rw [UInt32.ofNat_toNat, UInt32.ofNat_toNat]

/-- **The bytes that are loaded as a map** start with some contents, whose lengths can be
stored; the map is made of these. -/
theorem load_eq_ok_iff {source : ByteSource} {bytes : List UInt8} {m : IdentityMap} :
    load source bytes = .ok m ↔ ∃ contents, FitsContents contents ∧
      encodeContents contents <+: bytes ∧ ofContents contents = m := by
  rw [load, mapError_eq_ok_iff, decode, map_eq_ok_iff]
  constructor
  · rintro ⟨⟨contents, rest⟩, hread, rfl⟩
    obtain ⟨hfits, rfl⟩ := (reads_contents _ _ _).1 hread
    exact ⟨contents, hfits, List.prefix_append .., rfl⟩
  · rintro ⟨contents, hfits, ⟨rest, rfl⟩, rfl⟩
    exact ⟨_, reads_contents.read_back hfits rest, rfl⟩

/-- Whatever is not loaded is reported as malformed, with the source that it came from. Loading
has no other error. -/
theorem load_cases (source : ByteSource) (bytes : List UInt8) :
    (∃ m, load source bytes = .ok m) ∨
      ∃ defect, load source bytes = .error (.malformed source defect) := by
  rw [load]
  rcases decode bytes with defect | m
  · exact .inr ⟨defect, rfl⟩
  · exact .inl ⟨m, rfl⟩

/-! ## Written and loaded -/

/-- The number of entries and the lengths of the texts fit into eight bytes each, as every
length does on a machine that counts bytes with 64 bits. -/
def Addressable (m : IdentityMap) : Prop := FitsContents (m.entries, m.numbering)

instance (m : IdentityMap) : Decidable m.Addressable := inferInstanceAs (Decidable (FitsContents _))

/-- A map is made from what it contains. Its entries are sorted, so inserting them one after
another puts each of them at the end. -/
theorem ofContents_self (m : IdentityMap) : ofContents (m.entries, m.numbering) = m := by
  refine ext_get? (fun key => ?_) rfl
  change (empty.insertAll m.entries).get? key = m.get? key
  rcases hkey : m.get? key with _ | identity
  · rw [get?_insertAll_of_not_mem]
    · rfl
    · intro identity hmem
      rw [get?_eq_some_iff.2 hmem] at hkey
      cases hkey
  · exact get?_insertAll_of_mem _ m.nodup_keys (get?_eq_some_iff.1 hkey)

/-- **A stored map is loaded again**, whatever follows it and wherever it is kept. -/
theorem Addressable.load_append {m : IdentityMap} (h : m.Addressable) (source : ByteSource)
    (rest : List UInt8) : load source (m.encode ++ rest) = .ok m :=
  load_eq_ok_iff.2 ⟨(m.entries, m.numbering), h, List.prefix_append .., ofContents_self m⟩

/-- **A map that was cut off is reported** as such, wherever the cut is. -/
theorem Addressable.load_cut {m : IdentityMap} (h : m.Addressable) (source : ByteSource)
    {front : List UInt8} (hfront : front <+: m.encode) (hne : front ≠ m.encode) :
    ∃ defect, load source front = .error (.malformed source defect) := by
  obtain ⟨defect, hread⟩ := reads_contents.error_of_cut h hfront hne
  rw [load, decode, hread]
  exact ⟨defect, rfl⟩

/-- Maps with the same bytes are the same, so stored files can be compared in place of maps. -/
theorem Addressable.encode_inj {m m' : IdentityMap} (h : m.Addressable) (h' : m'.Addressable) :
    m.encode = m'.encode ↔ m = m' := by
  refine ⟨fun heq => ?_, congrArg encode⟩
  have hload := h.load_append .memory []
  rw [heq, h'.load_append .memory []] at hload
  exact (Except.ok.inj hload).symm

/-- An entry takes up some of the bytes of a map. -/
theorem length_le_flatMap (es : List (ShapeKey × Identity)) :
    es.length ≤ (es.flatMap encodeEntry).length ∧
      ∀ e ∈ es, (encodeEntry e).length ≤ (es.flatMap encodeEntry).length := by
  induction es with
  | nil => exact ⟨Nat.le_refl 0, fun _ he => (nomatch he)⟩
  | cons e es ih =>
    have hpos : 4 ≤ (encodeEntry e).length := by
      rw [encodeEntry, List.length_append, length_littleEndian]
      exact Nat.le_add_left ..
    rw [List.flatMap_cons, List.length_append, List.length_cons]
    refine ⟨by omega, fun e' he' => ?_⟩
    rcases List.mem_cons.1 he' with rfl | he'
    · exact Nat.le_add_right ..
    · exact Nat.le_trans (ih.2 e' he') (Nat.le_add_left ..)

/-- A map that fits into memory as a whole is addressable. -/
theorem addressable_of_length_lt {m : IdentityMap} (h : m.encode.length < 2 ^ 64) :
    m.Addressable := by
  obtain ⟨hcount, hentries⟩ := length_le_flatMap m.entries
  simp only [encode, List.length_append, length_littleEndian] at h
  have hlength : m.entries.length < 2 ^ 64 := by omega
  refine ⟨hlength, fun e he => ?_⟩
  have hle := hentries e he
  simp only [encodeEntry, encodeText, List.length_append, length_littleEndian] at hle
  exact ⟨by rw [FitsText]; omega, by rw [FitsText]; omega⟩

theorem load_encode {m : IdentityMap} (h : m.encode.length < 2 ^ 64) (source : ByteSource)
    (rest : List UInt8) : load source (m.encode ++ rest) = .ok m :=
  (addressable_of_length_lt h).load_append source rest

/-! ## Written into a block -/

theorem flatten_entryPieces (es : List (ShapeKey × Identity)) :
    (es.flatMap entryPieces).flatten = es.flatMap encodeEntry := by
  induction es with
  | nil => rfl
  | cons e es ih =>
    rw [List.flatMap_cons, List.flatten_append, ih, List.flatMap_cons]
    simp [entryPieces, textPieces, encodeEntry, encodeText]

/-- The pieces of a map make up its bytes. -/
theorem flatten_pieces (m : IdentityMap) : m.pieces.flatten = m.encode := by
  rw [pieces, List.flatten_append, List.flatten_append, flatten_entryPieces]
  simp [encode]

/-- Pieces are written as long as there is room for the next. -/
theorem foldlM_write (pieces : List (List UInt8)) (block : Block) :
    pieces.foldlM Block.write block =
      if pieces.flatten.length ≤ block.free.length then
        .ok ⟨block.written ++ pieces.flatten, block.free.drop pieces.flatten.length⟩
      else .error .noSpace := by
  induction pieces generalizing block with
  | nil => simp [pure, Except.pure]
  | cons piece pieces ih =>
    rw [List.foldlM_cons, Block.write, List.flatten_cons, List.length_append]
    split
    · rename_i hfits
      change pieces.foldlM Block.write _ = _
      rw [ih, List.length_drop]
      by_cases hrest : pieces.flatten.length ≤ block.free.length - piece.length
      · rw [if_pos hrest, if_pos (by omega), List.append_assoc, List.drop_drop]
      · rw [if_neg hrest, if_neg (by omega)]
    · rw [if_neg (by omega)]
      rfl

/-- **A map is written into a block of zeros** if it fits. It stands at the front, and the zeros
behind it stay. -/
theorem writeInto_eq (m : IdentityMap) (space : Nat) :
    m.writeInto space = if m.encode.length ≤ space then
        .ok (m.encode ++ List.replicate (space - m.encode.length) 0)
      else .error .noSpace := by
  rw [writeInto, foldlM_write, flatten_pieces, List.length_replicate]
  split
  · rw [Except.map, List.nil_append, List.drop_replicate]
  · rfl

/-! ## The round trip -/

/-- **Storing loses nothing, and no part of a stored map passes for a map.** A stored map is
loaded again from memory and from a stream, whatever follows it. What is left of it when the end
is missing is malformed. Different maps have different bytes. And a map is written into a block
exactly if the block has room for all its bytes, which then stand in front of zeros. -/
theorem Addressable.stored {m : IdentityMap} (h : m.Addressable) :
    (∀ source rest, load source (m.encode ++ rest) = .ok m) ∧
    (∀ source front, front <+: m.encode → front ≠ m.encode →
      ∃ defect, load source front = .error (.malformed source defect)) ∧
    (∀ m' : IdentityMap, m'.Addressable → (m'.encode = m.encode ↔ m' = m)) ∧
    (∀ space, (∃ block, m.writeInto space = .ok block) ↔ m.encode.length ≤ space) ∧
    ∀ space block, m.writeInto space = .ok block →
      block = m.encode ++ List.replicate (space - m.encode.length) 0 := by
  refine ⟨h.load_append, fun source _ => h.load_cut source, fun m' h' => h'.encode_inj h,
    fun space => ?_, fun space block hblock => ?_⟩
  · rw [writeInto_eq]
    split
    · exact ⟨fun _ => ‹_›, fun _ => ⟨_, rfl⟩⟩
    · exact ⟨fun ⟨_, hblock⟩ => (nomatch hblock), fun hle => absurd hle ‹_›⟩
  · rw [writeInto_eq] at hblock
    split at hblock
    · exact (Except.ok.inj hblock).symm
    · cases hblock

/-- A shape with names in two scripts, and the shape without fields. -/
theorem stored_two_shapes : ∃ m : IdentityMap, m.size = 2 ∧ m.Addressable ∧
    load .stream (m.encode ++ [0xFF]) = .ok m ∧
    (∃ defect, load .memory (m.encode.take 33) = .error (.malformed .memory defect)) ∧
    m.writeInto (m.encode.length + 2) = .ok (m.encode ++ [0, 0]) := by
  let shape : ShapeKey := ⟨["név", "имя"], by decide +kernel⟩
  let m := ((empty.insert shape ⟨"T₁", 1⟩).insert .empty ⟨"T₀", 0⟩).withNumbering ⟨2, 0⟩
  have hm : m.Addressable := by decide +kernel
  obtain ⟨hload, hcut, -, hwritten, hblock⟩ := hm.stored
  refine ⟨m, by decide +kernel, hm, hload .stream _,
    hcut .memory _ (List.take_prefix ..) (by decide +kernel), ?_⟩
  obtain ⟨block, hb⟩ := (hwritten (m.encode.length + 2)).2 (Nat.le_add_right ..)
  rw [hb, hblock _ _ hb, Nat.add_sub_cancel_left]
  rfl

end IdentityMap

end AnonymousTypes
