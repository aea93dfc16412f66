import Mathlib.Data.List.Perm.Subperm
import AnonymousTypes.Proofs.Storing

/-!
# Which bytes are maps

The bytes of a map may come from anywhere. This module says which of them are loaded and as
what, in terms of what stands in them: a number of entries, each with a text for its key, and two
counters (`StoredForm`). Keys may be in any order and may repeat; of entries with the same key the
last counts, and what follows the map is ignored (`IdentityMap.exists_load`). All other bytes are
reported as malformed (`IdentityMap.exists_opens`, `IdentityMap.load_cases`).

So a map can be loaded from bytes that were not written for it. They are those that are written
for it, with something behind, exactly if the key texts stand in ascending order
(`IdentityMap.encode_prefix_iff`).
-/

namespace AnonymousTypes

/-- What the bytes of a map say: the entries, with the text of the key in each, and the counters.
Any text can stand for a key here. -/
structure StoredForm where
  /-- key texts and identities, in the order in which they are stored -/
  entries : List (String × Identity)
  /-- the counters -/
  numbering : Numbering

namespace StoredForm

/-- The bytes of an entry. -/
def encodeEntry (e : String × Identity) : List UInt8 :=
  encodeText e.1 ++ encodeText e.2.name ++ littleEndian 4 e.2.index.toNat

/-- The bytes of the whole. -/
def encode (form : StoredForm) : List UInt8 :=
  littleEndian 8 form.entries.length ++ form.entries.flatMap encodeEntry ++
    littleEndian 4 form.numbering.nextShape.toNat ++
    littleEndian 4 form.numbering.nextDelegate.toNat

/-- The bytes start with this form of a map: its lengths are stored in eight bytes each, and its
key texts are those of keys. -/
structure Opens (form : StoredForm) (bytes : List UInt8) : Prop where
  /-- the number of entries can be stored -/
  count_lt : form.entries.length < 2 ^ 64
  /-- the lengths of the texts can be stored -/
  fits : ∀ e ∈ form.entries, FitsText e.1 ∧ FitsText e.2.name
  /-- the key texts are empty or have a name behind each bar -/
  isKeyText : ∀ e ∈ form.entries, ShapeKey.IsKeyText e.1
  /-- the bytes of the form come first -/
  front : form.encode <+: bytes

/-- The form in which some entries and counters are stored. -/
def ofContents (contents : List (ShapeKey × Identity) × Numbering) : StoredForm :=
  ⟨contents.1.map fun e => (e.1.canonical, e.2), contents.2⟩

theorem length_ofContents (contents : List (ShapeKey × Identity) × Numbering) :
    (ofContents contents).entries.length = contents.1.length := List.length_map ..

theorem encode_ofContents (contents : List (ShapeKey × Identity) × Numbering) :
    (ofContents contents).encode = IdentityMap.encodeContents contents := by
  simp only [encode, ofContents, IdentityMap.encodeContents, List.length_map, List.flatMap_map]
  rfl

/-- Key texts are read as keys, so a form with such texts comes from contents of a map. -/
theorem exists_ofContents {form : StoredForm}
    (h : ∀ e ∈ form.entries, ShapeKey.IsKeyText e.1) : ∃ contents, ofContents contents = form := by
  obtain ⟨entries, numbering⟩ := form
  suffices hentries : ∃ es : List (ShapeKey × Identity),
      es.map (fun e => (e.1.canonical, e.2)) = entries by
    obtain ⟨es, rfl⟩ := hentries
    exact ⟨(es, numbering), rfl⟩
  induction entries with
  | nil => exact ⟨[], rfl⟩
  | cons e entries ih =>
    obtain ⟨he, hentries⟩ := List.forall_mem_cons.1 h
    obtain ⟨key, hkey⟩ := ShapeKey.isKeyText_iff.1 he
    obtain ⟨es, rfl⟩ := ih hentries
    refine ⟨(key, e.2) :: es, ?_⟩
    rw [List.map_cons, ShapeKey.canonical_of_parse hkey]

theorem opens_ofContents {contents : List (ShapeKey × Identity) × Numbering}
    {bytes : List UInt8} : (ofContents contents).Opens bytes ↔
      IdentityMap.FitsContents contents ∧ IdentityMap.encodeContents contents <+: bytes := by
  constructor
  · intro h
    have hcount := h.count_lt
    rw [length_ofContents] at hcount
    exact ⟨⟨hcount, fun e he => h.fits (e.1.canonical, e.2) (List.mem_map_of_mem he)⟩,
      encode_ofContents contents ▸ h.front⟩
  · rintro ⟨⟨hcount, hfits⟩, hfront⟩
    rw [← length_ofContents] at hcount
    refine ⟨hcount, fun e he => ?_, fun e he => ?_, encode_ofContents contents ▸ hfront⟩
    · obtain ⟨entry, hentry, rfl⟩ := List.mem_map.1 he
      exact hfits entry hentry
    · obtain ⟨entry, hentry, rfl⟩ := List.mem_map.1 he
      exact ShapeKey.isKeyText_iff.2 ⟨_, ShapeKey.parse_canonical _⟩

/-- The last identity stored with a key. -/
theorem lookup_ofContents (contents : List (ShapeKey × Identity) × Numbering) (key : ShapeKey) :
    (ofContents contents).entries.reverse.lookup key.canonical =
      contents.1.reverse.lookup key := by
  rw [ofContents, ← List.map_reverse]
  generalize contents.1.reverse = es
  induction es with
  | nil => rfl
  | cons e es ih =>
    rw [List.map_cons, List.lookup_cons, List.lookup_cons, ih]
    by_cases he : key = e.1
    · rw [he, beq_self_eq_true, beq_self_eq_true]
    · rw [beq_eq_false_iff_ne.2 he,
        beq_eq_false_iff_ne.2 fun hcanonical => he (ShapeKey.canonical_inj.1 hcanonical)]

end StoredForm

namespace IdentityMap

open StoredForm (Opens)

variable {source : ByteSource} {bytes : List UInt8} {m : IdentityMap} {form : StoredForm}

theorem get?_ofContents (contents : List (ShapeKey × Identity) × Numbering) (key : ShapeKey) :
    (ofContents contents).get? key = contents.1.reverse.lookup key := by
  change (empty.insertAll contents.1).get? key = _
  rw [get?_insertAll]
  exact Option.or_none

/-- The map holds what the form says, where of entries with the same key the last counts. -/
def Holds (m : IdentityMap) (form : StoredForm) : Prop :=
  m.numbering = form.numbering ∧ ∀ key, m.get? key = form.entries.reverse.lookup key.canonical

theorem holds_ofContents_iff {contents : List (ShapeKey × Identity) × Numbering} :
    m.Holds (.ofContents contents) ↔ ofContents contents = m := by
  constructor
  · rintro ⟨hnumbering, hget⟩
    refine ext_get? (fun key => ?_) hnumbering.symm
    rw [get?_ofContents, hget, StoredForm.lookup_ofContents]
  · rintro rfl
    refine ⟨rfl, fun key => ?_⟩
    rw [get?_ofContents, StoredForm.lookup_ofContents]

/-- Bytes that start with a form are loaded as the map that holds it. -/
theorem exists_load (h : form.Opens bytes) (source : ByteSource) :
    ∃ m, load source bytes = .ok m ∧ m.Holds form := by
  obtain ⟨contents, rfl⟩ := StoredForm.exists_ofContents h.isKeyText
  obtain ⟨hfits, hfront⟩ := StoredForm.opens_ofContents.1 h
  exact ⟨ofContents contents, load_eq_ok_iff.2 ⟨contents, hfits, hfront, rfl⟩,
    holds_ofContents_iff.2 rfl⟩

/-- Nothing else is loaded: whatever a map was loaded from starts with a form, and the map holds
what the form says. -/
theorem exists_opens (h : load source bytes = .ok m) :
    ∃ form : StoredForm, form.Opens bytes ∧ m.Holds form := by
  obtain ⟨contents, hfits, hfront, hm⟩ := load_eq_ok_iff.1 h
  exact ⟨.ofContents contents, StoredForm.opens_ofContents.2 ⟨hfits, hfront⟩,
    holds_ofContents_iff.2 hm⟩

/-- Bytes start with at most one form, since forms are written so that their end can be told. -/
theorem opens_unique {form' : StoredForm} (h : form.Opens bytes) (h' : form'.Opens bytes) :
    form = form' := by
  obtain ⟨contents, rfl⟩ := StoredForm.exists_ofContents h.isKeyText
  obtain ⟨contents', rfl⟩ := StoredForm.exists_ofContents h'.isKeyText
  obtain ⟨hfits, rest, hrest⟩ := StoredForm.opens_ofContents.1 h
  obtain ⟨hfits', rest', hrest'⟩ := StoredForm.opens_ofContents.1 h'
  obtain ⟨rfl, -⟩ := reads_contents.unique hfits hfits' (hrest.trans hrest'.symm)
  rfl

theorem holds_of_load (hload : load source bytes = .ok m) (h : form.Opens bytes) :
    m.Holds form := by
  obtain ⟨form', h', hholds⟩ := exists_opens hload
  exact opens_unique h h' ▸ hholds

/-! ## Bytes that were written for the map -/

/-- An entry that is found was stored. -/
theorem mem_of_mem_entries {contents : List (ShapeKey × Identity) × Numbering}
    {e : ShapeKey × Identity} (he : e ∈ (ofContents contents).entries) : e ∈ contents.1 := by
  have hget := get?_eq_some_iff.2 he
  rw [get?_ofContents] at hget
  obtain ⟨before, after, heq, -⟩ := List.lookup_eq_some_iff.1 hget
  have hmem : e ∈ contents.1.reverse := heq ▸ List.mem_append_right _ (List.mem_cons_self ..)
  exact List.mem_reverse.1 hmem

/-- **What was loaded is addressable**: it holds no more than what was stored. -/
theorem addressable_of_load (h : load source bytes = .ok m) : m.Addressable := by
  obtain ⟨contents, ⟨hcount, hfits⟩, -, rfl⟩ := load_eq_ok_iff.1 h
  have hlength : (ofContents contents).entries.length ≤ contents.1.length :=
    (List.subperm_of_subset (nodup_entries _) fun _ he => mem_of_mem_entries he).length_le
  exact ⟨Nat.lt_of_le_of_lt hlength hcount, fun e he => hfits e (mem_of_mem_entries he)⟩

/-- Contents in key order are those of their map. -/
theorem entries_ofContents {contents : List (ShapeKey × Identity) × Numbering}
    (h : contents.1.Pairwise (·.1 < ·.1)) : (ofContents contents).entries = contents.1 :=
  congrArg entries (ofContents_self ⟨contents.1, contents.2, h⟩)

/-- **Which bytes were written for the map** that is loaded from them: those with ascending key
texts. -/
theorem encode_prefix_iff (h : form.Opens bytes) (hload : load source bytes = .ok m) :
    m.encode <+: bytes ↔
      form.entries.Pairwise fun a b => Text.Utf8.encode a.1 < Text.Utf8.encode b.1 := by
  have hfit := addressable_of_load hload
  obtain ⟨contents, rfl⟩ := StoredForm.exists_ofContents h.isKeyText
  obtain ⟨hfits, hfront⟩ := StoredForm.opens_ofContents.1 h
  obtain rfl := holds_ofContents_iff.1 (holds_of_load hload h)
  -- byte order of the texts is the order of the keys
  have hsorted : ((StoredForm.ofContents contents).entries.Pairwise fun a b =>
      Text.Utf8.encode a.1 < Text.Utf8.encode b.1) ↔ contents.1.Pairwise (·.1 < ·.1) := by
    rw [StoredForm.ofContents, List.pairwise_map]
    simp only [Text.Utf8.encode_lt_iff]
    rfl
  rw [hsorted]
  constructor
  · rintro ⟨rest, hrest⟩
    obtain ⟨rest', hrest'⟩ := hfront
    obtain ⟨hsame, -⟩ := reads_contents.unique hfit hfits (hrest.trans hrest'.symm)
    rw [← hsame]
    exact (ofContents contents).sorted
  · intro hpairwise
    rw [encode, entries_ofContents hpairwise]
    exact hfront

/-- **Which bytes are maps, and of what.** Bytes are loaded exactly if they start with the form of
a map, that is, a number of entries, the entries with texts that are UTF-8 and key texts that are
empty or have a name behind each bar, and two counters. The map that is loaded then holds what the
form says, the last of entries with the same key. All other bytes are malformed; no key text in
them makes the reader of keys fault. What is loaded from bytes is what was written there exactly if
the key texts ascend. And it does not matter whether bytes are read from memory or from a
stream. -/
theorem load_exact (bytes : List UInt8) :
    (∀ source, (∃ m, load source bytes = .ok m) ↔ ∃ form : StoredForm, form.Opens bytes) ∧
    (∀ source m (form : StoredForm), load source bytes = .ok m → form.Opens bytes → m.Holds form) ∧
    (∀ source, (¬ ∃ form : StoredForm, form.Opens bytes) →
      ∃ defect, load source bytes = .error (.malformed source defect)) ∧
    (∀ text, ShapeKey.parseChecked text = .ok (ShapeKey.parse text)) ∧
    (∀ source m (form : StoredForm), load source bytes = .ok m → form.Opens bytes →
      (m.encode <+: bytes ↔
      form.entries.Pairwise fun a b => Text.Utf8.encode a.1 < Text.Utf8.encode b.1)) ∧
    ∀ m, load .stream bytes = .ok m ↔ load .memory bytes = .ok m := by
  refine ⟨fun source => ⟨fun ⟨m, hload⟩ => ?_, fun ⟨form, h⟩ => ?_⟩,
    fun source m form => holds_of_load, fun source hnone => ?_, ShapeKey.parseChecked_eq,
    fun source m form hload h => encode_prefix_iff h hload, fun m => ?_⟩
  · obtain ⟨form, h, -⟩ := exists_opens hload
    exact ⟨form, h⟩
  · obtain ⟨m, hload, -⟩ := exists_load h source
    exact ⟨m, hload⟩
  · rcases load_cases source bytes with ⟨m, hload⟩ | hmalformed
    · obtain ⟨form, h, -⟩ := exists_opens hload
      exact absurd ⟨form, h⟩ hnone
    · exact hmalformed
  · rw [load_eq_ok_iff, load_eq_ok_iff]

end IdentityMap

end AnonymousTypes
