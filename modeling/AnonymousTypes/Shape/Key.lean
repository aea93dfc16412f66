import AnonymousTypes.Fault

/-!
# Shape keys

What makes two anonymous records the same type is the sequence of their field
names, and nothing else: neither the types of the fields nor where they are
written. A `ShapeKey` is such a sequence.

Its *canonical text* puts a bar before every name, `|a|b|c`, and is empty for the
record without fields. Field names are not empty and contain no bar, so the
text determines the names (`ShapeKey.canonical_inj`): keys can be compared,
sorted, stored and exchanged by their text alone. `ShapeKey.parse` reads a text
back and rejects every text that is not the canonical text of a key.
-/

namespace AnonymousTypes

/-- A text can name a field if it is not empty and contains no bar. -/
def IsFieldName (name : String) : Prop := name ≠ "" ∧ '|' ∉ name.toList

instance (name : String) : Decidable (IsFieldName name) := instDecidableAnd

/-- The ordered field names of an anonymous record. -/
structure ShapeKey where
  /-- the names, in declaration order -/
  fields : List String
  /-- all of them can name a field -/
  isFieldName : ∀ name ∈ fields, IsFieldName name

/-- Why a text is not the canonical text of a shape key. -/
inductive ShapeKeyError where
  /-- the text is not empty and does not start with a bar -/
  | missingBar (text : String)
  /-- between or after the bars stands an empty name, first at this position -/
  | emptyName (text : String) (position : Nat)
  deriving DecidableEq

/-- The wording of the two errors. -/
def ShapeKeyError.message : ShapeKeyError → String
  | .missingBar text => s!"shape key `{text}` does not start with `|`"
  | .emptyName text position =>
    s!"shape key `{text}` has an empty field name at position {position}"

namespace ShapeKey

/-- The key of the record without fields. -/
def empty : ShapeKey := ⟨[], by simp⟩

/-- The key with the given field names. The first of them that cannot name a
field is a fault. -/
def ofFields (names : List String) : Except Fault ShapeKey :=
  if h : ∀ name ∈ names, IsFieldName name then .ok ⟨names, h⟩
  else .error (.invalidFieldName ((names.find? fun name => ¬ IsFieldName name).getD ""))

/-- The characters of the canonical text: a bar before every name. -/
def canonicalChars (names : List String) : List Char :=
  names.flatMap fun name => '|' :: name.toList

/-- The canonical text. -/
def canonical (key : ShapeKey) : String := String.ofList (canonicalChars key.fields)

instance : ToString ShapeKey := ⟨canonical⟩

/-- The number of fields. -/
def size (key : ShapeKey) : Nat := key.fields.length

/-- Whether there are no fields. -/
def isEmpty (key : ShapeKey) : Bool := key.fields.isEmpty

/-- The position of a field. -/
def position? (key : ShapeKey) (name : String) : Option Nat := key.fields.idxOf? name

/-- The texts between the bars of a text. -/
def segments (text : List Char) : List String := (text.splitOn '|').map String.ofList

theorem not_mem_of_mem_splitOn {text segment : List Char} (h : segment ∈ text.splitOn '|') :
    '|' ∉ segment := by
  induction text generalizing segment with
  | nil =>
    rw [List.splitOn_nil, List.mem_singleton] at h
    rw [h]
    exact List.not_mem_nil
  | cons c text ih =>
    rw [List.splitOn_cons_eq_if_modifyHead] at h
    split at h
    · rcases List.mem_cons.1 h with rfl | h
      · exact List.not_mem_nil
      · exact ih h
    · rename_i hc
      rcases hs : text.splitOn '|' with _ | ⟨first, more⟩
      · rw [hs] at h
        exact absurd h List.not_mem_nil
      · rw [hs, List.modifyHead_cons] at h
        rw [hs] at ih
        rcases List.mem_cons.1 h with rfl | h
        · intro hbar
          rcases List.mem_cons.1 hbar with rfl | hbar
          · exact hc (beq_self_eq_true '|')
          · exact ih (List.mem_cons_self ..) hbar
        · exact ih (List.mem_cons_of_mem _ h)

/-- No segment contains a bar. -/
theorem not_mem_of_mem_segments {text : List Char} {name : String} (h : name ∈ segments text) :
    '|' ∉ name.toList := by
  obtain ⟨segment, hs, rfl⟩ := List.mem_map.1 h
  rw [String.toList_ofList]
  exact not_mem_of_mem_splitOn hs

/-- Read a canonical text. -/
def parse (text : String) : Except ShapeKeyError ShapeKey :=
  match text.toList with
  | [] => .ok empty
  | '|' :: rest =>
    if h : "" ∈ segments rest then .error (.emptyName text ((segments rest).idxOf ""))
    else .ok ⟨segments rest, fun _ hn => ⟨fun he => h (he ▸ hn), not_mem_of_mem_segments hn⟩⟩
  | _ :: _ => .error (.missingBar text)

/-- Read a canonical text with the key made by `ofFields`, which looks at every name
again and could fault. It never does (`parseChecked_eq`), so `parse` leaves this out. -/
def parseChecked (text : String) : Except Fault (Except ShapeKeyError ShapeKey) :=
  match text.toList with
  | [] => .ok (.ok empty)
  | '|' :: rest =>
    match (segments rest).findIdx? (· == "") with
    | some position => .ok (.error (.emptyName text position))
    | none => (ofFields (segments rest)).map .ok
  | _ :: _ => .ok (.error (.missingBar text))

/-! ## Keys and canonical texts determine each other -/

/-- The canonical text of at least one name is a bar, then the names separated by
bars. -/
theorem canonicalChars_cons (name : String) (names : List String) :
    canonicalChars (name :: names) =
      '|' :: ['|'].intercalate ((name :: names).map String.toList) := by
  induction names generalizing name with
  | nil => simp [canonicalChars]
  | cons next names ih =>
    rw [canonicalChars, List.flatMap_cons, ← canonicalChars, ih next]
    simp

/-- The names are found again between the bars. -/
theorem segments_of_names {name : String} {names : List String}
    (h : ∀ n ∈ name :: names, IsFieldName n) :
    segments (['|'].intercalate ((name :: names).map String.toList)) = name :: names := by
  rw [segments, List.splitOn_intercalate, List.map_map]
  · simp
  · intro chars hchars
    obtain ⟨n, hn, rfl⟩ := List.mem_map.1 hchars
    exact (h n hn).2
  · simp

@[ext] theorem ext {a b : ShapeKey} (h : a.fields = b.fields) : a = b := by
  cases a
  cases b
  subst h
  rfl

/-- **Reading undoes writing.** -/
theorem parse_canonical (key : ShapeKey) : parse key.canonical = .ok key := by
  obtain ⟨_ | ⟨name, names⟩, hvalid⟩ := key
  · rfl
  · have hseg := segments_of_names hvalid
    have hne : "" ∉ name :: names := fun he => (hvalid _ he).1 rfl
    rw [parse]
    simp only [canonical, String.toList_ofList, canonicalChars_cons, hseg]
    rw [dif_neg hne]

/-- **Only canonical texts are read.** -/
theorem canonical_of_parse {text : String} {key : ShapeKey} (h : parse text = .ok key) :
    key.canonical = text := by
  rw [← String.toList_inj, canonical, String.toList_ofList]
  rw [parse] at h
  split at h
  · rename_i htext
    cases h
    rw [htext]
    rfl
  · rename_i rest htext
    split at h
    · cases h
    · cases h
      change canonicalChars (segments rest) = text.toList
      rcases hs : segments rest with _ | ⟨name, names⟩
      · exact absurd (List.map_eq_nil_iff.1 hs) (List.splitOn_ne_nil _ _)
      · have hrest : (name :: names).map String.toList = rest.splitOn '|' := by
          rw [← hs, segments, List.map_map]
          simp [Function.comp_def]
        rw [canonicalChars_cons, hrest, List.intercalate_splitOn, htext]
  · cases h

/-- **Keys with the same text are the same key.** -/
theorem canonical_inj {a b : ShapeKey} : a.canonical = b.canonical ↔ a = b := by
  refine ⟨fun h => ?_, congrArg canonical⟩
  have hparse : (Except.ok a : Except ShapeKeyError ShapeKey) = .ok b := by
    rw [← parse_canonical a, ← parse_canonical b, h]
  exact Except.ok.inj hparse

/-! ## Comparing keys

Equality, order and hashing look at the canonical text only. -/

instance : DecidableEq ShapeKey := fun _ _ => decidable_of_iff _ canonical_inj

instance : LawfulBEq ShapeKey := inferInstance

instance : LT ShapeKey := ⟨fun a b => a.canonical < b.canonical⟩

instance (a b : ShapeKey) : Decidable (a < b) :=
  inferInstanceAs (Decidable (a.canonical < b.canonical))

instance : Ord ShapeKey := ⟨fun a b => compare a.canonical b.canonical⟩

/-- A key is hashed by its canonical text: all that a hash function, which takes in one text
after another, is given of it. -/
def feed {State : Type} (absorb : State → String → State) (state : State) (key : ShapeKey) :
    State := absorb state key.canonical

end ShapeKey

end AnonymousTypes
