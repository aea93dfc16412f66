import AnonymousTypes.Shape.Key

/-!
# Which texts are keys

Two anonymous records share a template when the canonical texts of their keys are equal, so the
texts must keep apart what the names keep apart. They do: a key is read back from its text
(`ShapeKey.parse_canonical`), and a text that is read as a key is the text of that key
(`ShapeKey.canonical_of_parse`), which together make reading the inverse of writing
(`ShapeKey.parse_eq_ok_iff`).

The texts that are not read fall into two kinds, one for each error. What a text is read as can
be told from its first character and from the segments between its bars.
-/

namespace AnonymousTypes

namespace ShapeKey

variable {text : String} {key : ShapeKey} {names : List String}

/-! ## Keys from names -/

theorem ofFields_of_valid (h : ∀ name ∈ names, IsFieldName name) :
    ofFields names = .ok ⟨names, h⟩ := dif_pos h

/-- A key is made again from its names, because the names of a key are field names. -/
theorem ofFields_fields (key : ShapeKey) : ofFields key.fields = .ok key :=
  ofFields_of_valid key.isFieldName

/-! ## Keys from texts -/

/-- **Reading is the inverse of writing.** -/
theorem parse_eq_ok_iff : parse text = .ok key ↔ key.canonical = text :=
  ⟨canonical_of_parse, fun h => h ▸ parse_canonical key⟩

/-- A text reads as a key if it is empty, or starts with a bar and has no empty segment between
its bars or after the last one. -/
def IsKeyText (text : String) : Prop :=
  text = "" ∨ ∃ rest, text.toList = '|' :: rest ∧ "" ∉ segments rest

/-! ### One lemma for each way to read a text -/

theorem parse_of_names {rest : List Char} (htext : text.toList = '|' :: rest)
    (h : "" ∉ segments rest) : ∃ key, parse text = .ok key ∧ key.fields = segments rest := by
  rw [parse, htext]
  exact ⟨_, dif_neg h, rfl⟩

theorem parse_of_empty_segment {rest : List Char} (htext : text.toList = '|' :: rest)
    (h : "" ∈ segments rest) :
    parse text = .error (.emptyName text ((segments rest).idxOf "")) := by
  rw [parse, htext]
  exact dif_pos h

theorem parse_of_missing_bar (hne : text ≠ "") (hbar : ∀ rest, text.toList ≠ '|' :: rest) :
    parse text = .error (.missingBar text) := by
  rw [parse]
  split
  · exact absurd (String.toList_eq_nil_iff.1 ‹_›) hne
  · exact absurd ‹_› (hbar _)
  · rfl

/-- What a text is read as: a key, or else one of two errors, and the text alone decides which
one. The cases exclude each other. -/
theorem parse_cases (text : String) :
    (IsKeyText text ∧ ∃ key, parse text = .ok key) ∨
    (∃ rest, text.toList = '|' :: rest ∧ "" ∈ segments rest ∧
      parse text = .error (.emptyName text ((segments rest).idxOf ""))) ∨
    (text ≠ "" ∧ (∀ rest, text.toList ≠ '|' :: rest) ∧
      parse text = .error (.missingBar text)) := by
  by_cases hne : text = ""
  · exact .inl ⟨.inl hne, empty, hne ▸ rfl⟩
  by_cases hbar : ∃ rest, text.toList = '|' :: rest
  · obtain ⟨rest, htext⟩ := hbar
    by_cases hempty : "" ∈ segments rest
    · exact .inr (.inl ⟨rest, htext, hempty, parse_of_empty_segment htext hempty⟩)
    · obtain ⟨key, hkey, -⟩ := parse_of_names htext hempty
      exact .inl ⟨.inr ⟨rest, htext, hempty⟩, key, hkey⟩
  · have hbar := not_exists.1 hbar
    exact .inr (.inr ⟨hne, hbar, parse_of_missing_bar hne hbar⟩)

/-- **The texts that are read** are the key texts. -/
theorem isKeyText_iff : IsKeyText text ↔ ∃ key, parse text = .ok key := by
  rcases parse_cases text with ⟨htext, hkey⟩ | ⟨rest, htext, hempty, herr⟩ | ⟨hne, hbar, herr⟩
  · exact ⟨fun _ => hkey, fun _ => htext⟩
  · refine ⟨fun h => ?_, fun ⟨key, hkey⟩ => by rw [herr] at hkey; cases hkey⟩
    rcases h with rfl | ⟨rest', htext', hnames⟩
    · cases htext
    · obtain rfl := (List.cons.inj (htext.symm.trans htext')).2
      exact absurd hempty hnames
  · refine ⟨fun h => ?_, fun ⟨key, hkey⟩ => by rw [herr] at hkey; cases hkey⟩
    rcases h with h | ⟨rest, htext, -⟩
    · exact absurd h hne
    · exact absurd htext (hbar rest)

/-- **A bar is missing** when the text is not empty and does not start with one. -/
theorem parse_eq_missingBar_iff {found : String} : parse text = .error (.missingBar found) ↔
    found = text ∧ text ≠ "" ∧ ∀ rest, text.toList ≠ '|' :: rest := by
  constructor
  · intro h
    rcases parse_cases text with ⟨-, key, hkey⟩ | ⟨rest, -, -, herr⟩ | ⟨hne, hbar, herr⟩
    · rw [hkey] at h
      cases h
    · rw [herr] at h
      cases h
    · rw [herr] at h
      cases h
      exact ⟨rfl, hne, hbar⟩
  · rintro ⟨rfl, hne, hbar⟩
    exact parse_of_missing_bar hne hbar

/-- The first empty one of some names stands at this position. -/
def FirstEmptyAt (names : List String) (position : Nat) : Prop :=
  names[position]? = some "" ∧ ∀ i < position, names[i]? ≠ some ""

theorem FirstEmptyAt.mem {position : Nat} (h : FirstEmptyAt names position) : "" ∈ names :=
  List.mem_of_getElem? h.1

theorem firstEmptyAt_idxOf (h : "" ∈ names) : FirstEmptyAt names (names.idxOf "") := by
  have hlt := List.idxOf_lt_length_of_mem h
  refine ⟨by rw [List.getElem?_eq_getElem hlt, List.getElem_idxOf hlt], fun i hi heq => ?_⟩
  obtain ⟨hi', hget⟩ := List.getElem?_eq_some_iff.1 heq
  exact absurd (beq_iff_eq.2 hget) (Bool.eq_false_iff.1 (List.not_of_lt_findIdx hi))

theorem FirstEmptyAt.unique {p q : Nat} (hp : FirstEmptyAt names p) (hq : FirstEmptyAt names q) :
    p = q := by
  rcases Nat.lt_trichotomy p q with h | h | h
  · exact absurd hp.1 (hq.2 p h)
  · exact h
  · exact absurd hq.1 (hp.2 q h)

/-- **A name is missing** when a segment of a text that starts with a bar is empty. The first
such segment is reported. -/
theorem parse_eq_emptyName_iff {found : String} {position : Nat} :
    parse text = .error (.emptyName found position) ↔
      found = text ∧ ∃ rest, text.toList = '|' :: rest ∧ FirstEmptyAt (segments rest) position := by
  constructor
  · intro h
    rcases parse_cases text with ⟨-, key, hkey⟩ | ⟨rest, htext, hempty, herr⟩ | ⟨-, -, herr⟩
    · rw [hkey] at h
      cases h
    · rw [herr] at h
      cases h
      exact ⟨rfl, rest, htext, firstEmptyAt_idxOf hempty⟩
    · rw [herr] at h
      cases h
  · rintro ⟨rfl, rest, htext, hfirst⟩
    rw [parse_of_empty_segment htext hfirst.mem, (firstEmptyAt_idxOf hfirst.mem).unique hfirst]

example : parse "|a||b|" = .error (.emptyName "|a||b|" 1) := by
  rfl

/-! ## Reading never faults -/

/-- **The names between the bars make a key.** Once no segment is empty, making the key cannot
fault: what stands between bars contains none. -/
theorem parseChecked_eq (text : String) : parseChecked text = .ok (parse text) := by
  rw [parseChecked, parse]
  split
  · rfl
  · rename_i rest htext
    by_cases hempty : "" ∈ segments rest
    · have hfound : (segments rest).findIdx? (· == "") = some ((segments rest).idxOf "") :=
        List.findIdx?_eq_some_of_exists ⟨"", hempty, beq_self_eq_true ""⟩
      rw [hfound, dif_pos hempty]
    · have hnone : (segments rest).findIdx? (· == "") = none :=
        List.findIdx?_eq_none_iff.2 fun name hname =>
          beq_eq_false_iff_ne.2 fun he => hempty (he ▸ hname)
      rw [hnone, dif_neg hempty]
      dsimp only
      rw [ofFields_of_valid fun name hname =>
        ⟨fun he => hempty (he ▸ hname), not_mem_of_mem_segments hname⟩]
      rfl
  · rfl

/-! ## Comparing keys is comparing names -/

/-- **What equality, order and hashing see of a key determines its names.** -/
theorem fields_eq_iff (a b : ShapeKey) : a.fields = b.fields ↔ a.canonical = b.canonical :=
  ⟨fun h => congrArg canonical (ext h), fun h => congrArg fields (canonical_inj.1 h)⟩

theorem compare_eq_iff (a b : ShapeKey) : compare a b = .eq ↔ a.fields = b.fields := by
  rw [fields_eq_iff]
  change compare a.canonical b.canonical = .eq ↔ _
  exact Std.LawfulEqOrd.compare_eq_iff_eq

/-- **Keys are the same for every hash function** only if they have the same names. -/
theorem feed_eq_iff (a b : ShapeKey) :
    (∀ (State : Type) (absorb : State → String → State) (state : State),
      feed absorb state a = feed absorb state b) ↔ a.fields = b.fields := by
  rw [fields_eq_iff]
  refine ⟨fun h => ?_, fun h State absorb state => congrArg (absorb state) h⟩
  -- the hash function that keeps the text it was given last
  exact h String (fun _ text => text) ""

/-- **Keys and canonical texts correspond.** Names that can name fields make a key that is read
back from its text with the same names. A text that is read is the text of the key it is read
as, which is the key made of its names. So keys are equal, compare as equal and are the same
for every hash function exactly when their names are the same. The other texts lack a bar
before the first name, or a name, of which the first that is missing is reported; no text makes
the reader fault. -/
theorem correspond_to_texts :
    (∀ names : List String, (∀ name ∈ names, IsFieldName name) →
      ∃ key again, ofFields names = .ok key ∧ key.fields = names ∧
        parse key.canonical = .ok again ∧ again.fields = names) ∧
    (∀ text key, parse text = .ok key → key.canonical = text ∧
      (∀ name ∈ key.fields, IsFieldName name) ∧ ofFields key.fields = .ok key) ∧
    (∀ a b : ShapeKey, (a.canonical = b.canonical ↔ a.fields = b.fields) ∧
      ((a == b) = true ↔ a.fields = b.fields) ∧
      (compare a b = .eq ↔ a.fields = b.fields) ∧
      ((∀ (State : Type) (absorb : State → String → State) (state : State),
        feed absorb state a = feed absorb state b) ↔ a.fields = b.fields)) ∧
    (∀ text found, parse text = .error (.missingBar found) ↔
      found = text ∧ text ≠ "" ∧ ∀ rest, text.toList ≠ '|' :: rest) ∧
    (∀ text found position, parse text = .error (.emptyName found position) ↔
      found = text ∧ ∃ rest, text.toList = '|' :: rest ∧ FirstEmptyAt (segments rest) position) ∧
    ∀ text, parseChecked text = .ok (parse text) := by
  refine ⟨fun names h => ?_, fun text key h => ?_, fun a b =>
    ⟨(fields_eq_iff a b).symm, ?_, compare_eq_iff a b, feed_eq_iff a b⟩,
    fun _ _ => parse_eq_missingBar_iff, fun _ _ _ => parse_eq_emptyName_iff, parseChecked_eq⟩
  · exact ⟨⟨names, h⟩, _, ofFields_of_valid h, rfl, parse_eq_ok_iff.2 rfl, rfl⟩
  · exact ⟨parse_eq_ok_iff.1 h, key.isFieldName, ofFields_fields key⟩
  · rw [beq_iff_eq]
    exact ⟨congrArg fields, ext⟩

end ShapeKey

end AnonymousTypes
