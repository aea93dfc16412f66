import AnonymousTypes.Construction.Fields
import AnonymousTypes.Proofs.Spelling

/-!
# What a construction describes

A construction is worked through from left to right, with the names that were taken so far at
hand. Here the same is said of each initializer on its own, by those that stand before it
(`Initializer.fieldAfter`): the field has the candidate name unless an earlier initializer has
the same candidate, and is called by its position otherwise.

So no two fields have the same name (`Initializer.pairwise_fieldsAfter`). Their texts are
different as well, as long as no candidate is spelled like a placeholder
(`FieldList.exists_names`).
-/

namespace AnonymousTypes

/-! ## Texts -/

/-- **A text has one symbol**: it is in one shard, and there in one slot. -/
theorem SymbolTable.eq_of_text? {symbols : SymbolTable} {a b : Symbol} {text : String}
    (ha : symbols.text? a = some text) (hb : symbols.text? b = some text) : a = b := by
  have hplaced : ∀ {s : Symbol}, symbols.text? s = some text → shardOf text = s.shard :=
    fun hs => Fin.ext (symbols.placed _ _ text (List.mem_of_getElem? hs))
  obtain ⟨shard, slot⟩ := a
  obtain ⟨shard', slot'⟩ := b
  obtain rfl : shard = shard' := (hplaced ha).symm.trans (hplaced hb)
  obtain ⟨hlt, -⟩ := List.getElem?_eq_some_iff.1 ha
  have hslot := (List.getElem?_inj hlt (symbols.nodup _ shard.isLt)).1 (ha.trans hb.symm)
  obtain rfl : slot = slot' := Fin.ext hslot
  rfl

namespace FieldName

variable {symbols : SymbolTable}

/-- A name that can be told from all placeholders, and stands for a field name. -/
def IsSpelled (symbols : SymbolTable) : FieldName → Prop
  | named name => ∃ text, symbols.text? name = some text ∧ IsFieldName text ∧
      ∀ position : Nat, text ≠ s!"${position}"
  | placeholder _ => True

theorem toList_placeholder (position : Nat) :
    s!"${position}".toList = '$' :: Nat.toDigits 10 position := by
  simp [toString]

/-- It is enough that the text does not begin like a placeholder. -/
theorem isSpelled_of_head {name : Symbol} {text : String} (htext : symbols.text? name = some text)
    (hvalid : IsFieldName text) (hhead : text.toList.head? ≠ some '$') :
    (named name).IsSpelled symbols := by
  refine ⟨text, htext, hvalid, fun position heq => hhead ?_⟩
  rw [heq, toList_placeholder]
  rfl

theorem text_named {name : Symbol} {text : String} (h : symbols.text? name = some text) :
    (named name).text symbols = .ok text := by
  simp only [FieldName.text, SymbolTable.text, h]

/-- Names that are spelled have different texts. -/
theorem eq_of_text {a b : FieldName} (ha : a.IsSpelled symbols) (hb : b.IsSpelled symbols)
    (h : a.text symbols = b.text symbols) : a = b := by
  cases a with
  | named name =>
    obtain ⟨text, htext, -, hplain⟩ := ha
    rw [text_named htext] at h
    cases b with
    | named name' =>
      obtain ⟨text', htext', -, -⟩ := hb
      rw [text_named htext'] at h
      obtain rfl := Except.ok.inj h
      rw [SymbolTable.eq_of_text? htext htext']
    | placeholder position => exact absurd (Except.ok.inj h) (hplain position)
  | placeholder position =>
    cases b with
    | named name =>
      obtain ⟨text, htext, -, hplain⟩ := hb
      rw [text_named htext] at h
      exact absurd (Except.ok.inj h).symm (hplain position)
    | placeholder position' =>
      have hchars := congrArg String.toList (Except.ok.inj h)
      rw [toList_placeholder, toList_placeholder] at hchars
      rw [toDigits_inj.1 (List.cons.inj hchars).2]

/-- The text of such a name can stand in a shape key. -/
theorem exists_text {a : FieldName} (ha : a.IsSpelled symbols) :
    ∃ text, a.text symbols = .ok text ∧ IsFieldName text := by
  cases a with
  | named name =>
    obtain ⟨text, htext, hvalid, -⟩ := ha
    exact ⟨text, text_named htext, hvalid⟩
  | placeholder position =>
    refine ⟨_, rfl, fun hempty => ?_, ?_⟩
    · have hchars := congrArg String.toList hempty
      rw [toList_placeholder] at hchars
      cases hchars
    · rw [toList_placeholder, List.mem_cons, not_or]
      exact ⟨by decide, not_mem_toDigits rfl position⟩

end FieldName

/-! ## Initializers -/

namespace Initializer

variable {symbols : SymbolTable} {pool : TypePool} {taken : Taken} {earlier : List Initializer}
  {init : Initializer} {inits : List Initializer}

/-- The name of the field of an initializer that stands behind others. -/
def nameAfter (earlier : List Initializer) (init : Initializer) : FieldName :=
  match init.candidateName? with
  | none => .placeholder earlier.length
  | some name =>
    if some name ∈ earlier.map (·.candidateName?) then .placeholder earlier.length
    else .named name

/-- The field of an initializer that stands behind others. -/
def fieldAfter (pool : TypePool) (earlier : List Initializer) (init : Initializer) : Field where
  name := init.nameAfter earlier
  type := (init.fieldType pool).1
  location := init.location
  isErroneous := (init.fieldType pool).2.1 || (init.nameAfter earlier).isPlaceholder

/-- The fields of initializers that stand behind others. -/
def fieldsAfter (pool : TypePool) : List Initializer → List Initializer → List Field
  | _, [] => []
  | earlier, init :: rest =>
    init.fieldAfter pool earlier :: fieldsAfter pool (earlier ++ [init]) rest

/-- Whether the initializer has this candidate. -/
def hasCandidate (name : Symbol) (init : Initializer) : Bool := init.candidateName? = some name

/-- What is reported of the name of an initializer that stands behind others: that it has none,
or that it repeats the name of the first of the others that has it. -/
def nameReport? (symbols : SymbolTable) (earlier : List Initializer) (init : Initializer) :
    Option Diagnostic :=
  match init.candidateName? with
  | none => some (.namelessField init.location)
  | some name =>
    (earlier.find? (hasCandidate name)).bind fun first =>
      (symbols.text? name).map fun text => .duplicateField text init.location first.location

/-- What is reported of an initializer that stands behind others, its type first. -/
def reportsBehind (symbols : SymbolTable) (pool : TypePool) (earlier : List Initializer)
    (init : Initializer) : List Diagnostic :=
  (init.fieldType pool).2.2 ++ (init.nameReport? symbols earlier).toList

/-- What is reported of initializers that stand behind others. -/
def reportsAfter (symbols : SymbolTable) (pool : TypePool) :
    List Initializer → List Initializer → List Diagnostic
  | _, [] => []
  | earlier, init :: rest =>
    init.reportsBehind symbols pool earlier ++ reportsAfter symbols pool (earlier ++ [init]) rest

/-- A name that repeats an earlier one has a text, so that it can be reported. -/
def IsReportable (symbols : SymbolTable) (earlier : List Initializer) (init : Initializer) : Prop :=
  ∀ name, init.candidateName? = some name → some name ∈ earlier.map (·.candidateName?) →
    (symbols.text? name).isSome

/-- The names taken by some initializers, each by the first that has it. -/
def Taken.Tracks (taken : Taken) (earlier : List Initializer) : Prop :=
  ∀ name, taken.lookup name = (earlier.find? (hasCandidate name)).map (·.location)

theorem Taken.Tracks.nil : Tracks [] [] := fun _ => rfl

theorem Taken.Tracks.lookup_eq_none_iff (h : taken.Tracks earlier) {name : Symbol} :
    taken.lookup name = none ↔ some name ∉ earlier.map (·.candidateName?) := by
  rw [h name, Option.map_eq_none_iff, List.find?_eq_none]
  simp [hasCandidate]

/-- An initializer that takes no name, or one that is taken. -/
theorem Taken.Tracks.skip (h : taken.Tracks earlier)
    (hinit : ∀ name, init.candidateName? = some name → taken.lookup name ≠ none) :
    taken.Tracks (earlier ++ [init]) := by
  intro name
  rw [List.find?_append, Option.map_or, ← h name]
  rcases hfirst : taken.lookup name with _ | first
  · have hne : init.hasCandidate name = false :=
      decide_eq_false fun hcandidate => hinit name hcandidate hfirst
    rw [List.find?_cons, hne]
    rfl
  · rfl

/-- An initializer that takes a name that is free. -/
theorem Taken.Tracks.take (h : taken.Tracks earlier) {name : Symbol}
    (hcandidate : init.candidateName? = some name) :
    Tracks (taken ++ [(name, init.location)]) (earlier ++ [init]) := by
  intro other
  rw [List.lookup_append, List.find?_append, Option.map_or, h other]
  refine congrArg _ ?_
  by_cases hother : other = name
  · simp [hasCandidate, hcandidate, hother]
  · have hne : (other == name) = false := beq_eq_false_iff_ne.2 hother
    simp [hasCandidate, hcandidate, Ne.symm hother, List.lookup_cons, hne]

theorem Taken.Tracks.lookup_eq_some (h : taken.Tracks earlier) {name : Symbol}
    (hmem : some name ∈ earlier.map (·.candidateName?)) :
    ∃ first, earlier.find? (hasCandidate name) = some first ∧
      taken.lookup name = some first.location := by
  have hne : taken.lookup name ≠ none := fun hnone => h.lookup_eq_none_iff.1 hnone hmem
  rw [h name] at hne ⊢
  rcases hfirst : earlier.find? (hasCandidate name) with _ | first
  · rw [hfirst] at hne
    exact absurd rfl hne
  · exact ⟨first, rfl, rfl⟩

/-- **The name of one initializer**: the names taken so far are looked up in place of the
initializers that stand before it. -/
theorem exists_fieldName (htracks : taken.Tracks earlier)
    (hreportable : init.IsReportable symbols earlier) :
    ∃ taken', init.fieldName symbols taken earlier.length =
      .ok (init.nameAfter earlier, (init.nameReport? symbols earlier).toList, taken') ∧
      taken'.Tracks (earlier ++ [init]) := by
  rw [fieldName, nameAfter, nameReport?]
  rcases hcandidate : init.candidateName? with _ | name
  · exact ⟨taken, rfl, htracks.skip fun name h => nomatch hcandidate.symm.trans h⟩
  by_cases hmem : some name ∈ earlier.map (·.candidateName?)
  · obtain ⟨first, hfind, hlookup⟩ := htracks.lookup_eq_some hmem
    obtain ⟨text, htext⟩ := Option.isSome_iff_exists.1 (hreportable name hcandidate hmem)
    simp only [hlookup, if_pos hmem, SymbolTable.text, htext, hfind, Option.bind_some,
      Option.map_some]
    refine ⟨taken, rfl, htracks.skip fun name' h => ?_⟩
    obtain rfl := Option.some.inj (hcandidate.symm.trans h)
    simp [hlookup]
  · have hlookup := htracks.lookup_eq_none_iff.2 hmem
    have hfind : earlier.find? (hasCandidate name) = none := by
      rwa [htracks name, Option.map_eq_none_iff] at hlookup
    simp only [hlookup, if_neg hmem, hfind, Option.bind_none]
    exact ⟨_, rfl, htracks.take hcandidate⟩

/-- **One initializer** has a field and reports, and both depend only on the initializers before
it. The table of names goes on tracking them. -/
theorem exists_field (htracks : taken.Tracks earlier) (pool : TypePool)
    (hreportable : init.IsReportable symbols earlier) :
    ∃ taken', init.field symbols pool taken earlier.length =
      .ok (init.fieldAfter pool earlier, init.reportsBehind symbols pool earlier, taken') ∧
      taken'.Tracks (earlier ++ [init]) := by
  obtain ⟨taken', hname, htracks'⟩ := exists_fieldName htracks hreportable
  exact ⟨taken', by rw [field, hname]; rfl, htracks'⟩

/-- **All initializers** have fields and reports, those that repeat a name looking back. -/
theorem fieldsFrom_eq (htracks : taken.Tracks earlier) (pool : TypePool)
    (hreportable : ∀ pre init post, inits = pre ++ init :: post →
      init.IsReportable symbols (earlier ++ pre)) :
    fieldsFrom symbols pool taken earlier.length inits =
      .ok (fieldsAfter pool earlier inits, reportsAfter symbols pool earlier inits) := by
  induction inits generalizing taken earlier with
  | nil => rfl
  | cons init rest ih =>
    have hinit : init.IsReportable symbols earlier := by
      simpa using hreportable [] init rest rfl
    obtain ⟨taken', hfield, htracks'⟩ := exists_field htracks pool hinit
    have hrest := ih htracks' fun pre init' post hsplit => by
      simpa using hreportable (init :: pre) init' post (congrArg _ hsplit)
    rw [List.length_append, List.length_singleton] at hrest
    rw [fieldsFrom, hfield]
    simp only [bind, Except.bind, hrest, fieldsAfter, reportsAfter]

/-! ## The fields are told apart -/

theorem nameAfter_eq_named_iff {name : Symbol} : init.nameAfter earlier = .named name ↔
    init.candidateName? = some name ∧ some name ∉ earlier.map (·.candidateName?) := by
  rw [nameAfter]
  rcases init.candidateName? with _ | candidate
  · simp
  · simp only
    split
    · rename_i hmem
      simp only [reduceCtorEq, false_iff, Option.some.injEq, not_and, Classical.not_not]
      rintro rfl
      exact hmem
    · rename_i hnot
      simp only [FieldName.named.injEq, Option.some.injEq]
      exact ⟨fun he => ⟨he, he ▸ hnot⟩, And.left⟩

theorem eq_length_of_nameAfter {position : Nat}
    (h : init.nameAfter earlier = .placeholder position) : position = earlier.length := by
  rw [nameAfter] at h
  split at h
  · exact (FieldName.placeholder.inj h).symm
  · split at h
    · exact (FieldName.placeholder.inj h).symm
    · cases h

/-- An initializer does not get a name that one before it has. -/
theorem nameAfter_ne {pre : List Initializer} {later : Initializer} :
    init.nameAfter earlier ≠ later.nameAfter (earlier ++ init :: pre) := by
  intro heq
  rcases hname : init.nameAfter earlier with name | position
  · obtain ⟨hcandidate, -⟩ := nameAfter_eq_named_iff.1 hname
    obtain ⟨-, hnot⟩ := nameAfter_eq_named_iff.1 (heq.symm.trans hname)
    exact hnot (List.mem_map.2 ⟨init, by simp, hcandidate⟩)
  · have hfirst := eq_length_of_nameAfter hname
    have hsecond := eq_length_of_nameAfter (heq.symm.trans hname)
    simp only [List.length_append, List.length_cons] at hsecond
    omega

theorem exists_of_mem_fieldsAfter {field : Field} (h : field ∈ fieldsAfter pool earlier inits) :
    ∃ pre init post, inits = pre ++ init :: post ∧
      field = init.fieldAfter pool (earlier ++ pre) := by
  induction inits generalizing earlier with
  | nil => cases h
  | cons init rest ih =>
    rcases List.mem_cons.1 h with rfl | hrest
    · exact ⟨[], init, rest, rfl, by rw [List.append_nil]⟩
    · obtain ⟨pre, init', post, rfl, rfl⟩ := ih hrest
      exact ⟨init :: pre, init', post, rfl, by rw [List.append_assoc, List.singleton_append]⟩

/-- **No two fields** of a construction have the same name. -/
theorem pairwise_fieldsAfter (pool : TypePool) (earlier inits : List Initializer) :
    (fieldsAfter pool earlier inits).Pairwise fun a b => a.name ≠ b.name := by
  induction inits generalizing earlier with
  | nil => exact .nil
  | cons init rest ih =>
    refine List.pairwise_cons.2 ⟨fun field hfield => ?_, ih _⟩
    obtain ⟨pre, init', post, -, rfl⟩ := exists_of_mem_fieldsAfter hfield
    rw [List.append_assoc, List.singleton_append]
    exact nameAfter_ne

theorem map_fieldsAfter {β : Type} (pool : TypePool) (earlier inits : List Initializer)
    {f : Field → β} {f' : Initializer → β}
    (h : ∀ init earlier, f (fieldAfter pool earlier init) = f' init) :
    (fieldsAfter pool earlier inits).map f = inits.map f' := by
  induction inits generalizing earlier with
  | nil => rfl
  | cons init rest ih =>
    rw [fieldsAfter, List.map_cons, List.map_cons, h, ih]

end Initializer

/-! ## Constructions -/

/-- The candidates of a construction are names that the symbol table spells, with texts that
can stand in a shape key and are not those of placeholders. -/
def Construction.IsSpelled (symbols : SymbolTable) (c : Construction) : Prop :=
  ∀ init ∈ c.initializers, ∀ name, init.candidateName? = some name →
    (FieldName.named name).IsSpelled symbols

variable {symbols : SymbolTable} {pool : TypePool} {c : Construction} {list : FieldList}

/-- **A construction has fields**, one for each initializer, and reports. -/
theorem Construction.exists_fields_of_reportable (pool : TypePool)
    (hreportable : ∀ pre init post, c.initializers = pre ++ init :: post →
      init.IsReportable symbols pre) :
    ∃ list, c.fields symbols pool = .ok list ∧
      list.fields = Initializer.fieldsAfter pool [] c.initializers ∧
      list.hasError = (!c.context.allowsConstruction || list.fields.any (·.isErroneous)) ∧
      list.diagnostics =
        (if c.context.allowsConstruction then []
          else [.illegalConstruction c.context c.location]) ++
          Initializer.reportsAfter symbols pool [] c.initializers ∧
      list.location = c.location := by
  have hfields := Initializer.fieldsFrom_eq Initializer.Taken.Tracks.nil pool hreportable
  rw [List.length_nil] at hfields
  refine ⟨_, by rw [Construction.fields, hfields]; rfl, rfl, rfl, ?_, rfl⟩
  cases c.context.allowsConstruction <;> rfl

/-- Names that the symbol table spells can be reported. -/
theorem Construction.IsSpelled.isReportable (hspelled : c.IsSpelled symbols)
    {pre post : List Initializer} {init : Initializer}
    (hsplit : c.initializers = pre ++ init :: post) : init.IsReportable symbols pre := by
  intro name hcandidate _
  obtain ⟨text, htext, -⟩ := hspelled init (by simp [hsplit]) name hcandidate
  exact Option.isSome_of_eq_some htext

theorem Construction.exists_fields (hspelled : c.IsSpelled symbols) (pool : TypePool) :
    ∃ list, c.fields symbols pool = .ok list ∧
      list.fields = Initializer.fieldsAfter pool [] c.initializers := by
  obtain ⟨list, hlist, hfields, -⟩ := Construction.exists_fields_of_reportable pool
    fun _ _ _ hsplit => hspelled.isReportable hsplit
  exact ⟨list, hlist, hfields⟩

/-- The names of the fields are spelled as well. -/
theorem Construction.IsSpelled.name (hspelled : c.IsSpelled symbols) {field : Field}
    (h : field ∈ Initializer.fieldsAfter pool [] c.initializers) :
    field.name.IsSpelled symbols := by
  obtain ⟨pre, init, post, hsplit, rfl⟩ := Initializer.exists_of_mem_fieldsAfter h
  have hmem : init ∈ c.initializers := by simp [hsplit]
  rcases hname : (init.fieldAfter pool ([] ++ pre)).name with name | position
  · exact hspelled init hmem name (Initializer.nameAfter_eq_named_iff.1 hname).1
  · trivial

namespace FieldList

/-- **The names of the fields** have different texts, and all of them can stand in a key. -/
theorem exists_names (hspelled : c.IsSpelled symbols)
    (hfields : list.fields = Initializer.fieldsAfter pool [] c.initializers) :
    ∃ names, list.names symbols = .ok names ∧ names.Nodup ∧ ∀ name ∈ names, IsFieldName name := by
  have htext : ∀ field ∈ list.fields, field.name.IsSpelled symbols := fun field hmem =>
    Construction.IsSpelled.name hspelled (hfields ▸ hmem)
  rcases hnames : list.names symbols with fault | names
  · obtain ⟨field, hmem, hfault⟩ := exists_of_mapM_eq_error hnames
    obtain ⟨text, hok, -⟩ := FieldName.exists_text (htext field hmem)
    cases hok.symm.trans hfault
  · have hmap := map_eq_of_mapM_eq_ok hnames
    refine ⟨names, rfl, ?_, fun name hname => ?_⟩
    · have hpairwise := Initializer.pairwise_fieldsAfter pool [] c.initializers
      rw [← hfields] at hpairwise
      have hdistinct : (list.fields.map fun field => field.name.text symbols).Nodup :=
        List.pairwise_map.2 <| hpairwise.imp_of_mem fun ha hb hne heq =>
          hne (FieldName.eq_of_text (htext _ ha) (htext _ hb) heq)
      rw [hmap] at hdistinct
      exact (List.pairwise_map.1 hdistinct).imp fun hne heq => hne (congrArg _ heq)
    · have hok : (.ok name : Except Fault String) ∈ list.fields.map fun field =>
          field.name.text symbols := hmap ▸ List.mem_map_of_mem hname
      obtain ⟨field, hmem, hfield⟩ := List.mem_map.1 hok
      obtain ⟨text, htext', hvalid⟩ := FieldName.exists_text (htext field hmem)
      obtain rfl := Except.ok.inj (hfield.symm.trans htext')
      exact hvalid

end FieldList

end AnonymousTypes
