import AnonymousTypes.Proofs.Describing

/-!
# What is reported of a construction

Working through a construction gives the fields and the diagnostics that can be told of each
initializer from those before it: its type is reported before its name, a name that repeats
others is reported with the first of them, and a field is faulty exactly if its name or its type
was replaced (`Construction.described_exactly`). It always comes to an end like this, unless a
name has to be reported that the symbol table does not know.
-/

namespace AnonymousTypes

namespace Initializer

variable {symbols : SymbolTable} {pool : TypePool} {taken : Taken} {earlier : List Initializer}
  {init : Initializer} {inits : List Initializer}

/-! ## Types -/

/-- The type of the initializer, if it has one that a field may have; else the error type. -/
def usableType (pool : TypePool) (init : Initializer) : TypeId :=
  match init.binding with
  | .typed type => if type ≠ .error ∧ pool.isFieldEligible type then type else .error
  | .typeless _ => .error

/-- What is reported of the type of an initializer. The error type was reported before. -/
def typeReport? (pool : TypePool) (init : Initializer) : Option Diagnostic :=
  match init.binding with
  | .typed type =>
    if type ≠ .error ∧ ¬ pool.isFieldEligible type then
      some (.ineligibleField (pool.describeIneligible type) init.location)
    else none
  | .typeless reason => some (.typelessField reason init.location)

/-- **The type was replaced** exactly if it is the error type now. -/
theorem fieldType_eq (pool : TypePool) (init : Initializer) : init.fieldType pool =
    (init.usableType pool, decide (init.usableType pool = .error),
      (init.typeReport? pool).toList) := by
  rw [fieldType, usableType, typeReport?]
  cases init.binding with
  | typeless reason => rfl
  | typed type =>
    by_cases herror : type = .error
    · simp [TypeId.isError, herror]
    · by_cases heligible : pool.isFieldEligible type
      · simp [TypeId.isError, herror, heligible]
      · simp [TypeId.isError, herror, heligible]

theorem reportsBehind_eq : init.reportsBehind symbols pool earlier =
    (init.typeReport? pool).toList ++ (init.nameReport? symbols earlier).toList := by
  rw [reportsBehind, fieldType_eq]

/-- **A field is faulty** exactly if its name or its type was replaced. -/
theorem isErroneous_fieldAfter_iff : (init.fieldAfter pool earlier).isErroneous = true ↔
    (init.fieldAfter pool earlier).name.isPlaceholder = true ∨
      (init.fieldAfter pool earlier).type = .error := by
  rw [fieldAfter, fieldType_eq, Bool.or_eq_true, decide_eq_true_iff, or_comm]

/-! ## Positions -/

theorem fieldsAfter_append (pool : TypePool) (earlier xs ys : List Initializer) :
    fieldsAfter pool earlier (xs ++ ys) =
      fieldsAfter pool earlier xs ++ fieldsAfter pool (earlier ++ xs) ys := by
  induction xs generalizing earlier with
  | nil => rw [fieldsAfter, List.append_nil, List.nil_append, List.nil_append]
  | cons x xs ih =>
    rw [List.cons_append, fieldsAfter, fieldsAfter, ih, List.append_assoc, List.singleton_append,
      List.cons_append]

theorem length_fieldsAfter (pool : TypePool) (earlier inits : List Initializer) :
    (fieldsAfter pool earlier inits).length = inits.length := by
  have hmap : (fieldsAfter pool earlier inits).map (·.location) = inits.map (·.location) :=
    map_fieldsAfter pool earlier inits fun _ _ => rfl
  have hlength := congrArg List.length hmap
  rwa [List.length_map, List.length_map] at hlength

theorem getElem?_fieldsAfter (pool : TypePool) (pre post : List Initializer) (init : Initializer) :
    (fieldsAfter pool [] (pre ++ init :: post))[pre.length]? = some (init.fieldAfter pool pre) := by
  have hlength := length_fieldsAfter pool [] pre
  rw [fieldsAfter_append, List.getElem?_append_right (Nat.le_of_eq hlength), hlength, Nat.sub_self,
    List.nil_append]
  rfl

theorem reportsAfter_eq (symbols : SymbolTable) (pool : TypePool)
    (earlier inits : List Initializer) : reportsAfter symbols pool earlier inits =
      (inits.mapIdx fun i init =>
        init.reportsBehind symbols pool (earlier ++ inits.take i)).flatten := by
  induction inits generalizing earlier with
  | nil => rfl
  | cons init rest ih =>
    rw [reportsAfter, ih, List.mapIdx_cons, List.flatten_cons, List.take_zero, List.append_nil]
    simp only [List.take_succ_cons, List.append_assoc, List.singleton_append]

/-! ## Names that cannot be reported -/

/-- An initializer that is worked through is one whose name can be reported. -/
theorem isReportable_of_field (htracks : taken.Tracks earlier) {position : Nat}
    {answer : Field × List Diagnostic × Taken}
    (hfield : init.field symbols pool taken position = .ok answer) :
    init.IsReportable symbols earlier := by
  intro name hcandidate hmem
  obtain ⟨first, -, hlookup⟩ := htracks.lookup_eq_some hmem
  rcases htext : symbols.text? name with _ | text
  · have hname : init.fieldName symbols taken position =
        .error (.unusedSlot (symbols.shard name.shard).length name.slot) := by
      simp only [fieldName, hcandidate, hlookup, SymbolTable.text, htext]
      rfl
    rw [field, hname] at hfield
    cases hfield
  · rfl

theorem isReportable_of_fieldsFrom (htracks : taken.Tracks earlier)
    {answer : List Field × List Diagnostic}
    (hfields : fieldsFrom symbols pool taken earlier.length inits = .ok answer)
    {pre post : List Initializer} (hsplit : inits = pre ++ init :: post) :
    init.IsReportable symbols (earlier ++ pre) := by
  induction inits generalizing taken earlier pre answer with
  | nil => simp at hsplit
  | cons first rest ih =>
    rw [fieldsFrom] at hfields
    obtain ⟨_, hfield, hrest⟩ := bind_eq_ok_iff.1 hfields
    have hfirst := isReportable_of_field htracks hfield
    obtain ⟨taken', hfield', htracks'⟩ := exists_field htracks pool hfirst
    obtain rfl := Except.ok.inj (hfield.symm.trans hfield')
    rcases pre with _ | ⟨first', pre⟩
    · obtain ⟨rfl, -⟩ := List.cons.inj hsplit
      rwa [List.append_nil]
    · obtain ⟨rfl, htail⟩ := List.cons.inj hsplit
      obtain ⟨_, hrest, -⟩ := bind_eq_ok_iff.1 hrest
      have hlater := ih htracks' (by simpa using hrest) htail
      rwa [List.append_assoc, List.singleton_append] at hlater

end Initializer

/-! ## Constructions -/

namespace Construction

variable {symbols : SymbolTable} {pool : TypePool} {c : Construction}

/-- A construction is worked through exactly if all names that have to be reported can be. -/
theorem exists_fields_iff (symbols : SymbolTable) (pool : TypePool) (c : Construction) :
    (∃ list, c.fields symbols pool = .ok list) ↔
      ∀ pre init post, c.initializers = pre ++ init :: post → init.IsReportable symbols pre := by
  constructor
  · rintro ⟨list, hlist⟩ pre init post hsplit
    obtain ⟨answer, hfields, -⟩ := bind_eq_ok_iff.1 hlist
    have hreportable := Initializer.isReportable_of_fieldsFrom .nil hfields hsplit
    rwa [List.nil_append] at hreportable
  · intro hreportable
    obtain ⟨list, hlist, -⟩ := exists_fields_of_reportable pool hreportable
    exact ⟨list, hlist⟩

/-- **A construction is described exactly.** It is worked through to the end, unless an
initializer has to be reported for a name that the symbol table does not know, and then:

1. There is one field for each initializer, in order, with the location of its expression.
2. The field has the candidate name if no initializer before it has the same candidate, and is
   called by its position otherwise.
3. Its type is that of the expression if there is one, if it is not the error type and if a field
   may have it; otherwise it is the error type.
4. It is erroneous exactly if it is called by its position or has the error type, and the
   construction has an error exactly if it stands where none is allowed or a field is erroneous.
5. No two fields have the same name.
6. Reported are a construction that is not allowed where it stands, and then of one initializer
   after another its type (one that no field may have, or none at all) and its name (none, or one
   that repeats the first initializer that has it). -/
theorem described_exactly (symbols : SymbolTable) (pool : TypePool) (c : Construction) :
    ((∃ list, c.fields symbols pool = .ok list) ↔
      ∀ pre init post, c.initializers = pre ++ init :: post → init.IsReportable symbols pre) ∧
    ∀ list, c.fields symbols pool = .ok list →
      list.location = c.location ∧ list.fields.length = c.initializers.length ∧
      (∀ pre init post, c.initializers = pre ++ init :: post →
        ∃ field, list.fields[pre.length]? = some field ∧ field.location = init.location ∧
          (∀ name, field.name = .named name ↔ init.candidateName? = some name ∧
            ∀ e ∈ pre, e.candidateName? ≠ some name) ∧
          (∀ position, field.name = .placeholder position → position = pre.length) ∧
          field.type = init.usableType pool ∧
          (field.isErroneous = true ↔
            field.name.isPlaceholder = true ∨ field.type = .error)) ∧
      (list.hasError = true ↔
        c.context.allowsConstruction = false ∨ ∃ field ∈ list.fields, field.isErroneous = true) ∧
      (list.fields.map (·.name)).Nodup ∧
      list.diagnostics =
        (if c.context.allowsConstruction then []
          else [.illegalConstruction c.context c.location]) ++
          (c.initializers.mapIdx fun i init => (init.typeReport? pool).toList ++
            (init.nameReport? symbols (c.initializers.take i)).toList).flatten := by
  refine ⟨exists_fields_iff symbols pool c, fun list hlist => ?_⟩
  obtain ⟨list', hlist', hfields, herror, hdiagnostics, hlocation⟩ :=
    exists_fields_of_reportable pool ((exists_fields_iff symbols pool c).1 ⟨list, hlist⟩)
  obtain rfl := Except.ok.inj (hlist.symm.trans hlist')
  refine ⟨hlocation, ?_, fun pre init post hsplit => ?_, ?_, ?_, ?_⟩
  · rw [hfields, Initializer.length_fieldsAfter]
  · refine ⟨init.fieldAfter pool pre, ?_, rfl, fun name => ?_, fun position =>
      Initializer.eq_length_of_nameAfter, ?_, Initializer.isErroneous_fieldAfter_iff⟩
    · rw [hfields, hsplit, Initializer.getElem?_fieldsAfter]
    · refine Initializer.nameAfter_eq_named_iff.trans (and_congr_right fun _ => ?_)
      rw [List.mem_map, not_exists]
      exact forall_congr' fun e => not_and
    · rw [Initializer.fieldAfter, Initializer.fieldType_eq]
  · rw [herror, Bool.or_eq_true, Bool.not_eq_true', List.any_eq_true]
  · rw [hfields]
    exact List.pairwise_map.2 (Initializer.pairwise_fieldsAfter pool [] c.initializers)
  · rw [hdiagnostics, Initializer.reportsAfter_eq]
    simp only [Initializer.reportsBehind_eq, List.nil_append]

/-- A construction in an attribute argument, in which one name is there three times, first for
a value that no field may have and last in a member access, and then an expression has neither a
type nor a name. -/
def thriceNamed (name : Symbol) : Construction where
  context := .attributeArgument
  location := .ofOffsets 0 0 12
  initializers := [⟨some name, .mk .other (.ofOffsets 0 1 2), .typed .void⟩,
    ⟨some name, .mk .other (.ofOffsets 0 3 4), .typed .error⟩,
    ⟨none, .mk (.member (.mk .other (.ofOffsets 0 5 6)) name) (.ofOffsets 0 5 8), .typed .int⟩,
    ⟨none, .mk .null (.ofOffsets 0 9 10), .typeless .null⟩]

/-- A construction in a function body, of a variable and of a member of it. -/
def memberOf (receiver name : Symbol) : Construction where
  context := .functionBody
  location := .ofOffsets 0 20 30
  initializers := [⟨none, .mk (.ident receiver) (.ofOffsets 0 21 22), .typed .bool⟩,
    ⟨none, .mk (.member (.mk (.ident receiver) (.ofOffsets 0 24 25)) name) (.ofOffsets 0 24 27),
      .typed .int⟩]

/-- The first of the three has the name in spite of its type, and each of the others is reported
with it. In the other construction the variable and the member name their fields, and nothing is
reported. -/
theorem described_exactly_thrice_named : ∃ (name receiver : Symbol) (symbols : SymbolTable)
    (list legal : FieldList) (first third plain access : Field),
    (thriceNamed name).fields symbols .new = .ok list ∧
    list.fields[0]? = some first ∧ first.name = .named name ∧ first.type = .error ∧
    list.fields[2]? = some third ∧ third.name = .placeholder 2 ∧ third.type = .int ∧
    third.isErroneous = true ∧ list.hasError = true ∧ (list.fields.map (·.name)).Nodup ∧
    (list.diagnostics.map fun d => (d.code.text, d.labels.map fun l => (l.location, l.isPrimary))) =
      [("E2104", [(.ofOffsets 0 0 12, true)]), ("E2102", [(.ofOffsets 0 1 2, true)]),
        ("E2101", [(.ofOffsets 0 3 4, true), (.ofOffsets 0 1 2, false)]),
        ("E2101", [(.ofOffsets 0 5 8, true), (.ofOffsets 0 1 2, false)]),
        ("E2103", [(.ofOffsets 0 9 10, true)]), ("E2105", [(.ofOffsets 0 9 10, true)])] ∧
    (memberOf receiver name).fields symbols .new = .ok legal ∧
    legal.fields[0]? = some plain ∧ plain.name = .named receiver ∧ plain.type = .bool ∧
    legal.fields[1]? = some access ∧ access.name = .named name ∧ access.type = .int ∧
    legal.hasError = false ∧ legal.diagnostics = [] := by
  obtain ⟨name, receiver, symbols, hne, hok, htexts, hclean, hnone⟩ :
      ∃ (name receiver : Symbol) (symbols : SymbolTable), receiver ≠ name ∧
      ((thriceNamed name).fields symbols .new).toOption.isSome ∧
      (([Diagnostic.illegalConstruction .attributeArgument (.ofOffsets 0 0 12)] ++
        ((thriceNamed name).initializers.mapIdx fun i init => (init.typeReport? .new).toList ++
          (init.nameReport? symbols ((thriceNamed name).initializers.take i)).toList).flatten).map
        fun d => (d.code.text, d.labels.map fun l => (l.location, l.isPrimary))) =
      [("E2104", [(.ofOffsets 0 0 12, true)]), ("E2102", [(.ofOffsets 0 1 2, true)]),
        ("E2101", [(.ofOffsets 0 3 4, true), (.ofOffsets 0 1 2, false)]),
        ("E2101", [(.ofOffsets 0 5 8, true), (.ofOffsets 0 1 2, false)]),
        ("E2103", [(.ofOffsets 0 9 10, true)]), ("E2105", [(.ofOffsets 0 9 10, true)])] ∧
      ((memberOf receiver name).fields symbols .new).toOption.map (·.hasError) = some false ∧
      ((memberOf receiver name).initializers.mapIdx fun i init =>
        (init.typeReport? .new).toList ++ (init.nameReport? symbols
          ((memberOf receiver name).initializers.take i)).toList).flatten = [] :=
    ⟨⟨SymbolTable.shardOf "x", 0⟩, ⟨SymbolTable.shardOf "q", 0⟩,
      (SymbolTable.new.add "x" (by decide) (by decide)).add "q" (by decide +kernel)
        (by decide +kernel), by decide +kernel⟩
  rcases hlist : (thriceNamed name).fields symbols .new with _ | list
  · rw [hlist] at hok
    cases hok
  rcases hlegal : (memberOf receiver name).fields symbols .new with _ | legal
  · rw [hlegal] at hclean
    cases hclean
  rw [hlegal] at hclean
  obtain ⟨-, -, hfields, herror, hnodup, hdiagnostics⟩ :=
    (described_exactly symbols .new (thriceNamed name)).2 list hlist
  obtain ⟨first, hfirst, -, hnamed, -, htype, -⟩ := hfields [] _ _ rfl
  obtain ⟨third, hthird, -, hrepeats, hposition, htype', herroneous⟩ := hfields [_, _] _ _ rfl
  have hplaceholder : third.name = .placeholder 2 := by
    rcases hname : third.name with name' | position
    · obtain ⟨hcandidate, hnone⟩ := (hrepeats name').1 hname
      cases hnone ⟨some name, .mk .other (.ofOffsets 0 1 2), .typed .void⟩
        (List.mem_cons_self ..) hcandidate
    · rw [hposition position hname]
      rfl
  obtain ⟨-, -, hfields', -, -, hdiagnostics'⟩ :=
    (described_exactly symbols .new (memberOf receiver name)).2 legal hlegal
  obtain ⟨plain, hplain, -, hident, -, hbool, -⟩ := hfields' [] _ _ rfl
  obtain ⟨access, haccess, -, hmember, -, hint, -⟩ := hfields' [_] _ _ rfl
  have hnamed' : access.name = .named name := by
    refine (hmember name).2 ⟨rfl, fun e he hcandidate => ?_⟩
    rw [List.mem_singleton.1 he] at hcandidate
    exact hne (Option.some.inj hcandidate)
  exact ⟨name, receiver, symbols, list, legal, first, third, plain, access, hlist, hfirst,
    (hnamed name).2 ⟨rfl, fun _ he => (nomatch he)⟩, htype, hthird, hplaceholder, htype',
    herroneous.2 (.inl (by rw [hplaceholder]; rfl)), herror.2 (.inl rfl), hnodup,
    by rw [hdiagnostics]; exact htexts, hlegal, hplain,
    (hident receiver).2 ⟨rfl, fun _ he => (nomatch he)⟩, hbool, haccess, hnamed', hint,
    Option.some.inj hclean, hdiagnostics'.trans hnone⟩

end Construction

end AnonymousTypes
