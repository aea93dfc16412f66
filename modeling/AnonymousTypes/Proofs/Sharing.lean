import AnonymousTypes.Proofs.CanonicalText
import AnonymousTypes.Proofs.Describing
import AnonymousTypes.Proofs.Freezing

/-!
# Records share shapes by their names

A construction asks for the shape with the names of its fields and applies it to their types.
As the names are different, a field is found by its name (`AppliedShape.fieldType?_of_getElem?`),
and as there is one type for each field, applying the shape does not fail
(`Coherent.exists_constructFields`).

A generation answers a key with the same template each time. So two constructions have the same
template exactly if their fields have the same names in the same order, and are the same type
exactly if the types agree as well (`Coherent.template_eq_iff`).
-/

namespace AnonymousTypes

/-! ## Applied shapes -/

namespace AppliedShape

variable {a b : AppliedShape} {name : String}

theorem eq_iff : a = b ↔ a.template = b.template ∧ a.arguments = b.arguments := by
  cases a
  cases b
  rw [mk.injEq]

/-- **A field** has the type at its position. The names are different, so the search for the name
ends at this position. -/
theorem fieldType?_of_getElem? (hnodup : a.fieldNames.Nodup) {i : Nat} {type : TypeId}
    (hname : a.fieldNames[i]? = some name) (htype : a.arguments[i]? = some type) :
    a.fieldType? name = some type := by
  obtain ⟨hlt, hget⟩ := List.getElem?_eq_some_iff.1 hname
  have hposition : ShapeKey.position? a.template.key name = some i := by
    refine List.idxOf?_eq_some_iff.2 ⟨hlt, hget, fun j hj hsame => ?_⟩
    have hj' : a.fieldNames[j]? = some name :=
      List.getElem?_eq_some_iff.2 ⟨Nat.lt_trans hj hlt, hsame⟩
    have heq := (List.getElem?_inj hlt hnodup).1 (hname.trans hj'.symm)
    omega
  rw [fieldType?, hposition]
  exact htype

/-- There are no other fields. -/
theorem fieldType?_eq_none (hname : name ∉ a.fieldNames) : a.fieldType? name = none := by
  have hposition : ShapeKey.position? a.template.key name = none := List.idxOf?_eq_none_iff.2 hname
  rw [fieldType?, hposition]
  rfl

end AppliedShape

/-! ## Names and keys -/

namespace FieldList

variable {symbols : SymbolTable} {list : FieldList} {names : List String}

theorem shapeKey_of_names (hnames : list.names symbols = .ok names)
    (hvalid : ∀ name ∈ names, IsFieldName name) :
    list.shapeKey symbols = .ok ⟨names, hvalid⟩ :=
  bind_eq_ok_iff.2 ⟨names, hnames, ShapeKey.ofFields_of_valid hvalid⟩

/-- The first name that cannot stand in a key is a fault. -/
theorem shapeKey_of_invalid (hnames : list.names symbols = .ok names)
    (hinvalid : ∃ name ∈ names, ¬ IsFieldName name) :
    ∃ name, (names.find? fun name => ¬ IsFieldName name) = some name ∧
      list.shapeKey symbols = .error (.invalidFieldName name) := by
  rcases hfirst : names.find? fun name => ¬ IsFieldName name with _ | name
  · obtain ⟨name, hmem, hnot⟩ := hinvalid
    exact absurd (decide_eq_true hnot) (List.find?_eq_none.1 hfirst name hmem)
  · refine ⟨name, rfl, bind_eq_error_iff.2 (.inr ⟨names, hnames, ?_⟩)⟩
    have hnot : ¬ ∀ name ∈ names, IsFieldName name := fun hall => by
      obtain ⟨name, hmem, hnot⟩ := hinvalid
      exact hnot (hall name hmem)
    rw [ShapeKey.ofFields, dif_neg hnot, hfirst]
    rfl

theorem length_names (hnames : list.names symbols = .ok names) :
    names.length = list.types.length := by
  have hmap := congrArg List.length (map_eq_of_mapM_eq_ok hnames)
  rw [List.length_map, List.length_map] at hmap
  rw [types, List.length_map, hmap]

/-- The key has the names. -/
theorem fields_of_shapeKey (hnames : list.names symbols = .ok names) {key : ShapeKey}
    (hkey : list.shapeKey symbols = .ok key) : key.fields = names := by
  obtain ⟨names', hnames', hfields⟩ := bind_eq_ok_iff.1 hkey
  obtain rfl := Except.ok.inj (hnames.symm.trans hnames')
  rw [ShapeKey.ofFields] at hfields
  split at hfields
  · cases hfields
    rfl
  · cases hfields

end FieldList

/-! ## Constructions in a session -/

namespace Session

variable {s s' : Session} {h : Handle} {g : Generation} {symbols symbols' : SymbolTable}
  {list list' : FieldList} {names names' : List String}

theorem key_of_lookup {family : Family} {key : family.Key} {r : TemplateRef family}
    (hr : s.lookup family h key = some r) : r.key = key := by
  rw [lookup] at hr
  split at hr
  · obtain rfl := Option.some.inj hr
    rfl
  · obtain ⟨_, -, hinherited⟩ := Option.bind_eq_some_iff.1 hr
    exact (exists_of_inherited hinherited).2.1

/-- What is constructed has the types that were given, in their order. -/
theorem arguments_of_constructFields {applied : AppliedShape}
    (hrun : (Step.constructFields h symbols list).run s = (.ok applied, s')) :
    applied.arguments = list.types := by
  rcases hg : s.generation? h with _ | g
  · rw [Step.run, Run.constructFields_missing hg] at hrun
    cases hrun
  rcases hkey : list.shapeKey symbols with fault | key
  · rw [Step.run, Run.constructFields_fault hg hkey] at hrun
    cases hrun
  · rw [Step.run, Run.constructFields_eq hg hkey, Run.construct_eq] at hrun
    obtain ⟨template, -, happly⟩ := bind_eq_ok_iff.1 (congrArg Prod.fst hrun)
    exact (apply_eq_ok_iff.1 (mapError_eq_ok_iff.1 happly)).2

/-- What is constructed has the names and types that were given, and applies the template that
the generation answers with. -/
theorem Coherent.constructed (hs : s.Coherent) {applied : AppliedShape}
    (hnames : list.names symbols = .ok names)
    (hrun : (Step.constructFields h symbols list).run s = (.ok applied, s')) :
    applied.fieldNames = names ∧ applied.arguments = list.types ∧
      s.Answers s' .shape h applied.template.key applied.template := by
  rcases hg : s.generation? h with _ | g
  · rw [Step.run, Run.constructFields_missing hg] at hrun
    cases hrun
  rcases hkey : list.shapeKey symbols with fault | key
  · rw [Step.run, Run.constructFields_fault hg hkey] at hrun
    cases hrun
  · have hanswers := Answers.constructFields hkey hrun
    obtain rfl : applied.template.key = key := key_of_lookup (hanswers.lookup_after hs)
    exact ⟨FieldList.fields_of_shapeKey hnames hkey, arguments_of_constructFields hrun, hanswers⟩

/-- **A construction succeeds** if the generation is not sealed and the names can stand in a
key: there is one type for each name. -/
theorem Coherent.exists_constructFields (hs : s.Coherent) (hg : s.generation? h = some g)
    (hopen : g.isSealed = false) (hnames : list.names symbols = .ok names)
    (hvalid : ∀ name ∈ names, IsFieldName name) :
    ∃ applied s', (Step.constructFields h symbols list).run s = (.ok applied, s') ∧
      applied.fieldNames = names ∧ applied.arguments = list.types := by
  have hkey := FieldList.shapeKey_of_names hnames hvalid
  have hopen' : (g.cache .shape).isSealed = false := by
    rw [Generation.isSealed, show g.delegates.isSealed = g.shapes.isSealed from
      ((hs hg).isSealed .delegate).trans ((hs hg).isSealed .shape).symm, Bool.and_self] at hopen
    exact hopen
  obtain ⟨template, hok⟩ := exists_alone_of_open hg hopen'
    (⟨⟨names, hvalid⟩, some list.location⟩ : Request .shape)
  obtain ⟨s', hrequest⟩ : ∃ s', (Step.request .shape h ⟨names, hvalid⟩
      (some list.location)).run s = (.ok template, s') := ⟨_, Prod.ext hok rfl⟩
  have htemplate : template.key = ⟨names, hvalid⟩ :=
    key_of_lookup ((Answers.request hrequest).lookup_after hs)
  have harity : list.types.length = ShapeKey.size template.key := by
    rw [htemplate]
    exact (FieldList.length_names hnames).symm
  refine ⟨⟨template, list.types, harity⟩, s', ?_, congrArg ShapeKey.fields htemplate, rfl⟩
  rw [Step.run] at hrequest
  rw [Step.run, Run.constructFields_eq hg hkey, Run.construct_eq, hrequest]
  refine Prod.ext ?_ rfl
  exact mapError_eq_ok_iff.2 (apply_eq_ok_iff.2 ⟨rfl, rfl⟩)

/-- **Two constructions** share their template if they have the same names, and else they do
not. The second comes at any time after the first. -/
theorem Coherent.template_eq_iff (hs : s.Coherent) {s₁ s₂ : Session} {a b : AppliedShape}
    (hnames : list.names symbols = .ok names) (hnames' : list'.names symbols' = .ok names')
    (ha : (Step.constructFields h symbols list).run s = (.ok a, s₁)) (hleads : s₁.LeadsTo s₂)
    (hb : (Step.constructFields h symbols' list').run s₂ = (.ok b, s')) :
    (b.template = a.template ↔ names' = names) ∧
      (b = a ↔ names' = names ∧ list'.types = list.types) := by
  have hs₁ : s₁.Coherent := (leadsTo_of_run ha).coherent hs
  have hs₂ : s₂.Coherent := hleads.coherent hs₁
  obtain ⟨hfields, harguments, hanswers⟩ := hs.constructed hnames ha
  obtain ⟨hfields', harguments', hanswers'⟩ := hs₂.constructed hnames' hb
  have htemplate : b.template = a.template ↔ names' = names := by
    rw [← hfields, ← hfields']
    constructor
    · exact fun heq => congrArg (fun r : TemplateRef .shape => ShapeKey.fields r.key) heq
    · intro heq
      have hkey : b.template.key = a.template.key := ShapeKey.ext heq
      have hlookup : s₂.lookup .shape h b.template.key = some a.template := by
        rw [hkey]
        exact lookup_of_follows hs₂ (hleads.follows hs₁) (hanswers.lookup_after hs)
      exact hanswers'.eq_of_lookup hs₂ hlookup
  rw [AppliedShape.eq_iff, htemplate, harguments, harguments']
  exact ⟨.rfl, .rfl⟩

/-- **Records share shapes by their names.** Let a generation be there in a reachable session.

1. If it is not sealed, every construction succeeds whose candidate names are spelled by the
   symbol table, can stand in a key, and are not spelled like placeholders. There is one field
   for each initializer, in order; the names of the fields are different; what is constructed
   has these names with the types that were described; each name leads to the type that goes
   with it, and no other text to any.
2. If the names of some fields can be told but one of them cannot stand in a key, asking for
   the shape is a fault, and nothing has changed.
3. Of two constructions that succeed one after another, whatever happens in between and whatever
   else there is about them, the second has the template of the first exactly if its names are
   the same, and is the same type exactly if the types of the fields are the same as well. -/
theorem Reachable.structural_sharing (hs : s.Reachable) (hg : s.generation? h = some g) :
    (g.isSealed = false → ∀ (symbols : SymbolTable) (pool : TypePool) (c : Construction),
      c.IsSpelled symbols → ∃ list names a s', c.fields symbols pool = .ok list ∧
        list.fields.map (·.location) = c.initializers.map (·.location) ∧
        list.types = c.initializers.map (fun init => (init.fieldType pool).1) ∧
        list.names symbols = .ok names ∧ names.length = c.initializers.length ∧ names.Nodup ∧
        (Step.constructFields h symbols list).run s = (.ok a, s') ∧
        a.fields = names.zip list.types ∧
        (∀ (i : Nat) name type, names[i]? = some name → list.types[i]? = some type →
          a.fieldType? name = some type) ∧
        ∀ name, name ∉ names → a.fieldType? name = none) ∧
    (∀ (symbols : SymbolTable) (list : FieldList) (names : List String),
      list.names symbols = .ok names → (∃ name ∈ names, ¬ IsFieldName name) →
        ∃ name, (names.find? fun name => ¬ IsFieldName name) = some name ∧
          (Step.constructFields h symbols list).run s =
            (.error (.fault (.invalidFieldName name)), s)) ∧
    ∀ (symbols symbols' : SymbolTable) (list list' : FieldList) (names names' : List String)
      (s₁ s₂ s' : Session) (a b : AppliedShape),
      list.names symbols = .ok names → list'.names symbols' = .ok names' →
      (Step.constructFields h symbols list).run s = (.ok a, s₁) → s₁.LeadsTo s₂ →
      (Step.constructFields h symbols' list').run s₂ = (.ok b, s') →
        (b.template = a.template ↔ names' = names) ∧
        (b = a ↔ names' = names ∧ list'.types = list.types) := by
  have hcoherent := hs.coherent
  refine ⟨fun hopen symbols pool c hspelled => ?_, fun symbols list names hnames hinvalid => ?_,
    fun _ _ _ _ _ _ _ _ _ _ _ hnames hnames' ha hleads hb =>
      hcoherent.template_eq_iff hnames hnames' ha hleads hb⟩
  · obtain ⟨list, hlist, hfields⟩ := Construction.exists_fields hspelled pool
    -- the fields have different names that a key may have, so their shape can be asked for
    obtain ⟨names, hnames, hnodup, hvalid⟩ := FieldList.exists_names hspelled hfields
    obtain ⟨a, s', hrun, hnamed, harguments⟩ :=
      hcoherent.exists_constructFields hg hopen hnames hvalid
    have htypes : list.types = c.initializers.map fun init => (init.fieldType pool).1 := by
      rw [FieldList.types, hfields]
      exact Initializer.map_fieldsAfter pool [] _ fun _ _ => rfl
    refine ⟨list, names, a, s', hlist, ?_, htypes, hnames, ?_, hnodup, hrun, ?_, ?_, ?_⟩
    · rw [hfields]
      exact Initializer.map_fieldsAfter pool [] _ fun _ _ => rfl
    · rw [FieldList.length_names hnames, htypes, List.length_map]
    · rw [AppliedShape.fields, hnamed, harguments]
    · intro i name type hname htype
      rw [← hnamed] at hnodup hname
      rw [← harguments] at htype
      exact AppliedShape.fieldType?_of_getElem? hnodup hname htype
    · intro name hnot
      rw [← hnamed] at hnot
      exact AppliedShape.fieldType?_eq_none hnot
  · obtain ⟨name, hfirst, hkey⟩ := FieldList.shapeKey_of_invalid hnames hinvalid
    exact ⟨name, hfirst, Run.constructFields_fault hg hkey⟩

/-- A construction in which a name is written twice. -/
def twiceNamed (name : Symbol) (first second : TypeId) : Construction where
  context := .functionBody
  location := .ofOffsets 0 0 9
  initializers := [⟨some name, .mk .other (.ofOffsets 0 1 2), .typed first⟩,
    ⟨some name, .mk .other (.ofOffsets 0 3 4), .typed second⟩]

theorem isSpelled_twiceNamed {name : Symbol} {text : String}
    (htext : symbols.text? name = some text) (hvalid : IsFieldName text)
    (hhead : text.toList.head? ≠ some '$') (first second : TypeId) :
    (twiceNamed name first second).IsSpelled symbols := by
  intro init hinit name' hname'
  have hsame : name' = name := by
    simp only [twiceNamed, List.mem_cons, List.not_mem_nil, or_false] at hinit
    rcases hinit with rfl | rfl <;> exact (Option.some.inj hname').symm
  exact hsame ▸ FieldName.isSpelled_of_head htext hvalid hhead

/-- Where a name is written twice, it leads to the first of the two fields. With another type
behind it, it is another type with the same template. The empty name is a fault. -/
theorem structural_sharing_written_twice : ∃ (name : Symbol) (symbols : SymbolTable)
    (list list' : FieldList) (a b : AppliedShape) (s₁ s₂ : Session),
    let s := Session.empty.after [⟨_, .root {}⟩]
    s.Reachable ∧ s.generation? 0 = some (.new 0 {} []) ∧
    (twiceNamed name .int .str).IsSpelled symbols ∧
    (twiceNamed name .int .str).fields symbols .new = .ok list ∧
    (twiceNamed name .int .bool).fields symbols .new = .ok list' ∧
    list.names symbols = .ok ["x", "$1"] ∧ list'.names symbols = .ok ["x", "$1"] ∧
    (Step.constructFields 0 symbols list).run s = (.ok a, s₁) ∧
    (Step.constructFields 0 symbols list').run s₁ = (.ok b, s₂) ∧
    a.fields = [("x", .int), ("$1", .str)] ∧ a.fieldType? "x" = some .int ∧
    a.fieldType? "$1" = some .str ∧ a.fieldType? "y" = none ∧
    b.template = a.template ∧ b ≠ a ∧
    (Step.constructFields 0 .new ⟨[⟨.named .empty, .int, .ofOffsets 0 1 2, false⟩], false, [],
      .ofOffsets 0 0 9⟩).run s = (.error (.fault (.invalidFieldName "")), s) := by
  -- the names, and that the root stays open, are found by running the two constructions
  obtain ⟨name, symbols, htext, hfirst, hsecond, hopen₁⟩ :
      ∃ (name : Symbol) (symbols : SymbolTable), symbols.text? name = some "x" ∧
        (((twiceNamed name .int .str).fields symbols .new).toOption.map fun list =>
          (list.names symbols).toOption) = some (some ["x", "$1"]) ∧
        (((twiceNamed name .int .bool).fields symbols .new).toOption.map fun list =>
          (list.names symbols).toOption) = some (some ["x", "$1"]) ∧
        (((twiceNamed name .int .str).fields symbols .new).toOption.bind fun list =>
          ((Step.constructFields 0 symbols list).run (Session.empty.after
            [⟨_, .root {}⟩])).2.generation? 0).map (·.isSealed) = some false :=
    ⟨⟨SymbolTable.shardOf "x", 0⟩, SymbolTable.new.add "x" (by decide) (by decide),
      by decide +kernel⟩
  have hs : (Session.empty.after [⟨_, .root {}⟩]).Reachable := leadsTo_after ..
  have hg : (Session.empty.after [⟨_, .root {}⟩]).generation? 0 = some (.new 0 {} []) := rfl
  have hspelled := isSpelled_twiceNamed htext (by decide) (by decide) .int
  obtain ⟨hsucceeds, hfault, hshares⟩ := Reachable.structural_sharing hs hg
  obtain ⟨list, names, a, s₁, hlist, -, htypes, hnames, -, -, hrun, hfields, htype, hother⟩ :=
    hsucceeds rfl symbols .new _ (hspelled .str)
  simp only [hlist, hnames, hrun, Except.toOption, Option.map_some, Option.bind_some,
    Option.some.injEq] at hfirst hopen₁
  obtain rfl := hfirst
  obtain ⟨g₁, hg₁, hopen₁⟩ := Option.map_eq_some_iff.1 hopen₁
  have hs₁ : s₁.Reachable := hs.of_leadsTo (leadsTo_of_run hrun)
  obtain ⟨list', names', b, s₂, hlist', -, htypes', hnames', -, -, hrun', -⟩ :=
    (Reachable.structural_sharing hs₁ hg₁).1 hopen₁ symbols .new _ (hspelled .bool)
  simp only [hlist', hnames', Except.toOption, Option.map_some, Option.some.injEq] at hsecond
  obtain rfl := hsecond
  obtain ⟨hshared, hsame⟩ := hshares _ _ _ _ _ _ _ _ _ _ _ hnames hnames' hrun .refl hrun'
  rw [htypes] at hfields htype
  refine ⟨name, symbols, list, list', a, b, s₁, s₂, hs, hg, hspelled .str, hlist, hlist', hnames,
    hnames', hrun, hrun', hfields, htype 0 _ _ rfl rfl, htype 1 _ _ rfl rfl,
    hother "y" (by decide), hshared.2 rfl, fun heq => ?_, ?_⟩
  · have hargs : [TypeId.int, .bool] = [.int, .str] :=
      htypes'.symm.trans ((hsame.1 heq).2.trans htypes)
    exact absurd hargs (by decide)
  · obtain ⟨_, hfound, hrun⟩ := hfault .new ⟨[⟨.named .empty, .int, .ofOffsets 0 1 2, false⟩],
      false, [], .ofOffsets 0 0 9⟩ [""] rfl ⟨"", by decide, by decide⟩
    cases hfound
    exact hrun

end Session

end AnonymousTypes
