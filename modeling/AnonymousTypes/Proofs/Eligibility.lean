import AnonymousTypes.Proofs.Pooling
import AnonymousTypes.Proofs.Reporting
import AnonymousTypes.Proofs.Sharing

/-!
# No shape has a type that it may not have

Whether a field may have a type is asked once, when the fields of a construction are made. The
pool grows afterwards, and a type that it does not know would pass. So what matters is that ids
keep their forms (`TypePool.Afterwards.form?_eq`): what was usable once is usable ever after
(`Initializer.usable_or_not`), and it goes into the shape at the position where it was checked
(`Construction.eligible_ever_after`).

A report of an ineligible type calls it by what the pool knows of it. The number of the type is
there for ids that are not known, and these are never reported (`typeReport?_eq_some_iff`).
-/

namespace AnonymousTypes

/-! ## Forms -/

/-- A form that no field may have, and what reports call it. -/
inductive TypeForm.RejectedAs : TypeForm → String → Prop where
  | void : RejectedAs .void "`void`"
  | pointer (target : TypeId) : RejectedAs (.pointer target) "pointer"
  | restricted (name : Symbol) : RejectedAs (.restricted name) "restricted stack-only"

/-- No field may have the form. -/
def TypeForm.IsRejected (form : TypeForm) : Prop := ∃ words, form.RejectedAs words

theorem TypeForm.isFieldEligible_eq_false_iff {form : TypeForm} :
    form.isFieldEligible = false ↔ form.IsRejected := by
  constructor
  · intro h
    cases form with
    | void => exact ⟨_, .void⟩
    | pointer target => exact ⟨_, .pointer target⟩
    | restricted name => exact ⟨_, .restricted name⟩
    | int | float | bool | str | char | error | named | list | function => cases h
  · rintro ⟨_, _ | _ | _⟩ <;> rfl

/-- A report of an ineligible type determines what the type is called. -/
theorem Diagnostic.ineligibleField_inj {words words' : String} {location location' : Location}
    (h : ineligibleField words location = ineligibleField words' location') :
    words = words' ∧ location = location' := by
  simpa [ineligibleField, withLabel, withMessage, ofError, toString] using h

/-- Reports do not call a form by a number. -/
theorem TypeForm.RejectedAs.ne_number {form : TypeForm} {words : String}
    (h : form.RejectedAs words) (raw : UInt32) : words ≠ s!"#{raw}" := by
  intro heq
  have hhead : words.toList.head? = some '#' := by
    rw [heq]
    simp [toString]
  cases h <;> exact absurd hhead (by decide)

namespace TypePool

variable {pool : TypePool} {id : TypeId} {form : TypeForm} {words : String}

/-- Only what is known can be ineligible. -/
theorem isFieldEligible_eq_false_iff : pool.isFieldEligible id = false ↔
    ∃ form, pool.form? id = some form ∧ form.IsRejected := by
  rw [isFieldEligible]
  rcases pool.form? id with _ | form
  · simp
  · simp [TypeForm.isFieldEligible_eq_false_iff]

theorem describeIneligible_of_rejected (h : pool.form? id = some form)
    (hrejected : form.RejectedAs words) : pool.describeIneligible id = words := by
  rw [describeIneligible, h]
  cases hrejected <;> rfl

/-- The error type is known to every pool. -/
theorem form?_error (pool : TypePool) : pool.form? .error = some .error :=
  List.prefix_iff_getElem?.1 pool.primitives_first 6 (by decide)

/-- The form of each type, as it may be known after the pool was used. Either a single worker has
interned some more forms, or several workers have, each at its own pace, and there are ids for all
of the forms. -/
inductive Afterwards (pool : TypePool) : (TypeId → Option TypeForm) → Prop where
  | alone (forms : List TypeForm) : Afterwards pool (pool.internAll forms).form?
  | together {shared : SharedPool} {forms : List TypeForm} (hshared : shared.Binds pool.forms)
      (hroom : SharedPool.HasRoom (pool.forms ++ forms)) (schedule : List Nat) :
      Afterwards pool
        ((Registry.Calls.ofKeys shared forms).run SharedPool.registry schedule).store.form?

/-- **A known id keeps its form**, whoever interns. Only ids that are not known yet can get one. -/
theorem Afterwards.form?_eq {form? : TypeId → Option TypeForm} (h : pool.Afterwards form?)
    (hform : pool.form? id = some form) : form? id = some form := by
  cases h with
  | alone forms => exact form?_internAll hform forms
  | together hshared hroom schedule =>
    exact hshared.form?_run hroom schedule ((hshared.forms id).trans hform)

end TypePool

/-! ## Initializers -/

/-- If the binding has a type, the pool knows it. -/
def Binding.IsKnown (pool : TypePool) (binding : Binding) : Prop :=
  ∀ type, binding = .typed type → (pool.form? type).isSome

/-- The binding has no type that a field may have: the error type, one that no field may have, or
none at all. -/
inductive Binding.IsUnusable (form? : TypeId → Option TypeForm) : Binding → Prop where
  | error : IsUnusable form? (.typed .error)
  | ineligible {type : TypeId} {form : TypeForm} (hform : form? type = some form)
      (hrejected : form.IsRejected) : IsUnusable form? (.typed type)
  | typeless (reason : Typeless) : IsUnusable form? (.typeless reason)

theorem Binding.isUnusable_typed_iff {form? : TypeId → Option TypeForm} {type : TypeId}
    {form : TypeForm} (hform : form? type = some form) :
    (Binding.typed type).IsUnusable form? ↔ type = .error ∨ form.IsRejected := by
  constructor
  · rintro (_ | ⟨hform', hrejected⟩ | _)
    · exact .inl rfl
    · obtain rfl := Option.some.inj (hform.symm.trans hform')
      exact .inr hrejected
  · rintro (rfl | hrejected)
    · exact .error
    · exact .ineligible hform hrejected

namespace Initializer

variable {symbols : SymbolTable} {pool pool' : TypePool} {init : Initializer}

theorem usableType_of_unusable (h : init.binding.IsUnusable pool.form?) :
    init.usableType pool = .error := by
  rw [usableType]
  generalize init.binding = binding at h
  rcases h with _ | ⟨hform, hrejected⟩ | _
  · exact if_neg fun h => h.1 rfl
  · refine if_neg fun h => ?_
    rw [TypePool.isFieldEligible_eq_false_iff.2 ⟨_, hform, hrejected⟩] at h
    cases h.2
  · rfl

theorem usableType_of_usable {type : TypeId} {form : TypeForm}
    (hbinding : init.binding = .typed type) (hform : pool.form? type = some form)
    (herror : type ≠ .error) (hrejected : ¬ form.IsRejected) : init.usableType pool = type := by
  have heligible : pool.isFieldEligible type = true := by
    rw [TypePool.isFieldEligible, hform, ← Bool.not_eq_false]
    exact fun h => hrejected (TypeForm.isFieldEligible_eq_false_iff.1 h)
  rw [usableType, hbinding]
  exact if_pos ⟨herror, heligible⟩

/-- **A field has a usable type** that stays usable, or the error type because there was none. -/
theorem usable_or_not {form? : TypeId → Option TypeForm} (hafter : pool.Afterwards form?)
    (hknown : init.binding.IsKnown pool) :
    (init.usableType pool = .error ∧ init.binding.IsUnusable form?) ∨
      (init.usableType pool ≠ .error ∧ ¬ init.binding.IsUnusable form? ∧
        init.binding = .typed (init.usableType pool) ∧
        ∃ form, form? (init.usableType pool) = some form ∧ ¬ form.IsRejected) := by
  rcases hbinding : init.binding with type | reason
  · obtain ⟨form, hform⟩ := Option.isSome_iff_exists.1 (hknown type hbinding)
    have hlater := hafter.form?_eq hform
    rw [Binding.isUnusable_typed_iff hlater]
    by_cases hunusable : type = .error ∨ form.IsRejected
    · refine .inl ⟨usableType_of_unusable ?_, hunusable⟩
      rwa [hbinding, Binding.isUnusable_typed_iff hform]
    · obtain ⟨herror, hrejected⟩ := not_or.1 hunusable
      rw [usableType_of_usable hbinding hform herror hrejected]
      exact .inr ⟨herror, hunusable, rfl, form, hlater, hrejected⟩
  · refine .inl ⟨usableType_of_unusable ?_, .typeless reason⟩
    rw [hbinding]
    exact .typeless reason

/-- **A report of an ineligible type** is one of a known type with a form that no field may have. -/
theorem typeReport?_eq_some_iff {d : Diagnostic} (hcode : d.code = .ineligibleType) :
    init.typeReport? pool = some d ↔ ∃ type form words, init.binding = .typed type ∧
      pool.form? type = some form ∧ form.RejectedAs words ∧
      d = .ineligibleField words init.location := by
  rw [typeReport?]
  rcases init.binding with type | reason
  · dsimp only
    constructor
    · intro hreport
      split at hreport
      · rename_i hreplaced
        have hineligible : pool.isFieldEligible type = false := Bool.eq_false_iff.2 hreplaced.2
        obtain ⟨form, hform, words, hwords⟩ := TypePool.isFieldEligible_eq_false_iff.1 hineligible
        rw [TypePool.describeIneligible_of_rejected hform hwords] at hreport
        exact ⟨type, form, words, rfl, hform, hwords, (Option.some.inj hreport).symm⟩
      · cases hreport
    · rintro ⟨_, form, words, htype, hform, hwords, rfl⟩
      obtain rfl := Binding.typed.inj htype
      have hineligible := TypePool.isFieldEligible_eq_false_iff.2 ⟨form, hform, words, hwords⟩
      have herror : type ≠ .error := by
        rintro rfl
        obtain rfl := Option.some.inj (pool.form?_error.symm.trans hform)
        cases hwords
      rw [if_pos ⟨herror, Bool.eq_false_iff.1 hineligible⟩,
        TypePool.describeIneligible_of_rejected hform hwords]
  · constructor
    · intro hreport
      obtain rfl := Option.some.inj hreport
      cases hcode
    · rintro ⟨_, _, _, htype, -⟩
      cases htype

/-- The other reports have other codes. -/
theorem mem_reportsAfter_iff {d : Diagnostic} (hcode : d.code = .ineligibleType)
    {earlier inits : List Initializer} : d ∈ reportsAfter symbols pool earlier inits ↔
      ∃ init ∈ inits, init.typeReport? pool = some d := by
  induction inits generalizing earlier with
  | nil => simp [reportsAfter]
  | cons init rest ih =>
    have hname : init.nameReport? symbols earlier ≠ some d := by
      intro hreport
      rw [nameReport?] at hreport
      split at hreport
      · obtain rfl := Option.some.inj hreport
        cases hcode
      · obtain ⟨_, -, htext⟩ := Option.bind_eq_some_iff.1 hreport
        obtain ⟨_, -, rfl⟩ := Option.map_eq_some_iff.1 htext
        cases hcode
    rw [reportsAfter, List.mem_append, ih, reportsBehind_eq, List.mem_append, Option.mem_toList,
      Option.mem_toList, or_iff_left hname]
    simp only [List.mem_cons, exists_eq_or_imp]

/-- What is made of an initializer depends on what the pool knows of its type only. -/
theorem fieldType_congr
    (h : ∀ type, init.binding = .typed type → pool'.form? type = pool.form? type) :
    init.fieldType pool' = init.fieldType pool := by
  rw [fieldType, fieldType]
  rcases hbinding : init.binding with type | reason
  · have hform := h type hbinding
    have heligible : pool'.isFieldEligible type = pool.isFieldEligible type := by
      rw [TypePool.isFieldEligible, hform, TypePool.isFieldEligible]
    have hdescribe : pool'.describeIneligible type = pool.describeIneligible type := by
      rw [TypePool.describeIneligible, hform, TypePool.describeIneligible]
    simp only [heligible, hdescribe]
  · rfl

theorem fieldsFrom_congr {taken : Taken} {position : Nat} {inits : List Initializer}
    (h : ∀ init ∈ inits, init.fieldType pool' = init.fieldType pool) :
    fieldsFrom symbols pool' taken position inits =
      fieldsFrom symbols pool taken position inits := by
  induction inits generalizing taken position with
  | nil => rfl
  | cons init rest ih =>
    obtain ⟨hinit, hrest⟩ := List.forall_mem_cons.1 h
    have hfield : init.field symbols pool' taken position =
        init.field symbols pool taken position := by rw [field, hinit, field]
    rw [fieldsFrom, fieldsFrom, hfield]
    simp only [ih hrest]

end Initializer

/-! ## Constructions -/

namespace Construction

variable {symbols symbols' : SymbolTable} {pool : TypePool} {c : Construction} {list : FieldList}

/-- The pool knows all types of the construction. -/
def IsKnown (pool : TypePool) (c : Construction) : Prop :=
  ∀ init ∈ c.initializers, init.binding.IsKnown pool

/-- **It does not matter when fields are made**, once the types are known. -/
theorem IsKnown.fields_internAll (hknown : c.IsKnown pool) (symbols : SymbolTable)
    (forms : List TypeForm) : c.fields symbols (pool.internAll forms) = c.fields symbols pool := by
  rw [fields, fields, Initializer.fieldsFrom_congr fun init hinit => ?_]
  refine Initializer.fieldType_congr fun type htype => ?_
  obtain ⟨form, hform⟩ := Option.isSome_iff_exists.1 (hknown init hinit type htype)
  rw [hform, TypePool.form?_internAll hform]

/-- The fields and the reports, if they can be made. -/
theorem fields_and_reports (hlist : c.fields symbols pool = .ok list) :
    list.fields = Initializer.fieldsAfter pool [] c.initializers ∧
      list.diagnostics =
        (if c.context.allowsConstruction then []
          else [.illegalConstruction c.context c.location]) ++
          Initializer.reportsAfter symbols pool [] c.initializers := by
  obtain ⟨list', hlist', hfields, -, hdiagnostics, -⟩ :=
    exists_fields_of_reportable pool ((exists_fields_iff symbols pool c).1 ⟨list, hlist⟩)
  obtain rfl := Except.ok.inj (hlist.symm.trans hlist')
  exact ⟨hfields, hdiagnostics⟩

/-- The fields have the usable types. -/
theorem types_eq (hlist : c.fields symbols pool = .ok list) :
    list.types = c.initializers.map (·.usableType pool) := by
  rw [FieldList.types, (fields_and_reports hlist).1]
  refine Initializer.map_fieldsAfter pool [] _ fun init earlier => ?_
  rw [Initializer.fieldAfter, Initializer.fieldType_eq]

/-- **The reports of ineligible types** are those of initializers with such types. -/
theorem mem_diagnostics_iff (hlist : c.fields symbols pool = .ok list) {d : Diagnostic}
    (hcode : d.code = .ineligibleType) : d ∈ list.diagnostics ↔
      ∃ init ∈ c.initializers, ∃ type form words, init.binding = .typed type ∧
        pool.form? type = some form ∧ form.RejectedAs words ∧
        d = .ineligibleField words init.location := by
  have hcontext : d ∉ if c.context.allowsConstruction then []
      else [.illegalConstruction c.context c.location] := by
    split
    · exact List.not_mem_nil
    · intro hmem
      obtain rfl := List.mem_singleton.1 hmem
      cases hcode
  rw [(fields_and_reports hlist).2, List.mem_append, or_iff_right hcontext,
    Initializer.mem_reportsAfter_iff hcode]
  simp only [Initializer.typeReport?_eq_some_iff hcode]

/-- **No shape has a type that it may not have.** Let the pool know the types of a construction,
let the fields be made, and let any forms be interned afterwards, by one worker or by several for
whom there are ids. Whenever the shape of the fields can be constructed, in any session:

1. There is one type for each initializer, in order. It is the error type, or it has a form, and
   this is neither `void` nor a pointer nor restricted.
2. It is the error type exactly if the expression has the error type, a type that no field may
   have, or no type. Otherwise it is the type of the expression.

Whether the shape can be constructed or not:

3. Reports of ineligible types are those of initializers whose types no field may have, and they
   say which of the three kinds it is.
4. None of them calls a type by its number.
5. Making the fields after more forms have been interned comes to the same. -/
theorem eligible_ever_after (hknown : c.IsKnown pool) (hlist : c.fields symbols pool = .ok list) :
    (∀ form?, pool.Afterwards form? →
      ∀ (s s' : Session) (h : Handle) (applied : AppliedShape),
        (Step.constructFields h symbols' list).run s = (.ok applied, s') →
        applied.arguments.length = c.initializers.length ∧
        ∀ (i : Nat) (init : Initializer), c.initializers[i]? = some init →
          ∃ type, applied.arguments[i]? = some type ∧
            (type = .error ∨ ∃ form, form? type = some form ∧ ¬ form.IsRejected) ∧
            (type = .error ↔ init.binding.IsUnusable form?) ∧
            (type ≠ .error → init.binding = .typed type)) ∧
    (∀ d : Diagnostic, d.code = .ineligibleType → (d ∈ list.diagnostics ↔
      ∃ init ∈ c.initializers, ∃ type form words, init.binding = .typed type ∧
        pool.form? type = some form ∧ form.RejectedAs words ∧
        d = .ineligibleField words init.location)) ∧
    (∀ (raw : UInt32) (location : Location),
      Diagnostic.ineligibleField s!"#{raw}" location ∉ list.diagnostics) ∧
    ∀ forms, c.fields symbols (pool.internAll forms) = .ok list := by
  refine ⟨fun form? hafter s s' h applied hrun => ?_, fun d => mem_diagnostics_iff hlist,
    fun raw location hmem => ?_, fun forms => (hknown.fields_internAll symbols forms).trans hlist⟩
  · have harguments : applied.arguments = c.initializers.map (·.usableType pool) :=
      (Session.arguments_of_constructFields hrun).trans (types_eq hlist)
    refine ⟨by rw [harguments, List.length_map], fun i init hinit => ?_⟩
    refine ⟨init.usableType pool, by rw [harguments, List.getElem?_map, hinit]; rfl, ?_⟩
    rcases Initializer.usable_or_not hafter (hknown init (List.mem_of_getElem? hinit)) with
      ⟨herror, hunusable⟩ | ⟨hne, husable, htype, hform⟩
    · exact ⟨.inl herror, iff_of_true herror hunusable, fun hne => absurd herror hne⟩
    · exact ⟨.inr hform, iff_of_false hne husable, fun _ => htype⟩
  · obtain ⟨_, -, _, _, words, -, -, hwords, hreport⟩ := (mem_diagnostics_iff hlist rfl).1 hmem
    exact hwords.ne_number raw (Diagnostic.ineligibleField_inj hreport.symm).1

/-- A construction of a pointer, of `null` and of a list. -/
def pointerNullList (pointer list : TypeId) : Construction where
  context := .functionBody
  location := .ofOffsets 0 0 9
  initializers := [⟨none, .mk .other (.ofOffsets 0 1 2), .typed pointer⟩,
    ⟨none, .mk .null (.ofOffsets 0 3 4), .typeless .null⟩,
    ⟨none, .mk .other (.ofOffsets 0 5 6), .typed list⟩]

/-- Two workers enter a pointer to the list afterwards, at the same time. The list stays usable,
the pointer did not get into the shape, and it was reported as a pointer. -/
theorem eligible_ever_after_growth : ∃ (pool : TypePool) (shared : SharedPool)
    (forms : List TypeForm) (schedule : List Nat) (list : FieldList) (applied : AppliedShape)
    (s' : Session),
    let c := pointerNullList ⟨7⟩ ⟨8⟩
    let later := ((Registry.Calls.ofKeys shared forms).run SharedPool.registry schedule).store
    shared.Binds pool.forms ∧ SharedPool.HasRoom (pool.forms ++ forms) ∧
    pool.size < later.size ∧ c.IsKnown pool ∧ c.fields .new pool = .ok list ∧
    (Step.constructFields 0 .new list).run (Session.empty.after [⟨_, .root {}⟩]) =
      (.ok applied, s') ∧
    applied.arguments[0]? = some .error ∧ applied.arguments[1]? = some .error ∧
    applied.arguments[2]? = some ⟨8⟩ ∧ later.form? ⟨8⟩ = some (.list .int) ∧
    Diagnostic.ineligibleField "pointer" (.ofOffsets 0 1 2) ∈ list.diagnostics := by
  obtain ⟨pool, shared, forms, schedule, hshared, hroom, hgrows, hpointer, hlist, hruns⟩ :
      ∃ (pool : TypePool) (shared : SharedPool) (forms : List TypeForm) (schedule : List Nat),
        shared.Binds pool.forms ∧ SharedPool.HasRoom (pool.forms ++ forms) ∧
        pool.size < ((Registry.Calls.ofKeys shared forms).run SharedPool.registry
          schedule).store.size ∧
        pool.form? ⟨7⟩ = some (.pointer .int) ∧ pool.form? ⟨8⟩ = some (.list .int) ∧
        ((pointerNullList ⟨7⟩ ⟨8⟩).fields .new pool).toOption.any (fun list =>
          ((Step.constructFields 0 .new list).run
            (Session.empty.after [⟨_, .root {}⟩])).1.toOption.isSome) = true :=
    -- adding forms to both pools in the same order binds the same ids
    ⟨TypePool.new.internAll [.pointer .int, .list .int],
      [TypeForm.pointer .int, .list .int].foldl SharedPool.add .new,
      [.pointer ⟨8⟩, .pointer ⟨8⟩], [0, 1, 1, 0],
      SharedPool.binds_new.foldl_add (by decide) (by decide), by decide +kernel⟩
  rcases hfields : (pointerNullList ⟨7⟩ ⟨8⟩).fields .new pool with fault | list
  · rw [hfields] at hruns
    cases hruns
  rw [hfields] at hruns
  rcases hrun : (Step.constructFields 0 .new list).run (Session.empty.after [⟨_, .root {}⟩]) with
    ⟨failure | applied, s'⟩
  · simp [hrun, Except.toOption] at hruns
  have hknown : (pointerNullList ⟨7⟩ ⟨8⟩).IsKnown pool := by
    intro init hinit type htype
    simp only [pointerNullList, List.mem_cons, List.not_mem_nil, or_false] at hinit
    rcases hinit with rfl | rfl | rfl
    · obtain rfl := Binding.typed.inj htype
      exact Option.isSome_of_eq_some hpointer
    · cases htype
    · obtain rfl := Binding.typed.inj htype
      exact Option.isSome_of_eq_some hlist
  have hafter := TypePool.Afterwards.together hshared hroom schedule
  obtain ⟨happlied, hreports, -⟩ := eligible_ever_after hknown hfields
  obtain ⟨-, htypes⟩ := happlied _ hafter _ _ _ _ hrun
  obtain ⟨first, hfirst, -, hunusable, -⟩ := htypes 0 _ rfl
  obtain ⟨second, hsecond, -, hnull, -⟩ := htypes 1 _ rfl
  obtain ⟨third, hthird, -, husable, hsame⟩ := htypes 2 _ rfl
  obtain rfl := hunusable.2 (.ineligible (hafter.form?_eq hpointer) ⟨_, .pointer _⟩)
  obtain rfl := hnull.2 (.typeless .null)
  have hthird' : third = ⟨8⟩ := by
    refine (Binding.typed.inj (hsame fun herror => ?_)).symm
    rcases (Binding.isUnusable_typed_iff (hafter.form?_eq hlist)).1 (husable.1 herror) with
      hsame | ⟨_, hwords⟩
    · cases hsame
    · cases hwords
  refine ⟨pool, shared, forms, schedule, list, applied, s', hshared, hroom, hgrows, hknown, hfields,
    hrun, hfirst, hsecond, hthird.trans (congrArg some hthird'), hafter.form?_eq hlist, ?_⟩
  exact (hreports _ rfl).2 ⟨_, List.mem_cons_self .., _, _, _, rfl, hpointer, .pointer _, rfl⟩

end Construction

end AnonymousTypes
