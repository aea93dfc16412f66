import AnonymousTypes.Proofs.Attempts
import AnonymousTypes.Proofs.Packing
import AnonymousTypes.Proofs.Restarting

/-!
# What is handed over is complete

A finalization that succeeds hands over one list of definitions: those of all shapes that the
generation itself holds, then those of all its delegates, and nothing else. A finalization that
fails hands over nothing (`Reachable.handed_over_exactly`).

Only templates with an identity are defined. That none is left out rests on every template being
named, the shapes in the two phases of finalization (`Finished.isNamed`), so that the definitions
match the templates one for one (`Cache.definitions_perm`). The rest is what a definition consists
of, which follows from its key (`count_accessor`, `count_invoke`).
-/

namespace AnonymousTypes

variable {family : Family}

/-! ## What a definition consists of -/

namespace Definition

/-- What is defined. -/
def defined (d : Definition) : Σ family : Family, family.Key := ⟨d.family, d.key⟩

/-- What is defined, and under which identity. -/
def subject (d : Definition) : (Σ family : Family, family.Key) × Identity := (d.defined, d.identity)

end Definition

/-- A template as the subject of a definition, once it has an identity. -/
def Template.subject (t : Template family) : Option ((Σ family : Family, family.Key) × Identity) :=
  t.identity.map fun identity => (⟨family, t.key⟩, identity)

namespace ShapeKey

@[simp] theorem length_typeParameters (key : ShapeKey) :
    key.typeParameters.length = key.size := by
  rw [typeParameters, List.length_map, List.length_range]

/-- No two fields are at the same position, so no member is there twice. -/
theorem nodup_members (key : ShapeKey) : key.members.Nodup := by
  have hfields : (key.fields.zipIdx.map fun field => Member.accessor field.1 field.2).Nodup := by
    rw [List.nodup_iff_pairwise_ne, List.pairwise_map]
    have hpositions : (key.fields.zipIdx.map Prod.snd).Nodup := by
      rw [List.zipIdx_map_snd]
      exact List.nodup_range'
    refine (List.pairwise_map.1 hpositions).imp fun hne heq => hne ?_
    exact (Member.accessor.inj heq).2
  have hrest : [Member.equals, .hash, .display].Nodup := by decide
  refine List.nodup_cons.2 ⟨by simp, List.nodup_append.2 ⟨hfields, hrest, ?_⟩⟩
  rintro _ hfield member hmember rfl
  obtain ⟨field, -, rfl⟩ := List.mem_map.1 hfield
  simp at hmember

/-- **A shape gives access** to each of its fields, once, at the position of the field. -/
theorem count_accessor (key : ShapeKey) (name : String) (position : Nat) :
    key.members.count (.accessor name position) =
      if key.fields[position]? = some name then 1 else 0 := by
  rw [List.Nodup.count key.nodup_members]
  refine if_congr ?_ rfl rfl
  simp [members, List.mem_zipIdx_iff_getElem?]

end ShapeKey

namespace DelegateKey

@[simp] theorem length_typeParameters (key : DelegateKey) :
    key.typeParameters.length = key.arity := by
  rw [typeParameters, arity, List.length_append, List.length_map, List.length_range']
  cases key.returnsVoid <;> rfl

/-- The flags of a key are those of the parameters that it was made from. -/
theorem flags_ofParameters (params : List Passing) (returnsVoid : Bool) :
    (ofParameters params returnsVoid).flags = params.map fun p => decide (p = .byReference) := by
  refine List.ext_getElem? fun i => ?_
  rw [flags, List.getElem?_map, List.getElem?_map]
  change ((List.range params.length)[i]?).map _ = _
  by_cases hlt : i < params.length
  · rw [List.getElem?_range hlt, Option.map_some, isByReference_ofParameters,
      List.getElem?_eq_getElem hlt, Option.map_some]
    simp
  · rw [List.getElem?_eq_none (by simpa using hlt), List.getElem?_eq_none (by simpa using hlt)]
    rfl

/-- **A delegate is invoked** with the parameters that its key was made from. -/
theorem count_invoke (params : List Passing) (returnsVoid : Bool) (flags : List Bool)
    (void : Bool) : (ofParameters params returnsVoid).members.count (.invoke flags void) =
      if flags = (params.map fun p => decide (p = .byReference)) ∧ void = returnsVoid
      then 1 else 0 := by
  have hvoid : (ofParameters params returnsVoid).returnsVoid = returnsVoid := rfl
  rw [members, flags_ofParameters, hvoid, List.count_cons_of_ne (by simp), List.count_singleton]
  refine if_congr ?_ rfl rfl
  rw [beq_iff_eq, Member.invoke.injEq]
  exact and_congr eq_comm eq_comm

/-- Every key was made from some parameters. -/
theorem exists_ofParameters (key : DelegateKey) :
    ∃ params returnsVoid, key = ofParameters params returnsVoid := by
  obtain ⟨count, words, returnsVoid, params, rfl, rfl⟩ := key
  exact ⟨params, returnsVoid, rfl⟩

end DelegateKey

/-! ## The definitions of a cache -/

namespace Cache

variable {c : Cache family} {isNew : family.Key → Bool}

/-- **Nothing is left out** if all templates have identities: the definitions match the
templates one for one. -/
theorem definitions_perm (hnamed : ∀ t ∈ c.templates, t.isNamed) (isNew : family.Key → Bool) :
    ((c.definitions isNew).map fun d => some d.subject).Perm (c.templates.map (·.subject)) := by
  have hmatch : ((c.templates.filterMap (definition? isNew)).map fun d => some d.subject) =
      c.templates.map (·.subject) := by
    generalize c.templates = ts at hnamed
    induction ts with
    | nil => rfl
    | cons t ts ih =>
      obtain ⟨identity, hidentity⟩ := Option.isSome_iff_exists.1 (hnamed t (List.mem_cons_self ..))
      have hdefinition : definition? isNew t =
          some (.ofKey family t.key identity (isNew t.key)) := by
        rw [definition?, hidentity]
        rfl
      rw [List.filterMap_cons_some hdefinition, List.map_cons, List.map_cons,
        ih fun u hu => hnamed u (List.mem_cons_of_mem _ hu), Template.subject, hidentity]
      rfl
  rw [definitions_eq, ← hmatch]
  exact (sortList_perm ..).map _

theorem length_definitions (hnamed : ∀ t ∈ c.templates, t.isNamed) (isNew : family.Key → Bool) :
    (c.definitions isNew).length = c.size := by
  have hlength := (definitions_perm hnamed isNew).length_eq
  rw [List.length_map, List.length_map] at hlength
  exact hlength.trans (List.length_map ..)

theorem index_le_of_indexCompare {d e : Definition} (hlt : indexCompare d e = .lt) :
    d.identity.index ≤ e.identity.index := by
  rw [indexCompare, Ordering.then_eq_lt] at hlt
  rcases hlt with hlt | ⟨heq, -⟩
  · exact Std.le_of_lt (Std.compare_eq_lt.1 hlt)
  · exact Std.le_of_eq (Std.LawfulEqOrd.eq_of_compare heq)

end Cache

/-! ## The templates of a finished generation -/

namespace Generation.Finished

variable {g g' : Generation} {known : ShapeKey → Option Identity} {start numbering : Numbering}
  {entries : List (ShapeKey × Identity)} {carried : List ShapeKey}

/-- **Every template is named**, a shape in one phase or in the other. -/
theorem isNamed (h : g.Finished known start entries carried numbering g')
    (hkeyed : ∀ family, (g.cache family).Keyed)
    (hclear : ∀ key t, g.shapes.find? key = some t → known key = none) :
    ∀ t ∈ (g'.cache family).templates, t.isNamed := by
  intro t ht
  obtain ⟨key, ht⟩ := Cache.mem_templates_iff.1 ht
  cases family with
  | shape =>
    obtain ⟨identity, hidentity⟩ := h.exists_identity (hkeyed .shape) hclear ht
    exact Option.isSome_of_eq_some hidentity
  | delegate =>
    obtain ⟨u, -, -, index, -, hidentity⟩ := h.delegate_cases (hkeyed .delegate) ht
    exact Option.isSome_of_eq_some hidentity

/-- Delegates are handed over in strict order, as each has an index of its own. -/
theorem index_lt_delegates (h : g.Finished known start entries carried numbering g')
    (hkeyed : g.delegates.Keyed) (hkeyed' : g'.delegates.Keyed)
    (isNew : Family.delegate.Key → Bool) : (g'.delegates.definitions isNew).Pairwise
      fun d e => d.identity.index < e.identity.index := by
  have hextends : Extends (fun _ : Family.delegate.Key => none)
      (fun key => ((g'.delegates.find? key).bind (·.identity)).or none) start.nextDelegate
      numbering.nextDelegate delegateIdentity := h.extends_delegates hkeyed fun _ _ _ => rfl
  refine (Cache.definitions_isLT hkeyed' isNew).imp_of_mem fun {d e} hd he hlt => ?_
  obtain ⟨key, t, identity, ht, hidentity, rfl⟩ := (Cache.mem_definitions hkeyed').1 hd
  obtain ⟨key', t', identity', ht', hidentity', rfl⟩ := (Cache.mem_definitions hkeyed').1 he
  refine Std.lt_of_le_of_ne (Cache.index_le_of_indexCompare hlt) fun heq => ?_
  -- equal indices would be those of one key, and a definition is not before itself
  have hvisible : ((g'.delegates.find? key).bind (·.identity)).or none = some identity := by
    rw [ht, Option.bind_some, hidentity, Option.or_none]
  have hvisible' : ((g'.delegates.find? key').bind (·.identity)).or none = some identity' := by
    rw [ht', Option.bind_some, hidentity', Option.or_none]
  obtain rfl := hextends.distinct rfl rfl hvisible hvisible' heq
  obtain rfl := Option.some.inj (hvisible.symm.trans hvisible')
  have hself : ∀ d, Cache.indexCompare d d = .eq := fun _ => Std.ReflCmp.compare_self
  rw [hself] at hlt
  cases hlt

end Generation.Finished

/-! ## Handing over -/

namespace Session

variable {s s' : Session} {h : Handle} {g : Generation} {given : Numbering}
  {previous : Option IdentityMap}

/-- A finalization that fails, at once or on the way, hands over nothing. -/
theorem Coherent.handedOff_of_error (hs : s.Coherent) (hg : s.generation? h = some g)
    {e : Failure} (hrun : (Step.finalize h given previous).run s = (.error e, s')) :
    ∃ g', s' = s.put h g' ∧ g'.handedOff = g.handedOff := by
  rcases hopen : g.isFinalizing
  · have hready := hs.ready hg hopen
    rw [Step.run, Run.finalize_eq hg hready] at hrun
    obtain ⟨hanswer, rfl⟩ := Prod.mk.inj hrun
    rcases hfinish : s.finish g given previous with ⟨e' | _, g'⟩
    · have hframe := (Generation.failed_of_finish hready hfinish).frame_eq
      exact ⟨g', rfl, Generation.handedOff_of_frame (g := g.begun) hframe⟩
    · rw [hfinish] at hanswer
      cases hanswer
  · rw [Step.run, Run.finalize_again hg hopen] at hrun
    obtain ⟨-, rfl⟩ := Prod.mk.inj hrun
    exact ⟨g, (put_self hg).symm, rfl⟩

/-- **Handing over is complete and exact.** Finalizing changes no other generation, and if it
fails, it hands over nothing. If it succeeds, it hands over one list, which has some definitions
of shapes and then some definitions of delegates.

1. What is defined, and under which identity, are the shapes that the generation itself then
   holds, and its delegates. Each of them is held, and defined, once.
2. Nothing is defined that the generation inherits.
3. The indices do not decrease among the shapes, and increase among the delegates.
4. The number of definitions is the one that finalization answers.
5. A shape has one generic parameter for each field and access to each field at its position.
   It is not new if the map of the previous output has it, and is new otherwise.
6. A delegate has as many generic parameters as its arity says, and one invocation, which is
   that of the parameters that its key was made from. It is new. -/
theorem Reachable.handed_over_exactly (hs : s.Reachable) (hg : s.generation? h = some g)
    {answer : Except Failure Finalized}
    (hrun : (Step.finalize h given previous).run s = (answer, s')) :
    ∃ g', s'.generation? h = some g' ∧
      (∀ k, k ≠ h → s'.generation? k = s.generation? k) ∧
      (∀ e, answer = .error e → g'.handedOff = g.handedOff) ∧
      ∀ result, answer = .ok result → ∃ shapes delegates : List Definition,
        g'.handedOff = g.handedOff ++ [shapes ++ delegates] ∧
        (shapes.map fun d => some d.subject).Perm (g'.shapes.templates.map (·.subject)) ∧
        (delegates.map fun d => some d.subject).Perm (g'.delegates.templates.map (·.subject)) ∧
        (∀ family, ((g'.cache family).templates.map (·.key)).Nodup) ∧
        (∀ d ∈ shapes ++ delegates, s'.offered d.family h d.key = none) ∧
        (shapes.Pairwise fun d e => d.identity.index ≤ e.identity.index) ∧
        (delegates.Pairwise fun d e => d.identity.index < e.identity.index) ∧
        result.emitted = g'.shapes.size + g'.delegates.size ∧
        (∀ d ∈ shapes, ∃ key : ShapeKey, d.defined = ⟨.shape, key⟩ ∧
          d.typeParameters.length = key.size ∧
          (∀ name position, d.members.count (.accessor name position) =
            if key.fields[position]? = some name then 1 else 0) ∧
          d.isNew = ((previous.getD .empty).get? key).isNone) ∧
        ∀ d ∈ delegates, ∃ params returnsVoid,
          d.defined = ⟨.delegate, .ofParameters params returnsVoid⟩ ∧
          d.typeParameters.length = (DelegateKey.ofParameters params returnsVoid).arity ∧
          (∀ flags void, d.members.count (.invoke flags void) =
            if flags = (params.map fun p => decide (p = .byReference)) ∧ void = returnsVoid
            then 1 else 0) ∧
          d.isNew = true := by
  have hcoherent := hs.coherent
  have hothers : ∀ g' k, k ≠ h → (s.put h g').generation? k = s.generation? k :=
    fun g' _ hne => generation?_put_ne s g' hne
  have hself : ∀ g', (s.put h g').generation? h = some g' :=
    generation?_put_self (Option.isSome_of_eq_some hg)
  rcases answer with e | result
  · obtain ⟨g', rfl, hnothing⟩ := hcoherent.handedOff_of_error hg hrun
    exact ⟨g', hself g', hothers g', fun _ _ => hnothing, fun _ hok => (by cases hok)⟩
  have hcoherent' : s'.Coherent := (leadsTo_of_run hrun).coherent hcoherent
  obtain ⟨carried, g', rfl, hready, hfinished, hreport⟩ := hcoherent.finished hg hrun
  have hkeyed' := hcoherent'.keyed (hself g')
  have hclear : ∀ key t, g.shapes.find? key = some t →
      s.inheritedIdentity .shape g.ancestors key = none := hcoherent.clear hg .shape
  have hnamed : ∀ family, ∀ t ∈ (g'.cache family).templates, t.isNamed :=
    fun _ => hfinished.isNamed hready.keyed hclear
  -- what is defined is held, and so it is not inherited
  have hoffered : ∀ {family : Family} {isNew : family.Key → Bool},
      ∀ d ∈ (g'.cache family).definitions isNew, (s.put h g').offered d.family h d.key = none := by
    intro family isNew d hd
    obtain ⟨key, t, identity, ht, -, rfl⟩ := (Cache.mem_definitions (hkeyed' family)).1 hd
    rw [offered, hself]
    exact (hcoherent' (hself g')).clear ht
  refine ⟨g', hself g', hothers g', fun _ herror => (by cases herror), ?_⟩
  rintro result' hresult
  obtain rfl := Except.ok.inj hresult
  refine ⟨_, _, hfinished.handedOff_eq, Cache.definitions_perm (hnamed .shape) _,
    Cache.definitions_perm (hnamed .delegate) _, fun family => (hkeyed' family).nodup_keys, ?_,
    (Cache.definitions_isLT (hkeyed' .shape) _).imp Cache.index_le_of_indexCompare,
    hfinished.index_lt_delegates (hready.keyed .delegate) (hkeyed' .delegate) _, ?_, ?_, ?_⟩
  · intro d hd
    rcases List.mem_append.1 hd with hd | hd
    · exact hoffered d hd
    · exact hoffered d hd
  · rw [hreport, report, Generation.definitions, List.length_append]
    exact congrArg₂ (· + ·) (Cache.length_definitions (hnamed .shape) _)
      (Cache.length_definitions (hnamed .delegate) _)
  · intro d hd
    obtain ⟨key, t, identity, ht, -, rfl⟩ := (Cache.mem_definitions (hkeyed' .shape)).1 hd
    have hnone := hfinished.known_eq_none hclear (Option.isSome_of_eq_some ht)
    exact ⟨key, rfl, key.length_typeParameters, key.count_accessor,
      hfinished.decide_notMem_carried hnone⟩
  · intro d hd
    obtain ⟨key, t, identity, -, -, rfl⟩ := (Cache.mem_definitions (hkeyed' .delegate)).1 hd
    obtain ⟨params, returnsVoid, rfl⟩ := DelegateKey.exists_ofParameters key
    exact ⟨params, returnsVoid, rfl, DelegateKey.length_typeParameters _,
      DelegateKey.count_invoke params returnsVoid, rfl⟩

/-- A generation with one shape and one delegate is finalized with a map that records another
shape: three definitions are handed over, and that of the recorded shape is not new. -/
theorem handed_over_with_recorded : ∃ (s s' : Session) (g g' : Generation) (map : IdentityMap)
    (result : Finalized) (shapes delegates : List Definition) (recorded : ShapeKey),
    s.Reachable ∧ s.generation? 0 = some g ∧
    (Step.finalize 0 .zero (some map)).run s = (.ok result, s') ∧ s'.generation? 0 = some g' ∧
    g'.handedOff = g.handedOff ++ [shapes ++ delegates] ∧ shapes.length = 2 ∧
    delegates.length = 1 ∧ result.emitted = 3 ∧ (map.get? recorded).isSome ∧
    ∀ d ∈ shapes, d.defined = ⟨.shape, recorded⟩ → d.isNew = false := by
  obtain ⟨s, recorded, map, g, hs, hg, hrecorded, hok, hsizes⟩ : ∃ (s : Session)
      (recorded : ShapeKey) (map : IdentityMap) (g : Generation), s.Reachable ∧
      s.generation? 0 = some g ∧ (map.get? recorded).isSome ∧
      let x := (Step.finalize 0 .zero (some map)).run s
      x.1.toOption.isSome ∧ (x.2.generation? 0).map (fun g' =>
        (g'.shapes.templates.length, g'.delegates.templates.length, g'.shapes.size,
          g'.delegates.size)) = some (2, 1, 2, 1) :=
    ⟨Session.empty.after [⟨_, .root {}⟩, ⟨_, .request .shape 0 ⟨["a"], by decide⟩ none⟩,
        ⟨_, .request .delegate 0 (.ofParameters [.byReference] true) none⟩],
      ⟨["b"], by decide⟩, IdentityMap.empty.insert ⟨["b"], by decide⟩ ⟨"kept", 7⟩, _,
      leadsTo_after .., rfl, by decide +kernel, by decide +kernel⟩
  rcases hrun : (Step.finalize 0 .zero (some map)).run s with ⟨_ | result, s'⟩
  · rw [hrun] at hok
    cases hok
  rw [hrun] at hsizes
  obtain ⟨g', hg', -, -, hall⟩ := hs.handed_over_exactly hg hrun
  obtain ⟨shapes, delegates, heq, hshapes, hdelegates, -, -, -, -, hemitted, hitems, -⟩ :=
    hall result rfl
  rw [hg'] at hsizes
  obtain ⟨hshapes', hdelegates', hsize, hsize'⟩ : g'.shapes.templates.length = 2 ∧
      g'.delegates.templates.length = 1 ∧ g'.shapes.size = 2 ∧ g'.delegates.size = 1 := by
    simpa using hsizes
  have hlength := hshapes.length_eq
  have hlength' := hdelegates.length_eq
  rw [List.length_map, List.length_map] at hlength hlength'
  refine ⟨s, s', g, g', map, result, shapes, delegates, recorded, hs, hg, hrun, hg', heq,
    hlength.trans hshapes', hlength'.trans hdelegates', by rw [hemitted, hsize, hsize'], hrecorded,
    fun d hd hdefined => ?_⟩
  obtain ⟨key, hkey, -, -, hnew⟩ := hitems d hd
  obtain rfl : key = recorded := by
    rw [hdefined] at hkey
    exact (eq_of_heq (Sigma.mk.inj hkey).2).symm
  rw [hnew, Option.getD_some, Option.isNone_eq_false_iff]
  exact hrecorded

end Session

end AnonymousTypes
