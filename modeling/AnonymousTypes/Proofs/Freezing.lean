import AnonymousTypes.Proofs.Auditing
import AnonymousTypes.Proofs.Chains
import AnonymousTypes.Proofs.Continuity

/-!
# The seal freezes a generation

Behind the seal, requests change nothing about a cache but the earliest locations of its
templates and what is counted about answers (`Cache.Frozen`, `Handles.frozen`). No step does
anything else to a generation that is finalized, so a generation that seals stays frozen along
every run (`Coherent.frozen_after`), and it goes on seeing the same templates
(`lookup_of_frozen`). What is left to decide about a request is whether its location was there
before the seal, and that is for `AnonymousTypes.Proofs.Auditing` to say.

A generation that does not seal goes on granting every request (`Step.not_late_of_open`). The
templates that it creates now are never named.
-/

namespace AnonymousTypes

variable {family : Family} {α : Type}

/-- Whether something was requested too late. -/
def Failure.isLate : Failure → Bool
  | .rejected (.insertAfterSeal ..) => true
  | .fault (.lateUse ..) => true
  | _ => false

/-! ## Frozen caches -/

/-- What lasts about a template: all but its earliest location. -/
def Template.lasting (t : Template family) : family.Key × GenerationId × Option Identity :=
  (t.key, t.owner, t.identity)

namespace Cache

/-- `c'` has the templates that `c` has, and knows the same locations. -/
structure Frozen (c c' : Cache family) : Prop where
  frame_eq : c'.frame = c.frame
  created_eq : c'.created = c.created
  audited_iff : ∀ location, location ∈ c'.audited ↔ location ∈ c.audited
  lasting_eq : ∀ key, (c'.find? key).map (·.lasting) = (c.find? key).map (·.lasting)

variable {c c' c'' : Cache family} {offer : family.Key → Option (TemplateRef family)}

/-- Where something lasts, there is something. -/
theorem isSome_eq_of_lasting {t u : Option (Template family)}
    (h : u.map (·.lasting) = t.map (·.lasting)) : u.isSome = t.isSome := by
  rw [← Option.isSome_map (f := (·.lasting)), h, Option.isSome_map]

namespace Frozen

theorem refl (c : Cache family) : c.Frozen c := ⟨rfl, rfl, fun _ => .rfl, fun _ => rfl⟩

theorem trans (h : c.Frozen c') (h' : c'.Frozen c'') : c.Frozen c'' where
  frame_eq := h'.frame_eq.trans h.frame_eq
  created_eq := h'.created_eq.trans h.created_eq
  audited_iff location := (h'.audited_iff location).trans (h.audited_iff location)
  lasting_eq key := (h'.lasting_eq key).trans (h.lasting_eq key)

end Frozen

/-- No key is added to a sealed cache, and what it holds stays, the earliest location apart. -/
theorem Serves.lasting_eq {granted : Request family → Prop} (h : c.Serves offer granted c')
    (hsealed : c.isSealed = true) (key : family.Key) :
    (c'.find? key).map (·.lasting) = (c.find? key).map (·.lasting) := by
  rcases hkey : c.find? key with _ | t
  · have hbound : ∀ r, granted r ∧ offer r.key = none → c.Grants offer r ∧ offer r.key = none :=
      fun r hr => ⟨h.grants r hr.1, hr.2⟩
    rw [h.absorbs.find?_eq_none hbound hkey (.inr hsealed)]
  · obtain ⟨e, -, hfind⟩ := h.absorbs.held hkey
    rw [hfind]
    rfl

/-- **A sealed cache** is frozen: requests find what is there or fail. None of them adds a
template, gives one an identity or records a location. -/
theorem Handles.frozen {requests : List (Request family)} (h : c.Handles offer requests c')
    (hsealed : c.isSealed = true) : c.Frozen c' where
  frame_eq := h.serves.absorbs.frame_eq
  created_eq := by
    have hsize : c'.size = c.size := Table.size_eq_of_isSome fun key =>
      isSome_eq_of_lasting (h.serves.lasting_eq hsealed key)
    have hcreated := h.created_eq
    omega
  audited_iff := h.serves.audited_of_sealed hsealed
  lasting_eq := h.serves.lasting_eq hsealed

end Cache

/-! ## Frozen generations -/

/-- `g'` has the caches of `g`, and nothing else about it has changed either. -/
structure Generation.Frozen (g g' : Generation) : Prop where
  frame_eq : g'.frame = g.frame
  cache : ∀ family, (g.cache family).Frozen (g'.cache family)

namespace Generation.Frozen

variable {g g' g'' : Generation}

theorem refl (g : Generation) : g.Frozen g := ⟨rfl, fun _ => .refl _⟩

theorem trans (h : g.Frozen g') (h' : g'.Frozen g'') : g.Frozen g'' where
  frame_eq := h'.frame_eq.trans h.frame_eq
  cache family := (h.cache family).trans (h'.cache family)

theorem isSealed_eq (h : g.Frozen g') (family : Family) :
    (g'.cache family).isSealed = (g.cache family).isSealed :=
  Cache.isSealed_of_frame (h.cache family).frame_eq

end Generation.Frozen

namespace Session

variable {s s' : Session} {h : Handle} {g g' : Generation}

namespace Coherent

/-- A generation that is sealed is finalized. -/
theorem finalized_of_sealed (hs : s.Coherent) (hg : s.generation? h = some g)
    (hsealed : (g.cache family).isSealed = true) : g.finalized.isSome := by
  rw [(hs hg).isSealed, Bool.and_eq_true] at hsealed
  exact hsealed.1

/-- **A step** leaves a sealed generation frozen, whether it is addressed to it or to another
one. -/
theorem frozen_run (hs : s.Coherent) (hg : s.generation? h = some g)
    (hsealed : ∀ family, (g.cache family).isSealed = true) (x : Step α) :
    ∃ g', (x.run s).2.generation? h = some g' ∧ g.Frozen g' := by
  have hbegun := (hs hg).finalizing (hs.finalized_of_sealed hg (hsealed .shape))
  obtain ⟨g', hg', hframe, hhandles⟩ := Step.handles_of_begun hs hg hbegun x
  refine ⟨g', hg', hframe, fun family => ?_⟩
  obtain ⟨requests, -, hcache⟩ := hhandles family
  exact hcache.frozen (hsealed family)

/-- **A run** leaves a sealed generation frozen. By induction, since a frozen generation is still
sealed. -/
theorem frozen_after (hs : s.Coherent) (hg : s.generation? h = some g)
    (hsealed : ∀ family, (g.cache family).isSealed = true) (xs : List (Σ α, Step α)) :
    ∃ g', (s.after xs).generation? h = some g' ∧ g.Frozen g' := by
  induction xs generalizing s g with
  | nil => exact ⟨g, hg, .refl g⟩
  | cons x xs ih =>
    obtain ⟨g₁, hg₁, hfrozen⟩ := hs.frozen_run hg hsealed x.2
    have hsealed₁ := fun family => (hfrozen.isSealed_eq family).trans (hsealed family)
    obtain ⟨g', hg', hfrozen'⟩ := ih ((x.2.change hs).coherent hs) hg₁ hsealed₁
    exact ⟨g', hg', hfrozen.trans hfrozen'⟩

end Coherent

/-- **What a frozen generation sees** does not change: neither its own templates do, nor what
it inherits. -/
theorem lookup_of_frozen (hfollows : s.Follows s') (hg : s.generation? h = some g)
    (hg' : s'.generation? h = some g') (hfrozen : g.Frozen g') (key : family.Key) :
    s'.lookup family h key = s.lookup family h key := by
  have hsome : (s'.own? family h key).isSome = (s.own? family h key).isSome := by
    rw [own?_of_generation hg, own?_of_generation hg']
    exact Cache.isSome_eq_of_lasting ((hfrozen.cache family).lasting_eq key)
  rcases hown : s.own? family h key with _ | t
  · have hown' : s'.own? family h key = none := by
      rwa [hown, Option.isSome_none, Option.isSome_eq_false_iff, Option.isNone_iff_eq_none]
        at hsome
    rw [lookup_of_own_none hg hown, lookup_of_own_none hg' hown',
      Generation.ancestors_of_frame hfrozen.frame_eq, hfollows.inherited hg]
  · rw [hown] at hsome
    obtain ⟨t', hown'⟩ := Option.isSome_iff_exists.1 hsome
    rw [lookup_of_own hown, lookup_of_own hown']

/-- **What a generation does not see**: keys for which it holds no template, and none of those
that it continues has a named one. -/
theorem Coherent.lookup_eq_none_iff (hs : s.Coherent) (hg : s.generation? h = some g)
    (key : family.Key) : s.lookup family h key = none ↔
      (g.cache family).find? key = none ∧
        ∀ a ∈ g.ancestors, s.identity? (⟨a, key⟩ : TemplateRef family) = none := by
  rcases hown : s.own? family h key with _ | t
  · rw [lookup_of_own_none hg hown, (hs.isChain hg).inherited_eq hs, Option.map_eq_none_iff,
      List.find?_eq_none, ← own?_of_generation hg, hown]
    simp only [Bool.not_eq_true, Option.isSome_eq_false_iff, Option.isNone_iff_eq_none, true_and]
  · rw [lookup_of_own hown, ← own?_of_generation hg, hown]
    simp only [reduceCtorEq, false_and]

/-- What is not seen behind the seal cannot be had any more. -/
theorem alone_of_unseen (hg : s.generation? h = some g) {r : Request family}
    (hsealed : (g.cache family).isSealed = true)
    (hnone : s.lookup family h r.key = none) :
    s.alone h r = .error (Cache.sealedFailure r.key) := by
  rw [alone_eq hg]
  rcases hown : s.own? family h r.key with _ | t
  · rw [lookup_of_own_none hg hown] at hnone
    rw [own?_of_generation hg] at hown
    exact Cache.outcome_of_sealed hown hnone hsealed
  · rw [lookup_of_own hown] at hnone
    cases hnone

/-- What is seen behind the seal can be had from the locations that were there before. -/
theorem Coherent.alone_of_seen (hs : s.Coherent) (hg : s.generation? h = some g)
    {r : Request family} (hsealed : (g.cache family).isSealed = true)
    {template : TemplateRef family} (hlookup : s.lookup family h r.key = some template) :
    (∀ l, r.location = some l → l ∉ (g.cache family).audited →
      s.alone h r = .error (.fault (.lateUse family l))) ∧
    ((∀ l, r.location = some l → l ∈ (g.cache family).audited) →
      s.alone h r = .ok template) := by
  rcases request_of_lookup hs hg hlookup r.location with ⟨hadmits, hok⟩ | ⟨l, hl, hnot, hlate⟩
  · refine ⟨fun l hl hmem => ?_, fun _ => hok⟩
    rcases hadmits with hopen | hall
    · rw [hsealed] at hopen
      cases hopen
    · exact absurd (hall l hl) hmem
  · refine ⟨fun l' hl' _ => ?_, fun hall => absurd (.inr hall) hnot⟩
    obtain rfl := Option.some.inj (hl.symm.trans hl')
    exact hlate

end Session

/-! ## Generations that do not seal -/

/-- Names that make no shape are a fault at any time. -/
theorem FieldList.not_late_of_shapeKey {symbols : SymbolTable} {list : FieldList} {fault : Fault}
    (h : list.shapeKey symbols = .error fault) : (Failure.fault fault).isLate = false := by
  rcases bind_eq_error_iff.1 h with hnames | ⟨names, -, hfields⟩
  · obtain ⟨field, -, htext⟩ := exists_of_mapM_eq_error hnames
    cases hname : field.name with
    | named name =>
      rw [hname, FieldName.text, SymbolTable.text] at htext
      split at htext <;> cases htext
      rfl
    | placeholder position =>
      rw [hname] at htext
      cases htext
  · rw [ShapeKey.ofFields] at hfields
    split at hfields <;> cases hfields
    rfl

namespace Session

variable {s : Session} {h : Handle} {g : Generation}

/-- **Every request is granted** by a generation that is not sealed. -/
theorem exists_alone_of_open (hg : s.generation? h = some g)
    (hopen : (g.cache family).isSealed = false) (r : Request family) :
    ∃ template, s.alone h r = .ok template := by
  rw [alone_eq hg]
  exact Cache.grants_of_open hopen

/-- So a construction is not late either, whatever else may be wrong with it. -/
theorem not_late_of_construct (hg : s.generation? h = some g)
    (hopen : (g.cache .shape).isSealed = false) {key : ShapeKey} {arguments : List TypeId}
    {location : Option Location} {e : Failure}
    (he : (Run.construct h key arguments location s).1 = .error e) : e.isLate = false := by
  obtain ⟨template, hok⟩ := exists_alone_of_open hg hopen ⟨key, location⟩
  have hrequest : (Run.request .shape h key location s).1 = .ok template := hok
  rw [Run.construct_eq, hrequest] at he
  simp only [Except.bind, TemplateRef.apply] at he
  split at he <;> cases he
  rfl

end Session

open Session

/-- **No step comes too late** for a finalized generation that is not sealed. -/
theorem Step.not_late_of_open {s : Session} {h : Handle} {g : Generation}
    (hs : s.Coherent) (hg : s.generation? h = some g) (hfinal : g.finalized.isSome)
    (hopen : ∀ family, (g.cache family).isSealed = false) {x : Step α} (hx : x.home? = some h)
    {e : Failure} (he : (x.run s).1 = .error e) : e.isLate = false := by
  cases x with
  | root => cases hx
  | derive _ config =>
    obtain rfl := Option.some.inj hx
    obtain ⟨numbering, hfinal⟩ := Option.isSome_iff_exists.1 hfinal
    rw [Step.run, Run.continueFrom_finalized hg hfinal] at he
    cases he
  | request family _ key location =>
    obtain rfl := Option.some.inj hx
    obtain ⟨template, hok⟩ := exists_alone_of_open hg (hopen family) ⟨key, location⟩
    cases hok.symm.trans he
  | requestAll family _ requests =>
    obtain rfl := Option.some.inj hx
    obtain ⟨c, heq, -⟩ := Run.requestAll_eq hg requests
    rw [Step.run, heq] at he
    cases he
  | requestSignature _ params returnsVoid location =>
    obtain rfl := Option.some.inj hx
    rcases hpredefined : (DelegateKey.ofParameters params returnsVoid).isPredefined
    · obtain ⟨template, hok⟩ := exists_alone_of_open hg (hopen .delegate)
        ⟨.ofParameters params returnsVoid, location⟩
      have hrequest : (Run.request .delegate _ (.ofParameters params returnsVoid) location s).1 =
        .ok template := hok
      rw [Step.run, Run.requestSignature_eq hpredefined, hrequest] at he
      cases he
    · rw [Step.run, Run.requestSignature_predefined hpredefined] at he
      cases he
  | construct _ key arguments location =>
    obtain rfl := Option.some.inj hx
    exact not_late_of_construct hg (hopen .shape) he
  | constructFields _ symbols list =>
    obtain rfl := Option.some.inj hx
    rcases hkey : list.shapeKey symbols with fault | key
    · rw [Step.run, Run.constructFields_fault hg hkey] at he
      cases he
      exact FieldList.not_late_of_shapeKey hkey
    · rw [Step.run, Run.constructFields_eq hg hkey] at he
      exact not_late_of_construct hg (hopen .shape) he
  | finalize _ given previous =>
    obtain rfl := Option.some.inj hx
    rw [Step.run, Run.finalize_again hg ((hs hg).finalizing hfinal)] at he
    cases he
    rfl

namespace Session

/-! ## After finalization -/

/-- **The seal freezes a generation.** Let a generation be finalized after some steps `xs`, and
let any steps `ys` follow, on whatever generations.

1. If its mode is full, then its templates are the same ones, with the same owners and the same
   identities, and so are the numbers of templates that it created and the counters that
   finalization left behind. What it sees for a key is what it saw when finalization was done:
   nothing, if it holds no template for the key and no generation that it continues has a named
   one. A request for a key for which it sees nothing is refused. A request for any other key
   is a fault if it has a location that no request that came to the same cache before
   finalization had; otherwise it is answered with the template that the generation sees.
2. If its mode is without bodies, then it is not sealed, it grants every request, and no step
   that is addressed to it is refused or faults for being late. The templates that it did not
   have when finalization was done have no identity.

In both modes requests that race for the generation have the outcomes that they have alone. -/
theorem frozen_once_finalized {xs : List (Σ α, Step α)} {h : Handle} {given : Numbering}
    {previous : Option IdentityMap} {result : Finalized} {s : Session}
    (hrun : (Step.finalize h given previous).run (Session.empty.after xs) = (.ok result, s)) :
    ∃ g, s.generation? h = some g ∧ g.finalized = some result.numbering ∧
    ∀ ys : List (Σ α, Step α), let s' := s.after ys
      ∃ g', s'.generation? h = some g' ∧ g'.finalized = some result.numbering ∧
      (g.config.mode = .full → g.Frozen g' ∧ ∀ family (r : Request family),
        s'.lookup family h r.key = s.lookup family h r.key ∧
        (s'.lookup family h r.key = none ↔ (g'.cache family).find? r.key = none ∧
          ∀ a ∈ g'.ancestors, s'.identity? (⟨a, r.key⟩ : TemplateRef family) = none) ∧
        (s'.lookup family h r.key = none →
          s'.alone h r = .error (.rejected (.insertAfterSeal family (family.keyText r.key)))) ∧
        ∀ template, s.lookup family h r.key = some template →
          (∀ l, r.location = some l → ¬ Session.empty.Carried h xs family l →
            s'.alone h r = .error (.fault (.lateUse family l))) ∧
          ((∀ l, r.location = some l → Session.empty.Carried h xs family l) →
            s'.alone h r = .ok template)) ∧
      (g.config.mode = .metadataOnly →
        (∀ family, (g'.cache family).isSealed = false ∧
          ∀ r : Request family, ∃ template, s'.alone h r = .ok template) ∧
        (∀ α (x : Step α) e, x.home? = some h → (x.run s').1 = .error e → e.isLate = false) ∧
        ∀ family (key : family.Key) t, s.own? family h key = none →
          s'.own? family h key = some t → t.identity = none) ∧
      ∀ family (requests : List (Request family)),
        ((Step.requestAll family h requests).run s').1 = .ok (requests.map (s'.alone h)) := by
  obtain ⟨g, hg, hfinal, hknown⟩ := audited_of_finalized hrun
  have hs : s.Coherent := (leadsTo_of_run hrun).coherent
    ((leadsTo_after .empty xs).coherent coherent_empty)
  have hbegun : g.isFinalizing = true := (hs hg).finalizing (Option.isSome_of_eq_some hfinal)
  refine ⟨g, hg, hfinal, fun ys => ?_⟩
  have hs' : (s.after ys).Coherent := (leadsTo_after s ys).coherent hs
  have hfollows : s.Follows (s.after ys) := (leadsTo_after s ys).follows hs
  obtain ⟨g', hg', hconfig, -, hstays⟩ := hfollows.generation hg
  have hfinal' : g'.finalized = some result.numbering := (hstays hbegun).2.trans hfinal
  refine ⟨g', hg', hfinal', fun hfull => ?_, fun hmetadata => ?_, fun family requests => ?_⟩
  · -- a full output: both caches are sealed, and what lasts of a sealed cache is the same for ever
    have hsealed : ∀ family, (g.cache family).isSealed = true := fun family => by
      rw [(hs hg).isSealed, hfinal, OutputConfig.seals, hfull]
      rfl
    obtain ⟨g'', hg'', hfrozen⟩ := hs.frozen_after hg hsealed ys
    obtain rfl := Option.some.inj (hg'.symm.trans hg'')
    refine ⟨hfrozen, fun family r => ?_⟩
    have hsame := lookup_of_frozen hfollows hg hg' hfrozen r.key
    have hsealed' : (g'.cache family).isSealed = true :=
      (hfrozen.isSealed_eq family).trans (hsealed family)
    refine ⟨hsame, hs'.lookup_eq_none_iff hg' r.key, alone_of_unseen hg' hsealed',
      fun template htemplate => ?_⟩
    have hanswer := hs'.alone_of_seen hg' hsealed' (hsame.trans htemplate)
    simp only [(hfrozen.cache family).audited_iff, hknown] at hanswer
    exact hanswer
  · -- metadata only: nothing is ever sealed, and the names were given out before
    have hopen : ∀ family, (g'.cache family).isSealed = false := fun family => by
      rw [(hs' hg').isSealed, OutputConfig.seals, hconfig, hmetadata]
      exact Bool.and_false _
    refine ⟨fun family => ⟨hopen family, exists_alone_of_open hg' (hopen family)⟩,
      fun α x e hx he => Step.not_late_of_open hs' hg' (Option.isSome_of_eq_some hfinal') hopen
        hx he, fun family key t hnone ht => ?_⟩
    have hsettled : (s.after ys).identity? (⟨h, key⟩ : TemplateRef family) =
      s.identity? ⟨h, key⟩ := hfollows.settled hg hbegun
    rw [identity?, identity?, template?, template?, hnone, ht] at hsettled
    exact hsettled
  · obtain ⟨c, heq, -⟩ := Run.requestAll_eq hg' requests
    rw [Step.run, heq]
    exact congrArg Except.ok (List.map_congr_left fun r _ => (alone_eq hg' r).symm)

/-- A root with one shape is finalized and continued by a generation that is asked for this
shape, and from elsewhere for a delegate. -/
def inheritedUse (shared : ShapeKey) (delegate : DelegateKey) (early late : Location) :
    List (Σ α, Step α) :=
  [⟨_, .root {}⟩, ⟨_, .request .shape 0 shared none⟩, ⟨_, .finalize 0 .zero none⟩,
    ⟨_, .derive 0 {}⟩, ⟨_, .request .shape 1 shared (some early)⟩,
    ⟨_, .request .delegate 1 delegate (some late)⟩]

/-- Once it is finalized, the shape can be had from where it was asked for, but not from where
the delegate was; and a new one cannot be had at all. -/
theorem frozen_past_inherited_use : ∃ (shared fresh : ShapeKey) (delegate : DelegateKey)
    (early late : Location) (result : Finalized) (s : Session),
    (Step.finalize 1 .zero none).run
      (Session.empty.after (inheritedUse shared delegate early late)) = (.ok result, s) ∧
    ∀ ys : List (Σ α, Step α),
      (s.after ys).alone 1 (⟨shared, some early⟩ : Request .shape) = .ok ⟨0, shared⟩ ∧
      (s.after ys).alone 1 (⟨shared, some late⟩ : Request .shape) =
        .error (.fault (.lateUse .shape late)) ∧
      (s.after ys).alone 1 (⟨fresh, none⟩ : Request .shape) =
        .error (.rejected (.insertAfterSeal .shape (Family.shape.keyText fresh))) := by
  obtain ⟨shared, fresh, delegate, early, late, hok, hmode, hshared, hfresh, hearly, hlate⟩ :
      ∃ (shared fresh : ShapeKey) (delegate : DelegateKey) (early late : Location),
        let x := (Step.finalize 1 .zero none).run
          (Session.empty.after (inheritedUse shared delegate early late))
        x.1.toOption.isSome ∧ (x.2.generation? 1).map (·.config.mode) = some .full ∧
        x.2.lookup .shape 1 shared = some ⟨0, shared⟩ ∧ x.2.lookup .shape 1 fresh = none ∧
        Session.empty.Carried 1 (inheritedUse shared delegate early late) .shape early ∧
        ¬ Session.empty.Carried 1 (inheritedUse shared delegate early late) .shape late :=
    ⟨⟨["a"], by decide⟩, ⟨["b"], by decide⟩, .ofParameters [.byReference] true,
      .ofOffsets 0 3 5, .ofOffsets 0 7 9, by decide +kernel⟩
  rcases hrun : (Step.finalize 1 .zero none).run
    (Session.empty.after (inheritedUse shared delegate early late)) with ⟨_ | result, s⟩
  · rw [hrun] at hok
    cases hok
  · rw [hrun] at hmode hshared hfresh
    obtain ⟨g, hg, -, hafter⟩ := frozen_once_finalized hrun
    rw [hg] at hmode
    refine ⟨shared, fresh, delegate, early, late, result, s, hrun, fun ys => ?_⟩
    obtain ⟨_, -, -, hfull, -⟩ := hafter ys
    obtain ⟨-, hanswers⟩ := hfull (Option.some.inj hmode)
    refine ⟨?_, ?_, ?_⟩
    · obtain ⟨-, -, -, hseen⟩ := hanswers .shape ⟨shared, some early⟩
      exact (hseen _ hshared).2 fun l hl => Option.some.inj hl ▸ hearly
    · obtain ⟨-, -, -, hseen⟩ := hanswers .shape ⟨shared, some late⟩
      exact (hseen _ hshared).1 late rfl hlate
    · obtain ⟨hsame, -, hunseen, -⟩ := hanswers .shape ⟨fresh, none⟩
      exact hunseen (hsame.trans hfresh)

end Session

end AnonymousTypes
