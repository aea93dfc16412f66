import Mathlib.Data.List.Nodup
import AnonymousTypes.Proofs.Chains
import AnonymousTypes.Proofs.Visibility

/-!
# Generations do not interfere

A step leaves all generations alone except for the one that it is addressed to. And what a
generation answers depends on its own steps and on those that the generations before it took
until they were finalized: whatever else is asked of a session, before, after or in between,
makes no difference (`Session.generations_do_not_interfere`).

The second is a statement about two runs. `Session.Alongside` follows one generation through two
sessions in which other things happen: the same is asked of it in both, and before that of the
generations that it continues. What else is asked may even be asked of these generations, since
a finalized one has settled what it shows to others. Handles depend on what was started in the
meantime, so they may be different in the two sessions.

There is one exception. A finalized generation without bodies is not sealed, and a late request
from an earlier location makes the location of its template earlier. Whoever continues the
generation can see that (`Session.inherited_location_may_change`).
-/

namespace AnonymousTypes

variable {family : Family} {α : Type}

/-! ## Steps and their answers -/

/-- The step, addressed to the generation with the renamed handle. -/
def Step.rename (σ : Handle → Handle) : Step α → Step α
  | .root config => .root config
  | .derive h config => .derive (σ h) config
  | .request family h key location => .request family (σ h) key location
  | .requestAll family h requests => .requestAll family (σ h) requests
  | .requestSignature h params returnsVoid location =>
    .requestSignature (σ h) params returnsVoid location
  | .construct h key arguments location => .construct (σ h) key arguments location
  | .constructFields h symbols list => .constructFields (σ h) symbols list
  | .finalize h given previous => .finalize (σ h) given previous

/-- What can be told from an answer without looking at handles. -/
inductive Revealed where
  /-- a generation was started -/
  | started
  | template {family : Family} (t : Option (Template family))
  | templates {family : Family} (ts : List (Except Failure (Option (Template family))))
  /-- there is a predefined delegate -/
  | predefined
  | applied (t : Option (Template .shape)) (arguments : List TypeId)
  | finalized (result : Finalized)

/-- What an answer reveals to someone who sees templates as given. -/
def Step.reveal (see : {family : Family} → TemplateRef family → Option (Template family)) :
    Step α → α → Revealed
  | .root _, _ => .started
  | .derive _ _, _ => .started
  | .request _ _ _ _, r => .template (see r)
  | .requestAll _ _ _, answers => .templates (answers.map (·.map see))
  | .requestSignature _ _ _ _, none => .predefined
  | .requestSignature _ _ _ _, some r => .template (see r)
  | .construct _ _ _ _, applied => .applied (see applied.template) applied.arguments
  | .constructFields _ _ _, applied => .applied (see applied.template) applied.arguments
  | .finalize _ _ _, result => .finalized result

namespace Step

variable {σ : Handle → Handle} {x : Step α} {a b : Handle}

theorem asks?_rename (σ : Handle → Handle) (x : Step α) :
    (x.rename σ).asks? = x.asks?.map fun a => { a with home := σ a.home } := by
  cases x with
  | root | derive | request | requestAll | construct | finalize => rfl
  | requestSignature h params returnsVoid location =>
    simp only [rename, asks?]
    split <;> rfl
  | constructFields h symbols list =>
    simp only [rename, asks?]
    split <;> rfl

theorem home?_rename (σ : Handle → Handle) (x : Step α) :
    (x.rename σ).home? = x.home?.map σ := by
  cases x <;> rfl

/-- The renamed generation is asked for the same. -/
theorem asked_rename (hx : x.home? = some a) (hinj : σ b = σ a → b = a) :
    Session.asked (σ b) [⟨α, x.rename σ⟩] = Session.asked b [⟨α, x⟩] := by
  simp only [Session.asked, List.filterMap_cons, List.filterMap_nil, asks?_rename]
  rcases hasks : x.asks? with _ | q
  · rfl
  · obtain rfl : a = q.home := Option.some.inj (hx.symm.trans (home?_of_asks hasks))
    have hiff : σ q.home = σ b ↔ q.home = b :=
      ⟨fun h => (hinj h.symm).symm, fun h => congrArg σ h⟩
    simp only [Option.map_some, List.flatMap_cons, List.flatMap_nil, hiff]

end Step

namespace Session

/-- The template behind a reference, as a generation sees it. If it is inherited and its key is
`late`, its earliest location is not to be relied on. -/
def reveal (s : Session) (late : (family : Family) → family.Key → Bool) (h : Handle)
    {family : Family} (r : TemplateRef family) : Option (Template family) :=
  (s.template? r).map (·.blur (r.home != h && late family r.key))

/-- A lookup finds a template of the generation itself or an inherited one. -/
theorem own_or_inherited_of_lookup {s : Session} {h : Handle} {g : Generation} {key : family.Key}
    {r : TemplateRef family} (hg : s.generation? h = some g)
    (hr : s.lookup family h key = some r) :
    r.home = h ∨ s.inherited family r.key g.ancestors = some r := by
  rcases hkey : s.own? family h key with _ | t
  · rw [lookup_of_own_none hg hkey] at hr
    obtain ⟨-, rfl, -⟩ := exists_of_inherited hr
    exact .inr hr
  · rw [lookup_of_own hkey] at hr
    exact .inl (congrArg TemplateRef.home (Option.some.inj hr)).symm

/-! ## One generation in two sessions -/

/-- A generation of one session and its counterpart in another one. -/
structure Mirrored (late : (family : Family) → family.Key → Bool) (σ : Handle → Handle)
    (h : Handle) (g : Generation) (s s' : Session) : Prop where
  kindred : Kindred late σ g.ancestors s s'
  generation : s.generation? h = some g
  generation' : s'.generation? (σ h) = some (g.rename σ)

variable {late : (family : Family) → family.Key → Bool} {σ : Handle → Handle}
  {s s' t t' : Session} {h : Handle} {g g₂ : Generation}

namespace Mirrored

/-! ### What the two see of others -/

section

variable (hm : Mirrored late σ h g s s')
include hm

theorem coherent : s.Coherent := hm.kindred.coherent

theorem coherent' : s'.Coherent := hm.kindred.coherent'

theorem offer_eq (family : Family) : s'.offer family (g.rename σ) =
    fun key => (s.offer family g key).map (·.rename σ) :=
  funext fun key => hm.kindred.inherited_eq key

theorem inheritedIdentity_eq (family : Family) :
    s'.inheritedIdentity family (g.rename σ).ancestors =
      s.inheritedIdentity family g.ancestors := by
  funext key
  have hinherited : s'.inherited family key (g.rename σ).ancestors = _ :=
    hm.kindred.inherited_eq key
  rw [inheritedIdentity, inheritedIdentity, hinherited]
  rcases hr : s.inherited family key g.ancestors with _ | r
  · rfl
  · exact hm.kindred.identity?_eq (exists_of_inherited hr).1 r.key

theorem finish_eq (given : Numbering) (previous : Option IdentityMap) :
    s'.finish (g.rename σ) given previous =
      ((s.finish g given previous).1, (s.finish g given previous).2.rename σ) := by
  have hpredecessor : s'.predecessorNumbering (g.rename σ) = s.predecessorNumbering g :=
    hm.kindred.leftBehind_eq
  rw [finish, finish, hm.inheritedIdentity_eq, startNumbering_eq, startNumbering_eq, hpredecessor]
  exact g.finish_rename σ ..

theorem lookupIdentity_eq (family : Family) (key : family.Key) :
    s'.lookupIdentity family (σ h) key = s.lookupIdentity family h key := by
  rw [hm.coherent'.lookupIdentity_eq hm.generation', hm.coherent.lookupIdentity_eq hm.generation,
    hm.inheritedIdentity_eq, Generation.cache_rename, Cache.find?_rename]

theorem report_eq (previous : Option IdentityMap) (carried : List ShapeKey)
    (numbering : Numbering) :
    s'.report (σ h) (g.rename σ) previous carried numbering =
      s.report h g previous carried numbering := by
  have hmap : (s'.identityMap (previous.getD .empty) (σ h :: (g.rename σ).ancestors)).withNumbering
      numbering = (s.identityMap (previous.getD .empty) (h :: g.ancestors)).withNumbering
        numbering := by
    refine IdentityMap.ext_get? (fun key => ?_) rfl
    refine (hm.coherent'.get?_identityMap hm.generation' _ key).trans ?_
    rw [hm.lookupIdentity_eq]
    exact (hm.coherent.get?_identityMap hm.generation _ key).symm
  rw [report, report, hmap]
  rfl

/-- **Lookups** find the counterparts: the own template if there is one, and otherwise that of
the same ancestor. -/
theorem lookup_eq (family : Family) (key : family.Key) :
    s'.lookup family (σ h) key = (s.lookup family h key).map (·.rename σ) := by
  have hown : s'.own? family (σ h) key = s.own? family h key := by
    rw [own?_of_generation hm.generation', own?_of_generation hm.generation,
      Generation.cache_rename, Cache.find?_rename]
  rcases hkey : s.own? family h key with _ | t
  · rw [lookup_of_own_none hm.generation hkey,
      lookup_of_own_none hm.generation' (hown.trans hkey)]
    exact hm.kindred.inherited_eq key
  · rw [lookup_of_own hkey, lookup_of_own (hown.trans hkey)]
    rfl

/-- **Counterparts look the same**, whether they are own or inherited. -/
theorem reveal_eq {r : TemplateRef family}
    (hr : r.home = h ∨ s.inherited family r.key g.ancestors = some r) :
    s'.reveal late (σ h) (r.rename σ) = s.reveal late h r := by
  rcases hr with rfl | hr
  · have hown : s'.template? (r.rename σ) = s.template? r := by
      have hself := own?_of_generation hm.generation' family r.key
      rw [Generation.cache_rename, Cache.find?_rename] at hself
      exact hself.trans (own?_of_generation hm.generation family r.key).symm
    have hhome : (r.rename σ).home = σ r.home := rfl
    simp only [reveal, hown, hhome, bne_self_eq_false, Bool.false_and]
  · have hr' : s'.inherited family r.key (g.rename σ).ancestors = some (r.rename σ) :=
      (hm.kindred.inherited_eq r.key).trans (by rw [hr]; rfl)
    have hne : (r.home != h) = true := bne_iff_ne.2 fun he =>
      hm.coherent.not_mem hm.generation (he ▸ (exists_of_inherited hr).1)
    have hne' : ((r.rename σ).home != σ h) = true := bne_iff_ne.2 fun he =>
      hm.coherent'.not_mem hm.generation' (he ▸ (exists_of_inherited hr').1)
    simp only [reveal, hne, hne', Bool.true_and]
    exact hm.kindred.template?_eq hr

end

/-! ### What the two answer -/

/-- What a step of the generation comes to in the two sessions: its counterparts stay
counterparts, and if that is so, the answers reveal the same. -/
def Matched (late : (family : Family) → family.Key → Bool) (σ : Handle → Handle) (h : Handle)
    (g : Generation)
    (reveal : ({family : Family} → TemplateRef family → Option (Template family)) → α → Revealed)
    (y y' : Except Failure α × Session) : Prop :=
  ∃ g₂ : Generation, g₂.ancestors = g.ancestors ∧ y.2.generation? h = some g₂ ∧
    y'.2.generation? (σ h) = some (g₂.rename σ) ∧ (Mirrored late σ h g₂ y.2 y'.2 →
      y'.1.map (reveal (y'.2.reveal late (σ h))) = y.1.map (reveal (y.2.reveal late h)))

/-- The generation answers with a template of its own or with an inherited one. -/
theorem reveal_outcome (hm : Mirrored late σ h g s s') {c : Cache family} (hhome : c.home = h)
    (r : Request family) :
    ((c.outcome (s.offer family g) r).map (·.rename σ)).map (s'.reveal late (σ h)) =
      (c.outcome (s.offer family g) r).map (s.reveal late h) := by
  rcases houtcome : c.outcome (s.offer family g) r with e | template
  · rfl
  · refine congrArg Except.ok (hm.reveal_eq ?_)
    rcases Cache.outcome_eq_ok_iff.1 houtcome with ⟨-, -, rfl⟩ | ⟨-, hoffer, -⟩ | ⟨-, -, -, rfl⟩
    · exact .inl hhome
    · obtain ⟨-, hkey, -⟩ := exists_of_inherited hoffer
      exact .inr (hkey ▸ hoffer)
    · exact .inl hhome

section

variable (hm : Mirrored late σ h g s s')
include hm

theorem outcome_eq (r : Request family) :
    ((g.rename σ).cache family).outcome (s'.offer family (g.rename σ)) r =
      ((g.cache family).outcome (s.offer family g) r).map (·.rename σ) := by
  rw [Cache.outcome, hm.offer_eq, Generation.cache_rename, Cache.request_rename]
  rfl

/-- The generation gets another cache, and everybody inherits the same as before. -/
theorem matched_of_cache
    {reveal : ({family : Family} → TemplateRef family → Option (Template family)) → α → Revealed}
    {answer answer' : Except Failure α} (c : Cache family)
    (hreveal : Mirrored late σ h (g.withCache family c) (s.put h (g.withCache family c))
        (s'.put (σ h) ((g.withCache family c).rename σ)) →
      (s.put h (g.withCache family c)).offer family (g.withCache family c) = s.offer family g →
      answer'.map (reveal ((s'.put (σ h) ((g.withCache family c).rename σ)).reveal late (σ h))) =
        answer.map (reveal ((s.put h (g.withCache family c)).reveal late h))) :
    Matched late σ h g reveal (answer, s.put h (g.withCache family c))
      (answer', s'.put (σ h) ((g.rename σ).withCache family (c.rename σ))) := by
  have hancestors := Generation.ancestors_of_frame (Generation.frame_withCache g family c)
  rw [Generation.withCache_rename]
  refine ⟨g.withCache family c, hancestors,
    generation?_put_self (Option.isSome_of_eq_some hm.generation) _,
    generation?_put_self (Option.isSome_of_eq_some hm.generation') _, fun hm₂ => hreveal hm₂ ?_⟩
  exact offer_put s family (hm.coherent.not_mem hm.generation) hancestors

theorem home_cache (family : Family) : (g.cache family).home = h :=
  (hm.coherent hm.generation).home family

/-- **A request**, and what is done with its template afterwards. -/
theorem matched_request (r : Request family) (post : TemplateRef family → Except Failure α)
    (reveal : ({family : Family} → TemplateRef family → Option (Template family)) → α → Revealed)
    (hpost : ∀ (see see' : {family : Family} → TemplateRef family → Option (Template family))
      (template : TemplateRef family), see' (template.rename σ) = see template →
        (post (template.rename σ)).map (reveal see') = (post template).map (reveal see)) :
    Matched late σ h g reveal
      ((Run.request family h r.key r.location s).1.bind post,
        (Run.request family h r.key r.location s).2)
      ((Run.request family (σ h) r.key r.location s').1.bind post,
        (Run.request family (σ h) r.key r.location s').2) := by
  have hcache : (((g.rename σ).cache family).request (s'.offer family (g.rename σ) r.key) r.key
      r.location).2 =
        ((g.cache family).request (s.offer family g r.key) r.key r.location).2.rename σ := by
    rw [hm.offer_eq, Generation.cache_rename, Cache.request_rename]
  rw [Run.request_eq hm.generation r, Run.request_eq hm.generation' r, hm.outcome_eq, hcache]
  refine hm.matched_of_cache _ fun hm₂ hoffer => ?_
  have hreveal := hm₂.reveal_outcome (hm.home_cache family) r
  rw [hoffer] at hreveal
  rcases houtcome : (g.cache family).outcome (s.offer family g) r with e | template
  · rfl
  · rw [houtcome] at hreveal
    exact hpost _ _ template (Except.ok.inj hreveal)

/-- **Racing requests** are answered by counterparts, each as it is alone. -/
theorem matched_requestAll (requests : List (Request family)) :
    Matched late σ h g (fun see answers => .templates (answers.map (·.map see)))
      (Run.requestAll h requests s) (Run.requestAll (σ h) requests s') := by
  obtain ⟨_, heq, -⟩ := Run.requestAll_eq hm.generation requests
  obtain ⟨_, heq', -⟩ := Run.requestAll_eq hm.generation' requests
  have hrace := Run.requestAll_eq_race hm.generation requests
  have hrace' := Run.requestAll_eq_race hm.generation' requests
  -- the race itself decides about the cache, the single requests decide about the answers
  rw [heq] at hrace
  rw [heq', hm.offer_eq, Generation.cache_rename, Race.ofRequests_rename,
    Race.run_rename] at hrace'
  rw [heq, heq', (Prod.mk.inj hrace).2, (Prod.mk.inj hrace').2]
  refine hm.matched_of_cache _ fun hm₂ hoffer => ?_
  refine congrArg (fun ts => Except.ok (Revealed.templates ts)) ?_
  rw [List.map_map, List.map_map]
  refine List.map_congr_left fun r _ => ?_
  have hreveal := hm₂.reveal_outcome (hm.home_cache family) r
  rw [hoffer, ← hm.outcome_eq] at hreveal
  exact hreveal

theorem matched_construct (key : ShapeKey) (arguments : List TypeId)
    (location : Option Location) :
    Matched late σ h g (fun see applied => .applied (see applied.template) applied.arguments)
      (Run.construct h key arguments location s)
      (Run.construct (σ h) key arguments location s') := by
  rw [Run.construct_eq, Run.construct_eq]
  refine hm.matched_request (⟨key, location⟩ : Request .shape) _ _ fun see see' template hsee => ?_
  -- the number of arguments is compared with the key, which the renaming keeps
  by_cases hlength : arguments.length = ShapeKey.size template.key
  · have happly : template.apply arguments = .ok ⟨template, arguments, hlength⟩ :=
      dif_pos hlength
    have happly' : (template.rename σ).apply arguments =
        .ok ⟨template.rename σ, arguments, hlength⟩ := dif_pos hlength
    rw [happly, happly']
    exact congrArg (fun t => Except.ok (Revealed.applied t arguments)) hsee
  · have hsame : (template.rename σ).apply arguments = .error (.arityMismatch
        (ShapeKey.canonical template.key) (ShapeKey.size template.key) arguments.length) :=
      dif_neg hlength
    rw [hsame, TemplateRef.apply, dif_neg hlength]
    rfl

/-- **Finalization** gives the same counters and the same map in both sessions, or fails with the
same error. Handles do not occur in what it reports. -/
theorem matched_finalize (given : Numbering) (previous : Option IdentityMap) :
    Matched late σ h g (fun _ result => .finalized result) (Run.finalize h given previous s)
      (Run.finalize (σ h) given previous s') := by
  rcases hbegun : g.isFinalizing
  · have hready := hm.coherent.ready hm.generation hbegun
    have hready' := hm.coherent'.ready hm.generation' hbegun
    rw [Run.finalize_eq hm.generation hready, Run.finalize_eq hm.generation' hready',
      hm.finish_eq]
    refine ⟨(s.finish g given previous).2,
      (Coherent.later_finish hready given previous).ancestors_eq,
      generation?_put_self (Option.isSome_of_eq_some hm.generation) _,
      generation?_put_self (Option.isSome_of_eq_some hm.generation') _, fun hm₂ => ?_⟩
    rcases (s.finish g given previous).1 with e | ⟨carried, numbering⟩
    · rfl
    · exact congrArg (fun result => Except.ok (Revealed.finalized result)) (hm₂.report_eq ..)
  · rw [Run.finalize_again hm.generation hbegun, Run.finalize_again hm.generation' hbegun,
      Generation.id_rename]
    exact ⟨g, rfl, hm.generation, hm.generation', fun _ => rfl⟩

/-- **Every step** of the generation comes to the same in both sessions. -/
theorem matched_run {x : Step α} (hx : x.home? = some h) :
    Matched late σ h g x.reveal (x.run s) ((x.rename σ).run s') := by
  cases x with
  | root => cases hx
  | derive _ config =>
    cases hx
    rw [Step.run, Step.rename, Step.run]
    -- the new generation goes to the end of both sessions, under whatever handle
    rcases hfinal : g.finalized with _ | numbering
    · rw [Run.continueFrom_unfinalized hm.generation hfinal,
        Run.continueFrom_unfinalized hm.generation' hfinal, Generation.id_rename]
      exact ⟨g, rfl, hm.generation, hm.generation', fun _ => rfl⟩
    · rw [Run.continueFrom_finalized hm.generation hfinal,
        Run.continueFrom_finalized hm.generation' hfinal]
      exact ⟨g, rfl, Coherent.generation?_push _ _ hm.generation,
        Coherent.generation?_push _ _ hm.generation', fun _ => rfl⟩
  | request family _ key location =>
    cases hx
    have hbind : ∀ e : Except Failure (TemplateRef family), e.bind .ok = e := by
      rintro (_ | _) <;> rfl
    have hmatched := hm.matched_request ⟨key, location⟩ .ok (fun see r => .template (see r))
      fun see see' template hsee => congrArg (fun t => Except.ok (Revealed.template t)) hsee
    rwa [hbind, hbind] at hmatched
  | requestAll family _ requests =>
    cases hx
    exact hm.matched_requestAll requests
  | requestSignature _ params returnsVoid location =>
    cases hx
    rw [Step.run, Step.rename, Step.run]
    rcases hpredefined : (DelegateKey.ofParameters params returnsVoid).isPredefined
    · rw [Run.requestSignature_eq hpredefined, Run.requestSignature_eq hpredefined]
      exact hm.matched_request (⟨.ofParameters params returnsVoid, location⟩ : Request .delegate)
        (fun template => .ok (some template))
        (Step.requestSignature h params returnsVoid location).reveal
        fun see see' template hsee => congrArg (fun t => Except.ok (Revealed.template t)) hsee
    · rw [Run.requestSignature_predefined hpredefined, Run.requestSignature_predefined hpredefined]
      exact ⟨g, rfl, hm.generation, hm.generation', fun _ => rfl⟩
  | construct _ key arguments location =>
    cases hx
    exact hm.matched_construct key arguments location
  | constructFields _ symbols list =>
    cases hx
    rw [Step.run, Step.rename, Step.run]
    rcases hkey : list.shapeKey symbols with fault | key
    · rw [Run.constructFields_fault hm.generation hkey,
        Run.constructFields_fault hm.generation' hkey]
      exact ⟨g, rfl, hm.generation, hm.generation', fun _ => rfl⟩
    · rw [Run.constructFields_eq hm.generation hkey, Run.constructFields_eq hm.generation' hkey]
      exact hm.matched_construct key list.types (some list.location)
  | finalize _ given previous =>
    cases hx
    exact hm.matched_finalize given previous

end

end Mirrored

/-! ## Two runs -/

/-- Two sessions in which the same was asked of one generation, the `current` one, and before
that of its `chain`, the generations that it continues. The generation `h` of the first session
is the generation `σ h` of the second one. -/
inductive Alongside (late : (family : Family) → family.Key → Bool) (σ : Handle → Handle) :
    Option Handle → List Handle → Session → Session → Prop where
  /-- nothing needs to be the same before the first generation is started -/
  | init {s s' : Session} (hs : s.Reachable) (hs' : s'.Reachable) :
      Alongside late σ none [] s s'
  /-- the first generation is started -/
  | root {s s' t t' : Session} {h : Handle} {config : OutputConfig}
      (halong : Alongside late σ none [] s s')
      (hrun : (Step.root config).run s = (.ok h, t))
      (hrun' : (Step.root config).run s' = (.ok (σ h), t')) : Alongside late σ (some h) [] t t'
  /-- the current generation is finalized -/
  | settle {s s' : Session} {h : Handle} {chain : List Handle} {g : Generation}
      (halong : Alongside late σ (some h) chain s s') (hg : s.generation? h = some g)
      (hfinal : g.finalized.isSome) : Alongside late σ none (h :: chain) s s'
  /-- the chain is continued -/
  | derive {s s' t t' : Session} {p h : Handle} {rest : List Handle} {config : OutputConfig}
      (halong : Alongside late σ none (p :: rest) s s')
      (hrun : (Step.derive p config).run s = (.ok h, t))
      (hrun' : (Step.derive (σ p) config).run s' = (.ok (σ h), t')) :
      Alongside late σ (some h) (p :: rest) t t'
  /-- the same is asked in both sessions -/
  | same {s s' : Session} {current : Option Handle} {chain : List Handle}
      (halong : Alongside late σ current chain s s') {α : Type} {x : Step α} {a : Handle}
      (hx : x.home? = some a) (ha : current = some a ∨ a ∈ chain) :
      Alongside late σ current chain (x.run s).2 ((x.rename σ).run s').2
  /-- something is asked in the first session, but not of the current generation -/
  | first {s s' : Session} {current : Option Handle} {chain : List Handle}
      (halong : Alongside late σ current chain s s') {α : Type} (x : Step α)
      (hcurrent : ∀ h ∈ current, x.home? ≠ some h)
      (hchain : ∀ a ∈ chain, x.RelocatesOnly late s a) :
      Alongside late σ current chain (x.run s).2 s'
  /-- something is asked in the second session, but not of the current generation -/
  | second {s s' : Session} {current : Option Handle} {chain : List Handle}
      (halong : Alongside late σ current chain s s') {α : Type} (x : Step α)
      (hcurrent : ∀ h ∈ current, x.home? ≠ some (σ h))
      (hchain : ∀ a ∈ chain, x.RelocatesOnly late s' (σ a)) :
      Alongside late σ current chain s (x.run s').2

/-- A new root. -/
theorem generation?_of_root {config : OutputConfig}
    (hrun : (Step.root config).run s = (.ok h, t)) : t.generation? h = some (.new h config []) := by
  cases hrun
  exact generation?_push_last ..

/-- A new generation that continues another one. -/
theorem generation?_of_derive {p : Handle} {rest : List Handle} {config : OutputConfig}
    (hchain : s.IsChain (p :: rest)) (hrun : (Step.derive p config).run s = (.ok h, t)) :
    t.generation? h = some (.new h config (p :: rest)) := by
  rcases hchain with hnil | ⟨_, parent, hp, hfinal, hcons⟩
  · cases hnil
  · obtain ⟨rfl, rfl⟩ := List.cons.inj hcons
    obtain ⟨numbering, hnumbering⟩ := Option.isSome_iff_exists.1 hfinal
    rw [Step.run, Run.continueFrom_finalized hp hnumbering] at hrun
    cases hrun
    exact generation?_push_last ..

theorem Mirrored.not_mem (hm : Mirrored late σ h g s s') : σ h ∉ g.ancestors.map σ :=
  hm.coherent'.not_mem hm.generation'

/-- Once it is finalized, a generation can be continued like those that it continues. -/
theorem Mirrored.settle (hm : Mirrored late σ h g s s') (hfinal : g.finalized.isSome) :
    Kindred late σ (h :: g.ancestors) s s' where
  coherent := hm.coherent
  coherent' := hm.coherent'
  isChain := .inr ⟨h, g, hm.generation, hfinal, rfl⟩
  isChain' := .inr ⟨σ h, g.rename σ, hm.generation', hfinal, rfl⟩
  leftBehind_eq := by
    simp only [leftBehind, List.map_cons, List.head?_cons, Option.bind_some, hm.generation,
      hm.generation']
    rfl
  kin a ha ga ga' hga hga' family := by
    rcases List.mem_cons.1 ha with rfl | ha
    · obtain rfl := Option.some.inj (hm.generation.symm.trans hga)
      obtain rfl := Option.some.inj (hm.generation'.symm.trans hga')
      rw [Generation.cache_rename]
      exact .rename ..
    · exact hm.kindred.kin a ha hga hga' family

/-- Counterparts of different generations are different. -/
theorem Kindred.eq_of_rename_eq {chain : List Handle} (hk : Kindred late σ chain s s')
    {a b : Handle} (ha : a ∈ chain) (hb : b ∈ chain) (heq : σ b = σ a) : b = a :=
  List.inj_on_of_nodup_map (hk.isChain'.nodup hk.coherent') hb ha heq

/-- The same is asked of a generation, or of one that it continues, in both sessions. -/
theorem Mirrored.same (hm : Mirrored late σ h g s s') {x : Step α} {a : Handle}
    (hx : x.home? = some a) (ha : a = h ∨ a ∈ g.ancestors) :
    ∃ g₂ : Generation, g₂.ancestors = g.ancestors ∧
      Mirrored late σ h g₂ (x.run s).2 ((x.rename σ).run s').2 := by
  have hinj : ∀ b ∈ g.ancestors, σ b = σ a → b = a := by
    intro b hb heq
    rcases ha with rfl | ha
    · exact absurd (heq ▸ List.mem_map_of_mem hb) hm.not_mem
    · exact hm.kindred.eq_of_rename_eq ha hb heq
  have hk := hm.kindred.both x (x.rename σ) fun b hb => Step.asked_rename hx (hinj b hb)
  rcases ha with rfl | ha
  · obtain ⟨g₂, hancestors, hg₂, hg₂', -⟩ := hm.matched_run hx
    exact ⟨g₂, hancestors, hancestors.symm ▸ hk, hg₂, hg₂'⟩
  · -- it is not addressed to the generation itself, in neither session
    have hne : x.home? ≠ some h := by
      rw [hx]
      rintro heq
      obtain rfl := Option.some.inj heq
      exact hm.coherent.not_mem hm.generation ha
    have hne' : (x.rename σ).home? ≠ some (σ h) := by
      rw [Step.home?_rename, hx]
      intro heq
      have hσ : σ a = σ h := Option.some.inj heq
      exact hm.not_mem (hσ ▸ List.mem_map_of_mem ha)
    exact ⟨g, rfl, hk, (x.change hm.coherent).generation?_eq hm.generation hne,
      ((x.rename σ).change hm.coherent').generation?_eq hm.generation' hne'⟩

/-- A new generation has its counterpart. -/
theorem Kindred.mirrored {chain : List Handle} (hk : Kindred late σ chain t t')
    {config : OutputConfig} (hg : t.generation? h = some (.new h config chain))
    (hg' : t'.generation? (σ h) = some (.new (σ h) config (chain.map σ))) :
    Mirrored late σ h (.new h config chain) t t' :=
  ⟨hk, hg, by rw [hg', Generation.new_rename]⟩

/-- **Whatever else is asked**, the current generation of the one session has its counterpart in
the other one. -/
theorem Alongside.kindred {current : Option Handle} {chain : List Handle}
    (halong : Alongside late σ current chain s s') :
    Kindred late σ chain s s' ∧
      ∀ h ∈ current, ∃ g, g.ancestors = chain ∧ Mirrored late σ h g s s' := by
  -- induction on how the two sessions came about: the chains stay kindred all the time, and the
  -- current generation, once started, stays mirrored
  induction halong with
  | init hs hs' => exact ⟨.nil hs.coherent hs'.coherent, fun h hmem => by cases hmem⟩
  | @root s s' t t' h config _ hrun hrun' ih =>
    have hk := (ih.1.left (.root config) (by simp)).right (.root config) (by simp)
    rw [hrun, hrun'] at hk
    refine ⟨hk, fun _ hmem => ?_⟩
    obtain rfl := Option.some.inj hmem
    exact ⟨_, rfl, hk.mirrored (generation?_of_root hrun) (generation?_of_root hrun')⟩
  | @settle s s' h chain g _ hg hfinal ih =>
    obtain ⟨_, rfl, hm⟩ := ih.2 h rfl
    obtain rfl := Option.some.inj (hg.symm.trans hm.generation)
    exact ⟨hm.settle hfinal, fun _ hmem => by cases hmem⟩
  | @derive s s' t t' p h rest config _ hrun hrun' ih =>
    obtain ⟨hk₀, -⟩ := ih
    have hk := (hk₀.left (.derive p config) fun _ _ => .of_asks_none rfl).right
      (.derive (σ p) config) fun _ _ => .of_asks_none rfl
    rw [hrun, hrun'] at hk
    refine ⟨hk, fun _ hmem => ?_⟩
    obtain rfl := Option.some.inj hmem
    exact ⟨_, rfl, hk.mirrored (generation?_of_derive hk₀.isChain hrun)
      (generation?_of_derive hk₀.isChain' hrun')⟩
  | @same s s' current chain _ α x a hx ha ih =>
    obtain ⟨hk, hcurrent⟩ := ih
    rcases current with _ | h
    · have ha := ha.resolve_left fun hnone => by cases hnone
      exact ⟨hk.both x (x.rename σ) fun b hb => Step.asked_rename hx (hk.eq_of_rename_eq ha hb),
        fun _ hmem => by cases hmem⟩
    · obtain ⟨g, rfl, hm⟩ := hcurrent h rfl
      obtain ⟨g₂, hancestors, hm₂⟩ := hm.same hx (ha.imp_left fun he => (Option.some.inj he).symm)
      refine ⟨hancestors ▸ hm₂.kindred, fun _ hmem => ?_⟩
      obtain rfl := Option.some.inj hmem
      exact ⟨g₂, hancestors, hm₂⟩
  | @first s s' current chain _ α x hother hchain ih =>
    obtain ⟨hk, hcurrent⟩ := ih
    refine ⟨hk.left x hchain, fun h hmem => ?_⟩
    obtain ⟨g, rfl, hm⟩ := hcurrent h hmem
    exact ⟨g, rfl, hk.left x hchain,
      (x.change hk.coherent).generation?_eq hm.generation (hother h hmem), hm.generation'⟩
  | @second s s' current chain _ α x hother hchain ih =>
    obtain ⟨hk, hcurrent⟩ := ih
    refine ⟨hk.right x hchain, fun h hmem => ?_⟩
    obtain ⟨g, rfl, hm⟩ := hcurrent h hmem
    exact ⟨g, rfl, hk.right x hchain, hm.generation,
      (x.change hk.coherent').generation?_eq hm.generation' (hother h hmem)⟩

/-- **Generations do not interfere.**

1. A step leaves every generation as it is except for the one that it is addressed to, whatever
   the answer is.
2. Let a generation be followed through two sessions, in which the same was asked of it. It is
   the same generation in both, up to handles; its lookups find templates that look the same;
   and whatever step it takes next, the answers of the two sessions look the same, failures
   included. What is left out is the earliest location of an inherited template that was asked
   for too late, and in one of the sessions only, from an earlier location. -/
theorem generations_do_not_interfere :
    (∀ s : Session, s.Reachable → ∀ (α : Type) (x : Step α) (k : Handle) (g : Generation),
      s.generation? k = some g → x.home? ≠ some k → (x.run s).2.generation? k = some g) ∧
    ∀ late σ h chain s s', Alongside late σ (some h) chain s s' →
      (∃ g, s.generation? h = some g ∧ s'.generation? (σ h) = some (g.rename σ)) ∧
      (∀ family key, (s'.lookup family (σ h) key).map (s'.reveal late (σ h)) =
        (s.lookup family h key).map (s.reveal late h)) ∧
      ∀ (α : Type) (x : Step α), x.home? = some h →
        let y := x.run s
        let y' := (x.rename σ).run s'
        y'.1.map (x.reveal (y'.2.reveal late (σ h))) = y.1.map (x.reveal (y.2.reveal late h)) := by
  refine ⟨fun s hs α x k g hk hne => (x.change hs.coherent).generation?_eq hk hne, ?_⟩
  intro late σ h chain s s' halong
  obtain ⟨g, -, hm⟩ := halong.kindred.2 h rfl
  refine ⟨⟨g, hm.generation, hm.generation'⟩, fun family key => ?_, fun α x hx => ?_⟩
  · rw [hm.lookup_eq, Option.map_map]
    rcases hr : s.lookup family h key with _ | r
    · rfl
    · exact congrArg some (hm.reveal_eq (own_or_inherited_of_lookup hm.generation hr))
  · -- an answer refers to templates of the session after the step, so it is compared there
    obtain ⟨g₂, hancestors, hg₂, hg₂', hreveal⟩ := hm.matched_run hx
    obtain ⟨g₃, -, hm₂⟩ := (halong.same hx (.inl rfl)).kindred.2 h rfl
    obtain rfl := Option.some.inj (hm₂.generation.symm.trans hg₂)
    exact hreveal hm₂

/-! ## Runs that differ -/

/-- Many steps in the second session. -/
theorem Alongside.second_after {chain : List Handle} (halong : Alongside late σ none chain s s')
    (xs : List (Σ α, Step α)) (hxs : ∀ x ∈ xs, ∀ a ∈ chain, ∀ t, x.2.RelocatesOnly late t (σ a)) :
    Alongside late σ none chain s (s'.after xs) := by
  induction xs generalizing s' with
  | nil => exact halong
  | cons x rest ih =>
    obtain ⟨hx, hrest⟩ := List.forall_mem_cons.1 hxs
    exact ih (halong.second x.2 (fun _ hmem => by cases hmem) fun a ha => hx a ha s') hrest

/-- A root without bodies, with one shape that is requested from somewhere, is finalized. -/
def settledRoot (key : ShapeKey) (location : Location) : Session :=
  Session.empty.after [⟨_, .root { mode := .metadataOnly }⟩,
    ⟨_, .request .shape 0 key (some location)⟩, ⟨_, .finalize 0 .zero none⟩]

/-- It can be followed in two sessions, as long as nothing else is asked. -/
theorem alongside_settledRoot (late : (family : Family) → family.Key → Bool) (hσ : σ 0 = 0)
    {key : ShapeKey} {location : Location}
    (hok : (((settledRoot key location).generation? 0).bind (·.finalized)).isSome) :
    Alongside late σ none [0] (settledRoot key location) (settledRoot key location) := by
  obtain ⟨numbering, hfinal⟩ := Option.isSome_iff_exists.1 hok
  obtain ⟨g, hg, hfinal⟩ := Option.bind_eq_some_iff.1 hfinal
  have hroot : (Step.root { mode := .metadataOnly }).run .empty = (.ok 0, _) := rfl
  have hroot' : (Step.root { mode := .metadataOnly }).run .empty = (.ok (σ 0), _) := hσ ▸ hroot
  have hstart : Alongside late σ (some 0) [] _ _ := .root (.init .refl .refl) hroot hroot'
  have hrequest := hstart.same (x := .request .shape 0 key (some location)) rfl (.inl rfl)
  have hfinalize := hrequest.same (x := .finalize 0 .zero none) rfl (.inl rfl)
  rw [Step.rename, Step.rename, hσ] at hfinalize
  exact hfinalize.settle hg (Option.isSome_of_eq_some hfinal)

/-- The answer to finalization is revealed completely. -/
theorem eq_of_reveal {given : Numbering} {previous : Option IdentityMap}
    {see : {family : Family} → TemplateRef family → Option (Template family)}
    {answer : Except Failure Finalized} {result : Finalized}
    (hreveal : answer.map ((Step.finalize h given previous).reveal see) =
      .ok (.finalized result)) : answer = .ok result := by
  rcases answer with e | result'
  · cases hreveal
  · cases hreveal
    rfl

theorem eq_of_toOption {y : Except Failure α × Session} {a : α} (hy : y.1.toOption = some a) :
    y = (.ok a, y.2) := by
  rcases y with ⟨_ | _, _⟩
  · cases hy
  · cases hy
    rfl

/-- In one of two sessions another root is started in between, and the shape that the second
generation of the chain is going to hold is requested there and, too late, of the first
generation. The second generation is finalized with the same result. -/
theorem no_interference_in_crowded_session :
    ∃ (s s' : Session) (shape : ShapeKey) (g : Generation) (result : Finalized),
      s.Reachable ∧ s.generation? 0 = some g ∧ s.generations.length = 2 ∧
      s'.generations.length = 3 ∧ (s'.own? .shape 0 shape).isSome ∧
      Alongside (fun _ _ => false) (2 * ·) (some 1) [0] s s' ∧
      ((Step.finalize 1 .zero none).run s).2.generation? 0 = some g ∧
      ((Step.finalize 1 .zero none).run s).1 = .ok result ∧
      ((Step.finalize 2 .zero none).run s').1 = .ok result := by
  obtain ⟨first, second, hok, hderive, hderive', hlength, hlength', hlate, hfirst, hfinalize⟩ :
      ∃ first second : ShapeKey,
        let base := settledRoot first (.ofOffsets 0 9 10)
        let crowded := base.after [⟨_, .root {}⟩, ⟨_, .request .shape 1 second none⟩,
          ⟨_, .request .shape 0 second none⟩]
        let x := (Step.derive 0 {}).run base
        let x' := (Step.derive 0 {}).run crowded
        let s := ((Step.request .shape 1 second none).run x.2).2
        let s' := ((Step.request .shape 2 second none).run x'.2).2
        ((base.generation? 0).bind (·.finalized)).isSome ∧
        x.1.toOption = some 1 ∧ x'.1.toOption = some 2 ∧ s.generations.length = 2 ∧
        s'.generations.length = 3 ∧ (s'.own? .shape 0 second).isSome ∧
        (s.generation? 0).isSome ∧ ((Step.finalize 1 .zero none).run s).1.toOption.isSome :=
    ⟨⟨["a"], by decide⟩, ⟨["b"], by decide⟩, by decide +kernel⟩
  have hbase := alongside_settledRoot (fun _ _ => false) (σ := (2 * ·)) rfl hok
  have hcrowded := hbase.second_after
    [⟨_, .root {}⟩, ⟨_, .request .shape 1 second none⟩, ⟨_, .request .shape 0 second none⟩] <| by
      intro x hx a _ t
      simp only [List.mem_cons, List.not_mem_nil, or_false] at hx
      rcases hx with rfl | rfl | rfl
      · exact .of_asks_none rfl
      · exact .of_unlocated .shape 1 second
      · exact .of_unlocated .shape 0 second
  have hderived := hcrowded.derive (eq_of_toOption hderive) (eq_of_toOption hderive')
  have halong := hderived.same (x := .request .shape 1 second none) rfl (.inl rfl)
  have hs : Session.Reachable ((Step.request .shape 1 second none).run
      ((Step.derive 0 {}).run (settledRoot first (.ofOffsets 0 9 10))).2).2 :=
    .step (.step (leadsTo_after ..) _) _
  obtain ⟨g, hg⟩ := Option.isSome_iff_exists.1 hfirst
  obtain ⟨result, hresult⟩ := Option.isSome_iff_exists.1 hfinalize
  have hrun := congrArg Prod.fst (eq_of_toOption hresult)
  obtain ⟨hkept, hsame⟩ := generations_do_not_interfere
  obtain ⟨-, -, hanswers⟩ := hsame _ _ _ _ _ _ halong
  have hreveal := hanswers _ (.finalize 1 .zero none) rfl
  exact ⟨_, _, second, g, result, hs, hg, hlength, hlength', hlate, halong,
    hkept _ hs _ (.finalize 1 .zero none) 0 g hg (by decide), hrun,
    eq_of_reveal (hreveal.trans (congrArg (Except.map _) hrun))⟩

/-- **A late request** from an earlier location is seen by whoever continues the generation. -/
theorem inherited_location_may_change :
    ∃ (s : Session) (key : ShapeKey) (location : Location),
      let late : Step (TemplateRef .shape) := .request .shape 0 key (some location)
      let r : TemplateRef .shape := ⟨0, key⟩
      Alongside (fun _ _ => true) id (some 1) [0] s (late.run s).2 ∧
      s.lookup .shape 1 key = some r ∧ (late.run s).2.lookup .shape 1 key = some r ∧
      (s.template? r).bind (·.earliest?) = some 9 ∧
      ((late.run s).2.template? r).bind (·.earliest?) = some 4 := by
  obtain ⟨key, hok, hderive, hlookup, hlookup', hbefore, hafter⟩ : ∃ key : ShapeKey,
      let base := settledRoot key (.ofOffsets 0 9 10)
      let s := ((Step.derive 0 {}).run base).2
      let late : Step (TemplateRef .shape) := .request .shape 0 key (some (.ofOffsets 0 4 5))
      let r : TemplateRef .shape := ⟨0, key⟩
      ((base.generation? 0).bind (·.finalized)).isSome ∧
      ((Step.derive 0 {}).run base).1.toOption = some 1 ∧
      s.lookup .shape 1 key = some r ∧ (late.run s).2.lookup .shape 1 key = some r ∧
      (s.template? r).bind (·.earliest?) = some 9 ∧
      ((late.run s).2.template? r).bind (·.earliest?) = some 4 :=
    ⟨⟨["x"], by decide⟩, by decide +kernel⟩
  have hrun := eq_of_toOption hderive
  have halong := (alongside_settledRoot (fun _ _ => true) (σ := id) rfl hok).derive hrun hrun
  have hother : ∀ h ∈ (some 1 : Option Handle), (some 0 : Option Handle) ≠ some h := by decide
  exact ⟨_, key, .ofOffsets 0 4 5, halong.second _ hother fun _ _ _ _ _ _ _ _ _ _ => rfl,
    hlookup, hlookup', hbefore, hafter⟩

end Session

end AnonymousTypes
