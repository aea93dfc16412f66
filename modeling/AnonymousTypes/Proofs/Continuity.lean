import AnonymousTypes.Proofs.Coherence

/-!
# Continuity along a chain

A generation must never bind a key twice: the template that it once answered with is the
one that it answers with for good, and a template that an earlier generation has named is
what all later ones on the chain work with.

`Session.Answers` collects all the ways in which a generation can be asked for a key, and
`Session.Gives` says that there is only one answer left. The main lemmas are
`Coherent.inherited_of_named`, by which nothing comes between a named template and those
who inherit it, and `lookup_of_follows`, by which a lookup keeps its answer.
-/

namespace AnonymousTypes

variable {family : Family}

namespace Session

/-- A generation is asked for a key and answers with a template; the second session is the
one after that. -/
inductive Answers (s : Session) :
    Session → (family : Family) → Handle → family.Key → TemplateRef family → Prop where
  | lookup {family : Family} {h : Handle} {key : family.Key} {r : TemplateRef family}
      (hr : s.lookup family h key = some r) : Answers s s family h key r
  | request {family : Family} {h : Handle} {key : family.Key} {r : TemplateRef family}
      {location : Option Location} {s' : Session}
      (hrun : (Step.request family h key location).run s = (.ok r, s')) :
      Answers s s' family h key r
  | requestAll {family : Family} {h : Handle} {key : family.Key} {r : TemplateRef family}
      {requests : List (Request family)} {location : Option Location}
      {outcomes : List (Except Failure (TemplateRef family))} {s' : Session}
      (hrun : (Step.requestAll family h requests).run s = (.ok outcomes, s')) {i : Nat}
      (hrequest : requests[i]? = some ⟨key, location⟩) (houtcome : outcomes[i]? = some (.ok r)) :
      Answers s s' family h key r
  | requestSignature {h : Handle} {params : List Passing} {returnsVoid : Bool}
      {location : Option Location} {r : TemplateRef .delegate} {s' : Session}
      (hrun : (Step.requestSignature h params returnsVoid location).run s = (.ok (some r), s')) :
      Answers s s' .delegate h (.ofParameters params returnsVoid) r
  | construct {h : Handle} {key : ShapeKey} {arguments : List TypeId}
      {location : Option Location} {applied : AppliedShape} {s' : Session}
      (hrun : (Step.construct h key arguments location).run s = (.ok applied, s')) :
      Answers s s' .shape h key applied.template
  | constructFields {h : Handle} {symbols : SymbolTable} {list : FieldList} {key : ShapeKey}
      {applied : AppliedShape} {s' : Session} (hkey : list.shapeKey symbols = .ok key)
      (hrun : (Step.constructFields h symbols list).run s = (.ok applied, s')) :
      Answers s s' .shape h key applied.template

/-- A generation has one answer left for a key: this template. A request can still be
stopped by the audit of its location. -/
def Gives (s : Session) (family : Family) (h : Handle) (key : family.Key)
    (r : TemplateRef family) : Prop :=
  s.lookup family h key = some r ∧ ∀ location,
    (Run.request family h key location s).1 = .ok r ∨
    ∃ l, location = some l ∧
      (Run.request family h key location s).1 = .error (.fault (.lateUse family l))

variable {s s' : Session} {h : Handle} {g : Generation} {key : family.Key}
  {r : TemplateRef family}

/-! ## Lookups -/

theorem lookup_of_own {t : Template family} (hkey : s.own? family h key = some t) :
    s.lookup family h key = some ⟨h, key⟩ := by
  rw [lookup, hkey]

theorem lookup_of_own_none (hg : s.generation? h = some g) (hkey : s.own? family h key = none) :
    s.lookup family h key = s.inherited family key g.ancestors := by
  rw [lookup, hkey]
  simp only [offered, hg, Option.bind_some]

/-- **A lookup keeps its answer**, because a key that is inherited stays so. -/
theorem lookup_of_follows (hs' : s'.Coherent) (hfollows : s.Follows s')
    (hr : s.lookup family h key = some r) : s'.lookup family h key = some r := by
  rcases hkey : s.own? family h key with _ | t
  · rcases hg : s.generation? h with _ | g
    · rw [lookup, hkey] at hr
      simp only [offered, hg, Option.bind_none] at hr
      cases hr
    · rw [lookup_of_own_none hg hkey] at hr
      obtain ⟨g', hg', -, hancestors, -⟩ := hfollows.generation hg
      have hr' : s'.inherited family key g'.ancestors = some r := by
        rw [hancestors, hfollows.inherited hg, hr]
      have hkey' : s'.own? family h key = none := by
        rw [own?_of_generation hg']
        rcases hown : (g'.cache family).find? key with _ | t
        · rfl
        · rw [(hs' hg').clear hown] at hr'
          cases hr'
      rw [lookup_of_own_none hg' hkey', hr']
  · rw [lookup_of_own hkey] at hr
    obtain ⟨t', hkey'⟩ := Option.isSome_iff_exists.1 (hfollows.held (Option.isSome_of_eq_some hkey))
    rw [lookup_of_own hkey', hr]

/-- **What a request is answered with** if lookup finds a template: this template, unless the
audit stops it. -/
theorem request_of_lookup (hs : s.Coherent) (hg : s.generation? h = some g)
    (hr : s.lookup family h key = some r) (location : Option Location) :
    (g.cache family).Admits location ∧
      (Run.request family h key location s).1 = .ok r ∨
    ∃ l, location = some l ∧ ¬ (g.cache family).Admits location ∧
      (Run.request family h key location s).1 = .error (.fault (.lateUse family l)) := by
  have hrequest := congrArg Prod.fst (Run.request_eq hg (⟨key, location⟩ : Request family))
  simp only at hrequest
  rw [hrequest]
  have hanswer : ((g.cache family).find? key).isSome ∨ (s.offer family g key).isSome := by
    rcases hkey : s.own? family h key with _ | t
    · rw [lookup_of_own_none hg hkey] at hr
      exact .inr (Option.isSome_of_eq_some hr)
    · exact .inl (Option.isSome_of_eq_some ((own?_of_generation hg family key).symm.trans hkey))
  by_cases hadmits : (g.cache family).Admits location
  · refine .inl ⟨hadmits, Cache.outcome_eq_ok_iff.2 ?_⟩
    rcases hkey : s.own? family h key with _ | t
    · rw [lookup_of_own_none hg hkey] at hr
      rw [own?_of_generation hg] at hkey
      exact .inr (.inl ⟨hkey, hr, hadmits⟩)
    · rw [lookup_of_own hkey] at hr
      rw [own?_of_generation hg] at hkey
      refine .inl ⟨Option.isSome_of_eq_some hkey, hadmits, ?_⟩
      rw [(hs hg).home]
      exact Option.some.inj hr
  · obtain ⟨l, hl, hlate⟩ :=
      Cache.outcome_of_not_admits (r := (⟨key, location⟩ : Request family)) hanswer hadmits
    exact .inr ⟨l, hl, hadmits, hlate⟩

/-- Whoever finds a template by lookup gets it by request, unless the audit stops it. -/
theorem gives_of_lookup (hs : s.Coherent) (hr : s.lookup family h key = some r) :
    s.Gives family h key r := by
  refine ⟨hr, fun location => ?_⟩
  rcases hg : s.generation? h with _ | g
  · rw [lookup, own?, hg] at hr
    simp only [Option.bind_none, offered, hg] at hr
    cases hr
  · rcases request_of_lookup hs hg hr location with ⟨-, hok⟩ | ⟨l, hl, -, hlate⟩
    · exact .inl hok
    · exact .inr ⟨l, hl, hlate⟩

/-! ## Answers -/

theorem leadsTo_of_run {α : Type} {x : Step α} {answer : Except Failure α}
    (hrun : x.run s = (answer, s')) : s.LeadsTo s' := by
  have hstep := LeadsTo.step .refl x (s := s)
  rwa [hrun] at hstep

theorem Answers.leadsTo (hanswers : s.Answers s' family h key r) : s.LeadsTo s' := by
  cases hanswers with
  | lookup => exact .refl
  | request hrun => exact leadsTo_of_run hrun
  | requestAll hrun => exact leadsTo_of_run hrun
  | requestSignature hrun => exact leadsTo_of_run hrun
  | construct hrun => exact leadsTo_of_run hrun
  | constructFields _ hrun => exact leadsTo_of_run hrun

/-- Among the requests that lead from one session to another is one that is answered with
the template. -/
def Receives (s s' : Session) (family : Family) (h : Handle) (key : family.Key)
    (r : TemplateRef family) : Prop :=
  ∃ g requests location, s.generation? h = some g ∧ s.Served ⟨family, h, requests⟩ g s' ∧
    ⟨key, location⟩ ∈ requests ∧
    (g.cache family).outcome (s.offer family g) ⟨key, location⟩ = .ok r

theorem receives_of_request {location : Option Location}
    (hrun : Run.request family h key location s = (.ok r, s')) :
    s.Receives s' family h key r := by
  rcases hg : s.generation? h with _ | g
  · rw [Run.request_missing hg] at hrun
    cases hrun
  · have hserved := Run.served_request hg (⟨key, location⟩ : Request family)
    have heq := Run.request_eq hg (⟨key, location⟩ : Request family)
    simp only [hrun] at hserved heq
    exact ⟨g, _, location, hg, hserved, List.mem_singleton.2 rfl, (congrArg Prod.fst heq).symm⟩

theorem apply_eq_ok_iff {template : TemplateRef .shape} {arguments : List TypeId}
    {applied : AppliedShape} : template.apply arguments = .ok applied ↔
      applied.template = template ∧ applied.arguments = arguments := by
  rw [TemplateRef.apply]
  constructor
  · intro h
    split at h
    · cases h
      exact ⟨rfl, rfl⟩
    · cases h
  · rintro ⟨rfl, rfl⟩
    exact dif_pos applied.length_arguments

theorem receives_of_construct {key : ShapeKey} {arguments : List TypeId}
    {location : Option Location} {applied : AppliedShape}
    (hrun : Run.construct h key arguments location s = (.ok applied, s')) :
    s.Receives s' .shape h key applied.template := by
  rw [Run.construct_eq] at hrun
  rcases hrequest : Run.request .shape h key location s with ⟨e | template, s''⟩
  · rw [hrequest] at hrun
    cases hrun
  · rw [hrequest] at hrun
    obtain ⟨happly, rfl⟩ := Prod.mk.inj hrun
    rcases happlied : template.apply arguments with cause | applied'
    · simp only [Except.bind, happlied] at happly
      cases happly
    · simp only [Except.bind, happlied] at happly
      cases happly
      rw [(apply_eq_ok_iff.1 happlied).1]
      exact receives_of_request hrequest

/-- An answer is what a lookup finds, or it is received. -/
theorem Answers.lookup_or_receives (hanswers : s.Answers s' family h key r) :
    s.lookup family h key = some r ∧ s' = s ∨ s.Receives s' family h key r := by
  cases hanswers with
  | lookup hr => exact .inl ⟨hr, rfl⟩
  | request hrun => exact .inr (receives_of_request hrun)
  | @requestAll _ _ _ _ requests location outcomes _ hrun i hrequest houtcome =>
    rcases hg : s.generation? h with _ | g
    · rw [Step.run, Run.requestAll_missing hg] at hrun
      cases hrun
    · obtain ⟨c, heq, hserves⟩ := Run.requestAll_eq hg requests
      rw [Step.run, heq] at hrun
      obtain ⟨houtcomes, rfl⟩ := Prod.mk.inj hrun
      obtain rfl := Except.ok.inj houtcomes
      rw [List.getElem?_map, hrequest] at houtcome
      exact .inr ⟨g, requests, location, hg, ⟨c, rfl, hserves⟩, List.mem_of_getElem? hrequest,
        Option.some.inj houtcome⟩
  | @requestSignature _ params returnsVoid location _ _ hrun =>
    rcases hpredefined : (DelegateKey.ofParameters params returnsVoid).isPredefined
    · rw [Step.run, Run.requestSignature_eq hpredefined] at hrun
      rcases hrequest : Run.request .delegate h (DelegateKey.ofParameters params returnsVoid)
        location s with ⟨e | template, s''⟩
      · rw [hrequest] at hrun
        cases hrun
      · rw [hrequest] at hrun
        cases hrun
        exact .inr (receives_of_request hrequest)
    · rw [Step.run, Run.requestSignature_predefined hpredefined] at hrun
      cases hrun
  | construct hrun => exact .inr (receives_of_construct hrun)
  | constructFields hkey hrun =>
    rcases hg : s.generation? h with _ | g
    · rw [Step.run, Run.constructFields_missing hg] at hrun
      cases hrun
    · rw [Step.run, Run.constructFields_eq hg hkey] at hrun
      exact .inr (receives_of_construct hrun)

/-- What is received is found by lookup from then on. If it was not found before, it is a
template of the generation's own. -/
theorem Receives.lookup (hreceives : s.Receives s' family h key r) (hs : s.Coherent) :
    (s.lookup family h key = some r ∨ s.lookup family h key = none ∧ r = ⟨h, key⟩) ∧
      (s.lookup family h key = none → s'.lookup family h key = some r) := by
  obtain ⟨g, requests, location, hg, ⟨c, rfl, hserves⟩, hmem, houtcome⟩ := hreceives
  have hhome : (g.cache family).home = h := (hs hg).home family
  rcases Cache.outcome_eq_ok_iff.1 houtcome with
    ⟨hkey, -, hr⟩ | ⟨hkey, hoffer, -⟩ | ⟨hkey, hoffer, -, hr⟩
  · obtain ⟨t, ht⟩ := Option.isSome_iff_exists.1 hkey
    have hfound : s.lookup family h key = some r := by
      rw [lookup_of_own ((own?_of_generation hg family key).trans ht), ← hhome]
      exact congrArg some hr
    exact ⟨.inl hfound, fun hnone => by rw [hfound] at hnone; cases hnone⟩
  · have hfound : s.lookup family h key = some r := by
      rw [lookup_of_own_none hg ((own?_of_generation hg family key).trans hkey)]
      exact hoffer
    exact ⟨.inl hfound, fun hnone => by rw [hfound] at hnone; cases hnone⟩
  · rw [hhome] at hr
    obtain rfl := hr
    have hnone : s.lookup family h key = none := by
      rw [lookup_of_own_none hg ((own?_of_generation hg family key).trans hkey)]
      exact hoffer
    refine ⟨.inr ⟨hnone, rfl⟩, fun _ => ?_⟩
    obtain ⟨e, -, hfind⟩ := hserves.absorbs.made hkey
      ⟨⟨key, location⟩, ⟨⟨hmem, _, houtcome⟩, hoffer⟩, rfl⟩
    refine lookup_of_own (Eq.trans ?_ hfind)
    rw [own?_put_self (Option.isSome_of_eq_some hg), Generation.cache_withCache_self]

/-- **What a generation answers** is found by lookup from then on. -/
theorem Answers.lookup_after (hanswers : s.Answers s' family h key r) (hs : s.Coherent) :
    s'.lookup family h key = some r := by
  have hleads := hanswers.leadsTo
  rcases hanswers.lookup_or_receives with ⟨hr, rfl⟩ | hreceives
  · exact hr
  · obtain ⟨hbefore | ⟨hnone, -⟩, hafter⟩ := hreceives.lookup hs
    · exact lookup_of_follows (hleads.coherent hs) (hleads.follows hs) hbefore
    · exact hafter hnone

/-- The answer is the one that lookup finds, if it finds any. -/
theorem Answers.eq_of_lookup (hanswers : s.Answers s' family h key r) (hs : s.Coherent)
    {r' : TemplateRef family} (hr' : s.lookup family h key = some r') : r = r' := by
  have hafter := hanswers.lookup_after hs
  have hkept := lookup_of_follows (hanswers.leadsTo.coherent hs) (hanswers.leadsTo.follows hs) hr'
  exact Option.some.inj (hafter.symm.trans hkept)

/-! ## Named templates -/

theorem identity?_eq_some_iff {identity : Identity} :
    s.identity? r = some identity ↔ ∃ t, s.template? r = some t ∧ t.identity = some identity :=
  Option.bind_eq_some_iff

/-- **Nothing comes between** a named template and those who inherit it: a generation on the
way that held the key would hold what it inherits itself. -/
theorem Coherent.inherited_of_named (hs : s.Coherent) (hg : s.generation? h = some g)
    {a : Handle} {pre post : List Handle} (hsplit : g.ancestors = pre ++ a :: post)
    {identity : Identity} (ha : s.identity? (⟨a, key⟩ : TemplateRef family) = some identity) :
    s.inherited family key g.ancestors = some ⟨a, key⟩ := by
  obtain ⟨t, ht, hidentity⟩ := identity?_eq_some_iff.1 ha
  have hnamed : t.isNamed = true := Option.isSome_of_eq_some hidentity
  rw [hsplit]
  induction pre generalizing h g with
  | nil =>
    have hown : s.own? family a key = some t := ht
    rw [List.nil_append, inherited, hown]
    exact if_pos hnamed
  | cons b pre ih =>
    have hsplit' : g.ancestors = [] ++ b :: (pre ++ a :: post) := hsplit
    obtain ⟨gb, hgb, -, -, hancestors⟩ := hs.ancestor hg hsplit'
    have hinherited := ih hgb hancestors
    have hown : s.own? family b key = none := by
      rw [own?_of_generation hgb]
      rcases hkey : (gb.cache family).find? key with _ | u
      · rfl
      · have hclear := (hs hgb).clear hkey
        rw [hancestors] at hclear
        rw [hclear] at hinherited
        cases hinherited
    rw [List.cons_append, inherited, hown]
    exact hinherited

/-- A generation holds no template for a key that an ancestor has named. -/
theorem Coherent.own?_eq_none_of_named (hs : s.Coherent) (hg : s.generation? h = some g)
    {a : Handle} {pre post : List Handle} (hsplit : g.ancestors = pre ++ a :: post)
    {identity : Identity} (ha : s.identity? (⟨a, key⟩ : TemplateRef family) = some identity) :
    s.own? family h key = none := by
  have hinherited := hs.inherited_of_named hg hsplit ha
  rw [own?_of_generation hg]
  rcases hkey : (g.cache family).find? key with _ | t
  · rfl
  · rw [(hs hg).clear hkey] at hinherited
    cases hinherited

/-- At most one generation of a chain has named a key. -/
theorem Coherent.eq_of_named (hs : s.Coherent) (hg : s.generation? h = some g)
    {a b : Handle} (ha : a ∈ g.ancestors) (hb : b ∈ h :: g.ancestors) {i j : Identity}
    (hi : s.identity? (⟨a, key⟩ : TemplateRef family) = some i)
    (hj : s.identity? (⟨b, key⟩ : TemplateRef family) = some j) : b = a := by
  obtain ⟨pre, post, hsplit⟩ := List.append_of_mem ha
  have hinherited := hs.inherited_of_named hg hsplit hi
  rcases List.mem_cons.1 hb with rfl | hb
  · obtain ⟨t, ht, -⟩ := identity?_eq_some_iff.1 hj
    have hnone := hs.own?_eq_none_of_named hg hsplit hi
    rw [template?, hnone] at ht
    cases ht
  · obtain ⟨pre', post', hsplit'⟩ := List.append_of_mem hb
    rw [hs.inherited_of_named hg hsplit' hj] at hinherited
    exact congrArg TemplateRef.home (Option.some.inj hinherited)

/-- **Identity continuity.** In every reachable session, for every generation and key:

1. If an earlier generation on the chain has named the key, all that come after it give its
   template; neither this generation nor one in between holds the key, and no other one on
   the chain has named it.
2. A template of an earlier generation that has no identity is never answered with, now or
   later.
3. Once the generation has answered with a template, it gives this template and answers with
   no other one in all later sessions; and the identity of the template, once it has one,
   does not change. -/
theorem Reachable.continuity (hs : s.Reachable) (hg : s.generation? h = some g)
    (family : Family) (key : family.Key) :
    (∀ pre a post identity, g.ancestors = pre ++ a :: post →
      s.identity? (⟨a, key⟩ : TemplateRef family) = some identity →
        s.Gives family h key ⟨a, key⟩ ∧
        (∀ b ∈ h :: pre, s.own? family b key = none) ∧
        ∀ b ∈ h :: g.ancestors, b ≠ a → s.identity? (⟨b, key⟩ : TemplateRef family) = none) ∧
    (∀ a ∈ g.ancestors, s.identity? (⟨a, key⟩ : TemplateRef family) = none →
      ∀ s₁ s₂, s.LeadsTo s₁ → ¬ s₁.Answers s₂ family h key ⟨a, key⟩) ∧
    ∀ r s₁, s.Answers s₁ family h key r → ∀ s₂, s₁.LeadsTo s₂ →
      s₂.Gives family h key r ∧
      (∀ r' s₃, s₂.Answers s₃ family h key r' → r' = r) ∧
      ∀ identity, s₂.identity? r = some identity →
        ∀ s₃, s₂.LeadsTo s₃ → s₃.identity? r = some identity := by
  have hcoherent := hs.coherent
  refine ⟨?_, ?_, ?_⟩
  · intro pre a post identity hsplit ha
    have hown := hcoherent.own?_eq_none_of_named hg hsplit ha
    have hmem : a ∈ g.ancestors := hsplit ▸ List.mem_append_right _ (List.mem_cons_self ..)
    refine ⟨gives_of_lookup hcoherent ?_, ?_, ?_⟩
    · rw [lookup_of_own_none hg hown]
      exact hcoherent.inherited_of_named hg hsplit ha
    · intro b hb
      rcases List.mem_cons.1 hb with rfl | hb
      · exact hown
      · obtain ⟨pre', post', rfl⟩ := List.append_of_mem hb
        rw [List.append_assoc, List.cons_append] at hsplit
        obtain ⟨gb, hgb, -, -, hancestors⟩ := hcoherent.ancestor hg hsplit
        exact hcoherent.own?_eq_none_of_named hgb hancestors ha
    · intro b hb hne
      rcases hj : s.identity? (⟨b, key⟩ : TemplateRef family) with _ | j
      · rfl
      · exact absurd (hcoherent.eq_of_named hg hmem hb ha hj) hne
  · intro a ha hunnamed s₁ s₂ hleads hanswers
    have hleads₂ := hleads.trans hanswers.leadsTo
    have hfollows := hleads₂.follows hcoherent
    obtain ⟨ga, hga, hlt, hfinal⟩ := hcoherent.of_mem hg ha
    -- the ancestor is finalized, so it does not name anything any more
    have hunnamed₂ : s₂.identity? (⟨a, key⟩ : TemplateRef family) = none :=
      (hfollows.settled hga ((hcoherent hga).finalizing hfinal)).trans hunnamed
    obtain ⟨g₂, hg₂, -⟩ := hfollows.generation hg
    have hlookup := hanswers.lookup_after (hleads.coherent hcoherent)
    rcases hown : s₂.own? family h key with _ | t
    · rw [lookup_of_own_none hg₂ hown] at hlookup
      have hsome := isSome_identity?_of_inherited hlookup
      rw [hunnamed₂] at hsome
      cases hsome
    · rw [lookup_of_own hown] at hlookup
      exact absurd (congrArg TemplateRef.home (Option.some.inj hlookup)) (Nat.ne_of_gt hlt)
  · intro r s₁ hanswers s₂ hleads
    -- whatever the answer came from, lookup finds it afterwards, and goes on finding it
    have hcoherent₁ := hanswers.leadsTo.coherent hcoherent
    have hcoherent₂ := hleads.coherent hcoherent₁
    have hlookup : s₂.lookup family h key = some r :=
      lookup_of_follows hcoherent₂ (hleads.follows hcoherent₁) (hanswers.lookup_after hcoherent)
    refine ⟨gives_of_lookup hcoherent₂ hlookup, ?_, ?_⟩
    · exact fun r' s₃ hanswers' => hanswers'.eq_of_lookup hcoherent₂ hlookup
    · exact fun identity hidentity s₃ hleads₃ => (hleads₃.follows hcoherent₂).named hidentity

/-- A chain of three, in which the one in the middle gets a template after it is finalized. -/
def lateChain (key late : DelegateKey) : Session :=
  Session.empty.after
    [⟨_, .root {}⟩, ⟨_, .request .delegate 0 key none⟩, ⟨_, .finalize 0 .zero none⟩,
      ⟨_, .derive 0 { mode := .metadataOnly }⟩, ⟨_, .finalize 1 .zero none⟩,
      ⟨_, .request .delegate 1 late none⟩, ⟨_, .derive 1 {}⟩]

/-- The last one still gives the template of the first, and never the late one. -/
theorem continuity_past_late_request :
    ∃ (s : Session) (g : Generation) (key late : DelegateKey),
      s.Reachable ∧ s.generation? 2 = some g ∧ g.ancestors = [1, 0] ∧
      (s.identity? (⟨0, key⟩ : TemplateRef .delegate)).isSome ∧
      (s.own? .delegate 1 late).isSome ∧
      s.Gives .delegate 2 key ⟨0, key⟩ ∧
      (∀ s₁ s₂, s.LeadsTo s₁ → ¬ s₁.Answers s₂ .delegate 2 late ⟨1, late⟩) ∧
      ∀ s₂, s.LeadsTo s₂ → s₂.Gives .delegate 2 key ⟨0, key⟩ := by
  obtain ⟨key, late, hancestors, hnamed, hlate, hunnamed⟩ :
      ∃ key late, ((lateChain key late).generation? 2).map (·.ancestors) = some [1, 0] ∧
        ((lateChain key late).identity? (⟨0, key⟩ : TemplateRef .delegate)).isSome ∧
        ((lateChain key late).own? .delegate 1 late).isSome ∧
        (lateChain key late).identity? (⟨1, late⟩ : TemplateRef .delegate) = none :=
    ⟨.ofParameters [.byReference] true, .ofParameters [.byReference, .byValue] true,
      by decide +kernel⟩
  have hs : (lateChain key late).Reachable := leadsTo_after ..
  obtain ⟨g, hg, hchain⟩ := Option.map_eq_some_iff.1 hancestors
  obtain ⟨identity, hidentity⟩ := Option.isSome_iff_exists.1 hnamed
  obtain ⟨hgives, -, -⟩ := (hs.continuity hg .delegate key).1 [1] 0 [] identity hchain hidentity
  refine ⟨_, g, key, late, hs, hg, hchain, hnamed, hlate, hgives, ?_, ?_⟩
  · have hmem : 1 ∈ g.ancestors := hchain ▸ List.mem_cons_self ..
    exact (hs.continuity hg .delegate late).2.1 1 hmem hunnamed
  · intro s₂ hleads
    exact ((hs.continuity hg .delegate key).2.2 _ _ (.lookup hgives.1) s₂ hleads).1

end Session

end AnonymousTypes
