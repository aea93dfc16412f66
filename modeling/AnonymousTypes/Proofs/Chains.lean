import Mathlib.Data.List.Find
import AnonymousTypes.Proofs.Apart
import AnonymousTypes.Proofs.Renaming

/-!
# Chains of finalized generations

A generation that is finalized may still be asked for templates, while others continue it. What
they can see of it is little: the templates that have a name, the seal, and behind the seal the
locations that pass the audit. Two caches that agree in this are `Cache.Kin`.

Two chains of generations, in different sessions, are kindred if they are so member by member,
up to a renaming of handles (`Session.Kindred`). Chains stay kindred when the same is asked of
both (`Kindred.both`), and also when something is asked of one of them only
(`Kindred.left`, `Kindred.right`), with one exception: a late request can make the earliest
location of a named template earlier. So the keys for which this may happen are given as a
parameter, `late`, and their locations do not count.
-/

namespace AnonymousTypes

variable {family : Family} {α : Type}

/-! ## Templates without locations -/

namespace Template

/-- The template, without its earliest location if that is not to be relied on. -/
def blur (t : Template family) (late : Bool) : Template family :=
  if late then { t with earliest := noLocation } else t

@[simp] theorem identity_blur (t : Template family) (late : Bool) :
    (t.blur late).identity = t.identity := by
  cases late <;> rfl

/-- A change of the earliest location is not seen if it is not to be relied on. -/
theorem blur_congr {t u : Template family} {late : Bool} (h : t.blur late = u.blur late)
    {e e' : UInt64} (he : late = false → e = e') :
    ({ t with earliest := e } : Template family).blur late =
      ({ u with earliest := e' } : Template family).blur late := by
  cases late with
  | true => exact h
  | false =>
    obtain rfl : t = u := h
    rw [he rfl]

end Template

namespace Cache

/-! ## What is seen of a cache -/

/-- The template that the cache shows to others for a key: it has to be named. -/
def shown (c : Cache family) (late : family.Key → Bool) (key : family.Key) :
    Option (Template family) :=
  ((c.find? key).filter (·.isNamed)).map (·.blur (late key))

/-- Requests from a location that is earlier than all before are for `late` keys. -/
def RelocatesOnly (c : Cache family) (late : family.Key → Bool)
    (asked : Request family → Prop) : Prop :=
  ∀ {r t location}, asked r → c.find? r.key = some t → r.location = some location →
    location.orderKey < t.earliest → late r.key = true

/-- Two caches that others cannot tell apart. -/
structure Kin (late : family.Key → Bool) (c c' : Cache family) : Prop where
  isSealed_eq : c'.isSealed = c.isSealed
  audited : c.isSealed = true → ∀ location, location ∈ c'.audited ↔ location ∈ c.audited
  shown_eq : ∀ key, c'.shown late key = c.shown late key

variable {late : family.Key → Bool} {c c' c'' d d' : Cache family}
  {offer offer' : family.Key → Option (TemplateRef family)}

theorem shown_eq_some_iff {key : family.Key} {u : Template family} :
    c.shown late key = some u ↔
      ∃ t, c.find? key = some t ∧ t.isNamed = true ∧ t.blur (late key) = u := by
  simp [shown, Option.filter_eq_some_iff, and_assoc]

namespace Kin

theorem symm (h : c.Kin late c') : c'.Kin late c where
  isSealed_eq := h.isSealed_eq.symm
  audited hsealed location := (h.audited (h.isSealed_eq.symm.trans hsealed) location).symm
  shown_eq key := (h.shown_eq key).symm

theorem trans (h : c.Kin late c') (h' : c'.Kin late c'') : c.Kin late c'' where
  isSealed_eq := h'.isSealed_eq.trans h.isSealed_eq
  audited hsealed location :=
    (h'.audited (h.isSealed_eq.trans hsealed) location).trans (h.audited hsealed location)
  shown_eq key := (h'.shown_eq key).trans (h.shown_eq key)

theorem rename (late : family.Key → Bool) (c : Cache family) (σ : Handle → Handle) :
    c.Kin late (c.rename σ) where
  isSealed_eq := rfl
  audited _ _ := .rfl
  shown_eq _ := rfl

theorem admits_iff (h : c.Kin late c') (location : Option Location) :
    c'.Admits location ↔ c.Admits location := by
  rw [Admits, Admits, h.isSealed_eq]
  refine or_congr_right' fun hsealed => forall₂_congr fun l _ => ?_
  exact h.audited (Bool.not_eq_false _ ▸ hsealed) l

end Kin

namespace Serves

variable {granted granted' : Request family → Prop}

/-- A sealed cache does not record locations. -/
theorem audited_of_sealed (h : c.Serves offer granted d) (hsealed : c.isSealed = true)
    (location : Location) : location ∈ d.audited ↔ location ∈ c.audited := by
  rw [h.absorbs.audited]
  refine ⟨?_, .inl⟩
  rintro (hmem | ⟨r, hr, hloc⟩)
  · exact hmem
  · rcases (h.grants r hr).admits with hopen | hall
    · rw [hopen] at hsealed
      cases hsealed
    · exact hall location hloc

/-- Requests do not name anything. -/
theorem exists_of_named (h : c.Serves offer granted d) {key : family.Key} {u : Template family}
    (hu : d.find? key = some u) (hnamed : u.isNamed = true) :
    ∃ t e, c.find? key = some t ∧ t.isNamed = true ∧ IsEarliest granted key t.earliest e ∧
      u = { t with earliest := e } := by
  rcases hkey : c.find? key with _ | t
  · rcases h.absorbs.eq_none_or_bound (Option.isSome_of_eq_some hu) with hsome | ⟨-, hbound⟩
    · rw [hkey] at hsome
      cases hsome
    · obtain ⟨e, -, hfind⟩ := h.absorbs.made hkey hbound
      obtain rfl := Option.some.inj (hu.symm.trans hfind)
      cases hnamed
  · obtain ⟨e, he, hfind⟩ := h.absorbs.held hkey
    obtain rfl := Option.some.inj (hu.symm.trans hfind)
    exact ⟨t, e, rfl, hnamed, he, rfl⟩

/-- What is shown does not change if only `late` templates are used from earlier locations. -/
theorem shown_eq (h : c.Serves offer granted d) (hlate : c.RelocatesOnly late granted)
    (key : family.Key) : d.shown late key = c.shown late key := by
  have hsame : ∀ {t : Template family} {e}, c.find? key = some t →
      IsEarliest granted key t.earliest e →
      ({ t with earliest := e } : Template family).blur (late key) = t.blur (late key) := by
    intro t e hfind he
    refine Template.blur_congr (u := t) rfl fun hnot => he.eq_of_not_earlier ?_
    rintro r hr rfl location hloc
    by_contra hlt
    rw [hlate hr hfind hloc (UInt64.not_le.1 hlt)] at hnot
    cases hnot
  refine Option.ext fun u => ?_
  rw [shown_eq_some_iff, shown_eq_some_iff]
  constructor
  · rintro ⟨_, ht, hnamed, rfl⟩
    obtain ⟨t, e, hfind, hnamed, he, rfl⟩ := h.exists_of_named ht hnamed
    exact ⟨t, hfind, hnamed, (hsame hfind he).symm⟩
  · rintro ⟨t, ht, hnamed, rfl⟩
    obtain ⟨e, he, hfind⟩ := h.absorbs.held ht
    exact ⟨_, hfind, hnamed, hsame ht he⟩

/-- **Late requests** cannot be seen by others, apart from the locations that they move. What is
bound late stays unnamed, and nobody inherits unnamed templates. -/
theorem kin (h : c.Serves offer granted d) (hlate : c.RelocatesOnly late granted) :
    c.Kin late d where
  isSealed_eq := isSealed_of_frame h.absorbs.frame_eq
  audited := h.audited_of_sealed
  shown_eq := h.shown_eq hlate

end Serves

/-- **The same requests** to both caches. Which of them are granted is the same for the keys
that are shown. -/
theorem Kin.serves {asked : Request family → Prop} (hkin : c.Kin late c')
    (h : c.Serves offer (fun r => asked r ∧ c.Grants offer r) d)
    (h' : c'.Serves offer' (fun r => asked r ∧ c'.Grants offer' r) d') : d.Kin late d' where
  isSealed_eq := by
    rw [isSealed_of_frame h'.absorbs.frame_eq, hkin.isSealed_eq,
      isSealed_of_frame h.absorbs.frame_eq]
  audited hsealed location := by
    rw [isSealed_of_frame h.absorbs.frame_eq] at hsealed
    rw [h'.audited_of_sealed (hkin.isSealed_eq.trans hsealed), h.audited_of_sealed hsealed]
    exact hkin.audited hsealed location
  shown_eq key := by
    -- both hold the template, so the seal and the audit are all that decides about a request
    have hsame : ∀ {t t' : Template family} {e e'}, c.find? key = some t →
        c'.find? key = some t' → t.blur (late key) = t'.blur (late key) →
        IsEarliest (fun r => asked r ∧ c.Grants offer r) key t.earliest e →
        IsEarliest (fun r => asked r ∧ c'.Grants offer' r) key t'.earliest e' →
        ({ t with earliest := e } : Template family).blur (late key) =
          ({ t' with earliest := e' } : Template family).blur (late key) := by
      intro t t' e e' ht ht' hblur he he'
      refine Template.blur_congr hblur fun hnot => ?_
      rw [hnot] at hblur
      obtain rfl : t = t' := hblur
      refine he.unique (he'.congr fun r hk => and_congr_right fun _ => ?_)
      subst hk
      rw [grants_iff_admits (Option.isSome_of_eq_some ht),
        grants_iff_admits (Option.isSome_of_eq_some ht'), hkin.admits_iff]
    refine Option.ext fun u => ?_
    rw [shown_eq_some_iff, shown_eq_some_iff]
    constructor
    · rintro ⟨_, ht', hnamed, rfl⟩
      obtain ⟨t', e', hfind', hnamed, he', rfl⟩ := h'.exists_of_named ht' hnamed
      obtain ⟨t, hfind, hnamed, hblur⟩ := shown_eq_some_iff.1
        ((hkin.shown_eq key).symm.trans (shown_eq_some_iff.2 ⟨t', hfind', hnamed, rfl⟩))
      obtain ⟨e, he, hd⟩ := h.absorbs.held hfind
      exact ⟨_, hd, hnamed, hsame hfind hfind' hblur he he'⟩
    · rintro ⟨_, ht, hnamed, rfl⟩
      obtain ⟨t, e, hfind, hnamed, he, rfl⟩ := h.exists_of_named ht hnamed
      obtain ⟨t', hfind', hnamed, hblur⟩ := shown_eq_some_iff.1
        ((hkin.shown_eq key).trans (shown_eq_some_iff.2 ⟨t, hfind, hnamed, rfl⟩))
      obtain ⟨e', he', hd'⟩ := h'.absorbs.held hfind'
      exact ⟨_, hd', hnamed, (hsame hfind hfind' hblur.symm he he').symm⟩

end Cache

/-! ## What steps ask of finalized generations -/

namespace Step

variable {s : Session} {h : Handle} {g : Generation} {x : Step α}

/-- A generation that is not asked for anything stays as it is, once finalization is begun. -/
theorem generation?_run_of_begun (hs : s.Coherent) (hg : s.generation? h = some g)
    (hbegun : g.isFinalizing = true) (hx : ∀ a, x.asks? = some a → a.home ≠ h) :
    (x.run s).2.generation? h = some g := by
  by_cases hhome : x.home? = some h
  · cases x with
    | root => cases hhome
    | derive _ config =>
      cases hhome
      rw [Step.run]
      rcases hfinal : g.finalized with _ | numbering
      · rw [Run.continueFrom_unfinalized hg hfinal]
        exact hg
      · rw [Run.continueFrom_finalized hg hfinal]
        exact Session.Coherent.generation?_push _ _ hg
    | finalize _ given previous =>
      cases hhome
      rw [Step.run, Run.finalize_again hg hbegun]
      exact hg
    | request | requestAll | construct =>
      cases hhome
      exact absurd rfl (hx _ rfl)
    | requestSignature _ params returnsVoid location =>
      cases hhome
      rcases hpredefined : (DelegateKey.ofParameters params returnsVoid).isPredefined
      · exact absurd rfl (hx ⟨.delegate, _, [⟨.ofParameters params returnsVoid, location⟩]⟩
          (by simp [asks?, hpredefined]))
      · rw [Step.run, Run.requestSignature_predefined hpredefined]
        exact hg
    | constructFields _ symbols list =>
      cases hhome
      rcases hkey : list.shapeKey symbols with fault | key
      · rw [Step.run, Run.constructFields_fault hg hkey]
        exact hg
      · exact absurd rfl (hx ⟨.shape, _, [⟨key, some list.location⟩]⟩ (by simp [asks?, hkey]))
  · exact (x.change hs).generation?_eq hg hhome

/-- **Once finalization is begun** a generation handles what it is asked for, and nothing else
happens to it. -/
theorem handles_of_begun (hs : s.Coherent) (hg : s.generation? h = some g)
    (hbegun : g.isFinalizing = true) (x : Step α) :
    ∃ g', (x.run s).2.generation? h = some g' ∧ g'.frame = g.frame ∧
      ∀ family, ∃ requests, (∀ r, r ∈ requests ↔ ⟨family, r⟩ ∈ Session.asked h [⟨α, x⟩]) ∧
        (g.cache family).Handles (s.offer family g) requests (g'.cache family) := by
  by_cases hx : ∀ a, x.asks? = some a → a.home ≠ h
  · refine ⟨g, generation?_run_of_begun hs hg hbegun hx, rfl, fun family =>
      ⟨[], fun r => ?_, .nil _⟩⟩
    rw [Session.asked_cons (x := ⟨α, x⟩) hx]
    simp [Session.asked]
  · simp only [not_forall, not_not] at hx
    obtain ⟨a, hasks, rfl⟩ := hx
    obtain ⟨c, hrun, hhandles⟩ := handles_of_asks hasks hg
    rw [hrun]
    refine ⟨g.withCache a.family c, Session.generation?_put_self (Option.isSome_of_eq_some hg) _,
      Generation.frame_withCache .., fun family => ?_⟩
    rw [Session.asked_cons_of_asks (x := ⟨α, x⟩) hasks]
    by_cases hne : family = a.family
    · subst hne
      rw [Generation.cache_withCache_self]
      exact ⟨a.requests, fun r => by simp [Session.asked], hhandles⟩
    · rw [Generation.cache_withCache_ne _ _ hne]
      exact ⟨[], fun r => by simp [Session.asked, Ne.symm hne], .nil _⟩

theorem serves_of_begun (hs : s.Coherent) (hg : s.generation? h = some g)
    (hbegun : g.isFinalizing = true) (x : Step α) :
    ∃ g', (x.run s).2.generation? h = some g' ∧ g'.frame = g.frame ∧
      ∀ family, (g.cache family).Serves (s.offer family g)
        (fun r => ⟨family, r⟩ ∈ Session.asked h [⟨α, x⟩] ∧
          (g.cache family).Grants (s.offer family g) r) (g'.cache family) := by
  obtain ⟨g', hg', hframe, hhandles⟩ := handles_of_begun hs hg hbegun x
  refine ⟨g', hg', hframe, fun family => ?_⟩
  obtain ⟨requests, hmem, hcache⟩ := hhandles family
  exact hcache.serves.congr fun r => by rw [hmem]

/-- Whatever the step asks the generation for from an earlier location than before is `late`. -/
def RelocatesOnly (late : (family : Family) → family.Key → Bool) (s : Session) (h : Handle)
    (x : Step α) : Prop :=
  ∀ family (r : Request family) t location, ⟨family, r⟩ ∈ Session.asked h [⟨α, x⟩] →
    s.own? family h r.key = some t → r.location = some location →
    location.orderKey < t.earliest → late family r.key = true

namespace RelocatesOnly

variable {late : (family : Family) → family.Key → Bool}

theorem of_asks_none (hx : x.asks? = none) : x.RelocatesOnly late s h := by
  intro family r t location hr
  simp only [Session.asked, List.filterMap_cons, hx] at hr
  cases hr

/-- A request without a location does not change any. -/
theorem of_unlocated (family : Family) (a : Handle) (key : family.Key) :
    (Step.request family a key none).RelocatesOnly late s h := by
  intro other r t location hr _ hloc
  simp only [Session.asked, asks?, List.filterMap_cons, List.filterMap_nil, List.flatMap_cons,
    List.flatMap_nil, List.append_nil] at hr
  split at hr
  · obtain ⟨r', hr', heq⟩ := List.mem_map.1 hr
    cases heq
    rw [List.mem_singleton.1 hr'] at hloc
    cases hloc
  · cases hr

/-- Seen from a cache of the generation. -/
theorem cache (hx : x.RelocatesOnly late s h) (hg : s.generation? h = some g) (family : Family)
    (granted : Request family → Prop) : (g.cache family).RelocatesOnly (late family)
      (fun r => ⟨family, r⟩ ∈ Session.asked h [⟨α, x⟩] ∧ granted r) :=
  fun hr ht hloc hlt =>
    hx family _ _ _ hr.1 ((Session.own?_of_generation hg family _).trans ht) hloc hlt

end RelocatesOnly

end Step

namespace Session

variable {late : (family : Family) → family.Key → Bool} {σ : Handle → Handle}
  {s s' : Session} {h : Handle} {g : Generation} {chain : List Handle}

/-! ## Chains -/

/-- A chain that a generation may continue: nothing, or else a finalized generation and what
that one continues. -/
def IsChain (s : Session) (chain : List Handle) : Prop :=
  chain = [] ∨ ∃ p parent, s.generation? p = some parent ∧ parent.finalized.isSome ∧
    chain = p :: parent.ancestors

/-- The counters that the last generation of a chain left behind. -/
def leftBehind (s : Session) (chain : List Handle) : Option Numbering :=
  (chain.head?.bind s.generation?).bind (·.finalized)

theorem Coherent.isChain (hs : s.Coherent) (hg : s.generation? h = some g) :
    s.IsChain g.ancestors := by
  refine (hs hg).chain.imp_right ?_
  rintro ⟨p, parent, hp, -, hfinal, hancestors⟩
  exact ⟨p, parent, hp, hfinal, hancestors⟩

namespace IsChain

theorem of_mem (hchain : s.IsChain chain) (hs : s.Coherent) {a : Handle} (ha : a ∈ chain) :
    ∃ ga, s.generation? a = some ga ∧ ga.finalized.isSome ∧ ga.isFinalizing = true := by
  suffices hex : ∃ ga, s.generation? a = some ga ∧ ga.finalized.isSome by
    obtain ⟨ga, hga, hfinal⟩ := hex
    exact ⟨ga, hga, hfinal, (hs hga).finalizing hfinal⟩
  rcases hchain with rfl | ⟨p, parent, hp, hfinal, rfl⟩
  · cases ha
  · rcases List.mem_cons.1 ha with rfl | ha
    · exact ⟨parent, hp, hfinal⟩
    · obtain ⟨ga, hga, -, hfinal⟩ := hs.of_mem hp ha
      exact ⟨ga, hga, hfinal⟩

/-- No generation occurs twice. -/
theorem nodup (hchain : s.IsChain chain) (hs : s.Coherent) : chain.Nodup := by
  induction chain with
  | nil => exact .nil
  | cons p rest ih =>
    rcases hchain with hnil | ⟨_, parent, hp, -, hcons⟩
    · cases hnil
    · obtain ⟨rfl, rfl⟩ := List.cons.inj hcons
      exact List.nodup_cons.2 ⟨hs.not_mem hp, ih (hs.isChain hp)⟩

/-- A chain stays one. -/
theorem follows (hchain : s.IsChain chain) (hs : s.Coherent) (hfollows : s.Follows s') :
    s'.IsChain chain ∧ s'.leftBehind chain = s.leftBehind chain := by
  rcases hchain with rfl | ⟨p, parent, hp, hfinal, rfl⟩
  · exact ⟨.inl rfl, rfl⟩
  · obtain ⟨parent', hp', -, hancestors, hbegun⟩ := hfollows.generation hp
    have hsame := (hbegun ((hs hp).finalizing hfinal)).2
    refine ⟨.inr ⟨p, parent', hp', by rwa [hsame], by rw [hancestors]⟩, ?_⟩
    simp only [leftBehind, List.head?_cons, Option.bind_some, hp, hp', hsame]

/-- **A step** makes the members of a chain serve what it asks them for, and nothing else. -/
theorem serves (hchain : s.IsChain chain) (hs : s.Coherent) {a : Handle} (ha : a ∈ chain)
    (x : Step α) {d : Generation} (hd : (x.run s).2.generation? a = some d) :
    ∃ ga, s.generation? a = some ga ∧ ∀ family, (ga.cache family).Serves (s.offer family ga)
      (fun r => ⟨family, r⟩ ∈ asked a [⟨α, x⟩] ∧ (ga.cache family).Grants (s.offer family ga) r)
      (d.cache family) := by
  obtain ⟨ga, hga, -, hbegun⟩ := hchain.of_mem hs ha
  obtain ⟨_, hd', -, hserves⟩ := Step.serves_of_begun hs hga hbegun x
  obtain rfl := Option.some.inj (hd.symm.trans hd')
  exact ⟨ga, hga, hserves⟩

/-- What a chain offers is the first named template. An unnamed one can be met before it only
if there is none. -/
theorem inherited_eq (hchain : s.IsChain chain) (hs : s.Coherent) (key : family.Key) :
    s.inherited family key chain =
      (chain.find? fun a => (s.identity? (⟨a, key⟩ : TemplateRef family)).isSome).map
        (⟨·, key⟩) := by
  induction chain with
  | nil => rfl
  | cons p rest ih =>
    rcases hchain with hnil | ⟨_, parent, hp, -, hcons⟩
    · cases hnil
    · obtain ⟨rfl, rfl⟩ := List.cons.inj hcons
      have hrest := ih (hs.isChain hp)
      rw [inherited, List.find?_cons, identity?, template?]
      rcases hown : s.own? family p key with _ | t
      · exact hrest
      · -- if its own template has no name, the rest of the chain must not have one either
        have hclear := (hs hp).clear ((own?_of_generation hp family key).symm.trans hown)
        rcases hnamed : t.identity.isSome
        · simp only [Option.bind_some, Template.isNamed, hnamed, Bool.false_eq_true, if_false]
          exact hclear.symm.trans hrest
        · simp only [Option.bind_some, Template.isNamed, hnamed, if_true]
          rfl

end IsChain

/-- Two chains, one in each session, that nobody who continues them can tell apart. -/
structure Kindred (late : (family : Family) → family.Key → Bool) (σ : Handle → Handle)
    (chain : List Handle) (s s' : Session) : Prop where
  coherent : s.Coherent
  coherent' : s'.Coherent
  isChain : s.IsChain chain
  isChain' : s'.IsChain (chain.map σ)
  leftBehind_eq : s'.leftBehind (chain.map σ) = s.leftBehind chain
  kin : ∀ a ∈ chain, ∀ {g g'}, s.generation? a = some g → s'.generation? (σ a) = some g' →
    ∀ family, (g.cache family).Kin (late family) (g'.cache family)

namespace Kindred

/-- The empty chains. -/
theorem nil (hs : s.Coherent) (hs' : s'.Coherent) : Kindred late σ [] s s' where
  coherent := hs
  coherent' := hs'
  isChain := .inl rfl
  isChain' := .inl rfl
  leftBehind_eq := rfl
  kin a ha := by cases ha

/-! ### Steps -/

/-- **A step in the first session** only, if all that it does to the chain is to ask late. -/
theorem left (hk : Kindred late σ chain s s') (x : Step α)
    (hx : ∀ a ∈ chain, x.RelocatesOnly late s a) : Kindred late σ chain (x.run s).2 s' := by
  have hs := hk.coherent
  obtain ⟨hchain, hleft⟩ := hk.isChain.follows hs ((x.change hs).follows hs)
  refine ⟨(x.change hs).coherent hs, hk.coherent', hchain, hk.isChain',
    hk.leftBehind_eq.trans hleft.symm, fun a ha d g' hd hg' family => ?_⟩
  obtain ⟨g, hg, hserves⟩ := hk.isChain.serves hs ha x hd
  exact ((hserves family).kin ((hx a ha).cache hg family _)).symm.trans
    (hk.kin a ha hg hg' family)

/-- **A step in the second session** only, likewise. -/
theorem right (hk : Kindred late σ chain s s') (x : Step α)
    (hx : ∀ a ∈ chain, x.RelocatesOnly late s' (σ a)) : Kindred late σ chain s (x.run s').2 := by
  have hs' := hk.coherent'
  obtain ⟨hchain, hleft⟩ := hk.isChain'.follows hs' ((x.change hs').follows hs')
  refine ⟨hk.coherent, (x.change hs').coherent hs', hk.isChain, hchain,
    hleft.trans hk.leftBehind_eq, fun a ha g d hg hd family => ?_⟩
  obtain ⟨g', hg', hserves⟩ := hk.isChain'.serves hs' (List.mem_map_of_mem ha) x hd
  exact (hk.kin a ha hg hg' family).trans ((hserves family).kin ((hx a ha).cache hg' family _))

/-- **Steps in both sessions** that ask the two chains for the same. -/
theorem both (hk : Kindred late σ chain s s') {β : Type} (x : Step α) (x' : Step β)
    (hsame : ∀ a ∈ chain, asked (σ a) [⟨β, x'⟩] = asked a [⟨α, x⟩]) :
    Kindred late σ chain (x.run s).2 (x'.run s').2 := by
  have hs := hk.coherent
  have hs' := hk.coherent'
  obtain ⟨hchain, hleft⟩ := hk.isChain.follows hs ((x.change hs).follows hs)
  obtain ⟨hchain', hleft'⟩ := hk.isChain'.follows hs' ((x'.change hs').follows hs')
  refine ⟨(x.change hs).coherent hs, (x'.change hs').coherent hs', hchain, hchain',
    hleft'.trans (hk.leftBehind_eq.trans hleft.symm), fun a ha d d' hd hd' family => ?_⟩
  obtain ⟨g, hg, hserves⟩ := hk.isChain.serves hs ha x hd
  obtain ⟨g', hg', hserves'⟩ := hk.isChain'.serves hs' (List.mem_map_of_mem ha) x' hd'
  have hserved := hserves' family
  rw [hsame a ha] at hserved
  exact (hk.kin a ha hg hg' family).serves (hserves family) hserved

/-! ### What is inherited -/

/-- The members of the chains show the same templates. -/
theorem shown_eq (hk : Kindred late σ chain s s') {a : Handle} (ha : a ∈ chain)
    (key : family.Key) :
    ((s'.own? family (σ a) key).filter (·.isNamed)).map (·.blur (late family key)) =
      ((s.own? family a key).filter (·.isNamed)).map (·.blur (late family key)) := by
  obtain ⟨g, hg, -⟩ := hk.isChain.of_mem hk.coherent ha
  obtain ⟨g', hg', -⟩ := hk.isChain'.of_mem hk.coherent' (List.mem_map_of_mem ha)
  rw [own?_of_generation hg, own?_of_generation hg']
  exact (hk.kin a ha hg hg' family).shown_eq key

theorem identity?_eq (hk : Kindred late σ chain s s') {a : Handle} (ha : a ∈ chain)
    (key : family.Key) : s'.identity? (⟨σ a, key⟩ : TemplateRef family) =
      s.identity? (⟨a, key⟩ : TemplateRef family) := by
  have hshown : ∀ (s : Session) (a : Handle), s.identity? (⟨a, key⟩ : TemplateRef family) =
      (((s.own? family a key).filter (·.isNamed)).map (·.blur (late family key))).bind
        (·.identity) := by
    intro s a
    rw [identity?, template?]
    rcases s.own? family a key with _ | t
    · rfl
    · rcases hnamed : t.isNamed
      · rw [Option.filter_some_neg (by rw [hnamed])]
        exact Option.not_isSome_iff_eq_none.1 (Bool.eq_false_iff.1 hnamed)
      · rw [Option.filter_some_pos hnamed, Option.map_some, Option.bind_some, Option.bind_some,
          Template.identity_blur]
  rw [hshown, hshown, hk.shown_eq ha]

/-- **The same is inherited** along two chains that are kindred, up to the handles: the nearest
generation that has named the key has it named in both. -/
theorem inherited_eq (hk : Kindred late σ chain s s') (key : family.Key) :
    s'.inherited family key (chain.map σ) = (s.inherited family key chain).map (·.rename σ) := by
  rw [hk.isChain'.inherited_eq hk.coherent', hk.isChain.inherited_eq hk.coherent, List.find?_map,
    Option.map_map, Option.map_map]
  refine congrArg (Option.map _) (List.find?_congr fun a ha => ?_)
  simp only [Function.comp_apply, hk.identity?_eq ha]

/-- What is inherited looks the same but for its location, if that may have been moved by a late
request. -/
theorem template?_eq (hk : Kindred late σ chain s s') {key : family.Key}
    {r : TemplateRef family} (hr : s.inherited family key chain = some r) :
    (s'.template? (r.rename σ)).map (·.blur (late family r.key)) =
      (s.template? r).map (·.blur (late family r.key)) := by
  have hr' : s'.inherited family key (chain.map σ) = some (r.rename σ) := by
    rw [hk.inherited_eq, hr]
    rfl
  obtain ⟨hmem, rfl, t, ht, hnamed⟩ := exists_of_inherited hr
  obtain ⟨-, -, t', ht', hnamed'⟩ := exists_of_inherited hr'
  have hshown := hk.shown_eq hmem r.key
  rw [show s.own? family r.home r.key = some t from ht,
    show s'.own? family (σ r.home) r.key = some t' from ht',
    Option.filter_some_pos hnamed, Option.filter_some_pos hnamed'] at hshown
  rw [ht, ht']
  exact hshown

end Kindred

end Session

end AnonymousTypes
