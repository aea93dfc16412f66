import AnonymousTypes.Proofs.Asking
import AnonymousTypes.Proofs.Finishing

/-!
# What every step keeps

A step starts a generation, has one cache of a generation serve some requests, or
finalizes a generation (`Session.Change`, `Step.change`). What the last two do to the
generation is weakened to `Generation.Later`, which is all that the rest relies on.

In every reachable session the generations fit together (`Session.Coherent`): they
continue finalized ones, and no generation holds a template for a key that it inherits
(`Fits.clear`). The point is that what a generation inherits is settled when it is started:
the generations that it continues may still get new templates, but only unnamed ones, and
only for keys that were not offered anyway (`Coherent.inherited_put`).
-/

namespace AnonymousTypes

variable {family : Family}

namespace Generation

/-- Finalization is begun between `g` and `g'`. -/
def Begins (g g' : Generation) : Prop := g.isFinalizing = false ∧ g'.isFinalizing = true

/-- `g'` is what a step makes of `g`; new templates are for keys that are `free`, and
identities are only given when finalization is begun. -/
structure Later (free : (family : Family) → family.Key → Prop) (g g' : Generation) : Prop where
  config_eq : g'.config = g.config
  ancestors_eq : g'.ancestors = g.ancestors
  stage : g'.isFinalizing = g.isFinalizing ∧ g'.finalized = g.finalized ∨ g.Begins g'
  home_eq : ∀ family, (g'.cache family).home = (g.cache family).home
  owner_eq : ∀ family, (g'.cache family).owner = (g.cache family).owner
  seals_eq : ∀ family, (g'.cache family).seals = (g.cache family).seals
  isSealed_eq : ∀ family, (g'.cache family).isSealed =
    ((g.cache family).isSealed || g'.finalized.isSome && (g.cache family).seals)
  held : ∀ {family key t}, (g.cache family).find? key = some t →
    ∃ t', (g'.cache family).find? key = some t' ∧ t'.key = t.key ∧ t'.owner = t.owner ∧
      (t'.identity = t.identity ∨ t.identity = none ∧ g.Begins g')
  made : ∀ {family key t}, (g.cache family).find? key = none →
    (g'.cache family).find? key = some t →
      free family key ∧ t.key = key ∧ t.owner = (g.cache family).owner ∧
        (t.identity = none ∨ g.Begins g')

variable {free : (family : Family) → family.Key → Prop} {g g' : Generation}

/-- **Requests** to one cache. Templates are added for keys that nobody offers, and those that
are there get other locations at most. -/
theorem later_of_serves
    (hsealed : ∀ family, (g.cache family).isSealed =
      ((g.cache family).isSealed || g.finalized.isSome && (g.cache family).seals))
    {offer : family.Key → Option (TemplateRef family)}
    (hfree : ∀ key, offer key = none → free family key)
    {granted : Request family → Prop} {c : Cache family}
    (hserves : (g.cache family).Serves offer granted c) : g.Later free (g.withCache family c) := by
  have hframe := hserves.absorbs.frame_eq
  -- the other family keeps its cache
  have hcases : ∀ {motive : Family → Prop}, motive family → (∀ other, other ≠ family →
      motive other) → ∀ other, motive other := by
    intro motive hself hne other
    by_cases h : other = family
    · exact h ▸ hself
    · exact hne other h
  have hsame := frame_withCache g family c
  have hfinalized := finalized_of_frame hsame
  refine ⟨config_of_frame hsame, ancestors_of_frame hsame,
    .inl ⟨isFinalizing_of_frame hsame, hfinalized⟩, hcases ?_ ?_, hcases ?_ ?_, hcases ?_ ?_,
    hcases ?_ ?_, ?_, ?_⟩
  · rw [cache_withCache_self, Cache.home_of_frame hframe]
  · intro other hne
    rw [cache_withCache_ne _ _ hne]
  · rw [cache_withCache_self, Cache.owner_of_frame hframe]
  · intro other hne
    rw [cache_withCache_ne _ _ hne]
  · rw [cache_withCache_self, Cache.seals_of_frame hframe]
  · intro other hne
    rw [cache_withCache_ne _ _ hne]
  · rw [cache_withCache_self, Cache.isSealed_of_frame hframe, hfinalized]
    exact hsealed family
  · intro other hne
    rw [cache_withCache_ne _ _ hne, hfinalized]
    exact hsealed other
  · intro other key t ht
    by_cases h : other = family
    · subst h
      obtain ⟨e, -, hfind⟩ := hserves.absorbs.held ht
      rw [cache_withCache_self]
      exact ⟨_, hfind, rfl, rfl, .inl rfl⟩
    · rw [cache_withCache_ne _ _ h]
      exact ⟨t, ht, rfl, rfl, .inl rfl⟩
  · intro other key t hnone ht
    by_cases h : other = family
    · subst h
      rw [cache_withCache_self] at ht
      rcases hserves.absorbs.eq_none_or_bound (Option.isSome_of_eq_some ht) with hsome | ⟨-, hr⟩
      · rw [hnone] at hsome
        cases hsome
      · obtain ⟨e, -, hfind⟩ := hserves.absorbs.made hnone hr
        obtain rfl := Option.some.inj (ht.symm.trans hfind)
        obtain ⟨r, ⟨-, hoffer⟩, rfl⟩ := hr
        exact ⟨hfree _ hoffer, rfl, rfl, .inl rfl⟩
    · rw [cache_withCache_ne _ _ h, hnone] at ht
      cases ht

/-- **Finalization**, whether it succeeds or not. This is the only change that gives names. -/
theorem later_of_finishes {h : Handle} (hready : g.Ready h) (hfinishes : g.Finishes free g') :
    g.Later free g' := by
  have hbegins : g.Begins g' := ⟨hready.isFinalizing, hfinishes.isFinalizing⟩
  refine ⟨hfinishes.config_eq, hfinishes.ancestors_eq, .inr hbegins, ?_, ?_, ?_, ?_, ?_, ?_⟩
  · intro family
    obtain ⟨c, hnames, hcache⟩ := hfinishes.cache_eq family
    rw [hcache, Cache.home_closeIf, Cache.home_of_frame hnames.frame_eq]
  · intro family
    obtain ⟨c, hnames, hcache⟩ := hfinishes.cache_eq family
    rw [hcache, Cache.owner_closeIf, Cache.owner_of_frame hnames.frame_eq]
  · intro family
    obtain ⟨c, hnames, hcache⟩ := hfinishes.cache_eq family
    rw [hcache, Cache.seals_closeIf, Cache.seals_of_frame hnames.frame_eq]
  · intro family
    obtain ⟨c, hnames, hcache⟩ := hfinishes.cache_eq family
    rw [hcache, Cache.isSealed_closeIf, Cache.isSealed_of_frame hnames.frame_eq,
      Cache.seals_of_frame hnames.frame_eq]
  · intro family key t ht
    obtain ⟨c, hnames, hcache⟩ := hfinishes.cache_eq family
    obtain ⟨identity, hfind⟩ := hnames.held ht
    rw [hcache, Cache.find?_closeIf]
    exact ⟨_, hfind, rfl, rfl, .inr ⟨hready.unnamed family key t ht, hbegins⟩⟩
  · intro family key t hnone ht
    obtain ⟨c, hnames, hcache⟩ := hfinishes.cache_eq family
    rw [hcache, Cache.find?_closeIf] at ht
    obtain ⟨hfree, identity, rfl⟩ := hnames.made hnone ht
    exact ⟨hfree, rfl, rfl, .inr hbegins⟩

end Generation

namespace Session

/-! ## Coherent sessions -/

/-- A generation fits into its session. -/
structure Fits (s : Session) (h : Handle) (g : Generation) : Prop where
  /-- it continues nothing, or else a finalized generation with all that one continues -/
  chain : g.ancestors = [] ∨ ∃ p parent, s.generation? p = some parent ∧ p < h ∧
    parent.finalized.isSome ∧ g.ancestors = p :: parent.ancestors
  finalizing : g.finalized.isSome → g.isFinalizing = true
  home : ∀ family, (g.cache family).home = h
  owner : ∀ family, (g.cache family).owner = g.id
  seals : ∀ family, (g.cache family).seals = g.config.seals
  isSealed : ∀ family, (g.cache family).isSealed = (g.finalized.isSome && g.config.seals)
  key : ∀ {family key t}, (g.cache family).find? key = some t → t.key = key ∧ t.owner = g.id
  named : ∀ {family key t}, (g.cache family).find? key = some t → t.identity.isSome →
    g.isFinalizing = true
  /-- it holds no template for a key that it inherits -/
  clear : ∀ {family key t}, (g.cache family).find? key = some t →
    s.inherited family key g.ancestors = none

/-- The generations of a session fit together. -/
def Coherent (s : Session) : Prop := ∀ ⦃h g⦄, s.generation? h = some g → s.Fits h g

variable {s s' : Session} {h : Handle} {g g' : Generation}

/-- The seal was set when the generation was finalized, if its configuration seals, and
finalization would set it no differently again. -/
theorem Fits.sealed_eq (hfits : s.Fits h g) (family : Family) : (g.cache family).isSealed =
    ((g.cache family).isSealed || g.finalized.isSome && (g.cache family).seals) := by
  rw [hfits.isSealed, hfits.seals, Bool.or_self]

namespace Coherent

/-- Induction along the generations that one generation continues. Each of them was started
before the next one, so the handles get smaller. -/
theorem induction (hs : s.Coherent) {motive : Handle → Generation → Prop}
    (root : ∀ h g, s.generation? h = some g → g.ancestors = [] → motive h g)
    (continued : ∀ h g p parent, s.generation? h = some g → s.generation? p = some parent →
      parent.finalized.isSome → p < h → g.ancestors = p :: parent.ancestors →
        motive p parent → motive h g)
    (hg : s.generation? h = some g) : motive h g := by
  induction h using Nat.strongRecOn generalizing g with
  | ind h ih =>
    rcases (hs hg).chain with hroot | ⟨p, parent, hp, hlt, hfinal, hancestors⟩
    · exact root h g hg hroot
    · exact continued h g p parent hg hp hfinal hlt hancestors (ih p hlt hp)

/-- A generation has no template that it inherits. -/
theorem clear (hs : s.Coherent) (hg : s.generation? h = some g) (family : Family)
    (key : family.Key) (t : Template family) (ht : (g.cache family).find? key = some t) :
    s.inheritedIdentity family g.ancestors key = none :=
  inheritedIdentity_eq_none_iff.2 ((hs hg).clear ht)

/-- The rest of the chain behind an ancestor is what the ancestor itself continues. -/
theorem ancestor (hs : s.Coherent) (hg : s.generation? h = some g) {a : Handle}
    {pre post : List Handle} (hsplit : g.ancestors = pre ++ a :: post) :
    ∃ ga, s.generation? a = some ga ∧ a < h ∧ ga.finalized.isSome ∧ ga.ancestors = post := by
  induction pre generalizing h g with
  | nil =>
    rcases (hs hg).chain with hroot | ⟨p, parent, hp, hlt, hfinal, hancestors⟩
    · rw [hroot] at hsplit
      cases hsplit
    · rw [hancestors, List.nil_append] at hsplit
      obtain ⟨rfl, rfl⟩ := List.cons.inj hsplit
      exact ⟨parent, hp, hlt, hfinal, rfl⟩
  | cons b pre ih =>
    rcases (hs hg).chain with hroot | ⟨p, parent, hp, hlt, hfinal, hancestors⟩
    · rw [hroot] at hsplit
      cases hsplit
    · rw [hancestors, List.cons_append] at hsplit
      obtain ⟨ga, hga, hlta, hrest⟩ := ih hp (List.cons.inj hsplit).2
      exact ⟨ga, hga, Nat.lt_trans hlta hlt, hrest⟩

/-- Every generation that is continued exists, was started earlier, and is finalized. -/
theorem of_mem (hs : s.Coherent) (hg : s.generation? h = some g) {a : Handle}
    (ha : a ∈ g.ancestors) : ∃ ga, s.generation? a = some ga ∧ a < h ∧ ga.finalized.isSome := by
  obtain ⟨pre, post, hsplit⟩ := List.append_of_mem ha
  obtain ⟨ga, hga, hlt, hfinal, -⟩ := hs.ancestor hg hsplit
  exact ⟨ga, hga, hlt, hfinal⟩

/-- No generation continues itself. -/
theorem not_mem (hs : s.Coherent) (hg : s.generation? h = some g) : h ∉ g.ancestors := by
  intro hmem
  obtain ⟨ga, -, hlt, -⟩ := hs.of_mem hg hmem
  exact Nat.lt_irrefl h hlt

/-- A generation that is not finalized is not continued. -/
theorem not_mem_of_unfinalized (hs : s.Coherent) (hg : s.generation? h = some g)
    (hopen : g.finalized = none) {x : Handle} {gx : Generation}
    (hx : s.generation? x = some gx) : h ∉ gx.ancestors := by
  intro hmem
  obtain ⟨ga, hga, -, hfinal⟩ := hs.of_mem hx hmem
  obtain rfl := Option.some.inj (hg.symm.trans hga)
  rw [hopen] at hfinal
  cases hfinal

/-- Finalization can be started in a generation in which it has not been started. What
`Generation.Ready` asks for need not be assumed anywhere from here on. -/
theorem ready (hs : s.Coherent) (hg : s.generation? h = some g)
    (hopen : g.isFinalizing = false) : g.Ready h := by
  have hfits := hs hg
  have hfinalized : g.finalized = none := by
    rcases hf : g.finalized with _ | numbering
    · rfl
    · have hbegun := hfits.finalizing (Option.isSome_of_eq_some hf)
      rw [hopen] at hbegun
      cases hbegun
  refine ⟨hopen, hfinalized, hfits.home .shape, hs.not_mem hg, ?_, ?_, ?_⟩
  · have hsealed := hfits.isSealed .shape
    rwa [hfinalized] at hsealed
  · exact fun family key t ht => (hfits.key ht).1
  · intro family key t ht
    rcases hidentity : t.identity with _ | identity
    · rfl
    · have hbegun := hfits.named ht (Option.isSome_of_eq_some hidentity)
      rw [hopen] at hbegun
      cases hbegun

theorem keyed (hs : s.Coherent) (hg : s.generation? h = some g) (family : Family) :
    (g.cache family).Keyed := fun _ _ ht => ((hs hg).key ht).1

/-! ## A generation changes -/

/-- The free keys of a generation are those that it does not inherit. -/
abbrev Free (s : Session) (g : Generation) : (family : Family) → family.Key → Prop :=
  fun family key => s.inherited family key g.ancestors = none

/-- **What is inherited does not change** when some generation does. -/
theorem inherited_put (hs : s.Coherent) (hg : s.generation? h = some g)
    (hlater : g.Later (Free s g) g') {x : Handle} {gx : Generation}
    (hx : s.generation? x = some gx) (family : Family) (key : family.Key) :
    (s.put h g').inherited family key gx.ancestors = s.inherited family key gx.ancestors := by
  refine hs.induction (motive := fun x gx => (s.put h g').inherited family key gx.ancestors =
    s.inherited family key gx.ancestors) ?_ ?_ hx
  · intro x gx _ hroot
    rw [hroot, inherited, inherited]
  · intro x gx p parent _ hp hfinal _ hancestors ih
    rw [hancestors, inherited, inherited]
    by_cases hph : p = h
    · subst hph
      obtain rfl := Option.some.inj (hg.symm.trans hp)
      have hbegins : ¬ g.Begins g' := fun hb => by
        have hbegun := (hs hg).finalizing hfinal
        rw [hb.1] at hbegun
        cases hbegun
      rw [own?_put_self (Option.isSome_of_eq_some hg), own?_of_generation hg]
      rcases hkey : (g.cache family).find? key with _ | t
      · rcases hkey' : (g'.cache family).find? key with _ | t'
        · exact ih
        · -- a template that comes this late is unnamed, so it offers nothing
          obtain ⟨hfree, -, -, hidentity⟩ := hlater.made hkey hkey'
          have hunnamed : t'.isNamed = false := by
            rw [Template.isNamed, hidentity.resolve_right hbegins]
            rfl
          simp only [hunnamed, Bool.false_eq_true, if_false]
          exact hfree.symm
      · obtain ⟨t', hkey', -, -, hidentity⟩ := hlater.held hkey
        have hsame : t'.isNamed = t.isNamed := by
          rw [Template.isNamed, Template.isNamed, hidentity.resolve_right fun hb => hbegins hb.2]
        simp only [hkey', hsame]
    · rw [own?_put_ne _ _ hph, ih]

/-- The changed generation still fits. -/
theorem fits_later (hs : s.Coherent) (hg : s.generation? h = some g)
    (hlater : g.Later (Free s g) g') : (s.put h g').Fits h g' := by
  have hfits := hs hg
  have hid : g'.id = g.id := by rw [Generation.id, Generation.id, hlater.ancestors_eq]
  have hinherited : ∀ family key, (s.put h g').inherited family key g'.ancestors =
      s.inherited family key g.ancestors := fun family key => by
    rw [hlater.ancestors_eq, hs.inherited_put hg hlater hg]
  refine ⟨?_, ?_, ?_, ?_, ?_, ?_, ?_, ?_, ?_⟩
  · rcases hfits.chain with hroot | ⟨p, parent, hp, hlt, hfinal, hancestors⟩
    · exact .inl (hlater.ancestors_eq.trans hroot)
    · -- the parent stands before the generation, so it is not the one that changes
      refine .inr ⟨p, parent, ?_, hlt, hfinal, hlater.ancestors_eq.trans hancestors⟩
      rw [generation?_put_ne _ _ (Nat.ne_of_lt hlt), hp]
  · rcases hlater.stage with ⟨hbegun, hfinal⟩ | ⟨-, hbegun⟩
    · rw [hbegun, hfinal]
      exact hfits.finalizing
    · exact fun _ => hbegun
  · exact fun family => (hlater.home_eq family).trans (hfits.home family)
  · exact fun family => (hlater.owner_eq family).trans ((hfits.owner family).trans hid.symm)
  · intro family
    rw [hlater.seals_eq, hlater.config_eq, hfits.seals]
  · intro family
    rw [hlater.isSealed_eq, hlater.config_eq, hfits.seals, hfits.isSealed]
    rcases hlater.stage with ⟨-, hfinal⟩ | ⟨hopen, -⟩
    · rw [hfinal, Bool.or_self]
    · rw [(hs.ready hg hopen).finalized]
      rfl
  · intro family key t ht
    rcases hkey : (g.cache family).find? key with _ | t₀
    · obtain ⟨-, hk, howner, -⟩ := hlater.made hkey ht
      exact ⟨hk, howner.trans ((hfits.owner family).trans hid.symm)⟩
    · obtain ⟨t', ht', hk, howner, -⟩ := hlater.held hkey
      obtain rfl := Option.some.inj (ht.symm.trans ht')
      obtain ⟨hk₀, howner₀⟩ := hfits.key hkey
      exact ⟨hk.trans hk₀, howner.trans (howner₀.trans hid.symm)⟩
  · intro family key t ht hnamed
    have hbegun : g.isFinalizing = true → g'.isFinalizing = true := by
      rcases hlater.stage with ⟨hsame, -⟩ | ⟨-, hbegun⟩
      · exact hsame.trans
      · exact fun _ => hbegun
    rcases hkey : (g.cache family).find? key with _ | t₀
    · obtain ⟨-, -, -, hnone | hbegins⟩ := hlater.made hkey ht
      · rw [hnone] at hnamed
        cases hnamed
      · exact hbegins.2
    · obtain ⟨t', ht', -, -, hsame | ⟨-, hbegins⟩⟩ := hlater.held hkey
      · obtain rfl := Option.some.inj (ht.symm.trans ht')
        rw [hsame] at hnamed
        exact hbegun (hfits.named hkey hnamed)
      · exact hbegins.2
  · intro family key t ht
    rw [hinherited]
    rcases hkey : (g.cache family).find? key with _ | t₀
    · exact (hlater.made hkey ht).1
    · exact hfits.clear hkey

/-- The other generations still fit. -/
theorem fits_put_ne (hs : s.Coherent) (hg : s.generation? h = some g)
    (hlater : g.Later (Free s g) g') {x : Handle} {gx : Generation}
    (hx : s.generation? x = some gx) : (s.put h g').Fits x gx := by
  have hfits := hs hx
  refine ⟨?_, hfits.finalizing, hfits.home, hfits.owner, hfits.seals, hfits.isSealed, hfits.key,
    hfits.named, fun ht => (hs.inherited_put hg hlater hx _ _).trans (hfits.clear ht)⟩
  rcases hfits.chain with hroot | ⟨p, parent, hp, hlt, hfinal, hancestors⟩
  · exact .inl hroot
  · by_cases hph : p = h
    · subst hph
      obtain rfl := Option.some.inj (hg.symm.trans hp)
      refine .inr ⟨p, g', generation?_put_self (Option.isSome_of_eq_some hg) g', hlt, ?_, ?_⟩
      · rcases hlater.stage with ⟨-, hsame⟩ | ⟨hopen, -⟩
        · rwa [hsame]
        · rw [(hs.ready hg hopen).finalized] at hfinal
          cases hfinal
      · rw [hlater.ancestors_eq, hancestors]
    · exact .inr ⟨p, parent, (generation?_put_ne _ _ hph).trans hp, hlt, hfinal, hancestors⟩

/-- **Changing one generation** keeps the session coherent, if the change is one that time can
bring (`Generation.Later`). The others are affected only in what they inherit, and that stays
(`inherited_put`). -/
theorem put (hs : s.Coherent) (hg : s.generation? h = some g)
    (hlater : g.Later (Free s g) g') : (s.put h g').Coherent := by
  intro x gx hx
  by_cases hxh : x = h
  · subst hxh
    rw [generation?_put_self (Option.isSome_of_eq_some hg)] at hx
    obtain rfl := Option.some.inj hx
    exact hs.fits_later hg hlater
  · rw [generation?_put_ne _ _ hxh] at hx
    exact hs.fits_put_ne hg hlater hx

/-- **Finalization** names the templates of a generation and adds those that it adopts. -/
theorem finishes_of_ready (hready : g.Ready h) (given : Numbering)
    (previous : Option IdentityMap) : g.Finishes (Free s g) (s.finish g given previous).2 :=
  Generation.finishes_finish hready (fun _ => inheritedIdentity_eq_none_iff.1) ..

/-- So it makes something later of the generation. -/
theorem later_finish (hready : g.Ready h) (given : Numbering) (previous : Option IdentityMap) :
    g.Later (Free s g) (s.finish g given previous).2 :=
  Generation.later_of_finishes hready (finishes_of_ready hready given previous)

/-- In particular finalization does, also if it fails. -/
theorem put_finish (hs : s.Coherent) (hg : s.generation? h = some g) (hready : g.Ready h)
    (given : Numbering) (previous : Option IdentityMap) :
    (s.put h (s.finish g given previous).2).Coherent :=
  hs.put hg (later_finish hready given previous)

/-! ## A generation is started -/

theorem generation?_push (s : Session) (new : Generation) {x : Handle} {gx : Generation}
    (hx : s.generation? x = some gx) : (s.push new).generation? x = some gx :=
  (generation?_push_of_lt s new (lt_length hx)).trans hx

/-- A new generation does not change what the others inherit. -/
theorem inherited_push (hs : s.Coherent) (new : Generation) (hg : s.generation? h = some g)
    (family : Family) (key : family.Key) :
    (s.push new).inherited family key g.ancestors = s.inherited family key g.ancestors := by
  refine inherited_congr fun a ha => ?_
  obtain ⟨ga, hga, -⟩ := hs.of_mem hg ha
  rw [own?_of_generation hga, own?_of_generation (generation?_push s new hga)]

/-- **Starting a generation** keeps the session coherent. The new one has empty caches, so there
is nothing in it that could clash with what it inherits. -/
theorem push (hs : s.Coherent) (config : OutputConfig) {ancestors : List Handle}
    (hchain : ancestors = [] ∨ ∃ p parent, s.generation? p = some parent ∧
      parent.finalized.isSome ∧ ancestors = p :: parent.ancestors) :
    (s.push (.new s.generations.length config ancestors)).Coherent := by
  intro x gx hx
  by_cases hlast : x = s.generations.length
  · subst hlast
    -- the new generation itself
    rw [generation?_push_last] at hx
    obtain rfl := Option.some.inj hx
    have hempty : ∀ family key,
        ((Generation.new s.generations.length config ancestors).cache family).find? key = none := by
      intro family key
      cases family <;> rfl
    refine ⟨?_, by rintro ⟨⟩, by rintro ⟨⟩ <;> rfl, by rintro ⟨⟩ <;> rfl, by rintro ⟨⟩ <;> rfl,
      by rintro ⟨⟩ <;> rfl, ?_, ?_, ?_⟩
    · refine hchain.imp_right ?_
      rintro ⟨p, parent, hp, hfinal, hancestors⟩
      exact ⟨p, parent, generation?_push _ _ hp, lt_length hp, hfinal, hancestors⟩
    · intro family key t ht
      rw [hempty] at ht
      cases ht
    · intro family key t ht
      rw [hempty] at ht
      cases ht
    · intro family key t ht
      rw [hempty] at ht
      cases ht
  · -- one that was there before
    have hlt : x < s.generations.length := by
      have hlength := lt_length hx
      rw [Session.push, List.length_append, List.length_singleton] at hlength
      exact Nat.lt_of_le_of_ne (Nat.le_of_lt_succ hlength) hlast
    rw [generation?_push_of_lt _ _ hlt] at hx
    have hfits := hs hx
    refine ⟨hfits.chain.imp_right ?_, hfits.finalizing, hfits.home, hfits.owner, hfits.seals,
      hfits.isSealed, hfits.key, hfits.named,
      fun ht => (hs.inherited_push _ hx _ _).trans (hfits.clear ht)⟩
    rintro ⟨p, parent, hp, hrest⟩
    exact ⟨p, parent, generation?_push _ _ hp, hrest⟩

end Coherent

/-! ## Steps -/

/-- What a step that is addressed to some generation does to a session. -/
inductive Change (s : Session) (home? : Option Handle) : Session → Prop where
  /-- nothing -/
  | nothing : Change s home? s
  /-- a generation is started -/
  | started (config : OutputConfig) (ancestors : List Handle)
      (hchain : ancestors = [] ∨ ∃ p parent, s.generation? p = some parent ∧
        parent.finalized.isSome ∧ ancestors = p :: parent.ancestors) :
      Change s home? (s.push (.new s.generations.length config ancestors))
  /-- the generation changes -/
  | changed {h : Handle} {g g' : Generation} (hhome : home? = some h)
      (hg : s.generation? h = some g) (hlater : g.Later (Coherent.Free s g) g') :
      Change s home? (s.put h g')

end Session

open Session

/-- **A step** starts a generation, or changes the one that it is addressed to, or does
nothing. -/
theorem Step.change {s : Session} (hs : s.Coherent) {α : Type} (x : Step α) :
    s.Change x.home? (x.run s).2 := by
  -- all steps that ask for templates change one cache, and the same way
  rcases hasks : x.asks? with _ | a
  · cases x with
    | root config => exact .started config [] (.inl rfl)
    | derive h config =>
      rw [Step.run]
      rcases hg : s.generation? h with _ | g
      · rw [Run.continueFrom_missing hg]
        exact .nothing
      · rcases hfinal : g.finalized with _ | numbering
        · rw [Run.continueFrom_unfinalized hg hfinal]
          exact .nothing
        · rw [Run.continueFrom_finalized hg hfinal]
          exact .started config (h :: g.ancestors)
            (.inr ⟨h, g, hg, Option.isSome_of_eq_some hfinal, rfl⟩)
    | finalize h given previous =>
      rw [Step.run]
      rcases hg : s.generation? h with _ | g
      · rw [Run.finalize_missing hg]
        exact .nothing
      · rcases hopen : g.isFinalizing
        · have hready := hs.ready hg hopen
          rw [Run.finalize_eq hg hready]
          exact .changed rfl hg (Coherent.later_finish hready given previous)
        · rw [Run.finalize_again hg hopen]
          exact .nothing
    | request | requestAll | construct => cases hasks
    | requestSignature h params returnsVoid location =>
      rcases hpredefined : (DelegateKey.ofParameters params returnsVoid).isPredefined
      · simp only [asks?, hpredefined, Bool.false_eq_true, if_false] at hasks
        cases hasks
      · rw [Step.run, Run.requestSignature_predefined hpredefined]
        exact .nothing
    | constructFields h symbols list =>
      rcases hkey : list.shapeKey symbols with fault | key
      · rcases hg : s.generation? h with _ | g
        · rw [Step.run, Run.constructFields_missing hg]
          exact .nothing
        · rw [Step.run, Run.constructFields_fault hg hkey]
          exact .nothing
      · simp only [asks?, hkey] at hasks
        cases hasks
  · rcases hg : s.generation? a.home with _ | g
    · rw [run_of_asks_missing hasks hg]
      exact .nothing
    · obtain ⟨c, hrun, hserves⟩ := run_of_asks hasks hg
      rw [hrun]
      exact .changed (home?_of_asks hasks) hg
        (Generation.later_of_serves (fun family => (hs hg).sealed_eq family) (fun _ => id) hserves)

namespace Session

variable {s s' : Session} {home? : Option Handle}

/-- Whatever a step changes, the generations still fit together. -/
theorem Change.coherent (hchange : s.Change home? s') (hs : s.Coherent) : s'.Coherent := by
  cases hchange with
  | nothing => exact hs
  | started config ancestors hchain => exact hs.push config hchain
  | changed _ hg hlater => exact hs.put hg hlater

theorem LeadsTo.coherent (hleads : s.LeadsTo s') (hs : s.Coherent) : s'.Coherent := by
  induction hleads with
  | refl => exact hs
  | step _ x ih => exact (x.change ih).coherent ih

theorem coherent_empty : Session.empty.Coherent := fun _ _ hg => by cases hg

/-- **In every reachable session** the generations fit together. -/
theorem Reachable.coherent (hs : s.Reachable) : s.Coherent := LeadsTo.coherent hs coherent_empty

theorem LeadsTo.trans {s'' : Session} (h : s.LeadsTo s') (h' : s'.LeadsTo s'') :
    s.LeadsTo s'' := by
  induction h' with
  | refl => exact h
  | step _ x ih => exact .step ih x

theorem Reachable.of_leadsTo (hs : s.Reachable) (hleads : s.LeadsTo s') : s'.Reachable :=
  LeadsTo.trans hs hleads

/-- The session after some steps, whatever they answer. -/
def after (s : Session) : List (Σ α, Step α) → Session
  | [] => s
  | x :: xs => (x.2.run s).2.after xs

theorem leadsTo_after (s : Session) (xs : List (Σ α, Step α)) : s.LeadsTo (s.after xs) := by
  induction xs generalizing s with
  | nil => exact .refl
  | cons x xs ih => exact LeadsTo.trans (.step .refl x.2) (ih _)

/-! ## What later sessions keep -/

/-- `s'` is a later session than `s`. -/
structure Follows (s s' : Session) : Prop where
  /-- generations stay; once finalization is begun, so does its result -/
  generation : ∀ {h g}, s.generation? h = some g →
    ∃ g', s'.generation? h = some g' ∧ g'.config = g.config ∧ g'.ancestors = g.ancestors ∧
      (g.isFinalizing = true → g'.isFinalizing = true ∧ g'.finalized = g.finalized)
  /-- templates stay -/
  held : ∀ {family h key}, (s.own? family h key).isSome → (s'.own? family h key).isSome
  /-- identities do not change -/
  named : ∀ {family} {r : TemplateRef family} {identity},
    s.identity? r = some identity → s'.identity? r = some identity
  /-- no identity is given any more once finalization is begun -/
  settled : ∀ {family h g} {key : family.Key}, s.generation? h = some g →
    g.isFinalizing = true → s'.identity? (⟨h, key⟩ : TemplateRef family) = s.identity? ⟨h, key⟩
  /-- nobody ever inherits anything else -/
  inherited : ∀ {h g}, s.generation? h = some g → ∀ family (key : family.Key),
    s'.inherited family key g.ancestors = s.inherited family key g.ancestors

namespace Follows

theorem refl (s : Session) : s.Follows s where
  generation {_ g} hg := ⟨g, hg, rfl, rfl, fun hbegun => ⟨hbegun, rfl⟩⟩
  held := id
  named := id
  settled _ _ := rfl
  inherited _ _ _ := rfl

/-- Later than later is later. Only `settled` and `inherited` need a thought: what they say of
the session in between is carried over by the other fields. -/
theorem trans {s'' : Session} (h : s.Follows s') (h' : s'.Follows s'') : s.Follows s'' where
  generation hg := by
    obtain ⟨g', hg', hconfig, hancestors, hbegun⟩ := h.generation hg
    obtain ⟨g'', hg'', hconfig', hancestors', hbegun'⟩ := h'.generation hg'
    refine ⟨g'', hg'', hconfig'.trans hconfig, hancestors'.trans hancestors, fun hb => ?_⟩
    obtain ⟨hb', hfinal⟩ := hbegun hb
    obtain ⟨hb'', hfinal'⟩ := hbegun' hb'
    exact ⟨hb'', hfinal'.trans hfinal⟩
  held hsome := h'.held (h.held hsome)
  named hsome := h'.named (h.named hsome)
  settled hg hbegun := by
    obtain ⟨g', hg', -, -, hbegun'⟩ := h.generation hg
    exact (h'.settled hg' (hbegun' hbegun).1).trans (h.settled hg hbegun)
  inherited hg family key := by
    obtain ⟨g', hg', -, hancestors, -⟩ := h.generation hg
    rw [← h.inherited hg, ← hancestors]
    exact h'.inherited hg' family key

end Follows

/-- A new generation disturbs nobody. -/
theorem follows_push (hs : s.Coherent) (new : Generation) : s.Follows (s.push new) := by
  have hown : ∀ {family h} {key : family.Key}, (s.own? family h key).isSome →
      (s.push new).own? family h key = s.own? family h key := by
    intro family h key hsome
    rcases hg : s.generation? h with _ | g
    · rw [own?, hg] at hsome
      cases hsome
    · rw [own?_of_generation hg, own?_of_generation (Coherent.generation?_push s new hg)]
  refine ⟨?_, ?_, ?_, ?_, fun hg => hs.inherited_push new hg⟩
  · intro h g hg
    exact ⟨g, Coherent.generation?_push s new hg, rfl, rfl, fun hbegun => ⟨hbegun, rfl⟩⟩
  · intro family h key hsome
    rw [hown hsome]
    exact hsome
  · intro family r identity hr
    obtain ⟨t, ht, hidentity⟩ := Option.bind_eq_some_iff.1 hr
    rw [identity?, template?, hown (Option.isSome_of_eq_some ht)]
    exact hr
  · intro family h g key hg _
    rw [identity?_of_generation hg, identity?_of_generation (Coherent.generation?_push s new hg)]

/-- A change to one generation disturbs nobody either. For the generation itself the fields are
read off from `Generation.Later`, for all others from what does not change when it is put. -/
theorem follows_put (hs : s.Coherent) {h : Handle} {g g' : Generation}
    (hg : s.generation? h = some g) (hlater : g.Later (Coherent.Free s g) g') :
    s.Follows (s.put h g') := by
  have hself := generation?_put_self (Option.isSome_of_eq_some hg) g'
  refine ⟨?_, ?_, ?_, ?_, fun hx => hs.inherited_put hg hlater hx⟩
  · intro x gx hx
    by_cases hxh : x = h
    · subst hxh
      obtain rfl := Option.some.inj (hg.symm.trans hx)
      refine ⟨g', hself, hlater.config_eq, hlater.ancestors_eq, fun hbegun => ?_⟩
      rcases hlater.stage with ⟨hsame, hfinal⟩ | ⟨hopen, -⟩
      · exact ⟨hsame.trans hbegun, hfinal⟩
      · rw [hopen] at hbegun
        cases hbegun
    · exact ⟨gx, (generation?_put_ne _ _ hxh).trans hx, rfl, rfl, fun hbegun => ⟨hbegun, rfl⟩⟩
  · intro family x key hsome
    by_cases hxh : x = h
    · subst hxh
      rw [own?_of_generation hg] at hsome
      obtain ⟨t, ht⟩ := Option.isSome_iff_exists.1 hsome
      obtain ⟨t', ht', -⟩ := hlater.held ht
      rw [own?_of_generation hself, ht']
      rfl
    · rw [own?_put_ne _ _ hxh]
      exact hsome
  · rintro family ⟨x, key⟩ identity hr
    by_cases hxh : x = h
    · subst hxh
      rw [identity?_of_generation hg] at hr
      obtain ⟨t, ht, hidentity⟩ := Option.bind_eq_some_iff.1 hr
      obtain ⟨t', ht', -, -, hsame | ⟨hnone, -⟩⟩ := hlater.held ht
      · rw [identity?_of_generation hself, ht']
        exact hsame.trans hidentity
      · rw [hnone] at hidentity
        cases hidentity
    · rw [identity?, template?, own?_put_ne _ _ hxh]
      exact hr
  · intro family x gx key hx hbegun
    by_cases hxh : x = h
    · subst hxh
      obtain rfl := Option.some.inj (hg.symm.trans hx)
      -- names are given only while finalization begins, and it does so once
      have hbegins : ¬ g.Begins g' := fun hb => by
        rw [hb.1] at hbegun
        cases hbegun
      rw [identity?_of_generation hg, identity?_of_generation hself]
      rcases hkey : (g.cache family).find? key with _ | t
      · rcases hkey' : (g'.cache family).find? key with _ | t'
        · rfl
        · exact (hlater.made hkey hkey').2.2.2.resolve_right hbegins
      · obtain ⟨t', ht', -, -, hsame⟩ := hlater.held hkey
        rw [ht']
        exact hsame.resolve_right fun hb => hbegins hb.2
    · rw [identity?, identity?, template?, template?, own?_put_ne _ _ hxh]

/-- **A generation** is left as it is unless the step is addressed to it. -/
theorem Change.generation?_eq (hchange : s.Change home? s') {k : Handle} {g : Generation}
    (hk : s.generation? k = some g) (hne : home? ≠ some k) : s'.generation? k = some g := by
  cases hchange with
  | nothing => exact hk
  | started => exact Coherent.generation?_push s _ hk
  | changed hhome =>
    rw [hhome, ne_eq, Option.some.injEq] at hne
    exact (generation?_put_ne _ _ (Ne.symm hne)).trans hk

/-- So whatever a step changes, the session is a later one. All that is stable in a session
follows from this and `LeadsTo.follows`. -/
theorem Change.follows (hchange : s.Change home? s') (hs : s.Coherent) : s.Follows s' := by
  cases hchange with
  | nothing => exact .refl s
  | started => exact follows_push hs _
  | changed _ hg hlater => exact follows_put hs hg hlater

/-- **Steps lead to later sessions.** Everything that is said to be stable below is a field of
`Follows`, and holds along every history by this. -/
theorem LeadsTo.follows (hleads : s.LeadsTo s') (hs : s.Coherent) : s.Follows s' := by
  induction hleads with
  | refl => exact .refl s
  | step hleads x ih =>
    exact ih.trans ((x.change (hleads.coherent hs)).follows (hleads.coherent hs))

end Session

end AnonymousTypes
