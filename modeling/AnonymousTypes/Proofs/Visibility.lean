import AnonymousTypes.Proofs.Continuity
import AnonymousTypes.Proofs.Determinism

/-!
# Which identities are visible

A generation sees the identity of a key by looking the key up (`Session.lookupIdentity`). Right
after finalization it is the identity that finalization has given, or else the inherited one
(`Coherent.lookupIdentity_eq`), and the map that finalization answers with has just these
identities of shapes (`Coherent.get?_identityMap`). Whoever continues the generation inherits
them (`Follows.inheritedIdentity_cons`).
-/

namespace AnonymousTypes

variable {family : Family}

namespace Session

/-- The identity that a generation sees for a key. -/
def lookupIdentity (s : Session) (family : Family) (h : Handle) (key : family.Key) :
    Option Identity :=
  (s.lookup family h key).bind s.identity?

variable {s s' : Session} {h : Handle} {g g' : Generation}

/-- What is not the generation's own is inherited. In a coherent session no generation holds a
key that it inherits, so it does not matter which of the two is looked at first. -/
theorem Coherent.lookupIdentity_eq (hs : s.Coherent) (hg : s.generation? h = some g)
    (family : Family) (key : family.Key) :
    s.lookupIdentity family h key =
      (((g.cache family).find? key).bind (·.identity)).or
        (s.inheritedIdentity family g.ancestors key) := by
  have hown := own?_of_generation hg family key
  rcases hkey : (g.cache family).find? key with _ | t
  · rw [lookupIdentity, lookup_of_own_none hg (hown.trans hkey)]
    rfl
  · rw [lookupIdentity, lookup_of_own (hown.trans hkey), Option.bind_some,
      identity?_of_generation hg, hkey, hs.clear hg family key t hkey,
      Option.or_none]

/-- What is inherited keeps its identity, in every later session and for all keys, those that are
inherited from nobody included. -/
theorem Follows.inheritedIdentity_eq (hfollows : s.Follows s') (hg : s.generation? h = some g)
    (family : Family) (key : family.Key) :
    s'.inheritedIdentity family g.ancestors key = s.inheritedIdentity family g.ancestors key := by
  have hinherited := hfollows.inherited hg family key
  rcases hr : s.inherited family key g.ancestors with _ | r
  · rw [inheritedIdentity_eq_none_iff.2 hr, inheritedIdentity_eq_none_iff.2 (hinherited.trans hr)]
  · obtain ⟨identity, hidentity⟩ := Option.isSome_iff_exists.1 (isSome_identity?_of_inherited hr)
    rw [inheritedIdentity_of_some hr, inheritedIdentity_of_some (hinherited.trans hr), hidentity,
      hfollows.named hidentity]

/-- Whoever continues a generation in a later session inherits what the generation saw when
its finalization had begun. -/
theorem Follows.inheritedIdentity_cons (hfollows : s.Follows s') (hs : s.Coherent)
    (hs' : s'.Coherent) (hg : s.generation? h = some g) (hbegun : g.isFinalizing = true)
    (family : Family) (key : family.Key) :
    s'.inheritedIdentity family (h :: g.ancestors) key = s.lookupIdentity family h key := by
  obtain ⟨g', hg', -, hancestors, -⟩ := hfollows.generation hg
  have hown := own?_of_generation hg family key
  rw [hs.lookupIdentity_eq hg]
  rcases hkey' : s'.own? family h key with _ | t'
  · have hkey : (g.cache family).find? key = none := by
      rcases hkey : (g.cache family).find? key with _ | t
      · rfl
      · have hsome := hfollows.held (Option.isSome_of_eq_some (hown.trans hkey))
        rw [hkey'] at hsome
        cases hsome
    rw [hkey, Option.bind_none, Option.none_or, ← hfollows.inheritedIdentity_eq hg,
      inheritedIdentity, Session.inherited, hkey', inheritedIdentity]
  · -- it may be a late one, but then it has no identity, and nothing was inherited
    have hsame : s'.identity? (⟨h, key⟩ : TemplateRef family) = s.identity? ⟨h, key⟩ :=
      hfollows.settled hg hbegun
    have hinherited : s'.inherited family key g'.ancestors = none :=
      (hs' hg').clear ((own?_of_generation hg' family key).symm.trans hkey')
    rw [hancestors] at hinherited
    rw [identity?, template?, hkey', identity?_of_generation hg, Option.bind_some] at hsame
    rw [← hfollows.inheritedIdentity_eq hg, inheritedIdentity_eq_none_iff.2 hinherited,
      Option.or_none, ← hsame, inheritedIdentity, Session.inherited, hkey']
    by_cases hnamed : t'.isNamed
    · simp only [if_pos hnamed]
      rw [Option.bind_some, identity?, template?, hkey']
      rfl
    · simp only [if_neg hnamed]
      exact (Option.not_isSome_iff_eq_none.1 hnamed).symm

/-- **The named templates of a chain** are the visible ones. -/
theorem Coherent.lookupIdentity_eq_some_iff (hs : s.Coherent) (hg : s.generation? h = some g)
    {key : family.Key} {identity : Identity} :
    s.lookupIdentity family h key = some identity ↔
      ∃ a ∈ h :: g.ancestors, s.identity? (⟨a, key⟩ : TemplateRef family) = some identity := by
  rw [hs.lookupIdentity_eq hg, ← identity?_of_generation hg]
  constructor
  · intro hidentity
    rcases Option.or_eq_some_iff.1 hidentity with hself | ⟨-, hinherited⟩
    · exact ⟨h, List.mem_cons_self .., hself⟩
    · obtain ⟨⟨a, key'⟩, hr, ha⟩ := Option.bind_eq_some_iff.1 hinherited
      obtain ⟨hmem, rfl, -⟩ := exists_of_inherited hr
      exact ⟨a, List.mem_cons_of_mem _ hmem, ha⟩
  · rintro ⟨a, hmem, ha⟩
    rcases List.mem_cons.1 hmem with rfl | hmem
    · rw [ha, Option.some_or]
    · obtain ⟨pre, post, hsplit⟩ := List.append_of_mem hmem
      have hnone := hs.own?_eq_none_of_named hg hsplit ha
      rw [identity?, template?, hnone, Option.bind_none, Option.none_or,
        inheritedIdentity_of_some (hs.inherited_of_named hg hsplit ha), ha]

/-! ## The map of an output -/

theorem Coherent.exists_identityMap_cons (hs : s.Coherent) (m : IdentityMap) (a : Handle)
    (rest : List Handle) (key : ShapeKey) :
    ∃ m', s.identityMap m (a :: rest) = s.identityMap m' rest ∧
      m'.get? key = (s.identity? (⟨a, key⟩ : TemplateRef .shape)).or (m.get? key) := by
  rcases ha : s.generation? a with _ | ga
  · refine ⟨m, ?_, ?_⟩
    · rw [identityMap, List.foldl_cons, ha]
      rfl
    · rw [identity?, template?, own?, ha]
      rfl
  · refine ⟨m.insertAll ga.shapes.identities, ?_, ?_⟩
    · rw [identityMap, List.foldl_cons, ha]
      rfl
    · rw [identity?_of_generation ha]
      exact Cache.get?_insertAll_identities (hs.keyed ha .shape) m key

/-- Generations that agree about a shape decide what the map has for it. -/
theorem Coherent.get?_identityMap_of_agree (hs : s.Coherent) {key : ShapeKey}
    {identity? : Option Identity} {handles : List Handle} {m : IdentityMap}
    (hagree : ∀ a ∈ handles, ∀ i, s.identity? (⟨a, key⟩ : TemplateRef .shape) = some i →
      identity? = some i)
    (hex : m.get? key = identity? ∨
      ∃ a ∈ handles, (s.identity? (⟨a, key⟩ : TemplateRef .shape)).isSome) :
    (s.identityMap m handles).get? key = identity? := by
  induction handles generalizing m with
  | nil =>
    rcases hex with hm | ⟨_, hmem, -⟩
    · exact hm
    · cases hmem
  | cons a rest ih =>
    obtain ⟨m', heq, hget⟩ := hs.exists_identityMap_cons m a rest key
    rw [heq]
    refine ih (fun b hb => hagree b (List.mem_cons_of_mem _ hb)) ?_
    rcases ha : s.identity? (⟨a, key⟩ : TemplateRef .shape) with _ | i
    · rw [hget, ha, Option.none_or]
      refine hex.imp_right ?_
      rintro ⟨b, hmem, hb⟩
      rcases List.mem_cons.1 hmem with rfl | hmem
      · rw [ha] at hb
        cases hb
      · exact ⟨b, hmem, hb⟩
    · rw [hget, ha, Option.some_or]
      exact .inl (hagree a (List.mem_cons_self ..) i ha).symm

/-- **The map of an output** has the visible identities, besides what it had before. -/
theorem Coherent.get?_identityMap (hs : s.Coherent) (hg : s.generation? h = some g)
    (m : IdentityMap) (key : ShapeKey) :
    (s.identityMap m (h :: g.ancestors)).get? key =
      (s.lookupIdentity .shape h key).or (m.get? key) := by
  have hvisible : ∀ identity, s.lookupIdentity .shape h key = some identity ↔
      ∃ a ∈ h :: g.ancestors, s.identity? (⟨a, key⟩ : TemplateRef .shape) = some identity :=
    fun _ => hs.lookupIdentity_eq_some_iff hg
  rcases hlookup : s.lookupIdentity .shape h key with _ | identity
  · refine hs.get?_identityMap_of_agree (fun a ha i hi => ?_) (.inl rfl)
    have hsome := (hvisible i).2 ⟨a, ha, hi⟩
    rw [hlookup] at hsome
    cases hsome
  · obtain ⟨a, ha, hi⟩ := (hvisible identity).1 hlookup
    refine hs.get?_identityMap_of_agree (fun b hb i hi => ?_)
      (.inr ⟨a, ha, Option.isSome_of_eq_some hi⟩)
    exact hlookup.symm.trans ((hvisible i).2 ⟨b, hb, hi⟩)

end Session

end AnonymousTypes
