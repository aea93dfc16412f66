import AnonymousTypes.Proofs.Lineage

/-!
# The map of an output

Finalization answers with a map from shapes to identities. The map is exact: it has the
identities that the finalized generation sees, all of them and no others, and this stays true
whatever is done afterwards (`Reachable.output_map_exact`). So a later compilation that has
only the map to go by knows as much about the shapes as one that continues the generation.

The point is that the map starts out as that of an earlier output and is then overwritten, one
generation of the chain after another. Nothing is lost and nothing clobbered on the way, because
what was recorded has been carried forward and no key has two named templates on a chain.
-/

namespace AnonymousTypes

/-- Finalization leaves no shape of the generation without an identity. -/
theorem Generation.Finished.exists_identity {g g' : Generation}
    {known : ShapeKey → Option Identity} {start numbering : Numbering}
    {entries : List (ShapeKey × Identity)} {carried : List ShapeKey}
    (h : g.Finished known start entries carried numbering g') (hkeyed : g.shapes.Keyed)
    (hclear : ∀ key t, g.shapes.find? key = some t → known key = none) {key : ShapeKey}
    {t : Template .shape} (ht : g'.shapes.find? key = some t) :
    ∃ identity, t.identity = some identity := by
  rcases h.shape_cases hkeyed hclear ht with
    ⟨identity, -, hidentity⟩ | ⟨-, -, -, -, index, -, hidentity⟩
  · exact ⟨identity, hidentity⟩
  · exact ⟨_, hidentity⟩

namespace Session

variable {s s' : Session} {h : Handle} {g : Generation}

/-- **What a generation sees** does not change any more once its finalization has begun. -/
theorem Follows.lookupIdentity_eq (hfollows : s.Follows s') (hs : s.Coherent) (hs' : s'.Coherent)
    (hg : s.generation? h = some g) (hbegun : g.isFinalizing = true) (family : Family)
    (key : family.Key) : s'.lookupIdentity family h key = s.lookupIdentity family h key := by
  obtain ⟨g', hg', -, hancestors, -⟩ := hfollows.generation hg
  have hsettled : s'.identity? (⟨h, key⟩ : TemplateRef family) = s.identity? ⟨h, key⟩ :=
    hfollows.settled hg hbegun
  rw [hs.lookupIdentity_eq hg, hs'.lookupIdentity_eq hg', hancestors,
    hfollows.inheritedIdentity_eq hg, ← identity?_of_generation hg, ← identity?_of_generation hg',
    hsettled]

theorem lookupIdentity_eq_some_iff {family : Family} {key : family.Key} {identity : Identity} :
    s.lookupIdentity family h key = some identity ↔ ∃ r t, s.lookup family h key = some r ∧
      s.template? r = some t ∧ t.identity = some identity := by
  simp only [lookupIdentity, Option.bind_eq_some_iff, identity?_eq_some_iff]
  constructor
  · rintro ⟨r, hr, t, ht⟩
    exact ⟨r, t, hr, ht⟩
  · rintro ⟨r, t, hr, ht⟩
    exact ⟨r, hr, t, ht⟩

end Session

namespace Finalization

variable {f : Finalization} {g : Generation}

/-- Every shape of the generation's own is visible after finalization. -/
theorem exists_visible_of_own {key : ShapeKey} {t : Template .shape}
    (ht : f.after.own? .shape f.home key = some t) :
    ∃ identity, t.identity = some identity ∧ f.visible .shape key = some identity := by
  obtain ⟨g, hg⟩ := f.exists_generation
  obtain ⟨_, g', hself, hready, hfinished, -, -⟩ := f.exists_finished hg
  have hfind : g'.shapes.find? key = some t :=
    (Session.own?_of_generation hself .shape key).symm.trans ht
  obtain ⟨identity, hidentity⟩ :=
    hfinished.exists_identity (hready.keyed .shape) (f.reachable.coherent.clear hg .shape) hfind
  refine ⟨identity, hidentity, ?_⟩
  exact Session.lookupIdentity_eq_some_iff.2 ⟨_, t, Session.lookup_of_own ht, ht, hidentity⟩

/-- An identity that was recorded is visible after finalization. -/
theorem visible_of_recorded {map : IdentityMap} (hprevious : f.previous = some map)
    {key : ShapeKey} {identity : Identity} (hkey : map.get? key = some identity) :
    f.visible .shape key = some identity := by
  obtain ⟨g, hg⟩ := f.exists_generation
  obtain ⟨_, hspec⟩ := f.exists_spec hg
  obtain ⟨_, _, -, -, hfinished, -, -⟩ := f.exists_finished hg
  refine hspec.shapes.kept ?_
  rcases hinherited : f.before.inheritedIdentity .shape g.ancestors key with _ | existing
  · rw [known, hinherited, hprevious, Option.none_or]
    exact hkey
  · -- finalization has succeeded, so the record agrees with what is inherited
    have hentry : (key, identity) ∈ (f.previous.map (·.entries)).getD [] := by
      rw [hprevious]
      exact IdentityMap.get?_eq_some_iff.1 hkey
    rw [known, hinherited, Option.some_or, hfinished.agrees hentry hinherited]

end Finalization

namespace Session

variable {s s' : Session} {h : Handle}

/-- **The map of an output is exact.** Let finalization succeed in a reachable session, with
whatever map of an earlier output.

1. The map has an identity for a key exactly if the finalized generation finds a template with
   this identity by lookup. This holds in all later sessions.
2. The map has everything that the earlier map had.
3. Every shape of the generation itself has an identity, and the map has it.
4. The map has the identity of every shape that an earlier generation on the chain has named.
5. The counters of the map, of the answer and of the generation are the same. -/
theorem Reachable.output_map_exact (hs : s.Reachable) {given : Numbering}
    {previous : Option IdentityMap} {result : Finalized}
    (hrun : (Step.finalize h given previous).run s = (.ok result, s')) :
    (∀ later, s'.LeadsTo later → ∀ key identity, result.map.get? key = some identity ↔
      ∃ r t, later.lookup .shape h key = some r ∧ later.template? r = some t ∧
        t.identity = some identity) ∧
    (∀ map, previous = some map → ∀ key identity, map.get? key = some identity →
      result.map.get? key = some identity) ∧
    (∀ key t, s'.own? .shape h key = some t →
      ∃ identity, t.identity = some identity ∧ result.map.get? key = some identity) ∧
    (∀ g, s'.generation? h = some g → ∀ a ∈ g.ancestors, ∀ key t identity,
      s'.own? .shape a key = some t → t.identity = some identity →
        result.map.get? key = some identity) ∧
    result.map.numbering = result.numbering ∧
    ∀ later, s'.LeadsTo later →
      (later.generation? h).bind (·.finalized) = some result.numbering := by
  let f : Finalization := ⟨s, h, given, previous, result, s', hs, hrun⟩
  obtain ⟨g, hg⟩ := f.exists_generation
  obtain ⟨g', hspec⟩ := f.exists_spec hg
  have hself : s'.generation? h = some g' := hspec.generation
  -- the map is what lookup finds in the session that finalization ended in
  have hmap : ∀ key, result.map.get? key = s'.lookupIdentity .shape h key := hspec.map
  have hs' : s'.Coherent := f.reachable_after.coherent
  have hbegun := (hs' hself).finalizing (Option.isSome_of_eq_some hspec.finalized)
  refine ⟨fun later hleads key identity => ?_, fun map hprevious key identity hkey => ?_,
    fun key t ht => ?_, fun g'' hg'' a ha key t identity ht hidentity => ?_, hspec.numbering,
    fun later hleads => ?_⟩
  · rw [hmap, ← (hleads.follows hs').lookupIdentity_eq hs' (hleads.coherent hs') hself hbegun,
      lookupIdentity_eq_some_iff]
  · exact (hmap key).trans (f.visible_of_recorded hprevious hkey)
  · obtain ⟨identity, hidentity, hvisible⟩ := f.exists_visible_of_own ht
    exact ⟨identity, hidentity, (hmap key).trans hvisible⟩
  · refine (hmap key).trans ((hs'.lookupIdentity_eq_some_iff hg'').2
      ⟨a, List.mem_cons_of_mem _ ha, ?_⟩)
    exact identity?_eq_some_iff.2 ⟨t, ht, hidentity⟩
  · obtain ⟨g'', hg'', hfinal⟩ := f.exists_later hleads
    rw [hg'', Option.bind_some, hfinal]

/-- A generation that inherits one shape, holds another one, and is finalized with a map that
records a third one: the new map has all of them. -/
theorem output_map_exact_on_chain : ∃ (s s' : Session) (g : Generation) (map : IdentityMap)
    (result : Finalized) (inherited own recorded : ShapeKey) (i j k : Identity),
    s.Reachable ∧ map.get? recorded = some k ∧
    (Step.finalize 1 .zero (some map)).run s = (.ok result, s') ∧
    s'.generation? 1 = some g ∧ g.ancestors = [0] ∧
    result.map.get? inherited = some i ∧ result.map.get? own = some j ∧
    result.map.get? recorded = some k ∧ result.map.numbering = result.numbering := by
  obtain ⟨first, second, third, k, hok, hancestors, hfirst, hsecond⟩ :
      ∃ (first second third : ShapeKey) (k : Identity),
        let after := (Step.finalize 1 .zero (some (IdentityMap.empty.insert third k))).run
          (Lineage.chainedShapes first second)
        after.1.toOption.isSome ∧
        (after.2.generation? 1).map (·.ancestors) = some [0] ∧
        (after.2.identity? (⟨0, first⟩ : TemplateRef .shape)).isSome ∧
        (after.2.own? .shape 1 second).isSome :=
    ⟨⟨["a"], by decide⟩, ⟨["b"], by decide⟩, ⟨["c"], by decide⟩, ⟨"kept", 7⟩, by decide +kernel⟩
  have hs : (Lineage.chainedShapes first second).Reachable := by
    refine Reachable.of_leadsTo ?_ (leadsTo_after ..)
    exact Reachable.of_leadsTo (leadsTo_after ..) (.step .refl (Step.finalize 0 .zero none))
  have hrecorded : (IdentityMap.empty.insert third k).get? third = some k := by
    rw [IdentityMap.get?_insert_self]
  rcases hrun : (Step.finalize 1 .zero (some (IdentityMap.empty.insert third k))).run
    (Lineage.chainedShapes first second) with ⟨_ | result, s'⟩
  · rw [hrun] at hok
    cases hok
  · rw [hrun] at hok hancestors hfirst hsecond
    obtain ⟨g, hg, hchain⟩ := Option.map_eq_some_iff.1 hancestors
    obtain ⟨i, hi⟩ := Option.isSome_iff_exists.1 hfirst
    obtain ⟨t, ht, hidentity⟩ := identity?_eq_some_iff.1 hi
    obtain ⟨u, hu⟩ := Option.isSome_iff_exists.1 hsecond
    obtain ⟨-, hkept, hown, hnamed, hnumbering, -⟩ := hs.output_map_exact hrun
    obtain ⟨j, -, hj⟩ := hown second u hu
    exact ⟨_, s', g, _, result, first, second, third, i, j, k, hs, hrecorded, hrun, hg, hchain,
      hnamed g hg 0 (hchain ▸ List.mem_cons_self ..) first t i ht hidentity, hj,
      hkept _ rfl third k hrecorded, hnumbering⟩

end Session

end AnonymousTypes
