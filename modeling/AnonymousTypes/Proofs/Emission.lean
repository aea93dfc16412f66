import AnonymousTypes.Proofs.OutputMap

/-!
# What is handed over

Finalization hands the definitions of a generation over, so that their bodies are generated.
A shape that is seen for the first time is flagged as new; a generation that starts from scratch
also hands over the shapes that earlier outputs contain already, and these are not flagged.

Whether a shape is flagged is decided by one finalization alone, from the map that it is given.
That this adds up is a fact about lineages: each shape is defined by exactly one of the outputs
(`Lineage.defined_exactly_once`). The step from one finalization to the next is
`Finalization.mem_emitted_iff`, with `FollowedBy.exists_known` for what was seen before.
-/

namespace AnonymousTypes

variable {family : Family}

/-! ## Definitions of shapes -/

namespace Definition

/-- The shape that is defined, unless it is a delegate. -/
def shape? : Definition → Option ShapeKey
  | ⟨_, .shape, key, _, _, _⟩ => some key
  | ⟨_, .delegate, _, _, _, _⟩ => none

/-- The definition of a shape under an identity. -/
def ofShape (key : ShapeKey) (identity : Identity) (isNew : Bool) : Definition :=
  .ofKey .shape key identity isNew

end Definition

namespace Cache

theorem mem_definitions {c : Cache family} (hkeyed : c.Keyed) {isNew : family.Key → Bool}
    {d : Definition} : d ∈ c.definitions isNew ↔ ∃ key t identity, c.find? key = some t ∧
      t.identity = some identity ∧ d = .ofKey family key identity (isNew key) := by
  rw [definitions_eq, (sortList_perm ..).mem_iff, List.mem_filterMap]
  constructor
  · rintro ⟨t, ht, hd⟩
    obtain ⟨identity, hidentity, rfl⟩ := Option.map_eq_some_iff.1 hd
    exact ⟨t.key, t, identity, hkeyed.find?_of_mem ht, hidentity, rfl⟩
  · rintro ⟨key, t, identity, ht, hidentity, rfl⟩
    refine ⟨t, mem_templates_iff.2 ⟨key, ht⟩, ?_⟩
    rw [definition?, hidentity, hkeyed key t ht]
    rfl

/-- No shape is defined twice by one cache, since keys have one template each. -/
theorem nodup_shapes {c : Cache .shape} (hkeyed : c.Keyed) (isNew : ShapeKey → Bool) :
    ((c.definitions isNew).filterMap (·.shape?)).Nodup := by
  have hperm : ((c.definitions isNew).filterMap (·.shape?)).Perm
      ((c.templates.filterMap (definition? isNew)).filterMap (·.shape?)) :=
    (sortList_perm ..).filterMap _
  refine hperm.nodup_iff.2 (hkeyed.nodup_keys.sublist ?_)
  generalize c.templates = ts
  induction ts with
  | nil => exact .slnil
  | cons t ts ih =>
    rw [List.filterMap_cons, List.map_cons, definition?]
    rcases t.identity with _ | identity
    · exact ih.cons _
    · exact ih.cons_cons _

end Cache

namespace Generation

variable {g : Generation}

theorem mem_definitions_shape (hkeyed : ∀ family, (g.cache family).Keyed)
    {carried : List ShapeKey} {d : Definition} {key : ShapeKey} :
    d ∈ g.definitions carried ∧ d.shape? = some key ↔ ∃ t identity,
      g.shapes.find? key = some t ∧ t.identity = some identity ∧
        d = .ofShape key identity (key ∉ carried) := by
  have hshapes : g.shapes.Keyed := hkeyed .shape
  have hdelegates : g.delegates.Keyed := hkeyed .delegate
  rw [definitions, List.mem_append, Cache.mem_definitions hshapes, Cache.mem_definitions hdelegates]
  constructor
  · rintro ⟨⟨key', t, identity, ht, hidentity, rfl⟩ | ⟨key', t, identity, ht, hidentity, rfl⟩, hkey⟩
    · obtain rfl := Option.some.inj hkey
      exact ⟨t, identity, ht, hidentity, rfl⟩
    · cases hkey
  · rintro ⟨t, identity, ht, hidentity, rfl⟩
    exact ⟨.inl ⟨key, t, identity, ht, hidentity, rfl⟩, rfl⟩

theorem nodup_definitions_shape (hkeyed : ∀ family, (g.cache family).Keyed)
    (carried : List ShapeKey) : ((g.definitions carried).filterMap (·.shape?)).Nodup := by
  have hdelegates : (g.delegates.definitions fun _ => true).filterMap (·.shape?) = [] := by
    refine List.filterMap_eq_nil_iff.2 fun d hd => ?_
    obtain ⟨key, t, identity, -, -, rfl⟩ := (Cache.mem_definitions (hkeyed .delegate)).1 hd
    rfl
  rw [definitions, List.filterMap_append, hdelegates, List.append_nil]
  exact Cache.nodup_shapes (hkeyed .shape) _

end Generation

/-- An element that stands for something which occurs once is the only one that does. -/
theorem filter_eq_singleton {α β : Type} [DecidableEq β] {f : α → Option β} {xs : List α} {x : α}
    {b : β} (hnodup : (xs.filterMap f).Nodup) (hmem : x ∈ xs) (hx : f x = some b) :
    xs.filter (fun y => f y = some b) = [x] := by
  obtain ⟨pre, post, rfl⟩ := List.append_of_mem hmem
  rw [List.filterMap_append, List.filterMap_cons_some hx, List.nodup_append] at hnodup
  obtain ⟨-, hpost, hpre⟩ := hnodup
  have hne : ∀ ys : List α, b ∉ ys.filterMap f → ys.filter (fun y => f y = some b) = [] := by
    intro ys hys
    refine List.filter_eq_nil_iff.2 fun y hy heq => hys ?_
    exact List.mem_filterMap.2 ⟨y, hy, of_decide_eq_true heq⟩
  have hself :
      (x :: post).filter (fun y => f y = some b) = x :: post.filter fun y => f y = some b :=
    List.filter_cons_of_pos (decide_eq_true hx)
  rw [List.filter_append, hself, hne pre fun hb => hpre b hb b (List.mem_cons_self ..) rfl,
    hne post (List.nodup_cons.1 hpost).1, List.nil_append]

/-! ## Handing over -/

namespace Session

/-- The lists of definitions that a generation has handed over so far. -/
def handedOff (s : Session) (h : Handle) : List (List Definition) :=
  ((s.generation? h).map (·.handedOff)).getD []

/-- The definitions that a generation hands over between two sessions. -/
def handedOver (s s' : Session) (h : Handle) : List Definition :=
  ((s'.handedOff h).drop (s.handedOff h).length).flatten

theorem handedOver_eq {s s' : Session} {h : Handle} {g g' : Generation}
    (hg : s.generation? h = some g) (hg' : s'.generation? h = some g')
    {definitions : List Definition} (heq : g'.handedOff = g.handedOff ++ [definitions]) :
    s.handedOver s' h = definitions := by
  rw [handedOver, handedOff, handedOff, hg, hg', Option.map_some, Option.map_some, Option.getD_some,
    Option.getD_some, heq, List.drop_left, List.flatten_singleton]

end Session

/-- A shape that is not inherited is carried forward if the map has it, and is new if not. -/
theorem Generation.Finished.decide_notMem_carried {g g' : Generation}
    {known : ShapeKey → Option Identity} {start numbering : Numbering}
    {previous : Option IdentityMap} {carried : List ShapeKey}
    (h : g.Finished known start ((previous.map (·.entries)).getD []) carried numbering g')
    {key : ShapeKey} (hnone : known key = none) :
    decide (key ∉ carried) = ((previous.getD .empty).get? key).isNone := by
  have hmem : key ∈ carried ↔ ((previous.getD .empty).get? key).isSome := by
    rw [h.carried_eq, List.mem_map, Option.isSome_iff_exists]
    constructor
    · rintro ⟨⟨key, identity⟩, hentry, rfl⟩
      exact ⟨identity, Finalization.mem_entries_iff.1 (List.mem_filter.1 hentry).1⟩
    · rintro ⟨identity, hidentity⟩
      have hentry := Finalization.mem_entries_iff.2 hidentity
      refine ⟨(key, identity), List.mem_filter.2 ⟨hentry, ?_⟩, rfl⟩
      rw [hnone]
      rfl
  rcases hkey : (previous.getD .empty).get? key with _ | identity
  · simp [hmem, hkey]
  · simp [hmem, hkey]

namespace Finalization

variable {f f' : Finalization} {g : Generation}

/-- The definitions that a finalization hands over. -/
def emitted (f : Finalization) : List Definition := f.before.handedOver f.after f.home

/-- **The shapes that are handed over** are those that are visible and not inherited; those that
the map has recorded are not flagged as new. -/
theorem mem_emitted_iff (hg : f.before.generation? f.home = some g) {d : Definition}
    {key : ShapeKey} : d ∈ f.emitted ∧ d.shape? = some key ↔
      f.before.inheritedIdentity .shape g.ancestors key = none ∧
      ∃ identity, f.visible .shape key = some identity ∧
        d = .ofShape key identity ((f.previous.getD .empty).get? key).isNone := by
  obtain ⟨carried, g', hself, -, hfinished, -, hvisible⟩ := f.exists_finished hg
  have hcarried : f.before.inheritedIdentity .shape g.ancestors key = none →
      (decide (key ∉ carried) = ((f.previous.getD .empty).get? key).isNone) :=
    fun hnone => hfinished.decide_notMem_carried hnone
  have hvisible : f.visible .shape key = ((g'.shapes.find? key).bind (·.identity)).or
      (f.before.inheritedIdentity .shape g.ancestors key) := hvisible .shape key
  rw [emitted, Session.handedOver_eq hg hself hfinished.handedOff_eq,
    Generation.mem_definitions_shape (f.reachable_after.coherent.keyed hself)]
  constructor
  · rintro ⟨t, identity, ht, hidentity, rfl⟩
    have hnone := hfinished.known_eq_none (f.reachable.coherent.clear hg .shape)
      (Option.isSome_of_eq_some ht)
    refine ⟨hnone, identity, ?_, by rw [hcarried hnone]⟩
    rw [hvisible, hnone, ht, Option.bind_some, Option.or_none, hidentity]
  · rintro ⟨hnone, identity, hidentity, rfl⟩
    rw [hvisible, hnone, Option.or_none] at hidentity
    obtain ⟨t, ht, hidentity⟩ := Option.bind_eq_some_iff.1 hidentity
    exact ⟨t, identity, ht, hidentity, by rw [hcarried hnone]⟩

/-- No shape is handed over twice in one finalization. -/
theorem nodup_emitted (f : Finalization) : (f.emitted.filterMap (·.shape?)).Nodup := by
  obtain ⟨g, hg⟩ := f.exists_generation
  obtain ⟨carried, g', hself, -, hfinished, -, -⟩ := f.exists_finished hg
  rw [emitted, Session.handedOver_eq hg hself hfinished.handedOff_eq]
  exact Generation.nodup_definitions_shape (f.reachable_after.coherent.keyed hself) carried

end Finalization

namespace Lineage

variable {f : Finalization} {fs : List Finalization}

/-- The identities that were visible after the latest of some finalizations. -/
def seen : List Finalization → ShapeKey → Option Identity
  | [] => fun _ => none
  | f :: _ => f.visible .shape

/-- **Along a lineage**, a finalization knows what was seen before. -/
theorem known_eq_seen (h : Lineage (f :: fs)) :
    ∃ g, f.before.generation? f.home = some g ∧ f.known g = seen fs := by
  cases h with
  | @root _ g hg hroot hprevious =>
    refine ⟨g, hg, ?_⟩
    funext key
    rw [Finalization.known, hroot, hprevious]
    rfl
  | next _ hnext =>
    obtain ⟨g, hg, hknown, -⟩ := hnext.exists_known
    exact ⟨g, hg, hknown⟩

/-- A shape is handed over under its visible identity, and flagged if it was not seen before. -/
theorem eq_ofShape_of_emitted (h : Lineage (f :: fs)) {d : Definition} {key : ShapeKey}
    (hd : d ∈ f.emitted) (hkey : d.shape? = some key) :
    f.visible .shape key = some d.identity ∧ d.isNew = (seen fs key).isNone := by
  obtain ⟨g, hg, hknown⟩ := h.known_eq_seen
  obtain ⟨hnone, identity, hidentity, rfl⟩ := (Finalization.mem_emitted_iff hg).1 ⟨hd, hkey⟩
  refine ⟨hidentity, ?_⟩
  rw [← hknown, Finalization.known, hnone, Option.none_or]
  rfl

/-- A shape that is visible for the first time is handed over, once, and flagged. -/
theorem emitted_of_unseen (h : Lineage (f :: fs)) {key : ShapeKey} {identity : Identity}
    (hvisible : f.visible .shape key = some identity) (hunseen : seen fs key = none) :
    ∃ d, f.emitted.filter (·.shape? = some key) = [d] ∧ d.isNew = true := by
  obtain ⟨g, hg, hknown⟩ := h.known_eq_seen
  rw [← hknown, Finalization.known, Option.or_eq_none_iff] at hunseen
  obtain ⟨hinherited, hrecorded⟩ := hunseen
  obtain ⟨hmem, hkey⟩ := (Finalization.mem_emitted_iff hg).2 ⟨hinherited, identity, hvisible, rfl⟩
  refine ⟨_, filter_eq_singleton f.nodup_emitted hmem hkey, ?_⟩
  rw [hrecorded]
  rfl

/-- **Each shape is defined exactly once** along a lineage. For every shape in the last map there
is one finalization such that

1. this one hands over exactly one definition of the shape, and flags it as new;
2. the later ones hand over only definitions of it that are not flagged, and the earlier ones
   none at all;
3. all definitions of it that are ever handed over are under the identity in the last map;
4. the map of this one, and of all later ones, has this identity for it, and the maps of the
   earlier ones do not have it. -/
theorem defined_exactly_once (h : Lineage (f :: fs)) {key : ShapeKey} {identity : Identity}
    (hkey : f.result.map.get? key = some identity) :
    ∃ later first earlier, f :: fs = later ++ first :: earlier ∧
      (∃ d, first.emitted.filter (·.shape? = some key) = [d] ∧ d.isNew = true) ∧
      (∀ e ∈ later, ∀ d ∈ e.emitted, d.shape? = some key → d.isNew = false) ∧
      (∀ e ∈ earlier, ∀ d ∈ e.emitted, d.shape? ≠ some key) ∧
      (∀ e ∈ f :: fs, ∀ d ∈ e.emitted, d.shape? = some key → d.identity = identity) ∧
      (∀ e ∈ later ++ [first], e.result.map.get? key = some identity) ∧
      ∀ e ∈ earlier, e.result.map.get? key = none := by
  simp only [Finalization.get?_map] at hkey ⊢
  -- whatever is handed over is visible, and what is visible stays so
  have hidentity : ∀ e ∈ f :: fs, ∀ d ∈ e.emitted, d.shape? = some key →
      d.identity = identity := by
    intro e he d hd hshape
    obtain ⟨pre, post, hsplit⟩ := List.append_of_mem he
    obtain ⟨hvisible, -⟩ := (hsplit ▸ h).of_append.eq_ofShape_of_emitted hd hshape
    rcases List.mem_cons.1 he with rfl | he
    · exact Option.some.inj (hvisible.symm.trans hkey)
    · exact Option.some.inj (((h.le_of_mem he).2 hvisible).symm.trans hkey)
  induction fs generalizing f with
  | nil =>
    exact ⟨[], f, [], rfl, h.emitted_of_unseen hkey rfl, fun _ he => (nomatch he),
      fun _ he => (nomatch he), hidentity, fun e he => List.mem_singleton.1 he ▸ hkey,
      fun _ he => (nomatch he)⟩
  | cons f₀ rest ih =>
    have h₀ := h.of_cons
    rcases hseen : f₀.visible .shape key with _ | i
    · -- it was not visible in any of the earlier ones
      have hearlier : ∀ e ∈ f₀ :: rest, e.visible .shape key = none := by
        intro e he
        rcases List.mem_cons.1 he with rfl | he
        · exact hseen
        · rcases hvisible : e.visible .shape key with _ | j
          · rfl
          · rw [(h₀.le_of_mem he).2 hvisible] at hseen
            cases hseen
      refine ⟨[], f, f₀ :: rest, rfl, h.emitted_of_unseen hkey hseen, fun _ he => (nomatch he),
        fun e he d hd hshape => ?_, hidentity, fun e he => List.mem_singleton.1 he ▸ hkey,
        hearlier⟩
      obtain ⟨pre, post, hsplit⟩ := List.append_of_mem he
      obtain ⟨hvisible, -⟩ := (hsplit ▸ h₀).of_append.eq_ofShape_of_emitted hd hshape
      rw [hearlier e he] at hvisible
      cases hvisible
    · obtain rfl : i = identity :=
        Option.some.inj (((h.le_of_mem (List.mem_cons_self ..)).2 hseen).symm.trans hkey)
      obtain ⟨later, first, earlier, hsplit, hfirst, hlater, hnone, -, hmaps, hnomaps⟩ :=
        ih h₀ hseen fun e he => hidentity e (List.mem_cons_of_mem _ he)
      refine ⟨f :: later, first, earlier, by rw [hsplit]; rfl, hfirst, fun e he => ?_, hnone,
        hidentity, fun e he => ?_, hnomaps⟩
      · rcases List.mem_cons.1 he with rfl | he
        · intro d hd hshape
          rw [(h.eq_ofShape_of_emitted hd hshape).2, seen, hseen]
          rfl
        · exact hlater e he
      · rcases List.mem_cons.1 he with rfl | he
        · exact hkey
        · exact hmaps e he

/-- A compilation is repeated from scratch, with the map of its first output: the shape is handed
over both times, under the same identity, but it is new only the first time. -/
theorem defined_once_though_repeated : ∃ (f₀ f₁ : Finalization) (key : ShapeKey) (i : Identity),
    Lineage [f₁, f₀] ∧ f₁.before = f₀.before ∧ f₁.result.map.get? key = some i ∧
      (∃ d ∈ f₀.emitted, d.shape? = some key ∧ d.isNew = true ∧ d.identity = i) ∧
      ∃ d ∈ f₁.emitted, d.shape? = some key ∧ d.isNew = false ∧ d.identity = i := by
  obtain ⟨key, hok₀, hfirst, hok₁⟩ : ∃ key : ShapeKey,
      let x := (Step.finalize 0 .zero none).run (oneShape key)
      x.1.toOption.isSome ∧ (x.2.lookupIdentity .shape 0 key).isSome ∧
      x.1.toOption.any fun result =>
        ((Step.finalize 0 .zero (some result.map)).run (oneShape key)).1.toOption.isSome :=
    ⟨⟨["a"], by decide⟩, by decide +kernel⟩
  have hreachable : (oneShape key).Reachable := Session.leadsTo_after ..
  have hgeneration : ((oneShape key).generation? 0).map (·.ancestors) = some [] := rfl
  obtain ⟨g, hg, hroot⟩ := Option.map_eq_some_iff.1 hgeneration
  obtain ⟨f₀, hbefore₀, hhome₀, hprevious₀, hrun₀⟩ := Finalization.exists_of_isSome hreachable hok₀
  rw [hrun₀] at hfirst hok₁
  obtain ⟨f₁, hbefore₁, hhome₁, hprevious₁, -⟩ := Finalization.exists_of_isSome hreachable hok₁
  have hg₀ : f₀.before.generation? f₀.home = some g := by rw [hbefore₀, hhome₀, hg]
  have hg₁ : f₁.before.generation? f₁.home = some g := by rw [hbefore₁, hhome₁, hg]
  have hlineage : Lineage [f₁, f₀] :=
    .next (.root hg₀ hroot hprevious₀) (.restarted hg₁ hroot hprevious₁)
  obtain ⟨i, hi⟩ := Option.isSome_iff_exists.1 hfirst
  have hvisible₀ : f₀.visible .shape key = some i := by rw [Finalization.visible, hhome₀, hi]
  have hvisible₁ : f₁.visible .shape key = some i :=
    (hlineage.le_of_mem (List.mem_cons_self ..)).2 hvisible₀
  have hkey : f₁.result.map.get? key = some i := (f₁.get?_map key).trans hvisible₁
  obtain ⟨later, first, earlier, hsplit, ⟨d, hfilter, hnew⟩, hlater, -, hidentity, -, hnone⟩ :=
    hlineage.defined_exactly_once hkey
  obtain ⟨rfl, rfl, rfl⟩ : later = [f₁] ∧ first = f₀ ∧ earlier = [] := by
    rcases later with _ | ⟨f, _ | ⟨f', later⟩⟩
    · obtain ⟨rfl, rfl⟩ := List.cons.inj hsplit
      have hmap := hnone f₀ (List.mem_cons_self ..)
      rw [f₀.get?_map, hvisible₀] at hmap
      cases hmap
    · simp only [List.cons_append, List.nil_append, List.cons.injEq] at hsplit
      obtain ⟨rfl, rfl, rfl⟩ := hsplit
      exact ⟨rfl, rfl, rfl⟩
    · simp at hsplit
  -- the second time the shape is still the generation's own
  obtain ⟨hmem, hshape⟩ := (Finalization.mem_emitted_iff hg₁).2
    ⟨by rw [hroot]; rfl, i, hvisible₁, rfl⟩
  obtain ⟨hd, hdecide⟩ := List.mem_filter.1 (hfilter ▸ List.mem_singleton_self d)
  have hdshape : d.shape? = some key := of_decide_eq_true hdecide
  exact ⟨first, f₁, key, i, hlineage, hbefore₁.trans hbefore₀.symm, hkey,
    ⟨d, hd, hdshape, hnew, hidentity first (by simp) d hd hdshape⟩,
    _, hmem, hshape, hlater f₁ (List.mem_cons_self ..) _ hmem hshape, rfl⟩

end Lineage

end AnonymousTypes
