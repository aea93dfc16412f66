import AnonymousTypes.Proofs.Visibility

/-!
# No identity is ever reused

A *lineage* is a series of finalizations in which each continues the one before it, either in
the same session, as a generation that was derived from the earlier one, or from scratch, with
nothing but the map of the earlier output (`Finalization.FollowedBy`, `Lineage`).

What one finalization does to the visible identities is the same in both cases: those that
were visible stay, and the new ones get indices of their own from a range that was never used
before (`Extends`). So nothing that is visible at the end of a lineage can be confused with
anything else (`Lineage.no_identity_reused`).
-/

namespace AnonymousTypes

variable {family : Family}

/-! ## Numbered keys -/

/-- The keys that have an identity have indices of their own, below a bound. -/
structure Numbered (visible : family.Key → Option Identity) (bound : UInt32) : Prop where
  below : ∀ {key i}, visible key = some i → i.index.toNat < bound.toNat
  distinct : ∀ {key key' i i'}, visible key = some i → visible key' = some i' →
    i.index = i'.index → key = key'

theorem numbered_none (bound : UInt32) : Numbered (fun _ : family.Key => none) bound :=
  ⟨fun h => (nomatch h), fun h => (nomatch h)⟩

/-- The keys that are visible stay so, and others get identities with indices of their own,
from `start` on and below `next`. -/
structure Extends (visible visible' : family.Key → Option Identity) (start next : UInt32)
    (identityOf : family.Key → UInt32 → Identity) : Prop where
  kept : ∀ {key i}, visible key = some i → visible' key = some i
  fresh : ∀ {key i}, visible' key = some i → visible key = some i ∨
    visible key = none ∧ i = identityOf key i.index ∧
      start.toNat ≤ i.index.toNat ∧ i.index.toNat < next.toNat
  distinct : ∀ {key key' i i'}, visible key = none → visible key' = none →
    visible' key = some i → visible' key' = some i' → i.index = i'.index → key = key'
  start_le : start.toNat ≤ next.toNat

namespace Extends

variable {visible visible' : family.Key → Option Identity} {start next bound : UInt32}
  {identityOf : family.Key → UInt32 → Identity}

/-- Templates that are numbered by their ranks have indices of their own. -/
theorem of_ranks {cmp : Template family → Template family → Ordering} [Std.TransCmp cmp]
    (hcmp : ∀ a b, cmp a b = .eq → a.key = b.key) {ts : List (Template family)}
    (hnext : next.toNat = start.toNat + ts.length)
    (hindex : ∀ key index, (identityOf key index).index = index)
    (hkept : ∀ {key i}, visible key = some i → visible' key = some i)
    (hfresh : ∀ {key i}, visible' key = some i → visible key = some i ∨
      visible key = none ∧ ∃ t ∈ ts, t.key = key ∧ ∃ index : UInt32,
        index.toNat = start.toNat + (ts.countP fun u => cmp u t = .lt) ∧
        i = identityOf key index) :
    Extends visible visible' start next identityOf := by
  refine ⟨hkept, fun {key i} hi => ?_, ?_, ?_⟩
  · rcases hfresh hi with hold | ⟨hnone, t, ht, rfl, index, hrank, rfl⟩
    · exact .inl hold
    · have hlt : (ts.countP fun u => cmp u t = .lt) < ts.length := countP_lt_length ht
      rw [hindex]
      exact .inr ⟨hnone, rfl, by omega, by omega⟩
  · intro key key' i i' hnone hnone' hi hi' heq
    rcases hfresh hi with hold | ⟨-, t, ht, rfl, index, hrank, rfl⟩
    · rw [hnone] at hold
      cases hold
    rcases hfresh hi' with hold | ⟨-, t', ht', rfl, index', hrank', rfl⟩
    · rw [hnone'] at hold
      cases hold
    rw [hindex, hindex] at heq
    subst heq
    -- of two different templates one has the smaller rank
    rcases hlt : cmp t t'
    · have hless := countP_lt_countP ht hlt
      omega
    · exact hcmp _ _ hlt
    · have hless := countP_lt_countP ht' (Std.OrientedCmp.lt_of_gt hlt)
      omega
  · omega

theorem numbered (h : Extends visible visible' start next identityOf)
    (hnumbered : Numbered visible bound) (hbound : bound.toNat ≤ start.toNat) :
    Numbered visible' next := by
  have hstart := h.start_le
  refine ⟨fun {key i} hi => ?_, fun {key key' i i'} hi hi' heq => ?_⟩
  · rcases h.fresh hi with hold | ⟨-, -, -, hlt⟩
    · have hlt := hnumbered.below hold
      omega
    · exact hlt
  · rcases h.fresh hi with hold | ⟨hnone, -, hle, -⟩ <;>
      rcases h.fresh hi' with hold' | ⟨hnone', -, hle', -⟩
    · exact hnumbered.distinct hold hold' heq
    · have hlt := hnumbered.below hold
      rw [heq] at hlt
      omega
    · have hlt := hnumbered.below hold'
      rw [heq] at hle
      omega
    · exact h.distinct hnone hnone' hi hi' heq

end Extends

namespace Generation.Finished

variable {g g' : Generation} {known : ShapeKey → Option Identity} {start numbering : Numbering}
  {entries : List (ShapeKey × Identity)} {carried : List ShapeKey}

/-- Finalization extends what is known of the shapes, be it inherited or recorded. -/
theorem extends_shapes (h : g.Finished known start entries carried numbering g')
    (hkeyed : g.shapes.Keyed) (hclear : ∀ key t, g.shapes.find? key = some t → known key = none)
    {recorded : ShapeKey → Option Identity}
    (hrecorded : ∀ {key i}, (key, i) ∈ entries ↔ recorded key = some i) :
    Extends (fun key : ShapeKey => (known key).or (recorded key))
      (fun key => ((g'.shapes.find? key).bind (·.identity)).or (known key))
      start.nextShape numbering.nextShape g.shapeIdentity := by
  refine Extends.of_ranks (fun _ _ => Template.key_eq_of_shapeCompare) h.nextShape_eq
    (fun _ _ => rfl) ?_ ?_
  · -- what was known keeps its identity
    intro key i hi
    rcases hknown : known key with _ | existing
    · rw [hknown, Option.none_or] at hi
      rw [h.recorded (hrecorded.2 hi) hknown]
      rfl
    · have hnone : g'.shapes.find? key = none := by
        rcases hkey : g'.shapes.find? key with _ | t
        · rfl
        · rw [h.known_eq_none hclear (Option.isSome_of_eq_some hkey)] at hknown
          cases hknown
      rw [hknown, Option.some_or] at hi
      rw [hnone, Option.bind_none, Option.none_or, hi]
  · intro key i hi
    rcases Option.or_eq_some_iff.1 hi with hown | ⟨-, hinherited⟩
    · obtain ⟨t, ht, hidentity⟩ := Option.bind_eq_some_iff.1 hown
      rw [h.known_eq_none hclear (Option.isSome_of_eq_some ht), Option.none_or]
      rcases h.shape_cases hkeyed hclear ht with
        ⟨j, hentry, hj⟩ | ⟨hnot, t₀, hmem, hkey, index, hrank, hindex⟩
      · rw [hj] at hidentity
        exact .inl ((hrecorded.1 hentry).trans hidentity)
      · have hnone : recorded key = none := by
          rcases hr : recorded key with _ | j
          · rfl
          · exact absurd (List.mem_map_of_mem (f := Prod.fst) (hrecorded.2 hr)) hnot
        rw [hindex] at hidentity
        exact .inr ⟨hnone, t₀, hmem, hkey, index, hrank, (Option.some.inj hidentity).symm⟩
    · rw [hinherited]
      exact .inl rfl

/-- Finalization extends what is inherited of the delegates. Nothing is recorded of these, so all
of the new ones are numbered. -/
theorem extends_delegates (h : g.Finished known start entries carried numbering g')
    (hkeyed : g.delegates.Keyed) {inherited : Family.delegate.Key → Option Identity}
    (hclear : ∀ key t, g.delegates.find? key = some t → inherited key = none) :
    Extends inherited
      (fun key => ((g'.delegates.find? key).bind (·.identity)).or (inherited key))
      start.nextDelegate numbering.nextDelegate delegateIdentity := by
  have hnone : ∀ key, (g'.delegates.find? key).isSome → inherited key = none := by
    intro key hsome
    obtain ⟨t, ht⟩ := Option.isSome_iff_exists.1 ((h.isSome_delegate_iff hkeyed key).1 hsome)
    exact hclear key t ht
  refine Extends.of_ranks (fun _ _ => Template.key_eq_of_delegateCompare) h.nextDelegate_eq
    (fun _ _ => rfl) ?_ ?_
  · intro key i hi
    rcases hkey : g'.delegates.find? key with _ | t
    · rw [Option.bind_none, Option.none_or, hi]
    · rw [hnone key (Option.isSome_of_eq_some hkey)] at hi
      cases hi
  · intro key i hi
    rcases Option.or_eq_some_iff.1 hi with hown | ⟨-, hinherited⟩
    · obtain ⟨t, ht, hidentity⟩ := Option.bind_eq_some_iff.1 hown
      obtain ⟨t₀, hmem, hkey, index, hrank, hindex⟩ := h.delegate_cases hkeyed ht
      rw [hindex] at hidentity
      exact .inr ⟨hnone key (Option.isSome_of_eq_some ht), t₀, hmem, hkey, index, hrank,
        (Option.some.inj hidentity).symm⟩
    · exact .inl hinherited

end Generation.Finished

/-! ## Finalizations -/

/-- A finalization that succeeds, in a session that can come about. -/
structure Finalization where
  before : Session
  home : Handle
  given : Numbering
  previous : Option IdentityMap
  result : Finalized
  after : Session
  reachable : before.Reachable
  run_eq : (Step.finalize home given previous).run before = (.ok result, after)

namespace Finalization

/-- There is a finalization to speak of whenever it succeeds. -/
theorem exists_of_isSome {s : Session} (hs : s.Reachable) {h : Handle} {given : Numbering}
    {previous : Option IdentityMap}
    (hok : ((Step.finalize h given previous).run s).1.toOption.isSome) :
    ∃ f : Finalization, f.before = s ∧ f.home = h ∧ f.previous = previous ∧
      (Step.finalize h given previous).run s = (.ok f.result, f.after) := by
  rcases hrun : (Step.finalize h given previous).run s with ⟨_ | result, s'⟩
  · rw [hrun] at hok
    cases hok
  · exact ⟨⟨s, h, given, previous, result, s', hs, hrun⟩, rfl, rfl, rfl, rfl⟩

/-- The identities that are visible in the finalized generation. -/
def visible (f : Finalization) (family : Family) (key : family.Key) : Option Identity :=
  f.after.lookupIdentity family f.home key

/-- The identity that was visible before, or else recorded in the map. -/
def known (f : Finalization) (g : Generation) (key : ShapeKey) : Option Identity :=
  (f.before.inheritedIdentity .shape g.ancestors key).or ((f.previous.getD .empty).get? key)

variable {f f' : Finalization} {g : Generation}

theorem reachable_after (f : Finalization) : f.after.Reachable := by
  have hleads := f.reachable.of_leadsTo (.step .refl (Step.finalize f.home f.given f.previous))
  rwa [f.run_eq] at hleads

theorem exists_generation (f : Finalization) : ∃ g, f.before.generation? f.home = some g := by
  rcases hg : f.before.generation? f.home with _ | g
  · have hrun := f.run_eq
    rw [Step.run, Run.finalize_missing hg] at hrun
    cases hrun
  · exact ⟨g, rfl⟩

/-- What is known of a finalization, in one place. -/
structure Spec (f : Finalization) (g g' : Generation) : Prop where
  generation : f.after.generation? f.home = some g'
  finalized : g'.finalized = some f.result.numbering
  shapes : Extends (f.known g) (f.visible .shape)
    (f.before.startNumbering g f.given f.previous).nextShape f.result.numbering.nextShape
    g.shapeIdentity
  delegates : Extends (f.before.inheritedIdentity .delegate g.ancestors) (f.visible .delegate)
    (f.before.startNumbering g f.given f.previous).nextDelegate f.result.numbering.nextDelegate
    Generation.delegateIdentity
  map : ∀ key, f.result.map.get? key = f.visible .shape key
  numbering : f.result.map.numbering = f.result.numbering

theorem mem_entries_iff {previous : Option IdentityMap} {key : ShapeKey} {identity : Identity} :
    (key, identity) ∈ (previous.map (·.entries)).getD [] ↔
      (previous.getD .empty).get? key = some identity := by
  cases previous with
  | none => exact ⟨fun h => (nomatch h), fun h => (nomatch h)⟩
  | some map => exact IdentityMap.get?_eq_some_iff.symm

/-- A finalization finishes its generation. What is visible afterwards is what the generation
has, and else what it inherits. -/
theorem exists_finished (f : Finalization) (hg : f.before.generation? f.home = some g) :
    ∃ carried g', f.after.generation? f.home = some g' ∧ g.Ready f.home ∧
      g.Finished (f.before.inheritedIdentity .shape g.ancestors)
        (f.before.startNumbering g f.given f.previous)
        ((f.previous.map (·.entries)).getD []) carried f.result.numbering g' ∧
      f.result = f.after.report f.home g' f.previous carried f.result.numbering ∧
      ∀ family key, f.visible family key =
        (((g'.cache family).find? key).bind (·.identity)).or
          (f.before.inheritedIdentity family g.ancestors key) := by
  have hs := f.reachable.coherent
  obtain ⟨carried, g', hafter, hready, hfinished, hresult⟩ := hs.finished hg f.run_eq
  have hself := Session.generation?_put_self (Option.isSome_of_eq_some hg) g'
  rw [← hafter] at hself
  have hfollows : f.before.Follows f.after := (Session.leadsTo_of_run f.run_eq).follows hs
  have hancestors : g'.ancestors = g.ancestors := by
    obtain ⟨g₁, hg₁, -, hancestors, -⟩ := hfollows.generation hg
    rw [hself] at hg₁
    rw [Option.some.inj hg₁, hancestors]
  refine ⟨carried, g', hself, hready, hfinished, hresult, fun family key => ?_⟩
  rw [visible, f.reachable_after.coherent.lookupIdentity_eq hself, hancestors,
    hfollows.inheritedIdentity_eq hg]

theorem exists_spec (f : Finalization) (hg : f.before.generation? f.home = some g) :
    ∃ g', f.Spec g g' := by
  obtain ⟨carried, g', hself, hready, hfinished, hresult, hvisible⟩ := f.exists_finished hg
  have hclear := f.reachable.coherent.clear hg
  have hshapes : Extends (f.known g) (f.visible .shape)
      (f.before.startNumbering g f.given f.previous).nextShape f.result.numbering.nextShape
      g.shapeIdentity := by
    rw [funext (hvisible .shape)]
    exact hfinished.extends_shapes (hready.keyed .shape) (hclear .shape) mem_entries_iff
  have hdelegates : Extends (f.before.inheritedIdentity .delegate g.ancestors)
      (f.visible .delegate) (f.before.startNumbering g f.given f.previous).nextDelegate
      f.result.numbering.nextDelegate Generation.delegateIdentity := by
    rw [funext (hvisible .delegate)]
    exact hfinished.extends_delegates (hready.keyed .delegate) (hclear .delegate)
  refine ⟨g', hself, hfinished.finalized_eq, hshapes, hdelegates, fun key => ?_, ?_⟩
  · have hmap : f.result.map.get? key =
        (f.visible .shape key).or ((f.previous.getD .empty).get? key) := by
      rw [hresult]
      exact f.reachable_after.coherent.get?_identityMap hself (f.previous.getD .empty) key
    rcases hkey : (f.previous.getD .empty).get? key with _ | i
    · rw [hmap, hkey, Option.or_none]
    · obtain ⟨j, hj⟩ : ∃ j, f.known g key = some j := by
        rw [← Option.isSome_iff_exists, known, hkey, Option.isSome_or, Option.isSome_some,
          Bool.or_true]
      rw [hmap, hshapes.kept hj, Option.some_or]
  · rw [hresult]
    rfl

/-- The map of an output has the visible identities. -/
theorem get?_map (f : Finalization) (key : ShapeKey) :
    f.result.map.get? key = f.visible .shape key := by
  obtain ⟨g, hg⟩ := f.exists_generation
  obtain ⟨g', hspec⟩ := f.exists_spec hg
  exact hspec.map key

theorem numbering_map (f : Finalization) : f.result.map.numbering = f.result.numbering := by
  obtain ⟨g, hg⟩ := f.exists_generation
  obtain ⟨g', hspec⟩ := f.exists_spec hg
  exact hspec.numbering

/-! ## One after another -/

/-- The second finalization continues the first: it is that of a generation which was derived
from the first one, with or without the map of the output; or that of a root with the map of
the output, in whatever session. -/
inductive FollowedBy (f f' : Finalization) : Prop where
  | derived {g : Generation} (hleads : f.after.LeadsTo f'.before)
      (hg : f'.before.generation? f'.home = some g) (hparent : g.ancestors.head? = some f.home)
      (hprevious : f'.previous = none ∨ f'.previous = some f.result.map)
  | restarted {g : Generation} (hg : f'.before.generation? f'.home = some g)
      (hroot : g.ancestors = []) (hprevious : f'.previous = some f.result.map)

theorem le_start_of_predecessor {s : Session} {numbering : Numbering}
    (h : s.predecessorNumbering g = some numbering) (given : Numbering)
    (previous : Option IdentityMap) :
    numbering.nextShape.toNat ≤ (s.startNumbering g given previous).nextShape.toNat ∧
      numbering.nextDelegate.toNat ≤ (s.startNumbering g given previous).nextDelegate.toNat := by
  rw [Session.startNumbering_eq, h, Option.getD_some]
  simp only [Numbering.toNat_nextShape_join, Numbering.toNat_nextDelegate_join]
  omega

theorem le_start_of_previous (s : Session) (g : Generation) (given : Numbering)
    (map : IdentityMap) :
    map.numbering.nextShape.toNat ≤ (s.startNumbering g given (some map)).nextShape.toNat ∧
      map.numbering.nextDelegate.toNat ≤
        (s.startNumbering g given (some map)).nextDelegate.toNat := by
  rw [Session.startNumbering_eq, Option.map_some, Option.getD_some]
  simp only [Numbering.toNat_nextShape_join, Numbering.toNat_nextDelegate_join]
  omega

/-- A finalized generation is there in all later sessions, with the counters it left behind. -/
theorem exists_later (f : Finalization) {s : Session} (hleads : f.after.LeadsTo s) :
    ∃ g, s.generation? f.home = some g ∧ g.finalized = some f.result.numbering := by
  obtain ⟨_, hg⟩ := f.exists_generation
  obtain ⟨_, hspec⟩ := f.exists_spec hg
  have hs := f.reachable_after.coherent
  obtain ⟨g, hg, -, -, hsettled⟩ := (hleads.follows hs).generation hspec.generation
  have hbegun := (hs hspec.generation).finalizing (Option.isSome_of_eq_some hspec.finalized)
  exact ⟨g, hg, (hsettled hbegun).2.trans hspec.finalized⟩

/-- **Whoever continues** a finalized generation inherits what was visible in it, and its
counters. -/
theorem inherits (f : Finalization) {s : Session} (hleads : f.after.LeadsTo s) {h : Handle}
    (hg : s.generation? h = some g) (hparent : g.ancestors.head? = some f.home) :
    (∀ family, s.inheritedIdentity family g.ancestors = f.visible family) ∧
      s.predecessorNumbering g = some f.result.numbering := by
  obtain ⟨_, hg₀⟩ := f.exists_generation
  obtain ⟨g₀, hspec⟩ := f.exists_spec hg₀
  obtain ⟨parent, hparent₁, hfinal⟩ := f.exists_later hleads
  have hs := f.reachable_after.coherent
  have hs' := hleads.coherent hs
  have hfollows := hleads.follows hs
  obtain ⟨_, hparent₂, -, hancestors, -⟩ := hfollows.generation hspec.generation
  obtain rfl := Option.some.inj (hparent₁.symm.trans hparent₂)
  have hbegun := (hs hspec.generation).finalizing (Option.isSome_of_eq_some hspec.finalized)
  have hchain : g.ancestors = f.home :: g₀.ancestors := by
    rcases (hs' hg).chain with hroot | ⟨p, parent', hp, -, -, hchain⟩
    · rw [hroot] at hparent
      cases hparent
    · rw [hchain] at hparent
      obtain rfl := Option.some.inj hparent
      rw [hchain, Option.some.inj (hp.symm.trans hparent₁), hancestors]
  rw [hchain]
  refine ⟨fun family => funext fun key => ?_, ?_⟩
  · exact hfollows.inheritedIdentity_cons hs hs' hspec.generation hbegun family key
  · rw [Session.predecessorNumbering, hchain, List.head?_cons, Option.bind_some, hparent₁,
      Option.bind_some, hfinal]

/-- What a finalization knows and where it begins to number, when it continues another one:
the shapes that it knows are those that were visible; delegates are forgotten when it starts
from scratch. -/
theorem FollowedBy.exists_known (h : f.FollowedBy f') :
    ∃ g, f'.before.generation? f'.home = some g ∧ f'.known g = f.visible .shape ∧
      (f'.before.inheritedIdentity .delegate g.ancestors = f.visible .delegate ∨
        f'.before.inheritedIdentity .delegate g.ancestors = fun _ => none) ∧
      f.result.numbering.nextShape.toNat ≤
        (f'.before.startNumbering g f'.given f'.previous).nextShape.toNat ∧
      f.result.numbering.nextDelegate.toNat ≤
        (f'.before.startNumbering g f'.given f'.previous).nextDelegate.toNat := by
  cases h with
  | @derived g hleads hg hparent hprevious =>
    obtain ⟨hinherited, hpredecessor⟩ := f.inherits hleads hg hparent
    refine ⟨g, hg, ?_, .inl (hinherited .delegate), le_start_of_predecessor hpredecessor ..⟩
    funext key
    rw [known, hinherited]
    rcases hprevious with hprevious | hprevious
    · rw [hprevious]
      exact Option.or_none
    · rw [hprevious, Option.getD_some, get?_map, Option.or_self]
  | @restarted g hg hroot hprevious =>
    have hstart := le_start_of_previous f'.before g f'.given f.result.map
    rw [f.numbering_map, ← hprevious] at hstart
    have hinherited : ∀ family, f'.before.inheritedIdentity family g.ancestors = fun _ => none :=
      fun family => by rw [hroot]; rfl
    refine ⟨g, hg, ?_, .inr (hinherited .delegate), hstart⟩
    funext key
    rw [known, hinherited, hprevious, Option.getD_some, get?_map, Option.none_or]

/-- **One after another**, a finalization extends what was visible after the one before it;
delegates are forgotten when it starts from scratch. -/
theorem FollowedBy.extends (h : f.FollowedBy f') :
    ∃ (g : Generation) (start : Numbering) (delegates : DelegateKey → Option Identity),
      f.result.numbering.nextShape.toNat ≤ start.nextShape.toNat ∧
      f.result.numbering.nextDelegate.toNat ≤ start.nextDelegate.toNat ∧
      Extends (f.visible .shape) (f'.visible .shape) start.nextShape
        f'.result.numbering.nextShape g.shapeIdentity ∧
      (delegates = f.visible .delegate ∨ delegates = fun _ => none) ∧
      Extends delegates (f'.visible .delegate) start.nextDelegate
        f'.result.numbering.nextDelegate Generation.delegateIdentity := by
  obtain ⟨g, hg, hknown, hdelegates, hleShape, hleDelegate⟩ := h.exists_known
  obtain ⟨g', hspec'⟩ := f'.exists_spec hg
  have hshapes := hspec'.shapes
  rw [hknown] at hshapes
  exact ⟨g, _, _, hleShape, hleDelegate, hshapes, hdelegates, hspec'.delegates⟩

/-- What is visible after a finalization cannot be confused. -/
structure Distinguishes (f : Finalization) : Prop where
  shapes : Numbered (f.visible .shape) f.result.numbering.nextShape
  delegates : Numbered (f.visible .delegate) f.result.numbering.nextDelegate
  shapeName : ∀ {key i}, f.visible .shape key = some i →
    ∃ slot fragment, i.name = shapeTypeName i.index slot fragment
  delegateName : ∀ {key i}, f.visible .delegate key = some i → i.name = DelegateKey.typeName key

/-- New identities cannot be confused with the earlier ones. -/
theorem distinguishes_of_extends {shapes : Family.shape.Key → Option Identity}
    {delegates : Family.delegate.Key → Option Identity} {start bound : Numbering}
    (hshapes : Extends shapes (f.visible .shape) start.nextShape f.result.numbering.nextShape
      g.shapeIdentity)
    (hdelegates : Extends delegates (f.visible .delegate) start.nextDelegate
      f.result.numbering.nextDelegate Generation.delegateIdentity)
    (hshape : Numbered shapes bound.nextShape)
    (hdelegate : Numbered delegates bound.nextDelegate)
    (hleShape : bound.nextShape.toNat ≤ start.nextShape.toNat)
    (hleDelegate : bound.nextDelegate.toNat ≤ start.nextDelegate.toNat)
    (hshapeName : ∀ {key i}, shapes key = some i →
      ∃ slot fragment, i.name = shapeTypeName i.index slot fragment)
    (hdelegateName : ∀ {key i}, delegates key = some i → i.name = DelegateKey.typeName key) :
    f.Distinguishes := by
  refine ⟨hshapes.numbered hshape hleShape, hdelegates.numbered hdelegate hleDelegate,
    fun {key i} hi => ?_, fun {key i} hi => ?_⟩
  · rcases hshapes.fresh hi with hold | ⟨-, hnew, -⟩
    · exact hshapeName hold
    · exact ⟨_, _, congrArg Identity.name hnew⟩
  · rcases hdelegates.fresh hi with hold | ⟨-, hnew, -⟩
    · exact hdelegateName hold
    · exact congrArg Identity.name hnew

theorem distinguishes_of_root (hg : f.before.generation? f.home = some g)
    (hroot : g.ancestors = []) (hprevious : f.previous = none) : f.Distinguishes := by
  obtain ⟨g', hspec⟩ := f.exists_spec hg
  have hinherited : ∀ family, f.before.inheritedIdentity family g.ancestors = fun _ => none :=
    fun family => by rw [hroot]; rfl
  have hknown : f.known g = fun _ => none := by
    funext key
    rw [known, hinherited, hprevious]
    rfl
  have hshapes := hspec.shapes
  have hdelegates := hspec.delegates
  rw [hknown] at hshapes
  rw [hinherited] at hdelegates
  exact distinguishes_of_extends hshapes hdelegates (numbered_none Numbering.zero.nextShape)
    (numbered_none Numbering.zero.nextDelegate) (Nat.zero_le _) (Nat.zero_le _)
    (fun h => (nomatch h)) fun h => (nomatch h)

theorem FollowedBy.distinguishes (h : f.FollowedBy f') (hf : f.Distinguishes) :
    f'.Distinguishes := by
  obtain ⟨g, start, delegates, hleShape, hleDelegate, hshapes, rfl | rfl, hdelegates⟩ := h.extends
  · exact distinguishes_of_extends hshapes hdelegates hf.shapes hf.delegates hleShape hleDelegate
      hf.shapeName hf.delegateName
  · exact distinguishes_of_extends hshapes hdelegates hf.shapes (numbered_none _) hleShape
      hleDelegate hf.shapeName fun h => (nomatch h)

end Finalization

/-- A series of finalizations, the last one first, in which each continues the one before it;
it begins with a root that has no map to go by. -/
inductive Lineage : List Finalization → Prop where
  | root {f : Finalization} {g : Generation} (hg : f.before.generation? f.home = some g)
      (hroot : g.ancestors = []) (hprevious : f.previous = none) : Lineage [f]
  | next {f f' : Finalization} {fs : List Finalization} (h : Lineage (f :: fs))
      (hnext : f.FollowedBy f') : Lineage (f' :: f :: fs)

namespace Lineage

variable {f : Finalization} {fs : List Finalization}

theorem distinguishes (h : Lineage (f :: fs)) : f.Distinguishes := by
  generalize hfs : f :: fs = all at h
  induction h generalizing f fs with
  | root hg hroot hprevious =>
    obtain ⟨rfl, -⟩ := List.cons.inj hfs
    exact Finalization.distinguishes_of_root hg hroot hprevious
  | next h hnext ih =>
    obtain ⟨rfl, -⟩ := List.cons.inj hfs
    exact hnext.distinguishes (ih rfl)

/-- What came before the last step of a lineage is a lineage. -/
theorem of_cons {f' : Finalization} (h : Lineage (f' :: f :: fs)) : Lineage (f :: fs) := by
  cases h with
  | next h _ => exact h

/-- The earlier part of a lineage is a lineage. -/
theorem of_append {later : List Finalization} (h : Lineage (later ++ f :: fs)) :
    Lineage (f :: fs) := by
  induction later with
  | nil => exact h
  | cons f' later ih =>
    refine ih ?_
    cases later <;> exact h.of_cons

/-- No counter goes back, and no shape is lost. -/
theorem le_of_mem (h : Lineage (f :: fs)) {e : Finalization} (he : e ∈ fs) :
    e.result.numbering.nextShape.toNat ≤ f.result.numbering.nextShape.toNat ∧
      ∀ {key i}, e.visible .shape key = some i → f.visible .shape key = some i := by
  induction fs generalizing f with
  | nil => cases he
  | cons f₀ rest ih =>
    cases h with
    | next h hnext =>
      obtain ⟨g, start, delegates, hle, -, hshapes, -, -⟩ := hnext.extends
      have hstart := hshapes.start_le
      rcases List.mem_cons.1 he with rfl | he
      · exact ⟨by omega, hshapes.kept⟩
      · obtain ⟨hle', hkept⟩ := ih h he
        exact ⟨by omega, fun hi => hshapes.kept (hkept hi)⟩

/-- A shape that is new gets an index that no counter has passed before. -/
theorem le_of_new (h : Lineage (f :: fs)) {key : ShapeKey} {i : Identity}
    (hi : f.visible .shape key = some i) (hnew : ∀ e ∈ fs, e.visible .shape key = none)
    {e : Finalization} (he : e ∈ fs) : e.result.numbering.nextShape.toNat ≤ i.index.toNat := by
  cases h with
  | root => cases he
  | @next f₀ _ rest h hnext =>
    obtain ⟨g, start, delegates, hle, -, hshapes, -, -⟩ := hnext.extends
    rcases hshapes.fresh hi with hold | ⟨-, -, hstart, -⟩
    · rw [hnew f₀ (List.mem_cons_self ..)] at hold
      cases hold
    · rcases List.mem_cons.1 he with rfl | he
      · omega
      · have hle' := (h.le_of_mem he).1
        omega

/-- **No identity is ever reused** along a lineage. After every step,

1. the shapes that are visible in the generation have different indices, all of them below the
   counter that is left behind, and different names;
2. so have the delegates that are visible in the generation;
3. no shape has the name of a delegate;
4. every shape that was visible after an earlier step is, and has the same identity;
5. every shape that is visible for the first time has an index that is not below any counter
   that an earlier step left behind. -/
theorem no_identity_reused {all : List Finalization} (h : Lineage all)
    (later : List Finalization) (f : Finalization) (earlier : List Finalization)
    (hsplit : all = later ++ f :: earlier) :
    (∀ key key' i i', f.visible .shape key = some i → f.visible .shape key' = some i' →
      key ≠ key' → i.index ≠ i'.index ∧ i.name ≠ i'.name) ∧
    (∀ key i, f.visible .shape key = some i → i.index < f.result.numbering.nextShape) ∧
    (∀ key key' i i', f.visible .delegate key = some i → f.visible .delegate key' = some i' →
      key ≠ key' → i.index ≠ i'.index ∧ i.name ≠ i'.name) ∧
    (∀ key i, f.visible .delegate key = some i → i.index < f.result.numbering.nextDelegate) ∧
    (∀ key key' i i', f.visible .shape key = some i → f.visible .delegate key' = some i' →
      i.name ≠ i'.name) ∧
    (∀ e ∈ earlier, ∀ key i, e.visible .shape key = some i → f.visible .shape key = some i) ∧
    ∀ key i, f.visible .shape key = some i → (∀ e ∈ earlier, e.visible .shape key = none) →
      ∀ e ∈ earlier, e.result.numbering.nextShape ≤ i.index := by
  subst hsplit
  have hlineage := h.of_append
  have hf := hlineage.distinguishes
  refine ⟨?_, ?_, ?_, ?_, ?_, ?_, ?_⟩
  · intro key key' i i' hi hi' hne
    have hindex : i.index ≠ i'.index := fun heq => hne (hf.shapes.distinct hi hi' heq)
    -- the name of a shape has its index in it
    obtain ⟨slot, fragment, hname⟩ := hf.shapeName hi
    obtain ⟨slot', fragment', hname'⟩ := hf.shapeName hi'
    refine ⟨hindex, fun heq => hindex ?_⟩
    rw [hname, hname'] at heq
    exact (shapeTypeName_inj.1 heq).1
  · exact fun key i hi => UInt32.lt_iff_toNat_lt.2 (hf.shapes.below hi)
  · intro key key' i i' hi hi' hne
    refine ⟨fun heq => hne (hf.delegates.distinct hi hi' heq), fun heq => hne ?_⟩
    rw [hf.delegateName hi, hf.delegateName hi'] at heq
    exact DelegateKey.typeName_inj.1 heq
  · exact fun key i hi => UInt32.lt_iff_toNat_lt.2 (hf.delegates.below hi)
  · intro key key' i i' hi hi'
    obtain ⟨slot, fragment, hname⟩ := hf.shapeName hi
    rw [hname, hf.delegateName hi']
    exact shapeTypeName_ne _ _ _ _
  · exact fun e he key i => (hlineage.le_of_mem he).2
  · exact fun key i hi hnew e he =>
      UInt32.le_iff_toNat_le.2 (hlineage.le_of_new hi hnew he)

/-- A root with one shape. -/
def oneShape (key : ShapeKey) : Session :=
  Session.empty.after [⟨_, .root {}⟩, ⟨_, .request .shape 0 key none⟩]

/-- A root with one shape is finalized, and a generation that continues it has another one. -/
def chainedShapes (first second : ShapeKey) : Session :=
  ((Step.finalize 0 .zero none).run (oneShape first)).2.after
    [⟨_, .derive 0 {}⟩, ⟨_, .request .shape 1 second none⟩]

/-- A root in a new session that has only the map of an earlier output to go by still knows the
first shape of the lineage, and its own gets an index that was not used before. -/
theorem no_identity_reused_after_restart :
    ∃ (f₀ f₁ f₂ : Finalization) (first third : ShapeKey) (i j : Identity),
      Lineage [f₂, f₁, f₀] ∧ f₂.before = oneShape third ∧
      f₀.visible .shape first = some i ∧ f₂.visible .shape first = some i ∧
      f₂.visible .shape third = some j ∧ f₁.result.numbering.nextShape ≤ j.index := by
  obtain ⟨first, second, third, hok₀, hfirst, hnone₀, hchain, hok₁, hnone₁, hok₂⟩ :
      ∃ first second third : ShapeKey,
        ((Step.finalize 0 .zero none).run (oneShape first)).1.toOption.isSome ∧
        (((Step.finalize 0 .zero none).run (oneShape first)).2.lookupIdentity .shape 0
          first).isSome ∧
        ((Step.finalize 0 .zero none).run (oneShape first)).2.lookupIdentity .shape 0 third =
          none ∧
        ((chainedShapes first second).generation? 1).map (·.ancestors) = some [0] ∧
        ((Step.finalize 1 .zero none).run (chainedShapes first second)).1.toOption.isSome ∧
        ((Step.finalize 1 .zero none).run (chainedShapes first second)).2.lookupIdentity .shape 1
          third = none ∧
        ((Step.finalize 1 .zero none).run (chainedShapes first second)).1.toOption.any
          fun result =>
            ((Step.finalize 0 .zero (some result.map)).run (oneShape third)).1.toOption.isSome &&
            (((Step.finalize 0 .zero (some result.map)).run (oneShape third)).2.lookupIdentity
              .shape 0 third).isSome :=
    ⟨⟨["a"], by decide⟩, ⟨["b"], by decide⟩, ⟨["c"], by decide⟩, by decide +kernel⟩
  have hreachable : ∀ key, (oneShape key).Reachable := fun key => Session.leadsTo_after ..
  have hroot : ∀ key, ((oneShape key).generation? 0).map (·.ancestors) = some [] := fun _ => rfl
  obtain ⟨f₀, hbefore₀, hhome₀, hprevious₀, hrun₀⟩ :=
    Finalization.exists_of_isSome (hreachable first) hok₀
  have hleads : f₀.after.LeadsTo (chainedShapes first second) := by
    rw [chainedShapes, hrun₀]
    exact Session.leadsTo_after ..
  obtain ⟨f₁, hbefore₁, hhome₁, hprevious₁, hrun₁⟩ :=
    Finalization.exists_of_isSome (f₀.reachable_after.of_leadsTo hleads) hok₁
  rw [hrun₁] at hok₂ hnone₁
  obtain ⟨hok₂, hthird⟩ := Bool.and_eq_true_iff.1 hok₂
  obtain ⟨f₂, hbefore₂, hhome₂, hprevious₂, hrun₂⟩ :=
    Finalization.exists_of_isSome (hreachable third) hok₂
  rw [hrun₀] at hfirst hnone₀
  rw [hrun₂] at hthird
  obtain ⟨g₀, hg₀, hroot₀⟩ := Option.map_eq_some_iff.1 (hroot first)
  obtain ⟨g₁, hg₁, hchain⟩ := Option.map_eq_some_iff.1 hchain
  obtain ⟨g₂, hg₂, hroot₂⟩ := Option.map_eq_some_iff.1 (hroot third)
  rw [← hbefore₀, ← hhome₀] at hg₀
  rw [← hbefore₁, ← hhome₁] at hg₁
  rw [← hbefore₂, ← hhome₂] at hg₂
  have hlineage : Lineage [f₂, f₁, f₀] :=
    .next (.next (.root hg₀ hroot₀ hprevious₀)
      (.derived (hbefore₁ ▸ hleads) hg₁ (by rw [hchain, hhome₀]; rfl) (.inl hprevious₁)))
      (.restarted hg₂ hroot₂ hprevious₂)
  obtain ⟨i, hi⟩ := Option.isSome_iff_exists.1 hfirst
  obtain ⟨j, hj⟩ := Option.isSome_iff_exists.1 hthird
  rw [← hhome₀] at hi hnone₀
  rw [← hhome₁] at hnone₁
  rw [← hhome₂] at hj
  obtain ⟨-, -, -, -, -, hkept, hnew⟩ := hlineage.no_identity_reused [] f₂ [f₁, f₀] rfl
  refine ⟨f₀, f₁, f₂, first, third, i, j, hlineage, hbefore₂, hi, hkept f₀ (by simp) first i hi,
    hj, hnew third j hj ?_ f₁ (by simp)⟩
  simp only [List.mem_cons, List.not_mem_nil, or_false, forall_eq_or_imp, forall_eq]
  exact ⟨hnone₁, hnone₀⟩

end Lineage

end AnonymousTypes
