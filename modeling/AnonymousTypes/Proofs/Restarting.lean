import Mathlib.Data.List.Sort
import AnonymousTypes.Proofs.Emission
import AnonymousTypes.Proofs.Exhaustion
import AnonymousTypes.Proofs.Storing

/-!
# Starting over with a stored map

A compilation can be continued in two ways: by a generation that is derived from the finalized
one, or, in another process, by a root that is finalized with the map of the output, which was
stored and loaded again. The two do quite different things. The one finds its shapes at the
earlier generations; the other has to create templates for all of them and carries the recorded
names over. Still they cannot be told apart by what comes out (`Finalization.restart_agrees`).

The reason is that both leave the same shapes to be named, with the same earliest locations
(`Finalization.visible_eq`): those that the program asks for and that were not visible before.
-/

namespace AnonymousTypes

variable {family : Family}

/-! ## Templates regardless of their owners -/

namespace Template

/-- The template without its owner. -/
def unowned (t : Template family) : Template family := { t with owner := ⟨0⟩ }

theorem key_of_unowned {t u : Template family} (h : t.unowned = u.unowned) : t.key = u.key :=
  congrArg (·.key) h

/-- The owner does not count when shapes are named. -/
theorem countP_unowned (ts : List (Template .shape)) (t : Template .shape) :
    ((ts.map unowned).countP fun u => shapeCompare u t.unowned = .lt) =
      ts.countP fun u => shapeCompare u t = .lt :=
  List.countP_map ..

end Template

/-! ## New shapes -/

namespace Definition

/-- The definition is that of a shape which no earlier output contains. -/
def isNewShape (d : Definition) : Bool := d.shape?.isSome && d.isNew

end Definition

/-- The new shapes that a generation hands over between two sessions, in order. -/
def Session.newShapes (s s' : Session) (h : Handle) : List Definition :=
  (s.handedOver s' h).filter (·.isNewShape)

namespace Cache

/-- Definitions are handed over in strict order: no two of them have both the same index and the
same text. -/
theorem definitions_isLT {c : Cache family} (hkeyed : c.Keyed) (isNew : family.Key → Bool) :
    (c.definitions isNew).Pairwise fun a b => indexCompare a b = .lt := by
  rw [definitions_eq]
  refine sortList_isLT ?_
  refine List.Pairwise.filterMap _ ?_ (List.pairwise_map.1 hkeyed.nodup_keys)
  intro t u hne d hd d' hd' heq
  obtain ⟨identity, -, rfl⟩ := Option.map_eq_some_iff.1 hd
  obtain ⟨identity', -, rfl⟩ := Option.map_eq_some_iff.1 hd'
  exact hne (Family.keyText_inj.1 (Std.LawfulEqOrd.eq_of_compare (Ordering.then_eq_eq.1 heq).2))

end Cache

theorem Generation.newShapes_isLT {g : Generation} (hkeyed : ∀ family, (g.cache family).Keyed)
    (carried : List ShapeKey) : ((g.definitions carried).filter (·.isNewShape)).Pairwise
      fun a b => Cache.indexCompare a b = .lt := by
  have hshapes : g.shapes.Keyed := hkeyed .shape
  have hdelegates : (g.delegates.definitions fun _ => true).filter (·.isNewShape) = [] := by
    refine List.filter_eq_nil_iff.2 fun d hd => ?_
    obtain ⟨key, t, identity, -, -, rfl⟩ := (Cache.mem_definitions (hkeyed .delegate)).1 hd
    exact Bool.false_ne_true
  rw [definitions, List.filter_append, hdelegates, List.append_nil]
  exact (Cache.definitions_isLT hshapes _).filter _

/-! ## Work -/

/-- What there is to do when a generation is finalized. -/
structure Work where
  config : OutputConfig
  /-- the counters to continue from -/
  start : Numbering
  /-- the shapes that are to be named -/
  fresh : List (Template .shape)
  /-- the number of delegates that are to be numbered -/
  delegates : Nat

/-- What there is to do for a generation of a session. -/
def Session.work (s : Session) (g : Generation) (given : Numbering)
    (previous : Option IdentityMap) : Work where
  config := g.config
  start := s.startNumbering g given previous
  fresh := g.unrecorded ((previous.map (·.entries)).getD [])
  delegates := g.delegates.templates.length

namespace Work

/-- The same is to be done, for templates that may belong to different generations. -/
structure Alike (w w' : Work) : Prop where
  config_eq : w'.config = w.config
  start_eq : w'.start = w.start
  fresh_perm : (w'.fresh.map Template.unowned).Perm (w.fresh.map Template.unowned)
  delegates_eq : w'.delegates = w.delegates

variable {w w' : Work}

theorem Alike.symm (h : w.Alike w') : w'.Alike w :=
  ⟨h.config_eq.symm, h.start_eq.symm, h.fresh_perm.symm, h.delegates_eq.symm⟩

theorem Alike.length_eq (h : w.Alike w') : w'.fresh.length = w.fresh.length := by
  have hlength := h.fresh_perm.length_eq
  rwa [List.length_map, List.length_map] at hlength

/-- The identity that a shape gets, by its rank among those that are to be named. -/
def Names (w : Work) (key : ShapeKey) (identity : Identity) : Prop :=
  ∃ t ∈ w.fresh, t.key = key ∧ ∃ index : UInt32,
    index.toNat = w.start.nextShape.toNat +
      (w.fresh.countP fun u => Template.shapeCompare u t = .lt) ∧
    identity = ⟨shapeTypeName index w.config.slot w.config.fragment, index⟩

/-- **Owners do not count** when shapes are named: only the location and the text of a template
are compared. -/
theorem Alike.names (h : w.Alike w') {key : ShapeKey} {identity : Identity}
    (hnames : w.Names key identity) : w'.Names key identity := by
  obtain ⟨t, ht, hkey, index, hindex, rfl⟩ := hnames
  obtain ⟨u, hu, hunowned⟩ :=
    List.mem_map.1 (h.fresh_perm.mem_iff.2 (List.mem_map_of_mem (f := Template.unowned) ht))
  have hrank : (w'.fresh.countP fun v => Template.shapeCompare v u = .lt) =
      w.fresh.countP fun v => Template.shapeCompare v t = .lt := by
    rw [← Template.countP_unowned w'.fresh, hunowned, h.fresh_perm.countP_eq,
      Template.countP_unowned]
  exact ⟨u, hu, (Template.key_of_unowned hunowned).trans hkey, index,
    by rw [hindex, h.start_eq, hrank], by rw [h.config_eq]⟩

end Work

theorem Session.suffices_iff_of_alike {s s' : Session} {g g' : Generation}
    {given given' : Numbering} {previous previous' : Option IdentityMap}
    (h : (s.work g given previous).Alike (s'.work g' given' previous')) :
    s'.Suffices g' given' previous' ↔ s.Suffices g given previous := by
  have hstart : s'.startNumbering g' given' previous' = s.startNumbering g given previous :=
    h.start_eq
  have hfresh : (g'.unrecorded ((previous'.map (·.entries)).getD [])).length =
      (g.unrecorded ((previous.map (·.entries)).getD [])).length := h.length_eq
  have hdelegates : g'.delegates.templates.length = g.delegates.templates.length := h.delegates_eq
  rw [Suffices, Suffices, Generation.Suffices, Generation.Suffices, hstart, hfresh, hdelegates]

namespace Finalization

variable {f f' fx fy : Finalization} {g gx gy : Generation}

/-- The new shapes that a finalization hands over, in order. -/
def newShapes (f : Finalization) : List Definition := f.before.newShapes f.after f.home

theorem newShapes_isLT (f : Finalization) :
    f.newShapes.Pairwise fun a b => Cache.indexCompare a b = .lt := by
  obtain ⟨g, hg⟩ := f.exists_generation
  obtain ⟨carried, g', hself, -, hfinished, -, -⟩ := f.exists_finished hg
  rw [newShapes, Session.newShapes, Session.handedOver_eq hg hself hfinished.handedOff_eq]
  exact Generation.newShapes_isLT (f.reachable_after.coherent.keyed hself) carried

/-- **The new shapes** are those that were not visible and are now. -/
theorem FollowedBy.mem_newShapes (h : f.FollowedBy f') {d : Definition} :
    d ∈ f'.newShapes ↔ ∃ key identity, f.visible .shape key = none ∧
      f'.visible .shape key = some identity ∧ d = .ofShape key identity true := by
  obtain ⟨g, hg, hknown, -⟩ := h.exists_known
  have hunknown : ∀ key, f.visible .shape key = none ↔
      f'.before.inheritedIdentity .shape g.ancestors key = none ∧
        (f'.previous.getD .empty).get? key = none := fun key => by
    rw [← hknown, known, Option.or_eq_none_iff]
  rw [newShapes, Session.newShapes, ← emitted, List.mem_filter, Definition.isNewShape,
    Bool.and_eq_true, Option.isSome_iff_exists]
  constructor
  · rintro ⟨hd, ⟨key, hkey⟩, hnew⟩
    obtain ⟨hnone, identity, hidentity, rfl⟩ := (mem_emitted_iff hg).1 ⟨hd, hkey⟩
    have hrecorded := Option.isNone_iff_eq_none.1 (show Option.isNone _ = true from hnew)
    refine ⟨key, identity, (hunknown key).2 ⟨hnone, hrecorded⟩, hidentity, ?_⟩
    rw [hrecorded]
    rfl
  · rintro ⟨key, identity, hnone, hidentity, rfl⟩
    obtain ⟨hinherited, hrecorded⟩ := (hunknown key).1 hnone
    have hmem := (mem_emitted_iff hg).2 ⟨hinherited, identity, hidentity, rfl⟩
    rw [hrecorded] at hmem
    exact ⟨hmem.1, ⟨key, rfl⟩, rfl⟩

/-- What a finalization has to do. -/
def work (f : Finalization) (g : Generation) : Work := f.before.work g f.given f.previous

/-- **A shape that is unknown** gets the identity that the work names it by, if any. -/
theorem visible_eq_some_iff (hg : f.before.generation? f.home = some g) {key : ShapeKey}
    (hunknown : f.known g key = none) {identity : Identity} :
    f.visible .shape key = some identity ↔ (f.work g).Names key identity := by
  obtain ⟨carried, g', hself, hready, hfinished, -, hvisible⟩ := f.exists_finished hg
  obtain ⟨hinherited, hrecorded⟩ := Option.or_eq_none_iff.1 hunknown
  have hown : f.visible .shape key = (g'.shapes.find? key).bind (·.identity) := by
    rw [hvisible, hinherited, Option.or_none]
    rfl
  rw [hown]
  constructor
  · intro hidentity
    obtain ⟨t, ht, hidentity⟩ := Option.bind_eq_some_iff.1 hidentity
    have hclear := f.reachable.coherent.clear hg .shape
    rcases hfinished.shape_cases (hready.keyed .shape) hclear ht with
      ⟨i, hentry, -⟩ | ⟨-, u, hu, hkey, index, hindex, hnamed⟩
    · rw [mem_entries_iff, hrecorded] at hentry
      cases hentry
    · exact ⟨u, hu, hkey, index, hindex, Option.some.inj (hidentity.symm.trans hnamed)⟩
  · rintro ⟨t, ht, rfl, index, hindex, rfl⟩
    obtain ⟨i, hi, hfind⟩ := hfinished.shape t ht
    rw [hfind, Option.bind_some, UInt32.toNat_inj.1 (hi.trans hindex.symm)]
    rfl

section

variable (hx : f.FollowedBy fx) (hy : f.FollowedBy fy)
  (hgx : fx.before.generation? fx.home = some gx) (hgy : fy.before.generation? fy.home = some gy)
  (halike : (fx.work gx).Alike (fy.work gy))

include hgx hgy halike

/-- The counters are left at the same values. -/
theorem numbering_eq_of_alike : fy.result.numbering = fx.result.numbering := by
  obtain ⟨_, _, -, -, hx, -⟩ := fx.exists_finished hgx
  obtain ⟨_, _, -, -, hy, -⟩ := fy.exists_finished hgy
  refine Numbering.ext_toNat ?_ ?_
  · calc fy.result.numbering.nextShape.toNat
      _ = (fy.work gy).start.nextShape.toNat + (fy.work gy).fresh.length := hy.nextShape_eq
      _ = (fx.work gx).start.nextShape.toNat + (fx.work gx).fresh.length := by
        rw [halike.start_eq, halike.length_eq]
      _ = fx.result.numbering.nextShape.toNat := hx.nextShape_eq.symm
  · calc fy.result.numbering.nextDelegate.toNat
      _ = (fy.work gy).start.nextDelegate.toNat + (fy.work gy).delegates := hy.nextDelegate_eq
      _ = (fx.work gx).start.nextDelegate.toNat + (fx.work gx).delegates := by
        rw [halike.start_eq, halike.delegates_eq]
      _ = fx.result.numbering.nextDelegate.toNat := hx.nextDelegate_eq.symm

include hx hy

/-- Two finalizations that continue the same one, and have the same to do, make the same
identities visible. -/
theorem visible_eq_of_alike : fy.visible .shape = fx.visible .shape := by
  obtain ⟨_, hgx', hknownx, -⟩ := hx.exists_known
  obtain ⟨_, hgy', hknowny, -⟩ := hy.exists_known
  obtain rfl := Option.some.inj (hgx.symm.trans hgx')
  obtain rfl := Option.some.inj (hgy.symm.trans hgy')
  obtain ⟨_, hspecx⟩ := fx.exists_spec hgx
  obtain ⟨_, hspecy⟩ := fy.exists_spec hgy
  funext key
  -- what was visible is kept by both; of the rest, each names what it has to name
  rcases hseen : f.visible .shape key with _ | identity
  · refine Option.ext fun identity => ?_
    rw [visible_eq_some_iff hgx ((congrFun hknownx key).trans hseen),
      visible_eq_some_iff hgy ((congrFun hknowny key).trans hseen)]
    exact ⟨halike.symm.names, halike.names⟩
  · rw [hspecx.shapes.kept ((congrFun hknownx key).trans hseen),
      hspecy.shapes.kept ((congrFun hknowny key).trans hseen)]

/-- **Two ways to continue** a finalization have the same outcome if the same is left to do. -/
theorem outcome_eq_of_alike :
    fy.result.map = fx.result.map ∧ fy.newShapes = fx.newShapes := by
  have hvisible := visible_eq_of_alike hx hy hgx hgy halike
  refine ⟨IdentityMap.ext_get? (fun key => ?_) ?_, ?_⟩
  · rw [get?_map, get?_map, hvisible]
  · obtain ⟨_, hspecx⟩ := fx.exists_spec hgx
    obtain ⟨_, hspecy⟩ := fy.exists_spec hgy
    rw [hspecx.numbering, hspecy.numbering, numbering_eq_of_alike hgx hgy halike]
  · -- both lists are sorted strictly, so it is enough that they have the same members
    have hirrefl : Std.Irrefl fun a b => Cache.indexCompare a b = .lt :=
      ⟨fun a => by simp [Std.ReflCmp.compare_self]⟩
    have hasymm : Std.Asymm fun a b => Cache.indexCompare a b = .lt :=
      ⟨fun a b hab hba => by rw [Std.OrientedCmp.gt_of_lt hab] at hba; cases hba⟩
    refine fy.newShapes_isLT.eq_of_mem_iff fx.newShapes_isLT fun d => ?_
    rw [hx.mem_newShapes, hy.mem_newShapes, hvisible]

end

end Finalization

/-! ## New generations and their requests -/

/-- The generation holds the shapes that the requests ask for, as far as it does not inherit
them, and nothing else. -/
structure Generation.Holds (g : Generation) (offered : ShapeKey → Option (TemplateRef .shape))
    (requests : List (Request .shape)) : Prop where
  made : ∀ {key}, offered key = none → (∃ r ∈ requests, r.key = key) →
    ∃ e, IsEarliest (· ∈ requests) key noLocation e ∧
      g.shapes.find? key = some { Template.ofKey key g.shapes.owner with earliest := e }
  vacant : ∀ {key}, (∀ r ∈ requests, r.key ≠ key) → g.shapes.find? key = none
  delegates : ∀ key, g.delegates.find? key = none

namespace Generation.Holds

variable {g g' : Generation} {offered offered' : ShapeKey → Option (TemplateRef .shape)}
  {requests : List (Request .shape)}

/-- The requests decide about the shapes that neither of two generations inherits. -/
theorem unowned_eq (h : g.Holds offered requests) (h' : g'.Holds offered' requests)
    {key : ShapeKey} (hnone : offered key = none) (hnone' : offered' key = none) :
    (g.shapes.find? key).map Template.unowned = (g'.shapes.find? key).map Template.unowned := by
  by_cases hasked : ∃ r ∈ requests, r.key = key
  · obtain ⟨e, he, hfind⟩ := h.made hnone hasked
    obtain ⟨e', he', hfind'⟩ := h'.made hnone' hasked
    rw [hfind, hfind', he.unique he']
    rfl
  · have hall : ∀ r ∈ requests, r.key ≠ key := fun r hr hk => hasked ⟨r, hr, hk⟩
    rw [h.vacant hall, h'.vacant hall]

theorem templates_delegates (h : g.Holds offered requests) : g.delegates.templates = [] := by
  refine List.eq_nil_iff_forall_not_mem.2 fun t ht => ?_
  obtain ⟨key, hkey⟩ := Cache.mem_templates_iff.1 ht
  rw [h.delegates] at hkey
  cases hkey

end Generation.Holds

/-- A template is found at its key in exactly those generations that hold it. -/
theorem Generation.mem_map_unowned {g : Generation} (hkeyed : g.shapes.Keyed)
    {entries : List (ShapeKey × Identity)} {t : Template .shape} :
    t ∈ (g.unrecorded entries).map Template.unowned ↔
      (g.shapes.find? t.key).map Template.unowned = some t ∧ t.key ∉ entries.map Prod.fst := by
  rw [List.mem_map, Option.map_eq_some_iff]
  constructor
  · rintro ⟨u, hu, rfl⟩
    obtain ⟨hmem, hnot⟩ := List.mem_filter.1 hu
    exact ⟨⟨u, hkeyed.find?_of_mem hmem, rfl⟩, of_decide_eq_true hnot⟩
  · rintro ⟨⟨u, hu, hunowned⟩, hnot⟩
    refine ⟨u, List.mem_filter.2 ⟨Cache.mem_templates_iff.2 ⟨_, hu⟩, decide_eq_true ?_⟩, hunowned⟩
    rwa [hkeyed _ _ hu]

theorem Generation.nodup_map_unowned {g : Generation} (hkeyed : g.shapes.Keyed)
    (entries : List (ShapeKey × Identity)) :
    ((g.unrecorded entries).map Template.unowned).Nodup := by
  have hkeys : ((g.unrecorded entries).map (·.key)).Nodup :=
    hkeyed.nodup_keys.sublist (List.filter_sublist.map _)
  exact (List.pairwise_map.1 hkeys).map _ fun t u hne heq => hne (Template.key_of_unowned heq)

namespace Session

/-- Ask a generation for shapes, one after another. -/
def requesting (h : Handle) (requests : List (Request .shape)) : List (Σ α, Step α) :=
  requests.map fun r => ⟨_, .request .shape h r.key r.location⟩

theorem others_requesting (h : Handle) (requests : List (Request .shape)) :
    others h (requesting h requests) = [] := by
  refine List.filter_eq_nil_iff.2 fun x hx => ?_
  obtain ⟨r, -, rfl⟩ := List.mem_map.1 hx
  simp [Step.asks?]

theorem asked_requesting (h : Handle) (requests : List (Request .shape)) :
    asked h (requesting h requests) = requests.map (Sigma.mk .shape) := by
  induction requests with
  | nil => rfl
  | cons r rest ih =>
    let x : Σ α, Step α := ⟨_, .request .shape h r.key r.location⟩
    have hasks : x.2.asks? = some ⟨.shape, h, [r]⟩ := rfl
    refine (asked_cons_of_asks hasks _).trans ?_
    exact congrArg ([⟨.shape, r⟩] ++ ·) ih

variable {s : Session}

/-- **A new generation** holds what it is asked for. -/
theorem Coherent.exists_holds (hs : s.Coherent) {h : Handle} {config : OutputConfig}
    {ancestors : List Handle} (hg : s.generation? h = some (.new h config ancestors))
    (requests : List (Request .shape)) :
    ∃ g, (s.after (requesting h requests)).generation? h = some g ∧ g.config = config ∧
      g.ancestors = ancestors ∧ g.isFinalizing = false ∧
      g.Holds ((s.after (requesting h requests)).offer .shape g) requests := by
  have hfinalizes : ∀ x ∈ requesting h requests, x.2.finalizes? ≠ some h := by
    intro x hx
    obtain ⟨r, -, rfl⟩ := List.mem_map.1 hx
    exact fun he => by cases he
  obtain ⟨g, hafter, hframe, hserves⟩ := hs.after_eq hg rfl hfinalizes
  rw [others_requesting, after] at hafter
  have hself : (s.put h g).generation? h = some g :=
    generation?_put_self (Option.isSome_of_eq_some hg) g
  have hancestors := Generation.ancestors_of_frame hframe
  -- a new generation is open, so it grants whatever it is asked for
  have hgrants : ∀ family r, ((Generation.new h config ancestors).cache family).Grants
      (s.offer family (.new h config ancestors)) r := fun family r =>
    Cache.grants_of_open (by cases family <;> rfl)
  simp only [asked_requesting, List.mem_map, Sigma.mk.injEq, hgrants, and_true] at hserves
  have hshapes := (hserves .shape).absorbs
  have hdelegates := (hserves .delegate).absorbs
  simp only [true_and, heq_eq_eq, exists_eq_right, reduceCtorEq, false_and, and_false,
    exists_false] at hshapes hdelegates
  have hoffer : (s.put h g).offer .shape g = s.offer .shape (.new h config ancestors) :=
    offer_put s .shape (hs.not_mem hg) hancestors
  rw [hafter]
  refine ⟨g, hself, Generation.config_of_frame hframe, hancestors,
    Generation.isFinalizing_of_frame hframe, ?_⟩
  rw [hoffer]
  refine ⟨?_, ?_, ?_⟩
  · intro key hnone hasked
    have hnew : ((Generation.new h config ancestors).cache .shape).find? key = none := rfl
    obtain ⟨r, hr, rfl⟩ := hasked
    obtain ⟨e, he, hfind⟩ := hshapes.made hnew ⟨r, ⟨hr, hnone⟩, rfl⟩
    rw [← Cache.owner_of_frame hshapes.frame_eq] at hfind
    exact ⟨e, he, hfind⟩
  · exact fun hall => hshapes.vacant rfl fun r hr => hall r hr.1
  · exact fun key => hdelegates.vacant rfl fun _ hr => hr.elim

end Session

/-! ## Starting over -/

namespace Finalization

variable {f : Finalization} {s t : Session} {h k : Handle} {g g' : Generation}
  {requests : List (Request .shape)}

/-- **The same is left to do** for a generation that was derived from a finalized one, and for
a root that has only the map to go by. -/
theorem work_alike (hleads : f.after.LeadsTo s) (hg : s.generation? h = some g)
    (hparent : g.ancestors.head? = some f.home)
    (hholds : g.Holds (s.offer .shape g) requests)
    (ht : t.Coherent) (hg' : t.generation? k = some g') (hroot : g'.ancestors = [])
    (hholds' : g'.Holds (t.offer .shape g') requests)
    (hconfig : g'.config = g.config) (given : Numbering) {previous : Option IdentityMap}
    (hprevious : previous = none ∨ previous = some f.result.map) :
    (s.work g given previous).Alike (t.work g' given (some f.result.map)) := by
  have hs := hleads.coherent f.reachable_after.coherent
  have hkeyed : g.shapes.Keyed := hs.keyed hg .shape
  have hkeyed' : g'.shapes.Keyed := ht.keyed hg' .shape
  obtain ⟨hinherited, hpredecessor⟩ := f.inherits hleads hg hparent
  -- what the ancestors have named is just what the map of the last output has recorded
  have hunseen : ∀ key, s.offer .shape g key = none ↔
      key ∉ f.result.map.entries.map Prod.fst := by
    intro key
    rw [Session.offer, ← Session.inheritedIdentity_eq_none_iff, hinherited, ← f.get?_map,
      IdentityMap.get?_eq_none_iff]
  have hroot' : ∀ key, t.offer .shape g' key = none := fun key => by
    rw [Session.offer, hroot]
    rfl
  refine ⟨hconfig, ?_, ?_, ?_⟩
  · rw [Session.work, Session.work, Session.startNumbering_eq, Session.startNumbering_eq,
      hpredecessor, Session.predecessorNumbering, hroot]
    rcases hprevious with rfl | rfl
    · simp [f.numbering_map]
    · simp [f.numbering_map]
  · -- what the one does not inherit is what the map of the other has not recorded
    refine (List.perm_ext_iff_of_nodup (Generation.nodup_map_unowned hkeyed' _)
      (Generation.nodup_map_unowned hkeyed _)).2 fun t => ?_
    rw [Generation.mem_map_unowned hkeyed, Generation.mem_map_unowned hkeyed']
    constructor
    · rintro ⟨hfind, hnot⟩
      have hnone := (hunseen t.key).2 hnot
      refine ⟨(hholds.unowned_eq hholds' hnone (hroot' _)).trans hfind, ?_⟩
      rcases hprevious with rfl | rfl
      · exact List.not_mem_nil
      · exact hnot
    · rintro ⟨hfind, -⟩
      obtain ⟨u, hu, -⟩ := Option.map_eq_some_iff.1 hfind
      have hnone : s.offer .shape g t.key = none := (hs hg).clear hu
      exact ⟨(hholds.unowned_eq hholds' hnone (hroot' _)).symm.trans hfind,
        (hunseen t.key).1 hnone⟩
  · rw [Session.work, Session.work, hholds.templates_delegates, hholds'.templates_delegates]

/-- The map has recorded what the derived generation inherits. -/
theorem agrees (hleads : f.after.LeadsTo s) (hg : s.generation? h = some g)
    (hparent : g.ancestors.head? = some f.home) {previous : Option IdentityMap}
    (hprevious : previous = none ∨ previous = some f.result.map) : s.Agrees g previous := by
  intro key identity existing hentry hexisting
  rw [(f.inherits hleads hg hparent).1, ← f.get?_map] at hexisting
  rcases hprevious with rfl | rfl
  · cases hentry
  · rw [mem_entries_iff, Option.getD_some, hexisting] at hentry
    exact Option.some.inj hentry

/-- Two generations, one derived from a finalized one and one without predecessors, are asked
for the same shapes and finalized. -/
theorem outcome_of_holds (hleads : f.after.LeadsTo s) (hg : s.generation? h = some g)
    (hopen : g.isFinalizing = false) (hparent : g.ancestors.head? = some f.home)
    (hholds : g.Holds (s.offer .shape g) requests)
    (ht : t.Reachable) (hg' : t.generation? k = some g') (hopen' : g'.isFinalizing = false)
    (hroot : g'.ancestors = []) (hholds' : g'.Holds (t.offer .shape g') requests)
    (hconfig : g'.config = g.config) (given : Numbering) {previous : Option IdentityMap}
    (hprevious : previous = none ∨ previous = some f.result.map) :
    let x := (Step.finalize h given previous).run s
    let y := (Step.finalize k given (some f.result.map)).run t
    x.1 = .error (.fault .counterExhausted) ∧ y.1 = .error (.fault .counterExhausted) ∨
      ∃ a b, x.1 = .ok a ∧ y.1 = .ok b ∧ b.map = a.map ∧
        t.newShapes y.2 k = s.newShapes x.2 h := by
  intro x y
  have hs : s.Reachable := f.reachable_after.of_leadsTo hleads
  have halike := work_alike hleads hg hparent hholds ht.coherent hg' hroot hholds' hconfig given
    hprevious
  have hagrees : s.Agrees g previous := agrees hleads hg hparent hprevious
  have hagrees' : t.Agrees g' (some f.result.map) := by
    intro key identity existing _ hexisting
    rw [hroot] at hexisting
    cases hexisting
  by_cases hsuffices : s.Suffices g given previous
  · obtain ⟨a, s', hx⟩ := hs.coherent.exists_finalized hg hopen hagrees hsuffices
    obtain ⟨b, t', hy⟩ := ht.coherent.exists_finalized hg' hopen' hagrees'
      ((Session.suffices_iff_of_alike halike).2 hsuffices)
    let fx : Finalization := ⟨s, h, given, previous, a, s', hs, hx⟩
    let fy : Finalization := ⟨t, k, given, some f.result.map, b, t', ht, hy⟩
    have hfx : f.FollowedBy fx := .derived hleads hg hparent hprevious
    have hfy : f.FollowedBy fy := .restarted hg' hroot rfl
    obtain ⟨hmap, hnew⟩ := outcome_eq_of_alike hfx hfy hg hg' halike
    refine .inr ⟨a, b, congrArg Prod.fst hx, congrArg Prod.fst hy, hmap, ?_⟩
    rw [show x.2 = s' from congrArg Prod.snd hx, show y.2 = t' from congrArg Prod.snd hy]
    exact hnew
  · exact .inl ⟨hs.coherent.finalize_exhausted hg hopen hagrees hsuffices,
      ht.coherent.finalize_exhausted hg' hopen' hagrees'
        (mt (Session.suffices_iff_of_alike halike).1 hsuffices)⟩

/-- **Starting over with a stored map** comes to the same as continuing. Take a finalization
that succeeds, and

* in any later session, the generation that is derived from the finalized one;
* in any session, a root that is finalized with the map of the output, which was stored as
  bytes and loaded again.

Let both have the same output settings, be asked for the same shapes and be finalized from the
same counters, the derived generation with or without the map. Then loading succeeds, and
either both run out of indices, or both succeed; the maps that they answer with have the same
entries and counters, and they hand over the same new shapes in the same order.

That the map takes up fewer than two to the power of 64 bytes is true of whatever a machine can
address. -/
theorem restart_agrees (f : Finalization) (hfits : f.result.map.encode.length < 2 ^ 64)
    (hleads : f.after.LeadsTo s) (ht : t.Reachable) (config : OutputConfig)
    (requests : List (Request .shape)) (given : Numbering) {previous : Option IdentityMap}
    (hprevious : previous = none ∨ previous = some f.result.map) :
    ∃ (stored : IdentityMap) (d r : Handle) (s₁ t₁ : Session),
      IdentityMap.load .memory f.result.map.encode = .ok stored ∧
      (Step.derive f.home config).run s = (.ok d, s₁) ∧
      (Step.root config).run t = (.ok r, t₁) ∧
      let s₂ := s₁.after (Session.requesting d requests)
      let t₂ := t₁.after (Session.requesting r requests)
      let x := (Step.finalize d given previous).run s₂
      let y := (Step.finalize r given (some stored)).run t₂
      x.1 = .error (.fault .counterExhausted) ∧ y.1 = .error (.fault .counterExhausted) ∨
        ∃ a b, x.1 = .ok a ∧ y.1 = .ok b ∧ b.map = a.map ∧
          t₂.newShapes y.2 r = s₂.newShapes x.2 d := by
  have hload : IdentityMap.load .memory f.result.map.encode = .ok f.result.map := by
    have hload := IdentityMap.load_encode hfits .memory []
    rwa [List.append_nil] at hload
  obtain ⟨parent, hparent, hfinal⟩ := f.exists_later hleads
  have hderive : (Step.derive f.home config).run s = _ :=
    Run.continueFrom_finalized hparent hfinal config
  have hleads₁ := Session.LeadsTo.step hleads (Step.derive f.home config)
  have ht₁ : Session.Reachable _ := .step ht (Step.root config)
  rw [hderive] at hleads₁
  obtain ⟨g, hg, hgconfig, hancestors, hopen, hholds⟩ :=
    (hleads₁.coherent f.reachable_after.coherent).exists_holds
      (Session.generation?_push_last ..) requests
  obtain ⟨g', hg', hgconfig', hroot, hopen', hholds'⟩ :=
    ht₁.coherent.exists_holds (Session.generation?_push_last ..) requests
  exact ⟨_, _, _, _, _, hload, hderive, rfl, outcome_of_holds
    (hleads₁.trans (Session.leadsTo_after ..)) hg hopen (by rw [hancestors]; rfl) hholds
    (ht₁.of_leadsTo (Session.leadsTo_after ..)) hg' hopen' hroot hholds'
    (hgconfig'.trans hgconfig.symm) given hprevious⟩

/-- A shape is finalized. Then it is asked for again, together with another one, in a generation
that continues the first one and in a session that has only the stored map: the other shape
gets the same identity. -/
theorem restart_agrees_on_two_shapes : ∃ (f : Finalization) (first second : ShapeKey)
    (stored : IdentityMap) (d r : Handle) (s₁ t₁ : Session) (a b : Finalized),
    IdentityMap.load .memory f.result.map.encode = .ok stored ∧
    (Step.derive f.home {}).run f.after = (.ok d, s₁) ∧
    (Step.root {}).run .empty = (.ok r, t₁) ∧
    let s₂ := s₁.after (Session.requesting d [⟨second, some (.ofOffsets 0 4 5)⟩, ⟨first, none⟩])
    let t₂ := t₁.after (Session.requesting r [⟨second, some (.ofOffsets 0 4 5)⟩, ⟨first, none⟩])
    let x := (Step.finalize d .zero none).run s₂
    let y := (Step.finalize r .zero (some stored)).run t₂
    x.1 = .ok a ∧ y.1 = .ok b ∧ b.map = a.map ∧ b.map.size = 2 ∧
      t₂.newShapes y.2 r = s₂.newShapes x.2 d ∧ (s₂.newShapes x.2 d).length = 1 := by
  obtain ⟨first, second, hok, hfits, hderived, hmade⟩ : ∃ first second : ShapeKey,
      let x₀ := (Step.finalize 0 .zero none).run (Lineage.oneShape first)
      x₀.1.toOption.isSome ∧
      x₀.1.toOption.all (fun result => result.map.encode.length < 2 ^ 64) ∧
      ((Step.derive 0 {}).run x₀.2).1.toOption = some 1 ∧
      let s₂ := ((Step.derive 0 {}).run x₀.2).2.after
        (Session.requesting 1 [⟨second, some (.ofOffsets 0 4 5)⟩, ⟨first, none⟩])
      let x := (Step.finalize 1 .zero none).run s₂
      x.1.toOption.map (·.map.size) = some 2 ∧ (s₂.newShapes x.2 1).length = 1 :=
    ⟨⟨["a"], by decide⟩, ⟨["b"], by decide⟩, by decide +kernel⟩
  have hreachable : (Lineage.oneShape first).Reachable := Session.leadsTo_after ..
  obtain ⟨f, -, hhome, -, hrun⟩ := exists_of_isSome hreachable hok
  rw [hrun] at hfits hderived hmade
  obtain ⟨stored, d, r, s₁, t₁, hload, hderive, hroot, hagree⟩ :=
    f.restart_agrees (of_decide_eq_true hfits) .refl .refl {}
      [⟨second, some (.ofOffsets 0 4 5)⟩, ⟨first, none⟩] .zero (.inl rfl)
  rw [hhome] at hderive
  rw [hderive] at hderived hmade
  obtain rfl := Option.some.inj hderived
  obtain ⟨hsize, hnew⟩ := hmade
  rcases hagree with ⟨hfailed, -⟩ | ⟨a, b, ha, hb, hmap, hshapes⟩
  · rw [hfailed] at hsize
    cases hsize
  · rw [ha] at hsize
    refine ⟨f, first, second, stored, 1, r, s₁, t₁, a, b, hload, hhome ▸ hderive, hroot, ha, hb,
      hmap, ?_, hshapes, hnew⟩
    rw [hmap]
    exact Option.some.inj hsize

end Finalization

end AnonymousTypes
