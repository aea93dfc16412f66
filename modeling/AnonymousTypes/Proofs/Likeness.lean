import AnonymousTypes.Proofs.Naming
import AnonymousTypes.Proofs.Serving

/-!
# Like generations are finalized alike

The order in which templates were created can be seen in a cache, but nothing that
finalization does depends on it: everything is sorted first, by an order that tells all
templates apart. So generations whose caches hold the same templates (`Generation.Alike`)
get the same names and hand over the same definitions, or fail in the same way
(`Generation.Alike.finish`).
-/

namespace AnonymousTypes

variable {family : Family}

namespace Cache

namespace Alike

variable {c c' : Cache family}

/-- Each template stands at its own key in both caches. -/
theorem keyed (h : c.Alike c') (hkeyed : c.Keyed) : c'.Keyed := fun key t ht =>
  hkeyed key t ((h.find?_eq key).symm.trans ht)

theorem isSealed_eq (h : c.Alike c') : c'.isSealed = c.isSealed := isSealed_of_frame h.frame_eq

/-- The templates are the same ones in another order. Whatever is sorted before it is used does
not show this. -/
theorem templates_perm (h : c.Alike c') : c.templates.Perm c'.templates :=
  Table.values_perm fun key => (h.find?_eq key).symm

/-- Naming a template keeps caches alike: it changes the one template that both hold for the key. -/
theorem name (h : c.Alike c') (key : family.Key) (identity : Identity) :
    (c.name key identity).Alike (c'.name key identity) where
  frame_eq := h.frame_eq
  find?_eq other := by
    by_cases hne : other = key
    · rw [Cache.name, Cache.name, hne, find?_modify_self, find?_modify_self, h.find?_eq]
    · rw [find?_name_ne _ _ hne, find?_name_ne _ _ hne, h.find?_eq]
  audited_iff := h.audited_iff

theorem close (h : c.Alike c') : c.close.Alike c'.close where
  frame_eq := by
    have hframe := h.frame_eq
    rw [frame, frame, Frame.mk.injEq] at hframe
    obtain ⟨hhome, howner, hseals, hsealed⟩ := hframe
    simp only [Cache.close, frame, hhome, howner, hseals, hsealed]
  find?_eq := h.find?_eq
  audited_iff := h.audited_iff

end Alike

/-- Naming does not move templates to other keys. -/
theorem Keyed.nameAll {c : Cache family} (h : c.Keyed)
    (identityOf : family.Key → UInt32 → Identity) (keys : List family.Key) (index : UInt32) :
    (c.nameAll identityOf keys index).2.Keyed := by
  induction keys generalizing c index with
  | nil => exact h
  | cons key rest ih =>
    rw [Cache.nameAll]
    split
    · exact h.name key _
    · exact ih (h.name key _) _

/-- An adopted shape is there afterwards in both, whether it was there before or not. The audit
may not be in the way, so this is about caches that are still open. -/
theorem Alike.adopt {c c' : Cache .shape} (h : c.Alike c') (hopen : c.isSealed = false)
    (key : ShapeKey) (identity : Identity) :
    (c.adopt key identity).Alike (c'.adopt key identity) := by
  have hopen' : c'.isSealed = false := h.isSealed_eq.trans hopen
  refine ⟨?_, fun other => ?_, fun location => ?_⟩
  · rw [frame_adopt hopen', frame_adopt hopen, h.frame_eq]
  · by_cases hne : other = key
    · rw [hne, find?_adopt_self hopen', find?_adopt_self hopen, h.find?_eq,
        owner_of_frame h.frame_eq]
    · rw [find?_adopt_ne hopen' _ hne, find?_adopt_ne hopen _ hne, h.find?_eq]
  · rw [audited_adopt hopen', audited_adopt hopen, h.audited_iff]

/-- **Carrying forward** compares recorded identities with inherited ones and looks into no
cache, so in like caches it stops at the same entry or not at all. -/
theorem Alike.carry {c c' : Cache .shape} (h : c.Alike c') (hopen : c.isSealed = false)
    (known : ShapeKey → Option Identity) (entries : List (ShapeKey × Identity)) :
    (c'.carry known entries).1 = (c.carry known entries).1 ∧
      (c.carry known entries).2.Alike (c'.carry known entries).2 := by
  induction entries generalizing c c' with
  | nil => exact ⟨rfl, h⟩
  | cons e rest ih =>
    obtain ⟨key, identity⟩ := e
    rw [Cache.carry, Cache.carry]
    rcases known key with _ | existing
    · obtain ⟨hanswer, halike⟩ := ih (h.adopt hopen key identity) (isSealed_adopt hopen ..)
      exact ⟨congrArg (Except.map (key :: ·)) hanswer, halike⟩
    · by_cases hagree : existing = identity
      · simp only [if_pos hagree]
        exact ih h hopen
      · simp only [if_neg hagree]
        exact ⟨trivial, h⟩

theorem Alike.carry_eq {c c' d : Cache .shape} (h : c.Alike c') (hopen : c.isSealed = false)
    {known : ShapeKey → Option Identity} {entries : List (ShapeKey × Identity)}
    {answer : Except Failure (List ShapeKey)} (hcarry : c.carry known entries = (answer, d)) :
    ∃ d', c'.carry known entries = (answer, d') ∧ d.Alike d' := by
  obtain ⟨hanswer, halike⟩ := h.carry hopen known entries
  rw [hcarry] at hanswer halike
  exact ⟨(c'.carry known entries).2, Prod.ext hanswer rfl, halike⟩

/-- **Naming** gives the same keys the same indices, and runs out of them at the same key. -/
theorem Alike.nameAll {c c' : Cache family} (h : c.Alike c')
    (identityOf : family.Key → UInt32 → Identity) (keys : List family.Key) (index : UInt32) :
    (c'.nameAll identityOf keys index).1 = (c.nameAll identityOf keys index).1 ∧
      (c.nameAll identityOf keys index).2.Alike (c'.nameAll identityOf keys index).2 := by
  induction keys generalizing c c' index with
  | nil => exact ⟨rfl, h⟩
  | cons key rest ih =>
    rw [Cache.nameAll, Cache.nameAll]
    rcases nextIndex index with fault | next
    · exact ⟨rfl, h.name key _⟩
    · exact ih (h.name key _) next

/-! ## Sorted lists -/

/-- There is only one template for a key in a cache. -/
theorem Keyed.eq_of_key {c : Cache family} (hkeyed : c.Keyed) {t u : Template family}
    (ht : t ∈ c.templates) (hu : u ∈ c.templates) (hkey : t.key = u.key) : t = u := by
  have hfind := hkeyed.find?_of_mem ht
  rw [hkey, hkeyed.find?_of_mem hu] at hfind
  exact (Option.some.inj hfind).symm

/-- **The order of naming** is the same in like caches. The templates are the same up to order,
and the comparison takes none of them for equal: templates that compare equal have the same key. -/
theorem Alike.unnamedKeys {c c' : Cache family} (h : c.Alike c') (hkeyed : c.Keyed)
    (cmp : Template family → Template family → Ordering) [Std.TransCmp cmp]
    (hcmp : ∀ a b, cmp a b = .eq → a.key = b.key) :
    (c'.unnamedKeys fun a b => (cmp a b).isLE) = c.unnamedKeys fun a b => (cmp a b).isLE := by
  refine congrArg (List.map _) (sortList_eq_of_perm ?_ (h.templates_perm.filter _)).symm
  intro t ht u hu heq
  exact hkeyed.eq_of_key (List.mem_filter.1 ht).1 (List.mem_filter.1 hu).1 (hcmp _ _ heq)

/-- Together: two caches that can hardly be told apart are numbered alike, with the same outcome. -/
theorem Alike.number_eq {c c' d : Cache family} (h : c.Alike c') (hkeyed : c.Keyed)
    (cmp : Template family → Template family → Ordering) [Std.TransCmp cmp]
    (hcmp : ∀ a b, cmp a b = .eq → a.key = b.key)
    {identityOf : family.Key → UInt32 → Identity} {index : UInt32}
    {answer : Except Failure UInt32}
    (hname : c.nameAll identityOf (c.unnamedKeys fun a b => (cmp a b).isLE) index = (answer, d)) :
    ∃ d', c'.nameAll identityOf (c'.unnamedKeys fun a b => (cmp a b).isLE) index = (answer, d') ∧
      d.Alike d' ∧ d.Keyed := by
  rw [h.unnamedKeys hkeyed cmp hcmp]
  obtain ⟨hanswer, halike⟩ := h.nameAll identityOf (c.unnamedKeys fun a b => (cmp a b).isLE) index
  have hkeyed' := hkeyed.nameAll identityOf (c.unnamedKeys fun a b => (cmp a b).isLE) index
  rw [hname] at hanswer halike hkeyed'
  exact ⟨(c'.nameAll identityOf (c.unnamedKeys fun a b => (cmp a b).isLE) index).2,
    Prod.ext hanswer rfl, halike, hkeyed'⟩

/-- The order in which definitions are handed over. -/
def indexCompare (a b : Definition) : Ordering :=
  (compare a.identity.index b.identity.index).then
    (compare (a.family.keyText a.key) (b.family.keyText b.key))

instance : Std.TransCmp indexCompare :=
  inferInstanceAs (Std.TransCmp (compareLex (compareOn fun d : Definition => d.identity.index)
    (compareOn fun d : Definition => d.family.keyText d.key)))

/-- The definition of a template, if it has an identity. -/
def definition? (isNew : family.Key → Bool) (t : Template family) : Option Definition :=
  t.identity.map fun identity => .ofKey family t.key identity (isNew t.key)

theorem definitions_eq (c : Cache family) (isNew : family.Key → Bool) :
    c.definitions isNew = sortList (fun a b => (indexCompare a b).isLE)
      (c.templates.filterMap (definition? isNew)) := rfl

/-- **What is handed over** is sorted by index and then by text, and texts tell keys apart, so
like caches hand over equal lists and not only permutations. -/
theorem Alike.definitions {c c' : Cache family} (h : c.Alike c') (hkeyed : c.Keyed)
    (isNew : family.Key → Bool) : c'.definitions isNew = c.definitions isNew := by
  rw [definitions_eq, definitions_eq]
  refine (sortList_eq_of_perm ?_ (h.templates_perm.filterMap _)).symm
  intro d hd d' hd' heq
  obtain ⟨t, ht, hdt⟩ := List.mem_filterMap.1 hd
  obtain ⟨u, hu, hdu⟩ := List.mem_filterMap.1 hd'
  obtain ⟨identity, hidentity, rfl⟩ := Option.map_eq_some_iff.1 hdt
  obtain ⟨identity', hidentity', rfl⟩ := Option.map_eq_some_iff.1 hdu
  have htext := Std.LawfulEqOrd.eq_of_compare (Ordering.then_eq_eq.1 heq).2
  obtain rfl := hkeyed.eq_of_key ht hu (Family.keyText_inj.1 htext)
  rw [Option.some.inj (hidentity.symm.trans hidentity')]

/-! ## Recorded identities -/

/-- The recorded identities are those of the named shapes, each under its key. -/
theorem mem_identities {c : Cache .shape} (hkeyed : c.Keyed) {key : ShapeKey}
    {identity : Identity} : (key, identity) ∈ c.identities ↔
      (c.find? key).bind (·.identity) = some identity := by
  rw [identities, List.mem_filterMap, Option.bind_eq_some_iff]
  constructor
  · rintro ⟨t, ht, he⟩
    obtain ⟨i, hi, he⟩ := Option.map_eq_some_iff.1 he
    obtain ⟨rfl, rfl⟩ := Prod.mk.inj he
    exact ⟨t, hkeyed.find?_of_mem ht, hi⟩
  · rintro ⟨t, ht, hi⟩
    refine ⟨t, mem_templates_iff.2 ⟨key, ht⟩, ?_⟩
    rw [hi, Option.map_some, hkeyed key t ht]

theorem nodup_identities {c : Cache .shape} (hkeyed : c.Keyed) :
    (c.identities.map Prod.fst).Nodup := by
  refine hkeyed.nodup_keys.sublist ?_
  rw [identities]
  generalize c.templates = ts
  induction ts with
  | nil => exact .slnil
  | cons t ts ih =>
    rw [List.filterMap_cons, List.map_cons]
    rcases t.identity with _ | i
    · exact ih.cons _
    · exact ih.cons_cons _

/-- Recording the identities of a cache overrides what was recorded for its named shapes. -/
theorem get?_insertAll_identities {c : Cache .shape} (hkeyed : c.Keyed) (m : IdentityMap)
    (key : ShapeKey) : (m.insertAll c.identities).get? key =
      ((c.find? key).bind (·.identity)).or (m.get? key) := by
  rcases h : (c.find? key).bind (·.identity) with _ | identity
  · refine m.get?_insertAll_of_not_mem fun i hmem => ?_
    rw [mem_identities hkeyed, h] at hmem
    cases hmem
  · exact m.get?_insertAll_of_mem (nodup_identities hkeyed) ((mem_identities hkeyed).2 h)

/-- So it does not matter in which order like caches are recorded. -/
theorem Alike.insertAll_identities {c c' : Cache .shape} (h : c.Alike c') (hkeyed : c.Keyed)
    (m : IdentityMap) : m.insertAll c'.identities = m.insertAll c.identities := by
  refine IdentityMap.ext_get? (fun key => ?_) ?_
  · rw [get?_insertAll_identities hkeyed, get?_insertAll_identities (h.keyed hkeyed), h.find?_eq]
  · rw [m.numbering_insertAll, m.numbering_insertAll]

end Cache

/-! ## Generations -/

namespace Generation

/-- Two generations whose caches can be told apart only by the order of their templates and
by their counters. -/
structure Alike (g g' : Generation) : Prop where
  frame_eq : g'.frame = g.frame
  cache : ∀ family, (g.cache family).Alike (g'.cache family)

namespace Alike

variable {g g' : Generation}

/-- Shapes and delegates of like generations are handed over alike. Which shapes count as carried
is given, and is the same for both by `carry_eq`. -/
theorem definitions (h : g.Alike g') (hkeyed : ∀ family, (g.cache family).Keyed)
    (carried : List ShapeKey) : g'.definitions carried = g.definitions carried := by
  have hshapes : g'.shapes.definitions (fun key => key ∉ carried) =
      g.shapes.definitions fun key => key ∉ carried :=
    (h.cache .shape).definitions (hkeyed .shape) _
  have hdelegates : g'.delegates.definitions (fun _ => true) =
      g.delegates.definitions fun _ => true :=
    (h.cache .delegate).definitions (hkeyed .delegate) _
  rw [Generation.definitions, Generation.definitions, hshapes, hdelegates]

/-- Both are begun, and get other caches. -/
theorem begun (h : g.Alike g') {shapes shapes' : Cache .shape}
    {delegates delegates' : Cache .delegate} (hshapes : shapes.Alike shapes')
    (hdelegates : delegates.Alike delegates') :
    ({ g.begun with shapes, delegates } : Generation).Alike
      { g'.begun with shapes := shapes', delegates := delegates' } where
  frame_eq := by
    simp only [frame, Generation.begun, config_of_frame h.frame_eq, ancestors_of_frame h.frame_eq,
      finalized_of_frame h.frame_eq, handedOff_of_frame h.frame_eq]
  cache family := by
    cases family with
    | shape => exact hshapes
    | delegate => exact hdelegates

/-- Handing over keeps like generations alike, since what they hand over is the same list. -/
theorem handOver (h : g.Alike g') (hkeyed : ∀ family, (g.cache family).Keyed)
    (carried : List ShapeKey) (numbering : Numbering) :
    (g.handOver carried numbering).Alike (g'.handOver carried numbering) where
  frame_eq := by
    simp only [frame, Generation.handOver, config_of_frame h.frame_eq,
      ancestors_of_frame h.frame_eq, isFinalizing_of_frame h.frame_eq,
      handedOff_of_frame h.frame_eq, h.definitions hkeyed]
  cache family := by
    have hcache := h.cache family
    cases family with
    | shape => exact hcache
    | delegate => exact hcache

section

variable (h : g.Alike g') {home : Handle} (hready : g.Ready home)
  {known : ShapeKey → Option Identity} {start : Numbering}
  {entries : List (ShapeKey × Identity)} {carried : List ShapeKey}

include h hready

/-- Like generations carry the same entries forward, or meet the same conflict. -/
theorem carry_eq {answer : Except Failure (List ShapeKey)} {shapes : Cache .shape}
    (hcarry : g.shapes.carry known entries = (answer, shapes)) :
    ∃ shapes', g'.shapes.carry known entries = (answer, shapes') ∧ shapes.Alike shapes' ∧
      shapes.Keyed := by
  have hopen : g.shapes.isSealed = false := hready.isSealed
  have hkeyed : (g.shapes.carry known entries).2.Keyed :=
    (hready.keyed .shape).carry hopen known entries
  rw [hcarry] at hkeyed
  obtain ⟨shapes', hcarry', halike⟩ := Cache.Alike.carry_eq (h.cache .shape) hopen hcarry
  exact ⟨shapes', hcarry', halike, hkeyed⟩

/-- What is left unnamed then gets the same names, until the indices are used up. -/
theorem nameShapes_eq {shapes named : Cache .shape} {answer : Except Failure UInt32}
    (hcarry : g.shapes.carry known entries = (.ok carried, shapes))
    (hshapes : shapes.nameAll g.shapeIdentity (shapes.unnamedKeys Template.shapeLe)
      start.nextShape = (answer, named)) :
    ∃ shapes' named', g'.shapes.carry known entries = (.ok carried, shapes') ∧
      shapes'.nameAll g'.shapeIdentity (shapes'.unnamedKeys Template.shapeLe) start.nextShape =
        (answer, named') ∧ named.Alike named' ∧ named.Keyed := by
  have hidentity : g'.shapeIdentity = g.shapeIdentity := by
    funext key index
    rw [shapeIdentity, shapeIdentity, config_of_frame h.frame_eq]
  obtain ⟨shapes', hcarry', hcarried, hkeyed⟩ := h.carry_eq hready hcarry
  obtain ⟨named', hshapes', hnamed⟩ := hcarried.number_eq hkeyed Template.shapeCompare
    (fun _ _ => Template.key_eq_of_shapeCompare) hshapes
  rw [← hidentity] at hshapes'
  exact ⟨shapes', named', hcarry', hshapes', hnamed⟩

/-- Delegates are numbered after the shapes and do not depend on what was carried. -/
theorem nameDelegates_eq {delegates : Cache .delegate} {answer : Except Failure UInt32}
    (hdelegates : g.delegates.nameAll delegateIdentity
      (g.delegates.unnamedKeys Template.delegateLe) start.nextDelegate = (answer, delegates)) :
    ∃ delegates', g'.delegates.nameAll delegateIdentity
        (g'.delegates.unnamedKeys Template.delegateLe) start.nextDelegate =
        (answer, delegates') ∧ delegates.Alike delegates' ∧ delegates.Keyed :=
  Cache.Alike.number_eq (h.cache .delegate) (hready.keyed .delegate) Template.delegateCompare
    (fun _ _ => Template.key_eq_of_delegateCompare) hdelegates

end

/-- **Like generations are finalized alike**, whether finalization succeeds or not. -/
theorem finish (h : g.Alike g') {home : Handle} (hready : g.Ready home)
    (known : ShapeKey → Option Identity) (start : Numbering)
    (entries : List (ShapeKey × Identity)) :
    (g'.finish known start entries).1 = (g.finish known start entries).1 ∧
      (g.finish known start entries).2.Alike (g'.finish known start entries).2 := by
  have hcases := g.finish_cases known start entries
  generalize g.finish known start entries = out at hcases ⊢
  cases hcases with
  | conflict hcarry =>
    obtain ⟨shapes', hcarry', halike, -⟩ := h.carry_eq hready hcarry
    rw [finish_of_carry_error hcarry']
    exact ⟨rfl, h.begun halike (h.cache .delegate)⟩
  | outOfShapes hcarry hshapes =>
    obtain ⟨shapes', named', hcarry', hshapes', halike, -⟩ :=
      h.nameShapes_eq hready hcarry hshapes
    rw [finish_of_shapes_error hcarry' hshapes']
    exact ⟨rfl, h.begun halike (h.cache .delegate)⟩
  | outOfDelegates hcarry hshapes hdelegates =>
    obtain ⟨shapes', named', hcarry', hshapes', halike, -⟩ :=
      h.nameShapes_eq hready hcarry hshapes
    obtain ⟨numbered', hdelegates', hnumbered, -⟩ := h.nameDelegates_eq hready hdelegates
    rw [finish_of_delegates_error hcarry' hshapes' hdelegates']
    exact ⟨rfl, h.begun halike hnumbered⟩
  | done hcarry hshapes hdelegates =>
    obtain ⟨shapes', named', hcarry', hshapes', halike, hkeyed⟩ :=
      h.nameShapes_eq hready hcarry hshapes
    obtain ⟨numbered', hdelegates', hnumbered, hkeyed'⟩ := h.nameDelegates_eq hready hdelegates
    rw [finish_of_ok hcarry' hshapes' hdelegates']
    refine ⟨rfl, (h.begun halike.close hnumbered.close).handOver (fun family => ?_) ..⟩
    cases family with
    | shape => exact hkeyed
    | delegate => exact hkeyed'

end Alike

end Generation

end AnonymousTypes
