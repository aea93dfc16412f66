import AnonymousTypes.Proofs.Inheriting
import AnonymousTypes.Proofs.Sorting
import AnonymousTypes.Session.Finalization

/-!
# Finalization as a function of one generation

`Run.finalize` works on a session, but all it changes is the generation that is
finalized, and all it reads of the others is what they offer and the counters that
the preceding one left behind. `Generation.finish` is the same work as a function of
the generation, in three parts: `Cache.carry` gives shapes the identities that an
earlier output recorded, and `Cache.nameAll` names what is left, once for the shapes
and once for the delegates.

`Run.finalize_eq` says that the two agree, whatever the outcome. Everything else
about finalization is proved of `Generation.finish`.
-/

namespace AnonymousTypes

variable {family : Family}

namespace Cache

/-- Give the template of a key an identity. -/
def name (c : Cache family) (key : family.Key) (identity : Identity) : Cache family :=
  c.modify key fun t => { t with identity := some identity }

/-- Give a recorded identity to the shape with a key, which is created if need be. -/
def adopt (c : Cache .shape) (key : ShapeKey) (identity : Identity) : Cache .shape :=
  (c.request none key none).2.name key identity

/-- Give shapes the identities that an earlier output recorded, one after another; `known`
are the identities that the earlier generations offer. Answers the keys whose templates
are in this cache. -/
def carry (known : ShapeKey → Option Identity) :
    List (ShapeKey × Identity) → Cache .shape → Except Failure (List ShapeKey) × Cache .shape
  | [], c => (.ok [], c)
  | (key, identity) :: rest, c =>
    match known key with
    | some existing =>
      if existing = identity then carry known rest c
      else (.error (.rejected (.identityConflict .shape key.canonical existing identity)), c)
    | none =>
      let (answer, c) := carry known rest (c.adopt key identity)
      (answer.map (key :: ·), c)

/-- Name templates one after another, from an index on. -/
def nameAll (identityOf : family.Key → UInt32 → Identity) :
    List family.Key → UInt32 → Cache family → Except Failure UInt32 × Cache family
  | [], index, c => (.ok index, c)
  | key :: rest, index, c =>
    match nextIndex index with
    | .error fault => (.error (.fault fault), c.name key (identityOf key index))
    | .ok next => nameAll identityOf rest next (c.name key (identityOf key index))

/-! ### Naming a template -/

@[simp] theorem frame_name (c : Cache family) (key : family.Key) (identity : Identity) :
    (c.name key identity).frame = c.frame := rfl

/-- The template of the key keeps everything but its identity. -/
theorem find?_name_self {c : Cache family} {key : family.Key} {t : Template family}
    (ht : c.find? key = some t) (identity : Identity) :
    (c.name key identity).find? key = some { t with identity := some identity } := by
  rw [name, find?_modify_self, ht]
  rfl

theorem find?_name_ne (c : Cache family) {key other : family.Key} (identity : Identity)
    (hne : other ≠ key) : (c.name key identity).find? other = c.find? other :=
  find?_modify_ne c _ hne

/-! ### Adopting a shape -/

/-- A request from nowhere, in a cache that is not sealed, finds its key or creates it. -/
theorem request_none {c : Cache family} (hopen : c.isSealed = false) (key : family.Key) :
    c.request none key none =
      (.ok ⟨c.home, key⟩, if (c.find? key).isSome then c.countHit else c.create key) := by
  rcases hkey : c.find? key with _ | t
  · simp [request, hkey, hopen, record, noteUse]
  · simp [request, hkey, audit, noteUse, countHit]

@[simp] theorem frame_adopt {c : Cache .shape} (hopen : c.isSealed = false) (key : ShapeKey)
    (identity : Identity) : (c.adopt key identity).frame = c.frame := by
  rw [adopt, request_none hopen, frame_name]
  split
  · rfl
  · exact frame_create ..

/-- Adopting does not close the cache, so a whole list of entries can be adopted. -/
theorem isSealed_adopt {c : Cache .shape} (hopen : c.isSealed = false) (key : ShapeKey)
    (identity : Identity) : (c.adopt key identity).isSealed = false :=
  (isSealed_of_frame (frame_adopt hopen ..)).trans hopen

/-- A request from nowhere leaves a template at its key: the one that was there, or a new one
that is owned by this cache. -/
theorem find?_request_self {c : Cache family} (hopen : c.isSealed = false)
    (key : family.Key) : (c.request none key none).2.find? key =
      some ((c.find? key).getD (.ofKey key c.owner)) := by
  rw [request_none hopen]
  split
  · rename_i hkey
    obtain ⟨t, ht⟩ := Option.isSome_iff_exists.1 hkey
    rw [ht]
    exact ht
  · exact find?_create_self ..

theorem find?_request_ne {c : Cache family} (hopen : c.isSealed = false)
    {key other : family.Key} (hne : other ≠ key) :
    (c.request none key none).2.find? other = c.find? other := by
  rw [request_none hopen]
  split
  · rfl
  · exact find?_create_ne _ hne

/-- A shape that is adopted is the one that was there, or else a new one. -/
theorem find?_adopt_self {c : Cache .shape} (hopen : c.isSealed = false) (key : ShapeKey)
    (identity : Identity) : (c.adopt key identity).find? key =
      some { (c.find? key).getD (.ofKey key c.owner) with identity := some identity } :=
  find?_name_self (find?_request_self hopen key) identity

/-- The templates of other keys are not touched by an adoption. -/
theorem find?_adopt_ne {c : Cache .shape} (hopen : c.isSealed = false) {key other : ShapeKey}
    (identity : Identity) (hne : other ≠ key) :
    (c.adopt key identity).find? other = c.find? other := by
  rw [adopt, find?_name_ne _ _ hne, find?_request_ne hopen hne]

/-- Adopting a shape leaves the others unnamed. -/
theorem unnamed_adopt {c : Cache .shape} (hopen : c.isSealed = false) {key : ShapeKey}
    (identity : Identity) {entries : List (ShapeKey × Identity)} (hne : ∀ e ∈ entries, e.1 ≠ key)
    (hunnamed : ∀ e ∈ entries, ∀ t, c.find? e.1 = some t → t.identity = none) :
    ∀ e ∈ entries, ∀ t, (c.adopt key identity).find? e.1 = some t → t.identity = none := by
  intro e he t ht
  rw [find?_adopt_ne hopen identity (hne e he)] at ht
  exact hunnamed e he t ht

/-! ### Carrying one entry -/

section

variable {c : Cache .shape} {known : ShapeKey → Option Identity} {key : ShapeKey}

/-- A shape that nobody knows is adopted. -/
theorem carry_adopt (hknown : known key = none) (identity : Identity)
    (rest : List (ShapeKey × Identity)) : c.carry known ((key, identity) :: rest) =
      (((c.adopt key identity).carry known rest).1.map (key :: ·),
        ((c.adopt key identity).carry known rest).2) := by
  rw [carry, hknown]

/-- A shape that is known by the recorded identity is passed over. -/
theorem carry_skip {identity : Identity} (hknown : known key = some identity)
    (rest : List (ShapeKey × Identity)) :
    c.carry known ((key, identity) :: rest) = c.carry known rest := by
  simp only [carry, hknown, if_true]

/-- A shape that is known by another identity stops the carrying. -/
theorem carry_conflict {identity existing : Identity} (hknown : known key = some existing)
    (hne : existing ≠ identity) (rest : List (ShapeKey × Identity)) :
    c.carry known ((key, identity) :: rest) =
      (.error (.rejected (.identityConflict .shape key.canonical existing identity)), c) := by
  simp only [carry, hknown, if_neg hne]

/-- **One entry** is adopted, is passed over, or stops the carrying. -/
theorem carry_cases (c : Cache .shape) (known : ShapeKey → Option Identity) (key : ShapeKey)
    (identity : Identity) (rest : List (ShapeKey × Identity)) :
    (known key = none ∧ c.carry known ((key, identity) :: rest) =
      (((c.adopt key identity).carry known rest).1.map (key :: ·),
        ((c.adopt key identity).carry known rest).2)) ∨
    (known key = some identity ∧
      c.carry known ((key, identity) :: rest) = c.carry known rest) ∨
    ∃ existing, known key = some existing ∧ existing ≠ identity ∧
      c.carry known ((key, identity) :: rest) =
        (.error (.rejected (.identityConflict .shape key.canonical existing identity)), c) := by
  rcases hknown : known key with _ | existing
  · exact .inl ⟨rfl, carry_adopt hknown identity rest⟩
  · by_cases hagree : existing = identity
    · subst hagree
      exact .inr (.inl ⟨rfl, carry_skip hknown rest⟩)
    · exact .inr (.inr ⟨existing, rfl, hagree, carry_conflict hknown hagree rest⟩)

end

/-! ### Keys and templates -/

/-- Every template stands at its key. -/
def Keyed (c : Cache family) : Prop := ∀ key t, c.find? key = some t → t.key = key

/-- Naming changes a template where it stands, and its key is not changed. -/
theorem Keyed.name {c : Cache family} (h : c.Keyed) (key : family.Key) (identity : Identity) :
    (c.name key identity).Keyed := by
  intro other t ht
  by_cases hne : other = key
  · subst hne
    rw [Cache.name, find?_modify_self] at ht
    obtain ⟨u, hu, rfl⟩ := Option.map_eq_some_iff.1 ht
    exact h other u hu
  · rw [find?_name_ne _ _ hne] at ht
    exact h other t ht

theorem Keyed.request_none {c : Cache family} (h : c.Keyed) (hopen : c.isSealed = false)
    (key : family.Key) : (c.request none key none).2.Keyed := by
  intro other t ht
  by_cases hne : other = key
  · subst hne
    rw [find?_request_self hopen] at ht
    obtain rfl := Option.some.inj ht
    rcases hc : c.find? other with _ | u
    · rfl
    · exact h other u hc
  · rw [find?_request_ne hopen hne] at ht
    exact h other t ht

/-- An adopted shape is put at its own key, if it is not there yet. -/
theorem Keyed.adopt {c : Cache .shape} (h : c.Keyed) (hopen : c.isSealed = false)
    (key : ShapeKey) (identity : Identity) : (c.adopt key identity).Keyed :=
  (h.request_none hopen key).name key identity

/-- So carrying keeps templates at their keys, also where it stops early. -/
theorem Keyed.carry {c : Cache .shape} (h : c.Keyed) (hopen : c.isSealed = false)
    (known : ShapeKey → Option Identity) (entries : List (ShapeKey × Identity)) :
    (c.carry known entries).2.Keyed := by
  induction entries generalizing c with
  | nil => exact h
  | cons e rest ih =>
    obtain ⟨key, identity⟩ := e
    obtain ⟨-, heq⟩ | ⟨-, heq⟩ | ⟨_, -, -, heq⟩ :=
      carry_cases c known key identity rest <;> rw [heq]
    · exact ih (h.adopt hopen key identity) (isSealed_adopt hopen ..)
    · exact ih h hopen
    · exact h

theorem Keyed.keys_eq {c : Cache family} (h : c.Keyed) :
    c.templates.map (·.key) = c.entries.keys := by
  rw [templates, Table.values, Table.keys, List.map_map]
  refine List.map_congr_left ?_
  rintro ⟨key, t⟩ hmem
  exact h key t (Table.find?_eq_some_iff.2 hmem)

/-- No key has two templates. Sorting, counting and numbering below all rest on this. -/
theorem Keyed.nodup_keys {c : Cache family} (h : c.Keyed) :
    (c.templates.map (·.key)).Nodup := by
  rw [h.keys_eq]
  exact c.entries.nodup

/-- A template of the cache is found at its key. -/
theorem Keyed.find?_of_mem {c : Cache family} (h : c.Keyed) {t : Template family}
    (ht : t ∈ c.templates) : c.find? t.key = some t := by
  obtain ⟨key, hkey⟩ := mem_templates_iff.1 ht
  rw [h key t hkey, hkey]

/-- The unnamed keys are those of the templates without an identity. -/
theorem Keyed.mem_unnamedKeys {c : Cache family} (h : c.Keyed)
    {le : Template family → Template family → Bool} {key : family.Key} :
    key ∈ c.unnamedKeys le ↔ ∃ t, c.find? key = some t ∧ t.identity = none := by
  rw [unnamedKeys, List.mem_map]
  constructor
  · rintro ⟨t, hmem, rfl⟩
    obtain ⟨hmem, hunnamed⟩ := List.mem_filter.1 ((sortList_perm le _).mem_iff.1 hmem)
    obtain ⟨key, ht⟩ := mem_templates_iff.1 hmem
    refine ⟨t, h key t ht ▸ ht, ?_⟩
    simpa [Template.isNamed] using hunnamed
  · rintro ⟨t, ht, hunnamed⟩
    refine ⟨t, (sortList_perm le _).mem_iff.2 (List.mem_filter.2 ?_), h key t ht⟩
    exact ⟨mem_templates_iff.2 ⟨key, ht⟩, by simp [Template.isNamed, hunnamed]⟩

/-- No key is named twice, in whatever order they are named. -/
theorem Keyed.nodup_unnamedKeys {c : Cache family} (h : c.Keyed)
    (le : Template family → Template family → Bool) : (c.unnamedKeys le).Nodup := by
  have hperm := (sortList_perm le (c.templates.filter fun t => !t.isNamed)).map
    (fun t : Template family => t.key)
  exact hperm.nodup_iff.2 (h.nodup_keys.sublist (List.filter_sublist.map _))

end Cache

namespace Generation

/-- The identity of the shape with a given index. -/
def shapeIdentity (g : Generation) (_ : ShapeKey) (index : UInt32) : Identity :=
  ⟨shapeTypeName index g.config.slot g.config.fragment, index⟩

/-- The identity of a delegate with a given index. -/
def delegateIdentity (key : DelegateKey) (index : UInt32) : Identity := ⟨key.typeName, index⟩

/-- Finalization has been begun. -/
def begun (g : Generation) : Generation := { g with isFinalizing := true }

/-- The last part of finalization, which cannot fail. -/
def handOver (g : Generation) (carried : List ShapeKey) (numbering : Numbering) : Generation :=
  { g with
    handedOff := g.handedOff ++ [g.definitions carried]
    finalized := some numbering }

/-- Finalize a generation; `known` are the identities that the earlier generations offer,
`start` are the counters to continue from, and `entries` is what an earlier output
recorded. Answers the carried keys and the counters that are left behind. -/
def finish (g : Generation) (known : ShapeKey → Option Identity) (start : Numbering)
    (entries : List (ShapeKey × Identity)) :
    Except Failure (List ShapeKey × Numbering) × Generation :=
  match g.shapes.carry known entries with
  | (.error e, shapes) => (.error e, { g.begun with shapes })
  | (.ok carried, shapes) =>
    match shapes.nameAll g.shapeIdentity (shapes.unnamedKeys Template.shapeLe)
        start.nextShape with
    | (.error e, shapes) => (.error e, { g.begun with shapes })
    | (.ok nextShape, shapes) =>
      match g.delegates.nameAll delegateIdentity
          (g.delegates.unnamedKeys Template.delegateLe) start.nextDelegate with
      | (.error e, delegates) => (.error e, { g.begun with shapes, delegates })
      | (.ok nextDelegate, delegates) =>
        let g := { g.begun with shapes := shapes.close, delegates := delegates.close }
        (.ok (carried, ⟨nextShape, nextDelegate⟩),
          g.handOver carried ⟨nextShape, nextDelegate⟩)

section

variable {g : Generation} {known : ShapeKey → Option Identity} {start : Numbering}
  {entries : List (ShapeKey × Identity)} {carried : List ShapeKey} {e : Failure}
  {shapes shapes' : Cache .shape} {delegates : Cache .delegate} {nextShape nextDelegate : UInt32}

/-- A conflict leaves what was adopted before it, and nothing is named. -/
theorem finish_of_carry_error (hcarry : g.shapes.carry known entries = (.error e, shapes)) :
    g.finish known start entries = (.error e, { g.begun with shapes }) := by
  simp only [finish, hcarry]

/-- If the indices of shapes run out, the delegates have not been looked at. -/
theorem finish_of_shapes_error (hcarry : g.shapes.carry known entries = (.ok carried, shapes))
    (hshapes : shapes.nameAll g.shapeIdentity (shapes.unnamedKeys Template.shapeLe)
      start.nextShape = (.error e, shapes')) :
    g.finish known start entries = (.error e, { g.begun with shapes := shapes' }) := by
  simp only [finish, hcarry, hshapes]

/-- If those of delegates run out, all shapes have their names but nothing is closed or handed
over. -/
theorem finish_of_delegates_error
    (hcarry : g.shapes.carry known entries = (.ok carried, shapes))
    (hshapes : shapes.nameAll g.shapeIdentity (shapes.unnamedKeys Template.shapeLe)
      start.nextShape = (.ok nextShape, shapes'))
    (hdelegates : g.delegates.nameAll delegateIdentity
      (g.delegates.unnamedKeys Template.delegateLe) start.nextDelegate = (.error e, delegates)) :
    g.finish known start entries =
      (.error e, { g.begun with shapes := shapes', delegates }) := by
  simp only [finish, hcarry, hshapes, hdelegates]

/-- Only if all three parts succeed are the caches closed and the definitions handed over. -/
theorem finish_of_ok (hcarry : g.shapes.carry known entries = (.ok carried, shapes))
    (hshapes : shapes.nameAll g.shapeIdentity (shapes.unnamedKeys Template.shapeLe)
      start.nextShape = (.ok nextShape, shapes'))
    (hdelegates : g.delegates.nameAll delegateIdentity
      (g.delegates.unnamedKeys Template.delegateLe) start.nextDelegate =
        (.ok nextDelegate, delegates)) :
    g.finish known start entries =
      (.ok (carried, ⟨nextShape, nextDelegate⟩),
        ({ g.begun with
          shapes := shapes'.close
          delegates := delegates.close } : Generation).handOver carried
            ⟨nextShape, nextDelegate⟩) := by
  simp only [finish, hcarry, hshapes, hdelegates]

/-- **How finalization can go**: a recorded identity stops it, or the shapes run out of indices,
or the delegates do, or it comes to its end. -/
inductive FinishCases (g : Generation) (known : ShapeKey → Option Identity) (start : Numbering)
    (entries : List (ShapeKey × Identity)) :
    Except Failure (List ShapeKey × Numbering) × Generation → Prop where
  | conflict {e : Failure} {shapes : Cache .shape}
      (hcarry : g.shapes.carry known entries = (.error e, shapes)) :
      FinishCases g known start entries (.error e, { g.begun with shapes })
  | outOfShapes {carried : List ShapeKey} {e : Failure} {shapes shapes' : Cache .shape}
      (hcarry : g.shapes.carry known entries = (.ok carried, shapes))
      (hshapes : shapes.nameAll g.shapeIdentity (shapes.unnamedKeys Template.shapeLe)
        start.nextShape = (.error e, shapes')) :
      FinishCases g known start entries (.error e, { g.begun with shapes := shapes' })
  | outOfDelegates {carried : List ShapeKey} {nextShape : UInt32} {e : Failure}
      {shapes shapes' : Cache .shape} {delegates : Cache .delegate}
      (hcarry : g.shapes.carry known entries = (.ok carried, shapes))
      (hshapes : shapes.nameAll g.shapeIdentity (shapes.unnamedKeys Template.shapeLe)
        start.nextShape = (.ok nextShape, shapes'))
      (hdelegates : g.delegates.nameAll delegateIdentity
        (g.delegates.unnamedKeys Template.delegateLe) start.nextDelegate = (.error e, delegates)) :
      FinishCases g known start entries (.error e, { g.begun with shapes := shapes', delegates })
  | done {carried : List ShapeKey} {nextShape nextDelegate : UInt32}
      {shapes shapes' : Cache .shape} {delegates : Cache .delegate}
      (hcarry : g.shapes.carry known entries = (.ok carried, shapes))
      (hshapes : shapes.nameAll g.shapeIdentity (shapes.unnamedKeys Template.shapeLe)
        start.nextShape = (.ok nextShape, shapes'))
      (hdelegates : g.delegates.nameAll delegateIdentity
        (g.delegates.unnamedKeys Template.delegateLe) start.nextDelegate =
          (.ok nextDelegate, delegates)) :
      FinishCases g known start entries (.ok (carried, ⟨nextShape, nextDelegate⟩),
        ({ g.begun with
          shapes := shapes'.close
          delegates := delegates.close } : Generation).handOver carried ⟨nextShape, nextDelegate⟩)

/-- Whatever is to be known of every outcome of finalization is proved of these four, and the
names of the cases say where it stopped. -/
theorem finish_cases (g : Generation) (known : ShapeKey → Option Identity) (start : Numbering)
    (entries : List (ShapeKey × Identity)) :
    g.FinishCases known start entries (g.finish known start entries) := by
  rcases hcarry : g.shapes.carry known entries with ⟨e | carried, shapes⟩
  · rw [finish_of_carry_error hcarry]
    exact .conflict hcarry
  rcases hshapes : shapes.nameAll g.shapeIdentity (shapes.unnamedKeys Template.shapeLe)
    start.nextShape with ⟨e | nextShape, shapes'⟩
  · rw [finish_of_shapes_error hcarry hshapes]
    exact .outOfShapes hcarry hshapes
  rcases hdelegates : g.delegates.nameAll delegateIdentity
    (g.delegates.unnamedKeys Template.delegateLe) start.nextDelegate with
    ⟨e | nextDelegate, delegates⟩
  · rw [finish_of_delegates_error hcarry hshapes hdelegates]
    exact .outOfDelegates hcarry hshapes hdelegates
  · rw [finish_of_ok hcarry hshapes hdelegates]
    exact .done hcarry hshapes hdelegates

/-- Finalization succeeds if all of its parts do. -/
theorem exists_of_finish_eq_ok {numbering : Numbering} {g' : Generation}
    (h : g.finish known start entries = (.ok (carried, numbering), g')) :
    ∃ shapes shapes' delegates, g.shapes.carry known entries = (.ok carried, shapes) ∧
      shapes.nameAll g.shapeIdentity (shapes.unnamedKeys Template.shapeLe) start.nextShape =
        (.ok numbering.nextShape, shapes') ∧
      g.delegates.nameAll delegateIdentity (g.delegates.unnamedKeys Template.delegateLe)
        start.nextDelegate = (.ok numbering.nextDelegate, delegates) ∧
      g' = ({ g.begun with
        shapes := shapes'.close
        delegates := delegates.close } : Generation).handOver carried numbering := by
  have hcases := g.finish_cases known start entries
  rw [h] at hcases
  cases hcases with
  | done hcarry hshapes hdelegates => exact ⟨_, _, _, hcarry, hshapes, hdelegates, rfl⟩

end

/-- A generation that finalization can be started in: it has not been started before, so the
cache of its shapes is open and no template is named. -/
structure Ready (g : Generation) (h : Handle) : Prop where
  isFinalizing : g.isFinalizing = false
  finalized : g.finalized = none
  home : g.shapes.home = h
  not_mem : h ∉ g.ancestors
  isSealed : g.shapes.isSealed = false
  keyed : ∀ family, (g.cache family).Keyed
  unnamed : ∀ family key t, (g.cache family).find? key = some t → t.identity = none

end Generation

/-! ## Work on one generation of a session -/

namespace Run

variable {s : Session} {h : Handle} {g : Generation}

/-- The generation that was just put is the one that is read back. -/
theorem generation_put (hs : (s.generation? h).isSome) (g : Generation) :
    generation h (s.put h g) = (.ok g, s.put h g) := by
  rw [generation, Session.generation?_put_self hs]

/-- Changes to the generation that was just put are changes to the put one. So a run on one
generation can be followed without the session around it. -/
theorem update_put (s : Session) (h : Handle) (g : Generation)
    (change : Generation → Generation) :
    Run.update h change (s.put h g) = (.ok (), s.put h (change g)) :=
  Prod.ext rfl (Session.update_put ..)

/-- A request of the generation reads only its own cache and what it inherits, and it does not
inherit from itself. -/
theorem request_put (hs : (s.generation? h).isSome) (hnot : h ∉ g.ancestors)
    (key : family.Key) (location : Option Location) :
    request family h key location (s.put h g) =
      (((g.cache family).request (s.inherited family key g.ancestors) key location).1,
        s.put h (g.withCache family
          ((g.cache family).request (s.inherited family key g.ancestors) key location).2)) := by
  refine (bind_of_ok (generation_put hs g)).trans ?_
  simp only [Session.inherited_put s g hnot, Session.update_put]

/-- A template of the generation that has no identity gets one. -/
theorem assign_put (hs : (s.generation? h).isSome) {key : family.Key} {t : Template family}
    (ht : (g.cache family).find? key = some t) (hunnamed : t.identity = none)
    (identity : Identity) :
    assign (⟨h, key⟩ : TemplateRef family) identity (s.put h g) =
      (.ok (), s.put h (g.withCache family ((g.cache family).name key identity))) := by
  have htemplate : (s.put h g).template? (⟨h, key⟩ : TemplateRef family) = some t :=
    (Session.own?_put_self hs g family key).trans ht
  rw [assign, bind_apply]
  simp only [view, htemplate, hunnamed]
  exact update_put ..

/-- A template that has an identity keeps it; giving it another one is refused. -/
theorem assign_named {s : Session} {r : TemplateRef family} {existing : Identity}
    (hr : s.identity? r = some existing) (identity : Identity) :
    assign r identity s =
      (if existing = identity then .ok ()
        else .error (.rejected (.identityConflict family (family.keyText r.key) existing identity)),
        s) := by
  obtain ⟨t, ht, hidentity⟩ := Option.bind_eq_some_iff.1 hr
  rw [assign, bind_apply]
  simp only [view, ht, hidentity]
  split
  · rfl
  · rfl

/-- **A shape that is inherited** keeps the identity that it has; the recorded one must agree. -/
theorem carryForward_inherited {key : ShapeKey} {identity existing : Identity}
    {rest : List (ShapeKey × Identity)} {r : TemplateRef .shape}
    (hr : s.offered .shape h key = some r) (hexisting : s.identity? r = some existing) :
    carryForward h ((key, identity) :: rest) s =
      if existing = identity then carryForward h rest s
      else (.error (.rejected (.identityConflict .shape (ShapeKey.canonical r.key) existing
        identity)), s) := by
  refine (bind_of_ok (rfl : view _ s = (.ok (s.offered .shape h key), s))).trans ?_
  simp only [hr]
  have hassign := assign_named hexisting identity
  by_cases heq : existing = identity
  · rw [if_pos heq] at hassign ⊢
    exact bind_of_ok hassign
  · rw [if_neg heq] at hassign ⊢
    exact bind_of_error hassign

/-- What the generation inherits has nothing to do with itself. -/
theorem offered_put (hs : (s.generation? h).isSome) (hnot : h ∉ g.ancestors) (key : ShapeKey) :
    (s.put h g).offered .shape h key = s.inherited .shape key g.ancestors := by
  rw [Session.offered, Session.generation?_put_self hs]
  exact Session.inherited_put s g hnot

/-- A shape that is inherited has an identity, and not from the generation itself. -/
theorem exists_identity_of_inherited (hnot : h ∉ g.ancestors) {key : ShapeKey}
    {r : TemplateRef .shape} (hr : s.inherited .shape key g.ancestors = some r) :
    ∃ existing, s.inheritedIdentity .shape g.ancestors key = some existing ∧
      (s.put h g).identity? r = some existing := by
  obtain ⟨existing, hexisting⟩ :=
    Option.isSome_iff_exists.1 (Session.isSome_identity?_of_inherited hr)
  refine ⟨existing, (Session.inheritedIdentity_of_some hr).trans hexisting, ?_⟩
  have hne : r.home ≠ h := fun he => hnot (he ▸ (Session.exists_of_inherited hr).1)
  rw [Session.identity?, Session.template?, Session.own?_put_ne _ _ hne]
  exact hexisting

/-- A shape that is not inherited is asked for and then named, and so it is adopted. -/
theorem request_assign_put (hs : (s.generation? h).isSome) (hnot : h ∉ g.ancestors)
    (hhome : g.shapes.home = h) (hopen : g.shapes.isSealed = false) {key : ShapeKey}
    (hnone : s.inherited .shape key g.ancestors = none)
    (hunnamed : ∀ t, g.shapes.find? key = some t → t.identity = none) (identity : Identity) :
    ∃ s', request .shape h key none (s.put h g) = (.ok ⟨h, key⟩, s') ∧
      assign (⟨h, key⟩ : TemplateRef .shape) identity s' =
        (.ok (), s.put h (g.withCache .shape (g.shapes.adopt key identity))) := by
  refine ⟨s.put h (g.withCache .shape (g.shapes.request none key none).2), ?_, ?_⟩
  · rw [request_put hs hnot, hnone]
    refine Prod.ext ?_ rfl
    change (g.shapes.request none key none).1 = _
    rw [Cache.request_none hopen, hhome]
  · have hfind : ((g.withCache .shape (g.shapes.request none key none).2).cache .shape).find? key =
        some ((g.shapes.find? key).getD (.ofKey key g.shapes.owner)) :=
      Cache.find?_request_self hopen key
    have hidentity : ((g.shapes.find? key).getD (.ofKey key g.shapes.owner)).identity = none := by
      rcases hkey : g.shapes.find? key with _ | t
      · rfl
      · exact hunnamed t hkey
    exact assign_put hs hfind hidentity identity

/-- **A shape that is not inherited** is adopted by the generation itself. -/
theorem carryForward_own (hs : (s.generation? h).isSome) (hnot : h ∉ g.ancestors)
    (hhome : g.shapes.home = h) (hopen : g.shapes.isSealed = false) {key : ShapeKey}
    {identity : Identity} {rest : List (ShapeKey × Identity)}
    (hnone : s.inherited .shape key g.ancestors = none)
    (hunnamed : ∀ t, g.shapes.find? key = some t → t.identity = none) :
    carryForward h ((key, identity) :: rest) (s.put h g) =
      match carryForward h rest (s.put h (g.withCache .shape (g.shapes.adopt key identity))) with
      | (.ok carried, s) => (.ok (key :: carried), s)
      | (.error e, s) => (.error e, s) := by
  refine (bind_of_ok (rfl : view _ (s.put h g) =
    (.ok ((s.put h g).offered .shape h key), s.put h g))).trans ?_
  simp only [(offered_put hs hnot key).trans hnone]
  obtain ⟨s', hrequest, hassign⟩ :=
    request_assign_put hs hnot hhome hopen hnone hunnamed identity
  refine (bind_of_ok hrequest).trans ((bind_of_ok hassign).trans ?_)
  rw [bind_apply]
  rcases carryForward h rest (s.put h (g.withCache .shape (g.shapes.adopt key identity))) with
    ⟨_ | carried, s'⟩
  · rfl
  · rfl

/-- **Carrying forward** works on the cache of shapes alone. By induction on the entries; an
entry that is adopted leaves the later ones unnamed, because no key is recorded twice. -/
theorem carryForward_put (hs : (s.generation? h).isSome) {entries : List (ShapeKey × Identity)}
    (hnodup : (entries.map Prod.fst).Nodup) (hnot : h ∉ g.ancestors) (hhome : g.shapes.home = h)
    (hopen : g.shapes.isSealed = false)
    (hunnamed : ∀ e ∈ entries, ∀ t, g.shapes.find? e.1 = some t → t.identity = none) :
    carryForward h entries (s.put h g) =
      ((g.shapes.carry (s.inheritedIdentity .shape g.ancestors) entries).1,
        s.put h (g.withCache .shape
          (g.shapes.carry (s.inheritedIdentity .shape g.ancestors) entries).2)) := by
  induction entries generalizing g with
  | nil => rfl
  | cons e rest ih =>
    obtain ⟨key, identity⟩ := e
    rw [List.map_cons, List.nodup_cons] at hnodup
    -- no other entry is for this key, so adopting it leaves the others unnamed
    have hrest : ∀ e ∈ rest, e.1 ≠ key := fun e he hk =>
      hnodup.1 (List.mem_map.2 ⟨e, he, hk⟩)
    rcases hinherited : s.inherited .shape key g.ancestors with _ | r
    · have hknown : s.inheritedIdentity .shape g.ancestors key = none :=
        Session.inheritedIdentity_eq_none_iff.2 hinherited
      have hadopt := Cache.unnamed_adopt hopen identity hrest fun e he =>
        hunnamed e (List.mem_cons_of_mem _ he)
      have hframe := Cache.frame_adopt hopen key identity
      have hih := ih (g := g.withCache .shape (g.shapes.adopt key identity)) hnodup.2 hnot
        ((Cache.home_of_frame hframe).trans hhome) (Cache.isSealed_adopt hopen key identity) hadopt
      rw [carryForward_own hs hnot hhome hopen hinherited (hunnamed _ (List.mem_cons_self ..)),
        hih, Cache.carry, hknown]
      simp only [Generation.withCache]
      rcases (g.shapes.adopt key identity).carry (s.inheritedIdentity .shape g.ancestors) rest with
        ⟨_ | carried, c⟩
      · rfl
      · rfl
    · obtain ⟨-, hkey, -⟩ := Session.exists_of_inherited hinherited
      obtain ⟨existing, hknown, hput⟩ := exists_identity_of_inherited hnot hinherited
      rw [carryForward_inherited ((offered_put hs hnot key).trans hinherited) hput, Cache.carry,
        hknown, hkey]
      by_cases heq : existing = identity
      · simp only [if_pos heq]
        exact ih hnodup.2 hnot hhome hopen fun e he => hunnamed e (List.mem_cons_of_mem _ he)
      · simp only [if_neg heq]
        rfl

/-- Naming works on one cache. The keys are different, and their templates are unnamed. -/
theorem nameAll_put (hs : (s.generation? h).isSome)
    (identityOf : family.Key → UInt32 → Identity) {keys : List family.Key}
    (hnodup : keys.Nodup) (index : UInt32)
    (hunnamed : ∀ key ∈ keys, ∃ t, (g.cache family).find? key = some t ∧ t.identity = none) :
    nameAll family h identityOf keys index (s.put h g) =
      (((g.cache family).nameAll identityOf keys index).1,
        s.put h (g.withCache family ((g.cache family).nameAll identityOf keys index).2)) := by
  induction keys generalizing g index with
  | nil =>
    refine Prod.ext rfl ?_
    rw [Cache.nameAll, Generation.withCache_cache]
    rfl
  | cons key rest ih =>
    rw [List.nodup_cons] at hnodup
    obtain ⟨t, ht, hnone⟩ := hunnamed key (List.mem_cons_self ..)
    refine (bind_of_ok (assign_put hs ht hnone (identityOf key index))).trans ?_
    rw [Cache.nameAll]
    rcases hnext : nextIndex index with fault | next
    · exact bind_of_error (by rw [orFault]; rfl)
    · refine (bind_of_ok (a := next) (by rw [orFault]; rfl)).trans ?_
      have hrest : ∀ key' ∈ rest,
          ∃ t, ((g.withCache family ((g.cache family).name key (identityOf key index))).cache
            family).find? key' = some t ∧ t.identity = none := by
        intro key' hmem
        have hne : key' ≠ key := fun he => hnodup.1 (he ▸ hmem)
        rw [Generation.cache_withCache_self, Cache.find?_name_ne _ _ hne]
        exact hunnamed key' (List.mem_cons_of_mem _ hmem)
      rw [ih hnodup.2 next hrest, Generation.cache_withCache_self, Generation.withCache_withCache]

/-- Shapes are named in the order of their locations and texts; the keys to be named are read
from the cache before the first of them gets its name. -/
theorem nameShapes_put (hs : (s.generation? h).isSome) (hkeyed : g.shapes.Keyed) {index : UInt32}
    {answer : Except Failure UInt32} {shapes : Cache .shape}
    (hshapes : g.shapes.nameAll g.shapeIdentity (g.shapes.unnamedKeys Template.shapeLe) index =
      (answer, shapes)) :
    nameShapes h index (s.put h g) = (answer, s.put h { g with shapes }) := by
  refine (bind_of_ok (generation_put hs g)).trans ?_
  refine (nameAll_put hs g.shapeIdentity (hkeyed.nodup_unnamedKeys _) index
    fun _ => hkeyed.mem_unnamedKeys.1).trans ?_
  rw [Generation.cache, hshapes]
  rfl

/-- Delegates likewise, in the order of their type names. -/
theorem nameDelegates_put (hs : (s.generation? h).isSome) (hkeyed : g.delegates.Keyed)
    {index : UInt32} {answer : Except Failure UInt32} {delegates : Cache .delegate}
    (hdelegates : g.delegates.nameAll Generation.delegateIdentity
      (g.delegates.unnamedKeys Template.delegateLe) index = (answer, delegates)) :
    nameDelegates h index (s.put h g) = (answer, s.put h { g with delegates }) := by
  refine (bind_of_ok (generation_put hs g)).trans ?_
  refine (nameAll_put hs Generation.delegateIdentity (hkeyed.nodup_unnamedKeys _) index
    fun _ => hkeyed.mem_unnamedKeys.1).trans ?_
  rw [Generation.cache, hdelegates]
  rfl

/-- Handing over adds one list to those that were handed over before, and answers its length. -/
theorem handOff_put (hs : (s.generation? h).isSome) (carried : List ShapeKey) :
    handOff h carried (s.put h g) =
      (.ok (g.definitions carried).length,
        s.put h { g with handedOff := g.handedOff ++ [g.definitions carried] }) :=
  (bind_of_ok (generation_put hs g)).trans (bind_of_ok (update_put s h g _))

end Run

namespace Session

/-- Of the session, only the counters of the generation before are read, and that is another one. -/
theorem startNumbering_put (s : Session) {h : Handle} (new : Generation) {g : Generation}
    (hnot : h ∉ g.ancestors) (given : Numbering) (previous : Option IdentityMap) :
    (s.put h new).startNumbering g given previous = s.startNumbering g given previous := by
  simp only [startNumbering, predecessorNumbering_put s new hnot]

/-- Only the shapes of the given generations count. -/
theorem identityMap_congr {s s' : Session} (m : IdentityMap) {handles : List Handle}
    (hshapes : ∀ a ∈ handles,
      (s.generation? a).map (·.shapes) = (s'.generation? a).map (·.shapes)) :
    s.identityMap m handles = s'.identityMap m handles := by
  induction handles generalizing m with
  | nil => rfl
  | cons a rest ih =>
    have hstep : ((s.generation? a).map fun g => m.insertAll g.shapes.identities) =
        (s'.generation? a).map fun g => m.insertAll g.shapes.identities := by
      have hmap := congrArg (Option.map fun c => m.insertAll c.identities)
        (hshapes a (List.mem_cons_self ..))
      rwa [Option.map_map, Option.map_map] at hmap
    rw [identityMap, List.foldl_cons, hstep]
    exact ih _ fun b hb => hshapes b (List.mem_cons_of_mem _ hb)

/-- Finalize a generation of a session, as `Generation.finish` does. -/
def finish (s : Session) (g : Generation) (given : Numbering) (previous : Option IdentityMap) :
    Except Failure (List ShapeKey × Numbering) × Generation :=
  g.finish (s.inheritedIdentity .shape g.ancestors) (s.startNumbering g given previous)
    ((previous.map (·.entries)).getD [])

/-- The answer to finalization, in the session that it ends in. -/
def report (s : Session) (h : Handle) (g : Generation) (previous : Option IdentityMap)
    (carried : List ShapeKey) (numbering : Numbering) : Finalized :=
  ⟨numbering,
    (s.identityMap (previous.getD .empty) (h :: g.ancestors)).withNumbering numbering,
    (g.definitions carried).length⟩

/-- Handing over does not change what is reported. -/
theorem report_handOver (s : Session) (h : Handle) (g : Generation)
    (previous : Option IdentityMap) (carried : List ShapeKey) (numbering : Numbering)
    (handedOff : List (List Definition)) :
    (s.put h { g with handedOff }).report h g previous carried numbering =
      (s.put h (g.handOver carried numbering)).report h (g.handOver carried numbering) previous
        carried numbering := by
  have hmap : ∀ m handles, (s.put h { g with handedOff }).identityMap m handles =
      (s.put h (g.handOver carried numbering)).identityMap m handles :=
    fun m handles => identityMap_congr m fun a _ => ?_
  · rw [report, report, hmap]
    rfl
  · by_cases ha : a = h
    · subst ha
      simp only [generation?_put, Option.map_map]
      rfl
    · rw [generation?_put_ne _ _ ha, generation?_put_ne _ _ ha]

end Session

namespace Run

variable {s : Session} {h : Handle} {g : Generation}

/-- Carrying forward, in a generation that finalization has just been started in. -/
theorem carryForward_begun (hs : (s.generation? h).isSome) (hready : g.Ready h)
    {entries : List (ShapeKey × Identity)} (hnodup : (entries.map Prod.fst).Nodup)
    {answer : Except Failure (List ShapeKey)} {shapes : Cache .shape}
    (hcarry : g.shapes.carry (s.inheritedIdentity .shape g.ancestors) entries = (answer, shapes)) :
    carryForward h entries (s.put h g.begun) = (answer, s.put h { g.begun with shapes }) ∧
      shapes.Keyed := by
  have hkeyed := (hready.keyed .shape).carry hready.isSealed
    (s.inheritedIdentity .shape g.ancestors) entries
  rw [Generation.cache, hcarry] at hkeyed
  refine ⟨?_, hkeyed⟩
  refine (carryForward_put (g := g.begun) hs hnodup hready.not_mem hready.home hready.isSealed
    fun e _ => hready.unnamed .shape e.1).trans ?_
  rw [Generation.begun, hcarry]
  rfl

/-- What is left when everything has a name cannot fail. -/
theorem conclude_put (hs : (s.generation? h).isSome) (g : Generation)
    (previous : Option IdentityMap) (carried : List ShapeKey) (numbering : Numbering) :
    let g' := ({ g with
      shapes := g.shapes.close
      delegates := g.delegates.close } : Generation).handOver carried numbering
    conclude h g.ancestors previous carried numbering (s.put h g) =
      (.ok ((s.put h g').report h g' previous carried numbering), s.put h g') := by
  refine (bind_of_ok (update_put ..)).trans ((bind_of_ok (handOff_put hs carried)).trans ?_)
  refine (bind_of_ok rfl).trans ((bind_of_ok (update_put ..)).trans ?_)
  exact Prod.ext (congrArg Except.ok (Session.report_handOver ..)) rfl

/-- Finalization of a generation that is ready for it: it is marked, and the counters to continue
from do not depend on that. -/
theorem finalize_begun (hg : s.generation? h = some g) (hready : g.Ready h) (given : Numbering)
    (previous : Option IdentityMap) :
    finalize h given previous s =
      (do
        let carried ← carryForward h ((previous.map IdentityMap.entries).getD [])
        let nextShape ← nameShapes h (s.startNumbering g given previous).nextShape
        let nextDelegate ← nameDelegates h (s.startNumbering g given previous).nextDelegate
        conclude h g.ancestors previous carried ⟨nextShape, nextDelegate⟩) (s.put h g.begun) := by
  have hgeneration : generation h s = (.ok g, s) := by rw [generation, hg]
  have hbegin : Run.update h Generation.begun s = (.ok (), s.put h g.begun) :=
    Prod.ext rfl (Session.update_eq_put hg _)
  have hstart : view (fun s => s.startNumbering g given previous) (s.put h g.begun) =
      (.ok (s.startNumbering g given previous), s.put h g.begun) :=
    Prod.ext (congrArg Except.ok (Session.startNumbering_put s _ hready.not_mem ..)) rfl
  refine (bind_of_ok hgeneration).trans ?_
  rw [if_neg (by rw [hready.isFinalizing]; exact Bool.false_ne_true)]
  exact (bind_of_ok hbegin).trans (bind_of_ok hstart)

/-- **Finalization** ends in the session with the finished generation in place of the old one,
whether it succeeds or not. The cases are those of `Generation.finish_cases`: up to where it
stops, each part of the run is the part of `Generation.finish`. -/
theorem finalize_eq (hg : s.generation? h = some g) (hready : g.Ready h) (given : Numbering)
    (previous : Option IdentityMap) :
    finalize h given previous s =
      ((s.finish g given previous).1.map fun out =>
          (s.put h (s.finish g given previous).2).report h (s.finish g given previous).2 previous
            out.1 out.2,
        s.put h (s.finish g given previous).2) := by
  have hs := Option.isSome_of_eq_some hg
  have hnodup := IdentityMap.nodup_recorded previous
  have hcases := g.finish_cases (s.inheritedIdentity .shape g.ancestors)
    (s.startNumbering g given previous) ((previous.map (·.entries)).getD [])
  rw [finalize_begun hg hready, Session.finish]
  generalize s.startNumbering g given previous = start at *
  generalize (previous.map (·.entries)).getD [] = entries at *
  generalize g.finish (s.inheritedIdentity .shape g.ancestors) start entries = out at *
  cases hcases with
  | conflict hcarry => exact bind_of_error (carryForward_begun hs hready hnodup hcarry).1
  | @outOfShapes _ _ shapes _ hcarry hshapes =>
    obtain ⟨hcarried, hkeyed⟩ := carryForward_begun hs hready hnodup hcarry
    refine (bind_of_ok hcarried).trans ?_
    exact bind_of_error (nameShapes_put (g := { g.begun with shapes }) hs hkeyed hshapes)
  | @outOfDelegates _ _ _ shapes shapes' _ hcarry hshapes hdelegates =>
    obtain ⟨hcarried, hkeyed⟩ := carryForward_begun hs hready hnodup hcarry
    refine (bind_of_ok hcarried).trans ?_
    refine (bind_of_ok
      (nameShapes_put (g := { g.begun with shapes }) hs hkeyed hshapes)).trans ?_
    exact bind_of_error (nameDelegates_put (g := { g.begun with shapes := shapes' }) hs
      (hready.keyed .delegate) hdelegates)
  | @done _ _ _ shapes shapes' delegates hcarry hshapes hdelegates =>
    obtain ⟨hcarried, hkeyed⟩ := carryForward_begun hs hready hnodup hcarry
    refine (bind_of_ok hcarried).trans ?_
    refine (bind_of_ok
      (nameShapes_put (g := { g.begun with shapes }) hs hkeyed hshapes)).trans ?_
    refine (bind_of_ok (nameDelegates_put (g := { g.begun with shapes := shapes' }) hs
      (hready.keyed .delegate) hdelegates)).trans ?_
    exact conclude_put hs { g.begun with shapes := shapes', delegates } previous _ _

/-- A generation is finalized at most once. The second attempt changes nothing, whether or not
the first one succeeded. -/
theorem finalize_again (hg : s.generation? h = some g) (hagain : g.isFinalizing = true)
    (given : Numbering) (previous : Option IdentityMap) :
    finalize h given previous s = (.error (.rejected (.alreadyFinalized g.id)), s) := by
  have hgeneration : generation h s = (.ok g, s) := by rw [generation, hg]
  refine (bind_of_ok hgeneration).trans ?_
  rw [if_pos hagain]
  rfl

/-- There is no generation to finalize. -/
theorem finalize_missing (hg : s.generation? h = none) (given : Numbering)
    (previous : Option IdentityMap) :
    finalize h given previous s = (.error (.fault (.unknownGeneration h)), s) :=
  bind_of_error (by rw [generation, hg])

end Run

/-! ## What finalization leaves alone

Whatever the outcome, templates stay and get at most an identity, and the templates that
are added are those of shapes that the earlier generations do not offer. -/

namespace Cache

/-- `c'` is what becomes of `c` when templates get identities, and templates are made for
some of the keys in `adopted`. -/
structure Names (c : Cache family) (adopted : family.Key → Prop) (c' : Cache family) :
    Prop where
  frame_eq : c'.frame = c.frame
  audited_eq : c'.audited = c.audited
  held : ∀ {key t}, c.find? key = some t → ∃ identity, c'.find? key = some { t with identity }
  made : ∀ {key t}, c.find? key = none → c'.find? key = some t →
    adopted key ∧ ∃ identity, t = { Template.ofKey key c.owner with identity }

namespace Names

variable {c c' c'' : Cache family} {adopted adopted' : family.Key → Prop}

theorem refl (c : Cache family) (adopted : family.Key → Prop) : c.Names adopted c where
  frame_eq := rfl
  audited_eq := rfl
  held {_ t} ht := ⟨t.identity, ht⟩
  made hnone ht := by
    rw [hnone] at ht
    cases ht

theorem mono (h : c.Names adopted c') (himp : ∀ key, adopted key → adopted' key) :
    c.Names adopted' c' where
  frame_eq := h.frame_eq
  audited_eq := h.audited_eq
  held := h.held
  made hnone ht := (h.made hnone ht).imp_left (himp _)

theorem trans (h : c.Names adopted c') (h' : c'.Names adopted c'') : c.Names adopted c'' where
  frame_eq := h'.frame_eq.trans h.frame_eq
  audited_eq := h'.audited_eq.trans h.audited_eq
  held ht := by
    obtain ⟨identity, ht'⟩ := h.held ht
    obtain ⟨identity', ht''⟩ := h'.held ht'
    exact ⟨identity', ht''⟩
  made {key t} hnone ht := by
    rcases hc' : c'.find? key with _ | t'
    · obtain ⟨hadopted, identity, rfl⟩ := h'.made hc' ht
      rw [owner_of_frame h.frame_eq]
      exact ⟨hadopted, identity, rfl⟩
    · obtain ⟨hadopted, identity, rfl⟩ := h.made hnone hc'
      obtain ⟨identity', ht'⟩ := h'.held hc'
      obtain rfl := Option.some.inj (ht.symm.trans ht')
      exact ⟨hadopted, identity', rfl⟩

end Names

theorem names_name (c : Cache family) (adopted : family.Key → Prop) (key : family.Key)
    (identity : Identity) : c.Names adopted (c.name key identity) where
  frame_eq := rfl
  audited_eq := rfl
  held {other t} ht := by
    by_cases hne : other = key
    · subst hne
      exact ⟨some identity, find?_name_self ht identity⟩
    · exact ⟨t.identity, (find?_name_ne c identity hne).trans ht⟩
  made {other t} hnone ht := by
    by_cases hne : other = key
    · subst hne
      rw [name, find?_modify_self, hnone] at ht
      cases ht
    · rw [find?_name_ne c identity hne, hnone] at ht
      cases ht

theorem audited_adopt {c : Cache .shape} (hopen : c.isSealed = false) (key : ShapeKey)
    (identity : Identity) : (c.adopt key identity).audited = c.audited := by
  rw [adopt, request_none hopen]
  split
  · rfl
  · exact audited_create ..

theorem names_adopt {c : Cache .shape} (hopen : c.isSealed = false)
    {adopted : ShapeKey → Prop} {key : ShapeKey} (hadopted : adopted key)
    (identity : Identity) : c.Names adopted (c.adopt key identity) where
  frame_eq := frame_adopt hopen key identity
  audited_eq := audited_adopt hopen key identity
  held {other t} ht := by
    by_cases hne : other = key
    · subst hne
      refine ⟨some identity, ?_⟩
      rw [find?_adopt_self hopen, ht]
      rfl
    · exact ⟨t.identity, (find?_adopt_ne hopen identity hne).trans ht⟩
  made {other t} hnone ht := by
    by_cases hne : other = key
    · subst hne
      rw [find?_adopt_self hopen, hnone] at ht
      exact ⟨hadopted, some identity, (Option.some.inj ht).symm⟩
    · rw [find?_adopt_ne hopen identity hne, hnone] at ht
      cases ht

theorem names_carry {c : Cache .shape} (hopen : c.isSealed = false)
    (known : ShapeKey → Option Identity) (entries : List (ShapeKey × Identity)) :
    c.Names (fun key => known key = none) (c.carry known entries).2 := by
  induction entries generalizing c with
  | nil => exact .refl ..
  | cons e rest ih =>
    obtain ⟨key, identity⟩ := e
    obtain ⟨hknown, heq⟩ | ⟨-, heq⟩ | ⟨_, -, -, heq⟩ :=
      carry_cases c known key identity rest <;> rw [heq]
    · exact (names_adopt hopen hknown identity).trans (ih (isSealed_adopt hopen ..))
    · exact ih hopen
    · exact .refl ..

theorem names_nameAll (c : Cache family) (adopted : family.Key → Prop)
    (identityOf : family.Key → UInt32 → Identity) (keys : List family.Key) (index : UInt32) :
    c.Names adopted (c.nameAll identityOf keys index).2 := by
  induction keys generalizing c index with
  | nil => exact .refl ..
  | cons key rest ih =>
    rw [nameAll]
    split
    · exact names_name ..
    · exact (names_name ..).trans (ih ..)

/-- The cache after finalization: closed if it succeeded. -/
def closeIf (c : Cache family) (succeeded : Bool) : Cache family :=
  if succeeded then c.close else c

@[simp] theorem home_closeIf (c : Cache family) (succeeded : Bool) :
    (c.closeIf succeeded).home = c.home := by
  cases succeeded <;> rfl

@[simp] theorem owner_closeIf (c : Cache family) (succeeded : Bool) :
    (c.closeIf succeeded).owner = c.owner := by
  cases succeeded <;> rfl

@[simp] theorem seals_closeIf (c : Cache family) (succeeded : Bool) :
    (c.closeIf succeeded).seals = c.seals := by
  cases succeeded <;> rfl

@[simp] theorem audited_closeIf (c : Cache family) (succeeded : Bool) :
    (c.closeIf succeeded).audited = c.audited := by
  cases succeeded <;> rfl

@[simp] theorem find?_closeIf (c : Cache family) (succeeded : Bool) (key : family.Key) :
    (c.closeIf succeeded).find? key = c.find? key := by
  cases succeeded <;> rfl

/-- A cache is sealed by a finalization that succeeds, if the configuration wants it to be. -/
theorem isSealed_closeIf (c : Cache family) (succeeded : Bool) :
    (c.closeIf succeeded).isSealed = (c.isSealed || succeeded && c.seals) := by
  cases succeeded
  · exact (Bool.or_false _).symm
  · rfl

end Cache

namespace Generation

/-- `g'` is what finalization makes of `g`; the templates that it adds are for keys that
are `free`, which is to say that the earlier generations do not offer them. -/
structure Finishes (g : Generation) (free : (family : Family) → family.Key → Prop)
    (g' : Generation) : Prop where
  config_eq : g'.config = g.config
  ancestors_eq : g'.ancestors = g.ancestors
  isFinalizing : g'.isFinalizing = true
  cache_eq : ∀ family, ∃ c, (g.cache family).Names (free family) c ∧
    g'.cache family = c.closeIf g'.finalized.isSome

/-- A generation that gets no further leaves its caches as open as they were. -/
theorem finishes_begun {g : Generation} {h : Handle} (hready : g.Ready h)
    {free : (family : Family) → family.Key → Prop} {shapes : Cache .shape}
    {delegates : Cache .delegate} (hshapes : g.shapes.Names (free .shape) shapes)
    (hdelegates : g.delegates.Names (free .delegate) delegates) :
    g.Finishes free { g.begun with shapes, delegates } := by
  refine ⟨rfl, rfl, rfl, fun family => ?_⟩
  simp only [begun, hready.finalized]
  cases family with
  | shape => exact ⟨shapes, hshapes, rfl⟩
  | delegate => exact ⟨delegates, hdelegates, rfl⟩

/-- **Finalization** leaves everything else as it was, whether it succeeds or not. The templates
that were there stay, and new ones are made only for keys that are inherited from nobody. -/
theorem finishes_finish {g : Generation} {h : Handle} (hready : g.Ready h)
    {free : (family : Family) → family.Key → Prop} {known : ShapeKey → Option Identity}
    (hfree : ∀ key, known key = none → free .shape key) (start : Numbering)
    (entries : List (ShapeKey × Identity)) :
    g.Finishes free (g.finish known start entries).2 := by
  have hnames : ∀ {answer shapes}, g.shapes.carry known entries = (answer, shapes) →
      g.shapes.Names (free .shape) shapes := by
    intro answer shapes hcarry
    have hnames := (Cache.names_carry hready.isSealed known entries).mono hfree
    rwa [hcarry] at hnames
  have hall : ∀ {family} {c c' : Cache family} {identityOf keys index answer},
      c.nameAll identityOf keys index = (answer, c') → c.Names (free family) c' := by
    intro family c c' identityOf keys index answer hname
    have hnames := Cache.names_nameAll c (free family) identityOf keys index
    rwa [hname] at hnames
  have hcases := g.finish_cases known start entries
  generalize g.finish known start entries = out at hcases ⊢
  cases hcases with
  | conflict hcarry => exact finishes_begun hready (hnames hcarry) (.refl ..)
  | outOfShapes hcarry hshapes =>
    exact finishes_begun hready ((hnames hcarry).trans (hall hshapes)) (.refl ..)
  | outOfDelegates hcarry hshapes hdelegates =>
    exact finishes_begun hready ((hnames hcarry).trans (hall hshapes)) (hall hdelegates)
  | done hcarry hshapes hdelegates =>
    refine ⟨rfl, rfl, rfl, fun family => ?_⟩
    cases family with
    | shape => exact ⟨_, (hnames hcarry).trans (hall hshapes), rfl⟩
    | delegate => exact ⟨_, hall hdelegates, rfl⟩

end Generation

end AnonymousTypes
