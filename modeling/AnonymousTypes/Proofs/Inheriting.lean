import AnonymousTypes.Session.Run

/-!
# What a generation sees of others

The work of a generation replaces the generation itself and nothing else
(`Session.put`), while what it reads of others is what they offer for a key
(`Session.inherited`) and the identity behind that. The lemmas say that the one does
not disturb the other: a generation does not inherit from itself, so replacing it
changes nothing about what it inherits (`inherited_put`).

An offered template is always a named one of one of the generations that were asked
(`exists_of_inherited`).
-/

namespace AnonymousTypes

namespace Generation

/-- What requests do not change about a generation. -/
structure Frame where
  config : OutputConfig
  ancestors : List Handle
  isFinalizing : Bool
  finalized : Option Numbering
  handedOff : List (List Definition)

/-- The part of a generation that requests do not change. -/
def frame (g : Generation) : Frame :=
  ⟨g.config, g.ancestors, g.isFinalizing, g.finalized, g.handedOff⟩

variable {g g' : Generation}

theorem config_of_frame (h : g'.frame = g.frame) : g'.config = g.config :=
  congrArg Frame.config h

/-- A generation continues the same others after any request. -/
theorem ancestors_of_frame (h : g'.frame = g.frame) : g'.ancestors = g.ancestors :=
  congrArg Frame.ancestors h

theorem isFinalizing_of_frame (h : g'.frame = g.frame) : g'.isFinalizing = g.isFinalizing :=
  congrArg Frame.isFinalizing h

/-- Only finalization sets the final numbering. -/
theorem finalized_of_frame (h : g'.frame = g.frame) : g'.finalized = g.finalized :=
  congrArg Frame.finalized h

theorem handedOff_of_frame (h : g'.frame = g.frame) : g'.handedOff = g.handedOff :=
  congrArg Frame.handedOff h

/-- Replacing a cache stays within what requests may change. -/
@[simp] theorem frame_withCache (g : Generation) (family : Family) (c : Cache family) :
    (g.withCache family c).frame = g.frame := by
  cases family <;> rfl

end Generation

namespace Session

variable {family : Family}

/-! ## Replacing one generation -/

/-- Replace the generation at a position. -/
def put (s : Session) (h : Handle) (g : Generation) : Session := s.update h fun _ => g

/-- Changing a generation that has just been replaced is replacing it by the changed one. With
`put_put` this brings a sequence of updates to the last of them. -/
@[simp] theorem update_put (s : Session) (h : Handle) (g : Generation)
    (change : Generation → Generation) : (s.put h g).update h change = s.put h (change g) := by
  simp only [put, update, List.modify_modify_eq]
  rfl

@[simp] theorem put_put (s : Session) (h : Handle) (g g' : Generation) :
    (s.put h g).put h g' = s.put h g' :=
  update_put ..

/-- After replacing, the handle leads to the new generation if it led to any before. -/
theorem generation?_put (s : Session) (h : Handle) (g : Generation) :
    (s.put h g).generation? h = (s.generation? h).map fun _ => g :=
  generation?_update_self ..

theorem generation?_put_self {s : Session} {h : Handle} (hs : (s.generation? h).isSome)
    (g : Generation) : (s.put h g).generation? h = some g := by
  obtain ⟨g₀, hg₀⟩ := Option.isSome_iff_exists.1 hs
  rw [generation?_put, hg₀]
  rfl

/-- All other handles lead where they did. -/
theorem generation?_put_ne (s : Session) {h other : Handle} (g : Generation)
    (hne : other ≠ h) : (s.put h g).generation? other = s.generation? other :=
  generation?_update_ne s _ hne

/-- A session is what it holds at every position. -/
theorem ext_generation? {s s' : Session} (h : ∀ i, s.generation? i = s'.generation? i) :
    s = s' :=
  congrArg Session.mk (List.ext_getElem? h)

/-- Replacing a generation by itself changes nothing. -/
theorem put_self {s : Session} {h : Handle} {g : Generation} (hg : s.generation? h = some g) :
    s.put h g = s := by
  refine ext_generation? fun i => ?_
  by_cases hi : i = h
  · subst hi
    rw [generation?_put_self (Option.isSome_of_eq_some hg), hg]
  · exact generation?_put_ne s g hi

/-- An update of a generation that is known is a replacement, which the lemmas below are about. -/
theorem update_eq_put {s : Session} {h : Handle} {g : Generation}
    (hg : s.generation? h = some g) (change : Generation → Generation) :
    s.update h change = s.put h (change g) := by
  have hput := update_put s h g change
  rwa [put_self hg] at hput

@[simp] theorem length_put (s : Session) (h : Handle) (g : Generation) :
    (s.put h g).generations.length = s.generations.length :=
  List.length_modify ..

/-- A generation that exists has a position below the number of generations. -/
theorem lt_length {s : Session} {h : Handle} {g : Generation} (hg : s.generation? h = some g) :
    h < s.generations.length :=
  (List.getElem?_eq_some_iff.1 hg).1

/-- Adding a generation and replacing another one can be done in either order. -/
theorem push_put {s : Session} {h : Handle} (hlt : h < s.generations.length)
    (g new : Generation) : (s.put h g).push new = (s.push new).put h g := by
  refine ext_generation? fun i => ?_
  by_cases hi : i = h
  · subst hi
    rw [generation?_push_of_lt _ _ (by rwa [length_put]), generation?_put, generation?_put,
      generation?_push_of_lt _ _ hlt]
  · have hput : (s.put h g).generations[i]? = s.generations[i]? := generation?_put_ne s g hi
    rw [generation?_put_ne _ _ hi]
    simp only [generation?, push, List.getElem?_append, length_put, hput]

/-- Different generations can be replaced in either order. -/
theorem put_comm (s : Session) {h h' : Handle} (hne : h ≠ h') (g g' : Generation) :
    (s.put h g).put h' g' = (s.put h' g').put h g := by
  refine ext_generation? fun i => ?_
  by_cases hi : i = h'
  · subst hi
    rw [generation?_put, generation?_put_ne _ _ (Ne.symm hne), generation?_put_ne _ _ (Ne.symm hne),
      generation?_put]
  · rw [generation?_put_ne _ _ hi]
    by_cases hi' : i = h
    · subst hi'
      rw [generation?_put, generation?_put, generation?_put_ne _ _ hne]
    · rw [generation?_put_ne _ _ hi', generation?_put_ne _ _ hi', generation?_put_ne _ _ hi]

/-! ## Templates -/

/-- The own template of a generation is what its cache holds. -/
theorem own?_of_generation {s : Session} {h : Handle} {g : Generation}
    (hg : s.generation? h = some g) (family : Family) (key : family.Key) :
    s.own? family h key = (g.cache family).find? key := by
  rw [own?, hg]
  rfl

theorem own?_put_self {s : Session} {h : Handle} (hs : (s.generation? h).isSome)
    (g : Generation) (family : Family) (key : family.Key) :
    (s.put h g).own? family h key = (g.cache family).find? key :=
  own?_of_generation (generation?_put_self hs g) family key

/-- What the others own is not touched by a replacement. -/
theorem own?_put_ne (s : Session) {h other : Handle} (g : Generation) (hne : other ≠ h)
    (family : Family) (key : family.Key) :
    (s.put h g).own? family other key = s.own? family other key := by
  rw [own?, generation?_put_ne s g hne, ← own?]

/-- The identity of the template behind a reference. -/
def identity? (s : Session) (r : TemplateRef family) : Option Identity :=
  (s.template? r).bind (·.identity)

/-- An identity is looked up where the template is owned, so it is the same for everybody who
refers to the template. -/
theorem identity?_of_generation {s : Session} {h : Handle} {g : Generation}
    (hg : s.generation? h = some g) (family : Family) (key : family.Key) :
    s.identity? (⟨h, key⟩ : TemplateRef family) =
      ((g.cache family).find? key).bind (·.identity) := by
  rw [identity?, template?, own?_of_generation hg]

/-! ## What is inherited -/

/-- What is inherited depends on the templates of those that are asked, for this one key, and on
nothing else in the session. -/
theorem inherited_congr {s s' : Session} {family : Family} {key : family.Key}
    {handles : List Handle}
    (h : ∀ a ∈ handles, s'.own? family a key = s.own? family a key) :
    s'.inherited family key handles = s.inherited family key handles := by
  induction handles with
  | nil => rfl
  | cons a rest ih =>
    rw [inherited, inherited, h a (List.mem_cons_self ..),
      ih fun b hb => h b (List.mem_cons_of_mem _ hb)]

/-- Who asks is not among those that are asked: replacing a generation changes nothing about what
it inherits itself. -/
theorem inherited_put (s : Session) {h : Handle} (g : Generation) {family : Family}
    {key : family.Key} {handles : List Handle} (hnot : h ∉ handles) :
    (s.put h g).inherited family key handles = s.inherited family key handles :=
  inherited_congr fun a ha => own?_put_ne s g (fun he : a = h => hnot (he ▸ ha)) family key

/-- An offered template is a named template of a generation that was asked. -/
theorem exists_of_inherited {s : Session} {family : Family} {key : family.Key}
    {handles : List Handle} {r : TemplateRef family}
    (h : s.inherited family key handles = some r) :
    r.home ∈ handles ∧ r.key = key ∧ ∃ t, s.template? r = some t ∧ t.isNamed := by
  induction handles with
  | nil => cases h
  | cons a rest ih =>
    rw [inherited] at h
    rcases ho : s.own? family a key with _ | t
    · rw [ho] at h
      obtain ⟨hmem, hrest⟩ := ih h
      exact ⟨List.mem_cons_of_mem _ hmem, hrest⟩
    · simp only [ho] at h
      split at h
      · rename_i hnamed
        obtain rfl := Option.some.inj h
        exact ⟨List.mem_cons_self .., rfl, t, ho, hnamed⟩
      · cases h

/-- The identity that is inherited for a key. -/
def inheritedIdentity (s : Session) (family : Family) (handles : List Handle)
    (key : family.Key) : Option Identity :=
  (s.inherited family key handles).bind s.identity?

theorem inheritedIdentity_of_some {s : Session} {family : Family} {handles : List Handle}
    {key : family.Key} {r : TemplateRef family}
    (h : s.inherited family key handles = some r) :
    s.inheritedIdentity family handles key = s.identity? r := by
  rw [inheritedIdentity, h]
  rfl

/-- What is inherited is named. -/
theorem isSome_identity?_of_inherited {s : Session} {family : Family} {handles : List Handle}
    {key : family.Key} {r : TemplateRef family}
    (h : s.inherited family key handles = some r) : (s.identity? r).isSome := by
  obtain ⟨-, -, t, ht, hnamed⟩ := exists_of_inherited h
  rw [identity?, ht]
  exact hnamed

/-- A key without an inherited identity is one that nobody offers, since an offered template is
named. -/
theorem inheritedIdentity_eq_none_iff {s : Session} {family : Family} {handles : List Handle}
    {key : family.Key} :
    s.inheritedIdentity family handles key = none ↔ s.inherited family key handles = none := by
  rcases h : s.inherited family key handles with _ | r
  · rw [inheritedIdentity, h]
    exact ⟨fun _ => rfl, fun _ => rfl⟩
  · have hsome := isSome_identity?_of_inherited h
    rw [inheritedIdentity_of_some h]
    constructor
    · intro hnone
      rw [hnone] at hsome
      cases hsome
    · exact fun hnone => by cases hnone

/-! ## Counters -/

/-- The counters of the predecessor are not those of the generation itself. -/
theorem predecessorNumbering_put (s : Session) {h : Handle} (new : Generation)
    {g : Generation} (hnot : h ∉ g.ancestors) :
    (s.put h new).predecessorNumbering g = s.predecessorNumbering g := by
  rcases hancestors : g.ancestors with _ | ⟨a, rest⟩
  · simp only [predecessorNumbering, hancestors, List.head?_nil, Option.bind_none]
  · have hne : a ≠ h := fun he => hnot (by rw [hancestors, he]; exact List.mem_cons_self ..)
    simp only [predecessorNumbering, hancestors, List.head?_cons, Option.bind_some,
      generation?_put_ne s new hne]

end Session

end AnonymousTypes
