import AnonymousTypes.Proofs.Coherence
import AnonymousTypes.Proofs.Naming

/-!
# Running out of indices

When what an earlier output recorded agrees with what the generation inherits, finalization can
fail in one way only: a counter is moved past its last value. Whether that happens can be told
in advance, by counting the templates that need an index (`Generation.Suffices`). It decides the
outcome of finalization (`Coherent.exists_finalized`, `Coherent.finalize_exhausted`).
-/

namespace AnonymousTypes

variable {family : Family}

namespace Cache

/-- Identities that agree with what is known are all carried forward. -/
theorem exists_carry (c : Cache .shape) {known : ShapeKey → Option Identity}
    {entries : List (ShapeKey × Identity)}
    (hagrees : ∀ {key identity existing}, (key, identity) ∈ entries →
      known key = some existing → existing = identity) :
    ∃ carried c', c.carry known entries = (.ok carried, c') := by
  induction entries generalizing c with
  | nil => exact ⟨[], c, rfl⟩
  | cons e rest ih =>
    obtain ⟨key, identity⟩ := e
    have hrest : ∀ {key identity existing}, (key, identity) ∈ rest →
        known key = some existing → existing = identity :=
      fun hmem => hagrees (List.mem_cons_of_mem _ hmem)
    obtain ⟨-, heq⟩ | ⟨-, heq⟩ | ⟨_, hknown, hne, -⟩ := carry_cases c known key identity rest
    · obtain ⟨carried, c', hcarry⟩ := ih (c.adopt key identity) hrest
      rw [heq, hcarry]
      exact ⟨key :: carried, c', rfl⟩
    · rw [heq]
      exact ih c hrest
    · exact absurd (hagrees (List.mem_cons_self ..) hknown) hne

variable (c : Cache family) (identityOf : family.Key → UInt32 → Identity) {keys : List family.Key}
  {index : UInt32}

/-- There are enough indices for all of the keys, and one more for the counter. -/
theorem exists_nameAll (h : index.toNat + keys.length < UInt32.size) :
    ∃ next c', c.nameAll identityOf keys index = (.ok next, c') := by
  induction keys generalizing c index with
  | nil => exact ⟨index, c, rfl⟩
  | cons key rest ih =>
    rw [List.length_cons] at h
    have hnext : nextIndex index = .ok (index + 1) := if_pos (by omega)
    rw [nameAll, hnext]
    exact ih _ (by rw [toNat_of_nextIndex hnext]; omega)

/-- There are not enough indices: naming stops with the fault, whatever the keys are. The counter
has to move behind the last index that was given, so a run that gives the very last one fails
too. -/
theorem nameAll_exhausted (h : UInt32.size ≤ index.toNat + keys.length) :
    ∃ c', c.nameAll identityOf keys index = (.error (.fault .counterExhausted), c') := by
  induction keys generalizing c index with
  | nil => exact absurd index.toNat_lt_size (Nat.not_lt.2 h)
  | cons key rest ih =>
    rw [List.length_cons] at h
    rw [nameAll]
    by_cases hlast : index.toNat + 1 < UInt32.size
    · have hnext : nextIndex index = .ok (index + 1) := if_pos hlast
      rw [hnext]
      exact ih _ (by rw [toNat_of_nextIndex hnext]; omega)
    · have hnext : nextIndex index = .error .counterExhausted := if_neg hlast
      rw [hnext]
      exact ⟨_, rfl⟩

end Cache

namespace Generation

/-- There are enough indices for the templates that need one: the shapes that no earlier output
has recorded, and all delegates. -/
def Suffices (g : Generation) (start : Numbering) (entries : List (ShapeKey × Identity)) : Prop :=
  start.nextShape.toNat + (g.unrecorded entries).length < UInt32.size ∧
    start.nextDelegate.toNat + g.delegates.templates.length < UInt32.size

section

variable {g : Generation} {h : Handle} {known : ShapeKey → Option Identity} {start : Numbering}
  {entries : List (ShapeKey × Identity)} (hready : g.Ready h)
  (hclear : ∀ key t, g.shapes.find? key = some t → known key = none)
  (hnodup : (entries.map Prod.fst).Nodup)
  (hagrees : ∀ {key identity existing}, (key, identity) ∈ entries →
    known key = some existing → existing = identity)

include hready

/-- As many delegates are numbered as there are. -/
theorem length_unnamed_delegates (le : Template .delegate → Template .delegate → Bool) :
    (g.delegates.unnamedKeys le).length = g.delegates.templates.length :=
  Cache.length_unnamedKeys le (by rw [hready.filter_delegates])

include hclear hnodup hagrees

/-- As many shapes are numbered as nobody has recorded. -/
theorem exists_carry_length (le : Template .shape → Template .shape → Bool) :
    ∃ carried shapes, g.shapes.carry known entries = (.ok carried, shapes) ∧
      (shapes.unnamedKeys le).length = (g.unrecorded entries).length := by
  obtain ⟨carried, shapes, hcarry⟩ := g.shapes.exists_carry hagrees
  refine ⟨carried, shapes, hcarry, Cache.length_unnamedKeys le ?_⟩
  exact unnamed_perm_unrecorded hready hclear (hready.keyed_of_carry hcarry)
    (Cache.carries_of_ok hready.isSealed hnodup hcarry)

theorem exists_finish (hsuffices : g.Suffices start entries) :
    ∃ out g', g.finish known start entries = (.ok out, g') := by
  obtain ⟨carried, shapes, hcarry, hlength⟩ :=
    exists_carry_length hready hclear hnodup hagrees Template.shapeLe
  obtain ⟨nextShape, shapes', hshapes⟩ := shapes.exists_nameAll g.shapeIdentity
    (hlength ▸ hsuffices.1)
  obtain ⟨nextDelegate, delegates, hdelegates⟩ := g.delegates.exists_nameAll delegateIdentity
    (length_unnamed_delegates hready Template.delegateLe ▸ hsuffices.2)
  exact ⟨_, _, finish_of_ok hcarry hshapes hdelegates⟩

theorem finish_exhausted (hsuffices : ¬ g.Suffices start entries) :
    ∃ g', g.finish known start entries = (.error (.fault .counterExhausted), g') := by
  obtain ⟨carried, shapes, hcarry, hlength⟩ :=
    exists_carry_length hready hclear hnodup hagrees Template.shapeLe
  by_cases hshape : start.nextShape.toNat + (g.unrecorded entries).length < UInt32.size
  · have hdelegate := Nat.le_of_not_lt fun hdelegate => hsuffices ⟨hshape, hdelegate⟩
    obtain ⟨nextShape, shapes', hshapes⟩ := shapes.exists_nameAll g.shapeIdentity
      (hlength ▸ hshape)
    obtain ⟨delegates, hdelegates⟩ := g.delegates.nameAll_exhausted delegateIdentity
      (length_unnamed_delegates hready Template.delegateLe ▸ hdelegate)
    exact ⟨_, finish_of_delegates_error hcarry hshapes hdelegates⟩
  · obtain ⟨shapes', hshapes⟩ := shapes.nameAll_exhausted g.shapeIdentity
      (hlength ▸ Nat.le_of_not_lt hshape)
    exact ⟨_, finish_of_shapes_error hcarry hshapes⟩

end

end Generation

namespace Session

variable {s : Session} {h : Handle} {g : Generation} {given : Numbering}
  {previous : Option IdentityMap}

/-- What the map has recorded agrees with what the generation inherits. -/
def Agrees (s : Session) (g : Generation) (previous : Option IdentityMap) : Prop :=
  ∀ {key identity existing}, (key, identity) ∈ (previous.map (·.entries)).getD [] →
    s.inheritedIdentity .shape g.ancestors key = some existing → existing = identity

/-- There are enough indices to finalize the generation. -/
def Suffices (s : Session) (g : Generation) (given : Numbering) (previous : Option IdentityMap) :
    Prop :=
  g.Suffices (s.startNumbering g given previous) ((previous.map (·.entries)).getD [])

namespace Coherent

/-- **Finalization succeeds** if there are enough indices, no recorded identity is in the way and
nobody has begun before. So these three are all that can go wrong. -/
theorem exists_finalized (hs : s.Coherent) (hg : s.generation? h = some g)
    (hopen : g.isFinalizing = false) (hagrees : s.Agrees g previous)
    (hsuffices : s.Suffices g given previous) :
    ∃ result s', (Step.finalize h given previous).run s = (.ok result, s') := by
  have hready := hs.ready hg hopen
  obtain ⟨out, g', hfinish⟩ := Generation.exists_finish hready (hs.clear hg .shape)
    (IdentityMap.nodup_recorded previous) hagrees hsuffices
  rw [Step.run, Run.finalize_eq hg hready, finish, hfinish]
  exact ⟨_, _, rfl⟩

/-- **Finalization runs out of indices** if there are not enough. -/
theorem finalize_exhausted (hs : s.Coherent) (hg : s.generation? h = some g)
    (hopen : g.isFinalizing = false) (hagrees : s.Agrees g previous)
    (hsuffices : ¬ s.Suffices g given previous) :
    ((Step.finalize h given previous).run s).1 = .error (.fault .counterExhausted) := by
  have hready := hs.ready hg hopen
  obtain ⟨g', hfinish⟩ := Generation.finish_exhausted hready (hs.clear hg .shape)
    (IdentityMap.nodup_recorded previous) hagrees hsuffices
  rw [Step.run, Run.finalize_eq hg hready, finish, hfinish]
  rfl

end Coherent

end Session

end AnonymousTypes
