import AnonymousTypes.Cache
import AnonymousTypes.Output

/-!
# Sessions

A compiler that stays alive between compilations works in *generations*: each is
one compilation, and may continue an earlier one that is finalized. A `Session`
holds all generations that were ever started, in a list that only grows, so a
position in the list (a `Handle`) names a generation for good.

A generation sees the templates of the generations it continues, nearest first.
It sees a template only if finalization has named it: an unnamed template of a
finalized generation came too late to be part of its output, and it hides
whatever lies behind it (`Session.inherited`).
-/

namespace AnonymousTypes

/-- One compilation. -/
structure Generation where
  config : OutputConfig
  /-- the generations it continues, nearest first -/
  ancestors : List Handle
  shapes : Cache .shape
  delegates : Cache .delegate
  /-- whether finalization was ever begun -/
  isFinalizing : Bool
  /-- the counters that finalization left behind, once it succeeded -/
  finalized : Option Numbering
  /-- the lists of definitions handed over for their bodies, in order -/
  handedOff : List (List Definition)

namespace Generation

/-- The position in the chain. -/
def id (g : Generation) : GenerationId := ⟨g.ancestors.length⟩

/-- The cache of a family. -/
def cache (g : Generation) : (family : Family) → Cache family
  | .shape => g.shapes
  | .delegate => g.delegates

/-- Replace the cache of a family. -/
def withCache (g : Generation) : (family : Family) → Cache family → Generation
  | .shape, c => { g with shapes := c }
  | .delegate, c => { g with delegates := c }

/-- Whether both caches refuse new keys. -/
def isSealed (g : Generation) : Bool := g.shapes.isSealed && g.delegates.isSealed

/-- A generation that has not done anything yet. -/
def new (home : Handle) (config : OutputConfig) (ancestors : List Handle) : Generation where
  config
  ancestors
  shapes := .new home ⟨ancestors.length⟩ config.seals
  delegates := .new home ⟨ancestors.length⟩ config.seals
  isFinalizing := false
  finalized := none
  handedOff := []

@[simp] theorem cache_withCache_self (g : Generation) (family : Family) (c : Cache family) :
    (g.withCache family c).cache family = c := by
  cases family <;> rfl

@[simp] theorem withCache_cache (g : Generation) (family : Family) :
    g.withCache family (g.cache family) = g := by
  cases family <;> rfl

@[simp] theorem withCache_withCache (g : Generation) (family : Family) (c c' : Cache family) :
    (g.withCache family c).withCache family c' = g.withCache family c' := by
  cases family <;> rfl

theorem cache_withCache_ne (g : Generation) {family other : Family} (c : Cache family)
    (h : other ≠ family) : (g.withCache family c).cache other = g.cache other := by
  cases family <;> cases other
  · exact absurd rfl h
  · rfl
  · rfl
  · exact absurd rfl h

end Generation

/-- All generations, in the order in which they were started. -/
structure Session where
  generations : List Generation

namespace Session

/-- Nothing has been started. -/
def empty : Session := ⟨[]⟩

/-- The generation at a position. -/
def generation? (s : Session) (h : Handle) : Option Generation := s.generations[h]?

/-- Change the generation at a position. -/
def update (s : Session) (h : Handle) (change : Generation → Generation) : Session :=
  ⟨s.generations.modify h change⟩

/-- Add a generation. -/
def push (s : Session) (g : Generation) : Session := ⟨s.generations ++ [g]⟩

@[simp] theorem generation?_update_self (s : Session) (h : Handle)
    (change : Generation → Generation) :
    (s.update h change).generation? h = (s.generation? h).map change := by
  simp [update, generation?]

theorem generation?_update_ne (s : Session) {h other : Handle}
    (change : Generation → Generation) (hne : other ≠ h) :
    (s.update h change).generation? other = s.generation? other := by
  simp [update, generation?, Ne.symm hne]

/-- Starting a generation leaves the others where they are. -/
theorem generation?_push_of_lt (s : Session) (g : Generation) {h : Handle}
    (hlt : h < s.generations.length) : (s.push g).generation? h = s.generation? h :=
  List.getElem?_append_left hlt

/-- The new generation is the last one. -/
@[simp] theorem generation?_push_last (s : Session) (g : Generation) :
    (s.push g).generation? s.generations.length = some g :=
  List.getElem?_concat_length ..

/-- The template that a generation itself holds for a key. -/
def own? (s : Session) (family : Family) (h : Handle) (key : family.Key) :
    Option (Template family) :=
  (s.generation? h).bind fun g => (g.cache family).find? key

/-- The template behind a reference. -/
def template? {family : Family} (s : Session) (r : TemplateRef family) :
    Option (Template family) :=
  s.own? family r.home r.key

/-- What the given generations offer for a key: the first of them that holds the
key offers its template, but only if the template is named. -/
def inherited (s : Session) (family : Family) (key : family.Key) :
    List Handle → Option (TemplateRef family)
  | [] => none
  | h :: rest =>
    match s.own? family h key with
    | some t => if t.isNamed then some ⟨h, key⟩ else none
    | none => inherited s family key rest

/-- What a generation inherits for a key. -/
def offered (s : Session) (family : Family) (h : Handle) (key : family.Key) :
    Option (TemplateRef family) :=
  (s.generation? h).bind fun g => s.inherited family key g.ancestors

/-- The template that a generation sees for a key. -/
def lookup (s : Session) (family : Family) (h : Handle) (key : family.Key) :
    Option (TemplateRef family) :=
  match s.own? family h key with
  | some _ => some ⟨h, key⟩
  | none => s.offered family h key

/-- The counters that the generation before this one left behind. -/
def predecessorNumbering (s : Session) (g : Generation) : Option Numbering :=
  (g.ancestors.head?.bind s.generation?).bind (·.finalized)

end Session

end AnonymousTypes
