import AnonymousTypes.IdentityMap
import AnonymousTypes.Session.Run
import AnonymousTypes.Sorted

/-!
# Finalization

When nothing is left to bind, a generation is finalized, once:

1. Every identity in the map of the previous output is carried forward. The shape
   gets a template even if nothing in this generation mentions it.
2. The shapes that are still unnamed are named in the order in which the source
   first mentions them; those without a location come first, and equal locations
   are told apart by the canonical text.
3. The unnamed delegates are numbered in the order of their names.
4. Both caches are sealed, if the output has bodies.
5. The definitions are handed over, shapes before delegates, each by index.

Numbering continues from the largest of three states: the one passed in, the one
the preceding generation left behind, and the one in the map. An index is used
before the counter is moved past it, so running out of indices stops the work
right after the last index was used.

Finalization that fails is not repeated, and what it did stays done.
-/

namespace AnonymousTypes

/-- What finalization answers. -/
structure Finalized where
  /-- the next unused indices -/
  numbering : Numbering
  /-- the identities of all shapes that are visible in the generation -/
  map : IdentityMap
  /-- the number of definitions handed over -/
  emitted : Nat

/-- Shapes are named in the order of their earliest locations, unlocated ones
first, then of their canonical texts. -/
def Template.shapeLe (a b : Template .shape) : Bool :=
  ((compare a.earliest? b.earliest?).then (compare a.key.canonical b.key.canonical)).isLE

/-- Delegates are numbered in the order of their names. -/
def Template.delegateLe (a b : Template .delegate) : Bool :=
  (compare a.key.typeName b.key.typeName).isLE

/-- Definitions are handed over by index. In what order those with one index are handed
over is left open by the program, which takes them in the order in which its table
yields them; that the texts of the keys decide is one choice among others. -/
def Definition.indexLe (a b : Definition) : Bool :=
  ((compare a.identity.index b.identity.index).then
    (compare (a.family.keyText a.key) (b.family.keyText b.key))).isLE

variable {family : Family}

/-- The keys of the unnamed templates, in the given order. -/
def Cache.unnamedKeys (c : Cache family) (le : Template family → Template family → Bool) :
    List family.Key :=
  (sortList le (c.templates.filter fun t => !t.isNamed)).map (·.key)

/-- The definitions of the named templates, by index. -/
def Cache.definitions (c : Cache family) (isNew : family.Key → Bool) : List Definition :=
  sortList Definition.indexLe <| c.templates.filterMap fun t =>
    t.identity.map fun identity => .ofKey family t.key identity (isNew t.key)

/-- The definitions of a generation; `carried` are the shapes that an earlier output
contains already. -/
def Generation.definitions (g : Generation) (carried : List ShapeKey) : List Definition :=
  g.shapes.definitions (fun key => key ∉ carried) ++ g.delegates.definitions fun _ => true

/-- The named shapes of a cache. -/
def Cache.identities (c : Cache .shape) : List (ShapeKey × Identity) :=
  c.templates.filterMap fun t => t.identity.map fun identity => (t.key, identity)

/-- The map of the previous output, extended with the named shapes of the given
generations one after another. -/
def Session.identityMap (s : Session) (previous : IdentityMap) (handles : List Handle) :
    IdentityMap :=
  handles.foldl
    (fun m h => ((s.generation? h).map fun g => m.insertAll g.shapes.identities).getD m) previous

/-- The numbering from which a generation continues. -/
def Session.startNumbering (s : Session) (g : Generation) (given : Numbering)
    (previous : Option IdentityMap) : Numbering :=
  let chained := match s.predecessorNumbering g with
    | some numbering => given.join numbering
    | none => given
  match previous with
  | some map => chained.join map.numbering
  | none => chained

namespace Run

/-- Give shapes the identities that the previous output recorded. Answers the keys
whose templates are of this generation. -/
def carryForward (h : Handle) : List (ShapeKey × Identity) → Run (List ShapeKey)
  | [] => pure []
  | (key, identity) :: rest => do
    match ← view (·.offered .shape h key) with
    | some template => do
      assign template identity
      carryForward h rest
    | none => do
      let template ← request .shape h key none
      assign template identity
      let carried ← carryForward h rest
      pure (key :: carried)

/-- Name templates of a generation one after another, from an index on. Answers the
next unused index. -/
def nameAll (family : Family) (h : Handle) (identityOf : family.Key → UInt32 → Identity) :
    List family.Key → UInt32 → Run UInt32
  | [], index => pure index
  | key :: rest, index => do
    assign (⟨h, key⟩ : TemplateRef family) (identityOf key index)
    let next ← orFault (nextIndex index)
    nameAll family h identityOf rest next

/-- Name the unnamed shapes. -/
def nameShapes (h : Handle) (index : UInt32) : Run UInt32 := do
  let g ← generation h
  nameAll .shape h
    (fun _ index => ⟨shapeTypeName index g.config.slot g.config.fragment, index⟩)
    (g.shapes.unnamedKeys Template.shapeLe) index

/-- Number the unnamed delegates. -/
def nameDelegates (h : Handle) (index : UInt32) : Run UInt32 := do
  let g ← generation h
  nameAll .delegate h (fun key index => ⟨key.typeName, index⟩)
    (g.delegates.unnamedKeys Template.delegateLe) index

/-- Hand the definitions over. Answers how many there are. -/
def handOff (h : Handle) (carried : List ShapeKey) : Run Nat := do
  let g ← generation h
  let definitions := g.definitions carried
  update h fun g => { g with handedOff := g.handedOff ++ [definitions] }
  pure definitions.length

/-- The last part of finalization, which cannot fail: seal the caches, hand the definitions
over, and leave the counters behind. -/
def conclude (h : Handle) (ancestors : List Handle) (previous : Option IdentityMap)
    (carried : List ShapeKey) (numbering : Numbering) : Run Finalized := do
  update h fun g => { g with shapes := g.shapes.close, delegates := g.delegates.close }
  let emitted ← handOff h carried
  let map ← view fun s =>
    (s.identityMap (previous.getD .empty) (h :: ancestors)).withNumbering numbering
  update h fun g => { g with finalized := some numbering }
  pure ⟨numbering, map, emitted⟩

/-- Finalize a generation. -/
def finalize (h : Handle) (given : Numbering) (previous : Option IdentityMap) :
    Run Finalized := do
  let g ← generation h
  if g.isFinalizing then reject (.alreadyFinalized g.id)
  else do
    update h fun g => { g with isFinalizing := true }
    let start ← view (·.startNumbering g given previous)
    let carried ← carryForward h ((previous.map (·.entries)).getD [])
    let nextShape ← nameShapes h start.nextShape
    let nextDelegate ← nameDelegates h start.nextDelegate
    conclude h g.ancestors previous carried ⟨nextShape, nextDelegate⟩

end Run

end AnonymousTypes
