import AnonymousTypes.Delegate.Key
import AnonymousTypes.Identity
import AnonymousTypes.Shape.Key

/-!
# Definitions

What a synthesized type consists of: generic parameters and members, all of which
follow from its key alone. A shape has one generic parameter and one accessor per
field, a constructor, structural equality, hashing and a display form; a delegate
has one generic parameter per parameter, one for its result, a constructor for
target and function pointer, and the invocation.

A `Definition` is such a type under its identity, ready for its member bodies to
be generated.
-/

namespace AnonymousTypes

/-- The keys of a family. -/
abbrev Family.Key : Family → Type
  | .shape => ShapeKey
  | .delegate => DelegateKey

instance : (family : Family) → DecidableEq family.Key
  | .shape => inferInstanceAs (DecidableEq ShapeKey)
  | .delegate => inferInstanceAs (DecidableEq DelegateKey)

/-- A key as messages show it: the canonical text of a shape, the name of a
delegate. -/
def Family.keyText : (family : Family) → family.Key → String
  | .shape, key => ShapeKey.canonical key
  | .delegate, key => DelegateKey.typeName key

/-- A member whose body is to be generated. -/
inductive Member where
  /-- a constructor with so many arguments -/
  | construct (arity : Nat)
  /-- read access to the field at a position, typed by the generic parameter there -/
  | accessor (name : String) (position : Nat)
  /-- equality field by field -/
  | equals
  /-- a hash over all fields -/
  | hash
  /-- a text with the names and values of all fields -/
  | display
  /-- the call; for each parameter, whether it is passed by reference -/
  | invoke (byReference : List Bool) (returnsVoid : Bool)
  deriving DecidableEq

/-- Whether the member gives access to a field. -/
def Member.isAccessor : Member → Bool
  | .accessor .. => true
  | _ => false

namespace ShapeKey

/-- The generic parameters: one per field, numbered from zero. -/
def typeParameters (key : ShapeKey) : List String :=
  (List.range key.size).map fun i => s!"T{i}"

/-- The members of the record. -/
def members (key : ShapeKey) : List Member :=
  .construct key.size :: key.fields.zipIdx.map (fun field => .accessor field.1 field.2) ++
    [.equals, .hash, .display]

end ShapeKey

namespace DelegateKey

/-- The generic parameters: one per parameter, numbered from one, and one for the
result. -/
def typeParameters (key : DelegateKey) : List String :=
  (List.range' 1 key.parameterCount).map (fun i => s!"T{i}") ++
    if key.returnsVoid then [] else ["TResult"]

/-- The members of the function-pointer type. Its constructor takes the target
and the function pointer. -/
def members (key : DelegateKey) : List Member :=
  [.construct 2, .invoke key.flags key.returnsVoid]

end DelegateKey

/-- The generic parameters of a type. -/
def Family.typeParameters : (family : Family) → family.Key → List String
  | .shape, key => ShapeKey.typeParameters key
  | .delegate, key => DelegateKey.typeParameters key

/-- The members of a type. -/
def Family.members : (family : Family) → family.Key → List Member
  | .shape, key => ShapeKey.members key
  | .delegate, key => DelegateKey.members key

/-- A named type whose member bodies are to be generated. -/
structure Definition where
  identity : Identity
  family : Family
  key : family.Key
  typeParameters : List String
  members : List Member
  /-- false if an earlier output already contains the type -/
  isNew : Bool

/-- The type with the given key, under an identity. -/
def Definition.ofKey (family : Family) (key : family.Key) (identity : Identity) (isNew : Bool) :
    Definition where
  identity
  family
  key
  typeParameters := family.typeParameters key
  members := family.members key
  isNew

end AnonymousTypes
