import AnonymousTypes.Symbol.Table

/-!
# Types

Anonymous types carry the types of their fields as opaque numbers. A `TypePool`
hands these numbers out: each distinct `TypeForm` is stored once, and its
position in the pool is its `TypeId`. The seven primitive forms come first, so
their ids are fixed; compound forms follow in the order in which they were first
asked for. Forms mention other types by id, and an id may be mentioned before
the pool knows it.

The one question asked about a form is whether a value of it may be stored in a
field (`TypeForm.isFieldEligible`): `void` has no values, and pointers and
restricted types must not outlive a stack frame.
-/

namespace AnonymousTypes

/-- A type, by its number. -/
structure TypeId where
  /-- the number -/
  raw : UInt32
  deriving DecidableEq

/-- The structure of a type, as far as storing its values is concerned. -/
inductive TypeForm where
  | int
  | float
  | bool
  | str
  | char
  /-- the type without values -/
  | void
  /-- stands for a type that could not be resolved, which was reported already -/
  | error
  /-- a raw pointer to values of another type -/
  | pointer (target : TypeId)
  /-- a named type whose values must stay on the stack -/
  | restricted (name : Symbol)
  /-- a named type, applied to type arguments -/
  | named (name : Symbol) (args : List TypeId)
  /-- lists of values of another type -/
  | list (element : TypeId)
  /-- functions -/
  | function (params : List TypeId) (result : TypeId)
  deriving DecidableEq

namespace TypeForm

/-- The primitive forms, in the order of their ids. -/
def primitives : List TypeForm := [int, float, bool, str, char, void, error]

/-- Whether a value of the form may be stored in a field. -/
def isFieldEligible : TypeForm → Bool
  | void | pointer _ | restricted _ => false
  | _ => true

end TypeForm

namespace TypeId

/-- The type of integers. -/
def int : TypeId := ⟨0⟩

/-- The type of floating-point numbers. -/
def float : TypeId := ⟨1⟩

/-- The type of truth values. -/
def bool : TypeId := ⟨2⟩

/-- The type of texts. -/
def str : TypeId := ⟨3⟩

/-- The type of characters. -/
def char : TypeId := ⟨4⟩

/-- The type without values. -/
def void : TypeId := ⟨5⟩

/-- The type of whatever could not be given one. -/
def error : TypeId := ⟨6⟩

/-- The position of the type in the pool. -/
def index (id : TypeId) : Nat := id.raw.toNat

/-- Whether the id is that of a primitive form. -/
def isPrimitive (id : TypeId) : Bool := id.index < TypeForm.primitives.length

/-- Whether the id is that of the error type. -/
def isError (id : TypeId) : Bool := id == error

/-- The diagnostic spelling of a type. -/
def describe (id : TypeId) : String :=
  match ["INT", "FLOAT", "BOOL", "STR", "CHAR", "VOID", "ERROR"][id.index]? with
  | some name => s!"TypeId::{name}"
  | none => s!"TypeId({id.raw})"

end TypeId

/-- The forms that have been given an id, in the order of their ids. -/
structure TypePool where
  /-- the forms; the id of each is its position -/
  forms : List TypeForm
  /-- the primitive forms come first -/
  primitives_first : TypeForm.primitives <+: forms
  /-- no form has two ids -/
  nodup : forms.Nodup

namespace TypePool

/-- The pool that knows the primitive forms only. -/
def new : TypePool := ⟨TypeForm.primitives, List.prefix_rfl, by decide⟩

/-- Give a form the next id. -/
def add (pool : TypePool) (form : TypeForm) (hnew : form ∉ pool.forms) : TypePool where
  forms := pool.forms ++ [form]
  primitives_first := pool.primitives_first.trans (List.prefix_append ..)
  nodup := by
    refine List.nodup_append.2 ⟨pool.nodup, by simp, ?_⟩
    intro a ha b hb hab
    rw [List.mem_singleton.1 hb] at hab
    exact hnew (hab ▸ ha)

/-- The id of a form, which is added first if the pool does not know it. -/
def intern (pool : TypePool) (form : TypeForm) : TypeId × TypePool :=
  if h : form ∈ pool.forms then (⟨UInt32.ofNat (pool.forms.idxOf form)⟩, pool)
  else (⟨UInt32.ofNat pool.forms.length⟩, pool.add form h)

/-- The form with the given id, if the pool knows it. -/
def form? (pool : TypePool) (id : TypeId) : Option TypeForm := pool.forms[id.index]?

/-- Whether a value of the type may be stored in a field. An id that the pool
does not know counts as eligible: its validity is the concern of whoever made it. -/
def isFieldEligible (pool : TypePool) (id : TypeId) : Bool :=
  match pool.form? id with
  | some form => form.isFieldEligible
  | none => true

/-- The number of forms, the primitive ones included. -/
def size (pool : TypePool) : Nat := pool.forms.length

/-- Whether the pool knows the primitive forms only. -/
def isEmpty (pool : TypePool) : Bool := pool.size ≤ TypeForm.primitives.length

end TypePool

end AnonymousTypes
