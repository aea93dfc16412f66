import AnonymousTypes.Interning
import AnonymousTypes.Table
import AnonymousTypes.Types

/-!
# Types for several workers

A type pool that several workers may use at the same time. It binds forms to ids and ids to forms,
and it counts the ids that it has given away. Whoever enters a form has exclusive access to this
form until it has an id; then the next id is taken and bound to the form.

The counter is a 32-bit word and wraps around, and an id that is bound again gets the new form.
So ids can be trusted only as long as there are enough of them.
-/

namespace AnonymousTypes

/-- The forms that have been given an id. -/
structure SharedPool where
  /-- the id of each form -/
  ids : Table TypeForm TypeId
  /-- the form of each id -/
  forms : Table UInt32 TypeForm
  /-- the next id -/
  next : UInt32

namespace SharedPool

/-- A pool that knows the primitive forms only. -/
def new : SharedPool :=
  let bindings := TypeForm.primitives.zipIdx.map fun (form, i) => (form, UInt32.ofNat i)
  { ids := bindings.foldl (fun t b => t.insert b.1 ⟨b.2⟩) .empty
    forms := bindings.foldl (fun t b => t.insert b.2 b.1) .empty
    next := UInt32.ofNat TypeForm.primitives.length }

/-- The id of a form, if the pool knows it. -/
def find? (pool : SharedPool) (form : TypeForm) : Option TypeId := pool.ids.find? form

/-- Give a form the next id. -/
def add (pool : SharedPool) (form : TypeForm) : SharedPool where
  ids := pool.ids.insert form ⟨pool.next⟩
  forms := pool.forms.insert pool.next form
  next := pool.next + 1

/-- Enter a form, unless it is there. -/
def enter (pool : SharedPool) (form : TypeForm) : Except Fault TypeId × SharedPool :=
  match pool.ids.find? form with
  | some id => (.ok id, pool)
  | none => (.ok ⟨pool.next⟩, pool.add form)

/-- What workers do with the pool. -/
def registry : Registry SharedPool TypeForm TypeId := ⟨find?, enter⟩

/-- The form with the given id, if the pool knows it. -/
def form? (pool : SharedPool) (id : TypeId) : Option TypeForm := pool.forms.find? id.raw

/-- The number of ids that have a form. -/
def size (pool : SharedPool) : Nat := pool.forms.size

end SharedPool

end AnonymousTypes
