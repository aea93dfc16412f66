import AnonymousTypes.Fault

/-!
# Interning

Texts and types are *interned*: one number is kept for each of them, and whoever asks for a value
gets its number. Several workers may ask at the same time. A worker first looks whether the value
is known, and keeps nobody from adding others meanwhile. If the value is not known the worker
enters it. Then nobody else has access, and the worker looks once more, because another one may
have been faster.

A `Registry` says what looking and entering do. A *call* takes these two steps
(`Registry.advance`), and between them the steps of other calls may happen
(`Registry.Calls.step`). On its own it does both at once (`Registry.intern`).
-/

namespace AnonymousTypes

/-- What workers can do with a store of type `σ` in which values of type `κ` have numbers of
type `ι`. -/
structure Registry (σ κ ι : Type) where
  /-- look for the number of a value -/
  find? : σ → κ → Option ι
  /-- enter a value, unless it is there already -/
  enter : σ → κ → Except Fault ι × σ

namespace Registry

variable {σ κ ι : Type}

/-- How far a call has come. -/
inductive Stage (ι : Type) where
  /-- next: look for the value -/
  | start
  /-- the value was not there; next: enter it -/
  | missed
  /-- answered -/
  | done (answer : Except Fault ι)

/-- The next step of a call. -/
def advance (R : Registry σ κ ι) (key : κ) (stage : Stage ι) (store : σ) : Stage ι × σ :=
  match stage with
  | .start =>
    match R.find? store key with
    | some number => (.done (.ok number), store)
    | none => (.missed, store)
  | .missed =>
    let (answer, store) := R.enter store key
    (.done answer, store)
  | .done answer => (.done answer, store)

/-- A call on its own. -/
def intern (R : Registry σ κ ι) (store : σ) (key : κ) : Except Fault ι × σ :=
  match R.find? store key with
  | some number => (.ok number, store)
  | none => R.enter store key

/-- Calls on their own, one after the other. -/
def internAll (R : Registry σ κ ι) (store : σ) (keys : List κ) : σ :=
  keys.foldl (fun store key => (R.intern store key).2) store

/-- Calls at their stages, over one store. -/
structure Calls (σ κ ι : Type) where
  store : σ
  callers : List (κ × Stage ι)

namespace Calls

/-- Calls of which none has taken a step. -/
def ofKeys (store : σ) (keys : List κ) : Calls σ κ ι :=
  ⟨store, keys.map fun key => (key, .start)⟩

/-- Advance the call at a position; nothing happens beyond the last. -/
def step (R : Registry σ κ ι) (calls : Calls σ κ ι) (position : Nat) : Calls σ κ ι :=
  match calls.callers[position]? with
  | none => calls
  | some (key, stage) =>
    let (stage, store) := R.advance key stage calls.store
    ⟨store, calls.callers.set position (key, stage)⟩

/-- Advance calls in the given order. -/
def run (R : Registry σ κ ι) (calls : Calls σ κ ι) (schedule : List Nat) : Calls σ κ ι :=
  schedule.foldl (step R) calls

/-- The values of the calls that have been answered. -/
def answered (calls : Calls σ κ ι) : List κ :=
  calls.callers.filterMap fun caller =>
    match caller.2 with
    | .done _ => some caller.1
    | _ => none

end Calls

end Registry

end AnonymousTypes
