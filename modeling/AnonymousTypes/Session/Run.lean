import AnonymousTypes.Cache.Race
import AnonymousTypes.Session

/-!
# Working in a session

A `Run` is a piece of work in a session. It may fail, but failing undoes nothing:
what it did up to there stays done, so a run always ends in a session, with an
answer or with a failure.

The basic runs start generations, ask a generation for a template, and give a
template its identity. Finalization (`AnonymousTypes.Session.Finalization`) is
built from them.
-/

namespace AnonymousTypes

/-- A piece of work in a session. -/
def Run (α : Type) : Type := Session → Except Failure α × Session

namespace Run

variable {α β : Type}

/-- Answer without doing anything. -/
protected def pure (a : α) : Run α := fun s => (.ok a, s)

/-- Go on with the answer; a failure ends the work. -/
protected def bind (m : Run α) (f : α → Run β) : Run β := fun s =>
  match m s with
  | (.ok a, s) => f a s
  | (.error e, s) => (.error e, s)

instance : Monad Run where
  pure := Run.pure
  bind := Run.bind

@[simp] theorem pure_apply (a : α) (s : Session) : (pure a : Run α) s = (.ok a, s) := rfl

theorem bind_apply (m : Run α) (f : α → Run β) (s : Session) :
    (m >>= f) s = match m s with
      | (.ok a, s) => f a s
      | (.error e, s) => (.error e, s) := rfl

theorem bind_of_ok {m : Run α} {f : α → Run β} {s s' : Session} {a : α}
    (h : m s = (.ok a, s')) : (m >>= f) s = f a s' := by
  change Run.bind m f s = _
  rw [Run.bind, h]

theorem bind_of_error {m : Run α} {f : α → Run β} {s s' : Session} {e : Failure}
    (h : m s = (.error e, s')) : (m >>= f) s = (.error e, s') := by
  change Run.bind m f s = _
  rw [Run.bind, h]

/-- Stop with a failure. -/
def fail (e : Failure) : Run α := fun s => (.error e, s)

/-- Stop with a rejection. -/
def reject (cause : Rejection) : Run α := fail (.rejected cause)

/-- Look at the session. -/
def view (f : Session → α) : Run α := fun s => (.ok (f s), s)

/-- Change the session. -/
def change (f : Session → Session) : Run Unit := fun s => (.ok (), f s)

/-- Go on with a value, or stop with a fault. -/
def orFault : Except Fault α → Run α
  | .ok a => Run.pure a
  | .error cause => fail (.fault cause)

/-- The generation at a position. -/
def generation (h : Handle) : Run Generation := fun s =>
  match s.generation? h with
  | some g => (.ok g, s)
  | none => (.error (.fault (.unknownGeneration h)), s)

/-- Change the generation at a position. -/
def update (h : Handle) (f : Generation → Generation) : Run Unit := change (·.update h f)

/-! ## Starting generations -/

/-- Start a generation that continues nothing. -/
def root (config : OutputConfig) : Run Handle := fun s =>
  (.ok s.generations.length, s.push (.new s.generations.length config []))

/-- Start a generation that continues a finalized one. -/
def continueFrom (h : Handle) (config : OutputConfig) : Run Handle := do
  let g ← generation h
  match g.finalized with
  | none => reject (.unfinalizedPredecessor g.id)
  | some _ => fun s =>
    (.ok s.generations.length, s.push (.new s.generations.length config (h :: g.ancestors)))

/-! ## Requests -/

/-- Ask a generation for the template of a key. -/
def request (family : Family) (h : Handle) (key : family.Key) (location : Option Location) :
    Run (TemplateRef family) := do
  let g ← generation h
  fun s =>
    let (answer, c) := (g.cache family).request (s.inherited family key g.ancestors) key location
    (answer, s.update h (·.withCache family c))

variable {family : Family}

/-- Let several requests race for one generation, taking steps in turns. -/
def requestAll (h : Handle) (requests : List (Request family)) :
    Run (List (Except Failure (TemplateRef family))) := do
  let g ← generation h
  fun s =>
    let race := (Race.ofRequests (g.cache family) requests).run
      (fun key => s.inherited family key g.ancestors) (Race.inTurns requests.length)
    (.ok (race.outcomes.filterMap id), s.update h (·.withCache family race.cache))

/-! ## Identities -/

/-- Give a template its identity. It keeps the one that it has: giving it the same
again does nothing, and giving it another one is refused. -/
def assign (r : TemplateRef family) (identity : Identity) : Run Unit := do
  match ← view (·.template? r) with
  | none => fail (.fault (.unknownGeneration r.home))
  | some t =>
    match t.identity with
    | none =>
      update r.home fun g => g.withCache family
        ((g.cache family).modify r.key fun t => { t with identity := some identity })
    | some existing =>
      if existing = identity then Run.pure ()
      else reject (.identityConflict family (family.keyText r.key) existing identity)

end Run

end AnonymousTypes
