import AnonymousTypes.Session.Applied
import AnonymousTypes.Session.Finalization

/-!
# Steps

The vocabulary in which a session is used: a `Step` says what is asked, and its
type says what kind of answer it gets. `Step.run` does the work. Lookups do not
change anything and are functions of the session (`Session.lookup`), not steps.

The sessions that can come about are those that some steps lead to from the empty
one, whatever the steps answer (`Session.Reachable`).
-/

namespace AnonymousTypes

/-- Something asked of a session, by the type of its answer. -/
inductive Step : Type → Type 1 where
  /-- start a generation that continues nothing -/
  | root (config : OutputConfig) : Step Handle
  /-- start a generation that continues a finalized one -/
  | derive (h : Handle) (config : OutputConfig) : Step Handle
  /-- ask for the template of a key -/
  | request (family : Family) (h : Handle) (key : family.Key) (location : Option Location) :
      Step (TemplateRef family)
  /-- let several requests race -/
  | requestAll (family : Family) (h : Handle) (requests : List (Request family)) :
      Step (List (Except Failure (TemplateRef family)))
  /-- ask for the delegate of a call site -/
  | requestSignature (h : Handle) (params : List Passing) (returnsVoid : Bool)
      (location : Option Location) : Step (Option (TemplateRef .delegate))
  /-- ask for a shape applied to types -/
  | construct (h : Handle) (key : ShapeKey) (arguments : List TypeId)
      (location : Option Location) : Step AppliedShape
  /-- ask for the shape that a construction describes -/
  | constructFields (h : Handle) (symbols : SymbolTable) (list : FieldList) : Step AppliedShape
  /-- finalize a generation -/
  | finalize (h : Handle) (given : Numbering) (previous : Option IdentityMap) : Step Finalized

/-- Do what is asked. -/
def Step.run {α : Type} : Step α → Run α
  | .root config => Run.root config
  | .derive h config => Run.continueFrom h config
  | .request family h key location => Run.request family h key location
  | .requestAll _ h requests => Run.requestAll h requests
  | .requestSignature h params returnsVoid location =>
    Run.requestSignature h params returnsVoid location
  | .construct h key arguments location => Run.construct h key arguments location
  | .constructFields h symbols list => Run.constructFields h symbols list
  | .finalize h given previous => Run.finalize h given previous

/-- Some steps lead from one session to another. -/
inductive Session.LeadsTo (s : Session) : Session → Prop where
  | refl : LeadsTo s s
  | step {s' : Session} {α : Type} (h : LeadsTo s s') (x : Step α) : LeadsTo s (x.run s').2

/-- Some steps lead to the session from the one in which nothing has been started. -/
def Session.Reachable (s : Session) : Prop := Session.empty.LeadsTo s

end AnonymousTypes
