import AnonymousTypes.Construction.Fields
import AnonymousTypes.Session.Run

/-!
# Applied shapes

The template of a shape is generic in the types of its fields. A construction
applies it to concrete types, one for each field. Two applied shapes are the same
type if they apply the same template to the same types.

The template is requested first; whether the number of types is right is checked
after that, so a request with the wrong number still counts as a use.
-/

namespace AnonymousTypes

/-- The template of a shape, applied to the types of its fields. -/
structure AppliedShape where
  template : TemplateRef .shape
  /-- the types of the fields, in order -/
  arguments : List TypeId
  /-- there is one type for each field -/
  length_arguments : arguments.length = ShapeKey.size template.key
  deriving DecidableEq

namespace AppliedShape

/-- The names of the fields. -/
def fieldNames (a : AppliedShape) : List String := ShapeKey.fields a.template.key

/-- The fields with their types, in order. -/
def fields (a : AppliedShape) : List (String × TypeId) := a.fieldNames.zip a.arguments

/-- The type of a field. -/
def fieldType? (a : AppliedShape) (name : String) : Option TypeId :=
  (ShapeKey.position? a.template.key name).bind fun position => a.arguments[position]?

/-- Whether the application is the template itself, which has no fields then. -/
def isDefinition (a : AppliedShape) : Bool := a.arguments.isEmpty

end AppliedShape

/-- Apply a template to types. -/
def TemplateRef.apply (template : TemplateRef .shape) (arguments : List TypeId) :
    Except Rejection AppliedShape :=
  if h : arguments.length = ShapeKey.size template.key then .ok ⟨template, arguments, h⟩
  else
    .error (.arityMismatch (ShapeKey.canonical template.key) (ShapeKey.size template.key)
      arguments.length)

namespace Run

/-- Ask for the template of a shape and apply it. -/
def construct (h : Handle) (key : ShapeKey) (arguments : List TypeId)
    (location : Option Location) : Run AppliedShape := do
  let template ← request .shape h key location
  match template.apply arguments with
  | .ok applied => pure applied
  | .error cause => reject cause

/-- Ask for the shape that a construction describes. Fields with replaced names and
types take part like the others. -/
def constructFields (h : Handle) (symbols : SymbolTable) (list : FieldList) :
    Run AppliedShape := do
  let _ ← generation h
  let key ← orFault (list.shapeKey symbols)
  construct h key list.types (some list.location)

/-- Ask for the delegate of a call site. There is none to ask for if a predefined
delegate covers the signature. -/
def requestSignature (h : Handle) (params : List Passing) (returnsVoid : Bool)
    (location : Option Location) : Run (Option (TemplateRef .delegate)) := do
  let key := DelegateKey.ofParameters params returnsVoid
  if key.isPredefined then pure none
  else do
    let template ← request .delegate h key location
    pure (some template)

end Run

end AnonymousTypes
