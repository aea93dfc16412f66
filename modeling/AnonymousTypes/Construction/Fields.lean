import AnonymousTypes.Construction
import AnonymousTypes.Diagnostic
import AnonymousTypes.Shape.Key

/-!
# The fields of a construction

Every initializer becomes one field, in order, whatever is wrong with it, so that
the code around a faulty construction can still be checked. Mistakes show up in
two ways: as diagnostics, and in the field itself.

* A field without a usable name is called by its position instead, `$0`, `$1` and
  so on, which no program can spell. The name is unusable if there is none or if
  an earlier initializer has taken it; it is taken even if that initializer has
  some other defect.
* A field without a usable type has the error type.

For one initializer the type is reported before the name. An initializer that has
the error type already is not reported for it again.
-/

namespace AnonymousTypes

/-- What a field is called. -/
inductive FieldName where
  /-- by an identifier of the program -/
  | named (name : Symbol)
  /-- by its position -/
  | placeholder (position : Nat)
  deriving DecidableEq

namespace FieldName

/-- Whether the field has no name of its own. -/
def isPlaceholder : FieldName → Bool
  | named _ => false
  | placeholder _ => true

/-- The name as a text. -/
def text (symbols : SymbolTable) : FieldName → Except Fault String
  | named name => symbols.text name
  | placeholder position => .ok s!"${position}"

end FieldName

/-- A field of a construction. -/
structure Field where
  name : FieldName
  type : TypeId
  /-- where its initializer stands -/
  location : Location
  /-- whether name or type was replaced -/
  isErroneous : Bool
  deriving DecidableEq

/-- The fields of a construction, and what is wrong with it. -/
structure FieldList where
  fields : List Field
  hasError : Bool
  diagnostics : List Diagnostic
  /-- where the construction stands -/
  location : Location
  deriving DecidableEq

namespace FieldList

/-- The names of the fields. -/
def names (symbols : SymbolTable) (list : FieldList) : Except Fault (List String) :=
  list.fields.mapM fun field => field.name.text symbols

/-- The key of the record. -/
def shapeKey (symbols : SymbolTable) (list : FieldList) : Except Fault ShapeKey := do
  ShapeKey.ofFields (← list.names symbols)

/-- The types of the fields. -/
def types (list : FieldList) : List TypeId := list.fields.map (·.type)

end FieldList

/-! ## Diagnostics -/

namespace Diagnostic

/-- The construction is not allowed where it stands. -/
def illegalConstruction (context : ConstructionContext) (location : Location) : Diagnostic :=
  ((ofError .illegalContext).withMessage
    s!"anonymous shapes cannot be created in {context.describe}").withLabel
    location "shape constructed here"

/-- No field may have the type of the initializer. -/
def ineligibleField (type : String) (location : Location) : Diagnostic :=
  ((ofError .ineligibleType).withMessage
    s!"a shape field cannot hold a value of type {type}").withLabel
    location "invalid field type"

/-- The initializer has no type. -/
def typelessField (reason : Typeless) (location : Location) : Diagnostic :=
  ((ofError .untypedInitializer).withMessage
    s!"cannot assign {reason.describe} to a shape field").withLabel
    location "expression has no type"

/-- The initializer has no name. -/
def namelessField (location : Location) : Diagnostic :=
  (((ofError .missingName).withMessage
    "cannot infer a field name from this expression").withLabel
    location "name this field explicitly").withNote
    "only identifiers and member accesses project a field name"

/-- The name of the initializer is taken by an earlier one. -/
def duplicateField (name : String) (location first : Location) : Diagnostic :=
  (((ofError .duplicateField).withMessage
    s!"field `{name}` is declared more than once").withLabel
    location "duplicate field").withSecondaryLabel
    first "first declared here"

end Diagnostic

/-- A type that no field may have, in words. -/
def TypePool.describeIneligible (pool : TypePool) (id : TypeId) : String :=
  match pool.form? id with
  | some .void => "`void`"
  | some (.pointer _) => "pointer"
  | some (.restricted _) => "restricted stack-only"
  | _ => s!"#{id.raw}"

/-! ## From initializers to fields -/

namespace Initializer

/-- The type of the field, whether it had to be replaced, and what to report. -/
def fieldType (pool : TypePool) (init : Initializer) : TypeId × Bool × List Diagnostic :=
  match init.binding with
  | .typed type =>
    if type.isError then (.error, true, [])
    else if pool.isFieldEligible type then (type, false, [])
    else
      (.error, true, [.ineligibleField (pool.describeIneligible type) init.location])
  | .typeless reason => (.error, true, [.typelessField reason init.location])

/-- The names taken so far, each with the location of the initializer that took it. -/
abbrev Taken : Type := List (Symbol × Location)

/-- The name of the field at a position, what to report, and the names taken after it. -/
def fieldName (symbols : SymbolTable) (taken : Taken) (position : Nat)
    (init : Initializer) : Except Fault (FieldName × List Diagnostic × Taken) :=
  match init.candidateName? with
  | none => .ok (.placeholder position, [.namelessField init.location], taken)
  | some name =>
    match taken.lookup name with
    | none => .ok (.named name, [], taken ++ [(name, init.location)])
    | some first => do
      let text ← symbols.text name
      .ok (.placeholder position, [.duplicateField text init.location first], taken)

/-- The field of an initializer, what to report, and the names taken after it. -/
def field (symbols : SymbolTable) (pool : TypePool) (taken : Taken) (position : Nat)
    (init : Initializer) : Except Fault (Field × List Diagnostic × Taken) := do
  let (type, replaced, typeReports) := init.fieldType pool
  let (name, nameReports, taken) ← init.fieldName symbols taken position
  .ok (⟨name, type, init.location, replaced || name.isPlaceholder⟩,
    typeReports ++ nameReports, taken)

/-- The fields of initializers from a position on, and what to report. -/
def fieldsFrom (symbols : SymbolTable) (pool : TypePool) :
    Taken → Nat → List Initializer → Except Fault (List Field × List Diagnostic)
  | _, _, [] => .ok ([], [])
  | taken, position, init :: rest => do
    let (field, reports, taken) ← init.field symbols pool taken position
    let (fields, more) ← fieldsFrom symbols pool taken (position + 1) rest
    .ok (field :: fields, reports ++ more)

end Initializer

/-- The fields of a construction. -/
def Construction.fields (symbols : SymbolTable) (pool : TypePool) (c : Construction) :
    Except Fault FieldList := do
  let isIllegal := !c.context.allowsConstruction
  let (fields, reports) ← Initializer.fieldsFrom symbols pool [] 0 c.initializers
  .ok {
    fields
    hasError := isIllegal || fields.any (·.isErroneous)
    diagnostics :=
      (if isIllegal then [.illegalConstruction c.context c.location] else []) ++ reports
    location := c.location }

end AnonymousTypes
