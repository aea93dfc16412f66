import AnonymousTypes.Types

/-!
# Constructions

A program creates an anonymous record by listing initializers, as in
`new { x, p.y, total = a + b }`. An initializer is an expression, with or without
a field name in front. Of the expression only as much is kept as the rules for
names and types look at: an identifier or a member access implies a field name,
and some forms have no type of their own.

What type an expression has is settled elsewhere; an initializer comes with the
answer, its `Binding`.
-/

namespace AnonymousTypes

/-- Where a construction stands. -/
inductive ConstructionContext where
  | functionBody
  | memberInitializer
  | scriptTopLevel
  | constantInitializer
  | attributeArgument
  | parameterDefault
  deriving DecidableEq

namespace ConstructionContext

/-- Whether constructions are allowed there: not where a constant is required. -/
def allowsConstruction : ConstructionContext → Bool
  | functionBody | memberInitializer | scriptTopLevel => true
  | constantInitializer | attributeArgument | parameterDefault => false

/-- The context in words. -/
def describe : ConstructionContext → String
  | functionBody => "a function body"
  | memberInitializer => "a member initializer"
  | scriptTopLevel => "script top-level code"
  | constantInitializer => "a constant initializer"
  | attributeArgument => "an attribute argument"
  | parameterDefault => "a parameter default value"

end ConstructionContext

mutual

/-- What an initializer expression looks like. -/
inductive ExprForm where
  /-- a bare identifier -/
  | ident (name : Symbol)
  /-- the access to a member -/
  | member (receiver : Expr) (name : Symbol)
  /-- a lambda expression -/
  | lambda
  /-- a reference to a group of methods -/
  | methodGroup (name : Symbol)
  /-- the `null` literal -/
  | null
  /-- anything else -/
  | other

/-- An initializer expression and where it stands. -/
inductive Expr where
  | mk (form : ExprForm) (location : Location)

end

namespace Expr

/-- What the expression looks like. -/
def form : Expr → ExprForm
  | mk form _ => form

/-- Where the expression stands. -/
def location : Expr → Location
  | mk _ location => location

/-- The field name that the expression implies. -/
def inferredName? (e : Expr) : Option Symbol :=
  match e.form with
  | .ident name => some name
  | .member _ name => some name
  | .lambda | .methodGroup _ | .null | .other => none

end Expr

/-- Why an expression has no type of its own. -/
inductive Typeless where
  | lambda
  | methodGroup
  | null
  deriving DecidableEq

/-- The expression in words. -/
def Typeless.describe : Typeless → String
  | .lambda => "a lambda expression"
  | .methodGroup => "a method group"
  | .null => "`null`"

/-- What is known about the type of an expression. -/
inductive Binding where
  /-- the expression has this type -/
  | typed (type : TypeId)
  /-- the expression has no type of its own -/
  | typeless (reason : Typeless)
  deriving DecidableEq

/-- One entry of a construction: an expression, the name written in front of it if
there is one, and its type. -/
structure Initializer where
  explicitName : Option Symbol
  expr : Expr
  binding : Binding

namespace Initializer

/-- Where the expression stands. -/
def location (init : Initializer) : Location := init.expr.location

/-- The name of the field, if nothing speaks against it: the written one, else the
one that the expression implies. -/
def candidateName? (init : Initializer) : Option Symbol :=
  init.explicitName.or init.expr.inferredName?

end Initializer

/-- The creation of an anonymous record. -/
structure Construction where
  context : ConstructionContext
  /-- where the construction stands -/
  location : Location
  initializers : List Initializer

end AnonymousTypes
