/-!
What a request can be told about itself: each complaint points at the token that drew it.
-/

namespace TypeConcepts

inductive Complaint where
  /-- A lifetime, a constant or a binding stands among a concept's arguments. -/
  | typeArgumentsOnly (concept : String) (pos : Nat)
  | notFunctionLike (concept : String) (pos : Nat)
  | takesNoArguments (concept : String) (pos : Nat)
  | takesOneArgument (concept : String) (pos : Nat)
  /-- A shape is a type, but no plain path. -/
  | shapeIsNoPath (pos : Nat)
  deriving DecidableEq, Repr

namespace Complaint

def pos : Complaint → Nat
  | .typeArgumentsOnly _ pos | .notFunctionLike _ pos | .takesNoArguments _ pos
  | .takesOneArgument _ pos | .shapeIsNoPath pos => pos

def message : Complaint → String
  | .typeArgumentsOnly concept _ => s!"`{concept}` takes type arguments only"
  | .notFunctionLike concept _ => s!"`{concept}` is not a function-like trait"
  | .takesNoArguments concept _ => s!"`{concept}` takes no type arguments"
  | .takesOneArgument concept _ => s!"`{concept}` takes exactly one type argument"
  | .shapeIsNoPath _ => "expected a type constructor path such as `Option<_>`"

end Complaint

/-- Why a request has no answer. -/
inductive RequestError where
  /-- The text has no tokens, or they do not follow the grammar of the request. -/
  | unreadable
  /-- With its holes filled, the shape is no type. -/
  | malformedShape
  | complaint (complaint : Complaint)
  deriving DecidableEq, Repr

end TypeConcepts
