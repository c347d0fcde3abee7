import TypeConcepts.Scalar.Value

/-!
Construction from a scalar, given by the names of the types and the text of the value.

Whether one type is built from another is asked first, and only then is the value read.
-/

namespace TypeConcepts.Scalar

inductive ConstructError where
  | unrelated
  | unreadable
  deriving DecidableEq, Repr

def read (scalar : Scalar) (text : String) : Except ConstructError Value :=
  match read? scalar text with
  | some value => .ok value
  | none => .error .unreadable

def source (name : String) : Except ConstructError Scalar :=
  match ofName? name with
  | some scalar => .ok scalar
  | none => .error .unrelated

/-- What a scalar converts to: another scalar, or text. -/
inductive Target where
  | scalar (scalar : Scalar)
  | text
  deriving DecidableEq, Repr

def Target.ofName? (name : String) : Option Target :=
  if name == "String" then some .text else (Scalar.ofName? name).map .scalar

/-- Whether a target is built from a scalar. Text is built from a character alone. -/
def Target.accepts (target : Target) (scalar : Scalar) : Bool :=
  match target with
  | .scalar wider => scalar.widens wider
  | .text => scalar == .char

def Target.make (target : Target) (value : Value) : String :=
  match target with
  | .scalar wider => (convert wider value).text
  | .text => value.text

/-- The value of a source type that a text denotes, built into a target type. -/
def construct (sourceName targetName text : String) : Except ConstructError String := do
  let scalar ← source sourceName
  match Target.ofName? targetName with
  | none => .error .unrelated
  | some target =>
      if target.accepts scalar then .ok (target.make (← read scalar text))
      else .error .unrelated

/-- A scalar built from itself without running user code: by a move, by a copy out of a shared
reference, and by a copy out of an exclusive one. -/
def constructPlainly (name text : String) : Except ConstructError (List String) := do
  let value ← read (← source name) text
  .ok (List.replicate 3 value.text)

def constructDefault (name : String) : Except ConstructError String := do
  .ok (← source name).default.text

end TypeConcepts.Scalar
