import TypeConcepts.Truth.Basic

/-!
A stack machine over truth values. An operation that needs more operands than there are leaves the
stack as it was.
-/

namespace TypeConcepts

namespace Truth

/-- An operation of the machine. The operands of a conditional lie in the order of its reading, so
the alternative is on top. -/
inductive Operation where
  | push (truth : Truth)
  | not
  | holds
  | and
  | or
  | conditional
  deriving DecidableEq, Repr

def Operation.ofName? : String → Option Operation
  | "true" => some (.push .satisfied)
  | "false" => some (.push .unsatisfied)
  | "not" => some .not
  | "holds" => some .holds
  | "and" => some .and
  | "or" => some .or
  | "if" => some .conditional
  | _ => none

/-- A stack of truth values, from the top down. -/
abbrev Stack := List Truth

/-- The stack after an operation, if its operands are there. -/
def Operation.apply? : Operation → Stack → Option Stack
  | .push truth, stack => some (truth :: stack)
  | .not, truth :: stack => some (truth.not :: stack)
  | .holds, truth :: stack => some (ofBool truth.value :: stack)
  | .and, right :: left :: stack => some (left.and right :: stack)
  | .or, right :: left :: stack => some (left.or right :: stack)
  | .conditional, otherwise :: chosen :: condition :: stack =>
      some (condition.select chosen otherwise :: stack)
  | _, _ => none

/-- The stack after each operation, or nothing where there were too few operands. -/
def runFrom (stack : Stack) : List Operation → List (Option Stack)
  | [] => []
  | operation :: rest =>
      let result := operation.apply? stack
      result :: runFrom (result.getD stack) rest

def run (operations : List Operation) : List (Option Stack) := runFrom [] operations

end Truth

end TypeConcepts
