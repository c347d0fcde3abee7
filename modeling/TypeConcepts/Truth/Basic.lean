/-!
Truth values as types: the result of a predicate, lifted to where it can select another type.
-/

namespace TypeConcepts

inductive Truth where
  | satisfied
  | unsatisfied
  deriving DecidableEq, Repr

namespace Truth

def value : Truth → Bool
  | .satisfied => true
  | .unsatisfied => false

def ofBool : Bool → Truth
  | true => .satisfied
  | false => .unsatisfied

/-- The first choice of a truth value that is satisfied, and the second of one that is not. -/
def select {α : Type} : Truth → α → α → α
  | .satisfied, chosen, _ => chosen
  | .unsatisfied, _, otherwise => otherwise

def and : Truth → Truth → Truth
  | .satisfied, other => other
  | .unsatisfied, _ => .unsatisfied

def or : Truth → Truth → Truth
  | .satisfied, _ => .satisfied
  | .unsatisfied, other => other

def not : Truth → Truth
  | .satisfied => .unsatisfied
  | .unsatisfied => .satisfied

@[simp] theorem value_ofBool (truth : Bool) : (ofBool truth).value = truth := by
  cases truth <;> rfl

@[simp] theorem ofBool_value (truth : Truth) : ofBool truth.value = truth := by
  cases truth <;> rfl

@[simp] theorem value_and (left right : Truth) :
    (left.and right).value = (left.value && right.value) := by
  cases left <;> cases right <;> rfl

@[simp] theorem value_or (left right : Truth) :
    (left.or right).value = (left.value || right.value) := by
  cases left <;> cases right <;> rfl

@[simp] theorem value_not (truth : Truth) : truth.not.value = !truth.value := by
  cases truth <;> rfl

@[simp] theorem value_select (condition left right : Truth) :
    (condition.select left right).value = if condition.value then left.value else right.value := by
  cases condition <;> rfl

end Truth

end TypeConcepts
