import TypeConcepts.Token.Reader

/-!
Boolean formulas over leaves of any kind, and their reading.

`!` binds tightest, then `&`, then `|`; the two infix operators group to the left. Parentheses
leave no node. An operator that begins a doubled one is not read as an operator.
-/

namespace TypeConcepts

inductive Formula (α : Type) where
  | leaf (value : α)
  | and (left right : Formula α)
  | or (left right : Formula α)
  | not (operand : Formula α)
  deriving DecidableEq, Repr

namespace Formula

variable {α : Type}

def leaves : Formula α → List α
  | .leaf value => [value]
  | .and left right | .or left right => left.leaves ++ right.leaves
  | .not operand => operand.leaves

def eval (truth : α → Bool) : Formula α → Bool
  | .leaf value => truth value
  | .and left right => left.eval truth && right.eval truth
  | .or left right => left.eval truth || right.eval truth
  | .not operand => !operand.eval truth

/-- How connectives are written: each answers with the tokens after it if it comes next. -/
structure Connectives where
  negation : Tokens → Option Tokens
  conjunction : Tokens → Option Tokens
  disjunction : Tokens → Option Tokens

/-- A sign that stands for itself and is no half of a doubled one. -/
def sign (char : Char) (tokens : Tokens) : Option Tokens := single? char [char, char] tokens

def Connectives.simple : Connectives := ⟨eat? ['!'], sign '&', sign '|'⟩

section Reading

variable (signs : Connectives) (leaf : Reader α)

mutual

def readOr : Nat → Reader (Formula α)
  | 0, _ => none
  | bound + 1, tokens => do
      let (left, rest) ← readAnd bound tokens
      moreOr bound left rest

def moreOr : Nat → Formula α → Reader (Formula α)
  | 0, _, _ => none
  | bound + 1, left, tokens =>
      match signs.disjunction tokens with
      | none => some (left, tokens)
      | some rest => do
          let (right, rest) ← readAnd bound rest
          moreOr bound (.or left right) rest

def readAnd : Nat → Reader (Formula α)
  | 0, _ => none
  | bound + 1, tokens => do
      let (left, rest) ← readUnary bound tokens
      moreAnd bound left rest

def moreAnd : Nat → Formula α → Reader (Formula α)
  | 0, _, _ => none
  | bound + 1, left, tokens =>
      match signs.conjunction tokens with
      | none => some (left, tokens)
      | some rest => do
          let (right, rest) ← readUnary bound rest
          moreAnd bound (.and left right) rest

def readUnary : Nat → Reader (Formula α)
  | 0, _ => none
  | bound + 1, tokens =>
      match signs.negation tokens with
      | some rest => do
          let (operand, rest) ← readUnary bound rest
          some (.not operand, rest)
      | none => readPrimary bound tokens

def readPrimary : Nat → Reader (Formula α)
  | 0, _ => none
  | bound + 1, tokens =>
      match group? .paren tokens with
      | some (inner, rest) =>
          match readOr bound inner with
          | some (formula, []) => some (formula, rest)
          | _ => none
      | none => do
          let (value, rest) ← leaf tokens
          some (.leaf value, rest)

end

end Reading

/-- A formula off the front of a token list. Each step down the grammar or into a group, and each
operand of an infix operator, costs one; no token is met by more than six steps. -/
def read (leaf : Reader α) : Reader (Formula α) := fun tokens =>
  readOr .simple leaf (6 * TokenTree.sizes tokens + 6) tokens

end Formula

end TypeConcepts
