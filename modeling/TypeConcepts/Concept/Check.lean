import TypeConcepts.Concept.Formula
import TypeConcepts.TypeExpr.Reader

/-!
Checks: formulas asked of subjects. A request holds one check or more, with commas between them
and perhaps one after the last.
-/

namespace TypeConcepts

structure Check (α : Type) where
  subject : α
  formula : Formula α

namespace Check

variable {α : Type} (type : Reader α)

def read : Reader (Check α) := fun tokens => do
  let (subject, rest) ← type tokens
  let rest ← eat? [':'] rest
  let (formula, rest) ← Formula.read type rest
  some (⟨subject, formula⟩, rest)

def readAll (tokens : Tokens) : Option (List (Check α)) :=
  match tokens with
  | [] => none
  | _ => (commaList (read type) tokens.length tokens).map Prod.fst

def ofTokens? (tokens : Tokens) : Option (List (Check TypeExpr)) := readAll TypeExpr.read tokens

end Check

def Formula.ofTokens? (tokens : Tokens) : Option (Formula TypeExpr) :=
  whole? (Formula.read TypeExpr.read) tokens

end TypeConcepts
