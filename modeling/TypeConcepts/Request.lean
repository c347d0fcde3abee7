import TypeConcepts.Shape.Expansion
import TypeConcepts.Token.Render
import TypeConcepts.Token.Source

/-!
Requests as source text, from the text to its tokens, its syntax and its answer.
-/

namespace TypeConcepts.Request

def parse {α : Type} (read : Tokens → Option α) (source : String) : Except RequestError α :=
  match (TokenTree.ofSource? source).bind read with
  | some value => .ok value
  | none => .error .unreadable

def complain {α : Type} (result : Except Complaint α) : Except RequestError α :=
  result.mapError RequestError.complaint

def conceptOfType (source : String) : Except RequestError (Option ConceptRef) := do
  complain (ConceptRef.ofType (← parse TypeExpr.ofTokens? source))

def conceptOfBound (source : String) : Except RequestError (Option ConceptRef) := do
  complain (ConceptRef.ofPath (← parse TraitBound.ofTokens? source).path)

def name? : Tokens → Option (String × Nat)
  | [.ident name pos] => if isName name then some (name, pos) else none
  | _ => none

def conceptOfNames (names : List String) : Except RequestError (Option ConceptRef) := do
  let names ← names.mapM (parse name?)
  complain (ConceptRef.ofPath
    ⟨(names.head?.map Prod.snd).getD 0, false, names.map fun (name, _) => ⟨name, .none⟩⟩)

def formula (source : String) : Except RequestError (Formula TypeExpr) :=
  parse Formula.ofTokens? source

def checks (source : String) : Except RequestError (List (Check TypeExpr)) :=
  parse Check.ofTokens? source

def checkCode (source : String) : Except RequestError Tokens := do
  complain (expandChecks (← checks source))

def shapeMatch (source : String) : Except RequestError ShapeMatch :=
  parse ShapeMatch.ofTokens? source

def matchCode (source : String) : Except RequestError Tokens := do
  (← shapeMatch source).expand

end TypeConcepts.Request
