import TypeConcepts.Ty.Basic
import TypeConcepts.TypeExpr.Basic

/-!
The type that a type expression names. Lifetimes are erased, parentheses mean nothing, and names
that stand for another type are replaced by it.
-/

namespace TypeConcepts

/-- What names mean: the types that some stand for, and those that are parameters. -/
structure Scope where
  aliases : List (String × Ty)
  params : List String

namespace Scope

variable (scope : Scope)

def name (name : String) : Ty :=
  match scope.aliases.lookup name with
  | some type => type
  | none => if scope.params.contains name then .param name else .word name

def numeral? : Tokens → Option Nat
  | [.literal text _] => text.toNat?
  | _ => none

mutual

def resolve? : TypeExpr → Option Ty
  | .path path => path? path
  | .paren inner => resolve? inner
  | .reference _ mutable target => do some (.reference mutable (← resolve? target))
  | .pointer mutable target => do some (.pointer mutable (← resolve? target))
  | .tuple items _ => do some (.tuple (← resolveAll? items))
  | .slice item => do some (.slice (← resolve? item))
  | .array item length => do some (.array (← resolve? item) (← numeral? length))
  | .object true [.trait ⟨_, _, _, ⟨_, _, [⟨name, .none⟩]⟩⟩] _ => some (.object name)
  | .function signature => function? signature
  | _ => none

def resolveAll? : List TypeExpr → Option (List Ty)
  | [] => some []
  | type :: rest => do some ((← resolve? type) :: (← resolveAll? rest))

def path? : Path → Option Ty
  | ⟨_, false, [segment]⟩ => segment? segment
  | _ => none

def segment? : Segment → Option Ty
  | ⟨name, .none⟩ => some (scope.name name)
  | ⟨name, .angle _ args _⟩ => do
      match ← args? args with
      | [] => some (scope.name name)
      | found => some (.named name found)
  | ⟨_, .call ..⟩ => none

def args? : List GenericArg → Option (List Ty)
  | [] => some []
  | arg :: rest =>
      match arg with
      | .lifetime _ _ => args? rest
      | .type type => do some ((← resolve? type) :: (← args? rest))
      | .const _ value => do some (.const (← numeral? value) :: (← args? rest))
      | _ => none

def function? : Signature → Option Ty
  | ⟨_, _, _, params, _, _, output⟩ => do
      some (.function (← params? params) (← output? output))

def params? : List Param → Option (List Ty)
  | [] => some []
  | ⟨_, type⟩ :: rest => do some ((← resolve? type) :: (← params? rest))

def output? : Option TypeExpr → Option Ty
  | none => some .unit
  | some type => resolve? type

end

end Scope

end TypeConcepts
