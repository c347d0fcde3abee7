import TypeConcepts.Ty.Basic

/-!
Matching a type against a pattern, which is a type with parameters. The type that is matched has no
parameters of its own, so each parameter takes whatever stands at its place.
-/

namespace TypeConcepts

/-- What each parameter stands for; the first entry of a name counts. -/
abbrev Substitution := List (String × Ty)

namespace Ty

mutual

def instantiate (assigned : Substitution) : Ty → Ty
  | .named name args => .named name (instantiateAll assigned args)
  | .const value => .const value
  | .reference mutable target => .reference mutable (target.instantiate assigned)
  | .pointer mutable target => .pointer mutable (target.instantiate assigned)
  | .array item length => .array (item.instantiate assigned) length
  | .slice item => .slice (item.instantiate assigned)
  | .tuple items => .tuple (instantiateAll assigned items)
  | .function inputs output =>
      .function (instantiateAll assigned inputs) (output.instantiate assigned)
  | .object trait => .object trait
  | .param name => (assigned.lookup name).getD (.param name)

def instantiateAll (assigned : Substitution) : List Ty → List Ty
  | [] => []
  | type :: rest => type.instantiate assigned :: instantiateAll assigned rest

end

mutual

/-- Extends what is assigned so far until the pattern becomes the type. -/
def matches? (assigned : Substitution) : (pattern type : Ty) → Option Substitution
  | .param name, type =>
      match assigned.lookup name with
      | some bound => if bound = type then some assigned else none
      | none => some ((name, type) :: assigned)
  | .named name args, .named name' args' =>
      if name = name' then matchesAll? assigned args args' else none
  | .const value, .const value' => if value = value' then some assigned else none
  | .reference mutable target, .reference mutable' target' =>
      if mutable = mutable' then matches? assigned target target' else none
  | .pointer mutable target, .pointer mutable' target' =>
      if mutable = mutable' then matches? assigned target target' else none
  | .array item length, .array item' length' =>
      if length = length' then matches? assigned item item' else none
  | .slice item, .slice item' => matches? assigned item item'
  | .tuple items, .tuple items' => matchesAll? assigned items items'
  | .function inputs output, .function inputs' output' => do
      matches? (← matchesAll? assigned inputs inputs') output output'
  | .object trait, .object trait' => if trait = trait' then some assigned else none
  | _, _ => none

def matchesAll? (assigned : Substitution) : (patterns types : List Ty) → Option Substitution
  | [], [] => some assigned
  | pattern :: patterns, type :: types => do
      matchesAll? (← matches? assigned pattern type) patterns types
  | _, _ => none

end

end Ty

end TypeConcepts
