import TypeConcepts.Ty.Basic

/-!
Environments: what is true of types before any concept is asked about.

An environment says which types have a known size and which of the standard traits each type
implements, which exchanges are registered, and whether there is a heap. Every concept is computed
from these facts alone.
-/

namespace TypeConcepts

structure Environment where
  heap : Bool
  sized : Ty → Bool
  /-- Dropping a value of the type runs code. -/
  dropCode : Ty → Bool
  default : Ty → Bool
  clone : Ty → Bool
  copy : Ty → Bool
  /-- The first type compares for equality with the second. -/
  partialEq : Ty → Ty → Bool
  partialOrd : Ty → Ty → Bool
  /-- The first type is built from a value of the second. -/
  builtFrom : Ty → Ty → Bool
  /-- The registered exchange of the first type with the second, if there is one, and whether it
  never fails. -/
  exchange : Ty → Ty → Option Bool

/-- The rules that every program obeys: supertraits, and the implementations that hold for all
types. -/
structure Environment.Lawful (env : Environment) : Prop where
  copyClone : ∀ type, env.copy type = true → env.clone type = true
  cloneSized : ∀ type, env.clone type = true → env.sized type = true
  defaultSized : ∀ type, env.default type = true → env.sized type = true
  orderedEq : ∀ left right, env.partialOrd left right = true → env.partialEq left right = true
  builtSized : ∀ type source, env.builtFrom type source = true →
    env.sized type = true ∧ env.sized source = true
  builtFromSelf : ∀ type, env.sized type = true → env.builtFrom type type = true
  referenceSized : ∀ mutable target, env.sized (.reference mutable target) = true
  sharedCopy : ∀ target, env.copy (.shared target) = true
  boxedDefault : ∀ type, env.sized type = true →
    env.default (.boxed type) = env.default type

end TypeConcepts
