/-!
Types, after names are resolved and lifetimes are erased.

A constructor is a name with its arguments; a constant in argument position counts as an argument.
-/

namespace TypeConcepts

inductive Ty where
  | named (name : String) (args : List Ty)
  | const (value : Nat)
  | reference (mutable : Bool) (target : Ty)
  | pointer (mutable : Bool) (target : Ty)
  | array (item : Ty) (length : Nat)
  | slice (item : Ty)
  | tuple (items : List Ty)
  | function (inputs : List Ty) (output : Ty)
  | object (trait : String)
  | param (name : String)
  deriving Repr, Inhabited

namespace Ty

mutual

def same : Ty → Ty → Bool
  | .named name args, .named name' args' => name == name' && sameAll args args'
  | .const value, .const value' => value == value'
  | .reference mutable target, .reference mutable' target' =>
      mutable == mutable' && same target target'
  | .pointer mutable target, .pointer mutable' target' =>
      mutable == mutable' && same target target'
  | .array item length, .array item' length' => length == length' && same item item'
  | .slice item, .slice item' => same item item'
  | .tuple items, .tuple items' => sameAll items items'
  | .function inputs output, .function inputs' output' =>
      sameAll inputs inputs' && same output output'
  | .object trait, .object trait' => trait == trait'
  | .param name, .param name' => name == name'
  | _, _ => false

def sameAll : List Ty → List Ty → Bool
  | [], [] => true
  | type :: rest, type' :: rest' => same type type' && sameAll rest rest'
  | _, _ => false

end

mutual

theorem same_iff : ∀ left right : Ty, same left right = true ↔ left = right
  | .named name args, right => by
      cases right <;> simp [same, sameAll_iff args]
  | .const value, right => by cases right <;> simp [same]
  | .reference mutable target, right => by cases right <;> simp [same, same_iff target]
  | .pointer mutable target, right => by cases right <;> simp [same, same_iff target]
  | .array item length, right => by
      cases right <;> simp [same, same_iff item, and_comm]
  | .slice item, right => by cases right <;> simp [same, same_iff item]
  | .tuple items, right => by cases right <;> simp [same, sameAll_iff items]
  | .function inputs output, right => by
      cases right <;> simp [same, sameAll_iff inputs, same_iff output]
  | .object trait, right => by cases right <;> simp [same]
  | .param name, right => by cases right <;> simp [same]

theorem sameAll_iff : ∀ left right : List Ty, sameAll left right = true ↔ left = right
  | [], right => by cases right <;> simp [sameAll]
  | type :: rest, right => by cases right <;> simp [sameAll, same_iff type, sameAll_iff rest]

end

instance : DecidableEq Ty := fun left right =>
  decidable_of_iff _ (same_iff left right)

def word (name : String) : Ty := .named name []

def apply (name : String) (arg : Ty) : Ty := .named name [arg]

def shared (target : Ty) : Ty := .reference false target

def exclusive (target : Ty) : Ty := .reference true target

def unit : Ty := .tuple []

def boxed (target : Ty) : Ty := .apply "Box" target

def referent? : Ty → Option Ty
  | .reference _ target => some target
  | _ => none

mutual

def size : Ty → Nat
  | .named _ args => sizes args + 1
  | .reference _ target | .pointer _ target => target.size + 1
  | .array item _ | .slice item => item.size + 1
  | .tuple items => sizes items + 1
  | .function inputs output => sizes inputs + output.size + 1
  | .const _ | .object _ | .param _ => 1

def sizes : List Ty → Nat
  | [] => 0
  | type :: rest => type.size + sizes rest

end

theorem reference_ne (mutable : Bool) (target : Ty) : Ty.reference mutable target ≠ target := by
  intro equal
  have smaller := congrArg size equal
  simp only [size] at smaller
  omega

end Ty

end TypeConcepts
