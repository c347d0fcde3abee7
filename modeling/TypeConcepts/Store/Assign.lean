import TypeConcepts.Environment.Assignment

/-!
Assignment in a store, a list of values at numbered places.

A value that is moved in takes the place of the old one, which is dropped. From a reference the
value is cloned over the old one, in the way of its type. Either way the place stays what it was,
so that it can be assigned to again.
-/

namespace TypeConcepts.Store

open Environment (AssignRoute)

variable {α : Type} {m : Type → Type} [Monad m]

/-- What is assigned: a value, or the value at a place, through a reference of either kind. -/
inductive Source (α : Type) where
  | value (value : α)
  | shared (place : Nat)
  | exclusive (place : Nat)

def Source.route : Source α → AssignRoute
  | .value _ => .move
  | .shared _ => .cloneShared
  | .exclusive _ => .cloneExclusive

/-- What assignment runs of the code of a type. -/
structure Overwrite (m : Type → Type) (α : Type) where
  drop : α → m Unit
  /-- What an old value becomes when another is cloned over it. -/
  cloneOver : α → α → m α

/-- An assignment through a reference to a place: the place of the reference that it yields, and the
store after it. Without the places the store stays as it was. -/
def assign (code : Overwrite m α) (target : Nat) (source : Source α) (store : List α) :
    m (Nat × List α) :=
  match store[target]?, source with
  | none, _ => pure (target, store)
  | some old, .value value => do
      code.drop old
      pure (target, store.set target value)
  | some old, .shared place | some old, .exclusive place =>
      match store[place]? with
      | none => pure (target, store)
      | some value => do
          pure (target, store.set target (← code.cloneOver old value))

/-- Assignments one after the other, each through the reference that the one before yields. -/
def assignEach (code : Overwrite m α) (target : Nat) (sources : List (Source α))
    (store : List α) : m (Nat × List α) :=
  sources.foldlM (fun (place, store) source => assign code place source store) (target, store)

end TypeConcepts.Store
