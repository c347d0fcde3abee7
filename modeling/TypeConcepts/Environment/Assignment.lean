import TypeConcepts.Environment.Basic

/-!
Assignment through a mutable reference: by moving a value in, or by cloning from a reference of
either kind.
-/

namespace TypeConcepts.Environment

variable (env : Environment)

inductive AssignRoute where
  | move
  | cloneShared
  | cloneExclusive
  deriving DecidableEq, Repr

def AssignRoute.all : List AssignRoute := [.move, .cloneShared, .cloneExclusive]

def assignRoute (left right : Ty) : AssignRoute → Bool :=
  match left with
  | .reference true target => fun
    | .move => env.sized target && right == target
    | .cloneShared => env.sized target && env.clone target && right == .shared target
    | .cloneExclusive => env.sized target && env.clone target && right == .exclusive target
  | _ => fun _ => false

def assigns (left right : Ty) : Bool :=
  env.sized left && env.sized right && AssignRoute.all.any (env.assignRoute left right)

def isExclusive : Ty → Bool
  | .reference mutable _ => mutable
  | _ => false

def assignableFrom (left right : Ty) : Bool := isExclusive left && env.assigns left right

end TypeConcepts.Environment
