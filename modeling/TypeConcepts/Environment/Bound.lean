import TypeConcepts.Environment.Lifecycle

/-!
Concepts as bounds of generic code. Each bound asks only for the bounds it is built on, while the
predicate of the same name probes every operation that the bound promises.
-/

namespace TypeConcepts.Environment.Bound

variable (env : Environment)

def constructibleFrom (type : Ty) (args : List Ty) : Bool :=
  env.sized type && args.all env.sized && env.builds type args

/-- The heap form is asked for only where there is a heap. -/
def defaultInitializable (type : Ty) : Bool :=
  constructibleFrom env type [] && env.default type && (!env.heap || env.heapInit type)

def moveConstructible (type : Ty) : Bool :=
  env.sized type && constructibleFrom env type [type]

def copyConstructible (type : Ty) : Bool := moveConstructible env type && env.clone type

def movable (type : Ty) : Bool := moveConstructible env type

def copyable (type : Ty) : Bool := copyConstructible env type && movable env type

def semiregular (type : Ty) : Bool := copyable env type && defaultInitializable env type

def equalityComparable (type : Ty) : Bool := env.partialEq type type

def totallyOrdered (type : Ty) : Bool :=
  equalityComparable env type && env.partialOrd type type

def regular (type : Ty) : Bool := semiregular env type && equalityComparable env type

end TypeConcepts.Environment.Bound
