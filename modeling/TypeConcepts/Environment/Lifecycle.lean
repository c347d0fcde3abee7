import TypeConcepts.Environment.Basic

/-!
Building and dropping values.

A type is built from a list of arguments: from none by its default, from one by conversion, and
from two to six by conversion from their tuple. Building without running user code is a move or a
bitwise copy out of a reference, and nothing else.
-/

namespace TypeConcepts.Environment

variable (env : Environment)

def destructible (type : Ty) : Bool := env.sized type

def triviallyDestructible (type : Ty) : Bool :=
  env.destructible type && !env.dropCode type

def argumentLimit : Nat := 6

def builds (type : Ty) : List Ty → Bool
  | [] => env.default type
  | [arg] => env.builtFrom type arg
  | args => args.length ≤ argumentLimit && env.builtFrom type (.tuple args)

def constructibleFrom (type : Ty) (args : List Ty) : Bool :=
  env.destructible type && (env.sized type && args.all env.sized && env.builds type args)

def moveConstructible (type : Ty) : Bool := env.constructibleFrom type [type]

def copyConstructible (type : Ty) : Bool := env.moveConstructible type && env.clone type

/-- The ways to build a value without running user code. -/
inductive PlainRoute where
  | move
  | copyShared
  | copyExclusive
  deriving DecidableEq, Repr

def PlainRoute.all : List PlainRoute := [.move, .copyShared, .copyExclusive]

def plainRoute (type : Ty) (args : List Ty) : PlainRoute → Bool
  | .move => env.sized type && args == [type]
  | .copyShared => env.sized type && env.copy type && args == [.shared type]
  | .copyExclusive => env.sized type && env.copy type && args == [.exclusive type]

def buildsPlainly (type : Ty) (args : List Ty) : Bool :=
  PlainRoute.all.any (env.plainRoute type args)

def nothrowConstructibleFrom (type : Ty) (args : List Ty) : Bool :=
  env.destructible type
    && (env.sized type && args.all env.sized && env.buildsPlainly type args)

def valueInit (type : Ty) : Bool := env.sized type && env.default type

def heapInit (type : Ty) : Bool := env.sized type && env.heap && env.default (.boxed type)

/-- The heap form where there is a heap, and the value form in its stead where there is none. -/
def heapOrValueInit (type : Ty) : Bool :=
  if env.heap then env.heapInit type else env.valueInit type

def defaultInitializable (type : Ty) : Bool :=
  env.constructibleFrom type [] && env.valueInit type && env.heapOrValueInit type

end TypeConcepts.Environment
