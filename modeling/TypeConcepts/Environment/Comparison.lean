import TypeConcepts.Environment.Basic

/-! Comparison and conversion between types. -/

namespace TypeConcepts.Environment

variable (env : Environment)

def equalityComparable (type : Ty) : Bool := env.partialEq type type

def equalityComparableWith (left right : Ty) : Bool :=
  env.partialEq left right && env.partialEq right left

def partiallyOrderedWith (left right : Ty) : Bool :=
  env.partialOrd left right && env.partialOrd right left

/-- Every order between values counts, so types with incomparable values qualify. -/
def totallyOrdered (type : Ty) : Bool :=
  env.equalityComparable type && env.partiallyOrderedWith type type

def convertibleTo (source target : Ty) : Bool :=
  env.sized source && env.sized target && env.builtFrom target source

/-- A type that converts to a truth value can stand as a condition. -/
def booleanTestable (type : Ty) : Bool := env.convertibleTo type (.word "bool")

end TypeConcepts.Environment
