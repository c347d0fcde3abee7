import TypeConcepts.Environment.Comparison
import TypeConcepts.Environment.Exchange

/-! Types that behave like values: movable, copyable, semiregular and regular. -/

namespace TypeConcepts.Environment

variable (env : Environment)

def movable (type : Ty) : Bool :=
  env.destructible type && env.moveConstructible type
    && env.assignableFrom (.exclusive type) type && env.swappable type

def copyable (type : Ty) : Bool :=
  env.copyConstructible type && env.movable type
    && env.assignableFrom (.exclusive type) (.exclusive type)
    && env.assignableFrom (.exclusive type) (.shared type)
    && env.assignableFrom (.exclusive type) type

def semiregular (type : Ty) : Bool := env.copyable type && env.defaultInitializable type

def regular (type : Ty) : Bool := env.semiregular type && env.equalityComparable type

end TypeConcepts.Environment
