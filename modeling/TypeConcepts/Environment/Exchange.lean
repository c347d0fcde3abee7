import TypeConcepts.Environment.Assignment
import TypeConcepts.Environment.Lifecycle

/-!
Exchanging the values of two places.

A pair of types may register an exchange of its own, which then always wins. Without one, two
places of a single type exchange by moves. The concepts are computed from the facts, while a call
resolves its strategy by trying the candidates in turn.
-/

namespace TypeConcepts

/-- How a resolved exchange is carried out. -/
inductive Strategy where
  | bespoke
  /-- Three moves. -/
  | byMove
  deriving DecidableEq, Repr

def Strategy.name : Strategy → String
  | .bespoke => "Bespoke"
  | .byMove => "ByMove"

/-- The order in which a call tries the strategies. -/
def Strategy.candidates : List Strategy := [.bespoke, .byMove]

namespace Environment

variable (env : Environment)

def sameAs (left right : Ty) : Bool := left == right

def bespokeSwap (left right : Ty) : Bool := (env.exchange left right).isSome

def bespokeSwapInfallible (left right : Ty) : Bool := env.exchange left right == some true

def swappableWith (left right : Ty) : Bool :=
  env.bespokeSwap left right
    || (sameAs left right && env.moveConstructible left && env.assigns (.exclusive left) left)

def swappable (type : Ty) : Bool := env.swappableWith type type

def nothrowSwappableWith (left right : Ty) : Bool :=
  if env.bespokeSwap left right then env.bespokeSwapInfallible left right
  else env.swappableWith left right

def nothrowSwappable (type : Ty) : Bool := env.nothrowSwappableWith type type

def supports (left right : Ty) : Strategy → Bool
  | .bespoke => (env.exchange left right).isSome
  | .byMove => left == right && env.sized left

def infallible (left right : Ty) : Strategy → Bool
  | .bespoke => (env.exchange left right).getD false
  | .byMove => true

/-- The strategy that a call on places of the two types resolves to. -/
def resolve (left right : Ty) : Option Strategy :=
  Strategy.candidates.find? (env.supports left right)

end Environment

end TypeConcepts
