import TypeConcepts.Environment.Exchange
import TypeConcepts.Session.Value

/-!
The operations of a session.

A place is a position in the store. Where an operation is told by name what to do, a name that
means nothing leaves the option empty, and the operation fits nothing.
-/

namespace TypeConcepts.Session

/-- How an exchange comes by its strategy: by resolution for the two types, or given. -/
inductive Mode where
  | auto
  | given (strategy : Strategy)
  deriving DecidableEq, Repr

namespace Mode

def ofName? : String → Option Mode
  | "auto" => some .auto
  | "bymove" => some (.given .byMove)
  | "bespoke" => some (.given .bespoke)
  | _ => none

/-- Stretches also exchange directly, by the exchange that they register. -/
def ofStretchName? : String → Option Mode
  | "direct" => some (.given .bespoke)
  | name => ofName? name

def strategy? (env : Environment) (left right : Ty) : Mode → Option Strategy
  | .auto => env.resolve left right
  | .given strategy => if env.supports left right strategy then some strategy else none

end Mode

inductive Borrow where
  | shared
  | exclusive
  deriving DecidableEq, Repr

namespace Borrow

def ofName? : String → Option Borrow
  | "ref" => some .shared
  | "mut" => some .exclusive
  | _ => none

def type (target : Ty) : Borrow → Ty
  | .shared => .shared target
  | .exclusive => .exclusive target

end Borrow

structure Bounds where
  start : Int
  stop : Int
  deriving DecidableEq, Repr

inductive Operation where
  | swap (left right : Nat) (mode : Option Mode)
  | resolve (left right : Nat) (mode : Option Mode)
  | swapStretches (left right : Nat) (leftBounds rightBounds : Bounds) (mode : Option Mode)
  | resolveStretches (left right : Nat) (leftBounds rightBounds : Bounds)
  | assign (target : Nat) (values : List Value)
  | assignFrom (target source : Nat) (borrow : Option Borrow)
  | construct (kind : Option Kind) (args : List Argument)
  | constructByMove (value : Value)
  | constructByCopy (source : Nat) (borrow : Borrow)
  | decay (source : Nat) (borrow : Option Borrow)
  | initOnHeap (kind : Option Kind)
  | trivial (kind : Option Kind)
  | duplicate (source : Nat)
  | relocate (source : Nat)
  | reset (place : Nat)
  | normalize (place : Nat)
  | clamp (place : Nat) (least greatest : Int64)
  | drop (place : Nat)
  /-- An operation that cannot be read in full, with the places and values that could. -/
  | unreadable (places : List Nat) (values : List Value)
  deriving Repr

namespace Operation

def places : Operation → List Nat
  | .swap left right _ | .resolve left right _ | .swapStretches left right _ _ _
  | .resolveStretches left right _ _ => [left, right]
  | .assign target _ => [target]
  | .assignFrom target source _ => [target, source]
  | .constructByCopy source _ | .decay source _ | .duplicate source | .relocate source => [source]
  | .reset place | .normalize place | .clamp place _ _ | .drop place => [place]
  | .construct _ _ | .constructByMove _ | .initOnHeap _ | .trivial _ => []
  | .unreadable places _ => places

def values : Operation → List Value
  | .assign _ values | .unreadable _ values => values
  | .construct _ args => args.filterMap Argument.value?
  | .constructByMove value => [value]
  | _ => []

end Operation

inductive Fault where
  | index
  | alias
  | unreadable
  | rejected
  | range
  | panic
  deriving DecidableEq, Repr

inductive Answer where
  | nothing
  | value (value : Value)
  | truth (truth : Bool)
  | truths (truths : List Bool)
  | strategy (strategy : Strategy) (infallible : Bool)
  deriving DecidableEq, Repr

end TypeConcepts.Session
