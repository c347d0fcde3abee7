import TypeConcepts.Concept.Name

/-!
The concepts that have a predicate of their own, sorted by the types that they take besides their
subject.
-/

namespace TypeConcepts

inductive UnaryConcept where
  | destructible | triviallyDestructible | defaultInitializable | moveConstructible
  | copyConstructible | movableValue | movable | copyable | semiregular | regular
  | equalityComparable | totallyOrdered | swappable | nothrowSwappable | decayCopyable
  | nothrowDecayCopyable | integral | booleanTestable | isReference
  deriving DecidableEq, Repr

inductive BinaryConcept where
  | sameAs | assignableFrom | swappableWith | nothrowSwappableWith | equalityComparableWith
  | partiallyOrderedWith | convertibleTo | decaysTo
  deriving DecidableEq, Repr

inductive VariadicConcept where
  | constructibleFrom | nothrowConstructibleFrom | oneOf | allOf | noneOf
  deriving DecidableEq, Repr

/-- Matching against a shape takes one operand, which is a pattern and no type of its own. -/
inductive Concept where
  | unary (concept : UnaryConcept)
  | binary (concept : BinaryConcept)
  | instanceOf
  | variadic (concept : VariadicConcept)
  deriving DecidableEq, Repr

/-- How many types a concept takes besides its subject. -/
inductive Arity where
  | unary
  | binary
  | variadic
  deriving DecidableEq, Repr

def Arity.accepts : Arity → Nat → Bool
  | .unary, count => count == 0
  | .binary, count => count == 1
  | .variadic, _ => true

namespace UnaryConcept

def all : List UnaryConcept :=
  [.destructible, .triviallyDestructible, .defaultInitializable, .moveConstructible,
    .copyConstructible, .movableValue, .movable, .copyable, .semiregular, .regular,
    .equalityComparable, .totallyOrdered, .swappable, .nothrowSwappable, .decayCopyable,
    .nothrowDecayCopyable, .integral, .booleanTestable, .isReference]

def name : UnaryConcept → String
  | .destructible => "Destructible"
  | .triviallyDestructible => "TriviallyDestructible"
  | .defaultInitializable => "DefaultInitializable"
  | .moveConstructible => "MoveConstructible"
  | .copyConstructible => "CopyConstructible"
  | .movableValue => "MovableValue"
  | .movable => "Movable"
  | .copyable => "Copyable"
  | .semiregular => "Semiregular"
  | .regular => "Regular"
  | .equalityComparable => "EqualityComparable"
  | .totallyOrdered => "TotallyOrdered"
  | .swappable => "Swappable"
  | .nothrowSwappable => "NothrowSwappable"
  | .decayCopyable => "DecayCopyable"
  | .nothrowDecayCopyable => "NothrowDecayCopyable"
  | .integral => "Integral"
  | .booleanTestable => "BooleanTestable"
  | .isReference => "IsReference"

end UnaryConcept

namespace BinaryConcept

def all : List BinaryConcept :=
  [.sameAs, .assignableFrom, .swappableWith, .nothrowSwappableWith, .equalityComparableWith,
    .partiallyOrderedWith, .convertibleTo, .decaysTo]

def name : BinaryConcept → String
  | .sameAs => "SameAs"
  | .assignableFrom => "AssignableFrom"
  | .swappableWith => "SwappableWith"
  | .nothrowSwappableWith => "NothrowSwappableWith"
  | .equalityComparableWith => "EqualityComparableWith"
  | .partiallyOrderedWith => "PartiallyOrderedWith"
  | .convertibleTo => "ConvertibleTo"
  | .decaysTo => "DecaysTo"

end BinaryConcept

namespace VariadicConcept

def all : List VariadicConcept :=
  [.constructibleFrom, .nothrowConstructibleFrom, .oneOf, .allOf, .noneOf]

def name : VariadicConcept → String
  | .constructibleFrom => "ConstructibleFrom"
  | .nothrowConstructibleFrom => "NothrowConstructibleFrom"
  | .oneOf => "OneOf"
  | .allOf => "AllOf"
  | .noneOf => "NoneOf"

end VariadicConcept

namespace Concept

def all : List Concept :=
  UnaryConcept.all.map unary ++ BinaryConcept.all.map binary ++
    instanceOf :: VariadicConcept.all.map variadic

def name : Concept → String
  | .unary concept => concept.name
  | .binary concept => concept.name
  | .instanceOf => "IsInstanceOf"
  | .variadic concept => concept.name

def arity : Concept → Arity
  | .unary _ => .unary
  | .binary _ | .instanceOf => .binary
  | .variadic _ => .variadic

def ofName? (name : String) : Option Concept := all.find? fun concept => concept.name == name

def predicate (concept : Concept) : String := String.ofList (snakeCase concept.name.toList)

end Concept

end TypeConcepts
