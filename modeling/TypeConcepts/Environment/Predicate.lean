import TypeConcepts.Concept.Basic
import TypeConcepts.Environment.Decay
import TypeConcepts.Environment.Regular

/-! The truth of each concept in an environment. -/

namespace TypeConcepts

def integerNames : List String :=
  ["i8", "i16", "i32", "i64", "i128", "isize", "u8", "u16", "u32", "u64", "u128", "usize"]

def Ty.isInteger : Ty → Bool
  | .named name [] => integerNames.contains name
  | _ => false

namespace Environment

def oneOf (type : Ty) (candidates : List Ty) : Bool := candidates.any (sameAs type)

def allOf (type : Ty) (candidates : List Ty) : Bool := candidates.all (sameAs type)

def noneOf (type : Ty) (candidates : List Ty) : Bool :=
  candidates.all fun candidate => !sameAs type candidate

end Environment

def UnaryConcept.holds (env : Environment) (type : Ty) : UnaryConcept → Bool
  | .destructible => env.destructible type
  | .triviallyDestructible => env.triviallyDestructible type
  | .defaultInitializable => env.defaultInitializable type
  | .moveConstructible => env.moveConstructible type
  | .copyConstructible => env.copyConstructible type
  | .movableValue => env.movableValue type
  | .movable => env.movable type
  | .copyable => env.copyable type
  | .semiregular => env.semiregular type
  | .regular => env.regular type
  | .equalityComparable => env.equalityComparable type
  | .totallyOrdered => env.totallyOrdered type
  | .swappable => env.swappable type
  | .nothrowSwappable => env.nothrowSwappable type
  | .decayCopyable => env.decayCopyable type
  | .nothrowDecayCopyable => env.nothrowDecayCopyable type
  | .integral => type.isInteger
  | .booleanTestable => env.booleanTestable type
  | .isReference => Environment.isReference type

def BinaryConcept.holds (env : Environment) (left right : Ty) : BinaryConcept → Bool
  | .sameAs => Environment.sameAs left right
  | .assignableFrom => env.assignableFrom left right
  | .swappableWith => env.swappableWith left right
  | .nothrowSwappableWith => env.nothrowSwappableWith left right
  | .equalityComparableWith => env.equalityComparableWith left right
  | .partiallyOrderedWith => env.partiallyOrderedWith left right
  | .convertibleTo => env.convertibleTo left right
  | .decaysTo => Environment.decaysTo left right

def VariadicConcept.holds (env : Environment) (type : Ty) (args : List Ty) :
    VariadicConcept → Bool
  | .constructibleFrom => env.constructibleFrom type args
  | .nothrowConstructibleFrom => env.nothrowConstructibleFrom type args
  | .oneOf => Environment.oneOf type args
  | .allOf => Environment.allOf type args
  | .noneOf => Environment.noneOf type args

end TypeConcepts
