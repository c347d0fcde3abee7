import TypeConcepts.Environment.Basic
import TypeConcepts.Scalar.Basic
import TypeConcepts.Universe.Implements

/-!
The environment of the universe: comparisons, conversions and registered exchanges between its
types, on top of the traits that each type implements.
-/

namespace TypeConcepts.Universe

def byte : Ty := .word "u8"

def bytes : Ty := .slice byte

def byteArray : Ty := .array byte 4

def byteVec : Ty := .apply "Vec" byte

def text : Ty := .word "str"

def string : Ty := .word "String"

def borrowed : Ty := .apply "Cow" text

def rank : Ty := .word "Rank"

def lopsided : Ty := .word "Lopsided"

def equalPairs : List (Ty × Ty) :=
  [(text, string), (text, borrowed), (string, .shared text), (string, borrowed),
    (.shared text, borrowed), (bytes, byteArray), (bytes, byteVec), (.shared bytes, byteArray),
    (.exclusive bytes, byteArray), (.shared bytes, byteVec), (.exclusive bytes, byteVec),
    (rank, lopsided)]

def equalOneSided : List (Ty × Ty) := [(lopsided, byte)]

def orderedOneSided : List (Ty × Ty) := [(lopsided, byte), (rank, lopsided)]

/-- References compare as what they point at does, whatever their kinds. -/
def partialEq : Ty → Ty → Bool
  | .reference mutable target, right =>
      match right with
      | .reference _ target' => partialEq target target'
      | _ => listed (.reference mutable target) right
  | left, right => if left = right then Trait.partialEq.holds left else listed left right
where
  listed (left right : Ty) : Bool :=
    equalPairs.contains (left, right) || equalPairs.contains (right, left)
      || equalOneSided.contains (left, right)

def partialOrd : Ty → Ty → Bool
  | .reference mutable target, .reference mutable' target' =>
      mutable == mutable' && partialOrd target target'
  | left, right =>
      if left = right then Trait.partialOrd.holds left else orderedOneSided.contains (left, right)

def conversions : List (Ty × Ty) :=
  let boxedText := Ty.boxed text
  let boxedBytes := Ty.boxed bytes
  let countedBytes := Ty.apply "Rc" bytes
  [(.word "char", string), (string, byteVec), (string, boxedText), (string, borrowed),
    (.shared text, string), (.shared text, byteVec), (.shared text, boxedText),
    (.shared text, borrowed), (.shared string, string), (.shared string, borrowed),
    (.shared bytes, byteVec), (.shared bytes, boxedBytes), (.shared bytes, countedBytes),
    (.exclusive bytes, byteVec), (.exclusive bytes, boxedBytes), (.exclusive bytes, countedBytes),
    (byteArray, byteVec), (byteArray, boxedBytes), (byteArray, countedBytes),
    (.exclusive byteArray, byteVec), (byteVec, boxedBytes), (byteVec, countedBytes),
    (boxedText, string), (boxedText, boxedBytes), (boxedBytes, byteVec),
    (boxedBytes, countedBytes), (borrowed, string), (borrowed, boxedText),
    (.word "Flag", .word "bool")]

/-- The argument lists of which user types are built as one tuple. -/
def tupleConversions : List (Ty × Ty) :=
  let repeated (count : Nat) (name : String) := Ty.tuple (List.replicate count (.word name))
  [(repeated 2 "i32", .word "Point"), (repeated 3 "u8", .word "Span"),
    (repeated 4 "i32", .word "Span"), (repeated 5 "u8", .word "Wide"),
    (repeated 6 "u8", .word "Wide"), (repeated 7 "u8", .word "Wide")]

def wrappers : List String := ["Box", "Rc", "Option", "Mutex", "Cell", "RefCell"]

def wraps : Ty → Ty → Bool
  | .named name [item], source => wrappers.contains name && item == source
  | _, _ => false

def scalar? : Ty → Option Scalar
  | .named name [] => Scalar.ofName? name
  | _ => none

def scalarWidens (target source : Ty) : Bool :=
  match scalar? source, scalar? target with
  | some source, some target => source.widens target
  | _, _ => false

/-- The bits of a number that a floating type holds exactly. -/
def floatPrecision : Ty → Option Nat
  | .named "f32" [] => some 16
  | .named "f64" [] => some 32
  | _ => none

def floats (target source : Ty) : Bool :=
  match floatPrecision target with
  | none => false
  | some limit =>
      (source == .word "f32" && limit == 32) ||
        match scalar? source with
        | some .bool => true
        | some (.int _ width) => width != .address && width.bits ≤ limit
        | _ => false

def builtFrom (target source : Ty) : Bool :=
  Trait.sized.holds target && Trait.sized.holds source &&
    (target == source || scalarWidens target source || floats target source
      || wraps target source || conversions.contains (source, target)
      || tupleConversions.contains (source, target)
      || (source == byte && target == .word "Span"))

/-- How members of the family `Item` exchange, by their fourth marker. -/
def itemExchange : List Ty → Option Bool
  | [_, _, _, .named "Risky" [], _] => some false
  | [_, _, _, .named "Safe" [], _] => some true
  | _ => none

/-- The registered exchanges, and whether they never fail. Slices of unequal length do. -/
def exchange (left right : Ty) : Option Bool :=
  match left with
  | .slice item => if left = right ∧ Trait.sized.holds item then some false else none
  | .named "Item" args => if left = right then itemExchange args else none
  | .named "Counted" [] => if left = right then some true else none
  | .named "Fussy" [] => if left = right then some false else none
  | .named "Handle" [] => if right = .word "Resource" then some false else none
  | .named "Lopsided" [] => if right = byte then some true else none
  | _ => none

def environment (heap : Bool) : Environment where
  heap := heap
  sized := Trait.sized.holds
  dropCode := Ty.dropCode
  default := Trait.default.holds
  clone := Trait.clone.holds
  copy := Trait.copy.holds
  partialEq := partialEq
  partialOrd := partialOrd
  builtFrom := builtFrom
  exchange := exchange

end TypeConcepts.Universe
