import TypeConcepts.Scalar.Basic
import TypeConcepts.Scalar.Decimal

/-! Values of the scalar types, and how they are read, written and converted. -/

namespace TypeConcepts

namespace Scalar

inductive Value where
  | bool (value : Bool)
  | char (value : Char)
  | int (value : Int)
  deriving DecidableEq, Repr

def codes (bits : Nat) : Int := Int.ofNat (Nat.pow 2 bits)

def least (signed : Bool) (width : Width) : Int :=
  if signed then -codes (width.bits - 1) else 0

def greatest (signed : Bool) (width : Width) : Int :=
  if signed then codes (width.bits - 1) - 1 else codes width.bits - 1

def contains : Scalar → Value → Bool
  | .bool, .bool _ | .char, .char _ => true
  | .int signed width, .int value =>
      decide (least signed width ≤ value) && decide (value ≤ greatest signed width)
  | _, _ => false

def default : Scalar → Value
  | .bool => .bool false
  | .char => .char (Char.ofNat 0)
  | .int _ _ => .int 0

def read? (scalar : Scalar) (text : String) : Option Value :=
  match scalar with
  | .bool =>
      match text with
      | "true" => some (.bool true)
      | "false" => some (.bool false)
      | _ => none
  | .char =>
      match text.toList with
      | [letter] => some (.char letter)
      | _ => none
  | .int signed width => do
      let value := Value.int (← Decimal.readInt? signed text.toList)
      if contains (.int signed width) value then some value else none

def Value.text : Value → String
  | .bool true => "true"
  | .bool false => "false"
  | .char value => String.ofList [value]
  | .int value => Decimal.write value

/-- The number that a value stands for: a truth value is a bit, and a character its code point. -/
def Value.number : Value → Int
  | .bool value => if value then 1 else 0
  | .char value => Int.ofNat value.toNat
  | .int value => value

def convert (target : Scalar) (value : Value) : Value :=
  match target with
  | .bool => .bool (value.number != 0)
  | .char => .char (Char.ofNat value.number.toNat)
  | .int _ _ => .int value.number

end Scalar

end TypeConcepts
