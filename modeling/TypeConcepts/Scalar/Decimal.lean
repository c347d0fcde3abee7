/-!
Integers in decimal.

Written, an integer has a minus sign if it is negative and no leading zeros. Read, it may have a
plus sign and any number of leading zeros besides; a minus sign is for signed integers alone.
-/

namespace TypeConcepts.Decimal

def digit? (char : Char) : Option Nat :=
  if '0' ≤ char ∧ char ≤ '9' then some (char.toNat - '0'.toNat) else none

def ofDigits (digits : List Nat) : Nat := digits.foldl (fun number digit => 10 * number + digit) 0

def readNat? : List Char → Option Nat
  | [] => none
  | chars => (chars.mapM digit?).map ofDigits

def readInt? (signed : Bool) : List Char → Option Int
  | '+' :: chars => (readNat? chars).map Int.ofNat
  | '-' :: chars => if signed then (readNat? chars).map fun number => -Int.ofNat number else none
  | chars => (readNat? chars).map Int.ofNat

def write (number : Int) : String := number.repr

end TypeConcepts.Decimal
