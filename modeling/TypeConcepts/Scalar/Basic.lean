/-!
The scalar types: truth values, characters and the primitive integers, and which of them hold every
value of which.
-/

namespace TypeConcepts

/-- The width of an integer; the width of an address is a width of its own. -/
inductive Width where
  | w8 | w16 | w32 | w64 | w128 | address
  deriving DecidableEq, Repr

/-- Addresses have 64 bits. -/
def Width.bits : Width → Nat
  | .w8 => 8
  | .w16 => 16
  | .w32 => 32
  | .w64 => 64
  | .w128 => 128
  | .address => 64

inductive Scalar where
  | bool
  | char
  | int (signed : Bool) (width : Width)
  deriving DecidableEq, Repr

namespace Scalar

def named : List (String × Scalar) :=
  [("bool", .bool), ("char", .char), ("u8", .int false .w8), ("u16", .int false .w16),
    ("u32", .int false .w32), ("u64", .int false .w64), ("u128", .int false .w128),
    ("usize", .int false .address), ("i8", .int true .w8), ("i16", .int true .w16),
    ("i32", .int true .w32), ("i64", .int true .w64), ("i128", .int true .w128),
    ("isize", .int true .address)]

def ofName? (name : String) : Option Scalar := named.lookup name

/-- Whether every value of one integer type is a value of the other on every machine. Of addresses
only 16 bits are certain. -/
def intWidens (signed : Bool) (width : Width) (signed' : Bool) (width' : Width) : Bool :=
  let signFits := if signed then signed' else !signed' || width.bits < width'.bits
  if signed = signed' ∧ width = width' then true
  else if width = .address then false
  else if width' = .address then
    signFits && width.bits ≤ (if signed' && !signed then 8 else 16)
  else signFits && width.bits < width'.bits

/-- Whether each value of the first type converts to one of the second. A byte is a character, and
a character is the number of its code point. -/
def widens : Scalar → Scalar → Bool
  | .bool, .bool | .bool, .int _ _ | .char, .char => true
  | .char, .int false width => width != .address && 32 ≤ width.bits
  | .int false .w8, .char => true
  | .int signed width, .int signed' width' => intWidens signed width signed' width'
  | _, _ => false

end Scalar

end TypeConcepts
