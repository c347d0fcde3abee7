import TypeConcepts.Ty.Basic

/-!
The values of a session and their kinds. Every number has 64 bits and a sign.
-/

namespace TypeConcepts.Session

inductive Kind where
  | int | text | list | rank | traced | echo | counted | fussy | handle | resource | ticket
  deriving DecidableEq, Repr

namespace Kind

def name : Kind → String
  | .int => "int"
  | .text => "text"
  | .list => "list"
  | .rank => "rank"
  | .traced => "traced"
  | .echo => "echo"
  | .counted => "counted"
  | .fussy => "fussy"
  | .handle => "handle"
  | .resource => "resource"
  | .ticket => "ticket"

def all : List Kind :=
  [.int, .text, .list, .rank, .traced, .echo, .counted, .fussy, .handle, .resource, .ticket]

def ofName? (name : String) : Option Kind := all.find? fun kind => kind.name == name

def type : Kind → Ty
  | .int => .word "i64"
  | .text => .word "String"
  | .list => .apply "Vec" (.word "i64")
  | .rank => .word "Rank"
  | .traced => .word "Traced"
  | .echo => .word "Echo"
  | .counted => .word "Counted"
  | .fussy => .word "Fussy"
  | .handle => .word "Handle"
  | .resource => .word "Resource"
  | .ticket => .word "Ticket"

def stretchType : Ty := .slice (.word "i64")

end Kind

inductive Value where
  | int (number : Int64)
  | text (text : String)
  | list (items : List Int64)
  | rank (number : Int64)
  | traced (number : Int64)
  | echo (number : Int64)
  | counted (tag number : Int64)
  | fussy (number : Int64)
  | handle (number : Int64)
  | resource (number : Int64)
  | ticket (text : String)
  deriving DecidableEq, Repr

namespace Value

def kind : Value → Kind
  | .int _ => .int
  | .text _ => .text
  | .list _ => .list
  | .rank _ => .rank
  | .traced _ => .traced
  | .echo _ => .echo
  | .counted _ _ => .counted
  | .fussy _ => .fussy
  | .handle _ => .handle
  | .resource _ => .resource
  | .ticket _ => .ticket

def type (value : Value) : Ty := value.kind.type

def zero : Kind → Value
  | .int => .int 0
  | .text => .text ""
  | .list => .list []
  | .rank => .rank 0
  | .traced => .traced 0
  | .echo => .echo 0
  | .counted => .counted 0 0
  | .fussy => .fussy 0
  | .handle => .handle 0
  | .resource => .resource 0
  | .ticket => .ticket ""

def observed? : Value → Option (Kind × Int64)
  | .traced number => some (.traced, number)
  | .echo number => some (.echo, number)
  | _ => none

@[simp] theorem kind_zero (kind : Kind) : (zero kind).kind = kind := by
  cases kind <;> rfl

end Value

/-- What a value is built from: values, and what converts to a number, a text or a list. -/
inductive Argument where
  | value (value : Value)
  | bool (truth : Bool)
  | byte (number : UInt8)
  | short (number : Int32)
  | char (char : Char)
  | borrowedText (text : String)
  | boxedText (text : String)
  | borrowedList (items : List Int64)
  deriving DecidableEq, Repr

def Argument.value? : Argument → Option Value
  | .value built => some built
  | _ => none

end TypeConcepts.Session
