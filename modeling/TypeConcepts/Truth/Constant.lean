import TypeConcepts.Environment.Exchange
import TypeConcepts.Truth.Basic

/-!
The constants of the library: types with a single value, known by their names.

Since such a value is its own equal and below nothing, its comparisons with itself are fixed.
-/

namespace TypeConcepts

inductive Constant where
  | truth (truth : Truth)
  | strategy (strategy : Strategy)
  | exchange
  | toolchain
  deriving DecidableEq, Repr

namespace Constant

def named : List (String × Constant) :=
  [("Satisfied", .truth .satisfied), ("Unsatisfied", .truth .unsatisfied),
    ("Bespoke", .strategy .bespoke), ("ByMove", .strategy .byMove), ("SWAP", .exchange),
    ("Toolchain", .toolchain)]

def ofName? (name : String) : Option Constant := named.lookup name

def shown : Constant → String
  | .truth .satisfied => "Satisfied"
  | .truth .unsatisfied => "Unsatisfied"
  | .strategy way => way.name
  | .exchange => "Swap"
  | .toolchain => "Toolchain"

/-- The default of the constant's type, where there is one: the constant itself. -/
def default? : Constant → Option Constant
  | .truth result => some (.truth result)
  | .exchange => some .exchange
  | .strategy _ | .toolchain => none

def equal? : Constant → Option Bool
  | .truth _ | .strategy _ => some true
  | .exchange | .toolchain => none

def order? : Constant → Option Ordering
  | .truth _ => some .eq
  | .strategy _ | .exchange | .toolchain => none

def value? : Constant → Option Bool
  | .truth result => some result.value
  | .strategy _ | .exchange | .toolchain => none

end Constant

end TypeConcepts
