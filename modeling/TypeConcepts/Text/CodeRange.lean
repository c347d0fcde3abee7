/-!
Runs of code points, the form in which character properties are published.
-/

namespace TypeConcepts.Text

/-- The first and the last code point of a run. -/
abbrev CodeRange := Nat × Nat

def CodeRange.has (range : CodeRange) (point : Nat) : Bool :=
  range.1 ≤ point && point ≤ range.2

/-- Membership in a run of which only every `step`-th code point counts. -/
def CodeRange.hasEvery (step : Nat) (range : CodeRange) (point : Nat) : Bool :=
  range.has point && (point - range.1) % step == 0

end TypeConcepts.Text
