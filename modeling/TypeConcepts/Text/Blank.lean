/-!
White space between tokens: the Unicode property `White_Space` and the two direction marks.
-/

namespace TypeConcepts.Text

def isBlank (c : Char) : Bool :=
  let point := c.toNat
  (9 ≤ point && point ≤ 13) || point == 0x20 || point == 0x85 || point == 0xA0 || point == 0x1680
    || (0x2000 ≤ point && point ≤ 0x200A) || point == 0x200E || point == 0x200F
    || point == 0x2028 || point == 0x2029 || point == 0x202F || point == 0x205F || point == 0x3000

theorem isBlank_of_isWhitespace {c : Char} (white : c.isWhitespace = true) : isBlank c = true := by
  simp only [Char.isWhitespace, Bool.or_eq_true, decide_eq_true_eq] at white
  rcases white with ((rfl | rfl) | rfl) | rfl <;> decide

end TypeConcepts.Text
