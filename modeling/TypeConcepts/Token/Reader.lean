import TypeConcepts.Token.Basic

/-!
Readers: functions that take something off the front of a token list and answer with it and what
is left, or with nothing.
-/

namespace TypeConcepts

abbrev Reader (α : Type) := Tokens → Option (α × Tokens)

/-- The tokens after an operator. Its last character is recognised whatever its spacing, so the
first character of a longer operator is also an operator of its own. -/
def eat? : List Char → Tokens → Option Tokens
  | [], tokens => some tokens
  | [char], .punct found _ _ :: rest => if found = char then some rest else none
  | char :: more, .punct found .joint _ :: rest =>
      if found = char then eat? more rest else none
  | _ :: _, _ => none

def nextIs (operator : List Char) (tokens : Tokens) : Bool := (eat? operator tokens).isSome

def single? (char : Char) (longer : List Char) (tokens : Tokens) : Option Tokens :=
  if nextIs longer tokens then none else eat? [char] tokens

def word? (name : String) : Tokens → Option Tokens
  | .ident found _ :: rest => if found = name then some rest else none
  | _ => none

def lifetime? : Reader String
  | .punct '\'' .joint _ :: .ident name _ :: rest => some (name, rest)
  | _ => none

def group? (delimiter : Delimiter) : Reader Tokens
  | .group found inner _ :: rest => if found = delimiter then some (inner, rest) else none
  | _ => none

def beyondTwo (tokens : Tokens) : Tokens := tokens.drop 2

def optional {α : Type} (read : Reader α) (tokens : Tokens) : Option α × Tokens :=
  match read tokens with
  | some (value, rest) => (some value, rest)
  | none => (none, tokens)

def flag (skip : Tokens → Option Tokens) (tokens : Tokens) : Bool × Tokens :=
  match skip tokens with
  | some rest => (true, rest)
  | none => (false, tokens)

def whole? {α : Type} (read : Reader α) (tokens : Tokens) : Option α :=
  match read tokens with
  | some (value, []) => some value
  | _ => none

/-- Members up to the end of a token list, with commas between and perhaps one at the end. -/
def commaList {α : Type} (read : Reader α) : Nat → Tokens → Option (List α × Bool)
  | _, [] => some ([], false)
  | 0, _ => none
  | bound + 1, tokens => do
      let (first, rest) ← read tokens
      match rest with
      | [] => some ([first], false)
      | _ => do
          let rest ← eat? [','] rest
          let (others, trailing) ← commaList read bound rest
          some (first :: others, trailing || others.isEmpty)

end TypeConcepts
