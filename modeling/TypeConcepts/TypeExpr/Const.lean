import TypeConcepts.Token.Reader
import TypeConcepts.TypeExpr.Basic

/-!
Constant expressions inside types: array lengths and blocks in argument position.

An expression is kept as its tokens, spaced uniformly. It is made of literals, paths, signs, groups
and infix operators. Casts, calls, fields, methods, indices, macros and statements are left out, so
fewer lengths are accepted than could be written; the operators are not ranked, so comparisons may
stand in a row, which a full reader refuses.
-/

namespace TypeConcepts

open TokenTree

def infixOperators : List (List Char) :=
  [['&', '&'], ['|', '|'], ['=', '='], ['!', '='], ['<', '='], ['>', '='], ['<', '<'], ['>', '>'],
    ['+'], ['-'], ['*'], ['/'], ['%'], ['&'], ['|'], ['^'], ['<'], ['>']]

def firstOperator? (tokens : Tokens) : List (List Char) → Option (List Char × Tokens)
  | [] => none
  | operator :: others =>
      match eat? operator tokens with
      | some rest => some (operator, rest)
      | none => firstOperator? tokens others

/-- Words that may stand at the head of a value path besides names. -/
def pathWords : List String := ["self", "Self", "super", "crate"]

def isPathWord (name : String) : Bool := isName name || pathWords.contains name

mutual

def constOperand : Nat → Reader Tokens
  | 0, _ => none
  | bound + 1, tokens =>
      match tokens with
      | .literal text _ :: rest => some ([.literal text 0], rest)
      | .group .paren inner _ :: rest => do
          let inner ← if inner.isEmpty then some [] else constWhole bound inner
          some ([delimited .paren inner], rest)
      | .group .brace inner _ :: rest => do
          let inner ← if inner.isEmpty then some [] else constWhole bound inner
          some ([delimited .brace inner], rest)
      | .ident name _ :: rest =>
          if name = "_" ∨ name = "true" ∨ name = "false" then some ([word name], rest)
          else if isPathWord name then constPath bound [word name] rest
          else none
      | .punct char _ _ :: rest =>
          if char = '-' ∨ char = '!' ∨ char = '*' ∨ char = '&' then do
            let (value, rest) ← constOperand bound rest
            some (mark char :: value, rest)
          else none
      | _ => none

def constPath : Nat → Tokens → Reader Tokens
  | 0, _, _ => none
  | bound + 1, sofar, tokens =>
      match eat? [':', ':'] tokens with
      | some (.ident name _ :: rest) =>
          if isPathWord name then constPath bound (sofar ++ operator [':', ':'] ++ [word name]) rest
          else none
      | some _ => none
      | none => some (sofar, tokens)

def constWhole : Nat → Tokens → Option Tokens
  | 0, _ => none
  | bound + 1, tokens => do
      let (value, rest) ← constOperand bound tokens
      match rest with
      | [] => some value
      | _ => do
          let (sign, rest) ← firstOperator? rest infixOperators
          let others ← constWhole bound rest
          some (value ++ operator sign ++ others)

end

def constExpr? (tokens : Tokens) : Option Tokens := constWhole (2 * sizes tokens + 2) tokens

/-- A literal in argument position, with its sign; the two truth values are literals. -/
def literal? : Reader Tokens
  | .literal text _ :: rest => some ([.literal text 0], rest)
  | .ident name _ :: rest =>
      if name = "true" ∨ name = "false" then some ([word name], rest) else none
  | .punct '-' _ _ :: .literal text _ :: rest =>
      if (text.toList.head?.map Char.isDigit).getD false then
        some ([mark '-', .literal text 0], rest)
      else none
  | _ => none

def constant? (tokens : Tokens) : Option (Tokens × Tokens) :=
  match literal? tokens with
  | some found => some found
  | none =>
    match tokens with
    | .group .brace inner _ :: rest => do
        let inner ← if inner.isEmpty then some [] else constExpr? inner
        some ([delimited .brace inner], rest)
    | _ => none

def startsConstant (tokens : Tokens) : Bool :=
  (literal? tokens).isSome || (group? .brace tokens).isSome

end TypeConcepts
