import TypeConcepts.Text.Identifier

/-!
The extent of a single lexeme at the head of a text. Each reader answers with what is left after
the lexeme, or with nothing when the text starts with no such lexeme.

A literal may carry a suffix that reads as an identifier, and a number may not run on into one.
-/

namespace TypeConcepts.Lexeme

open Text

abbrev Extent := List Char → Option (List Char)

def plainIdent : Extent
  | c :: rest => if isIdentStart c then some (rest.dropWhile isIdentContinue) else none
  | [] => none

def unraisable : List (List Char) :=
  ["_".toList, "super".toList, "self".toList, "Self".toList, "crate".toList]

def anyIdent : Extent
  | 'r' :: '#' :: rest => do
      let after ← plainIdent rest
      if unraisable.contains (rest.take (rest.length - after.length)) then none else some after
  | chars => plainIdent chars

/-- Beginnings that belong to a literal, so that a broken literal is no identifier either. -/
def literalLeads : List (List Char) :=
  ["r\"".toList, "r#\"".toList, "r##".toList, "b\"".toList, "b'".toList, "br\"".toList,
    "br#".toList, "c\"".toList, "cr\"".toList, "cr#".toList]

def ident (chars : List Char) : Option (List Char) :=
  if literalLeads.any (·.isPrefixOf chars) then none else anyIdent chars

def punctuation : List Char := "~!@#$%^&*-=+|;:,<.>/?'".toList

/-- A punctuation character that does not open a comment. -/
def startsPunct : List Char → Bool
  | '/' :: '/' :: _ | '/' :: '*' :: _ => false
  | c :: _ => punctuation.contains c
  | [] => false

/-- Whether a tick opens a lifetime: an identifier follows, and no second tick closes it. -/
def opensLifetime (afterTick : List Char) : Bool :=
  match anyIdent afterTick with
  | none => false
  | some ('\'' :: _) => false
  | some ('#' :: _) => "r#".toList.isPrefixOf afterTick
  | some _ => true

/-- The families of quoted literals differ in the characters and escapes that they admit. -/
inductive Family where
  | text
  | bytes
  | terminated

def suffix (chars : List Char) : List Char := (plainIdent chars).getD chars

def hexValue (c : Char) : Option Nat :=
  if '0' ≤ c ∧ c ≤ '9' then some (c.toNat - 48)
  else if 'a' ≤ c ∧ c ≤ 'f' then some (c.toNat - 87)
  else if 'A' ≤ c ∧ c ≤ 'F' then some (c.toNat - 55)
  else none

/-- The digits of a code point escape up to its closing brace: one to six of them, underscores
aside, that name a character. -/
def codePoint (value digits : Nat) : Extent
  | [] => none
  | c :: rest =>
      if c = '_' ∧ 0 < digits then codePoint value digits rest
      else if c = '\x7d' ∧ 0 < digits then
        if value.isValidChar then some rest else none
      else match hexValue c with
        | some digit => if digits = 6 then none else codePoint (value * 16 + digit) (digits + 1) rest
        | none => none

def escape (family : Family) : Extent
  | 'x' :: high :: low :: rest => do
      let high ← hexValue high
      let low ← hexValue low
      match family with
      | .text => if high < 8 then some rest else none
      | .bytes => some rest
      | .terminated => if high = 0 ∧ low = 0 then none else some rest
  | 'u' :: '\x7b' :: rest =>
      match family with
      | .bytes => none
      | .text | .terminated => codePoint 0 0 rest
  | '0' :: rest => match family with
      | .terminated => none
      | .text | .bytes => some rest
  | c :: rest => if ['n', 'r', 't', '\\', '\'', '"'].contains c then some rest else none
  | [] => none

def admits (family : Family) (c : Char) : Bool :=
  match family with
  | .text => true
  | .bytes => c.toNat < 128
  | .terminated => c.toNat ≠ 0

/-- The blanks that a backslash at the end of a line swallows. -/
def lineStart : Extent
  | '\r' :: '\n' :: rest => lineStart rest
  | '\r' :: _ => none
  | ' ' :: rest | '\t' :: rest | '\n' :: rest => lineStart rest
  | [] => none
  | chars => some chars

/-- A quoted body up to its closing quote. The bound is the length of the text. -/
def quotedBody (family : Family) : Nat → Extent
  | 0, _ => none
  | _ + 1, [] => none
  | _ + 1, '"' :: rest => some (suffix rest)
  | bound + 1, '\\' :: '\n' :: rest => lineStart rest >>= quotedBody family bound
  | bound + 1, '\\' :: '\r' :: rest => lineStart ('\r' :: rest) >>= quotedBody family bound
  | bound + 1, '\\' :: rest => escape family rest >>= quotedBody family bound
  | bound + 1, '\r' :: '\n' :: rest => quotedBody family bound rest
  | _ + 1, '\r' :: _ => none
  | bound + 1, c :: rest => if admits family c then quotedBody family bound rest else none

def quoted (family : Family) : Extent
  | '"' :: rest => quotedBody family (rest.length + 1) rest
  | _ => none

/-- A raw body ends at a quote that as many number signs follow as opened it. -/
def rawBody (family : Family) (closing : List Char) : Extent
  | [] => none
  | '\r' :: '\n' :: rest => rawBody family closing rest
  | '\r' :: _ => none
  | '"' :: rest =>
      if closing.isPrefixOf rest then some (suffix (rest.drop closing.length))
      else rawBody family closing rest
  | c :: rest => if admits family c then rawBody family closing rest else none

def raw (family : Family) (chars : List Char) : Option (List Char) :=
  let signs := chars.takeWhile (· == '#')
  match chars.dropWhile (· == '#') with
  | '"' :: rest => if signs.length ≤ 255 then rawBody family signs rest else none
  | _ => none

def ticked (family : Family) (chars : List Char) : Option (List Char) := do
  let after ← match chars with
    | '\\' :: rest => escape family rest
    | c :: rest => if admits family c then some rest else none
    | [] => none
  match after with
  | '\'' :: rest => some (suffix rest)
  | _ => none

def text (chars : List Char) : Option (List Char) :=
  match chars with
  | '"' :: _ => quoted .text chars
  | 'r' :: rest => raw .text rest
  | 'b' :: 'r' :: rest => raw .bytes rest
  | 'b' :: '\'' :: rest => ticked .bytes rest
  | 'b' :: rest => quoted .bytes rest
  | 'c' :: 'r' :: rest => raw .terminated rest
  | 'c' :: rest => quoted .terminated rest
  | '\'' :: rest => ticked .text rest
  | _ => none

/-! ### Numbers -/

/-- The digits of a fraction before its exponent: what is left, whether a point and whether an
exponent mark was met. A point that a further point or a name follows makes no fraction. -/
def mantissa (point : Bool) : List Char → Option (List Char × Bool × Bool)
  | [] => some ([], point, false)
  | c :: rest =>
      if c.isDigit ∨ c = '_' then mantissa point rest
      else if c = '.' then
        if point then some (c :: rest, point, false)
        else match rest with
          | [] => mantissa true rest
          | next :: _ => if next = '.' ∨ isIdentStart next then none else mantissa true rest
      else if c = 'e' ∨ c = 'E' then some (rest, point, true)
      else some (c :: rest, point, false)

/-- The exponent after its mark. Without digits it is no exponent and the number ends at
`fallback`. -/
def exponent (fallback : Option (List Char)) (signed valued : Bool) : Extent
  | [] => if valued then some [] else fallback
  | c :: rest =>
      if c = '+' ∨ c = '-' then
        if valued then some (c :: rest)
        else if signed then fallback
        else exponent fallback true valued rest
      else if c.isDigit then exponent fallback signed true rest
      else if c = '_' then exponent fallback signed valued rest
      else if valued then some (c :: rest) else fallback

def fraction (chars : List Char) : Option (List Char) :=
  match chars with
  | c :: rest =>
      if c.isDigit then do
        let (after, point, mark) ← mantissa false rest
        if mark then
          let length := chars.length - after.length - 1
          exponent (if point then some (chars.drop length) else none) false false after
        else if point then some after
        else none
      else none
  | [] => none

/-- The digits of a whole number. A decimal digit out of the base spoils the number, a letter out
of the base ends it. -/
def digits (base : Nat) (empty : Bool) : Extent
  | [] => if empty then none else some []
  | c :: rest =>
      if c = '_' then
        if empty ∧ base = 10 then none else digits base empty rest
      else match hexValue c with
        | none => if empty then none else some (c :: rest)
        | some value =>
            if value < base then digits base false rest
            else if value < 10 ∨ empty then none
            else some (c :: rest)

def whole : Extent
  | '0' :: 'x' :: rest => digits 16 true rest
  | '0' :: 'o' :: rest => digits 8 true rest
  | '0' :: 'b' :: rest => digits 2 true rest
  | chars => digits 10 true chars

/-- A number takes its suffix and may not run on into a word. -/
def numbered (extent : Extent) (chars : List Char) : Option (List Char) := do
  let after := suffix (← extent chars)
  match after with
  | c :: _ => if isIdentContinue c then none else some after
  | [] => some after

def literal (chars : List Char) : Option (List Char) :=
  (text chars).orElse fun _ => (numbered fraction chars).orElse fun _ => numbered whole chars

/-! ### Comments -/

/-- The rest of a comment that may hold comments; `depth` of them are open inside it. -/
def nestedComment : Nat → Extent
  | _, [] => none
  | depth, '/' :: '*' :: rest => nestedComment (depth + 1) rest
  | 0, '*' :: '/' :: rest => some rest
  | depth + 1, '*' :: '/' :: rest => nestedComment depth rest
  | depth, _ :: rest => nestedComment depth rest

def lineEnd (chars : List Char) : List Char := chars.dropWhile (· ≠ '\n')

end TypeConcepts.Lexeme
