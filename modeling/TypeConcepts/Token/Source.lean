import TypeConcepts.Text.Blank
import TypeConcepts.Token.Basic
import TypeConcepts.Token.Lexeme

/-!
Token trees of a source text.

A text is first cut into lexemes, each with the byte offset of its beginning, and the lexemes are
then nested by their delimiters. A text whose delimiters do not match, or that holds a character
outside every lexeme, has no trees.
-/

namespace TypeConcepts

open Text

/-- A leaf, or one end of a group. -/
inductive Lexeme where
  | leaf (tree : TokenTree)
  | opening (delimiter : Delimiter) (pos : Nat)
  | closing (delimiter : Delimiter)

namespace Lexeme

def byteLength : List Char → Nat
  | [] => 0
  | char :: rest => char.utf8Size + byteLength rest

def taken (chars rest : List Char) : List Char := chars.take (chars.length - rest.length)

/-- A comment that is only a blank; documentation is none. -/
def comment : Extent
  | '/' :: '/' :: '/' :: '/' :: rest => some (lineEnd rest)
  | '/' :: '/' :: '/' :: _ | '/' :: '/' :: '!' :: _ => none
  | '/' :: '/' :: rest => some (lineEnd rest)
  | '/' :: '*' :: '*' :: '/' :: rest => some rest
  | '/' :: '*' :: '*' :: '*' :: rest => nestedComment 0 ('*' :: '*' :: rest)
  | '/' :: '*' :: '*' :: _ | '/' :: '*' :: '!' :: _ => none
  | '/' :: '*' :: rest => nestedComment 0 rest
  | _ => none

/-- What is left after all blanks and comments. The bound is the length of the text. -/
def skipBlanks : Nat → List Char → List Char
  | 0, chars => chars
  | _, [] => []
  | bound + 1, c :: rest =>
      if isBlank c then skipBlanks bound rest
      else match comment (c :: rest) with
        | some after => skipBlanks bound after
        | none => c :: rest

/-- Documentation: whether it speaks of what encloses it, its words, and what follows. -/
def documentation (chars : List Char) : Option (Bool × List Char × List Char) :=
  match chars with
  | '/' :: '/' :: '!' :: rest => some (true, taken rest (lineEnd rest), lineEnd rest)
  | '/' :: '/' :: '/' :: rest =>
      if rest.head? = some '/' then none
      else some (false, taken rest (lineEnd rest), lineEnd rest)
  | '/' :: '*' :: '!' :: rest => block true rest
  | '/' :: '*' :: '*' :: rest => if rest.head? = some '*' then none else block false rest
  | _ => none
where
  block (inner : Bool) (rest : List Char) : Option (Bool × List Char × List Char) := do
    let after ← nestedComment 0 rest
    let words := taken rest after
    some (inner, words.take (words.length - 2), after)

def quoteEscape : List Char → List Char
  | [] => []
  | '\\' :: rest => '\\' :: '\\' :: quoteEscape rest
  | '"' :: rest => '\\' :: '"' :: quoteEscape rest
  | '\n' :: rest => '\\' :: 'n' :: quoteEscape rest
  | '\r' :: rest => '\\' :: 'r' :: quoteEscape rest
  | '\t' :: rest => '\\' :: 't' :: quoteEscape rest
  | c :: rest => c :: quoteEscape rest

/-- Documentation stands for an attribute that holds its words. -/
def asLexemes (inner : Bool) (words : List Char) (pos : Nat) : List Lexeme :=
  [.leaf (.punct '#' .alone pos)] ++ (if inner then [.leaf (.punct '!' .alone pos)] else []) ++
    [.opening .bracket pos, .leaf (.ident "doc" pos), .leaf (.punct '=' .alone pos),
      .leaf (.literal (String.ofList ('"' :: quoteEscape words ++ ['"'])) pos), .closing .bracket]

def bracketing : Char → Option (Nat → Lexeme)
  | '(' => some (.opening .paren)
  | '[' => some (.opening .bracket)
  | '\x7b' => some (.opening .brace)
  | ')' => some fun _ => .closing .paren
  | ']' => some fun _ => .closing .bracket
  | '\x7d' => some fun _ => .closing .brace
  | _ => none

def leaf? (pos : Nat) (chars : List Char) : Option (Lexeme × List Char) :=
  match literal chars with
  | some rest => some (.leaf (.literal (String.ofList (taken chars rest)) pos), rest)
  | none =>
    match chars with
    | [] => none
    | c :: rest =>
      if startsPunct chars then
        if c = '\'' then
          if opensLifetime rest then some (.leaf (.punct c .joint pos), rest) else none
        else
          some (.leaf (.punct c (if startsPunct rest then .joint else .alone) pos), rest)
      else do
        let after ← ident chars
        some (.leaf (.ident (String.ofList (taken chars after)) pos), after)

/-- All lexemes of a text of `total` bytes, from its tail `chars` on. -/
def cut (total : Nat) : Nat → List Char → Option (List Lexeme)
  | 0, _ => none
  | bound + 1, chars =>
      let here := skipBlanks chars.length chars
      let pos := total - byteLength here
      match documentation here with
      | some (inner, words, rest) => (asLexemes inner words pos ++ ·) <$> cut total bound rest
      | none =>
        match here with
        | [] => some []
        | c :: rest =>
          match bracketing c with
          | some lexeme => (lexeme pos :: ·) <$> cut total bound rest
          | none => do
              let (lexeme, after) ← leaf? pos here
              let others ← cut total bound after
              some (lexeme :: others)

/-- A group still open: its delimiter, its offset, and the trees before it, the last one first. -/
structure Open where
  delimiter : Delimiter
  pos : Nat
  before : List TokenTree

/-- Nests lexemes; `level` holds the trees of the innermost open group, the last one first. -/
def nest (level : List TokenTree) : List Open → List Lexeme → Option (List TokenTree)
  | [], [] => some level.reverse
  | _ :: _, [] => none
  | outer, .leaf tree :: rest => nest (tree :: level) outer rest
  | outer, .opening delimiter pos :: rest => nest [] (⟨delimiter, pos, level⟩ :: outer) rest
  | [], .closing _ :: _ => none
  | group :: outer, .closing delimiter :: rest =>
      if group.delimiter = delimiter then
        nest (.group delimiter level.reverse group.pos :: group.before) outer rest
      else none

end Lexeme

/-- The token trees of a text. A byte order mark at its very start is no part of it. -/
def TokenTree.ofSource? (source : String) : Option (List TokenTree) := do
  let chars := source.toList
  let body := if chars.head? = some '\uFEFF' then chars.tail else chars
  let lexemes ← Lexeme.cut (Lexeme.byteLength chars) (body.length + 1) body
  Lexeme.nest [] [] lexemes

end TypeConcepts
