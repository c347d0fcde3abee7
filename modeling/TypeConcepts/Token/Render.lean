import TypeConcepts.Token.Basic

/-!
The text of a token list: one space between trees, and none after joint punctuation.
-/

namespace TypeConcepts

/-- A brace keeps a space on the inside of its marks; an empty pair keeps only one. -/
def Delimiter.opening : Delimiter → String
  | .paren => "("
  | .bracket => "["
  | .brace => "\x7b "

def Delimiter.closing (empty : Bool) : Delimiter → String
  | .paren => ")"
  | .bracket => "]"
  | .brace => if empty then "\x7d" else " \x7d"

namespace TokenTree

def isJoint : TokenTree → Bool
  | .punct _ .joint _ => true
  | _ => false

mutual
def text : TokenTree → String
  | .ident name _ => name
  | .literal text _ => text
  | .punct char _ _ => char.toString
  | .group delimiter inner _ =>
      delimiter.opening ++ render inner ++ delimiter.closing inner.isEmpty

def render : List TokenTree → String
  | [] => ""
  | [tree] => tree.text
  | tree :: rest => tree.text ++ (if tree.isJoint then "" else " ") ++ render rest
end

end TokenTree

end TypeConcepts
