import TypeConcepts.Token.Basic

/-!
Type expressions: a type as it is written, before any name in it means anything.

The three kinds of syntax that may draw a complaint about a concept keep the offset at which they
began: a path, a generic argument that is no type, and a list of parenthesised arguments.
-/

namespace TypeConcepts

/-- The lifetimes of a `for` binder and whether a comma follows the last of them. -/
structure Binder where
  lifetimes : List String
  trailing : Bool

mutual

/-- A comma or a plus that follows the last member of a list is kept as `trailing`. -/
inductive TypeExpr where
  | path (path : Path)
  /-- A path seen from another type, perhaps as an implementor of a trait. -/
  | qualified (self : TypeExpr) (trait : Option Path) (rest : List Segment)
  /-- A call of a name with a bang; its group is kept as it is written. -/
  | invocation (path : Path) (body : TokenTree)
  | reference (lifetime : Option String) (mutable : Bool) (target : TypeExpr)
  | pointer (mutable : Bool) (target : TypeExpr)
  | paren (inner : TypeExpr)
  | tuple (items : List TypeExpr) (trailing : Bool)
  | slice (item : TypeExpr)
  | array (item : TypeExpr) (length : Tokens)
  | never
  | infer
  /-- A sum of bounds, written with or without its keyword. -/
  | object (keyword : Bool) (bounds : List Bound) (trailing : Bool)
  | existential (bounds : List Bound) (trailing : Bool)
  | function (signature : Signature)

structure Path where
  pos : Nat
  rooted : Bool
  segments : List Segment

structure Segment where
  name : String
  args : PathArgs

inductive PathArgs where
  | none
  | angle (doubleColon : Bool) (args : List GenericArg) (trailing : Bool)
  | call (pos : Nat) (inputs : List TypeExpr) (trailing : Bool) (output : Option TypeExpr)

inductive GenericArg where
  | lifetime (pos : Nat) (name : String)
  | type (type : TypeExpr)
  | const (pos : Nat) (value : Tokens)
  | typeBinding (pos : Nat) (name : String) (args : PathArgs) (value : TypeExpr)
  | constBinding (pos : Nat) (name : String) (args : PathArgs) (value : Tokens)
  | constraint (pos : Nat) (name : String) (args : PathArgs) (bounds : List Bound)
      (trailing : Bool)

inductive Bound where
  | lifetime (name : String)
  | trait (bound : TraitBound)

/-- A trait, perhaps in parentheses, perhaps relaxed by a question mark. -/
structure TraitBound where
  wrapped : Bool
  relaxed : Bool
  binder : Option Binder
  path : Path

structure Signature where
  binder : Option Binder
  isUnsafe : Bool
  abi : Option (Option String)
  params : List Param
  trailing : Bool
  variadic : Option (Option String × Bool)
  output : Option TypeExpr

structure Param where
  name : Option String
  type : TypeExpr

end

instance : Inhabited TypeExpr := ⟨.infer⟩

def keywords : List String :=
  ["abstract", "as", "async", "await", "become", "box", "break", "const", "continue", "crate",
    "do", "dyn", "else", "enum", "extern", "false", "final", "fn", "for", "if", "impl", "in",
    "let", "loop", "macro", "match", "mod", "move", "mut", "override", "priv", "pub", "ref",
    "return", "Self", "self", "static", "struct", "super", "trait", "true", "try", "type",
    "typeof", "unsafe", "unsized", "use", "virtual", "where", "while", "yield"]

/-- An identifier that can name something; a lone underscore cannot. -/
def isName (word : String) : Bool := word != "_" && !keywords.contains word

end TypeConcepts
