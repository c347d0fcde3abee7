import TypeConcepts.Concept.Expansion
import TypeConcepts.Shape.Hole

/-!
The code that a shape match expands to: a probe implemented for every type that the shape can
become, with one parameter for each hole.
-/

namespace TypeConcepts

open TokenTree

/-- A subject and the tokens of the shape that it is matched against. -/
structure ShapeMatch where
  subject : TypeExpr
  shape : Tokens

namespace ShapeMatch

def isComma : TokenTree → Bool
  | .punct ',' _ _ => true
  | _ => false

/-- One comma at the end of a shape is dropped. -/
def stripComma (tokens : Tokens) : Tokens :=
  if (tokens.getLast?.map isComma).getD false then tokens.dropLast else tokens

def ofTokens? (tokens : Tokens) : Option ShapeMatch := do
  let (subject, rest) ← TypeExpr.read tokens
  let shape ← eat? [','] rest
  some ⟨subject, stripComma shape⟩

structure Filled where
  path : Path
  holes : List Hole

def filled (request : ShapeMatch) : Except RequestError Filled :=
  let (tokens, holes) := Shape.takeHoles request.shape
  match TypeExpr.ofTokens? tokens with
  | none => .error .malformedShape
  | some (.path path) => .ok ⟨path, holes⟩
  | some _ => .error (.complaint (.shapeIsNoPath ((tokens.head?.map TokenTree.pos).getD 0)))

def holeTokens (hole : Hole) : Tokens :=
  word hole.name :: match hole.bounds with
    | none => []
    | some bounds => mark ':' :: bounds

def Filled.header (shape : Filled) : Tokens :=
  [word "impl"] ++ angled (separated ',' false (shape.holes.map holeTokens))
    ++ [word "__Probe"] ++ angled shape.path.tokens

def expand (request : ShapeMatch) : Except RequestError Tokens :=
  match request.filled with
  | .error error => .error error
  | .ok shape =>
      .ok [probeBlock "__InstanceOfFallback" shape.header request.subject.tokens]

end ShapeMatch

end TypeConcepts
