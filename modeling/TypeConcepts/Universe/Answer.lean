import TypeConcepts.Environment.Predicate
import TypeConcepts.Request
import TypeConcepts.Ty.Match
import TypeConcepts.Universe.Catalogue

/-!
Answers about the universe: concepts, traits and shapes asked of types by name. A question outside
the catalogue has no answer.
-/

namespace TypeConcepts.Universe

def standard : Environment := environment true

def listed? (names : List String) (name : String) : Option Ty :=
  if lists names name then typeNamed? name else none

def unary? (type : String) : Option (UnaryConcept → Bool) := do
  let type ← listed? unarySubjects type
  some (UnaryConcept.holds standard type)

def binary? (left right : String) : Option (BinaryConcept → Bool) := do
  let left ← listed? operands left
  let right ← listed? operands right
  some (BinaryConcept.holds standard left right)

def variadic? (type : String) (args : List String) : Option (VariadicConcept → Bool) := do
  let type ← listed? variadicSubjects type
  if listsArgs args then
    let args ← args.mapM typeNamed?
    some (VariadicConcept.holds standard type args)
  else none

def hasTrait? (type : Ty) (trait : String) : Option Bool :=
  if key trait == "Into<u64>" then some (standard.convertibleTo type (.word "u64"))
  else if key trait == "From<u8>" then some (standard.builtFrom type byte)
  else (Trait.ofName? (key trait)).map (·.holds type)

def trait? (type trait : String) : Option Bool := do
  hasTrait? (← listed? traitSubjects type) trait

def meets? (type : Ty) : Bound → Option Bool
  | .lifetime _ => some true
  | .trait ⟨_, relaxed, _, path⟩ =>
      if relaxed then some true else hasTrait? type (TokenTree.render path.tokens)

def isRelaxed : Bound → Bool
  | .trait ⟨_, relaxed, _, _⟩ => relaxed
  | .lifetime _ => false

/-- Whether a type fits a hole: it has a known size, unless a bound lifts that requirement, and
meets every bound. -/
def fits? (hole : Hole) (type : Ty) : Option Bool := do
  let bounds ← match hole.bounds with
    | none | some [] => some []
    | some tokens => Bound.listOfTokens? tokens
  let met ← bounds.mapM (meets? type)
  some ((bounds.any isRelaxed || Trait.sized.holds type) && met.all id)

/-- Whether the subject is the shape with each hole replaced by a type that fits it. -/
def fills? (subject : Ty) (shape : ShapeMatch.Filled) : Option Bool := do
  let pattern ← (scope (shape.holes.map Hole.name)).resolve? (.path shape.path)
  match Ty.matches? [] pattern subject with
  | none => some false
  | some assigned => do
      let fitting ← shape.holes.mapM fun hole => do
        fits? hole (← assigned.lookup hole.name)
      some (fitting.all id)

/-- Whether a match holds, unless its shape is malformed or the catalogue lists no such match. -/
def instance? (request : ShapeMatch) : Except RequestError (Option Bool) := do
  let shape ← request.filled
  let known := lists shapes (TokenTree.render request.shape)
  .ok (do
    let subject ← listed? subjects (TokenTree.render request.subject.tokens)
    if known then fills? subject shape else none)

/-- A leaf of a check: what it asks, as text, and the answer if there is one. -/
structure Leaf where
  text : String
  answer : Option Bool

def predicateText (ref : ConceptRef) (subject : TypeExpr) : String :=
  let operands := subject.tokens ++ ref.args.flatMap fun arg => TokenTree.mark ',' :: arg.tokens
  ref.concept.predicate ++ "!(" ++ TokenTree.render operands ++ ")"

def predicateAnswer (ref : ConceptRef) (subject : TypeExpr) : Option Bool :=
  let subjectName := TokenTree.render subject.tokens
  let argNames := ref.args.map fun arg => TokenTree.render arg.tokens
  match ref.concept, ref.args, argNames with
  | .unary concept, _, _ => (unary? subjectName).map (· concept)
  | .binary concept, _, [other] => (binary? subjectName other).map (· concept)
  | .binary _, _, _ => none
  | .variadic concept, _, _ => (variadic? subjectName argNames).map (· concept)
  | .instanceOf, [shape], _ =>
      match instance? ⟨subject, shape.tokens⟩ with
      | .ok answer => answer
      | .error _ => none
  | .instanceOf, _, _ => none

def traitLeaf (subject trait : Tokens) : Leaf :=
  let subject := TokenTree.render subject
  let trait := TokenTree.render trait
  ⟨subject ++ ": " ++ trait, trait? subject trait⟩

def leavesOf (subject leaf : TypeExpr) : Except Complaint (List Leaf) := do
  match ← ConceptRef.ofType leaf with
  | some ref => .ok [⟨predicateText ref subject, predicateAnswer ref subject⟩]
  | none =>
    match leaf with
    | .object false bounds _ =>
        .ok (bounds.map fun bound => traitLeaf subject.tokens bound.tokens)
    | _ => .ok [traitLeaf subject.tokens leaf.tokens]

structure Verdict where
  value : Bool
  leaves : List (String × Bool)

/-- A formula whose atoms are lists of leaves, all of which must hold. -/
def resolveLeaves (subject : TypeExpr) : Formula TypeExpr → Except Complaint (Formula (List Leaf))
  | .leaf leaf => do .ok (.leaf (← leavesOf subject leaf))
  | .and left right => do .ok (.and (← resolveLeaves subject left) (← resolveLeaves subject right))
  | .or left right => do .ok (.or (← resolveLeaves subject left) (← resolveLeaves subject right))
  | .not operand => do .ok (.not (← resolveLeaves subject operand))

def allHold (leaves : List Leaf) : Bool := leaves.all fun leaf => leaf.answer.getD false

/-- The verdict on resolved checks, or the text of the first leaf without an answer. -/
def verdict (formulas : List (Formula (List Leaf))) : Except String Verdict := do
  let leaves := formulas.flatMap fun formula => formula.leaves.flatten
  let answers ← leaves.mapM fun leaf =>
    match leaf.answer with
    | some answer => .ok (leaf.text, answer)
    | none => .error leaf.text
  .ok ⟨formulas.all (·.eval allHold), answers⟩

def judge (source : String) : Except RequestError (Except String Verdict) := do
  let checks ← Request.checks source
  let formulas ← Request.complain (checks.mapM fun check =>
    resolveLeaves check.subject check.formula)
  .ok (verdict formulas)

end TypeConcepts.Universe
