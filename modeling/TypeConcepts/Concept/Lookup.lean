import TypeConcepts.Concept.Basic
import TypeConcepts.Concept.Complaint
import TypeConcepts.TypeExpr.Basic

/-!
Which concept a type expression refers to.

Only the last segment of a plain path counts. A path whose last name is no concept refers to none,
and its arguments are then of no concern.
-/

namespace TypeConcepts

structure ConceptRef where
  concept : Concept
  args : List TypeExpr

/-- An argument that is a type, or the offset of one that is not. -/
def GenericArg.asType : GenericArg → Except Nat TypeExpr
  | .type found => .ok found
  | .lifetime pos _ | .const pos _ | .typeBinding pos _ _ _ | .constBinding pos _ _ _
  | .constraint pos _ _ _ _ => .error pos

namespace ConceptRef

/-- All arguments if each is a type, else the offset of the first that is not. -/
def typesOf : List GenericArg → Except Nat (List TypeExpr)
  | [] => .ok []
  | arg :: rest =>
      match arg.asType, typesOf rest with
      | .error pos, _ => .error pos
      | .ok _, .error pos => .error pos
      | .ok type, .ok types => .ok (type :: types)

def operands (name : String) : PathArgs → Except Complaint (List TypeExpr)
  | .none => .ok []
  | .angle _ args _ =>
      match typesOf args with
      | .error pos => .error (.typeArgumentsOnly name pos)
      | .ok types => .ok types
  | .call pos .. => .error (.notFunctionLike name pos)

def countComplaint (concept : Concept) (pos : Nat) : Complaint :=
  match concept.arity with
  | .unary => .takesNoArguments concept.name pos
  | .binary | .variadic => .takesOneArgument concept.name pos

def ofSegment (concept : Concept) (pos : Nat) (segment : Segment) :
    Except Complaint ConceptRef :=
  match operands concept.name segment.args with
  | .error complaint => .error complaint
  | .ok args =>
      if concept.arity.accepts args.length then .ok ⟨concept, args⟩
      else .error (countComplaint concept pos)

def ofPath (path : Path) : Except Complaint (Option ConceptRef) :=
  match path.segments.getLast? with
  | none => .ok none
  | some last =>
    match Concept.ofName? last.name with
    | none => .ok none
    | some concept => (ofSegment concept path.pos last).map some

/-- The concept that a type expression refers to, if any. -/
def ofType : TypeExpr → Except Complaint (Option ConceptRef)
  | .path path => ofPath path
  | _ => .ok none

end ConceptRef

end TypeConcepts
