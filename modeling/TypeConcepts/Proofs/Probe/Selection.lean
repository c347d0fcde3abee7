import TypeConcepts.Shape.Expansion
import TypeConcepts.Proofs.Probe.Language

/-!
When the constant of a probe's own implementation is selected.

A name in the block of a probe means what it means around the block, unless the block declares it;
the parameters of the implementation are declared in the implementation only. The implementation
applies if some choice of types for its parameters turns the implemented type into the subject.
-/

namespace TypeConcepts

open TokenTree

def TypeExpr.bare (name : String) : TypeExpr := .path ⟨0, false, [⟨name, .none⟩]⟩

/-- The bounds lift the requirement of a known size. -/
inductive Relaxes : Tokens → Prop
  | here {spacing : Spacing} {pos pos' : Nat} {rest : Tokens} :
      Relaxes (.punct '?' spacing pos :: .ident "Sized" pos' :: rest)
  | wrapped {inner rest : Tokens} {pos : Nat} (inside : Relaxes inner) :
      Relaxes (.group .paren inner pos :: rest)
  | later {tree : TokenTree} {rest : Tokens} (after : Relaxes rest) : Relaxes (tree :: rest)

/-- The type may stand for a parameter with the given bounds. -/
def Language.Admits {Meaning : Type} (language : Language Meaning) (scope : String → Meaning)
    (bounds : Option Tokens) (type : Meaning) : Prop :=
  match bounds with
  | none => language.sized type
  | some bounds => (Relaxes bounds ∨ language.sized type) ∧ language.meets scope bounds type

structure Probe where
  fallback : String
  parameters : List Hole
  /-- The type that the probe is implemented for. -/
  shape : TypeExpr
  subject : TypeExpr

namespace Probe

variable {Meaning : Type} (probe : Probe)

def code : TokenTree :=
  probeBlock probe.fallback
    ([word "impl"] ++ angled (separated ',' false (probe.parameters.map ShapeMatch.holeTokens))
      ++ [word "__Probe"] ++ angled probe.shape.tokens)
    probe.subject.tokens

def declared : List String := [probe.fallback, "__Probe"]

/-- What names mean in the block, where its own declarations have the meanings `own`. -/
def inBlock (own outer : String → Meaning) (name : String) : Meaning :=
  if name ∈ probe.declared then own name else outer name

/-- What names mean in the implementation, where its parameters stand for `types`. -/
def inImplementation (types own outer : String → Meaning) (name : String) : Meaning :=
  if name ∈ probe.parameters.map Hole.name then types name else probe.inBlock own outer name

/-- The implementation applies to the subject. -/
def Selects (language : Language Meaning) (own outer : String → Meaning) : Prop :=
  ∃ types : String → Meaning,
    language.type (probe.inImplementation types own outer) probe.shape =
        language.type (probe.inBlock own outer) probe.subject ∧
      ∀ parameter ∈ probe.parameters,
        language.Admits (probe.inImplementation types own outer) parameter.bounds
          (types parameter.name)

variable {probe}

theorem inBlock_of_not_mem {own outer : String → Meaning} {name : String}
    (absent : name ∉ probe.declared) : probe.inBlock own outer name = outer name :=
  if_neg absent

theorem inImplementation_of_not_mem {types own outer : String → Meaning} {name : String}
    (absent : name ∉ probe.parameters.map Hole.name) :
    probe.inImplementation types own outer name = probe.inBlock own outer name :=
  if_neg absent

theorem inImplementation_of_mem {types own outer : String → Meaning} {name : String}
    (member : name ∈ probe.parameters.map Hole.name) :
    probe.inImplementation types own outer name = types name :=
  if_pos member

theorem inBlock_eq_outer_iff {name : String} :
    (∀ (Meaning : Type) (own outer : String → Meaning), probe.inBlock own outer name = outer name) ↔
      name ∉ probe.declared := by
  constructor
  · intro same member
    -- Two meanings are enough to tell the block's own names from all others.
    have clash := same Bool (fun _ => true) fun _ => false
    rw [inBlock, if_pos member] at clash
    cases clash
  · intro absent Meaning own outer
    exact inBlock_of_not_mem absent

/-- A name keeps its meaning in the implementation exactly if neither the implementation nor the
block declares it. -/
theorem inImplementation_eq_outer_iff {name : String} :
    (∀ (Meaning : Type) (types own outer : String → Meaning),
      probe.inImplementation types own outer name = outer name) ↔
      name ∉ probe.parameters.map Hole.name ∧ name ∉ probe.declared := by
  constructor
  · intro same
    have parameter : name ∉ probe.parameters.map Hole.name := by
      intro member
      have clash := same Bool (fun _ => true) (fun _ => false) fun _ => false
      rw [inImplementation_of_mem member] at clash
      cases clash
    refine ⟨parameter, inBlock_eq_outer_iff.mp ?_⟩
    intro Meaning own outer
    have implementation : probe.inImplementation outer own outer name =
        probe.inBlock own outer name := inImplementation_of_not_mem parameter
    rw [← implementation]
    exact same Meaning outer own outer
  · rintro ⟨parameter, absent⟩ Meaning types own outer
    rw [inImplementation_of_not_mem parameter, inBlock_of_not_mem absent]

end Probe

end TypeConcepts
