import TypeConcepts.Proofs.Probe.Selection
import TypeConcepts.Proofs.Shape.Tree

/-!
What a shape means once there is a type in every hole, and which types are instances of a shape.
-/

namespace TypeConcepts

open TokenTree Shape

variable {Meaning α β : Type}

namespace Language

mutual

def tree (language : Language Meaning) (scope : String → Meaning) : Shape.Tree Meaning → Meaning
  | .hole type => type
  | .path true steps => language.rooted (language.steps scope steps)
  | .path false [] => language.rooted []
  | .path false (⟨name, args⟩ :: rest) =>
      language.path (scope (plainName name)) (language.trees scope args) (language.steps scope rest)
  | .tuple items => language.tuple (language.trees scope items)
  | .slice item => language.slice (language.tree scope item)
  | .array item length => language.array (language.tree scope item) (language.verbatim scope length)
  | .reference mutable target => language.reference mutable (language.tree scope target)
  | .pointer mutable target => language.pointer mutable (language.tree scope target)
  | .constant value => language.verbatim scope value

def trees (language : Language Meaning) (scope : String → Meaning) :
    List (Shape.Tree Meaning) → List Meaning
  | [] => []
  | item :: rest => language.tree scope item :: language.trees scope rest

def steps (language : Language Meaning) (scope : String → Meaning) :
    List (Step Meaning) → List (String × List Meaning)
  | [] => []
  | ⟨name, args⟩ :: rest =>
      (plainName name, language.trees scope args) :: language.steps scope rest

end

/-- The type is the shape with a type in the place of every hole. The types are chosen
independently, each with regard to the bounds at its own hole. -/
def IsInstance (language : Language Meaning) (scope : String → Meaning)
    (shape : Shape.Tree (Option Tokens)) (type : Meaning) : Prop :=
  ∃ choice : Shape.Tree (Option Tokens × Meaning),
    choice.map Prod.fst = shape ∧
      (∀ hole ∈ choice.holes, language.Admits scope hole.1 hole.2) ∧
      language.tree scope (choice.map Prod.snd) = type

end Language

namespace Shape

mutual

def Tree.names : Tree α → List String
  | .hole _ => []
  | .path _ steps => namesOfSteps steps
  | .tuple items => namesOfTrees items
  | .slice item => item.names
  | .array item length => item.names ++ namesIn length
  | .reference _ target | .pointer _ target => target.names
  | .constant value => namesIn value

def namesOfTrees : List (Tree α) → List String
  | [] => []
  | tree :: rest => tree.names ++ namesOfTrees rest

def namesOfSteps : List (Step α) → List String
  | [] => []
  | ⟨name, args⟩ :: rest => plainName name :: namesOfTrees args ++ namesOfSteps rest

end

mutual

theorem Tree.names_map (change : α → β) : ∀ tree : Tree α, (tree.map change).names = tree.names
  | .hole _ => rfl
  | .path _ steps => by simp only [Tree.map, Tree.names, namesOfSteps_map change steps]
  | .tuple items => by simp only [Tree.map, Tree.names, namesOfTrees_map change items]
  | .slice item | .array item _ => by simp only [Tree.map, Tree.names, Tree.names_map change item]
  | .reference _ target | .pointer _ target => by
      simp only [Tree.map, Tree.names, Tree.names_map change target]
  | .constant _ => rfl

theorem namesOfTrees_map (change : α → β) : ∀ trees : List (Tree α),
    namesOfTrees (mapTrees change trees) = namesOfTrees trees
  | [] => rfl
  | tree :: rest => by
      simp only [mapTrees, namesOfTrees, Tree.names_map change tree, namesOfTrees_map change rest]

theorem namesOfSteps_map (change : α → β) : ∀ steps : List (Step α),
    namesOfSteps (mapSteps change steps) = namesOfSteps steps
  | [] => rfl
  | ⟨_, args⟩ :: rest => by
      simp only [mapSteps, namesOfSteps, namesOfTrees_map change args, namesOfSteps_map change rest]

end

end Shape

namespace Language

variable {language : Language Meaning} {scope scope' : String → Meaning}

mutual

theorem tree_agree : ∀ tree : Shape.Tree Meaning, (∀ name ∈ tree.names, scope name = scope' name) →
    language.tree scope tree = language.tree scope' tree
  | .hole _, _ => rfl
  | .path true steps, agree => by
      simp only [Language.tree]
      rw [steps_agree steps agree]
  | .path false [], _ => rfl
  | .path false (⟨name, args⟩ :: rest), agree => by
      rw [Shape.Tree.names, namesOfSteps, List.forall_mem_append, List.forall_mem_cons] at agree
      simp only [Language.tree]
      rw [agree.1.1, trees_agree args agree.1.2, steps_agree rest agree.2]
  | .tuple items, agree => by
      simp only [Language.tree]
      rw [trees_agree items agree]
  | .slice item, agree => by
      simp only [Language.tree]
      rw [tree_agree item agree]
  | .array item length, agree => by
      rw [Shape.Tree.names, List.forall_mem_append] at agree
      simp only [Language.tree]
      rw [tree_agree item agree.1, language.verbatim_agree agree.2]
  | .reference mutable target, agree
  | .pointer mutable target, agree => by
      simp only [Language.tree]
      rw [tree_agree target agree]
  | .constant value, agree => language.verbatim_agree agree

theorem trees_agree : ∀ trees : List (Shape.Tree Meaning),
    (∀ name ∈ namesOfTrees trees, scope name = scope' name) →
      language.trees scope trees = language.trees scope' trees
  | [], _ => rfl
  | tree :: rest, agree => by
      rw [namesOfTrees, List.forall_mem_append] at agree
      simp only [Language.trees]
      rw [tree_agree tree agree.1, trees_agree rest agree.2]

theorem steps_agree : ∀ steps : List (Step Meaning),
    (∀ name ∈ namesOfSteps steps, scope name = scope' name) →
      language.steps scope steps = language.steps scope' steps
  | [], _ => rfl
  | ⟨name, args⟩ :: rest, agree => by
      rw [namesOfSteps, List.forall_mem_append, List.forall_mem_cons] at agree
      simp only [Language.steps]
      rw [trees_agree args agree.1.2, steps_agree rest agree.2]

end

end Language

namespace Shape

/-! ### Expressions that mean what a shape means -/

def Denotes (expression : TypeExpr) (tree : Tree String) : Prop :=
  ∀ (Meaning : Type) (language : Language Meaning) (scope : String → Meaning),
    language.type scope expression = language.tree scope (tree.map scope)

def DenoteTypes (expressions : List TypeExpr) (trees : List (Tree String)) : Prop :=
  ∀ (Meaning : Type) (language : Language Meaning) (scope : String → Meaning),
    language.types scope expressions = language.trees scope (mapTrees scope trees)

def DenoteArguments (args : List GenericArg) (trees : List (Tree String)) : Prop :=
  ∀ (Meaning : Type) (language : Language Meaning) (scope : String → Meaning),
    language.genericArgs scope args = language.trees scope (mapTrees scope trees)

def DenoteSteps (segments : List Segment) (steps : List (Step String)) : Prop :=
  ∀ (Meaning : Type) (language : Language Meaning) (scope : String → Meaning),
    language.segmentList scope segments = language.steps scope (mapSteps scope steps)

theorem denotes_name (pos : Nat) {name : String} (plain : plainName name = name) :
    Denotes (.path ⟨pos, false, [⟨name, .none⟩]⟩) (.hole name) := by
  intro Meaning language scope
  simp only [Language.type, Language.pathType, Language.pathArgs, Language.segmentList, Tree.map,
    Language.tree, plain]
  exact language.path_bare (scope name)

theorem DenoteTypes.cons {first : TypeExpr} {others : List TypeExpr} {tree : Tree String}
    {trees : List (Tree String)} (head : Denotes first tree) (tail : DenoteTypes others trees) :
    DenoteTypes (first :: others) (tree :: trees) := by
  intro Meaning language scope
  simp only [Language.types, mapTrees, Language.trees, head Meaning language scope,
    tail Meaning language scope]

theorem DenoteArguments.cons {first : GenericArg} {others : List GenericArg} {tree : Tree String}
    {trees : List (Tree String)} (head : DenoteArguments [first] [tree])
    (tail : DenoteArguments others trees) : DenoteArguments (first :: others) (tree :: trees) := by
  intro Meaning language scope
  have headMeaning := head Meaning language scope
  simp only [Language.genericArgs, mapTrees, Language.trees, List.append_nil] at headMeaning ⊢
  rw [headMeaning, tail Meaning language scope]
  rfl

theorem DenoteSteps.cons {first : Segment} {others : List Segment} {step : Step String}
    {steps : List (Step String)} (head : DenoteSteps [first] [step])
    (tail : DenoteSteps others steps) : DenoteSteps (first :: others) (step :: steps) := by
  intro Meaning language scope
  have headMeaning := head Meaning language scope
  cases first
  cases step
  simp only [Language.segmentList, mapSteps, Language.steps] at headMeaning ⊢
  rw [List.cons_eq_cons.mp headMeaning |>.1, tail Meaning language scope]

theorem Denotes.paren {expression : TypeExpr} {tree : Tree String}
    (denotes : Denotes expression tree) : Denotes (.paren expression) tree := by
  intro Meaning language scope
  simp only [Language.type]
  exact denotes Meaning language scope

theorem Denotes.slice {expression : TypeExpr} {tree : Tree String}
    (denotes : Denotes expression tree) : Denotes (.slice expression) (.slice tree) := by
  intro Meaning language scope
  simp only [Language.type, Tree.map, Language.tree, denotes Meaning language scope]

theorem Denotes.array {expression : TypeExpr} {tree : Tree String} (length : Tokens)
    (denotes : Denotes expression tree) :
    Denotes (.array expression length) (.array tree length) := by
  intro Meaning language scope
  simp only [Language.type, Tree.map, Language.tree, denotes Meaning language scope]

theorem Denotes.reference {expression : TypeExpr} {tree : Tree String} (life : Option String)
    (mutable : Bool) (denotes : Denotes expression tree) :
    Denotes (.reference life mutable expression) (.reference mutable tree) := by
  intro Meaning language scope
  simp only [Language.type, Tree.map, Language.tree, denotes Meaning language scope]

theorem Denotes.pointer {expression : TypeExpr} {tree : Tree String} (mutable : Bool)
    (denotes : Denotes expression tree) :
    Denotes (.pointer mutable expression) (.pointer mutable tree) := by
  intro Meaning language scope
  simp only [Language.type, Tree.map, Language.tree, denotes Meaning language scope]

theorem Denotes.argument {expression : TypeExpr} {tree : Tree String}
    (denotes : Denotes expression tree) : DenoteArguments [.type expression] [tree] := by
  intro Meaning language scope
  simp only [Language.genericArgs, Language.genericArg, mapTrees, Language.trees,
    denotes Meaning language scope, List.append_nil]

theorem denoteArguments_constant (pos : Nat) (value : Tokens) :
    DenoteArguments [.const pos value] [.constant value] := by
  intro Meaning language scope
  simp only [Language.genericArgs, Language.genericArg, mapTrees, Language.trees, Tree.map,
    Language.tree, List.append_nil]

theorem DenoteArguments.lifetime {others : List GenericArg} {trees : List (Tree String)} (pos : Nat)
    (name : String) (denote : DenoteArguments others trees) :
    DenoteArguments (.lifetime pos name :: others) trees := by
  intro Meaning language scope
  simp only [Language.genericArgs, Language.genericArg, List.nil_append]
  exact denote Meaning language scope

theorem DenoteArguments.step {args : List GenericArg} {trees : List (Tree String)} (name : String)
    (doubleColon trailing : Bool) (denote : DenoteArguments args trees) :
    DenoteSteps [⟨name, .angle doubleColon args trailing⟩] [⟨name, trees⟩] := by
  intro Meaning language scope
  simp only [Language.segmentList, Language.pathArgs, mapSteps, Language.steps,
    denote Meaning language scope]

theorem DenoteTypes.tuple {expressions : List TypeExpr} {trees : List (Tree String)}
    (trailing : Bool) (denote : DenoteTypes expressions trees) :
    Denotes (.tuple expressions trailing) (.tuple trees) := by
  intro Meaning language scope
  simp only [Language.type, Tree.map, Language.tree]
  rw [denote Meaning language scope]

theorem DenoteSteps.path {segments : List Segment} {steps : List (Step String)} (rooted : Bool)
    (pos : Nat) (denote : DenoteSteps segments steps) :
    Denotes (.path ⟨pos, rooted, segments⟩) (.path rooted steps) := by
  intro Meaning language scope
  have meaning := denote Meaning language scope
  cases rooted with
  | true => simp only [Language.type, Language.pathType, Tree.map, Language.tree, meaning]
  | false =>
      rcases segments with _ | ⟨⟨name, args⟩, others⟩
      · rcases steps with _ | ⟨⟨name', args'⟩, rest⟩
        · rfl
        · simp only [Language.segmentList, mapSteps, Language.steps] at meaning
          cases meaning
      · rcases steps with _ | ⟨⟨name', args'⟩, rest⟩
        · simp only [Language.segmentList, mapSteps, Language.steps] at meaning
          cases meaning
        · simp only [Language.segmentList, mapSteps, Language.steps, List.cons.injEq,
            Prod.mk.injEq] at meaning
          obtain ⟨⟨sameName, sameArgs⟩, sameRest⟩ := meaning
          simp only [Language.type, Language.pathType, Tree.map, mapSteps, Language.tree,
            sameName, sameArgs, sameRest]

end Shape

end TypeConcepts
