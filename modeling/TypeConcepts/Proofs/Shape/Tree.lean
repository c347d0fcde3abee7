import TypeConcepts.Proofs.Probe.Language

/-!
Shapes as trees whose holes carry values, and the numbering of their holes in reading order.
-/

namespace TypeConcepts

namespace Shape

mutual

inductive Tree (α : Type) where
  | hole (value : α)
  | path (rooted : Bool) (steps : List (Step α))
  | tuple (items : List (Tree α))
  | slice (item : Tree α)
  | array (item : Tree α) (length : Tokens)
  | reference (mutable : Bool) (target : Tree α)
  | pointer (mutable : Bool) (target : Tree α)
  | constant (value : Tokens)

structure Step (α : Type) where
  name : String
  args : List (Tree α)

end

variable {α β γ : Type}

mutual

def Tree.map (change : α → β) : Tree α → Tree β
  | .hole value => .hole (change value)
  | .path rooted steps => .path rooted (mapSteps change steps)
  | .tuple items => .tuple (mapTrees change items)
  | .slice item => .slice (item.map change)
  | .array item length => .array (item.map change) length
  | .reference mutable target => .reference mutable (target.map change)
  | .pointer mutable target => .pointer mutable (target.map change)
  | .constant value => .constant value

def mapTrees (change : α → β) : List (Tree α) → List (Tree β)
  | [] => []
  | tree :: rest => tree.map change :: mapTrees change rest

def mapSteps (change : α → β) : List (Step α) → List (Step β)
  | [] => []
  | ⟨name, args⟩ :: rest => ⟨name, mapTrees change args⟩ :: mapSteps change rest

end

mutual

def Tree.holes : Tree α → List α
  | .hole value => [value]
  | .path _ steps => holesOfSteps steps
  | .tuple items => holesOfTrees items
  | .slice item | .array item _ => item.holes
  | .reference _ target | .pointer _ target => target.holes
  | .constant _ => []

def holesOfTrees : List (Tree α) → List α
  | [] => []
  | tree :: rest => tree.holes ++ holesOfTrees rest

def holesOfSteps : List (Step α) → List α
  | [] => []
  | ⟨_, args⟩ :: rest => holesOfTrees args ++ holesOfSteps rest

end

mutual

/-- Every hole with its number; `count` holes came before the tree. -/
def Tree.number (count : Nat) : Tree α → Tree (α × Nat)
  | .hole value => .hole (value, count)
  | .path rooted steps => .path rooted (numberSteps count steps)
  | .tuple items => .tuple (numberTrees count items)
  | .slice item => .slice (item.number count)
  | .array item length => .array (item.number count) length
  | .reference mutable target => .reference mutable (target.number count)
  | .pointer mutable target => .pointer mutable (target.number count)
  | .constant value => .constant value

def numberTrees (count : Nat) : List (Tree α) → List (Tree (α × Nat))
  | [] => []
  | tree :: rest => tree.number count :: numberTrees (count + tree.holes.length) rest

def numberSteps (count : Nat) : List (Step α) → List (Step (α × Nat))
  | [] => []
  | ⟨name, args⟩ :: rest =>
      ⟨name, numberTrees count args⟩ :: numberSteps (count + (holesOfTrees args).length) rest

end

/-! ### Laws of the holes -/

mutual

theorem Tree.map_map (first : α → β) (second : β → γ) : ∀ tree : Tree α,
    (tree.map first).map second = tree.map fun value => second (first value)
  | .hole _ => rfl
  | .path rooted steps => by simp only [Tree.map, mapSteps_map first second steps]
  | .tuple items => by simp only [Tree.map, mapTrees_map first second items]
  | .slice item => by simp only [Tree.map, Tree.map_map first second item]
  | .array item length => by simp only [Tree.map, Tree.map_map first second item]
  | .reference mutable target => by simp only [Tree.map, Tree.map_map first second target]
  | .pointer mutable target => by simp only [Tree.map, Tree.map_map first second target]
  | .constant _ => rfl

theorem mapTrees_map (first : α → β) (second : β → γ) : ∀ trees : List (Tree α),
    mapTrees second (mapTrees first trees) = mapTrees (fun value => second (first value)) trees
  | [] => rfl
  | tree :: rest => by
      simp only [mapTrees, Tree.map_map first second tree, mapTrees_map first second rest]

theorem mapSteps_map (first : α → β) (second : β → γ) : ∀ steps : List (Step α),
    mapSteps second (mapSteps first steps) = mapSteps (fun value => second (first value)) steps
  | [] => rfl
  | ⟨name, args⟩ :: rest => by
      simp only [mapSteps, mapTrees_map first second args, mapSteps_map first second rest]

end

mutual

theorem Tree.map_congr {first second : α → β} : ∀ tree : Tree α,
    (∀ value ∈ tree.holes, first value = second value) → tree.map first = tree.map second
  | .hole value, same => by
      simp only [Tree.map, same value (List.mem_singleton_self value)]
  | .path rooted steps, same => by simp only [Tree.map, mapSteps_congr steps same]
  | .tuple items, same => by simp only [Tree.map, mapTrees_congr items same]
  | .slice item, same => by simp only [Tree.map, Tree.map_congr item same]
  | .array item length, same => by simp only [Tree.map, Tree.map_congr item same]
  | .reference mutable target, same => by simp only [Tree.map, Tree.map_congr target same]
  | .pointer mutable target, same => by simp only [Tree.map, Tree.map_congr target same]
  | .constant _, _ => rfl

theorem mapTrees_congr {first second : α → β} : ∀ trees : List (Tree α),
    (∀ value ∈ holesOfTrees trees, first value = second value) →
      mapTrees first trees = mapTrees second trees
  | [], _ => rfl
  | tree :: rest, same => by
      rw [holesOfTrees, List.forall_mem_append] at same
      simp only [mapTrees, Tree.map_congr tree same.1, mapTrees_congr rest same.2]

theorem mapSteps_congr {first second : α → β} : ∀ steps : List (Step α),
    (∀ value ∈ holesOfSteps steps, first value = second value) →
      mapSteps first steps = mapSteps second steps
  | [], _ => rfl
  | ⟨name, args⟩ :: rest, same => by
      rw [holesOfSteps, List.forall_mem_append] at same
      simp only [mapSteps, mapTrees_congr args same.1, mapSteps_congr rest same.2]

end

mutual

theorem Tree.holes_map (change : α → β) : ∀ tree : Tree α,
    (tree.map change).holes = tree.holes.map change
  | .hole _ => rfl
  | .path _ steps => by simp only [Tree.map, Tree.holes, holesOfSteps_map change steps]
  | .tuple items => by simp only [Tree.map, Tree.holes, holesOfTrees_map change items]
  | .slice item | .array item _ => by simp only [Tree.map, Tree.holes, Tree.holes_map change item]
  | .reference _ target | .pointer _ target => by
      simp only [Tree.map, Tree.holes, Tree.holes_map change target]
  | .constant _ => rfl

theorem holesOfTrees_map (change : α → β) : ∀ trees : List (Tree α),
    holesOfTrees (mapTrees change trees) = (holesOfTrees trees).map change
  | [] => rfl
  | tree :: rest => by
      simp only [mapTrees, holesOfTrees, Tree.holes_map change tree, holesOfTrees_map change rest,
        List.map_append]

theorem holesOfSteps_map (change : α → β) : ∀ steps : List (Step α),
    holesOfSteps (mapSteps change steps) = (holesOfSteps steps).map change
  | [] => rfl
  | ⟨_, args⟩ :: rest => by
      simp only [mapSteps, holesOfSteps, holesOfTrees_map change args,
        holesOfSteps_map change rest, List.map_append]

end

/-! ### Laws of the numbering -/

mutual

theorem Tree.map_fst_number : ∀ (count : Nat) (tree : Tree α),
    (tree.number count).map Prod.fst = tree
  | _, .hole _ => rfl
  | count, .path _ steps => by simp only [Tree.number, Tree.map, mapSteps_fst_number count steps]
  | count, .tuple items => by simp only [Tree.number, Tree.map, mapTrees_fst_number count items]
  | count, .slice item | count, .array item _ => by
      simp only [Tree.number, Tree.map, Tree.map_fst_number count item]
  | count, .reference _ target | count, .pointer _ target => by
      simp only [Tree.number, Tree.map, Tree.map_fst_number count target]
  | _, .constant _ => rfl

theorem mapTrees_fst_number : ∀ (count : Nat) (trees : List (Tree α)),
    mapTrees Prod.fst (numberTrees count trees) = trees
  | _, [] => rfl
  | count, tree :: rest => by
      simp only [numberTrees, mapTrees, Tree.map_fst_number count tree,
        mapTrees_fst_number _ rest]

theorem mapSteps_fst_number : ∀ (count : Nat) (steps : List (Step α)),
    mapSteps Prod.fst (numberSteps count steps) = steps
  | _, [] => rfl
  | count, ⟨_, args⟩ :: rest => by
      simp only [numberSteps, mapSteps, mapTrees_fst_number count args,
        mapSteps_fst_number _ rest]

end

mutual

theorem Tree.holes_number : ∀ (count : Nat) (tree : Tree α),
    (tree.number count).holes = tree.holes.zipIdx count
  | _, .hole _ => rfl
  | count, .path _ steps => by simp only [Tree.number, Tree.holes, holesOfSteps_number count steps]
  | count, .tuple items => by simp only [Tree.number, Tree.holes, holesOfTrees_number count items]
  | count, .slice item | count, .array item _ => by
      simp only [Tree.number, Tree.holes, Tree.holes_number count item]
  | count, .reference _ target | count, .pointer _ target => by
      simp only [Tree.number, Tree.holes, Tree.holes_number count target]
  | _, .constant _ => rfl

theorem holesOfTrees_number : ∀ (count : Nat) (trees : List (Tree α)),
    holesOfTrees (numberTrees count trees) = (holesOfTrees trees).zipIdx count
  | _, [] => rfl
  | count, tree :: rest => by
      simp only [numberTrees, holesOfTrees, Tree.holes_number count tree,
        holesOfTrees_number _ rest, List.zipIdx_append]

theorem holesOfSteps_number : ∀ (count : Nat) (steps : List (Step α)),
    holesOfSteps (numberSteps count steps) = (holesOfSteps steps).zipIdx count
  | _, [] => rfl
  | count, ⟨_, args⟩ :: rest => by
      simp only [numberSteps, holesOfSteps, holesOfTrees_number count args,
        holesOfSteps_number _ rest, List.zipIdx_append]

end

mutual

theorem Tree.number_map (change : α → β) : ∀ (count : Nat) (tree : Tree α),
    (tree.map change).number count = (tree.number count).map fun pair => (change pair.1, pair.2)
  | _, .hole _ => rfl
  | count, .path _ steps => by
      simp only [Tree.number, Tree.map, numberSteps_map change count steps]
  | count, .tuple items => by
      simp only [Tree.number, Tree.map, numberTrees_map change count items]
  | count, .slice item | count, .array item _ => by
      simp only [Tree.number, Tree.map, Tree.number_map change count item]
  | count, .reference _ target | count, .pointer _ target => by
      simp only [Tree.number, Tree.map, Tree.number_map change count target]
  | _, .constant _ => rfl

theorem numberTrees_map (change : α → β) : ∀ (count : Nat) (trees : List (Tree α)),
    numberTrees count (mapTrees change trees) =
      mapTrees (fun pair => (change pair.1, pair.2)) (numberTrees count trees)
  | _, [] => rfl
  | count, tree :: rest => by
      simp only [numberTrees, mapTrees, Tree.number_map change count tree,
        numberTrees_map change _ rest, Tree.holes_map, List.length_map]

theorem numberSteps_map (change : α → β) : ∀ (count : Nat) (steps : List (Step α)),
    numberSteps count (mapSteps change steps) =
      mapSteps (fun pair => (change pair.1, pair.2)) (numberSteps count steps)
  | _, [] => rfl
  | count, ⟨_, args⟩ :: rest => by
      simp only [numberSteps, mapSteps, numberTrees_map change count args,
        numberSteps_map change _ rest, holesOfTrees_map, List.length_map]

end

end Shape

end TypeConcepts
