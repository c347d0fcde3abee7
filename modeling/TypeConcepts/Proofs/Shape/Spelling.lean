import TypeConcepts.Shape.Hole
import TypeConcepts.TypeExpr.Reader
import TypeConcepts.Proofs.Shape.Tree
import TypeConcepts.Proofs.Shape.Meaning
import TypeConcepts.Proofs.TypeExpr.Step

/-!
The token lists that spell a shape.

A tree has many spellings: they differ in the spacing of operators, in lifetimes, in commas at the
end, in the double colon before arguments and in parentheses around a type. What spells a hole is a
parameter, because holes are spelled in one way before they are filled and in another way after.
-/

namespace TypeConcepts

open TokenTree TypeReader

namespace Shape

variable {α : Type}

/-- How holes are spelled. A bounded hole stands only among generic arguments or in a tuple. -/
structure Leaves (α : Type) where
  bare : α → Tokens → Prop
  bounded : α → Tokens → Prop

/-- The kinds of text that a shape is made of. -/
inductive Part (α : Type) where
  | type (tree : Tree α)
  | element (tree : Tree α)
  | argument (tree : Tree α)
  /-- Generic arguments together with the mark that closes them. -/
  | arguments (args : List (Tree α))
  | step (step : Step α)
  | steps (steps : List (Step α))
  | items (items : List (Tree α))
  | others (items : List (Tree α))

inductive Spells (leaves : Leaves α) : Part α → Tokens → Prop
  | hole {value : α} {tokens : Tokens} (leaf : leaves.bare value tokens) :
      Spells leaves (.type (.hole value)) tokens
  | path {steps : List (Step α)} {tokens : Tokens} (inner : Spells leaves (.steps steps) tokens) :
      Spells leaves (.type (.path false steps)) tokens
  | rooted {steps : List (Step α)} {tokens : Tokens} {spacing : Spacing} {pos pos' : Nat}
      (inner : Spells leaves (.steps steps) tokens) :
      Spells leaves (.type (.path true steps))
        (.punct ':' .joint pos :: .punct ':' spacing pos' :: tokens)
  | parens {tree : Tree α} {tokens : Tokens} {pos : Nat}
      (inner : Spells leaves (.type tree) tokens) :
      Spells leaves (.type tree) [.group .paren tokens pos]
  | tuple {items : List (Tree α)} {tokens : Tokens} {pos : Nat}
      (inner : Spells leaves (.items items) tokens) :
      Spells leaves (.type (.tuple items)) [.group .paren tokens pos]
  | slice {item : Tree α} {tokens : Tokens} {pos : Nat}
      (inner : Spells leaves (.type item) tokens) :
      Spells leaves (.type (.slice item)) [.group .bracket tokens pos]
  | array {item : Tree α} {tokens source length : Tokens} {spacing : Spacing} {pos pos' : Nat}
      (inner : Spells leaves (.type item) tokens) (read : constExpr? source = some length)
      (blankless : "_" ∉ namesIn source) :
      Spells leaves (.type (.array item length))
        [.group .bracket (tokens ++ .punct ';' spacing pos' :: source) pos]
  | reference {mutable : Bool} {target : Tree α} {life access tokens : Tokens} {spacing : Spacing}
      {pos : Nat} (lifetime : MaybeLifetime life) (kind : MaybeMut mutable access)
      (inner : Spells leaves (.type target) tokens) :
      Spells leaves (.type (.reference mutable target))
        (.punct '&' spacing pos :: life ++ access ++ tokens)
  | pointer {mutable : Bool} {target : Tree α} {tokens : Tokens} {spacing : Spacing}
      {pos pos' : Nat} (inner : Spells leaves (.type target) tokens) :
      Spells leaves (.type (.pointer mutable target))
        (.punct '*' spacing pos :: .ident (if mutable then "mut" else "const") pos' :: tokens)
  | plain {tree : Tree α} {tokens : Tokens} (inner : Spells leaves (.type tree) tokens) :
      Spells leaves (.element tree) tokens
  | bounded {value : α} {tokens : Tokens} (leaf : leaves.bounded value tokens) :
      Spells leaves (.element (.hole value)) tokens
  | argument {tree : Tree α} {tokens : Tokens} (inner : Spells leaves (.element tree) tokens) :
      Spells leaves (.argument tree) tokens
  | constant {value source : Tokens} (read : constant? source = some (value, []))
      (blankless : "_" ∉ namesIn source) :
      Spells leaves (.argument (.constant value)) source
  | closing {spacing : Spacing} {pos : Nat} :
      Spells leaves (.arguments []) [.punct '>' spacing pos]
  | lastArgument {tree : Tree α} {tokens : Tokens} {spacing : Spacing} {pos : Nat}
      (inner : Spells leaves (.argument tree) tokens) :
      Spells leaves (.arguments [tree]) (tokens ++ [.punct '>' spacing pos])
  | moreArguments {tree : Tree α} {args : List (Tree α)} {tokens more : Tokens}
      {spacing : Spacing} {pos : Nat} (inner : Spells leaves (.argument tree) tokens)
      (rest : Spells leaves (.arguments args) more) :
      Spells leaves (.arguments (tree :: args)) (tokens ++ .punct ',' spacing pos :: more)
  | lastLifetime {name : String} {spacing : Spacing} {pos pos' pos'' : Nat} :
      Spells leaves (.arguments [])
        [.punct '\'' .joint pos, .ident name pos', .punct '>' spacing pos'']
  | moreLifetimes {name : String} {args : List (Tree α)} {more : Tokens} {spacing : Spacing}
      {pos pos' pos'' : Nat} (rest : Spells leaves (.arguments args) more) :
      Spells leaves (.arguments args)
        (.punct '\'' .joint pos :: .ident name pos' :: .punct ',' spacing pos'' :: more)
  | bareStep {name : String} {pos : Nat} (word : isPathWord name = true) :
      Spells leaves (.step ⟨name, []⟩) [.ident name pos]
  | openStep {name : String} {args : List (Tree α)} {colons tokens : Tokens} {spacing : Spacing}
      {pos pos' : Nat} (word : name = "Self" ∨ isName name = true) (turbofish : MaybeColons colons)
      (inner : Spells leaves (.arguments args) tokens) :
      Spells leaves (.step ⟨name, args⟩)
        (.ident name pos :: colons ++ .punct '<' spacing pos' :: tokens)
  | lastStep {step : Step α} {tokens : Tokens} (inner : Spells leaves (.step step) tokens) :
      Spells leaves (.steps [step]) tokens
  | moreSteps {step : Step α} {steps : List (Step α)} {tokens more : Tokens} {spacing : Spacing}
      {pos pos' : Nat} (inner : Spells leaves (.step step) tokens)
      (rest : Spells leaves (.steps steps) more) :
      Spells leaves (.steps (step :: steps))
        (tokens ++ .punct ':' .joint pos :: .punct ':' spacing pos' :: more)
  | noItems : Spells leaves (.items []) []
  | firstItem {tree : Tree α} {items : List (Tree α)} {tokens more : Tokens} {spacing : Spacing}
      {pos : Nat} (inner : Spells leaves (.element tree) tokens)
      (rest : Spells leaves (.others items) more) :
      Spells leaves (.items (tree :: items)) (tokens ++ .punct ',' spacing pos :: more)
  | noOthers : Spells leaves (.others []) []
  | lastItem {tree : Tree α} {tokens : Tokens} (inner : Spells leaves (.element tree) tokens) :
      Spells leaves (.others [tree]) tokens
  | moreItems {tree : Tree α} {items : List (Tree α)} {tokens more : Tokens} {spacing : Spacing}
      {pos : Nat} (inner : Spells leaves (.element tree) tokens)
      (rest : Spells leaves (.others items) more) :
      Spells leaves (.others (tree :: items)) (tokens ++ .punct ',' spacing pos :: more)

/-! ### Holes before and after filling -/

/-- Bounds that may stand behind a hole and its colon. -/
def ValidBounds (bounds : Tokens) : Prop :=
  bounds = [] ∨ (Bound.listOfTokens? bounds).isSome

/-- A hole is an underscore, which a lone colon and bounds may follow. -/
def Leaves.blanks : Leaves (Option Tokens) where
  bare bounds tokens := bounds = none ∧ ∃ pos, tokens = [.ident "_" pos]
  bounded bounds tokens :=
    ∃ inside pos colon, bounds = some inside ∧ ValidBounds inside ∧
      Lone ':' ':' (colon :: inside) inside ∧ tokens = .ident "_" pos :: colon :: inside

/-- A hole that has been filled is the name of a parameter. -/
def Leaves.parameters : Leaves String where
  bare name tokens := (∃ index, name = parameter index) ∧ tokens = [word name]
  bounded _ _ := False

/-- The whole of a token list is a path, or nothing but a hole. -/
inductive SpellsPath (leaves : Leaves α) : Tree α → Tokens → Prop
  | hole {value : α} {tokens : Tokens} (leaf : leaves.bare value tokens) :
      SpellsPath leaves (.hole value) tokens
  | plain {steps : List (Step α)} {tokens : Tokens} (inner : Spells leaves (.steps steps) tokens) :
      SpellsPath leaves (.path false steps) tokens
  | rooted {steps : List (Step α)} {tokens : Tokens} {spacing : Spacing} {pos pos' : Nat}
      (inner : Spells leaves (.steps steps) tokens) :
      SpellsPath leaves (.path true steps)
        (.punct ':' .joint pos :: .punct ':' spacing pos' :: tokens)

theorem SpellsPath.spells {leaves : Leaves α} {tree : Tree α} {tokens : Tokens}
    (path : SpellsPath leaves tree tokens) : Spells leaves (.type tree) tokens := by
  cases path with
  | hole leaf => exact .hole leaf
  | plain inner => exact .path inner
  | rooted inner => exact .rooted inner

theorem toList_parameter (index : Nat) :
    (parameter index).toList = '_' :: '_' :: 'S' :: Nat.toDigits 10 index := by
  rw [parameter, String.toList_append, Nat.toList_repr]
  rfl

theorem parameter_injective {index index' : Nat} (same : parameter index = parameter index') :
    index = index' := by
  have digits := congrArg String.toList same
  rw [toList_parameter, toList_parameter] at digits
  simp only [List.cons.injEq, true_and] at digits
  have value := congrArg (fun chars => Nat.ofDigitChars 10 chars 0) digits
  simpa only [Nat.ofDigitChars_ten_toDigits] using value

theorem isName_parameter (index : Nat) : isName (parameter index) = true := by
  have notBlank : parameter index ≠ "_" := by
    intro same
    have chars := congrArg String.toList same
    rw [toList_parameter] at chars
    exact absurd chars (by simp)
  have keywordStart : ∀ keyword ∈ keywords, keyword.toList.take 2 ≠ ['_', '_'] := by decide
  have notKeyword : parameter index ∉ keywords := by
    intro member
    have start := keywordStart _ member
    rw [toList_parameter] at start
    exact start rfl
  simp [isName, notBlank, notKeyword]

theorem plainName_parameter (index : Nat) : plainName (parameter index) = parameter index := by
  rw [plainName, toList_parameter]
  rfl

/-! ### Names -/

def Part.names : Part α → List String
  | .type tree | .element tree | .argument tree => tree.names
  | .arguments trees | .items trees | .others trees => namesOfTrees trees
  | .step one => namesOfSteps [one]
  | .steps all => namesOfSteps all

theorem namesOfSteps_cons (first : Step α) (rest : List (Step α)) :
    namesOfSteps (first :: rest) = namesOfSteps [first] ++ namesOfSteps rest := by
  cases first
  simp only [namesOfSteps, List.append_nil]

theorem Spells.names_subset {leaves : Leaves α} {part : Part α} {tokens : Tokens}
    (spells : Spells leaves part tokens) : part.names ⊆ namesIn tokens := by
  induction spells with
  | hole leaf | bounded leaf | noItems | noOthers | closing | lastLifetime =>
      exact List.nil_subset _
  | path inner ih | rooted inner ih | plain inner ih | argument inner ih | lastStep inner ih =>
      exact ih
  | parens inner ih | tuple inner ih | slice inner ih | pointer inner ih | moreLifetimes rest ih =>
      simp only [namesIn, names, List.append_nil, List.nil_append]
      intro name member
      simp [ih member]
  | array inner read blankless ih =>
      have inLength := namesIn_subset_of_constExpr? read
      simp only [namesIn, names, namesIn_append, List.append_nil, List.nil_append]
      exact List.append_subset.mpr ⟨List.subset_append_of_subset_left _ ih,
        List.subset_append_of_subset_right _ inLength⟩
  | reference lifetime kind inner ih =>
      rw [namesIn_append]
      exact List.subset_append_of_subset_right _ ih
  | constant read blankless => exact namesIn_subset_of_constant? read
  | lastArgument inner ih =>
      rw [Part.names, namesOfTrees, namesOfTrees, List.append_nil, namesIn_append]
      exact List.subset_append_of_subset_left _ ih
  | lastItem inner ih =>
      rw [Part.names, namesOfTrees, namesOfTrees, List.append_nil]
      exact ih
  | bareStep word => exact List.Subset.refl _
  | openStep word turbofish inner ih =>
      simp only [Part.names, namesOfSteps, namesIn, names, namesIn_append, List.append_nil,
        List.nil_append, List.cons_append]
      exact List.cons_subset_cons _ (List.subset_append_of_subset_right _ ih)
  | moreSteps inner rest ihInner ihRest =>
      rw [Part.names, namesOfSteps_cons, namesIn_append]
      exact List.append_subset.mpr ⟨List.subset_append_of_subset_left _ ihInner,
        List.subset_append_of_subset_right _ ihRest⟩
  | moreArguments inner rest ihInner ihRest | firstItem inner rest ihInner ihRest
  | moreItems inner rest ihInner ihRest =>
      rw [Part.names, namesOfTrees, namesIn_append]
      exact List.append_subset.mpr ⟨List.subset_append_of_subset_left _ ihInner,
        List.subset_append_of_subset_right _ ihRest⟩

end Shape

end TypeConcepts
