import TypeConcepts.Proofs.Shape.Cursor
import TypeConcepts.Proofs.Shape.Fresh

/-!
Filling loses and invents no token: with every hole put back where its parameter stands, the filled
text is the shape again.
-/

namespace TypeConcepts

open TokenTree

namespace Shape

mutual

/-- The identifiers of a tree in reading order, each as it is spelled. -/
def identifiersOf : TokenTree → List String
  | .ident name _ => [name]
  | .group _ inner _ => identifiersIn inner
  | .literal .. | .punct .. => []

def identifiersIn : Tokens → List String
  | [] => []
  | tree :: rest => identifiersOf tree ++ identifiersIn rest

end

theorem identifiersIn_append (left right : Tokens) :
    identifiersIn (left ++ right) = identifiersIn left ++ identifiersIn right := by
  induction left with
  | nil => rfl
  | cons tree rest ih => rw [List.cons_append, identifiersIn, identifiersIn, ih, List.append_assoc]

mutual

/-- Puts tokens in place of the identifiers that the table knows. -/
def refillTree (table : String → Option Tokens) : TokenTree → Tokens
  | .ident name pos => (table name).getD [.ident name pos]
  | .group delimiter inner pos => [.group delimiter (refill table inner) pos]
  | tree => [tree]

def refill (table : String → Option Tokens) : Tokens → Tokens
  | [] => []
  | tree :: rest => refillTree table tree ++ refill table rest

end

/-- All that a hole does not record of its text: where its underscore stood, and where and how the
colon behind it. -/
structure Trace where
  pos : Nat
  spacing : Spacing
  colon : Nat

def source (hole : Hole × Trace) : Tokens :=
  .ident "_" hole.2.pos :: match hole.1.bounds with
    | none => []
    | some bounds => .punct ':' hole.2.spacing hole.2.colon :: bounds

def sources (holes : List (Hole × Trace)) (name : String) : Option Tokens :=
  (holes.find? fun hole => hole.1.name = name).map source

theorem sources_of_mem {holes : List (Hole × Trace)} {hole : Hole × Trace}
    (distinct : (holes.map fun hole => hole.1.name).Nodup) (member : hole ∈ holes) :
    sources holes hole.1.name = some (source hole) := by
  induction holes with
  | nil => cases member
  | cons first others ih =>
      rw [List.map_cons, List.nodup_cons] at distinct
      rw [sources, List.find?_cons]
      rcases List.mem_cons.mp member with rfl | later
      · simp
      · have different : first.1.name ≠ hole.1.name := by
          intro same
          refine distinct.1 ?_
          rw [same]
          exact List.mem_map_of_mem later
        simp only [different, decide_false]
        exact ih distinct.2 later

theorem sources_eq_none {holes : List (Hole × Trace)} {name : String}
    (absent : name ∉ holes.map fun hole => hole.1.name) : sources holes name = none := by
  rw [sources, Option.map_eq_none_iff, List.find?_eq_none]
  intro hole member same
  exact absent (List.mem_map.mpr ⟨hole, member, of_decide_eq_true same⟩)

namespace Behind

variable {bounds : Option Tokens} {rest next : Tokens} (behind : Behind bounds rest next)
include behind

theorem exists_source (name : String) (pos : Nat) : ∃ trace,
    source (⟨name, bounds⟩, trace) ++ next = .ident "_" pos :: rest := by
  cases behind with
  | unbounded => exact ⟨⟨pos, .alone, 0⟩, rfl⟩
  | @bounded inside next spacing colon stops => exact ⟨⟨pos, spacing, colon⟩, rfl⟩

theorem identifiersIn_subset : identifiersIn next ⊆ identifiersIn rest := by
  cases behind with
  | unbounded => exact List.Subset.refl _
  | @bounded inside next spacing colon stops =>
      rw [identifiersIn, identifiersIn_append]
      exact List.subset_append_of_subset_right _ (List.subset_append_right _ _)

end Behind

namespace Filling

variable {count : Nat} {ticked : Bool} {tokens done : Tokens} {holes : List Hole}
  (filling : Filling count ticked tokens done holes)
include filling

/-- A table that has the text of every hole, and none for the names of the shape, restores it. -/
theorem exists_refill : ∃ traced : List (Hole × Trace), traced.map Prod.fst = holes ∧
    ∀ table : String → Option Tokens,
      (∀ hole ∈ traced, table hole.1.name = some (source hole)) →
      (∀ name ∈ identifiersIn tokens, table name = none) → refill table done = tokens := by
  induction filling with
  | nil => exact ⟨[], rfl, fun _ _ _ => rfl⟩
  | @hole count pos bounds rest next done holes behind later ih =>
      obtain ⟨traced, rfl, restores⟩ := ih
      obtain ⟨trace, text⟩ := behind.exists_source (parameter count) pos
      refine ⟨(⟨parameter count, bounds⟩, trace) :: traced, rfl, ?_⟩
      intro table known unknown
      have here : table (parameter count) = _ := known _ List.mem_cons_self
      have others := restores table (fun hole member => known hole (List.mem_cons_of_mem _ member))
        fun name member => unknown name (List.mem_cons_of_mem _ (behind.identifiersIn_subset member))
      rw [refill, others, ← text, word, refillTree, here, Option.getD_some]
  | @ident count pos ticked name rest done holes kept later ih =>
      obtain ⟨traced, rfl, restores⟩ := ih
      refine ⟨traced, rfl, ?_⟩
      intro table known unknown
      have here : table name = none := unknown name List.mem_cons_self
      rw [refill, refillTree, here,
        restores table known fun name member => unknown name (List.mem_cons_of_mem _ member)]
      rfl
  | literal later ih =>
      obtain ⟨traced, rfl, restores⟩ := ih
      refine ⟨traced, rfl, ?_⟩
      intro table known unknown
      rw [refill, restores table known unknown]
      rfl
  | punct later ih =>
      obtain ⟨traced, rfl, restores⟩ := ih
      refine ⟨traced, rfl, ?_⟩
      intro table known unknown
      rw [refill, restores table known unknown]
      rfl
  | group inside later ihInside ih =>
      obtain ⟨within, rfl, restoresWithin⟩ := ihInside
      obtain ⟨traced, rfl, restores⟩ := ih
      refine ⟨within ++ traced, List.map_append, ?_⟩
      intro table known unknown
      have inner := restoresWithin table
        (fun hole member => known hole (List.mem_append_left _ member))
        fun name member => unknown name (List.mem_append_left _ member)
      have others := restores table
        (fun hole member => known hole (List.mem_append_right _ member))
        fun name member => unknown name (List.mem_append_right _ member)
      rw [refill, refillTree, inner, others]
      rfl

/-- The identifiers that are told apart from those of the shape are the parameters, as the holes
come. -/
theorem filter_identifiersIn {chosen : String → Bool}
    (parameters : ∀ hole ∈ holes, chosen hole.name = true)
    (apart : ∀ name ∈ identifiersIn tokens, chosen name = false) :
    (identifiersIn done).filter chosen = holes.map Hole.name := by
  induction filling with
  | nil => rfl
  | @hole count pos bounds rest next done holes behind later ih =>
      have here : chosen (parameter count) = true := parameters _ List.mem_cons_self
      have others := ih (fun hole member => parameters hole (List.mem_cons_of_mem _ member))
        fun name member => apart name (List.mem_cons_of_mem _ (behind.identifiersIn_subset member))
      rw [identifiersIn, List.filter_append, others]
      change List.filter chosen [parameter count] ++ _ = _
      rw [List.filter_cons_of_pos here]
      rfl
  | @ident count pos ticked name rest done holes kept later ih =>
      have here : ¬chosen name = true := by
        rw [apart name List.mem_cons_self]
        exact Bool.false_ne_true
      rw [identifiersIn, identifiersOf, List.singleton_append, List.filter_cons_of_neg here]
      exact ih parameters fun name member => apart name (List.mem_cons_of_mem _ member)
  | literal later ih => exact ih parameters apart
  | punct later ih => exact ih parameters apart
  | group inside later ihInside ih =>
      rw [identifiersIn, identifiersOf, List.filter_append, List.map_append,
        ihInside (fun hole member => parameters hole (List.mem_append_left _ member))
          fun name member => apart name (List.mem_append_left _ member),
        ih (fun hole member => parameters hole (List.mem_append_right _ member))
          fun name member => apart name (List.mem_append_right _ member)]

theorem blanksIn_done : blanksIn ticked done = 0 := by
  induction filling with
  | nil => rfl
  | @hole count pos bounds rest next done holes behind later ih =>
      have named : parameter count ≠ "_" := ShapeMatch.parameter_ne count (by decide)
      rw [blanksIn, isTick_word, ih, word, blanksOf, if_neg fun blank => named blank.1]
  | @ident count pos ticked name rest done holes kept later ih =>
      have noBlank : ¬(name = "_" ∧ ticked = false) := by
        rintro ⟨blank, unticked⟩
        rw [kept blank] at unticked
        cases unticked
      rw [blanksIn, blanksOf, if_neg noBlank, Nat.zero_add]
      exact ih
  | literal later ih =>
      rw [blanksIn, blanksOf, Nat.zero_add]
      exact ih
  | punct later ih =>
      rw [blanksIn, blanksOf, Nat.zero_add]
      exact ih
  | group inside later ihInside ih =>
      rw [blanksIn, blanksOf, ihInside, Nat.zero_add]
      exact ih

end Filling

/-! ### The inverse -/

/-- The filled text and the holes account for all tokens of the shape. -/
structure Accounts (tokens done : Tokens) (holes : List Hole) : Prop where
  restored : ∃ traced : List (Hole × Trace), traced.map Prod.fst = holes ∧
    refill (sources traced) done = tokens
  numbered : holes.map Hole.name = (List.range holes.length).map parameter
  inOrder : ((identifiersIn done).filter fun name => name ∈ holes.map Hole.name) =
    holes.map Hole.name
  once : ∀ index, (identifiersIn done).count (parameter index) =
    if index < holes.length then 1 else 0
  ticked : blanksIn false done = 0

theorem Filling.accounts {tokens done : Tokens} {holes : List Hole}
    (filling : Filling 0 false tokens done holes)
    (unreserved : ∀ index, parameter index ∉ identifiersIn tokens) :
    Accounts tokens done holes := by
  have numbered : holes.map Hole.name = (List.range holes.length).map parameter := by
    rw [List.range_eq_range']
    exact filling.names_eq
  have reserved : ∀ name ∈ holes.map Hole.name, ∃ index, parameter index = name := by
    intro name member
    rw [numbered] at member
    obtain ⟨index, _, named⟩ := List.mem_map.mp member
    exact ⟨index, named⟩
  have apart : ∀ name ∈ identifiersIn tokens, name ∉ holes.map Hole.name := by
    intro name mentioned member
    obtain ⟨index, rfl⟩ := reserved name member
    exact unreserved index mentioned
  refine ⟨?_, numbered, ?_, ?_, filling.blanksIn_done⟩
  · obtain ⟨traced, rfl, restores⟩ := filling.exists_refill
    have distinct := filling.nodup_names
    rw [List.map_map] at distinct apart
    exact ⟨traced, rfl, restores _ (fun hole => sources_of_mem distinct)
      fun name mentioned => sources_eq_none (apart name mentioned)⟩
  · exact filling.filter_identifiersIn
      (fun hole member => decide_eq_true (List.mem_map_of_mem member))
      fun name mentioned => decide_eq_false (apart name mentioned)
  · intro index
    have chosen : (identifiersIn done).filter
        (fun name => name ∈ holes.map Hole.name ∨ name = parameter index) =
        holes.map Hole.name := by
      refine filling.filter_identifiersIn
        (fun hole member => decide_eq_true (.inl (List.mem_map_of_mem member))) ?_
      intro name mentioned
      refine decide_eq_false ?_
      rintro (member | rfl)
      · exact apart name mentioned member
      · exact unreserved index mentioned
    rw [← List.count_filter (p := fun name => name ∈ holes.map Hole.name ∨ name = parameter index)
      (decide_eq_true (.inr rfl)), chosen, filling.nodup_names.count, numbered]
    have injective : Function.Injective parameter := fun _ _ => parameter_injective
    simp [injective.eq_iff]

/-- Every token list without a name of the form `__S0`, `__S1` and so on is restored from its filled
text and its holes. The parameters stand in the filled text once each, as the holes come, and the
only underscores left are lifetimes. The loop that does so by positions makes no access and no
slice out of range. -/
theorem takeHoles_accounts (tokens : Tokens)
    (unreserved : ∀ index, parameter index ∉ identifiersIn tokens) :
    Accounts tokens (takeHoles tokens).1 (takeHoles tokens).2 ∧
      ∀ bound, sizes tokens < bound → fillAt bound tokens 0 [] [] = some (takeHoles tokens) :=
  ⟨(filling_takeHoles tokens).accounts unreserved, fun _ => fillAt_eq_takeHoles⟩

/-- The shape `Cow<'_, ([_: Copy], _)>`. -/
def holesInGroups : Tokens :=
  [word "Cow", mark '<'] ++ lifetime "_" ++
    [mark ',', delimited .paren [delimited .bracket [word "_", mark ':', word "Copy"], mark ',',
      word "_"], mark '>']

theorem takeHoles_accounts_holesInGroups : ∃ done holes,
    takeHoles holesInGroups = (done, holes) ∧ holes.length = 2 ∧
      Accounts holesInGroups done holes ∧
      fillAt 20 holesInGroups 0 [] [] = some (done, holes) := by
  have plain : ∀ name ∈ identifiersIn holesInGroups,
      name.toList.take 3 ≠ ['_', '_', 'S'] := by decide
  obtain ⟨accounts, looped⟩ := takeHoles_accounts holesInGroups fun index mentioned =>
    ShapeMatch.parameter_ne index (plain _ mentioned) rfl
  exact ⟨_, _, rfl, rfl, accounts, looped 20 (by decide)⟩

end Shape

end TypeConcepts
