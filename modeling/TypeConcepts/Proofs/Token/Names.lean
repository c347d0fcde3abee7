import TypeConcepts.Proofs.TypeExpr.Constant
import TypeConcepts.Proofs.TypeExpr.Layout

/-!
The names in a token list, at any depth: those that the tokens of a type expression take over from
its parts, and those that a constant takes over from its source.
-/

namespace TypeConcepts

/-- The name that an identifier stands for. Its raw form is no other name. -/
def plainName (identifier : String) : String :=
  match identifier.toList with
  | 'r' :: '#' :: rest => String.ofList rest
  | _ => identifier

namespace TokenTree

mutual

def names : TokenTree → List String
  | .ident identifier _ => [plainName identifier]
  | .group _ inner _ => namesIn inner
  | .literal .. | .punct .. => []

def namesIn : Tokens → List String
  | [] => []
  | tree :: rest => tree.names ++ namesIn rest

end

@[simp]
theorem namesIn_append (left right : Tokens) :
    namesIn (left ++ right) = namesIn left ++ namesIn right := by
  induction left with
  | nil => rfl
  | cons tree rest ih => simp only [List.cons_append, namesIn, ih, List.append_assoc]

@[simp]
theorem names_delimited (delimiter : Delimiter) (inner : Tokens) :
    (delimited delimiter inner).names = namesIn inner := by
  rw [delimited, names]

@[simp]
theorem names_mark (char : Char) : (mark char).names = [] := by
  rw [mark, names]

@[simp]
theorem names_word (identifier : String) : (word identifier).names = [plainName identifier] := by
  rw [word, names]

theorem mem_namesIn {name : String} {tokens : Tokens} :
    name ∈ namesIn tokens ↔ ∃ tree ∈ tokens, name ∈ tree.names := by
  induction tokens with
  | nil => simp [namesIn]
  | cons tree rest ih => simp [namesIn, ih]

theorem namesIn_mono {tokens tokens' : Tokens} (subset : tokens ⊆ tokens') :
    namesIn tokens ⊆ namesIn tokens' := by
  intro name found
  obtain ⟨tree, member, named⟩ := mem_namesIn.mp found
  exact mem_namesIn.mpr ⟨tree, subset member, named⟩

def occurrences (name : String) (tokens : Tokens) : Nat := (namesIn tokens).count name

variable {name : String}

@[simp]
theorem occurrences_nil : occurrences name [] = 0 := rfl

theorem occurrences_cons (tree : TokenTree) (rest : Tokens) :
    occurrences name (tree :: rest) = tree.names.count name + occurrences name rest := by
  rw [occurrences, namesIn, List.count_append]
  rfl

@[simp]
theorem occurrences_append (left right : Tokens) :
    occurrences name (left ++ right) = occurrences name left + occurrences name right := by
  rw [occurrences, namesIn_append, List.count_append]
  rfl

@[simp]
theorem occurrences_ident (identifier : String) (pos : Nat) (rest : Tokens) :
    occurrences name (.ident identifier pos :: rest) =
      [plainName identifier].count name + occurrences name rest :=
  occurrences_cons _ rest

@[simp]
theorem occurrences_word (identifier : String) (rest : Tokens) :
    occurrences name (word identifier :: rest) =
      [plainName identifier].count name + occurrences name rest :=
  occurrences_cons _ rest

@[simp]
theorem occurrences_literal (text : String) (pos : Nat) (rest : Tokens) :
    occurrences name (.literal text pos :: rest) = occurrences name rest := by
  rw [occurrences_cons, names, List.count_nil, Nat.zero_add]

@[simp]
theorem occurrences_punct (char : Char) (spacing : Spacing) (pos : Nat) (rest : Tokens) :
    occurrences name (.punct char spacing pos :: rest) = occurrences name rest := by
  rw [occurrences_cons, names, List.count_nil, Nat.zero_add]

@[simp]
theorem occurrences_mark (char : Char) (rest : Tokens) :
    occurrences name (mark char :: rest) = occurrences name rest :=
  occurrences_punct char .alone 0 rest

@[simp]
theorem occurrences_group (delimiter : Delimiter) (inner : Tokens) (pos : Nat) (rest : Tokens) :
    occurrences name (.group delimiter inner pos :: rest) =
      occurrences name inner + occurrences name rest := by
  rw [occurrences_cons, names]
  rfl

@[simp]
theorem occurrences_delimited (delimiter : Delimiter) (inner rest : Tokens) :
    occurrences name (delimited delimiter inner :: rest) =
      occurrences name inner + occurrences name rest :=
  occurrences_group delimiter inner 0 rest

@[simp]
theorem occurrences_operator (chars : List Char) : occurrences name (operator chars) = 0 := by
  induction chars with
  | nil => rfl
  | cons char more ih =>
      cases more with
      | nil => rfl
      | cons second others =>
          rw [operator, occurrences_punct, ih]
          exact List.cons_ne_nil second others

theorem occurrences_pos_iff {tokens : Tokens} :
    0 < occurrences name tokens ↔ name ∈ namesIn tokens :=
  List.count_pos_iff

theorem namesIn_subset_of_occurrences {tokens tokens' : Tokens}
    (fewer : ∀ name, occurrences name tokens ≤ occurrences name tokens') :
    namesIn tokens ⊆ namesIn tokens' := by
  intro name member
  have found := occurrences_pos_iff.mpr member
  have bound := fewer name
  exact occurrences_pos_iff.mp (by omega)

end TokenTree

open TokenTree

theorem namesIn_subset_separated (separator : Char) (trailing : Bool) {item : Tokens}
    {items : List Tokens} (member : item ∈ items) :
    namesIn item ⊆ namesIn (separated separator trailing items) := by
  induction items with
  | nil => cases member
  | cons first rest ih =>
      intro name found
      cases rest with
      | nil =>
          simp only [List.mem_singleton] at member
          subst member
          rw [separated, namesIn_append]
          exact List.mem_append_left _ found
      | cons second others =>
          rw [separated_cons_cons, namesIn_append]
          rcases List.mem_cons.mp member with rfl | later
          · exact List.mem_append_left _ found
          · refine List.mem_append_right _ ?_
            rw [namesIn, names_mark, List.nil_append]
            exact ih later found

/-! ### Argument lists -/

theorem exists_argEntry (trailing : Bool) {isLifetime : Bool} {tokens : Tokens}
    {args : List (Bool × Tokens)} (member : (isLifetime, tokens) ∈ args) :
    ∃ comma, ⟨isLifetime, tokens, comma⟩ ∈ argEntries trailing args := by
  induction args with
  | nil => cases member
  | cons first rest ih =>
      cases rest with
      | nil =>
          simp only [List.mem_singleton] at member
          subst member
          exact ⟨trailing, List.mem_singleton_self _⟩
      | cons second others =>
          rcases List.mem_cons.mp member with rfl | later
          · exact ⟨true, List.mem_cons_self⟩
          · obtain ⟨comma, found⟩ := ih later
            exact ⟨comma, List.mem_cons_of_mem _ found⟩

theorem namesIn_subset_own (entry : ArgEntry) : namesIn entry.tokens ⊆ namesIn entry.own := by
  intro name found
  rw [ArgEntry.own, namesIn_append]
  exact List.mem_append_left _ found

theorem namesIn_subset_layArgs (closed : Bool) {entry : ArgEntry} {entries : List ArgEntry}
    (member : entry ∈ entries) : namesIn entry.tokens ⊆ namesIn (layArgs closed entries) := by
  induction entries generalizing closed with
  | nil => cases member
  | cons first rest ih =>
      intro name found
      rw [layArgs, namesIn_append, namesIn_append]
      rcases List.mem_cons.mp member with rfl | later
      · exact List.mem_append_left _ (List.mem_append_right _ (namesIn_subset_own entry found))
      · exact List.mem_append_right _ (ih first.comma later found)

theorem namesIn_subset_flatMap {entry : ArgEntry} {entries : List ArgEntry}
    (member : entry ∈ entries) :
    namesIn entry.tokens ⊆ namesIn (entries.flatMap ArgEntry.own) := by
  induction entries with
  | nil => cases member
  | cons first rest ih =>
      intro name found
      rw [List.flatMap_cons, namesIn_append]
      rcases List.mem_cons.mp member with rfl | later
      · exact List.mem_append_left _ (namesIn_subset_own entry found)
      · exact List.mem_append_right _ (ih later found)

theorem namesIn_subset_argList (trailing : Bool) {isLifetime : Bool} {tokens : Tokens}
    {args : List (Bool × Tokens)} (member : (isLifetime, tokens) ∈ args) :
    namesIn tokens ⊆ namesIn (argList trailing args) := by
  intro name found
  obtain ⟨comma, entry⟩ := exists_argEntry trailing member
  rw [argList, namesIn_append]
  cases isLifetime with
  | true =>
      have first : ⟨true, tokens, comma⟩ ∈
          (argEntries trailing args).filter (·.isLifetime) := List.mem_filter.mpr ⟨entry, rfl⟩
      exact List.mem_append_left _ (namesIn_subset_flatMap first found)
  | false =>
      have later : ⟨false, tokens, comma⟩ ∈
          (argEntries trailing args).filter fun entry => !entry.isLifetime :=
        List.mem_filter.mpr ⟨entry, rfl⟩
      exact List.mem_append_right _ (namesIn_subset_layArgs _ later found)

/-! ### Constants -/

theorem occurrences_of_eat? {name : String} {operator : List Char} {tokens rest : Tokens}
    (found : eat? operator tokens = some rest) :
    occurrences name tokens = occurrences name rest := by
  fun_induction eat? operator tokens with
  | case1 tokens =>
      cases found
      rfl
  | case2 char spacing pos others =>
      cases found
      exact occurrences_punct _ _ _ _
  | case4 more char pos others _ ih =>
      rw [occurrences_punct]
      exact ih found
  | case3 | case5 | case6 => cases found

theorem ConstSpelling.occurrences_eq {kind : ConstKind} {source value : Tokens}
    (spelled : ConstSpelling kind source value) (name : String) :
    occurrences name value = occurrences name source := by
  induction spelled with
  | literal | literalArg | word | truth | negative | noSteps | empty => simp
  | group noBracket inside ih | block inside ih => simp [ih]
  | path word others ih | step word others ih => simp [ih]
  | sign member inner ih => simp [ih]
  | only inner ih | full inner ih => exact ih
  | @more source value rest others value' sign first signed later ihFirst ihLater =>
      have signs : occurrences name rest = occurrences name others :=
        occurrences_of_eat? (mem_of_firstOperator? signed).2
      simp [ihFirst, ihLater, signs]

theorem occurrences_of_constExpr? (name : String) {tokens value : Tokens}
    (found : constExpr? tokens = some value) : occurrences name value = occurrences name tokens :=
  (constExpr?_eq_some_iff.mp found).occurrences_eq name

theorem occurrences_of_constant? (name : String) {tokens value : Tokens}
    (found : constant? tokens = some (value, [])) :
    occurrences name value = occurrences name tokens :=
  (constant?_eq_some_iff.mp found).occurrences_eq name

theorem namesIn_subset_of_constExpr? {tokens value : Tokens}
    (found : constExpr? tokens = some value) : namesIn value ⊆ namesIn tokens :=
  namesIn_subset_of_occurrences fun name => Nat.le_of_eq (occurrences_of_constExpr? name found)

theorem namesIn_subset_of_constant? {tokens value : Tokens}
    (found : constant? tokens = some (value, [])) : namesIn value ⊆ namesIn tokens :=
  namesIn_subset_of_occurrences fun name => Nat.le_of_eq (occurrences_of_constant? name found)

end TypeConcepts
