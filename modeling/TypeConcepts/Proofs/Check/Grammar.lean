import TypeConcepts.Concept.Check
import TypeConcepts.Proofs.Formula.Grammar
import TypeConcepts.Proofs.TypeExpr.Soundness

/-!
The grammar of requests, and that exactly its token lists are accepted.

Types are read by any function that leaves a tail of the tokens it was given. The grammar asks of a
leaf only that this function takes it where it stands, so it fixes the extent of every type, and an
ampersand or a bar that a type takes for itself is no operator.
-/

namespace TypeConcepts

variable {α : Type}

namespace Formula

/-- Neither a negation nor a group comes next. -/
def StartsLeaf (tokens : Tokens) : Prop :=
  (∀ spacing pos rest, tokens ≠ .punct '!' spacing pos :: rest) ∧
    ∀ inner pos rest, tokens ≠ .group .paren inner pos :: rest

def Terminals.ofTypes (type : Reader α) : Terminals α where
  negation tokens rest := ∃ spacing pos, tokens = .punct '!' spacing pos :: rest
  conjunction := Lone '&' '&'
  disjunction := Lone '|' '|'
  leaf tokens value rest := StartsLeaf tokens ∧ type tokens = some (value, rest)

theorem startsLeaf_iff {tokens : Tokens} :
    StartsLeaf tokens ↔ eat? ['!'] tokens = none ∧ group? .paren tokens = none := by
  constructor
  · rintro ⟨plain, ungrouped⟩
    constructor
    · cases found : eat? ['!'] tokens with
      | none => rfl
      | some rest =>
          obtain ⟨spacing, pos, rfl⟩ := eat?_single_iff.mp found
          exact absurd rfl (plain spacing pos rest)
    · cases found : group? .paren tokens with
      | none => rfl
      | some parts =>
          obtain ⟨pos, rfl⟩ := group?_eq_some_iff.mp found
          exact absurd rfl (ungrouped parts.1 pos parts.2)
  · rintro ⟨plain, ungrouped⟩
    constructor
    · rintro spacing pos rest rfl
      rw [eat?_single_iff.mpr ⟨spacing, pos, rfl⟩] at plain
      cases plain
    · rintro inner pos rest rfl
      rw [group?_eq_some_iff.mpr ⟨pos, rfl⟩] at ungrouped
      cases ungrouped

theorem recognises_ofTypes {type : Reader α}
    (suffix : ∀ tokens value rest, type tokens = some (value, rest) → rest <:+ tokens) :
    Recognises .simple type (.ofTypes type) where
  negation tokens rest := eat?_single_iff
  conjunction tokens rest := single?_pair_iff
  disjunction tokens rest := single?_pair_iff
  leaf tokens value rest := by
    change StartsLeaf tokens ∧ type tokens = some (value, rest) ↔ _
    rw [startsLeaf_iff, and_assoc]
    rfl
  ungrouped inner pos rest := rfl
  apart tokens rest bar := by
    cases found : Connectives.simple.conjunction tokens with
    | none => rfl
    | some other =>
        have ampersand := single?_pair_iff.mp found
        cases bar <;> cases ampersand
  negationConsumes := by
    rintro tokens rest ⟨spacing, pos, rfl⟩
    exact ⟨_, [], rfl⟩
  conjunctionConsumes tokens rest lone := lone.consumes
  disjunctionConsumes tokens rest lone := lone.consumes
  leafSuffix := by
    rintro tokens value rest ⟨_, read⟩
    exact suffix tokens value rest read

end Formula

namespace Check

open TokenTree

/-- The token list begins with the text of the check, which leaves `rest`. -/
inductive Derives (type : Reader α) : Tokens → Check α → Tokens → Prop
  | intro {tokens next rest : Tokens} {spacing : Spacing} {pos : Nat} {subject : α}
      {formula : Formula α}
      (first : type tokens = some (subject, .punct ':' spacing pos :: next))
      (second : Formula.Derives (.ofTypes type) .alternatives next formula rest) :
      Derives type tokens ⟨subject, formula⟩ rest

/-- A whole token list of checks with commas between them and perhaps one after the last. -/
inductive Request (type : Reader α) : Tokens → List (Check α) → Prop
  | last {tokens : Tokens} {check : Check α} (only : Derives type tokens check []) :
      Request type tokens [check]
  | closed {tokens : Tokens} {check : Check α} {spacing : Spacing} {pos : Nat}
      (only : Derives type tokens check [.punct ',' spacing pos]) :
      Request type tokens [check]
  | more {tokens rest : Tokens} {check : Check α} {checks : List (Check α)} {spacing : Spacing}
      {pos : Nat} (first : Derives type tokens check (.punct ',' spacing pos :: rest))
      (others : Request type rest checks) :
      Request type tokens (check :: checks)

section Agreement

variable {type : Reader α}

def Ends (tokens : Tokens) : Prop :=
  tokens = [] ∨ ∃ spacing pos rest, tokens = .punct ',' spacing pos :: rest

private theorem sign_of_ends {char : Char} {tokens : Tokens} (ends : Ends tokens)
    (other : char ≠ ',') : Formula.sign char tokens = none := by
  cases found : Formula.sign char tokens with
  | none => rfl
  | some rest =>
      have lone := single?_pair_iff.mp found
      rcases ends with rfl | ⟨spacing, pos, others, rfl⟩
      · cases lone
      · cases lone <;> exact absurd rfl other

theorem Derives.length_lt
    (suffix : ∀ tokens value rest, type tokens = some (value, rest) → rest <:+ tokens)
    {tokens rest : Tokens} {check : Check α} (derivation : Derives type tokens check rest) :
    rest.length < tokens.length := by
  cases derivation with
  | intro first second =>
      have afterType := (suffix _ _ _ first).length_le
      have afterFormula := (second.suffix (Formula.recognises_ofTypes suffix)).length_le
      simp only [List.length_cons] at afterType
      omega

theorem Derives.read_eq
    (suffix : ∀ tokens value rest, type tokens = some (value, rest) → rest <:+ tokens)
    {tokens rest : Tokens} {check : Check α} (derivation : Derives type tokens check rest)
    (ends : Ends rest) : read type tokens = some (check, rest) := by
  cases derivation with
  | @intro next _ spacing pos subject formula first second =>
      have colon : eat? [':'] (.punct ':' spacing pos :: next) = some next :=
        eat?_single_iff.mpr ⟨spacing, pos, rfl⟩
      have formulaRead : Formula.read type next = some (formula, rest) :=
        second.readOr_eq (Formula.recognises_ofTypes suffix) (sign_of_ends ends (by decide))
          (sign_of_ends ends (by decide)) (by omega)
      unfold read
      simp only [first, colon, formulaRead, Option.bind_eq_bind, Option.bind_some]

theorem derives_of_read
    (suffix : ∀ tokens value rest, type tokens = some (value, rest) → rest <:+ tokens)
    {tokens rest : Tokens} {check : Check α} (found : read type tokens = some (check, rest)) :
    Derives type tokens check rest := by
  simp only [read, Option.bind_eq_bind, Option.bind_eq_some_iff, Prod.exists] at found
  obtain ⟨subject, afterType, first, next, colon, formula, after, second, finished⟩ := found
  obtain ⟨spacing, pos, rfl⟩ := eat?_single_iff.mp colon
  cases finished
  exact .intro first
    (((Formula.recognises_ofTypes suffix).sound _).alternatives _ _ _ second)

/-! ### Lists of checks -/

theorem Request.length_pos
    (suffix : ∀ tokens value rest, type tokens = some (value, rest) → rest <:+ tokens)
    {tokens : Tokens} {checks : List (Check α)} (request : Request type tokens checks) :
    0 < tokens.length := by
  cases request with
  | last only => exact Nat.zero_lt_of_lt (only.length_lt suffix)
  | closed only => exact Nat.zero_lt_of_lt (only.length_lt suffix)
  | more first others => exact Nat.zero_lt_of_lt (first.length_lt suffix)

theorem Request.commaList_eq
    (suffix : ∀ tokens value rest, type tokens = some (value, rest) → rest <:+ tokens)
    {tokens : Tokens} {checks : List (Check α)} (request : Request type tokens checks) :
    ∀ bound, tokens.length ≤ bound →
      ∃ trailing, commaList (read type) bound tokens = some (checks, trailing) := by
  induction request with
  | last only =>
      intro bound enough
      obtain ⟨first, others, rfl⟩ := List.exists_cons_of_length_pos (only.length_lt suffix)
      cases bound with
      | zero => cases enough
      | succ bound =>
          have head := only.read_eq suffix (.inl rfl)
          exact ⟨false, commaList_of_last (List.cons_ne_nil _ _) head⟩
  | @closed _ _ spacing pos only =>
      intro bound enough
      obtain ⟨first, others, rfl⟩ :=
        List.exists_cons_of_length_pos (Nat.zero_lt_of_lt (only.length_lt suffix))
      cases bound with
      | zero => cases enough
      | succ bound =>
          refine ⟨true, ?_⟩
          rw [commaList_of_comma (List.cons_ne_nil _ _)
            (only.read_eq suffix (.inr ⟨spacing, pos, [], rfl⟩)), commaList]
          rfl
  | @more _ rest check checks spacing pos first others ih =>
      intro bound enough
      have shorter := first.length_lt suffix
      obtain ⟨head, tail, rfl⟩ := List.exists_cons_of_length_pos (Nat.zero_lt_of_lt shorter)
      simp only [List.length_cons] at shorter enough
      cases bound with
      | zero => cases enough
      | succ bound =>
          obtain ⟨trailing, remaining⟩ := ih bound (by omega)
          refine ⟨trailing || checks.isEmpty, ?_⟩
          rw [commaList_of_comma (List.cons_ne_nil _ _)
            (first.read_eq suffix (.inr ⟨spacing, pos, rest, rfl⟩)), remaining]
          rfl

theorem request_of_commaList
    (suffix : ∀ tokens value rest, type tokens = some (value, rest) → rest <:+ tokens)
    {bound : Nat} {tokens : Tokens} {checks : List (Check α)} {trailing : Bool}
    (nonempty : tokens ≠ [])
    (found : commaList (read type) bound tokens = some (checks, trailing)) :
    Request type tokens checks := by
  induction bound generalizing tokens checks trailing with
  | zero =>
      cases tokens with
      | nil => exact absurd rfl nonempty
      | cons first others => cases found
  | succ bound ih =>
      cases tokens with
      | nil => exact absurd rfl nonempty
      | cons first others =>
          cases head : read type (first :: others) with
          | none => simp [commaList, head] at found
          | some result =>
              obtain ⟨check, rest⟩ := result
              have derivation := derives_of_read suffix head
              cases rest with
              | nil =>
                  rw [commaList_of_last (List.cons_ne_nil _ _) head] at found
                  cases found
                  exact .last derivation
              | cons next after =>
                  simp only [commaList, head, Option.bind_eq_bind, Option.bind_some,
                    Option.bind_eq_some_iff, Prod.exists] at found
                  obtain ⟨rest, comma, remaining, final, more, finished⟩ := found
                  obtain ⟨spacing, pos, equal⟩ := eat?_single_iff.mp comma
                  cases equal
                  cases finished
                  cases after with
                  | nil =>
                      simp only [commaList, Option.some.injEq, Prod.mk.injEq] at more
                      obtain ⟨rfl, _⟩ := more
                      exact .closed derivation
                  | cons second later =>
                      exact .more derivation (ih (List.cons_ne_nil _ _) more)

/-- Exactly the token lists of the grammar are accepted, each with the checks of its one derivation.
-/
theorem readAll_eq_some_iff
    (suffix : ∀ tokens value rest, type tokens = some (value, rest) → rest <:+ tokens)
    (tokens : Tokens) (checks : List (Check α)) :
    (readAll type tokens = some checks ↔ Request type tokens checks) ∧
      ∀ others, Request type tokens checks → Request type tokens others → others = checks := by
  have accepted : ∀ {found}, Request type tokens found → readAll type tokens = some found := by
    intro found request
    obtain ⟨first, others, rfl⟩ := List.exists_cons_of_length_pos (request.length_pos suffix)
    obtain ⟨trailing, listed⟩ := request.commaList_eq suffix _ (Nat.le_refl _)
    simp only [readAll, listed, Option.map_some]
  refine ⟨⟨?_, accepted⟩, ?_⟩
  · intro read
    cases tokens with
    | nil => cases read
    | cons first others =>
        simp only [readAll, Option.map_eq_some_iff, Prod.exists] at read
        obtain ⟨found, trailing, listed, rfl⟩ := read
        exact request_of_commaList suffix (List.cons_ne_nil _ _) listed
  · intro others request other
    have same := (accepted request).symm.trans (accepted other)
    cases same
    rfl

/-- The text `u8: A<B> | !(C & D), Vec<u8>: &C | D,`. -/
theorem readAll_eq_some_iff_nested_group :
    Request TypeExpr.read
      ([word "u8", mark ':', word "A"] ++ [mark '<', word "B", mark '>'] ++ [mark '|', mark '!',
          delimited .paren [word "C", mark '&', word "D"], mark ',']
        ++ [word "Vec", mark '<', word "u8", mark '>', mark ':', mark '&', word "C", mark '|',
          word "D", mark ','])
      [⟨.path ⟨0, false, [⟨"u8", .none⟩]⟩,
          .or (.leaf (.path ⟨0, false,
              [⟨"A", .angle false [.type (.path ⟨0, false, [⟨"B", .none⟩]⟩)] false⟩]⟩))
            (.not (.and (.leaf (.path ⟨0, false, [⟨"C", .none⟩]⟩))
              (.leaf (.path ⟨0, false, [⟨"D", .none⟩]⟩))))⟩,
        ⟨.path ⟨0, false,
            [⟨"Vec", .angle false [.type (.path ⟨0, false, [⟨"u8", .none⟩]⟩)] false⟩]⟩,
          .or (.leaf (.reference none false (.path ⟨0, false, [⟨"C", .none⟩]⟩)))
            (.leaf (.path ⟨0, false, [⟨"D", .none⟩]⟩))⟩] :=
  (readAll_eq_some_iff (fun _ _ _ => TypeExpr.suffix_of_read) _ _).1.mp rfl

end Agreement

end Check

end TypeConcepts
