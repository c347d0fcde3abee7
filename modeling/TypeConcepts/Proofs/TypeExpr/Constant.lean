import Mathlib.Data.List.Basic
import TypeConcepts.TypeExpr.Const
import TypeConcepts.Proofs.Token.Reader

/-!
The texts of constants, and the tokens that each is kept as. What a constant is kept as is a text of
the same constant.
-/

namespace TypeConcepts

open TokenTree

/-- The kinds of text that constants are made of. -/
inductive ConstKind where
  | operand
  | steps
  | whole
  | inside
  | argument

/-- The text spells a constant that is kept as the given tokens. -/
inductive ConstSpelling : ConstKind → Tokens → Tokens → Prop
  | literal {text : String} {pos : Nat} :
      ConstSpelling .operand [.literal text pos] [.literal text 0]
  | group {delimiter : Delimiter} {inner value : Tokens} {pos : Nat}
      (noBracket : delimiter ≠ .bracket) (inside : ConstSpelling .inside inner value) :
      ConstSpelling .operand [.group delimiter inner pos] [delimited delimiter value]
  | word {name : String} {pos : Nat} (special : name = "_" ∨ name = "true" ∨ name = "false") :
      ConstSpelling .operand [.ident name pos] [TokenTree.word name]
  | path {name : String} {pos : Nat} {source value : Tokens} (word : isPathWord name = true)
      (others : ConstSpelling .steps source value) :
      ConstSpelling .operand (.ident name pos :: source) (TokenTree.word name :: value)
  | sign {char : Char} {spacing : Spacing} {pos : Nat} {source value : Tokens}
      (member : char = '-' ∨ char = '!' ∨ char = '*' ∨ char = '&')
      (inner : ConstSpelling .operand source value) :
      ConstSpelling .operand (.punct char spacing pos :: source) (mark char :: value)
  | noSteps : ConstSpelling .steps [] []
  | step {name : String} {spacing : Spacing} {pos pos' pos'' : Nat} {source value : Tokens}
      (word : isPathWord name = true) (others : ConstSpelling .steps source value) :
      ConstSpelling .steps
        (.punct ':' .joint pos :: .punct ':' spacing pos' :: .ident name pos'' :: source)
        (operator [':', ':'] ++ TokenTree.word name :: value)
  | only {source value : Tokens} (operand : ConstSpelling .operand source value) :
      ConstSpelling .whole source value
  | more {source value rest others value' : Tokens} {sign : List Char}
      (first : ConstSpelling .operand source value)
      (signed : firstOperator? rest infixOperators = some (sign, others))
      (later : ConstSpelling .whole others value') :
      ConstSpelling .whole (source ++ rest) (value ++ (operator sign ++ value'))
  | empty : ConstSpelling .inside [] []
  | full {source value : Tokens} (whole : ConstSpelling .whole source value) :
      ConstSpelling .inside source value
  | literalArg {text : String} {pos : Nat} :
      ConstSpelling .argument [.literal text pos] [.literal text 0]
  | truth {name : String} {pos : Nat} (truth : name = "true" ∨ name = "false") :
      ConstSpelling .argument [.ident name pos] [TokenTree.word name]
  | negative {text : String} {spacing : Spacing} {pos pos' : Nat}
      (digit : (text.toList.head?.map Char.isDigit).getD false = true) :
      ConstSpelling .argument [.punct '-' spacing pos, .literal text pos']
        [mark '-', .literal text 0]
  | block {inner value : Tokens} {pos : Nat} (inside : ConstSpelling .inside inner value) :
      ConstSpelling .argument [.group .brace inner pos] [delimited .brace value]

theorem mem_of_firstOperator? {operators : List (List Char)} {tokens rest : Tokens}
    {sign : List Char} (found : firstOperator? tokens operators = some (sign, rest)) :
    sign ∈ operators ∧ eat? sign tokens = some rest := by
  induction operators with
  | nil => cases found
  | cons first others ih =>
      unfold firstOperator? at found
      cases eaten : eat? first tokens with
      | none =>
          rw [eaten] at found
          exact ⟨List.mem_cons_of_mem _ (ih found).1, (ih found).2⟩
      | some after =>
          rw [eaten] at found
          cases found
          exact ⟨List.mem_cons_self, eaten⟩

def infixMarks : List Char := ['&', '|', '=', '!', '<', '>', '+', '-', '*', '/', '%', '^']

theorem stopsAt_of_firstOperator? {tokens rest : Tokens} {sign : List Char}
    (found : firstOperator? tokens infixOperators = some (sign, rest)) :
    StopsAt infixMarks tokens := by
  obtain ⟨member, eaten⟩ := mem_of_firstOperator? found
  have head : ∀ sign ∈ infixOperators, ∃ char ∈ infixMarks, sign.head? = some char := by
    simp [infixOperators, infixMarks]
  obtain ⟨char, known, first⟩ := head sign member
  obtain ⟨more, rfl⟩ := List.head?_eq_some_iff.mp first
  cases single : eat? [char] tokens with
  | none =>
      rw [eat?_eq_none_of_single single] at eaten
      cases eaten
  | some after =>
      obtain ⟨spacing, pos, rfl⟩ := eat?_single_iff.mp single
      exact .punct known spacing pos after

theorem sizes_lt_of_firstOperator? {tokens rest : Tokens} {sign : List Char}
    (found : firstOperator? tokens infixOperators = some (sign, rest)) :
    sizes rest < sizes tokens := by
  obtain ⟨member, eaten⟩ := mem_of_firstOperator? found
  have short : ∀ sign ∈ infixOperators, sign.length = 1 ∨ sign.length = 2 := by decide
  rcases short sign member with one | two
  · obtain ⟨char, rfl⟩ := List.length_eq_one_iff.mp one
    obtain ⟨spacing, pos, rfl⟩ := eat?_single_iff.mp eaten
    simp only [sizes, size]
    omega
  · obtain ⟨first, second, rfl⟩ := List.length_eq_two.mp two
    obtain ⟨pos, spacing, pos', rfl⟩ := eat?_pair_iff.mp eaten
    simp only [sizes, size]
    omega

theorem firstOperator?_operator {sign : List Char} (member : sign ∈ infixOperators)
    (rest : Tokens) :
    firstOperator? (operator sign ++ rest) infixOperators = some (sign, rest) := by
  simp only [infixOperators, List.mem_cons, List.not_mem_nil, or_false] at member
  rcases member with rfl | rfl | rfl | rfl | rfl | rfl | rfl | rfl | rfl | rfl | rfl | rfl | rfl |
    rfl | rfl | rfl | rfl | rfl <;> rfl

/-! ### What is read is spelled -/

/-- With this much fuel, only texts of constants are read. -/
structure ReadsSpelled (fuel : Nat) : Prop where
  operand : ∀ tokens value rest, constOperand fuel tokens = some (value, rest) →
    ∃ source, tokens = source ++ rest ∧ ConstSpelling .operand source value
  path : ∀ sofar tokens value rest, constPath fuel sofar tokens = some (value, rest) →
    ∃ source tail, tokens = source ++ rest ∧ value = sofar ++ tail ∧
      ConstSpelling .steps source tail
  whole : ∀ tokens value, constWhole fuel tokens = some value →
    ConstSpelling .whole tokens value

namespace ReadsSpelled

variable {fuel : Nat} (reads : ReadsSpelled fuel)

include reads

theorem inside {delimiter : Delimiter} {inner after value rest : Tokens}
    (found : (if inner.isEmpty then some ([delimited delimiter []], after)
      else (constWhole fuel inner).bind fun inner => some ([delimited delimiter inner], after)) =
        some (value, rest)) :
    ∃ kept, value = [delimited delimiter kept] ∧ rest = after ∧
      ConstSpelling .inside inner kept := by
  split at found
  · rename_i empty
    cases found
    rw [List.isEmpty_iff.mp empty]
    exact ⟨[], rfl, rfl, .empty⟩
  · obtain ⟨kept, read, finished⟩ := Option.bind_eq_some_iff.mp found
    cases finished
    exact ⟨kept, rfl, rfl, .full (reads.whole _ _ read)⟩

theorem operand_succ (tokens value rest : Tokens)
    (found : constOperand (fuel + 1) tokens = some (value, rest)) :
    ∃ source, tokens = source ++ rest ∧ ConstSpelling .operand source value := by
  unfold constOperand at found
  split at found
  · cases found
    exact ⟨[_], rfl, .literal⟩
  · obtain ⟨kept, rfl, rfl, inside⟩ := reads.inside found
    exact ⟨[_], rfl, .group (by decide) inside⟩
  · obtain ⟨kept, rfl, rfl, inside⟩ := reads.inside found
    exact ⟨[_], rfl, .group (by decide) inside⟩
  · split at found
    · rename_i special
      cases found
      exact ⟨[_], rfl, .word special⟩
    · split at found
      · rename_i word
        obtain ⟨source, tail, rfl, rfl, steps⟩ := reads.path _ _ _ _ found
        exact ⟨_ :: source, rfl, .path word steps⟩
      · cases found
  · split at found
    · rename_i member
      obtain ⟨⟨operand, after⟩, read, finished⟩ := Option.bind_eq_some_iff.mp found
      cases finished
      obtain ⟨source, rfl, inner⟩ := reads.operand _ _ _ read
      exact ⟨_ :: source, rfl, .sign member inner⟩
    · cases found
  · cases found

theorem path_succ (sofar tokens value rest : Tokens)
    (found : constPath (fuel + 1) sofar tokens = some (value, rest)) :
    ∃ source tail, tokens = source ++ rest ∧ value = sofar ++ tail ∧
      ConstSpelling .steps source tail := by
  unfold constPath at found
  split at found
  · rename_i colons
    obtain ⟨pos, spacing, pos', rfl⟩ := eat?_pair_iff.mp colons
    split at found
    · rename_i word
      obtain ⟨source, tail, rfl, rfl, steps⟩ := reads.path _ _ _ _ found
      refine ⟨_ :: _ :: _ :: source, _, rfl, ?_, .step word steps⟩
      simp only [List.append_assoc, List.cons_append, List.nil_append]
    · cases found
  · cases found
  · cases found
    exact ⟨[], [], rfl, (List.append_nil _).symm, .noSteps⟩

theorem whole_succ (tokens value : Tokens) (found : constWhole (fuel + 1) tokens = some value) :
    ConstSpelling .whole tokens value := by
  simp only [constWhole, Option.bind_eq_bind, Option.bind_eq_some_iff, Prod.exists] at found
  obtain ⟨operand, after, read, found⟩ := found
  obtain ⟨source, rfl, first⟩ := reads.operand _ _ _ read
  split at found
  · cases found
    rw [List.append_nil]
    exact .only first
  · simp only [Option.bind_eq_some_iff, Prod.exists] at found
    obtain ⟨sign, others, signed, remaining, whole, finished⟩ := found
    cases finished
    rw [List.append_assoc]
    exact .more first signed (reads.whole _ _ whole)

end ReadsSpelled

theorem readsSpelled (fuel : Nat) : ReadsSpelled fuel := by
  induction fuel with
  | zero => exact ⟨nofun, nofun, nofun⟩
  | succ fuel ih => exact ⟨ih.operand_succ, ih.path_succ, ih.whole_succ⟩

/-! ### What is spelled is read -/

theorem inside_bind {α : Type} {fuel : Nat} {inner value : Tokens} (make : Tokens → α)
    (read : (if inner.isEmpty then some [] else constWhole fuel inner) = some value) :
    (if inner.isEmpty then some (make [])
      else (constWhole fuel inner).bind fun inner => some (make inner)) = some (make value) := by
  split at read
  · rename_i empty
    cases read
    rw [if_pos empty]
  · rename_i nonempty
    rw [if_neg nonempty, read]
    rfl

/-- How a text of the given kind is read, given enough fuel. -/
def ConstKind.Reads : ConstKind → Tokens → Tokens → Prop
  | .operand, source, value => ∀ rest fuel, 2 * sizes source < fuel →
      eat? [':', ':'] rest = none → constOperand fuel (source ++ rest) = some (value, rest)
  | .steps, source, value => ∀ sofar rest fuel, 2 * sizes source < fuel →
      eat? [':', ':'] rest = none →
        constPath fuel sofar (source ++ rest) = some (sofar ++ value, rest)
  | .whole, source, value => ∀ fuel, 2 * sizes source + 1 < fuel →
      constWhole fuel source = some value
  | .inside, source, value => ∀ fuel, 2 * sizes source + 1 < fuel →
      (if source.isEmpty then some [] else constWhole fuel source) = some value
  | .argument, source, value => constant? source = some (value, [])

theorem ConstSpelling.ne_nil {source value : Tokens}
    (spelled : ConstSpelling .operand source value) : source ≠ [] := by
  cases spelled <;> exact List.cons_ne_nil _ _

theorem ConstSpelling.ne_nil_of_whole {source value : Tokens}
    (spelled : ConstSpelling .whole source value) : source ≠ [] := by
  cases spelled with
  | only operand => exact operand.ne_nil
  | more first signed later => exact List.append_ne_nil_of_left_ne_nil first.ne_nil _

theorem ConstSpelling.reads {kind : ConstKind} {source value : Tokens}
    (spelled : ConstSpelling kind source value) : kind.Reads source value := by
  induction spelled with
  | literal | word special =>
      intro rest fuel enough _
      obtain ⟨fuel, rfl⟩ := Nat.exists_eq_succ_of_ne_zero (Nat.ne_of_gt (Nat.zero_lt_of_lt enough))
      simp only [List.singleton_append, constOperand, *, if_true]
  | @group delimiter inner value pos noBracket inside ih =>
      intro rest fuel enough _
      obtain ⟨fuel, rfl⟩ := Nat.exists_eq_succ_of_ne_zero (Nat.ne_of_gt (Nat.zero_lt_of_lt enough))
      have read := ih fuel (by simp only [sizes, size] at enough; omega)
      cases delimiter with
      | bracket => exact absurd rfl noBracket
      | paren | brace => exact inside_bind (fun inner => ([delimited _ inner], rest)) read
  | @path name pos source value word others ih =>
      intro rest fuel enough noColons
      obtain ⟨fuel, rfl⟩ := Nat.exists_eq_succ_of_ne_zero (Nat.ne_of_gt (Nat.zero_lt_of_lt enough))
      have read := ih [TokenTree.word name] rest fuel (by simp only [sizes, size] at enough; omega)
        noColons
      have plain : ¬(name = "_" ∨ name = "true" ∨ name = "false") := by
        rintro (rfl | rfl | rfl) <;> exact absurd word (by decide)
      simp only [List.cons_append, constOperand, plain, word, if_false, if_true, read,
        List.nil_append]
  | @sign char spacing pos source value member inner ih =>
      intro rest fuel enough noColons
      obtain ⟨fuel, rfl⟩ := Nat.exists_eq_succ_of_ne_zero (Nat.ne_of_gt (Nat.zero_lt_of_lt enough))
      have read := ih rest fuel (by simp only [sizes, size] at enough; omega) noColons
      simp only [List.cons_append, constOperand, member, if_true, read, Option.bind_eq_bind,
        Option.bind_some]
  | noSteps =>
      intro sofar rest fuel enough noColons
      obtain ⟨fuel, rfl⟩ := Nat.exists_eq_succ_of_ne_zero (Nat.ne_of_gt (Nat.zero_lt_of_lt enough))
      simp only [List.nil_append, List.append_nil, constPath, noColons]
  | @step name spacing pos pos' pos'' source value word others ih =>
      intro sofar rest fuel enough noColons
      obtain ⟨fuel, rfl⟩ := Nat.exists_eq_succ_of_ne_zero (Nat.ne_of_gt (Nat.zero_lt_of_lt enough))
      have read := ih (sofar ++ operator [':', ':'] ++ [TokenTree.word name]) rest fuel
        (by simp only [sizes, size] at enough; omega) noColons
      have colons : eat? [':', ':']
          (.punct ':' .joint pos :: .punct ':' spacing pos' :: .ident name pos'' ::
            (source ++ rest)) = some (.ident name pos'' :: (source ++ rest)) :=
        eat?_pair_iff.mpr ⟨pos, spacing, pos', rfl⟩
      simp only [List.cons_append, constPath, colons, word, if_true, read]
      simp only [List.append_assoc, List.cons_append, List.nil_append]
  | @only source value operand ih =>
      intro fuel enough
      obtain ⟨fuel, rfl⟩ := Nat.exists_eq_succ_of_ne_zero (Nat.ne_of_gt (Nat.zero_lt_of_lt enough))
      have read := ih [] fuel (by omega) rfl
      rw [List.append_nil] at read
      simp only [constWhole, read, Option.bind_eq_bind, Option.bind_some]
  | @more source value rest others value' sign first signed later ihFirst ihLater =>
      intro fuel enough
      obtain ⟨fuel, rfl⟩ := Nat.exists_eq_succ_of_ne_zero (Nat.ne_of_gt (Nat.zero_lt_of_lt enough))
      have shorter := sizes_lt_of_firstOperator? signed
      rw [sizes_append] at enough
      have stops := stopsAt_of_firstOperator? signed
      have read := ihFirst rest fuel (by omega) (stops.eat?_eq_none (by decide))
      have remaining := ihLater fuel (by omega)
      cases rest with
      | nil => cases signed
      | cons tree after =>
          simp only [constWhole, read, signed, remaining, Option.bind_eq_bind, Option.bind_some,
            List.append_assoc]
  | empty =>
      intro fuel _
      rfl
  | full whole ih =>
      intro fuel enough
      rw [if_neg (by rw [List.isEmpty_iff]; exact whole.ne_nil_of_whole)]
      exact ih fuel enough
  | literalArg => rfl
  | truth truth => simp only [ConstKind.Reads, constant?, literal?, truth, if_true]
  | negative digit => simp only [ConstKind.Reads, constant?, literal?, digit, if_true]
  | @block inner value pos inside ih =>
      have read := ih (2 * sizes inner + 2) (by omega)
      exact inside_bind (fun inner => ([delimited .brace inner], [])) read

theorem constExpr?_eq_some_iff {source value : Tokens} :
    constExpr? source = some value ↔ ConstSpelling .whole source value :=
  ⟨fun found => (readsSpelled _).whole _ _ found, fun spelled => spelled.reads _ (by omega)⟩

theorem constant?_eq_some_iff {source value : Tokens} :
    constant? source = some (value, []) ↔ ConstSpelling .argument source value := by
  refine ⟨?_, fun spelled => spelled.reads⟩
  intro found
  unfold constant? literal? at found
  split at found
  · rename_i literal
    cases found
    split at literal
    · cases literal
      exact .literalArg
    · split at literal
      · rename_i truth
        cases literal
        exact .truth truth
      · cases literal
    · split at literal
      · rename_i digit
        cases literal
        exact .negative digit
      · cases literal
    · cases literal
  · split at found
    · obtain ⟨kept, rfl, rfl, inside⟩ := (readsSpelled _).inside found
      exact .block inside
    · cases found

/-! ### Kept constants -/

/-- What a constant is kept as spells the same constant. -/
theorem ConstSpelling.kept {kind : ConstKind} {source value : Tokens}
    (spelled : ConstSpelling kind source value) : ConstSpelling kind value value := by
  induction spelled with
  | literal => exact .literal
  | group noBracket inside ih => exact .group noBracket ih
  | word special => exact .word special
  | path word others ih => exact .path word ih
  | sign member inner ih => exact .sign member ih
  | noSteps => exact .noSteps
  | step word others ih => exact .step word ih
  | only operand ih => exact .only ih
  | more first signed later ihFirst ihLater =>
      exact .more ihFirst (firstOperator?_operator (mem_of_firstOperator? signed).1 _) ihLater
  | empty => exact .empty
  | full whole ih => exact .full ih
  | literalArg => exact .literalArg
  | truth truth => exact .truth truth
  | negative digit => exact .negative digit
  | block inside ih => exact .block ih

theorem constExpr?_kept {source value : Tokens} (found : constExpr? source = some value) :
    constExpr? value = some value :=
  constExpr?_eq_some_iff.mpr (constExpr?_eq_some_iff.mp found).kept

theorem constant?_kept {source value : Tokens} (found : constant? source = some (value, [])) :
    constant? value = some (value, []) :=
  constant?_eq_some_iff.mpr (constant?_eq_some_iff.mp found).kept

end TypeConcepts
