import Mathlib.Data.List.Forall2
import TypeConcepts.Concept.Expansion
import TypeConcepts.Proofs.Formula.Grammar
import TypeConcepts.Proofs.Success

/-!
The code of a request means what the request says.

The code is read with the grammar of the language that it is written in, in which an atom is the
call of a predicate or a block. That reading is unique, has the leaves of the request for atoms, and
is true under every assignment of truth values to its atoms exactly when all formulas are.
-/

namespace TypeConcepts

open TokenTree

namespace Formula

variable {α β : Type}

/-- The truth of a formula whose first leaf has the given number. Equal leaves at two places may
differ in truth. -/
def evalFrom (truth : Nat → Bool) : Nat → Formula α → Bool
  | first, .leaf _ => truth first
  | first, .and left right =>
      left.evalFrom truth first && right.evalFrom truth (first + left.leaves.length)
  | first, .or left right =>
      left.evalFrom truth first || right.evalFrom truth (first + left.leaves.length)
  | first, .not operand => !operand.evalFrom truth first

/-- The truth of all formulas of a list, whose leaves are numbered on from one to the next. -/
def evalEachFrom (truth : Nat → Bool) : Nat → List (Formula α) → Bool
  | _, [] => true
  | first, formula :: rest =>
      formula.evalFrom truth first && evalEachFrom truth (first + formula.leaves.length) rest

/-- Both formulas have one form, and their leaves are related place by place. -/
inductive Mirrors (relates : α → β → Prop) : Formula α → Formula β → Prop
  | leaf {value : α} {image : β} (related : relates value image) :
      Mirrors relates (.leaf value) (.leaf image)
  | and {left right : Formula α} {left' right' : Formula β}
      (first : Mirrors relates left left') (second : Mirrors relates right right') :
      Mirrors relates (.and left right) (.and left' right')
  | or {left right : Formula α} {left' right' : Formula β}
      (first : Mirrors relates left left') (second : Mirrors relates right right') :
      Mirrors relates (.or left right) (.or left' right')
  | not {operand : Formula α} {operand' : Formula β} (inner : Mirrors relates operand operand') :
      Mirrors relates (.not operand) (.not operand')

theorem Mirrors.leaves {relates : α → β → Prop} {formula : Formula α} {image : Formula β}
    (mirrors : Mirrors relates formula image) :
    List.Forall₂ relates formula.leaves image.leaves := by
  induction mirrors with
  | leaf related => exact .cons related .nil
  | and first second ihFirst ihSecond => exact List.rel_append ihFirst ihSecond
  | or first second ihFirst ihSecond => exact List.rel_append ihFirst ihSecond
  | not inner ih => exact ih

theorem Mirrors.evalFrom_eq {relates : α → β → Prop} {formula : Formula α} {image : Formula β}
    (mirrors : Mirrors relates formula image) (truth : Nat → Bool) (first : Nat) :
    image.evalFrom truth first = formula.evalFrom truth first := by
  induction mirrors generalizing first with
  | leaf related => rfl
  | and left right ihLeft ihRight =>
      have sameCount := left.leaves.length_eq
      simp only [evalFrom, ihLeft, ihRight, sameCount]
  | or left right ihLeft ihRight =>
      have sameCount := left.leaves.length_eq
      simp only [evalFrom, ihLeft, ihRight, sameCount]
  | not inner ih => simp only [evalFrom, ih]

/-- The atoms of code: the call of a predicate, or a block. -/
inductive IsAtom : Tokens → Prop
  | call {pos pos₁ pos₂ pos₃ pos₄ pos₅ pos₆ pos₇ : Nat} {after after₁ bang : Spacing}
      {name : String} {inner : Tokens} :
      IsAtom [.punct ':' .joint pos, .punct ':' after pos₁, .ident "tola_concepts" pos₂,
        .punct ':' .joint pos₃, .punct ':' after₁ pos₄, .ident name pos₅, .punct '!' bang pos₆,
        .group .paren inner pos₇]
  | block {inner : Tokens} {pos : Nat} : IsAtom [.group .brace inner pos]

/-- The terminals of code. A negation is no part of an inequality. -/
def Terminals.ofCode : Terminals Tokens where
  negation := Lone '!' '='
  conjunction tokens rest := ∃ pos spacing pos',
    tokens = .punct '&' .joint pos :: .punct '&' spacing pos' :: rest
  disjunction tokens rest := ∃ pos spacing pos',
    tokens = .punct '|' .joint pos :: .punct '|' spacing pos' :: rest
  leaf tokens atom rest := IsAtom atom ∧ tokens = atom ++ rest

def Connectives.doubled : Connectives :=
  ⟨single? '!' ['!', '='], eat? ['&', '&'], eat? ['|', '|']⟩

def readAtom : Reader Tokens
  | .punct ':' .joint pos :: .punct ':' after pos₁ :: .ident "tola_concepts" pos₂ ::
      .punct ':' .joint pos₃ :: .punct ':' after₁ pos₄ :: .ident name pos₅ ::
      .punct '!' bang pos₆ :: .group .paren inner pos₇ :: rest =>
      some ([.punct ':' .joint pos, .punct ':' after pos₁, .ident "tola_concepts" pos₂,
        .punct ':' .joint pos₃, .punct ':' after₁ pos₄, .ident name pos₅, .punct '!' bang pos₆,
        .group .paren inner pos₇], rest)
  | .group .brace inner pos :: rest => some ([.group .brace inner pos], rest)
  | _ => none

theorem readAtom_eq_some_iff {tokens atom rest : Tokens} :
    readAtom tokens = some (atom, rest) ↔ IsAtom atom ∧ tokens = atom ++ rest := by
  constructor
  · intro read
    unfold readAtom at read
    split at read
    · cases read
      exact ⟨.call, rfl⟩
    · cases read
      exact ⟨.block, rfl⟩
    · contradiction
  · rintro ⟨isAtom, rfl⟩
    cases isAtom <;> rfl

theorem recognises_ofCode : Recognises .doubled readAtom .ofCode where
  negation tokens rest := single?_pair_iff
  conjunction tokens rest := eat?_pair_iff
  disjunction tokens rest := eat?_pair_iff
  leaf tokens atom rest := by
    rw [readAtom_eq_some_iff]
    constructor
    · rintro ⟨isAtom, rfl⟩
      refine ⟨?_, ?_, isAtom, rfl⟩
      · cases isAtom <;> rfl
      · cases isAtom <;> rfl
    · rintro ⟨_, _, found⟩
      exact found
  ungrouped inner pos rest := rfl
  apart := by
    rintro tokens rest ⟨pos, spacing, pos', rfl⟩
    rfl
  negationConsumes tokens rest lone := lone.consumes
  conjunctionConsumes := by
    rintro tokens rest ⟨pos, spacing, pos', rfl⟩
    exact ⟨_, [_], rfl⟩
  disjunctionConsumes := by
    rintro tokens rest ⟨pos, spacing, pos', rfl⟩
    exact ⟨_, [_], rfl⟩
  leafSuffix := by
    rintro tokens atom rest ⟨_, rfl⟩
    exact List.suffix_append atom rest

theorem Derives.length_lt_ofCode {rank : Rank} {tokens rest : Tokens} {formula : Formula Tokens}
    (derivation : Derives .ofCode rank tokens formula rest) : rest.length < tokens.length := by
  induction derivation with
  | factors only ih => exact ih
  | operand only ih => exact ih
  | or first sign second ihFirst ihSecond =>
      have signLength := (recognises_ofCode.disjunctionConsumes _ _ sign).length_lt
      omega
  | and first sign second ihFirst ihSecond =>
      have signLength := (recognises_ofCode.conjunctionConsumes _ _ sign).length_lt
      omega
  | not sign inner ih =>
      have signLength := (recognises_ofCode.negationConsumes _ _ sign).length_lt
      omega
  | group whole ih => exact Nat.lt_succ_self _
  | leaf found =>
      obtain ⟨isAtom, rfl⟩ := found
      cases isAtom <;> (simp; try omega)

/-! ### The code of one formula -/

private theorem derives_and {left right : Tokens} {first second : Formula Tokens}
    (leftDerives : ∀ rest, Derives .ofCode .operand (left ++ rest) first rest)
    (rightDerives : ∀ rest, Derives .ofCode .operand (right ++ rest) second rest)
    (rest : Tokens) :
    Derives .ofCode .operand
      ([delimited .paren (left ++ operator ['&', '&'] ++ right)] ++ rest)
      (.and first second) rest := by
  have leftFactor := leftDerives (operator ['&', '&'] ++ right)
  have rightFactor := rightDerives []
  rw [List.append_nil] at rightFactor
  apply Derives.group
  rw [List.append_assoc]
  exact .factors (.and (.operand leftFactor) ⟨0, .alone, 0, rfl⟩ rightFactor)

private theorem derives_or {left right : Tokens} {first second : Formula Tokens}
    (leftDerives : ∀ rest, Derives .ofCode .operand (left ++ rest) first rest)
    (rightDerives : ∀ rest, Derives .ofCode .operand (right ++ rest) second rest)
    (rest : Tokens) :
    Derives .ofCode .operand
      ([delimited .paren (left ++ operator ['|', '|'] ++ right)] ++ rest)
      (.or first second) rest := by
  have leftAlternative := leftDerives (operator ['|', '|'] ++ right)
  have rightAlternative := rightDerives []
  rw [List.append_nil] at rightAlternative
  apply Derives.group
  rw [List.append_assoc]
  exact .or (.factors (.operand leftAlternative)) ⟨0, .alone, 0, rfl⟩ (.operand rightAlternative)

private theorem derives_not {operand : Tokens} {inner : Formula Tokens}
    (operandDerives : ∀ rest, Derives .ofCode .operand (operand ++ rest) inner rest)
    (rest : Tokens) :
    Derives .ofCode .operand ([delimited .paren (mark '!' :: operand)] ++ rest)
      (.not inner) rest := by
  have negated := operandDerives []
  rw [List.append_nil] at negated
  exact .group (.factors (.operand (.not .alone negated)))

theorem isAtom_of_expandLeaf {subject leaf : TypeExpr} {code : Tokens}
    (expanded : expandLeaf subject leaf = .ok code) : IsAtom code := by
  unfold expandLeaf at expanded
  split at expanded
  · contradiction
  · cases expanded
    exact .block
  · cases expanded
    exact .call

/-- The code of a formula is an operand, and it is read as that formula of the leaves' code. -/
theorem derives_of_expand {subject : TypeExpr} {formula : Formula TypeExpr} {code : Tokens}
    (expanded : formula.expand (expandLeaf subject) = .ok code) :
    ∃ reading, Mirrors (fun leaf atom => expandLeaf subject leaf = .ok atom) formula reading ∧
      ∀ rest, Derives .ofCode .operand (code ++ rest) reading rest := by
  induction formula generalizing code with
  | leaf value =>
      refine ⟨.leaf code, .leaf expanded, ?_⟩
      intro rest
      exact .leaf ⟨isAtom_of_expandLeaf expanded, rfl⟩
  | and left right ihLeft ihRight =>
      obtain ⟨leftCode, leftExpanded, remaining⟩ := exists_of_bind_eq_ok expanded
      obtain ⟨rightCode, rightExpanded, finished⟩ := exists_of_bind_eq_ok remaining
      cases finished
      obtain ⟨leftReading, leftMirrors, leftDerives⟩ := ihLeft leftExpanded
      obtain ⟨rightReading, rightMirrors, rightDerives⟩ := ihRight rightExpanded
      exact ⟨.and leftReading rightReading, .and leftMirrors rightMirrors,
        derives_and leftDerives rightDerives⟩
  | or left right ihLeft ihRight =>
      obtain ⟨leftCode, leftExpanded, remaining⟩ := exists_of_bind_eq_ok expanded
      obtain ⟨rightCode, rightExpanded, finished⟩ := exists_of_bind_eq_ok remaining
      cases finished
      obtain ⟨leftReading, leftMirrors, leftDerives⟩ := ihLeft leftExpanded
      obtain ⟨rightReading, rightMirrors, rightDerives⟩ := ihRight rightExpanded
      exact ⟨.or leftReading rightReading, .or leftMirrors rightMirrors,
        derives_or leftDerives rightDerives⟩
  | not operand ih =>
      obtain ⟨operandCode, operandExpanded, finished⟩ := exists_of_bind_eq_ok expanded
      cases finished
      obtain ⟨operandReading, operandMirrors, operandDerives⟩ := ih operandExpanded
      exact ⟨.not operandReading, .not operandMirrors, derives_not operandDerives⟩

theorem exists_expand {γ : Type} {atom : γ → Except Complaint Tokens} {formula : Formula γ}
    (each : ∀ leaf ∈ formula.leaves, ∃ code, atom leaf = .ok code) :
    ∃ code, formula.expand atom = .ok code := by
  induction formula with
  | leaf value => exact each value (List.mem_singleton.mpr rfl)
  | and left right ihLeft ihRight =>
      obtain ⟨first, leftCode⟩ :=
        ihLeft fun leaf member => each leaf (List.mem_append_left _ member)
      obtain ⟨second, rightCode⟩ :=
        ihRight fun leaf member => each leaf (List.mem_append_right _ member)
      rw [expand, leftCode, rightCode]
      exact ⟨_, rfl⟩
  | or left right ihLeft ihRight =>
      obtain ⟨first, leftCode⟩ :=
        ihLeft fun leaf member => each leaf (List.mem_append_left _ member)
      obtain ⟨second, rightCode⟩ :=
        ihRight fun leaf member => each leaf (List.mem_append_right _ member)
      rw [expand, leftCode, rightCode]
      exact ⟨_, rfl⟩
  | not operand ih =>
      obtain ⟨inner, operandCode⟩ := ih each
      rw [expand, operandCode]
      exact ⟨_, rfl⟩

/-! ### The code of several formulas -/

/-- The product of formulas, grouped to the left. -/
def product (first : Formula α) (others : List (Formula α)) : Formula α :=
  others.foldl .and first

theorem evalFrom_product (truth : Nat → Bool) (start : Nat) (first : Formula α)
    (others : List (Formula α)) :
    (product first others).evalFrom truth start = evalEachFrom truth start (first :: others) := by
  induction others generalizing first with
  | nil => simp [product, evalEachFrom]
  | cons second rest ih =>
      have step := ih (.and first second)
      simp only [product, List.foldl_cons] at step ⊢
      rw [step]
      simp only [evalEachFrom, evalFrom, leaves, List.length_append, Bool.and_assoc, Nat.add_assoc]

theorem leaves_product (first : Formula α) (others : List (Formula α)) :
    (product first others).leaves = (first :: others).flatMap leaves := by
  induction others generalizing first with
  | nil => simp [product]
  | cons second rest ih =>
      have step := ih (.and first second)
      simp only [product, List.foldl_cons] at step ⊢
      rw [step]
      simp [leaves]

private theorem conjunction_cons (first : Tokens) (others : List Tokens) :
    conjunction (first :: others) = first ++ others.flatMap (operator ['&', '&'] ++ ·) := by
  induction others generalizing first with
  | nil => simp [conjunction]
  | cons second rest ih =>
      rw [conjunction, ih second, List.flatMap_cons, List.append_assoc, List.append_assoc]
      exact List.cons_ne_nil _ _

private theorem derives_product {codes : List Tokens} {readings : List (Formula Tokens)}
    (each : List.Forall₂
      (fun code reading => ∀ rest, Derives .ofCode .operand (code ++ rest) reading rest)
      codes readings)
    {start : Tokens} {first : Formula Tokens}
    (sofar : Derives .ofCode .factors start first (codes.flatMap (operator ['&', '&'] ++ ·))) :
    Derives .ofCode .factors start (product first readings) [] := by
  induction each generalizing first with
  | nil => exact sofar
  | @cons code reading others _ derives _ ih =>
      have next := derives (others.flatMap (operator ['&', '&'] ++ ·))
      apply ih
      exact .and sofar ⟨0, .alone, 0, rfl⟩ next

end Formula

/-! ### The code of a request -/

/-- What an atom holds. A call passes the subject and the arguments of the leaf to the predicate of
its concept; a block has an implementation under the bound that the leaf names, and the constant of
the subject for its value. -/
inductive Poses (subject leaf : TypeExpr) : Tokens → Prop
  | call {ref : ConceptRef} (concept : ConceptRef.ofType leaf = .ok (some ref)) :
      Poses subject leaf
        [.punct ':' .joint 0, mark ':', word "tola_concepts", .punct ':' .joint 0, mark ':',
          word ref.concept.predicate, mark '!', delimited .paren
            (subject.tokens ++ ref.args.flatMap fun argument => mark ',' :: argument.tokens)]
  | block {before after : Tokens} (plain : ConceptRef.ofType leaf = .ok none) :
      Poses subject leaf [delimited .brace
        (before ++
          ([word "impl", mark '<', word "X", mark ':', mark '?', word "Sized", mark '+'] ++
            leaf.tokens ++ [mark '>', word "__Probe", mark '<', word "X", mark '>']) ++ after ++
          ([word "__Probe", .punct ':' .joint 0, mark ':', mark '<'] ++ subject.tokens ++
            [mark '>', .punct ':' .joint 0, mark ':', word "VAL"]))]

theorem exists_probeBlock_eq (fallback : String) (impl subject : Tokens) :
    ∃ before after, probeBlock fallback impl subject = delimited .brace
      (before ++ impl ++ after ++ [word "__Probe"] ++ pathSep ++ angled subject ++ pathSep ++
        [word "VAL"]) :=
  ⟨_, _, rfl⟩

theorem poses_of_expandLeaf {subject leaf : TypeExpr} {code : Tokens}
    (expanded : expandLeaf subject leaf = .ok code) : Poses subject leaf code := by
  unfold expandLeaf at expanded
  split at expanded
  · contradiction
  · rename_i plain
    cases expanded
    rcases exists_probeBlock_eq "__ProbeFallback"
      ([word "impl"] ++ angled (word "X" :: mark ':' :: relaxedSize ++ mark '+' :: leaf.tokens)
        ++ [word "__Probe"] ++ angled [word "X"]) subject.tokens with ⟨before, after, same⟩
    have poses := @Poses.block subject leaf before after plain
    rw [boundProbe, same]
    simpa only [angled, pathSep, relaxedSize, operator, List.append_assoc, List.cons_append,
      List.nil_append] using poses
  · rename_i ref concept
    cases expanded
    have call := @Poses.call subject leaf ref concept
    rwa [← List.flatMap_map] at call

/-- The leaves of a request, each with the subject that it is asked of. -/
def Check.questions {α : Type} (checks : List (Check α)) : List (α × α) :=
  checks.flatMap fun check => check.formula.leaves.map fun leaf => (check.subject, leaf)

private theorem forall₂_of_expandEach {checks : List (Check TypeExpr)} {parts : List Tokens}
    (expanded : expandEach checks = .ok parts) :
    List.Forall₂ (fun check part => Check.expand check = .ok part) checks parts := by
  induction checks generalizing parts with
  | nil =>
      cases expanded
      exact .nil
  | cons check rest ih =>
      obtain ⟨first, firstExpanded, remaining⟩ := exists_of_bind_eq_ok expanded
      obtain ⟨others, othersExpanded, finished⟩ := exists_of_bind_eq_ok remaining
      cases finished
      exact .cons firstExpanded (ih othersExpanded)

private theorem exists_expandEach {checks : List (Check TypeExpr)}
    (known : ∀ check ∈ checks, ∀ leaf ∈ check.formula.leaves,
      ∃ found, ConceptRef.ofType leaf = .ok found) :
    ∃ parts, expandEach checks = .ok parts := by
  induction checks with
  | nil => exact ⟨[], rfl⟩
  | cons check rest ih =>
      have leaves : ∀ leaf ∈ check.formula.leaves,
          ∃ code, expandLeaf check.subject leaf = .ok code := by
        intro leaf member
        obtain ⟨found, looked⟩ := known check List.mem_cons_self leaf member
        cases found with
        | none => exact ⟨_, by rw [expandLeaf, looked]⟩
        | some ref => exact ⟨_, by rw [expandLeaf, looked]⟩
      obtain ⟨first, firstExpanded⟩ := Formula.exists_expand leaves
      obtain ⟨others, othersExpanded⟩ :=
        ih fun check member => known check (List.mem_cons_of_mem _ member)
      rw [expandEach, Check.expand, firstExpanded, othersExpanded]
      exact ⟨_, rfl⟩

namespace Check

def IsReading (check : Check TypeExpr) (reading : Formula Tokens) : Prop :=
  Formula.Mirrors (fun leaf atom => expandLeaf check.subject leaf = .ok atom) check.formula reading

private theorem exists_readings {checks : List (Check TypeExpr)} {parts : List Tokens}
    (expanded : List.Forall₂ (fun check part => Check.expand check = .ok part) checks parts) :
    ∃ readings, List.Forall₂ IsReading checks readings ∧
      List.Forall₂
        (fun part reading => ∀ rest, Formula.Derives .ofCode .operand (part ++ rest) reading rest)
        parts readings := by
  induction expanded with
  | nil => exact ⟨[], .nil, .nil⟩
  | cons first others ih =>
      obtain ⟨reading, mirrors, derives⟩ := Formula.derives_of_expand first
      obtain ⟨readings, allMirror, allDerive⟩ := ih
      exact ⟨reading :: readings, .cons mirrors allMirror, .cons derives allDerive⟩

private theorem forall₂_questions {checks : List (Check TypeExpr)}
    {readings : List (Formula Tokens)} (mirror : List.Forall₂ IsReading checks readings) :
    List.Forall₂ (fun question atom => expandLeaf question.1 question.2 = .ok atom)
      (questions checks) (readings.flatMap Formula.leaves) := by
  induction mirror with
  | nil => exact .nil
  | @cons check reading _ _ first others ih =>
      simp only [questions, List.flatMap_cons] at ih ⊢
      refine List.rel_append ?_ ih
      exact List.forall₂_map_left_iff.mpr first.leaves

private theorem evalEachFrom_readings {checks : List (Check TypeExpr)}
    {readings : List (Formula Tokens)} (mirror : List.Forall₂ IsReading checks readings)
    (truth : Nat → Bool) (start : Nat) :
    Formula.evalEachFrom truth start readings =
      Formula.evalEachFrom truth start (checks.map Check.formula) := by
  induction mirror generalizing start with
  | nil => rfl
  | cons first others ih =>
      have sameCount := first.leaves.length_eq
      simp only [Formula.evalEachFrom, List.map_cons, first.evalFrom_eq, ih, sameCount]

private theorem ne_nil_of_readAll {tokens : Tokens} {checks : List (Check TypeExpr)}
    (accepted : ofTokens? tokens = some checks) : checks ≠ [] := by
  rintro rfl
  cases tokens with
  | nil => cases accepted
  | cons first others =>
      simp only [ofTokens?, readAll, List.length_cons, commaList, Option.bind_eq_bind,
        Option.map_eq_some_iff, Option.bind_eq_some_iff, Prod.exists] at accepted
      obtain ⟨found, trailing, ⟨check, rest, _, listed⟩, rfl⟩ := accepted
      cases rest with
      | nil => cases listed
      | cons next after =>
          simp only [Option.bind_eq_some_iff, Prod.exists] at listed
          obtain ⟨_, _, _, _, _, finished⟩ := listed
          cases finished

/-- The code of an accepted request without complaints can be read, in one way only and to its end.
The atoms of the reading are the code of the request's leaves, each of which holds its leaf and its
subject, in the order in which they are written. Whatever their truth, the reading is true exactly
when all formulas are. -/
theorem exists_unique_reading_of_code {tokens : Tokens} {checks : List (Check TypeExpr)}
    (accepted : ofTokens? tokens = some checks)
    (known : ∀ check ∈ checks, ∀ leaf ∈ check.formula.leaves,
      ∃ found, ConceptRef.ofType leaf = .ok found) :
    ∃ code reading, expandChecks checks = .ok code ∧
      Formula.Derives .ofCode .alternatives code reading [] ∧
      (∀ other rest, Formula.Derives .ofCode .alternatives code other rest →
        other = reading ∧ rest = []) ∧
      List.Forall₂ (fun question atom => expandLeaf question.1 question.2 = .ok atom ∧
          Poses question.1 question.2 atom)
        (questions checks) reading.leaves ∧
      ∀ truth : Nat → Bool, reading.evalFrom truth 0 =
        Formula.evalEachFrom truth 0 (checks.map Check.formula) := by
  obtain ⟨parts, expanded⟩ := exists_expandEach known
  obtain ⟨readings, mirror, derive⟩ := exists_readings (forall₂_of_expandEach expanded)
  have nonempty := ne_nil_of_readAll accepted
  cases mirror with
  | nil => exact absurd rfl nonempty
  | @cons check first _ others firstMirrors othersMirror =>
      cases derive with
      | @cons part _ codes _ firstDerives othersDerive =>
          have whole : Formula.Derives .ofCode .alternatives
              [delimited .paren (conjunction (part :: codes))]
              (Formula.product first others) [] := by
            have start := firstDerives (codes.flatMap (operator ['&', '&'] ++ ·))
            rw [← Formula.conjunction_cons] at start
            have factors := Formula.derives_product othersDerive (.operand start)
            exact .factors (.operand (.group (.factors factors)))
          refine ⟨_, Formula.product first others, ?_, whole, ?_, ?_, ?_⟩
          · rw [expandChecks, expanded]
            rfl
          · intro other rest derivation
            -- The code is a single group, so whatever reads any of it leaves nothing.
            have shorter := derivation.length_lt_ofCode
            have ended : rest = [] := List.length_eq_zero_iff.mp (by simpa using shorter)
            subst rest
            exact ⟨derivation.whole_unique Formula.recognises_ofCode whole, rfl⟩
          · rw [Formula.leaves_product]
            have atoms := forall₂_questions (.cons firstMirrors othersMirror)
            exact atoms.imp fun _ _ expanded => ⟨expanded, poses_of_expandLeaf expanded⟩
          · intro truth
            rw [Formula.evalFrom_product]
            exact evalEachFrom_readings (.cons firstMirrors othersMirror) truth 0

/-- The request `u8: !(Clone | Movable) & SameAs<u8>, u8: Clone,`, in which one leaf stands twice.
-/
theorem exists_unique_reading_of_code_repeated_leaf :
    let clone : TypeExpr := .path ⟨0, false, [⟨"Clone", .none⟩]⟩
    let movable : TypeExpr := .path ⟨0, false, [⟨"Movable", .none⟩]⟩
    let byte : TypeExpr := .path ⟨0, false, [⟨"u8", .none⟩]⟩
    let same : TypeExpr := .path ⟨0, false, [⟨"SameAs", .angle false [.type byte] false⟩]⟩
    let checks : List (Check TypeExpr) :=
      [⟨byte, .and (.not (.or (.leaf clone) (.leaf movable))) (.leaf same)⟩, ⟨byte, .leaf clone⟩]
    ofTokens? [word "u8", mark ':', mark '!',
        delimited .paren [word "Clone", mark '|', word "Movable"], mark '&',
        word "SameAs", mark '<', word "u8", mark '>', mark ',',
        word "u8", mark ':', word "Clone", mark ','] = some checks ∧
      (∀ check ∈ checks, ∀ leaf ∈ check.formula.leaves,
        ∃ found, ConceptRef.ofType leaf = .ok found) ∧
      ∃ code reading, expandChecks checks = .ok code ∧
        Formula.Derives .ofCode .alternatives code reading [] ∧
        (∀ other rest, Formula.Derives .ofCode .alternatives code other rest →
          other = reading ∧ rest = []) ∧
        List.Forall₂ (fun question atom => expandLeaf question.1 question.2 = .ok atom ∧
            Poses question.1 question.2 atom)
          [(byte, clone), (byte, movable), (byte, same), (byte, clone)] reading.leaves ∧
        ∀ truth : Nat → Bool, reading.evalFrom truth 0 =
          ((!(truth 0 || truth 1) && truth 2) && truth 3) := by
  intro clone movable byte same checks
  have accepted : ofTokens? [word "u8", mark ':', mark '!',
      delimited .paren [word "Clone", mark '|', word "Movable"], mark '&',
      word "SameAs", mark '<', word "u8", mark '>', mark ',',
      word "u8", mark ':', word "Clone", mark ','] = some checks := rfl
  have known : ∀ check ∈ checks, ∀ leaf ∈ check.formula.leaves,
      ∃ found, ConceptRef.ofType leaf = .ok found := by
    simp only [checks, List.forall_mem_cons, Formula.leaves, List.cons_append, List.nil_append]
    exact ⟨⟨⟨_, rfl⟩, ⟨_, rfl⟩, ⟨_, rfl⟩, by simp⟩, ⟨⟨_, rfl⟩, by simp⟩, by simp⟩
  obtain ⟨code, reading, expanded, derives, unique, atoms, meaning⟩ :=
    exists_unique_reading_of_code accepted known
  refine ⟨accepted, known, code, reading, expanded, derives, unique, atoms, ?_⟩
  intro truth
  rw [meaning truth]
  simp [checks, Formula.evalEachFrom, Formula.evalFrom, Formula.leaves]

end Check

end TypeConcepts
