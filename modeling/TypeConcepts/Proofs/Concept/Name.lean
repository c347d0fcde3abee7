import Mathlib.Tactic.MkIffOfInductiveProp
import TypeConcepts.Proofs.Concept.Routing

/-!
The name of a predicate keeps the whole name of its concept: the words between its underscores,
each with a capital in front and written together, are that name again. So no two concepts share a
predicate.
-/

namespace TypeConcepts

open Text

section Letters

variable {c : Char}

theorem isUpper_iff : c.isUpper = true ↔ 65 ≤ c.toNat ∧ c.toNat ≤ 90 := by
  unfold Char.isUpper
  simp only [UInt32.le_iff_toNat_le, decide_eq_true_eq]
  rfl

theorem isLower_iff : c.isLower = true ↔ 97 ≤ c.toNat ∧ c.toNat ≤ 122 := by
  unfold Char.isLower
  simp only [UInt32.le_iff_toNat_le, Bool.and_eq_true, decide_eq_true_eq]
  rfl

theorem toNat_toLower : c.toLower.toNat = if c.isUpper then c.toNat + 32 else c.toNat := by
  by_cases upper : c.isUpper = true
  · have range := isUpper_iff.mp upper
    have inRange : c.val ≥ 'A'.val ∧ c.val ≤ 'Z'.val := range
    have bound : c.val.toNat ≤ 90 := range.2
    have shift : ('a'.val - 'A'.val).toNat = 32 := rfl
    unfold Char.toLower
    rw [if_pos upper, dif_pos inRange]
    change (c.val + ('a'.val - 'A'.val)).toNat = c.val.toNat + 32
    rw [UInt32.toNat_add, shift]
    omega
  · have outOfRange : ¬(c.val ≥ 'A'.val ∧ c.val ≤ 'Z'.val) := mt isUpper_iff.mpr upper
    unfold Char.toLower
    rw [if_neg upper, dif_neg outOfRange]

theorem toNat_toUpper : c.toUpper.toNat = if c.isLower then c.toNat - 32 else c.toNat := by
  by_cases lower : c.isLower = true
  · have range := isLower_iff.mp lower
    have inRange : 'a'.val ≤ c.val ∧ c.val ≤ 'z'.val := range
    have bounds : 97 ≤ c.val.toNat ∧ c.val.toNat ≤ 122 := range
    have shift : ('A'.val - 'a'.val).toNat = 4294967264 := by decide
    unfold Char.toUpper
    rw [if_pos lower, dif_pos inRange]
    change (c.val + ('A'.val - 'a'.val)).toNat = c.val.toNat - 32
    rw [UInt32.toNat_add, shift]
    omega
  · have outOfRange : ¬('a'.val ≤ c.val ∧ c.val ≤ 'z'.val) := mt isLower_iff.mpr lower
    unfold Char.toUpper
    rw [if_neg lower, dif_neg outOfRange]

theorem toLower_of_not_isUpper (other : ¬c.isUpper = true) : c.toLower = c := by
  rw [← Char.toNat_inj, toNat_toLower, if_neg other]

theorem toUpper_of_not_isLower (other : ¬c.isLower = true) : c.toUpper = c := by
  rw [← Char.toNat_inj, toNat_toUpper, if_neg other]

theorem isLower_toUpper : c.toUpper.isLower = false := by
  rw [Bool.eq_false_iff, Ne, isLower_iff, toNat_toUpper]
  by_cases lower : c.isLower = true
  · have range := isLower_iff.mp lower
    rw [if_pos lower]
    omega
  · rw [if_neg lower]
    exact mt isLower_iff.mpr lower

theorem toUpper_toLower (other : ¬c.isLower = true) : c.toLower.toUpper = c := by
  by_cases upper : c.isUpper = true
  · have range := isUpper_iff.mp upper
    have shifted : c.toLower.toNat = c.toNat + 32 := by rw [toNat_toLower, if_pos upper]
    have lower : c.toLower.isLower = true := by
      rw [isLower_iff, shifted]
      omega
    rw [← Char.toNat_inj, toNat_toUpper, if_pos lower, shifted, Nat.add_sub_cancel]
  · rw [toLower_of_not_isUpper upper, toUpper_of_not_isLower other]

theorem eq_underscore_of_toLower (same : c.toLower = '_') : c = '_' := by
  by_cases upper : c.isUpper = true
  · have range := isUpper_iff.mp upper
    have shifted : c.toLower.toNat = c.toNat + 32 := by rw [toNat_toLower, if_pos upper]
    have underscore : '_'.toNat = 95 := rfl
    rw [same] at shifted
    omega
  · rwa [toLower_of_not_isUpper upper] at same

theorem eq_underscore_of_toUpper (same : c.toUpper = '_') : c = '_' := by
  by_cases lower : c.isLower = true
  · have range := isLower_iff.mp lower
    have shifted : c.toUpper.toNat = c.toNat - 32 := by rw [toNat_toUpper, if_pos lower]
    have underscore : '_'.toNat = 95 := rfl
    rw [same] at shifted
    omega
  · rwa [toUpper_of_not_isLower lower] at same

theorem isUppercase_of_isUpper (upper : c.isUpper = true) : isUppercase c = true := by
  have range := isUpper_iff.mp upper
  exact isUppercase_of_ascii range.1 range.2

theorem isLower_eq_false_of_isUppercase (upper : isUppercase c = true) : c.isLower = false := by
  have apart : ∀ run ∈ capitalRuns ++ alternatingRuns, run.2 < 97 ∨ 122 < run.1 := by
    decide +kernel
  have found : ∃ run ∈ capitalRuns ++ alternatingRuns, run.has c.toNat = true := by
    rw [isUppercase, Bool.or_eq_true, List.any_eq_true, List.any_eq_true] at upper
    rcases upper with ⟨run, member, inside⟩ | ⟨run, member, inside⟩
    · exact ⟨run, List.mem_append_left _ member, inside⟩
    · rw [CodeRange.hasEvery, Bool.and_eq_true] at inside
      exact ⟨run, List.mem_append_right _ member, inside.1⟩
  rcases found with ⟨run, member, inside⟩
  simp only [CodeRange.has, Bool.and_eq_true, decide_eq_true_eq] at inside
  rw [Bool.eq_false_iff, Ne, isLower_iff]
  rcases apart run member with below | above <;> omega

end Letters

/-- A capital and what follows it up to the next. -/
structure IsWord (word : List Char) : Prop where
  front : ∃ first ∈ word.head?, isUppercase first = true
  rest : ∀ c ∈ word.tail, isUppercase c = false

theorem snakeTail_append {plain : List Char} (noCapital : ∀ c ∈ plain, isUppercase c = false)
    (rest : List Char) : snakeTail (plain ++ rest) = plain.map Char.toLower ++ snakeTail rest := by
  induction plain with
  | nil => rfl
  | cons c others ih =>
      rw [List.forall_mem_cons] at noCapital
      rw [List.cons_append, snakeTail, ih noCapital.2, noCapital.1]
      rfl

theorem snakeTail_flatten {words : List (List Char)} (each : ∀ word ∈ words, IsWord word) :
    snakeTail words.flatten = words.flatMap fun word => '_' :: word.map Char.toLower := by
  induction words with
  | nil => rfl
  | cons word others ih =>
      rw [List.forall_mem_cons] at each
      rcases each.1.front with ⟨first, isFirst, upper⟩
      cases word with
      | nil => cases isFirst
      | cons c rest =>
          cases isFirst
          have small : ∀ c ∈ rest, isUppercase c = false := each.1.rest
          rw [List.flatten_cons, List.cons_append, snakeTail, snakeTail_append small, ih each.2,
            upper, List.flatMap_cons]
          rfl

theorem intercalate_underscore (word : List Char) (words : List (List Char)) :
    ['_'].intercalate (word :: words) = word ++ words.flatMap ('_' :: ·) := by
  induction words generalizing word with
  | nil => rw [List.intercalate_singleton, List.flatMap_nil, List.append_nil]
  | cons next others ih =>
      rw [List.intercalate_cons_cons, ih next, List.flatMap_cons, List.append_assoc]
      rfl

/-- The snake case of words written together is the words in lower case with underscores between. -/
theorem snakeCase_flatten {words : List (List Char)} (each : ∀ word ∈ words, IsWord word) :
    snakeCase words.flatten = ['_'].intercalate (words.map (List.map Char.toLower)) := by
  cases words with
  | nil => rfl
  | cons word others =>
      rw [List.forall_mem_cons] at each
      rcases each.1.front with ⟨first, isFirst, upper⟩
      cases word with
      | nil => cases isFirst
      | cons c rest =>
          have small : ∀ c ∈ rest, isUppercase c = false := each.1.rest
          rw [List.map_cons, intercalate_underscore, List.flatMap_map, List.flatten_cons,
            List.cons_append, snakeCase, snakeTail_append small, snakeTail_flatten each.2]
          rfl

theorem exists_words (text : List Char) :
    ∃ (plain : List Char) (words : List (List Char)), (∀ c ∈ plain, isUppercase c = false) ∧
      (∀ word ∈ words, IsWord word) ∧ text = plain ++ words.flatten := by
  induction text with
  | nil => exact ⟨[], [], List.forall_mem_nil _, List.forall_mem_nil _, rfl⟩
  | cons c rest ih =>
      rcases ih with ⟨plain, words, noCapital, each, split⟩
      by_cases upper : isUppercase c = true
      · have first : IsWord (c :: plain) := ⟨⟨c, rfl, upper⟩, noCapital⟩
        refine ⟨[], (c :: plain) :: words, List.forall_mem_nil _,
          List.forall_mem_cons.mpr ⟨first, each⟩, ?_⟩
        rw [split]
        rfl
      · have small := Bool.eq_false_iff.mpr upper
        refine ⟨c :: plain, words, List.forall_mem_cons.mpr ⟨small, noCapital⟩, each, ?_⟩
        rw [split]
        rfl

/-! ### Words written together -/

/-- Capitalises the first character of every word, and drops the underscores between the words.
`start` tells whether a word starts here. -/
def joinWords (start : Bool) : List Char → List Char
  | [] => []
  | c :: rest =>
      if c = '_' then joinWords true rest
      else (if start then c.toUpper else c) :: joinWords false rest

def camelCase (name : List Char) : List Char := joinWords true name

/-- A name without underscores, with no small letter of ASCII in front. -/
@[mk_iff]
structure CamelCased (name : List Char) : Prop where
  unbroken : '_' ∉ name
  front : ∀ first ∈ name.head?, first.isLower = false

theorem joinWords_unbroken (start : Bool) (name : List Char) : '_' ∉ joinWords start name := by
  induction name generalizing start with
  | nil => exact List.not_mem_nil
  | cons c rest ih =>
      rw [joinWords]
      by_cases underscore : c = '_'
      · rw [if_pos underscore]
        exact ih true
      · rw [if_neg underscore, List.mem_cons, not_or]
        refine ⟨fun same => underscore ?_, ih false⟩
        cases start with
        | true => exact eq_underscore_of_toUpper same.symm
        | false => exact same.symm

theorem camelCased_camelCase (name : List Char) : CamelCased (camelCase name) := by
  refine ⟨joinWords_unbroken true name, ?_⟩
  unfold camelCase
  induction name with
  | nil => exact nofun
  | cons c rest ih =>
      rw [joinWords]
      by_cases underscore : c = '_'
      · rwa [if_pos underscore]
      · rw [if_neg underscore]
        rintro _ ⟨⟩
        exact isLower_toUpper

theorem joinWords_snakeTail {name : List Char} (unbroken : '_' ∉ name) :
    joinWords false (snakeTail name) = name := by
  induction name with
  | nil => rfl
  | cons c rest ih =>
      rw [List.mem_cons, not_or] at unbroken
      have later := ih unbroken.2
      have plain : c.toLower ≠ '_' := fun same => unbroken.1 (eq_underscore_of_toLower same).symm
      rw [snakeTail]
      by_cases upper : isUppercase c = true
      · have small : ¬c.isLower = true := by simp [isLower_eq_false_of_isUppercase upper]
        rw [if_pos upper, List.singleton_append, joinWords, if_pos rfl, joinWords, if_neg plain,
          if_pos rfl, toUpper_toLower small, later]
      · have same := toLower_of_not_isUpper (mt isUppercase_of_isUpper upper)
        rw [same] at plain ⊢
        rw [if_neg upper, List.nil_append, joinWords, if_neg plain, later]
        rfl

/-- Snake case is undone by writing the words together exactly for names in camel case. -/
theorem camelCase_snakeCase_iff {name : List Char} :
    camelCase (snakeCase name) = name ↔ CamelCased name := by
  constructor
  · intro same
    rw [← same]
    exact camelCased_camelCase _
  · rintro ⟨unbroken, front⟩
    cases name with
    | nil => rfl
    | cons c rest =>
        rw [List.mem_cons, not_or] at unbroken
        have plain : c.toLower ≠ '_' := fun same => unbroken.1 (eq_underscore_of_toLower same).symm
        have small : ¬c.isLower = true := by simp [front c rfl]
        rw [snakeCase, camelCase, joinWords, if_neg plain, if_pos rfl, toUpper_toLower small,
          joinWords_snakeTail unbroken.2]

/-- Both conditions are needed: an underscore of the name's own looks like one put in, and a small
letter in front like a capital made small. -/
example : snakeCase ['A', '_', 'b'] = snakeCase ['A', 'B'] ∧ snakeCase ['a'] = snakeCase ['A'] := by
  decide

theorem snakeCase_inj {name other : List Char} (named : CamelCased name)
    (named' : CamelCased other) : snakeCase name = snakeCase other ↔ name = other := by
  refine ⟨fun same => ?_, congrArg snakeCase⟩
  calc name = camelCase (snakeCase name) := (camelCase_snakeCase_iff.mpr named).symm
    _ = camelCase (snakeCase other) := congrArg camelCase same
    _ = other := camelCase_snakeCase_iff.mpr named'

/-- Snake case never merges two names in camel case: such a name, and no other, is found again by
writing the words together. -/
theorem snakeCase_merges_no_names :
    (∀ name : String, camelCase (snakeCase name.toList) = name.toList ↔ CamelCased name.toList) ∧
    ∀ name other : String, CamelCased name.toList → CamelCased other.toList →
      (snakeCase name.toList = snakeCase other.toList ↔ name = other) := by
  refine ⟨fun name => camelCase_snakeCase_iff, fun name other named named' => ?_⟩
  rw [snakeCase_inj named named', String.toList_inj]

/-- Capitals in a row, and capitals beyond ASCII, which keep their case behind their underscore. -/
theorem snakeCase_merges_no_names_capitals :
    CamelCased "ÀRowOfÀÉ2".toList ∧ CamelCased "ÀRowOfÀE2".toList ∧
      camelCase (snakeCase "ÀRowOfÀÉ2".toList) = "ÀRowOfÀÉ2".toList ∧
      snakeCase "ÀRowOfÀÉ2".toList ≠ snakeCase "ÀRowOfÀE2".toList := by
  have named : CamelCased "ÀRowOfÀÉ2".toList := by simp [camelCased_iff]
  have named' : CamelCased "ÀRowOfÀE2".toList := by simp [camelCased_iff]
  obtain ⟨again, distinct⟩ := snakeCase_merges_no_names
  refine ⟨named, named', (again _).mpr named, fun same => ?_⟩
  exact absurd ((distinct _ _ named named').mp same) (by decide)

/-! ### Predicates -/

theorem UnaryConcept.camelCased_name (concept : UnaryConcept) :
    CamelCased concept.name.toList := by
  cases concept <;> simp [name, camelCased_iff]

theorem BinaryConcept.camelCased_name (concept : BinaryConcept) :
    CamelCased concept.name.toList := by
  cases concept <;> simp [name, camelCased_iff]

theorem VariadicConcept.camelCased_name (concept : VariadicConcept) :
    CamelCased concept.name.toList := by
  cases concept <;> simp [name, camelCased_iff]

theorem Concept.camelCased_name (concept : Concept) : CamelCased concept.name.toList := by
  cases concept with
  | unary concept => exact concept.camelCased_name
  | binary concept => exact concept.camelCased_name
  | instanceOf => simp [name, camelCased_iff]
  | variadic concept => exact concept.camelCased_name

theorem Concept.isUppercase_front (concept : Concept) :
    ∃ first rest, concept.name.toList = first :: rest ∧ isUppercase first = true := by
  rcases concept with concept | concept | _ | concept
  · cases concept <;> exact ⟨_, _, rfl, rfl⟩
  · cases concept <;> exact ⟨_, _, rfl, rfl⟩
  · exact ⟨_, _, rfl, rfl⟩
  · cases concept <;> exact ⟨_, _, rfl, rfl⟩

theorem Concept.predicate_eq_words (concept : Concept) :
    ∃ words : List (List Char), (∀ word ∈ words, IsWord word) ∧
      concept.name.toList = words.flatten ∧
      concept.predicate = String.ofList (['_'].intercalate (words.map (List.map Char.toLower))) := by
  rcases concept.isUppercase_front with ⟨first, rest, split, upper⟩
  rcases exists_words rest with ⟨plain, words, noCapital, each, splitRest⟩
  have word : IsWord (first :: plain) := ⟨⟨first, rfl, upper⟩, noCapital⟩
  have all : ∀ word ∈ (first :: plain) :: words, IsWord word :=
    List.forall_mem_cons.mpr ⟨word, each⟩
  have whole : concept.name.toList = ((first :: plain) :: words).flatten := by
    rw [split, splitRest]
    rfl
  refine ⟨(first :: plain) :: words, all, whole, ?_⟩
  rw [predicate, whole, snakeCase_flatten all]

/-- No two concepts share a predicate. -/
theorem Concept.predicate_injective : Function.Injective Concept.predicate := by
  intro concept other same
  have snake := String.ofList_injective same
  have name := (snakeCase_inj concept.camelCased_name other.camelCased_name).mp snake
  have found := other.ofName?_name
  rw [← String.toList_inj.mp name, concept.ofName?_name] at found
  exact Option.some.inj found

end TypeConcepts
