import TypeConcepts.Environment.Bound
import TypeConcepts.Environment.Predicate
import TypeConcepts.Proofs.Exchange.Dispatch
import TypeConcepts.Proofs.Universe.Order

/-!
The two surfaces of a concept: the trait that generic code asks for as a bound, and the predicate
that probes a type.

The traits are implemented by rules for all types that meet their bounds, and by nothing else; a
type has a trait if the rules derive it.
-/

namespace TypeConcepts

/-- The traits of the library that are implemented by rules. Some have the name of a concept. -/
inductive BoundTrait where
  | constructibleFrom (args : List Ty)
  | heapInit
  | concept (concept : UnaryConcept)

/-- What the rules derive. Every rule asks for a known size unless it says otherwise, and the rule
for the default depends on whether there is a heap. -/
inductive Implements (env : Environment) : BoundTrait → Ty → Prop
  | destructible {type : Ty} (sized : env.sized type = true) :
      Implements env (.concept .destructible) type
  | constructNone {type : Ty} (sized : env.sized type = true) (default : env.default type = true) :
      Implements env (.constructibleFrom []) type
  | constructOne {type arg : Ty} (sized : env.sized type = true) (argSized : env.sized arg = true)
      (built : env.builtFrom type arg = true) : Implements env (.constructibleFrom [arg]) type
  | constructMany {type first second : Ty} {others : List Ty} (sized : env.sized type = true)
      (argsSized : ∀ arg ∈ first :: second :: others, env.sized arg = true)
      (few : (first :: second :: others).length ≤ Environment.argumentLimit)
      (built : env.builtFrom type (.tuple (first :: second :: others)) = true) :
      Implements env (.constructibleFrom (first :: second :: others)) type
  | heapInit {type : Ty} (heap : env.heap = true) (sized : env.sized type = true)
      (default : env.default (.boxed type) = true) : Implements env .heapInit type
  | defaultInitializable {type : Ty} (heap : env.heap = true) (sized : env.sized type = true)
      (construct : Implements env (.constructibleFrom []) type)
      (default : env.default type = true) (heapInit : Implements env .heapInit type) :
      Implements env (.concept .defaultInitializable) type
  | defaultInitializableHeapless {type : Ty} (heap : env.heap = false)
      (sized : env.sized type = true) (construct : Implements env (.constructibleFrom []) type)
      (default : env.default type = true) :
      Implements env (.concept .defaultInitializable) type
  | moveConstructible {type : Ty} (sized : env.sized type = true)
      (construct : Implements env (.constructibleFrom [type]) type) :
      Implements env (.concept .moveConstructible) type
  | copyConstructible {type : Ty} (sized : env.sized type = true)
      (move : Implements env (.concept .moveConstructible) type)
      (clone : env.clone type = true) : Implements env (.concept .copyConstructible) type
  | movable {type : Ty} (sized : env.sized type = true)
      (move : Implements env (.concept .moveConstructible) type) :
      Implements env (.concept .movable) type
  | copyable {type : Ty} (sized : env.sized type = true)
      (copy : Implements env (.concept .copyConstructible) type)
      (move : Implements env (.concept .movable) type) : Implements env (.concept .copyable) type
  | semiregular {type : Ty} (sized : env.sized type = true)
      (copy : Implements env (.concept .copyable) type)
      (default : Implements env (.concept .defaultInitializable) type) :
      Implements env (.concept .semiregular) type
  | regular {type : Ty} (sized : env.sized type = true)
      (semiregular : Implements env (.concept .semiregular) type)
      (equality : Implements env (.concept .equalityComparable) type) :
      Implements env (.concept .regular) type
  /-- For types of any size. -/
  | equalityComparable {type : Ty} (equality : env.partialEq type type = true) :
      Implements env (.concept .equalityComparable) type
  /-- For types of any size. Comparison for equality comes with the order. -/
  | totallyOrdered {type : Ty} (order : env.partialOrd type type = true) :
      Implements env (.concept .totallyOrdered) type

namespace Implements

variable {env : Environment} {type : Ty}

/-! ### What the rules derive -/

theorem constructibleFrom_iff {args : List Ty} :
    Implements env (.constructibleFrom args) type ↔
      Environment.Bound.constructibleFrom env type args = true := by
  have buildsMany : ∀ first second others, env.builds type (first :: second :: others) =
      (decide ((first :: second :: others).length ≤ Environment.argumentLimit) &&
        env.builtFrom type (.tuple (first :: second :: others))) := fun _ _ _ => rfl
  simp only [Environment.Bound.constructibleFrom, Bool.and_eq_true, List.all_eq_true]
  constructor
  · intro derived
    cases derived with
    | constructNone sized default => exact ⟨⟨sized, by simp⟩, default⟩
    | constructOne sized argSized built => exact ⟨⟨sized, by simpa using argSized⟩, built⟩
    | constructMany sized argsSized few built =>
        rw [buildsMany, built, Bool.and_true]
        exact ⟨⟨sized, argsSized⟩, decide_eq_true few⟩
  · rintro ⟨⟨sized, argsSized⟩, builds⟩
    match args with
    | [] => exact .constructNone sized builds
    | [arg] => exact .constructOne sized (argsSized arg List.mem_cons_self) builds
    | first :: second :: others =>
        rw [buildsMany, Bool.and_eq_true] at builds
        exact .constructMany sized argsSized (of_decide_eq_true builds.1) builds.2

theorem heapInit_iff : Implements env .heapInit type ↔ env.heapInit type = true := by
  simp only [Environment.heapInit, Bool.and_eq_true]
  constructor
  · rintro ⟨⟩
    exact ⟨⟨‹_›, ‹_›⟩, ‹_›⟩
  · rintro ⟨⟨sized, heap⟩, default⟩
    exact .heapInit heap sized default

theorem defaultInitializable_iff :
    Implements env (.concept .defaultInitializable) type ↔
      Environment.Bound.defaultInitializable env type = true := by
  have sized_of_construct : Environment.Bound.constructibleFrom env type [] = true →
      env.sized type = true := by
    intro construct
    simp only [Environment.Bound.constructibleFrom, Bool.and_eq_true] at construct
    exact construct.1.1
  simp only [Environment.Bound.defaultInitializable, Bool.and_eq_true, Bool.or_eq_true]
  constructor
  · intro derived
    cases derived with
    | defaultInitializable heap sized construct default heapInit =>
        exact ⟨⟨constructibleFrom_iff.mp construct, default⟩, .inr (heapInit_iff.mp heapInit)⟩
    | defaultInitializableHeapless heap sized construct default =>
        exact ⟨⟨constructibleFrom_iff.mp construct, default⟩, .inl (by rw [heap]; rfl)⟩
  · rintro ⟨⟨construct, default⟩, form⟩
    have sized := sized_of_construct construct
    cases heap : env.heap with
    | false =>
        exact .defaultInitializableHeapless heap sized (constructibleFrom_iff.mpr construct) default
    | true =>
        rw [heap] at form
        have heapInit := form.resolve_left Bool.false_ne_true
        exact .defaultInitializable heap sized (constructibleFrom_iff.mpr construct) default
          (heapInit_iff.mpr heapInit)

theorem moveConstructible_iff :
    Implements env (.concept .moveConstructible) type ↔
      Environment.Bound.moveConstructible env type = true := by
  simp only [Environment.Bound.moveConstructible, Bool.and_eq_true, ← constructibleFrom_iff]
  constructor
  · rintro ⟨⟩
    exact ⟨‹_›, ‹_›⟩
  · rintro ⟨sized, construct⟩
    exact .moveConstructible sized construct

theorem sized_of_moveConstructible
    (move : Implements env (.concept .moveConstructible) type) : env.sized type = true := by
  cases move with
  | moveConstructible sized construct => exact sized

theorem copyConstructible_iff :
    Implements env (.concept .copyConstructible) type ↔
      Environment.Bound.copyConstructible env type = true := by
  simp only [Environment.Bound.copyConstructible, Bool.and_eq_true, ← moveConstructible_iff]
  constructor
  · intro derived
    cases derived with
    | copyConstructible sized move clone => exact ⟨move, clone⟩
  · rintro ⟨move, clone⟩
    exact .copyConstructible (sized_of_moveConstructible move) move clone

theorem movable_iff :
    Implements env (.concept .movable) type ↔ Environment.Bound.movable env type = true := by
  rw [Environment.Bound.movable, ← moveConstructible_iff]
  constructor
  · intro derived
    cases derived with
    | movable sized move => exact move
  · intro move
    exact .movable (sized_of_moveConstructible move) move

theorem copyable_iff :
    Implements env (.concept .copyable) type ↔ Environment.Bound.copyable env type = true := by
  simp only [Environment.Bound.copyable, Bool.and_eq_true, ← copyConstructible_iff, ← movable_iff]
  constructor
  · intro derived
    cases derived with
    | copyable sized copy move => exact ⟨copy, move⟩
  · rintro ⟨copy, move⟩
    cases move with
    | movable sized inner => exact .copyable sized copy (.movable sized inner)

theorem semiregular_iff :
    Implements env (.concept .semiregular) type ↔
      Environment.Bound.semiregular env type = true := by
  simp only [Environment.Bound.semiregular, Bool.and_eq_true, ← copyable_iff,
    ← defaultInitializable_iff]
  constructor
  · intro derived
    cases derived with
    | semiregular sized copy default => exact ⟨copy, default⟩
  · rintro ⟨copy, default⟩
    cases copy with
    | copyable sized inner move => exact .semiregular sized (.copyable sized inner move) default

theorem equalityComparable_iff :
    Implements env (.concept .equalityComparable) type ↔
      Environment.Bound.equalityComparable env type = true := by
  constructor
  · intro derived
    cases derived with
    | equalityComparable equality => exact equality
  · exact .equalityComparable

theorem regular_iff :
    Implements env (.concept .regular) type ↔ Environment.Bound.regular env type = true := by
  simp only [Environment.Bound.regular, Bool.and_eq_true, ← semiregular_iff,
    ← equalityComparable_iff]
  constructor
  · intro derived
    cases derived with
    | regular sized semiregular equality => exact ⟨semiregular, equality⟩
  · rintro ⟨semiregular, equality⟩
    cases semiregular with
    | semiregular sized copy default =>
        exact .regular sized (.semiregular sized copy default) equality

theorem totallyOrdered_iff
    (orderedEq : ∀ left right, env.partialOrd left right = true → env.partialEq left right = true) :
    Implements env (.concept .totallyOrdered) type ↔
      Environment.Bound.totallyOrdered env type = true := by
  simp only [Environment.Bound.totallyOrdered, Environment.Bound.equalityComparable,
    Bool.and_eq_true]
  constructor
  · intro derived
    cases derived with
    | totallyOrdered order => exact ⟨orderedEq type type order, order⟩
  · rintro ⟨_, order⟩
    exact .totallyOrdered order

end Implements

/-! ### What the predicates come to -/

namespace Environment

variable {env : Environment} (type : Ty)

theorem constructibleFrom_eq_bound (args : List Ty) :
    env.constructibleFrom type args = Bound.constructibleFrom env type args := by
  rw [constructibleFrom, destructible, Bound.constructibleFrom]
  cases env.sized type <;> rfl

theorem moveConstructible_eq_bound :
    env.moveConstructible type = Bound.moveConstructible env type := by
  rw [moveConstructible, constructibleFrom_eq_bound, Bound.moveConstructible,
    Bound.constructibleFrom]
  cases env.sized type <;> rfl

theorem copyConstructible_eq_bound :
    env.copyConstructible type = Bound.copyConstructible env type := by
  rw [copyConstructible, moveConstructible_eq_bound, Bound.copyConstructible]

theorem defaultInitializable_eq_bound :
    env.defaultInitializable type = Bound.defaultInitializable env type := by
  rw [defaultInitializable, constructibleFrom_eq_bound, Bound.defaultInitializable, valueInit,
    heapOrValueInit, valueInit]
  cases construct : Bound.constructibleFrom env type [] with
  | false => rfl
  | true =>
      have sized : env.sized type = true := by
        simp only [Bound.constructibleFrom, Bool.and_eq_true] at construct
        exact construct.1.1
      rw [sized]
      cases env.heap <;> cases env.default type <;> rfl

section References

variable (referenceSized : ∀ mutable target, env.sized (.reference mutable target) = true)
include referenceSized

theorem assignableFrom_self_eq_sized :
    env.assignableFrom (.exclusive type) type = env.sized type := by
  rw [assignableFrom, assigns_exclusive_eq_sized referenceSized]
  rfl

theorem assignableFrom_reference (mutable : Bool) (sized : env.sized type = true)
    (clone : env.clone type = true) :
    env.assignableFrom (.exclusive type) (.reference mutable type) = true := by
  cases mutable <;>
    simp [assignableFrom, isExclusive, assigns, AssignRoute.all, assignRoute, referenceSized, sized,
      clone, Ty.exclusive, Ty.shared]

theorem movable_eq_bound : env.movable type = Bound.movable env type := by
  rw [movable, Bound.movable, ← moveConstructible_eq_bound]
  cases move : env.moveConstructible type with
  | false => simp
  | true =>
      have sized : env.sized type = true := by
        rw [moveConstructible_eq_bound, Bound.moveConstructible, Bool.and_eq_true] at move
        exact move.1
      have assigns : env.assigns (.exclusive type) type = true := by
        rw [assigns_exclusive_eq_sized referenceSized, sized]
      have swaps : env.swappable type = true := by
        simp [swappable, swappableWith, sameAs, move, assigns]
      rw [destructible, assignableFrom_self_eq_sized type referenceSized, sized, swaps]
      rfl

theorem copyable_eq_bound : env.copyable type = Bound.copyable env type := by
  rw [copyable, copyConstructible_eq_bound, movable_eq_bound type referenceSized, Bound.copyable]
  cases copy : Bound.copyConstructible env type with
  | false => rfl
  | true =>
      cases move : Bound.movable env type with
      | false => rfl
      | true =>
          have sized : env.sized type = true := by
            rw [Bound.movable, Bound.moveConstructible, Bool.and_eq_true] at move
            exact move.1
          have clone : env.clone type = true := by
            rw [Bound.copyConstructible, Bool.and_eq_true] at copy
            exact copy.2
          have fromExclusive : env.assignableFrom (.exclusive type) (.exclusive type) = true :=
            assignableFrom_reference type referenceSized true sized clone
          have fromShared : env.assignableFrom (.exclusive type) (.shared type) = true :=
            assignableFrom_reference type referenceSized false sized clone
          rw [fromExclusive, fromShared, assignableFrom_self_eq_sized type referenceSized, sized]
          rfl

theorem semiregular_eq_bound : env.semiregular type = Bound.semiregular env type := by
  rw [semiregular, copyable_eq_bound type referenceSized, defaultInitializable_eq_bound,
    Bound.semiregular]

theorem regular_eq_bound : env.regular type = Bound.regular env type := by
  rw [regular, semiregular_eq_bound type referenceSized, equalityComparable, Bound.regular,
    Bound.equalityComparable]

end References

theorem totallyOrdered_eq_bound : env.totallyOrdered type = Bound.totallyOrdered env type := by
  rw [totallyOrdered, partiallyOrderedWith, Bool.and_self, equalityComparable,
    Bound.totallyOrdered, Bound.equalityComparable]

end Environment

/-- The concepts whose predicate has a trait of the same name. -/
def UnaryConcept.twoSided : List UnaryConcept :=
  [.moveConstructible, .copyConstructible, .defaultInitializable, .movable, .copyable,
    .semiregular, .regular, .equalityComparable, .totallyOrdered]

/-- A predicate is true of a type exactly if the type has the trait of the same name. -/
theorem surfaces_agree (env : Environment)
    (referenceSized : ∀ mutable target, env.sized (.reference mutable target) = true)
    (orderedEq : ∀ left right, env.partialOrd left right = true → env.partialEq left right = true)
    (concept : UnaryConcept) (twoSided : concept ∈ UnaryConcept.twoSided) (type : Ty) :
    concept.holds env type = true ↔ Implements env (.concept concept) type := by
  simp only [UnaryConcept.twoSided, List.mem_cons, List.not_mem_nil, or_false] at twoSided
  rcases twoSided with rfl | rfl | rfl | rfl | rfl | rfl | rfl | rfl | rfl
  · rw [UnaryConcept.holds, Environment.moveConstructible_eq_bound,
      Implements.moveConstructible_iff]
  · rw [UnaryConcept.holds, Environment.copyConstructible_eq_bound,
      Implements.copyConstructible_iff]
  · rw [UnaryConcept.holds, Environment.defaultInitializable_eq_bound,
      Implements.defaultInitializable_iff]
  · rw [UnaryConcept.holds, Environment.movable_eq_bound type referenceSized,
      Implements.movable_iff]
  · rw [UnaryConcept.holds, Environment.copyable_eq_bound type referenceSized,
      Implements.copyable_iff]
  · rw [UnaryConcept.holds, Environment.semiregular_eq_bound type referenceSized,
      Implements.semiregular_iff]
  · rw [UnaryConcept.holds, Environment.regular_eq_bound type referenceSized,
      Implements.regular_iff]
  · exact Implements.equalityComparable_iff.symm
  · rw [UnaryConcept.holds, Environment.totallyOrdered_eq_bound,
      Implements.totallyOrdered_iff orderedEq]

/-- A vector is regular with a heap and without one, text is totally ordered although its size is
not known, and an exclusive reference is moved but not copied. -/
theorem surfaces_agree_standard :
    (∀ heap, Implements (Universe.environment heap) (.concept .regular) Universe.byteVec) ∧
      (∀ heap, Implements (Universe.environment heap) (.concept .totallyOrdered) Universe.text) ∧
      (∀ heap, ¬Implements (Universe.environment heap) (.concept .movable) Universe.text) ∧
      ∀ heap, Implements (Universe.environment heap) (.concept .movable)
          (.exclusive Universe.text) ∧
        ¬Implements (Universe.environment heap) (.concept .copyable)
          (.exclusive Universe.text) := by
  have agree : ∀ heap concept, concept ∈ UnaryConcept.twoSided → ∀ type,
      (concept.holds (Universe.environment heap) type = true ↔
        Implements (Universe.environment heap) (.concept concept) type) := fun heap =>
    surfaces_agree (Universe.environment heap) (Universe.sized_reference heap)
      Universe.partialEq_of_partialOrd
  refine ⟨fun heap => ?_, fun heap => ?_, fun heap => ?_, fun heap => ⟨?_, ?_⟩⟩
  · exact (agree heap .regular (by decide) _).mp (by cases heap <;> decide)
  · exact (agree heap .totallyOrdered (by decide) _).mp (by cases heap <;> decide)
  · rw [← agree heap .movable (by decide)]
    cases heap <;> decide
  · exact (agree heap .movable (by decide) _).mp (by cases heap <;> decide)
  · rw [← agree heap .copyable (by decide)]
    cases heap <;> decide

end TypeConcepts
