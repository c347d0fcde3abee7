import Mathlib.Order.BooleanAlgebra.Basic
import Mathlib.Order.Monotone.Basic
import TypeConcepts.Environment.Predicate
import TypeConcepts.Universe.Answer

/-!
Concepts that only gain types when a program gains implementations.

Such a concept uses the facts of an environment positively: it is put together from them by
conjunction, by disjunction, and by a choice that depends on the build alone.
-/

namespace TypeConcepts

/-- Everything that is implemented, converted or registered in one environment is so in the other.
The types are the same, and so is the build. -/
structure Environment.Within (env env' : Environment) : Prop where
  heap : env.heap = env'.heap
  sized : env.sized = env'.sized
  default : ∀ type, env.default type = true → env'.default type = true
  clone : ∀ type, env.clone type = true → env'.clone type = true
  copy : ∀ type, env.copy type = true → env'.copy type = true
  partialEq : ∀ left right, env.partialEq left right = true → env'.partialEq left right = true
  partialOrd : ∀ left right, env.partialOrd left right = true → env'.partialOrd left right = true
  builtFrom : ∀ type source, env.builtFrom type source = true → env'.builtFrom type source = true
  /-- Whether the exchange may fail does not matter. -/
  exchange : ∀ left right, (env.exchange left right).isSome = true →
    (env'.exchange left right).isSome = true

namespace Environment

instance : Preorder Environment where
  le := Within
  le_refl _ := ⟨rfl, rfl, fun _ => id, fun _ => id, fun _ => id, fun _ _ => id, fun _ _ => id,
    fun _ _ => id, fun _ _ => id⟩
  le_trans _ _ _ first second :=
    { heap := first.heap.trans second.heap
      sized := first.sized.trans second.sized
      default := fun type holds => second.default type (first.default type holds)
      clone := fun type holds => second.clone type (first.clone type holds)
      copy := fun type holds => second.copy type (first.copy type holds)
      partialEq := fun left right holds =>
        second.partialEq left right (first.partialEq left right holds)
      partialOrd := fun left right holds =>
        second.partialOrd left right (first.partialOrd left right holds)
      builtFrom := fun type source holds =>
        second.builtFrom type source (first.builtFrom type source holds)
      exchange := fun left right holds =>
        second.exchange left right (first.exchange left right holds) }

variable (type left right : Ty) (args : List Ty)

theorem monotone_of_imp {fact : Environment → Bool}
    (gains : ∀ {env env' : Environment}, env ≤ env' → fact env = true → fact env' = true) :
    Monotone fact :=
  fun _ _ within => Bool.le_iff_imp.mpr (gains within)

theorem monotone_sized : Monotone fun env : Environment => env.sized type :=
  monotone_of_imp fun within holds => by rwa [← within.sized]

theorem monotone_default : Monotone fun env : Environment => env.default type :=
  monotone_of_imp fun within => within.default type

theorem monotone_clone : Monotone fun env : Environment => env.clone type :=
  monotone_of_imp fun within => within.clone type

theorem monotone_partialEq : Monotone fun env : Environment => env.partialEq left right :=
  monotone_of_imp fun within => within.partialEq left right

theorem monotone_partialOrd : Monotone fun env : Environment => env.partialOrd left right :=
  monotone_of_imp fun within => within.partialOrd left right

theorem monotone_builtFrom : Monotone fun env : Environment => env.builtFrom type left :=
  monotone_of_imp fun within => within.builtFrom type left

theorem monotone_bespokeSwap : Monotone fun env : Environment => env.bespokeSwap left right :=
  monotone_of_imp fun within => within.exchange left right

theorem monotone_builds : Monotone fun env : Environment => env.builds type args := by
  match args with
  | [] => exact monotone_default type
  | [arg] => exact monotone_builtFrom type arg
  | first :: second :: others =>
      exact monotone_const.inf (monotone_builtFrom type (.tuple (first :: second :: others)))

theorem monotone_constructibleFrom :
    Monotone fun env : Environment => env.constructibleFrom type args := by
  have argsSized : Monotone fun env : Environment => args.all env.sized :=
    monotone_of_imp fun within holds => by rwa [← within.sized]
  exact (monotone_sized type).inf
    (((monotone_sized type).inf argsSized).inf (monotone_builds type args))

theorem monotone_moveConstructible :
    Monotone fun env : Environment => env.moveConstructible type :=
  monotone_constructibleFrom type [type]

theorem monotone_copyConstructible :
    Monotone fun env : Environment => env.copyConstructible type :=
  (monotone_moveConstructible type).inf (monotone_clone type)

theorem monotone_valueInit : Monotone fun env : Environment => env.valueInit type :=
  (monotone_sized type).inf (monotone_default type)

theorem monotone_heapOrValueInit :
    Monotone fun env : Environment => env.heapOrValueInit type := by
  refine monotone_of_imp fun {env env'} within holds => ?_
  rw [heapOrValueInit] at holds ⊢
  rw [← within.heap]
  cases heap : env.heap with
  | false =>
      rw [heap, if_neg Bool.false_ne_true] at holds
      exact Bool.le_iff_imp.mp (monotone_valueInit type within) holds
  | true =>
      rw [heap, if_pos rfl] at holds
      rw [if_pos rfl, heapInit, ← within.heap, heap, ← within.sized]
      rw [heapInit, heap, Bool.and_eq_true] at holds
      rw [holds.1, within.default _ holds.2]
      rfl

theorem monotone_defaultInitializable :
    Monotone fun env : Environment => env.defaultInitializable type :=
  ((monotone_constructibleFrom type []).inf (monotone_valueInit type)).inf
    (monotone_heapOrValueInit type)

theorem monotone_assignRoute (route : AssignRoute) :
    Monotone fun env : Environment => env.assignRoute left right route := by
  cases left with
  | reference mutable target =>
      cases mutable with
      | false => exact monotone_const
      | true =>
          cases route with
          | move => exact (monotone_sized target).inf monotone_const
          | cloneShared =>
              exact ((monotone_sized target).inf (monotone_clone target)).inf monotone_const
          | cloneExclusive =>
              exact ((monotone_sized target).inf (monotone_clone target)).inf monotone_const
  | _ => exact monotone_const

theorem monotone_assigns : Monotone fun env : Environment => env.assigns left right :=
  ((monotone_sized left).inf (monotone_sized right)).inf
    ((monotone_assignRoute left right .move).sup
      ((monotone_assignRoute left right .cloneShared).sup
        ((monotone_assignRoute left right .cloneExclusive).sup monotone_const)))

theorem monotone_assignableFrom :
    Monotone fun env : Environment => env.assignableFrom left right :=
  monotone_const.inf (monotone_assigns left right)

theorem monotone_swappableWith :
    Monotone fun env : Environment => env.swappableWith left right :=
  (monotone_bespokeSwap left right).sup
    ((monotone_const.inf (monotone_moveConstructible left)).inf
      (monotone_assigns (.exclusive left) left))

theorem monotone_equalityComparableWith :
    Monotone fun env : Environment => env.equalityComparableWith left right :=
  (monotone_partialEq left right).inf (monotone_partialEq right left)

theorem monotone_partiallyOrderedWith :
    Monotone fun env : Environment => env.partiallyOrderedWith left right :=
  (monotone_partialOrd left right).inf (monotone_partialOrd right left)

theorem monotone_totallyOrdered : Monotone fun env : Environment => env.totallyOrdered type :=
  (monotone_partialEq type type).inf (monotone_partiallyOrderedWith type type)

theorem monotone_movable : Monotone fun env : Environment => env.movable type :=
  (((monotone_sized type).inf (monotone_moveConstructible type)).inf
    (monotone_assignableFrom (.exclusive type) type)).inf (monotone_swappableWith type type)

theorem monotone_copyable : Monotone fun env : Environment => env.copyable type :=
  ((((monotone_copyConstructible type).inf (monotone_movable type)).inf
    (monotone_assignableFrom (.exclusive type) (.exclusive type))).inf
      (monotone_assignableFrom (.exclusive type) (.shared type))).inf
        (monotone_assignableFrom (.exclusive type) type)

theorem monotone_semiregular : Monotone fun env : Environment => env.semiregular type :=
  (monotone_copyable type).inf (monotone_defaultInitializable type)

theorem monotone_regular : Monotone fun env : Environment => env.regular type :=
  (monotone_semiregular type).inf (monotone_partialEq type type)

end Environment

/-! ### The concepts together -/

/-- The concepts of one type that use every fact positively. -/
def UnaryConcept.composites : List UnaryConcept :=
  [.defaultInitializable, .moveConstructible, .copyConstructible, .swappable, .movable, .copyable,
    .semiregular, .regular, .equalityComparable, .totallyOrdered]

def BinaryConcept.composites : List BinaryConcept :=
  [.assignableFrom, .swappableWith, .equalityComparableWith, .partiallyOrderedWith]

def VariadicConcept.composites : List VariadicConcept := [.constructibleFrom]

theorem UnaryConcept.monotone_of_mem_composites {concept : UnaryConcept}
    (composite : concept ∈ composites) (type : Ty) :
    Monotone fun env => concept.holds env type := by
  simp only [composites, List.mem_cons, List.not_mem_nil, or_false] at composite
  rcases composite with rfl | rfl | rfl | rfl | rfl | rfl | rfl | rfl | rfl | rfl
  · exact Environment.monotone_defaultInitializable type
  · exact Environment.monotone_moveConstructible type
  · exact Environment.monotone_copyConstructible type
  · exact Environment.monotone_swappableWith type type
  · exact Environment.monotone_movable type
  · exact Environment.monotone_copyable type
  · exact Environment.monotone_semiregular type
  · exact Environment.monotone_regular type
  · exact Environment.monotone_partialEq type type
  · exact Environment.monotone_totallyOrdered type

theorem BinaryConcept.monotone_of_mem_composites {concept : BinaryConcept}
    (composite : concept ∈ composites) (left right : Ty) :
    Monotone fun env => concept.holds env left right := by
  simp only [composites, List.mem_cons, List.not_mem_nil, or_false] at composite
  rcases composite with rfl | rfl | rfl | rfl
  · exact Environment.monotone_assignableFrom left right
  · exact Environment.monotone_swappableWith left right
  · exact Environment.monotone_equalityComparableWith left right
  · exact Environment.monotone_partiallyOrderedWith left right

theorem VariadicConcept.monotone_of_mem_composites {concept : VariadicConcept}
    (composite : concept ∈ composites) (type : Ty) (args : List Ty) :
    Monotone fun env => concept.holds env type args := by
  cases List.mem_singleton.mp composite
  exact Environment.monotone_constructibleFrom type args

namespace Environment

/-- A composite concept that holds of some types still holds of them once there are more
implementations, conversions and registered exchanges. -/
theorem composites_gain {env env' : Environment} (within : env.Within env') :
    (∀ concept ∈ UnaryConcept.composites, ∀ type,
      concept.holds env type = true → concept.holds env' type = true) ∧
    (∀ concept ∈ BinaryConcept.composites, ∀ left right,
      concept.holds env left right = true → concept.holds env' left right = true) ∧
    ∀ concept ∈ VariadicConcept.composites, ∀ type args,
      concept.holds env type args = true → concept.holds env' type args = true :=
  ⟨fun _ composite type =>
      Bool.le_iff_imp.mp (UnaryConcept.monotone_of_mem_composites composite type within),
    fun _ composite left right =>
      Bool.le_iff_imp.mp (BinaryConcept.monotone_of_mem_composites composite left right within),
    fun _ composite type args =>
      Bool.le_iff_imp.mp (VariadicConcept.monotone_of_mem_composites composite type args within)⟩

/-! ### Concepts that can lose types -/

/-- The environment in which one more pair of types exchanges in a way of its own. -/
def register (env : Environment) (left right : Ty) (infallible : Bool) : Environment :=
  { env with
    exchange := fun first second =>
      if first = left ∧ second = right then some infallible else env.exchange first second }

theorem within_register (env : Environment) (left right : Ty) (infallible : Bool) :
    env.Within (env.register left right infallible) where
  heap := rfl
  sized := rfl
  default _ := id
  clone _ := id
  copy _ := id
  partialEq _ _ := id
  partialOrd _ _ := id
  builtFrom _ _ := id
  exchange first second registered := by
    dsimp only [register]
    split
    · rfl
    · exact registered

/-- An exchange that never fails is not such a concept: a registered exchange takes the place of
the moves, even if it may fail and they would not. -/
theorem nothrowSwappableWith_register (env : Environment) (left right : Ty) (infallible : Bool) :
    (env.register left right infallible).nothrowSwappableWith left right = infallible := by
  have registered : (env.register left right infallible).exchange left right = some infallible :=
    if_pos ⟨rfl, rfl⟩
  simp [nothrowSwappableWith, bespokeSwap, bespokeSwapInfallible, registered]

end Environment

namespace Universe

/-- A vector of bytes stays regular when an exchange that may fail is registered for it, but is no
longer exchanged without fail. -/
theorem composites_gain_byteVec :
    standard.Within (standard.register byteVec byteVec false) ∧
      UnaryConcept.regular.holds standard byteVec = true ∧
      UnaryConcept.regular.holds (standard.register byteVec byteVec false) byteVec = true ∧
      UnaryConcept.nothrowSwappable.holds standard byteVec = true ∧
      UnaryConcept.nothrowSwappable.holds (standard.register byteVec byteVec false) byteVec =
        false := by
  have within := Environment.within_register standard byteVec byteVec false
  have regular : UnaryConcept.regular.holds standard byteVec = true := by decide
  exact ⟨within, regular,
    (Environment.composites_gain within).1 .regular (by decide) byteVec regular, by decide,
    Environment.nothrowSwappableWith_register standard byteVec byteVec false⟩

end Universe

end TypeConcepts
