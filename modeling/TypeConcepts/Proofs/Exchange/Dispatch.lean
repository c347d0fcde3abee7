import TypeConcepts.Ty.Match
import TypeConcepts.Universe.Answer

/-!
The strategy that a call resolves to, found the way a method is looked up, against the concepts of
exchange, which are computed from probes.

A call asks the receiver `&Resolve<T, U>` for its `kind`. One method of that name is inherent, for
pairs with a registered exchange; the other belongs to a trait of references to `Resolve<T, T>`, and
its receiver has one reference more.
-/

namespace TypeConcepts

/-- A method that takes its receiver by shared reference. It is implemented for every type that the
pattern becomes under a substitution that meets the bounds. -/
structure Method (Answer : Type) where
  pattern : Ty
  bounds : Substitution → Bool
  answer : Answer

namespace Method

variable {Answer : Type}

/-- The answer of the method for a receiver of exactly the given type. -/
def answer? (receiver : Ty) (method : Method Answer) : Option Answer :=
  match (Ty.shared method.pattern).matches? [] receiver with
  | none => none
  | some assigned => if method.bounds assigned then some method.answer else none

/-- The types that a receiver has after any number of dereferences. -/
def derefs : Ty → List Ty
  | .reference mutable target => .reference mutable target :: derefs target
  | type => [type]

/-- The types that lookup tries in turn: each dereferenced receiver as it is, behind a shared
reference and behind an exclusive one. -/
def attempts (receiver : Ty) : List Ty :=
  (derefs receiver).flatMap fun step => [step, .shared step, .exclusive step]

/-- The answer of the first method that applies at one attempt. Inherent methods come before those
of traits. -/
def select (inherent traits : List (Method Answer)) (receiver : Ty) : Option Answer :=
  (inherent.findSome? (answer? receiver)).or (traits.findSome? (answer? receiver))

def lookup (inherent traits : List (Method Answer)) (receiver : Ty) : Option Answer :=
  (attempts receiver).findSome? (select inherent traits)

end Method

namespace Environment

variable (env : Environment) (left right : Ty)

def resolver (left right : Ty) : Ty := .named "Resolve" [left, right]

def bespokeKind : Method Strategy where
  pattern := resolver (.param "T") (.param "U")
  bounds assigned :=
    match assigned.lookup "T", assigned.lookup "U" with
    | some left, some right => env.bespokeSwap left right
    | _, _ => false
  answer := .bespoke

def byMoveKind : Method Strategy where
  pattern := .shared (resolver (.param "T") (.param "T"))
  bounds assigned :=
    match assigned.lookup "T" with
    | some type => env.sized type
    | none => false
  answer := .byMove

/-- What a call on places of the two types is answered. -/
def dispatch : Option Strategy :=
  Method.lookup [env.bespokeKind] [env.byMoveKind] (.shared (resolver left right))

theorem select_shared :
    Method.select [env.bespokeKind] [env.byMoveKind] (.shared (resolver left right)) =
      if env.bespokeSwap left right then some .bespoke else none := by
  have answered : env.bespokeKind.answer? (.shared (resolver left right)) =
      if env.bespokeSwap left right then some .bespoke else none := by
    have matched : (Ty.shared env.bespokeKind.pattern).matches? []
        (.shared (resolver left right)) = some [("U", right), ("T", left)] := rfl
    rw [Method.answer?, matched]
    rfl
  have mismatched : env.byMoveKind.answer? (.shared (resolver left right)) = none := rfl
  simp only [Method.select, List.findSome?, answered, mismatched]
  cases env.bespokeSwap left right <;> rfl

theorem select_shared_shared :
    Method.select [env.bespokeKind] [env.byMoveKind] (.shared (.shared (resolver left right))) =
      if left = right ∧ env.sized left = true then some .byMove else none := by
  have mismatched : env.bespokeKind.answer? (.shared (.shared (resolver left right))) = none := rfl
  have answered : env.byMoveKind.answer? (.shared (.shared (resolver left right))) =
      if left = right ∧ env.sized left = true then some .byMove else none := by
    have matched : (Ty.shared env.byMoveKind.pattern).matches? []
        (.shared (.shared (resolver left right))) =
          (if left = right then some [("T", left)] else none).bind some := rfl
    rw [Method.answer?, matched]
    by_cases same : left = right <;> simp [byMoveKind, same]
  simp only [Method.select, List.findSome?, mismatched, answered]
  by_cases applies : left = right ∧ env.sized left = true
  · rw [if_pos applies]
    rfl
  · rw [if_neg applies]
    rfl

/-- The registered exchange is found first, then the one by moves, and then nothing new. -/
theorem dispatch_eq :
    env.dispatch left right =
      if env.bespokeSwap left right then some .bespoke
      else if left = right ∧ env.sized left = true then some .byMove else none := by
  have attempted : Method.attempts (.shared (resolver left right)) =
      [.shared (resolver left right), .shared (.shared (resolver left right)),
        .exclusive (.shared (resolver left right)), resolver left right,
        .shared (resolver left right), .exclusive (resolver left right)] := rfl
  have selectExclusive : Method.select [env.bespokeKind] [env.byMoveKind]
      (.exclusive (.shared (resolver left right))) = none := rfl
  have selectBare : Method.select [env.bespokeKind] [env.byMoveKind]
      (resolver left right) = none := rfl
  have selectExclusiveBare : Method.select [env.bespokeKind] [env.byMoveKind]
      (.exclusive (resolver left right)) = none := rfl
  simp only [dispatch, Method.lookup, attempted, List.findSome?, select_shared,
    select_shared_shared, selectExclusive, selectBare, selectExclusiveBare]
  cases env.bespokeSwap left right with
  | true => rfl
  | false =>
      by_cases applies : left = right ∧ env.sized left = true
      · rw [if_pos applies]
        rfl
      · rw [if_neg applies]
        rfl

theorem dispatch_eq_resolve : env.dispatch left right = env.resolve left right := by
  have bespoke : env.supports left right .bespoke = env.bespokeSwap left right := rfl
  have byMove : env.supports left right .byMove =
      decide (left = right ∧ env.sized left = true) := by
    rw [Bool.eq_iff_iff]
    simp [supports]
  simp only [dispatch_eq, resolve, Strategy.candidates, List.find?, bespoke, byMove]
  by_cases applies : left = right ∧ env.sized left = true
  · rw [if_pos applies, decide_eq_true applies]
    cases env.bespokeSwap left right <;> rfl
  · rw [if_neg applies, decide_eq_false applies]
    cases env.bespokeSwap left right <;> rfl

section Resolution

variable {env left right}

theorem dispatch_eq_bespoke_iff :
    env.dispatch left right = some .bespoke ↔ (env.exchange left right).isSome = true := by
  rw [dispatch_eq]
  cases registered : (env.exchange left right).isSome with
  | true => simp [bespokeSwap, registered]
  | false => simp [bespokeSwap, registered]

theorem dispatch_eq_byMove_iff :
    env.dispatch left right = some .byMove ↔
      env.exchange left right = none ∧ left = right ∧ env.sized left = true := by
  rw [dispatch_eq]
  cases registered : env.exchange left right with
  | none => simp [bespokeSwap, registered]
  | some infallible => simp [bespokeSwap, registered]

theorem dispatch_eq_none_iff :
    env.dispatch left right = none ↔
      env.exchange left right = none ∧ ¬(left = right ∧ env.sized left = true) := by
  rw [dispatch_eq]
  cases registered : env.exchange left right with
  | none => simp [bespokeSwap, registered]
  | some infallible => simp [bespokeSwap, registered]

theorem supports_of_dispatch {strategy : Strategy}
    (found : env.dispatch left right = some strategy) :
    env.supports left right strategy = true := by
  rw [dispatch_eq_resolve, resolve] at found
  exact List.find?_some found

end Resolution

/-! ### The concepts -/

section Concepts

variable {env left right}

theorem moveConstructible_eq_sized
    (builtFromSelf : ∀ type, env.sized type = true → env.builtFrom type type = true) (type : Ty) :
    env.moveConstructible type = env.sized type := by
  cases known : env.sized type with
  | false => simp [moveConstructible, constructibleFrom, destructible, known]
  | true =>
      have built := builtFromSelf type known
      simp [moveConstructible, constructibleFrom, destructible, builds, known, built]

theorem assigns_exclusive_eq_sized
    (referenceSized : ∀ mutable target, env.sized (.reference mutable target) = true) (type : Ty) :
    env.assigns (.exclusive type) type = env.sized type := by
  have place : env.sized (.exclusive type) = true := referenceSized true type
  cases known : env.sized type with
  | false => simp [assigns, known]
  | true =>
      have move : env.assignRoute (.exclusive type) type .move = true := by
        simp [assignRoute, Ty.exclusive, known]
      simp [assigns, AssignRoute.all, place, known, move]

variable (builtFromSelf : ∀ type, env.sized type = true → env.builtFrom type type = true)
  (referenceSized : ∀ mutable target, env.sized (.reference mutable target) = true)
include builtFromSelf referenceSized

/-- The concept holds of exactly the pairs for which a call resolves. -/
theorem swappableWith_iff :
    env.swappableWith left right = true ↔ ∃ strategy, env.dispatch left right = some strategy := by
  rw [swappableWith, moveConstructible_eq_sized builtFromSelf,
    assigns_exclusive_eq_sized referenceSized, dispatch_eq]
  cases env.bespokeSwap left right with
  | true => simp
  | false =>
      by_cases applies : left = right ∧ env.sized left = true
      · simp [sameAs, applies.1, applies.1 ▸ applies.2]
      · rw [if_neg applies]
        simpa [sameAs] using applies

theorem nothrowSwappableWith_iff :
    env.nothrowSwappableWith left right = true ↔
      ∃ strategy, env.dispatch left right = some strategy ∧
        env.infallible left right strategy = true := by
  rw [nothrowSwappableWith]
  cases registered : env.exchange left right with
  | some never =>
      have found : env.dispatch left right = some .bespoke :=
        dispatch_eq_bespoke_iff.mpr (by rw [registered]; rfl)
      simp [bespokeSwap, bespokeSwapInfallible, infallible, registered, found]
  | none =>
      have unregistered : env.bespokeSwap left right = false := by
        rw [bespokeSwap, registered]
        rfl
      rw [unregistered, if_neg Bool.false_ne_true, swappableWith_iff builtFromSelf referenceSized]
      constructor
      · rintro ⟨strategy, found⟩
        refine ⟨strategy, found, ?_⟩
        cases strategy with
        | bespoke =>
            have registered := dispatch_eq_bespoke_iff.mp found
            rw [bespokeSwap, registered] at unregistered
            cases unregistered
        | byMove => rfl
      · rintro ⟨strategy, found, _⟩
        exact ⟨strategy, found⟩

end Concepts

/-- A call resolves to the registered exchange where there is one, otherwise to moves where both
places have one type of a known size, and otherwise to nothing. The concepts hold of exactly the
pairs for which it resolves, and resolves to an exchange that never fails. -/
theorem dispatch_agrees (env : Environment)
    (builtFromSelf : ∀ type, env.sized type = true → env.builtFrom type type = true)
    (referenceSized : ∀ mutable target, env.sized (.reference mutable target) = true)
    (left right : Ty) :
    (env.dispatch left right = some .bespoke ↔ (env.exchange left right).isSome = true) ∧
      (env.dispatch left right = some .byMove ↔
        env.exchange left right = none ∧ left = right ∧ env.sized left = true) ∧
      (env.dispatch left right = none ↔
        env.exchange left right = none ∧ ¬(left = right ∧ env.sized left = true)) ∧
      env.dispatch left right = env.resolve left right ∧
      (∀ strategy, env.dispatch left right = some strategy →
        env.supports left right strategy = true) ∧
      (env.swappableWith left right = true ↔
        ∃ strategy, env.dispatch left right = some strategy) ∧
      (env.nothrowSwappableWith left right = true ↔
        ∃ strategy, env.dispatch left right = some strategy ∧
          env.infallible left right strategy = true) :=
  ⟨dispatch_eq_bespoke_iff, dispatch_eq_byMove_iff, dispatch_eq_none_iff,
    dispatch_eq_resolve env left right, fun _ => supports_of_dispatch,
    swappableWith_iff builtFromSelf referenceSized,
    nothrowSwappableWith_iff builtFromSelf referenceSized⟩

end Environment

namespace Universe

theorem builtFrom_self (heap : Bool) (type : Ty) (sized : (environment heap).sized type = true) :
    (environment heap).builtFrom type type = true := by
  change Trait.sized.holds type = true at sized
  change builtFrom type type = true
  simp [builtFrom, sized]

theorem sized_reference (heap mutable : Bool) (target : Ty) :
    (environment heap).sized (.reference mutable target) = true := by
  cases mutable <;> rfl

/-- A slice has a registered exchange although its size is not known, and it may fail; vectors are
exchanged by moves; a handle is exchanged with a resource but not the other way round. -/
theorem dispatch_agrees_standard :
    standard.dispatch bytes bytes = some .bespoke ∧
      standard.nothrowSwappableWith bytes bytes = false ∧
      standard.dispatch byteVec byteVec = some .byMove ∧
      standard.nothrowSwappableWith byteVec byteVec = true ∧
      standard.dispatch (.word "Handle") (.word "Resource") = some .bespoke ∧
      standard.swappableWith (.word "Resource") (.word "Handle") = false := by
  have agrees := Environment.dispatch_agrees standard (builtFrom_self true) (sized_reference true)
  obtain ⟨slice, _, _, _, _, _, nothrowSlice⟩ := agrees bytes bytes
  obtain ⟨_, vector, _, _, _, _, nothrowVector⟩ := agrees byteVec byteVec
  obtain ⟨handle, _⟩ := agrees (.word "Handle") (.word "Resource")
  obtain ⟨_, _, resource, _, _, swappable, _⟩ := agrees (.word "Resource") (.word "Handle")
  have bespoke := slice.mpr rfl
  have byMove := vector.mpr ⟨rfl, rfl, by decide⟩
  have nothing := resource.mpr ⟨rfl, by decide⟩
  refine ⟨bespoke, ?_, byMove, nothrowVector.mpr ⟨.byMove, byMove, rfl⟩, handle.mpr rfl, ?_⟩
  · rw [Bool.eq_false_iff]
    intro nothrow
    obtain ⟨strategy, found, infallible⟩ := nothrowSlice.mp nothrow
    cases bespoke.symm.trans found
    exact absurd infallible (by decide)
  · rw [Bool.eq_false_iff]
    intro holds
    obtain ⟨strategy, found⟩ := swappable.mp holds
    cases nothing.symm.trans found

end Universe

end TypeConcepts
