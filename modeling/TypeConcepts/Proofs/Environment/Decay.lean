import TypeConcepts.Proofs.Environment.Surfaces

/-!
Decay is one operation: every type decays to exactly one type, and whatever is asked about decay is
asked about that type.

What a reference points at, and what is built without running user code, is told by the rules that
the library implements and by nothing else.
-/

namespace TypeConcepts

/-- A type without its outermost reference. -/
def Ty.decayed : Ty → Ty
  | .reference _ target => target
  | type => type

/-- A type refers to another: one rule for each kind of reference, whatever the size of the
target. -/
inductive Refers : Ty → Ty → Prop
  | shared (target : Ty) : Refers (.reference false target) target
  | exclusive (target : Ty) : Refers (.reference true target) target

/-- A type is built from arguments without running user code. -/
inductive BuildsPlainly (env : Environment) : Ty → List Ty → Prop
  | move {type : Ty} (sized : env.sized type = true) : BuildsPlainly env type [type]
  | copyShared {type : Ty} (sized : env.sized type = true) (copy : env.copy type = true) :
      BuildsPlainly env type [.reference false type]
  | copyExclusive {type : Ty} (sized : env.sized type = true) (copy : env.copy type = true) :
      BuildsPlainly env type [.reference true type]

theorem refers_iff {type target : Ty} : Refers type target ↔ type.referent? = some target := by
  constructor
  · rintro (_ | _) <;> rfl
  · intro found
    cases type with
    | reference mutable target' =>
        cases found
        cases mutable with
        | false => exact .shared _
        | true => exact .exclusive _
    | _ => cases found

theorem Refers.eq_decayed {type target : Ty} (refers : Refers type target) :
    target = type.decayed := by
  cases refers <;> rfl

theorem BuildsPlainly.sized {env : Environment} {type : Ty} {args : List Ty}
    (builds : BuildsPlainly env type args) : env.sized type = true := by
  cases builds <;> assumption

namespace Environment

variable {env : Environment} {type : Ty}

theorem isReference_iff : isReference type = true ↔ Refers type type.decayed := by
  rw [isReference, Option.isSome_iff_exists]
  constructor
  · rintro ⟨target, found⟩
    have refers := refers_iff.mpr found
    rwa [← refers.eq_decayed]
  · intro refers
    exact ⟨_, refers_iff.mp refers⟩

theorem isReference_reference {mutable : Bool} {target : Ty} :
    isReference (.reference mutable target) = true := by
  cases mutable with
  | false => exact isReference_iff.mpr (.shared target)
  | true => exact isReference_iff.mpr (.exclusive target)

theorem isReference_eq_false (noReference : ∀ mutable target, type ≠ .reference mutable target) :
    isReference type = false := by
  cases reference : isReference type with
  | false => rfl
  | true =>
      cases type with
      | reference mutable target => exact absurd rfl (noReference mutable target)
      | _ => cases reference

theorem decayed_of_value (value : isReference type = false) : type.decayed = type := by
  cases type with
  | reference mutable target => cases value
  | _ => rfl

theorem referentIs_iff {property : Ty → Bool} :
    referentIs property type = true ↔
      Refers type type.decayed ∧ property type.decayed = true := by
  rw [referentIs]
  cases found : type.referent? with
  | none =>
      refine iff_of_false nofun ?_
      rintro ⟨refers, _⟩
      cases found.symm.trans (refers_iff.mp refers)
  | some target =>
      have refers := refers_iff.mpr found
      obtain rfl := refers.eq_decayed
      exact (and_iff_right refers).symm

theorem buildsPlainly_iff {args : List Ty} :
    env.buildsPlainly type args = true ↔ BuildsPlainly env type args := by
  simp only [buildsPlainly, List.any_eq_true]
  constructor
  · rintro ⟨route, _, applies⟩
    cases route with
    | move =>
        simp only [plainRoute, Bool.and_eq_true, beq_iff_eq] at applies
        obtain ⟨sized, rfl⟩ := applies
        exact .move sized
    | copyShared =>
        simp only [plainRoute, Bool.and_eq_true, beq_iff_eq] at applies
        obtain ⟨⟨sized, copy⟩, rfl⟩ := applies
        exact .copyShared sized copy
    | copyExclusive =>
        simp only [plainRoute, Bool.and_eq_true, beq_iff_eq] at applies
        obtain ⟨⟨sized, copy⟩, rfl⟩ := applies
        exact .copyExclusive sized copy
  · intro builds
    cases builds with
    | move sized => exact ⟨.move, by decide, by simp [plainRoute, sized]⟩
    | copyShared sized copy =>
        exact ⟨.copyShared, by decide, by simp [plainRoute, sized, copy, Ty.shared]⟩
    | copyExclusive sized copy =>
        exact ⟨.copyExclusive, by decide, by simp [plainRoute, sized, copy, Ty.exclusive]⟩

theorem nothrowConstructibleFrom_iff {args : List Ty} :
    env.nothrowConstructibleFrom type args = true ↔
      (∀ arg ∈ args, env.sized arg = true) ∧ BuildsPlainly env type args := by
  simp only [nothrowConstructibleFrom, destructible, Bool.and_eq_true, List.all_eq_true,
    buildsPlainly_iff]
  constructor
  · rintro ⟨_, ⟨_, argsSized⟩, builds⟩
    exact ⟨argsSized, builds⟩
  · rintro ⟨argsSized, builds⟩
    exact ⟨builds.sized, ⟨builds.sized, argsSized⟩, builds⟩

theorem referentBuildsPlainly_iff :
    env.referentBuildsPlainly type = true ↔
      Refers type type.decayed ∧ env.sized type = true ∧
        BuildsPlainly env type.decayed [type] := by
  simp only [referentBuildsPlainly, Bool.and_eq_true, referentIs_iff, buildsPlainly_iff]
  constructor
  · rintro ⟨sized, refers, _, builds⟩
    exact ⟨refers, sized, builds⟩
  · rintro ⟨refers, sized, builds⟩
    exact ⟨sized, refers, builds.sized, builds⟩

theorem referentMoves_iff :
    env.referentMoves type = true ↔
      Refers type type.decayed ∧ Implements env (.concept .moveConstructible) type.decayed := by
  have moves : (env.sized type.decayed && env.builds type.decayed [type.decayed]) =
      env.moveConstructible type.decayed := by
    rw [moveConstructible, constructibleFrom, destructible]
    cases known : env.sized type.decayed <;> simp [known]
  rw [referentMoves, referentIs_iff, moves, moveConstructible_eq_bound,
    Implements.moveConstructible_iff]

/-! ### Questions about decay -/

/-- A type decays to what it is without its outermost reference, and to nothing else. -/
theorem decaysTo_iff {other : Ty} : decaysTo type other = true ↔ other = type.decayed := by
  have same : ∀ left : Ty, sameAs left other = true ↔ other = left := by
    intro left
    rw [sameAs, beq_iff_eq, eq_comm]
  cases reference : isReference type with
  | false => rw [decaysTo, reference, decayed_of_value reference, ← same]; rfl
  | true =>
      rw [decaysTo, if_pos reference, referentSameAs, referentIs_iff, same]
      exact and_iff_right (isReference_iff.mp reference)

/-- Decay without running user code is building the decayed type without running user code. -/
theorem nothrowDecayCopyable_eq :
    env.nothrowDecayCopyable type = env.nothrowConstructibleFrom type.decayed [type] := by
  cases reference : isReference type with
  | false => rw [nothrowDecayCopyable, reference, decayed_of_value reference]; rfl
  | true =>
      rw [nothrowDecayCopyable, if_pos reference, Bool.eq_iff_iff, referentBuildsPlainly_iff,
        nothrowConstructibleFrom_iff, List.forall_mem_singleton]
      exact and_iff_right (isReference_iff.mp reference)

theorem decayCopyable_of_reference (reference : isReference type = true) :
    env.decayCopyable type = env.clone type.decayed := by
  rw [decayCopyable, if_pos reference, Bool.eq_iff_iff, referentClones, referentIs_iff]
  exact and_iff_right (isReference_iff.mp reference)

theorem decayCopyable_of_value (value : isReference type = false) :
    env.decayCopyable type = env.destructible type := by
  rw [decayCopyable, value]
  rfl

section Lawful

variable (cloneSized : ∀ type, env.clone type = true → env.sized type = true)
  (builtFromSelf : ∀ type, env.sized type = true → env.builtFrom type type = true)

include builtFromSelf

include cloneSized

/-- What can be cloned can be moved. -/
theorem copyConstructible_eq_clone (type : Ty) : env.copyConstructible type = env.clone type := by
  rw [copyConstructible, moveConstructible_eq_sized builtFromSelf]
  cases clone : env.clone type with
  | false => exact Bool.and_false _
  | true => rw [cloneSized type clone]; rfl

/-- What can be decayed can be captured and moved on. -/
theorem decayCopyable_eq_movableValue : env.decayCopyable type = env.movableValue type := by
  cases reference : isReference type with
  | false =>
      rw [decayCopyable_of_value reference, movableValue, reference, destructible,
        ← moveConstructible_eq_sized builtFromSelf]
      rfl
  | true =>
      have copies := copyConstructible_eq_clone cloneSized builtFromSelf type.decayed
      have refers := isReference_iff.mp reference
      rw [decayCopyable_of_reference reference, movableValue, if_pos reference, ← copies,
        Bool.eq_iff_iff, Bool.and_eq_true, referentMoves_iff, referentClones, referentIs_iff,
        copyConstructible, Bool.and_eq_true, moveConstructible_eq_bound,
        Implements.moveConstructible_iff, and_iff_right refers, and_iff_right refers]

/-- Every type decays to exactly one type: a reference of either kind to its target, and any other
type to itself. It decays without running user code exactly if that type is built from it without;
it decays at all exactly if the result can be captured and moved on, which for a reference means
that its target can be copied, and for any other type that it can be dropped. -/
theorem decay_agrees (type : Ty) :
    ∃ decayed, (∀ other, decaysTo type other = true ↔ other = decayed) ∧
      (isReference type = true ↔ Refers type decayed) ∧
      env.nothrowDecayCopyable type = env.nothrowConstructibleFrom decayed [type] ∧
      env.decayCopyable type = env.movableValue type ∧
      (∀ mutable target, type = .reference mutable target →
        decayed = target ∧ env.decayCopyable type = env.copyConstructible target) ∧
      ((∀ mutable target, type ≠ .reference mutable target) →
        decayed = type ∧ env.decayCopyable type = env.destructible type) := by
  refine ⟨type.decayed, fun other => decaysTo_iff, isReference_iff, nothrowDecayCopyable_eq,
    decayCopyable_eq_movableValue cloneSized builtFromSelf, ?_, ?_⟩
  · intro mutable target same
    subst type
    have reference : isReference (.reference mutable target) = true := isReference_reference
    constructor
    · rfl
    · rw [decayCopyable_of_reference reference,
        copyConstructible_eq_clone cloneSized builtFromSelf]
      rfl
  · intro noReference
    have value := isReference_eq_false noReference
    exact ⟨decayed_of_value value, decayCopyable_of_value value⟩

end Lawful

end Environment

/-! ### The universe -/

theorem Conduct.sized_of (name : String) (args : List Ty) (noText : name ≠ "str") :
    .sized ∈ (Conduct.of name args).always := by
  unfold Conduct.of
  split
  all_goals first
    | exact absurd rfl noText
    | exact List.mem_cons_self
    | decide

theorem Trait.sized_of_clone (type : Ty) (clone : Trait.clone.holds type = true) :
    Trait.sized.holds type = true := by
  cases type with
  | named name args =>
      by_cases text : name = "str"
      · subst text
        cases clone
      · have sized := Conduct.sized_of name args text
        simp [Trait.holds, sized]
  | tuple items =>
      have parts : (Trait.sized.holdsAll items && Trait.clone.holdsAll items) = true := clone
      rw [Bool.and_eq_true] at parts
      exact parts.1
  | reference mutable target => cases mutable <;> rfl
  | slice item => cases clone
  | object trait => cases clone
  | param name => cases clone
  | _ => rfl

namespace Universe

theorem sized_of_clone (heap : Bool) (type : Ty) (clone : (environment heap).clone type = true) :
    (environment heap).sized type = true :=
  Trait.sized_of_clone type clone

/-- Text behind a reference decays to text, which cannot be copied out; a reference to a reference
decays to the inner one, and a byte behind either kind decays without running user code. -/
theorem decay_agrees_standard :
    (∀ other, Environment.decaysTo (.shared text) other = true ↔ other = text) ∧
      standard.movableValue (.shared text) = false ∧
      standard.nothrowDecayCopyable (.shared (.exclusive byte)) = false ∧
      standard.decayCopyable (.shared (.shared text)) = true ∧
      standard.nothrowDecayCopyable (.exclusive byte) = true ∧
      standard.movableValue bytes = false := by
  have agrees := @Environment.decay_agrees standard (sized_of_clone true) (builtFrom_self true)
  have bytesAreValues : ∀ mutable target, bytes ≠ .reference mutable target := by
    intro mutable target same
    cases same
  obtain ⟨_, toText, _, _, capturesText, refersText, _⟩ := agrees (.shared text)
  obtain ⟨_, _, _, plainInner, _, refersInner, _⟩ := agrees (.shared (.exclusive byte))
  obtain ⟨_, _, _, _, _, refersNested, _⟩ := agrees (.shared (.shared text))
  obtain ⟨_, _, _, plainByte, _, refersByte, _⟩ := agrees (.exclusive byte)
  obtain ⟨_, _, _, _, capturesBytes, _, valueBytes⟩ := agrees bytes
  obtain ⟨rfl, copiesText⟩ := refersText _ _ rfl
  obtain ⟨rfl, _⟩ := refersInner _ _ rfl
  obtain ⟨rfl, copiesNested⟩ := refersNested _ _ rfl
  obtain ⟨rfl, _⟩ := refersByte _ _ rfl
  obtain ⟨rfl, dropsBytes⟩ := valueBytes bytesAreValues
  refine ⟨toText, ?_, ?_, ?_, ?_, ?_⟩
  · rw [← capturesText, copiesText]
    decide
  · rw [plainInner]
    decide
  · rw [copiesNested]
    decide
  · rw [plainByte]
    decide
  · rw [← capturesBytes, dropsBytes]
    decide

end Universe

end TypeConcepts
