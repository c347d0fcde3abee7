import Mathlib.Logic.ExistsUnique
import Mathlib.Logic.Function.Basic
import TypeConcepts.Proofs.Exchange.Dispatch

/-!
The implementations of assignment and of construction without user code, as headers with one type
parameter, and the types that they apply to.

Any type may stand for the parameter, so the header that takes the type as it is comes close to those
that take it behind a reference. No two of them overlap, because no type is a reference to itself.
-/

namespace TypeConcepts

/-- `impl<T: bound> Trait<argument> for subject`, for every type that meets the bound. -/
structure Implementation where
  subject : Ty
  argument : Ty
  bound : Ty → Bool

/-- The parameter can be chosen such that the header names the two types. -/
def Implementation.Applies (header : Implementation) (subject argument : Ty) : Prop :=
  ∃ type, header.bound type = true ∧ header.subject.instantiate [("T", type)] = subject ∧
    header.argument.instantiate [("T", type)] = argument

/-- How a value of a type is handed over: as it is, or behind a reference. -/
inductive Handover where
  | value
  | reference (mutable : Bool)

namespace Handover

def type : Handover → Ty → Ty
  | .value, type => type
  | .reference mutable, type => .reference mutable type

/-- A value of a known size can be moved. From behind a reference it has to be duplicated. -/
def bound (env : Environment) (duplicates : Ty → Bool) : Handover → Ty → Bool
  | .value, type => env.sized type
  | .reference _, type => env.sized type && duplicates type

end Handover

namespace Environment

def AssignRoute.handover : AssignRoute → Handover
  | .move => .value
  | .cloneShared => .reference false
  | .cloneExclusive => .reference true

def PlainRoute.handover : PlainRoute → Handover
  | .move => .value
  | .copyShared => .reference false
  | .copyExclusive => .reference true

variable (env : Environment)

/-- A value is assigned through an exclusive reference. -/
def assignment (route : AssignRoute) : Implementation where
  subject := .exclusive (.param "T")
  argument := route.handover.type (.param "T")
  bound := route.handover.bound env env.clone

def plainConstruction (route : PlainRoute) : Implementation where
  subject := .param "T"
  argument := .tuple [route.handover.type (.param "T")]
  bound := route.handover.bound env env.copy

end Environment

namespace Handover

variable {env : Environment} {duplicates : Ty → Bool}

theorem type_injective (type : Ty) :
    Function.Injective fun handover : Handover => handover.type type := by
  intro first second same
  cases first with
  | value =>
      cases second with
      | value => rfl
      | reference mutable => exact absurd same.symm (Ty.reference_ne mutable type)
  | reference mutable =>
      cases second with
      | value => exact absurd same (Ty.reference_ne mutable type)
      | reference mutable' =>
          cases same
          rfl

theorem sized_of_bound {handover : Handover} {type : Ty}
    (bound : handover.bound env duplicates type = true) : env.sized type = true := by
  cases handover with
  | value => exact bound
  | reference mutable => exact (Bool.and_eq_true_iff.mp bound).1

theorem sized_type (referenceSized : ∀ mutable target, env.sized (.reference mutable target) = true)
    {handover : Handover} {type : Ty} (sized : env.sized type = true) :
    env.sized (handover.type type) = true := by
  cases handover with
  | value => exact sized
  | reference mutable => exact referenceSized mutable type

theorem exists_bound_iff {type operand : Ty} :
    (∃ handover : Handover, handover.bound env duplicates type = true ∧
        operand = handover.type type) ↔
      env.sized type = true ∧
        (operand = type ∨
          duplicates type = true ∧ (operand = .shared type ∨ operand = .exclusive type)) := by
  constructor
  · rintro ⟨handover, bound, rfl⟩
    refine ⟨sized_of_bound bound, ?_⟩
    cases handover with
    | value => exact .inl rfl
    | reference mutable =>
        have duplicated := (Bool.and_eq_true_iff.mp bound).2
        cases mutable with
        | false => exact .inr ⟨duplicated, .inl rfl⟩
        | true => exact .inr ⟨duplicated, .inr rfl⟩
  · rintro ⟨sized, rfl | ⟨duplicated, rfl | rfl⟩⟩
    · exact ⟨.value, sized, rfl⟩
    · exact ⟨.reference false, Bool.and_eq_true_iff.mpr ⟨sized, duplicated⟩, rfl⟩
    · exact ⟨.reference true, Bool.and_eq_true_iff.mpr ⟨sized, duplicated⟩, rfl⟩

end Handover

namespace Environment

theorem AssignRoute.handover_bijective : Function.Bijective AssignRoute.handover := by
  constructor
  · intro first second same
    cases first <;> cases second <;> first | rfl | cases same
  · rintro (_ | _ | _)
    · exact ⟨.move, rfl⟩
    · exact ⟨.cloneShared, rfl⟩
    · exact ⟨.cloneExclusive, rfl⟩

theorem PlainRoute.handover_bijective : Function.Bijective PlainRoute.handover := by
  constructor
  · intro first second same
    cases first <;> cases second <;> first | rfl | cases same
  · rintro (_ | _ | _)
    · exact ⟨.move, rfl⟩
    · exact ⟨.copyShared, rfl⟩
    · exact ⟨.copyExclusive, rfl⟩

variable {env : Environment}

theorem assignment_applies_iff {route : AssignRoute} {left right : Ty} :
    (env.assignment route).Applies left right ↔
      ∃ target, left = .exclusive target ∧
        route.handover.bound env env.clone target = true ∧ right = route.handover.type target := by
  have argument : ∀ target, (env.assignment route).argument.instantiate [("T", target)] =
      route.handover.type target := by
    intro target
    cases route <;> rfl
  refine exists_congr fun target => ?_
  rw [argument, eq_comm (a := right), and_left_comm, eq_comm (a := left)]
  exact Iff.rfl

theorem plainConstruction_applies_iff {route : PlainRoute} {type : Ty} {args : List Ty} :
    (env.plainConstruction route).Applies type (.tuple args) ↔
      route.handover.bound env env.copy type = true ∧ args = [route.handover.type type] := by
  have argument : ∀ chosen, (env.plainConstruction route).argument.instantiate [("T", chosen)] =
      .tuple [route.handover.type chosen] := by
    intro chosen
    cases route <;> rfl
  constructor
  · rintro ⟨chosen, bound, subject, same⟩
    cases subject
    rw [argument, Ty.tuple.injEq] at same
    exact ⟨bound, same.symm⟩
  · rintro ⟨bound, rfl⟩
    exact ⟨type, bound, rfl, argument type⟩

theorem AssignRoute.eq_of_applies {left right : Ty} {route route' : AssignRoute}
    (first : (env.assignment route).Applies left right)
    (second : (env.assignment route').Applies left right) : route = route' := by
  obtain ⟨target, rfl, _, rfl⟩ := assignment_applies_iff.mp first
  obtain ⟨target', sameTarget, _, same⟩ := assignment_applies_iff.mp second
  cases sameTarget
  exact AssignRoute.handover_bijective.1 (Handover.type_injective target same)

theorem PlainRoute.eq_of_applies {type : Ty} {args : List Ty} {route route' : PlainRoute}
    (first : (env.plainConstruction route).Applies type (.tuple args))
    (second : (env.plainConstruction route').Applies type (.tuple args)) : route = route' := by
  obtain ⟨_, rfl⟩ := plainConstruction_applies_iff.mp first
  obtain ⟨_, same⟩ := plainConstruction_applies_iff.mp second
  exact PlainRoute.handover_bijective.1
    (Handover.type_injective type (List.singleton_inj.mp same))

/-- Assignments by any of the headers, told by the types alone. -/
theorem exists_assignment_iff {left right : Ty} :
    (∃ route, (env.assignment route).Applies left right) ↔
      ∃ target, left = .exclusive target ∧ env.sized target = true ∧
        (right = target ∨
          env.clone target = true ∧ (right = .shared target ∨ right = .exclusive target)) := by
  simp only [assignment_applies_iff, ← Handover.exists_bound_iff]
  constructor
  · rintro ⟨route, target, reference, bound, same⟩
    exact ⟨target, reference, route.handover, bound, same⟩
  · rintro ⟨target, reference, handover, bound, same⟩
    obtain ⟨route, rfl⟩ := AssignRoute.handover_bijective.2 handover
    exact ⟨route, target, reference, bound, same⟩

theorem exists_plainConstruction_iff {type : Ty} {args : List Ty} :
    (∃ route, (env.plainConstruction route).Applies type (.tuple args)) ↔
      ∃ arg, args = [arg] ∧ env.sized type = true ∧
        (arg = type ∨ env.copy type = true ∧ (arg = .shared type ∨ arg = .exclusive type)) := by
  simp only [plainConstruction_applies_iff, ← Handover.exists_bound_iff]
  constructor
  · rintro ⟨route, bound, same⟩
    exact ⟨_, same, route.handover, bound, rfl⟩
  · rintro ⟨arg, same, handover, bound, rfl⟩
    obtain ⟨route, rfl⟩ := PlainRoute.handover_bijective.2 handover
    exact ⟨route, bound, same⟩

/-! ### What the concepts probe -/

theorem assignRoute_iff {route : AssignRoute} {left right : Ty} :
    env.assignRoute left right route = true ↔ (env.assignment route).Applies left right := by
  have tried : ∀ target, env.assignRoute (.exclusive target) right route =
      (route.handover.bound env env.clone target && right == route.handover.type target) := by
    intro target
    cases route <;> rfl
  rw [assignment_applies_iff]
  constructor
  · intro assigns
    obtain ⟨target, rfl⟩ : ∃ target, left = .exclusive target := by
      cases left with
      | reference mutable target =>
          cases mutable with
          | true => exact ⟨target, rfl⟩
          | false => cases assigns
      | _ => cases assigns
    rw [tried, Bool.and_eq_true, beq_iff_eq] at assigns
    exact ⟨target, rfl, assigns⟩
  · rintro ⟨target, rfl, applies⟩
    rw [tried, Bool.and_eq_true, beq_iff_eq]
    exact applies

theorem plainRoute_iff {route : PlainRoute} {type : Ty} {args : List Ty} :
    env.plainRoute type args route = true ↔
      (env.plainConstruction route).Applies type (.tuple args) := by
  have tried : env.plainRoute type args route =
      (route.handover.bound env env.copy type && args == [route.handover.type type]) := by
    cases route <;> rfl
  rw [plainConstruction_applies_iff, tried, Bool.and_eq_true, beq_iff_eq]

theorem AssignRoute.mem_all (route : AssignRoute) : route ∈ AssignRoute.all := by
  cases route <;> decide

theorem PlainRoute.mem_all (route : PlainRoute) : route ∈ PlainRoute.all := by
  cases route <;> decide

section Sized

variable (referenceSized : ∀ mutable target, env.sized (.reference mutable target) = true)
include referenceSized

/-- The probes ask that both types have a known size, which every implementation brings along. -/
theorem assignableFrom_iff {left right : Ty} :
    env.assignableFrom left right = true ↔
      ∃ route, (env.assignment route).Applies left right := by
  simp only [assignableFrom, assigns, Bool.and_eq_true, List.any_eq_true]
  constructor
  · rintro ⟨_, _, route, _, tried⟩
    exact ⟨route, assignRoute_iff.mp tried⟩
  · rintro ⟨route, applies⟩
    have tried := assignRoute_iff.mpr applies
    obtain ⟨target, rfl, bound, rfl⟩ := assignment_applies_iff.mp applies
    have sized := Handover.sized_of_bound bound
    exact ⟨rfl, ⟨referenceSized true target, Handover.sized_type referenceSized sized⟩, route,
      route.mem_all, tried⟩

theorem nothrowConstructibleFrom_iff_applies {type : Ty} {args : List Ty} :
    env.nothrowConstructibleFrom type args = true ↔
      ∃ route, (env.plainConstruction route).Applies type (.tuple args) := by
  simp only [nothrowConstructibleFrom, destructible, buildsPlainly, Bool.and_eq_true,
    List.any_eq_true, List.all_eq_true]
  constructor
  · rintro ⟨_, _, route, _, tried⟩
    exact ⟨route, plainRoute_iff.mp tried⟩
  · rintro ⟨route, applies⟩
    have tried := plainRoute_iff.mpr applies
    obtain ⟨bound, rfl⟩ := plainConstruction_applies_iff.mp applies
    have sized := Handover.sized_of_bound bound
    refine ⟨sized, ⟨sized, ?_⟩, route, route.mem_all, tried⟩
    exact List.forall_mem_singleton.mpr (Handover.sized_type referenceSized sized)

end Sized

/-- Assignment is recognised for an exclusive reference to a type of a known size, from a value of
the type and, if it can be cloned, from a reference to one. Construction without user code is
recognised from one value of the type and, if it can be copied, from a reference to one. In either
case exactly one implementation applies, and to no types do two. -/
theorem recognised_by_one_implementation (env : Environment)
    (referenceSized : ∀ mutable target, env.sized (.reference mutable target) = true) :
    (∀ left right,
      (env.assignableFrom left right = true ↔
        ∃ target, left = .exclusive target ∧ env.sized target = true ∧
          (right = target ∨
            env.clone target = true ∧ (right = .shared target ∨ right = .exclusive target))) ∧
      (env.assignableFrom left right = true ↔
        ∃! route, (env.assignment route).Applies left right) ∧
      ∀ route route', (env.assignment route).Applies left right →
        (env.assignment route').Applies left right → route = route') ∧
    ∀ type args,
      (env.nothrowConstructibleFrom type args = true ↔
        ∃ arg, args = [arg] ∧ env.sized type = true ∧
          (arg = type ∨ env.copy type = true ∧ (arg = .shared type ∨ arg = .exclusive type))) ∧
      (env.nothrowConstructibleFrom type args = true ↔
        ∃! route, (env.plainConstruction route).Applies type (.tuple args)) ∧
      ∀ route route', (env.plainConstruction route).Applies type (.tuple args) →
        (env.plainConstruction route').Applies type (.tuple args) → route = route' := by
  constructor
  · intro left right
    refine ⟨?_, ?_, fun _ _ => AssignRoute.eq_of_applies⟩
    · rw [assignableFrom_iff referenceSized, exists_assignment_iff]
    · rw [assignableFrom_iff referenceSized]
      constructor
      · rintro ⟨route, applies⟩
        exact ⟨route, applies, fun _ other => AssignRoute.eq_of_applies other applies⟩
      · exact ExistsUnique.exists
  · intro type args
    refine ⟨?_, ?_, fun _ _ => PlainRoute.eq_of_applies⟩
    · rw [nothrowConstructibleFrom_iff_applies referenceSized, exists_plainConstruction_iff]
    · rw [nothrowConstructibleFrom_iff_applies referenceSized]
      constructor
      · rintro ⟨route, applies⟩
        exact ⟨route, applies, fun _ other => PlainRoute.eq_of_applies other applies⟩
      · exact ExistsUnique.exists

end Environment

namespace Universe

/-- A reference to a byte is moved into a place for such references, and not cloned from the byte's
place; it is cloned from behind one more reference. Text can be neither moved in nor cloned. -/
theorem recognised_by_one_implementation_nested :
    (∃! route, (standard.assignment route).Applies (.exclusive (.shared byte)) (.shared byte)) ∧
      ¬(standard.assignment .cloneShared).Applies (.exclusive (.shared byte)) (.shared byte) ∧
      standard.assignableFrom (.exclusive (.shared byte)) (.exclusive (.shared byte)) = true ∧
      standard.assignableFrom (.exclusive text) (.shared text) = false ∧
      (∃! route, (standard.plainConstruction route).Applies byte (.tuple [.exclusive byte])) ∧
      standard.nothrowConstructibleFrom byteVec [.shared byteVec] = false := by
  obtain ⟨assign, construct⟩ :=
    Environment.recognised_by_one_implementation standard (sized_reference true)
  obtain ⟨_, once, unique⟩ := assign (.exclusive (.shared byte)) (.shared byte)
  obtain ⟨nested, _⟩ := assign (.exclusive (.shared byte)) (.exclusive (.shared byte))
  obtain ⟨unsized, _⟩ := assign (.exclusive text) (.shared text)
  obtain ⟨_, copied, _⟩ := construct byte [.exclusive byte]
  obtain ⟨owned, _⟩ := construct byteVec [.shared byteVec]
  refine ⟨once.mp (by decide), fun cloned => ?_, nested.mpr ?_, ?_, copied.mp (by decide), ?_⟩
  · have moved : (standard.assignment .move).Applies (.exclusive (.shared byte)) (.shared byte) :=
      ⟨.shared byte, by decide, rfl, rfl⟩
    cases unique _ _ cloned moved
  · exact ⟨.shared byte, rfl, by decide, .inr ⟨by decide, .inr rfl⟩⟩
  · rw [Bool.eq_false_iff, ne_eq, unsized]
    rintro ⟨target, same, sized, _⟩
    cases same
    exact absurd sized (by decide)
  · rw [Bool.eq_false_iff, ne_eq, owned]
    rintro ⟨arg, same, _, rfl | ⟨copy, _⟩⟩
    · exact absurd (List.singleton_inj.mp same) (Ty.reference_ne false _)
    · exact absurd copy (by decide)

end Universe

end TypeConcepts
