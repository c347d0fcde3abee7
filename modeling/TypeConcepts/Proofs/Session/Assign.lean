import TypeConcepts.Proofs.Session.Exchange
import TypeConcepts.Proofs.Store.Assign

/-!
The assignments of a session.

They run the code of its types, which clones a value over another as it clones the value. Each
writes one place, whatever comes of it.
-/

namespace TypeConcepts.Session

open Store (DiffersAt Lands Use)

variable {store : List Value} {target : Nat} {outcome : Outcome}

theorem foldlM_effect_values (store values : List Value) (old : Value) :
    (((values.map Store.Source.value).map Use.assign).foldlM
      (Use.effect Value.assignment Value.clone store) old).result = some (values.getLastD old) := by
  induction values generalizing old with
  | nil => rfl
  | cons value rest ih =>
      have replaced : (Use.effect Value.assignment Value.clone store old
          (.assign (.value value))).result = some value := by
        rw [Use.effect, Effect.bind_pure_result]
        exact congrArg _ old.drop_result
      rw [List.map_cons, List.map_cons, List.foldlM_cons, Effect.bind_result, replaced,
        List.getLastD_cons]
      exact ih value

theorem assignEach_result {old : Value} (inside : store[target]? = some old)
    (values : List Value) :
    (Store.assignEach Value.assignment target (values.map .value) store).result =
      some (target, store.set target (values.getLastD old)) := by
  obtain ⟨targetInside, held⟩ := List.getElem?_eq_some_iff.mp inside
  have apart : ∀ use ∈ (values.map Store.Source.value).map Use.assign, use.Apart target := by
    intro use among
    obtain ⟨source, listed, rfl⟩ := List.mem_map.mp among
    obtain ⟨value, _, rfl⟩ := List.mem_map.mp listed
    exact (Option.some_ne_none target).symm
  have clones : ∀ old new, (Value.assignment.cloneOver old new).result = (Value.clone new).result :=
    Value.cloneOver_result
  have landed := Store.chain_set_result clones apart targetInside old
  rw [foldlM_effect_values, Store.chain_assign, ← held, List.set_getElem_self, held] at landed
  exact landed

theorem ofEffect_of_result {effect : Effect (Answer × List Value)} {answer : Answer}
    {after : List Value} (done : effect.result = some (answer, after)) :
    Outcome.ofEffect store effect = ⟨.ok answer, effect.events, after⟩ := by
  rw [Outcome.ofEffect, done]

/-- The answer is the last value: it is read through the reference that is yielded last. -/
theorem assign_eq_ok {old : Value} (inside : store[target]? = some old) {values : List Value}
    (fit : ∀ value ∈ values, facts.assigns (.exclusive old.type) value.type = true) :
    ∃ events, assign store target values =
      .ok ⟨.ok (.value (values.getLastD old)), events, store.set target (values.getLastD old)⟩ := by
  have found : valueAt store target = .ok old := by rw [valueAt, inside]
  have accepted : (values.all fun value => facts.assigns (.exclusive old.type) value.type) = true :=
    List.all_eq_true.mpr fit
  have last : (store.set target (values.getLastD old))[target]? = some (values.getLastD old) :=
    List.getElem?_set_self (List.getElem?_eq_some_iff.mp inside).1
  let effect : Effect (Answer × List Value) := do
    let landed ← Store.assignEach Value.assignment target (values.map .value) store
    pure (((landed.2[landed.1]?).map .value).getD .nothing, landed.2)
  have answered : effect.result =
      some (.value (values.getLastD old), store.set target (values.getLastD old)) := by
    rw [Effect.bind_pure_result, assignEach_result inside, Option.map_some, last]
    rfl
  have done : assign store target values = .ok (.ofEffect store effect) := by
    rw [assign, found]
    simp only [bind, Except.bind, accepted, demand, if_pos]
    rfl
  exact ⟨effect.events, done.trans (congrArg Except.ok (ofEffect_of_result answered))⟩

/-- Code that, if it runs to its end, leaves all places of a store but one as they were. -/
def Keeps (target : Nat) (store : List Value) (effect : Effect (Answer × List Value)) : Prop :=
  ∀ answer after, effect.result = some (answer, after) → DiffersAt target store after

theorem Keeps.bind {α : Type} {effect : Effect α} {next : α → Effect (Answer × List Value)}
    (keeps : ∀ value, Keeps target store (next value)) : Keeps target store (effect >>= next) := by
  intro answer after done
  rw [Effect.bind_result, Option.bind_eq_some_iff] at done
  obtain ⟨value, _, done⟩ := done
  exact keeps value answer after done

theorem keeps_of_lands {effect : Effect (Nat × List Value)} (lands : Lands target store effect)
    (answer : Nat × List Value → Answer) :
    Keeps target store (do let landed ← effect; pure (answer landed, landed.2)) := by
  intro given after done
  rw [Effect.bind_pure_result, Option.map_eq_some_iff] at done
  obtain ⟨⟨place, after'⟩, landed, same⟩ := done
  cases same
  exact (lands place after' landed).2

theorem Keeps.differsAt {effect : Effect (Answer × List Value)}
    (keeps : Keeps target store effect) :
    DiffersAt target store (Outcome.ofEffect store effect).store := by
  unfold Outcome.ofEffect
  split
  · rename_i answer after done
    exact keeps answer after done
  · exact .refl target store

theorem assignEach_lands (sources : List (Store.Source Value)) :
    Lands target store (Store.assignEach Value.assignment target sources store) := by
  rw [← Store.chain_assign]
  exact Store.chain_lands Value.assignment _ target store

/-- Operations that assign to a place. -/
def Assigns (target : Nat) : Operation → Prop
  | .assign place _ | .assignFrom place _ _ | .reset place | .normalize place => place = target
  | _ => False

theorem perform_differsAt {operation : Operation} (assigns : Assigns target operation)
    (done : perform store operation = .ok outcome) : DiffersAt target store outcome.store := by
  cases operation with
  | assign place values =>
      cases assigns
      obtain ⟨old, _, done⟩ := exists_of_bind_eq_ok done
      obtain ⟨_, _, done⟩ := exists_of_bind_eq_ok done
      cases done
      exact (keeps_of_lands (assignEach_lands _) fun landed =>
        ((landed.2[landed.1]?).map .value).getD .nothing).differsAt
  | assignFrom place source borrow =>
      cases assigns
      obtain ⟨borrow, _, done⟩ := exists_of_bind_eq_ok done
      obtain ⟨old, _, done⟩ := exists_of_bind_eq_ok done
      obtain ⟨new, _, done⟩ := exists_of_bind_eq_ok done
      obtain ⟨_, _, done⟩ := exists_of_bind_eq_ok done
      cases done
      have lands := Store.assign_lands Value.assignment
      exact (keeps_of_lands (lands _ _ store) fun _ => .nothing).differsAt
  | reset place =>
      cases assigns
      obtain ⟨value, _, done⟩ := exists_of_bind_eq_ok done
      obtain ⟨_, _, done⟩ := exists_of_bind_eq_ok done
      cases done
      have lands := Store.assign_lands Value.assignment
      exact (Keeps.bind fun initial =>
        keeps_of_lands (lands _ _ store) fun _ => .nothing).differsAt
  | normalize place =>
      cases assigns
      obtain ⟨value, _, done⟩ := exists_of_bind_eq_ok done
      obtain ⟨_, _, done⟩ := exists_of_bind_eq_ok done
      cases done
      have lands := Store.assign_lands Value.assignment
      exact (Keeps.bind fun initial => Keeps.bind fun same =>
        keeps_of_lands (lands _ _ store) fun _ => .truth same).differsAt
  | _ => cases assigns

theorem step_differsAt {operation : Operation} (assigns : Assigns target operation) :
    DiffersAt target store (step store operation).store := by
  unfold step
  split
  · exact .refl target store
  · split
    · exact .refl target store
    · rename_i outcome done
      exact perform_differsAt assigns done

/-- Assignments to one place leave all others as they were, whether they are refused, panic or run
to their end. -/
theorem run_differsAt {operations : List Operation}
    (assigns : ∀ operation ∈ operations, Assigns target operation) :
    DiffersAt target store (finalStore store (run store operations)) := by
  induction operations generalizing store with
  | nil => exact .refl target store
  | cons operation rest ih =>
      rw [run, finalStore_cons]
      exact (step_differsAt (assigns operation List.mem_cons_self)).trans
        (ih fun other later => assigns other (List.mem_cons_of_mem _ later))

end TypeConcepts.Session
