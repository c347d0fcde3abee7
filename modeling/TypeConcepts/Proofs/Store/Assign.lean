import TypeConcepts.Session.Behaviour
import TypeConcepts.Store.Exchange

/-!
What assignment leaves in a store.

An assignment writes the place behind the reference that it is made through, and yields that
reference. Whatever is then done through it is again done to this one place, so that a chain of
uses comes to a computation on the value there.
-/

namespace TypeConcepts

theorem Session.Effect.bind_pure_result {α β : Type} (effect : Effect α) (change : α → β) :
    (effect >>= fun value => Pure.pure (change value)).result = effect.result.map change := by
  rcases effect with ⟨events, _ | value⟩ <;> rfl

namespace Store

open Session (Effect)

variable {α : Type} {store : List α} {target : Nat} {old : α}

/-- The place that is assigned from, unless a value of its own is assigned. -/
def Source.place? : Source α → Option Nat
  | .value _ => none
  | .shared place | .exclusive place => some place

variable (code : Overwrite Effect α)

theorem assign_value_result (inside : store[target]? = some old) (value : α) :
    (assign code target (.value value) store).result =
      (code.drop old).result.map fun _ => (target, store.set target value) := by
  rw [← Effect.bind_pure_result]
  simp only [assign, inside]

theorem assign_reference_result (inside : store[target]? = some old) {source : Source α}
    {place : Nat} {new : α} (through : source.place? = some place)
    (found : store[place]? = some new) :
    (assign code target source store).result =
      (code.cloneOver old new).result.map fun value => (target, store.set target value) := by
  rw [← Effect.bind_pure_result]
  cases source with
  | value value => cases through
  | shared _ | exclusive _ =>
      cases through
      simp only [assign, inside, found]

theorem assign_reference_eq_pure {source : Source α} {place : Nat}
    (through : source.place? = some place) (missing : store[place]? = none) :
    assign code target source store = pure (target, store) := by
  cases source with
  | value value => cases through
  | shared _ | exclusive _ =>
      cases through
      cases inside : store[target]? <;> simp only [assign, inside, missing]

/-- What is done through a reference: an assignment, or a change of the value behind it. -/
inductive Use (α : Type) where
  | assign (source : Source α)
  | write (change : α → Effect α)

namespace Use

/-- A use through a reference to a place: the place of the reference that can be used next, and the
store after it. -/
def run (place : Nat) (store : List α) : Use α → Effect (Nat × List α)
  | .assign source => Store.assign code place source store
  | .write change =>
      match store[place]? with
      | none => pure (place, store)
      | some value => do pure (place, store.set place (← change value))

def effect (clone : α → Effect α) (store : List α) (old : α) : Use α → Effect α
  | .assign (.value value) => do
      code.drop old
      pure value
  | .assign (.shared place) | .assign (.exclusive place) =>
      match store[place]? with
      | none => pure old
      | some value => clone value
  | .write change => change old

/-- A reference that is written through is the only one to its place. -/
def Apart (target : Nat) : Use α → Prop
  | .assign source => source.place? ≠ some target
  | .write _ => True

instance (target : Nat) (use : Use α) : Decidable (use.Apart target) :=
  match use with
  | .assign source => inferInstanceAs (Decidable (source.place? ≠ some target))
  | .write _ => inferInstanceAs (Decidable True)

end Use

/-- Uses one after the other, each through the reference that the one before yields. -/
def chain (uses : List (Use α)) (target : Nat) (store : List α) : Effect (Nat × List α) :=
  uses.foldlM (fun (place, store) use => use.run code place store) (target, store)

theorem chain_assign (sources : List (Source α)) (target : Nat) (store : List α) :
    chain code (sources.map .assign) target store = assignEach code target sources store := by
  rw [chain, List.foldlM_map]
  rfl

structure DiffersAt (target : Nat) (store after : List α) : Prop where
  length_eq : after.length = store.length
  getElem?_eq : ∀ other, other ≠ target → after[other]? = store[other]?

namespace DiffersAt

theorem refl (target : Nat) (store : List α) : DiffersAt target store store :=
  ⟨rfl, fun _ _ => rfl⟩

theorem trans {between after : List α} (first : DiffersAt target store between)
    (second : DiffersAt target between after) : DiffersAt target store after where
  length_eq := second.length_eq.trans first.length_eq
  getElem?_eq other distinct :=
    (second.getElem?_eq other distinct).trans (first.getElem?_eq other distinct)

theorem set (target : Nat) (store : List α) (value : α) :
    DiffersAt target store (store.set target value) where
  length_eq := List.length_set
  getElem?_eq _ distinct := List.getElem?_set_ne distinct.symm

end DiffersAt

/-- If it does not panic, an effect yields a reference to a place and has changed no other. -/
def Lands (target : Nat) (store : List α) (effect : Effect (Nat × List α)) : Prop :=
  ∀ place after, effect.result = some (place, after) →
    place = target ∧ DiffersAt target store after

theorem lands_pure (target : Nat) (store : List α) : Lands target store (pure (target, store)) := by
  intro place after done
  cases done
  exact ⟨rfl, .refl target store⟩

theorem lands_set {β : Type} (target : Nat) (store : List α) (effect : Effect β) (written : β → α) :
    Lands target store (do pure (target, store.set target (written (← effect)))) := by
  intro place after done
  rw [Effect.bind_pure_result, Option.map_eq_some_iff] at done
  obtain ⟨value, _, landed⟩ := done
  cases landed
  exact ⟨rfl, .set target store (written value)⟩

theorem assign_lands (source : Source α) (target : Nat) (store : List α) :
    Lands target store (assign code target source store) := by
  cases inside : store[target]? with
  | none =>
      simp only [assign, inside]
      exact lands_pure target store
  | some old =>
      cases source with
      | value value =>
          simp only [assign, inside]
          exact lands_set target store (code.drop old) fun _ => value
      | shared place | exclusive place =>
          cases found : store[place]? with
          | none =>
              simp only [assign, inside, found]
              exact lands_pure target store
          | some new =>
              simp only [assign, inside, found]
              exact lands_set target store (code.cloneOver old new) id

theorem Use.run_lands (use : Use α) (target : Nat) (store : List α) :
    Lands target store (use.run code target store) := by
  cases use with
  | assign source => exact assign_lands code source target store
  | write change =>
      cases inside : store[target]? with
      | none =>
          simp only [Use.run, inside]
          exact lands_pure target store
      | some old =>
          simp only [Use.run, inside]
          exact lands_set target store (change old) id

/-- Each use of a chain starts from the reference that the one before yields, which is the one that
the chain starts from. -/
theorem chain_lands (uses : List (Use α)) (target : Nat) (store : List α) :
    Lands target store (chain code uses target store) := by
  induction uses generalizing store with
  | nil => exact lands_pure target store
  | cons use rest ih =>
      intro place after done
      rw [chain, List.foldlM_cons, Effect.bind_result, Option.bind_eq_some_iff] at done
      obtain ⟨⟨between, store'⟩, ran, done⟩ := done
      obtain ⟨rfl, first⟩ := use.run_lands code target store between store' ran
      obtain ⟨same, second⟩ := ih store' place after done
      exact ⟨same, first.trans second⟩

section Clone

variable {code} {clone : α → Effect α}
  (clones : ∀ old new, (code.cloneOver old new).result = (clone new).result)
include clones

/-- What a use does to a place that already differs is what it does to the value there: the places
that it reads are others. -/
theorem Use.run_set_result {use : Use α} (apart : use.Apart target) (inside : target < store.length)
    (current : α) :
    (use.run code target (store.set target current)).result =
      (use.effect code clone store current).result.map fun value =>
        (target, store.set target value) := by
  have atTarget : (store.set target current)[target]? = some current :=
    List.getElem?_set_self inside
  cases use with
  | write change =>
      rw [← Effect.bind_pure_result]
      simp only [Use.run, atTarget, List.set_set, Use.effect]
  | assign source =>
      change (Store.assign code target source _).result = _
      cases source with
      | value value =>
          rw [assign_value_result code atTarget, List.set_set, Use.effect, Effect.bind_pure_result,
            Option.map_map]
          rfl
      | shared place | exclusive place =>
          have distinct : place ≠ target := fun same => apart (congrArg some same)
          have others : (store.set target current)[place]? = store[place]? :=
            List.getElem?_set_ne distinct.symm
          cases found : store[place]? with
          | none =>
              rw [assign_reference_eq_pure code rfl (others.trans found), Use.effect, found]
              rfl
          | some new =>
              rw [assign_reference_result code atTarget rfl (others.trans found), clones, Use.effect,
                found]
              simp only [List.set_set]

theorem chain_set_result {uses : List (Use α)} (apart : ∀ use ∈ uses, use.Apart target)
    (inside : target < store.length) (current : α) :
    (chain code uses target (store.set target current)).result =
      (uses.foldlM (Use.effect code clone store) current).result.map fun value =>
        (target, store.set target value) := by
  induction uses generalizing current with
  | nil => rfl
  | cons use rest ih =>
      have first := Use.run_set_result clones (apart use List.mem_cons_self) inside current
      rw [chain, List.foldlM_cons, List.foldlM_cons, Effect.bind_result, Effect.bind_result, first]
      cases (use.effect code clone store current).result with
      | none => rfl
      | some value => exact ih (fun use later => apart use (List.mem_cons_of_mem _ later)) value

end Clone

/-- The value at a place, and the store with the place left empty. -/
def moveOut (place : Nat) (store : List (Option α)) : Option α × List (Option α) :=
  (store[place]?.join, store.set place none)

/-- One value is moved out, the other is assigned to its place, and the first, which was saved, to
the place of the other. -/
def exchangeByAssign (code : Overwrite Effect (Option α)) (left right : Nat)
    (store : List (Option α)) : Effect (List (Option α)) := do
  let (saved, store) := moveOut left store
  let (value, store) := moveOut right store
  let (_, store) ← assign code left (.value value) store
  let (_, store) ← assign code right (.value saved) store
  pure store

theorem assign_empty {code : Overwrite Effect (Option α)} (empty : code.drop none = pure ())
    {store : List (Option α)} (inside : store[target]? = some none) (value : Option α) :
    assign code target (.value value) store = pure (target, store.set target value) := by
  simp only [assign, inside, empty, pure_bind]

/-- What is left between the moves is two empty places, which are filled the other way round. -/
theorem exchangeByAssign_eq {code : Overwrite Effect (Option α)} (empty : code.drop none = pure ())
    {left right : Nat} (distinct : left ≠ right) {store : List α} (leftInside : left < store.length)
    (rightInside : right < store.length) :
    exchangeByAssign code left right (store.map some) =
      pure ((exchange left right store).map some) := by
  have first : store[left]? = some store[left] := List.getElem?_eq_getElem leftInside
  have second : store[right]? = some store[right] := List.getElem?_eq_getElem rightInside
  let emptied : List (Option α) := ((store.map some).set left none).set right none
  have leftEmpty : emptied[left]? = some none := by
    simp [emptied, leftInside, distinct.symm]
  have rightEmpty : (emptied.set left (some store[right]))[right]? = some none := by
    simp [emptied, rightInside, distinct]
  have saved : (store.map some)[left]?.join = some store[left] := by
    rw [List.getElem?_map, first]
    rfl
  have value : ((store.map some).set left none)[right]?.join = some store[right] := by
    rw [List.getElem?_set_ne distinct, List.getElem?_map, second]
    rfl
  have filled : (emptied.set left (some store[right])).set right (some store[left]) =
      (exchange left right store).map some := by
    simp only [emptied, exchange, first, second, List.map_set]
    rw [List.set_comm _ _ distinct.symm, List.set_set, List.set_set]
  simp only [exchangeByAssign, moveOut, saved, value]
  rw [assign_empty empty leftEmpty, pure_bind, assign_empty empty rightEmpty, pure_bind, filled]

/-! ### Together -/

/-- For a type whose values are cloned over others as they are cloned, an assignment puts the value
or the clone at its target, and a reference of either kind is assigned from as the clone would be.
Whatever is done through the reference, and through each one that it yields, lands in the target
alone, and comes to the same computation on the value there. Exchanging two places is moving the
values out and assigning each to the place of the other. -/
theorem assign_writes_target_only (code : Overwrite Effect α) (clone : α → Effect α)
    (clones : ∀ old new, (code.cloneOver old new).result = (clone new).result)
    (store : List α) (target : Nat) (old : α) (inside : store[target]? = some old) :
    (∀ value, (assign code target (.value value) store).result =
      (code.drop old).result.map fun _ => (target, store.set target value)) ∧
    (∀ source place new, source.place? = some place → store[place]? = some new →
      (assign code target source store).result =
        (clone new).result.map (fun value => (target, store.set target value)) ∧
      ((code.drop old).result = some () → (assign code target source store).result =
        (do assign code target (.value (← clone new)) store).result)) ∧
    (∀ source, Lands target store (assign code target source store)) ∧
    (∀ uses, Lands target store (chain code uses target store)) ∧
    (∀ uses, (∀ use ∈ uses, use.Apart target) → (chain code uses target store).result =
      (uses.foldlM (Use.effect code clone store) old).result.map fun value =>
        (target, store.set target value)) ∧
    ∀ moves : Overwrite Effect (Option α), moves.drop none = pure () →
      ∀ other, other ≠ target → other < store.length →
        exchangeByAssign moves target other (store.map some) =
          pure ((exchange target other store).map some) := by
  obtain ⟨targetInside, held⟩ := List.getElem?_eq_some_iff.mp inside
  have byValue := assign_value_result code inside
  refine ⟨byValue, ?_, fun source => assign_lands code source target store,
    fun uses => chain_lands code uses target store, ?_, ?_⟩
  · intro source place new through found
    have byReference := assign_reference_result code inside through found
    rw [clones] at byReference
    refine ⟨byReference, fun dropped => ?_⟩
    rw [byReference, Effect.bind_result, Option.map_eq_bind]
    simp only [byValue, dropped, Option.map_some]
    rfl
  · intro uses apart
    have started := chain_set_result clones apart targetInside old
    rwa [← held, List.set_getElem_self, held] at started
  · intro moves empty other distinct otherInside
    exact exchangeByAssign_eq empty distinct.symm targetInside otherInside

end Store

namespace Session

/-- Three values that log what happens to them. The first is replaced by a clone of the second; then
by a value, a clone of the third and at last by a write; and exchanged with the second. -/
theorem assign_writes_target_only_echo :
    (Store.assign Value.assignment 0 (.shared 1) [.echo 1, .echo 2, .echo 3]).result =
        some (0, [.echo 2, .echo 2, .echo 3]) ∧
      (Store.chain Value.assignment
          [.assign (.value (.echo 7)), .assign (.exclusive 2), .write fun _ => pure (.echo 9)] 0
          [.echo 1, .echo 2, .echo 3]).result =
        some (0, [.echo 9, .echo 2, .echo 3]) ∧
      Store.exchangeByAssign ⟨fun place => place.elim (pure ()) Value.drop, fun _ new => pure new⟩
          0 1 [some (.echo 1), some (.echo 2), some (.echo 3)] =
        pure [some (.echo 2), some (.echo 1), some (.echo 3)] := by
  obtain ⟨_, references, _, _, chains, exchanges⟩ :=
    Store.assign_writes_target_only Value.assignment Value.clone Value.cloneOver_result
      [.echo 1, .echo 2, .echo 3] 0 (.echo 1) rfl
  obtain ⟨cloned, _⟩ := references (.shared 1) 1 (.echo 2) rfl rfl
  exact ⟨cloned.trans (by decide), (chains _ (by decide)).trans (by decide),
    exchanges _ rfl 1 (by decide) (by decide)⟩

end Session

end TypeConcepts
