import TypeConcepts.Proofs.Store.Step
import TypeConcepts.Universe.Answer

/-!
Runs of exchanges: values change places and nothing else happens to them. A run goes on after a step
that panics, and can be taken back step by step.
-/

namespace TypeConcepts.Store

variable {α : Type}

def run (store : List (Location α)) : List Step → List (Location α)
  | [] => store
  | step :: rest => run (call store step).store rest

def completedSteps (store : List (Location α)) : List Step → List Step
  | [] => []
  | step :: rest =>
      let later := completedSteps (call store step).store rest
      if (call store step).completed then step :: later else later

/-- The composition of the transpositions of some steps. -/
def composition (steps : List Step) : Equiv.Perm Address :=
  (steps.flatMap Step.transpositions).prod

/-- Every step is admissible in the store that it finds. -/
inductive AdmissibleRun (env : Environment) (element : Ty → Ty) :
    List (Location α) → List Step → Prop
  | nil {store : List (Location α)} : AdmissibleRun env element store []
  | cons {store : List (Location α)} {step : Step} {rest : List Step}
      (first : Admissible env element store step)
      (later : AdmissibleRun env element (call store step).store rest) :
      AdmissibleRun env element store (step :: rest)

theorem run_append (store : List (Location α)) (earlier later : List Step) :
    run store (earlier ++ later) = run (run store earlier) later := by
  induction earlier generalizing store with
  | nil => rfl
  | cons step rest ih => exact ih (call store step).store

theorem completedSteps_append (store : List (Location α)) (earlier later : List Step) :
    completedSteps store (earlier ++ later) =
      completedSteps store earlier ++ completedSteps (run store earlier) later := by
  induction earlier generalizing store with
  | nil => rfl
  | cons step rest ih =>
      rw [List.cons_append, completedSteps, completedSteps, ih, run]
      cases (call store step).completed <;> rfl

theorem composition_cons (step : Step) (rest : List Step) (address : Address) :
    composition (step :: rest) address =
      step.transpositions.prod (composition rest address) := by
  rw [composition, List.flatMap_cons, List.prod_append]
  rfl

section Admissible

variable {env : Environment} {element : Ty → Ty} {store : List (Location α)}
  {steps earlier later : List Step}

theorem AdmissibleRun.append (first : AdmissibleRun env element store earlier)
    (second : AdmissibleRun env element (run store earlier) later) :
    AdmissibleRun env element store (earlier ++ later) := by
  induction first with
  | nil => exact second
  | cons admissible _ ih => exact .cons admissible (ih second)

theorem AdmissibleRun.at_step {step : Step}
    (admissible : AdmissibleRun env element store (earlier ++ step :: later)) :
    Admissible env element (run store earlier) step := by
  induction earlier generalizing store with
  | nil =>
      cases admissible with
      | cons first _ => exact first
  | cons first rest ih =>
      cases admissible with
      | cons _ remaining => exact ih remaining

variable (admissible : AdmissibleRun env element store steps)
include admissible

/-- Every value comes from where the completed steps have taken it. -/
theorem read_run (address : Address) :
    read (run store steps) address =
      read store (composition (completedSteps store steps) address) := by
  induction admissible with
  | nil => rfl
  | @cons store step rest first later ih =>
      have promise := call_promise first
      rw [run, ih, completedSteps]
      cases completed : (call store step).completed with
      | true => rw [if_pos rfl, promise.moved completed, composition_cons]
      | false => rw [if_neg Bool.false_ne_true, promise.atomic completed]

theorem contents_run : (contents (run store steps)).Perm (contents store) := by
  induction admissible with
  | nil => exact .refl _
  | cons first later ih => exact ih.trans (call_promise first).sameContents

theorem types_run : types (run store steps) = types store := by
  induction admissible with
  | nil => rfl
  | cons first later ih => exact ih.trans (call_promise first).sameTypes

theorem typed_run {typeOf : α → Ty} (typed : Typed typeOf element store) :
    Typed typeOf element (run store steps) := by
  induction admissible with
  | nil => exact typed
  | cons first later ih => exact ih (typed_call first typed)

/-- The completed steps can be taken again in the reverse order, all of them complete, and they lead
back to where the run began. -/
theorem run_reverse :
    AdmissibleRun env element (run store steps) (completedSteps store steps).reverse ∧
      run (run store steps) (completedSteps store steps).reverse = store ∧
      completedSteps (run store steps) (completedSteps store steps).reverse =
        (completedSteps store steps).reverse := by
  induction admissible with
  | nil => exact ⟨.nil, rfl, rfl⟩
  | @cons store step rest first later ih =>
      obtain ⟨backAdmissible, back, backCompleted⟩ := ih
      rw [run, completedSteps]
      cases completed : (call store step).completed with
      | false =>
          have stays := (call_promise first).atomic completed
          rw [stays] at back backAdmissible backCompleted ⊢
          exact ⟨backAdmissible, back, backCompleted⟩
      | true =>
          have again := call_again first completed
          rw [if_pos rfl, List.reverse_cons, run_append, completedSteps_append, back, backCompleted]
          refine ⟨backAdmissible.append ?_, ?_, ?_⟩
          · rw [back]
            exact .cons (admissible_again first) .nil
          · rw [run, run, again]
          · rw [completedSteps, completedSteps, again]
            rfl

end Admissible

/-- Over a run of exchanges the final values are the initial ones, moved by the transpositions of
the steps that completed, and none of them leaves the locations of its type. Each step keeps its
promise, whatever came before it: it completes exactly if the lengths agree, changes nothing if it
panics, and never anything that it does not name. The completed steps taken again in the reverse
order restore the initial store. -/
theorem run_permutes (env : Environment) (element : Ty → Ty) (store : List (Location α))
    (steps : List Step) (admissible : AdmissibleRun env element store steps) :
    (∀ address, read (run store steps) address =
        read store (composition (completedSteps store steps) address)) ∧
      (contents (run store steps)).Perm (contents store) ∧
      types (run store steps) = types store ∧
      (∀ typeOf, Typed typeOf element store → Typed typeOf element (run store steps)) ∧
      (∀ earlier step later, steps = earlier ++ step :: later →
        Promise (run store earlier) step (call (run store earlier) step)) ∧
      run (run store steps) (completedSteps store steps).reverse = store ∧
      completedSteps (run store steps) (completedSteps store steps).reverse =
        (completedSteps store steps).reverse := by
  obtain ⟨_, back, backCompleted⟩ := run_reverse admissible
  refine ⟨read_run admissible, contents_run admissible, types_run admissible,
    fun _ => typed_run admissible, ?_, back, backCompleted⟩
  rintro earlier step later rfl
  exact call_promise admissible.at_step

/-! ### A run with a panic -/

/-- What the sequences of a type are made of; any other type holds one value of its own. -/
def itemOf : Ty → Ty
  | .named "Vec" [item] => item
  | .array item _ => item
  | type => type

def mixedStore : List (Location Nat) :=
  [⟨Universe.byteVec, [1, 2, 3, 4]⟩, ⟨Universe.byteVec, [5, 6]⟩, ⟨Universe.byte, [7]⟩]

/-- Two vectors change places, two stretches of different lengths do not, and two stretches of one
vector and then of both do. -/
def mixedSteps : List Step :=
  [.byMove 0 1, .stretches 0 ⟨0, 2⟩ 1 ⟨1, 2⟩, .stretches 1 ⟨2, 3⟩ 1 ⟨0, 1⟩,
    .stretches 0 ⟨0, 2⟩ 1 ⟨2, 4⟩]

theorem admissible_mixed : AdmissibleRun Universe.standard itemOf mixedStore mixedSteps := by
  have between : ∀ {left right : Stretch}, (0 : Nat) = 1 → left.Disjoint right := by
    intro left right same
    cases same
  refine .cons (.byMove rfl rfl (by decide) (by decide)) ?_
  refine .cons (.stretches rfl rfl ?_ ?_ between Universe.byte rfl rfl (by decide)) ?_
  · exact ⟨by decide, by decide⟩
  · exact ⟨by decide, by decide⟩
  refine .cons (.stretches rfl rfl ?_ ?_ ?_ Universe.byte rfl rfl (by decide)) ?_
  · exact ⟨by decide, by decide⟩
  · exact ⟨by decide, by decide⟩
  · intro _ position
    simp only [Stretch.Covers]
    omega
  refine .cons (.stretches rfl rfl ?_ ?_ between Universe.byte rfl rfl (by decide)) .nil
  · exact ⟨by decide, by decide⟩
  · exact ⟨by decide, by decide⟩

theorem run_permutes_mixed :
    run mixedStore mixedSteps =
        [⟨Universe.byteVec, [1, 4]⟩, ⟨Universe.byteVec, [3, 2, 5, 6]⟩, ⟨Universe.byte, [7]⟩] ∧
      (completedSteps mixedStore mixedSteps).length = 3 ∧
      read mixedStore (composition (completedSteps mixedStore mixedSteps) (1, 2)) = some 5 ∧
      run (run mixedStore mixedSteps) (completedSteps mixedStore mixedSteps).reverse =
        mixedStore := by
  obtain ⟨values, _, _, _, _, back, _⟩ := run_permutes _ _ _ _ admissible_mixed
  exact ⟨rfl, rfl, (values (1, 2)).symm, back⟩

end TypeConcepts.Store
