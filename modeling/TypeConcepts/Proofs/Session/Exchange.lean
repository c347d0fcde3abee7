import TypeConcepts.Proofs.Store.Run
import TypeConcepts.Proofs.Success
import TypeConcepts.Session.Run

/-!
The exchanges of a session are calls on a store of typed locations, one after the other, and keep
what such calls promise.
-/

namespace TypeConcepts.Session

open Store (Location Admissible Stretch call exchange exchangeStretches exchangeParts_between itemOf)

/-- What a location of a session holds: numbers of a list, or one value as a whole. -/
inductive Item where
  | number (number : Int64)
  | whole (value : Value)

def Value.location (value : Value) : Location Item :=
  match value with
  | .list items => ⟨value.type, items.map .number⟩
  | value => ⟨value.type, [.whole value]⟩

def locations (store : List Value) : List (Location Item) := store.map Value.location

theorem type_location (value : Value) : value.location.type = value.type := by
  cases value <;> rfl

theorem location_list (items : List Int64) :
    Value.location (.list items) = ⟨Kind.list.type, items.map .number⟩ :=
  rfl

theorem getElem?_locations {store : List Value} {place : Nat} {value : Value}
    (found : store[place]? = some value) : (locations store)[place]? = some value.location := by
  rw [locations, List.getElem?_map, found, Option.map_some]

theorem locations_exchange (left right : Nat) (store : List Value) :
    locations (exchange left right store) = exchange left right (locations store) := by
  simp only [exchange, locations, List.getElem?_map]
  cases store[left]? with
  | none => rfl
  | some first =>
      cases store[right]? with
      | none => rfl
      | some second => simp only [Option.map_some, List.map_set]

theorem exchangeStretches_map {α β : Type} (change : α → β) (left right : List α)
    (leftPart rightPart : Stretch) :
    exchangeStretches (left.map change) (right.map change) leftPart rightPart =
      (exchangeStretches left right leftPart rightPart).map
        (Prod.map (List.map change) (List.map change)) := by
  unfold exchangeStretches
  split
  · simp only [Option.map_some, Prod.map, Stretch.write, Stretch.read, List.map_append,
      List.map_take, List.map_drop]
  · rfl

variable {store : List Value} {left right : Nat} {mode : Option Mode} {outcome : Outcome}

theorem supports_of_strategyFor {first second : Ty} {strategy : Strategy}
    (found : strategyFor mode first second = .ok strategy) :
    facts.supports first second strategy = true := by
  cases mode with
  | none => cases found
  | some mode =>
      have chosen : mode.strategy? facts first second = some strategy := by
        change present .rejected (mode.strategy? facts first second) = .ok strategy at found
        cases named : mode.strategy? facts first second with
        | none =>
            rw [named] at found
            cases found
        | some other =>
            rw [named] at found
            cases found
            rfl
      cases mode with
      | auto => exact List.find?_some chosen
      | given given =>
          rw [Mode.strategy?] at chosen
          split at chosen
          · rename_i supported
            cases chosen
            exact supported
          · cases chosen

theorem getElem?_of_valueAt {place : Nat} {value : Value} (found : valueAt store place = .ok value) :
    store[place]? = some value := by
  unfold valueAt at found
  split at found
  · rename_i atPlace
    cases found
    exact atPlace
  · cases found

theorem swap_eq_call (distinct : left ≠ right)
    (byMove : ∀ first second strategy, store[left]? = some first → store[right]? = some second →
      strategyFor mode first.type second.type = .ok strategy → strategy = .byMove)
    (done : swap store left right mode = .ok outcome) :
    Admissible facts itemOf (locations store) (.byMove left right) ∧
      call (locations store) (.byMove left right) =
        ⟨locations outcome.store, outcome.answer.isOk⟩ := by
  unfold swap at done
  obtain ⟨first, foundLeft, done⟩ := exists_of_bind_eq_ok done
  obtain ⟨second, foundRight, done⟩ := exists_of_bind_eq_ok done
  obtain ⟨strategy, chosen, done⟩ := exists_of_bind_eq_ok done
  have atLeft := getElem?_of_valueAt foundLeft
  have atRight := getElem?_of_valueAt foundRight
  cases byMove first second strategy atLeft atRight chosen
  cases done
  have supported := supports_of_strategyFor chosen
  rw [← type_location first, ← type_location second] at supported
  refine ⟨.byMove (getElem?_locations atLeft) (getElem?_locations atRight) distinct supported, ?_⟩
  rw [call, locations_exchange]
  rfl

theorem stretchAt_eq_ok {place : Nat} {bounds : Bounds} {items : List Int64} {part : Stretch}
    (found : stretchAt store place bounds = .ok (items, part)) :
    store[place]? = some (.list items) ∧ part.Within items := by
  unfold stretchAt valueAt at found
  cases value : store[place]? with
  | none =>
      rw [value] at found
      cases found
  | some value' =>
      rw [value] at found
      cases value' with
      | list all =>
          cases within : Stretch.within? bounds.start bounds.stop all with
          | none =>
              simp only [bind, Except.bind, within, present] at found
              cases found
          | some part' =>
              simp only [bind, Except.bind, within, present] at found
              cases found
              exact ⟨rfl, Stretch.within_of_within? within⟩
      | _ => cases found

theorem swapStretches_eq_call {leftBounds rightBounds : Bounds} (distinct : left ≠ right)
    (done : swapStretches store left right leftBounds rightBounds mode = .ok outcome) :
    ∃ leftPart rightPart,
      Admissible facts itemOf (locations store) (.stretches left leftPart right rightPart) ∧
        call (locations store) (.stretches left leftPart right rightPart) =
          ⟨locations outcome.store, outcome.answer.isOk⟩ := by
  unfold swapStretches at done
  obtain ⟨⟨items, leftPart⟩, foundLeft, done⟩ := exists_of_bind_eq_ok done
  obtain ⟨⟨others, rightPart⟩, foundRight, done⟩ := exists_of_bind_eq_ok done
  obtain ⟨strategy, _, done⟩ := exists_of_bind_eq_ok done
  obtain ⟨atLeft, leftWithin⟩ := stretchAt_eq_ok foundLeft
  obtain ⟨atRight, rightWithin⟩ := stretchAt_eq_ok foundRight
  have newLeft := getElem?_locations atLeft
  have newRight := getElem?_locations atRight
  rw [location_list] at newLeft newRight
  have leftWithin' : leftPart.Within (items.map Item.number) := by
    rwa [Stretch.Within, List.length_map]
  have rightWithin' : rightPart.Within (others.map Item.number) := by
    rwa [Stretch.Within, List.length_map]
  refine ⟨leftPart, rightPart, .stretches newLeft newRight leftWithin' rightWithin'
    (fun same => absurd same distinct) (.word "i64") rfl rfl (by decide), ?_⟩
  rw [call, exchangeParts_between newLeft newRight distinct, exchangeStretches_map]
  cases exchanged : exchangeStretches items others leftPart rightPart with
  | none =>
      rw [exchanged] at done
      cases done
      rfl
  | some after =>
      rw [exchanged] at done
      cases done
      simp only [Option.map_some, locations, List.map_set]
      rfl

/-! ### Runs -/

/-- Operations that exchange by moves, or exchange stretches. -/
def Exchanges : Operation → Prop
  | .swap _ _ mode => mode = some (.given .byMove)
  | .swapStretches .. => True
  | _ => False

theorem eq_byMove_of_strategyFor {first second : Ty} {strategy : Strategy}
    (chosen : strategyFor (some (.given .byMove)) first second = .ok strategy) :
    strategy = .byMove := by
  by_cases supported : facts.supports first second .byMove = true
  · have named : strategyFor (some (.given .byMove)) first second = .ok .byMove := by
      simp only [strategyFor, present, bind, Except.bind, Mode.strategy?, if_pos supported]
    cases named.symm.trans chosen
    rfl
  · have refused : strategyFor (some (.given .byMove)) first second = .error .rejected := by
      simp only [strategyFor, present, bind, Except.bind, Mode.strategy?, if_neg supported]
    cases refused.symm.trans chosen

theorem distinct_of_checkPlaces (checked : checkPlaces store [left, right] = .ok ()) :
    left ≠ right := by
  obtain ⟨_, _, unaliased⟩ := exists_of_bind_eq_ok checked
  unfold demand at unaliased
  split at unaliased
  · rename_i different
    simpa using different
  · cases unaliased

/-- An operation that exchanges is refused and changes nothing, or is a call. -/
theorem step_exchanges {operation : Operation} (exchanges : Exchanges operation) :
    (step store operation).store = store ∨
      ∃ exchange, Admissible facts itemOf (locations store) exchange ∧
        call (locations store) exchange =
          ⟨locations (step store operation).store, (step store operation).answer.isOk⟩ := by
  unfold step
  cases checked : checkPlaces store operation.places with
  | error fault => exact .inl rfl
  | ok =>
      dsimp only
      cases done : perform store operation with
      | error fault => exact .inl rfl
      | ok outcome =>
          right
          cases operation with
          | swap left right mode =>
              cases exchanges
              have distinct : left ≠ right := distinct_of_checkPlaces checked
              exact ⟨.byMove left right, swap_eq_call distinct
                (fun _ _ _ _ _ chosen => eq_byMove_of_strategyFor chosen) done⟩
          | swapStretches left right leftBounds rightBounds mode =>
              have distinct : left ≠ right := distinct_of_checkPlaces checked
              obtain ⟨leftPart, rightPart, isCall⟩ := swapStretches_eq_call distinct done
              exact ⟨.stretches left leftPart right rightPart, isCall⟩
          | _ => cases exchanges

theorem finalStore_cons (outcome : Outcome) (outcomes : List Outcome) :
    finalStore store (outcome :: outcomes) = finalStore outcome.store outcomes := by
  cases outcomes with
  | nil => rfl
  | cons second others =>
      rw [finalStore, finalStore, List.getLast?_cons_cons]
      rfl

/-- The exchanges of a session are a run of calls, so they lose and duplicate no value. -/
theorem run_exchanges (store : List Value) (operations : List Operation)
    (exchanges : ∀ operation ∈ operations, Exchanges operation) :
    ∃ steps, Store.AdmissibleRun facts itemOf (locations store) steps ∧
      Store.run (locations store) steps =
        locations (finalStore store (run store operations)) := by
  induction operations generalizing store with
  | nil => exact ⟨[], .nil, rfl⟩
  | cons operation rest ih =>
      obtain ⟨later, admissible, same⟩ := ih (step store operation).store fun other among =>
        exchanges other (List.mem_cons_of_mem _ among)
      rw [run, finalStore_cons]
      rcases step_exchanges (exchanges operation List.mem_cons_self) with refused | called
      · rw [refused] at admissible same
        refine ⟨later, admissible, ?_⟩
        rw [same, refused]
      · obtain ⟨exchange, first, called⟩ := called
        refine ⟨exchange :: later, .cons first ?_, ?_⟩
        · rwa [called]
        · rw [Store.run, called]
          exact same

theorem contents_run_exchanges (store : List Value) (operations : List Operation)
    (exchanges : ∀ operation ∈ operations, Exchanges operation) :
    (Store.contents (locations (finalStore store (run store operations)))).Perm
      (Store.contents (locations store)) := by
  obtain ⟨steps, admissible, same⟩ := run_exchanges store operations exchanges
  rw [← same]
  exact Store.contents_run admissible

end TypeConcepts.Session
