import Mathlib.Data.List.Perm.Basic
import TypeConcepts.Environment.Exchange
import TypeConcepts.Proofs.Store.Stretch
import TypeConcepts.Proofs.Store.Transposition

/-!
Exchanges in a store of typed locations, one at a time.

A location holds one value or a sequence of them. A step exchanges two whole locations by moves, or
two stretches of sequences by the exchange that slices register, which panics if their lengths
differ.
-/

namespace TypeConcepts.Store

/-- A place of a type, and the values in it: one, or those of a sequence. -/
structure Location (α : Type) where
  type : Ty
  items : List α

def Location.layout {α : Type} (location : Location α) : Ty × Nat :=
  (location.type, location.items.length)

/-- A location and a position in it. -/
abbrev Address := Nat × Nat

variable {α : Type}

inductive Step where
  | byMove (left right : Nat)
  | stretches (left : Nat) (leftPart : Stretch) (right : Nat) (rightPart : Stretch)

namespace Step

def places : Step → List Nat
  | .byMove left right | .stretches left _ right _ => [left, right]

def Names : Step → Address → Prop
  | .byMove left right, address => address.1 = left ∨ address.1 = right
  | .stretches left leftPart right rightPart, address =>
      (address.1 = left ∧ leftPart.Covers address.2) ∨
        (address.1 = right ∧ rightPart.Covers address.2)

/-- The lengths of what is exchanged agree. -/
def Fits : Step → Prop
  | .byMove _ _ => True
  | .stretches _ leftPart _ rightPart => leftPart.length = rightPart.length

/-- Two locations are transposed as a whole, stretches position by position. -/
def transpositions : Step → List (Equiv.Perm Address)
  | .byMove left right => [(Equiv.swap left right).prodCongr (Equiv.refl Nat)]
  | .stretches left leftPart right rightPart =>
      Store.transpositions (fun offset => (left, leftPart.start + offset))
        (fun offset => (right, rightPart.start + offset)) leftPart.length

end Step

def exchangeParts (store : List (Location α)) (left : Nat) (leftPart : Stretch) (right : Nat)
    (rightPart : Stretch) : Option (List (Location α)) :=
  match store[left]?, store[right]? with
  | some first, some second =>
      if left = right then
        (exchangeWithin first.items leftPart rightPart).map fun items =>
          store.set left { first with items }
      else
        (exchangeStretches first.items second.items leftPart rightPart).map fun (items, items') =>
          (store.set left { first with items }).set right { second with items := items' }
  | _, _ => none

/-- What a call leaves, and whether it ran to its end. -/
structure Called (α : Type) where
  store : List (Location α)
  completed : Bool

def call (store : List (Location α)) : Step → Called α
  | .byMove left right => ⟨exchange left right store, true⟩
  | .stretches left leftPart right rightPart =>
      match exchangeParts store left leftPart right rightPart with
      | some after => ⟨after, true⟩
      | none => ⟨store, false⟩

/-- What exclusive references and the bounds of a call guarantee before it: the step names places
of the store and parts of sequences, no value twice, and a strategy that supports the types. -/
inductive Admissible (env : Environment) (element : Ty → Ty) (store : List (Location α)) :
    Step → Prop
  | byMove {left right : Nat} {first second : Location α} (atLeft : store[left]? = some first)
      (atRight : store[right]? = some second) (distinct : left ≠ right)
      (supported : env.supports first.type second.type .byMove = true) :
      Admissible env element store (.byMove left right)
  | stretches {left right : Nat} {leftPart rightPart : Stretch} {first second : Location α}
      (atLeft : store[left]? = some first) (atRight : store[right]? = some second)
      (leftWithin : leftPart.Within first.items) (rightWithin : rightPart.Within second.items)
      (disjoint : left = right → leftPart.Disjoint rightPart) (item : Ty)
      (ofLeft : element first.type = item) (ofRight : element second.type = item)
      (supported : env.supports (.slice item) (.slice item) .bespoke = true) :
      Admissible env element store (.stretches left leftPart right rightPart)

def read (store : List (Location α)) (address : Address) : Option α :=
  (store[address.1]?).bind fun location => location.items[address.2]?

def contents (store : List (Location α)) : List α := store.flatMap Location.items

def types (store : List (Location α)) : List Ty := store.map Location.type

section Set

variable {store : List (Location α)} {place : Nat} {location : Location α}

theorem read_of_getElem? (found : store[place]? = some location) (position : Nat) :
    read store (place, position) = location.items[position]? := by
  rw [read, found]
  rfl

theorem read_set_self (inside : place < store.length) (position : Nat) :
    read (store.set place location) (place, position) = location.items[position]? :=
  read_of_getElem? (List.getElem?_set_self inside) position

theorem read_set_ne {address : Address} (other : address.1 ≠ place) :
    read (store.set place location) address = read store address := by
  rw [read, List.getElem?_set_ne other.symm, read]

theorem map_layout_set {items : List α} (found : store[place]? = some location)
    (sameLength : items.length = location.items.length) :
    (store.set place { location with items }).map Location.layout = store.map Location.layout := by
  apply List.ext_getElem?
  intro other
  rw [List.getElem?_map, List.getElem?_map]
  by_cases here : other = place
  · have inside := (List.getElem?_eq_some_iff.mp found).1
    rw [here, List.getElem?_set_self inside, found, Option.map_some, Option.map_some,
      Location.layout, Location.layout, sameLength]
  · rw [List.getElem?_set_ne (Ne.symm here)]

theorem count_contents_set [DecidableEq α] (value : α) (location : Location α) {old : Location α}
    (found : store[place]? = some old) :
    (contents (store.set place location)).count value + old.items.count value =
      (contents store).count value + location.items.count value := by
  induction store generalizing place with
  | nil => cases found
  | cons first rest ih =>
      cases place with
      | zero =>
          cases found
          simp only [contents, List.set_cons_zero, List.flatMap_cons, List.count_append]
          omega
      | succ place =>
          have later := ih found
          simp only [contents, List.set_cons_succ, List.flatMap_cons, List.count_append] at later ⊢
          omega

end Set

theorem eq_of_read {store store' : List (Location α)} (sameTypes : types store = types store')
    (sameValues : ∀ address, read store address = read store' address) : store = store' := by
  apply List.ext_getElem?
  intro place
  have typeAt := congrArg (fun all => all[place]?) sameTypes
  simp only [types, List.getElem?_map] at typeAt
  cases found : store[place]? with
  | none =>
      rw [found, Option.map_none] at typeAt
      exact (Option.map_eq_none_iff.mp typeAt.symm).symm
  | some location =>
      rw [found, Option.map_some] at typeAt
      obtain ⟨location', found', sameType⟩ := Option.map_eq_some_iff.mp typeAt.symm
      have sameItems : location.items = location'.items := by
        apply List.ext_getElem?
        intro position
        have value := sameValues (place, position)
        rwa [read_of_getElem? found, read_of_getElem? found'] at value
      rw [found']
      cases location
      cases location'
      simp_all

/-- What one exchange of stretches does to the store. -/
structure Moves (before after : List (Location α)) (left : Nat) (leftPart : Stretch) (right : Nat)
    (rightPart : Stretch) : Prop where
  sameLayout : after.map Location.layout = before.map Location.layout
  frame : ∀ place, place ≠ left → place ≠ right → after[place]? = before[place]?
  atLeft : ∀ offset < leftPart.length,
    read after (left, leftPart.start + offset) = read before (right, rightPart.start + offset)
  atRight : ∀ offset < rightPart.length,
    read after (right, rightPart.start + offset) = read before (left, leftPart.start + offset)
  outside : ∀ address, ¬(Step.stretches left leftPart right rightPart).Names address →
    read after address = read before address

section Stretches

variable {store after : List (Location α)} {left right : Nat} {leftPart rightPart : Stretch}
  {first second : Location α} (atLeft : store[left]? = some first)
  (atRight : store[right]? = some second)
include atLeft atRight

theorem exchangeParts_within (same : left = right) :
    exchangeParts store left leftPart right rightPart =
      (exchangeWithin first.items leftPart rightPart).map fun items =>
        store.set left { first with items } := by
  simp only [exchangeParts, atLeft, atRight, if_pos same]

theorem exchangeParts_between (distinct : left ≠ right) :
    exchangeParts store left leftPart right rightPart =
      (exchangeStretches first.items second.items leftPart rightPart).map fun (items, items') =>
        (store.set left { first with items }).set right { second with items := items' } := by
  simp only [exchangeParts, atLeft, atRight, if_neg distinct]

theorem isSome_exchangeParts_iff :
    (exchangeParts store left leftPart right rightPart).isSome = true ↔
      leftPart.length = rightPart.length := by
  by_cases same : left = right
  · rw [exchangeParts_within atLeft atRight same, Option.isSome_map, isSome_exchangeWithin_iff]
  · rw [exchangeParts_between atLeft atRight same, Option.isSome_map,
      isSome_exchangeStretches_iff]

variable (leftWithin : leftPart.Within first.items) (rightWithin : rightPart.Within second.items)
include leftWithin rightWithin

theorem moves_within (same : left = right) (disjoint : leftPart.Disjoint rightPart)
    (exchanged : exchangeParts store left leftPart right rightPart = some after) :
    Moves store after left leftPart right rightPart := by
  rw [exchangeParts_within atLeft atRight same] at exchanged
  subst same
  cases atLeft.symm.trans atRight
  obtain ⟨items, within, rfl⟩ := Option.map_eq_some_iff.mp exchanged
  have moved := exchanges_of_exchangeWithin leftWithin rightWithin disjoint within
  have inside := (List.getElem?_eq_some_iff.mp atLeft).1
  refine ⟨map_layout_set atLeft moved.length_eq, ?_, ?_, ?_, ?_⟩
  · intro place other _
    exact List.getElem?_set_ne other.symm
  · intro offset small
    rw [read_set_self inside, read_of_getElem? atLeft]
    exact moved.atLeft offset small
  · intro offset small
    rw [read_set_self inside, read_of_getElem? atLeft]
    exact moved.atRight offset small
  · intro address unnamed
    by_cases here : address.1 = left
    · obtain ⟨place, position⟩ := address
      dsimp only at here
      subst here
      simp only [Step.Names, true_and, not_or] at unnamed
      rw [read_set_self inside, read_of_getElem? atLeft]
      exact moved.outside position unnamed.1 unnamed.2
    · exact read_set_ne here

theorem moves_between (distinct : left ≠ right)
    (exchanged : exchangeParts store left leftPart right rightPart = some after) :
    Moves store after left leftPart right rightPart := by
  rw [exchangeParts_between atLeft atRight distinct] at exchanged
  obtain ⟨⟨items, items'⟩, between, rfl⟩ := Option.map_eq_some_iff.mp exchanged
  obtain ⟨toLeft, toRight⟩ := receives_of_exchangeStretches leftWithin rightWithin between
  have leftInside := (List.getElem?_eq_some_iff.mp atLeft).1
  have rightInside : right < (store.set left { first with items }).length := by
    rw [List.length_set]
    exact (List.getElem?_eq_some_iff.mp atRight).1
  have stillRight : (store.set left { first with items })[right]? = some second := by
    rw [List.getElem?_set_ne distinct]
    exact atRight
  have newLeft : ∀ position,
      read ((store.set left { first with items }).set right { second with items := items' })
        (left, position) = items[position]? := by
    intro position
    rw [read_set_ne distinct, read_set_self leftInside]
  refine ⟨?_, ?_, ?_, ?_, ?_⟩
  · dsimp only
    rw [map_layout_set stillRight toRight.length_eq, map_layout_set atLeft toLeft.length_eq]
  · intro place notLeft notRight
    rw [List.getElem?_set_ne notRight.symm, List.getElem?_set_ne notLeft.symm]
  · intro offset small
    rw [newLeft, read_of_getElem? atRight]
    exact toLeft.inside offset small
  · intro offset small
    rw [read_set_self rightInside, read_of_getElem? atLeft]
    exact toRight.inside offset small
  · rintro ⟨place, position⟩ unnamed
    simp only [Step.Names, not_or, not_and] at unnamed
    by_cases isLeft : place = left
    · subst isLeft
      rw [newLeft, read_of_getElem? atLeft]
      exact toLeft.outside position (unnamed.1 rfl)
    · by_cases isRight : place = right
      · subst isRight
        rw [read_set_self rightInside, read_of_getElem? atRight]
        exact toRight.outside position (unnamed.2 rfl)
      · rw [read_set_ne isRight, read_set_ne isLeft]

variable (disjoint : left = right → leftPart.Disjoint rightPart)
include disjoint

theorem moves_of_exchangeParts
    (exchanged : exchangeParts store left leftPart right rightPart = some after) :
    Moves store after left leftPart right rightPart := by
  by_cases same : left = right
  · exact moves_within atLeft atRight leftWithin rightWithin same (disjoint same) exchanged
  · exact moves_between atLeft atRight leftWithin rightWithin same exchanged

theorem count_exchangeParts [DecidableEq α] (value : α)
    (exchanged : exchangeParts store left leftPart right rightPart = some after) :
    (contents after).count value = (contents store).count value := by
  by_cases same : left = right
  · rw [exchangeParts_within atLeft atRight same] at exchanged
    obtain ⟨items, within, rfl⟩ := Option.map_eq_some_iff.mp exchanged
    have inSecond := same ▸ atRight
    cases atLeft.symm.trans inSecond
    have kept := count_exchangeWithin leftWithin rightWithin (disjoint same) value within
    have total := count_contents_set value { first with items } atLeft
    dsimp only at total
    omega
  · rw [exchangeParts_between atLeft atRight same] at exchanged
    obtain ⟨⟨items, items'⟩, between, rfl⟩ := Option.map_eq_some_iff.mp exchanged
    have kept := count_exchangeStretches value leftWithin rightWithin between
    have stillRight : (store.set left { first with items })[right]? = some second := by
      rw [List.getElem?_set_ne same]
      exact atRight
    have atFirst := count_contents_set value { first with items } atLeft
    have atSecond := count_contents_set value { second with items := items' } stillRight
    dsimp only at atFirst atSecond ⊢
    omega

end Stretches

/-! ### What one step does -/

theorem apart_of_disjoint {left right : Nat} {leftPart rightPart : Stretch}
    (disjoint : left = right → leftPart.Disjoint rightPart)
    (sameLength : leftPart.length = rightPart.length) :
    Apart (fun offset => (left, leftPart.start + offset))
      (fun offset => (right, rightPart.start + offset)) leftPart.length := by
  refine ⟨?_, ?_, ?_⟩
  · intro offset _ offset' _ same
    simp only [Prod.mk.injEq] at same
    omega
  · intro offset _ offset' _ same
    simp only [Prod.mk.injEq] at same
    omega
  · intro offset small offset' small' same
    simp only [Prod.mk.injEq] at same
    obtain ⟨samePlace, samePosition⟩ := same
    apply disjoint samePlace (leftPart.start + offset)
    simp only [Stretch.Covers, Stretch.length] at sameLength small small' ⊢
    omega

theorem exists_offset {left right : Nat} {leftPart rightPart : Stretch} {address : Address}
    (sameLength : leftPart.length = rightPart.length)
    (named : (Step.stretches left leftPart right rightPart).Names address) :
    ∃ offset < leftPart.length, address = (left, leftPart.start + offset) ∨
      address = (right, rightPart.start + offset) := by
  obtain ⟨place, position⟩ := address
  simp only [Step.Names, Stretch.Covers] at named
  simp only [Stretch.length, Prod.mk.injEq] at sameLength ⊢
  rcases named with ⟨here, covers⟩ | ⟨here, covers⟩
  · exact ⟨position - leftPart.start, by omega, .inl ⟨here, by omega⟩⟩
  · exact ⟨position - rightPart.start, by omega, .inr ⟨here, by omega⟩⟩

theorem ne_of_not_names {left right : Nat} {leftPart rightPart : Stretch} {address : Address}
    (sameLength : leftPart.length = rightPart.length)
    (unnamed : ¬(Step.stretches left leftPart right rightPart).Names address) (offset : Nat)
    (small : offset < leftPart.length) :
    address ≠ (left, leftPart.start + offset) ∧ address ≠ (right, rightPart.start + offset) := by
  simp only [Stretch.length] at sameLength small
  refine ⟨?_, ?_⟩
  · rintro rfl
    exact unnamed (.inl ⟨rfl, by simp only [Stretch.Covers]; omega⟩)
  · rintro rfl
    exact unnamed (.inr ⟨rfl, by simp only [Stretch.Covers]; omega⟩)

theorem Moves.read_eq {before after : List (Location α)} {left right : Nat}
    {leftPart rightPart : Stretch} (moves : Moves before after left leftPart right rightPart)
    (disjoint : left = right → leftPart.Disjoint rightPart)
    (sameLength : leftPart.length = rightPart.length) (address : Address) :
    read after address =
      read before ((Step.stretches left leftPart right rightPart).transpositions.prod address) := by
  have apart := apart_of_disjoint disjoint sameLength
  rw [Step.transpositions]
  by_cases named : (Step.stretches left leftPart right rightPart).Names address
  · obtain ⟨offset, small, rfl | rfl⟩ := exists_offset sameLength named
    · rw [moves.atLeft offset small, prod_transpositions_left apart small]
    · rw [moves.atRight offset (sameLength ▸ small), prod_transpositions_right apart small]
  · rw [moves.outside address named,
      prod_transpositions_of_ne (ne_of_not_names sameLength named)]

section ByMove

variable {store : List (Location α)} {left right : Nat} {first second : Location α}
  (atLeft : store[left]? = some first) (atRight : store[right]? = some second)
include atLeft atRight

theorem inside_of_getElem? : left < store.length ∧ right < store.length :=
  ⟨(List.getElem?_eq_some_iff.mp atLeft).1, (List.getElem?_eq_some_iff.mp atRight).1⟩

omit atLeft atRight in
theorem prod_byMove (address : Address) :
    (Step.byMove left right).transpositions.prod address =
      (Equiv.swap left right address.1, address.2) := by
  simp [Step.transpositions, Prod.map]

theorem read_exchange (address : Address) :
    read (exchange left right store) address =
      read store ((Step.byMove left right).transpositions.prod address) := by
  obtain ⟨place, position⟩ := address
  rw [prod_byMove, read, read, getElem?_exchange (inside_of_getElem? atLeft atRight)]
  by_cases isRight : place = right
  · subst isRight
    rw [if_pos rfl, Equiv.swap_apply_right]
  · rw [if_neg isRight]
    by_cases isLeft : place = left
    · subst isLeft
      rw [if_pos rfl, Equiv.swap_apply_left]
    · rw [if_neg isLeft, Equiv.swap_apply_of_ne_of_ne isLeft isRight]

theorem types_exchange (sameType : first.type = second.type) :
    types (exchange left right store) = types store := by
  apply List.ext_getElem?
  intro place
  have inside := inside_of_getElem? atLeft atRight
  rw [types, types, List.getElem?_map, List.getElem?_map, getElem?_exchange inside]
  by_cases isRight : place = right
  · rw [if_pos isRight, isRight, atLeft, atRight, Option.map_some, Option.map_some, sameType]
  · rw [if_neg isRight]
    by_cases isLeft : place = left
    · rw [if_pos isLeft, isLeft, atLeft, atRight, Option.map_some, Option.map_some, sameType]
    · rw [if_neg isLeft]

theorem count_contents_exchange [DecidableEq α] (value : α) (distinct : left ≠ right) :
    (contents (exchange left right store)).count value = (contents store).count value := by
  have stillRight : (store.set left second)[right]? = some second := by
    rw [List.getElem?_set_ne distinct]
    exact atRight
  have atFirst := count_contents_set value second atLeft
  have atSecond := count_contents_set value first stillRight
  rw [exchange, atLeft, atRight]
  dsimp only
  omega

end ByMove

/-! ### What a call does -/

/-- All that a call promises. -/
structure Promise (before : List (Location α)) (step : Step) (called : Called α) : Prop where
  completed_iff : called.completed = true ↔ step.Fits
  atomic : called.completed = false → called.store = before
  frame : ∀ place ∉ step.places, called.store[place]? = before[place]?
  outside : ∀ address, ¬step.Names address → read called.store address = read before address
  moved : called.completed = true →
    ∀ address, read called.store address = read before (step.transpositions.prod address)
  sameTypes : types called.store = types before
  sameContents : (contents called.store).Perm (contents before)

theorem Promise.panicked {before : List (Location α)} {step : Step} (unfit : ¬step.Fits) :
    Promise before step ⟨before, false⟩ where
  completed_iff := ⟨fun completed => absurd completed Bool.false_ne_true, fun fits => absurd fits unfit⟩
  atomic _ := rfl
  frame _ _ := rfl
  outside _ _ := rfl
  moved completed := absurd completed Bool.false_ne_true
  sameTypes := rfl
  sameContents := .refl _

section Call

variable {env : Environment} {element : Ty → Ty} {store : List (Location α)} {step : Step}

theorem type_eq_of_supports {type type' : Ty} (supported : env.supports type type' .byMove = true) :
    type = type' := by
  simp only [Environment.supports, Bool.and_eq_true, beq_iff_eq] at supported
  exact supported.1

theorem types_eq_of_layout {store store' : List (Location α)}
    (sameLayout : store'.map Location.layout = store.map Location.layout) :
    types store' = types store := by
  have firsts := congrArg (List.map Prod.fst) sameLayout
  rwa [List.map_map, List.map_map] at firsts

theorem promise_byMove {left right : Nat} {first second : Location α}
    (atLeft : store[left]? = some first) (atRight : store[right]? = some second)
    (distinct : left ≠ right) (sameType : first.type = second.type) :
    Promise store (.byMove left right) ⟨exchange left right store, true⟩ := by
  classical
  refine ⟨⟨fun _ => trivial, fun _ => rfl⟩, ?_, ?_, ?_, ?_, ?_, ?_⟩
  · intro failed
    cases failed
  · intro place unnamed
    simp only [Step.places, List.mem_cons, List.not_mem_nil, or_false, not_or] at unnamed
    rw [getElem?_exchange (inside_of_getElem? atLeft atRight), if_neg unnamed.2, if_neg unnamed.1]
  · intro address unnamed
    simp only [Step.Names, not_or] at unnamed
    rw [read_exchange atLeft atRight, prod_byMove,
      Equiv.swap_apply_of_ne_of_ne unnamed.1 unnamed.2]
  · intro _ address
    exact read_exchange atLeft atRight address
  · exact types_exchange atLeft atRight sameType
  · exact List.perm_iff_count.mpr fun value =>
      count_contents_exchange atLeft atRight value distinct

theorem promise_stretches {left right : Nat} {leftPart rightPart : Stretch}
    {first second : Location α} {after : List (Location α)} (atLeft : store[left]? = some first)
    (atRight : store[right]? = some second) (leftWithin : leftPart.Within first.items)
    (rightWithin : rightPart.Within second.items)
    (disjoint : left = right → leftPart.Disjoint rightPart)
    (exchanged : exchangeParts store left leftPart right rightPart = some after) :
    Promise store (.stretches left leftPart right rightPart) ⟨after, true⟩ := by
  classical
  have sameLength : leftPart.length = rightPart.length :=
    (isSome_exchangeParts_iff atLeft atRight).mp (Option.isSome_of_mem exchanged)
  have moves := moves_of_exchangeParts atLeft atRight leftWithin rightWithin disjoint exchanged
  refine ⟨⟨fun _ => sameLength, fun _ => rfl⟩, ?_, ?_, moves.outside, ?_, ?_, ?_⟩
  · intro failed
    cases failed
  · intro place unnamed
    simp only [Step.places, List.mem_cons, List.not_mem_nil, or_false, not_or] at unnamed
    exact moves.frame place unnamed.1 unnamed.2
  · intro _ address
    exact moves.read_eq disjoint sameLength address
  · exact types_eq_of_layout moves.sameLayout
  · exact List.perm_iff_count.mpr fun value =>
      count_exchangeParts atLeft atRight leftWithin rightWithin disjoint value exchanged

theorem call_promise (admissible : Admissible env element store step) :
    Promise store step (call store step) := by
  cases admissible with
  | byMove atLeft atRight distinct supported =>
      exact promise_byMove atLeft atRight distinct (type_eq_of_supports supported)
  | @stretches left right leftPart rightPart first second atLeft atRight leftWithin rightWithin
      disjoint item ofLeft ofRight supported =>
      rw [call]
      cases exchanged : exchangeParts store left leftPart right rightPart with
      | none =>
          have completes : (exchangeParts store left leftPart right rightPart).isSome = true ↔
              leftPart.length = rightPart.length := isSome_exchangeParts_iff atLeft atRight
          rw [exchanged] at completes
          exact .panicked fun fits => absurd (completes.mpr fits) Bool.false_ne_true
      | some after =>
          exact promise_stretches atLeft atRight leftWithin rightWithin disjoint exchanged

theorem exists_of_layout {store store' : List (Location α)} {place : Nat} {location : Location α}
    (sameLayout : store'.map Location.layout = store.map Location.layout)
    (found : store[place]? = some location) :
    ∃ location', store'[place]? = some location' ∧ location'.type = location.type ∧
      location'.items.length = location.items.length := by
  have layoutAt := congrArg (fun all => all[place]?) sameLayout
  simp only [List.getElem?_map, found, Option.map_some] at layoutAt
  obtain ⟨location', found', same⟩ := Option.map_eq_some_iff.mp layoutAt
  exact ⟨location', found', congrArg Prod.fst same, congrArg Prod.snd same⟩

/-- What is admissible once is admissible again, for a step neither changes the type of a place nor
the length of a sequence that it names a stretch of. -/
theorem admissible_again (admissible : Admissible env element store step) :
    Admissible env element (call store step).store step := by
  cases admissible with
  | @byMove left right first second atLeft atRight distinct supported =>
      have inside := inside_of_getElem? atLeft atRight
      have newLeft : (exchange left right store)[left]? = some second := by
        rw [getElem?_exchange inside, if_neg distinct, if_pos rfl, atRight]
      have newRight : (exchange left right store)[right]? = some first := by
        rw [getElem?_exchange inside, if_pos rfl, atLeft]
      refine .byMove newLeft newRight distinct ?_
      have sameType := type_eq_of_supports supported
      rwa [sameType] at supported ⊢
  | @stretches left right leftPart rightPart first second atLeft atRight leftWithin rightWithin
      disjoint item ofLeft ofRight supported =>
      cases exchanged : exchangeParts store left leftPart right rightPart with
      | none =>
          have same : (call store (.stretches left leftPart right rightPart)).store = store := by
            rw [call, exchanged]
          rw [same]
          exact .stretches atLeft atRight leftWithin rightWithin disjoint item ofLeft ofRight
            supported
      | some after =>
          have same : (call store (.stretches left leftPart right rightPart)).store = after := by
            rw [call, exchanged]
          rw [same]
          have moves := moves_of_exchangeParts atLeft atRight leftWithin rightWithin disjoint
            exchanged
          obtain ⟨first', newLeft, leftType, leftLength⟩ := exists_of_layout moves.sameLayout atLeft
          obtain ⟨second', newRight, rightType, rightLength⟩ :=
            exists_of_layout moves.sameLayout atRight
          refine .stretches newLeft newRight ?_ ?_ disjoint item ?_ ?_ supported
          · rwa [Stretch.Within, leftLength]
          · rwa [Stretch.Within, rightLength]
          · rw [leftType, ofLeft]
          · rw [rightType, ofRight]

theorem transpositions_twice (admissible : Admissible env element store step) (fits : step.Fits)
    (address : Address) :
    step.transpositions.prod (step.transpositions.prod address) = address := by
  cases admissible with
  | byMove atLeft atRight distinct supported =>
      rw [prod_byMove, prod_byMove, Equiv.swap_apply_self]
  | stretches atLeft atRight leftWithin rightWithin disjoint item ofLeft ofRight supported =>
      exact prod_transpositions_twice (apart_of_disjoint disjoint fits) address

def elementAt (element : Ty → Ty) (store : List (Location α)) (place : Nat) : Option Ty :=
  (types store)[place]?.map element

/-- Every value is of the type that its location is for. -/
def Typed (typeOf : α → Ty) (element : Ty → Ty) (store : List (Location α)) : Prop :=
  ∀ address value, read store address = some value →
    elementAt element store address.1 = some (typeOf value)

theorem elementAt_eq {place : Nat} {location : Location α} (found : store[place]? = some location) :
    elementAt element store place = some (element location.type) := by
  rw [elementAt, types, List.getElem?_map, found]
  rfl

theorem elementAt_transposed (admissible : Admissible env element store step) (fits : step.Fits)
    (address : Address) :
    elementAt element store (step.transpositions.prod address).1 =
      elementAt element store address.1 := by
  cases admissible with
  | @byMove left right first second atLeft atRight distinct supported =>
      have sameType := type_eq_of_supports supported
      rw [prod_byMove]
      by_cases isLeft : address.1 = left
      · rw [isLeft, Equiv.swap_apply_left, elementAt_eq atLeft, elementAt_eq atRight, sameType]
      · by_cases isRight : address.1 = right
        · rw [isRight, Equiv.swap_apply_right, elementAt_eq atLeft, elementAt_eq atRight, sameType]
        · rw [Equiv.swap_apply_of_ne_of_ne isLeft isRight]
  | @stretches left right leftPart rightPart first second atLeft atRight leftWithin rightWithin
      disjoint item ofLeft ofRight supported =>
      have apart := apart_of_disjoint disjoint fits
      rw [Step.transpositions]
      by_cases named : (Step.stretches left leftPart right rightPart).Names address
      · obtain ⟨offset, small, rfl | rfl⟩ := exists_offset fits named
        · rw [prod_transpositions_left apart small, elementAt_eq atLeft, elementAt_eq atRight,
            ofLeft, ofRight]
        · rw [prod_transpositions_right apart small, elementAt_eq atLeft, elementAt_eq atRight,
            ofLeft, ofRight]
      · rw [prod_transpositions_of_ne (ne_of_not_names fits named)]

theorem typed_call {typeOf : α → Ty} (admissible : Admissible env element store step)
    (typed : Typed typeOf element store) : Typed typeOf element (call store step).store := by
  have promise := call_promise admissible
  cases completed : (call store step).completed with
  | false => rwa [promise.atomic completed]
  | true =>
      intro address value found
      rw [promise.moved completed] at found
      rw [elementAt, promise.sameTypes, ← typed _ value found]
      exact (elementAt_transposed admissible (promise.completed_iff.mp completed) address).symm

/-- A step that completed is taken back by taking it again. -/
theorem call_again (admissible : Admissible env element store step)
    (completed : (call store step).completed = true) :
    call (call store step).store step = ⟨store, true⟩ := by
  have promise := call_promise admissible
  have promiseAgain := call_promise (admissible_again admissible)
  have fits := promise.completed_iff.mp completed
  have completedAgain := promiseAgain.completed_iff.mpr fits
  have restored : (call (call store step).store step).store = store := by
    apply eq_of_read
    · rw [promiseAgain.sameTypes, promise.sameTypes]
    · intro address
      rw [promiseAgain.moved completedAgain, promise.moved completed,
        transpositions_twice admissible fits]
  calc call (call store step).store step
      = ⟨(call (call store step).store step).store,
          (call (call store step).store step).completed⟩ := rfl
    _ = ⟨store, true⟩ := by rw [restored, completedAgain]

end Call

end TypeConcepts.Store
