/-!
Exchanges in a store, a list of values at numbered places: of two places, and of two stretches of
sequences.
-/

namespace TypeConcepts.Store

variable {α : Type}

/-- The store with the values at two places exchanged. Without both places it stays as it was. -/
def exchange (left right : Nat) (store : List α) : List α :=
  match store[left]?, store[right]? with
  | some first, some second => (store.set left second).set right first
  | _, _ => store

theorem getElem?_exchange {left right : Nat} {store : List α}
    (inside : left < store.length ∧ right < store.length) (place : Nat) :
    (exchange left right store)[place]? =
      if place = right then store[left]? else if place = left then store[right]?
      else store[place]? := by
  obtain ⟨leftInside, rightInside⟩ := inside
  simp only [exchange, List.getElem?_eq_getElem leftInside, List.getElem?_eq_getElem rightInside]
  by_cases isRight : place = right
  · subst isRight
    simp [rightInside]
  · rw [List.getElem?_set_ne (Ne.symm isRight), if_neg isRight]
    by_cases isLeft : place = left
    · subst isLeft
      simp [leftInside]
    · rw [List.getElem?_set_ne (Ne.symm isLeft), if_neg isLeft]

/-- The part of a sequence from one position up to, and without, another. -/
structure Stretch where
  start : Nat
  stop : Nat
  deriving DecidableEq, Repr

namespace Stretch

/-- The stretch between two positions of a sequence, if they lie in it and in this order. -/
def within? (start stop : Int) (items : List α) : Option Stretch :=
  if 0 ≤ start ∧ start ≤ stop ∧ stop ≤ items.length then some ⟨start.toNat, stop.toNat⟩ else none

def length (stretch : Stretch) : Nat := stretch.stop - stretch.start

def read (stretch : Stretch) (items : List α) : List α :=
  (items.drop stretch.start).take stretch.length

def write (stretch : Stretch) (items inserted : List α) : List α :=
  items.take stretch.start ++ inserted ++ items.drop stretch.stop

end Stretch

/-- Two sequences with a stretch of each exchanged, if the stretches are of one length. -/
def exchangeStretches (left right : List α) (leftPart rightPart : Stretch) :
    Option (List α × List α) :=
  if leftPart.length = rightPart.length then
    some (leftPart.write left (rightPart.read right), rightPart.write right (leftPart.read left))
  else none

end TypeConcepts.Store
