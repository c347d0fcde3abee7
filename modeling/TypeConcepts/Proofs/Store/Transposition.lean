import Mathlib.Algebra.BigOperators.Group.List.Basic
import Mathlib.Algebra.Group.End
import Mathlib.Logic.Equiv.Basic

/-!
Products of transpositions that exchange two families of points, which have no point in common.
-/

namespace TypeConcepts.Store

variable {Point : Type}

/-- The first points of two families are all different. -/
structure Apart (left right : Nat → Point) (count : Nat) : Prop where
  leftApart : ∀ offset < count, ∀ offset' < count, left offset = left offset' → offset = offset'
  rightApart : ∀ offset < count, ∀ offset' < count,
    right offset = right offset' → offset = offset'
  across : ∀ offset < count, ∀ offset' < count, left offset ≠ right offset'

namespace Apart

variable {left right : Nat → Point} {count : Nat}

theorem fewer (apart : Apart left right (count + 1)) : Apart left right count where
  leftApart offset small offset' small' :=
    apart.leftApart offset (Nat.lt_succ_of_lt small) offset' (Nat.lt_succ_of_lt small')
  rightApart offset small offset' small' :=
    apart.rightApart offset (Nat.lt_succ_of_lt small) offset' (Nat.lt_succ_of_lt small')
  across offset small offset' small' :=
    apart.across offset (Nat.lt_succ_of_lt small) offset' (Nat.lt_succ_of_lt small')

theorem symm (apart : Apart left right count) : Apart right left count where
  leftApart := apart.rightApart
  rightApart := apart.leftApart
  across offset small offset' small' := (apart.across offset' small' offset small).symm

end Apart

variable [DecidableEq Point] (left right : Nat → Point)

def transpositions (count : Nat) : List (Equiv.Perm Point) :=
  (List.range count).map fun offset => Equiv.swap (left offset) (right offset)

theorem transpositions_comm (count : Nat) :
    transpositions left right count = transpositions right left count := by
  simp only [transpositions, Equiv.swap_comm]

variable {left right} {count : Nat}

theorem prod_transpositions_succ (point : Point) :
    (transpositions left right (count + 1)).prod point =
      (transpositions left right count).prod (Equiv.swap (left count) (right count) point) := by
  rw [transpositions, List.range_succ, List.map_append, List.prod_append]
  simp [transpositions]

theorem prod_transpositions_of_ne {point : Point}
    (other : ∀ offset < count, point ≠ left offset ∧ point ≠ right offset) :
    (transpositions left right count).prod point = point := by
  induction count with
  | zero => rfl
  | succ count ih =>
      obtain ⟨notLeft, notRight⟩ := other count (Nat.lt_succ_self count)
      rw [prod_transpositions_succ, Equiv.swap_apply_of_ne_of_ne notLeft notRight]
      exact ih fun offset small => other offset (Nat.lt_succ_of_lt small)

theorem prod_transpositions_left (apart : Apart left right count) {offset : Nat}
    (small : offset < count) :
    (transpositions left right count).prod (left offset) = right offset := by
  induction count with
  | zero => omega
  | succ count ih =>
      rw [prod_transpositions_succ]
      by_cases last : offset = count
      · subst last
        rw [Equiv.swap_apply_left]
        apply prod_transpositions_of_ne
        intro earlier before
        refine ⟨(apart.across earlier (by omega) offset small).symm, ?_⟩
        intro same
        have equal := apart.rightApart offset small earlier (by omega) same
        omega
      · have before : offset < count := by omega
        have notLeft : left offset ≠ left count := fun same =>
          last (apart.leftApart offset small count (by omega) same)
        have notRight : left offset ≠ right count := apart.across offset small count (by omega)
        rw [Equiv.swap_apply_of_ne_of_ne notLeft notRight]
        exact ih apart.fewer before

theorem prod_transpositions_right (apart : Apart left right count) {offset : Nat}
    (small : offset < count) :
    (transpositions left right count).prod (right offset) = left offset := by
  rw [transpositions_comm]
  exact prod_transpositions_left apart.symm small

theorem prod_transpositions_twice (apart : Apart left right count) (point : Point) :
    (transpositions left right count).prod ((transpositions left right count).prod point) =
      point := by
  by_cases among : ∃ offset < count, point = left offset ∨ point = right offset
  · obtain ⟨offset, small, rfl | rfl⟩ := among
    · rw [prod_transpositions_left apart small, prod_transpositions_right apart small]
    · rw [prod_transpositions_right apart small, prod_transpositions_left apart small]
  · have other : ∀ offset < count, point ≠ left offset ∧ point ≠ right offset := by
      intro offset small
      refine ⟨?_, ?_⟩
      · exact fun same => among ⟨offset, small, .inl same⟩
      · exact fun same => among ⟨offset, small, .inr same⟩
    rw [prod_transpositions_of_ne other, prod_transpositions_of_ne other]

end TypeConcepts.Store
