import TypeConcepts.Universe.Facts

/-!
In the universe every order between two types comes with comparison for equality.
-/

namespace TypeConcepts

/-- Where a conduct gives an order, on whatever conditions, it gives comparison for equality on the
same conditions. -/
structure Conduct.Orderly (conduct : Conduct) : Prop where
  always : .partialOrd ∈ conduct.always → .partialEq ∈ conduct.always
  pointwise : .partialOrd ∈ conduct.pointwise → .partialEq ∈ conduct.pointwise
  through : conduct.through.lookup .partialOrd = none ∨
    conduct.through.lookup .partialOrd = some [.copy, .partialOrd] ∧
      conduct.through.lookup .partialEq = some [.copy, .partialEq]

namespace Conduct

theorem mem_marker_partialEq {name : String} (order : Trait.partialOrd ∈ marker name) :
    Trait.partialEq ∈ marker name := by
  unfold marker at order ⊢
  split at order <;> simp_all

theorem exists_marker {trait : Trait} {args : List Ty} (member : trait ∈ markers args) :
    ∃ name, trait ∈ marker name ∧ marker name ⊆ markers args := by
  fun_induction markers args with
  | case1 => cases member
  | case2 name rest ih =>
      rcases List.mem_append.mp member with here | later
      · exact ⟨name, here, List.subset_append_left _ _⟩
      · obtain ⟨other, among, within⟩ := ih later
        exact ⟨other, among, List.subset_append_of_subset_right _ within⟩
  | case3 first rest _ ih => exact ih member

theorem mem_markers_partialEq {args : List Ty} (order : Trait.partialOrd ∈ markers args) :
    Trait.partialEq ∈ markers args := by
  obtain ⟨name, here, within⟩ := exists_marker order
  exact within (mem_marker_partialEq here)

theorem orderly_item (args : List Ty) : Orderly (ground (.sized :: markers args ++ threads)) where
  always := by
    simp only [ground, threads, List.cons_append, List.mem_cons, List.mem_append, reduceCtorEq,
      false_or, or_false, List.not_mem_nil]
    exact mem_markers_partialEq
  pointwise := by
    intro order
    cases order
  through := .inl rfl

theorem orderly_of (name : String) (args : List Ty) : Orderly (Conduct.of name args) := by
  by_cases item : name = "Item"
  · subst item
    exact orderly_item args
  · unfold Conduct.of
    split
    all_goals first
      | exact absurd rfl item
      | exact ⟨by decide, by decide, by decide⟩

end Conduct

namespace Trait

mutual

theorem partialEq_of_partialOrd : ∀ type : Ty, Trait.partialOrd.holds type = true →
    Trait.partialEq.holds type = true
  | .named name args, holds => by
      obtain ⟨always, pointwise, through⟩ := Conduct.orderly_of name args
      have inner := allPartialEq_of_allPartialOrd args
      simp only [Trait.holds, Trait.source, Bool.or_self, Bool.or_eq_true, Bool.and_eq_true,
        List.contains_iff_mem] at holds ⊢
      rcases holds with (direct | ⟨member, all⟩) | conditional
      · exact .inl (.inl (always direct))
      · exact .inl (.inr ⟨pointwise member, inner all⟩)
      · rcases through with absent | ⟨order, equality⟩
        · rw [absent] at conditional
          cases conditional
        · rw [order] at conditional
          rw [equality]
          simp only [Option.map_some, Option.getD_some, List.all_cons, List.all_nil,
            Bool.and_true, Bool.and_eq_true] at conditional ⊢
          exact .inr ⟨conditional.1, inner conditional.2⟩
  | .const _, _ => rfl
  | .reference false target, holds => partialEq_of_partialOrd target holds
  | .reference true target, holds => partialEq_of_partialOrd target holds
  | .pointer _ _, _ => rfl
  | .array item _, holds => partialEq_of_partialOrd item holds
  | .slice item, holds => partialEq_of_partialOrd item holds
  | .tuple items, holds => by
      have inner := allPartialEq_of_allPartialOrd items
      have parts : (Trait.sized.holdsAll items && Trait.partialOrd.holdsAll items) = true := holds
      rw [Bool.and_eq_true] at parts
      change (Trait.sized.holdsAll items && Trait.partialEq.holdsAll items) = true
      rw [parts.1, inner parts.2]
      rfl
  | .function _ _, _ => rfl
  | .object _, holds => holds
  | .param _, holds => holds

theorem allPartialEq_of_allPartialOrd : ∀ types : List Ty, Trait.partialOrd.holdsAll types = true →
    Trait.partialEq.holdsAll types = true
  | [], _ => rfl
  | type :: rest, holds => by
      rw [Trait.holdsAll, Bool.and_eq_true] at holds ⊢
      exact ⟨partialEq_of_partialOrd type holds.1, allPartialEq_of_allPartialOrd rest holds.2⟩

end

end Trait

namespace Universe

theorem partialEq_of_oneSided {left right : Ty}
    (listed : orderedOneSided.contains (left, right) = true) : partialEq left right = true := by
  simp only [orderedOneSided, List.contains_iff_mem, List.mem_cons, List.not_mem_nil, or_false,
    Prod.mk.injEq] at listed
  rcases listed with ⟨rfl, rfl⟩ | ⟨rfl, rfl⟩ <;> decide

theorem partialEq_of_partialOrd (left right : Ty) (order : partialOrd left right = true) :
    partialEq left right = true := by
  fun_induction partialOrd left right with
  | case1 mutable target mutable' target' ih =>
      rw [Bool.and_eq_true] at order
      exact ih order.2
  | case2 type different =>
      have self : partialEq type type = Trait.partialEq.holds type := by
        cases type with
        | reference mutable target =>
            exact absurd rfl (different mutable target mutable target rfl)
        | _ =>
            rw [partialEq, if_pos rfl]
            exact fun _ _ => nofun
      rw [self]
      exact Trait.partialEq_of_partialOrd type order
  | case3 => exact partialEq_of_oneSided order

end Universe

end TypeConcepts
