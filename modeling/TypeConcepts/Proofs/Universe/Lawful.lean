import TypeConcepts.Proofs.Environment.Decay

/-!
The universe obeys the rules that every program obeys.
-/

namespace TypeConcepts

/-- Where a conduct lets values be copied, on whatever conditions, it lets them be cloned on the same
conditions; and no default needs a box. -/
structure Conduct.Owned (conduct : Conduct) : Prop where
  copyAlways : .copy ∈ conduct.always → .clone ∈ conduct.always
  copyPointwise : .copy ∈ conduct.pointwise →
    .clone ∈ conduct.pointwise ∨ conduct.through.lookup .clone = some [.copy]
  copyThrough : conduct.through.lookup .copy = none
  boxedAlways : .boxedDefault ∉ conduct.always
  boxedPointwise : .boxedDefault ∉ conduct.pointwise
  boxedThrough : conduct.through.lookup .boxedDefault = none

namespace Conduct

theorem mem_marker_clone {name : String} (copy : Trait.copy ∈ marker name) :
    Trait.clone ∈ marker name := by
  unfold marker at copy ⊢
  split at copy <;> simp_all

theorem not_mem_marker_boxedDefault (name : String) : Trait.boxedDefault ∉ marker name := by
  unfold marker
  split <;> decide

theorem owned_item (args : List Ty) : Owned (ground (.sized :: markers args ++ threads)) where
  copyAlways := by
    simp only [ground, threads, List.cons_append, List.mem_cons, List.mem_append, reduceCtorEq,
      false_or, or_false, List.not_mem_nil]
    intro copy
    obtain ⟨name, here, within⟩ := exists_marker copy
    exact within (mem_marker_clone here)
  copyPointwise := by
    intro copy
    cases copy
  copyThrough := rfl
  boxedAlways := by
    simp only [ground, threads, List.cons_append, List.mem_cons, List.mem_append, reduceCtorEq,
      false_or, or_false, List.not_mem_nil]
    intro boxed
    obtain ⟨name, here, _⟩ := exists_marker boxed
    exact not_mem_marker_boxedDefault name here
  boxedPointwise := List.not_mem_nil
  boxedThrough := rfl

theorem owned_of (name : String) (args : List Ty) (noText : name ≠ "str") :
    Owned (Conduct.of name args) := by
  by_cases item : name = "Item"
  · subst item
    exact owned_item args
  · unfold Conduct.of
    split
    all_goals first
      | exact absurd rfl item
      | exact absurd rfl noText
      | exact ⟨by decide, by decide, by decide, by decide, by decide, by decide⟩

theorem of_box (args : List Ty) : Conduct.of "Box" args =
    ⟨[.sized], [.display, .iterator, .asText] ++ comparing ++ threads,
      [(.clone, [.toOwned]), (.default, [.boxedDefault])]⟩ :=
  rfl

end Conduct

namespace Trait

mutual

theorem clone_of_copy : ∀ type : Ty, Trait.copy.holds type = true → Trait.clone.holds type = true
  | .named name args, holds => by
      by_cases text : name = "str"
      · subst text
        cases holds
      · have owned := Conduct.owned_of name args text
        have inner := allClone_of_allCopy args
        simp only [Trait.holds, Trait.source, Bool.or_self, Bool.or_eq_true, Bool.and_eq_true,
          List.contains_iff_mem, owned.copyThrough, Option.map_none, Option.getD_none,
          Bool.false_eq_true, or_false] at holds ⊢
        rcases holds with direct | ⟨member, all⟩
        · exact .inl (.inl (owned.copyAlways direct))
        · rcases owned.copyPointwise member with pointwise | through
          · exact .inl (.inr ⟨pointwise, inner all⟩)
          · rw [through]
            simpa using .inr all
  | .const _, _ => rfl
  | .reference false target, _ => rfl
  | .reference true target, holds => holds
  | .pointer _ _, _ => rfl
  | .array item _, holds => clone_of_copy item holds
  | .slice item, holds => by cases holds
  | .tuple items, holds => by
      have inner := allClone_of_allCopy items
      have parts : (Trait.sized.holdsAll items && Trait.copy.holdsAll items) = true := holds
      rw [Bool.and_eq_true] at parts
      change (Trait.sized.holdsAll items && Trait.clone.holdsAll items) = true
      rw [parts.1, inner parts.2]
      rfl
  | .function _ _, _ => rfl
  | .object _, holds => holds
  | .param _, holds => holds

theorem allClone_of_allCopy : ∀ types : List Ty, Trait.copy.holdsAll types = true →
    Trait.clone.holdsAll types = true
  | [], _ => rfl
  | type :: rest, holds => by
      rw [Trait.holdsAll, Bool.and_eq_true] at holds ⊢
      exact ⟨clone_of_copy type holds.1, allClone_of_allCopy rest holds.2⟩

end

theorem sized_of_default (type : Ty) (default : Trait.default.holds type = true) :
    Trait.sized.holds type = true := by
  cases type with
  | named name args =>
      by_cases text : name = "str"
      · subst text
        cases default
      · have sized := Conduct.sized_of name args text
        simp [Trait.holds, sized]
  | tuple items =>
      have parts : (Trait.sized.holdsAll items && Trait.default.holdsAll items) = true := default
      rw [Bool.and_eq_true] at parts
      exact parts.1
  | reference mutable target => cases mutable <;> rfl
  | slice item => cases default
  | object trait => cases default
  | param name => cases default
  | _ => rfl

/-- A type of a known size has a default in a box exactly if it has one without. -/
theorem boxedDefault_eq_default (type : Ty) (sized : Trait.sized.holds type = true) :
    Trait.boxedDefault.holds type = Trait.default.holds type := by
  cases type with
  | named name args =>
      by_cases text : name = "str"
      · subst text
        cases sized
      · have owned := Conduct.owned_of name args text
        simp [Trait.holds, Trait.source, owned.boxedAlways, owned.boxedPointwise,
          owned.boxedThrough]
  | reference mutable target => cases mutable <;> rfl
  | slice item => cases sized
  | _ => rfl

theorem default_boxed (type : Ty) :
    Trait.default.holds (.boxed type) = Trait.boxedDefault.holds type := by
  have inner : Trait.boxedDefault.holdsAll [type] = Trait.boxedDefault.holds type := by
    rw [Trait.holdsAll, Trait.holdsAll, Bool.and_true]
  rw [Ty.boxed, Ty.apply, Trait.holds, Conduct.of_box]
  simp only [Trait.source, Bool.or_self]
  rw [← inner]
  exact Bool.and_true _

end Trait

namespace Universe

theorem lawful (heap : Bool) : (environment heap).Lawful where
  copyClone := Trait.clone_of_copy
  cloneSized := sized_of_clone heap
  defaultSized := Trait.sized_of_default
  orderedEq := partialEq_of_partialOrd
  builtSized := by
    intro type source built
    change builtFrom type source = true at built
    simp only [builtFrom, Bool.and_eq_true] at built
    exact built.1
  builtFromSelf := builtFrom_self heap
  referenceSized := sized_reference heap
  sharedCopy := fun _ => rfl
  boxedDefault type sized :=
    (Trait.default_boxed type).trans (Trait.boxedDefault_eq_default type sized)

end Universe

end TypeConcepts
