import TypeConcepts.Proofs.Universe.Lawful

/-!
What cannot fail against what can be done at all: exchange, decay and construction without running
user code, next to the concepts that let user code run.

The two forms of a concept are computed from different facts. For exchange and decay the first still
implies the second. A value copied bit by bit out of a reference, however, is not built from that
reference by conversion; it is a copy, which is another concept.
-/

namespace TypeConcepts

/-- Without running user code a type is built from itself, or it is copied out of a reference. -/
theorem BuildsPlainly.eq_or_copies {env : Environment} {type : Ty} {args : List Ty}
    (builds : BuildsPlainly env type args) :
    args = [type] ∨ (∃ mutable, args = [.reference mutable type]) ∧ env.copy type = true := by
  cases builds with
  | move sized => exact .inl rfl
  | copyShared sized copy => exact .inr ⟨⟨false, rfl⟩, copy⟩
  | copyExclusive sized copy => exact .inr ⟨⟨true, rfl⟩, copy⟩

theorem BuildsPlainly.copy {env : Environment} {type : Ty} {mutable : Bool}
    (builds : BuildsPlainly env type [.reference mutable type]) : env.copy type = true := by
  rcases builds.eq_or_copies with self | ⟨_, copy⟩
  · exact absurd (List.singleton_inj.mp self) (Ty.reference_ne mutable type)
  · exact copy

namespace Environment

variable {env : Environment} {type : Ty}

/-- Whether or not an exchange is registered, one that never fails is an exchange. -/
theorem swappableWith_of_nothrow {left right : Ty}
    (nothrow : env.nothrowSwappableWith left right = true) :
    env.swappableWith left right = true := by
  rw [nothrowSwappableWith] at nothrow
  cases bespoke : env.bespokeSwap left right with
  | true => rw [swappableWith, bespoke, Bool.true_or]
  | false =>
      rw [bespoke, if_neg Bool.false_ne_true] at nothrow
      exact nothrow

/-- A reference that decays without running user code has a referent that is copied, and any other
type is moved. -/
theorem decayCopyable_of_nothrow
    (copyClone : ∀ type, env.copy type = true → env.clone type = true)
    (nothrow : env.nothrowDecayCopyable type = true) : env.decayCopyable type = true := by
  rw [nothrowDecayCopyable_eq] at nothrow
  have builds := (nothrowConstructibleFrom_iff.mp nothrow).2
  cases reference : isReference type with
  | true =>
      obtain ⟨mutable, target, rfl⟩ : ∃ mutable target, type = .reference mutable target := by
        cases type with
        | reference mutable target => exact ⟨mutable, target, rfl⟩
        | _ => cases reference
      rw [decayCopyable_of_reference reference]
      exact copyClone target builds.copy
  | false =>
      rw [decayCopyable_of_value reference, destructible]
      rw [decayed_of_value reference] at builds
      exact builds.sized

section Reflexive

variable (builtFromSelf : ∀ type, env.sized type = true → env.builtFrom type type = true)
include builtFromSelf

/-- From anything but a reference to itself, a type that is built without running user code is moved,
which is a conversion. -/
theorem constructibleFrom_of_nothrow {args : List Ty}
    (nothrow : env.nothrowConstructibleFrom type args = true)
    (noReference : ∀ mutable, args ≠ [.reference mutable type]) :
    env.constructibleFrom type args = true := by
  have builds := (nothrowConstructibleFrom_iff.mp nothrow).2
  rcases builds.eq_or_copies with rfl | ⟨⟨mutable, reference⟩, _⟩
  · have moves := moveConstructible_eq_sized builtFromSelf type
    rw [builds.sized] at moves
    exact moves
  · exact absurd reference (noReference mutable)

theorem copyConstructible_of_nothrow {mutable : Bool}
    (copyClone : ∀ type, env.copy type = true → env.clone type = true)
    (nothrow : env.nothrowConstructibleFrom type [.reference mutable type] = true) :
    env.copyConstructible type = true := by
  have builds := (nothrowConstructibleFrom_iff.mp nothrow).2
  rw [copyConstructible, moveConstructible_eq_sized builtFromSelf, builds.sized,
    copyClone type builds.copy]
  rfl

end Reflexive

theorem constructibleFrom_reference_of_nothrow {mutable : Bool}
    (nothrow : env.nothrowConstructibleFrom type [.reference mutable type] = true) :
    env.constructibleFrom type [.reference mutable type] =
      env.builtFrom type (.reference mutable type) := by
  obtain ⟨argsSized, builds⟩ := nothrowConstructibleFrom_iff.mp nothrow
  have argSized := List.forall_mem_singleton.mp argsSized
  simp [constructibleFrom, destructible, Environment.builds, builds.sized, argSized]

/-- What is exchanged or decayed without fail is exchanged or decayed, and so is what is built
without running user code from anything but a reference to itself. What is built from one is copied,
and is built from it by conversion exactly if there is such a conversion. -/
theorem nothrow_implies_plain (env : Environment)
    (copyClone : ∀ type, env.copy type = true → env.clone type = true)
    (builtFromSelf : ∀ type, env.sized type = true → env.builtFrom type type = true) :
    (∀ left right, env.nothrowSwappableWith left right = true →
        env.swappableWith left right = true) ∧
      (∀ type, env.nothrowDecayCopyable type = true → env.decayCopyable type = true) ∧
      (∀ type args, env.nothrowConstructibleFrom type args = true →
        (∀ mutable, args ≠ [.reference mutable type]) →
        env.constructibleFrom type args = true) ∧
      ∀ type mutable, env.nothrowConstructibleFrom type [.reference mutable type] = true →
        env.copyConstructible type = true ∧
          env.constructibleFrom type [.reference mutable type] =
            env.builtFrom type (.reference mutable type) := by
  refine ⟨fun _ _ => swappableWith_of_nothrow, fun _ => decayCopyable_of_nothrow copyClone,
    fun _ _ => constructibleFrom_of_nothrow builtFromSelf, fun type mutable nothrow => ⟨?_, ?_⟩⟩
  · exact copyConstructible_of_nothrow builtFromSelf copyClone nothrow
  · exact constructibleFrom_reference_of_nothrow nothrow

end Environment

namespace Universe

/-- A vector is exchanged and moved without fail, a byte behind a reference decays without running
user code, and it is copied out of the reference although nothing converts the reference to it. -/
theorem nothrow_implies_plain_standard :
    standard.swappableWith byteVec byteVec = true ∧
      standard.decayCopyable (.exclusive byte) = true ∧
      standard.constructibleFrom byteVec [byteVec] = true ∧
      standard.copyConstructible byte = true ∧
      standard.constructibleFrom byte [.exclusive byte] = false := by
  obtain ⟨exchange, decay, build, copy⟩ :=
    Environment.nothrow_implies_plain standard (lawful true).copyClone (lawful true).builtFromSelf
  obtain ⟨copies, converts⟩ := copy byte true (by decide)
  refine ⟨exchange _ _ (by decide), decay _ (by decide), build _ _ (by decide) ?_, copies, ?_⟩
  · intro mutable same
    exact absurd (List.singleton_inj.mp same).symm (Ty.reference_ne mutable byteVec)
  · exact converts.trans (by decide)

/-- In a program that obeys all rules, a byte is built from a reference to it without running user
code, and is not built from that reference. -/
theorem copied_byte_not_constructible :
    standard.Lawful ∧ standard.nothrowConstructibleFrom byte [.shared byte] = true ∧
      standard.constructibleFrom byte [.shared byte] = false :=
  ⟨lawful true, by decide, by decide⟩

end Universe

end TypeConcepts
