import TypeConcepts.Concept.Check
import TypeConcepts.Proofs.Probe.Answer

/-!
Which identifiers of a leaf and of a subject keep their meaning in the probe of a bound, and which
bound the probe tests.

The parameter of the probe is called `X` whatever the leaf says, so a leaf that mentions an `X` of
its own is captured: the probe then tests the leaf with the subject in the place of `X`.
-/

namespace TypeConcepts

open TokenTree

namespace Probe

def ofBound (leaf subject : TypeExpr) : Probe where
  fallback := "__ProbeFallback"
  parameters := [⟨"X", some (relaxedSize ++ mark '+' :: leaf.tokens)⟩]
  shape := .bare "X"
  subject := subject

/-- Every identifier of the leaf and of the subject means in its place what it means around the
block. -/
structure Hygienic (leaf subject : TypeExpr) : Prop where
  inLeaf : ∀ name ∈ namesIn leaf.tokens, ∀ (Meaning : Type) (types own outer : String → Meaning),
    (ofBound leaf subject).inImplementation types own outer name = outer name
  inSubject : ∀ name ∈ namesIn subject.tokens, ∀ (Meaning : Type) (own outer : String → Meaning),
    (ofBound leaf subject).inBlock own outer name = outer name

/-- No identifier of the fragments is a name of the probe's own. -/
structure Unreserved (leaf subject : TypeExpr) : Prop where
  inLeaf : ∀ name ∈ namesIn leaf.tokens, name ∉ ["X", "__Probe", "__ProbeFallback"]
  inSubject : ∀ name ∈ namesIn subject.tokens, name ∉ ["__Probe", "__ProbeFallback"]

variable {Meaning : Type} {leaf subject : TypeExpr}

theorem code_ofBound (leaf subject : TypeExpr) :
    (ofBound leaf subject).code = boundProbe leaf.tokens subject.tokens := by
  simp only [code, ofBound, boundProbe, TypeExpr.bare, List.map_cons, List.map_nil, separated,
    ShapeMatch.holeTokens, Bool.false_eq_true, if_false, List.append_nil, TypeExpr.tokens,
    Path.tokens, segmentTokens, Segment.tokens, PathArgs.tokens, List.nil_append]
  rfl

theorem hygienic_iff_unreserved : Hygienic leaf subject ↔ Unreserved leaf subject := by
  have implementation : ∀ name,
      (∀ (Meaning : Type) (types own outer : String → Meaning),
        (ofBound leaf subject).inImplementation types own outer name = outer name) ↔
        name ∉ ["X", "__Probe", "__ProbeFallback"] := by
    intro name
    rw [inImplementation_eq_outer_iff]
    simp only [ofBound, declared, List.map_cons, List.map_nil, List.mem_cons, List.not_mem_nil,
      or_false, not_or]
    exact and_congr_right fun _ => and_comm
  have block : ∀ name,
      (∀ (Meaning : Type) (own outer : String → Meaning),
        (ofBound leaf subject).inBlock own outer name = outer name) ↔
        name ∉ ["__Probe", "__ProbeFallback"] := by
    intro name
    rw [inBlock_eq_outer_iff]
    simp only [ofBound, declared, List.mem_cons, List.not_mem_nil, or_false, not_or]
    exact and_comm
  constructor
  · intro hygienic
    exact ⟨fun name member => (implementation name).mp (hygienic.inLeaf name member),
      fun name member => (block name).mp (hygienic.inSubject name member)⟩
  · intro unreserved
    exact ⟨fun name member => (implementation name).mpr (unreserved.inLeaf name member),
      fun name member => (block name).mpr (unreserved.inSubject name member)⟩

/-- What names mean to the probe where its parameter stands for the subject. -/
def captured (language : Language Meaning) (leaf subject : TypeExpr)
    (own outer : String → Meaning) : String → Meaning :=
  (ofBound leaf subject).inImplementation
    (fun _ => language.type ((ofBound leaf subject).inBlock own outer) subject) own outer

theorem inImplementation_congr {types types' own outer : String → Meaning}
    (same : types "X" = types' "X") :
    (ofBound leaf subject).inImplementation types own outer =
      (ofBound leaf subject).inImplementation types' own outer := by
  funext name
  unfold inImplementation
  by_cases parameter : name ∈ (ofBound leaf subject).parameters.map Hole.name
  · have isX : name = "X" := List.mem_singleton.mp parameter
    rw [if_pos parameter, if_pos parameter, isX, same]
  · rw [if_neg parameter, if_neg parameter]

theorem type_shape (language : Language Meaning) (types own outer : String → Meaning) :
    language.type ((ofBound leaf subject).inImplementation types own outer)
      (ofBound leaf subject).shape = types "X" := by
  have parameter : "X" ∈ (ofBound leaf subject).parameters.map Hole.name := List.mem_cons_self
  calc language.type ((ofBound leaf subject).inImplementation types own outer) (.bare "X")
      = (ofBound leaf subject).inImplementation types own outer "X" := type_bare "X" _
    _ = types "X" := inImplementation_of_mem parameter

/-- The probe tests the leaf as it reads where the parameter has the meaning of the subject. -/
theorem selects_ofBound_iff (language : Language Meaning) (own outer : String → Meaning) :
    (ofBound leaf subject).Selects language own outer ↔
      language.meets (captured language leaf subject own outer) leaf.tokens
        (language.type ((ofBound leaf subject).inBlock own outer) subject) := by
  have admits : ∀ scope type,
      language.Admits scope (some (relaxedSize ++ mark '+' :: leaf.tokens)) type ↔
        language.meets scope leaf.tokens type := by
    intro scope type
    have relaxed : Relaxes (relaxedSize ++ mark '+' :: leaf.tokens) := .here
    simp only [Language.Admits, relaxed, true_or, true_and]
    exact language.meets_relaxed
  constructor
  · rintro ⟨types, instantiated, admitted⟩
    have isSubject : types "X" =
        language.type ((ofBound leaf subject).inBlock own outer) subject := by
      rw [← type_shape language types own outer]
      exact instantiated
    have met := (admits _ _).mp (admitted _ List.mem_cons_self)
    have sameScope : (ofBound leaf subject).inImplementation types own outer =
        captured language leaf subject own outer := inImplementation_congr isSubject
    rw [← sameScope, ← isSubject]
    exact met
  · intro met
    refine ⟨fun _ => language.type ((ofBound leaf subject).inBlock own outer) subject,
      type_shape language _ own outer, ?_⟩
    intro parameter member
    have isX := List.mem_singleton.mp member
    rw [isX]
    exact (admits _ _).mpr met

theorem selects_iff_meets_of_unreserved (unreserved : Unreserved leaf subject)
    (language : Language Meaning) (own outer : String → Meaning) :
    (ofBound leaf subject).Selects language own outer ↔
      language.meets outer leaf.tokens (language.type outer subject) := by
  have hygienic := hygienic_iff_unreserved.mpr unreserved
  have sameSubject : language.type ((ofBound leaf subject).inBlock own outer) subject =
      language.type outer subject :=
    Language.type_agree subject fun name member => hygienic.inSubject name member Meaning own outer
  have sameBound : language.meets (captured language leaf subject own outer) leaf.tokens =
      language.meets outer leaf.tokens :=
    language.meets_agree fun name member => hygienic.inLeaf name member Meaning _ own outer
  rw [selects_ofBound_iff, sameSubject, sameBound]

/-! ### The block of the probe -/

theorem spelling_relaxedSize :
    Spelling (.bound (.trait ⟨false, true, none, ⟨0, false, [⟨"Sized", .none⟩]⟩⟩)) .shut
      relaxedSize :=
  .plainBound rfl (.traitBound .present .absent (.plainTrait
    (.path .absent (.lastStep (.bareSegment rfl)))))

theorem validBounds_relaxed {bounds : Tokens} (listed : (Bound.listOfTokens? bounds).isSome = true) :
    Shape.ValidBounds (relaxedSize ++ mark '+' :: bounds) := by
  rcases Option.isSome_iff_exists.mp listed with ⟨values, read⟩
  rcases Bound.listOfTokens?_eq_some_iff.mp read with ⟨trailing, ending, spelled⟩
  cases spelled with
  | sum first others =>
      right
      rw [Option.isSome_iff_exists]
      exact ⟨_, Bound.listOfTokens?_eq_some_iff.mpr
        ⟨trailing, ending, spelling_relaxedSize.sum (.moreBounds rfl first others)⟩⟩

theorem readable_ofBound (listed : (Bound.listOfTokens? leaf.tokens).isSome = true)
    (readsSubject : subject.ReadsBack) : (ofBound leaf subject).Readable where
  fallback := rfl
  distinct := (by decide : "__ProbeFallback" ∉ ["__Probe", "X"])
  parameters := by
    intro parameter member
    have isX := List.mem_singleton.mp member
    subst parameter
    constructor
    · rfl
    · intro bounds same
      cases same
      exact validBounds_relaxed listed
  names := List.nodup_cons.mpr ⟨List.not_mem_nil, List.nodup_nil⟩
  unhidden := (by decide : "__Probe" ∉ ["X"])
  shape := ⟨.bare "X", rfl, fun _ _ _ => rfl⟩
  subject := readsSubject

/-- The code of a leaf that is no concept is hygienic exactly if the leaf mentions none of the three
names of the probe and the subject none of the two that the block declares. The bound tested is then
the bound named; in general it is the leaf as the probe captures it. The block of a leaf that can be
read as bounds is true exactly if that bound is met. -/
theorem boundProbe_hygienic_iff (leaf subject : TypeExpr)
    (plain : ConceptRef.ofType leaf = .ok none) :
    expandLeaf subject leaf = .ok [(ofBound leaf subject).code] ∧
      (Hygienic leaf subject ↔ Unreserved leaf subject) ∧
      (∀ (Meaning : Type) (language : Language Meaning) (own outer : String → Meaning),
        ((ofBound leaf subject).Selects language own outer ↔
          language.meets (captured language leaf subject own outer) leaf.tokens
            (language.type ((ofBound leaf subject).inBlock own outer) subject)) ∧
        (Unreserved leaf subject →
          ((ofBound leaf subject).Selects language own outer ↔
            language.meets outer leaf.tokens (language.type outer subject)))) ∧
      ((Bound.listOfTokens? leaf.tokens).isSome = true → subject.ReadsBack →
        ∃ block, Block.ofTokens? [(ofBound leaf subject).code] = some block ∧
          ∀ (Meaning : Type) (language : Language Meaning), language.AnySize →
            ∀ (own outer : String → Meaning) (value : Bool),
              block.HasValue language own outer value ↔
                (value = true ↔ (ofBound leaf subject).Selects language own outer)) := by
  refine ⟨?_, hygienic_iff_unreserved, ?_, ?_⟩
  · unfold expandLeaf
    rw [plain, code_ofBound]
  · intro Meaning language own outer
    exact ⟨selects_ofBound_iff language own outer,
      fun unreserved => selects_iff_meets_of_unreserved unreserved language own outer⟩
  · intro listed readsSubject
    exact exists_block_hasValue_iff (readable_ofBound listed readsSubject)

/-! ### A captured leaf -/

def conversion (name : String) : TypeExpr :=
  .path ⟨0, false, [⟨"From", .angle false [.type (.bare name)] false⟩]⟩

/-- A language of bare names in which every type is made from itself and from nothing else. -/
def onlyReflexive : Language String where
  path head _ _ := head
  rooted _ := ""
  tuple _ := ""
  slice _ := ""
  array _ _ := ""
  reference _ _ := ""
  pointer _ _ := ""
  verbatim _ _ := ""
  sized _ := True
  meets scope bounds type :=
    ∀ name ∈ ((namesIn bounds).filter (· != "Sized")).getLast?, scope name = type
  path_bare _ := rfl
  verbatim_agree _ := rfl
  meets_agree := by
    intro scope scope' bounds agree
    funext type
    refine propext (forall_congr' fun name => imp_congr_right fun last => ?_)
    have member := (List.mem_filter.mp (List.mem_of_getLast? last)).1
    rw [agree name member]
  meets_relaxed := by
    intro scope bounds type
    rw [namesIn_append, List.filter_append]
    rfl

theorem meets_onlyReflexive_conversion {scope : String → String} {name type : String}
    (plain : plainName name = name) (other : name ≠ "Sized") :
    onlyReflexive.meets scope (conversion name).tokens type ↔ scope name = type := by
  have names : namesIn (conversion name).tokens = ["From", name] := by
    change ["From", plainName name] = _
    rw [plain]
  change (∀ last ∈ ((namesIn (conversion name).tokens).filter (· != "Sized")).getLast?,
    scope last = type) ↔ _
  rw [names]
  simp [other]

theorem anySize_onlyReflexive : onlyReflexive.AnySize := by
  intro scope type name last
  cases last

theorem readsBack_byte : (TypeExpr.bare "u8").ReadsBack :=
  ⟨.bare "u8", rfl, fun _ _ _ => rfl⟩

/-- No type but `u8` itself makes a `u8`, and yet the probe answers that `X` does. -/
theorem conversion_captured :
    Check.ofTokens? [word "u8", mark ':', word "From", mark '<', word "X", mark '>'] =
        some [⟨.bare "u8", .leaf (conversion "X")⟩] ∧
      expandLeaf (.bare "u8") (conversion "X") =
        .ok [(ofBound (conversion "X") (.bare "u8")).code] ∧
      ¬Hygienic (conversion "X") (.bare "u8") ∧
      ¬onlyReflexive.meets id (conversion "X").tokens (onlyReflexive.type id (.bare "u8")) ∧
      (ofBound (conversion "X") (.bare "u8")).Selects onlyReflexive id id ∧
      ¬(ofBound (conversion "Y") (.bare "u8")).Selects onlyReflexive id id ∧
      ∃ block, Block.ofTokens? [(ofBound (conversion "X") (.bare "u8")).code] = some block ∧
        block.HasValue onlyReflexive id id true := by
  have captured : (ofBound (conversion "X") (.bare "u8")).Selects onlyReflexive id id := by
    rw [selects_ofBound_iff, meets_onlyReflexive_conversion rfl (by decide)]
    rfl
  refine ⟨rfl, rfl, ?_, ?_, captured, ?_, ?_⟩
  · intro hygienic
    have unreserved := hygienic_iff_unreserved.mp hygienic
    exact unreserved.inLeaf "X" (by decide) (by decide)
  · rw [meets_onlyReflexive_conversion rfl (by decide)]
    decide
  · rw [selects_ofBound_iff, meets_onlyReflexive_conversion rfl (by decide)]
    decide
  · have readable : (ofBound (conversion "X") (.bare "u8")).Readable :=
      readable_ofBound rfl readsBack_byte
    rcases exists_block_hasValue_iff readable with ⟨block, read, answers⟩
    exact ⟨block, read, (answers String onlyReflexive anySize_onlyReflexive id id true).mpr
      (iff_of_true rfl captured)⟩

/-- A name that the probe does not use is tested as it stands. -/
theorem boundProbe_hygienic_iff_conversion :
    Hygienic (conversion "Y") (.bare "u8") ∧
      ¬(ofBound (conversion "Y") (.bare "u8")).Selects onlyReflexive id id ∧
      ∃ block, Block.ofTokens? [(ofBound (conversion "Y") (.bare "u8")).code] = some block ∧
        block.HasValue onlyReflexive id id false := by
  obtain ⟨_, hygienic, tested, valued⟩ :=
    boundProbe_hygienic_iff (conversion "Y") (.bare "u8") rfl
  have unreserved : Unreserved (conversion "Y") (.bare "u8") := ⟨by decide, by decide⟩
  have notSelected : ¬(ofBound (conversion "Y") (.bare "u8")).Selects onlyReflexive id id := by
    rw [(tested String onlyReflexive id id).2 unreserved,
      meets_onlyReflexive_conversion rfl (by decide)]
    decide
  obtain ⟨block, read, answers⟩ := valued rfl readsBack_byte
  exact ⟨hygienic.mpr unreserved, notSelected, block, read,
    (answers String onlyReflexive anySize_onlyReflexive id id false).mpr
      (iff_of_false Bool.false_ne_true notSelected)⟩

end Probe

end TypeConcepts
