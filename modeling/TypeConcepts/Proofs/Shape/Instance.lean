import Mathlib.Data.List.Nodup
import Mathlib.Logic.Function.Basic
import TypeConcepts.Proofs.Probe.Answer
import TypeConcepts.Proofs.Shape.Filling
import TypeConcepts.Proofs.Shape.Reading
import TypeConcepts.Token.Render

/-!
The code of a shape match has the value true exactly for the instances of the shape.
-/

namespace TypeConcepts

open TokenTree Shape

/-- The names that the expansion of a shape match keeps for itself. -/
def ShapeMatch.Reserved (name : String) : Prop :=
  name = "__Probe" ∨ name = "__InstanceOfFallback" ∨ ∃ index, name = parameter index

namespace Probe

/-- The probe of a shape whose holes have become parameters. -/
def ofShape (shape : ShapeMatch.Filled) (subject : TypeExpr) : Probe where
  fallback := "__InstanceOfFallback"
  parameters := shape.holes
  shape := .path shape.path
  subject := subject

theorem code_ofShape (shape : ShapeMatch.Filled) (subject : TypeExpr) :
    (ofShape shape subject).code =
      probeBlock "__InstanceOfFallback" shape.header subject.tokens := by
  simp only [code, ofShape, ShapeMatch.Filled.header, TypeExpr.tokens]

section Scope

variable {Meaning : Type} {path : Path} {bounds : List (Option Tokens)} {subject : TypeExpr}
  {types own outer : String → Meaning}

theorem names_holesFrom (count : Nat) (bounds : List (Option Tokens)) :
    (holesFrom count bounds).map Hole.name =
      (bounds.zipIdx count).map fun hole => parameter hole.2 := by
  rw [holesFrom, List.map_map]
  rfl

theorem inBlock_of_unreserved {name : String} (free : ¬ShapeMatch.Reserved name) :
    (ofShape ⟨path, holesFrom 0 bounds⟩ subject).inBlock own outer name = outer name := by
  refine inBlock_of_not_mem ?_
  intro member
  simp only [declared, ofShape, List.mem_cons, List.not_mem_nil, or_false] at member
  rcases member with rfl | rfl
  · exact free (.inr (.inl rfl))
  · exact free (.inl rfl)

theorem inImplementation_of_unreserved {name : String} (free : ¬ShapeMatch.Reserved name) :
    (ofShape ⟨path, holesFrom 0 bounds⟩ subject).inImplementation types own outer name =
      outer name := by
  have noParameter : name ∉
      (ofShape ⟨path, holesFrom 0 bounds⟩ subject).parameters.map Hole.name := by
    change name ∉ (holesFrom 0 bounds).map Hole.name
    rw [names_holesFrom]
    intro member
    obtain ⟨hole, _, rfl⟩ := List.mem_map.mp member
    exact free (.inr (.inr ⟨hole.2, rfl⟩))
  rw [inImplementation_of_not_mem noParameter, inBlock_of_unreserved free]

theorem inImplementation_parameter {hole : Option Tokens × Nat} (member : hole ∈ bounds.zipIdx) :
    (ofShape ⟨path, holesFrom 0 bounds⟩ subject).inImplementation types own outer
      (parameter hole.2) = types (parameter hole.2) := by
  refine inImplementation_of_mem ?_
  change parameter hole.2 ∈ (holesFrom 0 bounds).map Hole.name
  rw [names_holesFrom]
  exact List.mem_map.mpr ⟨hole, member, rfl⟩

end Scope

theorem nodup_names_holesFrom (count : Nat) (bounds : List (Option Tokens)) :
    ((holesFrom count bounds).map Hole.name).Nodup := by
  have numbers : ((bounds.zipIdx count).map fun hole => parameter hole.2) =
      (List.range' count bounds.length).map parameter := by
    rw [← List.zipIdx_map_snd, List.map_map]
    rfl
  have injective : Function.Injective parameter := fun _ _ => parameter_injective
  rw [names_holesFrom, numbers]
  exact List.Nodup.map injective List.nodup_range'

theorem ne_parameter {name : String} (other : name.toList.take 3 ≠ ['_', '_', 'S'])
    (count : Nat) (bounds : List (Option Tokens)) :
    name ∉ (holesFrom count bounds).map Hole.name := by
  rw [names_holesFrom]
  intro member
  rcases List.mem_map.mp member with ⟨hole, _, same⟩
  rw [← same, toList_parameter] at other
  exact other rfl

theorem readable_ofShape {request : ShapeMatch} {shape : Shape.Tree (Option Tokens)} {path : Path}
    (spelled : SpellsPath .blanks shape request.shape)
    (readsPath : (TypeExpr.path path).ReadsBack) (readsSubject : request.subject.ReadsBack) :
    (ofShape ⟨path, holesFrom 0 shape.holes⟩ request.subject).Readable where
  fallback := rfl
  distinct := (by decide : "__InstanceOfFallback" ∉ ["__Probe", "X"])
  parameters := by
    intro hole member
    rcases List.mem_map.mp member with ⟨numbered, inShape, same⟩
    subst hole
    constructor
    · exact isName_parameter numbered.2
    · exact spelled.spells.validBounds numbered.1 (List.fst_mem_of_mem_zipIdx inShape)
  names := nodup_names_holesFrom 0 shape.holes
  unhidden := ne_parameter (by decide) 0 shape.holes
  shape := readsPath
  subject := readsSubject

end Probe

namespace ShapeMatch

/-- A shape is filled exactly if its holes leave a path. -/
theorem filled_eq_ok_iff {request : ShapeMatch} {shape : Filled} :
    request.filled = .ok shape ↔ ∃ done, takeHoles request.shape = (done, shape.holes) ∧
      TypeExpr.ofTokens? done = some (.path shape.path) := by
  constructor
  · intro filled
    unfold ShapeMatch.filled at filled
    cases taken : takeHoles request.shape with
    | mk done holes =>
        rw [taken] at filled
        dsimp only at filled
        split at filled
        · cases filled
        · rename_i path read
          cases filled
          exact ⟨done, rfl, read⟩
        · cases filled
  · rintro ⟨done, taken, read⟩
    unfold ShapeMatch.filled
    simp only [taken, read]

/-- A spelled shape is filled with one parameter for each hole, and the path that it becomes has
the meaning of the shape. -/
theorem exists_filled {request : ShapeMatch} {shape : Shape.Tree (Option Tokens)}
    (spelled : SpellsPath .blanks shape request.shape) :
    ∃ path, request.filled = .ok ⟨path, holesFrom 0 shape.holes⟩ ∧
      Denotes (.path path) (shape.named 0) := by
  obtain ⟨done, taken, spelledDone⟩ := spelled.takeHoles_eq
  obtain ⟨path, read, denotes⟩ := spelledDone.read
  exact ⟨path, filled_eq_ok_iff.mpr ⟨done, taken, read⟩, denotes⟩

theorem expand_of_filled {request : ShapeMatch} {shape : Filled}
    (filled : request.filled = .ok shape) :
    request.expand = .ok [(Probe.ofShape shape request.subject).code] := by
  unfold expand
  rw [filled, Probe.code_ofShape]

theorem exists_types {Meaning : Type} (choice : Shape.Tree (Option Tokens × Meaning))
    (default : String → Meaning) :
    ∃ types : String → Meaning,
      ∀ hole ∈ choice.holes.zipIdx, types (parameter hole.2) = hole.1.2 := by
  have injective : Function.Injective parameter := fun _ _ => parameter_injective
  refine ⟨Function.extend parameter
    (fun index => ((choice.holes[index]?).map Prod.snd).getD (default "")) default, ?_⟩
  intro hole member
  rw [injective.extend_apply, List.mem_zipIdx_iff_getElem?.mp member, Option.map_some,
    Option.getD_some]

theorem map_number_eq {Meaning : Type} {choice : Shape.Tree (Option Tokens × Meaning)}
    {types : String → Meaning}
    (stands : ∀ hole ∈ choice.holes.zipIdx, types (parameter hole.2) = hole.1.2) :
    (((choice.map Prod.fst).number 0).map fun hole => types (parameter hole.2)) =
      choice.map Prod.snd := by
  calc (((choice.map Prod.fst).number 0).map fun hole => types (parameter hole.2))
      = (choice.number 0).map fun hole => types (parameter hole.2) := by
        rw [Shape.Tree.number_map, Shape.Tree.map_map]
    _ = (choice.number 0).map fun hole => hole.1.2 := by
        refine Shape.Tree.map_congr _ ?_
        intro hole member
        rw [Shape.Tree.holes_number] at member
        exact stands hole member
    _ = choice.map Prod.snd := by
        rw [← Shape.Tree.map_map Prod.fst Prod.snd, Shape.Tree.map_fst_number]

section Selection

variable {Meaning : Type} {language : Language Meaning} {own outer types : String → Meaning}
  {request : ShapeMatch} {shape : Shape.Tree (Option Tokens)} {path : Path}

/-- The implemented type is the shape with the parameters' types in its holes. -/
theorem type_implementation (spelled : SpellsPath .blanks shape request.shape)
    (denotes : Denotes (.path path) (shape.named 0))
    (free : ∀ name ∈ namesIn request.shape, ¬Reserved name) :
    language.type ((Probe.ofShape ⟨path, holesFrom 0 shape.holes⟩
        request.subject).inImplementation types own outer) (.path path) =
      language.tree outer ((shape.number 0).map fun hole => types (parameter hole.2)) := by
  rw [denotes Meaning language, Shape.Tree.named, Shape.Tree.map_map]
  have sameHoles : ((shape.number 0).map fun hole =>
      (Probe.ofShape ⟨path, holesFrom 0 shape.holes⟩ request.subject).inImplementation types own
        outer (parameter hole.2)) =
      (shape.number 0).map fun hole => types (parameter hole.2) := by
    refine Shape.Tree.map_congr _ ?_
    intro hole member
    rw [Shape.Tree.holes_number] at member
    exact Probe.inImplementation_parameter member
  rw [sameHoles]
  refine Language.tree_agree _ ?_
  intro name member
  rw [Shape.Tree.names_map, ← Shape.Tree.names_map Prod.fst, Shape.Tree.map_fst_number] at member
  exact Probe.inImplementation_of_unreserved (free name (spelled.spells.names_subset member))

theorem admits_iff (spelled : SpellsPath .blanks shape request.shape)
    (free : ∀ name ∈ namesIn request.shape, ¬Reserved name) {hole : Option Tokens × Nat}
    (member : hole ∈ shape.holes.zipIdx) (type : Meaning) :
    language.Admits ((Probe.ofShape ⟨path, holesFrom 0 shape.holes⟩
        request.subject).inImplementation types own outer) hole.1 type ↔
      language.Admits outer hole.1 type := by
  obtain ⟨bounds, index⟩ := hole
  cases bounds with
  | none => rfl
  | some inside =>
      have within := within_fillFrom 0 0 false request.shape
      obtain ⟨done, taken, _⟩ := spelled.takeHoles_eq
      rw [takeHoles] at taken
      rw [taken] at within
      have subset : namesIn inside ⊆ namesIn request.shape :=
        within ⟨parameter index, some inside⟩ (List.mem_map.mpr ⟨_, member, rfl⟩) inside rfl
      have sameBounds : language.meets ((Probe.ofShape ⟨path, holesFrom 0 shape.holes⟩
          request.subject).inImplementation types own outer) inside =
          language.meets outer inside :=
        language.meets_agree fun name found =>
          Probe.inImplementation_of_unreserved (free name (subset found))
      simp only [Language.Admits, sameBounds]

theorem type_subject (free : ∀ name ∈ namesIn request.subject.tokens, ¬Reserved name) :
    language.type ((Probe.ofShape ⟨path, holesFrom 0 shape.holes⟩
        request.subject).inBlock own outer) request.subject =
      language.type outer request.subject :=
  Language.type_agree _ fun name member => Probe.inBlock_of_unreserved (free name member)

theorem isInstance_of_selects (spelled : SpellsPath .blanks shape request.shape)
    (denotes : Denotes (.path path) (shape.named 0))
    (freeShape : ∀ name ∈ namesIn request.shape, ¬Reserved name)
    (freeSubject : ∀ name ∈ namesIn request.subject.tokens, ¬Reserved name)
    (selects : (Probe.ofShape ⟨path, holesFrom 0 shape.holes⟩
      request.subject).Selects language own outer) :
    language.IsInstance outer shape (language.type outer request.subject) := by
  obtain ⟨types, instantiated, admitted⟩ := selects
  -- Every hole is given the type of the parameter with its number.
  refine ⟨(shape.number 0).map fun hole => (hole.1, types (parameter hole.2)), ?_, ?_, ?_⟩
  · rw [Shape.Tree.map_map]
    exact Shape.Tree.map_fst_number 0 shape
  · intro chosen member
    rw [Shape.Tree.holes_map, Shape.Tree.holes_number] at member
    obtain ⟨hole, numbered, rfl⟩ := List.mem_map.mp member
    have inner := admitted ⟨parameter hole.2, hole.1⟩ (List.mem_map.mpr ⟨hole, numbered, rfl⟩)
    exact (admits_iff spelled freeShape numbered _).mp inner
  · rw [Shape.Tree.map_map]
    exact (type_implementation spelled denotes freeShape).symm.trans
      (instantiated.trans (type_subject freeSubject))

theorem selects_of_isInstance (spelled : SpellsPath .blanks shape request.shape)
    (denotes : Denotes (.path path) (shape.named 0))
    (freeShape : ∀ name ∈ namesIn request.shape, ¬Reserved name)
    (freeSubject : ∀ name ∈ namesIn request.subject.tokens, ¬Reserved name)
    (isInstance : language.IsInstance outer shape (language.type outer request.subject)) :
    (Probe.ofShape ⟨path, holesFrom 0 shape.holes⟩ request.subject).Selects language own outer := by
  obtain ⟨choice, rfl, admitted, instantiated⟩ := isInstance
  obtain ⟨types, stands⟩ := exists_types choice outer
  refine ⟨types, ?_, ?_⟩
  · rw [← map_number_eq stands] at instantiated
    exact (type_implementation spelled denotes freeShape).trans
      (instantiated.trans (type_subject freeSubject).symm)
  · intro hole member
    obtain ⟨numbered, inShape, rfl⟩ := List.mem_map.mp member
    refine (admits_iff spelled freeShape inShape _).mpr ?_
    rw [Shape.Tree.holes_map, List.zipIdx_map] at inShape
    obtain ⟨original, inChoice, rfl⟩ := List.mem_map.mp inShape
    have chosen := admitted original.1 (List.fst_mem_of_mem_zipIdx inChoice)
    dsimp only [Prod.map, id]
    rw [stands original inChoice]
    exact chosen

/-- The parameters of the probe can stand for exactly the types that turn the shape into the
subject, each admitted by the bounds of its own hole. -/
theorem selects_iff (spelled : SpellsPath .blanks shape request.shape)
    (denotes : Denotes (.path path) (shape.named 0))
    (freeShape : ∀ name ∈ namesIn request.shape, ¬Reserved name)
    (freeSubject : ∀ name ∈ namesIn request.subject.tokens, ¬Reserved name) :
    (Probe.ofShape ⟨path, holesFrom 0 shape.holes⟩ request.subject).Selects language own outer ↔
      language.IsInstance outer shape (language.type outer request.subject) :=
  ⟨isInstance_of_selects spelled denotes freeShape freeSubject,
    selects_of_isInstance spelled denotes freeShape freeSubject⟩

end Selection

/-- A shape match expands to a block that can be read back, and the value of the block is true
exactly if the subject is an instance of the shape. -/
theorem hasValue_iff_isInstance (request : ShapeMatch) (shape : Shape.Tree (Option Tokens))
    (spelled : SpellsPath .blanks shape request.shape)
    (freeShape : ∀ name ∈ namesIn request.shape, ¬Reserved name)
    (freeSubject : ∀ name ∈ namesIn request.subject.tokens, ¬Reserved name)
    (readsSubject : request.subject.ReadsBack) :
    ∃ code block, request.expand = .ok code ∧ Block.ofTokens? code = some block ∧
      ∀ (Meaning : Type) (language : Language Meaning), language.AnySize →
        ∀ (own outer : String → Meaning) (value : Bool),
          block.HasValue language own outer value ↔
            (value = true ↔
              language.IsInstance outer shape (language.type outer request.subject)) := by
  rcases exists_filled spelled with ⟨path, filled, denotes⟩
  rcases filled_eq_ok_iff.mp filled with ⟨done, taken, read⟩
  have readable := Probe.readable_ofShape spelled (TypeExpr.readsBack_of_ofTokens? read)
    readsSubject
  rcases Probe.exists_block_hasValue_iff readable with ⟨block, readBlock, answers⟩
  refine ⟨_, block, expand_of_filled filled, readBlock, ?_⟩
  intro Meaning language anySize own outer value
  rw [answers Meaning language anySize own outer value,
    selects_iff spelled denotes freeShape freeSubject]

end ShapeMatch

/-! ### A shape with holes at several depths -/

/-- Types as they are written. -/
inductive Written where
  | name (name : String)
  | applied (head : String) (parts : List Written)

/-- Every type but `str` has a known size, and every type but `String` is `Copy`. -/
def Language.written : Language Written where
  path head args rest :=
    match args, rest with
    | [], [] => head
    | args, rest => .applied "path" (head :: args ++ rest.map fun step => .applied step.1 step.2)
  rooted steps := .applied "rooted" (steps.map fun step => .applied step.1 step.2)
  tuple := .applied "tuple"
  slice item := .applied "slice" [item]
  array item length := .applied "array" [item, length]
  reference mutable target := .applied (if mutable then "unique" else "shared") [target]
  pointer mutable target := .applied (if mutable then "mut" else "const") [target]
  verbatim _ tokens := .name (render tokens)
  sized type := type ≠ .name "str"
  meets _ bounds type := "Copy" ∈ namesIn bounds → type ≠ .name "String"
  path_bare _ := rfl
  verbatim_agree _ := rfl
  meets_agree _ := rfl
  meets_relaxed := by
    intro scope bounds type
    have names : namesIn (relaxedSize ++ mark '+' :: bounds) = "Sized" :: namesIn bounds := by
      rw [namesIn_append]
      rfl
    rw [names]
    simp

theorem Language.anySize_written : Language.written.AnySize := by
  intro scope type copied
  have absent : "Copy" ∉ namesIn relaxedSize := by decide
  exact absurd copied absent

theorem Written.name_ne {name name' : String} (different : name ≠ name') :
    Written.name name ≠ .name name' := by
  intro same
  exact different (Written.name.inj same)

namespace ShapeMatch

theorem not_reserved {name : String} (other : name.toList.take 2 ≠ ['_', '_']) :
    ¬Reserved name := by
  rintro (rfl | rfl | ⟨index, rfl⟩)
  · exact other rfl
  · exact other rfl
  · rw [toList_parameter] at other
    exact other rfl

/-- The type `Result<String, (u16, &[u8])>` and the shape `Result<_, (_: Copy, &'a [_])>`. -/
def nestedHoles : ShapeMatch where
  subject := .path ⟨0, false, [⟨"Result", .angle false [.type (.bare "String"),
    .type (.tuple [.bare "u16", .reference none false (.slice (.bare "u8"))] false)] false⟩]⟩
  shape := [word "Result", mark '<', word "_", mark ',',
    delimited .paren ([word "_", mark ':', word "Copy", mark ',', mark '&'] ++ lifetime "a" ++
      [delimited .bracket [word "_"]]), mark '>']

theorem hasValue_iff_isInstance_nestedHoles :
    ∃ code block, nestedHoles.expand = .ok code ∧ Block.ofTokens? code = some block ∧
      block.HasValue .written .name .name true := by
  have plainHole : Spells .blanks (.type (.hole none)) [word "_"] := .hole ⟨rfl, 0, rfl⟩
  have copyHole : Spells .blanks (.element (.hole (some [word "Copy"])))
      [word "_", mark ':', word "Copy"] :=
    .bounded ⟨_, 0, mark ':', rfl, .inr rfl, .alone, rfl⟩
  have reference : Spells .blanks (.type (.reference false (.slice (.hole none))))
      (mark '&' :: lifetime "a" ++ [] ++ [delimited .bracket [word "_"]]) :=
    .reference .present .shared (.slice plainHole)
  have tuple : Spells .blanks
      (.type (.tuple [.hole (some [word "Copy"]), .reference false (.slice (.hole none))]))
      [delimited .paren ([word "_", mark ':', word "Copy", mark ',', mark '&'] ++ lifetime "a" ++
        [delimited .bracket [word "_"]])] :=
    .tuple (.firstItem copyHole (.lastItem (.plain reference)))
  have spelled : SpellsPath .blanks (.path false [⟨"Result", [.hole none,
      .tuple [.hole (some [word "Copy"]), .reference false (.slice (.hole none))]]⟩])
      nestedHoles.shape :=
    .plain (.lastStep (.openStep (.inr (by decide)) .absent
      (.moreArguments (.argument (.plain plainHole)) (.lastArgument (.argument (.plain tuple))))))
  have freeShape : ∀ name ∈ namesIn nestedHoles.shape, name.toList.take 2 ≠ ['_', '_'] := by decide
  have freeSubject : ∀ name ∈ namesIn nestedHoles.subject.tokens,
      name.toList.take 2 ≠ ['_', '_'] := by decide
  have readsSubject : nestedHoles.subject.ReadsBack :=
    ⟨nestedHoles.subject, rfl, fun _ _ _ => rfl⟩
  obtain ⟨code, block, expanded, read, answers⟩ := hasValue_iff_isInstance nestedHoles _ spelled
    (fun name member => not_reserved (freeShape name member))
    (fun name member => not_reserved (freeSubject name member)) readsSubject
  refine ⟨code, block, expanded, read, ?_⟩
  refine (answers Written .written Language.anySize_written .name .name true).mpr
    (iff_of_true rfl ?_)
  refine ⟨.path false [⟨"Result", [.hole (none, .name "String"),
    .tuple [.hole (some [word "Copy"], .name "u16"),
      .reference false (.slice (.hole (none, .name "u8")))]]⟩], rfl, ?_, rfl⟩
  intro hole member
  change hole ∈ [(none, Written.name "String"), (some [word "Copy"], .name "u16"),
    (none, .name "u8")] at member
  simp only [List.mem_cons, List.not_mem_nil, or_false] at member
  rcases member with rfl | rfl | rfl
  · exact Written.name_ne (by decide)
  · exact ⟨.inr (Written.name_ne (by decide)), fun _ => Written.name_ne (by decide)⟩
  · exact Written.name_ne (by decide)

end ShapeMatch

end TypeConcepts
