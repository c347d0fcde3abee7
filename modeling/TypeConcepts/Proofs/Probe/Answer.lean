import TypeConcepts.Proofs.Probe.Block
import TypeConcepts.Proofs.Shape.Spelling
import TypeConcepts.Proofs.TypeExpr.Printed

/-!
The value of a probe's block.

The block of a probe whose own parts can be read is read back, and its value is true exactly if the
probe's own implementation applies.
-/

namespace TypeConcepts

open TokenTree Shape

namespace Block

variable {tokens rest : Tokens}

theorem name?_word {name : String} (isName : isName name = true) (rest : Tokens) :
    name? (word name :: rest) = some (name, rest) := by
  simp only [word, name?, isName, if_true]

theorem endsArg_mark {char : Char} (member : char ∈ [',', '>']) (rest : Tokens) :
    EndsArg (mark char :: rest) :=
  ⟨char, .alone, 0, rest, member, rfl⟩

theorem eat?_angled (inner rest : Tokens) :
    eat? ['<'] (angled inner ++ rest) = some (inner ++ mark '>' :: rest) := by
  rw [angled, List.append_assoc]
  rfl

theorem inAngles?_angled {type : TypeExpr} (read : TypeExpr.ofTokens? tokens = some type)
    (rest : Tokens) : inAngles? (angled tokens ++ rest) = some (type, rest) := by
  have spelling := TypeExpr.ofTokens?_eq_some_iff.mp read
  rcases spelling with ⟨ending, spelled⟩
  have ends : EndsArg (mark '>' :: rest) := endsArg_mark (by decide) rest
  have found := spelled.read_append ends.calm (Ending.fits_of_endsArg ends ending)
  have closed : eat? ['>'] (mark '>' :: rest) = some rest := rfl
  simp only [inAngles?, eat?_angled, found, closed, Option.bind_eq_bind, Option.bind_some]

theorem readsLimits_of_validBounds {bounds : Tokens} (valid : ValidBounds bounds) :
    ∃ values trailing, ReadsLimits values trailing bounds := by
  rcases valid with empty | read
  · subst bounds
    exact ⟨[], false, Spelling.noLimits.reads⟩
  · cases listed : Bound.listOfTokens? bounds with
    | none =>
        rw [listed] at read
        cases read
    | some values =>
        have spelling := Bound.listOfTokens?_eq_some_iff.mp listed
        rcases spelling with ⟨trailing, ending, spelled⟩
        exact ⟨values, trailing, spelled.reads.2 rfl⟩

theorem limits?_append {bounds : Tokens} (valid : ValidBounds bounds) (ends : EndsArg rest) :
    limits? (bounds ++ rest) = some (bounds, rest) := by
  have reading := readsLimits_of_validBounds valid
  rcases reading with ⟨values, trailing, reads⟩
  have found := reads (sizes (bounds ++ rest) + 1) ((bounds ++ rest).length + 1) rest
    (by rw [sizes_append]; omega) (by rw [List.length_append]; omega) ends
  have taken : (bounds ++ rest).take ((bounds ++ rest).length - rest.length) = bounds := by
    rw [List.length_append, Nat.add_sub_cancel, List.take_left]
  simp only [limits?, found, taken, Option.bind_eq_bind, Option.bind_some]

/-- The name and the bounds of a parameter can be read. -/
structure Readable (parameter : Hole) : Prop where
  name : isName parameter.name = true
  bounds : ∀ bounds, parameter.bounds = some bounds → ValidBounds bounds

theorem parameter?_append {parameter : Hole} (readable : Readable parameter)
    (ends : EndsArg rest) :
    parameter? (ShapeMatch.holeTokens parameter ++ rest) = some (parameter, rest) := by
  rcases parameter with ⟨name, bounds⟩
  have named := fun more => name?_word readable.name more
  cases bounds with
  | none =>
      have noColon : single? ':' [':', ':'] rest = none := by
        rw [single?, ends.stopsAt.eat?_eq_none (by decide)]
        exact ite_self none
      simp only [parameter?, ShapeMatch.holeTokens, List.cons_append, List.nil_append, named,
        noColon, Option.bind_eq_bind, Option.bind_some]
  | some inside =>
      have limits := limits?_append (readable.bounds inside rfl) ends
      have colon : single? ':' [':', ':'] (mark ':' :: (inside ++ rest)) =
          some (inside ++ rest) := rfl
      simp only [parameter?, ShapeMatch.holeTokens, List.cons_append, named, colon, limits,
        Option.bind_eq_bind, Option.bind_some]

theorem parameters?_separated (parameters : List Hole)
    (readable : ∀ parameter ∈ parameters, Readable parameter) (limit : Nat) (rest : Tokens)
    (enough : (separated ',' false (parameters.map ShapeMatch.holeTokens)).length < limit) :
    parameters? limit
        (separated ',' false (parameters.map ShapeMatch.holeTokens) ++ mark '>' :: rest) =
      some (parameters, rest) := by
  have closed : eat? ['>'] (mark '>' :: rest) = some rest := rfl
  induction parameters generalizing limit with
  | nil =>
      cases limit with
      | zero => cases enough
      | succ limit => rfl
  | cons first others inductionHypothesis =>
      have head := readable first List.mem_cons_self
      have tail := fun parameter member => readable parameter (List.mem_cons_of_mem first member)
      have notClosed : ∀ more, eat? ['>'] (ShapeMatch.holeTokens first ++ more) = none :=
        fun more => rfl
      cases limit with
      | zero => cases enough
      | succ limit =>
          cases others with
          | nil =>
              have found := parameter?_append head (endsArg_mark (by decide : '>' ∈ [',', '>']) rest)
              simp only [List.map_cons, List.map_nil, separated_single, parameters?, notClosed,
                found, closed, Option.bind_eq_bind, Option.bind_some]
          | cons second later =>
              rw [List.map_cons, List.map_cons, separated_cons_cons, ← List.map_cons] at enough ⊢
              rw [List.length_append, List.length_cons] at enough
              have rest' := inductionHypothesis tail limit (by omega)
              have found := parameter?_append head (endsArg_mark (by decide : ',' ∈ [',', '>'])
                (separated ',' false ((second :: later).map ShapeMatch.holeTokens) ++
                  mark '>' :: rest))
              have open' : ∀ more, eat? ['>'] (mark ',' :: more) = none := fun more => rfl
              have comma : ∀ more, eat? [','] (mark ',' :: more) = some more := fun more => rfl
              simp only [List.append_assoc, List.cons_append, parameters?, notClosed, found, open',
                comma, rest', Option.bind_eq_bind, Option.bind_some]

theorem generics?_angled {parameters : List Hole}
    (readable : ∀ parameter ∈ parameters, Readable parameter) (rest : Tokens) :
    generics? (angled (separated ',' false (parameters.map ShapeMatch.holeTokens)) ++ rest) =
      some (parameters, rest) := by
  simp only [generics?, eat?_angled]
  apply parameters?_separated parameters readable
  rw [List.length_append]
  omega

theorem inBraces?_delimited {inner : Tokens} {constants : List (String × Bool)}
    (read : constants? inner.length inner = some constants) (rest : Tokens) :
    inBraces? (delimited .brace inner :: rest) = some (constants, rest) := by
  have opened : group? .brace (delimited .brace inner :: rest) = some (inner, rest) := rfl
  simp only [inBraces?, opened, read, Option.bind_eq_bind, Option.bind_some]

theorem trait?_append {name : String} {inner : Tokens} {constants : List (String × Bool)}
    (isName : isName name = true) (read : constants? inner.length inner = some constants)
    (rest : Tokens) :
    trait? (word name :: delimited .brace inner :: rest) = some (.trait name constants, rest) := by
  simp only [trait?, name?_word isName, inBraces?_delimited read, Option.bind_eq_bind,
    Option.bind_some]

theorem wrapper?_append {name : String} {parameters : List Hole} {inner : Tokens}
    {field : TypeExpr} (isName : isName name = true)
    (readable : ∀ parameter ∈ parameters, Readable parameter)
    (read : TypeExpr.ofTokens? inner = some field) (rest : Tokens) :
    wrapper? (word name ::
        (angled (separated ',' false (parameters.map ShapeMatch.holeTokens)) ++
          delimited .paren inner :: mark ';' :: rest)) =
      some (.wrapper name parameters field, rest) := by
  have opened : group? .paren (delimited .paren inner :: mark ';' :: rest) =
      some (inner, mark ';' :: rest) := rfl
  have ended : eat? [';'] (mark ';' :: rest) = some rest := rfl
  simp only [wrapper?, name?_word isName, generics?_angled readable, opened, read, ended,
    Option.bind_eq_bind, Option.bind_some]

theorem implementation?_append (given : Implementation) {head argument inner : Tokens}
    (readable : ∀ parameter ∈ given.parameters, Readable parameter)
    (named : ∀ more, optional traitFor? (head ++ word given.wrapper :: (angled argument ++ more)) =
      (given.trait, word given.wrapper :: (angled argument ++ more)))
    (isName : isName given.wrapper = true)
    (read : TypeExpr.ofTokens? argument = some given.argument)
    (readConstants : constants? inner.length inner = some given.constants) (rest : Tokens) :
    implementation? (angled (separated ',' false (given.parameters.map ShapeMatch.holeTokens)) ++
        (head ++ word given.wrapper ::
          (angled argument ++ delimited .brace inner :: rest))) =
      some (.implementation given, rest) := by
  simp only [implementation?, generics?_angled readable, named, name?_word isName,
    inAngles?_angled read, inBraces?_delimited readConstants, Option.bind_eq_bind,
    Option.bind_some]

theorem items?_more {keyword : String} {read : Reader Item} {text rest final : Tokens} {item : Item}
    {items : List Item} {limit : Nat} (known : itemReader keyword = some read)
    (found : read text = some (item, rest)) (others : items? limit rest = some (items, final)) :
    items? (limit + 1) (word keyword :: text) = some (item :: items, final) := by
  simp only [word, items?, known, found, others, Option.bind_eq_bind, Option.bind_some]

theorem items?_none {keyword : String} (other : itemReader keyword = none) (limit : Nat)
    (rest : Tokens) : items? limit (word keyword :: rest) = some ([], word keyword :: rest) := by
  cases limit with
  | zero => rfl
  | succ limit => simp only [word, items?, other]

end Block

/-- The requirement that a type's size is known can be lifted for every type. -/
def Language.AnySize {Meaning : Type} (language : Language Meaning) : Prop :=
  ∀ scope type, language.meets scope relaxedSize type

namespace Probe

variable {probe : Probe}

/-- The parts of a probe can be read, and no name is given twice. -/
structure Readable (probe : Probe) : Prop where
  fallback : isName probe.fallback = true
  distinct : probe.fallback ∉ ["__Probe", "X"]
  parameters : ∀ parameter ∈ probe.parameters, Block.Readable parameter
  names : (probe.parameters.map Hole.name).Nodup
  unhidden : "__Probe" ∉ probe.parameters.map Hole.name
  shape : probe.shape.ReadsBack
  subject : probe.subject.ReadsBack

/-! ### The block of a probe -/

def anyType : Hole := ⟨"X", some relaxedSize⟩

def phantom : TypeExpr :=
  .path ⟨0, true, [⟨"core", .none⟩, ⟨"marker", .none⟩,
    ⟨"PhantomData", .angle false [.type (.bare "X")] false⟩]⟩

def fallbackImplementation (probe : Probe) : Block.Implementation :=
  ⟨[anyType], some probe.fallback, "__Probe", .bare "X", []⟩

def ownImplementation (probe : Probe) (shape : TypeExpr) : Block.Implementation :=
  ⟨probe.parameters, none, "__Probe", shape, [("VAL", true)]⟩

def block (probe : Probe) (shape subject : TypeExpr) : Block where
  items := [.trait probe.fallback [("VAL", false)], .wrapper "__Probe" [anyType] phantom,
    .implementation probe.fallbackImplementation, .implementation (probe.ownImplementation shape)]
  wrapper := "__Probe"
  argument := subject
  constant := "VAL"

theorem readable_anyType : ∀ parameter ∈ [anyType], Block.Readable parameter := by
  intro parameter member
  have same := List.mem_singleton.mp member
  subst parameter
  constructor
  · decide
  · intro bounds same
    cases same
    exact .inr rfl

def valueTokens (probe : Probe) : Tokens :=
  word "__Probe" :: (pathSep ++ (angled probe.subject.tokens ++ (pathSep ++ [word "VAL"])))

/-- What stands between the braces of the block, item by item. -/
def inside (probe : Probe) : Tokens :=
  word "trait" :: word probe.fallback :: delimited .brace (valueConst "false") ::
  word "struct" :: word "__Probe" ::
    (angled (separated ',' false ([anyType].map ShapeMatch.holeTokens)) ++
      delimited .paren phantom.tokens :: mark ';' ::
  word "impl" ::
    (angled (separated ',' false ([anyType].map ShapeMatch.holeTokens)) ++
      ([word probe.fallback, word "for"] ++ word "__Probe" ::
        (angled (TypeExpr.bare "X").tokens ++ delimited .brace [] ::
  word "impl" ::
    (angled (separated ',' false (probe.parameters.map ShapeMatch.holeTokens)) ++
      ([] ++ word "__Probe" ::
        (angled probe.shape.tokens ++ delimited .brace ([mark '#', delimited .bracket
          [word "allow", delimited .paren [word "dead_code"]]] ++ valueConst "true") ::
  probe.valueTokens)))))))

theorem code_eq (probe : Probe) : probe.code = delimited .brace probe.inside := by
  simp only [code, probeBlock, inside, valueTokens, List.append_assoc, List.cons_append,
    List.nil_append]
  rfl

theorem items?_value (probe : Probe) (limit : Nat) :
    Block.items? limit probe.valueTokens = some ([], probe.valueTokens) :=
  Block.items?_none rfl limit _

theorem optional_traitFor?_none (name : String) (more : Tokens) :
    optional Block.traitFor? (word name :: mark '<' :: more) =
      (none, word name :: mark '<' :: more) := by
  have noFor : word? "for" (mark '<' :: more) = none := rfl
  by_cases named : isName name = true
  · simp only [optional, Block.traitFor?, Block.name?_word named, noFor, Option.bind_eq_bind,
      Option.bind_some, Option.bind_none]
  · have noName : Block.name? (word name :: mark '<' :: more) = none := by
      simp only [word, Block.name?]
      exact if_neg named
    simp only [optional, Block.traitFor?, noName, Option.bind_eq_bind, Option.bind_none]

theorem optional_traitFor?_some {trait : String} (named : isName trait = true) (more : Tokens) :
    optional Block.traitFor? (word trait :: word "for" :: more) = (some trait, more) := by
  have forWord : word? "for" (word "for" :: more) = some more := rfl
  simp only [optional, Block.traitFor?, Block.name?_word named, forWord, Option.bind_eq_bind,
    Option.bind_some]

theorem items?_inside (readable : probe.Readable) {shape : TypeExpr}
    (readShape : TypeExpr.ofTokens? probe.shape.tokens = some shape) (subject : TypeExpr)
    (limit : Nat) :
    Block.items? (limit + 4) probe.inside =
      some ((probe.block shape subject).items, probe.valueTokens) := by
  have falsehood : Block.constants? (valueConst "false").length (valueConst "false") =
      some [("VAL", false)] := rfl
  apply Block.items?_more rfl (Block.trait?_append readable.fallback falsehood _)
  apply Block.items?_more rfl (Block.wrapper?_append rfl readable_anyType rfl _)
  apply Block.items?_more rfl
    (Block.implementation?_append probe.fallbackImplementation readable_anyType
      (fun more => optional_traitFor?_some readable.fallback _) rfl rfl rfl _)
  apply Block.items?_more rfl
    (Block.implementation?_append (probe.ownImplementation shape) readable.parameters
      (fun more => optional_traitFor?_none "__Probe" _) rfl readShape rfl _)
  exact items?_value probe limit

theorem four_le_length_inside (probe : Probe) : 4 ≤ probe.inside.length := by
  simp only [inside, List.length_cons]
  omega

/-- The block that is printed is read back. -/
theorem ofTokens?_code (readable : probe.Readable) {shape subject : TypeExpr}
    (readShape : TypeExpr.ofTokens? probe.shape.tokens = some shape)
    (readSubject : TypeExpr.ofTokens? probe.subject.tokens = some subject) :
    Block.ofTokens? [probe.code] = some (probe.block shape subject) := by
  have items : Block.items? probe.inside.length probe.inside =
      some ((probe.block shape subject).items, probe.valueTokens) := by
    have split := Nat.sub_add_cancel probe.four_le_length_inside
    rw [← split]
    exact items?_inside readable readShape subject _
  have braces : group? .brace [delimited .brace probe.inside] = some (probe.inside, []) := rfl
  have named : ∀ rest, Block.name? (word "__Probe" :: rest) = some ("__Probe", rest) :=
    Block.name?_word rfl
  have colons : ∀ rest, eat? [':', ':'] (pathSep ++ rest) = some rest := fun rest => rfl
  have value : Block.name? [word "VAL"] = some ("VAL", []) := rfl
  rw [code_eq]
  simp only [Block.ofTokens?, braces, items, valueTokens, named, colons,
    Block.inAngles?_angled readSubject, value, Option.bind_eq_bind, Option.bind_some]
  rfl

/-! ### The value of the block -/

variable {Meaning : Type} {language : Language Meaning} {own outer : String → Meaning}
  {shape subject : TypeExpr}

theorem mem_items_iff {given : Block.Implementation} :
    .implementation given ∈ (probe.block shape subject).items ↔
      given = probe.fallbackImplementation ∨ given = probe.ownImplementation shape := by
  simp only [block, List.mem_cons, List.not_mem_nil, or_false, reduceCtorEq, false_or,
    Block.Item.implementation.injEq]

theorem covers_own_iff (sameShape : shape.SameMeaning probe.shape)
    (sameSubject : subject.SameMeaning probe.subject) :
    (probe.ownImplementation shape).Covers language (probe.inBlock own outer)
        (language.type (probe.inBlock own outer) subject) ↔
      probe.Selects language own outer := by
  simp only [Block.Implementation.Covers, ownImplementation,
    sameShape Meaning language, sameSubject Meaning language]
  exact Iff.rfl

theorem type_bare (name : String) (scope : String → Meaning) :
    language.type scope (.bare name) = scope (plainName name) := by
  simp only [TypeExpr.bare, Language.type, Language.pathType, Language.pathArgs,
    Language.segmentList]
  exact language.path_bare _

theorem admits_anyType (anySize : language.AnySize) (scope : String → Meaning) (type : Meaning) :
    language.Admits scope (some relaxedSize) type :=
  ⟨.inl .here, anySize scope type⟩

theorem covers_fallback (anySize : language.AnySize) (scope : String → Meaning) (type : Meaning) :
    probe.fallbackImplementation.Covers language scope type := by
  refine ⟨fun _ => type, ?_, ?_⟩
  · exact type_bare "X" _
  · intro parameter member
    have same := List.mem_singleton.mp member
    subst parameter
    exact admits_anyType anySize _ type

theorem wellFormed_fallback (readable : probe.Readable) :
    probe.fallbackImplementation.WellFormed := by
  have unhidden : probe.fallback ∉ ["X"] := by
    intro member
    exact readable.distinct (List.mem_cons_of_mem _ member)
  have wrapper : "__Probe" ∉ ["X"] := by decide
  constructor
  · exact List.nodup_cons.mpr ⟨List.not_mem_nil, List.nodup_nil⟩
  · exact wrapper
  · intro trait member
    cases member
    exact unhidden

theorem wellFormed_own (readable : probe.Readable) : (probe.ownImplementation shape).WellFormed :=
  ⟨readable.names, readable.unhidden, nofun⟩

theorem wellFormed_block (readable : probe.Readable) (anySize : language.AnySize)
    (scope : String → Meaning) : (probe.block shape subject).WellFormed language scope := by
  constructor
  · have distinct : probe.fallback ∉ ["__Probe"] := by
      intro member
      have same := List.mem_singleton.mp member
      exact readable.distinct (same ▸ List.mem_cons_self)
    exact List.nodup_cons.mpr ⟨distinct, List.nodup_cons.mpr ⟨List.not_mem_nil, List.nodup_nil⟩⟩
  · intro given member
    rcases mem_items_iff.mp member with fallback | own
    · subst given
      exact wellFormed_fallback readable
    · subst given
      exact wellFormed_own readable
  · refine ⟨anyType, phantom, ?_, by decide, admits_anyType anySize _ _⟩
    exact List.mem_cons_of_mem _ List.mem_cons_self

section Applies

variable {scope : String → Meaning} {given : Block.Implementation}

theorem eq_own_of_applies
    (applies : (probe.block shape subject).Applies language scope none given) :
    given = probe.ownImplementation shape := by
  rcases mem_items_iff.mp applies.item with fallback | own
  · subst given
    cases applies.implements
  · exact own

theorem eq_fallback_of_applies {trait : String}
    (applies : (probe.block shape subject).Applies language scope (some trait) given) :
    given = probe.fallbackImplementation := by
  rcases mem_items_iff.mp applies.item with fallback | own
  · exact fallback
  · subst given
    cases applies.implements

theorem applies_fallback (anySize : language.AnySize) :
    (probe.block shape subject).Applies language scope (some probe.fallback)
      probe.fallbackImplementation where
  item := mem_items_iff.mpr (.inl rfl)
  implements := rfl
  wrapper := rfl
  covers := covers_fallback anySize scope _

theorem applies_own_iff (sameShape : shape.SameMeaning probe.shape)
    (sameSubject : subject.SameMeaning probe.subject) :
    (probe.block shape subject).Applies language (probe.inBlock own outer) none
        (probe.ownImplementation shape) ↔
      probe.Selects language own outer := by
  constructor
  · intro applies
    exact (covers_own_iff sameShape sameSubject).mp applies.covers
  · intro selects
    have item : .implementation (probe.ownImplementation shape) ∈
        (probe.block shape subject).items := mem_items_iff.mpr (.inr rfl)
    exact ⟨item, rfl, rfl, (covers_own_iff sameShape sameSubject).mpr selects⟩

end Applies

/-- The constant of the probe's own implementation is true, and that of the trait false. -/
theorem chooses_block_iff (sameShape : shape.SameMeaning probe.shape)
    (sameSubject : subject.SameMeaning probe.subject) (anySize : language.AnySize)
    (own outer : String → Meaning) (value : Bool) :
    (probe.block shape subject).Chooses language (probe.inBlock own outer) value ↔
      (value = true ↔ probe.Selects language own outer) := by
  have selected : (probe.block shape subject).Applies language (probe.inBlock own outer) none
      (probe.ownImplementation shape) ↔ probe.Selects language own outer :=
    applies_own_iff sameShape sameSubject
  have fallback : (probe.block shape subject).Applies language (probe.inBlock own outer)
      (some probe.fallback) probe.fallbackImplementation := applies_fallback anySize
  constructor
  · intro chosen
    cases chosen with
    | own applies constant =>
        have same := eq_own_of_applies applies
        subst same
        cases List.mem_singleton.mp constant
        exact iff_of_true rfl (selected.mp applies)
    | implemented hidden declared known applies constant =>
        have same := eq_fallback_of_applies applies
        subst same
        cases constant
    | default hidden declared applies absent constant =>
        have notSelected : ¬probe.Selects language own outer := by
          intro selects
          exact hidden _ (selected.mpr selects) List.mem_cons_self
        have isTrait := List.mem_cons.mp declared
        rcases isTrait with same | later
        · cases same
          cases List.mem_singleton.mp constant
          exact iff_of_false Bool.false_ne_true notSelected
        · simp only [List.mem_cons, List.not_mem_nil, reduceCtorEq, or_self] at later
  · intro answers
    by_cases selects : probe.Selects language own outer
    · rw [answers.mpr selects]
      exact .own (selected.mpr selects) List.mem_cons_self
    · have isFalse : value = false := by
        cases value with
        | false => rfl
        | true => exact absurd (answers.mp rfl) selects
      rw [isFalse]
      apply Block.Chooses.default _ List.mem_cons_self fallback List.not_mem_nil List.mem_cons_self
      intro given applies
      have same := eq_own_of_applies applies
      subst same
      exact absurd (selected.mp applies) selects

/-- The block of a probe is read back, and its value is true exactly if the implementation of the
probe applies to the subject. -/
theorem exists_block_hasValue_iff (readable : probe.Readable) :
    ∃ block, Block.ofTokens? [probe.code] = some block ∧
      ∀ (Meaning : Type) (language : Language Meaning), language.AnySize →
        ∀ (own outer : String → Meaning) (value : Bool),
          block.HasValue language own outer value ↔
            (value = true ↔ probe.Selects language own outer) := by
  rcases readable.shape with ⟨shape, readShape, sameShape⟩
  rcases readable.subject with ⟨subject, readSubject, sameSubject⟩
  refine ⟨probe.block shape subject, ofTokens?_code readable readShape readSubject, ?_⟩
  intro Meaning language anySize own outer value
  have chooses := chooses_block_iff sameShape sameSubject anySize own outer value
  constructor
  · intro has
    exact chooses.mp has.chooses
  · intro answers
    exact ⟨wellFormed_block readable anySize _, chooses.mpr answers⟩

end Probe

end TypeConcepts
