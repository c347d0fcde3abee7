import TypeConcepts.Proofs.Probe.Language
import TypeConcepts.Proofs.TypeExpr.Constant
import TypeConcepts.Proofs.TypeExpr.Layout
import TypeConcepts.Proofs.TypeExpr.Completeness

/-!
The tokens of a type expression spell the expression again, up to what is not printed: the offsets
at which its parts began, the order of generic arguments, and a double colon or empty arguments in
front of a call. Printing once more makes no further change, and what is read back means what was
printed.
-/

namespace TypeConcepts

open TokenTree TypeReader

theorem Colons.printed (present : Bool) :
    Colons present (if present then operator [':', ':'] else []) := by
  cases present with
  | false => exact .absent
  | true => exact .present

theorem Keyword.printed (name : String) (present : Bool) :
    Keyword name present (if present then [word name] else []) := by
  cases present with
  | false => exact .absent
  | true => exact .present

theorem Marked.printed (char : Char) (present : Bool) :
    Marked char present (if present then [mark char] else []) := by
  cases present with
  | false => exact .absent
  | true => exact .present

theorem Named.printed (name : Option String) : Named name ((name.map lifetime).getD []) := by
  cases name with
  | none => exact .absent
  | some name => exact .present

theorem Listed.printed {names : List String} {trailing : Bool} {tokens : Tokens}
    (listed : Listed names trailing tokens) :
    Listed names trailing (separated ',' trailing (names.map lifetime) ++ [mark '>']) := by
  induction listed with
  | close => exact .close
  | last => exact .last
  | @more name names trailing _ _ _ _ _ others ih =>
      have layout := separated_more ',' trailing (lifetime name) (names.map lifetime)
      rw [List.isEmpty_map] at layout
      rw [List.map_cons, layout]
      exact .more ih

theorem Bindings.printed {binder : Option Binder} {tokens : Tokens}
    (bindings : Bindings binder tokens) : Bindings binder (binderTokens binder) := by
  cases bindings with
  | absent => exact .absent
  | present listed => exact .present listed.printed

def conventionTokens : Option (Option String) → Tokens
  | none => []
  | some none => [word "extern"]
  | some (some name) => [word "extern", .literal name 0]

theorem Convention.printed {convention : Option (Option String)} {tokens : Tokens}
    (calling : Convention convention tokens) :
    Convention convention (conventionTokens convention) := by
  cases calling with
  | absent => exact .absent
  | unnamed => exact .unnamed
  | named text => exact .named text

def dotTokens : Option (Option String × Bool) → Tokens
  | none => []
  | some (name, comma) => named name ++ ellipsis ++ if comma then [mark ','] else []

theorem Variadic.printed {further : Option String × Bool} {tokens : Tokens}
    (dots : Variadic further tokens) : Variadic further (dotTokens (some further)) := by
  cases dots with
  | @unnamed comma => exact .unnamed (.printed ',' comma)
  | @named _ comma _ _ _ _ _ _ _ _ word => exact .named word (.printed ',' comma)

/-- Both texts begin with the same word, or both with a double colon. -/
inductive SameHead : Tokens → Tokens → Prop
  | word {name : String} {pos pos' : Nat} {rest rest' : Tokens} :
      SameHead (.ident name pos :: rest) (.ident name pos' :: rest')
  | colons {spacing spacing' : Spacing} {start start' pos pos' : Nat} {rest rest' : Tokens} :
      SameHead (.punct ':' .joint start :: .punct ':' spacing pos :: rest)
        (.punct ':' .joint start' :: .punct ':' spacing' pos' :: rest')

namespace SameHead

variable {tokens tokens' : Tokens}

theorem startsName (same : SameHead tokens tokens') (starts : StartsName tokens) :
    StartsName tokens' := by
  obtain ⟨name, pos, rest, word, rfl⟩ := starts
  cases same with
  | word => exact ⟨_, _, _, word, rfl⟩

theorem startsType (same : SameHead tokens tokens') (starts : StartsType tokens) :
    StartsType tokens' := by
  cases same with
  | word =>
      cases starts with
      | name word => exact .name word
  | colons => exact .mark (by decide)

end SameHead

theorem Spelling.head_of_segment {segment : Segment} {ending : Ending} {tokens : Tokens}
    (spelled : Spelling (.segment segment) ending tokens) (rest rest' : Tokens) :
    SameHead (tokens ++ rest) (segment.tokens ++ rest') := by
  cases spelled with
  | bareSegment => exact .word
  | openSegment => exact .word

theorem Spelling.head_of_path {path : Path} {ending : Ending} {tokens : Tokens}
    (spelled : Spelling (.path path) ending tokens) : SameHead tokens path.tokens := by
  cases spelled with
  | path root steps =>
      cases root with
      | present => exact .colons
      | absent =>
          cases steps with
          | lastStep only =>
              have head := only.head_of_segment [] []
              rwa [List.append_nil, List.append_nil] at head
          | moreSteps first others =>
              cases others with
              | lastStep | moreSteps =>
                  rw [Path.tokens, segmentTokens_cons_cons, List.append_assoc]
                  exact first.head_of_segment _ _

/-! ### Sums -/

def headTicked (bounds : List Bound) : Bool := ((bounds.map namesTrait).head?.map (!·)).getD false

theorem headTicked_cons (bound : Bound) (rest : List Bound) :
    headTicked (bound :: rest) = !namesTrait bound := rfl

theorem headTicked_congr {bounds bounds' : List Bound}
    (same : bounds'.map namesTrait = bounds.map namesTrait) :
    headTicked bounds' = headTicked bounds := by
  rw [headTicked, headTicked, same]

def TypeExpr.isTicked : TypeExpr → Bool
  | .object false bounds _ => headTicked bounds
  | _ => false

def TraitBound.inner (bound : TraitBound) : Tokens :=
  (if bound.relaxed then [mark '?'] else []) ++ binderTokens bound.binder ++ bound.path.tokens

theorem TraitBound.tokens_eq (bound : TraitBound) :
    bound.tokens = if bound.wrapped then [delimited .paren bound.inner] else bound.inner := by
  cases bound
  rfl

theorem TraitBound.wrap_eq (bound : TraitBound) (wrapped : bound.wrapped = true) :
    { bound with wrapped := true } = bound := by
  cases bound
  cases wrapped
  rfl

theorem lifetime?_eq_none_of_startsTrait {tokens : Tokens} (starts : StartsTrait tokens) :
    lifetime? tokens = none := by
  cases starts with
  | path starts => cases starts <;> rfl
  | question | binder => rfl

theorem any_namesTrait_eq {bounds bounds' : List Bound}
    (same : bounds'.map namesTrait = bounds.map namesTrait) :
    bounds'.any namesTrait = bounds.any namesTrait := by
  have count := congrArg (·.any id) same
  rwa [List.any_map, List.any_map] at count

theorem asBound_eq_none_of_more {keyword trailing : Bool} {bound : Bound} {bounds : List Bound}
    (more : bounds ≠ [] ∨ trailing = true) :
    asBound (.object keyword (bound :: bounds) trailing) = none := by
  unfold asBound
  split
  · rename_i same
    cases same
  · rename_i same
    cases same
    rcases more with some | closed
    · exact absurd rfl some
    · cases closed
  · rename_i same
    cases same
    rcases more with some | closed
    · exact absurd rfl some
    · cases closed
  · rfl

namespace Spelling

variable {ending : Ending} {tokens : Tokens}

theorem isTicked_of_bounds {bounds : List Bound} {plus trailing : Bool}
    (spelled : Spelling (.bounds plus bounds trailing) ending tokens) :
    (lifetime? tokens).isSome = headTicked bounds := by
  have first : ∀ {bound : Bound} {ending : Ending} {text : Tokens} (more : Tokens),
      Spelling (.bound bound) ending text →
      (lifetime? (text ++ more)).isSome = !namesTrait bound := by
    intro bound ending text more only
    cases only with
    | lifetimeBound => rfl
    | wrappedBound => rfl
    | plainBound plain inner =>
        have starts : StartsTrait (text ++ more) := StartsTrait.append inner.begins more
        rw [lifetime?_eq_none_of_startsTrait starts]
        rfl
  cases spelled with
  | oneBound only =>
      have head := first [] only
      rwa [List.append_nil] at head
  | sum only others => exact first _ only

theorem ticked_of_same {bounds bounds' : List Bound} {plus plus' trailing trailing' : Bool}
    {ending' : Ending} {printed : Tokens}
    (spelled : Spelling (.bounds plus bounds trailing) ending tokens)
    (ticked : (lifetime? tokens).isSome = true)
    (spelled' : Spelling (.bounds plus' bounds' trailing') ending' printed)
    (same : bounds'.map namesTrait = bounds.map namesTrait) :
    (lifetime? printed).isSome = true := by
  rw [spelled'.isTicked_of_bounds, headTicked_congr same, ← spelled.isTicked_of_bounds, ticked]

theorem asBound_eq_none_of_ticked {bounds : List Bound} {plus trailing : Bool}
    (spelled : Spelling (.bounds plus bounds trailing) ending tokens)
    (ticked : (lifetime? tokens).isSome = true) (trait : bounds.any namesTrait = true) :
    asBound (.object false bounds trailing) = none := by
  rw [spelled.isTicked_of_bounds] at ticked
  cases bounds with
  | nil => cases trait
  | cons bound rest =>
      cases rest with
      | cons => exact asBound_eq_none_of_more (.inl (List.cons_ne_nil _ _))
      | nil =>
          cases bound with
          | lifetime => cases trait
          | trait => cases ticked

theorem namesTrait_of_asBound {plus : Bool} {type : TypeExpr} {bound : Bound}
    (spelled : Spelling (.type plus type) ending tokens) (names : asBound type = some bound) :
    namesTrait bound = true := by
  unfold asBound at names
  split at names
  · cases names
    rfl
  · cases names
    rfl
  · cases names
    cases spelled with
    | tickedType ticked trait inner => cases trait
    | parenSum unticked inner same some others =>
        rcases others.begins with ⟨_, _, rfl⟩ | ⟨_, _, _, rfl⟩
        · exact absurd rfl some
        · cases others
  · cases names

theorem isTicked_eq {plus : Bool} {type : TypeExpr}
    (spelled : Spelling (.type plus type) ending tokens) :
    (lifetime? tokens).isSome = type.isTicked := by
  have path : ∀ {binder : Option Binder} {path : Path} {ending : Ending} {before text : Tokens}
      (more : Tokens), Bindings binder before → Spelling (.path path) ending text →
      (lifetime? (before ++ (text ++ more))).isSome = false := by
    intro binder path ending before text more bindings inner
    cases bindings with
    | present => rfl
    | absent =>
        have starts : StartsPath (text ++ more) := StartsPath.append inner.begins more
        rw [List.nil_append, lifetime?_eq_none_of_startsTrait (.path starts)]
        rfl
  cases spelled with
  | pathType starts inner =>
      have none := path [] .absent inner
      rwa [List.append_nil, List.nil_append] at none
  | boundType bindings starts inner =>
      have none := path [] bindings inner
      rwa [List.append_nil] at none
  | sumType bindings starts named inner some others => exact path _ bindings inner
  | invocation bindings starts named plain inner => exact path _ bindings inner
  | tickedType ticked trait inner =>
      have first := inner.isTicked_of_bounds
      cases inner with
      | sum => exact first
  | parenSum unticked inner names some others =>
      rw [TypeExpr.isTicked, headTicked_cons, inner.namesTrait_of_asBound names]
      rfl
  | function bindings keyword calling inner result =>
      cases bindings with
      | present => rfl
      | absent =>
          cases keyword with
          | present => rfl
          | absent => cases calling <;> rfl
  | _ => rfl

theorem unticked_of_same {plus plus' : Bool} {type type' : TypeExpr} {ending' : Ending}
    {printed : Tokens} (spelled : Spelling (.type plus type) ending tokens)
    (unticked : lifetime? tokens = none)
    (spelled' : Spelling (.type plus' type') ending' printed)
    (same : type'.isTicked = type.isTicked) : lifetime? printed = none := by
  rw [← Option.not_isSome_iff_eq_none, spelled'.isTicked_eq, same, ← spelled.isTicked_eq, unticked]
  simp

theorem relaxed_of_group {plus trailing : Bool} {bounds : List Bound} {inner : Tokens} {pos : Nat}
    (spelled : Spelling (.type plus (.object false bounds trailing)) ending
      [.group .paren inner pos]) :
    ∃ bound ending, bounds = [.trait bound] ∧ trailing = false ∧ bound.wrapped = true ∧
      bound.relaxed = true ∧ Spelling (.traitBound bound) ending inner := by
  generalize same : [TokenTree.group .paren inner pos] = tokens at spelled
  cases spelled with
  | boundType bindings starts named =>
      cases bindings
      cases same
  | sumType bindings starts named path some others =>
      cases bindings with
      | present => cases same
      | absent =>
          have begins := path.begins
          cases begins <;> cases same
  | tickedType ticked trait bounds =>
      subst same
      cases ticked
  | parenSum unticked type names some others =>
      cases same
      exact absurd rfl some
  | relaxedSum wrapped relaxed bound others =>
      cases same
      cases others with
      | noMore => exact ⟨_, _, rfl, rfl, wrapped, relaxed, bound⟩

theorem relaxed_of_asBound {plus : Bool} {type : TypeExpr} {bound : Bound} {inner : Tokens}
    {pos : Nat} (spelled : Spelling (.type plus type) ending [.group .paren inner pos])
    (names : asBound type = some bound) :
    ∃ found ending, bound = .trait found ∧ found.wrapped = true ∧ found.relaxed = true ∧
      Spelling (.traitBound found) ending inner := by
  unfold asBound at names
  split at names
  · cases spelled with
    | pathType starts path =>
        have begins := path.begins
        cases begins
  · rename_i found
    cases names
    obtain ⟨bound, ending, same, _, wrapped, relaxed, spelledInner⟩ := spelled.relaxed_of_group
    cases same
    exact ⟨found, ending, by rw [found.wrap_eq wrapped], wrapped, relaxed, spelledInner⟩
  · obtain ⟨_, _, same, _⟩ := spelled.relaxed_of_group
    cases same
  · cases names

end Spelling

/-! ### The meaning of what is read back -/

/-- Both types mean the same in every language and scope. -/
def TypeExpr.SameMeaning (left right : TypeExpr) : Prop :=
  ∀ (Meaning : Type) (language : Language Meaning) (scope : String → Meaning),
    language.type scope left = language.type scope right

def SameTypes (left right : List TypeExpr) : Prop :=
  ∀ (Meaning : Type) (language : Language Meaning) (scope : String → Meaning),
    language.types scope left = language.types scope right

def SameSegments (left right : List Segment) : Prop :=
  ∀ (Meaning : Type) (language : Language Meaning) (scope : String → Meaning),
    language.segmentList scope left = language.segmentList scope right

def SameArgs (left right : List GenericArg) : Prop :=
  ∀ (Meaning : Type) (language : Language Meaning) (scope : String → Meaning),
    language.genericArgs scope left = language.genericArgs scope right

theorem SameTypes.cons {type type' : TypeExpr} {types types' : List TypeExpr}
    (first : type'.SameMeaning type) (others : SameTypes types' types) :
    SameTypes (type' :: types') (type :: types) := by
  intro Meaning language scope
  rw [Language.types, Language.types, first, others]

theorem SameSegments.cons {segment segment' : Segment} {segments segments' : List Segment}
    (first : SameSegments [segment'] [segment]) (others : SameSegments segments' segments) :
    SameSegments (segment' :: segments') (segment :: segments) := by
  intro Meaning language scope
  have head := first Meaning language scope
  cases segment
  cases segment'
  simp only [Language.segmentList, List.cons.injEq, and_true] at head ⊢
  exact ⟨head, others Meaning language scope⟩

theorem Language.genericArgs_cons {Meaning : Type} (language : Language Meaning)
    (scope : String → Meaning) (arg : GenericArg) (args : List GenericArg) :
    language.genericArgs scope (arg :: args) =
      language.genericArgs scope [arg] ++ language.genericArgs scope args := by
  simp only [Language.genericArgs, List.append_nil]

theorem SameArgs.cons {arg arg' : GenericArg} {args args' : List GenericArg}
    (first : SameArgs [arg'] [arg]) (others : SameArgs args' args) :
    SameArgs (arg' :: args') (arg :: args) := by
  intro Meaning language scope
  rw [Language.genericArgs_cons, Language.genericArgs_cons language scope arg, first, others]

theorem sameArgs_front (args : List GenericArg) :
    SameArgs (front GenericArg.isLifetime args) args := by
  intro Meaning language scope
  have lifetimes : ∀ items : List GenericArg,
      language.genericArgs scope (items.filter GenericArg.isLifetime) = [] := by
    intro items
    induction items with
    | nil => rfl
    | cons item rest ih => cases item <;> exact ih
  have others : ∀ items : List GenericArg,
      language.genericArgs scope (items.filter fun item => !item.isLifetime) =
        language.genericArgs scope items := by
    intro items
    induction items with
    | nil => rfl
    | cons item rest ih =>
        rw [Language.genericArgs_cons, ← ih]
        cases item <;> rfl
  have append : ∀ left right : List GenericArg, language.genericArgs scope (left ++ right) =
      language.genericArgs scope left ++ language.genericArgs scope right := by
    intro left right
    induction left with
    | nil => rfl
    | cons item rest ih =>
        rw [List.cons_append, Language.genericArgs_cons, ih,
          Language.genericArgs_cons language scope item rest, List.append_assoc]
  rw [front, append, lifetimes, others]
  rfl

theorem SameSegments.path {segments segments' : List Segment} (same : SameSegments segments' segments)
    (pos pos' : Nat) (rooted : Bool) :
    TypeExpr.SameMeaning (.path ⟨pos', rooted, segments'⟩) (.path ⟨pos, rooted, segments⟩) := by
  intro Meaning language scope
  have meaning := same Meaning language scope
  simp only [Language.type]
  cases rooted with
  | true => rw [Language.pathType, Language.pathType, meaning]
  | false =>
      cases segments with
      | nil =>
          cases segments' with
          | nil => rfl
          | cons first' rest' =>
              cases first'
              simp only [Language.segmentList, reduceCtorEq] at meaning
      | cons first rest =>
          cases first
          cases segments' with
          | nil => simp only [Language.segmentList, reduceCtorEq] at meaning
          | cons first' rest' =>
              cases first'
              simp only [Language.segmentList, List.cons.injEq, Prod.mk.injEq] at meaning
              obtain ⟨⟨sameName, sameArgs⟩, sameRest⟩ := meaning
              rw [Language.pathType, Language.pathType, sameName, sameArgs, sameRest]

/-! ### What is printed for a phrase -/

def PrintsType (plus : Bool) (value : TypeExpr) (ending : Ending) : Prop :=
  ∃ value', Spelling (.type plus value') ending value.tokens ∧ value'.tokens = value.tokens ∧
    (asBound value').map Bound.tokens = (asBound value).map Bound.tokens ∧
      value'.isTicked = value.isTicked ∧ value'.SameMeaning value

def PrintsSegment (segment : Segment) : Prop :=
  ∃ args, Spelling (.segment ⟨segment.name, args⟩) .shut segment.tokens ∧
    args.tokens = segment.args.tokens ∧ SameSegments [⟨segment.name, args⟩] [segment]

def PrintsSteps (segments : List Segment) : Prop :=
  segments ≠ [] ∧ ∀ segment ∈ segments, PrintsSegment segment

def PrintsArg (arg : GenericArg) : Prop :=
  ∃ arg', (∃ ending, Spelling (.arg arg') ending arg.tokens) ∧ arg'.tokens = arg.tokens ∧
    arg'.isLifetime = arg.isLifetime ∧ SameArgs [arg'] [arg]

/-- The tokens of the phrase spell a phrase of the same kind with the same tokens. -/
def Phrase.Prints : Phrase → Ending → Prop
  | .type plus value, ending => PrintsType plus value ending
  | .types values trailing, _ =>
      ∃ values', Spelling (.types values' trailing) .shut
          (separated ',' trailing (typeLists values)) ∧ typeLists values' = typeLists values ∧
        SameTypes values' values
  | .segment value, _ => PrintsSegment value
  | .steps values, _ => PrintsSteps values
  | .path value, _ => PrintsSteps value.segments
  | .arg value, _ => PrintsArg value
  | .args values trailing, _ => (values = [] → trailing = false) ∧ ∀ arg ∈ values, PrintsArg arg
  | .call value, ending =>
      ∃ value', Spelling (.call value') ending value.tokens ∧ value'.tokens = value.tokens
  | .output value, ending =>
      ∃ value', Spelling (.output value') ending (outputTokens value) ∧
        outputTokens value' = outputTokens value
  | .view before value, ending =>
      ∃ value', Spelling (.view before value') ending (traitTokens value) ∧
        traitTokens value' = traitTokens value
  | .traitPath value, ending =>
      ∃ value', Spelling (.traitPath value') ending value.tokens ∧ value'.tokens = value.tokens
  | .traitBound value, ending =>
      ∃ path, Spelling (.traitBound { value with path }) ending value.inner ∧
        path.tokens = value.path.tokens
  | .bound value, ending =>
      ∃ value', Spelling (.bound value') ending value.tokens ∧ value'.tokens = value.tokens ∧
        namesTrait value' = namesTrait value
  | .more before values trailing, ending =>
      ∃ values', Spelling (.more before values' trailing) ending
          (plusTokens trailing (boundLists values)) ∧ boundLists values' = boundLists values ∧
        values'.map namesTrait = values.map namesTrait
  | .bounds plus values trailing, ending =>
      ∃ values', Spelling (.bounds plus values' trailing) ending
          (separated '+' trailing (boundLists values)) ∧ boundLists values' = boundLists values ∧
        values'.map namesTrait = values.map namesTrait
  | .limits values trailing, _ =>
      ∃ values', Spelling (.limits values' trailing) .shut
          (separated '+' trailing (boundLists values)) ∧ boundLists values' = boundLists values
  | .param first value, _ =>
      ∃ type, Spelling (.param first ⟨value.name, type⟩) .shut value.tokens ∧
        type.tokens = value.type.tokens
  | .params first values trailing further, _ =>
      ∃ values', Spelling (.params first values' trailing further) .shut
          (separated ',' trailing (paramLists values) ++ dotTokens further) ∧
        paramLists values' = paramLists values

theorem PathArgs.eq_none_of_tokens {args : PathArgs} (nothing : args.tokens = []) :
    args = .none := by
  cases args with
  | none => rfl
  | angle doubleColon args trailing => simp [PathArgs.tokens] at nothing
  | call pos inputs trailing output => simp [PathArgs.tokens] at nothing

theorem isPlain_iff {path : Path} :
    isPlain path = true ↔ ∀ segment ∈ path.segments, segment.args.tokens = [] := by
  rw [isPlain, List.all_eq_true]
  refine forall_congr' fun segment => forall_congr' fun _ => ?_
  constructor
  · intro plain
    cases args : segment.args with
    | none => rfl
    | angle | call =>
        rw [args] at plain
        cases plain
  · intro nothing
    rw [PathArgs.eq_none_of_tokens nothing]

def Segment.face (segment : Segment) : String × Tokens := (segment.name, segment.args.tokens)

theorem Segment.tokens_eq (segment : Segment) :
    segment.tokens = word segment.name :: segment.args.tokens := by
  cases segment
  rfl

theorem segmentTokens_concat (init : List Segment) (name : String) (args : PathArgs) :
    segmentTokens (init ++ [⟨name, args⟩]) =
      segmentTokens (init ++ [⟨name, .none⟩]) ++ args.tokens := by
  induction init with
  | nil => rfl
  | cons first rest ih =>
      cases rest with
      | nil =>
          simp only [List.cons_append, List.nil_append, segmentTokens, Segment.tokens,
            PathArgs.tokens, List.append_assoc]
      | cons second others =>
          rw [List.cons_append, List.cons_append, segmentTokens_cons_cons, List.cons_append,
            List.cons_append, segmentTokens_cons_cons, ← List.cons_append, ← List.cons_append, ih]
          simp only [List.append_assoc]

theorem PrintsSegment.bare {segment : Segment} (prints : PrintsSegment segment) :
    PrintsSegment ⟨segment.name, .none⟩ := by
  obtain ⟨args, spelled, _⟩ := prints
  refine ⟨.none, .bareSegment ?_, rfl, fun _ _ _ => rfl⟩
  generalize segment.tokens = text at spelled
  cases spelled with
  | bareSegment word => exact word
  | openSegment word => rw [isSegmentWord, isPathWord_of_opens word, Bool.true_or]

namespace PrintsSteps

theorem spelled {segments : List Segment} (prints : PrintsSteps segments) :
    ∃ segments', Spelling (.steps segments') .shut (segmentTokens segments) ∧
      segmentTokens segments' = segmentTokens segments ∧
      segments'.map Segment.face = segments.map Segment.face ∧ SameSegments segments' segments := by
  obtain ⟨some, each⟩ := prints
  induction segments with
  | nil => exact absurd rfl some
  | cons segment rest ih =>
      obtain ⟨⟨args, spelled, same, meaning⟩, others⟩ := List.forall_mem_cons.mp each
      have sameFace : Segment.face ⟨segment.name, args⟩ = segment.face := by
        rw [Segment.face, Segment.face, same]
      have sameSegment : Segment.tokens ⟨segment.name, args⟩ = segment.tokens := by
        rw [Segment.tokens_eq, Segment.tokens_eq, same]
      cases rest with
      | nil =>
          refine ⟨[⟨segment.name, args⟩], .lastStep spelled, sameSegment, ?_, meaning⟩
          rw [List.map_singleton, List.map_singleton, sameFace]
      | cons second later =>
          obtain ⟨segments', spelledOthers, sameOthers, sameFaces, meaningOthers⟩ :=
            ih (List.cons_ne_nil _ _) others
          refine ⟨⟨segment.name, args⟩ :: segments', ?_, ?_, ?_, meaning.cons meaningOthers⟩
          · rw [segmentTokens_cons_cons, List.append_assoc]
            exact .moreSteps spelled spelledOthers
          · cases segments' with
            | nil => cases sameFaces
            | cons =>
                rw [segmentTokens_cons_cons, segmentTokens_cons_cons, sameOthers, sameSegment]
          · simp only [List.map_cons, sameFace, sameFaces]

theorem path {path : Path} (prints : PrintsSteps path.segments) :
    ∃ path', Spelling (.path path') .shut path.tokens ∧ path'.tokens = path.tokens ∧
      (isPlain path = true → isPlain path' = true) ∧
      TypeExpr.SameMeaning (.path path') (.path path) := by
  obtain ⟨pos, rooted, segments⟩ := path
  obtain ⟨segments', spelled, same, sameFaces, meaning⟩ := prints.spelled
  refine ⟨_, .path (.printed rooted) spelled, ?_, ?_, meaning.path pos _ rooted⟩
  · rw [Path.tokens, Path.tokens, same]
  · rw [isPlain_iff, isPlain_iff]
    intro plain segment member
    have found := List.mem_map_of_mem (f := Segment.face) member
    rw [sameFaces] at found
    obtain ⟨original, inPath, sameFace⟩ := List.mem_map.mp found
    obtain ⟨_, sameArgs⟩ := Prod.mk.inj sameFace
    rw [← sameArgs]
    exact plain original inPath

end PrintsSteps

theorem spelled_args {args : List GenericArg} {trailing : Bool}
    (closing : args = [] → trailing = false) (each : ∀ arg ∈ args, PrintsArg arg) :
    ∃ args', Spelling (.args args' trailing) .shut
        (separated ',' trailing (args.map GenericArg.tokens) ++ [mark '>']) ∧
      argLists args' = argLists args ∧ SameArgs args' args := by
  induction args with
  | nil =>
      obtain rfl := closing rfl
      exact ⟨[], .closeArgs, rfl, fun _ _ _ => rfl⟩
  | cons arg rest ih =>
      obtain ⟨⟨arg', ⟨ending, spelled⟩, sameTokens, sameKind, meaning⟩, others⟩ :=
        List.forall_mem_cons.mp each
      cases rest with
      | nil =>
          refine ⟨[arg'], ?_, by simp only [argLists, sameTokens, sameKind], meaning⟩
          cases trailing with
          | false =>
              rw [List.map_singleton, separated_single]
              exact .lastArg spelled
          | true =>
              rw [List.map_singleton, separated_true, closed_cons, List.append_assoc]
              exact .moreArgs spelled .closeArgs
      | cons second later =>
          obtain ⟨args', spelledOthers, same, meaningOthers⟩ := ih nofun others
          refine ⟨arg' :: args', ?_, by simp only [argLists, same, sameTokens, sameKind],
            meaning.cons meaningOthers⟩
          have trailingSame : (trailing || args'.isEmpty) = trailing := by
            cases args' with
            | nil => cases same
            | cons => rw [List.isEmpty_cons, Bool.or_false]
          have whole : Spelling (.args (arg' :: args') (trailing || args'.isEmpty)) .shut
              (arg.tokens ++ mark ',' ::
                (separated ',' trailing ((second :: later).map GenericArg.tokens) ++ [mark '>'])) :=
            .moreArgs spelled spelledOthers
          rw [trailingSame] at whole
          rw [List.map_cons, List.map_cons, separated_cons_cons, List.append_assoc]
          exact whole

theorem prints_openSegment {name : String} {doubleColon trailing : Bool} {args : List GenericArg}
    (word : name = "Self" ∨ isName name = true) (closing : args = [] → trailing = false)
    (each : ∀ arg ∈ args, PrintsArg arg) :
    PrintsSegment ⟨name, .angle doubleColon args trailing⟩ := by
  have closingFront : front GenericArg.isLifetime args = [] →
      closes GenericArg.isLifetime trailing args = false := by
    intro nothing
    have empty : args = [] :=
      List.eq_nil_iff_forall_not_mem.mpr fun arg member => by
        have found := (mem_front GenericArg.isLifetime).mpr member
        rw [nothing] at found
        cases found
    subst empty
    rw [closing rfl]
    rfl
  obtain ⟨args', spelled, same, meaning⟩ := spelled_args closingFront
    fun arg member => each arg ((mem_front _).mp member)
  refine ⟨.angle doubleColon args' (closes GenericArg.isLifetime trailing args), ?_, ?_, ?_⟩
  · rw [Segment.tokens, PathArgs.tokens, List.append_assoc, List.cons_append, argList_args]
    exact .openSegment word (.printed doubleColon) spelled
  · rw [PathArgs.tokens, PathArgs.tokens, same, argList_args, argList_args, closes_front,
      front_front]
  · intro Meaning language scope
    simp only [Language.segmentList, Language.pathArgs]
    rw [meaning, sameArgs_front]

theorem prints_calledTrait {pos : Nat} {rooted : Bool} {segments : List Segment} {last : Segment}
    {args : PathArgs} {ending : Ending} (inner : PrintsSteps (segments ++ [last]))
    (called : (Phrase.call args).Prints ending) :
    (Phrase.traitPath ⟨pos, rooted, segments ++ [⟨last.name, args⟩]⟩).Prints ending := by
  obtain ⟨args', spelledCall, sameCall⟩ := called
  have bare : PrintsSteps (segments ++ [⟨last.name, .none⟩]) := by
    refine ⟨by simp, fun segment member => ?_⟩
    rcases List.mem_append.mp member with earlier | only
    · exact inner.2 segment (List.mem_append_left _ earlier)
    · obtain rfl := List.mem_singleton.mp only
      exact (inner.2 last (List.mem_append_right _ (List.mem_singleton_self _))).bare
  obtain ⟨segments', spelled, same, sameFaces, _⟩ := bare.spelled
  rw [List.map_append] at sameFaces
  obtain ⟨init, lasts, rfl, _, sameLast⟩ := List.map_eq_append_iff.mp sameFaces
  obtain ⟨⟨name, others⟩, rfl, sameFace⟩ := List.map_eq_singleton_iff.mp sameLast
  obtain ⟨rfl, nothing⟩ := Prod.mk.inj sameFace
  obtain rfl := PathArgs.eq_none_of_tokens nothing
  have whole := Spelling.calledTrait (.path (.printed rooted) spelled) rfl .absent spelledCall
  have text : Path.tokens ⟨pos, rooted, segments ++ [⟨last.name, args⟩]⟩ =
      (if rooted then operator [':', ':'] else []) ++
        segmentTokens (segments ++ [⟨last.name, .none⟩]) ++ ([] ++ args.tokens) := by
    rw [Path.tokens, segmentTokens_concat, List.append_assoc]
    rfl
  refine ⟨_, text ▸ whole, ?_⟩
  · rw [Path.tokens, Path.tokens, segmentTokens_concat init, segmentTokens_concat segments, same,
      sameCall]

theorem asBound_tokens {type : TypeExpr} {bound : Bound} (names : asBound type = some bound)
    (trait : namesTrait bound = true) :
    bound.tokens = [delimited .paren type.tokens] ∨
      ∃ found, type = .object false [.trait found] false ∧ found.wrapped = true ∧
        bound = .trait found := by
  unfold asBound at names
  split at names
  · cases names
    exact .inl rfl
  · rename_i found
    cases names
    cases wrapped : found.wrapped with
    | true =>
        exact .inr ⟨found, rfl, wrapped, by rw [found.wrap_eq wrapped]⟩
    | false =>
        left
        rw [TypeExpr.tokens, boundLists, boundLists, separated_single, Bound.tokens, Bound.tokens,
          TraitBound.tokens_eq, TraitBound.tokens_eq, wrapped]
        rfl
  · cases names
    cases trait
  · cases names

theorem sameMeaning_object {keyword trailing : Bool} {bounds bounds' : List Bound}
    (same : (TypeExpr.object keyword bounds' trailing).tokens =
      (TypeExpr.object keyword bounds trailing).tokens) :
    TypeExpr.SameMeaning (.object keyword bounds' trailing) (.object keyword bounds trailing) := by
  intro Meaning language scope
  simp only [Language.type, same]

theorem prints_parenSum {type : TypeExpr} {bound : Bound} {bounds : List Bound}
    {tokens more : Tokens} {ending ending' : Ending} (unticked : lifetime? tokens = none)
    (inner : Spelling (.type true type) ending tokens) (prints : PrintsType true type ending)
    (names : asBound type = some bound) (some : more ≠ [])
    (others : Spelling (.more .shut bounds false) ending' more)
    (printsOthers : (Phrase.more .shut bounds false).Prints ending') :
    PrintsType true (.object false (bound :: bounds) false) ending' := by
  obtain ⟨type', spelled, _, sameBound, sameTick, _⟩ := prints
  obtain ⟨bounds', spelledOthers, sameOthers, sameKinds⟩ := printsOthers
  rw [names, Option.map_some, Option.map_eq_some_iff] at sameBound
  obtain ⟨bound', names', sameBound⟩ := sameBound
  have nonempty : bounds ≠ [] := by
    rintro rfl
    cases others
    exact some rfl
  have nonempty' : bounds' ≠ [] := by
    rintro rfl
    cases bounds with
    | nil => exact nonempty rfl
    | cons => cases sameKinds
  have trait := inner.namesTrait_of_asBound names
  have trait' := spelled.namesTrait_of_asBound names'
  have untickedPrinted := inner.unticked_of_same unticked spelled sameTick
  have same : (TypeExpr.object false (bound' :: bounds') false).tokens =
      (TypeExpr.object false (bound :: bounds) false).tokens := by
    simp only [TypeExpr.tokens, boundLists, sameBound, sameOthers]
  refine ⟨.object false (bound' :: bounds') false, ?_, same, ?_, ?_, sameMeaning_object same⟩
  · rw [TypeExpr.tokens, boundLists, separated_plus]
    have plusNonempty : plusTokens false (boundLists bounds) ≠ [] := by
      cases bounds with
      | nil => exact absurd rfl nonempty
      | cons => exact List.cons_ne_nil _ _
    rcases asBound_tokens names trait with group | ⟨found, rfl, wrapped, rfl⟩
    · rw [group]
      exact .parenSum untickedPrinted spelled names' plusNonempty spelledOthers
    · rw [TypeExpr.tokens, boundLists, boundLists, separated_single, Bound.tokens,
        TraitBound.tokens_eq, if_pos wrapped] at spelled
      obtain ⟨found', _, rfl, wrapped', relaxed', spelledInner⟩ := spelled.relaxed_of_asBound names'
      rw [Bound.tokens, TraitBound.tokens_eq, if_pos wrapped]
      exact .relaxedSum wrapped' relaxed' spelledInner spelledOthers
  · rw [asBound_eq_none_of_more (.inl nonempty), asBound_eq_none_of_more (.inl nonempty')]
  · simp only [TypeExpr.isTicked, headTicked_cons, trait, trait']

theorem TraitBound.inner_congr {bound : TraitBound} {path : Path}
    (same : path.tokens = bound.path.tokens) :
    TraitBound.inner { bound with path } = bound.inner := by
  rw [TraitBound.inner, TraitBound.inner, same]

theorem TraitBound.tokens_congr {bound : TraitBound} {path : Path}
    (same : path.tokens = bound.path.tokens) :
    TraitBound.tokens { bound with path } = bound.tokens := by
  rw [TraitBound.tokens_eq, TraitBound.tokens_eq, TraitBound.inner_congr same]

theorem prints_relaxedSum {plus : Bool} {bound : TraitBound} {bounds : List Bound}
    {ending ending' : Ending} (wrapped : bound.wrapped = true) (relaxed : bound.relaxed = true)
    (inner : (Phrase.traitBound bound).Prints ending)
    (others : (Phrase.more .shut bounds false).Prints ending') :
    PrintsType plus (.object false (.trait bound :: bounds) false) ending' := by
  obtain ⟨path, spelled, samePath⟩ := inner
  obtain ⟨bounds', spelledOthers, sameOthers, sameKinds⟩ := others
  have sameBound := TraitBound.tokens_congr samePath
  have same : (TypeExpr.object false (.trait { bound with path } :: bounds') false).tokens =
      (TypeExpr.object false (.trait bound :: bounds) false).tokens := by
    simp only [TypeExpr.tokens, boundLists, Bound.tokens, sameBound, sameOthers]
  refine ⟨.object false (.trait { bound with path } :: bounds') false, ?_, same, ?_, rfl,
    sameMeaning_object same⟩
  · rw [TypeExpr.tokens, boundLists, separated_plus, Bound.tokens, TraitBound.tokens_eq,
      if_pos wrapped]
    exact .relaxedSum wrapped relaxed spelled spelledOthers
  · cases bounds with
    | nil =>
        obtain rfl := List.map_eq_nil_iff.mp sameKinds
        have whole : TraitBound.tokens { bound with wrapped := true, path } =
            TraitBound.tokens { bound with wrapped := true } :=
          @TraitBound.tokens_congr { bound with wrapped := true } path samePath
        simp only [asBound, Option.map_some, Bound.tokens, whole]
    | cons second later =>
        have nonempty : bounds' ≠ [] := by
          rintro rfl
          cases sameKinds
        rw [asBound_eq_none_of_more (.inl nonempty),
          asBound_eq_none_of_more (.inl (List.cons_ne_nil second later))]

theorem prints_sumType {binder : Option Binder} {path : Path} {bounds : List Bound}
    {trailing : Bool} {before tokens more : Tokens} {ending ending' : Ending}
    (bindings : Bindings binder before) (starts : StartsType tokens)
    (named : binder.isSome = true → StartsName tokens)
    (inner : Spelling (.path path) ending tokens) (prints : PrintsSteps path.segments)
    (some : more ≠ []) (others : Spelling (.more .shut bounds trailing) ending' more)
    (printsOthers : (Phrase.more .shut bounds trailing).Prints ending') :
    PrintsType true (.object false (.trait ⟨false, false, binder, path⟩ :: bounds) trailing)
      ending' := by
  obtain ⟨path', spelled, samePath, _⟩ := prints.path
  obtain ⟨bounds', spelledOthers, sameOthers, sameKinds⟩ := printsOthers
  have further : bounds ≠ [] ∨ trailing = true := by
    cases others with
    | noMore => exact absurd rfl some
    | trailingPlus => exact .inr rfl
    | moreBounds => exact .inl (List.cons_ne_nil _ _)
  have further' : bounds' ≠ [] ∨ trailing = true := by
    refine further.imp_left fun nonempty => ?_
    rintro rfl
    exact nonempty (List.map_eq_nil_iff.mp sameKinds.symm)
  have plusNonempty : plusTokens trailing (boundLists bounds) ≠ [] := by
    cases bounds with
    | cons => exact List.cons_ne_nil _ _
    | nil =>
        rcases further with nonempty | rfl
        · exact absurd rfl nonempty
        · exact List.cons_ne_nil _ _
  have same :
      (TypeExpr.object false (.trait ⟨false, false, binder, path'⟩ :: bounds') trailing).tokens =
        (TypeExpr.object false (.trait ⟨false, false, binder, path⟩ :: bounds) trailing).tokens := by
    simp only [TypeExpr.tokens, boundLists, Bound.tokens, TraitBound.tokens, samePath, sameOthers]
  refine ⟨.object false (.trait ⟨false, false, binder, path'⟩ :: bounds') trailing, ?_, same, ?_, rfl,
    sameMeaning_object same⟩
  · have whole := Spelling.sumType bindings.printed (inner.head_of_path.startsType starts)
      (fun bound => inner.head_of_path.startsName (named bound)) spelled plusNonempty spelledOthers
    rw [TypeExpr.tokens, boundLists, separated_plus, Bound.tokens, TraitBound.tokens]
    simpa only [Bool.false_eq_true, if_false, List.nil_append, List.append_assoc] using whole
  · rw [asBound_eq_none_of_more further, asBound_eq_none_of_more further']

theorem Signature.tokens_eq (binder : Option Binder) (isUnsafe : Bool)
    (abi : Option (Option String)) (params : List Param) (trailing : Bool)
    (further : Option (Option String × Bool)) (output : Option TypeExpr) :
    Signature.tokens ⟨binder, isUnsafe, abi, params, trailing, further, output⟩ =
      binderTokens binder ++ ((if isUnsafe then [word "unsafe"] else []) ++
        (conventionTokens abi ++ word "fn" ::
          delimited .paren (separated ',' trailing (paramLists params) ++ dotTokens further) ::
            outputTokens output)) := by
  rw [Signature.tokens.eq_def]
  dsimp only
  rw [List.append_assoc, List.append_assoc]
  rfl

theorem prints_function {plus isUnsafe : Bool} {binder : Option Binder}
    {abi : Option (Option String)} {params : List Param} {trailing : Bool}
    {further : Option (Option String × Bool)} {output : Option TypeExpr}
    {before convention : Tokens} {ending ending' : Ending} (bindings : Bindings binder before)
    (calling : Convention abi convention)
    (inner : (Phrase.params true params trailing further).Prints ending)
    (result : (Phrase.output output).Prints ending') :
    PrintsType plus (.function ⟨binder, isUnsafe, abi, params, trailing, further, output⟩)
      ending' := by
  obtain ⟨params', spelledParams, sameParams⟩ := inner
  obtain ⟨output', spelledOutput, sameOutput⟩ := result
  have same : Signature.tokens ⟨binder, isUnsafe, abi, params', trailing, further, output'⟩ =
      Signature.tokens ⟨binder, isUnsafe, abi, params, trailing, further, output⟩ := by
    rw [Signature.tokens_eq, Signature.tokens_eq, sameParams, sameOutput]
  refine ⟨.function ⟨binder, isUnsafe, abi, params', trailing, further, output'⟩, ?_, ?_, rfl, rfl,
    ?_⟩
  · rw [TypeExpr.tokens, Signature.tokens_eq]
    exact .function bindings.printed (.printed "unsafe" isUnsafe) calling.printed spelledParams
      spelledOutput
  · rw [TypeExpr.tokens, TypeExpr.tokens, same]
  · intro Meaning language scope
    simp only [Language.type, same]

/-! ### Every phrase -/

theorem isEmpty_of_typeLists {types types' : List TypeExpr}
    (same : typeLists types' = typeLists types) : types'.isEmpty = types.isEmpty := by
  have count := congrArg List.isEmpty same
  rwa [typeLists_eq_map, typeLists_eq_map, List.isEmpty_map, List.isEmpty_map] at count

theorem isEmpty_of_paramLists {params params' : List Param}
    (same : paramLists params' = paramLists params) : params'.isEmpty = params.isEmpty := by
  have count := congrArg List.isEmpty same
  rwa [paramLists_eq_map, paramLists_eq_map, List.isEmpty_map, List.isEmpty_map] at count

theorem separated_types (trailing : Bool) (type : TypeExpr) (types : List TypeExpr) :
    separated ',' (trailing || types.isEmpty) (typeLists (type :: types)) =
      type.tokens ++ mark ',' :: separated ',' trailing (typeLists types) := by
  have layout := separated_more ',' trailing type.tokens (typeLists types)
  rwa [typeLists_eq_map, List.isEmpty_map, ← typeLists_eq_map, ← typeLists] at layout

theorem separated_params (trailing : Bool) (param : Param) (params : List Param) :
    separated ',' (trailing || params.isEmpty) (paramLists (param :: params)) =
      param.tokens ++ mark ',' :: separated ',' trailing (paramLists params) := by
  have layout := separated_more ',' trailing param.tokens (paramLists params)
  rwa [paramLists_eq_map, List.isEmpty_map, ← paramLists_eq_map, ← paramLists] at layout

theorem Param.tokens_congr {param : Param} {type : TypeExpr}
    (same : type.tokens = param.type.tokens) : Param.tokens ⟨param.name, type⟩ = param.tokens := by
  cases param
  rw [Param.tokens, Param.tokens, same]

/-- What is printed for a phrase spells it again. -/
theorem Spelling.prints {phrase : Phrase} {ending : Ending} {tokens : Tokens}
    (spelled : Spelling phrase ending tokens) : phrase.Prints ending := by
  induction spelled with
  | bareSegment word => exact ⟨.none, .bareSegment word, rfl, fun _ _ _ => rfl⟩
  | openSegment word turbofish inner ih => exact prints_openSegment word ih.1 ih.2
  | lastStep only ih =>
      refine ⟨List.cons_ne_nil _ _, fun segment member => ?_⟩
      obtain rfl := List.mem_singleton.mp member
      exact ih
  | moreSteps first others ihFirst ihOthers =>
      exact ⟨List.cons_ne_nil _ _, List.forall_mem_cons.mpr ⟨ihFirst, ihOthers.2⟩⟩
  | path root steps ih => exact ih
  | lifetimeArg => exact ⟨.lifetime 0 _, ⟨_, .lifetimeArg⟩, rfl, rfl, fun _ _ _ => rfl⟩
  | typeArg inner ih =>
      obtain ⟨type, spelled, same, _, _, meaning⟩ := ih
      refine ⟨.type type, ⟨_, .typeArg spelled⟩, same, rfl, fun Meaning language scope => ?_⟩
      simp only [Language.genericArgs, Language.genericArg, meaning Meaning language scope]
  | constArg read =>
      exact ⟨.const _ _, ⟨_, .constArg (constant?_kept read)⟩, rfl, rfl, fun _ _ _ => rfl⟩
  | @typeBinding name args value tokens more _ _ _ _ word head inner ihHead ihInner =>
      obtain ⟨args', spelledHead, sameArgs, _⟩ := ihHead
      obtain ⟨type, spelled, same, _⟩ := ihInner
      refine ⟨.typeBinding _ name args' type, ⟨_, .typeBinding word spelledHead spelled⟩, ?_, rfl,
        fun Meaning language scope => ?_⟩
      · simp only [GenericArg.tokens, sameArgs, same]
      · simp only [Language.genericArgs, Language.genericArg, GenericArg.tokens, sameArgs, same]
  | @constBinding name args source value tokens _ _ _ word head read ihHead =>
      obtain ⟨args', spelledHead, sameArgs, _⟩ := ihHead
      refine ⟨.constBinding _ name args' value,
        ⟨_, .constBinding word spelledHead (constant?_kept read)⟩, ?_, rfl,
        fun Meaning language scope => ?_⟩
      · simp only [GenericArg.tokens, sameArgs]
      · simp only [Language.genericArgs, Language.genericArg, GenericArg.tokens, sameArgs]
  | @constraint name args bounds trailing _ tokens more _ _ word head lone inner ihHead ihInner =>
      obtain ⟨args', spelledHead, sameArgs, _⟩ := ihHead
      obtain ⟨bounds', spelled, same⟩ := ihInner
      refine ⟨.constraint _ name args' bounds' trailing,
        ⟨_, .constraint word spelledHead .alone spelled⟩, ?_, rfl, fun Meaning language scope => ?_⟩
      · simp only [GenericArg.tokens, sameArgs, same]
      · simp only [Language.genericArgs, Language.genericArg, GenericArg.tokens, sameArgs, same]
  | closeArgs => exact ⟨fun _ => rfl, List.forall_mem_nil _⟩
  | lastArg only ih =>
      exact ⟨fun empty => absurd empty (List.cons_ne_nil _ _),
        List.forall_mem_cons.mpr ⟨ih, List.forall_mem_nil _⟩⟩
  | moreArgs first others ihFirst ihOthers =>
      exact ⟨fun empty => absurd empty (List.cons_ne_nil _ _),
        List.forall_mem_cons.mpr ⟨ihFirst, ihOthers.2⟩⟩
  | noOutput => exact ⟨none, .noOutput, rfl⟩
  | someOutput inner ih =>
      obtain ⟨type, spelled, same, _⟩ := ih
      exact ⟨some type, .someOutput spelled, by simp only [outputTokens, same]⟩
  | call first second ihFirst ihSecond =>
      obtain ⟨inputs', spelled, same, _⟩ := ihFirst
      obtain ⟨output', spelledOutput, sameOutput⟩ := ihSecond
      refine ⟨.call 0 inputs' _ output', .call spelled spelledOutput, ?_⟩
      simp only [PathArgs.tokens, same, sameOutput]
  | noTypes => exact ⟨[], .noTypes, rfl, fun _ _ _ => rfl⟩
  | lastType only ih =>
      obtain ⟨type, spelled, same, _, _, meaning⟩ := ih
      refine ⟨[type], ?_, by simp only [typeLists, same], .cons meaning fun _ _ _ => rfl⟩
      rw [typeLists, typeLists, separated_single]
      exact .lastType spelled
  | moreTypes first others ihFirst ihOthers =>
      obtain ⟨type, spelled, same, _, _, meaning⟩ := ihFirst
      obtain ⟨types', spelledOthers, sameOthers, meaningOthers⟩ := ihOthers
      refine ⟨type :: types', ?_, by simp only [typeLists, same, sameOthers],
        .cons meaning meaningOthers⟩
      rw [separated_types, ← isEmpty_of_typeLists sameOthers]
      exact .moreTypes spelled spelledOthers
  | plainTrait inner ih =>
      obtain ⟨path', spelled, same, _⟩ := PrintsSteps.path ih
      exact ⟨path', .plainTrait spelled, same⟩
  | calledTrait inner yields turbofish called ihInner ihCalled =>
      exact prints_calledTrait ihInner ihCalled
  | @traitBound wrapped relaxed _ _ _ _ _ _ question bindings inner ih =>
      obtain ⟨path', spelled, same⟩ := ih
      refine ⟨path', ?_, same⟩
      rw [TraitBound.inner, List.append_assoc]
      exact .traitBound (.printed '?' relaxed) bindings.printed spelled
  | lifetimeBound => exact ⟨_, .lifetimeBound, rfl, rfl⟩
  | @wrappedBound bound _ _ _ wrapped inner ih =>
      obtain ⟨path', spelled, same⟩ := ih
      refine ⟨.trait { bound with path := path' }, ?_, TraitBound.tokens_congr same, rfl⟩
      rw [Bound.tokens, TraitBound.tokens_eq, if_pos wrapped]
      exact .wrappedBound wrapped spelled
  | @plainBound bound _ _ plain inner ih =>
      obtain ⟨path', spelled, same⟩ := ih
      refine ⟨.trait { bound with path := path' }, ?_, TraitBound.tokens_congr same, rfl⟩
      rw [Bound.tokens, TraitBound.tokens_eq, if_neg (ne_true_of_eq_false plain)]
      exact .plainBound plain spelled
  | noMore => exact ⟨[], .noMore, rfl, rfl⟩
  | trailingPlus ended => exact ⟨[], .trailingPlus ended, rfl, rfl⟩
  | moreBounds ended first others ihFirst ihOthers =>
      obtain ⟨bound', spelled, same, sameKind⟩ := ihFirst
      obtain ⟨bounds', spelledOthers, sameOthers, sameKinds⟩ := ihOthers
      exact ⟨bound' :: bounds', .moreBounds ended spelled spelledOthers,
        by simp only [boundLists, same, sameOthers],
        by simp only [List.map_cons, sameKind, sameKinds]⟩
  | oneBound only ih =>
      obtain ⟨bound', spelled, same, sameKind⟩ := ih
      refine ⟨[bound'], ?_, by simp only [boundLists, same],
        by simp only [List.map_cons, List.map_nil, sameKind]⟩
      rw [boundLists, boundLists, separated_single]
      exact .oneBound spelled
  | sum first others ihFirst ihOthers =>
      obtain ⟨bound', spelled, same, sameKind⟩ := ihFirst
      obtain ⟨bounds', spelledOthers, sameOthers, sameKinds⟩ := ihOthers
      refine ⟨bound' :: bounds', ?_, by simp only [boundLists, same, sameOthers],
        by simp only [List.map_cons, sameKind, sameKinds]⟩
      rw [boundLists, separated_plus]
      exact .sum spelled spelledOthers
  | noLimits => exact ⟨[], .noLimits, rfl⟩
  | limits inner ih =>
      obtain ⟨bounds', spelled, same, _⟩ := ih
      exact ⟨bounds', .limits spelled, same⟩
  | pathType starts inner ih =>
      obtain ⟨path', spelled, same, _, meaning⟩ := PrintsSteps.path ih
      refine ⟨.path path', .pathType (inner.head_of_path.startsType starts) spelled, same, ?_, rfl,
        meaning⟩
      simp only [asBound, Option.map_some, Bound.tokens, TraitBound.tokens, same]
  | @boundType _ binder path _ _ _ bindings starts inner ih =>
      obtain ⟨path', spelled, same, _⟩ := PrintsSteps.path ih
      have sameTokens :
          (TypeExpr.object false [.trait ⟨false, false, some binder, path'⟩] false).tokens =
            (TypeExpr.object false [.trait ⟨false, false, some binder, path⟩] false).tokens := by
        simp only [TypeExpr.tokens, boundLists, Bound.tokens, TraitBound.tokens, same]
      refine ⟨.object false [.trait ⟨false, false, some binder, path'⟩] false, ?_, sameTokens, ?_,
        rfl, sameMeaning_object sameTokens⟩
      · rw [TypeExpr.tokens, boundLists, boundLists, separated_single, if_neg Bool.false_ne_true,
          List.nil_append, Bound.tokens]
        exact .boundType bindings.printed (inner.head_of_path.startsName starts) spelled
      · simp only [asBound, Option.map_some, Bound.tokens, TraitBound.tokens, same]
  | sumType bindings starts named inner some others ihInner ihOthers =>
      exact prints_sumType bindings starts named inner ihInner some others ihOthers
  | invocation bindings starts named plain inner ih =>
      obtain ⟨path', spelled, same, samePlain, _⟩ := PrintsSteps.path ih
      exact ⟨.invocation path' _, .invocation .absent (inner.head_of_path.startsType starts)
        (fun bound => absurd bound Bool.false_ne_true) (samePlain plain) spelled,
        by simp only [TypeExpr.tokens, same], rfl, rfl,
        fun _ _ _ => by simp only [Language.type, TypeExpr.tokens, same]⟩
  | noView => exact ⟨none, .noView, rfl⟩
  | someView ended inner ih =>
      obtain ⟨path', spelled, same, _⟩ := PrintsSteps.path ih
      exact ⟨some path', .someView ended spelled, by simp only [traitTokens, same]⟩
  | qualified first second third ihFirst ihSecond ihThird =>
      obtain ⟨type, spelled, same, _⟩ := ihFirst
      obtain ⟨view, spelledView, sameView⟩ := ihSecond
      obtain ⟨segments, spelledSteps, sameSteps, _⟩ := PrintsSteps.spelled ihThird
      refine ⟨.qualified type view segments, ?_,
        by simp only [TypeExpr.tokens, same, sameView, sameSteps], rfl, rfl,
        fun _ _ _ => by simp only [Language.type, TypeExpr.tokens, same, sameView, sameSteps]⟩
      simp only [TypeExpr.tokens, List.append_assoc, List.cons_append]
      exact .qualified spelled spelledView spelledSteps
  | @reference plus mutable name target _ _ _ _ _ _ lifetime kind unticked inner ih =>
      obtain ⟨type, spelled, same, _, sameTick, meaning⟩ := ih
      refine ⟨.reference name mutable type, ?_, by simp only [TypeExpr.tokens, same], rfl, rfl,
        fun Meaning language scope => by
          simp only [Language.type, meaning Meaning language scope]⟩
      rw [TypeExpr.tokens, List.append_assoc, List.cons_append]
      refine .reference (.printed name) (.printed "mut" mutable) (fun unnamed => ?_) spelled
      cases mutable with
      | true => rfl
      | false =>
          cases kind
          exact inner.unticked_of_same (unticked unnamed) spelled sameTick
  | pointer inner ih =>
      obtain ⟨type, spelled, same, _, _, meaning⟩ := ih
      exact ⟨.pointer _ type, .pointer spelled, by simp only [TypeExpr.tokens, same], rfl, rfl,
        fun Meaning language scope => by
          simp only [Language.type, meaning Meaning language scope]⟩
  | never => exact ⟨.never, .never, rfl, rfl, rfl, fun _ _ _ => rfl⟩
  | tickedType ticked trait inner ih =>
      obtain ⟨bounds', spelled, same, sameKinds⟩ := ih
      have printedTick := inner.ticked_of_same ticked spelled sameKinds
      have printedTrait := (any_namesTrait_eq sameKinds).trans trait
      refine ⟨.object false bounds' _, .tickedType printedTick printedTrait spelled,
        by simp only [TypeExpr.tokens, same], ?_, headTicked_congr sameKinds,
        sameMeaning_object (by simp only [TypeExpr.tokens, same])⟩
      rw [inner.asBound_eq_none_of_ticked ticked trait,
        spelled.asBound_eq_none_of_ticked printedTick printedTrait]
  | @parens plus type _ _ _ unticked inner ih =>
      obtain ⟨type', spelled, same, sameBound, sameTick, meaning⟩ := ih
      have whole : Spelling (.type plus (.paren type')) ⟨plus && (asBound type').isSome, false⟩
          [delimited .paren type.tokens] :=
        .parens (inner.unticked_of_same unticked spelled sameTick) spelled
      have isSome := congrArg Option.isSome sameBound
      rw [Option.isSome_map, Option.isSome_map] at isSome
      rw [isSome] at whole
      exact ⟨.paren type', whole, by simp only [TypeExpr.tokens, same], rfl, rfl,
        fun Meaning language scope => by
          simp only [Language.type, meaning Meaning language scope]⟩
  | tickedParens ticked trait inner ih =>
      obtain ⟨bounds', spelled, same, sameKinds⟩ := ih
      have printedTick := inner.ticked_of_same ticked spelled sameKinds
      have printedTrait := (any_namesTrait_eq sameKinds).trans trait
      exact ⟨.paren (.object false bounds' _), .tickedParens printedTick printedTrait spelled,
        by simp only [TypeExpr.tokens, same], rfl, rfl,
        fun _ _ _ => by simp only [Language.type, TypeExpr.tokens, same]⟩
  | parenSum unticked inner names some others ihInner ihOthers =>
      exact prints_parenSum unticked inner ihInner names some others ihOthers
  | relaxedSum wrapped relaxed inner others ihInner ihOthers =>
      exact prints_relaxedSum wrapped relaxed ihInner ihOthers
  | unit => exact ⟨.tuple [] false, .unit, rfl, rfl, rfl, fun _ _ _ => rfl⟩
  | @tuple _ _ types trailing _ _ _ _ _ _ _ unticked first others ihFirst ihOthers =>
      obtain ⟨type, spelled, same, _, sameTick, meaning⟩ := ihFirst
      obtain ⟨types', spelledOthers, sameOthers, meaningOthers⟩ := ihOthers
      have sameLength := isEmpty_of_typeLists sameOthers
      refine ⟨.tuple (type :: types') (trailing || types.isEmpty), ?_,
        by simp only [TypeExpr.tokens, typeLists, same, sameOthers], rfl, rfl,
        fun Meaning language scope => by
          simp only [Language.type, SameTypes.cons meaning meaningOthers Meaning language scope]⟩
      rw [TypeExpr.tokens, separated_types, ← sameLength]
      exact .tuple (first.unticked_of_same unticked spelled sameTick) spelled spelledOthers
  | slice inner ih =>
      obtain ⟨type, spelled, same, _, _, meaning⟩ := ih
      exact ⟨.slice type, .slice spelled, by simp only [TypeExpr.tokens, same], rfl, rfl,
        fun Meaning language scope => by
          simp only [Language.type, meaning Meaning language scope]⟩
  | array inner read ih =>
      obtain ⟨type, spelled, same, _, _, meaning⟩ := ih
      exact ⟨.array type _, .array spelled (constExpr?_kept read),
        by simp only [TypeExpr.tokens, same], rfl, rfl,
        fun Meaning language scope => by
          simp only [Language.type, meaning Meaning language scope]⟩
  | infer => exact ⟨.infer, .infer, rfl, rfl, rfl, fun _ _ _ => rfl⟩
  | object trait inner ih =>
      obtain ⟨bounds', spelled, same, sameKinds⟩ := ih
      have trait' := any_namesTrait_eq sameKinds
      exact ⟨.object true bounds' _, .object (trait'.trans trait) spelled,
        by simp only [TypeExpr.tokens, same], rfl, rfl,
        sameMeaning_object (by simp only [TypeExpr.tokens, same])⟩
  | existential trait inner ih =>
      obtain ⟨bounds', spelled, same, sameKinds⟩ := ih
      have trait' := any_namesTrait_eq sameKinds
      exact ⟨.existential bounds' _, .existential (trait'.trans trait) spelled,
        by simp only [TypeExpr.tokens, same], rfl, rfl,
        fun _ _ _ => by simp only [Language.type, TypeExpr.tokens, same]⟩
  | function bindings keyword calling inner result ihInner ihResult =>
      exact prints_function bindings calling ihInner ihResult
  | bareParam inner ih =>
      obtain ⟨type, spelled, same, _⟩ := ih
      exact ⟨type, .bareParam spelled, same⟩
  | namedParam word lone inner ih =>
      obtain ⟨type, spelled, same, _⟩ := ih
      exact ⟨type, .namedParam word .alone spelled, same⟩
  | noParams => exact ⟨[], .noParams, rfl⟩
  | furtherParams dots => exact ⟨[], .furtherParams dots.printed, rfl⟩
  | @lastParam _ param _ _ only ih =>
      obtain ⟨type, spelled, same⟩ := ih
      refine ⟨[⟨param.name, type⟩], ?_, ?_⟩
      · rw [paramLists, paramLists, separated_single, dotTokens, List.append_nil]
        exact .lastParam spelled
      · simp only [paramLists, Param.tokens_congr same]
  | @moreParams _ _ param _ _ _ _ _ _ _ _ head others ihHead ihOthers =>
      obtain ⟨type, spelled, same⟩ := ihHead
      obtain ⟨params', spelledOthers, sameOthers⟩ := ihOthers
      refine ⟨⟨param.name, type⟩ :: params', ?_, ?_⟩
      · rw [separated_params, ← isEmpty_of_paramLists sameOthers, List.append_assoc,
          List.cons_append]
        exact .moreParams spelled spelledOthers
      · simp only [paramLists, Param.tokens_congr same, sameOthers]

/-- Every type is read back from its own tokens, as a type with the same tokens. -/
theorem TypeExpr.ofTokens?_tokens {tokens : Tokens} {type : TypeExpr}
    (read : TypeExpr.ofTokens? tokens = some type) :
    ∃ type', TypeExpr.ofTokens? type.tokens = some type' ∧ type'.tokens = type.tokens := by
  obtain ⟨ending, spelled⟩ := TypeExpr.ofTokens?_eq_some_iff.mp read
  obtain ⟨type', spelled', same, _⟩ := spelled.prints
  exact ⟨type', TypeExpr.ofTokens?_eq_some_iff.mpr ⟨ending, spelled'⟩, same⟩

/-- A type with the same meaning is read back from the tokens of the type. -/
def TypeExpr.ReadsBack (type : TypeExpr) : Prop :=
  ∃ type', TypeExpr.ofTokens? type.tokens = some type' ∧ type'.SameMeaning type

theorem TypeExpr.readsBack_of_ofTokens? {tokens : Tokens} {type : TypeExpr}
    (read : TypeExpr.ofTokens? tokens = some type) : type.ReadsBack := by
  obtain ⟨ending, spelled⟩ := TypeExpr.ofTokens?_eq_some_iff.mp read
  obtain ⟨type', spelled', _, _, _, meaning⟩ := spelled.prints
  exact ⟨type', TypeExpr.ofTokens?_eq_some_iff.mpr ⟨ending, spelled'⟩, meaning⟩

end TypeConcepts
