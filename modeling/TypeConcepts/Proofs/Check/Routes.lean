import Mathlib.Data.List.Forall2
import TypeConcepts.Proofs.Check.TraitBound
import TypeConcepts.Proofs.Shape.Instance
import TypeConcepts.Proofs.Shape.Refilled

/-!
The two ways to ask for an instance of a shape: directly, and through a check whose leaf is the
concept `IsInstanceOf` with the shape for its argument. On the second way the shape is read and
printed before its holes are filled.
-/

namespace TypeConcepts

open TokenTree TypeReader Shape

namespace ShapeMatch

theorem stripComma_of_type {text : Tokens} {type : TypeExpr}
    (read : TypeExpr.ofTokens? text = some type) : stripComma text = text := by
  rcases List.eq_nil_or_concat' text with rfl | ⟨init, last, rfl⟩
  · rfl
  · have plain : isComma last = false := by
      unfold isComma
      split
      · rename_i spacing pos
        have scanned := TypeExpr.scan_ofTokens? read 0
        rw [scan_append] at scanned
        obtain ⟨⟨depth, dash⟩, _, closing⟩ := Option.bind_eq_some_iff.mp scanned
        simp only [scan, nesting] at closing
        split at closing <;> simp_all
      · rfl
    simp [stripComma, plain]

theorem stripComma_append {text closing : Tokens} {type : TypeExpr} {closed : Bool}
    (read : TypeExpr.ofTokens? text = some type) (comma : Marked ',' closed closing) :
    stripComma (text ++ closing) = text := by
  cases comma with
  | absent => rw [List.append_nil, stripComma_of_type read]
  | present => simp [stripComma, isComma]

/-- The subject is what is written before a comma, and the shape all that is written behind it. -/
theorem ofTokens?_append {source : Tokens} {subject : TypeExpr} {comma : TokenTree}
    (subjectRead : TypeExpr.ofTokens? source = some subject) (isComma : isComma comma = true)
    (shape : Tokens) :
    ShapeMatch.ofTokens? (source ++ comma :: shape) = some ⟨subject, stripComma shape⟩ := by
  unfold ShapeMatch.isComma at isComma
  split at isComma
  · rename_i spacing pos
    obtain ⟨ending, spelled⟩ := TypeExpr.ofTokens?_eq_some_iff.mp subjectRead
    have stops : StopsAt [','] (.punct ',' spacing pos :: shape) :=
      .punct (by decide) spacing pos shape
    have found := spelled.read_append (.punct (by decide) spacing pos shape)
      (Ending.fits_of_comma stops ending)
    simp only [ShapeMatch.ofTokens?, found, Option.bind_eq_bind, Option.bind_some, eat?, if_true]
  · cases isComma

/-- A shape that is a type is filled with the same parameters before and after it is printed, and
becomes the same path. -/
theorem exists_filled_printed {subject arg : TypeExpr} {text : Tokens} {shape : Filled}
    (read : TypeExpr.ofTokens? text = some arg) (direct : filled ⟨subject, text⟩ = .ok shape)
    (subject' : TypeExpr) :
    ∃ shape', filled ⟨subject', arg.tokens⟩ = .ok shape' ∧
      shape'.path.tokens = shape.path.tokens ∧
      List.Forall₂ Reprinted shape.holes shape'.holes := by
  obtain ⟨ending, spelled⟩ := TypeExpr.ofTokens?_eq_some_iff.mp read
  obtain ⟨value, ending', done, holes, spelledDone, alike, _⟩ := refills spelled 0
  obtain ⟨path, holes'⟩ := shape
  obtain ⟨done', taken, readDone⟩ := filled_eq_ok_iff.mp direct
  rw [alike.source.takeHoles_eq rfl] at taken
  cases taken
  rw [TypeExpr.ofTokens?_eq_some_iff.mpr ⟨ending', spelledDone⟩] at readDone
  cases readDone
  cases spelledDone with
  | pathType starts inner =>
      obtain ⟨path', again, same, _⟩ := PrintsSteps.path inner.prints
      have typed : Spelling (.type true (.path path')) ⟨true, false⟩ path.tokens :=
        .pathType (inner.head_of_path.startsType starts) again
      refine ⟨⟨path', holes.map Prod.snd⟩, filled_eq_ok_iff.mpr ⟨_, alike.print.takeHoles_eq rfl,
        TypeExpr.ofTokens?_eq_some_iff.mpr ⟨_, typed⟩⟩, same, ?_⟩
      rw [List.forall₂_map_left_iff, List.forall₂_map_right_iff, List.forall₂_same]
      exact alike.same

theorem header_eq {shape shape' : Filled} (same : shape'.path.tokens = shape.path.tokens)
    (reprinted : List.Forall₂ Reprinted shape.holes shape'.holes)
    (bare : ∀ hole ∈ shape.holes, hole.bounds = none) : shape'.header = shape.header := by
  have equal : shape'.holes = shape.holes := by
    generalize shape.holes = holes at reprinted bare
    generalize shape'.holes = holes' at reprinted
    induction reprinted with
    | nil => rfl
    | cons first rest ih =>
        obtain ⟨head, tail⟩ := List.forall_mem_cons.mp bare
        rw [ih tail]
        cases first with
        | same => rfl
        | type => cases head
        | dots => cases head
  rw [Filled.header, Filled.header, equal, same]

end ShapeMatch

/-! ### Shapes as arguments of a concept -/

theorem Formula.Derives.read_of_leaf {α : Type} {type : Reader α} {tokens rest : Tokens} {value : α}
    (derivation : Derives (.ofTypes type) .alternatives tokens (.leaf value) rest)
    (starts : StartsLeaf tokens) : type tokens = some (value, rest) := by
  cases derivation with
  | factors only =>
      cases only with
      | operand only =>
          cases only with
          | group whole => exact absurd rfl (starts.2 _ _ _)
          | leaf found => exact found.2

theorem Check.ofTokens?_leaf_iff {source bound : Tokens} {colon : TokenTree}
    {subject leaf : TypeExpr} (subjectRead : TypeExpr.ofTokens? source = some subject)
    (lone : Lone ':' ':' (colon :: bound) bound) (starts : Formula.StartsLeaf bound)
    (noComma : ∀ text spacing pos, bound ≠ text ++ [.punct ',' spacing pos]) :
    Check.ofTokens? (source ++ colon :: bound) = some [⟨subject, .leaf leaf⟩] ↔
      TypeExpr.ofTokens? bound = some leaf := by
  constructor
  · intro accepted
    obtain ⟨ending, spelled⟩ := TypeExpr.ofTokens?_eq_some_iff.mp subjectRead
    have found := spelled.read_append (.lone lone) (Ending.fits_lone lone ending)
    have derived : ∀ {rest}, Derives TypeExpr.read (source ++ colon :: bound)
        ⟨subject, .leaf leaf⟩ rest → TypeExpr.read bound = some (leaf, rest) := by
      rintro rest ⟨first, second⟩
      rw [found] at first
      cases first
      exact second.read_of_leaf starts
    cases (readAll_eq_some_iff (fun _ _ _ => TypeExpr.suffix_of_read) _ _).1.mp accepted with
    | last only => rw [TypeExpr.ofTokens?, whole?, derived only]
    | closed only =>
        obtain ⟨text, same⟩ := TypeExpr.suffix_of_read (derived only)
        exact absurd same.symm (noComma text _ _)
    | more first others => cases others
  · intro read
    exact ofTokens?_of_leaf subjectRead lone starts (eq_some_of_whole? read)

section Leaf

variable {text : Tokens} {arg : TypeExpr} {closed : Bool}

def instanceLeaf (start : Nat) (closed : Bool) (shape : TypeExpr) : TypeExpr :=
  .path ⟨start, false, [⟨"IsInstanceOf", .angle false [.type shape] closed⟩]⟩

theorem Spelling.args_singleton {ending : Ending} {tokens : Tokens}
    (spelled : Spelling (.args [.type arg] closed) ending tokens) :
    ∃ body closing spacing pos, tokens = body ++ closing ++ [.punct '>' spacing pos] ∧
      TypeExpr.ofTokens? body = some arg ∧ Marked ',' closed closing := by
  cases spelled with
  | lastArg only =>
      cases only with
      | typeArg inner =>
          exact ⟨_, [], _, _, by rw [List.append_nil],
            TypeExpr.ofTokens?_eq_some_iff.mpr ⟨_, inner⟩, .absent⟩
  | moreArgs first others =>
      cases first with
      | typeArg inner =>
          cases others with
          | closeArgs =>
              exact ⟨_, [_], _, _, (List.append_assoc _ [_] [_]).symm,
                TypeExpr.ofTokens?_eq_some_iff.mpr ⟨_, inner⟩, .present⟩

theorem ofTokens?_instanceLeaf_iff (start opening ending : Nat) (spacing spacing' : Spacing) :
    TypeExpr.ofTokens? (.ident "IsInstanceOf" start :: .punct '<' spacing opening ::
        (text ++ [.punct '>' spacing' ending])) = some (instanceLeaf start closed arg) ↔
      ∃ body closing, text = body ++ closing ∧ TypeExpr.ofTokens? body = some arg ∧
        Marked ',' closed closing := by
  constructor
  · intro read
    obtain ⟨last, spelled⟩ := TypeExpr.ofTokens?_eq_some_iff.mp read
    rw [instanceLeaf] at spelled
    generalize same : _ :: _ :: (text ++ _) = tokens at spelled
    cases spelled with
    | pathType starts inner =>
        cases inner with
        | path root steps =>
            cases root
            cases steps with
            | moreSteps first others => cases others
            | lastStep only =>
                cases only with
                | openSegment word turbofish inner =>
                    cases turbofish
                    obtain ⟨body, closing, _, _, rfl, read, comma⟩ := inner.args_singleton
                    simp only [List.nil_append, List.cons.injEq] at same
                    obtain ⟨_, _, same⟩ := same
                    exact ⟨body, closing, (List.append_inj_left' same rfl), read, comma⟩
  · rintro ⟨body, closing, rfl, read, comma⟩
    obtain ⟨last, spelled⟩ := TypeExpr.ofTokens?_eq_some_iff.mp read
    have args : Spelling (.args [.type arg] closed) .shut
        (body ++ closing ++ [.punct '>' spacing' ending]) := by
      rw [List.append_assoc]
      cases comma with
      | absent => exact .lastArg (.typeArg spelled)
      | present => exact .moreArgs (.typeArg spelled) .closeArgs
    exact TypeExpr.ofTokens?_eq_some_iff.mpr ⟨_, .pathType (.name (by decide))
      (.path .absent (.lastStep (.openSegment (.inr (by decide)) .absent args)))⟩

theorem ofType_instanceLeaf (start : Nat) :
    ConceptRef.ofType (instanceLeaf start closed arg) = .ok (some ⟨.instanceOf, [arg]⟩) := by
  have concept : Concept.ofName? "IsInstanceOf" = some .instanceOf := by decide
  simp only [instanceLeaf, ConceptRef.ofType, ConceptRef.ofPath, List.getLast?_singleton, concept]
  rfl

theorem expandChecks_instanceLeaf (subject : TypeExpr) (start : Nat) :
    expandChecks [⟨subject, .leaf (instanceLeaf start closed arg)⟩] =
      .ok [delimited .paren (pathSep ++ [word "tola_concepts"] ++ pathSep ++
        [word "is_instance_of", mark '!',
          delimited .paren (subject.tokens ++ mark ',' :: arg.tokens)])] := by
  have predicate : Concept.predicate .instanceOf = "is_instance_of" := by decide
  have leaf : expandLeaf subject (instanceLeaf start closed arg) =
      .ok (predicateCall "is_instance_of" subject.tokens [arg.tokens]) := by
    rw [expandLeaf, ofType_instanceLeaf, ← predicate]
    rfl
  simp only [expandChecks, expandEach, Check.expand, Formula.expand, leaf, predicateCall,
    List.flatMap_singleton]
  rfl

end Leaf

namespace Check

/-- The two ways agree on every shape that is a type, with or without a comma behind it, and on no
other. Then the check has the shape for its single leaf and becomes a call with the printed subject
and shape. The call is filled with as many parameters of the same names as the direct one, and
becomes the same path. A hole that names a parameter of a function type is bounded by the type or
the dots behind it, which come back as they are printed; all other bounds come back as they were. -/
theorem isInstanceOf_agrees {source text : Tokens} {subject : TypeExpr} {comma : TokenTree}
    {request : ShapeMatch} {shape : ShapeMatch.Filled}
    (subjectRead : TypeExpr.ofTokens? source = some subject)
    (isComma : ShapeMatch.isComma comma = true)
    (direct : ShapeMatch.ofTokens? (source ++ comma :: text) = some request)
    (filled : request.filled = .ok shape) (arg : TypeExpr) (closed : Bool)
    (spacing opened shut : Spacing) (colon start opening ending : Nat) :
    let check := source ++ .punct ':' spacing colon :: .ident "IsInstanceOf" start ::
      .punct '<' opened opening :: (text ++ [.punct '>' shut ending])
    let leaf := instanceLeaf start closed arg
    let asked := subject.tokens ++ mark ',' :: arg.tokens
    (Check.ofTokens? check = some [⟨subject, .leaf leaf⟩] ↔
      ∃ body closing, text = body ++ closing ∧ TypeExpr.ofTokens? body = some arg ∧
        Marked ',' closed closing) ∧
    (Check.ofTokens? check = some [⟨subject, .leaf leaf⟩] →
      expandChecks [⟨subject, .leaf leaf⟩] =
          .ok [delimited .paren (pathSep ++ [word "tola_concepts"] ++ pathSep ++
            [word "is_instance_of", mark '!', delimited .paren asked])] ∧
        ∃ request' shape', ShapeMatch.ofTokens? asked = some request' ∧
          request'.subject.tokens = request.subject.tokens ∧
          request'.filled = .ok shape' ∧
          shape'.path.tokens = shape.path.tokens ∧
          List.Forall₂ Reprinted shape.holes shape'.holes ∧
          ((∀ hole ∈ shape.holes, hole.bounds = none) →
            shape'.header = shape.header ∧ request'.expand = request.expand)) := by
  intro check leaf asked
  have accepted : Check.ofTokens? check = some [⟨subject, .leaf leaf⟩] ↔
      ∃ body closing, text = body ++ closing ∧ TypeExpr.ofTokens? body = some arg ∧
        Marked ',' closed closing := by
    have lone : ∀ rest, Lone ':' ':'
        (.punct ':' spacing colon :: .ident "IsInstanceOf" start :: rest)
        (.ident "IsInstanceOf" start :: rest) := by
      intro rest
      cases spacing with
      | alone => exact .alone
      | joint => exact .joint nofun
    refine (ofTokens?_leaf_iff subjectRead (lone _) ⟨nofun, nofun⟩ ?_).trans
      (ofTokens?_instanceLeaf_iff start opening ending opened shut)
    intro front spacing' pos same
    have last := congrArg List.getLast? same
    simp [List.getLast?_cons] at last
  refine ⟨accepted, fun read => ?_⟩
  obtain ⟨body, closing, rfl, shapeRead, ends⟩ := accepted.mp read
  rw [ShapeMatch.ofTokens?_append subjectRead isComma, ShapeMatch.stripComma_append shapeRead ends,
    Option.some_inj] at direct
  subst direct
  obtain ⟨subject', subjectAgain, sameSubject⟩ := TypeExpr.ofTokens?_tokens subjectRead
  obtain ⟨_, shapeAgain, _⟩ := TypeExpr.ofTokens?_tokens shapeRead
  obtain ⟨shape', filled', samePath, reprinted⟩ :=
    ShapeMatch.exists_filled_printed shapeRead filled subject'
  have again : ShapeMatch.ofTokens? asked = some ⟨subject', arg.tokens⟩ := by
    rw [ShapeMatch.ofTokens?_append subjectAgain rfl, ShapeMatch.stripComma_of_type shapeAgain]
  refine ⟨expandChecks_instanceLeaf subject start, _, shape', again, sameSubject, filled', samePath,
    reprinted, fun bare => ?_⟩
  have header := ShapeMatch.header_eq samePath reprinted bare
  refine ⟨header, ?_⟩
  simp only [ShapeMatch.expand, filled, filled', header, sameSubject]

/-- The text `Option<u8>: IsInstanceOf<Option<_>>`, and `Option<u8>, Option<_>`. -/
theorem isInstanceOf_agrees_option :
    Check.ofTokens? [word "Option", mark '<', word "u8", mark '>', mark ':', word "IsInstanceOf",
        mark '<', word "Option", mark '<', word "_", mark '>', mark '>'] =
      some [⟨.path ⟨0, false, [⟨"Option", .angle false [.type (.path ⟨0, false, [⟨"u8", .none⟩]⟩)]
          false⟩]⟩,
        .leaf (instanceLeaf 0 false (.path ⟨0, false, [⟨"Option", .angle false [.type .infer]
          false⟩]⟩))⟩] ∧
    ∃ request' shape', ShapeMatch.ofTokens? [word "Option", mark '<', word "u8", mark '>', mark ',',
        word "Option", mark '<', word "_", mark '>'] = some request' ∧
      request'.filled = .ok shape' ∧
      shape'.path.tokens = [word "Option", mark '<', word "__S0", mark '>'] ∧
      shape'.header = [word "impl", mark '<', word "__S0", mark '>', word "__Probe", mark '<',
        word "Option", mark '<', word "__S0", mark '>', mark '>'] := by
  have agrees := @isInstanceOf_agrees [word "Option", mark '<', word "u8", mark '>']
    [word "Option", mark '<', word "_", mark '>']
    (.path ⟨0, false, [⟨"Option", .angle false [.type (.path ⟨0, false, [⟨"u8", .none⟩]⟩)] false⟩]⟩)
    (mark ',') _
    ⟨⟨0, false, [⟨"Option", .angle false [.type (.path ⟨0, false, [⟨"__S0", .none⟩]⟩)] false⟩]⟩,
      [⟨"__S0", none⟩]⟩
    rfl rfl rfl rfl (.path ⟨0, false, [⟨"Option", .angle false [.type .infer] false⟩]⟩) false
    .alone .alone .alone 0 0 0 0
  have accepted := agrees.1.mpr ⟨_, [], (List.append_nil _).symm, rfl, .absent⟩
  obtain ⟨_, request', shape', asked, _, filled, path, _, same⟩ := agrees.2 accepted
  exact ⟨accepted, request', shape', asked, filled, path, (same (by simp)).1⟩

/-- The shape `Option<_: Copy>` is matched directly, and no argument of a concept. For the shape
`Option<fn(_: A<B, 'a>)>` both ways are open; the hole is bounded by `A<B, 'a>` on the one and by
`A<'a, B,>` on the other. -/
theorem bounded_hole_refused :
    (∃ request shape,
      ShapeMatch.ofTokens? [word "u8", mark ',', word "Option", mark '<', word "_", mark ':',
        word "Copy", mark '>'] = some request ∧ request.filled = .ok shape ∧
      shape.holes = [⟨"__S0", some [word "Copy"]⟩]) ∧
    Check.ofTokens? [word "u8", mark ':', word "IsInstanceOf", mark '<', word "Option", mark '<',
      word "_", mark ':', word "Copy", mark '>', mark '>'] = none ∧
    (∃ request shape,
      ShapeMatch.ofTokens? ([word "u8", mark ',', word "Option", mark '<', word "fn",
        delimited .paren ([word "_", mark ':', word "A", mark '<', word "B", mark ','] ++
          lifetime "a" ++ [mark '>']), mark '>']) = some request ∧
      request.filled = .ok shape ∧
      shape.holes = [⟨"__S0", some ([word "A", mark '<', word "B", mark ','] ++
        lifetime "a" ++ [mark '>'])⟩]) ∧
    ∃ checks asked request shape,
      Check.ofTokens? [word "u8", mark ':', word "IsInstanceOf", mark '<', word "Option", mark '<',
        word "fn", delimited .paren ([word "_", mark ':', word "A", mark '<', word "B", mark ','] ++
          lifetime "a" ++ [mark '>']), mark '>', mark '>'] = some checks ∧
      expandChecks checks = .ok [delimited .paren (pathSep ++ [word "tola_concepts"] ++ pathSep ++
        [word "is_instance_of", mark '!', delimited .paren asked])] ∧
      ShapeMatch.ofTokens? asked = some request ∧ request.filled = .ok shape ∧
      shape.holes = [⟨"__S0", some ([word "A", mark '<'] ++ lifetime "a" ++
        [mark ',', word "B", mark ',', mark '>'])⟩] :=
  ⟨⟨_, _, rfl, rfl, rfl⟩, rfl, ⟨_, _, rfl, rfl, rfl⟩, ⟨_, _, _, _, rfl, rfl, rfl, rfl, rfl⟩⟩

end Check

end TypeConcepts
