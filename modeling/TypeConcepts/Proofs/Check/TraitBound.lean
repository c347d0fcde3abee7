import TypeConcepts.Proofs.Check.Complaint
import TypeConcepts.Proofs.Check.Leaf

/-!
Asking about a trait bound: which bounds the front end takes behind a subject and a colon.

A leaf is read as a type, while the probe uses it as a bound. The two grammars agree on the text of
a path but for two things that only a bound may have: arguments in parentheses at its end, and the
word `try` at its head.
-/

namespace TypeConcepts

open TokenTree TypeReader

def PathArgs.isCall : PathArgs → Bool
  | .call .. => true
  | _ => false

def Path.endsInCall (path : Path) : Bool :=
  (path.segments.getLast?.map fun last => last.args.isCall).getD false

namespace Spelling

variable {ending : Ending} {tokens : Tokens}

theorem isCall_eq_false {segment : Segment} (spelled : Spelling (.segment segment) ending tokens) :
    segment.args.isCall = false := by
  cases spelled <;> rfl

theorem noCall_of_steps {segments : List Segment}
    (spelled : Spelling (.steps segments) ending tokens) :
    ∃ last, segments.getLast? = some last ∧ last.args.isCall = false := by
  generalize same : Phrase.steps segments = phrase at spelled
  induction spelled generalizing segments with
  | lastStep only =>
      cases same
      exact ⟨_, rfl, only.isCall_eq_false⟩
  | moreSteps first others _ ihOthers =>
      cases same
      obtain ⟨last, final, noCall⟩ := ihOthers rfl
      refine ⟨last, ?_, noCall⟩
      rw [List.getLast?_cons, final]
      rfl
  | _ => cases same

theorem endsInCall_eq_false {path : Path} (spelled : Spelling (.path path) ending tokens) :
    path.endsInCall = false := by
  cases spelled with
  | path root steps =>
      obtain ⟨last, final, noCall⟩ := steps.noCall_of_steps
      simp only [Path.endsInCall, final, Option.map_some, Option.getD_some, noCall]

/-- A path that a type is read as does not end in parentheses. -/
theorem endsInCall_of_type {plus : Bool} {path : Path}
    (spelled : Spelling (.type plus (.path path)) ending tokens) : path.endsInCall = false := by
  cases spelled with
  | pathType starts inner => exact inner.endsInCall_eq_false

end Spelling

theorem StartsPath.startsType {tokens : Tokens} (starts : StartsPath tokens)
    (noTry : word? "try" tokens = none) : StartsType tokens := by
  cases starts with
  | @word name pos rest word =>
      refine .name ?_
      rw [isSegmentWord, Bool.or_eq_true] at word
      rcases word with path | same
      · exact path
      · obtain rfl := beq_iff_eq.mp same
        cases noTry
  | colons => exact .mark (by decide)

theorem StartsPath.startsLeaf {tokens : Tokens} (starts : StartsPath tokens) :
    Formula.StartsLeaf tokens :=
  Formula.startsLeaf_iff.mpr ⟨starts.eat?_eq_none (by decide), by cases starts <;> rfl⟩

theorem TypeExpr.read_eq_none_of_try {tokens rest : Tokens}
    (found : word? "try" tokens = some rest) : TypeExpr.read tokens = none := by
  obtain ⟨pos, rfl⟩ := word?_eq_some_iff.mp found
  rfl

/-- Parenthesised arguments are left behind the path of a type. -/
theorem Spelling.read_before_call {path : Path} {ending : Ending} {doubleColon : Bool}
    {tokens colons : Tokens} (spelled : Spelling (.path path) ending tokens)
    (inner rest : Tokens) (pos : Nat) (starts : StartsType tokens)
    (turbofish : Colons doubleColon colons) :
    TypeExpr.read (tokens ++ (colons ++ .group .paren inner pos :: rest)) =
      some (.path path, colons ++ .group .paren inner pos :: rest) := by
  have ends : StepsEnd false (colons ++ .group .paren inner pos :: rest) := by
    cases turbofish with
    | absent => exact ⟨rfl, .inl rfl, nofun⟩
    | present => exact ⟨rfl, .inr ⟨_, _, _, rfl⟩, nofun⟩
  have bang : single? '!' ['!', '='] (colons ++ .group .paren inner pos :: rest) = none := by
    cases turbofish <;> rfl
  have plus : eat? ['+'] (colons ++ .group .paren inner pos :: rest) = none := by
    cases turbofish <;> rfl
  have found := spelled.reads (sizes (tokens ++ (colons ++ .group .paren inner pos :: rest))) _
    (by rw [sizes_append]; omega) ends
  change (rounds _).typeStep true _ = _
  exact (typeStep_path .absent starts spelled.begins nofun).trans
    (pathType_end none found bang fun _ => plus)

theorem ConceptRef.isCall_of_notFunctionLike {concept : Concept} {segment : Segment}
    {name : String} {pos pos' : Nat}
    (failed : ofSegment concept pos segment = .error (.notFunctionLike name pos')) :
    segment.args.isCall = true := by
  obtain ⟨segmentName, args⟩ := segment
  rw [ofSegment] at failed
  split at failed
  · rename_i complaint listed
    cases failed
    cases operands_eq_error_iff.mp listed with
    | call => rfl
  · split at failed
    · cases failed
    · unfold countComplaint at failed
      split at failed <;> cases failed

theorem TraitBound.exists_spelling_of_plain {bound : Tokens} {path : Path}
    (read : TraitBound.ofTokens? bound = some ⟨false, false, none, path⟩) :
    ∃ ending, Spelling (.traitPath path) ending bound := by
  obtain ⟨_, ending, spelled⟩ := TraitBound.ofTokens?_eq_some_iff.mp read
  cases spelled with
  | traitBound mark bindings inner =>
      cases mark
      cases bindings
      exact ⟨ending, inner⟩

/-! ### A subject and a bound -/

namespace Check

section Single

variable {source bound rest : Tokens} {colon : TokenTree} {subject : TypeExpr}

theorem read_eq_bind (subjectRead : TypeExpr.ofTokens? source = some subject)
    (lone : Lone ':' ':' (colon :: bound) bound) :
    read TypeExpr.read (source ++ colon :: bound) =
      (Formula.read TypeExpr.read bound).map fun (formula, rest) => (⟨subject, formula⟩, rest) := by
  obtain ⟨ending, spelled⟩ := TypeExpr.ofTokens?_eq_some_iff.mp subjectRead
  have found := spelled.read_append (.lone lone) (Ending.fits_lone lone ending)
  have taken : eat? [':'] (colon :: bound) = some bound :=
    (single?_eq_some_iff.mp (single?_pair_iff.mpr lone)).2
  simp only [read, found, taken, Option.bind_eq_bind, Option.bind_some]
  cases Formula.read TypeExpr.read bound <;> rfl

theorem ofTokens?_of_leaf {leaf : TypeExpr} (subjectRead : TypeExpr.ofTokens? source = some subject)
    (lone : Lone ':' ':' (colon :: bound) bound) (starts : Formula.StartsLeaf bound)
    (found : TypeExpr.read bound = some (leaf, [])) :
    Check.ofTokens? (source ++ colon :: bound) = some [⟨subject, .leaf leaf⟩] := by
  have formula : Formula.read TypeExpr.read bound = some (.leaf leaf, []) :=
    Formula.read_leaf (fun _ _ _ => TypeExpr.suffix_of_read) starts found rfl rfl
  have whole := read_eq_bind subjectRead lone
  rw [formula, Option.map_some] at whole
  have nonempty : source ++ colon :: bound ≠ [] := by simp
  obtain ⟨tree, others, same⟩ := List.exists_cons_of_ne_nil nonempty
  rw [same] at nonempty whole ⊢
  have listed := @commaList_of_last _ _ _ others.length _ nonempty whole
  simp only [Check.ofTokens?, readAll, List.length_cons, listed, Option.map_some]

theorem ofTokens?_eq_none (subjectRead : TypeExpr.ofTokens? source = some subject)
    (lone : Lone ':' ':' (colon :: bound) bound)
    (stuck : ∀ formula rest, Formula.read TypeExpr.read bound = some (formula, rest) →
      rest ≠ [] ∧ eat? [','] rest = none) :
    Check.ofTokens? (source ++ colon :: bound) = none := by
  have whole := read_eq_bind subjectRead lone
  have nonempty : source ++ colon :: bound ≠ [] := by simp
  obtain ⟨tree, others, same⟩ := List.exists_cons_of_ne_nil nonempty
  rw [same] at whole ⊢
  cases formula : Formula.read TypeExpr.read bound with
  | none =>
      rw [formula, Option.map_none] at whole
      simp only [Check.ofTokens?, readAll, List.length_cons, commaList, whole,
        Option.bind_eq_bind, Option.bind_none, Option.map_none]
  | some result =>
      obtain ⟨value, rest⟩ := result
      obtain ⟨more, noComma⟩ := stuck value rest formula
      rw [formula, Option.map_some] at whole
      obtain ⟨next, after, rfl⟩ := List.exists_cons_of_ne_nil more
      simp only [Check.ofTokens?, readAll, List.length_cons, commaList, whole, noComma,
        Option.bind_eq_bind, Option.bind_some, Option.bind_none, Option.map_none]

end Single

/-- No accepted request draws the complaint that a concept is no function-like trait: the path of a
type never has its arguments in parentheses. -/
theorem functionLike_of_ofTokens? {tokens : Tokens} {checks : List (Check TypeExpr)}
    (accepted : Check.ofTokens? tokens = some checks) (concept : String) (pos : Nat) :
    expandChecks checks ≠ .error (.notFunctionLike concept pos) := by
  intro failed
  obtain ⟨check, member, leaf, leafMember, complaint⟩ := exists_leaf_of_expandChecks_eq_error failed
  obtain ⟨text, rest, _, found⟩ := isLeaf_of_ofTokens? accepted check member leaf leafMember
  obtain ⟨ending, source, _, spelled, _⟩ := (sound_rounds _).type true _ _ _ found
  cases leaf with
  | path path =>
      have noCall := spelled.endsInCall_of_type
      simp only [ConceptRef.ofType, ConceptRef.ofPath] at complaint
      split at complaint
      · cases complaint
      · rename_i last final
        split at complaint
        · cases complaint
        · rename_i concept' _
          cases segment : ConceptRef.ofSegment concept' path.pos last with
          | ok ref =>
              rw [segment] at complaint
              cases complaint
          | error other =>
              rw [segment] at complaint
              cases complaint
              have call := ConceptRef.isCall_of_notFunctionLike segment
              simp only [Path.endsInCall, final, Option.map_some, Option.getD_some, call] at noCall
              cases noCall
  | _ => cases complaint

theorem expandChecks_of_noConcept {subject : TypeExpr} {path : Path}
    (noConcept : (path.segments.getLast?.bind fun last => Concept.ofName? last.name) = none) :
    expandChecks [⟨subject, .leaf (.path path)⟩] =
      .ok [delimited .paren [boundProbe path.tokens subject.tokens]] := by
  have refers : ConceptRef.ofType (.path path) = .ok none := by
    simp only [ConceptRef.ofType, ConceptRef.ofPath]
    cases final : path.segments.getLast? with
    | none => rfl
    | some last =>
        rw [final, Option.bind_some] at noConcept
        simp only [noConcept]
  have leaf : expandLeaf subject (.path path) = .ok [boundProbe path.tokens subject.tokens] := by
    rw [expandLeaf, refers]
    rfl
  simp only [expandChecks, expandEach, expand, Formula.expand, leaf]
  rfl

/-- The path of a type, unless it begins with `try`, is a request behind a subject and a colon. -/
theorem ofTokens?_of_path {source bound : Tokens} {colon : TokenTree} {subject : TypeExpr}
    {path : Path} {ending : Ending} (subjectRead : TypeExpr.ofTokens? source = some subject)
    (lone : Lone ':' ':' (colon :: bound) bound) (inner : Spelling (.path path) ending bound)
    (noTry : word? "try" bound = none) :
    Check.ofTokens? (source ++ colon :: bound) = some [⟨subject, .leaf (.path path)⟩] := by
  have starts : StartsPath bound := inner.begins
  have typed : Spelling (.type true (.path path)) ⟨true, false⟩ bound :=
    .pathType (starts.startsType noTry) inner
  have found := typed.read_append .nil (Ending.fits_nil _)
  rw [List.append_nil] at found
  exact ofTokens?_of_leaf subjectRead lone starts.startsLeaf found

theorem ofTokens?_of_try {source bound rest : Tokens} {colon : TokenTree} {subject : TypeExpr}
    (subjectRead : TypeExpr.ofTokens? source = some subject)
    (lone : Lone ':' ':' (colon :: bound) bound) (starts : StartsPath bound)
    (keyword : word? "try" bound = some rest) :
    Check.ofTokens? (source ++ colon :: bound) = none := by
  refine ofTokens?_eq_none subjectRead lone ?_
  intro formula rest read
  rw [Formula.read_eq_none starts.startsLeaf (TypeExpr.read_eq_none_of_try keyword)] at read
  cases read

/-- A path with parenthesised arguments is left in the middle, and no request ends there. -/
theorem ofTokens?_of_call {source text colons inner more : Tokens} {colon : TokenTree}
    {subject : TypeExpr} {path : Path} {ending : Ending} {doubleColon : Bool} {pos : Nat}
    (subjectRead : TypeExpr.ofTokens? source = some subject)
    (lone : Lone ':' ':' (colon :: (text ++ (colons ++ .group .paren inner pos :: more)))
      (text ++ (colons ++ .group .paren inner pos :: more)))
    (spelled : Spelling (.path path) ending text) (turbofish : Colons doubleColon colons) :
    Check.ofTokens? (source ++ colon :: (text ++ (colons ++ .group .paren inner pos :: more))) =
      none := by
  have starts : StartsPath (text ++ (colons ++ .group .paren inner pos :: more)) :=
    StartsPath.append spelled.begins _
  cases keyword : word? "try" (text ++ (colons ++ .group .paren inner pos :: more)) with
  | some rest => exact ofTokens?_of_try subjectRead lone starts keyword
  | none =>
      have begins : StartsType text :=
        startsType_of_append (starts.startsType keyword) spelled.begins
      have found := spelled.read_before_call inner more pos begins turbofish
      refine ofTokens?_eq_none subjectRead lone ?_
      intro formula rest read
      rw [Formula.read_leaf (fun _ _ _ => TypeExpr.suffix_of_read) starts.startsLeaf found
        (by cases turbofish <;> rfl) (by cases turbofish <;> rfl)] at read
      cases read
      cases turbofish <;> exact ⟨List.cons_ne_nil _ _, rfl⟩

/-- A subject and the path of a trait bound with a lone colon between them make a request for
exactly the paths that neither end in parenthesised arguments nor begin with `try`. The path is then
the single leaf, probed as a bound if its last name is no concept. The complaint about parenthesised
arguments is never drawn. -/
theorem ofTokens?_traitBound {source bound : Tokens} {colon : TokenTree} {subject : TypeExpr}
    {path : Path} (subjectRead : TypeExpr.ofTokens? source = some subject)
    (boundRead : TraitBound.ofTokens? bound = some ⟨false, false, none, path⟩)
    (lone : Lone ':' ':' (colon :: bound) bound) :
    (Check.ofTokens? (source ++ colon :: bound) =
      if path.endsInCall || (word? "try" bound).isSome then none
      else some [⟨subject, .leaf (.path path)⟩]) ∧
    ((path.segments.getLast?.bind fun last => Concept.ofName? last.name) = none →
      expandChecks [⟨subject, .leaf (.path path)⟩] =
        .ok [delimited .paren [boundProbe path.tokens subject.tokens]]) ∧
    ∀ tokens checks, Check.ofTokens? tokens = some checks → ∀ concept pos,
      expandChecks checks ≠ .error (.notFunctionLike concept pos) := by
  refine ⟨?_, expandChecks_of_noConcept, fun _ _ => functionLike_of_ofTokens?⟩
  obtain ⟨ending, spelled⟩ := TraitBound.exists_spelling_of_plain boundRead
  cases spelled with
  | plainTrait inner =>
      rw [inner.endsInCall_eq_false, Bool.false_or]
      cases keyword : word? "try" bound with
      | some rest => exact ofTokens?_of_try subjectRead lone inner.begins keyword
      | none => exact ofTokens?_of_path subjectRead lone inner keyword
  | @calledTrait pos rooted _ segments last args text _ _ _ _ inner yields turbofish called =>
      have call : Path.endsInCall ⟨pos, rooted, segments ++ [⟨last.name, args⟩]⟩ = true := by
        cases called
        simp [Path.endsInCall, PathArgs.isCall]
      rw [call, Bool.true_or, if_pos rfl]
      cases called with
      | call => exact ofTokens?_of_call subjectRead lone inner turbofish

/-- The text `String: AsRef<str>`. -/
theorem ofTokens?_traitBound_generic :
    Check.ofTokens? [word "String", mark ':', word "AsRef", mark '<', word "str", mark '>'] =
        some [⟨.path ⟨0, false, [⟨"String", .none⟩]⟩, .leaf (.path ⟨0, false,
          [⟨"AsRef", .angle false [.type (.path ⟨0, false, [⟨"str", .none⟩]⟩)] false⟩]⟩)⟩] ∧
      expandChecks [⟨.path ⟨0, false, [⟨"String", .none⟩]⟩, .leaf (.path ⟨0, false,
          [⟨"AsRef", .angle false [.type (.path ⟨0, false, [⟨"str", .none⟩]⟩)] false⟩]⟩)⟩] =
        .ok [delimited .paren [boundProbe [word "AsRef", mark '<', word "str", mark '>']
          [word "String"]]] := by
  have asked := @ofTokens?_traitBound [word "String"] [word "AsRef", mark '<', word "str", mark '>']
    (mark ':') (.path ⟨0, false, [⟨"String", .none⟩]⟩)
    ⟨0, false, [⟨"AsRef", .angle false [.type (.path ⟨0, false, [⟨"str", .none⟩]⟩)] false⟩]⟩
    rfl rfl .alone
  exact ⟨asked.1, asked.2.1 (by decide)⟩

/-- `Fn(u8)` and `SameAs(u8)` are trait bounds, and neither can be asked about: the one is not
probed, and the other draws no complaint. -/
theorem callable_bounds_refused :
    (TypeExpr.ofTokens? [word "u8"]).isSome = true ∧
      (TraitBound.ofTokens? [word "Fn", delimited .paren [word "u8"]]).isSome = true ∧
      (Check.ofTokens? [word "u8", mark ':', word "Fn", delimited .paren [word "u8"]]).isNone =
        true ∧
      Concept.ofName? "Fn" = none ∧
      (TraitBound.ofTokens? [word "SameAs", delimited .paren [word "u8"]]).isSome = true ∧
      (Check.ofTokens? [word "u8", mark ':', word "SameAs", delimited .paren [word "u8"]]).isNone =
        true ∧
      Concept.ofName? "SameAs" = some (.binary .sameAs) := by
  refine ⟨rfl, rfl, rfl, by decide, rfl, rfl, by decide⟩

end Check

end TypeConcepts
