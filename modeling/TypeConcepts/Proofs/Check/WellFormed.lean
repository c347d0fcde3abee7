import TypeConcepts.Proofs.Check.Leaf
import TypeConcepts.Proofs.Shape.Instance
import TypeConcepts.Proofs.Shape.HoleBounds
import TypeConcepts.Proofs.TypeExpr.Printed

/-!
Which of the fragments that an expansion takes over from its source are well-formed as bounds.

A leaf that is no concept is probed as a bound whatever kind of type it is, and the bounds of a hole
are cut out by their extent. Neither is read as bounds before the expansion is made.
-/

namespace TypeConcepts

open TokenTree TypeReader Shape

/-- The tokens are trait paths and lifetimes with a plus between them. -/
def DerivesBounds (tokens : Tokens) : Prop :=
  ∃ bounds trailing ending, Spelling (.bounds true bounds trailing) ending tokens

theorem derivesBounds_iff {tokens : Tokens} :
    DerivesBounds tokens ↔ (Bound.listOfTokens? tokens).isSome = true := by
  rw [Option.isSome_iff_exists]
  exact exists_congr fun _ => Bound.listOfTokens?_eq_some_iff.symm

/-- A path, or bounds without a keyword in front. -/
def TypeExpr.isSum : TypeExpr → Bool
  | .path _ => true
  | .object keyword _ _ => !keyword
  | _ => false

/-- The text begins with a trait bound without parentheses, of which the path is told apart. -/
inductive FirstTrait : Tokens → Prop
  | intro {relaxed : Bool} {binder : Option Binder} {path : Path} {ending : Ending}
      {question before front rest : Tokens} (mark : Marked '?' relaxed question)
      (bindings : Bindings binder before) (inner : Spelling (.path path) ending front)
      (ends : StepsEnd false rest) (plain : eat? ['!'] rest = none) :
      FirstTrait (question ++ (before ++ (front ++ rest)))

namespace Spelling

variable {ending : Ending} {tokens : Tokens}

theorem firstTrait_of_traitBound {bound : TraitBound}
    (spelled : Spelling (.traitBound bound) ending tokens) {more : Tokens}
    (ends : StepsEnd false more) (plain : eat? ['!'] more = none) :
    FirstTrait (tokens ++ more) := by
  cases spelled with
  | traitBound mark bindings inner =>
      simp only [List.append_assoc]
      cases inner with
      | plainTrait inner => exact .intro mark bindings inner ends plain
      | calledTrait inner yields turbofish called =>
          simp only [List.append_assoc]
          refine .intro mark bindings inner ?_ ?_
          · cases called with
            | call =>
                cases turbofish with
                | absent => exact ⟨rfl, .inl rfl, nofun⟩
                | present => exact ⟨rfl, .inr ⟨_, _, _, rfl⟩, nofun⟩
          · cases called with
            | call => cases turbofish <;> rfl

theorem first_of_bounds {plus trailing : Bool} {bounds : List Bound}
    (spelled : Spelling (.bounds plus bounds trailing) ending tokens) :
    (lifetime? tokens).isSome = true ∨ (group? .paren tokens).isSome = true ∨
      FirstTrait tokens := by
  have first : ∀ {bound : Bound} {ending : Ending} {text more : Tokens},
      Spelling (.bound bound) ending text → StepsEnd false more → eat? ['!'] more = none →
      (lifetime? (text ++ more)).isSome = true ∨ (group? .paren (text ++ more)).isSome = true ∨
        FirstTrait (text ++ more) := by
    intro bound ending text more only ends plain
    cases only with
    | lifetimeBound => exact .inl rfl
    | wrappedBound => exact .inr (.inl rfl)
    | plainBound _ inner => exact .inr (.inr (inner.firstTrait_of_traitBound ends plain))
  cases spelled with
  | oneBound only =>
      have whole := first only (Calm.nil.stepsEnd false) rfl
      rwa [List.append_nil] at whole
  | sum only others =>
      refine first only ((others.begins.elim ?_ ?_ : Calm _).stepsEnd false) ?_
      · rintro ⟨_, _, rfl⟩
        exact .nil
      · rintro ⟨spacing, pos, rest, rfl⟩
        exact .punct (by decide) spacing pos rest
      · rcases others.begins with ⟨_, _, rfl⟩ | ⟨spacing, pos, rest, rfl⟩ <;> rfl

end Spelling

theorem not_derivesBounds_invocation {path : Path} {ending : Ending} {tokens rest : Tokens}
    {spacing : Spacing} {pos : Nat} (spelled : Spelling (.path path) ending tokens) :
    ¬DerivesBounds (tokens ++ .punct '!' spacing pos :: rest) := by
  rintro ⟨bounds, trailing, ending, derived⟩
  have starts : StartsPath (tokens ++ .punct '!' spacing pos :: rest) :=
    StartsPath.append spelled.begins _
  have ends : StepsEnd false (.punct '!' spacing pos :: rest) :=
    ⟨rfl, .inl (eat?_eq_none_of_single rfl), nofun⟩
  have read := spelled.reads (sizes (tokens ++ .punct '!' spacing pos :: rest)) _
    (by rw [sizes_append]; omega) ends
  generalize same : tokens ++ .punct '!' spacing pos :: rest = text at derived starts read
  rcases derived.first_of_bounds with ticked | grouped | first
  · cases starts <;> cases ticked
  · cases starts <;> cases grouped
  · cases first with
    | @intro _ _ _ _ question before front after mark bindings inner ends' plain =>
        cases mark with
        | present => cases starts
        | absent =>
            cases bindings with
            | present =>
                cases starts with
                | word word => cases word
            | absent =>
                have again := inner.reads (sizes (front ++ after)) after
                  (by rw [sizes_append]; omega) ends'
                rw [List.nil_append, List.nil_append, again] at read
                cases read
                cases plain

theorem not_derivesBounds_binder {found : Binder} {before rest : Tokens}
    (bindings : Bindings (some found) before) (noPath : ¬StartsPath rest) :
    ¬DerivesBounds (before ++ rest) := by
  rintro ⟨bounds, trailing, ending, derived⟩
  have read := bindings.binder_eq rest
  have starts : ∃ pos more, before ++ rest = .ident "for" pos :: more := by
    cases bindings
    exact ⟨_, _, rfl⟩
  generalize before ++ rest = text at derived starts read
  obtain ⟨start, others, rfl⟩ := starts
  rcases derived.first_of_bounds with ticked | grouped | first
  · cases ticked
  · cases grouped
  · generalize same : TokenTree.ident "for" start :: others = text at first read
    cases first with
    | @intro _ binder _ _ question before front after mark bindings inner ends plain =>
        cases mark with
        | present => cases same
        | absent =>
            have path : StartsPath (front ++ after) := StartsPath.append inner.begins after
            rw [List.nil_append] at same read
            cases binder with
            | none =>
                cases bindings
                rw [List.nil_append] at same
                rw [← same] at path
                cases path with
                | word word => cases word
            | some other =>
                rw [bindings.binder_eq] at read
                cases read
                exact noPath path

theorem not_startsPath_function {safety convention rest : Tokens} {isUnsafe : Bool}
    {abi : Option (Option String)} {pos : Nat} (keyword : Keyword "unsafe" isUnsafe safety)
    (calling : Convention abi convention) :
    ¬StartsPath (safety ++ (convention ++ .ident "fn" pos :: rest)) := by
  intro starts
  cases keyword <;> cases calling <;> (cases starts with | word word => cases word)

theorem DerivesBounds.startsSum {tokens : Tokens} (derives : DerivesBounds tokens) :
    StartsSum tokens := by
  obtain ⟨bounds, trailing, ending, derived⟩ := derives
  exact derived.begins

theorem not_derivesBounds_of_word {name : String} {pos : Nat} {rest : Tokens}
    (noPath : isSegmentWord name = false) (noBinder : name ≠ "for") :
    ¬DerivesBounds (.ident name pos :: rest) := by
  intro derives
  cases derives.startsSum with
  | trait starts =>
      cases starts with
      | path starts =>
          cases starts with
          | word word => exact Bool.false_ne_true (noPath.symm.trans word)
      | binder => exact noBinder rfl

theorem not_derivesBounds_of_mark {char : Char} {spacing : Spacing} {pos : Nat} {rest : Tokens}
    (other : char ∉ ['?', '\'', ':']) : ¬DerivesBounds (.punct char spacing pos :: rest) := by
  intro derives
  cases derives.startsSum with
  | trait starts =>
      cases starts with
      | path starts =>
          cases starts
          exact other (by decide)
      | question => exact other (by decide)
  | lifetime => exact other (by decide)

theorem not_derivesBounds_of_bracket {inner rest : Tokens} {pos : Nat} :
    ¬DerivesBounds (.group .bracket inner pos :: rest) := by
  intro derives
  cases derives.startsSum with
  | trait starts =>
      cases starts with
      | path starts => cases starts

namespace Spelling

variable {ending : Ending} {text : Tokens} {leaf : TypeExpr}

theorem derivesBounds_printed {bounds : List Bound} {trailing : Bool}
    (spelled : Spelling (.bounds true bounds trailing) ending text) :
    DerivesBounds (separated '+' trailing (boundLists bounds)) := by
  obtain ⟨bounds', again, _⟩ := spelled.prints
  exact ⟨bounds', trailing, ending, again⟩

theorem derivesBounds_of_isSum (spelled : Spelling (.type true leaf) ending text)
    (ungrouped : group? .paren text = none) (sum : leaf.isSum = true) :
    DerivesBounds leaf.tokens := by
  cases spelled with
  | pathType starts inner =>
      have first := Spelling.plainBound rfl (.traitBound .absent .absent (.plainTrait inner))
      have found := (first.sum .noMore).derivesBounds_printed
      rwa [boundLists, boundLists, separated_single] at found
  | boundType bindings starts inner =>
      have first := Spelling.plainBound rfl (.traitBound .absent bindings (.plainTrait inner))
      exact (first.sum .noMore).derivesBounds_printed
  | sumType bindings starts named inner some others =>
      have first := Spelling.plainBound rfl (.traitBound .absent bindings (.plainTrait inner))
      exact (first.sum others).derivesBounds_printed
  | tickedType ticked trait inner => exact inner.derivesBounds_printed
  | parenSum | relaxedSum => cases ungrouped
  | _ => cases sum

theorem not_derivesBounds_of_isSum (spelled : Spelling (.type true leaf) ending text)
    (ungrouped : group? .paren text = none) (other : leaf.isSum = false) :
    ¬DerivesBounds leaf.tokens := by
  cases spelled with
  | invocation bindings starts named plain inner =>
      obtain ⟨_, spelled, same, _⟩ := PrintsSteps.path inner.prints
      exact not_derivesBounds_invocation spelled
  | @function _ _ binder _ _ _ _ _ _ _ _ _ _ _ _ _ _ bindings keyword calling inner result =>
      rw [TypeExpr.tokens, Signature.tokens_eq]
      cases binder with
      | some found =>
          exact not_derivesBounds_binder bindings.printed
            (not_startsPath_function (.printed "unsafe" _) calling.printed)
      | none =>
          cases keyword with
          | present => exact not_derivesBounds_of_word rfl (by decide)
          | absent => cases calling <;> exact not_derivesBounds_of_word rfl (by decide)
  | qualified | reference | pointer | never => exact not_derivesBounds_of_mark (by decide)
  | slice | array => exact not_derivesBounds_of_bracket
  | infer | object | existential => exact not_derivesBounds_of_word rfl (by decide)
  | parens | tickedParens | unit | tuple => cases ungrouped
  | pathType | boundType | sumType | tickedType | parenSum | relaxedSum => cases other

end Spelling

/-- The tokens of a leaf are bounds exactly if the leaf is a sum, a path alone included. -/
theorem Formula.IsLeaf.derivesBounds_iff {leaf : TypeExpr}
    (found : Formula.IsLeaf TypeExpr.read leaf) :
    DerivesBounds leaf.tokens ↔ leaf.isSum = true := by
  obtain ⟨tokens, rest, starts, read⟩ := found
  obtain ⟨ending, text, rfl, spelled, _⟩ := (sound_rounds _).type true _ _ _ read
  have ungrouped : group? .paren text = none := by
    have whole := (startsLeaf_iff.mp starts).2
    cases text with
    | nil => exact absurd rfl spelled.startsText.ne_nil
    | cons tree others =>
        cases tree with
        | group delimiter => cases delimiter <;> first | rfl | cases whole
        | _ => rfl
  cases sum : leaf.isSum with
  | true => exact iff_of_true (spelled.derivesBounds_of_isSum ungrouped sum) rfl
  | false =>
      exact iff_of_false (spelled.not_derivesBounds_of_isSum ungrouped sum) Bool.false_ne_true

namespace ShapeMatch

theorem filled_of_scan (subject : TypeExpr) {name : String} (named : isName name = true)
    {inside : Tokens} (scanned : scan 0 false inside = some (0, false)) :
    ∃ path, filled ⟨subject, word name :: mark '<' :: word "_" :: mark ':' ::
      (inside ++ [mark '>'])⟩ = .ok ⟨path, [⟨parameter 0, some inside⟩]⟩ := by
  have notBlank : name ≠ "_" := ne_of_isPathWord (isPathWord_of_opens (.inr named)) rfl
  have lone : Lone ':' ':' (mark ':' :: inside) inside := .alone
  have closing : Fills (fun _ => True) 1 [mark '>'] [mark '>'] [] :=
    Fills.nil.mark '>' (by decide) .alone 0
  have hole := (Fills.bounded 0 scanned lone).append closing
    fun rest _ => .punct (by decide) .alone 0 rest
  have taken := ((hole.mark '<' (by decide) .alone 0).name notBlank 0).takeHoles_eq trivial
  have filledHole : Spells .parameters (.element (.hole (parameter 0))) [word (parameter 0)] :=
    .plain (.hole ⟨⟨0, rfl⟩, rfl⟩)
  have parameters : SpellsPath .parameters (.path false [⟨name, [.hole (parameter 0)]⟩])
      [word name, mark '<', word (parameter 0), mark '>'] :=
    .plain (.lastStep (.openStep (.inr named) .absent (.lastArgument (.argument filledHole))))
  obtain ⟨path, read, _⟩ := parameters.read
  exact ⟨path, filled_eq_ok_iff.mpr ⟨_, taken, read⟩⟩

end ShapeMatch

/-! ### What an expansion takes over -/

/-- A leaf that is no concept is probed as a bound whatever type it is, and its tokens are bounds
exactly if it is a path or a sum without a keyword. The bounds of the parameters of a shape are the
ones written at its holes, so they are bounds exactly where those are; none that close what they
open are refused. -/
theorem derivesBounds_of_expansion (tokens : Tokens) (request : ShapeMatch) (subject : TypeExpr) :
    (∀ checks, Check.ofTokens? tokens = some checks →
      ∀ check ∈ checks, ∀ leaf ∈ check.formula.leaves, ConceptRef.ofType leaf = .ok none →
        expandLeaf check.subject leaf = .ok [boundProbe leaf.tokens check.subject.tokens] ∧
          (DerivesBounds leaf.tokens ↔ leaf.isSum = true)) ∧
    (∀ shape, request.filled = .ok shape →
      request.expand =
          .ok [probeBlock "__InstanceOfFallback" shape.header request.subject.tokens] ∧
        ∀ written, HoleBounds false request.shape written → shape.holes.map Hole.bounds = written) ∧
    ∀ name inside, isName name = true → scan 0 false inside = some (0, false) →
      ∃ path, ShapeMatch.filled ⟨subject, word name :: mark '<' :: word "_" :: mark ':' ::
        (inside ++ [mark '>'])⟩ = .ok ⟨path, [⟨parameter 0, some inside⟩]⟩ := by
  refine ⟨?_, ?_, fun _ _ named => ShapeMatch.filled_of_scan subject named⟩
  · intro checks accepted check among leaf member noConcept
    have isLeaf := Check.isLeaf_of_ofTokens? accepted check among leaf member
    refine ⟨?_, isLeaf.derivesBounds_iff⟩
    rw [expandLeaf, noConcept]
  · intro shape filled
    refine ⟨by rw [ShapeMatch.expand, filled], fun written found => ?_⟩
    obtain ⟨done, taken, _⟩ := ShapeMatch.filled_eq_ok_iff.mp filled
    rw [← holeBounds_iff.mp found, taken]

/-- The text `u8: Clone` for a leaf, and `Option<_: Copy>` for a shape. -/
theorem derivesBounds_of_expansion_clone :
    DerivesBounds [word "Clone"] ∧
      ∃ path, ShapeMatch.filled ⟨.path ⟨0, false, [⟨"u8", .none⟩]⟩,
        [word "Option", mark '<', word "_", mark ':', word "Copy", mark '>']⟩ =
          .ok ⟨path, [⟨"__S0", some [word "Copy"]⟩]⟩ := by
  obtain ⟨leaves, _, holes⟩ := derivesBounds_of_expansion [word "u8", mark ':', word "Clone"]
    ⟨.path ⟨0, false, [⟨"u8", .none⟩]⟩, []⟩ (.path ⟨0, false, [⟨"u8", .none⟩]⟩)
  have clone := leaves
    [⟨.path ⟨0, false, [⟨"u8", .none⟩]⟩, .leaf (.path ⟨0, false, [⟨"Clone", .none⟩]⟩)⟩] rfl _
    (List.mem_singleton_self _) _ (List.mem_singleton_self _) rfl
  exact ⟨clone.2.mpr rfl, holes "Option" [word "Copy"] (by decide) rfl⟩

/-- `u8: [A]` is probed with `[A]` as a bound, and `Option<_: 3>` makes `3` the bounds of a
parameter. Neither derives bounds. -/
theorem underivable_bounds_spliced :
    (Check.ofTokens? [word "u8", mark ':', delimited .bracket [word "A"]]).map expandChecks =
        some (.ok [delimited .paren [boundProbe [delimited .bracket [word "A"]] [word "u8"]]]) ∧
      ¬DerivesBounds [delimited .bracket [word "A"]] ∧
      (∃ path, (ShapeMatch.ofTokens? [word "u8", mark ',', word "Option", mark '<', word "_",
        mark ':', .literal "3" 0, mark '>']).map ShapeMatch.filled =
          some (.ok ⟨path, [⟨"__S0", some [.literal "3" 0]⟩]⟩)) ∧
      ¬DerivesBounds [.literal "3" 0] := by
  refine ⟨rfl, ?_, ⟨_, rfl⟩, ?_⟩
  · rw [derivesBounds_iff]
    decide
  · rw [derivesBounds_iff]
    decide

end TypeConcepts
