import TypeConcepts.Proofs.TypeExpr.Grammar

/-!
Where one text meets the next: what may stand behind a text so that no reader takes it for a part of
the text, and what the beginning of a text keeps the readers from taking it for.
-/

namespace TypeConcepts

open TokenTree TypeReader

/-- Behind a path stands no further segment, and at most a double colon before a parenthesis. -/
def Stopped (tokens : Tokens) : Prop :=
  eat? [':', ':'] tokens = none ∨
    ∃ inner pos rest, eat? [':', ':'] tokens = some (.group .paren inner pos :: rest)

/-- Nothing comes next that continues a type, a bound or a path, unless its own ending asks for it.
-/
structure Calm (rest : Tokens) : Prop where
  opening : eat? ['<'] rest = none
  colons : eat? [':', ':'] rest = none
  bang : single? '!' ['!', '='] rest = none
  arrow : eat? ['-', '>'] rest = none
  group : group? .paren rest = none

namespace Calm

theorem nil : Calm [] := ⟨rfl, rfl, rfl, rfl, rfl⟩

theorem ident (name : String) (pos : Nat) (rest : Tokens) : Calm (.ident name pos :: rest) :=
  ⟨rfl, rfl, rfl, rfl, rfl⟩

theorem punct {char : Char} (plain : char ∉ ['<', ':', '!', '-']) (spacing : Spacing) (pos : Nat)
    (rest : Tokens) : Calm (.punct char spacing pos :: rest) := by
  simp only [List.mem_cons, List.not_mem_nil, or_false, not_or] at plain
  obtain ⟨notOpening, notColon, notBang, notDash⟩ := plain
  have other : ∀ {mark : Char} {more : List Char}, char ≠ mark →
      eat? (mark :: more) (.punct char spacing pos :: rest) = none := by
    intro mark more different
    refine eat?_eq_none_of_single ?_
    simp only [eat?, different, if_false]
  refine ⟨other notOpening, other notColon, ?_, other notDash, rfl⟩
  rw [single?, nextIs, other notBang, other notBang]
  rfl

theorem lone {tokens rest : Tokens} (lone : Lone ':' ':' tokens rest) : Calm tokens := by
  have colons := (single?_eq_some_iff.mp (single?_pair_iff.mpr lone)).1
  cases lone with
  | alone => exact ⟨rfl, colons, rfl, rfl, rfl⟩
  | joint single => exact ⟨rfl, colons, rfl, rfl, rfl⟩

theorem stopped {rest : Tokens} (calm : Calm rest) : Stopped rest := .inl calm.colons

end Calm

theorem noArguments_of_stopped {rest : Tokens} (opening : eat? ['<'] rest = none)
    (stopped : Stopped rest) : NoArguments rest := by
  constructor
  · rw [nextIs, opening]
    rfl
  · rcases stopped with ended | ⟨inner, pos, more, call⟩
    · rw [nextIs, ended]
      rfl
    · obtain ⟨start, spacing, start', rfl⟩ := eat?_pair_iff.mp call
      rfl

theorem noArguments_of_word {name : String} {rest : Tokens} {spacing : Spacing}
    {pos pos' pos'' : Nat} :
    NoArguments (.punct ':' .joint pos :: .punct ':' spacing pos' :: .ident name pos'' :: rest) :=
  ⟨rfl, rfl⟩

/-- An argument is over: a comma or the closing mark comes next. -/
def EndsArg (rest : Tokens) : Prop :=
  ∃ char spacing pos more, char ∈ [',', '>'] ∧ rest = .punct char spacing pos :: more

namespace EndsArg

variable {rest : Tokens}

theorem stopsAt (ends : EndsArg rest) : StopsAt [',', '>'] rest := .inr ends

theorem calm (ends : EndsArg rest) : Calm rest := by
  obtain ⟨char, spacing, pos, more, member, rfl⟩ := ends
  refine .punct ?_ spacing pos more
  simp only [List.mem_cons, List.not_mem_nil, or_false] at member
  rcases member with rfl | rfl <;> decide

theorem closes (ends : EndsArg rest) : (nextIs [','] rest || nextIs ['>'] rest) = true := by
  obtain ⟨char, spacing, pos, more, member, rfl⟩ := ends
  simp only [List.mem_cons, List.not_mem_nil, or_false] at member
  rcases member with rfl | rfl <;> rfl

end EndsArg

namespace Ending

theorem startsBound_punct {char : Char} (notColon : char ≠ ':') (notQuestion : char ≠ '?')
    (notTick : char ≠ '\'') (spacing : Spacing) (pos : Nat) (rest : Tokens) :
    startsBound (.punct char spacing pos :: rest) = false := by
  have colons : eat? [':', ':'] (.punct char spacing pos :: rest) = none :=
    eat?_eq_none_of_single (by simp only [eat?, notColon, if_false])
  have question : eat? ['?'] (.punct char spacing pos :: rest) = none := by
    simp only [eat?, notQuestion, if_false]
  have noLifetime : lifetime? (.punct char spacing pos :: rest) = none := by
    cases found : lifetime? (.punct char spacing pos :: rest) with
    | none => rfl
    | some result =>
        obtain ⟨_, _, same⟩ := lifetime?_eq_some_iff.mp (Prod.eta result ▸ found)
        cases same
        exact absurd rfl notTick
  simp only [startsBound, nextIs, colons, question, noLifetime, Option.isSome_none, Bool.or_false]

theorem fits_of_stopsAt {chars : List Char} {rest : Tokens} (stops : StopsAt chars rest)
    (noPlus : '+' ∉ chars) (noColon : ':' ∉ chars) (noQuestion : '?' ∉ chars)
    (noTick : '\'' ∉ chars) (ending : Ending) : ending.Fits rest := by
  refine ⟨fun _ => stops.eat?_eq_none noPlus, fun _ => ?_⟩
  rcases stops with rfl | ⟨char, spacing, pos, more, member, rfl⟩
  · rfl
  · exact startsBound_punct (ne_of_mem_of_not_mem member noColon)
      (ne_of_mem_of_not_mem member noQuestion) (ne_of_mem_of_not_mem member noTick) spacing pos more

theorem fits_of_endsArg {rest : Tokens} (ends : EndsArg rest) (ending : Ending) :
    ending.Fits rest :=
  fits_of_stopsAt ends.stopsAt (by decide) (by decide) (by decide) (by decide) ending

theorem fits_nil (ending : Ending) : ending.Fits [] :=
  fits_of_stopsAt (StopsAt.nil : StopsAt [] []) (by decide) (by decide) (by decide) (by decide) ending

theorem fits_lone {tokens rest : Tokens} (lone : Lone ':' ':' tokens rest) (ending : Ending) :
    ending.Fits tokens := by
  have colons := (single?_eq_some_iff.mp (single?_pair_iff.mpr lone)).1
  cases lone with
  | alone => exact ⟨fun _ => rfl, fun _ => rfl⟩
  | joint single =>
      refine ⟨fun _ => rfl, fun _ => ?_⟩
      rw [startsBound, nextIs, colons]
      · rfl
      · rintro _ _ _ ⟨⟩
      · rintro _ _ _ ⟨⟩

end Ending

theorem Spelling.fits_of_more {before ending : Ending} {values : List Bound} {trailing : Bool}
    {tokens rest : Tokens} (spelled : Spelling (.more before values trailing) ending tokens)
    (fits : ending.Fits rest) : before.Fits (tokens ++ rest) := by
  have plus : ∀ {spacing pos more}, before.plus = false →
      before.Fits (.punct '+' spacing pos :: more) := by
    intro spacing pos more ended
    refine ⟨?_, fun _ => Ending.startsBound_punct (by decide) (by decide) (by decide) _ _ _⟩
    intro takes
    rw [ended] at takes
    cases takes
  cases spelled with
  | noMore => exact ⟨fun _ => fits.plus rfl, fits.bound⟩
  | trailingPlus ended => exact plus ended
  | moreBounds ended first others => exact plus ended

theorem Spelling.calm_of_more {before ending : Ending} {values : List Bound} {trailing : Bool}
    {tokens rest : Tokens} (spelled : Spelling (.more before values trailing) ending tokens)
    (calm : Calm rest) : Calm (tokens ++ rest) := by
  rcases spelled.begins with ⟨rfl, _, rfl⟩ | ⟨spacing, pos, more, rfl⟩
  · exact calm
  · exact .punct (by decide) spacing pos _

/-! ### The beginning of a text -/

namespace StartsText

variable {tokens : Tokens}

theorem eat?_eq_none {char : Char} {more : List Char} (starts : StartsText tokens)
    (other : char ∉ [':', '&', '*', '!', '<', '\'']) : eat? (char :: more) tokens = none := by
  refine eat?_eq_none_of_single ?_
  simp only [List.mem_cons, List.not_mem_nil, or_false, not_or] at other
  obtain ⟨notColon, notAnd, notStar, notBang, notOpening, notTick⟩ := other
  cases starts with
  | name | keyword | group => rfl
  | colons => simp only [eat?, Ne.symm notColon, if_false]
  | opening => simp only [eat?, Ne.symm notOpening, if_false]
  | lifetime => simp only [eat?, Ne.symm notTick, if_false]
  | mark member =>
      simp only [List.mem_cons, List.not_mem_nil, or_false] at member
      rcases member with rfl | rfl | rfl <;>
        simp only [eat?, Ne.symm notAnd, Ne.symm notStar, Ne.symm notBang, if_false]

theorem lessEqual (starts : StartsText tokens) : eat? ['<', '='] tokens = none := by
  cases starts with
  | @opening spacing pos rest inner =>
      cases spacing with
      | alone => rfl
      | joint => exact inner.eat?_eq_none (by decide)
  | mark member =>
      simp only [List.mem_cons, List.not_mem_nil, or_false] at member
      rcases member with rfl | rfl | rfl <;> exact eat?_eq_none_of_single rfl
  | colons | lifetime => exact eat?_eq_none_of_single rfl
  | name | keyword | group => rfl

theorem word?_eq_none {name : String} (starts : StartsText tokens)
    (noPath : isPathWord name = false) (noKeyword : name ∉ typeWords) :
    word? name tokens = none := by
  cases found : word? name tokens with
  | none => rfl
  | some rest =>
      obtain ⟨pos, rfl⟩ := word?_eq_some_iff.mp found
      cases starts with
      | name word =>
          rw [noPath] at word
          cases word
      | keyword member => exact absurd member noKeyword

theorem startsConstant_eq_false (starts : StartsText tokens) : startsConstant tokens = false := by
  have word : ∀ {name : String} {pos : Nat} {rest : Tokens}, name ≠ "true" → name ≠ "false" →
      startsConstant (.ident name pos :: rest) = false := by
    intro name pos rest notTrue notFalse
    simp only [startsConstant, literal?, notTrue, notFalse, or_self, if_false]
    rfl
  cases starts with
  | name path => exact word (ne_of_isPathWord path rfl) (ne_of_isPathWord path rfl)
  | keyword member =>
      refine word ?_ ?_ <;>
      · rintro rfl
        revert member
        decide
  | @group delimiter _ _ _ noBrace =>
      cases delimiter with
      | brace => exact absurd rfl noBrace
      | paren => rfl
      | bracket => rfl
  | mark member =>
      simp only [List.mem_cons, List.not_mem_nil, or_false] at member
      rcases member with rfl | rfl | rfl <;> rfl
  | colons | opening | lifetime => rfl

theorem plus_of_lifetime? {name : String} {rest : Tokens} (starts : StartsText tokens)
    (found : lifetime? tokens = some (name, rest)) : nextIs ['+'] rest = true := by
  obtain ⟨pos, pos', rfl⟩ := lifetime?_eq_some_iff.mp found
  cases starts with
  | mark member => exact absurd member (by decide)
  | lifetime => rfl

theorem lifetime?_append (starts : StartsText tokens) (unticked : lifetime? tokens = none)
    (rest : Tokens) : lifetime? (tokens ++ rest) = none := by
  cases found : lifetime? (tokens ++ rest) with
  | none => rfl
  | some result =>
      obtain ⟨pos, pos', same⟩ := lifetime?_eq_some_iff.mp (Prod.eta result ▸ found)
      cases starts with
      | lifetime => cases unticked
      | mark member =>
          injection same with head
          cases head
          exact absurd member (by decide)
      | name | keyword | group | colons | opening =>
          injection same with head
          cases head

end StartsText

namespace StartsPath

variable {tokens : Tokens}

theorem eat?_eq_none {char : Char} (starts : StartsPath tokens) (other : char ≠ ':') :
    eat? [char] tokens = none := by
  cases starts with
  | word => rfl
  | colons => simp only [eat?, Ne.symm other, if_false]

theorem word?_eq_none {name : String} (starts : StartsPath tokens)
    (noWord : isSegmentWord name = false) : word? name tokens = none := by
  cases found : word? name tokens with
  | none => rfl
  | some rest =>
      obtain ⟨pos, rfl⟩ := word?_eq_some_iff.mp found
      cases starts with
      | word word =>
          rw [noWord] at word
          cases word

end StartsPath

theorem StartsTrait.lifetime?_eq_none {tokens : Tokens} (starts : StartsTrait tokens) :
    lifetime? tokens = none := by
  cases starts with
  | path starts => cases starts <;> rfl
  | question => rfl
  | binder => rfl

theorem StartsTrait.ungrouped {tokens : Tokens} (starts : StartsTrait tokens) :
    group? .paren tokens = none := by
  cases starts with
  | path starts => cases starts <;> rfl
  | question => rfl
  | binder => rfl

theorem StartsSum.eat?_eq_none {char : Char} {tokens : Tokens} (starts : StartsSum tokens)
    (other : char ∉ [':', '?', '\'']) : eat? [char] tokens = none := by
  simp only [List.mem_cons, List.not_mem_nil, or_false, not_or] at other
  obtain ⟨notColon, notQuestion, notTick⟩ := other
  cases starts with
  | trait starts =>
      cases starts with
      | path starts => exact starts.eat?_eq_none notColon
      | question => simp only [eat?, Ne.symm notQuestion, if_false]
      | binder => rfl
  | group => rfl
  | lifetime => simp only [eat?, Ne.symm notTick, if_false]

theorem StartsSum.startsBound {tokens : Tokens} (starts : StartsSum tokens) :
    startsBound tokens = true := by
  cases starts with
  | trait starts =>
      cases starts with
      | path starts => cases starts <;> rfl
      | question => simp [TypeReader.startsBound, nextIs, eat?]
      | binder => rfl
  | group => rfl
  | lifetime => rfl

/-- An argument begins: no closing mark, and nothing that makes a comparison of the mark before. -/
structure StartsArg (tokens : Tokens) : Prop where
  closing : eat? ['>'] tokens = none
  equals : eat? ['='] tokens = none
  lessEqual : eat? ['<', '='] tokens = none

theorem StartsText.startsArg {tokens : Tokens} (starts : StartsText tokens) : StartsArg tokens :=
  ⟨starts.eat?_eq_none (by decide), starts.eat?_eq_none (by decide), starts.lessEqual⟩

theorem Spelling.startsArg {arg : GenericArg} {ending : Ending} {tokens : Tokens}
    (spelled : Spelling (.arg arg) ending tokens) (rest : Tokens) : StartsArg (tokens ++ rest) := by
  have word : ∀ {segment : Segment} {text more : Tokens} {ending : Ending},
      Spelling (.segment segment) ending text → StartsArg (text ++ more) := by
    intro segment text more ending head
    obtain ⟨name, pos, others, _, rfl⟩ := head.begins
    exact ⟨rfl, rfl, rfl⟩
  cases spelled with
  | lifetimeArg => exact ⟨rfl, rfl, rfl⟩
  | typeArg inner => exact (inner.startsText.append rest).startsArg
  | constArg read =>
      rcases constant?_forms read with ⟨text, pos, rfl⟩ | ⟨name, pos, _, rfl⟩ |
        ⟨spacing, pos, text, pos', rfl⟩ | ⟨inner, pos, rfl⟩
      · exact ⟨rfl, rfl, rfl⟩
      · exact ⟨rfl, rfl, rfl⟩
      · exact ⟨rfl, rfl, eat?_eq_none_of_single rfl⟩
      · exact ⟨rfl, rfl, rfl⟩
  | typeBinding path head inner =>
      rw [List.append_assoc]
      exact word head
  | constBinding path head read =>
      rw [List.append_assoc]
      exact word head
  | constraint path head lone inner =>
      rw [List.append_assoc]
      exact word head

theorem Spelling.noComparison {args : List GenericArg} {trailing : Bool} {ending : Ending}
    {tokens : Tokens} (spelled : Spelling (.args args trailing) ending tokens) (rest : Tokens) :
    eat? ['='] (tokens ++ rest) = none ∧ eat? ['<', '='] (tokens ++ rest) = none := by
  cases spelled with
  | closeArgs => exact ⟨rfl, eat?_eq_none_of_single rfl⟩
  | lastArg only =>
      rw [List.append_assoc]
      exact ⟨(only.startsArg _).equals, (only.startsArg _).lessEqual⟩
  | moreArgs first others =>
      rw [List.append_assoc]
      exact ⟨(first.startsArg _).equals, (first.startsArg _).lessEqual⟩

/-! ### Behind the first word of a text -/

/-- What may stand behind a word that is no name of a parameter: anything but a lone colon. -/
inductive AfterWord : Tokens → Prop
  | nil : AfterWord []
  | colons {spacing : Spacing} {pos pos' : Nat} {rest : Tokens} :
      AfterWord (.punct ':' .joint pos :: .punct ':' spacing pos' :: rest)
  | other {tree : TokenTree} {rest : Tokens}
      (noColon : ∀ spacing pos, tree ≠ .punct ':' spacing pos) : AfterWord (tree :: rest)

namespace AfterWord

theorem append {tokens rest : Tokens} (first : AfterWord tokens) (second : AfterWord rest) :
    AfterWord (tokens ++ rest) := by
  cases first with
  | nil => exact second
  | colons => exact .colons
  | other noColon => exact .other noColon

theorem single?_eq_none {tokens : Tokens} (after : AfterWord tokens) :
    single? ':' [':', ':'] tokens = none := by
  cases found : single? ':' [':', ':'] tokens with
  | none => rfl
  | some rest =>
      cases single?_pair_iff.mp found with
      | alone =>
          cases after with
          | other noColon => exact absurd rfl (noColon _ _)
      | joint single =>
          cases after with
          | colons => exact absurd rfl (single _ _ _)
          | other noColon => exact absurd rfl (noColon _ _)

end AfterWord

/-- If the text begins with a word, no lone colon stands behind it. -/
def Unnamed (tokens : Tokens) : Prop :=
  ∀ name pos next, tokens = .ident name pos :: next → AfterWord next

theorem StartsSum.afterWord {tokens : Tokens} (starts : StartsSum tokens) : AfterWord tokens := by
  cases starts with
  | trait starts =>
      cases starts with
      | path starts =>
          cases starts with
          | word => exact .other nofun
          | colons => exact .colons
      | question => exact .other (by simp)
      | binder => exact .other nofun
  | group => exact .other nofun
  | lifetime => exact .other (by simp)

namespace Spelling

variable {ending : Ending} {tokens : Tokens}

theorem unnamed_of_segment {segment : Segment}
    (spelled : Spelling (.segment segment) ending tokens) : Unnamed tokens := by
  rintro name pos next same
  cases spelled with
  | bareSegment word =>
      cases same
      exact .nil
  | openSegment word turbofish inner =>
      cases same
      cases turbofish with
      | absent => exact .other (by simp)
      | present => exact .colons

theorem unnamed_of_steps {segments : List Segment}
    (spelled : Spelling (.steps segments) ending tokens) : Unnamed tokens := by
  rintro name pos next same
  cases spelled with
  | lastStep only => exact only.unnamed_of_segment _ _ _ same
  | @moreSteps _ _ text _ _ _ _ _ _ first others =>
      obtain ⟨word, start, rest, _, rfl⟩ := first.begins
      cases same
      exact (first.unnamed_of_segment _ _ _ rfl).append .colons

theorem unnamed_of_path {path : Path} (spelled : Spelling (.path path) ending tokens) :
    Unnamed tokens := by
  cases spelled with
  | path root steps =>
      cases root with
      | absent => exact steps.unnamed_of_steps
      | present => exact nofun

theorem unnamed_of_type {plus : Bool} {type : TypeExpr}
    (spelled : Spelling (.type plus type) ending tokens) : Unnamed tokens := by
  have behind : ∀ {binder : Option Binder} {path : Path} {before text more : Tokens}
      {ending : Ending}, Bindings binder before → Spelling (.path path) ending text →
      AfterWord more → Unnamed (before ++ (text ++ more)) := by
    rintro binder path before text more ending bindings inner after name pos next same
    cases bindings with
    | present =>
        cases same
        exact .other (by simp)
    | absent =>
        cases inner.begins with
        | word =>
            cases same
            exact (inner.unnamed_of_path _ _ _ rfl).append after
        | colons => cases same
  cases spelled with
  | pathType starts inner => exact inner.unnamed_of_path
  | boundType bindings starts inner =>
      have whole := behind bindings inner .nil
      rwa [List.append_nil] at whole
  | sumType bindings starts named inner some others =>
      refine behind bindings inner ?_
      rcases others.begins with ⟨_, _, rfl⟩ | ⟨spacing, pos, rest, rfl⟩
      · exact .nil
      · exact .other (by simp)
  | invocation bindings starts named plain inner => exact behind bindings inner (.other (by simp))
  | tickedType ticked trait inner =>
      rintro name pos next rfl
      cases ticked
  | infer =>
      rintro name pos next same
      cases same
      exact .nil
  | object trait inner | existential trait inner =>
      rintro name pos next same
      cases same
      cases inner with
      | oneBound only => exact StartsSum.afterWord only.begins
      | sum first others => exact StartsSum.afterWord (StartsSum.append first.begins _)
  | function bindings keyword calling inner result =>
      rintro name pos next same
      cases bindings with
      | present =>
          cases same
          exact .other (by simp)
      | absent =>
          cases keyword with
          | present =>
              cases same
              cases calling <;> exact .other nofun
          | absent => cases calling <;> (cases same; exact .other nofun)
  | qualified | reference | pointer | never | parens | tickedParens | parenSum | relaxedSum | unit |
    tuple | slice | array => exact nofun

end Spelling

end TypeConcepts
