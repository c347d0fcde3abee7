import TypeConcepts.Proofs.TypeExpr.Step

/-!
The grammar of type expressions: which texts spell which expressions.

A text is taken by itself, without what comes next. What the readers would still take of that is
told by the ending of the text, so that two texts may stand side by side only where the first one
leaves the second alone.
-/

namespace TypeConcepts

open TokenTree TypeReader

/-- What a text would still take: a plus, or the bound that a plus at its end asks for. -/
structure Ending where
  plus : Bool
  bound : Bool

namespace Ending

def shut : Ending := ⟨false, false⟩

/-- Nothing comes next that belongs to the text. -/
structure Fits (ending : Ending) (rest : Tokens) : Prop where
  plus : ending.plus = true → eat? ['+'] rest = none
  bound : ending.bound = true → startsBound rest = false

theorem shut_fits (rest : Tokens) : shut.Fits rest := ⟨nofun, nofun⟩

end Ending

def startOf (tokens : Tokens) : Nat := (tokens.head?.map TokenTree.pos).getD 0

inductive Colons : Bool → Tokens → Prop
  | absent : Colons false []
  | present {spacing : Spacing} {pos pos' : Nat} :
      Colons true [.punct ':' .joint pos, .punct ':' spacing pos']

inductive Keyword (name : String) : Bool → Tokens → Prop
  | absent : Keyword name false []
  | present {pos : Nat} : Keyword name true [.ident name pos]

inductive Marked (char : Char) : Bool → Tokens → Prop
  | absent : Marked char false []
  | present {spacing : Spacing} {pos : Nat} : Marked char true [.punct char spacing pos]

inductive Named : Option String → Tokens → Prop
  | absent : Named none []
  | present {name : String} {pos pos' : Nat} :
      Named (some name) [.punct '\'' .joint pos, .ident name pos']

inductive Listed : List String → Bool → Tokens → Prop
  | close {spacing : Spacing} {pos : Nat} : Listed [] false [.punct '>' spacing pos]
  | last {name : String} {pos pos' pos'' : Nat} {spacing : Spacing} :
      Listed [name] false
        [.punct '\'' .joint pos, .ident name pos', .punct '>' spacing pos'']
  | more {name : String} {names : List String} {trailing : Bool} {pos pos' pos'' : Nat}
      {spacing : Spacing} {tokens : Tokens} (others : Listed names trailing tokens) :
      Listed (name :: names) (trailing || names.isEmpty)
        (.punct '\'' .joint pos :: .ident name pos' :: .punct ',' spacing pos'' :: tokens)

inductive Bindings : Option Binder → Tokens → Prop
  | absent : Bindings none []
  | present {names : List String} {trailing : Bool} {pos pos' : Nat} {spacing : Spacing}
      {tokens : Tokens} (listed : Listed names trailing tokens) :
      Bindings (some ⟨names, trailing⟩) (.ident "for" pos :: .punct '<' spacing pos' :: tokens)

inductive Convention : Option (Option String) → Tokens → Prop
  | absent : Convention none []
  | unnamed {pos : Nat} : Convention (some none) [.ident "extern" pos]
  | named {name : String} {pos pos' : Nat} (text : isText name = true) :
      Convention (some (some name)) [.ident "extern" pos, .literal name pos']

/-- Whether a word may name a parameter of a function type; only the first may be `self`. -/
def namesParam (first : Bool) (name : String) : Bool :=
  isName name || name == "_" || (first && name == "self")

/-- Three dots, with a name before them and a comma behind them or without. -/
inductive Variadic : Option String × Bool → Tokens → Prop
  | unnamed {comma : Bool} {closing : Tokens} {spacing : Spacing} {pos pos' pos'' : Nat}
      (closed : Marked ',' comma closing) :
      Variadic (none, comma)
        (.punct '.' .joint pos :: .punct '.' .joint pos' :: .punct '.' spacing pos'' :: closing)
  | named {name : String} {comma : Bool} {closing : Tokens} {spacing spacing' : Spacing}
      {start colon pos pos' pos'' : Nat} (word : namesParam false name = true)
      (closed : Marked ',' comma closing) :
      Variadic (some name, comma)
        (.ident name start :: .punct ':' spacing' colon :: .punct '.' .joint pos ::
          .punct '.' .joint pos' :: .punct '.' spacing pos'' :: closing)

/-! ### Phrases -/

/-- The kinds of texts, each with what its texts spell. -/
inductive Phrase where
  /-- A type, which takes a plus that follows or does not. -/
  | type (plus : Bool) (value : TypeExpr)
  | types (values : List TypeExpr) (trailing : Bool)
  | segment (value : Segment)
  | steps (values : List Segment)
  | path (value : Path)
  | arg (value : GenericArg)
  /-- Generic arguments up to their closing mark, which is part of the text. -/
  | args (values : List GenericArg) (trailing : Bool)
  | call (value : PathArgs)
  | output (value : Option TypeExpr)
  /-- What a qualified type with the given ending is seen as. -/
  | view (before : Ending) (value : Option Path)
  | traitPath (value : Path)
  | traitBound (value : TraitBound)
  | bound (value : Bound)
  /-- The rest of a sum, after a bound with the given ending. -/
  | more (before : Ending) (values : List Bound) (trailing : Bool)
  | bounds (plus : Bool) (values : List Bound) (trailing : Bool)
  /-- The bounds of a constraint, perhaps none. -/
  | limits (values : List Bound) (trailing : Bool)
  | param (first : Bool) (value : Param)
  | params (first : Bool) (values : List Param) (trailing : Bool)
      (further : Option (Option String × Bool))

/-- A word that may be a segment by itself. Unlike other words, `try` begins no type. -/
def isSegmentWord (name : String) : Bool := isPathWord name || name == "try"

/-- The text spells the phrase and ends in the given way. -/
inductive Spelling : Phrase → Ending → Tokens → Prop
  | bareSegment {name : String} {pos : Nat} (word : isSegmentWord name = true) :
      Spelling (.segment ⟨name, .none⟩) .shut [.ident name pos]
  | openSegment {name : String} {pos pos' : Nat} {doubleColon trailing : Bool} {spacing : Spacing}
      {colons tokens : Tokens} {args : List GenericArg} {ending : Ending}
      (word : name = "Self" ∨ isName name = true) (turbofish : Colons doubleColon colons)
      (inner : Spelling (.args args trailing) ending tokens) :
      Spelling (.segment ⟨name, .angle doubleColon args trailing⟩) .shut
        (.ident name pos :: (colons ++ .punct '<' spacing pos' :: tokens))
  | lastStep {segment : Segment} {tokens : Tokens} {ending : Ending}
      (only : Spelling (.segment segment) ending tokens) :
      Spelling (.steps [segment]) .shut tokens
  | moreSteps {segment : Segment} {segments : List Segment} {tokens more : Tokens}
      {ending ending' : Ending} {spacing : Spacing} {pos pos' : Nat}
      (first : Spelling (.segment segment) ending tokens)
      (others : Spelling (.steps segments) ending' more) :
      Spelling (.steps (segment :: segments)) .shut
        (tokens ++ .punct ':' .joint pos :: .punct ':' spacing pos' :: more)
  | path {rooted : Bool} {segments : List Segment} {colons tokens : Tokens} {ending : Ending}
      (root : Colons rooted colons) (steps : Spelling (.steps segments) ending tokens) :
      Spelling (.path ⟨startOf (colons ++ tokens), rooted, segments⟩) .shut (colons ++ tokens)
  | lifetimeArg {name : String} {pos pos' : Nat} :
      Spelling (.arg (.lifetime pos name)) .shut [.punct '\'' .joint pos, .ident name pos']
  | typeArg {type : TypeExpr} {tokens : Tokens} {ending : Ending}
      (inner : Spelling (.type true type) ending tokens) : Spelling (.arg (.type type)) .shut tokens
  | constArg {source value : Tokens} (read : constant? source = some (value, [])) :
      Spelling (.arg (.const (startOf source) value)) .shut source
  | typeBinding {name : String} {args : PathArgs} {value : TypeExpr} {tokens more : Tokens}
      {ending ending' : Ending} {spacing : Spacing} {pos : Nat} (word : isPathWord name = true)
      (head : Spelling (.segment ⟨name, args⟩) ending tokens)
      (inner : Spelling (.type true value) ending' more) :
      Spelling (.arg (.typeBinding (startOf tokens) name args value)) .shut
        (tokens ++ .punct '=' spacing pos :: more)
  | constBinding {name : String} {args : PathArgs} {source value tokens : Tokens}
      {ending : Ending} {spacing : Spacing} {pos : Nat} (word : isPathWord name = true)
      (head : Spelling (.segment ⟨name, args⟩) ending tokens)
      (read : constant? source = some (value, [])) :
      Spelling (.arg (.constBinding (startOf tokens) name args value)) .shut
        (tokens ++ .punct '=' spacing pos :: source)
  | constraint {name : String} {args : PathArgs} {bounds : List Bound} {trailing : Bool}
      {colon : TokenTree} {tokens more : Tokens} {ending ending' : Ending}
      (word : isPathWord name = true) (head : Spelling (.segment ⟨name, args⟩) ending tokens)
      (lone : Lone ':' ':' (colon :: more) more)
      (inner : Spelling (.limits bounds trailing) ending' more) :
      Spelling (.arg (.constraint (startOf tokens) name args bounds trailing)) .shut
        (tokens ++ colon :: more)
  | closeArgs {spacing : Spacing} {pos : Nat} :
      Spelling (.args [] false) .shut [.punct '>' spacing pos]
  | lastArg {arg : GenericArg} {tokens : Tokens} {ending : Ending} {spacing : Spacing} {pos : Nat}
      (only : Spelling (.arg arg) ending tokens) :
      Spelling (.args [arg] false) .shut (tokens ++ [.punct '>' spacing pos])
  | moreArgs {arg : GenericArg} {args : List GenericArg} {trailing : Bool} {tokens more : Tokens}
      {ending ending' : Ending} {spacing : Spacing} {pos : Nat}
      (first : Spelling (.arg arg) ending tokens)
      (others : Spelling (.args args trailing) ending' more) :
      Spelling (.args (arg :: args) (trailing || args.isEmpty)) .shut
        (tokens ++ .punct ',' spacing pos :: more)
  | noOutput : Spelling (.output none) .shut []
  | someOutput {output : TypeExpr} {tokens : Tokens} {ending : Ending} {spacing : Spacing}
      {pos pos' : Nat} (inner : Spelling (.type false output) ending tokens) :
      Spelling (.output (some output)) ending
        (.punct '-' .joint pos :: .punct '>' spacing pos' :: tokens)
  | call {pos : Nat} {inputs : List TypeExpr} {trailing : Bool} {output : Option TypeExpr}
      {tokens more : Tokens} {ending ending' : Ending}
      (first : Spelling (.types inputs trailing) ending tokens)
      (second : Spelling (.output output) ending' more) :
      Spelling (.call (.call pos inputs trailing output)) ending'
        (.group .paren tokens pos :: more)
  | noTypes : Spelling (.types [] false) .shut []
  | lastType {type : TypeExpr} {tokens : Tokens} {ending : Ending}
      (only : Spelling (.type true type) ending tokens) :
      Spelling (.types [type] false) .shut tokens
  | moreTypes {type : TypeExpr} {types : List TypeExpr} {trailing : Bool} {tokens more : Tokens}
      {ending ending' : Ending} {spacing : Spacing} {pos : Nat}
      (first : Spelling (.type true type) ending tokens)
      (others : Spelling (.types types trailing) ending' more) :
      Spelling (.types (type :: types) (trailing || types.isEmpty)) .shut
        (tokens ++ .punct ',' spacing pos :: more)
  | plainTrait {path : Path} {tokens : Tokens} {ending : Ending}
      (inner : Spelling (.path path) ending tokens) : Spelling (.traitPath path) .shut tokens
  | calledTrait {pos : Nat} {rooted doubleColon : Bool} {segments : List Segment}
      {last : Segment} {args : PathArgs} {tokens colons more : Tokens} {ending ending' : Ending}
      (inner : Spelling (.path ⟨pos, rooted, segments ++ [last]⟩) ending tokens)
      (yields : yieldsToCall last.args = true) (turbofish : Colons doubleColon colons)
      (called : Spelling (.call args) ending' more) :
      Spelling (.traitPath ⟨pos, rooted, segments ++ [⟨last.name, args⟩]⟩) ending'
        (tokens ++ (colons ++ more))
  | traitBound {wrapped relaxed : Bool} {binder : Option Binder} {path : Path}
      {question before tokens : Tokens} {ending : Ending} (mark : Marked '?' relaxed question)
      (bindings : Bindings binder before) (inner : Spelling (.traitPath path) ending tokens) :
      Spelling (.traitBound ⟨wrapped, relaxed, binder, path⟩) ending
        (question ++ (before ++ tokens))
  | lifetimeBound {name : String} {pos pos' : Nat} :
      Spelling (.bound (.lifetime name)) .shut [.punct '\'' .joint pos, .ident name pos']
  | wrappedBound {bound : TraitBound} {tokens : Tokens} {ending : Ending} {pos : Nat}
      (wrapped : bound.wrapped = true) (inner : Spelling (.traitBound bound) ending tokens) :
      Spelling (.bound (.trait bound)) .shut [.group .paren tokens pos]
  | plainBound {bound : TraitBound} {tokens : Tokens} {ending : Ending}
      (plain : bound.wrapped = false) (inner : Spelling (.traitBound bound) ending tokens) :
      Spelling (.bound (.trait bound)) ending tokens
  | noMore {before : Ending} : Spelling (.more before [] false) ⟨true, before.bound⟩ []
  | trailingPlus {before : Ending} {spacing : Spacing} {pos : Nat} (ended : before.plus = false) :
      Spelling (.more before [] true) ⟨false, true⟩ [.punct '+' spacing pos]
  | moreBounds {before ending ending' : Ending} {bound : Bound} {bounds : List Bound}
      {trailing : Bool} {tokens more : Tokens} {spacing : Spacing} {pos : Nat}
      (ended : before.plus = false) (first : Spelling (.bound bound) ending tokens)
      (others : Spelling (.more ending bounds trailing) ending' more) :
      Spelling (.more before (bound :: bounds) trailing) ending'
        (.punct '+' spacing pos :: (tokens ++ more))
  | oneBound {bound : Bound} {tokens : Tokens} {ending : Ending}
      (only : Spelling (.bound bound) ending tokens) :
      Spelling (.bounds false [bound] false) ending tokens
  | sum {bound : Bound} {bounds : List Bound} {trailing : Bool} {tokens more : Tokens}
      {ending ending' : Ending} (first : Spelling (.bound bound) ending tokens)
      (others : Spelling (.more ending bounds trailing) ending' more) :
      Spelling (.bounds true (bound :: bounds) trailing) ending' (tokens ++ more)
  | noLimits : Spelling (.limits [] false) .shut []
  | limits {bounds : List Bound} {trailing : Bool} {tokens : Tokens} {ending : Ending}
      (inner : Spelling (.bounds true bounds trailing) ending tokens) :
      Spelling (.limits bounds trailing) .shut tokens
  | pathType {plus : Bool} {path : Path} {tokens : Tokens} {ending : Ending}
      (starts : StartsType tokens) (inner : Spelling (.path path) ending tokens) :
      Spelling (.type plus (.path path)) ⟨plus, false⟩ tokens
  | boundType {plus : Bool} {binder : Binder} {path : Path} {before tokens : Tokens}
      {ending : Ending} (bindings : Bindings (some binder) before) (starts : StartsName tokens)
      (inner : Spelling (.path path) ending tokens) :
      Spelling (.type plus (.object false [.trait ⟨false, false, some binder, path⟩] false))
        ⟨plus, false⟩ (before ++ tokens)
  | sumType {binder : Option Binder} {path : Path} {bounds : List Bound} {trailing : Bool}
      {before tokens more : Tokens} {ending ending' : Ending} (bindings : Bindings binder before)
      (starts : StartsType tokens) (named : binder.isSome = true → StartsName tokens)
      (inner : Spelling (.path path) ending tokens) (some : more ≠ [])
      (others : Spelling (.more .shut bounds trailing) ending' more) :
      Spelling (.type true
          (.object false (.trait ⟨false, false, binder, path⟩ :: bounds) trailing))
        ending' (before ++ (tokens ++ more))
  | invocation {plus : Bool} {binder : Option Binder} {path : Path} {before tokens body : Tokens}
      {delimiter : Delimiter} {ending : Ending} {spacing : Spacing} {pos pos' : Nat}
      (bindings : Bindings binder before) (starts : StartsType tokens)
      (named : binder.isSome = true → StartsName tokens) (plain : isPlain path = true)
      (inner : Spelling (.path path) ending tokens) :
      Spelling (.type plus (.invocation path (.group delimiter body pos'))) .shut
        (before ++ (tokens ++ [.punct '!' spacing pos, .group delimiter body pos']))
  | noView {before : Ending} : Spelling (.view before none) .shut []
  | someView {before : Ending} {path : Path} {tokens : Tokens} {ending : Ending} {pos : Nat}
      (ended : before.bound = false) (inner : Spelling (.path path) ending tokens) :
      Spelling (.view before (some path)) .shut (.ident "as" pos :: tokens)
  | qualified {plus : Bool} {self : TypeExpr} {view : Option Path} {segments : List Segment}
      {tokens seen more : Tokens} {ending ending' ending'' : Ending}
      {spacing spacing' spacing'' : Spacing} {pos pos' pos'' pos''' : Nat}
      (first : Spelling (.type true self) ending tokens)
      (second : Spelling (.view ending view) ending' seen)
      (third : Spelling (.steps segments) ending'' more) :
      Spelling (.type plus (.qualified self view segments)) .shut
        (.punct '<' spacing pos :: (tokens ++ (seen ++ .punct '>' spacing' pos' ::
          .punct ':' .joint pos'' :: .punct ':' spacing'' pos''' :: more)))
  | reference {plus mutable : Bool} {name : Option String} {target : TypeExpr}
      {life access tokens : Tokens} {ending : Ending} {spacing : Spacing} {pos : Nat}
      (lifetime : Named name life) (kind : Keyword "mut" mutable access)
      (unticked : name = none → lifetime? (access ++ tokens) = none)
      (inner : Spelling (.type false target) ending tokens) :
      Spelling (.type plus (.reference name mutable target)) ending
        (.punct '&' spacing pos :: (life ++ (access ++ tokens)))
  | pointer {plus mutable : Bool} {target : TypeExpr} {tokens : Tokens} {ending : Ending}
      {spacing : Spacing} {pos pos' : Nat} (inner : Spelling (.type false target) ending tokens) :
      Spelling (.type plus (.pointer mutable target)) ending
        (.punct '*' spacing pos :: .ident (if mutable then "mut" else "const") pos' :: tokens)
  | never {plus : Bool} {spacing : Spacing} {pos : Nat} :
      Spelling (.type plus .never) .shut [.punct '!' spacing pos]
  | tickedType {plus : Bool} {bounds : List Bound} {trailing : Bool} {tokens : Tokens}
      {ending : Ending} (ticked : (lifetime? tokens).isSome = true)
      (trait : bounds.any namesTrait = true)
      (inner : Spelling (.bounds true bounds trailing) ending tokens) :
      Spelling (.type plus (.object false bounds trailing)) ending tokens
  | parens {plus : Bool} {type : TypeExpr} {tokens : Tokens} {ending : Ending} {pos : Nat}
      (unticked : lifetime? tokens = none) (inner : Spelling (.type true type) ending tokens) :
      Spelling (.type plus (.paren type)) ⟨plus && (asBound type).isSome, false⟩
        [.group .paren tokens pos]
  | tickedParens {plus : Bool} {bounds : List Bound} {trailing : Bool} {tokens : Tokens}
      {ending : Ending} {pos : Nat} (ticked : (lifetime? tokens).isSome = true)
      (trait : bounds.any namesTrait = true)
      (inner : Spelling (.bounds true bounds trailing) ending tokens) :
      Spelling (.type plus (.paren (.object false bounds trailing))) .shut
        [.group .paren tokens pos]
  | parenSum {type : TypeExpr} {bound : Bound} {bounds : List Bound} {tokens more : Tokens}
      {ending ending' : Ending} {pos : Nat} (unticked : lifetime? tokens = none)
      (inner : Spelling (.type true type) ending tokens) (names : asBound type = some bound)
      (some : more ≠ []) (others : Spelling (.more .shut bounds false) ending' more) :
      Spelling (.type true (.object false (bound :: bounds) false)) ending'
        (.group .paren tokens pos :: more)
  | relaxedSum {plus : Bool} {bound : TraitBound} {bounds : List Bound} {tokens more : Tokens}
      {ending ending' : Ending} {pos : Nat} (wrapped : bound.wrapped = true)
      (relaxed : bound.relaxed = true) (inner : Spelling (.traitBound bound) ending tokens)
      (others : Spelling (.more .shut bounds false) ending' more) :
      Spelling (.type plus (.object false (.trait bound :: bounds) false)) ending'
        (.group .paren tokens pos :: more)
  | unit {plus : Bool} {pos : Nat} :
      Spelling (.type plus (.tuple [] false)) .shut [.group .paren [] pos]
  | tuple {plus : Bool} {type : TypeExpr} {types : List TypeExpr} {trailing : Bool}
      {tokens more : Tokens} {ending ending' : Ending} {spacing : Spacing} {pos pos' : Nat}
      (unticked : lifetime? tokens = none) (first : Spelling (.type true type) ending tokens)
      (others : Spelling (.types types trailing) ending' more) :
      Spelling (.type plus (.tuple (type :: types) (trailing || types.isEmpty))) .shut
        [.group .paren (tokens ++ .punct ',' spacing pos :: more) pos']
  | slice {plus : Bool} {item : TypeExpr} {tokens : Tokens} {ending : Ending} {pos : Nat}
      (inner : Spelling (.type true item) ending tokens) :
      Spelling (.type plus (.slice item)) .shut [.group .bracket tokens pos]
  | array {plus : Bool} {item : TypeExpr} {tokens source length : Tokens} {ending : Ending}
      {spacing : Spacing} {pos pos' : Nat} (inner : Spelling (.type true item) ending tokens)
      (read : constExpr? source = some length) :
      Spelling (.type plus (.array item length)) .shut
        [.group .bracket (tokens ++ .punct ';' spacing pos :: source) pos']
  | infer {plus : Bool} {pos : Nat} : Spelling (.type plus .infer) .shut [.ident "_" pos]
  | object {plus : Bool} {bounds : List Bound} {trailing : Bool} {tokens : Tokens}
      {ending : Ending} {pos : Nat} (trait : bounds.any namesTrait = true)
      (inner : Spelling (.bounds plus bounds trailing) ending tokens) :
      Spelling (.type plus (.object true bounds trailing)) ending (.ident "dyn" pos :: tokens)
  | existential {plus : Bool} {bounds : List Bound} {trailing : Bool} {tokens : Tokens}
      {ending : Ending} {pos : Nat} (trait : bounds.any namesTrait = true)
      (inner : Spelling (.bounds plus bounds trailing) ending tokens) :
      Spelling (.type plus (.existential bounds trailing)) ending (.ident "impl" pos :: tokens)
  | function {plus isUnsafe : Bool} {binder : Option Binder} {abi : Option (Option String)}
      {params : List Param} {trailing : Bool} {further : Option (Option String × Bool)}
      {output : Option TypeExpr} {before safety convention tokens more : Tokens}
      {ending ending' : Ending} {pos pos' : Nat} (bindings : Bindings binder before)
      (keyword : Keyword "unsafe" isUnsafe safety) (calling : Convention abi convention)
      (inner : Spelling (.params true params trailing further) ending tokens)
      (result : Spelling (.output output) ending' more) :
      Spelling
        (.type plus (.function ⟨binder, isUnsafe, abi, params, trailing, further, output⟩)) ending'
        (before ++ (safety ++ (convention ++ .ident "fn" pos :: .group .paren tokens pos' :: more)))
  | bareParam {first : Bool} {type : TypeExpr} {tokens : Tokens} {ending : Ending}
      (inner : Spelling (.type true type) ending tokens) :
      Spelling (.param first ⟨none, type⟩) .shut tokens
  | namedParam {first : Bool} {name : String} {type : TypeExpr} {colon : TokenTree}
      {tokens : Tokens} {ending : Ending} {pos : Nat} (word : namesParam first name = true)
      (lone : Lone ':' ':' (colon :: tokens) tokens)
      (inner : Spelling (.type true type) ending tokens) :
      Spelling (.param first ⟨some name, type⟩) .shut (.ident name pos :: colon :: tokens)
  | noParams {first : Bool} : Spelling (.params first [] false none) .shut []
  | furtherParams {first : Bool} {further : Option String × Bool} {tokens : Tokens}
      (dots : Variadic further tokens) :
      Spelling (.params first [] false (some further)) .shut tokens
  | lastParam {first : Bool} {param : Param} {tokens : Tokens} {ending : Ending}
      (only : Spelling (.param first param) ending tokens) :
      Spelling (.params first [param] false none) .shut tokens
  | moreParams {first trailing : Bool} {param : Param} {params : List Param}
      {further : Option (Option String × Bool)} {tokens more : Tokens} {ending ending' : Ending}
      {spacing : Spacing} {pos : Nat} (head : Spelling (.param first param) ending tokens)
      (others : Spelling (.params false params trailing further) ending' more) :
      Spelling (.params first (param :: params) (trailing || params.isEmpty) further) .shut
        (tokens ++ .punct ',' spacing pos :: more)

/-! ### Beginnings -/

inductive StartsPath : Tokens → Prop
  | word {name : String} {pos : Nat} {rest : Tokens} (word : isSegmentWord name = true) :
      StartsPath (.ident name pos :: rest)
  | colons {spacing : Spacing} {pos pos' : Nat} {rest : Tokens} :
      StartsPath (.punct ':' .joint pos :: .punct ':' spacing pos' :: rest)

inductive StartsTrait : Tokens → Prop
  | path {tokens : Tokens} (starts : StartsPath tokens) : StartsTrait tokens
  | question {spacing : Spacing} {pos : Nat} {rest : Tokens} :
      StartsTrait (.punct '?' spacing pos :: rest)
  | binder {pos : Nat} {rest : Tokens} : StartsTrait (.ident "for" pos :: rest)

inductive StartsSum : Tokens → Prop
  | trait {tokens : Tokens} (starts : StartsTrait tokens) : StartsSum tokens
  | group {inner rest : Tokens} {pos : Nat} : StartsSum (.group .paren inner pos :: rest)
  | lifetime {name : String} {pos pos' : Nat} {rest : Tokens} :
      StartsSum (.punct '\'' .joint pos :: .ident name pos' :: rest)

def typeWords : List String := ["_", "for", "dyn", "impl", "fn", "unsafe", "extern"]

/-- What the text of a type begins with. A lifetime is the first of several bounds. -/
inductive StartsText : Tokens → Prop
  | name {name : String} {pos : Nat} {rest : Tokens} (word : isPathWord name = true) :
      StartsText (.ident name pos :: rest)
  | keyword {name : String} {pos : Nat} {rest : Tokens} (member : name ∈ typeWords) :
      StartsText (.ident name pos :: rest)
  | colons {spacing : Spacing} {pos pos' : Nat} {rest : Tokens} :
      StartsText (.punct ':' .joint pos :: .punct ':' spacing pos' :: rest)
  | mark {char : Char} {spacing : Spacing} {pos : Nat} {rest : Tokens}
      (member : char ∈ ['&', '*', '!']) : StartsText (.punct char spacing pos :: rest)
  | opening {spacing : Spacing} {pos : Nat} {rest : Tokens} (inner : StartsText rest) :
      StartsText (.punct '<' spacing pos :: rest)
  | group {delimiter : Delimiter} {inner rest : Tokens} {pos : Nat}
      (noBrace : delimiter ≠ .brace) : StartsText (.group delimiter inner pos :: rest)
  | lifetime {name : String} {spacing : Spacing} {pos pos' pos'' : Nat} {rest : Tokens} :
      StartsText (.punct '\'' .joint pos :: .ident name pos' :: .punct '+' spacing pos'' :: rest)

theorem TypeReader.StartsType.startsText {tokens : Tokens} (starts : StartsType tokens)
    (path : StartsPath tokens) : StartsText tokens := by
  cases path with
  | word =>
      cases starts with
      | name word => exact .name word
  | colons => exact .colons

theorem StartsPath.append {tokens : Tokens} (starts : StartsPath tokens) (rest : Tokens) :
    StartsPath (tokens ++ rest) := by
  cases starts with
  | word word => exact .word word
  | colons => exact .colons

theorem StartsTrait.append {tokens : Tokens} (starts : StartsTrait tokens) (rest : Tokens) :
    StartsTrait (tokens ++ rest) := by
  cases starts with
  | path starts => exact .path (starts.append rest)
  | question => exact .question
  | binder => exact .binder

theorem StartsSum.append {tokens : Tokens} (starts : StartsSum tokens) (rest : Tokens) :
    StartsSum (tokens ++ rest) := by
  cases starts with
  | trait starts => exact .trait (starts.append rest)
  | group => exact .group
  | lifetime => exact .lifetime

theorem StartsText.append {tokens : Tokens} (starts : StartsText tokens) (rest : Tokens) :
    StartsText (tokens ++ rest) := by
  induction starts with
  | name word => exact .name word
  | keyword member => exact .keyword member
  | colons => exact .colons
  | mark member => exact .mark member
  | opening inner ih => exact .opening ih
  | group noBrace => exact .group noBrace
  | lifetime => exact .lifetime

theorem StartsText.ne_nil {tokens : Tokens} (starts : StartsText tokens) : tokens ≠ [] := by
  cases starts <;> exact List.cons_ne_nil _ _

namespace Phrase

/-- What the texts of a phrase begin with, as far as it matters. -/
def Begins : Phrase → Tokens → Prop
  | .segment _ | .steps _ => fun tokens =>
      ∃ name pos rest, isSegmentWord name = true ∧ tokens = .ident name pos :: rest
  | .path _ | .traitPath _ => StartsPath
  | .traitBound _ => StartsTrait
  | .bound _ | .bounds .. => StartsSum
  | .more _ values trailing => fun tokens =>
      (values = [] ∧ trailing = false ∧ tokens = []) ∨
        ∃ spacing pos rest, tokens = .punct '+' spacing pos :: rest
  | .type .. | .types .. | .arg _ | .args .. | .call _ | .output _ | .view .. | .limits .. | .param ..
  | .params .. => fun _ => True

end Phrase

namespace Spelling

theorem begins {phrase : Phrase} {ending : Ending} {tokens : Tokens}
    (spelled : Spelling phrase ending tokens) : phrase.Begins tokens := by
  induction spelled with
  | bareSegment word => exact ⟨_, _, _, word, rfl⟩
  | openSegment word turbofish inner ih =>
      have path := isPathWord_of_opens word
      exact ⟨_, _, _, by rw [isSegmentWord, path, Bool.true_or], rfl⟩
  | lastStep only ih => exact ih
  | moreSteps first others ihFirst ihOthers =>
      obtain ⟨name, pos, rest, word, rfl⟩ := ihFirst
      exact ⟨_, _, _, word, rfl⟩
  | path root steps ih =>
      obtain ⟨name, pos, rest, word, rfl⟩ := ih
      cases root with
      | absent => exact .word word
      | present => exact .colons
  | plainTrait inner ih => exact ih
  | calledTrait inner yields turbofish called ihInner ihCalled => exact StartsPath.append ihInner _
  | traitBound mark bindings inner ih =>
      cases mark with
      | present => exact .question
      | absent =>
          cases bindings with
          | present listed => exact .binder
          | absent => exact .path ih
  | lifetimeBound => exact .lifetime
  | wrappedBound wrapped inner ih => exact .group
  | plainBound plain inner ih => exact .trait ih
  | noMore => exact .inl ⟨rfl, rfl, rfl⟩
  | trailingPlus | moreBounds => exact .inr ⟨_, _, _, rfl⟩
  | oneBound only ih => exact ih
  | sum first others ihFirst ihOthers => exact StartsSum.append ihFirst _
  | _ => trivial

theorem startsText_of_ticked {trailing : Bool} {values : List Bound} {ending : Ending}
    {tokens : Tokens} (spelled : Spelling (.bounds true values trailing) ending tokens)
    (ticked : (lifetime? tokens).isSome = true) (trait : values.any namesTrait = true) :
    StartsText tokens := by
  cases spelled with
  | @sum _ _ _ text more _ _ first others =>
      cases first with
      | lifetimeBound =>
          rcases others.begins with ⟨rfl, _, _⟩ | ⟨spacing, pos, rest, rfl⟩
          · cases trait
          · exact .lifetime
      | wrappedBound => cases ticked
      | plainBound plain inner =>
          have starts : StartsTrait (text ++ more) := StartsTrait.append inner.begins more
          generalize text ++ more = tokens at starts ticked
          cases starts with
          | path starts => cases starts <;> cases ticked
          | question => cases ticked
          | binder => cases ticked

theorem startsText {plus : Bool} {type : TypeExpr} {ending : Ending} {tokens : Tokens}
    (spelled : Spelling (.type plus type) ending tokens) : StartsText tokens := by
  generalize same : Phrase.type plus type = phrase at spelled
  induction spelled generalizing plus type with
  | pathType starts inner => exact starts.startsText inner.begins
  | boundType bindings starts inner =>
      cases bindings with
      | present listed => exact .keyword (by decide)
  | sumType bindings starts named inner some others | invocation bindings starts named plain inner =>
      cases bindings with
      | absent => exact (starts.startsText inner.begins).append _
      | present listed => exact .keyword (by decide)
  | qualified first second third ihFirst => exact .opening (StartsText.append (ihFirst rfl) _)
  | reference | pointer | never => exact .mark (by decide)
  | tickedType ticked trait inner => exact startsText_of_ticked inner ticked trait
  | parens | tickedParens | parenSum | relaxedSum | unit | tuple | slice | array =>
      exact .group (by decide)
  | infer | object | existential => exact .keyword (by decide)
  | function bindings keyword calling inner result =>
      cases bindings with
      | present listed => exact .keyword (by decide)
      | absent =>
          cases keyword with
          | present => exact .keyword (by decide)
          | absent => cases calling <;> exact .keyword (by decide)
  | _ => cases same

end Spelling

end TypeConcepts
