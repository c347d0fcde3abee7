import TypeConcepts.Proofs.TypeExpr.Soundness

/-!
The readers take every text of the grammar wherever it stands, answer with what it spells and leave
what stands behind it, if that does not belong to the text.

The texts are followed along their derivation. Each kind of text says how many rounds its reader
needs and what may stand behind it.
-/

namespace TypeConcepts

open TokenTree TypeReader

theorem Marked.flag_eq {char : Char} {present : Bool} {mark rest : Tokens}
    (marked : Marked char present mark) (absent : eat? [char] rest = none) :
    flag (eat? [char]) (mark ++ rest) = (present, rest) := by
  cases marked with
  | absent => rw [List.nil_append, flag, absent]
  | present =>
      rw [flag, List.singleton_append, eat?_single_iff.mpr ⟨_, _, rfl⟩]

theorem Colons.flag_eq {present : Bool} {colons rest : Tokens} (root : Colons present colons)
    (absent : eat? [':', ':'] rest = none) :
    flag (eat? [':', ':']) (colons ++ rest) = (present, rest) := by
  cases root with
  | absent => rw [List.nil_append, flag, absent]
  | present => rfl

theorem Keyword.flag_eq {name : String} {present : Bool} {words rest : Tokens}
    (keyword : Keyword name present words) (absent : word? name rest = none) :
    flag (word? name) (words ++ rest) = (present, rest) := by
  cases keyword with
  | absent => rw [List.nil_append, flag, absent]
  | present => rw [flag, List.singleton_append, word?_eq_some_iff.mpr ⟨_, rfl⟩]

theorem Named.optional_eq {name : Option String} {life rest : Tokens} (named : Named name life)
    (absent : name = none → lifetime? rest = none) :
    optional lifetime? (life ++ rest) = (name, rest) := by
  cases named with
  | absent => rw [List.nil_append, optional, absent rfl]
  | present => rfl

theorem Listed.lifetimes_eq {names : List String} {trailing : Bool} {tokens : Tokens}
    (listed : Listed names trailing tokens) :
    ∀ limit rest, tokens.length ≤ limit →
      lifetimes limit (tokens ++ rest) = some ((names, trailing), rest) := by
  induction listed with
  | close =>
      intro limit rest enough
      obtain ⟨limit, rfl⟩ := Nat.exists_eq_add_one.mpr (Nat.lt_of_lt_of_le Nat.zero_lt_one enough)
      rfl
  | last =>
      intro limit rest enough
      obtain ⟨limit, rfl⟩ := Nat.exists_eq_add_one.mpr (Nat.lt_of_lt_of_le (by simp) enough)
      rfl
  | more others ih =>
      intro limit rest enough
      simp only [List.length_cons] at enough
      obtain ⟨limit, rfl⟩ := Nat.exists_eq_add_one.mpr (Nat.lt_of_lt_of_le (by simp) enough)
      simp only [lifetimes, List.cons_append, eat?, lifetime?, if_false, if_true,
        ih limit rest (by omega), Option.bind_eq_bind, Option.bind_some, Char.reduceEq]

theorem Bindings.binder_eq {found : Binder} {text : Tokens} (bindings : Bindings (some found) text)
    (rest : Tokens) : binder (text ++ rest) = some (found, rest) := by
  cases bindings with
  | @present _ _ pos pos' spacing tokens listed =>
      have names := listed.lifetimes_eq
        (.ident "for" pos :: .punct '<' spacing pos' :: (tokens ++ rest)).length rest
        (by simp only [List.length_cons, List.length_append]; omega)
      simp only [binder, List.cons_append, word?, eat?, if_true, names, Option.bind_eq_bind,
        Option.bind_some]

theorem Convention.abi_eq {convention : Option (Option String)} {text : Tokens}
    (calling : Convention convention text) (pos : Nat) (rest : Tokens) :
    abi (text ++ .ident "fn" pos :: rest) = (convention, .ident "fn" pos :: rest) := by
  cases calling with
  | absent => rfl
  | unnamed => rfl
  | named text => simp [abi, word?, text]

theorem TypeReader.paramName_eq {first : Bool} {name : String} {pos : Nat} {tokens rest : Tokens}
    (word : namesParam first name = true) (lone : Lone ':' ':' tokens rest) :
    paramName first (.ident name pos :: tokens) = some (name, rest) := by
  change (if namesParam first name = true then
    (single? ':' [':', ':'] tokens).bind fun rest => some (name, rest) else none) = _
  rw [if_pos word, single?_pair_iff.mpr lone]
  rfl

theorem Variadic.variadic?_eq {further : Option String × Bool} {tokens : Tokens}
    (dots : Variadic further tokens) : variadic? tokens = some further := by
  have comma : ∀ {comma : Bool} {closing : Tokens}, Marked ',' comma closing →
      flag (eat? [',']) closing = (comma, []) := by
    intro comma closing closed
    have found : flag (eat? [',']) (closing ++ []) = (comma, []) := closed.flag_eq rfl
    rwa [List.append_nil] at found
  cases dots with
  | unnamed closed =>
      simp [variadic?, optional, paramName, eat?, comma closed]
  | @named name _ closing spacing spacing' start colon pos pos' pos'' word closed =>
      have lone : Lone ':' ':' (.punct ':' spacing' colon :: .punct '.' .joint pos ::
          .punct '.' .joint pos' :: .punct '.' spacing pos'' :: closing)
          (.punct '.' .joint pos :: .punct '.' .joint pos' :: .punct '.' spacing pos'' ::
            closing) := by
        cases spacing' with
        | alone => exact .alone
        | joint =>
            refine .joint ?_
            rintro _ _ _ ⟨⟩
      simp [variadic?, optional, paramName_eq word lone, eat?, comma closed]

/-- What may stand behind the segments of a path. -/
structure StepsEnd (qualified : Bool) (rest : Tokens) : Prop where
  opening : eat? ['<'] rest = none
  stopped : Stopped rest
  closed : qualified = true → eat? [':', ':'] rest = none

theorem Calm.stepsEnd {rest : Tokens} (calm : Calm rest) (qualified : Bool) :
    StepsEnd qualified rest := ⟨calm.opening, calm.stopped, fun _ => calm.colons⟩

theorem StepsEnd.noArguments {qualified : Bool} {rest : Tokens} (ends : StepsEnd qualified rest) :
    NoArguments rest := noArguments_of_stopped ends.opening ends.stopped

def TypeReader.afterBound (parts : TypeReader) (limit : Nat) (first : Bound) :
    Reader (List Bound × Bool) := fun tokens =>
  match eat? ['+'] tokens with
  | none => some (([first], false), tokens)
  | some rest => do
      let ((others, trailing), rest) ← parts.constraintBounds limit rest
      some ((first :: others, trailing || others.isEmpty), rest)

/-- With more rounds than trees, the text is read as the type. -/
def ReadsType (plus : Bool) (value : TypeExpr) (ending : Ending) (tokens : Tokens) : Prop :=
  ∀ count rest, sizes tokens < count → Calm rest → ending.Fits rest →
    (rounds count).type plus (tokens ++ rest) = some (value, rest)

/-- With as many rounds as trees, one more round reads the text as the path. -/
def ReadsPath (value : Path) (tokens : Tokens) : Prop :=
  ∀ count rest, sizes tokens ≤ count → StepsEnd false rest →
    (rounds count).pathStep (tokens ++ rest) = some (value, rest)

/-- With more rounds than trees, the text is read as the bounds of a constraint. -/
def ReadsLimits (values : List Bound) (trailing : Bool) (tokens : Tokens) : Prop :=
  ∀ count limit rest, sizes tokens < count → tokens.length < limit → EndsArg rest →
    (rounds count).constraintBounds limit (tokens ++ rest) = some ((values, trailing), rest)

/-- With enough rounds, the reader of a phrase takes the text and answers with what it spells. -/
def Phrase.Reads : Phrase → Ending → Tokens → Prop
  | .type plus value, ending, tokens => ReadsType plus value ending tokens
  | .types values trailing, _, tokens => ∀ count limit, sizes tokens < count →
      tokens.length ≤ limit →
      commaList ((rounds count).type true) limit tokens = some (values, trailing)
  | .segment value, _, tokens => ∀ count rest, sizes tokens ≤ count → NoArguments rest →
      (rounds count).segment (tokens ++ rest) = some (value, rest)
  | .steps values, _, tokens => ∀ count qualified limit rest, sizes tokens ≤ count →
      tokens.length ≤ limit → StepsEnd qualified rest → ∃ first others middle,
        values = first :: others ∧
        (rounds count).segment (tokens ++ rest) = some (first, middle) ∧
        (rounds count).moreSegments qualified limit middle = some (others, rest)
  | .path value, _, tokens => ReadsPath value tokens
  | .arg value, _, tokens => ∀ count rest, sizes tokens < count → EndsArg rest →
      (rounds count).genericArg (tokens ++ rest) = some (value, rest)
  | .args values trailing, _, tokens => ∀ count limit rest, sizes tokens ≤ count →
      tokens.length ≤ limit →
      (rounds count).genericArgs limit (tokens ++ rest) = some ((values, trailing), rest)
  | .call value, ending, tokens => ∀ count rest, sizes tokens ≤ count → Calm rest →
      ending.Fits rest → (rounds count).call (tokens ++ rest) = some (value, rest)
  | .output value, ending, tokens => (value = none ∧ tokens = []) ∨
      ∃ type text, value = some type ∧ sizes text < sizes tokens ∧
        (∀ rest, eat? ['-', '>'] (tokens ++ rest) = some (text ++ rest)) ∧
        ReadsType false type ending text
  | .view _ value, _, tokens => (value = none ∧ tokens = []) ∨
      ∃ path text pos, value = some path ∧ tokens = .ident "as" pos :: text ∧
        ReadsPath path text
  | .traitPath value, ending, tokens => ∀ count rest, sizes tokens < count → Calm rest →
      ending.Fits rest → (rounds count).traitPath (tokens ++ rest) = some (value, rest)
  | .traitBound value, ending, tokens => ∀ count rest, sizes tokens < count → Calm rest →
      ending.Fits rest →
      (rounds count).traitBound value.wrapped (tokens ++ rest) = some (value, rest)
  | .bound value, ending, tokens => ∀ count rest,
      (lifetime? tokens = none → sizes tokens < count) → Calm rest → ending.Fits rest →
      (rounds count).bound (tokens ++ rest) = some (value, rest)
  | .more _ values trailing, ending, tokens => ∀ count limit rest, sizes tokens ≤ count →
      tokens.length ≤ limit →
      (Calm rest → ending.Fits rest →
        (rounds count).moreBounds limit (tokens ++ rest) = some ((values, trailing), rest) ∧
        (trailing = false →
          (rounds count).strictBounds limit (tokens ++ rest) = some (values, rest))) ∧
      (EndsArg rest → ∀ first, (rounds count).afterBound limit first (tokens ++ rest) =
        some ((first :: values, trailing), rest))
  | .bounds plus values trailing, ending, tokens =>
      (∀ count rest, sizes tokens ≤ count → (lifetime? tokens = none → sizes tokens < count) →
        Calm rest → ending.Fits rest →
        (rounds count).bounds plus (tokens ++ rest) = some ((values, trailing), rest)) ∧
      (plus = true → ReadsLimits values trailing tokens)
  | .limits values trailing, _, tokens => ReadsLimits values trailing tokens
  | .param first value, _, tokens => ∀ count rest, sizes tokens < count →
      StopsAt [','] rest → variadic? (tokens ++ rest) = none ∧ ∃ text,
        optional (paramName first) (tokens ++ rest) = (value.name, text) ∧
        (rounds count).type true text = some (value.type, rest)
  | .params first values trailing further, _, tokens => ∀ count limit, sizes tokens < count →
      tokens.length ≤ limit →
      (rounds count).params first limit tokens = some (values, trailing, further)

/-! ### Paths and generic arguments -/

theorem TypeReader.segmentArgs_angle {parts : TypeReader} {doubleColon trailing : Bool}
    {colons tokens rest : Tokens} {args : List GenericArg} (spacing : Spacing) (pos : Nat)
    (turbofish : Colons doubleColon colons) (noEquals : eat? ['='] tokens = none)
    (noLessEqual : eat? ['<', '='] tokens = none)
    (found : parts.genericArgs (tokens.length + 1) tokens = some ((args, trailing), rest)) :
    parts.segmentArgs (colons ++ .punct '<' spacing pos :: tokens) =
      some (.angle doubleColon args trailing, rest) := by
  cases turbofish with
  | absent =>
      have opens : opensArgs (.punct '<' spacing pos :: tokens) = true := by
        cases spacing with
        | alone => rfl
        | joint =>
            change (true && !(eat? ['='] tokens).isSome && !(eat? ['<', '='] tokens).isSome) = true
            rw [noEquals, noLessEqual]
            rfl
      unfold segmentArgs
      simp only [List.nil_append, opens, if_true, segmentArgs.read, eat?, found,
        Option.bind_eq_bind, Option.bind_some]
  | present =>
      unfold segmentArgs
      simp [opensArgs, nextIs, eat?, beyondTwo, segmentArgs.read, found]

theorem reads_bareSegment {name : String} {pos : Nat} (word : isSegmentWord name = true) :
    (Phrase.segment ⟨name, .none⟩).Reads .shut [.ident name pos] := by
  intro count rest _ none
  rw [isSegmentWord, Bool.or_eq_true] at word
  rcases word with path | same
  · exact segment_bare _ path none
  · cases beq_iff_eq.mp same
    rfl

theorem reads_openSegment {name : String} {pos pos' : Nat} {doubleColon trailing : Bool}
    {spacing : Spacing} {colons tokens : Tokens} {args : List GenericArg} {ending : Ending}
    (word : name = "Self" ∨ isName name = true) (turbofish : Colons doubleColon colons)
    (inner : Spelling (.args args trailing) ending tokens)
    (ih : (Phrase.args args trailing).Reads ending tokens) :
    (Phrase.segment ⟨name, .angle doubleColon args trailing⟩).Reads .shut
      (.ident name pos :: (colons ++ .punct '<' spacing pos' :: tokens)) := by
  intro count rest enough _
  simp only [sizes, size, sizes_append] at enough
  obtain ⟨noEquals, noLessEqual⟩ := inner.noComparison rest
  have found := ih count ((tokens ++ rest).length + 1) rest (by omega)
    (by rw [List.length_append]; omega)
  have opened := segmentArgs_angle spacing pos' turbofish noEquals noLessEqual found
  rw [List.cons_append, List.append_assoc, List.cons_append]
  exact segment_open (rounds count) word opened

theorem reads_lastStep {segment : Segment} {tokens : Tokens} {ending : Ending}
    (ih : (Phrase.segment segment).Reads ending tokens) :
    (Phrase.steps [segment]).Reads .shut tokens := by
  intro count qualified limit rest enough _ ends
  refine ⟨segment, [], rest, rfl, ih count rest enough ends.noArguments, ?_⟩
  cases limit with
  | zero => rfl
  | succ limit =>
      unfold moreSegments
      rcases ends.stopped with ended | ⟨inner, pos, more, call⟩
      · rw [ended]
      · cases qualified with
        | true =>
            rw [ends.closed rfl] at call
            cases call
        | false =>
            rw [call]
            rfl

theorem reads_moreSteps {segment : Segment} {segments : List Segment} {tokens more : Tokens}
    {ending ending' : Ending} {spacing : Spacing} {pos pos' : Nat}
    (others : Spelling (.steps segments) ending' more)
    (ihFirst : (Phrase.segment segment).Reads ending tokens)
    (ihOthers : (Phrase.steps segments).Reads ending' more) :
    (Phrase.steps (segment :: segments)).Reads .shut
      (tokens ++ .punct ':' .joint pos :: .punct ':' spacing pos' :: more) := by
  intro count qualified limit rest enough long ends
  obtain ⟨name, start, after, _, rfl⟩ := others.begins
  simp only [sizes, size, sizes_append] at enough
  simp only [List.length_append, List.length_cons] at long
  obtain ⟨limit, rfl⟩ := Nat.exists_eq_add_one.mpr (show 0 < limit by omega)
  obtain ⟨first, rest', middle, rfl, head, tail⟩ := ihOthers count qualified limit rest
    (by simp only [sizes, size]; omega) (by simp only [List.length_cons]; omega) ends
  rw [List.append_assoc]
  refine ⟨segment, first :: rest', _, rfl, ihFirst count _ (by omega) noArguments_of_word, ?_⟩
  unfold moreSegments
  simp only [List.cons_append] at head
  simp only [List.cons_append, eat?, group?, if_true, Option.isSome_none, Bool.and_false,
    Bool.false_eq_true, if_false, head, tail, Option.bind_eq_bind, Option.bind_some]

theorem reads_path {rooted : Bool} {segments : List Segment} {colons tokens : Tokens}
    {ending : Ending} (root : Colons rooted colons)
    (steps : Spelling (.steps segments) ending tokens)
    (ih : (Phrase.steps segments).Reads ending tokens) :
    ReadsPath ⟨startOf (colons ++ tokens), rooted, segments⟩ (colons ++ tokens) := by
  intro count rest enough ends
  rw [sizes_append] at enough
  obtain ⟨first, others, middle, rfl, head, tail⟩ := ih count false
    (colons ++ tokens ++ rest).length rest (by omega)
    (by simp only [List.length_append]; omega) ends
  obtain ⟨name, pos, after, _, rfl⟩ := steps.begins
  have start : ((colons ++ .ident name pos :: after ++ rest).head?.map TokenTree.pos).getD 0 =
      startOf (colons ++ .ident name pos :: after) := by
    cases root <;> rfl
  have marked : flag (eat? [':', ':']) (colons ++ .ident name pos :: after ++ rest) =
      (rooted, .ident name pos :: after ++ rest) := by
    rw [List.append_assoc]
    exact root.flag_eq rfl
  unfold pathStep
  simp only [marked, head, tail, start, Option.bind_eq_bind, Option.bind_some]

theorem ReadsPath.path_eq {path : Path} {tokens : Tokens} (reads : ReadsPath path tokens)
    {count : Nat} {rest : Tokens} (enough : sizes tokens < count) (ends : StepsEnd false rest) :
    (rounds count).path (tokens ++ rest) = some (path, rest) := by
  obtain ⟨count, rfl⟩ := Nat.exists_eq_add_one.mpr (Nat.zero_lt_of_lt enough)
  exact reads count rest (by omega) ends

/-! ### Types that begin with a path -/

section Parts

variable {parts : TypeReader} {tokens rest : Tokens}

def bindPath (path : Path) : Option Binder → TypeExpr
  | none => .path path
  | some binder => .object false [.trait ⟨false, false, some binder, path⟩] false

theorem TypeReader.pathType_end {path : Path} {plus : Bool} (binder : Option Binder)
    (found : parts.pathStep tokens = some (path, rest))
    (bang : single? '!' ['!', '='] rest = none) (ended : plus = true → eat? ['+'] rest = none) :
    parts.pathType plus binder tokens = some (bindPath path binder, rest) := by
  have noBang : (if isPlain path then single? '!' ['!', '='] rest else none) = none := by
    split
    · exact bang
    · rfl
  have noPlus : (plus && nextIs ['+'] rest) = false := by
    cases plus with
    | false => rfl
    | true =>
        rw [nextIs, ended rfl]
        rfl
  unfold pathType
  simp only [found, Option.bind_eq_bind, Option.bind_some, noBang, noPlus, Bool.false_eq_true,
    if_false]
  cases binder with
  | none => rfl
  | some binder => rfl

theorem TypeReader.pathType_sum {path : Path} {binder : Option Binder} {bounds : List Bound}
    {trailing : Bool} {middle : Tokens} (found : parts.pathStep tokens = some (path, middle))
    (calm : Calm middle) (plus : nextIs ['+'] middle = true)
    (more : parts.moreBounds tokens.length middle = some ((bounds, trailing), rest)) :
    parts.pathType true binder tokens =
      some (.object false (.trait ⟨false, false, binder, path⟩ :: bounds) trailing, rest) := by
  have noBang : (if isPlain path then single? '!' ['!', '='] middle else none) = none := by
    split
    · exact calm.bang
    · rfl
  unfold pathType
  simp only [found, Option.bind_eq_bind, Option.bind_some, noBang, plus, more, Bool.and_self,
    if_true]

theorem TypeReader.pathType_invocation {path : Path} {plus : Bool} {binder : Option Binder}
    {delimiter : Delimiter} {body : Tokens} {spacing : Spacing} {pos pos' : Nat}
    (found : parts.pathStep tokens =
      some (path, .punct '!' spacing pos :: .group delimiter body pos' :: rest))
    (plain : isPlain path = true) :
    parts.pathType plus binder tokens =
      some (.invocation path (.group delimiter body pos'), rest) := by
  have bang : single? '!' ['!', '=']
      (.punct '!' spacing pos :: .group delimiter body pos' :: rest) =
      some (.group delimiter body pos' :: rest) := by
    refine single?_pair_iff.mpr ?_
    cases spacing with
    | alone => exact .alone
    | joint => exact .joint nofun
  unfold pathType
  simp only [found, Option.bind_eq_bind, Option.bind_some, plain, if_true, bang]

theorem TypeReader.typeStep_binder {plus : Bool} {binder : Binder} {before : Tokens}
    (bindings : Bindings (some binder) before) :
    parts.typeStep plus (before ++ tokens) = parts.boundType plus binder tokens := by
  have found := bindings.binder_eq tokens
  cases bindings with
  | present =>
      change parts.wordType plus "for" _ _ = _
      simp only [wordType, found, Option.bind_eq_bind, Option.bind_some, if_true, String.reduceEq,
        if_false]

theorem TypeReader.boundType_name {plus : Bool} {binder : Binder} (starts : StartsName tokens) :
    parts.boundType plus binder tokens = parts.pathType plus (some binder) tokens := by
  obtain ⟨name, pos, others, word, rfl⟩ := starts
  simp only [boundType, isFunctionWord_of_isPathWord word, word, Bool.false_eq_true, if_true,
    if_false]

theorem TypeReader.typeStep_path {plus : Bool} {binder : Option Binder} {before text : Tokens}
    (bindings : Bindings binder before) (starts : StartsType text) (path : StartsPath text)
    (named : binder.isSome = true → StartsName text) :
    parts.typeStep plus (before ++ (text ++ rest)) = parts.pathType plus binder (text ++ rest) := by
  cases binder with
  | some binder => rw [typeStep_binder bindings, boundType_name ((named rfl).append rest)]
  | none =>
      cases bindings
      cases path with
      | word =>
          cases starts with
          | name word => exact wordType_eq parts plus word
      | colons => rfl

end Parts

theorem reads_bound_path {plus : Bool} {binder : Option Binder} {path : Path}
    {before tokens : Tokens} {ending : Ending} (bindings : Bindings binder before)
    (starts : StartsType tokens) (named : binder.isSome = true → StartsName tokens)
    (inner : Spelling (.path path) ending tokens) (ih : ReadsPath path tokens) :
    ReadsType plus (bindPath path binder) ⟨plus, false⟩ (before ++ tokens) := by
  intro count rest enough calm fits
  rw [sizes_append] at enough
  obtain ⟨count, rfl⟩ := Nat.exists_eq_add_one.mpr (Nat.zero_lt_of_lt enough)
  rw [List.append_assoc]
  refine (typeStep_path bindings starts inner.begins named).trans ?_
  exact pathType_end binder (ih count rest (by omega) (calm.stepsEnd false)) calm.bang fits.plus

theorem reads_pathType {plus : Bool} {path : Path} {tokens : Tokens} {ending : Ending}
    (starts : StartsType tokens) (inner : Spelling (.path path) ending tokens)
    (ih : ReadsPath path tokens) : ReadsType plus (.path path) ⟨plus, false⟩ tokens :=
  reads_bound_path .absent starts nofun inner ih

theorem reads_sumType {binder : Option Binder} {path : Path} {bounds : List Bound} {trailing : Bool}
    {before tokens more : Tokens} {ending ending' : Ending} (bindings : Bindings binder before)
    (starts : StartsType tokens) (named : binder.isSome = true → StartsName tokens)
    (inner : Spelling (.path path) ending tokens) (some : more ≠ [])
    (others : Spelling (.more .shut bounds trailing) ending' more) (ih : ReadsPath path tokens)
    (ihOthers : (Phrase.more .shut bounds trailing).Reads ending' more) :
    ReadsType true (.object false (.trait ⟨false, false, binder, path⟩ :: bounds) trailing) ending'
      (before ++ (tokens ++ more)) := by
  intro count rest enough calm fits
  simp only [sizes_append] at enough
  obtain ⟨count, rfl⟩ := Nat.exists_eq_add_one.mpr (Nat.zero_lt_of_lt enough)
  have between := others.calm_of_more calm
  have plus : nextIs ['+'] (more ++ rest) = true := by
    rcases others.begins with ⟨_, _, rfl⟩ | ⟨spacing, pos, after, rfl⟩
    · exact absurd rfl some
    · rfl
  have read := ((ihOthers count (tokens ++ (more ++ rest)).length rest (by omega)
    (by simp only [List.length_append]; omega)).1 calm fits).1
  rw [List.append_assoc, List.append_assoc]
  refine (typeStep_path bindings starts inner.begins named).trans ?_
  exact pathType_sum (ih count _ (by omega) (between.stepsEnd false)) between plus read

theorem reads_invocation {plus : Bool} {binder : Option Binder} {path : Path}
    {before tokens body : Tokens} {delimiter : Delimiter} {ending : Ending} {spacing : Spacing}
    {pos pos' : Nat} (bindings : Bindings binder before) (starts : StartsType tokens)
    (named : binder.isSome = true → StartsName tokens) (plain : isPlain path = true)
    (inner : Spelling (.path path) ending tokens) (ih : ReadsPath path tokens) :
    ReadsType plus (.invocation path (.group delimiter body pos')) .shut
      (before ++ (tokens ++ [.punct '!' spacing pos, .group delimiter body pos'])) := by
  intro count rest enough calm fits
  simp only [sizes_append, sizes] at enough
  obtain ⟨count, rfl⟩ := Nat.exists_eq_add_one.mpr (Nat.zero_lt_of_lt enough)
  rw [List.append_assoc, List.append_assoc]
  refine (typeStep_path bindings starts inner.begins named).trans ?_
  refine pathType_invocation
    (ih count _ (by omega) ⟨rfl, .inl (eat?_eq_none_of_single rfl),
      fun bound => absurd bound Bool.false_ne_true⟩) plain

/-! ### Generic arguments -/

section Parts

variable {parts : TypeReader} {tokens rest : Tokens}

theorem TypeReader.genericArg_typed (starts : StartsText tokens) :
    parts.genericArg tokens = genericArg.typed parts tokens := by
  unfold genericArg
  cases found : lifetime? tokens with
  | some result =>
      obtain ⟨name, after⟩ := result
      simp only [starts.plus_of_lifetime? found, if_true]
  | none => simp only [starts.startsConstant_eq_false, Bool.false_eq_true, if_false]

theorem TypeReader.typed_type {type : TypeExpr}
    (found : parts.type true tokens = some (type, rest)) (ends : EndsArg rest) :
    genericArg.typed parts tokens = some (.type type, rest) := by
  have noEquals : eat? ['='] rest = none := ends.stopsAt.eat?_eq_none (by decide)
  have noColon : eat? [':'] rest = none := ends.stopsAt.eat?_eq_none (by decide)
  simp only [genericArg.typed, found, noEquals, noColon, Option.bind_eq_bind, Option.bind_some]
  split <;> rfl

end Parts

theorem Spelling.bindable_eq {name : String} {args : PathArgs} {tokens : Tokens} {ending : Ending}
    (head : Spelling (.segment ⟨name, args⟩) ending tokens) (pos : Nat) :
    bindable (.path ⟨pos, false, [⟨name, args⟩]⟩) = some (pos, ⟨name, args⟩) := by
  cases head <;> rfl

theorem reads_head {segment : Segment} {tokens : Tokens} {ending : Ending}
    (word : isPathWord segment.name = true) (head : Spelling (.segment segment) ending tokens)
    (ih : (Phrase.segment segment).Reads ending tokens) :
    ReadsType true (.path ⟨startOf tokens, false, [segment]⟩) ⟨true, false⟩ tokens := by
  have starts : StartsType tokens := by
    cases head <;> exact .name word
  exact reads_pathType starts (.path .absent (.lastStep head))
    (reads_path .absent (.lastStep head) (reads_lastStep ih))

theorem startsText_of_head {segment : Segment} {tokens : Tokens} {ending : Ending}
    (word : isPathWord segment.name = true) (head : Spelling (.segment segment) ending tokens) :
    StartsText tokens := by
  cases head <;> exact .name word

theorem reads_lifetimeArg {name : String} {pos pos' : Nat} :
    (Phrase.arg (.lifetime pos name)).Reads .shut [.punct '\'' .joint pos, .ident name pos'] :=
  fun _ _ _ ends => genericArg_lifetime _ name pos pos' ends.stopsAt

theorem reads_typeArg {type : TypeExpr} {tokens : Tokens} {ending : Ending}
    (inner : Spelling (.type true type) ending tokens) (ih : ReadsType true type ending tokens) :
    (Phrase.arg (.type type)).Reads .shut tokens := by
  intro count rest enough ends
  rw [genericArg_typed (inner.startsText.append rest)]
  exact typed_type (ih count rest enough ends.calm (Ending.fits_of_endsArg ends ending)) ends

theorem reads_constArg {source value : Tokens} (read : constant? source = some (value, [])) :
    (Phrase.arg (.const (startOf source) value)).Reads .shut source := by
  intro count rest _ _
  have constant := constant?_append read rest
  have starts := startsConstant_of_constant? constant
  rcases constant?_forms read with ⟨text, pos, rfl⟩ | ⟨name, pos, truth, rfl⟩ |
    ⟨spacing, pos, text, pos', rfl⟩ | ⟨inner, pos, rfl⟩ <;>
  · simp only [List.cons_append, List.nil_append] at constant starts
    simp only [genericArg, List.cons_append, List.nil_append, lifetime?, starts, constant, if_true,
      Option.bind_eq_bind, Option.bind_some]
    rfl

theorem reads_typeBinding {name : String} {args : PathArgs} {value : TypeExpr}
    {tokens more : Tokens} {ending ending' : Ending} {spacing : Spacing} {pos : Nat}
    (word : isPathWord name = true) (head : Spelling (.segment ⟨name, args⟩) ending tokens)
    (inner : Spelling (.type true value) ending' more)
    (ih : (Phrase.segment ⟨name, args⟩).Reads ending tokens)
    (ihInner : ReadsType true value ending' more) :
    (Phrase.arg (.typeBinding (startOf tokens) name args value)).Reads .shut
      (tokens ++ .punct '=' spacing pos :: more) := by
  intro count rest enough ends
  simp only [sizes_append, sizes, size] at enough
  rw [List.append_assoc, List.cons_append,
    genericArg_typed ((startsText_of_head word head).append _)]
  have first := reads_head word head ih count (.punct '=' spacing pos :: (more ++ rest)) (by omega)
    (.punct (by decide) _ _ _) ⟨fun _ => rfl, fun bound => absurd bound Bool.false_ne_true⟩
  have second := ihInner count rest (by omega) ends.calm (Ending.fits_of_endsArg ends ending')
  have noConstant := (inner.startsText.append rest).startsConstant_eq_false
  simp only [genericArg.typed, first, head.bindable_eq, eat?, noConstant, second, if_true, if_false,
    Bool.false_eq_true, Option.bind_eq_bind, Option.bind_some]

theorem reads_constBinding {name : String} {args : PathArgs} {source value tokens : Tokens}
    {ending : Ending} {spacing : Spacing} {pos : Nat} (word : isPathWord name = true)
    (head : Spelling (.segment ⟨name, args⟩) ending tokens)
    (read : constant? source = some (value, []))
    (ih : (Phrase.segment ⟨name, args⟩).Reads ending tokens) :
    (Phrase.arg (.constBinding (startOf tokens) name args value)).Reads .shut
      (tokens ++ .punct '=' spacing pos :: source) := by
  intro count rest enough ends
  simp only [sizes_append, sizes, size] at enough
  rw [List.append_assoc, List.cons_append,
    genericArg_typed ((startsText_of_head word head).append _)]
  have first := reads_head word head ih count (.punct '=' spacing pos :: (source ++ rest))
    (by omega) (.punct (by decide) _ _ _)
    ⟨fun _ => rfl, fun bound => absurd bound Bool.false_ne_true⟩
  have constant := constant?_append read rest
  have starts := startsConstant_of_constant? constant
  simp only [genericArg.typed, first, head.bindable_eq, eat?, starts, constant, if_true,
    Option.bind_eq_bind, Option.bind_some]

theorem Lone.append_of_endsArg {colon : TokenTree} {more rest : Tokens}
    (lone : Lone ':' ':' (colon :: more) more) (ends : EndsArg rest) :
    Lone ':' ':' (colon :: (more ++ rest)) (more ++ rest) := by
  cases lone with
  | alone => exact .alone
  | joint single =>
      refine .joint ?_
      rintro spacing pos others same
      cases more with
      | nil =>
          obtain ⟨char, spacing', pos', after, member, rfl⟩ := ends
          cases same
          exact absurd member (by decide)
      | cons tree later =>
          cases same
          exact single _ _ _ rfl

theorem reads_constraint {name : String} {args : PathArgs} {bounds : List Bound} {trailing : Bool}
    {colon : TokenTree} {tokens more : Tokens} {ending ending' : Ending}
    (word : isPathWord name = true) (head : Spelling (.segment ⟨name, args⟩) ending tokens)
    (lone : Lone ':' ':' (colon :: more) more)
    (ih : (Phrase.segment ⟨name, args⟩).Reads ending tokens)
    (ihInner : (Phrase.limits bounds trailing).Reads ending' more) :
    (Phrase.arg (.constraint (startOf tokens) name args bounds trailing)).Reads .shut
      (tokens ++ colon :: more) := by
  intro count rest enough ends
  simp only [sizes_append, sizes] at enough
  have positive := colon.size_pos
  rw [List.append_assoc, List.cons_append,
    genericArg_typed ((startsText_of_head word head).append _)]
  have apart := lone.append_of_endsArg ends
  have first := reads_head word head ih count (colon :: (more ++ rest)) (by omega) (.lone apart)
    (Ending.fits_lone apart _)
  have second := ihInner count ((more ++ rest).length + 1) rest (by omega)
    (by rw [List.length_append]; omega) ends
  have taken : eat? [':'] (colon :: (more ++ rest)) = some (more ++ rest) :=
    (single?_eq_some_iff.mp (single?_pair_iff.mpr apart)).2
  have noEquals : eat? ['='] (colon :: (more ++ rest)) = none := by
    cases apart <;> rfl
  simp only [genericArg.typed, first, head.bindable_eq, noEquals, taken, second,
    Option.bind_eq_bind, Option.bind_some]

theorem reads_closeArgs {spacing : Spacing} {pos : Nat} :
    (Phrase.args [] false).Reads .shut [.punct '>' spacing pos] := by
  intro count limit rest _ long
  obtain ⟨limit, rfl⟩ := Nat.exists_eq_add_one.mpr (Nat.lt_of_lt_of_le Nat.zero_lt_one long)
  rfl

theorem reads_lastArg {arg : GenericArg} {tokens : Tokens} {ending : Ending} {spacing : Spacing}
    {pos : Nat} (only : Spelling (.arg arg) ending tokens)
    (ih : (Phrase.arg arg).Reads ending tokens) :
    (Phrase.args [arg] false).Reads .shut (tokens ++ [.punct '>' spacing pos]) := by
  intro count limit rest enough long
  simp only [sizes_append, sizes, size] at enough
  simp only [List.length_append, List.length_singleton] at long
  obtain ⟨limit, rfl⟩ := Nat.exists_eq_add_one.mpr (show 0 < limit by omega)
  rw [List.append_assoc]
  have found := ih count ([.punct '>' spacing pos] ++ rest) (by omega)
    ⟨_, _, _, _, by decide, rfl⟩
  exact genericArgs_last _ (only.startsArg _).closing found

theorem reads_moreArgs {arg : GenericArg} {args : List GenericArg} {trailing : Bool}
    {tokens more : Tokens} {ending ending' : Ending} {spacing : Spacing} {pos : Nat}
    (first : Spelling (.arg arg) ending tokens) (ihFirst : (Phrase.arg arg).Reads ending tokens)
    (ihOthers : (Phrase.args args trailing).Reads ending' more) :
    (Phrase.args (arg :: args) (trailing || args.isEmpty)).Reads .shut
      (tokens ++ .punct ',' spacing pos :: more) := by
  intro count limit rest enough long
  simp only [sizes_append, sizes, size] at enough
  simp only [List.length_append, List.length_cons] at long
  obtain ⟨limit, rfl⟩ := Nat.exists_eq_add_one.mpr (show 0 < limit by omega)
  rw [List.append_assoc]
  have found := ihFirst count (.punct ',' spacing pos :: (more ++ rest)) (by omega)
    ⟨_, _, _, _, by decide, rfl⟩
  exact genericArgs_more _ (first.startsArg _).closing found
    (ihOthers count limit rest (by omega) (by omega))

theorem reads_noTypes : (Phrase.types [] false).Reads .shut [] := by
  intro count limit _ _
  rw [commaList]

theorem reads_lastType {type : TypeExpr} {tokens : Tokens} {ending : Ending}
    (only : Spelling (.type true type) ending tokens) (ih : ReadsType true type ending tokens) :
    (Phrase.types [type] false).Reads .shut tokens := by
  intro count limit enough long
  have nonempty := only.startsText.ne_nil
  obtain ⟨limit, rfl⟩ := Nat.exists_eq_add_one.mpr
    (Nat.lt_of_lt_of_le (List.length_pos_iff.mpr nonempty) long)
  have found := ih count [] enough .nil (Ending.fits_nil ending)
  rw [List.append_nil] at found
  exact commaList_of_last nonempty found

theorem reads_moreTypes {type : TypeExpr} {types : List TypeExpr} {trailing : Bool}
    {tokens more : Tokens} {ending ending' : Ending} {spacing : Spacing} {pos : Nat}
    (ihFirst : ReadsType true type ending tokens)
    (ihOthers : (Phrase.types types trailing).Reads ending' more) :
    (Phrase.types (type :: types) (trailing || types.isEmpty)).Reads .shut
      (tokens ++ .punct ',' spacing pos :: more) := by
  intro count limit enough long
  simp only [sizes_append, sizes, size] at enough
  simp only [List.length_append, List.length_cons] at long
  obtain ⟨limit, rfl⟩ := Nat.exists_eq_add_one.mpr (show 0 < limit by omega)
  have ends : EndsArg (.punct ',' spacing pos :: more) := ⟨_, _, _, _, by decide, rfl⟩
  have found := ihFirst count _ (by omega) ends.calm (Ending.fits_of_endsArg ends ending)
  rw [commaList_of_comma (by simp) found, ihOthers count limit (by omega) (by omega)]
  rfl

theorem reads_someOutput {output : TypeExpr} {tokens : Tokens} {ending : Ending}
    {spacing : Spacing} {pos pos' : Nat} (ih : ReadsType false output ending tokens) :
    (Phrase.output (some output)).Reads ending
      (.punct '-' .joint pos :: .punct '>' spacing pos' :: tokens) := by
  refine .inr ⟨output, tokens, rfl, ?_, fun rest => rfl, ih⟩
  simp only [sizes, size]
  omega

theorem reads_call {pos : Nat} {inputs : List TypeExpr} {trailing : Bool}
    {output : Option TypeExpr} {tokens more : Tokens} {ending ending' : Ending}
    (ihFirst : (Phrase.types inputs trailing).Reads ending tokens)
    (ihSecond : (Phrase.output output).Reads ending' more) :
    (Phrase.call (.call pos inputs trailing output)).Reads ending'
      (.group .paren tokens pos :: more) := by
  intro count rest enough calm fits
  simp only [sizes, size] at enough
  have listed := ihFirst count tokens.length (by omega) (Nat.le_refl _)
  rcases ihSecond with ⟨rfl, rfl⟩ | ⟨type, text, rfl, smaller, arrow, reads⟩
  · simp only [List.cons_append, List.nil_append, call, listed, calm.arrow, Option.bind_eq_bind,
      Option.bind_some]
  · have found := reads count rest (by omega) calm fits
    simp only [List.cons_append, call, listed, arrow, found, Option.bind_eq_bind,
      Option.bind_some]

/-! ### Bounds -/

theorem reads_plainTrait {path : Path} {tokens : Tokens} (ih : ReadsPath path tokens) :
    (Phrase.traitPath path).Reads .shut tokens := by
  intro count rest enough calm _
  have found := ih.path_eq enough (calm.stepsEnd false)
  have noCall : skipToCall rest = none := by
    unfold skipToCall
    split
    · cases calm.group
    · rw [calm.colons]
  simp only [traitPath, found, noCall, Option.bind_eq_bind, Option.bind_some]
  split
  · rfl
  · rename_i last _
    cases yieldsToCall last.args <;> rfl

theorem Colons.skipToCall_eq {doubleColon : Bool} {colons inner rest : Tokens} {pos : Nat}
    (turbofish : Colons doubleColon colons) :
    skipToCall (colons ++ .group .paren inner pos :: rest) =
      some (.group .paren inner pos :: rest) := by
  cases turbofish <;> rfl

theorem reads_calledTrait {pos : Nat} {rooted doubleColon : Bool} {segments : List Segment}
    {last : Segment} {args : PathArgs} {tokens colons more : Tokens} {ending' : Ending}
    (yields : yieldsToCall last.args = true) (turbofish : Colons doubleColon colons)
    (called : Spelling (.call args) ending' more)
    (ih : ReadsPath ⟨pos, rooted, segments ++ [last]⟩ tokens)
    (ihCalled : (Phrase.call args).Reads ending' more) :
    (Phrase.traitPath ⟨pos, rooted, segments ++ [⟨last.name, args⟩]⟩).Reads ending'
      (tokens ++ (colons ++ more)) := by
  intro count rest enough calm fits
  simp only [sizes_append] at enough
  have read := ihCalled count rest (by omega) calm fits
  cases called with
  | @call start _ _ _ inner output _ _ first second =>
      have ends : StepsEnd false (colons ++ .group .paren inner start :: (output ++ rest)) := by
        cases turbofish with
        | absent => exact ⟨rfl, .inl rfl, nofun⟩
        | present => exact ⟨rfl, .inr ⟨_, _, _, rfl⟩, nofun⟩
      have found := ih.path_eq (show sizes tokens < count by omega) ends
      rw [List.append_assoc, List.append_assoc, List.cons_append]
      rw [List.cons_append] at read
      simp only [traitPath, found, List.getLast?_append, List.getLast?_singleton, Option.some_or,
        yields, turbofish.skipToCall_eq, read, List.dropLast_concat, Option.bind_eq_bind,
        Option.bind_some]

theorem reads_traitBound {wrapped relaxed : Bool} {binder : Option Binder} {path : Path}
    {question before tokens : Tokens} {ending : Ending} (mark : Marked '?' relaxed question)
    (bindings : Bindings binder before) (inner : Spelling (.traitPath path) ending tokens)
    (ih : (Phrase.traitPath path).Reads ending tokens) :
    (Phrase.traitBound ⟨wrapped, relaxed, binder, path⟩).Reads ending
      (question ++ (before ++ tokens)) := by
  intro count rest enough calm fits
  simp only [sizes_append] at enough
  have found := ih count rest (by omega) calm fits
  have starts : StartsPath (tokens ++ rest) := StartsPath.append inner.begins rest
  have unmarked : eat? ['?'] (before ++ (tokens ++ rest)) = none := by
    cases bindings with
    | absent => exact starts.eat?_eq_none (by decide)
    | present => rfl
  rw [List.append_assoc, List.append_assoc]
  unfold traitBound
  rw [mark.flag_eq unmarked]
  have noBinder : word? "for" (tokens ++ rest) = none := starts.word?_eq_none rfl
  cases binder with
  | none =>
      cases bindings
      simp only [List.nil_append, noBinder, found,
        Option.bind_eq_bind, Option.bind_some]
  | some names =>
      have bound := bindings.binder_eq (tokens ++ rest)
      have keyword : ∃ after, word? "for" (before ++ (tokens ++ rest)) = some after := by
        cases bindings
        exact ⟨_, rfl⟩
      obtain ⟨after, keyword⟩ := keyword
      simp only [keyword, bound, found, Option.bind_eq_bind, Option.bind_some]

theorem reads_lifetimeBound {name : String} {pos pos' : Nat} :
    (Phrase.bound (.lifetime name)).Reads .shut [.punct '\'' .joint pos, .ident name pos'] :=
  fun _ _ _ _ _ => rfl

theorem reads_wrappedBound {bound : TraitBound} {tokens : Tokens} {ending : Ending} {pos : Nat}
    (wrapped : bound.wrapped = true) (ih : (Phrase.traitBound bound).Reads ending tokens) :
    (Phrase.bound (.trait bound)).Reads .shut [.group .paren tokens pos] := by
  intro count rest enough _ _
  have smaller := enough rfl
  simp only [sizes, size] at smaller
  have found := ih count [] (by omega) .nil (Ending.fits_nil ending)
  rw [List.append_nil, wrapped] at found
  simp only [TypeReader.bound, List.singleton_append, lifetime?, whole?, found,
    Option.bind_eq_bind, Option.bind_some]

theorem reads_plainBound {bound : TraitBound} {tokens : Tokens} {ending : Ending}
    (plain : bound.wrapped = false) (inner : Spelling (.traitBound bound) ending tokens)
    (ih : (Phrase.traitBound bound).Reads ending tokens) :
    (Phrase.bound (.trait bound)).Reads ending tokens := by
  intro count rest enough calm fits
  have begins : StartsTrait tokens := inner.begins
  have starts : StartsTrait (tokens ++ rest) := begins.append rest
  have found := ih count rest (enough begins.lifetime?_eq_none) calm fits
  rw [plain] at found
  unfold TypeReader.bound
  rw [starts.lifetime?_eq_none]
  dsimp only
  split
  · rename_i same
    rw [same] at starts
    cases starts.ungrouped
  · rw [found]
    rfl

theorem reads_noMore {before : Ending} :
    (Phrase.more before [] false).Reads ⟨true, before.bound⟩ [] := by
  intro count limit rest _ _
  refine ⟨?_, ?_⟩
  · intro calm fits
    have ended := fits.plus rfl
    cases limit with
    | zero => exact ⟨rfl, fun _ => rfl⟩
    | succ limit =>
        refine ⟨?_, fun _ => ?_⟩
        · simp only [moreBounds, List.nil_append, ended]
        · simp only [strictBounds, List.nil_append, ended]
  · intro ends first
    rw [List.nil_append, afterBound, ends.stopsAt.eat?_eq_none (by decide)]

theorem reads_trailingPlus {before : Ending} {spacing : Spacing} {pos : Nat} :
    (Phrase.more before [] true).Reads ⟨false, true⟩ [.punct '+' spacing pos] := by
  intro count limit rest _ long
  obtain ⟨limit, rfl⟩ := Nat.exists_eq_add_one.mpr (Nat.lt_of_lt_of_le Nat.zero_lt_one long)
  refine ⟨?_, ?_⟩
  · intro calm fits
    refine ⟨?_, nofun⟩
    simp only [moreBounds, List.singleton_append, eat?, fits.bound rfl, if_true, if_false,
      Bool.false_eq_true]
  · intro ends first
    simp only [afterBound, List.singleton_append, eat?, constraintBounds, ends.closes, if_true,
      Option.bind_eq_bind, Option.bind_some, List.isEmpty_nil, Bool.or_true]

theorem TypeReader.constraintBounds_eq {parts : TypeReader} {limit : Nat} {first : Bound}
    {tokens rest : Tokens} (starts : StartsSum tokens)
    (found : parts.bound tokens = some (first, rest)) :
    parts.constraintBounds (limit + 1) tokens = parts.afterBound limit first rest := by
  have goesOn : (nextIs [','] tokens || nextIs ['>'] tokens) = false := by
    rw [nextIs, nextIs, starts.eat?_eq_none (by decide), starts.eat?_eq_none (by decide)]
    rfl
  simp only [constraintBounds, goesOn, found, Option.bind_eq_bind, Option.bind_some,
    Bool.false_eq_true, if_false]
  rfl

theorem reads_moreBounds {before ending ending' : Ending} {bound : Bound} {bounds : List Bound}
    {trailing : Bool} {tokens more : Tokens} {spacing : Spacing} {pos : Nat}
    (first : Spelling (.bound bound) ending tokens)
    (others : Spelling (.more ending bounds trailing) ending' more)
    (ihFirst : (Phrase.bound bound).Reads ending tokens)
    (ihOthers : (Phrase.more ending bounds trailing).Reads ending' more) :
    (Phrase.more before (bound :: bounds) trailing).Reads ending'
      (.punct '+' spacing pos :: (tokens ++ more)) := by
  intro count limit rest enough long
  simp only [sizes, size, sizes_append] at enough
  simp only [List.length_cons, List.length_append] at long
  obtain ⟨limit, rfl⟩ := Nat.exists_eq_add_one.mpr (show 0 < limit by omega)
  have sum : StartsSum (tokens ++ (more ++ rest)) := StartsSum.append first.begins _
  obtain ⟨open', constrained⟩ := ihOthers count limit rest (by omega) (by omega)
  rw [List.cons_append, List.append_assoc]
  refine ⟨?_, ?_⟩
  · intro calm fits
    obtain ⟨more', strict⟩ := open' calm fits
    have found := ihFirst count _ (fun _ => by omega) (others.calm_of_more calm)
      (others.fits_of_more fits)
    refine ⟨?_, fun closed => ?_⟩
    · simp only [moreBounds, eat?, sum.startsBound, found, more', if_true, Option.bind_eq_bind,
        Option.bind_some]
    · simp only [strictBounds, eat?, found, strict closed, if_true, Option.bind_eq_bind,
        Option.bind_some]
  · intro ends previous
    have found := ihFirst count _ (fun _ => by omega) (others.calm_of_more ends.calm)
      (others.fits_of_more (Ending.fits_of_endsArg ends ending'))
    have next := (constraintBounds_eq sum found).trans (constrained ends bound)
    simp only [afterBound, eat?, if_true, next, Option.bind_eq_bind, Option.bind_some,
      List.isEmpty_cons, Bool.or_false]

theorem reads_oneBound {bound : Bound} {tokens : Tokens} {ending : Ending}
    (ih : (Phrase.bound bound).Reads ending tokens) :
    (Phrase.bounds false [bound] false).Reads ending tokens := by
  refine ⟨?_, nofun⟩
  intro count rest _ enough calm fits
  simp only [TypeReader.bounds, ih count rest enough calm fits, Option.bind_eq_bind,
    Option.bind_some, Bool.false_eq_true, if_false]

theorem reads_sum {bound : Bound} {bounds : List Bound} {trailing : Bool} {tokens more : Tokens}
    {ending ending' : Ending} (first : Spelling (.bound bound) ending tokens)
    (others : Spelling (.more ending bounds trailing) ending' more)
    (ihFirst : (Phrase.bound bound).Reads ending tokens)
    (ihOthers : (Phrase.more ending bounds trailing).Reads ending' more) :
    (Phrase.bounds true (bound :: bounds) trailing).Reads ending' (tokens ++ more) := by
  refine ⟨?_, fun _ => ?_⟩
  · intro count rest enough ready calm fits
    simp only [sizes_append] at enough ready
    have begun : lifetime? tokens = none → sizes tokens < count := by
      intro unticked
      have whole : lifetime? (tokens ++ more) = none := by
        cases first with
        | lifetimeBound => cases unticked
        | wrappedBound => rfl
        | plainBound plain inner =>
            exact (StartsTrait.append inner.begins more).lifetime?_eq_none
      have smaller := ready whole
      omega
    have found := ihFirst count _ begun (others.calm_of_more calm) (others.fits_of_more fits)
    have goesOn := ((ihOthers count (tokens ++ (more ++ rest)).length rest (by omega)
      (by simp only [List.length_append]; omega)).1 calm fits).1
    rw [List.append_assoc]
    simp only [TypeReader.bounds, found, goesOn, if_true, Option.bind_eq_bind, Option.bind_some]
  · intro count limit rest enough long ends
    simp only [sizes_append] at enough
    simp only [List.length_append] at long
    obtain ⟨limit, rfl⟩ := Nat.exists_eq_add_one.mpr (Nat.zero_lt_of_lt long)
    have found := ihFirst count _ (fun _ => by omega) (others.calm_of_more ends.calm)
      (others.fits_of_more (Ending.fits_of_endsArg ends ending'))
    have next := (ihOthers count limit rest (by omega) (by omega)).2 ends bound
    rw [List.append_assoc]
    exact (constraintBounds_eq (StartsSum.append first.begins (more ++ rest)) found).trans next

theorem reads_noLimits : (Phrase.limits [] false).Reads .shut [] := by
  intro count limit rest _ long ends
  obtain ⟨limit, rfl⟩ := Nat.exists_eq_add_one.mpr (Nat.zero_lt_of_lt long)
  simp only [List.nil_append, constraintBounds, ends.closes, if_true]

/-! ### Types that begin with a mark -/

theorem reads_someView {before : Ending} {path : Path} {tokens : Tokens} {pos : Nat}
    (ih : ReadsPath path tokens) :
    (Phrase.view before (some path)).Reads .shut (.ident "as" pos :: tokens) :=
  .inr ⟨path, tokens, pos, rfl, rfl, ih⟩

theorem Spelling.fits_of_view {before ending : Ending} {view : Option Path} {seen : Tokens}
    (spelled : Spelling (.view before view) ending seen) (rest : Tokens) (spacing : Spacing)
    (pos : Nat) :
    Calm (seen ++ .punct '>' spacing pos :: rest) ∧
      before.Fits (seen ++ .punct '>' spacing pos :: rest) := by
  have ends : EndsArg (.punct '>' spacing pos :: rest) := ⟨_, _, _, _, by decide, rfl⟩
  cases spelled with
  | noView => exact ⟨ends.calm, Ending.fits_of_endsArg ends before⟩
  | someView ended inner =>
      refine ⟨.ident "as" _ _, fun _ => rfl, ?_⟩
      intro takes
      rw [ended] at takes
      cases takes

theorem reads_qualified {plus : Bool} {self : TypeExpr} {view : Option Path}
    {segments : List Segment} {tokens seen more : Tokens} {ending ending' ending'' : Ending}
    {spacing spacing' spacing'' : Spacing} {pos pos' pos'' pos''' : Nat}
    (second : Spelling (.view ending view) ending' seen)
    (ihFirst : ReadsType true self ending tokens)
    (ihSecond : (Phrase.view ending view).Reads ending' seen)
    (ihThird : (Phrase.steps segments).Reads ending'' more) :
    ReadsType plus (.qualified self view segments) .shut
      (.punct '<' spacing pos :: (tokens ++ (seen ++ .punct '>' spacing' pos' ::
        .punct ':' .joint pos'' :: .punct ':' spacing'' pos''' :: more))) := by
  intro count rest enough calm _
  simp only [sizes_append, sizes, size] at enough
  obtain ⟨count, rfl⟩ := Nat.exists_eq_add_one.mpr (Nat.zero_lt_of_lt enough)
  obtain ⟨between, fits⟩ := second.fits_of_view
    (.punct ':' .joint pos'' :: .punct ':' spacing'' pos''' :: (more ++ rest)) spacing' pos'
  have found := ihFirst count _ (by omega) between fits
  obtain ⟨first, others, middle, rfl, head, tail⟩ := ihThird count true
    (tokens ++ (seen ++ .punct '>' spacing' pos' ::
      .punct ':' .joint pos'' :: .punct ':' spacing'' pos''' :: (more ++ rest))).length rest
    (by omega) (by simp only [List.length_append, List.length_cons]; omega) (calm.stepsEnd true)
  simp only [List.append_assoc, List.cons_append]
  change (rounds count).qualifiedRest _ = _
  rcases ihSecond with ⟨rfl, rfl⟩ | ⟨path, text, start, rfl, rfl, reads⟩
  · simp only [List.nil_append] at found tail
    simp only [qualifiedRest, List.nil_append, found, word?, eat?, head, tail, if_true,
      Option.bind_eq_bind, Option.bind_some]
  · simp only [List.cons_append] at found tail
    have viewed : StepsEnd false (.punct '>' spacing' pos' ::
        .punct ':' .joint pos'' :: .punct ':' spacing'' pos''' :: (more ++ rest)) :=
      (Calm.punct (by decide) spacing' pos' _).stepsEnd false
    simp only [sizes, size] at enough
    have pathFound := reads.path_eq (show sizes text < count by omega) viewed
    simp only [qualifiedRest, List.cons_append, found, word?, eat?, pathFound, head, tail, if_true,
      Option.bind_eq_bind, Option.bind_some]

theorem reads_reference {plus mutable : Bool} {name : Option String} {target : TypeExpr}
    {life access tokens : Tokens} {ending : Ending} {spacing : Spacing} {pos : Nat}
    (lifetime : Named name life) (kind : Keyword "mut" mutable access)
    (unticked : name = none → lifetime? (access ++ tokens) = none)
    (inner : Spelling (.type false target) ending tokens)
    (ih : ReadsType false target ending tokens) :
    ReadsType plus (.reference name mutable target) ending
      (.punct '&' spacing pos :: (life ++ (access ++ tokens))) := by
  intro count rest enough calm fits
  simp only [sizes_append, sizes, size] at enough
  obtain ⟨count, rfl⟩ := Nat.exists_eq_add_one.mpr (Nat.zero_lt_of_lt enough)
  have found := ih count rest (by omega) calm fits
  have apart : name = none → lifetime? (access ++ (tokens ++ rest)) = none := by
    intro absent
    have alone := unticked absent
    cases kind with
    | absent => exact inner.startsText.lifetime?_append alone rest
    | present => rfl
  have named := lifetime.optional_eq apart
  have noKeyword : word? "mut" (tokens ++ rest) = none :=
    (inner.startsText.append rest).word?_eq_none rfl (by decide)
  have marked := kind.flag_eq noKeyword
  simp only [List.append_assoc, List.cons_append]
  change (rounds count).reference _ = _
  simp only [reference, named, marked, found, Option.bind_eq_bind, Option.bind_some]

theorem reads_pointer {plus mutable : Bool} {target : TypeExpr} {tokens : Tokens}
    {ending : Ending} {spacing : Spacing} {pos pos' : Nat}
    (ih : ReadsType false target ending tokens) :
    ReadsType plus (.pointer mutable target) ending
      (.punct '*' spacing pos :: .ident (if mutable then "mut" else "const") pos' :: tokens) := by
  intro count rest enough calm fits
  simp only [sizes, size] at enough
  obtain ⟨count, rfl⟩ := Nat.exists_eq_add_one.mpr (Nat.zero_lt_of_lt enough)
  exact typeStep_pointer _ spacing pos pos' plus (ih count rest (by omega) calm fits)

theorem reads_traitSum {plus trailing : Bool} {bounds : List Bound} {tokens : Tokens}
    {ending : Ending} (count : Nat) (trait : bounds.any namesTrait = true)
    (ih : (Phrase.bounds plus bounds trailing).Reads ending tokens) {rest : Tokens}
    (enough : sizes tokens ≤ count) (ready : lifetime? tokens = none → sizes tokens < count)
    (calm : Calm rest) (fits : ending.Fits rest) :
    (rounds count).traitSum plus (tokens ++ rest) = some ((bounds, trailing), rest) := by
  simp only [traitSum, ih.1 count rest enough ready calm fits, trait, if_true,
    Option.bind_eq_bind, Option.bind_some]

theorem reads_tickedType {plus : Bool} {bounds : List Bound} {trailing : Bool} {tokens : Tokens}
    {ending : Ending} (ticked : (lifetime? tokens).isSome = true)
    (trait : bounds.any namesTrait = true)
    (ih : (Phrase.bounds true bounds trailing).Reads ending tokens) :
    ReadsType plus (.object false bounds trailing) ending tokens := by
  intro count rest enough calm fits
  obtain ⟨count, rfl⟩ := Nat.exists_eq_add_one.mpr (Nat.zero_lt_of_lt enough)
  have found := reads_traitSum count trait ih (by omega)
    (fun absent => by rw [absent] at ticked; cases ticked) calm fits
  obtain ⟨result, name⟩ := Option.isSome_iff_exists.mp ticked
  obtain ⟨pos, pos', same⟩ := lifetime?_eq_some_iff.mp (Prod.eta result ▸ name)
  subst same
  change ((rounds count).traitSum true _).bind _ = _
  rw [found]
  rfl

/-! ### Types that are groups or begin with one -/

theorem TypeReader.parenthesised_unticked {parts : TypeReader} {plus : Bool} {inner rest : Tokens}
    (starts : StartsText inner) (unticked : lifetime? inner = none) :
    parts.parenthesised plus inner rest = (do
      let (first, after) ← parts.type true inner
      match eat? [','] after with
      | some after => do
          let (others, trailing) ← commaList (parts.type true) after.length after
          some (.tuple (first :: others) (trailing || others.isEmpty), rest)
      | none =>
        if after.isEmpty then
          match (if plus && nextIs ['+'] rest then asBound first else none) with
          | some bound => do
              let (others, rest) ← parts.strictBounds rest.length rest
              some (.object false (bound :: others) false, rest)
          | none => some (.paren first, rest)
        else none) := by
  have noLifetime : ¬(lifetime? inner).isSome = true := by
    rw [unticked]
    exact Bool.false_ne_true
  have noQuestion : ¬nextIs ['?'] inner = true := by
    rw [nextIs, starts.eat?_eq_none (by decide)]
    exact Bool.false_ne_true
  unfold parenthesised
  split
  · exact absurd rfl starts.ne_nil
  · exact (if_neg noLifetime).trans (if_neg noQuestion)

theorem reads_parens {plus : Bool} {type : TypeExpr} {tokens : Tokens} {ending : Ending} {pos : Nat}
    (unticked : lifetime? tokens = none) (inner : Spelling (.type true type) ending tokens)
    (ih : ReadsType true type ending tokens) :
    ReadsType plus (.paren type) ⟨plus && (asBound type).isSome, false⟩
      [.group .paren tokens pos] := by
  intro count rest enough calm fits
  simp only [sizes, size] at enough
  obtain ⟨count, rfl⟩ := Nat.exists_eq_add_one.mpr (Nat.zero_lt_of_lt enough)
  have found := ih count [] (by omega) .nil (Ending.fits_nil ending)
  rw [List.append_nil] at found
  have noSum : (if plus && nextIs ['+'] rest then asBound type else none) = none := by
    cases plus with
    | false => rfl
    | true =>
        cases names : asBound type with
        | none => split <;> rfl
        | some bound =>
            rw [nextIs, fits.plus (by rw [names]; rfl)]
            rfl
  change (rounds count).parenthesised plus tokens rest = _
  rw [parenthesised_unticked inner.startsText unticked, found]
  simp only [Option.bind_eq_bind, Option.bind_some, eat?, List.isEmpty_nil, if_true, noSum]

theorem reads_tickedParens {plus : Bool} {bounds : List Bound} {trailing : Bool} {tokens : Tokens}
    {ending : Ending} {pos : Nat} (ticked : (lifetime? tokens).isSome = true)
    (trait : bounds.any namesTrait = true)
    (ih : (Phrase.bounds true bounds trailing).Reads ending tokens) :
    ReadsType plus (.paren (.object false bounds trailing)) .shut [.group .paren tokens pos] := by
  intro count rest enough _ _
  simp only [sizes, size] at enough
  obtain ⟨count, rfl⟩ := Nat.exists_eq_add_one.mpr (Nat.zero_lt_of_lt enough)
  have found := reads_traitSum count trait ih (by omega) (fun _ => by omega) .nil
    (Ending.fits_nil ending)
  rw [List.append_nil] at found
  change (rounds count).parenthesised plus tokens rest = _
  unfold parenthesised
  split
  · cases ticked
  · simp only [ticked, whole?, found, if_true, Option.bind_eq_bind, Option.bind_some]

theorem reads_parenSum {type : TypeExpr} {bound : Bound} {bounds : List Bound}
    {tokens more : Tokens} {ending ending' : Ending} {pos : Nat}
    (unticked : lifetime? tokens = none) (inner : Spelling (.type true type) ending tokens)
    (names : asBound type = some bound) (some : more ≠ [])
    (others : Spelling (.more .shut bounds false) ending' more)
    (ih : ReadsType true type ending tokens)
    (ihOthers : (Phrase.more .shut bounds false).Reads ending' more) :
    ReadsType true (.object false (bound :: bounds) false) ending'
      (.group .paren tokens pos :: more) := by
  intro count rest enough calm fits
  simp only [sizes, size] at enough
  obtain ⟨count, rfl⟩ := Nat.exists_eq_add_one.mpr (Nat.zero_lt_of_lt enough)
  have found := ih count [] (by omega) .nil (Ending.fits_nil ending)
  rw [List.append_nil] at found
  have plus : nextIs ['+'] (more ++ rest) = true := by
    rcases others.begins with ⟨_, _, rfl⟩ | ⟨spacing, pos, after, rfl⟩
    · exact absurd rfl some
    · rfl
  have strict := ((ihOthers count (more ++ rest).length rest (by omega)
    (by rw [List.length_append]; omega)).1 calm fits).2 rfl
  change (rounds count).parenthesised true tokens (more ++ rest) = _
  rw [parenthesised_unticked inner.startsText unticked, found]
  simp only [Option.bind_eq_bind, Option.bind_some, eat?, List.isEmpty_nil, plus, Bool.and_self,
    if_true, names, strict]

theorem reads_relaxedSum {plus : Bool} {bound : TraitBound} {bounds : List Bound}
    {tokens more : Tokens} {ending ending' : Ending} {pos : Nat} (wrapped : bound.wrapped = true)
    (relaxed : bound.relaxed = true) (inner : Spelling (.traitBound bound) ending tokens)
    (ih : (Phrase.traitBound bound).Reads ending tokens)
    (ihOthers : (Phrase.more .shut bounds false).Reads ending' more) :
    ReadsType plus (.object false (.trait bound :: bounds) false) ending'
      (.group .paren tokens pos :: more) := by
  intro count rest enough calm fits
  simp only [sizes, size] at enough
  obtain ⟨count, rfl⟩ := Nat.exists_eq_add_one.mpr (Nat.zero_lt_of_lt enough)
  have found := ih count [] (by omega) .nil (Ending.fits_nil ending)
  rw [List.append_nil, wrapped] at found
  have strict := ((ihOthers count (more ++ rest).length rest (by omega)
    (by rw [List.length_append]; omega)).1 calm fits).2 rfl
  have question : nextIs ['?'] tokens = true := by
    cases inner with
    | traitBound mark bindings inner =>
        cases relaxed
        cases mark
        rfl
  change (rounds count).parenthesised plus tokens (more ++ rest) = _
  unfold parenthesised
  split
  · cases question
  · simp only [StartsTrait.lifetime?_eq_none inner.begins, question, whole?, found, strict,
      Option.isSome_none, Bool.false_eq_true, if_false, if_true, Option.bind_eq_bind,
      Option.bind_some]

theorem reads_unit {plus : Bool} {pos : Nat} :
    ReadsType plus (.tuple [] false) .shut [.group .paren [] pos] := by
  intro count rest enough _ _
  obtain ⟨count, rfl⟩ := Nat.exists_eq_add_one.mpr (Nat.zero_lt_of_lt enough)
  rfl

theorem reads_tuple {plus : Bool} {type : TypeExpr} {types : List TypeExpr} {trailing : Bool}
    {tokens more : Tokens} {ending ending' : Ending} {spacing : Spacing} {pos pos' : Nat}
    (unticked : lifetime? tokens = none) (first : Spelling (.type true type) ending tokens)
    (ihFirst : ReadsType true type ending tokens)
    (ihOthers : (Phrase.types types trailing).Reads ending' more) :
    ReadsType plus (.tuple (type :: types) (trailing || types.isEmpty)) .shut
      [.group .paren (tokens ++ .punct ',' spacing pos :: more) pos'] := by
  intro count rest enough _ _
  simp only [sizes, size, sizes_append] at enough
  obtain ⟨count, rfl⟩ := Nat.exists_eq_add_one.mpr (Nat.zero_lt_of_lt enough)
  have ends : EndsArg (.punct ',' spacing pos :: more) := ⟨_, _, _, _, by decide, rfl⟩
  have found := ihFirst count _ (by omega) ends.calm (Ending.fits_of_endsArg ends ending)
  have listed := ihOthers count more.length (by omega) (Nat.le_refl _)
  change (rounds count).parenthesised plus (tokens ++ .punct ',' spacing pos :: more) rest = _
  rw [parenthesised_unticked (first.startsText.append _)
    (first.startsText.lifetime?_append unticked _), found]
  simp only [Option.bind_eq_bind, Option.bind_some, eat?, if_true, listed]

theorem reads_slice {plus : Bool} {item : TypeExpr} {tokens : Tokens} {ending : Ending} {pos : Nat}
    (ih : ReadsType true item ending tokens) :
    ReadsType plus (.slice item) .shut [.group .bracket tokens pos] := by
  intro count rest enough _ _
  simp only [sizes, size] at enough
  obtain ⟨count, rfl⟩ := Nat.exists_eq_add_one.mpr (Nat.zero_lt_of_lt enough)
  have found := ih count [] (by omega) .nil (Ending.fits_nil ending)
  rw [List.append_nil] at found
  exact bracketed_slice _ found

theorem reads_array {plus : Bool} {item : TypeExpr} {tokens source length : Tokens}
    {ending : Ending} {spacing : Spacing} {pos pos' : Nat} (read : constExpr? source = some length)
    (ih : ReadsType true item ending tokens) :
    ReadsType plus (.array item length) .shut
      [.group .bracket (tokens ++ .punct ';' spacing pos :: source) pos'] := by
  intro count rest enough _ _
  simp only [sizes, size, sizes_append] at enough
  obtain ⟨count, rfl⟩ := Nat.exists_eq_add_one.mpr (Nat.zero_lt_of_lt enough)
  have stops : StopsAt [';'] (.punct ';' spacing pos :: source) := .punct (by decide) _ _ _
  have found := ih count _ (by omega) (.punct (by decide) _ _ _)
    (Ending.fits_of_stopsAt stops (by decide) (by decide) (by decide) (by decide) ending)
  exact bracketed_array _ found read

/-! ### Types that begin with a keyword -/

theorem reads_infer {plus : Bool} {pos : Nat} :
    ReadsType plus .infer .shut [.ident "_" pos] := by
  intro count rest enough _ _
  obtain ⟨count, rfl⟩ := Nat.exists_eq_add_one.mpr (Nat.zero_lt_of_lt enough)
  rfl

theorem reads_object {plus : Bool} {bounds : List Bound} {trailing : Bool} {tokens : Tokens}
    {ending : Ending} {pos : Nat} (trait : bounds.any namesTrait = true)
    (ih : (Phrase.bounds plus bounds trailing).Reads ending tokens) :
    ReadsType plus (.object true bounds trailing) ending (.ident "dyn" pos :: tokens) := by
  intro count rest enough calm fits
  simp only [sizes, size] at enough
  obtain ⟨count, rfl⟩ := Nat.exists_eq_add_one.mpr (Nat.zero_lt_of_lt enough)
  have found := reads_traitSum count trait ih (by omega) (fun _ => by omega) calm fits
  change (rounds count).wordType plus "dyn" (.ident "dyn" pos :: (tokens ++ rest))
    (tokens ++ rest) = _
  simp only [wordType, found, Option.bind_eq_bind, Option.bind_some, if_true, String.reduceEq,
    if_false]

theorem reads_existential {plus : Bool} {bounds : List Bound} {trailing : Bool} {tokens : Tokens}
    {ending : Ending} {pos : Nat} (trait : bounds.any namesTrait = true)
    (ih : (Phrase.bounds plus bounds trailing).Reads ending tokens) :
    ReadsType plus (.existential bounds trailing) ending (.ident "impl" pos :: tokens) := by
  intro count rest enough calm fits
  simp only [sizes, size] at enough
  obtain ⟨count, rfl⟩ := Nat.exists_eq_add_one.mpr (Nat.zero_lt_of_lt enough)
  have found := reads_traitSum count trait ih (by omega) (fun _ => by omega) calm fits
  change (rounds count).wordType plus "impl" (.ident "impl" pos :: (tokens ++ rest))
    (tokens ++ rest) = _
  simp only [wordType, found, Option.bind_eq_bind, Option.bind_some, if_true, String.reduceEq,
    if_false]

theorem TypeReader.typeStep_function {parts : TypeReader} {plus isUnsafe : Bool}
    {binder : Option Binder} {convention : Option (Option String)}
    {before safety calling rest : Tokens} {pos : Nat} (bindings : Bindings binder before)
    (keyword : Keyword "unsafe" isUnsafe safety) (abi : Convention convention calling) :
    parts.typeStep plus (before ++ (safety ++ (calling ++ .ident "fn" pos :: rest))) =
      parts.functionType binder (safety ++ (calling ++ .ident "fn" pos :: rest)) := by
  have word : ∃ name start others, name ∈ ["unsafe", "extern", "fn"] ∧
      safety ++ (calling ++ .ident "fn" pos :: rest) = .ident name start :: others := by
    cases keyword with
    | present => exact ⟨_, _, _, by decide, rfl⟩
    | absent =>
        cases abi with
        | absent => exact ⟨_, _, _, by decide, rfl⟩
        | unnamed => exact ⟨_, _, _, by decide, rfl⟩
        | named => exact ⟨_, _, _, by decide, rfl⟩
  obtain ⟨name, start, others, member, whole⟩ := word
  rw [whole]
  cases binder with
  | some binder =>
      rw [typeStep_binder bindings]
      simp only [List.mem_cons, List.not_mem_nil, or_false] at member
      rcases member with rfl | rfl | rfl <;> rfl
  | none =>
      cases bindings
      simp only [List.mem_cons, List.not_mem_nil, or_false] at member
      rcases member with rfl | rfl | rfl <;> rfl

theorem reads_function {plus isUnsafe : Bool} {binder : Option Binder}
    {abi : Option (Option String)} {params : List Param} {trailing : Bool}
    {further : Option (Option String × Bool)} {output : Option TypeExpr}
    {before safety convention tokens more : Tokens} {ending ending' : Ending} {pos pos' : Nat}
    (bindings : Bindings binder before) (keyword : Keyword "unsafe" isUnsafe safety)
    (calling : Convention abi convention)
    (ih : (Phrase.params true params trailing further).Reads ending tokens)
    (ihResult : (Phrase.output output).Reads ending' more) :
    ReadsType plus (.function ⟨binder, isUnsafe, abi, params, trailing, further, output⟩) ending'
      (before ++
        (safety ++ (convention ++ .ident "fn" pos :: .group .paren tokens pos' :: more))) := by
  intro count rest enough calm fits
  simp only [sizes, size, sizes_append] at enough
  obtain ⟨count, rfl⟩ := Nat.exists_eq_add_one.mpr (Nat.zero_lt_of_lt enough)
  have listed := ih count (tokens.length + 1) (by omega) (by omega)
  have safe : word? "unsafe" (convention ++
      .ident "fn" pos :: .group .paren tokens pos' :: (more ++ rest)) = none := by
    cases calling <;> rfl
  simp only [List.append_assoc, List.cons_append]
  refine (typeStep_function bindings keyword calling).trans ?_
  unfold functionType
  rw [keyword.flag_eq safe]
  dsimp only
  rw [calling.abi_eq]
  rcases ihResult with ⟨rfl, rfl⟩ | ⟨type, text, rfl, smaller, arrow, reads⟩
  · simp only [word?, group?, listed, List.nil_append, calm.arrow, if_true, Option.bind_eq_bind,
      Option.bind_some]
  · have found := reads count rest (by omega) calm fits
    simp only [word?, group?, listed, arrow, found, if_true, Option.bind_eq_bind,
      Option.bind_some]

theorem noVariadic_of_dots {tokens : Tokens} (noDots : ∀ name rest,
    optional (paramName false) tokens = (name, rest) → eat? ['.', '.', '.'] rest = none) :
    variadic? tokens = none := by
  unfold variadic?
  cases named : optional (paramName false) tokens with
  | mk name rest => simp only [noDots name rest named, Option.bind_eq_bind, Option.bind_none]

theorem afterWord_of_stopsAt {rest : Tokens} (stops : StopsAt [','] rest) : AfterWord rest := by
  rcases stops with rfl | ⟨char, spacing, pos, more, member, rfl⟩
  · exact .nil
  · refine .other ?_
    rintro spacing' pos' same
    cases same
    exact absurd member (by decide)

theorem Spelling.paramName_eq_none {plus : Bool} {type : TypeExpr} {ending : Ending}
    {tokens rest : Tokens} (spelled : Spelling (.type plus type) ending tokens)
    (stops : StopsAt [','] rest) (first : Bool) : paramName first (tokens ++ rest) = none := by
  obtain ⟨tree, more, rfl⟩ := List.exists_cons_of_ne_nil spelled.startsText.ne_nil
  rw [List.cons_append]
  unfold paramName
  split
  · rename_i name pos next same
    cases same
    have after := (spelled.unnamed_of_type _ _ _ rfl).append (afterWord_of_stopsAt stops)
    rw [after.single?_eq_none]
    split <;> rfl
  · rfl

theorem Ending.fits_of_comma {rest : Tokens} (stops : StopsAt [','] rest) (ending : Ending) :
    ending.Fits rest :=
  fits_of_stopsAt stops (by decide) (by decide) (by decide) (by decide) ending

theorem Calm.of_comma {rest : Tokens} (stops : StopsAt [','] rest) : Calm rest := by
  rcases stops with rfl | ⟨char, spacing, pos, more, member, rfl⟩
  · exact .nil
  · rw [List.mem_singleton] at member
    subst member
    exact .punct (by decide) spacing pos more

theorem reads_bareParam {first : Bool} {type : TypeExpr} {tokens : Tokens} {ending : Ending}
    (inner : Spelling (.type true type) ending tokens) (ih : ReadsType true type ending tokens) :
    (Phrase.param first ⟨none, type⟩).Reads .shut tokens := by
  intro count rest enough stops
  have unnamed := inner.paramName_eq_none stops
  refine ⟨noVariadic_of_dots ?_, tokens ++ rest, ?_,
    ih count rest enough (.of_comma stops) (Ending.fits_of_comma stops ending)⟩
  · intro name after named
    rw [optional, unnamed false] at named
    cases named
    exact (inner.startsText.append rest).eat?_eq_none (by decide)
  · rw [optional, unnamed first]

theorem reads_namedParam {first : Bool} {name : String} {type : TypeExpr} {colon : TokenTree}
    {tokens : Tokens} {ending : Ending} {pos : Nat} (word : namesParam first name = true)
    (lone : Lone ':' ':' (colon :: tokens) tokens)
    (inner : Spelling (.type true type) ending tokens) (ih : ReadsType true type ending tokens) :
    (Phrase.param first ⟨some name, type⟩).Reads .shut (.ident name pos :: colon :: tokens) := by
  intro count rest enough stops
  have positive := colon.size_pos
  simp only [sizes, size] at enough
  have apart : Lone ':' ':' (colon :: (tokens ++ rest)) (tokens ++ rest) := by
    obtain ⟨tree, more, rfl⟩ := List.exists_cons_of_ne_nil inner.startsText.ne_nil
    cases lone with
    | alone => exact .alone
    | joint single =>
        refine .joint ?_
        rintro spacing start others same
        cases same
        exact single _ _ _ rfl
  refine ⟨noVariadic_of_dots ?_, tokens ++ rest, ?_,
    ih count rest (by omega) (.of_comma stops) (Ending.fits_of_comma stops ending)⟩
  · intro found after named
    rw [List.cons_append, List.cons_append] at named
    unfold optional at named
    cases taken : paramName false (.ident name pos :: colon :: (tokens ++ rest)) with
    | none =>
        rw [taken] at named
        cases named
        rfl
    | some result =>
        rw [taken] at named
        cases named
        obtain ⟨start, next, same, _, other⟩ := paramName_eq_some (Prod.eta result ▸ taken)
        cases same
        have equal := (single?_pair_iff.mpr other).symm.trans (single?_pair_iff.mpr apart)
        rw [Option.some.inj equal]
        exact (inner.startsText.append rest).eat?_eq_none (by decide)
  · rw [List.cons_append, List.cons_append, optional, paramName_eq word apart]

theorem reads_noParams {first : Bool} : (Phrase.params first [] false none).Reads .shut [] := by
  intro count limit _ _
  unfold params
  rfl

theorem Variadic.ne_nil {further : Option String × Bool} {tokens : Tokens}
    (dots : Variadic further tokens) : tokens ≠ [] := by
  cases dots <;> exact List.cons_ne_nil _ _

theorem reads_furtherParams {first : Bool} {further : Option String × Bool} {tokens : Tokens}
    (dots : Variadic further tokens) :
    (Phrase.params first [] false (some further)).Reads .shut tokens := by
  intro count limit _ long
  obtain ⟨tree, others, rfl⟩ := List.exists_cons_of_ne_nil dots.ne_nil
  obtain ⟨limit, rfl⟩ := Nat.exists_eq_add_one.mpr (Nat.lt_of_lt_of_le (by simp) long)
  unfold params
  rw [dots.variadic?_eq]

theorem Spelling.ne_nil_of_param {first : Bool} {param : Param} {ending : Ending} {tokens : Tokens}
    (spelled : Spelling (.param first param) ending tokens) : tokens ≠ [] := by
  cases spelled with
  | bareParam inner => exact inner.startsText.ne_nil
  | namedParam => exact List.cons_ne_nil _ _

theorem reads_lastParam {first : Bool} {param : Param} {tokens : Tokens} {ending : Ending}
    (only : Spelling (.param first param) ending tokens)
    (ih : (Phrase.param first param).Reads ending tokens) :
    (Phrase.params first [param] false none).Reads .shut tokens := by
  intro count limit enough long
  obtain ⟨noDots, text, named, found⟩ := ih count [] enough .nil
  rw [List.append_nil] at noDots named
  obtain ⟨tree, others, rfl⟩ := List.exists_cons_of_ne_nil only.ne_nil_of_param
  obtain ⟨limit, rfl⟩ := Nat.exists_eq_add_one.mpr (Nat.lt_of_lt_of_le (by simp) long)
  unfold params
  simp only [noDots, named, found, Option.bind_eq_bind, Option.bind_some]
  cases param
  rfl

theorem reads_moreParams {first trailing : Bool} {param : Param} {params : List Param}
    {further : Option (Option String × Bool)} {tokens more : Tokens} {ending ending' : Ending}
    {spacing : Spacing} {pos : Nat} (head : Spelling (.param first param) ending tokens)
    (ihHead : (Phrase.param first param).Reads ending tokens)
    (ihOthers : (Phrase.params false params trailing further).Reads ending' more) :
    (Phrase.params first (param :: params) (trailing || params.isEmpty) further).Reads .shut
      (tokens ++ .punct ',' spacing pos :: more) := by
  intro count limit enough long
  simp only [sizes_append, sizes, size] at enough
  simp only [List.length_append, List.length_cons] at long
  obtain ⟨limit, rfl⟩ := Nat.exists_eq_add_one.mpr (show 0 < limit by omega)
  obtain ⟨noDots, text, named, found⟩ := ihHead count (.punct ',' spacing pos :: more) (by omega)
    (.punct (by decide) _ _ _)
  have listed := ihOthers count limit (by omega) (by omega)
  obtain ⟨tree, others, rfl⟩ := List.exists_cons_of_ne_nil head.ne_nil_of_param
  rw [List.cons_append] at noDots named ⊢
  unfold TypeReader.params
  simp only [noDots, named, found, eat?, listed, if_true, Option.bind_eq_bind, Option.bind_some]
  cases param
  rfl

/-! ### All texts -/

/-- Every text of the grammar is read as what it spells. -/
theorem Spelling.reads {phrase : Phrase} {ending : Ending} {tokens : Tokens}
    (spelled : Spelling phrase ending tokens) : phrase.Reads ending tokens := by
  induction spelled with
  | bareSegment word => exact reads_bareSegment word
  | openSegment word turbofish inner ih => exact reads_openSegment word turbofish inner ih
  | lastStep only ih => exact reads_lastStep ih
  | moreSteps first others ihFirst ihOthers => exact reads_moreSteps others ihFirst ihOthers
  | path root steps ih => exact reads_path root steps ih
  | lifetimeArg => exact reads_lifetimeArg
  | typeArg inner ih => exact reads_typeArg inner ih
  | constArg read => exact reads_constArg read
  | typeBinding word head inner ih ihInner => exact reads_typeBinding word head inner ih ihInner
  | constBinding word head read ih => exact reads_constBinding word head read ih
  | constraint word head lone inner ih ihInner => exact reads_constraint word head lone ih ihInner
  | closeArgs => exact reads_closeArgs
  | lastArg only ih => exact reads_lastArg only ih
  | moreArgs first others ihFirst ihOthers => exact reads_moreArgs first ihFirst ihOthers
  | noOutput => exact .inl ⟨rfl, rfl⟩
  | someOutput inner ih => exact reads_someOutput ih
  | call first second ihFirst ihSecond => exact reads_call ihFirst ihSecond
  | noTypes => exact reads_noTypes
  | lastType only ih => exact reads_lastType only ih
  | moreTypes first others ihFirst ihOthers => exact reads_moreTypes ihFirst ihOthers
  | plainTrait inner ih => exact reads_plainTrait ih
  | calledTrait inner yields turbofish called ih ihCalled =>
      exact reads_calledTrait yields turbofish called ih ihCalled
  | traitBound mark bindings inner ih => exact reads_traitBound mark bindings inner ih
  | lifetimeBound => exact reads_lifetimeBound
  | wrappedBound wrapped inner ih => exact reads_wrappedBound wrapped ih
  | plainBound plain inner ih => exact reads_plainBound plain inner ih
  | noMore => exact reads_noMore
  | trailingPlus ended => exact reads_trailingPlus
  | moreBounds ended first others ihFirst ihOthers =>
      exact reads_moreBounds first others ihFirst ihOthers
  | oneBound only ih => exact reads_oneBound ih
  | sum first others ihFirst ihOthers => exact reads_sum first others ihFirst ihOthers
  | noLimits => exact reads_noLimits
  | limits inner ih => exact ih.2 rfl
  | pathType starts inner ih => exact reads_pathType starts inner ih
  | boundType bindings starts inner ih =>
      exact reads_bound_path bindings starts.startsType (fun _ => starts) inner ih
  | sumType bindings starts named inner some others ih ihOthers =>
      exact reads_sumType bindings starts named inner some others ih ihOthers
  | invocation bindings starts named plain inner ih =>
      exact reads_invocation bindings starts named plain inner ih
  | noView => exact .inl ⟨rfl, rfl⟩
  | someView ended inner ih => exact reads_someView ih
  | qualified first second third ihFirst ihSecond ihThird =>
      exact reads_qualified second ihFirst ihSecond ihThird
  | reference lifetime kind unticked inner ih =>
      exact reads_reference lifetime kind unticked inner ih
  | pointer inner ih => exact reads_pointer ih
  | never =>
      intro count rest enough _ _
      obtain ⟨count, rfl⟩ := Nat.exists_eq_add_one.mpr (Nat.zero_lt_of_lt enough)
      rfl
  | tickedType ticked trait inner ih => exact reads_tickedType ticked trait ih
  | parens unticked inner ih => exact reads_parens unticked inner ih
  | tickedParens ticked trait inner ih => exact reads_tickedParens ticked trait ih
  | parenSum unticked inner names some others ih ihOthers =>
      exact reads_parenSum unticked inner names some others ih ihOthers
  | relaxedSum wrapped relaxed inner others ih ihOthers =>
      exact reads_relaxedSum wrapped relaxed inner ih ihOthers
  | unit => exact reads_unit
  | tuple unticked first others ihFirst ihOthers =>
      exact reads_tuple unticked first ihFirst ihOthers
  | slice inner ih => exact reads_slice ih
  | array inner read ih => exact reads_array read ih
  | infer => exact reads_infer
  | object trait inner ih => exact reads_object trait ih
  | existential trait inner ih => exact reads_existential trait ih
  | function bindings keyword calling inner result ih ihResult =>
      exact reads_function bindings keyword calling ih ihResult
  | bareParam inner ih => exact reads_bareParam inner ih
  | namedParam word lone inner ih => exact reads_namedParam word lone inner ih
  | noParams => exact reads_noParams
  | furtherParams dots => exact reads_furtherParams dots
  | lastParam only ih => exact reads_lastParam only ih
  | moreParams head others ihHead ihOthers => exact reads_moreParams head ihHead ihOthers

theorem Spelling.read_append {type : TypeExpr} {ending : Ending} {tokens rest : Tokens}
    (spelled : Spelling (.type true type) ending tokens) (calm : Calm rest)
    (fits : ending.Fits rest) : TypeExpr.read (tokens ++ rest) = some (type, rest) :=
  spelled.reads _ rest (by rw [sizes_append]; omega) calm fits

/-- Exactly the texts that spell a type are read as the type. -/
theorem TypeExpr.ofTokens?_eq_some_iff {tokens : Tokens} {type : TypeExpr} :
    TypeExpr.ofTokens? tokens = some type ↔
      ∃ ending, Spelling (.type true type) ending tokens := by
  constructor
  · intro read
    have found := eq_some_of_whole? read
    rw [TypeExpr.read] at found
    obtain ⟨ending, text, rfl, spelled, _⟩ := (sound_rounds _).type true _ _ _ found
    rw [List.append_nil]
    exact ⟨ending, spelled⟩
  · rintro ⟨ending, spelled⟩
    have found := spelled.read_append .nil (Ending.fits_nil ending)
    rw [List.append_nil] at found
    rw [TypeExpr.ofTokens?, whole?, found]

/-- Exactly the texts that spell a trait bound are read as the bound. -/
theorem TraitBound.ofTokens?_eq_some_iff {tokens : Tokens} {bound : TraitBound} :
    TraitBound.ofTokens? tokens = some bound ↔
      bound.wrapped = false ∧ ∃ ending, Spelling (.traitBound bound) ending tokens := by
  constructor
  · intro read
    have found := eq_some_of_whole? read
    obtain ⟨ending, text, rfl, spelled, _⟩ :=
      recognizes_traitBound (sound_rounds _) false _ _ _ found
    rw [List.append_nil] at found ⊢
    exact ⟨(flags_of_traitBound found).1, ending, spelled⟩
  · rintro ⟨plain, ending, spelled⟩
    have found := spelled.reads (sizes tokens + 1) [] (by omega) .nil (Ending.fits_nil ending)
    rw [List.append_nil, plain] at found
    rw [TraitBound.ofTokens?, whole?, found]

/-- Exactly the texts that spell a sum of bounds are read as the bounds. -/
theorem Bound.listOfTokens?_eq_some_iff {tokens : Tokens} {bounds : List Bound} :
    Bound.listOfTokens? tokens = some bounds ↔
      ∃ trailing ending, Spelling (.bounds true bounds trailing) ending tokens := by
  constructor
  · intro read
    simp only [Bound.listOfTokens?, Option.map_eq_some_iff, Prod.exists] at read
    obtain ⟨found, trailing, whole, rfl⟩ := read
    have whole := eq_some_of_whole? whole
    obtain ⟨ending, text, rfl, spelled, _⟩ := recognizes_bounds (sound_rounds _) true _ _ _ whole
    rw [List.append_nil]
    exact ⟨trailing, ending, spelled⟩
  · rintro ⟨trailing, ending, spelled⟩
    have found := spelled.reads.1 (sizes tokens + 1) [] (by omega) (fun _ => by omega) .nil
      (Ending.fits_nil ending)
    rw [List.append_nil] at found
    simp only [Bound.listOfTokens?, whole?, found, Option.map_some]

end TypeConcepts
