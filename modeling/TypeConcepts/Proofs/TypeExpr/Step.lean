import TypeConcepts.TypeExpr.Reader
import TypeConcepts.Proofs.Token.Reader
import TypeConcepts.Proofs.TypeExpr.Constant

/-!
One round of the readers of types on the texts that they accept.
-/

namespace TypeConcepts

open TokenTree

namespace TypeReader

theorem ne_of_isPathWord {name other : String} (word : isPathWord name = true)
    (noWord : isPathWord other = false) : name ≠ other := by
  rintro rfl
  rw [noWord] at word
  cases word

theorem isFunctionWord_of_isPathWord {name : String} (word : isPathWord name = true) :
    isFunctionWord name = false := by
  cases function : isFunctionWord name with
  | false => rfl
  | true =>
      simp only [isFunctionWord, Bool.or_eq_true, beq_iff_eq] at function
      rcases function with (rfl | rfl) | rfl <;> revert word <;> decide

theorem isPathWord_of_opens {name : String} (opens : name = "Self" ∨ isName name = true) :
    isPathWord name = true := by
  rcases opens with rfl | named
  · rfl
  · rw [isPathWord, named, Bool.true_or]

/-- What the text of a type begins with. -/
inductive StartsType : Tokens → Prop
  | name {name : String} {pos : Nat} {rest : Tokens} (word : isPathWord name = true) :
      StartsType (.ident name pos :: rest)
  | group {delimiter : Delimiter} {inner rest : Tokens} {pos : Nat}
      (noBrace : delimiter ≠ .brace) : StartsType (.group delimiter inner pos :: rest)
  | mark {char : Char} {spacing : Spacing} {pos : Nat} {rest : Tokens}
      (member : char ∈ ['&', '*', ':']) : StartsType (.punct char spacing pos :: rest)

namespace StartsType

variable {tokens : Tokens}

theorem append (starts : StartsType tokens) (rest : Tokens) : StartsType (tokens ++ rest) := by
  cases starts with
  | name word => exact .name word
  | group noBrace => exact .group noBrace
  | mark member => exact .mark member

theorem ne_nil (starts : StartsType tokens) : tokens ≠ [] := by
  cases starts <;> exact List.cons_ne_nil _ _

theorem eat?_eq_none {char : Char} (starts : StartsType tokens)
    (other : char ∉ ['&', '*', ':']) : eat? [char] tokens = none := by
  cases starts with
  | name word => rfl
  | group noBrace => rfl
  | mark member =>
      rename_i found _ _ _
      have different : found ≠ char := fun same => other (same ▸ member)
      simp only [eat?, different, if_false]

theorem lifetime?_eq_none (starts : StartsType tokens) : lifetime? tokens = none := by
  cases found : lifetime? tokens with
  | none => rfl
  | some result =>
      obtain ⟨pos, pos', rfl⟩ := lifetime?_eq_some_iff.mp (Prod.eta result ▸ found)
      cases starts with
      | mark member => exact absurd member (by decide)

theorem word?_eq_none {name : String} (starts : StartsType tokens)
    (keyword : isPathWord name = false) : word? name tokens = none := by
  cases found : word? name tokens with
  | none => rfl
  | some rest =>
      obtain ⟨pos, rfl⟩ := word?_eq_some_iff.mp found
      cases starts with
      | name word =>
          rw [keyword] at word
          cases word

theorem startsConstant_eq_false (starts : StartsType tokens) : startsConstant tokens = false := by
  cases starts with
  | name word =>
      rename_i found _ _
      have notTruth : ¬(found = "true" ∨ found = "false") :=
        not_or.mpr ⟨ne_of_isPathWord word rfl, ne_of_isPathWord word rfl⟩
      simp only [startsConstant, literal?, notTruth, if_false]
      rfl
  | group noBrace =>
      rename_i delimiter _ _ _
      cases delimiter with
      | brace => contradiction
      | paren => rfl
      | bracket => rfl
  | mark member =>
      simp only [List.mem_cons, List.not_mem_nil, or_false] at member
      rcases member with rfl | rfl | rfl <;> rfl

end StartsType

def StartsName (tokens : Tokens) : Prop :=
  ∃ name pos rest, isPathWord name = true ∧ tokens = .ident name pos :: rest

theorem StartsName.append {tokens : Tokens} (starts : StartsName tokens) (rest : Tokens) :
    StartsName (tokens ++ rest) := by
  obtain ⟨name, pos, others, word, rfl⟩ := starts
  exact ⟨name, pos, others ++ rest, word, rfl⟩

theorem StartsName.startsType {tokens : Tokens} (starts : StartsName tokens) :
    StartsType tokens := by
  obtain ⟨name, pos, rest, word, rfl⟩ := starts
  exact .name word

inductive MaybeLifetime : Tokens → Prop
  | absent : MaybeLifetime []
  | present {name : String} {pos pos' : Nat} :
      MaybeLifetime [.punct '\'' .joint pos, .ident name pos']

inductive MaybeColons : Tokens → Prop
  | absent : MaybeColons []
  | present {spacing : Spacing} {pos pos' : Nat} :
      MaybeColons [.punct ':' .joint pos, .punct ':' spacing pos']

/-- The word `mut` if it is due, else nothing. -/
inductive MaybeMut : Bool → Tokens → Prop
  | shared : MaybeMut false []
  | unique {pos : Nat} : MaybeMut true [.ident "mut" pos]

theorem constant?_forms {source value : Tokens} (read : constant? source = some (value, [])) :
    (∃ text pos, source = [.literal text pos]) ∨
      (∃ name pos, (name = "true" ∨ name = "false") ∧ source = [.ident name pos]) ∨
      (∃ spacing pos text pos', source = [.punct '-' spacing pos, .literal text pos']) ∨
      ∃ inner pos, source = [.group .brace inner pos] := by
  cases constant?_eq_some_iff.mp read with
  | literalArg => exact .inl ⟨_, _, rfl⟩
  | truth truth => exact .inr (.inl ⟨_, _, truth, rfl⟩)
  | negative => exact .inr (.inr (.inl ⟨_, _, _, _, rfl⟩))
  | block => exact .inr (.inr (.inr ⟨_, _, rfl⟩))

/-! ### Paths -/

def NoArguments (tokens : Tokens) : Prop :=
  nextIs ['<'] tokens = false ∧
    (nextIs [':', ':'] tokens && nextIs ['<'] (beyondTwo tokens)) = false

theorem noArguments_of_stopsAt {tokens : Tokens} (stops : StopsAt [',', '>', ';'] tokens) :
    NoArguments tokens := by
  constructor
  · rw [nextIs, stops.eat?_eq_none (by decide)]
    rfl
  · rw [nextIs, stops.eat?_eq_none (by decide)]
    rfl

theorem noArguments_of_startsType {tokens : Tokens} {spacing : Spacing} {pos pos' : Nat}
    (starts : StartsType tokens) :
    NoArguments (.punct ':' .joint pos :: .punct ':' spacing pos' :: tokens) := by
  constructor
  · rfl
  · have next : nextIs ['<'] tokens = false := by
      rw [nextIs, starts.eat?_eq_none (by decide)]
      rfl
    change (nextIs [':', ':'] _ && nextIs ['<'] tokens) = false
    rw [next, Bool.and_false]

section Readers

variable (parts : TypeReader) {tokens rest : Tokens}

theorem segmentArgs_eq (none : NoArguments tokens) :
    parts.segmentArgs tokens = some (.none, tokens) := by
  unfold segmentArgs opensArgs
  rw [none.1, none.2]
  rfl

theorem segment_bare {name : String} {pos : Nat} (word : isPathWord name = true)
    (none : NoArguments rest) :
    parts.segment (.ident name pos :: rest) = some (⟨name, .none⟩, rest) := by
  unfold segment
  by_cases root : name = "super" ∨ name = "self" ∨ name = "crate" ∨ name = "try"
  · simp only [root, if_true]
  · have named : name = "Self" ∨ isName name = true := by
      rw [isPathWord, Bool.or_eq_true] at word
      rcases word with word | word
      · exact .inr word
      · simp only [pathWords, List.contains_eq_mem, List.mem_cons, List.not_mem_nil, or_false,
          decide_eq_true_eq] at word
        rcases word with rfl | rfl | rfl | rfl
        · exact absurd (.inr (.inl rfl)) root
        · exact .inl rfl
        · exact absurd (.inl rfl) root
        · exact absurd (.inr (.inr (.inl rfl))) root
    simp only [root, named, if_true, if_false, segmentArgs_eq parts none, Option.bind_eq_bind,
      Option.bind_some]

theorem wordType_eq {name : String} (plus : Bool) (word : isPathWord name = true) :
    parts.wordType plus name tokens rest = parts.pathType plus none tokens := by
  have notBlank : name ≠ "_" := ne_of_isPathWord word rfl
  have notFor : name ≠ "for" := ne_of_isPathWord word rfl
  have notDyn : name ≠ "dyn" := ne_of_isPathWord word rfl
  have notImpl : name ≠ "impl" := ne_of_isPathWord word rfl
  simp only [wordType, notBlank, notFor, notDyn, notImpl, isFunctionWord_of_isPathWord word, word,
    if_true, if_false, Bool.false_eq_true]

theorem pathType_eq {path : Path} (plus : Bool) (found : parts.pathStep tokens = some (path, rest))
    (stops : StopsAt [',', '>', ';'] rest) :
    parts.pathType plus none tokens = some (.path path, rest) := by
  have noBang : (if isPlain path then single? '!' ['!', '='] rest else none) = none := by
    split
    · unfold single? nextIs
      rw [stops.eat?_eq_none (by decide), stops.eat?_eq_none (by decide)]
      rfl
    · rfl
  have noPlus : nextIs ['+'] rest = false := by
    rw [nextIs, stops.eat?_eq_none (by decide)]
    rfl
  unfold pathType
  simp only [found, Option.bind_eq_bind, Option.bind_some, noBang, noPlus, Bool.and_false,
    Option.isSome_none, Bool.false_eq_true, if_false]

theorem genericArg_type {type : TypeExpr} (starts : StartsType tokens)
    (found : parts.type true tokens = some (type, rest)) (stops : StopsAt [',', '>'] rest) :
    parts.genericArg tokens = some (.type type, rest) := by
  unfold genericArg
  simp only [starts.lifetime?_eq_none, starts.startsConstant_eq_false, Bool.false_eq_true, if_false,
    genericArg.typed, found, Option.bind_eq_bind, Option.bind_some]
  split
  · rfl
  · rw [stops.eat?_eq_none (by decide)]
    dsimp only
    rw [stops.eat?_eq_none (by decide)]

theorem constant?_append {source value : Tokens} (read : constant? source = some (value, []))
    (rest : Tokens) : constant? (source ++ rest) = some (value, rest) := by
  rcases constant?_forms read with ⟨text, pos, rfl⟩ | ⟨name, pos, truth, rfl⟩ |
    ⟨spacing, pos, text, pos', rfl⟩ | ⟨inner, pos, rfl⟩
  · cases read
    rfl
  · simp only [constant?, literal?, truth, if_true] at read
    cases read
    simp only [List.singleton_append, constant?, literal?, truth, if_true]
  · by_cases digit : (text.toList.head?.map Char.isDigit).getD false = true
    · simp only [constant?, literal?, digit, if_true] at read
      cases read
      simp only [List.cons_append, List.nil_append, constant?, literal?, digit, if_true]
    · simp [constant?, literal?, digit] at read
  · simp only [constant?, literal?] at read
    simp only [List.singleton_append, constant?, literal?]
    split at read
    · rename_i empty
      cases read
      simp only [empty, if_true]
      rfl
    · rename_i nonempty
      simp only [Option.bind_eq_bind, Option.bind_eq_some_iff] at read
      obtain ⟨whole, found, finished⟩ := read
      cases finished
      simp only [nonempty, if_false, found, Option.bind_eq_bind, Option.bind_some,
        Bool.false_eq_true]

theorem startsConstant_of_constant? {value : Tokens}
    (found : constant? tokens = some (value, rest)) : startsConstant tokens = true := by
  unfold constant? at found
  unfold startsConstant
  cases literal : literal? tokens with
  | some result => rfl
  | none =>
      rw [literal] at found
      dsimp only at found
      split at found
      · rfl
      · cases found

theorem genericArg_constant {source value : Tokens} (rest : Tokens)
    (read : constant? source = some (value, [])) :
    ∃ pos, parts.genericArg (source ++ rest) = some (.const pos value, rest) := by
  have constant := constant?_append read rest
  have starts := startsConstant_of_constant? constant
  have noLifetime : lifetime? (source ++ rest) = none := by
    rcases constant?_forms read with ⟨text, pos, rfl⟩ | ⟨name, pos, truth, rfl⟩ |
      ⟨spacing, pos, text, pos', rfl⟩ | ⟨inner, pos, rfl⟩ <;> rfl
  unfold genericArg
  simp only [noLifetime, starts, if_true, constant, Option.bind_eq_bind, Option.bind_some]
  exact ⟨_, rfl⟩

theorem genericArgs_last {arg : GenericArg} {limit : Nat} {spacing : Spacing} {pos : Nat}
    (opened : eat? ['>'] tokens = none)
    (found : parts.genericArg tokens = some (arg, .punct '>' spacing pos :: rest)) :
    parts.genericArgs (limit + 1) tokens = some (([arg], false), rest) := by
  have closed : eat? ['>'] (.punct '>' spacing pos :: rest) = some rest :=
    eat?_single_iff.mpr ⟨spacing, pos, rfl⟩
  unfold genericArgs
  simp only [opened, found, closed, Option.bind_eq_bind, Option.bind_some]

theorem genericArgs_more {arg : GenericArg} {args : List GenericArg} {trailing : Bool} {limit : Nat}
    {spacing : Spacing} {pos : Nat} {more : Tokens} (opened : eat? ['>'] tokens = none)
    (found : parts.genericArg tokens = some (arg, .punct ',' spacing pos :: more))
    (others : parts.genericArgs limit more = some ((args, trailing), rest)) :
    parts.genericArgs (limit + 1) tokens =
      some ((arg :: args, trailing || args.isEmpty), rest) := by
  have notClosed : eat? ['>'] (.punct ',' spacing pos :: more) = none := rfl
  have comma : eat? [','] (.punct ',' spacing pos :: more) = some more :=
    eat?_single_iff.mpr ⟨spacing, pos, rfl⟩
  unfold genericArgs
  simp only [opened, found, notClosed, comma, others, Option.bind_eq_bind, Option.bind_some]

theorem genericArg_lifetime (name : String) (pos pos' : Nat)
    (stops : StopsAt [',', '>'] rest) :
    parts.genericArg (.punct '\'' .joint pos :: .ident name pos' :: rest) =
      some (.lifetime pos name, rest) := by
  have noPlus : nextIs ['+'] rest = false := by
    rw [nextIs, stops.eat?_eq_none (by decide)]
    rfl
  unfold genericArg
  simp only [lifetime?, noPlus, Bool.false_eq_true, if_false]
  rfl

theorem segment_open {name : String} {args : PathArgs} {pos : Nat}
    (word : name = "Self" ∨ isName name = true)
    (found : parts.segmentArgs tokens = some (args, rest)) :
    parts.segment (.ident name pos :: tokens) = some (⟨name, args⟩, rest) := by
  have notRoot : ¬(name = "super" ∨ name = "self" ∨ name = "crate" ∨ name = "try") := by
    rintro (rfl | rfl | rfl | rfl) <;> revert word <;> decide
  unfold segment
  simp only [notRoot, word, found, if_true, if_false, Option.bind_eq_bind, Option.bind_some]

theorem segmentArgs_open {colons : Tokens} {args : List GenericArg} {trailing : Bool}
    (spacing : Spacing) (pos : Nat) (turbofish : MaybeColons colons)
    (notEquals : eat? ['='] tokens = none) (notOpening : eat? ['<'] tokens = none)
    (found : parts.genericArgs (tokens.length + 1) tokens = some ((args, trailing), rest)) :
    ∃ doubleColon, parts.segmentArgs (colons ++ .punct '<' spacing pos :: tokens) =
      some (.angle doubleColon args trailing, rest) := by
  cases turbofish with
  | absent =>
      have opens : opensArgs (.punct '<' spacing pos :: tokens) = true := by
        have single : nextIs ['<'] (.punct '<' spacing pos :: tokens) = true := rfl
        have noLessEqual : nextIs ['<', '='] (.punct '<' spacing pos :: tokens) = false := by
          cases spacing with
          | alone => rfl
          | joint =>
              change (eat? ['='] tokens).isSome = false
              rw [notEquals]
              rfl
        have noShift : nextIs ['<', '<', '='] (.punct '<' spacing pos :: tokens) = false := by
          cases spacing with
          | alone => rfl
          | joint =>
              change (eat? ['<', '='] tokens).isSome = false
              rw [eat?_eq_none_of_single notOpening]
              rfl
        rw [opensArgs, single, noLessEqual, noShift]
        rfl
      refine ⟨false, ?_⟩
      unfold segmentArgs
      simp only [List.nil_append, opens, if_true, segmentArgs.read, eat?, found,
        Option.bind_eq_bind, Option.bind_some]
  | present =>
      refine ⟨true, ?_⟩
      unfold segmentArgs
      simp [opensArgs, nextIs, eat?, beyondTwo, segmentArgs.read, found]

theorem moreSegments_stop (limit : Nat) (stops : StopsAt [',', '>', ';'] rest) :
    parts.moreSegments false limit rest = some ([], rest) := by
  cases limit with
  | zero => rfl
  | succ limit =>
      unfold moreSegments
      rw [stops.eat?_eq_none (by decide)]

theorem moreSegments_more {first : Segment} {others : List Segment} {middle : Tokens} {limit : Nat}
    {spacing : Spacing} {pos pos' : Nat} (starts : StartsName tokens)
    (head : parts.segment tokens = some (first, middle))
    (tail : parts.moreSegments false limit middle = some (others, rest)) :
    parts.moreSegments false (limit + 1)
        (.punct ':' .joint pos :: .punct ':' spacing pos' :: tokens) =
      some (first :: others, rest) := by
  have colons : eat? [':', ':'] (.punct ':' .joint pos :: .punct ':' spacing pos' :: tokens) =
      some tokens := eat?_pair_iff.mpr ⟨pos, spacing, pos', rfl⟩
  have ungrouped : (group? .paren tokens).isSome = false := by
    obtain ⟨name, start, after, word, rfl⟩ := starts
    rfl
  unfold moreSegments
  simp only [colons, ungrouped, head, tail, Bool.and_false, Bool.false_eq_true, if_false,
    Option.bind_eq_bind, Option.bind_some]

/-! ### Types -/

theorem pathStep_plain {first : Segment} {others : List Segment} {middle : Tokens}
    (starts : StartsName tokens) (head : parts.segment tokens = some (first, middle))
    (tail : parts.moreSegments false tokens.length middle = some (others, rest)) :
    ∃ pos, parts.pathStep tokens = some (⟨pos, false, first :: others⟩, rest) := by
  have unrooted : flag (eat? [':', ':']) tokens = (false, tokens) := by
    obtain ⟨name, pos, after, word, rfl⟩ := starts
    rfl
  unfold pathStep
  simp only [unrooted, head, tail, Option.bind_eq_bind, Option.bind_some]
  exact ⟨_, rfl⟩

theorem pathStep_rooted {first : Segment} {others : List Segment} {middle : Tokens}
    (spacing : Spacing) (pos pos' : Nat) (head : parts.segment tokens = some (first, middle))
    (tail : parts.moreSegments false (tokens.length + 2) middle = some (others, rest)) :
    ∃ start, parts.pathStep (.punct ':' .joint pos :: .punct ':' spacing pos' :: tokens) =
      some (⟨start, true, first :: others⟩, rest) := by
  have rooted : flag (eat? [':', ':'])
      (.punct ':' .joint pos :: .punct ':' spacing pos' :: tokens) = (true, tokens) := rfl
  unfold pathStep
  simp only [rooted, head, tail, List.length_cons, Option.bind_eq_bind, Option.bind_some]
  exact ⟨_, rfl⟩

theorem typeStep_plain {path : Path} (plus : Bool) (starts : StartsName tokens)
    (found : parts.pathStep tokens = some (path, rest)) (stops : StopsAt [',', '>', ';'] rest) :
    parts.typeStep plus tokens = some (.path path, rest) := by
  obtain ⟨name, pos, after, word, rfl⟩ := starts
  change parts.wordType plus name (.ident name pos :: after) after = _
  rw [wordType_eq parts plus word]
  exact pathType_eq parts plus found stops

theorem typeStep_reference {life access : Tokens} {mutable : Bool} {target : TypeExpr}
    (spacing : Spacing) (pos : Nat) (plus : Bool) (lifetime : MaybeLifetime life)
    (kind : MaybeMut mutable access) (starts : StartsType tokens)
    (found : parts.type false tokens = some (target, rest)) :
    ∃ name, parts.typeStep plus (.punct '&' spacing pos :: (life ++ (access ++ tokens))) =
      some (.reference name mutable target, rest) := by
  have marked : flag (word? "mut") (access ++ tokens) = (mutable, tokens) := by
    cases kind with
    | shared =>
        rw [flag, List.nil_append, starts.word?_eq_none rfl]
    | unique => rfl
  have named : ∃ name,
      optional lifetime? (life ++ (access ++ tokens)) = (name, access ++ tokens) := by
    cases lifetime with
    | absent =>
        have noLifetime : lifetime? (access ++ tokens) = none := by
          cases kind with
          | shared => exact starts.lifetime?_eq_none
          | unique => rfl
        refine ⟨none, ?_⟩
        rw [optional, List.nil_append, noLifetime]
    | present => exact ⟨_, rfl⟩
  obtain ⟨name, named⟩ := named
  change ∃ name, parts.reference (life ++ (access ++ tokens)) = _
  unfold reference
  simp only [named, marked, found, Option.bind_eq_bind, Option.bind_some]
  exact ⟨name, rfl⟩

theorem typeStep_pointer {mutable : Bool} {target : TypeExpr} (spacing : Spacing) (pos pos' : Nat)
    (plus : Bool) (found : parts.type false tokens = some (target, rest)) :
    parts.typeStep plus
        (.punct '*' spacing pos :: .ident (if mutable then "mut" else "const") pos' :: tokens) =
      some (.pointer mutable target, rest) := by
  change parts.pointer (.ident (if mutable then "mut" else "const") pos' :: tokens) = _
  cases mutable with
  | false => simp [pointer, word?, found]
  | true => simp [pointer, word?, found]

theorem parenthesised_parens {type : TypeExpr} (plus : Bool) (starts : StartsType tokens)
    (found : parts.type true tokens = some (type, [])) (stops : StopsAt [',', '>', ';'] rest) :
    parts.parenthesised plus tokens rest = some (.paren type, rest) := by
  have noPlus : nextIs ['+'] rest = false := by
    rw [nextIs, stops.eat?_eq_none (by decide)]
    rfl
  have noQuestion : nextIs ['?'] tokens = false := by
    rw [nextIs, starts.eat?_eq_none (by decide)]
    rfl
  unfold parenthesised
  split
  · exact absurd rfl starts.ne_nil
  · simp only [starts.lifetime?_eq_none, noQuestion, found, noPlus, Option.isSome_none, eat?,
      Option.bind_eq_bind, Option.bind_some, List.isEmpty_nil, Bool.and_false, if_true, if_false,
      Bool.false_eq_true]

theorem parenthesised_items {type : TypeExpr} {types : List TypeExpr} {trailing : Bool}
    {spacing : Spacing} {pos : Nat} {more : Tokens} (rest : Tokens) (plus : Bool)
    (starts : StartsType tokens)
    (found : parts.type true tokens = some (type, .punct ',' spacing pos :: more))
    (others : commaList (parts.type true) more.length more = some (types, trailing)) :
    ∃ closed,
      parts.parenthesised plus tokens rest = some (.tuple (type :: types) closed, rest) := by
  have noQuestion : nextIs ['?'] tokens = false := by
    rw [nextIs, starts.eat?_eq_none (by decide)]
    rfl
  unfold parenthesised
  split
  · exact absurd rfl starts.ne_nil
  · simp only [starts.lifetime?_eq_none, noQuestion, found, others, Option.isSome_none, eat?,
      Option.bind_eq_bind, Option.bind_some, if_true, if_false, Bool.false_eq_true]
    exact ⟨_, rfl⟩

theorem bracketed_slice {item : TypeExpr} (found : parts.type true tokens = some (item, [])) :
    parts.bracketed tokens rest = some (.slice item, rest) := by
  unfold bracketed
  simp only [found, Option.bind_eq_bind, Option.bind_some]

theorem bracketed_array {item : TypeExpr} {spacing : Spacing} {pos : Nat} {source length : Tokens}
    (found : parts.type true tokens = some (item, .punct ';' spacing pos :: source))
    (read : constExpr? source = some length) :
    parts.bracketed tokens rest = some (.array item length, rest) := by
  unfold bracketed
  simp only [found, eat?, read, if_true, Option.bind_eq_bind, Option.bind_some]

end Readers

end TypeReader

end TypeConcepts
