import TypeConcepts.Proofs.Shape.Meaning
import TypeConcepts.Proofs.Shape.Spelling

/-!
The reader of types reads a spelled shape without blanks back as an expression with the meaning of
the shape, and takes all of it.
-/

namespace TypeConcepts

open TokenTree TypeReader

namespace Shape

/-- What the kinds of parts begin with. -/
def Starts {α : Type} : Part α → Tokens → Prop
  | .type _ | .element _ => StartsType
  | .step _ | .steps _ => StartsName
  | .argument _ | .arguments _ | .items _ | .others _ => fun _ => True

theorem Spells.starts {part : Part String} {tokens : Tokens}
    (spells : Spells .parameters part tokens) : Starts part tokens := by
  induction spells with
  | hole leaf =>
      obtain ⟨⟨index, rfl⟩, rfl⟩ := leaf
      exact .name (isPathWord_of_opens (.inr (isName_parameter index)))
  | path inner ih => exact StartsName.startsType ih
  | plain inner ih | lastStep inner ih => exact ih
  | rooted inner ih => exact .mark (by decide)
  | parens inner ih | tuple inner ih | slice inner ih | array inner read blankless ih =>
      exact .group (by decide)
  | reference lifetime kind inner ih | pointer inner ih => exact .mark (by decide)
  | bounded leaf => exact leaf.elim
  | bareStep word => exact ⟨_, _, _, word, rfl⟩
  | openStep word turbofish inner ih => exact ⟨_, _, _, isPathWord_of_opens word, rfl⟩
  | moreSteps inner rest ihInner ihRest => exact StartsName.append ihInner _
  | argument | constant | closing | lastArgument | moreArguments | lastLifetime | moreLifetimes
  | noItems | firstItem | noOthers | lastItem | moreItems => trivial

theorem Spells.argument_eat? {tree : Tree String} {tokens : Tokens}
    (spells : Spells .parameters (.argument tree) tokens) (char : Char)
    (member : char ∈ ['=', '<', '>']) (rest : Tokens) : eat? [char] (tokens ++ rest) = none := by
  have other : char ∉ ['&', '*', ':'] := by
    simp only [List.mem_cons, List.not_mem_nil, or_false] at member
    rcases member with rfl | rfl | rfl <;> decide
  cases spells with
  | argument inner =>
      have starts : StartsType tokens := inner.starts
      exact (starts.append rest).eat?_eq_none other
  | constant read blankless =>
      rcases constant?_forms read with ⟨text, pos, rfl⟩ | ⟨name, pos, truth, rfl⟩ |
        ⟨spacing, pos, text, pos', rfl⟩ | ⟨inner, pos, rfl⟩
      · rfl
      · rfl
      · simp only [List.mem_cons, List.not_mem_nil, or_false] at member
        rcases member with rfl | rfl | rfl <;> rfl
      · rfl

theorem Spells.arguments_eat? {trees : List (Tree String)} {tokens : Tokens} {char : Char}
    (spells : Spells .parameters (.arguments trees) tokens) (member : char ∈ ['=', '<'])
    (rest : Tokens) : eat? [char] (tokens ++ rest) = none := by
  have argument : char ∈ ['=', '<', '>'] := by
    simp only [List.mem_cons, List.not_mem_nil, or_false] at member ⊢
    rcases member with rfl | rfl <;> simp
  cases spells with
  | closing | lastLifetime | moreLifetimes =>
      simp only [List.mem_cons, List.not_mem_nil, or_false] at member
      rcases member with rfl | rfl <;> rfl
  | lastArgument inner | moreArguments inner _ =>
      rw [List.append_assoc]
      exact inner.argument_eat? char argument _

/-! ### Reading -/

/-- How the readers take the text of a part. With as many rounds as the text has trees, they take
all of it wherever it may stand, and what they make of it has the meaning of the part. -/
def Reads : Part String → Tokens → Prop
  | .type tree, tokens | .element tree, tokens => ∀ count plus rest,
      sizes tokens < count → StopsAt [',', '>', ';'] rest → ∃ expression,
        (rounds count).type plus (tokens ++ rest) = some (expression, rest) ∧
          Denotes expression tree
  | .argument tree, tokens => ∀ count rest,
      sizes tokens < count → StopsAt [',', '>'] rest → ∃ arg,
        (rounds count).genericArg (tokens ++ rest) = some (arg, rest) ∧
          DenoteArguments [arg] [tree]
  | .arguments trees, tokens => ∀ count limit rest,
      sizes tokens ≤ count → tokens.length ≤ limit → ∃ args trailing,
        (rounds count).genericArgs limit (tokens ++ rest) = some ((args, trailing), rest) ∧
          DenoteArguments args trees
  | .step step, tokens => ∀ count rest,
      sizes tokens ≤ count → NoArguments rest → ∃ segment,
        (rounds count).segment (tokens ++ rest) = some (segment, rest) ∧
          DenoteSteps [segment] [step]
  | .steps steps, tokens => ∀ count limit rest,
      sizes tokens ≤ count → tokens.length ≤ limit → StopsAt [',', '>', ';'] rest →
        ∃ first others middle,
          (rounds count).segment (tokens ++ rest) = some (first, middle) ∧
            (rounds count).moreSegments false limit middle = some (others, rest) ∧
              DenoteSteps (first :: others) steps
  | .items trees, tokens => ∀ count plus rest,
      sizes tokens < count → ∃ expression,
        (rounds count).parenthesised plus tokens rest = some (expression, rest) ∧
          Denotes expression (.tuple trees)
  | .others trees, tokens => ∀ count limit,
      sizes tokens < count → tokens.length ≤ limit → ∃ types trailing,
        commaList ((rounds count).type true) limit tokens = some (types, trailing) ∧
          DenoteTypes types trees

theorem reads_parameter {rest : Tokens} (count : Nat) (plus : Bool) (index : Nat)
    (stops : StopsAt [',', '>', ';'] rest) :
    ∃ path, (rounds (count + 1)).type plus (TokenTree.word (parameter index) :: rest) =
        some (.path path, rest) ∧
      Denotes (.path path) (.hole (parameter index)) := by
  have word : isPathWord (parameter index) = true :=
    isPathWord_of_opens (.inr (isName_parameter index))
  have starts : StartsName (TokenTree.word (parameter index) :: rest) := ⟨_, 0, rest, word, rfl⟩
  have head : (rounds count).segment (TokenTree.word (parameter index) :: rest) =
      some (⟨parameter index, .none⟩, rest) :=
    segment_bare _ word (noArguments_of_stopsAt stops)
  obtain ⟨pos, path⟩ := pathStep_plain _ starts head (moreSegments_stop _ _ stops)
  exact ⟨_, typeStep_plain _ plus starts path stops, denotes_name pos (plainName_parameter index)⟩

theorem reads_plain {steps : List (Step String)} {tokens rest : Tokens} {count : Nat} (plus : Bool)
    (starts : StartsName tokens) (reads : Reads (.steps steps) tokens)
    (bound : sizes tokens ≤ count) (stops : StopsAt [',', '>', ';'] rest) :
    ∃ path, (rounds (count + 1)).type plus (tokens ++ rest) = some (.path path, rest) ∧
      Denotes (.path path) (.path false steps) := by
  have begins : StartsName (tokens ++ rest) := starts.append rest
  obtain ⟨first, others, middle, head, tail, denote⟩ :=
    reads count (tokens ++ rest).length rest bound (by simp) stops
  obtain ⟨pos, path⟩ := pathStep_plain _ begins head tail
  exact ⟨_, typeStep_plain _ plus begins path stops, denote.path false pos⟩

theorem reads_rooted {steps : List (Step String)} {tokens rest : Tokens} {count : Nat}
    (spacing : Spacing) (pos pos' : Nat) (plus : Bool) (reads : Reads (.steps steps) tokens)
    (bound : sizes tokens ≤ count) (stops : StopsAt [',', '>', ';'] rest) :
    ∃ path, (rounds (count + 1)).type plus
        (.punct ':' .joint pos :: .punct ':' spacing pos' :: (tokens ++ rest)) =
          some (.path path, rest) ∧
      Denotes (.path path) (.path true steps) := by
  obtain ⟨first, others, middle, head, tail, denote⟩ :=
    reads count ((tokens ++ rest).length + 2) rest bound (by rw [List.length_append]; omega) stops
  obtain ⟨start, path⟩ := pathStep_rooted _ spacing pos pos' head tail
  exact ⟨_, pathType_eq _ plus path stops, denote.path true start⟩

theorem reads_of_round {tree : Tree String} {tokens : Tokens}
    (round : ∀ count plus rest, sizes tokens ≤ count → StopsAt [',', '>', ';'] rest →
      ∃ expression, (rounds (count + 1)).type plus (tokens ++ rest) = some (expression, rest) ∧
        Denotes expression tree) :
    Reads (.type tree) tokens := by
  intro count plus rest bound stops
  cases count with
  | zero => exact absurd bound (Nat.not_lt_zero _)
  | succ count => exact round count plus rest (Nat.le_of_lt_succ bound) stops

theorem reads_of_turn {trees : List (Tree String)} {tokens : Tokens} (nonempty : tokens ≠ [])
    (turn : ∀ count limit rest, sizes tokens ≤ count → tokens.length ≤ limit + 1 →
      ∃ args trailing,
        (rounds count).genericArgs (limit + 1) (tokens ++ rest) = some ((args, trailing), rest) ∧
          DenoteArguments args trees) :
    Reads (.arguments trees) tokens := by
  intro count limit rest bound enough
  cases limit with
  | zero => exact absurd (List.length_eq_zero_iff.mp (Nat.le_zero.mp enough)) nonempty
  | succ limit => exact turn count limit rest bound enough

theorem Spells.reads {part : Part String} {tokens : Tokens}
    (spells : Spells .parameters part tokens) : Reads part tokens := by
  induction spells with
  | hole leaf =>
      refine reads_of_round ?_
      intro count plus rest bound stops
      obtain ⟨⟨index, rfl⟩, rfl⟩ := leaf
      obtain ⟨path, found, denotes⟩ := reads_parameter count plus index stops
      exact ⟨_, found, denotes⟩
  | path inner ih =>
      refine reads_of_round ?_
      intro count plus rest bound stops
      obtain ⟨path, found, denotes⟩ := reads_plain plus inner.starts ih bound stops
      exact ⟨_, found, denotes⟩
  | @rooted steps tokens spacing pos pos' inner ih =>
      refine reads_of_round ?_
      intro count plus rest bound stops
      simp only [sizes, size] at bound
      obtain ⟨path, found, denotes⟩ :=
        reads_rooted spacing pos pos' plus ih (by omega : sizes tokens ≤ count) stops
      exact ⟨_, found, denotes⟩
  | parens inner ih =>
      refine reads_of_round ?_
      intro count plus rest bound stops
      simp only [sizes, size] at bound
      obtain ⟨expression, found, denotes⟩ := ih count true [] (by omega) .nil
      rw [List.append_nil] at found
      exact ⟨_, parenthesised_parens _ plus inner.starts found stops, denotes.paren⟩
  | tuple inner ih =>
      refine reads_of_round ?_
      intro count plus rest bound stops
      simp only [sizes, size] at bound
      exact ih count plus rest (by omega)
  | slice inner ih =>
      refine reads_of_round ?_
      intro count plus rest bound stops
      simp only [sizes, size] at bound
      obtain ⟨expression, found, denotes⟩ := ih count true [] (by omega) .nil
      rw [List.append_nil] at found
      exact ⟨_, bracketed_slice _ found, denotes.slice⟩
  | @array item tokens source length spacing pos pos' inner read blankless ih =>
      refine reads_of_round ?_
      intro count plus rest bound stops
      simp only [sizes, size, sizes_append] at bound
      obtain ⟨expression, found, denotes⟩ :=
        ih count true (.punct ';' spacing pos' :: source) (by omega) (.punct (by decide) _ _ _)
      exact ⟨_, bracketed_array _ found read, denotes.array length⟩
  | @reference mutable target life access tokens spacing pos lifetime kind inner ih =>
      refine reads_of_round ?_
      intro count plus rest bound stops
      simp only [sizes, size, sizes_append, List.cons_append] at bound
      obtain ⟨expression, found, denotes⟩ := ih count false rest (by omega) stops
      have starts : StartsType tokens := inner.starts
      obtain ⟨name, read⟩ := typeStep_reference _ spacing pos plus lifetime kind
        (starts.append rest) found
      simp only [List.cons_append, List.append_assoc]
      exact ⟨_, read, denotes.reference name mutable⟩
  | @pointer mutable target tokens spacing pos pos' inner ih =>
      refine reads_of_round ?_
      intro count plus rest bound stops
      simp only [sizes, size] at bound
      obtain ⟨expression, found, denotes⟩ := ih count false rest (by omega) stops
      exact ⟨_, typeStep_pointer _ spacing pos pos' plus found, denotes.pointer mutable⟩
  | plain inner ih => exact ih
  | bounded leaf => exact leaf.elim
  | @argument tree tokens inner ih =>
      intro count rest bound stops
      obtain ⟨expression, found, denotes⟩ := ih count true rest bound (stops.mono (by decide))
      have starts : StartsType tokens := inner.starts
      exact ⟨_, genericArg_type _ (starts.append rest) found stops, denotes.argument⟩
  | constant read blankless =>
      intro count rest bound stops
      obtain ⟨pos, found⟩ := genericArg_constant (rounds count) rest read
      exact ⟨_, found, denoteArguments_constant pos _⟩
  | closing =>
      refine reads_of_turn (List.cons_ne_nil _ _) ?_
      intro count limit rest bound enough
      exact ⟨[], false, rfl, fun _ _ _ => rfl⟩
  | @lastArgument tree tokens spacing pos inner ih =>
      refine reads_of_turn (by simp) ?_
      intro count limit rest bound enough
      simp only [sizes, size, sizes_append] at bound
      obtain ⟨arg, found, denote⟩ := ih count (.punct '>' spacing pos :: rest) (by omega)
        (.punct (by decide) _ _ _)
      have opened := inner.argument_eat? '>' (by decide) (.punct '>' spacing pos :: rest)
      rw [List.append_assoc]
      exact ⟨[arg], false, genericArgs_last _ opened found, denote⟩
  | @moreArguments tree args tokens more spacing pos inner rest ihInner ihRest =>
      refine reads_of_turn (by simp) ?_
      intro count limit after bound enough
      simp only [sizes, size, sizes_append] at bound
      simp only [List.length_append, List.length_cons] at enough
      obtain ⟨arg, found, denote⟩ := ihInner count (.punct ',' spacing pos :: (more ++ after))
        (by omega) (.punct (by decide) _ _ _)
      obtain ⟨others, trailing, foundRest, denoteRest⟩ := ihRest count limit after (by omega)
        (by omega)
      have opened := inner.argument_eat? '>' (by decide) (.punct ',' spacing pos :: (more ++ after))
      rw [List.append_assoc, List.cons_append]
      exact ⟨arg :: others, _, genericArgs_more _ opened found foundRest, denote.cons denoteRest⟩
  | @lastLifetime name spacing pos pos' pos'' =>
      refine reads_of_turn (List.cons_ne_nil _ _) ?_
      intro count limit rest bound enough
      have found := genericArg_lifetime (rounds count) name pos pos'
        (StopsAt.punct (List.mem_cons_of_mem _ List.mem_cons_self) spacing pos'' rest)
      exact ⟨_, _, genericArgs_last _ rfl found, fun _ _ _ => rfl⟩
  | @moreLifetimes name args more spacing pos pos' pos'' rest ih =>
      refine reads_of_turn (List.cons_ne_nil _ _) ?_
      intro count limit after bound enough
      simp only [sizes, size] at bound
      simp only [List.length_cons] at enough
      obtain ⟨others, trailing, foundRest, denoteRest⟩ := ih count limit after (by omega) (by omega)
      have found := genericArg_lifetime (rounds count) name pos pos'
        (StopsAt.punct List.mem_cons_self spacing pos'' (more ++ after))
      exact ⟨_, _, genericArgs_more _ rfl found foundRest, denoteRest.lifetime pos name⟩
  | bareStep word =>
      intro count rest bound none
      exact ⟨_, segment_bare _ word none, fun _ _ _ => rfl⟩
  | @openStep name args colons tokens spacing pos pos' word turbofish inner ih =>
      intro count rest bound none
      simp only [sizes, size, sizes_append, List.cons_append] at bound
      obtain ⟨args, trailing, found, denote⟩ := ih count ((tokens ++ rest).length + 1) rest
        (by omega) (by rw [List.length_append]; omega)
      obtain ⟨doubleColon, opened⟩ := segmentArgs_open _ spacing pos' turbofish
        (inner.arguments_eat? (by decide) rest) (inner.arguments_eat? (by decide) rest) found
      simp only [List.cons_append, List.append_assoc]
      exact ⟨_, segment_open _ word opened, denote.step name doubleColon trailing⟩
  | lastStep inner ih =>
      intro count limit rest bound enough stops
      obtain ⟨segment, found, denote⟩ := ih count rest bound (noArguments_of_stopsAt stops)
      exact ⟨segment, [], rest, found, moreSegments_stop _ _ stops, denote⟩
  | @moreSteps step steps tokens more spacing pos pos' inner rest ihInner ihRest =>
      intro count limit after bound enough stops
      simp only [sizes, size, sizes_append] at bound
      simp only [List.length_append, List.length_cons] at enough
      cases limit with
      | zero => omega
      | succ limit =>
          have starts : StartsName (more ++ after) := rest.starts.append after
          obtain ⟨segment, found, denote⟩ := ihInner count
            (.punct ':' .joint pos :: .punct ':' spacing pos' :: (more ++ after)) (by omega)
            (noArguments_of_startsType starts.startsType)
          obtain ⟨first, others, middle, head, tail, denoteRest⟩ := ihRest count limit after
            (by omega) (by omega) stops
          simp only [List.append_assoc, List.cons_append]
          exact ⟨segment, first :: others, _, found, moreSegments_more _ starts head tail,
            denote.cons denoteRest⟩
  | noItems =>
      intro count plus rest bound
      exact ⟨.tuple [] false, rfl, fun _ _ _ => rfl⟩
  | @firstItem tree items tokens more spacing pos inner rest ihInner ihRest =>
      intro count plus after bound
      simp only [sizes, size, sizes_append] at bound
      obtain ⟨expression, found, denotes⟩ := ihInner count true (.punct ',' spacing pos :: more)
        (by omega) (.punct (by decide) _ _ _)
      obtain ⟨types, trailing, others, denoteRest⟩ := ihRest count more.length (by omega)
        (Nat.le_refl _)
      have starts : StartsType tokens := inner.starts
      obtain ⟨closed, read⟩ := parenthesised_items _ after plus (starts.append _) found others
      exact ⟨_, read, (DenoteTypes.cons denotes denoteRest).tuple closed⟩
  | noOthers =>
      intro count limit bound enough
      refine ⟨[], false, ?_, fun _ _ _ => rfl⟩
      cases limit <;> rfl
  | @lastItem tree tokens inner ih =>
      intro count limit bound enough
      have starts : StartsType tokens := inner.starts
      obtain ⟨expression, found, denotes⟩ := ih count true [] bound .nil
      rw [List.append_nil] at found
      cases limit with
      | zero => exact absurd (List.length_eq_zero_iff.mp (Nat.le_zero.mp enough)) starts.ne_nil
      | succ limit =>
          refine ⟨[expression], false, commaList_of_last starts.ne_nil found, ?_⟩
          exact DenoteTypes.cons denotes fun _ _ _ => rfl
  | @moreItems tree items tokens more spacing pos inner rest ihInner ihRest =>
      intro count limit bound enough
      simp only [sizes, size, sizes_append] at bound
      simp only [List.length_append, List.length_cons] at enough
      have starts : StartsType tokens := inner.starts
      obtain ⟨expression, found, denotes⟩ := ihInner count true (.punct ',' spacing pos :: more)
        (by omega) (.punct (by decide) _ _ _)
      cases limit with
      | zero => omega
      | succ limit =>
          obtain ⟨types, trailing, others, denoteRest⟩ := ihRest count limit (by omega) (by omega)
          refine ⟨expression :: types, trailing || types.isEmpty, ?_,
            DenoteTypes.cons denotes denoteRest⟩
          rw [commaList_of_comma (starts.append _).ne_nil found, others]
          rfl

/-- A path with parameters in its holes is read back as a path with its meaning. -/
theorem SpellsPath.read {tree : Tree String} {tokens : Tokens}
    (spells : SpellsPath .parameters tree tokens) :
    ∃ path, TypeExpr.ofTokens? tokens = some (.path path) ∧ Denotes (.path path) tree := by
  have whole : ∀ {path : Path}, (rounds (sizes tokens + 1)).type true (tokens ++ []) =
      some (.path path, []) → TypeExpr.ofTokens? tokens = some (.path path) := by
    intro path found
    rw [List.append_nil] at found
    simp only [TypeExpr.ofTokens?, whole?, TypeExpr.read, found]
  cases spells with
  | hole leaf =>
      obtain ⟨⟨index, rfl⟩, rfl⟩ := leaf
      obtain ⟨path, found, denotes⟩ := reads_parameter _ true index .nil
      exact ⟨path, whole found, denotes⟩
  | plain inner =>
      obtain ⟨path, found, denotes⟩ :=
        reads_plain true inner.starts inner.reads (Nat.le_refl _) .nil
      exact ⟨path, whole found, denotes⟩
  | @rooted _ inside spacing pos pos' inner =>
      have bound : sizes inside ≤
          sizes (.punct ':' .joint pos :: .punct ':' spacing pos' :: inside) := by
        simp only [sizes]
        omega
      obtain ⟨path, found, denotes⟩ := reads_rooted spacing pos pos' true inner.reads bound .nil
      exact ⟨path, whole found, denotes⟩

end Shape

end TypeConcepts
