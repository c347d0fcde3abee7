import TypeConcepts.Proofs.Shape.Constants

/-!
A text whose holes are filled spells the same kind of phrase as before, and what is printed for the
text is filled to what is printed for the filled text.
-/

namespace TypeConcepts

open TokenTree TypeReader Shape

namespace Shape

/-- The tokens stay as they are in front of anything. -/
structure Still (before : Tokens) : Prop where
  ahead : ∀ {fits : Tokens → Prop} {count : Nat} {tokens done : Tokens} {holes : List Hole},
    Fills fits count tokens done holes → Fills fits count (before ++ tokens) (before ++ done) holes

namespace Still

theorem nil : Still [] := ⟨fun later => later⟩

theorem mark {before : Tokens} (still : Still before) (char : Char) (notTick : char ≠ '\'')
    (spacing : Spacing) (pos : Nat) : Still (.punct char spacing pos :: before) :=
  ⟨fun later => (still.ahead later).mark char notTick spacing pos⟩

theorem name {before : Tokens} (still : Still before) {name : String} (notBlank : name ≠ "_")
    (pos : Nat) : Still (.ident name pos :: before) :=
  ⟨fun later => (still.ahead later).name notBlank pos⟩

theorem literal {before : Tokens} (still : Still before) (text : String) (pos : Nat) :
    Still (.literal text pos :: before) :=
  ⟨fun later => (still.ahead later).literal text pos⟩

theorem lifetime {before : Tokens} (still : Still before) (name : String) (pos pos' : Nat) :
    Still (.punct '\'' .joint pos :: .ident name pos' :: before) :=
  ⟨fun later => (still.ahead later).lifetime name pos pos'⟩

end Still

theorem Alike.still {fits : Tokens → Prop} {count : Nat}
    {before before' text done text' done' : Tokens} {holes : List (Hole × Hole)}
    (later : Alike fits count text done text' done' holes) (still : Still before)
    (still' : Still before') :
    Alike fits count (before ++ text) (before ++ done) (before' ++ text') (before' ++ done')
      holes :=
  ⟨still.ahead later.source, still'.ahead later.print, later.same⟩

theorem Fills.lone {fits : Tokens → Prop} {count : Nat} {tokens done : Tokens} {holes : List Hole}
    {colon : TokenTree} (fills : Fills fits count tokens done holes) (alone : fits [])
    (lone : Lone ':' ':' (colon :: tokens) tokens) : Lone ':' ':' (colon :: done) done := by
  cases lone with
  | alone => exact .alone
  | joint single =>
      refine .joint fun spacing pos rest same => ?_
      have noTick : '\'' ∉ [':'] := by decide
      have marks := isSome_eat?_fillFrom noTick count tokens
      rw [fills.alone alone, eat?_single_iff.mpr ⟨spacing, pos, same⟩, Option.isSome_some] at marks
      obtain ⟨rest', found⟩ := Option.isSome_iff_exists.mp marks.symm
      obtain ⟨spacing', pos', same'⟩ := eat?_single_iff.mp found
      exact single _ _ _ same'

end Shape

theorem Colons.still {present : Bool} {tokens : Tokens} (colons : Colons present tokens) :
    Still tokens := by
  cases colons with
  | absent => exact .nil
  | present => exact (Still.nil.mark ':' (by decide) _ _).mark ':' (by decide) _ _

theorem Keyword.still {name : String} {present : Bool} {tokens : Tokens}
    (keyword : Keyword name present tokens) (notBlank : name ≠ "_") : Still tokens := by
  cases keyword with
  | absent => exact .nil
  | present => exact Still.nil.name notBlank _

theorem Marked.still {char : Char} {present : Bool} {tokens : Tokens}
    (marked : Marked char present tokens) (notTick : char ≠ '\'') : Still tokens := by
  cases marked with
  | absent => exact .nil
  | present => exact Still.nil.mark char notTick _ _

theorem Named.still {name : Option String} {tokens : Tokens} (named : Named name tokens) :
    Still tokens := by
  cases named with
  | absent => exact .nil
  | present => exact Still.nil.lifetime _ _ _

theorem Listed.still {names : List String} {trailing : Bool} {tokens : Tokens}
    (listed : Listed names trailing tokens) : Still tokens := by
  induction listed with
  | close => exact Still.nil.mark '>' (by decide) _ _
  | last => exact (Still.nil.mark '>' (by decide) _ _).lifetime _ _ _
  | more others ih => exact (ih.mark ',' (by decide) _ _).lifetime _ _ _

theorem Bindings.still {binder : Option Binder} {tokens : Tokens}
    (bindings : Bindings binder tokens) : Still tokens := by
  cases bindings with
  | absent => exact .nil
  | present listed => exact (listed.still.mark '<' (by decide) _ _).name (by decide) _

theorem Convention.still {convention : Option (Option String)} {tokens : Tokens}
    (calling : Convention convention tokens) : Still tokens := by
  cases calling with
  | absent => exact .nil
  | unnamed => exact Still.nil.name (by decide) _
  | named => exact (Still.nil.literal _ _).name (by decide) _

namespace Shape

/-- What is printed for a segment is filled to what is printed for another of the same name. -/
structure SegmentAlike (count : Nat) (segment segment' : Segment) (holes : List (Hole × Hole)) :
    Prop where
  name : segment'.name = segment.name
  word : segment.name ≠ "_"
  args : Fills (fun _ => True) count segment.args.tokens segment'.args.tokens (holes.map Prod.snd)
  yields : yieldsToCall segment.args = true → yieldsToCall segment'.args = true ∧ holes = []

theorem SegmentAlike.fills {count : Nat} {segment segment' : Segment} {holes : List (Hole × Hole)}
    (alike : SegmentAlike count segment segment' holes) :
    Fills (fun _ => True) count segment.tokens segment'.tokens (holes.map Prod.snd) := by
  rw [Segment.tokens_eq, Segment.tokens_eq, alike.name]
  exact alike.args.name alike.word 0

/-- What is printed for an argument is filled to what is printed for another. A lifetime holds no
hole, so that it may be moved. -/
structure ArgAlike (count : Nat) (arg arg' : GenericArg) (holes : List (Hole × Hole)) : Prop where
  kind : arg'.isLifetime = arg.isLifetime
  print : Fills Unbounded count arg.tokens arg'.tokens (holes.map Prod.snd)
  still : arg.isLifetime = true →
    holes = [] ∧ ∀ count, Fills Unbounded count arg.tokens arg'.tokens []

theorem fills_argList {count : Nat} {args args' : List GenericArg} {holes : List (Hole × Hole)}
    (trailing : Bool) (each : Each ArgAlike count args args' holes) :
    Fills (fun _ => True) count (argList trailing (argLists args) ++ [mark '>'])
      (argList trailing (argLists args') ++ [mark '>']) (holes.map Prod.snd) := by
  have moved : Each ArgAlike count (front GenericArg.isLifetime args)
      (front GenericArg.isLifetime args') holes := by
    refine each.front (fun _ _ _ _ alike => alike.kind) fun _ arg arg' _ alike lifetime => ?_
    obtain ⟨none, anywhere⟩ := alike.still lifetime
    exact ⟨none, fun count => ⟨alike.kind, anywhere count, fun _ => ⟨rfl, anywhere⟩⟩⟩
  have printed : Fills Unbounded count (argList trailing (argLists args))
      (argList trailing (argLists args')) (holes.map Prod.snd) := by
    rw [argList_args, argList_args, closes_congr (each.map_eq fun _ _ _ _ alike => alike.kind)]
    exact moved.fills_separated (by decide) (fun rest => .punct (by decide) .alone 0 rest)
      (fun _ fit => fit) fun _ _ _ _ alike => alike.print
  have closing := printed.append (Fills.nil.mark '>' (by decide) .alone 0)
    fun rest (_ : True) => .punct (by decide) .alone 0 rest
  rwa [List.append_nil] at closing

section Steps

variable {count : Nat} {segments segments' : List Segment} {holes : List (Hole × Hole)}

theorem fills_segmentTokens (each : Each SegmentAlike count segments segments' holes) :
    Fills (fun _ => True) count (segmentTokens segments) (segmentTokens segments')
      (holes.map Prod.snd) := by
  induction each with
  | nil => exact .nil
  | @cons count segment segment' segments segments' holes others first rest ih =>
      cases rest with
      | nil =>
          rw [List.append_nil]
          exact first.fills
      | cons second later =>
          rw [segmentTokens_cons_cons, segmentTokens_cons_cons, List.map_append, List.append_assoc,
            List.append_assoc]
          rw [← List.length_map Prod.snd] at ih
          have colons := (ih.mark ':' (by decide) .alone 0).mark ':' (by decide) .joint 0
          exact first.fills.append colons fun _ _ => trivial

theorem isPlain_of_each {path path' : Path}
    (each : Each SegmentAlike count path.segments path'.segments holes)
    (plain : isPlain path = true) : isPlain path' = true := by
  rw [isPlain_iff] at plain ⊢
  generalize path.segments = segments at each plain
  generalize path'.segments = segments' at each
  induction each with
  | nil => exact nofun
  | cons first rest ih =>
      obtain ⟨head, tail⟩ := List.forall_mem_cons.mp plain
      refine List.forall_mem_cons.mpr ⟨?_, ih tail⟩
      have args := first.args
      rw [head] at args
      exact args.eq_nil trivial

end Steps

end Shape

/-! ### What filling makes of a phrase -/

/-- How a type in front of a plus is printed as a bound: as it stands or in parentheses. -/
def TypeExpr.boundForm : TypeExpr → Option Bool
  | .path _ => some false
  | .object false [.trait found] false => some found.wrapped
  | _ => none

namespace Shape

def RefillsType (plus : Bool) (value : TypeExpr) (ending : Ending) (text : Tokens) : Prop :=
  ∀ count, ∃ value' ending' done holes, Spelling (.type plus value') ending' done ∧
    Alike Unbounded count text done value.tokens value'.tokens holes ∧
    ending'.bound = ending.bound ∧ (plus = false → ending' = ending) ∧
    value'.isTicked = value.isTicked ∧
    ∀ wrapped, value.boundForm = some wrapped → value'.boundForm = some wrapped

structure StepsAlike (count : Nat) (text done : Tokens) (segments segments' : List Segment)
    (holes : List (Hole × Hole)) : Prop where
  source : Fills (fun _ => True) count text done (holes.map Prod.fst)
  each : Each SegmentAlike count segments segments' holes
  same : ∀ pair ∈ holes, Reprinted pair.1 pair.2

def RefillsPath (value : Path) (text : Tokens) : Prop :=
  ∀ count, ∃ value' done holes, Spelling (.path value') .shut done ∧
    value'.rooted = value.rooted ∧ SameHead text done ∧
    StepsAlike count text done value.segments value'.segments holes

/-- Filling the text and filling what is printed for the phrase lead to one phrase of the same
kind. -/
def Refills : Phrase → Ending → Tokens → Prop
  | .type plus value, ending, text => RefillsType plus value ending text
  | .types values trailing, _, text => ∀ count, ∃ values' done holes,
      Spelling (.types values' trailing) .shut done ∧
        Alike (· = []) count text done (separated ',' trailing (typeLists values))
          (separated ',' trailing (typeLists values')) holes ∧
        values'.isEmpty = values.isEmpty
  | .segment value, _, text => ∀ count, ∃ value' pos tail done holes,
      text = .ident value.name pos :: tail ∧
        Spelling (.segment value') .shut (.ident value.name pos :: done) ∧
        SegmentAlike count value value' holes ∧
        Alike (fun _ => True) count tail done value.args.tokens value'.args.tokens holes
  | .steps values, _, text => ∀ count, ∃ values' done holes,
      Spelling (.steps values') .shut done ∧ StepsAlike count text done values values' holes ∧
        ∃ name pos rest rest', text = .ident name pos :: rest ∧ done = .ident name pos :: rest'
  | .path value, _, text => RefillsPath value text
  | .arg value, _, text => ∀ count, ∃ value' ending done holes,
      Spelling (.arg value') ending done ∧ ArgAlike count value value' holes ∧
        Alike Unbounded count text done value.tokens value'.tokens holes
  | .args values trailing, _, text => ∀ count, ∃ values' done holes,
      Spelling (.args values' trailing) .shut done ∧ Each ArgAlike count values values' holes ∧
        Fills (fun _ => True) count text done (holes.map Prod.fst) ∧
        (∀ pair ∈ holes, Reprinted pair.1 pair.2) ∧ values'.isEmpty = values.isEmpty
  | .call value, ending, text => ∀ count, ∃ value' done holes,
      Spelling (.call value') ending done ∧
        Alike Unbounded count text done value.tokens value'.tokens holes
  | .output value, ending, text => ∀ count, ∃ value' done holes,
      Spelling (.output value') ending done ∧
        Alike Unbounded count text done (outputTokens value) (outputTokens value') holes
  | .view before value, _, text => ∀ count, ∃ value' done holes,
      (∀ before' : Ending, before'.bound = before.bound →
        ∃ ending', Spelling (.view before' value') ending' done) ∧
        Alike (fun _ => True) count text done (traitTokens value) (traitTokens value') holes
  | .traitPath value, ending, text => ∀ count, ∃ value' done holes,
      Spelling (.traitPath value') ending done ∧
        Alike Unbounded count text done value.tokens value'.tokens holes
  | .traitBound value, ending, text => ∀ count, ∃ path done holes,
      Spelling (.traitBound { value with path }) ending done ∧
        Alike Unbounded count text done value.inner (TraitBound.inner { value with path }) holes
  | .bound value, ending, text => ∀ count, ∃ value' done holes,
      Spelling (.bound value') ending done ∧
        Alike Unbounded count text done value.tokens value'.tokens holes ∧
        namesTrait value' = namesTrait value
  | .more before values trailing, ending, text => ∀ count, ∃ values' done holes,
      Spelling (.more before values' trailing) ending done ∧
        Alike Unbounded count text done (plusTokens trailing (boundLists values))
          (plusTokens trailing (boundLists values')) holes ∧
        values'.map namesTrait = values.map namesTrait
  | .bounds plus values trailing, ending, text => ∀ count, ∃ values' done holes,
      Spelling (.bounds plus values' trailing) ending done ∧
        Alike Unbounded count text done (separated '+' trailing (boundLists values))
          (separated '+' trailing (boundLists values')) holes ∧
        values'.map namesTrait = values.map namesTrait
  | .limits values trailing, _, text => ∀ count, ∃ values' done holes,
      Spelling (.limits values' trailing) .shut done ∧
        Alike Unbounded count text done (separated '+' trailing (boundLists values))
          (separated '+' trailing (boundLists values')) holes
  | .param first value, _, text => ∀ count, ∃ value' done holes,
      Spelling (.param first value') .shut done ∧
        Alike (StopsAt [',', '>']) count text done value.tokens value'.tokens holes
  | .params first values trailing further, _, text =>
      ∀ count, ∃ values' trailing' further' done holes,
        Spelling (.params first values' trailing' further') .shut done ∧
          Alike (· = []) count text done
            (separated ',' trailing (paramLists values) ++ dotTokens further)
            (separated ',' trailing' (paramLists values') ++ dotTokens further') holes

theorem ne_blank_of_isSegmentWord {name : String} (word : isSegmentWord name = true) :
    name ≠ "_" := by
  rintro rfl
  exact absurd word (by decide)

theorem Each.single {α : Type} {rel : Nat → α → α → List (Hole × Hole) → Prop} {count : Nat}
    {item item' : α} {holes : List (Hole × Hole)} (only : rel count item item' holes) :
    Each rel count [item] [item'] holes := by
  have whole := Each.cons only .nil
  rwa [List.append_nil] at whole

theorem StepsAlike.alike {count : Nat} {text done : Tokens} {segments segments' : List Segment}
    {holes : List (Hole × Hole)} (steps : StepsAlike count text done segments segments' holes) :
    Alike (fun _ => True) count text done (segmentTokens segments) (segmentTokens segments')
      holes :=
  ⟨steps.source, fills_segmentTokens steps.each, steps.same⟩

theorem refills_openSegment {name : String} {pos pos' : Nat} {doubleColon trailing : Bool}
    {spacing : Spacing} {colons tokens : Tokens} {args : List GenericArg} {ending : Ending}
    (word : name = "Self" ∨ isName name = true) (turbofish : Colons doubleColon colons)
    (inner : Refills (.args args trailing) ending tokens) :
    Refills (.segment ⟨name, .angle doubleColon args trailing⟩) .shut
      (.ident name pos :: (colons ++ .punct '<' spacing pos' :: tokens)) := by
  intro count
  obtain ⟨args', done, holes, spelled, each, source, same, sameEmpty⟩ := inner count
  have print : Fills (fun _ => True) count (PathArgs.tokens (.angle doubleColon args trailing))
      (PathArgs.tokens (.angle doubleColon args' trailing)) (holes.map Prod.snd) := by
    rw [PathArgs.tokens, PathArgs.tokens, List.append_assoc, List.append_assoc]
    exact (Colons.printed doubleColon).still.ahead
      ((fills_argList trailing each).mark '<' (by decide) .alone 0)
  refine ⟨_, pos, _, _, holes, rfl, .openSegment word turbofish spelled, ⟨rfl, ?_, print, ?_⟩,
    ⟨turbofish.still.ahead (source.mark '<' (by decide) spacing pos'), print, same⟩⟩
  · exact ne_of_isPathWord (isPathWord_of_opens word) rfl
  · intro yields
    refine ⟨sameEmpty.trans yields, ?_⟩
    rw [List.isEmpty_iff.mp yields] at each
    cases each
    rfl

theorem refills_lastStep {segment : Segment} {tokens : Tokens} {ending : Ending}
    (only : Refills (.segment segment) ending tokens) :
    Refills (.steps [segment]) .shut tokens := by
  intro count
  obtain ⟨segment', pos, tail, done, holes, rfl, spelled, each, alike⟩ := only count
  exact ⟨[segment'], _, holes, .lastStep spelled,
    ⟨alike.source.name each.word pos, .single each, alike.same⟩, _, _, _, _, rfl, rfl⟩

theorem refills_moreSteps {segment : Segment} {segments : List Segment} {tokens more : Tokens}
    {ending ending' : Ending} {spacing : Spacing} {pos pos' : Nat}
    (first : Refills (.segment segment) ending tokens)
    (others : Refills (.steps segments) ending' more) :
    Refills (.steps (segment :: segments)) .shut
      (tokens ++ .punct ':' .joint pos :: .punct ':' spacing pos' :: more) := by
  intro count
  obtain ⟨segment', start, tail, done, holes, rfl, spelled, each, alike⟩ := first count
  obtain ⟨segments', doneMore, holesMore, spelledMore, steps, _⟩ := others (count + holes.length)
  have named := alike.source.name each.word start
  have source := steps.source
  rw [← List.length_map Prod.fst] at source
  have colons := (source.mark ':' (by decide) spacing pos').mark ':' (by decide) .joint pos
  have whole := named.append colons fun _ (_ : True) => trivial
  rw [← List.map_append] at whole
  refine ⟨segment' :: segments', _, holes ++ holesMore, .moreSteps spelled spelledMore,
    ⟨whole, .cons each steps.each, ?_⟩, _, _, _, _, rfl, rfl⟩
  · intro pair member
    rcases List.mem_append.mp member with earlier | later
    · exact alike.same pair earlier
    · exact steps.same pair later

theorem refills_path {rooted : Bool} {segments : List Segment} {colons tokens : Tokens}
    {ending : Ending} (root : Colons rooted colons)
    (steps : Refills (.steps segments) ending tokens) :
    Refills (.path ⟨startOf (colons ++ tokens), rooted, segments⟩) .shut (colons ++ tokens) := by
  intro count
  obtain ⟨segments', done, holes, spelled, steps, name, pos, rest, rest', rfl, rfl⟩ := steps count
  refine ⟨_, _, holes, .path root spelled, rfl, ?_, root.still.ahead steps.source, steps.each,
    steps.same⟩
  cases root with
  | absent => exact .word
  | present => exact .colons

theorem StepsAlike.path {count : Nat} {text done : Tokens} {value value' : Path}
    {holes : List (Hole × Hole)} (rooted : value'.rooted = value.rooted)
    (steps : StepsAlike count text done value.segments value'.segments holes) :
    Alike (fun _ => True) count text done value.tokens value'.tokens holes := by
  obtain ⟨pos, root, segments⟩ := value
  obtain ⟨pos', root', segments'⟩ := value'
  obtain rfl : root' = root := rooted
  exact ⟨steps.source, (Colons.printed root').still.ahead (fills_segmentTokens steps.each),
    steps.same⟩

theorem refills_lifetimeArg {name : String} {pos pos' : Nat} :
    Refills (.arg (.lifetime pos name)) .shut [.punct '\'' .joint pos, .ident name pos'] := by
  intro count
  have still : ∀ count, Fills Unbounded count (lifetime name) (lifetime name) [] :=
    fun _ => Fills.nil.lifetime name 0 0
  exact ⟨_, _, _, [], .lifetimeArg, ⟨rfl, still count, fun _ => ⟨rfl, still⟩⟩,
    Alike.nil.lifetime name pos pos'⟩

theorem refills_typeArg {type : TypeExpr} {tokens : Tokens} {ending : Ending}
    (inner : Refills (.type true type) ending tokens) :
    Refills (.arg (.type type)) .shut tokens := by
  intro count
  obtain ⟨type', ending', done, holes, spelled, alike, _⟩ := inner count
  exact ⟨_, _, _, holes, .typeArg spelled, ⟨rfl, alike.print, nofun⟩, alike⟩

theorem refills_constArg {source value : Tokens} (read : constant? source = some (value, [])) :
    Refills (.arg (.const (startOf source) value)) .shut source := by
  intro count
  obtain ⟨source', value', holes, spelled, alike⟩ :=
    (constant?_eq_some_iff.mp read).refilled count
  exact ⟨_, _, _, holes, .constArg (constant?_eq_some_iff.mpr spelled),
    ⟨rfl, alike.print, nofun⟩, alike⟩

theorem alike_binding {name : String} {args : PathArgs} {segment' : Segment} {count : Nat}
    {tail done more doneMore more' doneMore' : Tokens} {holes others : List (Hole × Hole)}
    {char : Char} (notTick : char ≠ '\'') (pos : Nat) (spacing : Spacing) (pos' : Nat)
    (head : SegmentAlike count ⟨name, args⟩ segment' holes)
    (alike : Alike (fun _ => True) count tail done args.tokens segment'.args.tokens holes)
    (later : Alike Unbounded (count + holes.length) more doneMore more' doneMore' others) :
    Alike Unbounded count (.ident name pos :: tail ++ .punct char spacing pos' :: more)
      (.ident name pos :: done ++ .punct char spacing pos' :: doneMore)
      (word name :: args.tokens ++ mark char :: more')
      (word segment'.name :: segment'.args.tokens ++ mark char :: doneMore') (holes ++ others) := by
  rw [head.name]
  exact (alike.name head.word pos 0).append (later.punct notTick spacing .alone pos' 0)
    fun _ _ => ⟨trivial, trivial⟩

theorem refills_typeBinding {name : String} {args : PathArgs} {value : TypeExpr}
    {tokens more : Tokens} {ending ending' : Ending} {spacing : Spacing} {pos : Nat}
    (word : isPathWord name = true) (head : Refills (.segment ⟨name, args⟩) ending tokens)
    (inner : Refills (.type true value) ending' more) :
    Refills (.arg (.typeBinding (startOf tokens) name args value)) .shut
      (tokens ++ .punct '=' spacing pos :: more) := by
  intro count
  obtain ⟨⟨name', args'⟩, start, tail, done, holes, rfl, spelled, each, alike⟩ := head count
  obtain ⟨value', _, doneMore, others, spelledMore, alikeMore, _⟩ := inner (count + holes.length)
  obtain rfl : name' = name := each.name
  have whole := alike_binding (by decide : '=' ≠ '\'') start spacing pos each alike alikeMore
  exact ⟨_, _, _, _, .typeBinding word spelled spelledMore,
    ⟨rfl, whole.print, nofun⟩, whole⟩

theorem refills_constBinding {name : String} {args : PathArgs} {source value tokens : Tokens}
    {ending : Ending} {spacing : Spacing} {pos : Nat} (word : isPathWord name = true)
    (head : Refills (.segment ⟨name, args⟩) ending tokens)
    (read : constant? source = some (value, [])) :
    Refills (.arg (.constBinding (startOf tokens) name args value)) .shut
      (tokens ++ .punct '=' spacing pos :: source) := by
  intro count
  obtain ⟨⟨name', args'⟩, start, tail, done, holes, rfl, spelled, each, alike⟩ := head count
  obtain ⟨source', value', others, spelledMore, alikeMore⟩ :=
    (constant?_eq_some_iff.mp read).refilled (count + holes.length)
  obtain rfl : name' = name := each.name
  have whole := alike_binding (by decide : '=' ≠ '\'') start spacing pos each alike alikeMore
  exact ⟨_, _, _, _, .constBinding word spelled (constant?_eq_some_iff.mpr spelledMore),
    ⟨rfl, whole.print, nofun⟩, whole⟩

theorem refills_constraint {name : String} {args : PathArgs} {bounds : List Bound}
    {trailing : Bool} {colon : TokenTree} {tokens more : Tokens} {ending ending' : Ending}
    (word : isPathWord name = true) (head : Refills (.segment ⟨name, args⟩) ending tokens)
    (lone : Lone ':' ':' (colon :: more) more)
    (inner : Refills (.limits bounds trailing) ending' more) :
    Refills (.arg (.constraint (startOf tokens) name args bounds trailing)) .shut
      (tokens ++ colon :: more) := by
  intro count
  obtain ⟨⟨name', args'⟩, start, tail, done, holes, rfl, spelled, each, alike⟩ := head count
  obtain ⟨bounds', doneMore, others, spelledMore, alikeMore⟩ := inner (count + holes.length)
  obtain rfl : name' = name := each.name
  have lone' := alikeMore.source.lone rfl lone
  obtain ⟨spacing, pos, rfl⟩ : ∃ spacing pos, colon = .punct ':' spacing pos := by
    cases lone <;> exact ⟨_, _, rfl⟩
  have whole := alike_binding (by decide : ':' ≠ '\'') start spacing pos each alike alikeMore
  exact ⟨_, _, _, _, .constraint word spelled lone' spelledMore,
    ⟨rfl, whole.print, nofun⟩, whole⟩

theorem refills_lastArg {arg : GenericArg} {tokens : Tokens} {ending : Ending} {spacing : Spacing}
    {pos : Nat} (only : Refills (.arg arg) ending tokens) :
    Refills (.args [arg] false) .shut (tokens ++ [.punct '>' spacing pos]) := by
  intro count
  obtain ⟨arg', ending', done, holes, spelled, each, alike⟩ := only count
  have source := alike.source.append (Fills.nil.mark '>' (by decide) spacing pos)
    fun rest (_ : True) => .punct (by decide) spacing pos rest
  rw [List.append_nil] at source
  exact ⟨_, _, holes, .lastArg spelled, .single each, source, alike.same, rfl⟩

theorem refills_moreArgs {arg : GenericArg} {args : List GenericArg} {trailing : Bool}
    {tokens more : Tokens} {ending ending' : Ending} {spacing : Spacing} {pos : Nat}
    (first : Refills (.arg arg) ending tokens)
    (others : Refills (.args args trailing) ending' more) :
    Refills (.args (arg :: args) (trailing || args.isEmpty)) .shut
      (tokens ++ .punct ',' spacing pos :: more) := by
  intro count
  obtain ⟨arg', _, done, holes, spelled, each, alike⟩ := first count
  obtain ⟨args', doneMore, holesMore, spelledMore, eachMore, sourceMore, sameMore, sameEmpty⟩ :=
    others (count + holes.length)
  rw [← List.length_map Prod.fst] at sourceMore
  have source := alike.source.append (sourceMore.mark ',' (by decide) spacing pos)
    fun rest (_ : True) => .punct (by decide) spacing pos _
  rw [← List.map_append] at source
  rw [← sameEmpty]
  refine ⟨arg' :: args', _, _, .moreArgs spelled spelledMore, .cons each eachMore, source, ?_,
    rfl⟩
  intro pair member
  rcases List.mem_append.mp member with earlier | later
  · exact alike.same pair earlier
  · exact sameMore pair later

theorem refills_lastType {type : TypeExpr} {tokens : Tokens} {ending : Ending}
    (only : Refills (.type true type) ending tokens) :
    Refills (.types [type] false) .shut tokens := by
  intro count
  obtain ⟨type', _, done, holes, spelled, alike, _⟩ := only count
  refine ⟨[type'], done, holes, .lastType spelled, ?_, rfl⟩
  simp only [typeLists, separated_single]
  exact alike.mono fun rest ended => by rw [ended]; rfl

theorem refills_moreTypes {type : TypeExpr} {types : List TypeExpr} {trailing : Bool}
    {tokens more : Tokens} {ending ending' : Ending} {spacing : Spacing} {pos : Nat}
    (first : Refills (.type true type) ending tokens)
    (others : Refills (.types types trailing) ending' more) :
    Refills (.types (type :: types) (trailing || types.isEmpty)) .shut
      (tokens ++ .punct ',' spacing pos :: more) := by
  intro count
  obtain ⟨type', _, done, holes, spelled, alike, _⟩ := first count
  obtain ⟨types', doneMore, holesMore, spelledMore, alikeMore, sameEmpty⟩ :=
    others (count + holes.length)
  refine ⟨type' :: types', done ++ .punct ',' spacing pos :: doneMore, holes ++ holesMore, ?_, ?_,
    rfl⟩
  · rw [← sameEmpty]
    exact .moreTypes spelled spelledMore
  · have printed := separated_types trailing type' types'
    rw [sameEmpty] at printed
    rw [separated_types, printed]
    exact alike.append (alikeMore.punct (by decide) spacing .alone pos 0) fun rest _ =>
      ⟨.punct (by decide) spacing pos _, .punct (by decide) .alone 0 _⟩

theorem refills_someOutput {output : TypeExpr} {tokens : Tokens} {ending : Ending}
    {spacing : Spacing} {pos pos' : Nat} (inner : Refills (.type false output) ending tokens) :
    Refills (.output (some output)) ending
      (.punct '-' .joint pos :: .punct '>' spacing pos' :: tokens) := by
  intro count
  obtain ⟨output', ending', done, holes, spelled, alike, _, sameEnding, _⟩ := inner count
  obtain rfl := sameEnding rfl
  exact ⟨some output', _, holes, .someOutput spelled,
    (alike.punct (by decide) spacing .alone pos' 0).punct (by decide) .joint .joint pos 0⟩

theorem refills_call {pos : Nat} {inputs : List TypeExpr} {trailing : Bool}
    {output : Option TypeExpr} {tokens more : Tokens} {ending ending' : Ending}
    (first : Refills (.types inputs trailing) ending tokens)
    (second : Refills (.output output) ending' more) :
    Refills (.call (.call pos inputs trailing output)) ending'
      (.group .paren tokens pos :: more) := by
  intro count
  obtain ⟨inputs', done, holes, spelled, alike, _⟩ := first count
  obtain ⟨output', doneMore, others, spelledMore, alikeMore⟩ := second (count + holes.length)
  have group : Alike (fun _ => True) count _ _ _ _ holes := alike.group .paren pos rfl
  exact ⟨_, _, _, .call spelled spelledMore, group.append alikeMore fun _ _ => ⟨trivial, trivial⟩⟩

theorem refills_plainTrait {path : Path} {tokens : Tokens} {ending : Ending}
    (inner : Refills (.path path) ending tokens) : Refills (.traitPath path) .shut tokens := by
  intro count
  obtain ⟨path', done, holes, spelled, rooted, _, steps⟩ := inner count
  exact ⟨path', done, holes, .plainTrait spelled, (steps.path rooted).mono fun _ _ => trivial⟩

theorem refills_calledTrait {pos : Nat} {rooted doubleColon : Bool} {segments : List Segment}
    {last : Segment} {args : PathArgs} {tokens colons more : Tokens} {ending ending' : Ending}
    (inner : Refills (.path ⟨pos, rooted, segments ++ [last]⟩) ending tokens)
    (yields : yieldsToCall last.args = true) (turbofish : Colons doubleColon colons)
    (called : Refills (.call args) ending' more) :
    Refills (.traitPath ⟨pos, rooted, segments ++ [⟨last.name, args⟩]⟩) ending'
      (tokens ++ (colons ++ more)) := by
  intro count
  obtain ⟨⟨pos', root, listed⟩, done, holes, spelled, sameRoot, _, source, each, same⟩ :=
    inner count
  obtain rfl : root = rooted := sameRoot
  obtain ⟨args', doneMore, others, spelledMore, alikeMore⟩ := called (count + holes.length)
  obtain ⟨init, within, lasts, inLast, sameListed, rfl, eachInit, eachLast⟩ := each.of_append
  dsimp only at sameListed
  subst sameListed
  cases eachLast with
  | @cons _ _ last' _ _ inOnly _ only rest =>
      cases rest
      obtain ⟨yields', rfl⟩ := only.yields yields
      simp only [List.append_nil] at source same alikeMore
      have bare : Each SegmentAlike count (segments ++ [⟨last.name, .none⟩])
          (init ++ [⟨last'.name, .none⟩]) within := by
        have nameless : SegmentAlike (count + within.length) ⟨last.name, .none⟩
            ⟨last'.name, .none⟩ [] := ⟨only.name, only.word, .nil, fun _ => ⟨rfl, rfl⟩⟩
        have single := eachInit.append (.single nameless)
        rwa [List.append_nil] at single
      have front : Alike (fun _ => True) count tokens done
          (Path.tokens ⟨pos, root, segments ++ [⟨last.name, .none⟩]⟩)
          (Path.tokens ⟨pos', root, init ++ [⟨last'.name, .none⟩]⟩) within :=
        StepsAlike.path rfl ⟨source, bare, same⟩
      have whole := front.append (alikeMore.still turbofish.still Still.nil)
        fun _ _ => ⟨trivial, trivial⟩
      refine ⟨_, _, within ++ others, .calledTrait spelled yields' turbofish spelledMore, ?_⟩
      simp only [Path.tokens, segmentTokens_concat _ _ args, segmentTokens_concat _ _ args']
      simpa only [Path.tokens, List.append_assoc, List.nil_append] using whole

theorem refills_traitBound {wrapped relaxed : Bool} {binder : Option Binder} {path : Path}
    {question before tokens : Tokens} {ending : Ending} (mark : Marked '?' relaxed question)
    (bindings : Bindings binder before) (inner : Refills (.traitPath path) ending tokens) :
    Refills (.traitBound ⟨wrapped, relaxed, binder, path⟩) ending
      (question ++ (before ++ tokens)) := by
  intro count
  obtain ⟨path', done, holes, spelled, alike⟩ := inner count
  have bound := alike.still bindings.still bindings.printed.still
  have whole :=
    bound.still (mark.still (by decide)) ((Marked.printed '?' relaxed).still (by decide))
  refine ⟨path', _, holes, .traitBound mark bindings spelled, ?_⟩
  simpa only [TraitBound.inner, List.append_assoc] using whole

theorem refills_wrappedBound {bound : TraitBound} {tokens : Tokens} {ending : Ending} {pos : Nat}
    (wrapped : bound.wrapped = true) (inner : Refills (.traitBound bound) ending tokens) :
    Refills (.bound (.trait bound)) .shut [.group .paren tokens pos] := by
  intro count
  obtain ⟨path', done, holes, spelled, alike⟩ := inner count
  refine ⟨.trait { bound with path := path' }, [.group .paren done pos], holes,
    .wrappedBound wrapped spelled, ?_, rfl⟩
  rw [Bound.tokens, Bound.tokens, TraitBound.tokens_eq, TraitBound.tokens_eq, if_pos wrapped,
    if_pos wrapped]
  exact alike.group .paren pos rfl

theorem refills_plainBound {bound : TraitBound} {tokens : Tokens} {ending : Ending}
    (plain : bound.wrapped = false) (inner : Refills (.traitBound bound) ending tokens) :
    Refills (.bound (.trait bound)) ending tokens := by
  intro count
  obtain ⟨path', done, holes, spelled, alike⟩ := inner count
  refine ⟨.trait { bound with path := path' }, done, holes, .plainBound plain spelled, ?_, rfl⟩
  have unwrapped := ne_true_of_eq_false plain
  rw [Bound.tokens, Bound.tokens, TraitBound.tokens_eq, TraitBound.tokens_eq, if_neg unwrapped,
    if_neg unwrapped]
  exact alike

theorem refills_trailingPlus {before : Ending} {spacing : Spacing} {pos : Nat}
    (ended : before.plus = false) :
    Refills (.more before [] true) ⟨false, true⟩ [.punct '+' spacing pos] :=
  fun _ => ⟨[], _, [], .trailingPlus ended, Alike.nil.punct (by decide) spacing .alone pos 0, rfl⟩

theorem unbounded_more {before ending : Ending} {bounds : List Bound} {trailing : Bool}
    {text rest : Tokens} (spelled : Spelling (.more before bounds trailing) ending text)
    (unbounded : Unbounded rest) : Unbounded (text ++ rest) := by
  rcases spelled.begins with ⟨_, _, rfl⟩ | ⟨spacing, pos, others, rfl⟩
  · exact unbounded
  · exact .punct (by decide) spacing pos (others ++ rest)

theorem unbounded_plusTokens {rest : Tokens} (trailing : Bool) (members : List Tokens)
    (unbounded : Unbounded rest) : Unbounded (plusTokens trailing members ++ rest) := by
  cases members with
  | cons => exact .punct (by decide) .alone 0 _
  | nil =>
      cases trailing with
      | false => exact unbounded
      | true => exact .punct (by decide) .alone 0 rest

theorem refills_moreBounds {before ending ending' : Ending} {bound : Bound} {bounds : List Bound}
    {trailing : Bool} {tokens more : Tokens} {spacing : Spacing} {pos : Nat}
    (ended : before.plus = false) (first : Refills (.bound bound) ending tokens)
    (spelled : Spelling (.more ending bounds trailing) ending' more)
    (others : Refills (.more ending bounds trailing) ending' more) :
    Refills (.more before (bound :: bounds) trailing) ending'
      (.punct '+' spacing pos :: (tokens ++ more)) := by
  intro count
  obtain ⟨bound', done, holes, spelledFirst, alike, sameKind⟩ := first count
  obtain ⟨bounds', doneMore, holesMore, spelledMore, alikeMore, sameKinds⟩ :=
    others (count + holes.length)
  have whole := alike.append alikeMore fun rest fit =>
    ⟨unbounded_more spelled fit, unbounded_plusTokens trailing (boundLists bounds) fit⟩
  exact ⟨bound' :: bounds', _, _, .moreBounds ended spelledFirst spelledMore,
    whole.punct (by decide) spacing .alone pos 0, by
      rw [List.map_cons, List.map_cons, sameKind, sameKinds]⟩

theorem refills_oneBound {bound : Bound} {tokens : Tokens} {ending : Ending}
    (only : Refills (.bound bound) ending tokens) :
    Refills (.bounds false [bound] false) ending tokens := by
  intro count
  obtain ⟨bound', done, holes, spelled, alike, sameKind⟩ := only count
  refine ⟨[bound'], done, holes, .oneBound spelled, ?_, by
    rw [List.map_singleton, List.map_singleton, sameKind]⟩
  simp only [boundLists, separated_single]
  exact alike

theorem refills_sum {bound : Bound} {bounds : List Bound} {trailing : Bool} {tokens more : Tokens}
    {ending ending' : Ending} (first : Refills (.bound bound) ending tokens)
    (spelled : Spelling (.more ending bounds trailing) ending' more)
    (others : Refills (.more ending bounds trailing) ending' more) :
    Refills (.bounds true (bound :: bounds) trailing) ending' (tokens ++ more) := by
  intro count
  obtain ⟨bound', done, holes, spelledFirst, alike, sameKind⟩ := first count
  obtain ⟨bounds', doneMore, holesMore, spelledMore, alikeMore, sameKinds⟩ :=
    others (count + holes.length)
  refine ⟨bound' :: bounds', done ++ doneMore, holes ++ holesMore, .sum spelledFirst spelledMore,
    ?_, by
    rw [List.map_cons, List.map_cons, sameKind, sameKinds]⟩
  rw [boundLists, boundLists, separated_plus, separated_plus]
  exact alike.append alikeMore fun rest fit =>
    ⟨unbounded_more spelled fit, unbounded_plusTokens trailing (boundLists bounds) fit⟩

theorem refills_pathType {plus : Bool} {path : Path} {tokens : Tokens} {ending : Ending}
    (starts : StartsType tokens) (inner : Refills (.path path) ending tokens) :
    Refills (.type plus (.path path)) ⟨plus, false⟩ tokens := by
  intro count
  obtain ⟨path', done, holes, spelled, rooted, head, steps⟩ := inner count
  exact ⟨.path path', _, done, holes, .pathType (head.startsType starts) spelled,
    (steps.path rooted).mono fun _ _ => trivial, rfl, fun _ => rfl, rfl, fun _ => id⟩

theorem refills_boundType {plus : Bool} {binder : Binder} {path : Path} {before tokens : Tokens}
    {ending : Ending} (bindings : Bindings (some binder) before) (starts : StartsName tokens)
    (inner : Refills (.path path) ending tokens) :
    Refills (.type plus (.object false [.trait ⟨false, false, some binder, path⟩] false))
      ⟨plus, false⟩ (before ++ tokens) := by
  intro count
  obtain ⟨path', done, holes, spelled, rooted, head, steps⟩ := inner count
  have bound := (steps.path rooted).still bindings.still bindings.printed.still
  refine ⟨.object false [.trait ⟨false, false, some binder, path'⟩] false, _, _, holes,
    .boundType bindings (head.startsName starts) spelled, ?_, rfl, fun _ => rfl, rfl, fun _ => id⟩
  simp only [TypeExpr.tokens, boundLists, separated_single, Bound.tokens, TraitBound.tokens,
    Bool.false_eq_true, if_false, List.nil_append]
  exact bound.mono fun _ _ => trivial

theorem boundForm_object {bound bound' : Bound} {bounds bounds' : List Bound} {trailing : Bool}
    (same : ∀ wrapped, TypeExpr.boundForm (.object false [bound] false) = some wrapped →
      TypeExpr.boundForm (.object false [bound'] false) = some wrapped)
    (kinds : bounds'.map namesTrait = bounds.map namesTrait) (wrapped : Bool)
    (form : TypeExpr.boundForm (.object false (bound :: bounds) trailing) = some wrapped) :
    TypeExpr.boundForm (.object false (bound' :: bounds') trailing) = some wrapped := by
  cases bounds with
  | cons => cases bound <;> cases form
  | nil =>
      obtain rfl := List.map_eq_nil_iff.mp kinds
      cases trailing with
      | true => cases bound <;> cases form
      | false => exact same wrapped form

theorem refilled_ne_nil {before before' ending ending' : Ending} {bounds bounds' : List Bound}
    {trailing : Bool} {more more' : Tokens} (some : more ≠ [])
    (spelled : Spelling (.more before bounds trailing) ending more)
    (spelled' : Spelling (.more before' bounds' trailing) ending' more')
    (kinds : bounds'.map namesTrait = bounds.map namesTrait) : more' ≠ [] := by
  rintro rfl
  cases spelled' with
  | noMore =>
      obtain rfl := List.map_eq_nil_iff.mp kinds.symm
      cases spelled
      exact some rfl

theorem refills_sumType {binder : Option Binder} {path : Path} {bounds : List Bound}
    {trailing : Bool} {before tokens more : Tokens} {ending ending' : Ending}
    (bindings : Bindings binder before) (starts : StartsType tokens)
    (named : binder.isSome = true → StartsName tokens)
    (inner : Refills (.path path) ending tokens) (some : more ≠ [])
    (others : Spelling (.more .shut bounds trailing) ending' more)
    (refillsOthers : Refills (.more .shut bounds trailing) ending' more) :
    Refills (.type true (.object false (.trait ⟨false, false, binder, path⟩ :: bounds) trailing))
      ending' (before ++ (tokens ++ more)) := by
  intro count
  obtain ⟨path', done, holes, spelled, rooted, head, steps⟩ := inner count
  obtain ⟨bounds', doneMore, holesMore, spelledMore, alikeMore, sameKinds⟩ :=
    refillsOthers (count + holes.length)
  have sum := (steps.path rooted).append alikeMore fun _ _ => ⟨trivial, trivial⟩
  have whole := sum.still bindings.still bindings.printed.still
  refine ⟨.object false (.trait ⟨false, false, binder, path'⟩ :: bounds') trailing, ending', _,
    holes ++ holesMore, .sumType bindings (head.startsType starts)
      (fun bound => head.startsName (named bound)) spelled
      (refilled_ne_nil some others spelledMore sameKinds) spelledMore, ?_, rfl, fun _ => rfl, rfl,
    boundForm_object (fun _ => id) sameKinds⟩
  simp only [TypeExpr.tokens, boundLists, separated_plus, Bound.tokens, TraitBound.tokens,
    Bool.false_eq_true, if_false, List.nil_append, List.append_assoc]
  exact whole

theorem refills_invocation {plus : Bool} {binder : Option Binder} {path : Path}
    {before tokens body : Tokens} {delimiter : Delimiter} {ending : Ending} {spacing : Spacing}
    {pos pos' : Nat} (bindings : Bindings binder before) (starts : StartsType tokens)
    (named : binder.isSome = true → StartsName tokens) (plain : isPlain path = true)
    (inner : Refills (.path path) ending tokens) :
    Refills (.type plus (.invocation path (.group delimiter body pos'))) .shut
      (before ++ (tokens ++ [.punct '!' spacing pos, .group delimiter body pos'])) := by
  intro count
  obtain ⟨path', done, holes, spelled, rooted, head, steps⟩ := inner count
  have call : Alike Unbounded (count + holes.length)
      (.punct '!' spacing pos :: [.group delimiter body pos']) _ _ _ _ :=
    (Alike.rawGroup delimiter body pos').punct (by decide) spacing .alone pos 0
  have whole := (steps.path rooted).append call fun _ _ => ⟨trivial, trivial⟩
  exact ⟨.invocation path' _, _, _, _, .invocation bindings (head.startsType starts)
    (fun bound => head.startsName (named bound)) (isPlain_of_each steps.each plain) spelled,
    ⟨bindings.still.ahead whole.source, whole.print, whole.same⟩, rfl, fun _ => rfl, rfl, nofun⟩

theorem refills_someView {before : Ending} {path : Path} {tokens : Tokens} {ending : Ending}
    {pos : Nat} (ended : before.bound = false) (inner : Refills (.path path) ending tokens) :
    Refills (.view before (some path)) .shut (.ident "as" pos :: tokens) := by
  intro count
  obtain ⟨path', done, holes, spelled, rooted, _, steps⟩ := inner count
  exact ⟨some path', _, holes, fun _ same => ⟨_, .someView (same.trans ended) spelled⟩,
    (steps.path rooted).name (by decide) pos 0⟩

theorem refills_qualified {plus : Bool} {self : TypeExpr} {view : Option Path}
    {segments : List Segment} {tokens seen more : Tokens} {ending ending' ending'' : Ending}
    {spacing spacing' spacing'' : Spacing} {pos pos' pos'' pos''' : Nat}
    (first : Refills (.type true self) ending tokens)
    (spelled : Spelling (.view ending view) ending' seen)
    (second : Refills (.view ending view) ending' seen)
    (third : Refills (.steps segments) ending'' more) :
    Refills (.type plus (.qualified self view segments)) .shut
      (.punct '<' spacing pos :: (tokens ++ (seen ++ .punct '>' spacing' pos' ::
        .punct ':' .joint pos'' :: .punct ':' spacing'' pos''' :: more))) := by
  intro count
  obtain ⟨self', endingSelf, done, holes, spelledSelf, alike, sameBound, _⟩ := first count
  obtain ⟨view', doneSeen, holesSeen, spelledView, alikeSeen⟩ := second (count + holes.length)
  obtain ⟨ending', spelledSeen⟩ := spelledView endingSelf sameBound
  obtain ⟨segments', doneMore, holesMore, spelledMore, steps, _⟩ :=
    third (count + holes.length + holesSeen.length)
  have path := ((steps.alike.punct (by decide : ':' ≠ '\'') spacing'' .alone pos''' 0).punct
    (by decide : ':' ≠ '\'') .joint .joint pos'' 0).punct (by decide : '>' ≠ '\'') spacing' .alone
    pos' 0
  have inside : Alike Unbounded (count + holes.length) _ _ _ _ _ :=
    (alikeSeen.append path fun _ _ => ⟨trivial, trivial⟩).mono fun _ _ => trivial
  refine ⟨.qualified self' view' segments', .shut,
    .punct '<' spacing pos :: (done ++ (doneSeen ++ .punct '>' spacing' pos' ::
      .punct ':' .joint pos'' :: .punct ':' spacing'' pos''' :: doneMore)),
    holes ++ (holesSeen ++ holesMore), .qualified spelledSelf spelledSeen spelledMore, ?_, rfl,
    fun _ => rfl, rfl, nofun⟩
  simp only [TypeExpr.tokens, List.append_assoc, List.cons_append]
  refine (alike.append inside fun rest _ => ?_).punct (by decide : '<' ≠ '\'') spacing .alone pos 0
  cases spelled with
  | noView => exact ⟨.punct (by decide) spacing' pos' _, .punct (by decide) .alone 0 _⟩
  | someView => exact ⟨rfl, rfl⟩

theorem refills_reference {plus mutable : Bool} {name : Option String} {target : TypeExpr}
    {life access tokens : Tokens} {ending : Ending} {spacing : Spacing} {pos : Nat}
    (lifetime : Named name life) (kind : Keyword "mut" mutable access)
    (unticked : name = none → lifetime? (access ++ tokens) = none)
    (inner : Spelling (.type false target) ending tokens)
    (refillsInner : Refills (.type false target) ending tokens) :
    Refills (.type plus (.reference name mutable target)) ending
      (.punct '&' spacing pos :: (life ++ (access ++ tokens))) := by
  intro count
  obtain ⟨target', ending', done, holes, spelled, alike, _, sameEnding, sameTick, _⟩ :=
    refillsInner count
  obtain rfl := sameEnding rfl
  have keyword := alike.still (kind.still (by decide))
    ((Keyword.printed "mut" mutable).still (by decide))
  have named := keyword.still lifetime.still (Named.printed name).still
  refine ⟨.reference name mutable target', ending', .punct '&' spacing pos ::
    (life ++ (access ++ done)), holes, .reference lifetime kind (fun unnamed => ?_) spelled, ?_,
    rfl, fun _ => rfl, rfl, nofun⟩
  · cases kind with
    | present => rfl
    | absent => exact inner.unticked_of_same (unticked unnamed) spelled sameTick
  · simp only [TypeExpr.tokens, List.append_assoc, List.cons_append]
    exact named.punct (by decide) spacing .alone pos 0

theorem refills_pointer {plus mutable : Bool} {target : TypeExpr} {tokens : Tokens}
    {ending : Ending} {spacing : Spacing} {pos pos' : Nat}
    (inner : Refills (.type false target) ending tokens) :
    Refills (.type plus (.pointer mutable target)) ending
      (.punct '*' spacing pos :: .ident (if mutable then "mut" else "const") pos' :: tokens) := by
  intro count
  obtain ⟨target', ending', done, holes, spelled, alike, _, sameEnding, _⟩ := inner count
  obtain rfl := sameEnding rfl
  have keyword : (if mutable then "mut" else "const") ≠ "_" := by
    cases mutable <;> decide
  exact ⟨.pointer mutable target', _, _, holes, .pointer spelled,
    (alike.name keyword pos' 0).punct (by decide) spacing .alone pos 0, rfl, fun _ => rfl, rfl,
    nofun⟩

theorem boundForm_eq_none_of_ticked {bounds : List Bound} (trailing : Bool)
    (ticked : headTicked bounds = true) :
    TypeExpr.boundForm (.object false bounds trailing) = none := by
  cases bounds with
  | nil => rfl
  | cons bound rest =>
      cases bound with
      | trait => cases ticked
      | lifetime => cases rest <;> cases trailing <;> rfl

theorem refills_tickedType {plus trailing : Bool} {bounds : List Bound} {tokens : Tokens}
    {ending : Ending} (ticked : (lifetime? tokens).isSome = true)
    (trait : bounds.any namesTrait = true)
    (inner : Spelling (.bounds true bounds trailing) ending tokens)
    (refillsInner : Refills (.bounds true bounds trailing) ending tokens) :
    Refills (.type plus (.object false bounds trailing)) ending tokens := by
  intro count
  obtain ⟨bounds', done, holes, spelled, alike, sameKinds⟩ := refillsInner count
  have headTick := inner.isTicked_of_bounds
  refine ⟨.object false bounds' trailing, ending, done, holes,
    .tickedType (inner.ticked_of_same ticked spelled sameKinds)
      ((any_namesTrait_eq sameKinds).trans trait) spelled, ?_, rfl, fun _ => rfl,
    headTicked_congr sameKinds, ?_⟩
  · simp only [TypeExpr.tokens, Bool.false_eq_true, if_false, List.nil_append]
    exact alike
  · rw [boundForm_eq_none_of_ticked trailing (headTick.symm.trans ticked)]
    exact nofun

theorem refills_parens {plus : Bool} {type : TypeExpr} {tokens : Tokens} {ending : Ending}
    {pos : Nat} (unticked : lifetime? tokens = none)
    (inner : Spelling (.type true type) ending tokens)
    (refillsInner : Refills (.type true type) ending tokens) :
    Refills (.type plus (.paren type)) ⟨plus && (asBound type).isSome, false⟩
      [.group .paren tokens pos] := by
  intro count
  obtain ⟨type', _, done, holes, spelled, alike, _, _, sameTick, _⟩ := refillsInner count
  refine ⟨.paren type', _, _, holes,
    .parens (inner.unticked_of_same unticked spelled sameTick) spelled, alike.group .paren pos rfl,
    rfl, ?_, rfl, nofun⟩
  rintro rfl
  rfl

theorem refills_tickedParens {plus trailing : Bool} {bounds : List Bound} {tokens : Tokens}
    {ending : Ending} {pos : Nat} (ticked : (lifetime? tokens).isSome = true)
    (trait : bounds.any namesTrait = true)
    (inner : Spelling (.bounds true bounds trailing) ending tokens)
    (refillsInner : Refills (.bounds true bounds trailing) ending tokens) :
    Refills (.type plus (.paren (.object false bounds trailing))) .shut
      [.group .paren tokens pos] := by
  intro count
  obtain ⟨bounds', done, holes, spelled, alike, sameKinds⟩ := refillsInner count
  exact ⟨.paren (.object false bounds' trailing), _, _, holes,
    .tickedParens (inner.ticked_of_same ticked spelled sameKinds)
      ((any_namesTrait_eq sameKinds).trans trait) spelled, alike.group .paren pos rfl, rfl,
    fun _ => rfl, rfl, nofun⟩

theorem asBound_of_boundForm {type : TypeExpr} {wrapped : Bool}
    (form : type.boundForm = some wrapped) :
    ∃ bound, asBound type = some (.trait bound) ∧ bound.wrapped = true ∧
      Bound.tokens (.trait bound) =
        if wrapped then type.tokens else [delimited .paren type.tokens] := by
  unfold TypeExpr.boundForm at form
  split at form
  · cases form
    exact ⟨_, rfl, rfl, rfl⟩
  · rename_i found
    cases form
    refine ⟨_, rfl, rfl, ?_⟩
    simp only [Bound.tokens, TypeExpr.tokens, boundLists, separated_single, TraitBound.tokens_eq,
      if_true]
    cases found.wrapped <;> rfl
  · cases form

theorem boundForm_of_asBound {type : TypeExpr} {bound : Bound} (names : asBound type = some bound)
    (trait : namesTrait bound = true) :
    ∃ wrapped, type.boundForm = some wrapped := by
  unfold asBound at names
  split at names
  · exact ⟨_, rfl⟩
  · exact ⟨_, rfl⟩
  · cases names
    cases trait
  · cases names

theorem refills_parenSum {type : TypeExpr} {bound : Bound} {bounds : List Bound}
    {tokens more : Tokens} {ending ending' : Ending} {pos : Nat}
    (unticked : lifetime? tokens = none) (inner : Spelling (.type true type) ending tokens)
    (refillsInner : Refills (.type true type) ending tokens) (names : asBound type = some bound)
    (some : more ≠ []) (others : Spelling (.more .shut bounds false) ending' more)
    (refillsOthers : Refills (.more .shut bounds false) ending' more) :
    Refills (.type true (.object false (bound :: bounds) false)) ending'
      (.group .paren tokens pos :: more) := by
  intro count
  obtain ⟨type', _, done, holes, spelled, alike, _, _, sameTick, sameForm⟩ := refillsInner count
  obtain ⟨bounds', doneMore, holesMore, spelledMore, alikeMore, sameKinds⟩ :=
    refillsOthers (count + holes.length)
  obtain ⟨wrapped, form⟩ := boundForm_of_asBound names (inner.namesTrait_of_asBound names)
  obtain ⟨trait, names', isWrapped, printed⟩ := asBound_of_boundForm form
  obtain ⟨trait', namesAfter, isWrapped', printed'⟩ := asBound_of_boundForm (sameForm wrapped form)
  rw [names] at names'
  cases names'
  have grouped : Alike Unbounded count [.group .paren tokens pos] [.group .paren done pos]
      [delimited .paren type.tokens] [delimited .paren type'.tokens] holes :=
    alike.group .paren pos rfl
  have head : Alike Unbounded count [.group .paren tokens pos] [.group .paren done pos]
      (Bound.tokens (.trait trait)) (Bound.tokens (.trait trait')) holes := by
    rw [printed, printed']
    cases wrapped with
    | false => exact grouped
    | true => exact ⟨grouped.source, alike.print, alike.same⟩
  refine ⟨.object false (.trait trait' :: bounds') false, ending',
    .group .paren done pos :: doneMore, holes ++ holesMore,
    .parenSum (inner.unticked_of_same unticked spelled sameTick) spelled namesAfter
      (refilled_ne_nil some others spelledMore sameKinds) spelledMore, ?_, rfl, fun _ => rfl, rfl,
    boundForm_object (fun _ form => ?_) sameKinds⟩
  · simp only [TypeExpr.tokens, boundLists, separated_plus, Bool.false_eq_true, if_false,
      List.nil_append]
    exact head.append alikeMore fun rest fit =>
      ⟨unbounded_more others fit, unbounded_plusTokens false (boundLists bounds) fit⟩
  · rw [← form]
    simp only [TypeExpr.boundForm, isWrapped, isWrapped']

theorem refills_relaxedSum {plus : Bool} {bound : TraitBound} {bounds : List Bound}
    {tokens more : Tokens} {ending ending' : Ending} {pos : Nat} (wrapped : bound.wrapped = true)
    (relaxed : bound.relaxed = true) (inner : Refills (.traitBound bound) ending tokens)
    (others : Refills (.more .shut bounds false) ending' more) :
    Refills (.type plus (.object false (.trait bound :: bounds) false)) ending'
      (.group .paren tokens pos :: more) := by
  intro count
  obtain ⟨path', done, holes, spelled, alike⟩ := inner count
  obtain ⟨bounds', doneMore, holesMore, spelledMore, alikeMore, sameKinds⟩ :=
    others (count + holes.length)
  have group : Alike (fun _ => True) count _ _ _ _ holes := alike.group .paren pos rfl
  refine ⟨.object false (.trait { bound with path := path' } :: bounds') false, ending',
    .group .paren done pos :: doneMore, holes ++ holesMore,
    .relaxedSum wrapped relaxed spelled spelledMore, ?_, rfl, fun _ => rfl, rfl,
    boundForm_object (fun _ => id) sameKinds⟩
  simp only [TypeExpr.tokens, boundLists, separated_plus, Bound.tokens, TraitBound.tokens_eq,
    wrapped, if_true, Bool.false_eq_true, if_false, List.nil_append]
  exact group.append alikeMore fun _ _ => ⟨trivial, trivial⟩

theorem refills_tuple {plus trailing : Bool} {type : TypeExpr} {types : List TypeExpr}
    {tokens more : Tokens} {ending ending' : Ending} {spacing : Spacing} {pos pos' : Nat}
    (unticked : lifetime? tokens = none) (first : Spelling (.type true type) ending tokens)
    (refillsFirst : Refills (.type true type) ending tokens)
    (others : Refills (.types types trailing) ending' more) :
    Refills (.type plus (.tuple (type :: types) (trailing || types.isEmpty))) .shut
      [.group .paren (tokens ++ .punct ',' spacing pos :: more) pos'] := by
  intro count
  obtain ⟨type', _, done, holes, spelled, alike, _, _, sameTick, _⟩ := refillsFirst count
  obtain ⟨types', doneMore, holesMore, spelledMore, alikeMore, sameEmpty⟩ :=
    others (count + holes.length)
  have items := alike.append (alikeMore.punct (by decide : ',' ≠ '\'') spacing .alone pos 0)
    fun rest _ => ⟨.punct (by decide) spacing pos _, .punct (by decide) .alone 0 _⟩
  refine ⟨.tuple (type' :: types') (trailing || types'.isEmpty), .shut,
    [.group .paren (done ++ .punct ',' spacing pos :: doneMore) pos'], holes ++ holesMore,
    .tuple (first.unticked_of_same unticked spelled sameTick) spelled spelledMore, ?_, rfl,
    fun _ => rfl, rfl, nofun⟩
  rw [TypeExpr.tokens, TypeExpr.tokens, separated_types, separated_types]
  exact items.group .paren pos' rfl

theorem refills_slice {plus : Bool} {item : TypeExpr} {tokens : Tokens} {ending : Ending}
    {pos : Nat} (inner : Refills (.type true item) ending tokens) :
    Refills (.type plus (.slice item)) .shut [.group .bracket tokens pos] := by
  intro count
  obtain ⟨item', _, done, holes, spelled, alike, _⟩ := inner count
  exact ⟨.slice item', _, _, holes, .slice spelled, alike.group .bracket pos rfl, rfl, fun _ => rfl,
    rfl, nofun⟩

theorem refills_array {plus : Bool} {item : TypeExpr} {tokens source length : Tokens}
    {ending : Ending} {spacing : Spacing} {pos pos' : Nat}
    (inner : Refills (.type true item) ending tokens) (read : constExpr? source = some length) :
    Refills (.type plus (.array item length)) .shut
      [.group .bracket (tokens ++ .punct ';' spacing pos :: source) pos'] := by
  intro count
  obtain ⟨item', _, done, holes, spelled, alike, _⟩ := inner count
  obtain ⟨source', length', others, spelledLength, alikeLength⟩ :=
    (constExpr?_eq_some_iff.mp read).refilled (count + holes.length)
  have whole := alike.append (alikeLength.punct (by decide : ';' ≠ '\'') spacing .alone pos 0)
    fun rest _ => ⟨.punct (by decide) spacing pos _, .punct (by decide) .alone 0 _⟩
  exact ⟨.array item' length', _, _, _,
    .array spelled (constExpr?_eq_some_iff.mpr spelledLength), whole.group .bracket pos' rfl, rfl,
    fun _ => rfl, rfl, nofun⟩

theorem spelled_parameter (plus : Bool) (index : Nat) :
    Spelling (.type plus (.path ⟨0, false, [⟨parameter index, .none⟩]⟩)) ⟨plus, false⟩
      [word (parameter index)] := by
  have path := isPathWord_of_opens (.inr (isName_parameter index))
  have segment : isSegmentWord (parameter index) = true := by
    rw [isSegmentWord, path, Bool.true_or]
  exact .pathType (.name path) (.path .absent (.lastStep (.bareSegment segment)))

theorem refills_infer {plus : Bool} {pos : Nat} :
    Refills (.type plus .infer) .shut [.ident "_" pos] := by
  intro count
  refine ⟨_, _, _, _, spelled_parameter plus count, .blank pos, rfl, ?_, rfl, nofun⟩
  rintro rfl
  rfl

theorem refills_object {plus trailing : Bool} {bounds : List Bound} {tokens : Tokens}
    {ending : Ending} {pos : Nat} (trait : bounds.any namesTrait = true)
    (inner : Refills (.bounds plus bounds trailing) ending tokens) :
    Refills (.type plus (.object true bounds trailing)) ending (.ident "dyn" pos :: tokens) := by
  intro count
  obtain ⟨bounds', done, holes, spelled, alike, sameKinds⟩ := inner count
  exact ⟨.object true bounds' trailing, ending, _, holes,
    .object ((any_namesTrait_eq sameKinds).trans trait) spelled, alike.name (by decide) pos 0, rfl,
    fun _ => rfl, rfl, nofun⟩

theorem refills_existential {plus trailing : Bool} {bounds : List Bound} {tokens : Tokens}
    {ending : Ending} {pos : Nat} (trait : bounds.any namesTrait = true)
    (inner : Refills (.bounds plus bounds trailing) ending tokens) :
    Refills (.type plus (.existential bounds trailing)) ending (.ident "impl" pos :: tokens) := by
  intro count
  obtain ⟨bounds', done, holes, spelled, alike, sameKinds⟩ := inner count
  exact ⟨.existential bounds' trailing, ending, _, holes,
    .existential ((any_namesTrait_eq sameKinds).trans trait) spelled, alike.name (by decide) pos 0,
    rfl, fun _ => rfl, rfl, nofun⟩

theorem refills_function {plus isUnsafe : Bool} {binder : Option Binder}
    {abi : Option (Option String)} {params : List Param} {trailing : Bool}
    {further : Option (Option String × Bool)} {output : Option TypeExpr}
    {before safety convention tokens more : Tokens} {ending ending' : Ending} {pos pos' : Nat}
    (bindings : Bindings binder before) (keyword : Keyword "unsafe" isUnsafe safety)
    (calling : Convention abi convention)
    (inner : Refills (.params true params trailing further) ending tokens)
    (result : Refills (.output output) ending' more) :
    Refills (.type plus (.function ⟨binder, isUnsafe, abi, params, trailing, further, output⟩))
      ending' (before ++ (safety ++ (convention ++
        .ident "fn" pos :: .group .paren tokens pos' :: more))) := by
  intro count
  obtain ⟨params', trailing', further', done, holes, spelled, alike⟩ := inner count
  obtain ⟨output', doneMore, others, spelledMore, alikeMore⟩ := result (count + holes.length)
  have group : Alike (fun _ => True) count _ _ _ _ holes := alike.group .paren pos' rfl
  have call := (group.append alikeMore fun _ _ => ⟨trivial, trivial⟩).name (by decide : "fn" ≠ "_")
    pos 0
  have front := (call.still calling.still calling.printed.still).still (keyword.still (by decide))
    ((Keyword.printed "unsafe" isUnsafe).still (by decide))
  refine ⟨.function ⟨binder, isUnsafe, abi, params', trailing', further', output'⟩, ending',
    before ++ (safety ++ (convention ++ .ident "fn" pos :: .group .paren done pos' :: doneMore)),
    holes ++ others, .function bindings keyword calling spelled spelledMore, ?_, rfl, fun _ => rfl,
    rfl, nofun⟩
  rw [TypeExpr.tokens, TypeExpr.tokens, Signature.tokens_eq, Signature.tokens_eq]
  exact front.still bindings.still bindings.printed.still

theorem refills_bareParam {first : Bool} {type : TypeExpr} {tokens : Tokens} {ending : Ending}
    (inner : Refills (.type true type) ending tokens) :
    Refills (.param first ⟨none, type⟩) .shut tokens := by
  intro count
  obtain ⟨type', _, done, holes, spelled, alike, _⟩ := inner count
  exact ⟨⟨none, type'⟩, done, holes, .bareParam spelled,
    alike.mono fun _ stops => .of_stopsAt stops⟩

theorem refills_namedParam {first : Bool} {name : String} {type : TypeExpr} {colon : TokenTree}
    {tokens : Tokens} {ending : Ending} {pos : Nat} (word : namesParam first name = true)
    (lone : Lone ':' ':' (colon :: tokens) tokens)
    (inner : Spelling (.type true type) ending tokens)
    (refillsInner : Refills (.type true type) ending tokens) :
    Refills (.param first ⟨some name, type⟩) .shut (.ident name pos :: colon :: tokens) := by
  intro count
  by_cases blank : name = "_"
  · subst blank
    have read := TypeExpr.ofTokens?_eq_some_iff.mpr ⟨ending, inner⟩
    obtain ⟨_, again, _⟩ := TypeExpr.ofTokens?_tokens read
    exact ⟨_, _, _, .bareParam (spelled_parameter true count),
      .bounded pos (TypeExpr.scan_ofTokens? read 0) (TypeExpr.scan_ofTokens? again 0) lone
        fun _ => .type read⟩
  · obtain ⟨type', _, done, holes, spelled, alike, _⟩ := refillsInner count
    have lone' := alike.source.lone rfl lone
    obtain ⟨spacing, start, rfl⟩ : ∃ spacing start, colon = .punct ':' spacing start := by
      cases lone <;> exact ⟨_, _, rfl⟩
    have named := (alike.punct (by decide : ':' ≠ '\'') spacing .alone start 0).name blank pos 0
    exact ⟨⟨some name, type'⟩, _, holes, .namedParam word lone' spelled,
      named.mono fun _ stops => .of_stopsAt stops⟩

theorem refills_lastParam {first : Bool} {param : Param} {tokens : Tokens} {ending : Ending}
    (only : Refills (.param first param) ending tokens) :
    Refills (.params first [param] false none) .shut tokens := by
  intro count
  obtain ⟨param', done, holes, spelled, alike⟩ := only count
  refine ⟨[param'], false, none, done, holes, .lastParam spelled, ?_⟩
  simp only [paramLists, separated_single, dotTokens, List.append_nil]
  refine alike.mono ?_
  rintro rest rfl
  exact .nil

theorem refills_moreParams {first trailing : Bool} {param : Param} {params : List Param}
    {further : Option (Option String × Bool)} {tokens more : Tokens} {ending ending' : Ending}
    {spacing : Spacing} {pos : Nat} (head : Refills (.param first param) ending tokens)
    (others : Refills (.params false params trailing further) ending' more) :
    Refills (.params first (param :: params) (trailing || params.isEmpty) further) .shut
      (tokens ++ .punct ',' spacing pos :: more) := by
  intro count
  obtain ⟨param', done, holes, spelled, alike⟩ := head count
  obtain ⟨params', trailing', further', doneMore, holesMore, spelledMore, alikeMore⟩ :=
    others (count + holes.length)
  refine ⟨param' :: params', trailing' || params'.isEmpty, further',
    done ++ .punct ',' spacing pos :: doneMore, holes ++ holesMore,
    .moreParams spelled spelledMore, ?_⟩
  rw [separated_params, separated_params, List.append_assoc, List.append_assoc]
  exact alike.append (alikeMore.punct (by decide) spacing .alone pos 0) fun rest _ =>
    ⟨.punct (by decide) spacing pos _, .punct (by decide) .alone 0 _⟩

section Dots

variable {fits : Tokens → Prop} {count : Nat} {comma : Bool} {closing : Tokens}

theorem alike_closing (closed : Marked ',' comma closing) :
    Alike fits count closing closing (if comma then [mark ','] else [])
      (if comma then [mark ','] else []) [] := by
  have whole := (Alike.nil : Alike fits count [] [] [] [] []).still (closed.still (by decide))
    ((Marked.printed ',' comma).still (by decide))
  rwa [List.append_nil, List.append_nil] at whole

theorem alike_dots (closed : Marked ',' comma closing) (spacing : Spacing) (pos pos' pos'' : Nat) :
    Alike fits count
      (.punct '.' .joint pos :: .punct '.' .joint pos' :: .punct '.' spacing pos'' :: closing)
      (.punct '.' .joint pos :: .punct '.' .joint pos' :: .punct '.' spacing pos'' :: closing)
      (ellipsis ++ if comma then [mark ','] else []) (ellipsis ++ if comma then [mark ','] else [])
      [] :=
  (((alike_closing closed).punct (by decide) spacing .alone pos'' 0).punct (by decide) .joint .joint
    pos' 0).punct (by decide) .joint .joint pos 0

end Dots

theorem refills_blankDots {first comma : Bool} {closing : Tokens} {spacing spacing' : Spacing}
    {start colon pos pos' pos'' : Nat} (closed : Marked ',' comma closing) :
    Refills (.params first [] false (some (some "_", comma))) .shut
      (.ident "_" start :: .punct ':' spacing' colon :: .punct '.' .joint pos ::
        .punct '.' .joint pos' :: .punct '.' spacing pos'' :: closing) := by
  intro count
  have lone : Lone ':' ':' (.punct ':' spacing' colon :: [.punct '.' .joint pos,
      .punct '.' .joint pos', .punct '.' spacing pos'']) [.punct '.' .joint pos,
      .punct '.' .joint pos', .punct '.' spacing pos''] := by
    cases spacing' with
    | alone => exact .alone
    | joint => exact .joint nofun
  have hole : Alike (StopsAt [',', '>']) count _ _ _ _ _ :=
    Alike.bounded start rfl rfl lone fun _ => .dots
  cases closed with
  | absent =>
      refine ⟨[⟨none, _⟩], false, none, _, _,
        .lastParam (.bareParam (spelled_parameter true count)), hole.mono ?_⟩
      rintro rest rfl
      exact .nil
  | @present spacing pos =>
      have comma : Alike (· = []) (count + 1) [.punct ',' spacing pos] [.punct ',' spacing pos]
          [mark ','] [mark ','] [] := Alike.nil.punct (by decide) spacing .alone pos 0
      exact ⟨[⟨none, _⟩], true, none, _, _,
        .moreParams (.bareParam (spelled_parameter true count)) .noParams,
        hole.append comma fun rest _ =>
          ⟨.punct (by decide) spacing pos rest, .punct (by decide) .alone 0 rest⟩⟩

theorem refills_furtherParams {first : Bool} {further : Option String × Bool} {tokens : Tokens}
    (dots : Variadic further tokens) :
    Refills (.params first [] false (some further)) .shut tokens := by
  intro count
  have spelled := @Spelling.furtherParams first _ _ dots
  cases dots with
  | @unnamed comma closing spacing pos pos' pos'' closed =>
      refine ⟨[], false, _, _, [], spelled, ?_⟩
      simp only [paramLists, separated, dotTokens, named, List.nil_append]
      exact alike_dots closed spacing pos pos' pos''
  | @named name comma closing spacing spacing' start colon pos pos' pos'' word closed =>
      by_cases blank : name = "_"
      · subst blank
        exact refills_blankDots closed count
      · refine ⟨[], false, _, _, [], spelled, ?_⟩
        simp only [paramLists, separated, dotTokens, TypeConcepts.named, List.nil_append,
          List.cons_append]
        exact ((alike_dots closed spacing pos pos' pos'').punct (by decide) spacing' .alone colon
          0).name blank start 0

/-! ### Every phrase -/

/-- Filling a text and filling what is printed for it lead to the same, whatever the text spells. -/
theorem refills {phrase : Phrase} {ending : Ending} {text : Tokens}
    (spelled : Spelling phrase ending text) : Refills phrase ending text := by
  induction spelled with
  | @bareSegment name pos word =>
      exact fun _ => ⟨⟨name, .none⟩, pos, [], [], [], rfl, .bareSegment word,
        ⟨rfl, ne_blank_of_isSegmentWord word, .nil, fun _ => ⟨rfl, rfl⟩⟩, .nil⟩
  | openSegment word turbofish inner ih => exact refills_openSegment word turbofish ih
  | lastStep only ih => exact refills_lastStep ih
  | moreSteps first others ihFirst ihOthers => exact refills_moreSteps ihFirst ihOthers
  | path root steps ih => exact refills_path root ih
  | lifetimeArg => exact refills_lifetimeArg
  | typeArg inner ih => exact refills_typeArg ih
  | constArg read => exact refills_constArg read
  | typeBinding word head inner ihHead ihInner => exact refills_typeBinding word ihHead ihInner
  | constBinding word head read ihHead => exact refills_constBinding word ihHead read
  | constraint word head lone inner ihHead ihInner =>
      exact refills_constraint word ihHead lone ihInner
  | @closeArgs spacing pos =>
      exact fun _ =>
        ⟨[], _, [], .closeArgs, .nil, Fills.nil.mark '>' (by decide) spacing pos, nofun, rfl⟩
  | lastArg only ih => exact refills_lastArg ih
  | moreArgs first others ihFirst ihOthers => exact refills_moreArgs ihFirst ihOthers
  | noOutput => exact fun _ => ⟨none, [], [], .noOutput, .nil⟩
  | someOutput inner ih => exact refills_someOutput ih
  | call first second ihFirst ihSecond => exact refills_call ihFirst ihSecond
  | noTypes => exact fun _ => ⟨[], [], [], .noTypes, .nil, rfl⟩
  | lastType only ih => exact refills_lastType ih
  | moreTypes first others ihFirst ihOthers => exact refills_moreTypes ihFirst ihOthers
  | plainTrait inner ih => exact refills_plainTrait ih
  | calledTrait inner yields turbofish called ihInner ihCalled =>
      exact refills_calledTrait ihInner yields turbofish ihCalled
  | traitBound mark bindings inner ih => exact refills_traitBound mark bindings ih
  | @lifetimeBound name pos pos' =>
      exact fun _ => ⟨_, _, [], .lifetimeBound, Alike.nil.lifetime name pos pos', rfl⟩
  | wrappedBound wrapped inner ih => exact refills_wrappedBound wrapped ih
  | plainBound plain inner ih => exact refills_plainBound plain ih
  | noMore => exact fun _ => ⟨[], [], [], .noMore, .nil, rfl⟩
  | trailingPlus ended => exact refills_trailingPlus ended
  | moreBounds ended first others ihFirst ihOthers =>
      exact refills_moreBounds ended ihFirst others ihOthers
  | oneBound only ih => exact refills_oneBound ih
  | sum first others ihFirst ihOthers => exact refills_sum ihFirst others ihOthers
  | noLimits => exact fun _ => ⟨[], [], [], .noLimits, .nil⟩
  | limits inner ih =>
      intro count
      obtain ⟨bounds', done, holes, spelled, alike, _⟩ := ih count
      exact ⟨bounds', done, holes, .limits spelled, alike⟩
  | pathType starts inner ih => exact refills_pathType starts ih
  | boundType bindings starts inner ih => exact refills_boundType bindings starts ih
  | sumType bindings starts named inner some others ihInner ihOthers =>
      exact refills_sumType bindings starts named ihInner some others ihOthers
  | invocation bindings starts named plain inner ih =>
      exact refills_invocation bindings starts named plain ih
  | noView => exact fun _ => ⟨none, [], [], fun _ _ => ⟨_, .noView⟩, .nil⟩
  | someView ended inner ih => exact refills_someView ended ih
  | qualified first second third ihFirst ihSecond ihThird =>
      exact refills_qualified ihFirst second ihSecond ihThird
  | reference lifetime kind unticked inner ih =>
      exact refills_reference lifetime kind unticked inner ih
  | pointer inner ih => exact refills_pointer ih
  | @never plus spacing pos =>
      exact fun _ => ⟨.never, .shut, _, [], .never,
        Alike.nil.punct (by decide) spacing .alone pos 0, rfl, fun _ => rfl, rfl, nofun⟩
  | tickedType ticked trait inner ih => exact refills_tickedType ticked trait inner ih
  | parens unticked inner ih => exact refills_parens unticked inner ih
  | tickedParens ticked trait inner ih => exact refills_tickedParens ticked trait inner ih
  | parenSum unticked inner names some others ihInner ihOthers =>
      exact refills_parenSum unticked inner ihInner names some others ihOthers
  | relaxedSum wrapped relaxed inner others ihInner ihOthers =>
      exact refills_relaxedSum wrapped relaxed ihInner ihOthers
  | @unit plus pos =>
      exact fun _ => ⟨.tuple [] false, .shut, _, [], .unit, Alike.nil.group .paren pos rfl, rfl,
        fun _ => rfl, rfl, nofun⟩
  | tuple unticked first others ihFirst ihOthers =>
      exact refills_tuple unticked first ihFirst ihOthers
  | slice inner ih => exact refills_slice ih
  | array inner read ih => exact refills_array ih read
  | infer => exact refills_infer
  | object trait inner ih => exact refills_object trait ih
  | existential trait inner ih => exact refills_existential trait ih
  | function bindings keyword calling inner result ihInner ihResult =>
      exact refills_function bindings keyword calling ihInner ihResult
  | bareParam inner ih => exact refills_bareParam ih
  | namedParam word lone inner ih => exact refills_namedParam word lone inner ih
  | noParams => exact fun _ => ⟨[], false, none, [], [], .noParams, .nil⟩
  | furtherParams dots => exact refills_furtherParams dots
  | lastParam only ih => exact refills_lastParam ih
  | moreParams head others ihHead ihOthers => exact refills_moreParams ihHead ihOthers

end Shape

end TypeConcepts
