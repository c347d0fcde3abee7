import TypeConcepts.Proofs.Shape.Spelling
import TypeConcepts.Proofs.TypeExpr.Extent

/-!
Filling the holes of a spelled shape spells the shape with a numbered parameter in every hole, and
records the bounds of the holes in reading order.

The text of each part is followed under an assumption on what comes next, because a hole takes the
bounds behind it.
-/

namespace TypeConcepts

open TokenTree TypeReader

namespace Shape

theorem startsBounds_of_stopsAt {chars : List Char} {tokens : Tokens}
    (stops : StopsAt chars tokens) (other : ':' ∉ chars) : startsBounds tokens = false := by
  rcases stops with rfl | ⟨char, spacing, pos, rest, member, rfl⟩
  · rfl
  · have different : char ≠ ':' := fun same => other (same ▸ member)
    unfold startsBounds
    split
    · rfl
    · rename_i equal
      cases equal
      contradiction
    · rfl

theorem boundsLength_of_stopsAt {tokens : Tokens} (stops : StopsAt [',', '>'] tokens) :
    boundsLength 0 false tokens = 0 := by
  rcases stops with rfl | ⟨char, spacing, pos, rest, member, rfl⟩
  · rfl
  · simp only [List.mem_cons, List.not_mem_nil, or_false] at member
    rcases member with rfl | rfl <;> rfl

theorem fillFrom_drop (count skip : Nat) (tokens : Tokens) :
    fillFrom count skip false tokens = fillFrom count 0 false (tokens.drop skip) := by
  induction tokens generalizing skip with
  | nil => rw [List.drop_nil, fillFrom, fillFrom]
  | cons tree rest ih =>
      cases skip with
      | zero => rfl
      | succ skip =>
          rw [List.drop_succ_cons, ← ih skip, fillFrom]

theorem fillFrom_keep {tree : TokenTree} {ticked : Bool} (count : Nat) (rest : Tokens)
    (kept : (isBlank tree && !ticked) = false) (single : fillTree count tree = (tree, [])) :
    fillFrom count 0 ticked (tree :: rest) =
      (tree :: (fillFrom count 0 (isTick tree) rest).1,
        (fillFrom count 0 (isTick tree) rest).2) := by
  rw [fillFrom, kept, single]
  simp

theorem fillFrom_blank (count pos : Nat) (rest : Tokens) :
    fillFrom count 0 false (.ident "_" pos :: rest) =
      let stop := if startsBounds rest then boundsEnd rest 1 else 0
      let bounds := if startsBounds rest then some ((rest.take stop).drop 1) else none
      (word (parameter count) :: (fillFrom (count + 1) stop false rest).1,
        ⟨parameter count, bounds⟩ :: (fillFrom (count + 1) stop false rest).2) := by
  rw [fillFrom]
  rfl

theorem fillFrom_bounded {colon : TokenTree} {inside rest : Tokens} (count pos : Nat)
    (starts : startsBounds (colon :: (inside ++ rest)) = true) (plain : isJointDash colon = false)
    (scanned : scan 0 false inside = some (0, false)) :
    let more := boundsLength 0 false rest
    fillFrom count 0 false (.ident "_" pos :: colon :: (inside ++ rest)) =
      (word (parameter count) :: (fillFrom (count + 1) 0 false (rest.drop more)).1,
        ⟨parameter count, some (inside ++ rest.take more)⟩ ::
          (fillFrom (count + 1) 0 false (rest.drop more)).2) := by
  have stop : boundsEnd (colon :: (inside ++ rest)) 1 =
      inside.length + boundsLength 0 false rest + 1 := by
    rw [boundsEnd_cons, plain, boundsLength_append_of_scan scanned rest]
  rw [fillFrom_blank]
  simp only [starts, if_true, stop, fillFrom_drop, List.take_succ_cons, List.drop_succ_cons,
    List.drop_zero, List.take_length_add_append, List.drop_length_add_append]

mutual

theorem fillTree_blankless (count : Nat) : ∀ tree : TokenTree, "_" ∉ tree.names →
    fillTree count tree = (tree, [])
  | .ident _ _, _ | .literal _ _, _ | .punct _ _ _, _ => rfl
  | .group delimiter inner pos, blankless => by
      rw [fillTree, fillFrom_blankless count false inner blankless]

theorem fillFrom_blankless (count : Nat) : ∀ (ticked : Bool) (tokens : Tokens),
    "_" ∉ namesIn tokens → fillFrom count 0 ticked tokens = (tokens, [])
  | _, [], _ => rfl
  | ticked, tree :: rest, blankless => by
      rw [namesIn, List.mem_append, not_or] at blankless
      have kept : isBlank tree = false := by
        unfold isBlank
        split
        · exact absurd (List.mem_singleton_self "_") blankless.1
        · rfl
      rw [fillFrom_keep count rest (by rw [kept, Bool.false_and])
        (fillTree_blankless count tree blankless.1),
        fillFrom_blankless count (isTick tree) rest blankless.2]

end

theorem startsBounds_of_lone {colon : TokenTree} {inside rest : Tokens}
    (lone : Lone ':' ':' (colon :: inside) inside) (stops : StopsAt [',', '>'] rest) :
    startsBounds (colon :: (inside ++ rest)) = true := by
  cases lone with
  | alone => rfl
  | joint single =>
      cases inside with
      | nil =>
          rcases stops with rfl | ⟨char, spacing, pos, others, member, rfl⟩
          · rfl
          · simp only [List.mem_cons, List.not_mem_nil, or_false] at member
            rcases member with rfl | rfl <;> rfl
      | cons tree others =>
          unfold startsBounds
          split
          · rename_i equal
            cases equal
            exact absurd rfl (single _ _ _)
          · rfl
          · rename_i other
            exact absurd rfl (other _ _ _)

/-- In front of anything that fits, the piece is filled on its own. -/
def Fills (fits : Tokens → Prop) (count : Nat) (tokens done : Tokens) (holes : List Hole) : Prop :=
  ∀ rest, fits rest →
    fillFrom count 0 false (tokens ++ rest) =
      (done ++ (fillFrom (count + holes.length) 0 false rest).1,
        holes ++ (fillFrom (count + holes.length) 0 false rest).2)

namespace Fills

variable {fits fits' : Tokens → Prop} {count : Nat} {tokens done tokens' done' : Tokens}
  {holes holes' : List Hole}

theorem mono (fills : Fills fits count tokens done holes)
    (fitting : ∀ rest, fits' rest → fits rest) : Fills fits' count tokens done holes :=
  fun rest fit => fills rest (fitting rest fit)

theorem append (first : Fills fits count tokens done holes)
    (second : Fills fits' (count + holes.length) tokens' done' holes')
    (fitting : ∀ rest, fits' rest → fits (tokens' ++ rest)) :
    Fills fits' count (tokens ++ tokens') (done ++ done') (holes ++ holes') := by
  intro rest fit
  rw [List.append_assoc, first _ (fitting rest fit), second rest fit]
  simp only [List.append_assoc, List.length_append, Nat.add_assoc]

theorem nil : Fills fits count [] [] [] := by
  intro rest _
  rfl

theorem keep {tree : TokenTree} (notBlank : isBlank tree = false) (notTick : isTick tree = false)
    (single : fillTree count tree = (tree, [])) (later : Fills fits count tokens done holes) :
    Fills fits count (tree :: tokens) (tree :: done) holes := by
  intro rest fit
  rw [List.cons_append,
    fillFrom_keep count _ (by rw [notBlank, Bool.false_and]) single, notTick, later rest fit]
  rfl

theorem mark (char : Char) (notTick : char ≠ '\'') (spacing : Spacing) (pos : Nat)
    (later : Fills fits count tokens done holes) :
    Fills fits count (.punct char spacing pos :: tokens) (.punct char spacing pos :: done)
      holes := by
  refine keep rfl ?_ rfl later
  unfold isTick
  split
  · rename_i same
    cases same
    contradiction
  · rfl

theorem name {name : String} (notBlank : name ≠ "_") (pos : Nat)
    (later : Fills fits count tokens done holes) :
    Fills fits count (.ident name pos :: tokens) (.ident name pos :: done) holes := by
  refine keep ?_ rfl rfl later
  unfold isBlank
  split
  · rename_i same
    cases same
    contradiction
  · rfl

theorem lifetime (name : String) (pos pos' : Nat) (later : Fills fits count tokens done holes) :
    Fills fits count (.punct '\'' .joint pos :: .ident name pos' :: tokens)
      (.punct '\'' .joint pos :: .ident name pos' :: done) holes := by
  intro rest fit
  have afterTick : isTick (.punct '\'' .joint pos) = true := rfl
  have afterName : isTick (.ident name pos') = false := rfl
  rw [List.cons_append, List.cons_append, fillFrom_keep count _ rfl rfl, afterTick,
    fillFrom_keep count _ (by rw [Bool.not_true, Bool.and_false]) rfl, afterName, later rest fit]
  rfl

theorem group (delimiter : Delimiter) (pos : Nat) (inner : Fills fits count tokens done holes)
    (alone : fits []) :
    Fills fits' count [.group delimiter tokens pos] [.group delimiter done pos] holes := by
  intro rest _
  have whole := inner [] alone
  simp only [List.append_nil, fillFrom] at whole
  simp only [List.singleton_append, fillFrom, isBlank, isTick, fillTree, whole, Bool.false_and,
    Bool.false_eq_true, if_false]

theorem blankless (absent : "_" ∉ namesIn tokens) : Fills (· = []) count tokens tokens [] := by
  rintro rest rfl
  rw [List.append_nil, fillFrom_blankless count false tokens absent]
  simp [fillFrom]

theorem takeHoles_eq (fills : Fills fits 0 tokens done holes) (alone : fits []) :
    takeHoles tokens = (done, holes) := by
  have filled := fills [] alone
  simpa only [takeHoles, List.append_nil, fillFrom] using filled

theorem bare (pos : Nat) :
    Fills (StopsAt [',', '>', ';']) count [.ident "_" pos] [word (parameter count)]
      [⟨parameter count, none⟩] := by
  intro rest stops
  have unbounded := startsBounds_of_stopsAt stops (by decide)
  rw [List.singleton_append, fillFrom_blank]
  simp only [unbounded, Bool.false_eq_true, if_false]
  rfl

theorem bounded {inside : Tokens} {colon : TokenTree} (pos : Nat)
    (scanned : scan 0 false inside = some (0, false))
    (lone : Lone ':' ':' (colon :: inside) inside) :
    Fills (StopsAt [',', '>']) count (.ident "_" pos :: colon :: inside)
      [word (parameter count)] [⟨parameter count, some inside⟩] := by
  intro rest stops
  have starts := startsBounds_of_lone lone stops
  have plain : isJointDash colon = false := by
    cases lone <;> rfl
  have filled := fillFrom_bounded count pos starts plain scanned
  dsimp only at filled
  rw [boundsLength_of_stopsAt stops, List.take_zero, List.drop_zero, List.append_nil] at filled
  exact filled

theorem maybeLifetime {life : Tokens} (lifetime : MaybeLifetime life)
    (later : Fills fits count tokens done holes) :
    Fills fits count (life ++ tokens) (life ++ done) holes := by
  cases lifetime with
  | absent => exact later
  | present => exact later.lifetime _ _ _

theorem maybeColons {colons : Tokens} (turbofish : MaybeColons colons)
    (later : Fills fits count tokens done holes) :
    Fills fits count (colons ++ tokens) (colons ++ done) holes := by
  cases turbofish with
  | absent => exact later
  | present => exact (later.mark ':' (by decide) _ _).mark ':' (by decide) _ _

theorem maybeMut {mutable : Bool} {access : Tokens} (kind : MaybeMut mutable access)
    (later : Fills fits count tokens done holes) :
    Fills fits count (access ++ tokens) (access ++ done) holes := by
  cases kind with
  | shared => exact later
  | unique => exact later.name (by decide) _

end Fills

/-! ### Parts -/

def Tree.named {α : Type} (count : Nat) (tree : Tree α) : Tree String :=
  (tree.number count).map fun hole => parameter hole.2

def namedTrees {α : Type} (count : Nat) (trees : List (Tree α)) : List (Tree String) :=
  mapTrees (fun hole => parameter hole.2) (numberTrees count trees)

def namedSteps {α : Type} (count : Nat) (steps : List (Step α)) : List (Step String) :=
  mapSteps (fun hole => parameter hole.2) (numberSteps count steps)

def holesFrom (count : Nat) (bounds : List (Option Tokens)) : List Hole :=
  (bounds.zipIdx count).map fun hole => ⟨parameter hole.2, hole.1⟩

theorem length_holesFrom (count : Nat) (bounds : List (Option Tokens)) :
    (holesFrom count bounds).length = bounds.length := by
  rw [holesFrom, List.length_map, List.length_zipIdx]

theorem holesFrom_append (count : Nat) (first second : List (Option Tokens)) :
    holesFrom count (first ++ second) =
      holesFrom count first ++ holesFrom (count + first.length) second := by
  simp only [holesFrom, List.zipIdx_append, List.map_append]

namespace Part

def named {α : Type} (count : Nat) : Part α → Part String
  | .type tree => .type (tree.named count)
  | .element tree => .element (tree.named count)
  | .argument tree => .argument (tree.named count)
  | .arguments trees => .arguments (namedTrees count trees)
  | .step one => .step ⟨one.name, namedTrees count one.args⟩
  | .steps all => .steps (namedSteps count all)
  | .items trees => .items (namedTrees count trees)
  | .others trees => .others (namedTrees count trees)

def bounds {α : Type} : Part α → List α
  | .type tree | .element tree | .argument tree => tree.holes
  | .arguments trees | .items trees | .others trees => holesOfTrees trees
  | .step one => holesOfTrees one.args
  | .steps all => holesOfSteps all

/-- What may come next after a part. -/
def Fits {α : Type} : Part α → Tokens → Prop
  | .type _ => StopsAt [',', '>', ';']
  | .element _ | .argument _ => StopsAt [',', '>']
  | .arguments _ | .step _ | .steps _ => fun _ => True
  | .items _ | .others _ => (· = [])

end Part

theorem Spells.validBounds {part : Part (Option Tokens)} {tokens : Tokens}
    (spells : Spells .blanks part tokens) :
    ∀ hole ∈ part.bounds, ∀ inside, hole = some inside → ValidBounds inside := by
  induction spells with
  | hole leaf =>
      intro hole member inside same
      have isHole := List.mem_singleton.mp member
      rw [← isHole, same] at leaf
      cases leaf.1
  | bounded leaf =>
      intro hole member inside same
      have isHole := List.mem_singleton.mp member
      rw [← isHole, same] at leaf
      rcases leaf with ⟨found, pos, colon, sameBounds, valid, lone, spelled⟩
      cases sameBounds
      exact valid
  | path inner ih | rooted inner ih | parens inner ih | tuple inner ih | slice inner ih
  | array inner read blankless ih | reference lifetime kind inner ih | pointer inner ih
  | plain inner ih | argument inner ih | moreLifetimes rest ih =>
      exact ih
  | constant read blankless | closing | lastLifetime | bareStep word | noItems | noOthers =>
      intro hole member
      cases member
  | openStep word turbofish inner ih => exact ih
  | lastArgument inner ih | lastItem inner ih =>
      rw [Part.bounds, holesOfTrees, holesOfTrees, List.append_nil]
      exact ih
  | @lastStep step _ inner ih =>
      cases step
      rw [Part.bounds, holesOfSteps, holesOfSteps, List.append_nil]
      exact ih
  | moreArguments inner rest ihInner ihRest | firstItem inner rest ihInner ihRest
  | moreItems inner rest ihInner ihRest =>
      rw [Part.bounds, holesOfTrees, List.forall_mem_append]
      exact ⟨ihInner, ihRest⟩
  | @moreSteps step _ _ _ _ _ _ inner rest ihInner ihRest =>
      cases step
      rw [Part.bounds, holesOfSteps, List.forall_mem_append]
      exact ⟨ihInner, ihRest⟩

theorem Fills.join {fits fits' : Tokens → Prop} {count : Nat} {tokens done tokens' done' : Tokens}
    {bounds bounds' : List (Option Tokens)} (char : Char) (notTick : char ≠ '\'')
    (spacing : Spacing) (pos : Nat)
    (first : Fills fits count tokens done (holesFrom count bounds))
    (second : Fills fits' (count + bounds.length) tokens' done'
      (holesFrom (count + bounds.length) bounds'))
    (fitting : ∀ rest, fits (.punct char spacing pos :: rest)) :
    Fills fits' count (tokens ++ .punct char spacing pos :: tokens')
      (done ++ .punct char spacing pos :: done') (holesFrom count (bounds ++ bounds')) := by
  rw [holesFrom_append]
  rw [← length_holesFrom count bounds] at second ⊢
  exact first.append (second.mark char notTick spacing pos) fun _ _ => fitting _

theorem ValidBounds.scan_eq {bounds : Tokens} (valid : ValidBounds bounds) :
    scan 0 false bounds = some (0, false) := by
  rcases valid with rfl | valid
  · rfl
  · obtain ⟨found, read⟩ := Option.isSome_iff_exists.mp valid
    exact Bound.scan_listOfTokens? read 0

theorem fills_constant {fits : Tokens → Prop} {source value : Tokens}
    (read : constant? source = some (value, [])) (blankless : "_" ∉ namesIn source) (count : Nat) :
    Fills fits count source source [] := by
  rcases constant?_forms read with ⟨text, pos, rfl⟩ | ⟨name, pos, truth, rfl⟩ |
    ⟨spacing, pos, text, pos', rfl⟩ | ⟨inner, pos, rfl⟩
  · exact Fills.nil.keep rfl rfl rfl
  · refine Fills.nil.name ?_ pos
    rcases truth with rfl | rfl <;> decide
  · exact (Fills.nil.keep rfl rfl rfl).mark '-' (by decide) spacing pos
  · have absent : "_" ∉ namesIn inner := by
      simpa only [namesIn, names, List.append_nil] using blankless
    exact .group .brace pos (.blankless absent) rfl

/-- The filled text of a part spells the part with parameters for its holes. -/
theorem Spells.fills {part : Part (Option Tokens)} {tokens : Tokens}
    (spells : Spells .blanks part tokens) : ∀ count, ∃ done,
      Spells .parameters (part.named count) done ∧
        Fills part.Fits count tokens done (holesFrom count part.bounds) := by
  induction spells with
  | hole leaf =>
      intro count
      obtain ⟨rfl, pos, rfl⟩ := leaf
      exact ⟨_, .hole ⟨⟨count, rfl⟩, rfl⟩, .bare pos⟩
  | path inner ih =>
      intro count
      obtain ⟨done, spelled, fills⟩ := ih count
      exact ⟨done, .path spelled, fills.mono fun _ _ => trivial⟩
  | @rooted steps tokens spacing pos pos' inner ih =>
      intro count
      obtain ⟨done, spelled, fills⟩ := ih count
      have colon := fills.mark ':' (by decide) spacing pos'
      have text := colon.mark ':' (by decide) .joint pos
      exact ⟨_, .rooted spelled, text.mono fun _ _ => trivial⟩
  | @parens tree tokens pos inner ih =>
      intro count
      obtain ⟨done, spelled, fills⟩ := ih count
      exact ⟨_, .parens spelled, .group .paren pos fills .nil⟩
  | @tuple items tokens pos inner ih =>
      intro count
      obtain ⟨done, spelled, fills⟩ := ih count
      exact ⟨_, .tuple spelled, .group .paren pos fills rfl⟩
  | @slice item tokens pos inner ih =>
      intro count
      obtain ⟨done, spelled, fills⟩ := ih count
      exact ⟨_, .slice spelled, .group .bracket pos fills .nil⟩
  | @array item tokens source length spacing pos pos' inner read blankless ih =>
      intro count
      obtain ⟨done, spelled, fills⟩ := ih count
      have ending : Fills (· = []) (count + item.holes.length) source source
          (holesFrom (count + item.holes.length) []) := .blankless blankless
      have text := fills.join ';' (by decide) spacing pos' ending
        fun _ => .punct (by decide) spacing pos' _
      rw [List.append_nil] at text
      exact ⟨_, .array spelled read blankless, .group .bracket pos text rfl⟩
  | @reference mutable target life access tokens spacing pos lifetime kind inner ih =>
      intro count
      obtain ⟨done, spelled, fills⟩ := ih count
      have text := ((fills.maybeMut kind).maybeLifetime lifetime).mark '&' (by decide) spacing pos
      rw [← List.append_assoc, ← List.append_assoc] at text
      exact ⟨_, .reference lifetime kind spelled, text⟩
  | @pointer mutable target tokens spacing pos pos' inner ih =>
      intro count
      obtain ⟨done, spelled, fills⟩ := ih count
      have keyword : (if mutable then "mut" else "const") ≠ "_" := by
        cases mutable <;> decide
      have text := (fills.name keyword pos').mark '*' (by decide) spacing pos
      exact ⟨_, .pointer spelled, text⟩
  | plain inner ih =>
      intro count
      obtain ⟨done, spelled, fills⟩ := ih count
      exact ⟨done, .plain spelled, fills.mono fun _ stops => stops.mono (by decide)⟩
  | bounded leaf =>
      intro count
      obtain ⟨inside, pos, colon, rfl, valid, lone, rfl⟩ := leaf
      exact ⟨_, .plain (.hole ⟨⟨count, rfl⟩, rfl⟩), .bounded pos valid.scan_eq lone⟩
  | argument inner ih =>
      intro count
      obtain ⟨done, spelled, fills⟩ := ih count
      exact ⟨done, .argument spelled, fills⟩
  | constant read blankless =>
      intro count
      exact ⟨_, .constant read blankless, fills_constant read blankless count⟩
  | @closing spacing pos =>
      intro count
      exact ⟨_, .closing, Fills.nil.mark '>' (by decide) spacing pos⟩
  | @lastArgument tree tokens spacing pos inner ih =>
      intro count
      obtain ⟨done, spelled, fills⟩ := ih count
      exact ⟨_, .lastArgument spelled, fills.join '>' (by decide) spacing pos .nil
        fun _ => .punct (by decide) spacing pos _⟩
  | @moreArguments tree args tokens more spacing pos inner rest ihInner ihRest =>
      intro count
      obtain ⟨done, spelled, fills⟩ := ihInner count
      obtain ⟨doneRest, spelledRest, fillsRest⟩ := ihRest (count + tree.holes.length)
      exact ⟨_, .moreArguments spelled spelledRest, fills.join ',' (by decide) spacing pos fillsRest
        fun _ => .punct (by decide) spacing pos _⟩
  | @lastLifetime name spacing pos pos' pos'' =>
      intro count
      exact ⟨_, .lastLifetime,
        (Fills.nil.mark '>' (by decide) spacing pos'').lifetime name pos pos'⟩
  | @moreLifetimes name args more spacing pos pos' pos'' rest ih =>
      intro count
      obtain ⟨done, spelled, fills⟩ := ih count
      exact ⟨_, .moreLifetimes spelled,
        (fills.mark ',' (by decide) spacing pos'').lifetime name pos pos'⟩
  | @bareStep name pos word =>
      intro count
      have notBlank : name ≠ "_" := ne_of_isPathWord word rfl
      exact ⟨_, .bareStep word, Fills.nil.name notBlank pos⟩
  | @openStep name args colons tokens spacing pos pos' word turbofish inner ih =>
      intro count
      obtain ⟨done, spelled, fills⟩ := ih count
      have notBlank : name ≠ "_" := ne_of_isPathWord (isPathWord_of_opens word) rfl
      have opened := (fills.mark '<' (by decide) spacing pos').maybeColons turbofish
      exact ⟨_, .openStep word turbofish spelled, opened.name notBlank pos⟩
  | @lastStep step tokens inner ih =>
      intro count
      obtain ⟨done, spelled, fills⟩ := ih count
      cases step with
      | mk name args =>
          have only : (Part.steps [Step.mk name args]).bounds = holesOfTrees args :=
            List.append_nil _
          rw [only]
          exact ⟨_, .lastStep spelled, fills⟩
  | @moreSteps step steps tokens more spacing pos pos' inner rest ihInner ihRest =>
      intro count
      obtain ⟨done, spelled, fills⟩ := ihInner count
      obtain ⟨doneRest, spelledRest, fillsRest⟩ := ihRest (count + (holesOfTrees step.args).length)
      have later := fillsRest.mark ':' (by decide) spacing pos'
      cases step with
      | mk name args =>
          exact ⟨_, .moreSteps spelled spelledRest, fills.join ':' (by decide) .joint pos later
            fun _ => trivial⟩
  | noItems =>
      intro count
      exact ⟨_, .noItems, .nil⟩
  | @firstItem tree items tokens more spacing pos inner rest ihInner ihRest =>
      intro count
      obtain ⟨done, spelled, fills⟩ := ihInner count
      obtain ⟨doneRest, spelledRest, fillsRest⟩ := ihRest (count + tree.holes.length)
      exact ⟨_, .firstItem spelled spelledRest, fills.join ',' (by decide) spacing pos fillsRest
        fun _ => .punct (by decide) spacing pos _⟩
  | noOthers =>
      intro count
      exact ⟨_, .noOthers, .nil⟩
  | @lastItem tree tokens inner ih =>
      intro count
      obtain ⟨done, spelled, fills⟩ := ih count
      have only : (Part.others [tree]).bounds = tree.holes := List.append_nil _
      rw [only]
      refine ⟨_, .lastItem spelled, fills.mono ?_⟩
      rintro rest rfl
      exact .nil
  | @moreItems tree items tokens more spacing pos inner rest ihInner ihRest =>
      intro count
      obtain ⟨done, spelled, fills⟩ := ihInner count
      obtain ⟨doneRest, spelledRest, fillsRest⟩ := ihRest (count + tree.holes.length)
      exact ⟨_, .moreItems spelled spelledRest, fills.join ',' (by decide) spacing pos fillsRest
        fun _ => .punct (by decide) spacing pos _⟩

/-- Filling a path spells a path, with one parameter for each hole. -/
theorem SpellsPath.takeHoles_eq {tree : Tree (Option Tokens)} {tokens : Tokens}
    (spells : SpellsPath .blanks tree tokens) : ∃ done,
      takeHoles tokens = (done, holesFrom 0 tree.holes) ∧
        SpellsPath .parameters (tree.named 0) done := by
  cases spells with
  | hole leaf =>
      obtain ⟨rfl, pos, rfl⟩ := leaf
      exact ⟨_, rfl, .hole ⟨⟨0, rfl⟩, rfl⟩⟩
  | plain inner =>
      obtain ⟨done, spelled, fills⟩ := inner.fills 0
      exact ⟨done, fills.takeHoles_eq trivial, .plain spelled⟩
  | @rooted steps tokens spacing pos pos' inner =>
      obtain ⟨done, spelled, fills⟩ := inner.fills 0
      have text := (fills.mark ':' (by decide) spacing pos').mark ':' (by decide) .joint pos
      exact ⟨_, text.takeHoles_eq trivial, .rooted spelled⟩

/-! ### Bounds -/

/-- Every identifier in the bounds of these holes is among the names. -/
def Within (names : List String) (holes : List Hole) : Prop :=
  ∀ hole ∈ holes, ∀ bounds, hole.bounds = some bounds → namesIn bounds ⊆ names

theorem Within.mono {names names' : List String} {holes : List Hole} (within : Within names holes)
    (subset : names ⊆ names') : Within names' holes :=
  fun hole member bounds found => List.Subset.trans (within hole member bounds found) subset

theorem Within.append {names : List String} {holes holes' : List Hole}
    (first : Within names holes) (second : Within names holes') :
    Within names (holes ++ holes') := by
  intro hole member
  rcases List.mem_append.mp member with earlier | later
  · exact first hole earlier
  · exact second hole later

mutual

theorem within_fillTree (count : Nat) : ∀ tree : TokenTree,
    Within tree.names (fillTree count tree).2
  | .ident _ _ | .literal _ _ | .punct _ _ _ => fun _ member => nomatch member
  | .group _ inner _ => within_fillFrom count 0 false inner

theorem within_fillFrom : ∀ (count skip : Nat) (ticked : Bool) (tokens : Tokens),
    Within (namesIn tokens) (fillFrom count skip ticked tokens).2
  | _, _, _, [] => fun _ member => nomatch member
  | count, skip + 1, _, tree :: rest =>
      (within_fillFrom count skip false rest).mono (List.subset_append_right _ _)
  | count, 0, ticked, tree :: rest => by
      have later : ∀ count skip ticked, Within (namesIn (tree :: rest))
          (fillFrom count skip ticked rest).2 := fun count skip ticked =>
        (within_fillFrom count skip ticked rest).mono (List.subset_append_right _ _)
      have first : Within (namesIn (tree :: rest)) (fillTree count tree).2 :=
        (within_fillTree count tree).mono (List.subset_append_left _ _)
      rw [fillFrom]
      split
      · dsimp only
        intro hole member bounds found
        rcases List.mem_cons.mp member with rfl | others
        · dsimp only at found
          split at found
          · cases found
            have slice := List.Subset.trans (List.drop_subset 1 _)
              (List.take_subset (boundsEnd rest 1) rest)
            exact List.subset_append_of_subset_right _ (namesIn_mono slice)
          · cases found
        · exact later _ _ _ hole others bounds found
      · exact first.append (later _ _ _)

end

end Shape

end TypeConcepts
