import TypeConcepts.Proofs.Shape.Alike

/-!
The holes in a constant are filled as they are in what the constant is kept as.
-/

namespace TypeConcepts

open TokenTree TypeReader

namespace Shape

theorem isSome_eat?_fillFrom {operator : List Char} (noTick : '\'' ∉ operator) (count : Nat)
    (tokens : Tokens) :
    (eat? operator (fillFrom count 0 false tokens).1).isSome = (eat? operator tokens).isSome := by
  induction operator generalizing tokens with
  | nil => rfl
  | cons char others ih =>
      rw [List.mem_cons, not_or] at noTick
      cases tokens with
      | nil => rw [fillFrom]
      | cons tree rest =>
          cases tree with
          | punct found spacing pos =>
              rw [fillFrom_keep count rest rfl rfl]
              by_cases same : found = char
              · subst same
                have plain : isTick (.punct found spacing pos) = false := by
                  unfold isTick
                  split
                  · rename_i tick
                    cases tick
                    exact absurd rfl noTick.1
                  · rfl
                rw [plain]
                cases others with
                | nil => simp only [eat?, if_true, Option.isSome_some]
                | cons second later =>
                    cases spacing with
                    | alone => rfl
                    | joint =>
                        simp only [eat?, if_true]
                        exact ih noTick.2 rest
              · cases others with
                | nil => simp only [eat?, same, if_false]
                | cons second later => cases spacing <;> simp only [eat?, same, if_false]
          | ident name pos =>
              have head : ∃ word pos' rest',
                  (fillFrom count 0 false (.ident name pos :: rest)).1 =
                    .ident word pos' :: rest' := by
                rw [fillFrom]
                split <;> exact ⟨_, _, _, rfl⟩
              obtain ⟨word, pos', rest', head⟩ := head
              rw [head]
              cases others <;> rfl
          | literal text pos => cases others <;> rfl
          | group delimiter inner pos => cases others <;> rfl

theorem firstOperator?_congr {operators : List (List Char)} {tokens tokens' rest : Tokens}
    {sign : List Char}
    (same : ∀ operator ∈ operators,
      (eat? operator tokens').isSome = (eat? operator tokens).isSome)
    (found : firstOperator? tokens operators = some (sign, rest)) :
    ∃ rest', firstOperator? tokens' operators = some (sign, rest') := by
  induction operators with
  | nil => cases found
  | cons first others ih =>
      obtain ⟨head, tail⟩ := List.forall_mem_cons.mp same
      unfold firstOperator? at found ⊢
      cases eaten : eat? first tokens with
      | some after =>
          rw [eaten] at found head
          cases found
          obtain ⟨after', eaten'⟩ := Option.isSome_iff_exists.mp head
          exact ⟨after', by rw [eaten']⟩
      | none =>
          rw [eaten] at found head
          rw [Option.isSome_none, Option.isSome_eq_false_iff, Option.isNone_iff_eq_none] at head
          rw [head]
          exact ih tail found

/-! ### Constants -/

theorem Alike.sign {fits : Tokens → Prop} {count : Nat} {rest others done text' done' : Tokens}
    {sign : List Char} {holes : List (Hole × Hole)}
    (found : firstOperator? rest infixOperators = some (sign, others))
    (later : Alike fits count others done text' done' holes) (fit : fits []) :
    ∃ doneRest, Alike fits count rest doneRest (operator sign ++ text') (operator sign ++ done')
        holes ∧
      firstOperator? doneRest infixOperators = some (sign, done) := by
  obtain ⟨member, eaten⟩ := mem_of_firstOperator? found
  have whole : ∃ doneRest, Alike fits count rest doneRest (operator sign ++ text')
      (operator sign ++ done') holes ∧ eat? sign doneRest = some done := by
    have short : ∀ sign ∈ infixOperators, sign.length = 1 ∨ sign.length = 2 := by decide
    have noTick : ∀ sign ∈ infixOperators, '\'' ∉ sign := by decide
    have plain := noTick sign member
    rcases short sign member with one | two
    · obtain ⟨char, rfl⟩ := List.length_eq_one_iff.mp one
      obtain ⟨spacing, pos, rfl⟩ := eat?_single_iff.mp eaten
      have notTick : char ≠ '\'' := by
        rintro rfl
        exact plain (List.mem_singleton_self _)
      exact ⟨_, later.punct notTick spacing .alone pos 0, eat?_single_iff.mpr ⟨_, _, rfl⟩⟩
    · obtain ⟨first, second, rfl⟩ := List.length_eq_two.mp two
      obtain ⟨pos, spacing, pos', rfl⟩ := eat?_pair_iff.mp eaten
      rw [List.mem_cons, List.mem_singleton, not_or] at plain
      have marks := (later.punct (Ne.symm plain.2) spacing .alone pos' 0).punct
        (Ne.symm plain.1) .joint .joint pos 0
      exact ⟨_, marks, eat?_pair_iff.mpr ⟨_, _, _, rfl⟩⟩
  obtain ⟨doneRest, alike, eaten'⟩ := whole
  have filled := alike.source.alone fit
  have noTick : ∀ sign ∈ infixOperators, '\'' ∉ sign := by decide
  obtain ⟨rest', signed⟩ := firstOperator?_congr (fun operator known =>
    isSome_eat?_fillFrom (noTick operator known) count rest) found
  rw [filled] at signed
  obtain ⟨_, again⟩ := mem_of_firstOperator? signed
  rw [eaten'] at again
  cases again
  exact ⟨doneRest, alike, signed⟩

theorem unbounded_of_firstOperator? {tokens rest : Tokens} {sign : List Char}
    (found : firstOperator? tokens infixOperators = some (sign, rest)) (more : Tokens) :
    Unbounded (tokens ++ more) := by
  rcases stopsAt_of_firstOperator? found with rfl | ⟨char, spacing, pos, others, member, rfl⟩
  · cases found
  · have other : char ≠ ':' := by
      rintro rfl
      revert member
      decide
    exact .punct other spacing pos (others ++ more)

end Shape

open Shape

/-- A constant is filled to a constant, and what it is kept as to what that is kept as. -/
theorem ConstSpelling.refilled {kind : ConstKind} {source value : Tokens}
    (spelled : ConstSpelling kind source value) : ∀ count, ∃ source' value' holes,
      ConstSpelling kind source' value' ∧
        Alike Unbounded count source source' value value' holes := by
  induction spelled with
  | @literal text pos =>
      exact fun count => ⟨_, _, _, .literal, Alike.nil.literal text pos 0⟩
  | @group delimiter inner value pos noBracket inside ih =>
      intro count
      obtain ⟨source', value', holes, spelled, alike⟩ := ih count
      exact ⟨_, _, _, .group noBracket spelled, alike.group delimiter pos rfl⟩
  | @word name pos special =>
      intro count
      rcases special with rfl | truth
      · exact ⟨_, _, _, .path (isPathWord_of_opens (.inr (isName_parameter count))) .noSteps,
          .blank pos⟩
      · have notBlank : name ≠ "_" := by
          rcases truth with rfl | rfl <;> decide
        exact ⟨_, _, _, .word (.inr truth), Alike.nil.name notBlank pos 0⟩
  | @path name pos source value word others ih =>
      intro count
      obtain ⟨source', value', holes, spelled, alike⟩ := ih count
      exact ⟨_, _, _, .path word spelled, alike.name (ne_of_isPathWord word rfl) pos 0⟩
  | @sign char spacing pos source value member inner ih =>
      intro count
      obtain ⟨source', value', holes, spelled, alike⟩ := ih count
      have notTick : char ≠ '\'' := by
        rcases member with rfl | rfl | rfl | rfl <;> decide
      exact ⟨_, _, _, .sign member spelled, alike.punct notTick spacing .alone pos 0⟩
  | noSteps => exact fun count => ⟨_, _, _, .noSteps, .nil⟩
  | @step name spacing pos pos' pos'' source value word others ih =>
      intro count
      obtain ⟨source', value', holes, spelled, alike⟩ := ih count
      have named := alike.name (ne_of_isPathWord word rfl) pos'' 0
      have colon := named.punct (by decide : ':' ≠ '\'') spacing .alone pos' 0
      exact ⟨_, _, _, .step word spelled, colon.punct (by decide) .joint .joint pos 0⟩
  | only operand ih =>
      intro count
      obtain ⟨source', value', holes, spelled, alike⟩ := ih count
      exact ⟨_, _, _, .only spelled, alike⟩
  | @more source value rest others value' sign first signed later ihFirst ihLater =>
      intro count
      obtain ⟨doneFirst, valueFirst, holes, spelled, alike⟩ := ihFirst count
      obtain ⟨doneLater, valueLater, others, spelledLater, alikeLater⟩ :=
        ihLater (count + holes.length)
      obtain ⟨doneRest, alikeRest, signed'⟩ := alikeLater.sign signed rfl
      have printed := firstOperator?_operator (mem_of_firstOperator? signed).1
      exact ⟨_, _, _, .more spelled signed' spelledLater, alike.append alikeRest fun rest _ =>
        ⟨unbounded_of_firstOperator? signed rest, unbounded_of_firstOperator? (printed _) rest⟩⟩
  | empty => exact fun count => ⟨_, _, _, .empty, .nil⟩
  | full whole ih =>
      intro count
      obtain ⟨source', value', holes, spelled, alike⟩ := ih count
      exact ⟨_, _, _, .full spelled, alike⟩
  | @literalArg text pos =>
      exact fun count => ⟨_, _, _, .literalArg, Alike.nil.literal text pos 0⟩
  | @truth name pos truth =>
      intro count
      have notBlank : name ≠ "_" := by
        rcases truth with rfl | rfl <;> decide
      exact ⟨_, _, _, .truth truth, Alike.nil.name notBlank pos 0⟩
  | @negative text spacing pos pos' digit =>
      intro count
      exact ⟨_, _, _, .negative digit,
        (Alike.nil.literal text pos' 0).punct (by decide) spacing .alone pos 0⟩
  | @block inner value pos inside ih =>
      intro count
      obtain ⟨source', value', holes, spelled, alike⟩ := ih count
      exact ⟨_, _, _, .block spelled, alike.group .brace pos rfl⟩

end TypeConcepts
