import TypeConcepts.Proofs.TypeExpr.Boundary

/-!
Whatever the readers take spells what they answer with, and they leave nothing that belongs to it.

The readers are followed one by one under the assumption that the readers for the parts take texts
of the grammar, which the rounds then discharge.
-/

namespace TypeConcepts

open TokenTree

/-- The tokens are a text of the phrase and then `rest`, which does not belong to it. -/
def Takes (phrase : Phrase) (tokens rest : Tokens) : Prop :=
  ∃ ending text, tokens = text ++ rest ∧ Spelling phrase ending text ∧ ending.Fits rest

/-- The reader takes texts of the phrases. -/
def Recognizes {α : Type} (read : Reader α) (phrase : α → Phrase) : Prop :=
  ∀ tokens value rest, read tokens = some (value, rest) → Takes (phrase value) tokens rest

namespace TypeReader

theorem marked_of_flag {char : Char} {tokens rest : Tokens} {present : Bool}
    (found : flag (eat? [char]) tokens = (present, rest)) :
    ∃ mark, tokens = mark ++ rest ∧ Marked char present mark := by
  unfold flag at found
  cases taken : eat? [char] tokens with
  | none =>
      rw [taken] at found
      cases found
      exact ⟨[], rfl, .absent⟩
  | some after =>
      rw [taken] at found
      cases found
      obtain ⟨spacing, pos, rfl⟩ := eat?_single_iff.mp taken
      exact ⟨_, rfl, .present⟩

theorem colons_of_flag {tokens rest : Tokens} {present : Bool}
    (found : flag (eat? [':', ':']) tokens = (present, rest)) :
    ∃ colons, tokens = colons ++ rest ∧ Colons present colons := by
  unfold flag at found
  cases taken : eat? [':', ':'] tokens with
  | none =>
      rw [taken] at found
      cases found
      exact ⟨[], rfl, .absent⟩
  | some after =>
      rw [taken] at found
      cases found
      obtain ⟨pos, spacing, pos', rfl⟩ := eat?_pair_iff.mp taken
      exact ⟨_, rfl, .present⟩

theorem keyword_of_flag {name : String} {tokens rest : Tokens} {present : Bool}
    (found : flag (word? name) tokens = (present, rest)) :
    ∃ words, tokens = words ++ rest ∧ Keyword name present words := by
  unfold flag at found
  cases taken : word? name tokens with
  | none =>
      rw [taken] at found
      cases found
      exact ⟨[], rfl, .absent⟩
  | some after =>
      rw [taken] at found
      cases found
      obtain ⟨pos, rfl⟩ := word?_eq_some_iff.mp taken
      exact ⟨_, rfl, .present⟩

theorem named_of_optional {tokens rest : Tokens} {name : Option String}
    (found : optional lifetime? tokens = (name, rest)) :
    ∃ life, tokens = life ++ rest ∧ Named name life ∧ (name = none → lifetime? rest = none) := by
  unfold optional at found
  cases taken : lifetime? tokens with
  | none =>
      rw [taken] at found
      cases found
      exact ⟨[], rfl, .absent, fun _ => taken⟩
  | some result =>
      obtain ⟨name, after⟩ := result
      rw [taken] at found
      cases found
      obtain ⟨pos, pos', rfl⟩ := lifetime?_eq_some_iff.mp taken
      exact ⟨_, rfl, .present, nofun⟩

theorem listed_of_lifetimes {limit : Nat} {tokens rest : Tokens} {names : List String}
    {trailing : Bool} (found : lifetimes limit tokens = some ((names, trailing), rest)) :
    ∃ text, tokens = text ++ rest ∧ Listed names trailing text := by
  induction limit generalizing tokens names trailing with
  | zero => cases found
  | succ limit ih =>
      unfold lifetimes at found
      cases closed : eat? ['>'] tokens with
      | some after =>
          rw [closed] at found
          cases found
          obtain ⟨spacing, pos, rfl⟩ := eat?_single_iff.mp closed
          exact ⟨_, rfl, .close⟩
      | none =>
          rw [closed] at found
          simp only [Option.bind_eq_bind, Option.bind_eq_some_iff, Prod.exists] at found
          obtain ⟨name, afterName, named, found⟩ := found
          obtain ⟨pos, pos', rfl⟩ := lifetime?_eq_some_iff.mp named
          cases closed : eat? ['>'] afterName with
          | some after =>
              rw [closed] at found
              cases found
              obtain ⟨spacing, pos'', rfl⟩ := eat?_single_iff.mp closed
              exact ⟨_, rfl, .last⟩
          | none =>
              rw [closed] at found
              simp only [Option.bind_eq_some_iff, Prod.exists] at found
              obtain ⟨next, comma, others, trailing', after, more, finished⟩ := found
              cases finished
              obtain ⟨spacing, pos'', rfl⟩ := eat?_single_iff.mp comma
              obtain ⟨text, rfl, listed⟩ := ih more
              exact ⟨_, rfl, .more listed⟩

theorem bindings_of_binder {tokens rest : Tokens} {found : Binder}
    (read : binder tokens = some (found, rest)) :
    ∃ text, tokens = text ++ rest ∧ Bindings (some found) text := by
  simp only [binder, Option.bind_eq_bind, Option.bind_eq_some_iff, Prod.exists] at read
  obtain ⟨next, keyword, inside, opened, names, trailing, after, listed, finished⟩ := read
  cases finished
  obtain ⟨pos, rfl⟩ := word?_eq_some_iff.mp keyword
  obtain ⟨spacing, pos', rfl⟩ := eat?_single_iff.mp opened
  obtain ⟨text, rfl, spelled⟩ := listed_of_lifetimes listed
  exact ⟨_, rfl, .present spelled⟩

theorem convention_of_abi {tokens rest : Tokens} {convention : Option (Option String)}
    (found : abi tokens = (convention, rest)) :
    ∃ text, tokens = text ++ rest ∧ Convention convention text := by
  unfold abi at found
  cases keyword : word? "extern" tokens with
  | none =>
      rw [keyword] at found
      cases found
      exact ⟨[], rfl, .absent⟩
  | some next =>
      rw [keyword] at found
      obtain ⟨pos, rfl⟩ := word?_eq_some_iff.mp keyword
      split at found
      · contradiction
      · rename_i named
        cases named
        split at found
        · rename_i text
          cases found
          exact ⟨_, rfl, .named text⟩
        · cases found
          exact ⟨_, rfl, .unnamed⟩
      · rename_i named
        cases named
        cases found
        exact ⟨_, rfl, .unnamed⟩

theorem paramName_eq_some {first : Bool} {tokens rest : Tokens} {name : String}
    (found : paramName first tokens = some (name, rest)) :
    ∃ pos next, tokens = .ident name pos :: next ∧ namesParam first name = true ∧
      Lone ':' ':' next rest := by
  unfold paramName at found
  split at found
  · split at found
    · rename_i word
      simp only [Option.bind_eq_bind, Option.bind_eq_some_iff] at found
      obtain ⟨after, colon, finished⟩ := found
      cases finished
      exact ⟨_, _, rfl, word, single?_pair_iff.mp colon⟩
    · cases found
  · cases found

theorem eat?_joint_iff {first second : Char} {more : List Char} {tokens rest : Tokens} :
    eat? (first :: second :: more) tokens = some rest ↔
      ∃ pos next, tokens = .punct first .joint pos :: next ∧
        eat? (second :: more) next = some rest := by
  cases tokens with
  | nil => simp [eat?]
  | cons tree others =>
      cases tree with
      | punct found spacing pos =>
          cases spacing with
          | alone => simp [eat?]
          | joint =>
              by_cases same : found = first
              · subst found
                simp only [eat?, if_true, List.cons.injEq, punct.injEq, true_and]
                constructor
                · intro taken
                  exact ⟨pos, others, ⟨rfl, rfl⟩, taken⟩
                · rintro ⟨_, _, ⟨rfl, rfl⟩, taken⟩
                  exact taken
              · simp [eat?, same]
      | ident name pos => simp [eat?]
      | literal text pos => simp [eat?]
      | group delimiter inner pos => simp [eat?]

theorem variadic_of_variadic? {tokens : Tokens} {further : Option String × Bool}
    (found : variadic? tokens = some further) : Variadic further tokens := by
  unfold variadic? at found
  cases named : optional (paramName false) tokens with
  | mk name next =>
      rw [named] at found
      simp only [Option.bind_eq_bind, Option.bind_eq_some_iff] at found
      obtain ⟨after, dots, found⟩ := found
      cases closed : flag (eat? [',']) after with
      | mk comma rest =>
          rw [closed] at found
          dsimp only at found
          split at found
          · rename_i ended
            rw [List.isEmpty_iff] at ended
            subst ended
            cases found
            obtain ⟨closing, rfl, comma⟩ := marked_of_flag closed
            obtain ⟨pos, _, rfl, dots⟩ := eat?_joint_iff.mp dots
            obtain ⟨pos', spacing, pos'', rfl⟩ := eat?_pair_iff.mp dots
            rw [List.append_nil] at named
            unfold optional at named
            cases head : paramName false tokens with
            | none =>
                rw [head] at named
                cases named
                exact .unnamed comma
            | some result =>
                obtain ⟨found, after⟩ := result
                rw [head] at named
                cases named
                obtain ⟨start, next, rfl, word, lone⟩ := paramName_eq_some head
                cases lone with
                | alone => exact .named word comma
                | joint single => exact .named word comma
          · cases found

/-! ### Bounds -/

/-- The readers for the parts take texts of the grammar. -/
structure Sound (parts : TypeReader) : Prop where
  type : ∀ plus, Recognizes (parts.type plus) (.type plus)
  path : Recognizes parts.path .path
  stops : ∀ plus tokens path rest, parts.type plus tokens = some (.path path, rest) → Stopped rest

section Parts

variable {parts : TypeReader} (sound : parts.Sound)
include sound

theorem recognizes_commaList {limit : Nat} {tokens : Tokens} {types : List TypeExpr}
    {trailing : Bool} (found : commaList (parts.type true) limit tokens = some (types, trailing)) :
    ∃ ending, Spelling (.types types trailing) ending tokens := by
  induction limit generalizing tokens types trailing with
  | zero =>
      cases tokens with
      | nil =>
          cases found
          exact ⟨_, .noTypes⟩
      | cons tree rest => cases found
  | succ limit ih =>
      cases tokens with
      | nil =>
          cases found
          exact ⟨_, .noTypes⟩
      | cons tree rest =>
          simp only [commaList, Option.bind_eq_bind, Option.bind_eq_some_iff, Prod.exists] at found
          obtain ⟨first, after, read, found⟩ := found
          obtain ⟨ending, text, whole, spelled, _⟩ := sound.type true _ _ _ read
          rw [whole]
          split at found
          · cases found
            rw [List.append_nil]
            exact ⟨_, .lastType spelled⟩
          · simp only [Option.bind_eq_some_iff, Prod.exists] at found
            obtain ⟨next, comma, others, closed, listed, finished⟩ := found
            cases finished
            obtain ⟨spacing, pos, rfl⟩ := eat?_single_iff.mp comma
            obtain ⟨_, remaining⟩ := ih listed
            exact ⟨_, .moreTypes spelled remaining⟩

theorem recognizes_call : Recognizes parts.call .call := by
  intro tokens value rest found
  unfold call at found
  split at found
  · rename_i inner pos after
    simp only [Option.bind_eq_bind, Option.bind_eq_some_iff, Prod.exists] at found
    obtain ⟨inputs, trailing, listed, found⟩ := found
    obtain ⟨_, inputsSpelled⟩ := recognizes_commaList sound listed
    cases arrow : eat? ['-', '>'] after with
    | none =>
        rw [arrow] at found
        cases found
        exact ⟨_, _, rfl, .call inputsSpelled .noOutput, Ending.shut_fits _⟩
    | some next =>
        rw [arrow] at found
        simp only [Option.bind_eq_some_iff, Prod.exists] at found
        obtain ⟨output, last, result, finished⟩ := found
        cases finished
        obtain ⟨pos', spacing, pos'', rfl⟩ := eat?_pair_iff.mp arrow
        obtain ⟨ending, text, rfl, spelled, fits⟩ := sound.type false _ _ _ result
        exact ⟨_, _, rfl, .call inputsSpelled (.someOutput spelled), fits⟩
  · cases found

omit sound in
theorem colons_of_skipToCall {tokens rest : Tokens} (found : skipToCall tokens = some rest) :
    ∃ doubleColon colons, tokens = colons ++ rest ∧ Colons doubleColon colons := by
  unfold skipToCall at found
  split at found
  · cases found
    exact ⟨false, [], rfl, .absent⟩
  · split at found
    · rename_i colons
      cases found
      obtain ⟨pos, spacing, pos', rfl⟩ := eat?_pair_iff.mp colons
      exact ⟨true, _, rfl, .present⟩
    · cases found

theorem recognizes_traitPath : Recognizes parts.traitPath .traitPath := by
  intro tokens value rest found
  simp only [traitPath, Option.bind_eq_bind, Option.bind_eq_some_iff, Prod.exists] at found
  obtain ⟨path, afterPath, read, found⟩ := found
  obtain ⟨_, text, rfl, spelled, _⟩ := sound.path _ _ _ read
  have plain : Takes (.traitPath path) (text ++ afterPath) afterPath :=
    ⟨_, _, rfl, .plainTrait spelled, Ending.shut_fits _⟩
  split at found
  · cases found
    exact plain
  · rename_i last final
    split at found
    · rename_i next yields skipped
      simp only [Option.bind_eq_some_iff, Prod.exists] at found
      obtain ⟨args, after, called, finished⟩ := found
      cases finished
      obtain ⟨doubleColon, colons, rfl, turbofish⟩ := colons_of_skipToCall skipped
      obtain ⟨ending, text', rfl, calledSpelled, fits⟩ := recognizes_call sound _ _ _ called
      obtain ⟨pos, rooted, segments⟩ := path
      obtain ⟨before, rfl⟩ := List.getLast?_eq_some_iff.mp final
      rw [List.dropLast_concat]
      exact ⟨_, _, by simp only [List.append_assoc], .calledTrait spelled yields turbofish
        calledSpelled, fits⟩
    · cases found
      exact plain

theorem recognizes_traitBound (wrapped : Bool) :
    Recognizes (parts.traitBound wrapped) .traitBound := by
  intro tokens value rest found
  unfold traitBound at found
  cases marked : flag (eat? ['?']) tokens with
  | mk relaxed next =>
      rw [marked] at found
      obtain ⟨question, rfl, mark⟩ := marked_of_flag marked
      dsimp only at found
      split at found
      · simp only [Option.bind_eq_bind, Option.bind_eq_some_iff, Prod.exists] at found
        obtain ⟨names, afterNames, bound, _, afterBinder, same, path, afterPath, read, finished⟩ :=
          found
        cases same
        cases finished
        obtain ⟨before, rfl, bindings⟩ := bindings_of_binder bound
        obtain ⟨ending, text, rfl, spelled, fits⟩ := recognizes_traitPath sound _ _ _ read
        exact ⟨_, _, by simp only [List.append_assoc], .traitBound mark bindings spelled, fits⟩
      · simp only [Option.bind_eq_bind, Option.bind_eq_some_iff, Prod.exists] at found
        obtain ⟨_, afterBinder, same, path, afterPath, read, finished⟩ := found
        cases same
        cases finished
        obtain ⟨ending, text, rfl, spelled, fits⟩ := recognizes_traitPath sound _ _ _ read
        exact ⟨_, _, by simp only [List.append_assoc, List.nil_append],
          .traitBound mark .absent spelled, fits⟩

omit sound in
theorem flags_of_traitBound {wrapped : Bool} {tokens rest : Tokens} {value : TraitBound}
    (found : parts.traitBound wrapped tokens = some (value, rest)) :
    value.wrapped = wrapped ∧ value.relaxed = nextIs ['?'] tokens := by
  have marked : (flag (eat? ['?']) tokens).1 = nextIs ['?'] tokens := by
    rw [flag, nextIs]
    cases eat? ['?'] tokens <;> rfl
  unfold traitBound at found
  dsimp only at found
  split at found <;>
    simp only [Option.bind_eq_bind, Option.bind_eq_some_iff, Prod.exists] at found
  · obtain ⟨_, _, _, _, _, _, _, _, _, finished⟩ := found
    cases finished
    exact ⟨rfl, marked⟩
  · obtain ⟨_, _, _, _, _, _, finished⟩ := found
    cases finished
    exact ⟨rfl, marked⟩

theorem spelling_of_whole_traitBound {inner : Tokens} {value : TraitBound}
    (found : whole? (parts.traitBound true) inner = some value) :
    (value.wrapped = true ∧ value.relaxed = nextIs ['?'] inner) ∧
      ∃ ending, Spelling (.traitBound value) ending inner := by
  have read := eq_some_of_whole? found
  obtain ⟨ending, text, rfl, spelled, _⟩ := recognizes_traitBound sound true _ _ _ read
  rw [List.append_nil] at read ⊢
  exact ⟨flags_of_traitBound read, ending, spelled⟩

theorem recognizes_bound : Recognizes parts.bound .bound := by
  intro tokens value rest found
  unfold bound at found
  cases named : lifetime? tokens with
  | some result =>
      obtain ⟨name, after⟩ := result
      rw [named] at found
      cases found
      obtain ⟨pos, pos', rfl⟩ := lifetime?_eq_some_iff.mp named
      exact ⟨_, _, rfl, .lifetimeBound, Ending.shut_fits _⟩
  | none =>
      rw [named] at found
      dsimp only at found
      split at found
      · simp only [Option.bind_eq_bind, Option.bind_eq_some_iff] at found
        obtain ⟨inner, whole, finished⟩ := found
        cases finished
        obtain ⟨⟨wrapped, _⟩, ending, spelled⟩ := spelling_of_whole_traitBound sound whole
        exact ⟨_, _, rfl, .wrappedBound wrapped spelled, Ending.shut_fits _⟩
      · simp only [Option.bind_eq_bind, Option.bind_eq_some_iff, Prod.exists] at found
        obtain ⟨bound, after, read, finished⟩ := found
        cases finished
        obtain ⟨ending, text, rfl, spelled, fits⟩ := recognizes_traitBound sound false _ _ _ read
        exact ⟨_, _, rfl, .plainBound (flags_of_traitBound read).1 spelled, fits⟩

omit sound in
theorem Ending.Fits.ended {ending : Ending} {tokens rest : Tokens} (fits : ending.Fits tokens)
    (plus : eat? ['+'] tokens = some rest) : ending.plus = false := by
  cases takes : ending.plus with
  | false => rfl
  | true =>
      rw [fits.plus takes] at plus
      cases plus

theorem recognizes_moreBounds {limit : Nat} {before : Ending} {tokens rest : Tokens}
    {values : List Bound} {trailing : Bool} (enough : tokens.length ≤ limit)
    (fits : before.Fits tokens)
    (found : parts.moreBounds limit tokens = some ((values, trailing), rest)) :
    Takes (.more before values trailing) tokens rest := by
  induction limit generalizing before tokens values trailing with
  | zero =>
      cases tokens with
      | nil =>
          cases found
          exact ⟨_, [], rfl, .noMore, fun _ => rfl, fits.bound⟩
      | cons tree others => cases enough
  | succ limit ih =>
      unfold moreBounds at found
      cases plus : eat? ['+'] tokens with
      | none =>
          rw [plus] at found
          cases found
          exact ⟨_, [], rfl, .noMore, fun _ => plus, fits.bound⟩
      | some next =>
          rw [plus] at found
          have ended := Ending.Fits.ended fits plus
          obtain ⟨spacing, pos, rfl⟩ := eat?_single_iff.mp plus
          dsimp only at found
          split at found
          · simp only [Option.bind_eq_bind, Option.bind_eq_some_iff, Prod.exists] at found
            obtain ⟨bound, afterBound, read, others, trailing, after, more, finished⟩ := found
            cases finished
            obtain ⟨ending, text, rfl, spelled, fits⟩ := recognizes_bound sound _ _ _ read
            simp only [List.length_cons, List.length_append] at enough
            obtain ⟨ending', text', rfl, spelled', fits'⟩ := ih (by omega) fits more
            refine ⟨_, .punct '+' spacing pos :: (text ++ text'), ?_,
              .moreBounds ended spelled spelled', fits'⟩
            simp only [List.cons_append, List.append_assoc]
          · rename_i noBound
            cases found
            exact ⟨_, [_], rfl, .trailingPlus ended, fun plus => absurd plus Bool.false_ne_true,
              fun _ => Bool.eq_false_iff.mpr noBound⟩

theorem recognizes_strictBounds {limit : Nat} {before : Ending} {tokens rest : Tokens}
    {values : List Bound} (enough : tokens.length ≤ limit) (fits : before.Fits tokens)
    (found : parts.strictBounds limit tokens = some (values, rest)) :
    Takes (.more before values false) tokens rest := by
  induction limit generalizing before tokens values with
  | zero =>
      cases tokens with
      | nil =>
          cases found
          exact ⟨_, [], rfl, .noMore, fun _ => rfl, fits.bound⟩
      | cons tree others => cases enough
  | succ limit ih =>
      unfold strictBounds at found
      cases plus : eat? ['+'] tokens with
      | none =>
          rw [plus] at found
          cases found
          exact ⟨_, [], rfl, .noMore, fun _ => plus, fits.bound⟩
      | some next =>
          rw [plus] at found
          have ended := Ending.Fits.ended fits plus
          obtain ⟨spacing, pos, rfl⟩ := eat?_single_iff.mp plus
          simp only [Option.bind_eq_bind, Option.bind_eq_some_iff, Prod.exists] at found
          obtain ⟨bound, afterBound, read, others, after, more, finished⟩ := found
          cases finished
          obtain ⟨ending, text, rfl, spelled, fits⟩ := recognizes_bound sound _ _ _ read
          simp only [List.length_cons, List.length_append] at enough
          obtain ⟨ending', text', rfl, spelled', fits'⟩ := ih (by omega) fits more
          refine ⟨_, .punct '+' spacing pos :: (text ++ text'), ?_,
            .moreBounds ended spelled spelled', fits'⟩
          simp only [List.cons_append, List.append_assoc]

theorem recognizes_bounds (plus : Bool) :
    Recognizes (parts.bounds plus) fun value => .bounds plus value.1 value.2 := by
  intro tokens value rest found
  simp only [bounds, Option.bind_eq_bind, Option.bind_eq_some_iff, Prod.exists] at found
  obtain ⟨bound, afterBound, read, found⟩ := found
  obtain ⟨ending, text, rfl, spelled, fits⟩ := recognizes_bound sound _ _ _ read
  cases plus with
  | true =>
      simp only [if_true, Option.bind_eq_some_iff, Prod.exists] at found
      obtain ⟨others, trailing, after, more, finished⟩ := found
      cases finished
      obtain ⟨ending', text', rfl, spelled', fits'⟩ :=
        recognizes_moreBounds sound (by simp only [List.length_append]; omega) fits more
      exact ⟨_, _, by simp only [List.append_assoc], .sum spelled spelled', fits'⟩
  | false =>
      cases found
      exact ⟨_, _, rfl, .oneBound spelled, fits⟩

theorem recognizes_traitSum {plus : Bool} {tokens rest : Tokens} {values : List Bound}
    {trailing : Bool} (found : parts.traitSum plus tokens = some ((values, trailing), rest)) :
    values.any namesTrait = true ∧ Takes (.bounds plus values trailing) tokens rest := by
  simp only [traitSum, Option.bind_eq_bind, Option.bind_eq_some_iff, Prod.exists] at found
  obtain ⟨values, trailing, after, read, finished⟩ := found
  split at finished
  · rename_i trait
    cases finished
    exact ⟨trait, recognizes_bounds sound plus _ _ _ read⟩
  · cases finished

theorem recognizes_constraintBounds {limit : Nat} {tokens rest : Tokens} {values : List Bound}
    {trailing : Bool}
    (found : parts.constraintBounds limit tokens = some ((values, trailing), rest)) :
    ∃ ending text, tokens = text ++ rest ∧ Spelling (.limits values trailing) ending text := by
  induction limit generalizing tokens values trailing with
  | zero => cases found
  | succ limit ih =>
      unfold constraintBounds at found
      split at found
      · cases found
        exact ⟨_, [], rfl, .noLimits⟩
      · simp only [Option.bind_eq_bind, Option.bind_eq_some_iff, Prod.exists] at found
        obtain ⟨bound, afterBound, read, found⟩ := found
        obtain ⟨ending, text, rfl, spelled, fits⟩ := recognizes_bound sound _ _ _ read
        cases plus : eat? ['+'] afterBound with
        | none =>
            rw [plus] at found
            cases found
            refine ⟨_, text ++ [], ?_, .limits (.sum spelled .noMore)⟩
            rw [List.append_nil]
        | some next =>
            rw [plus] at found
            have ended := Ending.Fits.ended fits plus
            obtain ⟨spacing, pos, rfl⟩ := eat?_single_iff.mp plus
            simp only [Option.bind_eq_some_iff, Prod.exists] at found
            obtain ⟨others, trailing, after, more, finished⟩ := found
            cases finished
            obtain ⟨_, text', rfl, remaining⟩ := ih more
            cases remaining with
            | noLimits =>
                rw [List.isEmpty_nil, Bool.false_or]
                refine ⟨_, text ++ [.punct '+' spacing pos], ?_,
                  .limits (.sum spelled (.trailingPlus ended))⟩
                simp only [List.append_assoc, List.cons_append, List.nil_append]
            | limits inner =>
                cases inner with
                | @sum _ _ _ first second _ _ spelled' others =>
                    rw [List.isEmpty_cons, Bool.or_false]
                    refine ⟨_, text ++ .punct '+' spacing pos :: (first ++ second), ?_,
                      .limits (.sum spelled (.moreBounds ended spelled' others))⟩
                    simp only [List.append_assoc, List.cons_append]

/-! ### Generic arguments -/

omit sound in
theorem source_of_constant? {tokens value rest : Tokens}
    (found : constant? tokens = some (value, rest)) :
    ∃ source, tokens = source ++ rest ∧ constant? source = some (value, []) := by
  unfold constant? literal? at found
  split at found
  · rename_i result literal
    cases found
    split at literal
    · cases literal
      exact ⟨[_], rfl, rfl⟩
    · split at literal
      · rename_i name pos after truth
        cases literal
        refine ⟨[.ident name pos], rfl, ?_⟩
        simp only [constant?, literal?, truth, if_true]
      · cases literal
    · split at literal
      · rename_i spacing pos text pos' after digit
        cases literal
        refine ⟨[.punct '-' spacing pos, .literal text pos'], rfl, ?_⟩
        simp only [constant?, literal?, digit, if_true]
      · cases literal
    · cases literal
  · split at found
    · rename_i inner pos after _
      refine ⟨[.group .brace inner pos], ?_⟩
      dsimp only at found
      split at found
      · rename_i empty
        cases found
        refine ⟨rfl, ?_⟩
        simp only [constant?, literal?, empty, if_true]
        rfl
      · rename_i nonempty
        obtain ⟨whole, read, finished⟩ := Option.bind_eq_some_iff.mp found
        cases finished
        refine ⟨rfl, ?_⟩
        simp only [constant?, literal?, nonempty, read, Option.bind_eq_bind, Option.bind_some,
          Bool.false_eq_true, if_false]
    · cases found

omit sound in
theorem segment_of_bindable {plus : Bool} {type : TypeExpr} {pos : Nat} {segment : Segment}
    {ending : Ending} {text : Tokens} (spelled : Spelling (.type plus type) ending text)
    (bindable : bindable type = some (pos, segment)) :
    (∃ path, type = .path path) ∧ pos = startOf text ∧ isPathWord segment.name = true ∧
      ∃ ending, Spelling (.segment segment) ending text := by
  unfold TypeReader.bindable at bindable
  split at bindable
  all_goals
    cases bindable
  all_goals
    refine ⟨⟨_, rfl⟩, ?_⟩
    cases spelled with
    | pathType starts inner =>
        cases inner with
        | path root steps =>
            cases root
            cases steps with
            | lastStep only =>
                rw [List.nil_append] at starts ⊢
                refine ⟨rfl, ?_, _, only⟩
                cases only
                cases starts with
                | name word => exact word
            | moreSteps first others => cases others

omit sound in
theorem lone_of_stopped {values : List Bound} {trailing : Bool} {ending : Ending}
    {spacing : Spacing} {pos : Nat} {more rest : Tokens}
    (stopped : Stopped (.punct ':' spacing pos :: (more ++ rest)))
    (limits : Spelling (.limits values trailing) ending more) :
    Lone ':' ':' (.punct ':' spacing pos :: more) more := by
  cases spacing with
  | alone => exact .alone
  | joint =>
      refine .joint ?_
      rintro spacing' pos' others rfl
      cases limits with
      | limits inner =>
          cases inner.begins with
          | trait starts =>
              cases starts with
              | path starts =>
                  cases starts with
                  | colons => rcases stopped with apart | ⟨_, _, _, apart⟩ <;> cases apart

theorem recognizes_typed {tokens rest : Tokens} {value : GenericArg}
    (found : genericArg.typed parts tokens = some (value, rest)) :
    ∃ ending text, tokens = text ++ rest ∧ Spelling (.arg value) ending text := by
  simp only [genericArg.typed, Option.bind_eq_bind, Option.bind_eq_some_iff, Prod.exists] at found
  obtain ⟨type, afterType, read, found⟩ := found
  obtain ⟨_, text, rfl, spelled, _⟩ := sound.type true _ _ _ read
  have plain : ∃ ending source, text ++ afterType = source ++ afterType ∧
      Spelling (.arg (.type type)) ending source := ⟨_, _, rfl, .typeArg spelled⟩
  split at found
  · cases found
    exact plain
  · rename_i pos name args bound
    obtain ⟨⟨path, rfl⟩, rfl, word, _, head⟩ := segment_of_bindable spelled bound
    cases assigned : eat? ['='] afterType with
    | some next =>
        rw [assigned] at found
        obtain ⟨spacing, pos', rfl⟩ := eat?_single_iff.mp assigned
        dsimp only at found
        split at found
        · simp only [Option.bind_eq_some_iff, Prod.exists] at found
          obtain ⟨constant, after, constantRead, finished⟩ := found
          cases finished
          obtain ⟨source, rfl, whole⟩ := source_of_constant? constantRead
          refine ⟨_, text ++ .punct '=' spacing pos' :: source, ?_, .constBinding word head whole⟩
          simp only [List.append_assoc, List.cons_append]
        · simp only [Option.bind_eq_some_iff, Prod.exists] at found
          obtain ⟨type, after, typeRead, finished⟩ := found
          cases finished
          obtain ⟨_, more, rfl, inner, _⟩ := sound.type true _ _ _ typeRead
          refine ⟨_, text ++ .punct '=' spacing pos' :: more, ?_, .typeBinding word head inner⟩
          simp only [List.append_assoc, List.cons_append]
    | none =>
        rw [assigned] at found
        dsimp only at found
        cases colon : eat? [':'] afterType with
        | some next =>
            rw [colon] at found
            obtain ⟨spacing, pos', rfl⟩ := eat?_single_iff.mp colon
            simp only [Option.bind_eq_some_iff, Prod.exists] at found
            obtain ⟨bounds, trailing, after, limitsRead, finished⟩ := found
            cases finished
            obtain ⟨_, more, rfl, inner⟩ := recognizes_constraintBounds sound limitsRead
            have lone := lone_of_stopped (sound.stops _ _ _ _ read) inner
            refine ⟨_, text ++ .punct ':' spacing pos' :: more, ?_, .constraint word head lone inner⟩
            simp only [List.append_assoc, List.cons_append]
        | none =>
            rw [colon] at found
            cases found
            exact plain

theorem recognizes_genericArg {tokens rest : Tokens} {value : GenericArg}
    (found : parts.genericArg tokens = some (value, rest)) :
    ∃ ending text, tokens = text ++ rest ∧ Spelling (.arg value) ending text := by
  unfold genericArg at found
  dsimp only at found
  cases named : lifetime? tokens with
  | some result =>
      obtain ⟨name, after⟩ := result
      rw [named] at found
      dsimp only at found
      split at found
      · exact recognizes_typed sound found
      · cases found
        obtain ⟨pos, pos', rfl⟩ := lifetime?_eq_some_iff.mp named
        exact ⟨_, [_, _], rfl, .lifetimeArg⟩
  | none =>
      rw [named] at found
      dsimp only at found
      split at found
      · simp only [Option.bind_eq_bind, Option.bind_eq_some_iff, Prod.exists] at found
        obtain ⟨constant, after, read, finished⟩ := found
        cases finished
        obtain ⟨source, rfl, whole⟩ := source_of_constant? read
        have start : ((source ++ rest).head?.map TokenTree.pos).getD 0 = startOf source := by
          cases source with
          | nil => cases whole
          | cons tree others => rfl
        rw [start]
        exact ⟨_, _, rfl, .constArg whole⟩
      · exact recognizes_typed sound found

theorem recognizes_genericArgs {limit : Nat} {tokens rest : Tokens} {values : List GenericArg}
    {trailing : Bool}
    (found : parts.genericArgs limit tokens = some ((values, trailing), rest)) :
    ∃ ending text, tokens = text ++ rest ∧ Spelling (.args values trailing) ending text := by
  induction limit generalizing tokens values trailing with
  | zero => cases found
  | succ limit ih =>
      unfold genericArgs at found
      cases closed : eat? ['>'] tokens with
      | some after =>
          rw [closed] at found
          cases found
          obtain ⟨spacing, pos, rfl⟩ := eat?_single_iff.mp closed
          exact ⟨_, [_], rfl, .closeArgs⟩
      | none =>
          rw [closed] at found
          simp only [Option.bind_eq_bind, Option.bind_eq_some_iff, Prod.exists] at found
          obtain ⟨arg, afterArg, read, found⟩ := found
          obtain ⟨_, text, rfl, spelled⟩ := recognizes_genericArg sound read
          cases closed : eat? ['>'] afterArg with
          | some after =>
              rw [closed] at found
              cases found
              obtain ⟨spacing, pos, rfl⟩ := eat?_single_iff.mp closed
              refine ⟨_, text ++ [.punct '>' spacing pos], ?_, .lastArg spelled⟩
              simp only [List.append_assoc, List.cons_append, List.nil_append]
          | none =>
              rw [closed] at found
              simp only [Option.bind_eq_some_iff, Prod.exists] at found
              obtain ⟨next, comma, others, trailing, after, more, finished⟩ := found
              cases finished
              obtain ⟨spacing, pos, rfl⟩ := eat?_single_iff.mp comma
              obtain ⟨_, text', rfl, remaining⟩ := ih more
              refine ⟨_, text ++ .punct ',' spacing pos :: text', ?_, .moreArgs spelled remaining⟩
              simp only [List.append_assoc, List.cons_append]

/-! ### Paths -/

theorem recognizes_angleArgs {doubleColon : Bool} {tokens rest : Tokens} {args : PathArgs}
    (found : segmentArgs.read parts doubleColon (eat? ['<'] tokens) = some (args, rest)) :
    ∃ values trailing ending spacing pos text, args = .angle doubleColon values trailing ∧
      tokens = .punct '<' spacing pos :: (text ++ rest) ∧
      Spelling (.args values trailing) ending text := by
  simp only [segmentArgs.read, Option.bind_eq_bind, Option.bind_eq_some_iff, Prod.exists] at found
  obtain ⟨inside, opened, values, trailing, after, read, finished⟩ := found
  cases finished
  obtain ⟨spacing, pos, rfl⟩ := eat?_single_iff.mp opened
  obtain ⟨ending, text, rfl, spelled⟩ := recognizes_genericArgs sound read
  exact ⟨_, _, _, _, _, _, rfl, rfl, spelled⟩

theorem recognizes_segment : Recognizes parts.segment .segment := by
  intro tokens value rest found
  unfold segment at found
  split at found
  · rename_i name pos after
    split at found
    · rename_i root
      cases found
      have word : isSegmentWord name = true := by
        rcases root with rfl | rfl | rfl | rfl <;> rfl
      exact ⟨_, [_], rfl, .bareSegment word, Ending.shut_fits _⟩
    · split at found
      · rename_i word
        simp only [Option.bind_eq_bind, Option.bind_eq_some_iff, Prod.exists] at found
        obtain ⟨args, after, read, finished⟩ := found
        cases finished
        unfold segmentArgs at read
        split at read
        · obtain ⟨values, trailing, ending, spacing, pos', text, rfl, rfl, spelled⟩ :=
            recognizes_angleArgs sound read
          exact ⟨_, _, rfl, .openSegment word .absent spelled, Ending.shut_fits _⟩
        · split at read
          · rename_i turbofish
            rw [Bool.and_eq_true] at turbofish
            obtain ⟨next, colons⟩ := Option.isSome_iff_exists.mp turbofish.1
            obtain ⟨start, spacing', start', rfl⟩ := eat?_pair_iff.mp colons
            obtain ⟨values, trailing, ending, spacing, pos', text, rfl, inside, spelled⟩ :=
              recognizes_angleArgs sound read
            change next = _ at inside
            subst inside
            exact ⟨_, _, rfl, .openSegment word .present spelled, Ending.shut_fits _⟩
          · cases read
            have path := isPathWord_of_opens word
            exact ⟨_, [_], rfl, .bareSegment (by rw [isSegmentWord, path, Bool.true_or]),
              Ending.shut_fits _⟩
      · cases found
  · cases found

theorem recognizes_moreSegments {qualified : Bool} {limit : Nat} {tokens rest : Tokens}
    {values : List Segment} (enough : tokens.length ≤ limit)
    (found : parts.moreSegments qualified limit tokens = some (values, rest)) :
    Stopped rest ∧ ((values = [] ∧ tokens = rest) ∨
      ∃ ending spacing pos pos' text,
        tokens = .punct ':' .joint pos :: .punct ':' spacing pos' :: (text ++ rest) ∧
          Spelling (.steps values) ending text) := by
  induction limit generalizing tokens values with
  | zero =>
      cases tokens with
      | nil =>
          cases found
          exact ⟨.inl rfl, .inl ⟨rfl, rfl⟩⟩
      | cons tree others => cases enough
  | succ limit ih =>
      unfold moreSegments at found
      cases colons : eat? [':', ':'] tokens with
      | none =>
          rw [colons] at found
          cases found
          exact ⟨.inl colons, .inl ⟨rfl, rfl⟩⟩
      | some next =>
          rw [colons] at found
          dsimp only at found
          split at found
          · rename_i grouped
            cases found
            rw [Bool.and_eq_true] at grouped
            obtain ⟨result, group⟩ := Option.isSome_iff_exists.mp grouped.2
            obtain ⟨pos, rfl⟩ := group?_eq_some_iff.mp (Prod.eta result ▸ group)
            exact ⟨.inr ⟨_, _, _, colons⟩, .inl ⟨rfl, rfl⟩⟩
          · simp only [Option.bind_eq_bind, Option.bind_eq_some_iff, Prod.exists] at found
            obtain ⟨segment, afterSegment, read, others, after, more, finished⟩ := found
            cases finished
            obtain ⟨pos, spacing, pos', rfl⟩ := eat?_pair_iff.mp colons
            obtain ⟨_, text, rfl, spelled, _⟩ := recognizes_segment sound _ _ _ read
            simp only [List.length_cons, List.length_append] at enough
            obtain ⟨stopped, remaining⟩ := ih (by omega) more
            refine ⟨stopped, .inr ?_⟩
            rcases remaining with ⟨rfl, rfl⟩ | ⟨_, spacing', start, start', text', rfl, remaining⟩
            · exact ⟨_, _, _, _, _, rfl, .lastStep spelled⟩
            · refine ⟨_, spacing, pos, pos', text ++ .punct ':' .joint start ::
                .punct ':' spacing' start' :: text', ?_, .moreSteps spelled remaining⟩
              simp only [List.append_assoc, List.cons_append]

theorem recognizes_steps {qualified : Bool} {limit : Nat} {tokens middle rest : Tokens}
    {first : Segment} {values : List Segment} (enough : tokens.length ≤ limit)
    (head : parts.segment tokens = some (first, middle))
    (tail : parts.moreSegments qualified limit middle = some (values, rest)) :
    Stopped rest ∧ ∃ ending text, tokens = text ++ rest ∧
      Spelling (.steps (first :: values)) ending text := by
  obtain ⟨_, text, rfl, spelled, _⟩ := recognizes_segment sound _ _ _ head
  rw [List.length_append] at enough
  obtain ⟨stopped, remaining⟩ := recognizes_moreSegments sound (by omega) tail
  refine ⟨stopped, ?_⟩
  rcases remaining with ⟨rfl, rfl⟩ | ⟨_, spacing, pos, pos', text', rfl, remaining⟩
  · exact ⟨_, _, rfl, .lastStep spelled⟩
  · refine ⟨_, text ++ .punct ':' .joint pos :: .punct ':' spacing pos' :: text', ?_,
      .moreSteps spelled remaining⟩
    simp only [List.append_assoc, List.cons_append]

theorem recognizes_pathStep {tokens rest : Tokens} {path : Path}
    (found : parts.pathStep tokens = some (path, rest)) :
    Stopped rest ∧ ∃ ending text, tokens = text ++ rest ∧ Spelling (.path path) ending text := by
  unfold pathStep at found
  dsimp only at found
  cases marked : flag (eat? [':', ':']) tokens with
  | mk rooted next =>
      rw [marked] at found
      simp only [Option.bind_eq_bind, Option.bind_eq_some_iff, Prod.exists] at found
      obtain ⟨segment, afterSegment, read, others, after, more, finished⟩ := found
      cases finished
      obtain ⟨colons, rfl, root⟩ := colons_of_flag marked
      obtain ⟨stopped, _, text, rfl, steps⟩ := recognizes_steps sound
        (by simp only [List.length_append]; omega) read more
      have start : ((colons ++ (text ++ rest)).head?.map TokenTree.pos).getD 0 =
          startOf (colons ++ text) := by
        obtain ⟨name, pos, others, _, rfl⟩ := steps.begins
        cases root <;> rfl
      rw [start]
      refine ⟨stopped, _, colons ++ text, ?_, .path root steps⟩
      rw [List.append_assoc]

theorem takes_qualifiedRest {plus : Bool} {spacing : Spacing} {pos : Nat} {tokens rest : Tokens}
    {type : TypeExpr} (found : parts.qualifiedRest tokens = some (type, rest)) :
    Takes (.type plus type) (.punct '<' spacing pos :: tokens) rest := by
  simp only [qualifiedRest, Option.bind_eq_bind, Option.bind_eq_some_iff, Prod.exists] at found
  obtain ⟨self, afterSelf, readSelf, found⟩ := found
  obtain ⟨ending, text, rfl, spelled, fits⟩ := sound.type true _ _ _ readSelf
  have ends : ∀ {next seen : Tokens} {view : Option Path} {ending' : Ending},
      afterSelf = seen ++ next → Spelling (.view ending view) ending' seen →
      (∃ closed, eat? ['>'] next = some closed ∧ ∃ colons, eat? [':', ':'] closed = some colons ∧
        ∃ first afterFirst, parts.segment colons = some (first, afterFirst) ∧
        ∃ others after,
          parts.moreSegments true (text ++ afterSelf).length afterFirst = some (others, after) ∧
          some (TypeExpr.qualified self view (first :: others), after) = some (type, rest)) →
      Takes (.type plus type) (.punct '<' spacing pos :: (text ++ afterSelf)) rest := by
    rintro next seen view ending' rfl seenSpelled
      ⟨closed, closing, afterColons, colons, first, afterFirst, read, others, after, more, finished⟩
    cases finished
    obtain ⟨spacing', pos', rfl⟩ := eat?_single_iff.mp closing
    obtain ⟨start, spacing'', start', rfl⟩ := eat?_pair_iff.mp colons
    obtain ⟨_, _, text', rfl, steps⟩ := recognizes_steps sound
      (by simp only [List.length_append, List.length_cons]; omega) read more
    refine ⟨_, .punct '<' spacing pos :: (text ++ (seen ++ .punct '>' spacing' pos' ::
      .punct ':' .joint start :: .punct ':' spacing'' start' :: text')), ?_,
      .qualified spelled seenSpelled steps, Ending.shut_fits _⟩
    simp only [List.append_assoc, List.cons_append]
  cases keyword : word? "as" afterSelf with
  | none =>
      rw [keyword] at found
      simp only [Option.bind_eq_some_iff, Prod.exists] at found
      obtain ⟨view, next, same, found⟩ := found
      cases same
      exact ends (List.nil_append _).symm .noView found
  | some next =>
      rw [keyword] at found
      obtain ⟨pos', rfl⟩ := word?_eq_some_iff.mp keyword
      simp only [Option.bind_eq_some_iff, Prod.exists] at found
      obtain ⟨path, afterPath, readPath, _, next, same, found⟩ := found
      cases same
      have ended : ending.bound = false := by
        cases takes : ending.bound with
        | false => rfl
        | true => cases fits.bound takes
      obtain ⟨_, text', rfl, pathSpelled, _⟩ := sound.path _ _ _ readPath
      exact ends (List.cons_append ..).symm (.someView ended pathSpelled) found

/-! ### Types -/

omit sound in
theorem startsType_of_append {text rest : Tokens} (starts : StartsType (text ++ rest))
    (path : StartsPath text) : StartsType text := by
  cases path with
  | word =>
      cases starts with
      | name word => exact .name word
  | colons => exact .mark (by decide)

omit sound in
theorem startsName_of_append {text rest : Tokens} (starts : StartsName (text ++ rest))
    (path : StartsPath text) : StartsName text := by
  obtain ⟨name, pos, others, word, whole⟩ := starts
  cases path with
  | word =>
      cases whole
      exact ⟨_, _, _, word, rfl⟩
  | colons => cases whole

omit sound in
theorem ne_nil_of_plus {before ending : Ending} {values : List Bound} {trailing : Bool}
    {text rest : Tokens} (spelled : Spelling (.more before values trailing) ending text)
    (fits : ending.Fits rest) (plus : nextIs ['+'] (text ++ rest) = true) : text ≠ [] := by
  rintro rfl
  cases spelled with
  | noMore =>
      rw [nextIs, List.nil_append, fits.plus rfl] at plus
      cases plus

theorem takes_pathType {plus : Bool} {binder : Option Binder} {before tokens rest : Tokens}
    {type : TypeExpr} (bindings : Bindings binder before) (starts : StartsType tokens)
    (named : binder.isSome = true → StartsName tokens)
    (found : parts.pathType plus binder tokens = some (type, rest)) :
    Takes (.type plus type) (before ++ tokens) rest := by
  simp only [pathType, Option.bind_eq_bind, Option.bind_eq_some_iff, Prod.exists] at found
  obtain ⟨path, afterPath, read, found⟩ := found
  obtain ⟨_, _, text, rfl, spelled⟩ := recognizes_pathStep sound read
  have begins := startsType_of_append starts spelled.begins
  have begun := fun bound => startsName_of_append (named bound) spelled.begins
  split at found
  · rename_i delimiter inner pos after banged
    cases found
    split at banged
    · rename_i plain
      obtain ⟨spacing, pos', rfl⟩ := eat?_single_iff.mp (single?_eq_some_iff.mp banged).2
      refine ⟨_, before ++ (text ++ [.punct '!' spacing pos', .group delimiter inner pos]), ?_,
        .invocation bindings begins begun plain spelled, Ending.shut_fits _⟩
      simp only [List.append_assoc, List.cons_append, List.nil_append]
    · cases banged
  · cases found
  · split at found
    · rename_i sum
      rw [Bool.and_eq_true] at sum
      obtain ⟨rfl, plus⟩ := sum
      simp only [Option.bind_eq_some_iff, Prod.exists] at found
      obtain ⟨others, trailing, after, more, finished⟩ := found
      cases finished
      obtain ⟨ending, text', rfl, remaining, fits⟩ := recognizes_moreBounds sound
        (by simp only [List.length_append]; omega) (Ending.shut_fits _) more
      have some := ne_nil_of_plus remaining fits plus
      refine ⟨_, before ++ (text ++ text'), ?_, .sumType bindings begins begun spelled some remaining,
        fits⟩
      simp only [List.append_assoc]
    · rename_i noSum
      have fits : Ending.Fits ⟨plus, false⟩ afterPath := by
        refine ⟨?_, fun bound => absurd bound Bool.false_ne_true⟩
        rintro rfl
        rw [Bool.true_and] at noSum
        exact Option.not_isSome_iff_eq_none.mp noSum
      split at found
      · rename_i bound
        cases found
        obtain ⟨names, rfl⟩ := Option.isSome_iff_exists.mp bound
        refine ⟨_, before ++ text, ?_, .boundType bindings (begun rfl) spelled, fits⟩
        rw [List.append_assoc]
      · rename_i unbound
        cases found
        cases bindings with
        | present => exact absurd rfl unbound
        | absent => exact ⟨_, _, rfl, .pathType begins spelled, fits⟩

omit sound in
theorem lifetime?_eq_none_of_append {text rest : Tokens} (unticked : lifetime? (text ++ rest) = none) :
    lifetime? text = none := by
  cases found : lifetime? text with
  | none => rfl
  | some result =>
      obtain ⟨pos, pos', rfl⟩ := lifetime?_eq_some_iff.mp (Prod.eta result ▸ found)
      cases unticked

theorem takes_parenthesised {plus : Bool} {inner rest after : Tokens} {pos : Nat} {type : TypeExpr}
    (found : parts.parenthesised plus inner rest = some (type, after)) :
    Takes (.type plus type) (.group .paren inner pos :: rest) after := by
  unfold parenthesised at found
  split at found
  · cases found
    exact ⟨_, [_], rfl, .unit, Ending.shut_fits _⟩
  · split at found
    · rename_i ticked
      simp only [Option.bind_eq_bind, Option.bind_eq_some_iff, Prod.exists] at found
      obtain ⟨bounds, trailing, whole, finished⟩ := found
      cases finished
      obtain ⟨trait, _, text, rfl, spelled, _⟩ :=
        recognizes_traitSum sound (eq_some_of_whole? whole)
      rw [List.append_nil] at ticked ⊢
      exact ⟨_, [_], rfl, .tickedParens ticked trait spelled, Ending.shut_fits _⟩
    · rename_i noTick
      have unticked := Option.not_isSome_iff_eq_none.mp noTick
      split at found
      · rename_i question
        simp only [Option.bind_eq_bind, Option.bind_eq_some_iff, Prod.exists] at found
        obtain ⟨first, whole, others, next, more, finished⟩ := found
        cases finished
        obtain ⟨⟨wrapped, relaxed⟩, _, spelled⟩ := spelling_of_whole_traitBound sound whole
        rw [question] at relaxed
        obtain ⟨ending, text', rfl, remaining, fits⟩ :=
          recognizes_strictBounds sound (Nat.le_refl _) (Ending.shut_fits _) more
        exact ⟨_, _, rfl, .relaxedSum wrapped relaxed spelled remaining, fits⟩
      · simp only [Option.bind_eq_bind, Option.bind_eq_some_iff, Prod.exists] at found
        obtain ⟨first, afterFirst, read, found⟩ := found
        obtain ⟨_, text, rfl, spelled, _⟩ := sound.type true _ _ _ read
        have apart := lifetime?_eq_none_of_append unticked
        split at found
        · rename_i next comma
          simp only [Option.bind_eq_some_iff, Prod.exists] at found
          obtain ⟨others, trailing, listed, finished⟩ := found
          cases finished
          obtain ⟨spacing, pos', rfl⟩ := eat?_single_iff.mp comma
          obtain ⟨_, remaining⟩ := recognizes_commaList sound listed
          exact ⟨_, [_], rfl, .tuple apart spelled remaining, Ending.shut_fits _⟩
        · split at found
          · rename_i ended
            rw [List.isEmpty_iff] at ended
            subst ended
            rw [List.append_nil]
            split at found
            · rename_i bound taken
              split at taken
              · rename_i sum
                rw [Bool.and_eq_true] at sum
                obtain ⟨rfl, plus⟩ := sum
                simp only [Option.bind_eq_some_iff, Prod.exists] at found
                obtain ⟨others, next, more, finished⟩ := found
                cases finished
                obtain ⟨ending, text', rfl, remaining, fits⟩ :=
                  recognizes_strictBounds sound (Nat.le_refl _) (Ending.shut_fits _) more
                have some := ne_nil_of_plus remaining fits plus
                exact ⟨_, _, rfl, .parenSum apart spelled taken some remaining, fits⟩
              · cases taken
            · rename_i taken
              cases found
              refine ⟨_, [_], rfl, .parens apart spelled, ?_, nofun⟩
              intro takes
              rw [Bool.and_eq_true] at takes
              obtain ⟨rfl, bound⟩ := takes
              cases plus : eat? ['+'] rest with
              | none => rfl
              | some next =>
                  simp only [nextIs, plus, Option.isSome_some, Bool.true_and, if_true] at taken
                  rw [taken] at bound
                  cases bound
          · cases found

omit sound in
theorem takes_bracketed {plus : Bool} {inner rest after : Tokens} {pos : Nat} {type : TypeExpr}
    (sound : parts.Sound) (found : parts.bracketed inner rest = some (type, after)) :
    Takes (.type plus type) (.group .bracket inner pos :: rest) after := by
  simp only [bracketed, Option.bind_eq_bind, Option.bind_eq_some_iff, Prod.exists] at found
  obtain ⟨item, afterItem, read, found⟩ := found
  obtain ⟨_, text, rfl, spelled, _⟩ := sound.type true _ _ _ read
  split at found
  · cases found
    rw [List.append_nil]
    exact ⟨_, [_], rfl, .slice spelled, Ending.shut_fits _⟩
  · simp only [Option.bind_eq_some_iff] at found
    obtain ⟨source, semicolon, length, lengthRead, finished⟩ := found
    cases finished
    obtain ⟨spacing, pos', rfl⟩ := eat?_single_iff.mp semicolon
    exact ⟨_, [_], rfl, .array spelled lengthRead, Ending.shut_fits _⟩

omit sound in
theorem param_of_optional {first : Bool} {tokens text after : Tokens} {name : Option String}
    {type : TypeExpr} {ending : Ending}
    (named : optional (paramName first) tokens = (name, text ++ after))
    (spelled : Spelling (.type true type) ending text) :
    ∃ ending head, tokens = head ++ after ∧ Spelling (.param first ⟨name, type⟩) ending head := by
  unfold optional at named
  cases found : paramName first tokens with
  | none =>
      rw [found] at named
      cases named
      exact ⟨_, _, rfl, .bareParam spelled⟩
  | some result =>
      obtain ⟨word, next⟩ := result
      rw [found] at named
      cases named
      obtain ⟨pos, colon, rfl, allowed, lone⟩ := paramName_eq_some found
      obtain ⟨tree, others, rfl⟩ := List.exists_cons_of_ne_nil spelled.startsText.ne_nil
      cases lone with
      | alone => exact ⟨_, _, rfl, .namedParam allowed .alone spelled⟩
      | joint single =>
          refine ⟨_, _, rfl, .namedParam allowed (.joint ?_) spelled⟩
          rintro spacing start more same
          cases same
          exact single _ _ _ rfl

theorem recognizes_params {first : Bool} {limit : Nat} {tokens : Tokens} {values : List Param}
    {trailing : Bool} {further : Option (Option String × Bool)}
    (found : parts.params first limit tokens = some (values, trailing, further)) :
    ∃ ending, Spelling (.params first values trailing further) ending tokens := by
  induction limit generalizing first tokens values trailing further with
  | zero =>
      cases tokens with
      | nil =>
          cases found
          exact ⟨_, .noParams⟩
      | cons tree rest => cases found
  | succ limit ih =>
      cases tokens with
      | nil =>
          cases found
          exact ⟨_, .noParams⟩
      | cons tree rest =>
          unfold params at found
          split at found
          · rename_i dots
            cases found
            exact ⟨_, .furtherParams (variadic_of_variadic? dots)⟩
          · cases named : optional (paramName first) (tree :: rest) with
            | mk name next =>
                rw [named] at found
                simp only [Option.bind_eq_bind, Option.bind_eq_some_iff, Prod.exists] at found
                obtain ⟨type, after, read, found⟩ := found
                obtain ⟨_, text, rfl, spelled, _⟩ := sound.type true _ _ _ read
                obtain ⟨_, head, whole, param⟩ := param_of_optional named spelled
                rw [whole]
                split at found
                · cases found
                  rw [List.append_nil]
                  exact ⟨_, .lastParam param⟩
                · simp only [Option.bind_eq_some_iff, Prod.exists] at found
                  obtain ⟨more, comma, others, closed, further', listed, finished⟩ := found
                  cases finished
                  obtain ⟨spacing, pos, rfl⟩ := eat?_single_iff.mp comma
                  obtain ⟨_, remaining⟩ := ih listed
                  exact ⟨_, .moreParams param remaining⟩

theorem takes_functionType {plus : Bool} {binder : Option Binder} {before tokens rest : Tokens}
    {type : TypeExpr} (bindings : Bindings binder before)
    (found : parts.functionType binder tokens = some (type, rest)) :
    Takes (.type plus type) (before ++ tokens) rest := by
  unfold functionType at found
  cases marked : flag (word? "unsafe") tokens with
  | mk isUnsafe afterMark =>
      cases called : abi afterMark with
      | mk convention afterAbi =>
          rw [marked] at found
          dsimp only at found
          rw [called] at found
          simp only [Option.bind_eq_bind, Option.bind_eq_some_iff, Prod.exists] at found
          obtain ⟨afterWord, keyword, inner, afterGroup, group, params, trailing, further, listed,
            found⟩ := found
          obtain ⟨safety, rfl, safe⟩ := keyword_of_flag marked
          obtain ⟨calling, rfl, abi⟩ := convention_of_abi called
          obtain ⟨pos, rfl⟩ := word?_eq_some_iff.mp keyword
          obtain ⟨pos', rfl⟩ := group?_eq_some_iff.mp group
          obtain ⟨_, paramsSpelled⟩ := recognizes_params sound listed
          cases arrow : eat? ['-', '>'] afterGroup with
          | none =>
              rw [arrow] at found
              simp only [Option.bind_eq_some_iff, Prod.exists] at found
              obtain ⟨output, after, same, finished⟩ := found
              cases same
              cases finished
              refine ⟨_, before ++ (safety ++ (calling ++ .ident "fn" pos ::
                .group .paren inner pos' :: [])), ?_,
                .function bindings safe abi paramsSpelled .noOutput, Ending.shut_fits _⟩
              simp only [List.append_assoc, List.cons_append, List.nil_append]
          | some next =>
              rw [arrow] at found
              simp only [Option.bind_eq_some_iff, Prod.exists] at found
              obtain ⟨output, afterOutput, read, _, after, same, finished⟩ := found
              cases same
              cases finished
              obtain ⟨start, spacing, start', rfl⟩ := eat?_pair_iff.mp arrow
              obtain ⟨ending, text, rfl, spelled, fits⟩ := sound.type false _ _ _ read
              refine ⟨_, before ++ (safety ++ (calling ++ .ident "fn" pos ::
                .group .paren inner pos' :: .punct '-' .joint start ::
                  .punct '>' spacing start' :: text)), ?_,
                .function bindings safe abi paramsSpelled (.someOutput spelled), fits⟩
              simp only [List.append_assoc, List.cons_append]

theorem takes_reference {plus : Bool} {spacing : Spacing} {pos : Nat} {tokens rest : Tokens}
    {type : TypeExpr} (found : parts.reference tokens = some (type, rest)) :
    Takes (.type plus type) (.punct '&' spacing pos :: tokens) rest := by
  unfold reference at found
  cases named : optional lifetime? tokens with
  | mk name afterName =>
      cases marked : flag (word? "mut") afterName with
      | mk mutable next =>
          rw [named] at found
          dsimp only at found
          rw [marked] at found
          simp only [Option.bind_eq_bind, Option.bind_eq_some_iff, Prod.exists] at found
          obtain ⟨target, after, read, finished⟩ := found
          cases finished
          obtain ⟨life, rfl, lifetime, unticked⟩ := named_of_optional named
          obtain ⟨access, rfl, kind⟩ := keyword_of_flag marked
          obtain ⟨ending, text, rfl, spelled, fits⟩ := sound.type false _ _ _ read
          have apart : name = none → lifetime? (access ++ text) = none := by
            intro absent
            have later := unticked absent
            rw [← List.append_assoc] at later
            exact lifetime?_eq_none_of_append later
          refine ⟨_, .punct '&' spacing pos :: (life ++ (access ++ text)), ?_,
            .reference lifetime kind apart spelled, fits⟩
          simp only [List.append_assoc, List.cons_append]

theorem takes_pointer {plus : Bool} {spacing : Spacing} {pos : Nat} {tokens rest : Tokens}
    {type : TypeExpr} (found : parts.pointer tokens = some (type, rest)) :
    Takes (.type plus type) (.punct '*' spacing pos :: tokens) rest := by
  unfold pointer at found
  cases keyword : word? "const" tokens with
  | some next =>
      rw [keyword] at found
      simp only [Option.bind_eq_bind, Option.bind_eq_some_iff, Prod.exists] at found
      obtain ⟨target, after, read, finished⟩ := found
      cases finished
      obtain ⟨pos', rfl⟩ := word?_eq_some_iff.mp keyword
      obtain ⟨ending, text, rfl, spelled, fits⟩ := sound.type false _ _ _ read
      refine ⟨_, .punct '*' spacing pos :: .ident "const" pos' :: text, rfl, ?_, fits⟩
      exact .pointer spelled
  | none =>
      rw [keyword] at found
      simp only [Option.bind_eq_bind, Option.bind_eq_some_iff, Prod.exists] at found
      obtain ⟨next, keyword, target, after, read, finished⟩ := found
      cases finished
      obtain ⟨pos', rfl⟩ := word?_eq_some_iff.mp keyword
      obtain ⟨ending, text, rfl, spelled, fits⟩ := sound.type false _ _ _ read
      refine ⟨_, .punct '*' spacing pos :: .ident "mut" pos' :: text, rfl, ?_, fits⟩
      exact .pointer spelled

theorem takes_wordType {plus : Bool} {name : String} {pos : Nat} {next rest : Tokens}
    {type : TypeExpr}
    (found : parts.wordType plus name (.ident name pos :: next) next = some (type, rest)) :
    Takes (.type plus type) (.ident name pos :: next) rest := by
  unfold wordType at found
  split at found
  · rename_i blank
    cases blank
    cases found
    exact ⟨_, [_], rfl, .infer, Ending.shut_fits _⟩
  · split at found
    · simp only [Option.bind_eq_bind, Option.bind_eq_some_iff, Prod.exists] at found
      obtain ⟨names, after, bound, found⟩ := found
      obtain ⟨before, whole, bindings⟩ := bindings_of_binder bound
      rw [whole]
      unfold boundType at found
      split at found
      · split at found
        · exact takes_functionType sound bindings found
        · split at found
          · rename_i word
            exact takes_pathType sound bindings (.name word) (fun _ => ⟨_, _, _, word, rfl⟩) found
          · cases found
      · cases found
    · split at found
      · rename_i keyword
        cases keyword
        simp only [Option.bind_eq_bind, Option.bind_eq_some_iff, Prod.exists] at found
        obtain ⟨bounds, trailing, after, read, finished⟩ := found
        cases finished
        obtain ⟨trait, ending, text, rfl, spelled, fits⟩ := recognizes_traitSum sound read
        exact ⟨_, _, rfl, .object trait spelled, fits⟩
      · split at found
        · rename_i keyword
          cases keyword
          simp only [Option.bind_eq_bind, Option.bind_eq_some_iff, Prod.exists] at found
          obtain ⟨bounds, trailing, after, read, finished⟩ := found
          cases finished
          obtain ⟨trait, ending, text, rfl, spelled, fits⟩ := recognizes_traitSum sound read
          exact ⟨_, _, rfl, .existential trait spelled, fits⟩
        · split at found
          · exact takes_functionType sound .absent found
          · split at found
            · rename_i word
              exact takes_pathType sound .absent (.name word) nofun found
            · cases found

theorem recognizes_typeStep (plus : Bool) : Recognizes (parts.typeStep plus) (.type plus) := by
  intro tokens value rest found
  unfold typeStep at found
  split at found
  · exact takes_wordType sound found
  · exact takes_parenthesised sound found
  · exact takes_bracketed sound found
  · exact takes_reference sound found
  · exact takes_pointer sound found
  · exact takes_qualifiedRest sound found
  · cases found
    exact ⟨_, [_], rfl, .never, Ending.shut_fits _⟩
  · simp only [Option.bind_eq_bind, Option.bind_eq_some_iff, Prod.exists] at found
    obtain ⟨bounds, trailing, after, read, finished⟩ := found
    cases finished
    obtain ⟨trait, ending, text, whole, spelled, fits⟩ := recognizes_traitSum sound read
    have ticked : (lifetime? text).isSome = true := by
      cases spelled.begins with
      | lifetime => rfl
      | group => cases whole
      | trait starts =>
          cases starts with
          | path starts => cases starts <;> cases whole
          | question => cases whole
          | binder => cases whole
    rw [whole]
    exact ⟨_, _, rfl, .tickedType ticked trait spelled, fits⟩
  · exact takes_pathType sound .absent (.mark (by decide)) nofun found
  · cases found

theorem stopped_of_pathType {plus : Bool} {binder : Option Binder} {tokens rest : Tokens}
    {path : Path} (found : parts.pathType plus binder tokens = some (.path path, rest)) :
    Stopped rest := by
  simp only [pathType, Option.bind_eq_bind, Option.bind_eq_some_iff, Prod.exists] at found
  obtain ⟨path, afterPath, read, found⟩ := found
  split at found
  · cases found
  · cases found
  · split at found
    · simp only [Option.bind_eq_some_iff, Prod.exists] at found
      obtain ⟨_, _, _, _, finished⟩ := found
      cases finished
    · split at found
      · cases found
      · cases found
        exact (recognizes_pathStep sound read).1

theorem stopped_of_typeStep {plus : Bool} {tokens rest : Tokens} {path : Path}
    (found : parts.typeStep plus tokens = some (.path path, rest)) : Stopped rest := by
  obtain ⟨_, text, rfl, spelled, _⟩ := recognizes_typeStep sound plus _ _ _ found
  cases spelled with
  | pathType starts inner =>
      cases inner.begins with
      | word =>
          cases starts with
          | name word =>
              change parts.wordType plus _ _ _ = _ at found
              rw [wordType_eq parts plus word] at found
              exact stopped_of_pathType sound found
      | colons => exact stopped_of_pathType sound found

end Parts

theorem sound_rounds (count : Nat) : (rounds count).Sound := by
  induction count with
  | zero =>
      constructor
      · intro plus tokens value rest found
        cases found
      · intro tokens value rest found
        cases found
      · intro plus tokens path rest found
        cases found
  | succ count ih =>
      refine ⟨recognizes_typeStep ih, ?_, fun _ _ _ _ => stopped_of_typeStep ih⟩
      intro tokens path rest found
      obtain ⟨_, ending, text, whole, spelled⟩ := recognizes_pathStep ih found
      cases spelled with
      | path root steps => exact ⟨_, _, whole, .path root steps, Ending.shut_fits _⟩

end TypeReader

theorem TypeExpr.suffix_of_read {tokens rest : Tokens} {type : TypeExpr}
    (found : TypeExpr.read tokens = some (type, rest)) : rest <:+ tokens := by
  rw [TypeExpr.read] at found
  obtain ⟨_, text, rfl, _⟩ := (TypeReader.sound_rounds _).type true _ _ _ found
  exact List.suffix_append text rest

end TypeConcepts
