import TypeConcepts.Token.Reader

/-!
What the small readers accept, and what is left after them.
-/

namespace TypeConcepts

/-- What is left after one token or more. -/
def Consumes (tokens rest : Tokens) : Prop := ∃ first taken, tokens = first :: taken ++ rest

theorem Consumes.suffix {tokens rest : Tokens} (consumes : Consumes tokens rest) :
    rest <:+ tokens := by
  obtain ⟨first, taken, rfl⟩ := consumes
  exact ⟨first :: taken, rfl⟩

theorem Consumes.length_lt {tokens rest : Tokens} (consumes : Consumes tokens rest) :
    rest.length < tokens.length := by
  obtain ⟨first, taken, rfl⟩ := consumes
  simp only [List.cons_append, List.length_cons, List.length_append]
  omega

theorem TokenTree.sizes_le_of_suffix {tokens rest : Tokens} (suffix : rest <:+ tokens) :
    sizes rest ≤ sizes tokens := by
  obtain ⟨taken, rfl⟩ := suffix
  rw [sizes_append]
  omega

theorem Consumes.sizes_lt {tokens rest : Tokens} (consumes : Consumes tokens rest) :
    TokenTree.sizes rest < TokenTree.sizes tokens := by
  obtain ⟨first, taken, rfl⟩ := consumes
  have positive := first.size_pos
  rw [List.cons_append, TokenTree.sizes, TokenTree.sizes_append]
  omega

theorem eat?_single_iff {char : Char} {tokens rest : Tokens} :
    eat? [char] tokens = some rest ↔
      ∃ spacing pos, tokens = .punct char spacing pos :: rest := by
  cases tokens with
  | nil => simp [eat?]
  | cons tree others =>
      cases tree with
      | punct found spacing pos =>
          by_cases same : found = char
          · subst found
            simp [eat?]
          · simp [eat?, same]
      | ident name pos => simp [eat?]
      | literal text pos => simp [eat?]
      | group delimiter inner pos => simp [eat?]

theorem eat?_pair_iff {first second : Char} {tokens rest : Tokens} :
    eat? [first, second] tokens = some rest ↔
      ∃ pos spacing pos',
        tokens = .punct first .joint pos :: .punct second spacing pos' :: rest := by
  cases tokens with
  | nil => simp [eat?]
  | cons tree others =>
      cases tree with
      | punct found spacing pos =>
          cases spacing with
          | alone => simp [eat?]
          | joint =>
              by_cases same : found = first
              · subst found
                simp only [eat?, if_true, eat?_single_iff]
                constructor
                · rintro ⟨spacing, pos', rfl⟩
                  exact ⟨pos, spacing, pos', rfl⟩
                · rintro ⟨_, spacing, pos', equal⟩
                  cases equal
                  exact ⟨spacing, pos', rfl⟩
              · simp [eat?, same]
      | ident name pos => simp [eat?]
      | literal text pos => simp [eat?]
      | group delimiter inner pos => simp [eat?]

theorem eat?_eq_none_of_single {char : Char} {more : List Char} {tokens : Tokens}
    (absent : eat? [char] tokens = none) : eat? (char :: more) tokens = none := by
  cases tokens with
  | nil => cases more <;> rfl
  | cons tree rest =>
      cases tree with
      | punct found spacing pos =>
          have different : found ≠ char := by
            rintro rfl
            simp [eat?] at absent
          cases more with
          | nil => exact absent
          | cons second later =>
              cases spacing with
              | alone => simp [eat?]
              | joint => simp [eat?, different]
      | ident name pos => cases more <;> simp [eat?]
      | literal text pos => cases more <;> simp [eat?]
      | group delimiter inner pos => cases more <;> simp [eat?]

/-- A sign of one character that does not begin the sign in which the follower is joint to it. -/
inductive Lone (char follower : Char) : Tokens → Tokens → Prop
  | alone {pos : Nat} {rest : Tokens} : Lone char follower (.punct char .alone pos :: rest) rest
  | joint {pos : Nat} {rest : Tokens}
      (single : ∀ spacing pos' others, rest ≠ .punct follower spacing pos' :: others) :
      Lone char follower (.punct char .joint pos :: rest) rest

theorem Lone.exists_punct {char follower : Char} {tokens rest : Tokens}
    (lone : Lone char follower tokens rest) :
    ∃ spacing pos, tokens = .punct char spacing pos :: rest := by
  cases lone with
  | alone => exact ⟨_, _, rfl⟩
  | joint single => exact ⟨_, _, rfl⟩

theorem Lone.consumes {char follower : Char} {tokens rest : Tokens}
    (lone : Lone char follower tokens rest) : Consumes tokens rest := by
  cases lone with
  | alone => exact ⟨_, [], rfl⟩
  | joint single => exact ⟨_, [], rfl⟩

theorem single?_eq_some_iff {char : Char} {longer : List Char} {tokens rest : Tokens} :
    single? char longer tokens = some rest ↔
      eat? longer tokens = none ∧ eat? [char] tokens = some rest := by
  unfold single? nextIs
  cases eat? longer tokens <;> simp

theorem single?_pair_iff {char follower : Char} {tokens rest : Tokens} :
    single? char [char, follower] tokens = some rest ↔ Lone char follower tokens rest := by
  rw [single?_eq_some_iff, eat?_single_iff]
  constructor
  · rintro ⟨notLonger, spacing, pos, rfl⟩
    cases spacing with
    | alone => exact .alone
    | joint =>
        refine .joint ?_
        rintro spacing pos' others rfl
        have longer : eat? [char, follower]
            (.punct char .joint pos :: .punct follower spacing pos' :: others) = some others :=
          eat?_pair_iff.mpr ⟨pos, spacing, pos', rfl⟩
        rw [notLonger] at longer
        cases longer
  · intro lone
    cases lone with
    | @alone pos _ =>
        refine ⟨?_, .alone, pos, rfl⟩
        simp [eat?]
    | @joint pos _ single =>
        refine ⟨?_, .joint, pos, rfl⟩
        cases found : eat? [char, follower] (.punct char .joint pos :: rest) with
        | none => rfl
        | some others =>
            obtain ⟨_, spacing, pos', equal⟩ := eat?_pair_iff.mp found
            cases equal
            exact absurd rfl (single spacing pos' others)

theorem group?_eq_some_iff {delimiter : Delimiter} {tokens inner rest : Tokens} :
    group? delimiter tokens = some (inner, rest) ↔
      ∃ pos, tokens = .group delimiter inner pos :: rest := by
  cases tokens with
  | nil => simp [group?]
  | cons tree others =>
      cases tree with
      | group found inside pos =>
          by_cases same : found = delimiter
          · subst found
            simp [group?]
          · simp [group?, same]
      | ident name pos => simp [group?]
      | literal text pos => simp [group?]
      | punct char spacing pos => simp [group?]

theorem word?_eq_some_iff {name : String} {tokens rest : Tokens} :
    word? name tokens = some rest ↔ ∃ pos, tokens = .ident name pos :: rest := by
  cases tokens with
  | nil => simp [word?]
  | cons tree others =>
      cases tree with
      | ident found pos =>
          by_cases same : found = name
          · subst found
            simp [word?]
          · simp [word?, same]
      | literal text pos => simp [word?]
      | punct char spacing pos => simp [word?]
      | group delimiter inner pos => simp [word?]

theorem lifetime?_eq_some_iff {name : String} {tokens rest : Tokens} :
    lifetime? tokens = some (name, rest) ↔
      ∃ pos pos', tokens = .punct '\'' .joint pos :: .ident name pos' :: rest := by
  constructor
  · intro found
    unfold lifetime? at found
    split at found
    · cases found
      exact ⟨_, _, rfl⟩
    · cases found
  · rintro ⟨pos, pos', rfl⟩
    rfl

theorem eq_some_of_whole? {α : Type} {read : Reader α} {tokens : Tokens} {value : α}
    (found : whole? read tokens = some value) : read tokens = some (value, []) := by
  unfold whole? at found
  split at found
  · rename_i taken
    cases found
    exact taken
  · cases found

section CommaList

variable {α : Type} {read : Reader α} {tokens rest : Tokens} {bound : Nat} {value : α}

theorem commaList_of_last (nonempty : tokens ≠ []) (found : read tokens = some (value, [])) :
    commaList read (bound + 1) tokens = some ([value], false) := by
  cases tokens with
  | nil => exact absurd rfl nonempty
  | cons first others => simp only [commaList, found, Option.bind_eq_bind, Option.bind_some]

theorem commaList_of_comma {spacing : Spacing} {pos : Nat} (nonempty : tokens ≠ [])
    (found : read tokens = some (value, .punct ',' spacing pos :: rest)) :
    commaList read (bound + 1) tokens =
      (commaList read bound rest).bind fun (values, trailing) =>
        some (value :: values, trailing || values.isEmpty) := by
  have comma : eat? [','] (.punct ',' spacing pos :: rest) = some rest :=
    eat?_single_iff.mpr ⟨spacing, pos, rfl⟩
  cases tokens with
  | nil => exact absurd rfl nonempty
  | cons first others => simp only [commaList, found, comma, Option.bind_eq_bind, Option.bind_some]

end CommaList

/-! ### What comes next -/

/-- Nothing comes next but one of the given marks. -/
def StopsAt (chars : List Char) (tokens : Tokens) : Prop :=
  tokens = [] ∨
    ∃ char spacing pos rest, char ∈ chars ∧ tokens = .punct char spacing pos :: rest

namespace StopsAt

variable {chars others : List Char} {tokens : Tokens}

theorem nil : StopsAt chars [] := .inl rfl

theorem punct {char : Char} (member : char ∈ chars) (spacing : Spacing) (pos : Nat)
    (rest : Tokens) : StopsAt chars (.punct char spacing pos :: rest) :=
  .inr ⟨char, spacing, pos, rest, member, rfl⟩

theorem mono (stops : StopsAt chars tokens) (within : chars ⊆ others) : StopsAt others tokens := by
  rcases stops with rfl | ⟨char, spacing, pos, rest, member, rfl⟩
  · exact nil
  · exact punct (within member) spacing pos rest

theorem eat?_eq_none {char : Char} {more : List Char} (stops : StopsAt chars tokens)
    (other : char ∉ chars) : eat? (char :: more) tokens = none := by
  refine eat?_eq_none_of_single ?_
  rcases stops with rfl | ⟨found, spacing, pos, rest, member, rfl⟩
  · rfl
  · have different : found ≠ char := fun same => other (same ▸ member)
    simp only [eat?, different, if_false]

end StopsAt

end TypeConcepts
