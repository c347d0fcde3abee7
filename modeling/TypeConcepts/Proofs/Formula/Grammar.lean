import TypeConcepts.Concept.Formula
import TypeConcepts.Proofs.Token.Reader

/-!
The grammar of formulas, said without any reader, and its agreement with the readers.

The infix rules of the grammar are left recursive, while a reader takes the first operand and then
loops. Both meet in one statement: to read a part that the grammar derives is to enter the loop with
that part already read.
-/

namespace TypeConcepts

namespace Formula

variable {α : Type}

/-- How tightly a formula holds together: a sum of alternatives, a product of factors, or a single
operand. -/
inductive Rank where
  | alternatives
  | factors
  | operand

/-- The signs and leaves of a grammar: which token lists begin with one, and what is left then. -/
structure Terminals (α : Type) where
  negation : Tokens → Tokens → Prop
  conjunction : Tokens → Tokens → Prop
  disjunction : Tokens → Tokens → Prop
  leaf : Tokens → α → Tokens → Prop

/-- The token list begins with the text of the formula, which leaves `rest`. -/
inductive Derives (terminals : Terminals α) : Rank → Tokens → Formula α → Tokens → Prop
  | factors {tokens rest : Tokens} {formula : Formula α}
      (only : Derives terminals .factors tokens formula rest) :
      Derives terminals .alternatives tokens formula rest
  | or {tokens middle next rest : Tokens} {left right : Formula α}
      (first : Derives terminals .alternatives tokens left middle)
      (sign : terminals.disjunction middle next)
      (second : Derives terminals .factors next right rest) :
      Derives terminals .alternatives tokens (.or left right) rest
  | operand {tokens rest : Tokens} {formula : Formula α}
      (only : Derives terminals .operand tokens formula rest) :
      Derives terminals .factors tokens formula rest
  | and {tokens middle next rest : Tokens} {left right : Formula α}
      (first : Derives terminals .factors tokens left middle)
      (sign : terminals.conjunction middle next)
      (second : Derives terminals .operand next right rest) :
      Derives terminals .factors tokens (.and left right) rest
  | not {tokens next rest : Tokens} {operand : Formula α}
      (sign : terminals.negation tokens next)
      (inner : Derives terminals .operand next operand rest) :
      Derives terminals .operand tokens (.not operand) rest
  | group {inner rest : Tokens} {pos : Nat} {formula : Formula α}
      (whole : Derives terminals .alternatives inner formula []) :
      Derives terminals .operand (.group .paren inner pos :: rest) formula rest
  | leaf {tokens rest : Tokens} {value : α} (found : terminals.leaf tokens value rest) :
      Derives terminals .operand tokens (.leaf value) rest

/-! ### Readers that recognise a grammar -/

/-- Connectives and a reader of leaves that recognise the terminals of a grammar. The grammar's
signs are told apart by what they begin with, and a leaf begins with no sign of an operand. -/
structure Recognises (signs : Connectives) (leaf : Reader α) (terminals : Terminals α) : Prop where
  negation : ∀ tokens rest, signs.negation tokens = some rest ↔ terminals.negation tokens rest
  conjunction : ∀ tokens rest,
    signs.conjunction tokens = some rest ↔ terminals.conjunction tokens rest
  disjunction : ∀ tokens rest,
    signs.disjunction tokens = some rest ↔ terminals.disjunction tokens rest
  leaf : ∀ tokens value rest, terminals.leaf tokens value rest ↔
    signs.negation tokens = none ∧ group? .paren tokens = none ∧ leaf tokens = some (value, rest)
  ungrouped : ∀ inner pos rest, signs.negation (.group .paren inner pos :: rest) = none
  apart : ∀ tokens rest, terminals.disjunction tokens rest → signs.conjunction tokens = none
  negationConsumes : ∀ tokens rest, terminals.negation tokens rest → Consumes tokens rest
  conjunctionConsumes : ∀ tokens rest, terminals.conjunction tokens rest → Consumes tokens rest
  disjunctionConsumes : ∀ tokens rest, terminals.disjunction tokens rest → Consumes tokens rest
  leafSuffix : ∀ tokens value rest, terminals.leaf tokens value rest → rest <:+ tokens

section Agreement

variable {signs : Connectives} {leaf : Reader α} {terminals : Terminals α}

theorem Derives.suffix (recognises : Recognises signs leaf terminals) {rank : Rank}
    {tokens rest : Tokens} {formula : Formula α}
    (derivation : Derives terminals rank tokens formula rest) : rest <:+ tokens := by
  induction derivation with
  | factors only ih => exact ih
  | operand only ih => exact ih
  | or first sign second ihFirst ihSecond =>
      have signSuffix := (recognises.disjunctionConsumes _ _ sign).suffix
      exact (ihSecond.trans signSuffix).trans ihFirst
  | and first sign second ihFirst ihSecond =>
      have signSuffix := (recognises.conjunctionConsumes _ _ sign).suffix
      exact (ihSecond.trans signSuffix).trans ihFirst
  | not sign inner ih =>
      exact ih.trans (recognises.negationConsumes _ _ sign).suffix
  | group whole ih => exact List.suffix_cons _ _
  | leaf found => exact recognises.leafSuffix _ _ _ found

private theorem sign_nil {sign : Tokens → Option Tokens} {begins : Tokens → Tokens → Prop}
    (found_iff : ∀ tokens rest, sign tokens = some rest ↔ begins tokens rest)
    (consumes : ∀ tokens rest, begins tokens rest → Consumes tokens rest) : sign [] = none := by
  cases found : sign [] with
  | none => rfl
  | some rest =>
      have shorter := (consumes [] rest ((found_iff _ _).mp found)).length_lt
      exact absurd shorter (Nat.not_lt_zero _)

private theorem conjunction_nil (recognises : Recognises signs leaf terminals) :
    signs.conjunction [] = none :=
  sign_nil recognises.conjunction recognises.conjunctionConsumes

private theorem disjunction_nil (recognises : Recognises signs leaf terminals) :
    signs.disjunction [] = none :=
  sign_nil recognises.disjunction recognises.disjunctionConsumes

private theorem moreAnd_stop {bound : Nat} {formula : Formula α} {tokens : Tokens}
    (positive : 0 < bound) (stop : signs.conjunction tokens = none) :
    moreAnd signs leaf bound formula tokens = some (formula, tokens) := by
  cases bound with
  | zero => exact absurd positive (Nat.lt_irrefl 0)
  | succ bound => rw [moreAnd, stop]

private theorem moreOr_stop {bound : Nat} {formula : Formula α} {tokens : Tokens}
    (positive : 0 < bound) (stop : signs.disjunction tokens = none) :
    moreOr signs leaf bound formula tokens = some (formula, tokens) := by
  cases bound with
  | zero => exact absurd positive (Nat.lt_irrefl 0)
  | succ bound => rw [moreOr, stop]

/-- What a derivation means for the readers, with enough steps allowed: an operand is read, and
reading a sum or a product comes down to its loop, with enough steps left for what follows. -/
def Reached (signs : Connectives) (leaf : Reader α) :
    Rank → Tokens → Formula α → Tokens → Prop
  | .operand, tokens, formula, rest =>
      ∀ bound, 6 * TokenTree.sizes tokens + 2 ≤ bound →
        readUnary signs leaf bound tokens = some (formula, rest)
  | .factors, tokens, formula, rest =>
      ∀ bound, 6 * TokenTree.sizes tokens + 3 ≤ bound →
        ∃ left, 6 * TokenTree.sizes rest + 2 ≤ left ∧
          readAnd signs leaf bound tokens = moreAnd signs leaf left formula rest
  | .alternatives, tokens, formula, rest =>
      signs.conjunction rest = none →
        ∀ bound, 6 * TokenTree.sizes tokens + 4 ≤ bound →
          ∃ left, 6 * TokenTree.sizes rest + 2 ≤ left ∧
            readOr signs leaf bound tokens = moreOr signs leaf left formula rest

private theorem reached_factors {tokens rest : Tokens} {formula : Formula α}
    (suffix : rest <:+ tokens) (only : Reached signs leaf .factors tokens formula rest) :
    Reached signs leaf .alternatives tokens formula rest := by
  intro stop bound enough
  have within := TokenTree.sizes_le_of_suffix suffix
  cases bound with
  | zero => omega
  | succ bound =>
      obtain ⟨steps, enoughSteps, entered⟩ := only bound (by omega)
      -- With no sign of a product ahead its loop ends at once, and that of the sum begins.
      have product : readAnd signs leaf bound tokens = some (formula, rest) := by
        rw [entered]
        exact moreAnd_stop (by omega) stop
      refine ⟨bound, by omega, ?_⟩
      rw [readOr, product]
      rfl

private theorem reached_or (recognises : Recognises signs leaf terminals)
    {tokens middle next rest : Tokens} {left right : Formula α}
    (sign : terminals.disjunction middle next) (suffix : rest <:+ next)
    (first : Reached signs leaf .alternatives tokens left middle)
    (second : Reached signs leaf .factors next right rest) :
    Reached signs leaf .alternatives tokens (.or left right) rest := by
  intro stop bound enough
  obtain ⟨steps, enoughSteps, entered⟩ := first (recognises.apart _ _ sign) bound enough
  have smaller := (recognises.disjunctionConsumes _ _ sign).sizes_lt
  have within := TokenTree.sizes_le_of_suffix suffix
  cases steps with
  | zero => omega
  | succ steps =>
      obtain ⟨others, enoughOthers, product⟩ := second steps (by omega)
      have factor : readAnd signs leaf steps next = some (right, rest) := by
        rw [product]
        exact moreAnd_stop (by omega) stop
      refine ⟨steps, by omega, ?_⟩
      rw [entered, moreOr, (recognises.disjunction _ _).mpr sign]
      simp only [factor, Option.bind_eq_bind, Option.bind_some]

private theorem reached_operand {tokens rest : Tokens} {formula : Formula α}
    (suffix : rest <:+ tokens) (only : Reached signs leaf .operand tokens formula rest) :
    Reached signs leaf .factors tokens formula rest := by
  intro bound enough
  have within := TokenTree.sizes_le_of_suffix suffix
  cases bound with
  | zero => omega
  | succ bound =>
      refine ⟨bound, by omega, ?_⟩
      rw [readAnd, only bound (by omega)]
      rfl

private theorem reached_and (recognises : Recognises signs leaf terminals)
    {tokens middle next rest : Tokens} {left right : Formula α}
    (sign : terminals.conjunction middle next) (suffix : rest <:+ next)
    (first : Reached signs leaf .factors tokens left middle)
    (second : Reached signs leaf .operand next right rest) :
    Reached signs leaf .factors tokens (.and left right) rest := by
  intro bound enough
  obtain ⟨steps, enoughSteps, entered⟩ := first bound enough
  have smaller := (recognises.conjunctionConsumes _ _ sign).sizes_lt
  have within := TokenTree.sizes_le_of_suffix suffix
  cases steps with
  | zero => omega
  | succ steps =>
      refine ⟨steps, by omega, ?_⟩
      rw [entered, moreAnd, (recognises.conjunction _ _).mpr sign]
      simp only [second steps (by omega), Option.bind_eq_bind, Option.bind_some]

private theorem reached_not (recognises : Recognises signs leaf terminals)
    {tokens next rest : Tokens} {operand : Formula α} (sign : terminals.negation tokens next)
    (inner : Reached signs leaf .operand next operand rest) :
    Reached signs leaf .operand tokens (.not operand) rest := by
  intro bound enough
  have smaller := (recognises.negationConsumes _ _ sign).sizes_lt
  cases bound with
  | zero => omega
  | succ bound =>
      rw [readUnary, (recognises.negation _ _).mpr sign]
      simp only [inner bound (by omega), Option.bind_eq_bind, Option.bind_some]

private theorem reached_group (recognises : Recognises signs leaf terminals)
    {inner rest : Tokens} {pos : Nat} {formula : Formula α}
    (whole : Reached signs leaf .alternatives inner formula []) :
    Reached signs leaf .operand (.group .paren inner pos :: rest) formula rest := by
  intro bound enough
  simp only [TokenTree.sizes, TokenTree.size] at enough
  obtain ⟨bound, rfl⟩ : ∃ fewer, bound = fewer + 2 := ⟨bound - 2, by omega⟩
  obtain ⟨steps, enoughSteps, entered⟩ :=
    whole (conjunction_nil recognises) bound (by omega)
  have inside : readOr signs leaf bound inner = some (formula, []) := by
    rw [entered]
    exact moreOr_stop (by omega) (disjunction_nil recognises)
  rw [readUnary, recognises.ungrouped]
  simp only [readPrimary, group?, if_true, inside]

private theorem reached_leaf (recognises : Recognises signs leaf terminals)
    {tokens rest : Tokens} {value : α} (found : terminals.leaf tokens value rest) :
    Reached signs leaf .operand tokens (.leaf value) rest := by
  intro bound enough
  obtain ⟨plain, ungrouped, read⟩ := (recognises.leaf _ _ _).mp found
  obtain ⟨bound, rfl⟩ : ∃ fewer, bound = fewer + 2 := ⟨bound - 2, by omega⟩
  rw [readUnary, plain]
  simp only [readPrimary, ungrouped, read, Option.bind_eq_bind, Option.bind_some]

/-- Every derivation is followed by the readers. -/
theorem Derives.reached (recognises : Recognises signs leaf terminals) {rank : Rank}
    {tokens rest : Tokens} {formula : Formula α}
    (derivation : Derives terminals rank tokens formula rest) :
    Reached signs leaf rank tokens formula rest := by
  induction derivation with
  | factors only ih => exact reached_factors (only.suffix recognises) ih
  | or first sign second ihFirst ihSecond =>
      exact reached_or recognises sign (second.suffix recognises) ihFirst ihSecond
  | operand only ih => exact reached_operand (only.suffix recognises) ih
  | and first sign second ihFirst ihSecond =>
      exact reached_and recognises sign (second.suffix recognises) ihFirst ihSecond
  | not sign inner ih => exact reached_not recognises sign ih
  | group whole ih => exact reached_group recognises ih
  | leaf found => exact reached_leaf recognises found

theorem Derives.readOr_eq (recognises : Recognises signs leaf terminals)
    {tokens rest : Tokens} {formula : Formula α} {bound : Nat}
    (derivation : Derives terminals .alternatives tokens formula rest)
    (noFactor : signs.conjunction rest = none) (noAlternative : signs.disjunction rest = none)
    (enough : 6 * TokenTree.sizes tokens + 4 ≤ bound) :
    readOr signs leaf bound tokens = some (formula, rest) := by
  obtain ⟨steps, enoughSteps, entered⟩ := derivation.reached recognises noFactor bound enough
  rw [entered]
  exact moreOr_stop (by omega) noAlternative

/-- The grammar is unambiguous: a whole token list is the text of at most one formula. -/
theorem Derives.whole_unique (recognises : Recognises signs leaf terminals)
    {tokens : Tokens} {left right : Formula α}
    (first : Derives terminals .alternatives tokens left [])
    (second : Derives terminals .alternatives tokens right []) : left = right := by
  have noFactor := conjunction_nil recognises
  have noAlternative := disjunction_nil recognises
  have readLeft := first.readOr_eq recognises noFactor noAlternative (Nat.le_refl _)
  have readRight := second.readOr_eq recognises noFactor noAlternative (Nat.le_refl _)
  have same := Option.some.inj (readLeft.symm.trans readRight)
  exact congrArg Prod.fst same

/-! ### What the readers return is derived -/

/-- With so many steps allowed, whatever a reader returns is derived. -/
structure Sound (signs : Connectives) (leaf : Reader α) (terminals : Terminals α)
    (bound : Nat) : Prop where
  alternatives : ∀ tokens formula rest, readOr signs leaf bound tokens = some (formula, rest) →
    Derives terminals .alternatives tokens formula rest
  moreAlternatives : ∀ start left tokens formula rest,
    Derives terminals .alternatives start left tokens →
    moreOr signs leaf bound left tokens = some (formula, rest) →
    Derives terminals .alternatives start formula rest
  factors : ∀ tokens formula rest, readAnd signs leaf bound tokens = some (formula, rest) →
    Derives terminals .factors tokens formula rest
  moreFactors : ∀ start left tokens formula rest,
    Derives terminals .factors start left tokens →
    moreAnd signs leaf bound left tokens = some (formula, rest) →
    Derives terminals .factors start formula rest
  operand : ∀ tokens formula rest, readUnary signs leaf bound tokens = some (formula, rest) →
    Derives terminals .operand tokens formula rest
  primary : ∀ tokens formula rest, signs.negation tokens = none →
    readPrimary signs leaf bound tokens = some (formula, rest) →
    Derives terminals .operand tokens formula rest

private theorem sound_moreOr (recognises : Recognises signs leaf terminals) {bound : Nat}
    (sound : Sound signs leaf terminals bound) {start tokens rest : Tokens}
    {left formula : Formula α} (sofar : Derives terminals .alternatives start left tokens)
    (more : moreOr signs leaf (bound + 1) left tokens = some (formula, rest)) :
    Derives terminals .alternatives start formula rest := by
  rw [moreOr] at more
  cases found : signs.disjunction tokens with
  | none =>
      rw [found] at more
      cases more
      exact sofar
  | some next =>
      simp only [found, Option.bind_eq_bind, Option.bind_eq_some_iff, Prod.exists] at more
      obtain ⟨right, middle, second, more⟩ := more
      have sign := (recognises.disjunction _ _).mp found
      have longer := Derives.or sofar sign (sound.factors _ _ _ second)
      exact sound.moreAlternatives _ _ _ _ _ longer more

private theorem sound_moreAnd (recognises : Recognises signs leaf terminals) {bound : Nat}
    (sound : Sound signs leaf terminals bound) {start tokens rest : Tokens}
    {left formula : Formula α} (sofar : Derives terminals .factors start left tokens)
    (more : moreAnd signs leaf (bound + 1) left tokens = some (formula, rest)) :
    Derives terminals .factors start formula rest := by
  rw [moreAnd] at more
  cases found : signs.conjunction tokens with
  | none =>
      rw [found] at more
      cases more
      exact sofar
  | some next =>
      simp only [found, Option.bind_eq_bind, Option.bind_eq_some_iff, Prod.exists] at more
      obtain ⟨right, middle, second, more⟩ := more
      have sign := (recognises.conjunction _ _).mp found
      have longer := Derives.and sofar sign (sound.operand _ _ _ second)
      exact sound.moreFactors _ _ _ _ _ longer more

private theorem sound_readUnary (recognises : Recognises signs leaf terminals) {bound : Nat}
    (sound : Sound signs leaf terminals bound) {tokens rest : Tokens} {formula : Formula α}
    (read : readUnary signs leaf (bound + 1) tokens = some (formula, rest)) :
    Derives terminals .operand tokens formula rest := by
  rw [readUnary] at read
  cases found : signs.negation tokens with
  | none =>
      rw [found] at read
      exact sound.primary _ _ _ found read
  | some next =>
      simp only [found, Option.bind_eq_bind, Option.bind_eq_some_iff, Prod.exists] at read
      obtain ⟨operand, after, inner, finished⟩ := read
      cases finished
      exact .not ((recognises.negation _ _).mp found) (sound.operand _ _ _ inner)

private theorem sound_readPrimary (recognises : Recognises signs leaf terminals) {bound : Nat}
    (sound : Sound signs leaf terminals bound) {tokens rest : Tokens} {formula : Formula α}
    (plain : signs.negation tokens = none)
    (read : readPrimary signs leaf (bound + 1) tokens = some (formula, rest)) :
    Derives terminals .operand tokens formula rest := by
  rw [readPrimary] at read
  cases grouped : group? .paren tokens with
  | none =>
      simp only [grouped, Option.bind_eq_bind, Option.bind_eq_some_iff, Prod.exists] at read
      obtain ⟨value, after, found, finished⟩ := read
      cases finished
      exact .leaf ((recognises.leaf _ _ _).mpr ⟨plain, grouped, found⟩)
  | some parts =>
      obtain ⟨inner, after⟩ := parts
      obtain ⟨pos, rfl⟩ := group?_eq_some_iff.mp grouped
      rw [grouped] at read
      simp only at read
      split at read
      next inside =>
          cases read
          exact .group (sound.alternatives _ _ _ inside)
      next => contradiction

theorem Recognises.sound (recognises : Recognises signs leaf terminals) (bound : Nat) :
    Sound signs leaf terminals bound := by
  induction bound with
  | zero => constructor <;> simp [readOr, moreOr, readAnd, moreAnd, readUnary, readPrimary]
  | succ bound ih =>
      refine ⟨?_, ?_, ?_, ?_, ?_, ?_⟩
      · intro tokens formula rest read
        simp only [readOr, Option.bind_eq_bind, Option.bind_eq_some_iff, Prod.exists] at read
        obtain ⟨left, middle, first, more⟩ := read
        exact ih.moreAlternatives _ _ _ _ _ (.factors (ih.factors _ _ _ first)) more
      · intro start left tokens formula rest sofar more
        exact sound_moreOr recognises ih sofar more
      · intro tokens formula rest read
        simp only [readAnd, Option.bind_eq_bind, Option.bind_eq_some_iff, Prod.exists] at read
        obtain ⟨left, middle, first, more⟩ := read
        exact ih.moreFactors _ _ _ _ _ (.operand (ih.operand _ _ _ first)) more
      · intro start left tokens formula rest sofar more
        exact sound_moreAnd recognises ih sofar more
      · intro tokens formula rest read
        exact sound_readUnary recognises ih read
      · intro tokens formula rest plain read
        exact sound_readPrimary recognises ih plain read

end Agreement

end Formula

end TypeConcepts
