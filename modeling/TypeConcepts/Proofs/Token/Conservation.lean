import TypeConcepts.Shape.Hole
import TypeConcepts.Proofs.Token.Names

/-!
Text that is printed again with the same identifiers, each as often as it was written. Spacing,
commas and operators do not matter, and the names of lifetimes may be left out.

The pieces compose: what is printed for a text is followed from one piece to the next.
-/

namespace TypeConcepts

open TokenTree

mutual

def lifetimesOf (name : String) (ticked : Bool) : TokenTree → Nat
  | .ident identifier _ => if ticked then [plainName identifier].count name else 0
  | .group _ inner _ => lifetimesIn name false inner
  | .literal .. | .punct .. => 0

def lifetimesIn (name : String) (ticked : Bool) : Tokens → Nat
  | [] => 0
  | tree :: rest => lifetimesOf name ticked tree + lifetimesIn name (Shape.isTick tree) rest

end

section Lifetimes

variable (name : String)

theorem lifetimesIn_unticked_le (ticked : Bool) (tokens : Tokens) :
    lifetimesIn name false tokens ≤ lifetimesIn name ticked tokens := by
  cases tokens with
  | nil => exact Nat.le_refl 0
  | cons tree rest =>
      cases tree <;> cases ticked <;> simp [lifetimesIn, lifetimesOf]

theorem lifetimesIn_tail_le (tree : TokenTree) (rest : Tokens) :
    lifetimesOf name false tree + lifetimesIn name false rest ≤
      lifetimesIn name false (tree :: rest) := by
  have flagged := lifetimesIn_unticked_le name (Shape.isTick tree) rest
  rw [lifetimesIn]
  omega

theorem lifetimesIn_append_le (ticked : Bool) (tokens more : Tokens) :
    lifetimesIn name ticked tokens + lifetimesIn name false more ≤
      lifetimesIn name ticked (tokens ++ more) := by
  induction tokens generalizing ticked with
  | nil =>
      rw [lifetimesIn, Nat.zero_add, List.nil_append]
      exact lifetimesIn_unticked_le name ticked more
  | cons tree rest ih =>
      have later := ih (Shape.isTick tree)
      rw [List.cons_append, lifetimesIn, lifetimesIn]
      omega

mutual

theorem lifetimesOf_le_count (ticked : Bool) : ∀ tree : TokenTree,
    lifetimesOf name ticked tree ≤ tree.names.count name
  | .ident identifier _ => by
      rw [lifetimesOf, names]
      split <;> omega
  | .group _ inner _ => lifetimesIn_le_occurrences false inner
  | .literal .. | .punct .. => Nat.zero_le _

theorem lifetimesIn_le_occurrences (ticked : Bool) : ∀ tokens : Tokens,
    lifetimesIn name ticked tokens ≤ occurrences name tokens
  | [] => Nat.le_refl 0
  | tree :: rest => by
      rw [lifetimesIn, occurrences_cons]
      exact Nat.add_le_add (lifetimesOf_le_count ticked tree)
        (lifetimesIn_le_occurrences (Shape.isTick tree) rest)

end

end Lifetimes

variable {name : String}

/-- For the text in front of `rest` something is printed that mentions the name no more often than
the text does, and less often only where the name names a lifetime. -/
structure Keeps (name : String) (tokens printed rest : Tokens) : Prop where
  noMore : occurrences name printed + occurrences name rest ≤ occurrences name tokens
  noLess : occurrences name tokens + lifetimesIn name false rest ≤
    occurrences name printed + occurrences name rest + lifetimesIn name false tokens

namespace Keeps

variable {tokens next rest printed printed' : Tokens}

theorem refl (tokens : Tokens) : Keeps name tokens [] tokens := by
  constructor <;> simp

theorem trans (first : Keeps name tokens printed next) (second : Keeps name next printed' rest) :
    Keeps name tokens (printed ++ printed') rest := by
  obtain ⟨more, less⟩ := first
  obtain ⟨more', less'⟩ := second
  constructor <;> rw [occurrences_append] <;> omega

theorem as (keeps : Keeps name tokens printed rest)
    (same : occurrences name printed' = occurrences name printed) :
    Keeps name tokens printed' rest := by
  obtain ⟨more, less⟩ := keeps
  constructor <;> omega

theorem ident (identifier : String) (pos : Nat) (rest : Tokens) :
    Keeps name (.ident identifier pos :: rest) [word identifier] rest := by
  have tail := lifetimesIn_tail_le name (.ident identifier pos) rest
  constructor <;> simp only [occurrences_ident, occurrences_word, occurrences_nil] <;> omega

theorem literal (text : String) (pos : Nat) (rest : Tokens) :
    Keeps name (.literal text pos :: rest) [] rest := by
  have tail := lifetimesIn_tail_le name (.literal text pos) rest
  constructor <;> simp only [occurrences_literal, occurrences_nil] <;> omega

theorem punct (char : Char) (spacing : Spacing) (pos : Nat) (rest : Tokens) :
    Keeps name (.punct char spacing pos :: rest) [] rest := by
  have tail := lifetimesIn_tail_le name (.punct char spacing pos) rest
  constructor <;> simp only [occurrences_punct, occurrences_nil] <;> omega

theorem skip {char : Char} {spacing : Spacing} {pos : Nat}
    (later : Keeps name tokens printed rest) :
    Keeps name (.punct char spacing pos :: tokens) printed rest :=
  (punct char spacing pos tokens).trans later

theorem group {inner : Tokens} (inside : Keeps name inner printed []) (delimiter : Delimiter)
    (pos : Nat) (rest : Tokens) :
    Keeps name (.group delimiter inner pos :: rest) printed rest := by
  obtain ⟨more, less⟩ := inside
  have tail := lifetimesIn_tail_le name (.group delimiter inner pos) rest
  simp only [occurrences_nil, lifetimesIn, lifetimesOf] at more less tail
  constructor <;> simp only [occurrences_group, lifetimesIn, lifetimesOf] <;> omega

theorem self (tokens : Tokens) : Keeps name tokens tokens [] := by
  constructor <;> simp [lifetimesIn]

theorem append {more : Tokens} (first : Keeps name tokens printed [])
    (second : Keeps name more printed' rest) :
    Keeps name (tokens ++ more) (printed ++ printed') rest := by
  obtain ⟨noMore, noLess⟩ := first
  obtain ⟨noMore', noLess'⟩ := second
  have apart := lifetimesIn_append_le name false tokens more
  simp only [occurrences_nil, lifetimesIn] at noMore noLess
  constructor <;> rw [occurrences_append, occurrences_append] <;> omega

theorem lifetime (life : String) (pos pos' : Nat) (rest : Tokens) :
    Keeps name (.punct '\'' .joint pos :: .ident life pos' :: rest) (TokenTree.lifetime life)
      rest :=
  (ident _ _ _).skip.as (by simp [TokenTree.lifetime])

theorem skipLifetime (life : String) (pos pos' : Nat) (rest : Tokens) :
    Keeps name (.punct '\'' .joint pos :: .ident life pos' :: rest) [] rest := by
  have ticked : Shape.isTick (.punct '\'' .joint pos) = true := rfl
  have named : Shape.isTick (.ident life pos') = false := rfl
  constructor <;>
    simp only [occurrences_punct, occurrences_ident, occurrences_nil, lifetimesIn, lifetimesOf,
      ticked, named, if_true] <;>
    omega

end Keeps

end TypeConcepts
