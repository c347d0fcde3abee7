import TypeConcepts.Proofs.Check.Grammar

/-!
The leaves of an accepted request: how a single one is read, and where they come from.
-/

namespace TypeConcepts

open TokenTree

variable {α : Type} {type : Reader α}

namespace Formula

theorem read_leaf
    (suffix : ∀ tokens value rest, type tokens = some (value, rest) → rest <:+ tokens)
    {tokens rest : Tokens} {value : α} (starts : StartsLeaf tokens)
    (found : type tokens = some (value, rest)) (noFactor : sign '&' rest = none)
    (noAlternative : sign '|' rest = none) :
    read type tokens = some (.leaf value, rest) := by
  have derives : Derives (.ofTypes type) .alternatives tokens (.leaf value) rest :=
    .factors (.operand (.leaf ⟨starts, found⟩))
  exact derives.readOr_eq (recognises_ofTypes suffix) noFactor noAlternative (by omega)

theorem read_eq_none {tokens : Tokens} (starts : StartsLeaf tokens) (unread : type tokens = none) :
    read type tokens = none := by
  obtain ⟨plain, ungrouped⟩ := startsLeaf_iff.mp starts
  have negation : Connectives.simple.negation tokens = none := plain
  have primary : ∀ bound, readPrimary .simple type bound tokens = none := by
    intro bound
    cases bound with
    | zero => rw [readPrimary]
    | succ bound => simp only [readPrimary, ungrouped, unread, Option.bind_eq_bind, Option.bind_none]
  have unary : ∀ bound, readUnary .simple type bound tokens = none := by
    intro bound
    cases bound with
    | zero => rw [readUnary]
    | succ bound => simp only [readUnary, negation, primary]
  have factors : ∀ bound, readAnd .simple type bound tokens = none := by
    intro bound
    cases bound with
    | zero => rw [readAnd]
    | succ bound => simp only [readAnd, unary, Option.bind_eq_bind, Option.bind_none]
  simp only [read, readOr, factors, Option.bind_eq_bind, Option.bind_none]

/-- The value is read as a leaf somewhere. -/
def IsLeaf (type : Reader α) (value : α) : Prop :=
  ∃ tokens rest, StartsLeaf tokens ∧ type tokens = some (value, rest)

theorem Derives.isLeaf {rank : Rank} {tokens rest : Tokens} {formula : Formula α}
    (derivation : Derives (.ofTypes type) rank tokens formula rest) :
    ∀ leaf ∈ formula.leaves, IsLeaf type leaf := by
  induction derivation with
  | factors only ih => exact ih
  | operand only ih => exact ih
  | or first sign second ihFirst ihSecond | and first sign second ihFirst ihSecond =>
      intro leaf member
      rcases List.mem_append.mp member with left | right
      · exact ihFirst leaf left
      · exact ihSecond leaf right
  | not sign inner ih => exact ih
  | group whole ih => exact ih
  | leaf found =>
      intro leaf member
      obtain rfl := List.mem_singleton.mp member
      exact ⟨_, _, found⟩

end Formula

namespace Check

theorem Request.isLeaf {tokens : Tokens} {checks : List (Check α)}
    (request : Request type tokens checks) :
    ∀ check ∈ checks, ∀ leaf ∈ check.formula.leaves, Formula.IsLeaf type leaf := by
  have single : ∀ {text rest : Tokens} {check : Check α}, Derives type text check rest →
      ∀ leaf ∈ check.formula.leaves, Formula.IsLeaf type leaf := by
    rintro text rest check ⟨_, second⟩
    exact second.isLeaf
  induction request with
  | last only =>
      intro check member
      obtain rfl := List.mem_singleton.mp member
      exact single only
  | closed only =>
      intro check member
      obtain rfl := List.mem_singleton.mp member
      exact single only
  | more first others ih =>
      intro check member
      rcases List.mem_cons.mp member with rfl | later
      · exact single first
      · exact ih check later

theorem isLeaf_of_ofTokens? {tokens : Tokens} {checks : List (Check TypeExpr)}
    (accepted : Check.ofTokens? tokens = some checks) :
    ∀ check ∈ checks, ∀ leaf ∈ check.formula.leaves, Formula.IsLeaf TypeExpr.read leaf :=
  ((readAll_eq_some_iff (fun _ _ _ => TypeExpr.suffix_of_read) tokens checks).1.mp
    accepted).isLeaf

end Check

end TypeConcepts
