import Mathlib.Computability.StateTransition
import TypeConcepts.Proofs.Shape.Cursor
import TypeConcepts.Proofs.TypeExpr.Completeness

/-!
The search for the end of bounds, round by round.

A round looks at one token and counts the marks that are open. They are counted in integers here, so
that a mark closed without being open would show as a count below zero. The search comes to an end
where `boundsEnd` says, and that is right behind the bounds of a hole, whatever bounds they are.
-/

namespace TypeConcepts

open TokenTree

namespace Shape

/-- A position that the search has come to, and how many marks are open there. -/
structure Search where
  position : Nat
  depth : Int

namespace Search

/-- How many marks are open behind a token; nothing if the search ends before it. The `>` of an
`arrow` closes nothing. -/
def depthPast (depth : Int) (arrow : Bool) : TokenTree → Option Int
  | .punct '<' _ _ => some (depth + 1)
  | .punct '>' _ _ =>
      if arrow then some depth
      else if depth = 0 then none
      else some (depth - 1)
  | .punct ',' _ _ => if depth = 0 then none else some depth
  | _ => some depth

/-- One round. There is none at the end of the tokens or of the bounds. -/
def next (tokens : Tokens) (search : Search) : Option Search :=
  match tokens[search.position]? with
  | none => none
  | some tree =>
      (depthPast search.depth (arrowAt? tokens search.position == some true) tree).map
        fun depth => ⟨search.position + 1, depth⟩

theorem depthPast_natCast (depth : Nat) (arrow : Bool) (tree : TokenTree) :
    depthPast depth arrow tree = (nesting depth arrow tree).map Nat.cast := by
  unfold depthPast
  split
  · rfl
  · cases arrow with
    | true => rfl
    | false =>
        cases depth with
        | zero => rfl
        | succ outer =>
            have unequal : ((outer + 1 : Nat) : Int) ≠ 0 := by omega
            have fewer : ((outer + 1 : Nat) : Int) - 1 = outer := by omega
            simp only [Bool.false_eq_true, if_false, unequal, fewer, nesting, Option.map_some]
  · by_cases outermost : depth = 0
    · subst outermost
      rfl
    · have unequal : (depth : Int) ≠ 0 := by omega
      rw [if_neg unequal, nesting, if_neg outermost]
      rfl
  · rename_i noOpening noClosing noComma
    rw [nesting]
    · rfl
    · exact noOpening
    · exact noClosing
    · exact noComma

theorem next_append (front rest : Tokens) (tree : TokenTree) (depth : Nat) :
    next (front ++ tree :: rest) ⟨front.length, depth⟩ =
      (nesting depth (endsInDash front) tree).map fun depth => ⟨front.length + 1, depth⟩ := by
  have here : (front ++ tree :: rest)[front.length]? = some tree := by simp
  have arrow : (arrowAt? (front ++ tree :: rest) front.length == some true) = endsInDash front := by
    rw [arrowAt?_append]
    cases endsInDash front <;> rfl
  simp only [next, here, arrow, depthPast_natCast, Option.map_map]
  rfl

theorem next_end (front : Tokens) (depth : Int) : next front ⟨front.length, depth⟩ = none := by
  simp [next]

/-- A place that the search comes to from `start`: no mark has been closed that was not open, and
what is left of the bounds ends where they end for `start`. -/
inductive Underway (tokens : Tokens) (start : Nat) : Search → Prop
  | intro {front rest : Tokens} {depth : Nat} (split : tokens = front ++ rest)
      (forth : start ≤ front.length)
      (ends : front.length + boundsLength depth (endsInDash front) rest = boundsEnd tokens start) :
      Underway tokens start ⟨front.length, depth⟩

section Runs

variable {tokens : Tokens} {start : Nat} {search later : Search}

theorem underway_start (within : start ≤ tokens.length) : Underway tokens start ⟨start, 0⟩ := by
  have split := (List.take_append_drop start tokens).symm
  have length := List.length_take_of_le within
  have ends := boundsEnd_append (tokens.take start) (tokens.drop start)
  rw [← split, length] at ends
  have found : Underway tokens start ⟨(tokens.take start).length, (0 : Nat)⟩ :=
    .intro split (Nat.le_of_eq length.symm) (by rw [length]; exact ends.symm)
  rwa [length] at found

theorem Underway.next (underway : Underway tokens start search)
    (round : Search.next tokens search = some later) : Underway tokens start later := by
  cases underway with
  | @intro front rest depth split forth ends =>
      subst split
      cases rest with
      | nil =>
          rw [List.append_nil, next_end] at round
          cases round
      | cons tree others =>
          rw [next_append] at round
          rw [boundsLength] at ends
          cases deeper : nesting depth (endsInDash front) tree with
          | none =>
              rw [deeper] at round
              cases round
          | some depth' =>
              rw [deeper] at round ends
              cases round
              have length : (front ++ [tree]).length = front.length + 1 := by simp
              have found := @Underway.intro (front ++ tree :: others) start (front ++ [tree]) others
                depth' (by simp) (by omega)
                (by rw [endsInDash_concat, length]; dsimp only at ends; omega)
              rwa [length] at found

theorem Underway.run (underway : Underway tokens start search)
    (reaches : StateTransition.Reaches (Search.next tokens) search later) :
    Underway tokens start later := by
  induction reaches with
  | refl => exact underway
  | tail _ round ih => exact ih.next round

theorem Underway.bounds (underway : Underway tokens start search) :
    0 ≤ search.depth ∧ start ≤ search.position ∧ search.position ≤ boundsEnd tokens start := by
  cases underway with
  | intro split forth ends => exact ⟨Int.natCast_nonneg _, forth, by dsimp only; omega⟩

/-- From any place with no fewer than zero marks open the search comes to an end. -/
theorem exists_mem_eval (front rest : Tokens) (depth : Nat) :
    ∃ last, ⟨front.length + boundsLength depth (endsInDash front) rest, last⟩ ∈
      StateTransition.eval (next (front ++ rest)) ⟨front.length, depth⟩ := by
  induction rest generalizing front depth with
  | nil =>
      refine ⟨depth, StateTransition.mem_eval.mpr ⟨.refl, ?_⟩⟩
      rw [List.append_nil]
      exact next_end front depth
  | cons tree others ih =>
      have round := next_append front others tree depth
      rw [boundsLength]
      cases deeper : nesting depth (endsInDash front) tree with
      | none =>
          rw [deeper] at round
          exact ⟨depth, StateTransition.mem_eval.mpr ⟨.refl, round⟩⟩
      | some depth' =>
          rw [deeper] at round
          obtain ⟨last, ended⟩ := ih (front ++ [tree]) depth'
          rw [List.append_cons] at round ⊢
          refine ⟨last, ?_⟩
          rw [StateTransition.reaches_eval (.single round)]
          rw [endsInDash_concat, List.length_append, List.length_singleton] at ended
          rwa [Nat.add_assoc, Nat.add_comm 1] at ended

end Runs

end Search

/-! ### Bounds at a hole -/

def shell : TokenTree → TokenTree
  | .group delimiter _ pos => .group delimiter [] pos
  | tree => tree

theorem scan_map_shell (depth : Nat) (dash : Bool) (tokens : Tokens) :
    scan depth dash (tokens.map shell) = scan depth dash tokens := by
  induction tokens generalizing depth dash with
  | nil => rfl
  | cons tree rest ih =>
      have step : nesting depth dash (shell tree) = nesting depth dash tree := by
        cases tree <;> rfl
      have joint : isJointDash (shell tree) = isJointDash tree := by cases tree <;> rfl
      simp only [List.map_cons, scan, step, joint, ih]

/-- The tokens are bounds, perhaps none. What their groups hold is left open, so that a block in
argument position may hold any statements and an array may have any length. -/
def WritesBounds (inside : Tokens) : Prop :=
  ∃ bounds trailing ending text, Spelling (.limits bounds trailing) ending text ∧
    inside.map shell = text.map shell

/-- Up to what their groups hold, bounds are what is read as bounds. -/
theorem writesBounds_iff {inside : Tokens} :
    WritesBounds inside ↔ ∃ text, ValidBounds text ∧ inside.map shell = text.map shell := by
  constructor
  · rintro ⟨bounds, trailing, ending, text, spelled, same⟩
    refine ⟨text, ?_, same⟩
    cases spelled with
    | noLimits => exact .inl rfl
    | limits inner =>
        rw [ValidBounds, Option.isSome_iff_exists]
        exact .inr ⟨bounds, Bound.listOfTokens?_eq_some_iff.mpr ⟨_, _, inner⟩⟩
  · rintro ⟨text, rfl | read, same⟩
    · exact ⟨_, _, _, [], .noLimits, same⟩
    · obtain ⟨bounds, read⟩ := Option.isSome_iff_exists.mp read
      obtain ⟨trailing, ending, inner⟩ := Bound.listOfTokens?_eq_some_iff.mp read
      exact ⟨bounds, trailing, .shut, text, .limits inner, same⟩

theorem WritesBounds.scan_eq {inside : Tokens} (writes : WritesBounds inside) :
    scan 0 false inside = some (0, false) := by
  obtain ⟨text, valid, same⟩ := writesBounds_iff.mp writes
  rw [← scan_map_shell, same, scan_map_shell, valid.scan_eq]

/-- Behind a colon bounds end where they are over, if a comma, a closing mark or nothing follows. -/
theorem boundsEnd_behind_colon {inside rest : Tokens} (writes : WritesBounds inside)
    (stops : StopsAt [',', '>'] rest) (front : Tokens) (spacing : Spacing) (pos : Nat) :
    boundsEnd (front ++ .punct ':' spacing pos :: (inside ++ rest)) (front.length + 1) =
      front.length + 1 + inside.length := by
  have found := boundsEnd_append (front ++ [.punct ':' spacing pos]) (inside ++ rest)
  have plain : isJointDash (.punct ':' spacing pos) = false := rfl
  rw [List.append_assoc, List.length_append, List.length_singleton, endsInDash_concat, plain,
    boundsLength_append_of_scan writes.scan_eq, boundsLength_of_stopsAt stops] at found
  exact found

/-- The search for the end of bounds ends wherever it starts, at `boundsEnd`, without a mark closed
that is not open. Behind the colon of a hole it ends right behind the bounds that are written there.
-/
theorem boundsEnd_exact (tokens : Tokens) (start : Nat) (within : start ≤ tokens.length) :
    (∀ search, StateTransition.Reaches (Search.next tokens) ⟨start, 0⟩ search →
      0 ≤ search.depth ∧ start ≤ search.position ∧ search.position ≤ boundsEnd tokens start) ∧
    (∃ last, ⟨boundsEnd tokens start, last⟩ ∈
      StateTransition.eval (Search.next tokens) ⟨start, 0⟩) ∧
    start ≤ boundsEnd tokens start ∧ boundsEnd tokens start ≤ tokens.length ∧
    ∀ front spacing pos inside rest,
      tokens = front ++ .punct ':' spacing pos :: (inside ++ rest) → start = front.length + 1 →
      WritesBounds inside → StopsAt [',', '>'] rest →
      boundsEnd tokens start = start + inside.length := by
  have underway := Search.underway_start within
  have split := List.take_append_drop start tokens
  have length := List.length_take_of_le within
  have stop := boundsEnd_append (tokens.take start) (tokens.drop start)
  rw [split, length] at stop
  refine ⟨fun search reaches => (underway.run reaches).bounds, ?_, underway.bounds.2.2, ?_, ?_⟩
  · have ended := Search.exists_mem_eval (tokens.take start) (tokens.drop start) 0
    rw [split, length, ← stop] at ended
    exact ended
  · have short := boundsLength_le 0 (endsInDash (tokens.take start)) (tokens.drop start)
    rw [List.length_drop] at short
    omega
  · rintro front spacing pos inside rest rfl rfl writes stops
    exact boundsEnd_behind_colon writes stops front spacing pos

/-- The bounds `for<'a> Fn(&'a u8) -> Vec<u8> + Each<'a, -1, {..}, Item = <T as Iterator>::Item> +
?Sized`, for any block. -/
def manyBounds (block : Tokens) : Tokens :=
  [word "for", mark '<'] ++ lifetime "a" ++
    [mark '>', word "Fn", delimited .paren (mark '&' :: lifetime "a" ++ [word "u8"])] ++
    operator ['-', '>'] ++ [word "Vec", mark '<', word "u8", mark '>', mark '+', word "Each",
      mark '<'] ++ lifetime "a" ++ [mark ',', mark '-', .literal "1" 0, mark ',',
      delimited .brace block, mark ',', word "Item", mark '=', mark '<', word "T", word "as",
      word "Iterator", mark '>'] ++ operator [':', ':'] ++
    [word "Item", mark '>', mark '+', mark '?', word "Sized"]

/-- Such bounds at the hole of `Map<_: .., u8>`, with statements in the block. -/
theorem boundsEnd_exact_manyBounds :
    WritesBounds (manyBounds [word "let", word "x", mark ';', word "x"]) ∧
      boundsEnd ([word "Map", mark '<', word "_"] ++ mark ':' ::
        (manyBounds [word "let", word "x", mark ';', word "x"] ++ [mark ',', word "u8", mark '>']))
          4 = 42 := by
  have writes : WritesBounds (manyBounds [word "let", word "x", mark ';', word "x"]) :=
    writesBounds_iff.mpr ⟨manyBounds [.literal "0" 0], .inr (by decide), rfl⟩
  refine ⟨writes, ?_⟩
  exact (boundsEnd_exact _ 4 (by decide)).2.2.2.2 _ _ _ _ _ rfl rfl writes (.punct (by decide) _ _ _)

end Shape

end TypeConcepts
