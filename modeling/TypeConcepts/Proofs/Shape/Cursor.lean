import TypeConcepts.Proofs.Shape.Filling
import TypeConcepts.Token.Render

/-!
Filling as a loop over positions.

The loop keeps a position in the tokens, the tokens filled so far and the holes found so far. Here
every access to a position, every slice and every step back from a depth is checked, and a failed
check is no answer. No check fails, and the answer is the one of filling.
-/

namespace TypeConcepts

open TokenTree

namespace Shape

/-- The tokens between two positions, which must be in order and within the list. -/
def slice? (tokens : Tokens) (start stop : Nat) : Option Tokens :=
  if start ≤ stop ∧ stop ≤ tokens.length then some ((tokens.take stop).drop start) else none

/-- Whether the token before a position is the joint dash of an arrow. -/
def arrowAt? (tokens : Tokens) (i : Nat) : Option Bool :=
  if 0 < i then tokens[i - 1]?.map isJointDash else some false

def isColon : TokenTree → Bool
  | .punct ':' _ _ => true
  | _ => false

/-- A lone colon at a position. Nothing stands beyond the end, and looking there is allowed. -/
def colonAt (tokens : Tokens) (i : Nat) : Bool :=
  let separator := tokens[i]?.any TokenTree.isJoint && tokens[i + 1]?.any isColon
  tokens[i]?.any isColon && !separator

def followsTick (out : Tokens) : Bool := (out.getLast?.map isTick).getD false

/-- The position one past the bounds in which position `i` is reached with `depth` opening marks
unanswered; at most `bound` rounds are made. -/
def boundsEndAt : (bound : Nat) → (tokens : Tokens) → (depth i : Nat) → Option Nat
  | 0, _, _, _ => none
  | bound + 1, tokens, depth, i =>
      if i < tokens.length then
        match tokens[i]? with
        | none => none
        | some (.punct '<' _ _) => boundsEndAt bound tokens (depth + 1) (i + 1)
        | some (.punct '>' _ _) =>
            match arrowAt? tokens i with
            | none => none
            | some true => boundsEndAt bound tokens depth (i + 1)
            | some false =>
                match depth with
                | 0 => some i
                | outer + 1 => boundsEndAt bound tokens outer (i + 1)
        | some (.punct ',' _ _) =>
            if depth = 0 then some i else boundsEndAt bound tokens depth (i + 1)
        | some _ => boundsEndAt bound tokens depth (i + 1)
      else some i

/-- Fills the holes from position `i` on; at most `bound` rounds are made, those inside groups
included. -/
def fillAt : (bound : Nat) → (tokens : Tokens) → (i : Nat) → (out : Tokens) → List Hole →
    Option (Tokens × List Hole)
  | 0, _, _, _, _ => none
  | bound + 1, tokens, i, out, holes =>
      if i < tokens.length then
        match tokens[i]? with
        | none => none
        | some tree =>
            if isBlank tree && !followsTick out then
              let fresh := parameter holes.length
              if colonAt tokens (i + 1) then do
                let stop ← boundsEndAt (bound + 1) tokens 0 (i + 2)
                let bounds ← slice? tokens (i + 2) stop
                fillAt bound tokens stop (out ++ [word fresh]) (holes ++ [⟨fresh, some bounds⟩])
              else fillAt bound tokens (i + 1) (out ++ [word fresh]) (holes ++ [⟨fresh, none⟩])
            else
              match tree with
              | .group delimiter inner pos => do
                  let (filled, holes) ← fillAt bound inner 0 [] holes
                  fillAt bound tokens (i + 1) (out ++ [.group delimiter filled pos]) holes
              | tree => fillAt bound tokens (i + 1) (out ++ [tree]) holes
      else some (out, holes)

/-! ### No check fails -/

theorem arrowAt?_append (front rest : Tokens) :
    arrowAt? (front ++ rest) front.length = some (endsInDash front) := by
  rcases List.eq_nil_or_concat front with rfl | ⟨before, last, rfl⟩
  · rfl
  · rw [List.concat_eq_append, endsInDash_concat]
    simp [arrowAt?]

theorem startsBounds_eq (tokens : Tokens) :
    startsBounds tokens = (tokens[0]?.any isColon &&
      !(tokens[0]?.any TokenTree.isJoint && tokens[1]?.any isColon)) := by
  unfold startsBounds
  split
  · rfl
  · rename_i spacing pos rest single
    cases spacing with
    | alone => rfl
    | joint =>
        cases rest with
        | nil => rfl
        | cons next others =>
            have other : isColon next = false := by
              unfold isColon
              split
              · exact absurd rfl (single _ _ _ rfl)
              · rfl
            simp [other, show isColon (.punct ':' .joint pos) = true from rfl]
  · rename_i other
    cases tokens with
    | nil => rfl
    | cons tree rest =>
        have notColon : isColon tree = false := by
          unfold isColon
          split
          · exact absurd rfl (other _ _ _)
          · rfl
        simp [notColon]

theorem colonAt_append (front rest : Tokens) :
    colonAt (front ++ rest) front.length = startsBounds rest := by
  have here : (front ++ rest)[front.length]? = rest[0]? := by
    rw [List.getElem?_append_right (Nat.le_refl _), Nat.sub_self]
  have next : (front ++ rest)[front.length + 1]? = rest[1]? := by
    rw [List.getElem?_append_right (by omega), Nat.add_sub_cancel_left]
  rw [colonAt, here, next, startsBounds_eq]

theorem boundsEndAt_append {bound depth : Nat} {front rest : Tokens} (enough : rest.length < bound) :
    boundsEndAt bound (front ++ rest) depth front.length =
      some (front.length + boundsLength depth (endsInDash front) rest) := by
  induction bound generalizing depth front rest with
  | zero => cases enough
  | succ bound ih =>
      cases rest with
      | nil => simp [boundsEndAt, boundsLength]
      | cons tree others =>
          have within : front.length < (front ++ tree :: others).length := by simp
          have here : (front ++ tree :: others)[front.length]? = some tree := by simp
          have fewer : others.length < bound := by
            simp only [List.length_cons] at enough
            omega
          have onward : ∀ depth, boundsEndAt bound (front ++ tree :: others) depth
              (front.length + 1) =
                some (front.length + (boundsLength depth (isJointDash tree) others + 1)) := by
            intro depth
            have later := @ih depth (front ++ [tree]) others fewer
            simp only [List.append_assoc, List.singleton_append, List.length_append,
              List.length_singleton, endsInDash_concat] at later
            rw [later]
            congr 1
            omega
          unfold boundsEndAt
          rw [if_pos within, here, boundsLength]
          unfold nesting
          split
          · contradiction
          · rename_i same
            cases same
            exact onward (depth + 1)
          · rename_i same
            cases same
            rw [arrowAt?_append]
            cases endsInDash front with
            | true => exact onward depth
            | false =>
                cases depth with
                | zero => rfl
                | succ outer => exact onward outer
          · rename_i same
            cases same
            by_cases outermost : depth = 0
            · subst outermost
              rfl
            · simp only [outermost, if_false]
              exact onward depth
          · rename_i found opening closing comma same
            cases same
            split <;> simp_all

theorem boundsLength_le (depth : Nat) (dash : Bool) (tokens : Tokens) :
    boundsLength depth dash tokens ≤ tokens.length := by
  induction tokens generalizing depth dash with
  | nil => exact Nat.le_refl _
  | cons tree rest ih =>
      rw [boundsLength]
      cases nesting depth dash tree with
      | none => exact Nat.zero_le _
      | some depth => exact Nat.succ_le_succ (ih depth (isJointDash tree))

theorem bounds_append {bound : Nat} {front rest : Tokens} (starts : startsBounds rest = true)
    (enough : rest.length ≤ bound) :
    boundsEndAt bound (front ++ rest) 0 (front.length + 1) =
        some (front.length + boundsEnd rest 1) ∧
      slice? (front ++ rest) (front.length + 1) (front.length + boundsEnd rest 1) =
        some ((rest.take (boundsEnd rest 1)).drop 1) := by
  cases rest with
  | nil => cases starts
  | cons colon inside =>
      have stop := boundsEnd_cons colon inside
      have short := boundsLength_le 0 (isJointDash colon) inside
      constructor
      · have found := @boundsEndAt_append bound 0 (front ++ [colon]) inside
          (Nat.lt_of_succ_le enough)
        simp only [List.append_assoc, List.singleton_append, List.length_append,
          List.length_singleton, endsInDash_concat] at found
        rw [found, stop, Nat.add_assoc, Nat.add_comm 1]
      · rw [slice?, if_pos (by simp only [List.length_append, List.length_cons]; omega)]
        simp [stop, List.take_append, List.drop_append]

theorem boundsEnd_le {tokens : Tokens} (starts : startsBounds tokens = true) :
    boundsEnd tokens 1 ≤ tokens.length := by
  cases tokens with
  | nil => cases starts
  | cons colon inside =>
      rw [boundsEnd_cons, List.length_cons]
      exact Nat.succ_le_succ (boundsLength_le 0 (isJointDash colon) inside)

theorem isTick_word (name : String) : isTick (word name) = false := rfl

theorem followsTick_append (out : Tokens) (tree : TokenTree) :
    followsTick (out ++ [tree]) = isTick tree := by
  simp [followsTick]

theorem fillAt_append {bound : Nat} {front rest out : Tokens} {holes : List Hole}
    (enough : sizes rest < bound) :
    fillAt bound (front ++ rest) front.length out holes =
      some (out ++ (fillFrom holes.length 0 (followsTick out) rest).1,
        holes ++ (fillFrom holes.length 0 (followsTick out) rest).2) := by
  induction bound generalizing front rest out holes with
  | zero => cases enough
  | succ bound ih =>
      cases rest with
      | nil => simp [fillAt, fillFrom]
      | cons tree others =>
          have within : front.length < (front ++ tree :: others).length := by simp
          have here : (front ++ tree :: others)[front.length]? = some tree := by simp
          have positive := tree.size_pos
          rw [sizes] at enough
          -- A round that takes the tree and `skip` tokens behind it leaves the loop at the rest.
          have onward : ∀ (skip : Nat) (next : TokenTree) (found : List Hole),
              skip ≤ others.length →
              fillAt bound (front ++ tree :: others) (front.length + 1 + skip) (out ++ [next])
                  found =
                some (out ++ next :: (fillFrom found.length 0 (isTick next) (others.drop skip)).1,
                  found ++ (fillFrom found.length 0 (isTick next) (others.drop skip)).2) := by
            intro skip next found short
            have fewer := sizes_le_of_suffix (List.drop_suffix skip others)
            have later := @ih (front ++ tree :: others.take skip) (others.drop skip)
              (out ++ [next]) found (by omega)
            have position : (front ++ tree :: others.take skip).length =
                front.length + 1 + skip := by
              simp only [List.length_append, List.length_cons, List.length_take]
              omega
            rw [position, followsTick_append] at later
            simpa only [List.append_assoc, List.cons_append, List.nil_append,
              List.take_append_drop] using later
          unfold fillAt
          rw [if_pos within, here]
          dsimp only
          rw [fillFrom]
          have ahead : front ++ tree :: others = (front ++ [tree]) ++ others := by simp
          have past : (front ++ [tree]).length = front.length + 1 := by simp
          split
          · have colon := colonAt_append (front ++ [tree]) others
            rw [← ahead, past] at colon
            rw [colon]
            cases starts : startsBounds others with
            | false =>
                have later := onward 0 (word (parameter holes.length))
                  (holes ++ [⟨parameter holes.length, none⟩]) (Nat.zero_le _)
                simpa [isTick_word] using later
            | true =>
                have length := length_le_sizes others
                obtain ⟨stops, slice⟩ := @bounds_append (bound + 1) (front ++ [tree]) others starts
                  (by omega)
                rw [← ahead, past] at stops slice
                have later := onward (boundsEnd others 1) (word (parameter holes.length))
                  (holes ++ [⟨parameter holes.length,
                    some ((others.take (boundsEnd others 1)).drop 1)⟩])
                  (boundsEnd_le starts)
                simp only [if_true, stops, slice, Option.bind_eq_bind, Option.bind_some, later,
                  fillFrom_drop _ (boundsEnd others 1), isTick_word]
                simp
          · cases tree with
            | group delimiter inner pos =>
                rw [size] at enough
                have inside : fillAt bound inner 0 [] holes = _ := @ih [] inner [] holes (by omega)
                have later := onward 0
                  (.group delimiter (fillFrom holes.length 0 false inner).1 pos)
                  (holes ++ (fillFrom holes.length 0 false inner).2) (Nat.zero_le _)
                simp only [Nat.add_zero, List.drop_zero, List.length_append] at later
                simp only [inside, followsTick, List.getLast?_nil, Option.map_none,
                  Option.getD_none, List.nil_append, Option.bind_eq_bind, Option.bind_some, later,
                  fillTree, List.append_assoc]
                rfl
            | ident name pos =>
                simpa [fillTree] using onward 0 (.ident name pos) holes (Nat.zero_le _)
            | literal text pos =>
                simpa [fillTree] using onward 0 (.literal text pos) holes (Nat.zero_le _)
            | punct char spacing pos =>
                simpa [fillTree] using onward 0 (.punct char spacing pos) holes (Nat.zero_le _)

/-- The loop comes to an end without a failed check and fills as `takeHoles` does. -/
theorem fillAt_eq_takeHoles {bound : Nat} {tokens : Tokens} (enough : sizes tokens < bound) :
    fillAt bound tokens 0 [] [] = some (takeHoles tokens) :=
  @fillAt_append bound [] tokens [] [] enough

end Shape

end TypeConcepts
