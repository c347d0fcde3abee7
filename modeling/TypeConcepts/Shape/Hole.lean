import TypeConcepts.Token.Basic

/-!
Holes in a shape. Every lone `_` becomes a fresh parameter, numbered in reading order; the bounds
that follow it after a colon leave the shape and go to the parameter.

The work is done on tokens, because a hole with bounds is no type syntax. A `_` after a tick is an
elided lifetime and stays.
-/

namespace TypeConcepts

open TokenTree

/-- A parameter that stands for a hole, and the bounds written at the hole. -/
structure Hole where
  name : String
  bounds : Option Tokens

namespace Shape

def parameter (index : Nat) : String := "__S" ++ Nat.repr index

def isJointDash : TokenTree → Bool
  | .punct '-' .joint _ => true
  | _ => false

/-- How many opening marks are unanswered after a token inside bounds, or nothing if the token ends
them: a comma or a closing mark does when no opening mark is unanswered. The `>` of an arrow closes
nothing; `dash` tells whether the token before was the joint dash of one. -/
def nesting (depth : Nat) (dash : Bool) : TokenTree → Option Nat
  | .punct '<' _ _ => some (depth + 1)
  | .punct '>' _ _ =>
      if dash then some depth
      else match depth with
        | 0 => none
        | outer + 1 => some outer
  | .punct ',' _ _ => if depth = 0 then none else some depth
  | _ => some depth

def boundsLength (depth : Nat) (dash : Bool) : Tokens → Nat
  | [] => 0
  | tree :: rest =>
      match nesting depth dash tree with
      | none => 0
      | some depth => boundsLength depth (isJointDash tree) rest + 1

/-- The position one past the bounds that start at position `start`. -/
def boundsEnd (tokens : Tokens) (start : Nat) : Nat :=
  let dash := ((tokens.take start).getLast?.map isJointDash).getD false
  start + boundsLength 0 dash (tokens.drop start)

/-- A lone colon, and no half of a path separator. -/
def startsBounds : Tokens → Bool
  | .punct ':' .joint _ :: .punct ':' _ _ :: _ => false
  | .punct ':' _ _ :: _ => true
  | _ => false

def isBlank : TokenTree → Bool
  | .ident "_" _ => true
  | _ => false

def isTick : TokenTree → Bool
  | .punct '\'' _ _ => true
  | _ => false

mutual

def fillTree (count : Nat) : TokenTree → TokenTree × List Hole
  | .group delimiter inner pos =>
      let (filled, holes) := fillFrom count 0 false inner
      (.group delimiter filled pos, holes)
  | tree => (tree, [])

/-- Fills the holes of a token list. The first `skip` tokens belong to the bounds of a hole before
them; `ticked` tells whether a tick stands right before. -/
def fillFrom (count skip : Nat) (ticked : Bool) : Tokens → Tokens × List Hole
  | [] => ([], [])
  | tree :: rest =>
      match skip with
      | more + 1 => fillFrom count more false rest
      | 0 =>
        if isBlank tree && !ticked then
          let stop := if startsBounds rest then boundsEnd rest 1 else 0
          let bounds := if startsBounds rest then some ((rest.take stop).drop 1) else none
          let (filled, holes) := fillFrom (count + 1) stop false rest
          (word (parameter count) :: filled, ⟨parameter count, bounds⟩ :: holes)
        else
          let (first, inside) := fillTree count tree
          let (filled, holes) := fillFrom (count + inside.length) 0 (isTick tree) rest
          (first :: filled, inside ++ holes)

end

/-- The shape with a parameter in place of every hole, and the holes in reading order. -/
def takeHoles (tokens : Tokens) : Tokens × List Hole := fillFrom 0 0 false tokens

end Shape

end TypeConcepts
