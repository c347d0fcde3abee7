import TypeConcepts.Environment.Lifecycle
import TypeConcepts.Session.Effect
import TypeConcepts.Store.Assign

/-!
The code of the types of a session: what dropping, building, cloning, comparing and exchanging
values does.

A function here says what the code of a kind does if there is such code; whether there is any is a
question about the type.
-/

namespace TypeConcepts.Session

open Effect (log panic require)

namespace Value

def drop (value : Value) : Effect Unit :=
  match value.observed? with
  | some (kind, number) => log (.drop kind number)
  | none => pure ()

def default (kind : Kind) : Effect Value := do
  if (zero kind).observed?.isSome then log (.default kind)
  pure (zero kind)

/-- Cloning a negative number that is observed panics. -/
def clone (value : Value) : Effect Value :=
  match value.observed? with
  | some (kind, number) => do
      log (.clone kind number)
      require (0 ≤ number)
      pure value
  | none => pure value

/-- What a value becomes when another is cloned over it. All kinds but one clone afresh and then
drop the old value. -/
def cloneOver (target source : Value) : Effect Value :=
  match target, source with
  | .traced old, .traced new => do
      log (.cloneOver .traced old new)
      require (0 ≤ new)
      pure (.traced new)
  | target, source => do
      let value ← clone source
      drop target
      pure value

@[simp] theorem drop_result (value : Value) : value.drop.result = some () := by
  cases value <;> rfl

/-- A number that is cloned over another in place panics where its clone would. All other values
are cloned. -/
theorem cloneOver_result (old new : Value) : (old.cloneOver new).result = new.clone.result := by
  have afresh : (do let value ← new.clone; old.drop; pure value : Effect Value).result =
      new.clone.result := by
    simp only [Effect.bind_result, drop_result, Option.bind_some, Effect.pure_result]
    exact Option.bind_fun_some _
  cases old with
  | traced number =>
      cases new with
      | traced number' =>
          simp only [cloneOver, clone, observed?, Effect.bind_result]
          rfl
      | _ => exact afresh
  | _ => exact afresh

def equals (left right : Value) : Effect Bool := do
  match left.observed?, right.observed? with
  | some (kind, number), some (_, number') => log (.compare kind number number')
  | _, _ => pure ()
  pure (left == right)

/-- A number brought between two others. Below the least the least wins, whatever the greatest. -/
def between (least greatest number : Int64) : Int64 :=
  if number < least then least else if greatest < number then greatest else number

def clamp (least greatest : Int64) : Value → Value
  | .int number => .int (between least greatest number)
  | .rank number => .rank (between least greatest number)
  | value => value

def assignment : Store.Overwrite Effect Value where
  drop := drop
  cloneOver := cloneOver

def ofDigits (numbers : List Int64) : Int64 :=
  numbers.foldl (fun total number => total * 10 + number) 0

def convert? : Kind → Value → Option (Effect Value)
  | .rank, .int number => some (pure (.rank number))
  | .traced, .int number => some do
      log (.build .traced number)
      pure (.traced number)
  | .echo, .int number => some do
      log (.build .echo number)
      pure (.echo number)
  | .handle, .resource number => some do
      log (.build .handle number)
      pure (.handle number)
  | .ticket, .text content => some (pure (.ticket content))
  | _, _ => none

def number? : Argument → Option Int64
  | .value (.int number) => some number
  | _ => none

def buildFrom? : Kind → Argument → Option (Effect Value)
  | kind, .value value => if value.kind = kind then some (pure value) else convert? kind value
  | .int, .bool truth => some (pure (.int (if truth then 1 else 0)))
  | .int, .byte number => some (pure (.int (.ofNat number.toNat)))
  | .int, .short number => some (pure (.int number.toInt64))
  | .text, .char letter => some (pure (.text (String.ofList [letter])))
  | .text, .borrowedText content | .text, .boxedText content => some (pure (.text content))
  | .list, .borrowedList items => some (pure (.list items))
  | _, _ => none

def buildFromTuple? (kind : Kind) (args : List Argument) : Option (Effect Value) := do
  let numbers ← args.mapM number?
  if kind = .traced ∧ args.length ≤ Environment.argumentLimit then
    some do
      log (.buildTuple kind numbers)
      pure (.traced (ofDigits numbers))
  else none

/-- What an exchange leaves in its two places, and whether it ran to its end. -/
structure Exchanged where
  events : List Event
  left : Value
  right : Value
  completed : Bool

/-- The exchanges that pairs of types register. Tags stay where they are. An exchange that is fussy
about negative numbers gives up halfway. -/
def exchangeBespoke : Value → Value → Exchanged
  | .counted tag number, .counted tag' number' =>
      ⟨[.exchange .counted tag tag'], .counted tag number', .counted tag' number, true⟩
  | .fussy number, .fussy number' =>
      let events := [.exchange .fussy number number']
      if number < 0 then ⟨events, .fussy number', .fussy number', false⟩
      else ⟨events, .fussy number', .fussy number, true⟩
  | .handle number, .resource number' =>
      ⟨[.exchangeBetween .handle number .resource number'], .handle number', .resource number, true⟩
  | left, right => ⟨[], left, right, true⟩

end Value

end TypeConcepts.Session
