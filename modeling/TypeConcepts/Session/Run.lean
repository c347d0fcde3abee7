import TypeConcepts.Environment.Bound
import TypeConcepts.Environment.Decay
import TypeConcepts.Session.Behaviour
import TypeConcepts.Session.Operation
import TypeConcepts.Store.Exchange
import TypeConcepts.Universe.Answer

/-!
Running a session: operations on a store of values, one after the other.

The places of an operation are checked first, then the types, and only then does any code run. What
a panic leaves in the store stays there.
-/

namespace TypeConcepts.Session

def facts : Environment := Universe.standard

/-- What came of an operation: its result, the events it caused, and the store after it. -/
structure Outcome where
  answer : Except Fault Answer
  events : List Event
  store : List Value

namespace Outcome

/-- The outcome of code that either gives an answer with a new store or panics and leaves the store
as it was. -/
def ofEffect (store : List Value) (effect : Effect (Answer × List Value)) : Outcome :=
  match effect.result with
  | some (answer, store) => ⟨.ok answer, effect.events, store⟩
  | none => ⟨.error .panic, effect.events, store⟩

def unchanged (store : List Value) (answer : Answer) : Outcome := ⟨.ok answer, [], store⟩

end Outcome

def valueAt (store : List Value) (place : Nat) : Except Fault Value :=
  match store[place]? with
  | some value => .ok value
  | none => .error .index

def demand (fault : Fault) (condition : Bool) : Except Fault Unit :=
  if condition then .ok () else .error fault

def present {α : Type} (fault : Fault) : Option α → Except Fault α
  | some value => .ok value
  | none => .error fault

def checkPlaces (store : List Value) (places : List Nat) : Except Fault Unit := do
  demand .index (places.all (· < store.length))
  demand .alias (decide places.Nodup)

def strategyFor (mode : Option Mode) (left right : Ty) : Except Fault Strategy := do
  present .rejected ((← present .rejected mode).strategy? facts left right)

def swap (store : List Value) (left right : Nat) (mode : Option Mode) : Except Fault Outcome := do
  let first ← valueAt store left
  let second ← valueAt store right
  match ← strategyFor mode first.type second.type with
  | .byMove => .ok ⟨.ok .nothing, [], Store.exchange left right store⟩
  | .bespoke =>
      let exchanged := Value.exchangeBespoke first second
      .ok
        { answer := if exchanged.completed then .ok .nothing else .error .panic
          events := exchanged.events
          store := (store.set left exchanged.left).set right exchanged.right }

def resolve (store : List Value) (left right : Nat) (mode : Option Mode) :
    Except Fault Outcome := do
  let first := (← valueAt store left).type
  let second := (← valueAt store right).type
  let strategy ← strategyFor mode first second
  .ok (.unchanged store (.strategy strategy (facts.infallible first second strategy)))

def stretchAt (store : List Value) (place : Nat) (bounds : Bounds) :
    Except Fault (List Int64 × Store.Stretch) := do
  match ← valueAt store place with
  | .list items => do
      .ok (items, ← present .range (Store.Stretch.within? bounds.start bounds.stop items))
  | _ => .error .rejected

def stretchStrategy (mode : Option Mode) : Except Fault Strategy :=
  strategyFor mode Kind.stretchType Kind.stretchType

def swapStretches (store : List Value) (left right : Nat) (leftBounds rightBounds : Bounds)
    (mode : Option Mode) : Except Fault Outcome := do
  let (first, leftPart) ← stretchAt store left leftBounds
  let (second, rightPart) ← stretchAt store right rightBounds
  let _ ← stretchStrategy mode
  match Store.exchangeStretches first second leftPart rightPart with
  | some (first, second) =>
      .ok ⟨.ok .nothing, [], (store.set left (.list first)).set right (.list second)⟩
  | none => .ok ⟨.error .panic, [], store⟩

def resolveStretches (store : List Value) (left right : Nat) (leftBounds rightBounds : Bounds) :
    Except Fault Outcome := do
  let _ ← stretchAt store left leftBounds
  let _ ← stretchAt store right rightBounds
  let strategy ← stretchStrategy (some .auto)
  let infallible := facts.infallible Kind.stretchType Kind.stretchType strategy
  .ok (.unchanged store (.strategy strategy infallible))

def assign (store : List Value) (target : Nat) (values : List Value) : Except Fault Outcome := do
  let old ← valueAt store target
  demand .rejected (values.all fun value => facts.assigns (.exclusive old.type) value.type)
  .ok (.ofEffect store do
    let (place, store) ← Store.assignEach Value.assignment target (values.map .value) store
    pure (((store[place]?).map .value).getD .nothing, store))

def assignFrom (store : List Value) (target source : Nat) (borrow : Option Borrow) :
    Except Fault Outcome := do
  let borrow ← present .rejected borrow
  let old := (← valueAt store target).type
  let new := (← valueAt store source).type
  demand .rejected (facts.assigns (.exclusive old) (borrow.type new))
  let assigned := match borrow with
    | .shared => Store.Source.shared source
    | .exclusive => Store.Source.exclusive source
  .ok (.ofEffect store do
    let (_, store) ← Store.assign Value.assignment target assigned store
    pure (.nothing, store))

def push (store : List Value) (effect : Effect Value) : Outcome :=
  .ofEffect store do pure (.nothing, store ++ [← effect])

/-- A value built from arguments: from none, its default. -/
def build? (kind : Kind) : List Argument → Option (Effect Value)
  | [] => if facts.default kind.type then some (Value.default kind) else none
  | [arg] => Value.buildFrom? kind arg
  | args => Value.buildFromTuple? kind args

def construct (store : List Value) (kind : Option Kind) (args : List Argument) :
    Except Fault Outcome := do
  .ok (push store (← present .rejected (build? (← present .rejected kind) args)))

def constructByMove (store : List Value) (value : Value) : Except Fault Outcome := do
  demand .rejected (facts.nothrowConstructibleFrom value.type [value.type])
  .ok (push store (pure value))

def constructByCopy (store : List Value) (source : Nat) (borrow : Borrow) :
    Except Fault Outcome := do
  let value ← valueAt store source
  demand .rejected (facts.nothrowConstructibleFrom value.type [borrow.type value.type])
  .ok (push store (pure value))

def decay (store : List Value) (source : Nat) (borrow : Option Borrow) :
    Except Fault Outcome := do
  let borrow ← present .rejected borrow
  let value ← valueAt store source
  demand .rejected (facts.decayCopyable (borrow.type value.type))
  .ok (push store value.clone)

def initOnHeap (store : List Value) (kind : Option Kind) : Except Fault Outcome := do
  let kind ← present .rejected kind
  demand .rejected (facts.heapInit kind.type)
  .ok (push store (Value.default kind))

/-- A type and what is made of it: a reference, arrays with and without items, an option, and a
wrapper that never drops. -/
def wrappings (type : Ty) : List Ty :=
  [type, .shared type, .array type 2, .array type 0, .apply "Option" type,
    .apply "ManuallyDrop" type]

def trivial (store : List Value) (kind : Option Kind) : Except Fault Outcome := do
  let kind ← present .rejected kind
  .ok (.unchanged store (.truths ((wrappings kind.type).map facts.triviallyDestructible)))

def drop (store : List Value) (place : Nat) : Except Fault Outcome := do
  let value ← valueAt store place
  .ok (.ofEffect store do
    value.drop
    pure (.nothing, store.eraseIdx place))

/-! ### Generic operations

Each of these asks for concepts as bounds, and uses what they promise. -/

def duplicate (store : List Value) (source : Nat) : Except Fault Outcome := do
  let value ← valueAt store source
  demand .rejected (Environment.Bound.copyConstructible facts value.type)
  .ok (.ofEffect store do
    let first ← value.clone
    let second ← value.clone
    pure (.nothing, store ++ [first, second]))

def relocate (store : List Value) (source : Nat) : Except Fault Outcome := do
  let value ← valueAt store source
  demand .rejected (Environment.Bound.moveConstructible facts value.type)
  .ok ⟨.ok .nothing, [], store.eraseIdx source ++ [value]⟩

def reset (store : List Value) (place : Nat) : Except Fault Outcome := do
  let value ← valueAt store place
  demand .rejected (Environment.Bound.defaultInitializable facts value.type)
  .ok (.ofEffect store do
    let initial ← Value.default value.kind
    let (_, store) ← Store.assign Value.assignment place (.value initial) store
    pure (.nothing, store))

def normalize (store : List Value) (place : Nat) : Except Fault Outcome := do
  let value ← valueAt store place
  demand .rejected (Environment.Bound.defaultInitializable facts value.type
    && Environment.Bound.equalityComparable facts value.type)
  .ok (.ofEffect store do
    let initial ← Value.default value.kind
    let same ← value.equals initial
    let (_, store) ← Store.assign Value.assignment place (.value initial) store
    pure (.truth same, store))

def clamp (store : List Value) (place : Nat) (least greatest : Int64) : Except Fault Outcome := do
  let value ← valueAt store place
  demand .rejected (facts.copy value.type && Environment.Bound.totallyOrdered facts value.type)
  .ok ⟨.ok .nothing, [], store.set place (value.clamp least greatest)⟩

/-! ### Steps -/

def perform (store : List Value) : Operation → Except Fault Outcome
  | .swap left right mode => swap store left right mode
  | .resolve left right mode => resolve store left right mode
  | .swapStretches left right leftBounds rightBounds mode =>
      swapStretches store left right leftBounds rightBounds mode
  | .resolveStretches left right leftBounds rightBounds =>
      resolveStretches store left right leftBounds rightBounds
  | .assign target values => assign store target values
  | .assignFrom target source borrow => assignFrom store target source borrow
  | .construct kind args => construct store kind args
  | .constructByMove value => constructByMove store value
  | .constructByCopy source borrow => constructByCopy store source borrow
  | .decay source borrow => decay store source borrow
  | .initOnHeap kind => initOnHeap store kind
  | .trivial kind => trivial store kind
  | .duplicate source => duplicate store source
  | .relocate source => relocate store source
  | .reset place => reset store place
  | .normalize place => normalize store place
  | .clamp place least greatest => clamp store place least greatest
  | .drop place => drop store place
  | .unreadable _ _ => .error .unreadable

def dropEvents (values : List Value) : List Event := values.flatMap fun value => value.drop.events

/-- The outcome of an operation. The values that it brought along are dropped if it is refused. -/
def step (store : List Value) (operation : Operation) : Outcome :=
  match checkPlaces store operation.places with
  | .error fault => ⟨.error fault, [], store⟩
  | .ok () =>
    match perform store operation with
    | .error fault => ⟨.error fault, dropEvents operation.values, store⟩
    | .ok outcome => outcome

def run (store : List Value) : List Operation → List Outcome
  | [] => []
  | operation :: rest =>
      let outcome := step store operation
      outcome :: run outcome.store rest

def finalStore (store : List Value) (outcomes : List Outcome) : List Value :=
  (outcomes.getLast?.map Outcome.store).getD store

/-- The outcomes of a session, and the events of dropping what is left in its store. -/
def play (store : List Value) (operations : List Operation) : List Outcome × List Event :=
  let outcomes := run store operations
  (outcomes, dropEvents (finalStore store outcomes))

end TypeConcepts.Session
