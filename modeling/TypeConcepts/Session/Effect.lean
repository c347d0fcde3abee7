import TypeConcepts.Scalar.Decimal
import TypeConcepts.Session.Value

/-!
Effects: what running the code of a type comes to. The events it logs are kept even if it panics.
-/

namespace TypeConcepts.Session

inductive Event where
  | drop (kind : Kind) (number : Int64)
  | default (kind : Kind)
  | compare (kind : Kind) (left right : Int64)
  | build (kind : Kind) (number : Int64)
  | buildTuple (kind : Kind) (numbers : List Int64)
  | clone (kind : Kind) (number : Int64)
  | cloneOver (kind : Kind) (target source : Int64)
  | exchange (kind : Kind) (left right : Int64)
  | exchangeBetween (kind : Kind) (number : Int64) (kind' : Kind) (number' : Int64)
  deriving DecidableEq, Repr

namespace Event

def number (number : Int64) : String := Decimal.write number.toInt

def words : Event → List String
  | .drop kind number => ["drop", kind.name, Event.number number]
  | .default kind => ["default", kind.name]
  | .compare kind left right => ["eq", kind.name, Event.number left, Event.number right]
  | .build kind number => ["from", kind.name, Event.number number]
  | .buildTuple kind numbers =>
      ["from", kind.name, "[" ++ ", ".intercalate (numbers.map Event.number) ++ "]"]
  | .clone kind number => ["clone", kind.name, Event.number number]
  | .cloneOver kind target source =>
      ["clone_from", kind.name, Event.number target, Event.number source]
  | .exchange kind left right => ["swap", kind.name, Event.number left, Event.number right]
  | .exchangeBetween kind number kind' number' =>
      ["swap", kind.name, Event.number number, kind'.name, Event.number number']

def text (event : Event) : String := " ".intercalate event.words

end Event

/-- The events of a run in order, and its result unless it panicked. -/
@[ext]
structure Effect (α : Type) where
  events : List Event
  result : Option α
  deriving Repr

namespace Effect

variable {α β : Type}

def pure (value : α) : Effect α := ⟨[], some value⟩

def bind (effect : Effect α) (next : α → Effect β) : Effect β :=
  match effect.result with
  | none => ⟨effect.events, none⟩
  | some value => ⟨effect.events ++ (next value).events, (next value).result⟩

instance : Monad Effect where
  pure := Effect.pure
  bind := Effect.bind

@[simp] theorem pure_events (value : α) : (Pure.pure value : Effect α).events = [] := rfl

@[simp] theorem pure_result (value : α) : (Pure.pure value : Effect α).result = some value := rfl

@[simp] theorem bind_events (effect : Effect α) (next : α → Effect β) :
    (effect >>= next).events =
      effect.events ++ (effect.result.map fun value => (next value).events).getD [] := by
  rcases effect with ⟨events, _ | value⟩
  · exact (List.append_nil events).symm
  · rfl

@[simp] theorem bind_result (effect : Effect α) (next : α → Effect β) :
    (effect >>= next).result = effect.result.bind fun value => (next value).result := by
  rcases effect with ⟨events, _ | value⟩ <;> rfl

instance : LawfulMonad Effect :=
  LawfulMonad.mk' Effect
    (fun effect => by
      rcases effect with ⟨events, _ | value⟩
      · rfl
      · exact Effect.ext (List.append_nil events) rfl)
    (fun _ _ => rfl)
    (fun effect _ _ => by
      rcases effect with ⟨events, _ | value⟩
      · rfl
      · ext1 <;> simp)

def log (event : Event) : Effect Unit := ⟨[event], some ()⟩

def panic : Effect α := ⟨[], none⟩

def require (condition : Bool) : Effect Unit := if condition then pure () else panic

end Effect

end TypeConcepts.Session
