import TypeConcepts.Ty.Basic
import TypeConcepts.Universe.Trait

/-!
How the named types and type constructors of the universe treat each trait.
-/

namespace TypeConcepts

/-- What a type constructor implements: some traits always, some if every argument has the same
trait, and some if every argument has the traits listed with it. -/
structure Conduct where
  always : List Trait
  pointwise : List Trait
  through : List (Trait × List Trait)

namespace Conduct

/-- Traits of values that can be shown and compared in every way. -/
def comparing : List Trait := [.debug, .partialEq, .eq, .partialOrd, .ord, .hash]

def copying : List Trait := [.copy, .clone]

def threads : List Trait := [.send, .sync]

def ground (traits : List Trait) : Conduct := ⟨traits, [], []⟩

def constructor (always pointwise : List Trait) : Conduct := ⟨.sized :: always, pointwise, []⟩

def integer : Conduct :=
  ground ([.default, .display, .sized] ++ copying ++ comparing ++ threads)

def floating : Conduct :=
  ground ([.default, .debug, .display, .partialEq, .partialOrd, .sized] ++ copying ++ threads)

/-- The traits that a member of the family `Item` takes on by one of its five markers. -/
def marker : String → List Trait
  | "Dup" => [.clone]
  | "Bits" => [.copy, .clone]
  | "Blank" => [.default]
  | "HasEq" => [.partialEq]
  | "HasOrd" => [.partialEq, .partialOrd]
  | _ => []

def markers : List Ty → List Trait
  | [] => []
  | .named name [] :: rest => marker name ++ markers rest
  | _ :: rest => markers rest

/-- The conduct of a name with its arguments. Of user types without a trait, only size and threads
are known. -/
def of (name : String) (args : List Ty) : Conduct :=
  match name with
  | "u8" | "u16" | "u32" | "u64" | "u128" | "usize" | "i8" | "i16" | "i32" | "i64" | "i128"
  | "isize" | "bool" | "char" => integer
  | "f32" | "f64" => floating
  | "str" => ground ([.display, .asText, .toOwned, .boxedDefault] ++ comparing ++ threads)
  | "String" =>
      ground ([.clone, .default, .display, .asText, .sized] ++ comparing ++ threads)
  | "Infallible" => ground ([.display, .sized] ++ copying ++ comparing ++ threads)
  | "Ordering" => ground (.sized :: copying ++ comparing ++ threads)
  | "Box" =>
      ⟨[.sized], [.display, .iterator, .asText] ++ comparing ++ threads,
        [(.clone, [.toOwned]), (.default, [.boxedDefault])]⟩
  | "Rc" =>
      ⟨[.clone, .sized], [.display, .asText] ++ comparing, [(.default, [.boxedDefault])]⟩
  | "Cow" =>
      ⟨[.clone, .sized], [.display, .asText] ++ comparing ++ threads,
        [(.default, [.boxedDefault])]⟩
  | "Vec" => constructor [.default] (.clone :: comparing ++ threads)
  | "Option" => constructor [.default] (copying ++ comparing ++ threads)
  | "Result" => constructor [] (copying ++ comparing ++ threads)
  | "HashMap" => constructor [.default] ([.clone, .debug, .partialEq, .eq] ++ threads)
  | "BTreeMap" => constructor [.default] (.clone :: comparing ++ threads)
  | "Mutex" => ⟨[.sized], [.default, .debug, .send], [(.sync, [.send])]⟩
  | "Cell" =>
      ⟨[.sized], [.default, .send],
        [(.clone, [.copy]), (.debug, [.copy, .debug]), (.partialEq, [.copy, .partialEq]),
          (.eq, [.copy, .eq]), (.partialOrd, [.copy, .partialOrd]), (.ord, [.copy, .ord])]⟩
  | "RefCell" =>
      constructor []
        [.clone, .default, .debug, .partialEq, .eq, .partialOrd, .ord, .send]
  | "Peekable" => constructor [] ([.clone, .debug, .iterator] ++ threads)
  | "IntoIter" => constructor [.default, .iterator] ([.clone, .debug] ++ threads)
  | "PhantomData" => constructor (.default :: copying ++ comparing) threads
  | "ManuallyDrop" => constructor [] (.default :: copying ++ comparing ++ threads)
  | "MaybeUninit" => ⟨[.debug, .sized], .copy :: threads, [(.clone, [.copy])]⟩
  | "Maybe" | "Tagged" => constructor [] threads
  | "Point" => ground ([.default, .debug, .partialEq, .sized] ++ threads)
  | "Wide" => ground ([.default, .sized] ++ threads)
  | "Named" => ground ([.clone, .partialEq, .sized] ++ threads)
  | "Config" => ground ([.clone, .default, .sized] ++ threads)
  | "Tag" => ground ([.clone, .default, .partialEq, .sized] ++ threads)
  | "Rank" =>
      ground ([.default, .debug, .partialEq, .eq, .partialOrd, .ord, .sized] ++ copying ++ threads)
  | "Handle" | "Resource" | "Ticket" => ground ([.debug, .partialEq, .sized] ++ threads)
  | "Page" => ground ([.debug, .render, .sized] ++ threads)
  | "Counted" => ground [.debug, .sized]
  | "Traced" | "Echo" => ground ([.clone, .default, .partialEq, .sized] ++ threads)
  | "Lopsided" => ground ([.partialEq, .partialOrd, .sized] ++ threads)
  | "Item" => ground (.sized :: markers args ++ threads)
  | _ => ground (.sized :: threads)

end Conduct

end TypeConcepts
