/-!
The traits whose implementations are known for the types of the universe.
-/

namespace TypeConcepts

inductive Trait where
  | copy | clone | default | debug | display | partialEq | eq | partialOrd | ord | hash | send
  | sync | sized | iterator | render | asText | toOwned
  | boxedDefault
  deriving DecidableEq, Repr

namespace Trait

/-- The traits that can be named, with the names they go by. -/
def named : List (String × Trait) :=
  [("Copy", .copy), ("Clone", .clone), ("Default", .default), ("Debug", .debug),
    ("Display", .display), ("PartialEq", .partialEq), ("Eq", .eq), ("PartialOrd", .partialOrd),
    ("Ord", .ord), ("Hash", .hash), ("Send", .send), ("Sync", .sync), ("Sized", .sized),
    ("Iterator", .iterator), ("Render", .render), ("AsRef<str>", .asText), ("ToOwned", .toOwned)]

def ofName? (name : String) : Option Trait := named.lookup name

/-- What a type with a `Clone` of its own implements by way of it, and likewise for `Default`. -/
def source : Trait → Trait
  | .toOwned => .clone
  | .boxedDefault => .default
  | trait => trait

end Trait

end TypeConcepts
