import TypeConcepts.Universe.Conduct

/-!
Which type of the universe implements which trait, and which types run code when they are dropped.
-/

namespace TypeConcepts

namespace Trait

/-- Traits that a list of items passes on from its items. -/
def ofItems : List Trait := Conduct.comparing ++ Conduct.threads

/-- Text and slices: what a box, a string or a vector can own without knowing its size. -/
def isText : Ty → Bool
  | .named "str" [] => true
  | .slice _ => true
  | _ => false

/-- The longest array whose default is known. -/
def defaultArrayLimit : Nat := 32

mutual

def holds (trait : Trait) : Ty → Bool
  | .named name args =>
      let conduct := Conduct.of name args
      let direct (trait : Trait) := conduct.always.contains trait
        || (conduct.pointwise.contains trait && holdsAll trait args)
        || ((conduct.through.lookup trait).map (·.all (holdsAll · args))).getD false
      direct trait || direct trait.source
  | .const _ => true
  | .reference false target =>
      match trait.source with
      | .copy | .clone | .sized => true
      | .default => isText target
      | .send | .sync => holds .sync target
      | .iterator | .render => false
      | trait => holds trait target
  | .reference true target =>
      match trait.source with
      | .sized => true
      | .default => isText target
      | .copy | .clone | .render => false
      | trait => holds trait target
  | .pointer _ target =>
      match trait.source with
      | .sized => true
      | .default => holds .sized target
      | trait => Conduct.copying.contains trait || Conduct.comparing.contains trait
  | .array item length =>
      match trait.source with
      | .sized => true
      | .default => length == 0 || (length ≤ defaultArrayLimit && holds .default item)
      | trait => (Conduct.copying.contains trait || ofItems.contains trait) && holds trait item
  | .slice item =>
      match trait with
      | .toOwned => holds .clone item
      | .boxedDefault => true
      | trait => ofItems.contains trait && holds trait item
  | .tuple items =>
      let trait := trait.source
      if Conduct.threads.contains trait || trait = .sized then holdsAll trait items
      else (trait = .default || Conduct.copying.contains trait
        || Conduct.comparing.contains trait) && holdsAll .sized items && holdsAll trait items
  | .function _ _ =>
      let trait := trait.source
      trait = .sized || Conduct.copying.contains trait || ofItems.contains trait
  | .object name => trait = .debug && name == "Debug"
  | .param _ => false

def holdsAll (trait : Trait) : List Ty → Bool
  | [] => true
  | type :: rest => holds trait type && holdsAll trait rest

end

end Trait

def owners : List String :=
  ["String", "Box", "Rc", "Vec", "HashMap", "BTreeMap", "Cow", "IntoIter", "Noisy", "MoveOnly",
    "Ticket", "Page", "Traced", "Echo"]

/-- Types that never drop what they hold. -/
def keepers : List String := ["PhantomData", "ManuallyDrop", "MaybeUninit"]

mutual

def Ty.dropCode : Ty → Bool
  | .named name args =>
      if owners.contains name then true
      else if keepers.contains name then false
      else name == "Droppy" || dropCodeAny args
  | .array item length => length != 0 && item.dropCode
  | .slice item => item.dropCode
  | .tuple items => dropCodeAny items
  | .const _ | .reference _ _ | .pointer _ _ | .function _ _ | .object _ | .param _ => false

def Ty.dropCodeAny : List Ty → Bool
  | [] => false
  | type :: rest => type.dropCode || dropCodeAny rest

end

end TypeConcepts
