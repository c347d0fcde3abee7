import TypeConcepts.Text.Blank
import TypeConcepts.Ty.Resolve
import TypeConcepts.Token.Source
import TypeConcepts.TypeExpr.Reader
import TypeConcepts.Universe.Facts

/-!
The catalogue of the universe: which types, argument lists and shapes it can be asked about, under
the names that they are written with. White space in a name does not count.
-/

namespace TypeConcepts.Universe

open Text

def key (name : String) : String := String.ofList (name.toList.filter fun c => !isBlank c)

def lists (names : List String) (name : String) : Bool := names.any fun known => key known == key name

def aliases : List (String × Ty) :=
  [("Meters", .word "f64"), ("Lookahead", .apply "Peekable" (.apply "IntoIter" byte))]

def scope (params : List String) : Scope := ⟨aliases, params⟩

def typeNamed? (name : String) : Option Ty := do
  (scope []).resolve? (← TypeExpr.ofTokens? (← TokenTree.ofSource? name))

def subjects : List String :=
  ["u8", "u16", "u32", "u64", "u128", "usize", "i8", "i16", "i32", "i64", "i128", "isize", "f32",
   "f64", "bool", "char", "()", "str", "String", "&u8", "&mut u8", "&&u8", "&mut &u8", "&&mut u8",
   "&str", "&mut str", "&String", "&mut String", "[u8]", "&[u8]", "&mut [u8]", "[u8; 0]", "[u8; 4]",
   "[u8; 33]", "[String; 2]", "[String]", "&[String]", "[MoveOnly]", "[MoveOnly; 2]", "Box<u8>",
   "Box<str>", "Box<[u8]>", "Box<MoveOnly>", "Box<dyn Debug>", "&Box<u8>", "Rc<u8>", "Rc<[u8]>",
   "Rc<RefCell<u8>>", "Vec<u8>", "Vec<String>", "Vec<MoveOnly>", "&mut Vec<u8>", "&Vec<MoveOnly>",
   "Option<u8>", "Option<()>", "Option<Vec<String>>", "Option<&u8>", "Option<&mut u8>",
   "Option<Lookahead>", "Option<MoveOnly>", "Result<u8, String>", "Result<u8, ()>",
   "Result<Vec<u8>, ()>", "Result<Box<str>, u8>", "(u8,)", "(u8, String)", "(MoveOnly, u8)",
   "(u8, str)", "dyn Debug", "&dyn Debug", "&mut dyn Debug", "Mutex<u8>", "&Mutex<u8>", "Cell<u8>",
   "RefCell<u8>", "Cell<MoveOnly>", "*const u8", "*mut str", "fn(u8) -> u8", "HashMap<String, u8>",
   "BTreeMap<u8, String>", "Cow<'static, str>", "Cow<'static, [u8]>", "Lookahead",
   "PhantomData<MoveOnly>", "ManuallyDrop<String>", "MaybeUninit<String>", "Infallible", "Ordering",
   "Maybe<u8>", "Maybe<String>", "Tagged<u8, 4>", "Tagged<u8, 8>", "Meters", "Opaque", "Point",
   "Noisy", "&Noisy", "MoveOnly", "&MoveOnly", "&mut MoveOnly", "Named", "&Named", "Config", "Tag",
   "Rank", "&Rank", "Flag", "&Flag", "Handle", "Resource", "Counted<'static>", "&Counted<'static>",
   "Ticket", "Page", "&Page", "Lopsided"]

def choices : List (List String) → List (List String)
  | [] => [[]]
  | first :: rest => first.flatMap fun choice => (choices rest).map (choice :: ·)

/-- The markers of the family `Item`. A copyable member runs no code when it is dropped. -/
def itemMarkers : List (List String) :=
  let common := [["NoDefault", "Blank"], ["NoEq", "HasEq", "HasOrd"], ["NoSwap", "Risky", "Safe"]]
  choices (["NoClone", "Dup"] :: common ++ [["Plain", "Droppy"]])
    ++ choices (["Bits"] :: common ++ [["Plain"]])

def itemNames : List String :=
  itemMarkers.map fun markers => "Item<" ++ ",".intercalate markers ++ ">"

def wrappings (item : String) : List String :=
  ["&" ++ item, "&mut " ++ item, "[" ++ item ++ "]", "[" ++ item ++ "; 2]", "Option<" ++ item ++ ">",
    "Box<" ++ item ++ ">"]

def unarySubjects : List String := subjects ++ itemNames ++ itemNames.flatMap wrappings

def traitSubjects : List String := subjects ++ itemNames

def operands : List String :=
  ["u8", "u16", "u32", "u64", "i32", "i64", "f32", "f64", "bool", "char", "()", "str", "String",
   "&u8", "&mut u8", "&&u8", "&str", "&String", "&mut String", "&mut &u8", "[u8]", "&[u8]",
   "&mut [u8]", "[u8; 4]", "&mut [u8; 4]", "Vec<u8>", "&mut Vec<u8>", "Box<u8>", "Box<str>",
   "Box<[u8]>", "Option<u8>", "Rc<[u8]>", "Cow<'static, str>", "Meters", "Point", "MoveOnly",
   "&MoveOnly", "&mut MoveOnly", "Noisy", "&mut Noisy", "Rank", "&Rank", "&mut Rank", "Tag", "Flag",
   "Handle", "Resource", "Counted<'static>", "Lopsided"]

def variadicSubjects : List String :=
  ["u8", "u64", "String", "str", "Point", "Opaque", "Span", "Rank", "MoveOnly", "&u8", "Wide",
   "Vec<u8>", "(u8, u8)"]

def arguments : List String :=
  ["u8", "u64", "i32", "String", "&'static str", "&u8", "&mut u8", "Point", "MoveOnly", "&Rank",
   "&mut Rank", "(i32, i32)"]

def longLists : List (List String) :=
  [["i32", "i32", "i32"], ["u8", "u8", "u8"], ["u8", "u64", "i32"],
   ["String", "&'static str", "String"], ["Point", "Point", "Point"], ["u8", "u8", "u8", "u8"],
   ["i32", "i32", "i32", "i32"], ["u8", "u8", "u8", "u8", "u8"],
   ["u8", "u8", "u8", "u8", "u8", "u8"], ["u64", "u64", "u64", "u64", "u64", "u64"],
   ["u8", "u8", "u8", "u8", "u8", "u8", "u8"],
   ["u8", "u64", "i32", "String", "Point", "MoveOnly", "Rank", "Opaque"]]

def listsArgs (args : List String) : Bool :=
  (args.length ≤ 2 && args.all (lists arguments))
    || longLists.any fun known => known.map key == args.map key

def shapes : List String :=
  ["Option<_>", "Vec<_>", "Box<_>", "Box<_: ?Sized>", "Rc<_>", "Rc<_: ?Sized>", "Result<_, _>",
   "Result<_, String>", "Result<u8, _>", "Result<Vec<_>, _>", "Result<Box<_: ?Sized>, _>",
   "Result<Box<_>, _>", "Option<Vec<_>>", "Option<&'_ _>", "Option<&'_ mut _>", "Maybe<_>",
   "Tagged<_, 4>", "Tagged<_, 8>", "Peekable<_: Iterator>", "Cow<'_, _: ?Sized + ToOwned>",
   "Cow<'_, str>", "HashMap<_, _>", "BTreeMap<u8, _>", "Mutex<_>", "Cell<_>", "Rc<RefCell<_>>",
   "PhantomData<_>", "String", "u8", "Option<_: Copy>", "Option<_: Clone>",
   "Vec<_: Default + Clone>", "_", "Meters", "Counted<'_>"]

end TypeConcepts.Universe
