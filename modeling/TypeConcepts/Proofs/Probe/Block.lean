import TypeConcepts.TypeExpr.Reader
import TypeConcepts.Proofs.Probe.Selection

/-!
The value of a block whose last expression is an associated constant.

The block is read back from its tokens by rules of its own: traits with default constants, wrapper
types with a single field, implementations, and the path of the constant. The constant is looked up
among the wrapper's own implementations first, and only then in the traits.
-/

namespace TypeConcepts

open TokenTree

namespace Block

/-- An implementation for a wrapper type: of a trait, or of constants of the type's own. -/
structure Implementation where
  parameters : List Hole
  trait : Option String
  wrapper : String
  argument : TypeExpr
  constants : List (String × Bool)

inductive Item where
  | trait (name : String) (constants : List (String × Bool))
  | wrapper (name : String) (parameters : List Hole) (field : TypeExpr)
  | implementation (given : Implementation)

end Block

/-- Items, and the constant of a wrapped type that is the value of the block. -/
structure Block where
  items : List Block.Item
  wrapper : String
  argument : TypeExpr
  constant : String

namespace Block

def name? : Reader String
  | .ident name _ :: rest => if isName name then some (name, rest) else none
  | _ => none

def truth? (tokens : Tokens) : Option (Bool × Tokens) :=
  match word? "true" tokens, word? "false" tokens with
  | some rest, _ => some (true, rest)
  | none, some rest => some (false, rest)
  | none, none => none

def skipAllowance : Tokens → Tokens
  | .punct '#' _ _ :: .group .bracket (.ident "allow" _ :: _) _ :: rest => rest
  | tokens => tokens

def constant? : Reader (String × Bool) := fun tokens => do
  let rest ← word? "const" (skipAllowance tokens)
  let (name, rest) ← name? rest
  let rest ← single? ':' [':', ':'] rest
  let rest ← word? "bool" rest
  let rest ← single? '=' ['=', '='] rest
  let (value, rest) ← truth? rest
  let rest ← eat? [';'] rest
  some ((name, value), rest)

def constants? : Nat → Tokens → Option (List (String × Bool))
  | _, [] => some []
  | 0, _ => none
  | limit + 1, tokens => do
      let (first, rest) ← constant? tokens
      let others ← constants? limit rest
      some (first :: others)

def limits? : Reader Tokens := fun tokens => do
  let (_, rest) ← (TypeReader.rounds (sizes tokens + 1)).constraintBounds (tokens.length + 1) tokens
  some (tokens.take (tokens.length - rest.length), rest)

def parameter? : Reader Hole := fun tokens => do
  let (name, rest) ← name? tokens
  match single? ':' [':', ':'] rest with
  | none => some (⟨name, none⟩, rest)
  | some rest => do
      let (bounds, rest) ← limits? rest
      some (⟨name, some bounds⟩, rest)

def parameters? : Nat → Reader (List Hole)
  | 0, _ => none
  | limit + 1, tokens =>
      match eat? ['>'] tokens with
      | some rest => some ([], rest)
      | none => do
          let (first, rest) ← parameter? tokens
          match eat? ['>'] rest with
          | some rest => some ([first], rest)
          | none => do
              let rest ← eat? [','] rest
              let (others, rest) ← parameters? limit rest
              some (first :: others, rest)

def generics? : Reader (List Hole) := fun tokens =>
  match eat? ['<'] tokens with
  | none => some ([], tokens)
  | some rest => parameters? (rest.length + 1) rest

def inAngles? : Reader TypeExpr := fun tokens => do
  let rest ← eat? ['<'] tokens
  let (type, rest) ← TypeExpr.read rest
  let rest ← eat? ['>'] rest
  some (type, rest)

def inBraces? : Reader (List (String × Bool)) := fun tokens => do
  let (inner, rest) ← group? .brace tokens
  let constants ← constants? inner.length inner
  some (constants, rest)

def trait? : Reader Item := fun tokens => do
  let (name, rest) ← name? tokens
  let (constants, rest) ← inBraces? rest
  some (.trait name constants, rest)

def wrapper? : Reader Item := fun tokens => do
  let (name, rest) ← name? tokens
  let (parameters, rest) ← generics? rest
  let (inner, rest) ← group? .paren rest
  let field ← TypeExpr.ofTokens? inner
  let rest ← eat? [';'] rest
  some (.wrapper name parameters field, rest)

def traitFor? : Reader String := fun tokens => do
  let (name, rest) ← name? tokens
  let rest ← word? "for" rest
  some (name, rest)

def implementation? : Reader Item := fun tokens => do
  let (parameters, rest) ← generics? tokens
  let (trait, rest) := optional traitFor? rest
  let (wrapper, rest) ← name? rest
  let (argument, rest) ← inAngles? rest
  let (constants, rest) ← inBraces? rest
  some (.implementation ⟨parameters, trait, wrapper, argument, constants⟩, rest)

/-- The reader of what follows the word that begins an item. -/
def itemReader (keyword : String) : Option (Reader Item) :=
  if keyword = "trait" then some trait?
  else if keyword = "struct" then some wrapper?
  else if keyword = "impl" then some implementation?
  else none

def items? : Nat → Reader (List Item)
  | limit + 1, .ident keyword pos :: rest =>
      match itemReader keyword with
      | none => some ([], .ident keyword pos :: rest)
      | some read => do
          let (first, rest) ← read rest
          let (others, rest) ← items? limit rest
          some (first :: others, rest)
  | _, tokens => some ([], tokens)

def ofTokens? (tokens : Tokens) : Option Block := do
  let (inner, []) ← group? .brace tokens | none
  let (items, rest) ← items? inner.length inner
  let (wrapper, rest) ← name? rest
  let rest ← eat? [':', ':'] rest
  let (argument, rest) ← inAngles? rest
  let rest ← eat? [':', ':'] rest
  let (constant, []) ← name? rest | none
  some ⟨items, wrapper, argument, constant⟩

/-! ### Meaning -/

/-- What names mean where those of a list are declared anew. -/
def shadowed {Meaning : Type} (names : List String) (inner outer : String → Meaning)
    (name : String) : Meaning :=
  if name ∈ names then inner name else outer name

def Item.declared : Item → List String
  | .trait name _ | .wrapper name _ _ => [name]
  | .implementation _ => []

namespace Implementation

variable {Meaning : Type} (given : Implementation) (language : Language Meaning)
  (scope : String → Meaning)

/-- The names of the parameters are distinct and hide neither the wrapper nor the trait. -/
structure WellFormed : Prop where
  distinct : (given.parameters.map Hole.name).Nodup
  wrapper : given.wrapper ∉ given.parameters.map Hole.name
  trait : ∀ trait ∈ given.trait, trait ∉ given.parameters.map Hole.name

/-- Some types for the parameters, each admitted by its bounds, turn the argument into the type. -/
def Covers (type : Meaning) : Prop :=
  ∃ types : String → Meaning,
    language.type (shadowed (given.parameters.map Hole.name) types scope) given.argument = type ∧
      ∀ parameter ∈ given.parameters,
        language.Admits (shadowed (given.parameters.map Hole.name) types scope) parameter.bounds
          (types parameter.name)

end Implementation

variable {Meaning : Type} (block : Block) (language : Language Meaning)
  (scope own outer : String → Meaning)

def declared : List String := block.items.flatMap Item.declared

def subject : Meaning := language.type scope block.argument

/-- An implementation for the wrapped type, of the given trait or of none. -/
structure Applies (trait : Option String) (given : Implementation) : Prop where
  item : .implementation given ∈ block.items
  implements : given.trait = trait
  wrapper : given.wrapper = block.wrapper
  covers : given.Covers language scope (block.subject language scope)

/-- A constant of the wrapper's own is chosen before those of traits, and the constant of an
implementation before the default of its trait. -/
inductive Chooses : Bool → Prop
  | own {given : Implementation} {value : Bool} (applies : block.Applies language scope none given)
      (constant : (block.constant, value) ∈ given.constants) : Chooses value
  | implemented {trait : String} {defaults : List (String × Bool)} {given : Implementation}
      {value : Bool}
      (hidden : ∀ given, block.Applies language scope none given →
        block.constant ∉ given.constants.map Prod.fst)
      (declared : .trait trait defaults ∈ block.items)
      (known : block.constant ∈ defaults.map Prod.fst)
      (applies : block.Applies language scope (some trait) given)
      (constant : (block.constant, value) ∈ given.constants) : Chooses value
  | default {trait : String} {defaults : List (String × Bool)} {given : Implementation}
      {value : Bool}
      (hidden : ∀ given, block.Applies language scope none given →
        block.constant ∉ given.constants.map Prod.fst)
      (declared : .trait trait defaults ∈ block.items)
      (applies : block.Applies language scope (some trait) given)
      (absent : block.constant ∉ given.constants.map Prod.fst)
      (constant : (block.constant, value) ∈ defaults) : Chooses value

/-- The items fit together, and the wrapper takes the type. -/
structure WellFormed : Prop where
  distinct : block.declared.Nodup
  implementations : ∀ given, .implementation given ∈ block.items → given.WellFormed
  wrapped : ∃ parameter field, .wrapper block.wrapper [parameter] field ∈ block.items ∧
    parameter.name ∈ namesIn field.tokens ∧
    language.Admits (shadowed [parameter.name] (fun _ => block.subject language scope) scope)
      parameter.bounds (block.subject language scope)

/-- The block has a value, where its own declarations have the meanings `own` and all other names
the meanings `outer`. -/
structure HasValue (value : Bool) : Prop where
  wellFormed : block.WellFormed language (shadowed block.declared own outer)
  chooses : block.Chooses language (shadowed block.declared own outer) value

end Block

end TypeConcepts
