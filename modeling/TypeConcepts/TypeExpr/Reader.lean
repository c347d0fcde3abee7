import TypeConcepts.TypeExpr.Const

/-!
Reading type expressions.

Types and paths hold each other, so one step reads a type or a path with readers for the parts
inside it, and the readers are the steps iterated. Every part lies strictly inside what holds it,
so as many rounds as there are tokens are enough.
-/

namespace TypeConcepts

/-- Readers for the two kinds of parts. A type may be read without taking a plus that follows. -/
structure TypeReader where
  type : (plus : Bool) → Reader TypeExpr
  path : Reader Path

namespace TypeReader

variable (parts : TypeReader)

/-- What may follow the `+` of a sum; at anything else the sum ends with the `+`. -/
def startsBound : Tokens → Bool
  | .ident _ _ :: _ => true
  | .group .paren _ _ :: _ => true
  | tokens => nextIs [':', ':'] tokens || nextIs ['?'] tokens || (lifetime? tokens).isSome

def lifetimes : Nat → Reader (List String × Bool)
  | 0, _ => none
  | bound + 1, tokens =>
      match eat? ['>'] tokens with
      | some rest => some (([], false), rest)
      | none => do
          let (name, rest) ← lifetime? tokens
          match eat? ['>'] rest with
          | some rest => some (([name], false), rest)
          | none => do
              let rest ← eat? [','] rest
              let ((others, trailing), rest) ← lifetimes bound rest
              some ((name :: others, trailing || others.isEmpty), rest)

def binder : Reader Binder := fun tokens => do
  let rest ← word? "for" tokens
  let rest ← eat? ['<'] rest
  let ((names, trailing), rest) ← lifetimes tokens.length rest
  some (⟨names, trailing⟩, rest)

def call : Reader PathArgs := fun tokens =>
  match tokens with
  | .group .paren inner pos :: rest => do
      let (inputs, trailing) ← commaList (parts.type true) inner.length inner
      match eat? ['-', '>'] rest with
      | some rest => do
          let (output, rest) ← parts.type false rest
          some (.call pos inputs trailing (some output), rest)
      | none => some (.call pos inputs trailing none, rest)
  | _ => none

/-- A double colon may stand before a parenthesis too. -/
def skipToCall (tokens : Tokens) : Option Tokens :=
  match tokens with
  | .group .paren _ _ :: _ => some tokens
  | _ =>
    match eat? [':', ':'] tokens with
    | some (.group .paren inner pos :: rest) => some (.group .paren inner pos :: rest)
    | _ => none

def yieldsToCall : PathArgs → Bool
  | .none => true
  | .angle _ args _ => args.isEmpty
  | .call .. => false

/-- A path whose last segment may take parenthesised arguments. -/
def traitPath : Reader Path := fun tokens => do
  let (path, rest) ← parts.path tokens
  match path.segments.getLast? with
  | none => some (path, rest)
  | some last =>
    match yieldsToCall last.args, skipToCall rest with
    | true, some rest => do
        let (args, rest) ← parts.call rest
        some ({ path with segments := path.segments.dropLast ++ [{ last with args }] }, rest)
    | _, _ => some (path, rest)

def traitBound (wrapped : Bool) : Reader TraitBound := fun tokens => do
  let (relaxed, rest) := flag (eat? ['?']) tokens
  let (binder, rest) ← match word? "for" rest with
    | some _ => do
        let (found, rest) ← binder rest
        some (some found, rest)
    | none => some (none, rest)
  let (path, rest) ← parts.traitPath rest
  some (⟨wrapped, relaxed, binder, path⟩, rest)

def bound : Reader Bound := fun tokens =>
  match lifetime? tokens with
  | some (name, rest) => some (.lifetime name, rest)
  | none =>
    match tokens with
    | .group .paren inner _ :: rest => do
        let found ← whole? (parts.traitBound true) inner
        some (.trait found, rest)
    | _ => do
        let (found, rest) ← parts.traitBound false tokens
        some (.trait found, rest)

def moreBounds : Nat → Reader (List Bound × Bool)
  | 0, tokens => some (([], false), tokens)
  | limit + 1, tokens =>
      match eat? ['+'] tokens with
      | none => some (([], false), tokens)
      | some rest =>
          if startsBound rest then do
            let (next, rest) ← parts.bound rest
            let ((others, trailing), rest) ← moreBounds limit rest
            some ((next :: others, trailing), rest)
          else some (([], true), rest)

def bounds (plus : Bool) : Reader (List Bound × Bool) := fun tokens => do
  let (first, rest) ← parts.bound tokens
  if plus then
    let ((others, trailing), rest) ← parts.moreBounds tokens.length rest
    some ((first :: others, trailing), rest)
  else some (([first], false), rest)

def namesTrait : Bound → Bool
  | .lifetime _ => false
  | .trait _ => true

def traitSum (plus : Bool) : Reader (List Bound × Bool) := fun tokens => do
  let ((found, trailing), rest) ← parts.bounds plus tokens
  if found.any namesTrait then some ((found, trailing), rest) else none

def constraintBounds : Nat → Reader (List Bound × Bool)
  | 0, _ => none
  | limit + 1, tokens =>
      if nextIs [','] tokens || nextIs ['>'] tokens then some (([], false), tokens)
      else do
        let (first, rest) ← parts.bound tokens
        match eat? ['+'] rest with
        | none => some (([first], false), rest)
        | some rest => do
            let ((others, trailing), rest) ← constraintBounds limit rest
            some ((first :: others, trailing || others.isEmpty), rest)

/-- The one segment of a path that may be bound or constrained. -/
def bindable : TypeExpr → Option (Nat × Segment)
  | .path ⟨pos, false, [⟨name, .none⟩]⟩ => some (pos, ⟨name, .none⟩)
  | .path ⟨pos, false, [⟨name, .angle doubleColon args trailing⟩]⟩ =>
      some (pos, ⟨name, .angle doubleColon args trailing⟩)
  | _ => none

def genericArg : Reader GenericArg := fun tokens =>
  let pos := (tokens.head?.map TokenTree.pos).getD 0
  match lifetime? tokens with
  | some (name, rest) => if nextIs ['+'] rest then typed tokens else some (.lifetime pos name, rest)
  | none =>
    if startsConstant tokens then do
      let (value, rest) ← constant? tokens
      some (.const pos value, rest)
    else typed tokens
where
  typed : Reader GenericArg := fun tokens => do
    let (type, rest) ← parts.type true tokens
    match bindable type with
    | none => some (.type type, rest)
    | some (pos, ⟨name, args⟩) =>
      match eat? ['='] rest with
      | some rest =>
          if startsConstant rest then do
            let (value, rest) ← constant? rest
            some (.constBinding pos name args value, rest)
          else do
            let (value, rest) ← parts.type true rest
            some (.typeBinding pos name args value, rest)
      | none =>
        match eat? [':'] rest with
        | some rest => do
            let ((found, trailing), rest) ← parts.constraintBounds (rest.length + 1) rest
            some (.constraint pos name args found trailing, rest)
        | none => some (.type type, rest)

def genericArgs : Nat → Reader (List GenericArg × Bool)
  | 0, _ => none
  | limit + 1, tokens =>
      match eat? ['>'] tokens with
      | some rest => some (([], false), rest)
      | none => do
          let (arg, rest) ← parts.genericArg tokens
          match eat? ['>'] rest with
          | some rest => some (([arg], false), rest)
          | none => do
              let rest ← eat? [','] rest
              let ((others, trailing), rest) ← genericArgs limit rest
              some ((arg :: others, trailing || others.isEmpty), rest)

/-- Whether an opening mark of generic arguments comes next, and no comparison. -/
def opensArgs (tokens : Tokens) : Bool :=
  nextIs ['<'] tokens && !nextIs ['<', '='] tokens && !nextIs ['<', '<', '='] tokens

def segmentArgs : Reader PathArgs := fun tokens =>
  if opensArgs tokens then read false (eat? ['<'] tokens)
  else if nextIs [':', ':'] tokens && nextIs ['<'] (beyondTwo tokens) then
    read true (eat? ['<'] (beyondTwo tokens))
  else some (.none, tokens)
where
  read (doubleColon : Bool) (inside : Option Tokens) : Option (PathArgs × Tokens) := do
    let inside ← inside
    let ((args, trailing), rest) ← parts.genericArgs (inside.length + 1) inside
    some (.angle doubleColon args trailing, rest)

def segment : Reader Segment
  | .ident name _ :: rest =>
      if name = "super" ∨ name = "self" ∨ name = "crate" ∨ name = "try" then
        some (⟨name, .none⟩, rest)
      else if name = "Self" ∨ isName name then do
        let (args, rest) ← parts.segmentArgs rest
        some (⟨name, args⟩, rest)
      else none
  | _ => none

/-- Segments after the first. In an open path, a double colon before a parenthesis is left. -/
def moreSegments (qualified : Bool) : Nat → Reader (List Segment)
  | 0, tokens => some ([], tokens)
  | limit + 1, tokens =>
      match eat? [':', ':'] tokens with
      | none => some ([], tokens)
      | some rest =>
          if !qualified && (group? .paren rest).isSome then some ([], tokens)
          else do
            let (next, rest) ← parts.segment rest
            let (others, rest) ← moreSegments qualified limit rest
            some (next :: others, rest)

def pathStep : Reader Path := fun tokens => do
  let pos := (tokens.head?.map TokenTree.pos).getD 0
  let (rooted, rest) := flag (eat? [':', ':']) tokens
  let (first, rest) ← parts.segment rest
  let (others, rest) ← parts.moreSegments false tokens.length rest
  some (⟨pos, rooted, first :: others⟩, rest)

/-! ### Types -/

/-- A path written after the mark that opens a qualified type. -/
def qualifiedRest : Reader TypeExpr := fun tokens => do
  let (self, rest) ← parts.type true tokens
  let (trait, rest) ← match word? "as" rest with
    | some rest => do
        let (path, rest) ← parts.path rest
        some (some path, rest)
    | none => some (none, rest)
  let rest ← eat? ['>'] rest
  let rest ← eat? [':', ':'] rest
  let (first, rest) ← parts.segment rest
  let (others, rest) ← parts.moreSegments true tokens.length rest
  some (.qualified self trait (first :: others), rest)

def isPlain (path : Path) : Bool :=
  path.segments.all fun segment => match segment.args with
    | .none => true
    | _ => false

/-- A type that starts with a path: the path itself, a call with a bang, or a sum of bounds. -/
def pathType (plus : Bool) (binder : Option Binder) : Reader TypeExpr := fun tokens => do
  let (path, rest) ← parts.pathStep tokens
  match (if isPlain path then single? '!' ['!', '='] rest else none) with
  | some (.group delimiter inner pos :: rest) =>
      some (.invocation path (.group delimiter inner pos), rest)
  | some _ => none
  | none =>
      let first := Bound.trait ⟨false, false, binder, path⟩
      if plus && nextIs ['+'] rest then do
        let ((others, trailing), rest) ← parts.moreBounds tokens.length rest
        some (.object false (first :: others) trailing, rest)
      else if binder.isSome then some (.object false [first] false, rest)
      else some (.path path, rest)

def strictBounds : Nat → Reader (List Bound)
  | 0, tokens => some ([], tokens)
  | limit + 1, tokens =>
      match eat? ['+'] tokens with
      | none => some ([], tokens)
      | some rest => do
          let (next, rest) ← parts.bound rest
          let (others, rest) ← strictBounds limit rest
          some (next :: others, rest)

/-- The bound that a type in parentheses stands for when a `+` follows it. -/
def asBound : TypeExpr → Option Bound
  | .path path => some (.trait ⟨true, false, none, path⟩)
  | .object false [.trait found] false => some (.trait { found with wrapped := true })
  | .object false [.lifetime name] false => some (.lifetime name)
  | _ => none

def parenthesised (plus : Bool) (inner rest : Tokens) : Option (TypeExpr × Tokens) :=
  match inner with
  | [] => some (.tuple [] false, rest)
  | _ =>
    if (lifetime? inner).isSome then do
      let (found, trailing) ← whole? (parts.traitSum true) inner
      some (.paren (.object false found trailing), rest)
    else if nextIs ['?'] inner then do
      let first ← whole? (parts.traitBound true) inner
      let (others, rest) ← parts.strictBounds rest.length rest
      some (.object false (.trait first :: others) false, rest)
    else do
      let (first, after) ← parts.type true inner
      match eat? [','] after with
      | some after => do
          let (others, trailing) ← commaList (parts.type true) after.length after
          some (.tuple (first :: others) (trailing || others.isEmpty), rest)
      | none =>
        if after.isEmpty then
          match (if plus && nextIs ['+'] rest then asBound first else none) with
          | some bound => do
              let (others, rest) ← parts.strictBounds rest.length rest
              some (.object false (bound :: others) false, rest)
          | none => some (.paren first, rest)
        else none

def bracketed (inner rest : Tokens) : Option (TypeExpr × Tokens) := do
  let (item, after) ← parts.type true inner
  match after with
  | [] => some (.slice item, rest)
  | _ => do
      let length ← eat? [';'] after
      let length ← constExpr? length
      some (.array item length, rest)

def isText (literal : String) : Bool :=
  match literal.toList with
  | '"' :: _ | 'r' :: '"' :: _ | 'r' :: '#' :: _ => true
  | _ => false

def abi (tokens : Tokens) : Option (Option String) × Tokens :=
  match word? "extern" tokens with
  | none => (none, tokens)
  | some (.literal name pos :: rest) =>
      if isText name then (some (some name), rest) else (some none, .literal name pos :: rest)
  | some rest => (some none, rest)

def paramName (first : Bool) : Reader String
  | .ident name _ :: rest =>
      if (isName name || name == "_" || (first && name == "self")) then do
        let rest ← single? ':' [':', ':'] rest
        some (name, rest)
      else none
  | _ => none

def variadic? (tokens : Tokens) : Option (Option String × Bool) := do
  let (name, rest) := optional (paramName false) tokens
  let rest ← eat? ['.', '.', '.'] rest
  let (comma, rest) := flag (eat? [',']) rest
  if rest.isEmpty then some (name, comma) else none

def params (first : Bool) :
    Nat → Tokens → Option (List Param × Bool × Option (Option String × Bool))
  | _, [] => some ([], false, none)
  | 0, _ => none
  | limit + 1, tokens =>
      match variadic? tokens with
      | some further => some ([], false, some further)
      | none => do
          let (name, rest) := optional (paramName first) tokens
          let (type, rest) ← parts.type true rest
          match rest with
          | [] => some ([⟨name, type⟩], false, none)
          | _ => do
              let rest ← eat? [','] rest
              let (others, trailing, further) ← params false limit rest
              some (⟨name, type⟩ :: others, trailing || others.isEmpty, further)

def functionType (binder : Option Binder) : Reader TypeExpr := fun tokens => do
  let (isUnsafe, rest) := flag (word? "unsafe") tokens
  let (abi, rest) := abi rest
  let rest ← word? "fn" rest
  let (inner, rest) ← group? .paren rest
  let (params, trailing, further) ← parts.params true (inner.length + 1) inner
  let (output, rest) ← match eat? ['-', '>'] rest with
    | some rest => do
        let (output, rest) ← parts.type false rest
        some (some output, rest)
    | none => some (none, rest)
  some (.function ⟨binder, isUnsafe, abi, params, trailing, further, output⟩, rest)

def isFunctionWord (name : String) : Bool := name == "fn" || name == "unsafe" || name == "extern"

/-- What a binder may introduce: a function or a path with a name at its head. -/
def boundType (plus : Bool) (binder : Binder) : Reader TypeExpr := fun tokens =>
  match tokens with
  | .ident name _ :: _ =>
      if isFunctionWord name then parts.functionType (some binder) tokens
      else if isPathWord name then parts.pathType plus (some binder) tokens
      else none
  | _ => none

def reference : Reader TypeExpr := fun tokens => do
  let (name, rest) := optional lifetime? tokens
  let (mutable, rest) := flag (word? "mut") rest
  let (target, rest) ← parts.type false rest
  some (.reference name mutable target, rest)

def pointer : Reader TypeExpr := fun tokens =>
  match word? "const" tokens with
  | some rest => do
      let (target, rest) ← parts.type false rest
      some (.pointer false target, rest)
  | none => do
      let rest ← word? "mut" tokens
      let (target, rest) ← parts.type false rest
      some (.pointer true target, rest)

def wordType (plus : Bool) (name : String) (tokens rest : Tokens) :
    Option (TypeExpr × Tokens) :=
  if name = "_" then some (.infer, rest)
  else if name = "for" then do
    let (found, rest) ← binder tokens
    parts.boundType plus found rest
  else if name = "dyn" then do
    let ((found, trailing), rest) ← parts.traitSum plus rest
    some (.object true found trailing, rest)
  else if name = "impl" then do
    let ((found, trailing), rest) ← parts.traitSum plus rest
    some (.existential found trailing, rest)
  else if isFunctionWord name then parts.functionType none tokens
  else if isPathWord name then parts.pathType plus none tokens
  else none

def typeStep (plus : Bool) : Reader TypeExpr := fun tokens =>
  match tokens with
  | .ident name _ :: rest => parts.wordType plus name tokens rest
  | .group .paren inner _ :: rest => parts.parenthesised plus inner rest
  | .group .bracket inner _ :: rest => parts.bracketed inner rest
  | .punct '&' _ _ :: rest => parts.reference rest
  | .punct '*' _ _ :: rest => parts.pointer rest
  | .punct '<' _ _ :: rest => parts.qualifiedRest rest
  | .punct '!' _ _ :: rest => some (.never, rest)
  | .punct '\'' _ _ :: _ => do
      let ((found, trailing), rest) ← parts.traitSum true tokens
      some (.object false found trailing, rest)
  | .punct ':' _ _ :: _ => parts.pathType plus none tokens
  | _ => none

/-! ### The readers themselves -/

def rounds : Nat → TypeReader
  | 0 => ⟨fun _ _ => none, fun _ => none⟩
  | count + 1 => ⟨(rounds count).typeStep, (rounds count).pathStep⟩

end TypeReader

open TypeReader

def TypeExpr.read : Reader TypeExpr := fun tokens =>
  (rounds (TokenTree.sizes tokens + 1)).type true tokens

def TypeExpr.ofTokens? (tokens : Tokens) : Option TypeExpr := whole? TypeExpr.read tokens

def TraitBound.ofTokens? (tokens : Tokens) : Option TraitBound :=
  whole? ((rounds (TokenTree.sizes tokens + 1)).traitBound false) tokens

def Bound.listOfTokens? (tokens : Tokens) : Option (List Bound) :=
  (whole? ((rounds (TokenTree.sizes tokens + 1)).bounds true) tokens).map Prod.fst

end TypeConcepts
