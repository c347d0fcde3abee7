import TypeConcepts.TypeExpr.Basic

/-!
The tokens of a type expression, with uniform spacing: each operator of one character stands alone,
and in a longer one all characters but the last are joint.
-/

namespace TypeConcepts

open TokenTree

/-- Members one after another, each with its own separator; the last has one if `trailing`. -/
def separated (separator : Char) (trailing : Bool) : List Tokens → Tokens
  | [] => []
  | [item] => item ++ if trailing then [mark separator] else []
  | item :: rest => item ++ mark separator :: separated separator trailing rest

/-- One generic argument on its way into a list: whether it is a lifetime, its tokens, and whether
a comma follows it. -/
structure ArgEntry where
  isLifetime : Bool
  tokens : Tokens
  comma : Bool

def ArgEntry.own (entry : ArgEntry) : Tokens :=
  entry.tokens ++ if entry.comma then [mark ','] else []

def argEntries (trailing : Bool) : List (Bool × Tokens) → List ArgEntry
  | [] => []
  | [(isLifetime, tokens)] => [⟨isLifetime, tokens, trailing⟩]
  | (isLifetime, tokens) :: rest => ⟨isLifetime, tokens, true⟩ :: argEntries trailing rest

/-- Arguments that are no lifetimes; a comma is put where the one before has none. -/
def layArgs (closed : Bool) : List ArgEntry → Tokens
  | [] => []
  | entry :: rest =>
      (if closed then [] else [mark ',']) ++ entry.own ++ layArgs entry.comma rest

/-- A list of generic arguments has its lifetimes first; every argument keeps its own comma. -/
def argList (trailing : Bool) (args : List (Bool × Tokens)) : Tokens :=
  let entries := argEntries trailing args
  let lifetimes := entries.filter (·.isLifetime)
  lifetimes.flatMap ArgEntry.own ++
    layArgs ((lifetimes.getLast?.map ArgEntry.comma).getD true)
      (entries.filter fun entry => !entry.isLifetime)

def Binder.tokens (binder : Binder) : Tokens :=
  word "for" :: mark '<' :: separated ',' binder.trailing (binder.lifetimes.map lifetime) ++
    [mark '>']

def binderTokens : Option Binder → Tokens
  | none => []
  | some binder => binder.tokens

def access (mutable : Bool) : Tokens := [word (if mutable then "mut" else "const")]

def named : Option String → Tokens
  | none => []
  | some name => [word name, mark ':']

def GenericArg.isLifetime : GenericArg → Bool
  | .lifetime .. => true
  | _ => false

def ellipsis : Tokens := operator ['.', '.', '.']

mutual

def TypeExpr.tokens : TypeExpr → Tokens
  | .path path => path.tokens
  | .qualified self trait rest =>
      mark '<' :: self.tokens ++ traitTokens trait ++ mark '>' :: operator [':', ':'] ++
        segmentTokens rest
  | .invocation path body => path.tokens ++ [mark '!', body]
  | .reference name mutable target =>
      mark '&' :: (name.map lifetime).getD [] ++ (if mutable then [word "mut"] else []) ++
        target.tokens
  | .pointer mutable target => mark '*' :: access mutable ++ target.tokens
  | .paren inner => [delimited .paren inner.tokens]
  | .tuple items trailing => [delimited .paren (separated ',' trailing (typeLists items))]
  | .slice item => [delimited .bracket item.tokens]
  | .array item length => [delimited .bracket (item.tokens ++ mark ';' :: length)]
  | .never => [mark '!']
  | .infer => [word "_"]
  | .object keyword bounds trailing =>
      (if keyword then [word "dyn"] else []) ++ separated '+' trailing (boundLists bounds)
  | .existential bounds trailing => word "impl" :: separated '+' trailing (boundLists bounds)
  | .function signature => signature.tokens

def typeLists : List TypeExpr → List Tokens
  | [] => []
  | type :: rest => type.tokens :: typeLists rest

def traitTokens : Option Path → Tokens
  | none => []
  | some path => word "as" :: path.tokens

def Path.tokens : Path → Tokens
  | ⟨_, rooted, segments⟩ =>
      (if rooted then operator [':', ':'] else []) ++ segmentTokens segments

def segmentTokens : List Segment → Tokens
  | [] => []
  | [segment] => segment.tokens
  | segment :: rest => segment.tokens ++ operator [':', ':'] ++ segmentTokens rest

def Segment.tokens : Segment → Tokens
  | ⟨name, args⟩ => word name :: args.tokens

def PathArgs.tokens : PathArgs → Tokens
  | .none => []
  | .angle doubleColon args trailing =>
      (if doubleColon then operator [':', ':'] else []) ++ mark '<' ::
        argList trailing (argLists args) ++ [mark '>']
  | .call _ inputs trailing output =>
      delimited .paren (separated ',' trailing (typeLists inputs)) :: outputTokens output

def outputTokens : Option TypeExpr → Tokens
  | none => []
  | some output => operator ['-', '>'] ++ output.tokens

def argLists : List GenericArg → List (Bool × Tokens)
  | [] => []
  | arg :: rest => (arg.isLifetime, arg.tokens) :: argLists rest

def GenericArg.tokens : GenericArg → Tokens
  | .lifetime _ name => lifetime name
  | .type type => type.tokens
  | .const _ value => value
  | .typeBinding _ name args value => word name :: args.tokens ++ mark '=' :: value.tokens
  | .constBinding _ name args value => word name :: args.tokens ++ mark '=' :: value
  | .constraint _ name args bounds trailing =>
      word name :: args.tokens ++ mark ':' :: separated '+' trailing (boundLists bounds)

def boundLists : List Bound → List Tokens
  | [] => []
  | bound :: rest => bound.tokens :: boundLists rest

def Bound.tokens : Bound → Tokens
  | .lifetime name => lifetime name
  | .trait bound => bound.tokens

def TraitBound.tokens : TraitBound → Tokens
  | ⟨wrapped, relaxed, binder, path⟩ =>
      let inner := (if relaxed then [mark '?'] else []) ++ binderTokens binder ++ path.tokens
      if wrapped then [delimited .paren inner] else inner

def Signature.tokens : Signature → Tokens
  | ⟨binder, isUnsafe, abi, params, trailing, variadic, output⟩ =>
      binderTokens binder ++ (if isUnsafe then [word "unsafe"] else []) ++
        (match abi with
          | none => []
          | some none => [word "extern"]
          | some (some name) => [word "extern", .literal name 0]) ++
        word "fn" :: delimited .paren
          (separated ',' trailing (paramLists params) ++
            match variadic with
            | none => []
            | some (name, comma) =>
                named name ++ ellipsis ++ if comma then [mark ','] else []) ::
        outputTokens output

def paramLists : List Param → List Tokens
  | [] => []
  | param :: rest => param.tokens :: paramLists rest

def Param.tokens : Param → Tokens
  | ⟨name, type⟩ => named name ++ type.tokens

end

end TypeConcepts
