import TypeConcepts.Concept.Check
import TypeConcepts.Concept.Lookup
import TypeConcepts.TypeExpr.Tokens

/-!
The code that checks expand to: a boolean expression with one atom for each leaf.

A leaf that refers to a concept becomes a call of the concept's predicate; any other leaf becomes a
block that probes it as a trait bound. The probe declares a trait whose constant is false for every
type, and an inherent constant that is true where the bound holds and then takes precedence.
-/

namespace TypeConcepts

open TokenTree

def pathSep : Tokens := operator [':', ':']

def angled (inner : Tokens) : Tokens := mark '<' :: inner ++ [mark '>']

def relaxedSize : Tokens := [mark '?', word "Sized"]

def valueConst (value : String) : Tokens :=
  [word "const", word "VAL", mark ':', word "bool", mark '=', word value, mark ';']

/-- The block of a probe. The `fallback` trait answers false; `impl` is the head of the
implementation that answers true. -/
def probeBlock (fallback : String) (impl subject : Tokens) : TokenTree :=
  let anyType := angled (word "X" :: mark ':' :: relaxedSize)
  delimited .brace
    ([word "trait", word fallback, delimited .brace (valueConst "false")]
      ++ [word "struct", word "__Probe"] ++ anyType
      ++ [delimited .paren (pathSep ++ [word "core"] ++ pathSep ++ [word "marker"] ++ pathSep
            ++ [word "PhantomData"] ++ angled [word "X"]), mark ';']
      ++ [word "impl"] ++ anyType ++ [word fallback, word "for", word "__Probe"]
      ++ angled [word "X"] ++ [delimited .brace []]
      ++ impl
      ++ [delimited .brace
            ([mark '#', delimited .bracket [word "allow", delimited .paren [word "dead_code"]]]
              ++ valueConst "true")]
      ++ [word "__Probe"] ++ pathSep ++ angled subject ++ pathSep ++ [word "VAL"])

def boundProbe (bound subject : Tokens) : TokenTree :=
  probeBlock "__ProbeFallback"
    ([word "impl"] ++ angled (word "X" :: mark ':' :: relaxedSize ++ mark '+' :: bound)
      ++ [word "__Probe"] ++ angled [word "X"])
    subject

def predicateCall (predicate : String) (subject : Tokens) (args : List Tokens) : Tokens :=
  pathSep ++ [word "tola_concepts"] ++ pathSep ++ [word predicate, mark '!',
    delimited .paren (subject ++ args.flatMap (mark ',' :: ·))]

def ConceptRef.call (ref : ConceptRef) (subject : TypeExpr) : Tokens :=
  predicateCall ref.concept.predicate subject.tokens (ref.args.map TypeExpr.tokens)

def expandLeaf (subject leaf : TypeExpr) : Except Complaint Tokens :=
  match ConceptRef.ofType leaf with
  | .error complaint => .error complaint
  | .ok none => .ok [boundProbe leaf.tokens subject.tokens]
  | .ok (some ref) => .ok (ref.call subject)

/-- The code of a formula; each connective has parentheses of its own. The first leaf in source
order without code decides the complaint. -/
def Formula.expand {α : Type} (atom : α → Except Complaint Tokens) :
    Formula α → Except Complaint Tokens
  | .leaf value => atom value
  | .and left right => do
      let left ← left.expand atom
      let right ← right.expand atom
      .ok [delimited .paren (left ++ operator ['&', '&'] ++ right)]
  | .or left right => do
      let left ← left.expand atom
      let right ← right.expand atom
      .ok [delimited .paren (left ++ operator ['|', '|'] ++ right)]
  | .not operand => do
      let operand ← operand.expand atom
      .ok [delimited .paren (mark '!' :: operand)]

def Check.expand (check : Check TypeExpr) : Except Complaint Tokens :=
  check.formula.expand (expandLeaf check.subject)

def expandEach : List (Check TypeExpr) → Except Complaint (List Tokens)
  | [] => .ok []
  | check :: rest => do
      let first ← check.expand
      let others ← expandEach rest
      .ok (first :: others)

def conjunction : List Tokens → Tokens
  | [] => []
  | [only] => only
  | first :: rest => first ++ operator ['&', '&'] ++ conjunction rest

/-- All checks must hold. -/
def expandChecks (checks : List (Check TypeExpr)) : Except Complaint Tokens := do
  let parts ← expandEach checks
  .ok [delimited .paren (conjunction parts)]

end TypeConcepts
