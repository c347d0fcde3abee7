import TypeConcepts.Proofs.Shape.Scan
import TypeConcepts.Proofs.TypeExpr.Completeness

/-!
The text of a type is crossed without changing the depth at which bounds are scanned: the opening
and closing marks in it answer each other, and no comma in it stands outside of them.

This is told by the grammar alone. What the readers take is a text of the grammar.
-/

namespace TypeConcepts

open Shape

theorem Colons.passes {present : Bool} {tokens : Tokens} (colons : Colons present tokens) :
    Passes 0 0 tokens [] := by
  cases colons with
  | absent => exact .refl 0 []
  | present => exact .colons _ _ _ _

theorem Keyword.passes {name : String} {present : Bool} {tokens : Tokens}
    (keyword : Keyword name present tokens) : Passes 0 0 tokens [] := by
  cases keyword with
  | absent => exact .refl 0 []
  | present => exact .ident _ _ _

theorem Marked.passes {char : Char} {present : Bool} {tokens : Tokens}
    (marked : Marked char present tokens) (plain : char ∉ ['<', '>', ',', '-']) :
    Passes 0 0 tokens [] := by
  cases marked with
  | absent => exact .refl 0 []
  | present => exact .punct plain _ _ _

theorem Named.passes {name : Option String} {tokens : Tokens} (named : Named name tokens) :
    Passes 0 0 tokens [] := by
  cases named with
  | absent => exact .refl 0 []
  | present => exact .lifetime _ _ _ _

theorem Listed.passes {names : List String} {trailing : Bool} {tokens : Tokens}
    (listed : Listed names trailing tokens) : Passes 1 0 tokens [] := by
  induction listed with
  | close => exact .closing _ _ _
  | last => exact (Passes.lifetime _ _ _ _).inside.trans (.closing _ _ _)
  | more others ih => exact (Passes.lifetime _ _ _ _).inside.trans ((Passes.comma _ _ _).trans ih)

theorem Bindings.passes {binder : Option Binder} {tokens : Tokens}
    (bindings : Bindings binder tokens) : Passes 0 0 tokens [] := by
  cases bindings with
  | absent => exact .refl 0 []
  | present listed =>
      exact (Passes.ident _ _ _).trans ((Passes.opening _ _ _).trans listed.passes)

theorem Convention.passes {convention : Option (Option String)} {tokens : Tokens}
    (calling : Convention convention tokens) : Passes 0 0 tokens [] := by
  cases calling with
  | absent => exact .refl 0 []
  | unnamed => exact .ident _ _ _
  | named => exact (Passes.ident _ _ _).trans (.literal _ _ _)

theorem ConstSpelling.passes {source value : Tokens}
    (spelled : ConstSpelling .argument source value) : Passes 0 0 source [] := by
  cases spelled with
  | literalArg => exact .literal _ _ _
  | truth => exact .ident _ _ _
  | negative => exact .signed _ _ _ _ _
  | block => exact .group _ _ _ _

/-- How the text of a phrase is crossed. Arguments close the mark in front of them; what only groups
hold is not looked into. -/
def Phrase.Crossed : Phrase → Tokens → Prop
  | .args .., tokens => Passes 1 0 tokens []
  | .types .., _ | .param .., _ | .params .., _ => True
  | .type .., tokens | .segment _, tokens | .steps _, tokens | .path _, tokens | .arg _, tokens
  | .call _, tokens | .output _, tokens | .view .., tokens | .traitPath _, tokens
  | .traitBound _, tokens | .bound _, tokens | .more .., tokens | .bounds .., tokens
  | .limits .., tokens => Passes 0 0 tokens []

namespace Spelling

theorem crossed {phrase : Phrase} {ending : Ending} {tokens : Tokens}
    (spelled : Spelling phrase ending tokens) : phrase.Crossed tokens := by
  induction spelled with
  | bareSegment word => exact .ident _ _ _
  | openSegment word turbofish inner ih =>
      exact (Passes.ident _ _ _).trans (turbofish.passes.append ((Passes.opening _ _ _).trans ih))
  | moreSteps first others ihFirst ihOthers =>
      exact Passes.append ihFirst ((Passes.colons _ _ _ _).trans ihOthers)
  | path root steps ih => exact root.passes.append ih
  | lifetimeArg => exact .lifetime _ _ _ _
  | constArg read => exact (constant?_eq_some_iff.mp read).passes
  | typeBinding word head inner ihHead ihInner =>
      exact Passes.append ihHead ((Passes.punct (by decide) _ _ _).trans ihInner)
  | constBinding word head read ihHead =>
      have constant := (constant?_eq_some_iff.mp read).passes
      exact Passes.append ihHead ((Passes.punct (by decide) _ _ _).trans constant)
  | constraint word head lone inner ihHead ihInner =>
      obtain ⟨spacing, pos, same⟩ := lone.exists_punct
      cases same
      exact Passes.append ihHead ((Passes.punct (by decide) _ _ _).trans ihInner)
  | closeArgs => exact .closing _ _ _
  | lastArg only ih => exact (Passes.inside ih).append (.closing _ _ _)
  | moreArgs first others ihFirst ihOthers =>
      exact (Passes.inside ihFirst).append ((Passes.comma _ _ _).trans ihOthers)
  | someOutput inner ih => exact (Passes.arrow _ _ _ _).trans ih
  | call first second ihFirst ihSecond => exact (Passes.group _ _ _ _).trans ihSecond
  | calledTrait inner yields turbofish called ihInner ihCalled =>
      exact Passes.append ihInner (turbofish.passes.append ihCalled)
  | traitBound mark bindings inner ih =>
      exact (mark.passes (by decide)).append (bindings.passes.append ih)
  | lifetimeBound => exact .lifetime _ _ _ _
  | trailingPlus ended => exact .punct (by decide) _ _ _
  | moreBounds ended first others ihFirst ihOthers =>
      exact (Passes.punct (by decide) _ _ _).trans (Passes.append ihFirst ihOthers)
  | sum first others ihFirst ihOthers => exact Passes.append ihFirst ihOthers
  | boundType bindings starts inner ih => exact bindings.passes.append ih
  | sumType bindings starts named inner some others ihInner ihOthers =>
      exact bindings.passes.append (Passes.append ihInner ihOthers)
  | invocation bindings starts named plain inner ih =>
      exact bindings.passes.append
        (Passes.append ih ((Passes.punct (by decide) _ _ _).trans (.group _ _ _ _)))
  | someView ended inner ih => exact (Passes.ident _ _ _).trans ih
  | qualified first second third ihFirst ihSecond ihThird =>
      refine (Passes.opening _ _ _).trans
        ((Passes.inside ihFirst).append ((Passes.inside ihSecond).append ?_))
      exact (Passes.closing _ _ _).trans ((Passes.colons _ _ _ _).trans ihThird)
  | reference lifetime kind unticked inner ih =>
      exact (Passes.punct (by decide) _ _ _).trans (lifetime.passes.append (kind.passes.append ih))
  | pointer inner ih =>
      exact (Passes.punct (by decide) _ _ _).trans ((Passes.ident _ _ _).trans ih)
  | never => exact .punct (by decide) _ _ _
  | parenSum _ _ _ _ _ _ ih | relaxedSum _ _ _ _ _ ih => exact (Passes.group _ _ _ _).trans ih
  | wrappedBound | parens | tickedParens | unit | tuple | slice | array => exact .group _ _ _ _
  | infer => exact .ident _ _ _
  | object trait inner ih | existential trait inner ih => exact (Passes.ident _ _ _).trans ih
  | function bindings keyword calling inner result ihInner ihResult =>
      refine bindings.passes.append (keyword.passes.append (calling.passes.append ?_))
      exact (Passes.ident _ _ _).trans ((Passes.group _ _ _ _).trans ihResult)
  | noOutput | noMore | noLimits | noView => exact .refl 0 []
  | lastStep _ ih | typeArg _ ih | plainTrait _ ih | plainBound _ _ ih | oneBound _ ih | limits _ ih
  | pathType _ _ ih | tickedType _ _ _ ih => exact ih
  | noTypes | lastType | moreTypes | bareParam | namedParam | noParams | furtherParams | lastParam
  | moreParams => trivial

end Spelling

theorem TypeExpr.scan_ofTokens? {tokens : Tokens} {type : TypeExpr}
    (found : TypeExpr.ofTokens? tokens = some type) (depth : Nat) :
    scan depth false tokens = some (depth, false) := by
  obtain ⟨ending, spelled⟩ := TypeExpr.ofTokens?_eq_some_iff.mp found
  exact Passes.scan_eq spelled.crossed depth

/-- Scanning over valid bounds ends at the depth where it began. -/
theorem Bound.scan_listOfTokens? {tokens : Tokens} {bounds : List Bound}
    (found : Bound.listOfTokens? tokens = some bounds) (depth : Nat) :
    scan depth false tokens = some (depth, false) := by
  obtain ⟨trailing, ending, spelled⟩ := Bound.listOfTokens?_eq_some_iff.mp found
  exact Passes.scan_eq spelled.crossed depth

end TypeConcepts
