import TypeConcepts.Environment.Bound
import TypeConcepts.Environment.Predicate
import TypeConcepts.Request
import TypeConcepts.Scalar.Construct
import TypeConcepts.Session.Run
import TypeConcepts.Shape.Expansion
import TypeConcepts.Text.Blank
import TypeConcepts.Text.Identifier
import TypeConcepts.Text.Uppercase
import TypeConcepts.Token.Lexeme
import TypeConcepts.Token.Render
import TypeConcepts.Token.Source
import TypeConcepts.Truth.Constant
import TypeConcepts.Truth.Machine
import TypeConcepts.Ty.Match
import TypeConcepts.Ty.Resolve
import TypeConcepts.TypeExpr.Reader
import TypeConcepts.TypeExpr.Tokens
import TypeConcepts.Universe.Answer
import TypeConcepts.Universe.Build
import TypeConcepts.Universe.Facts
import TypeConcepts.Universe.Implements
import TypeConcepts.Proofs.Formula.Grammar
import TypeConcepts.Proofs.Check.Grammar
import TypeConcepts.Proofs.Check.Meaning
import TypeConcepts.Proofs.Check.TraitBound
import TypeConcepts.Proofs.Shape.Scan
import TypeConcepts.Proofs.Probe.Language
import TypeConcepts.Proofs.Probe.Selection
import TypeConcepts.Proofs.Probe.Hygiene
import TypeConcepts.Proofs.Shape.Meaning
import TypeConcepts.Proofs.Shape.Spelling
import TypeConcepts.Proofs.Shape.Filling
import TypeConcepts.Proofs.Shape.Reading
import TypeConcepts.Proofs.Shape.Instance
import TypeConcepts.Proofs.TypeExpr.Conservation
import TypeConcepts.Proofs.Shape.Fresh
import TypeConcepts.Proofs.Shape.Refill
import TypeConcepts.Proofs.Exchange.Dispatch
import TypeConcepts.Proofs.Store.Stretch
import TypeConcepts.Proofs.Store.Transposition
import TypeConcepts.Proofs.Store.Step
import TypeConcepts.Proofs.Session.Exchange
import TypeConcepts.Proofs.Environment.Surfaces
import TypeConcepts.Proofs.TypeExpr.Constant
import TypeConcepts.Proofs.TypeExpr.Printed
import TypeConcepts.Proofs.Check.Routes
import TypeConcepts.Proofs.Check.WellFormed
import TypeConcepts.Proofs.Environment.Decay
import TypeConcepts.Proofs.Shape.Pattern
import TypeConcepts.Proofs.Environment.Nothrow
import TypeConcepts.Proofs.Environment.Coherence
import TypeConcepts.Proofs.Environment.Monotone
import TypeConcepts.Proofs.Session.Assign
import TypeConcepts.Proofs.Shape.Search
import TypeConcepts.Proofs.Concept.Name
