import TypeConcepts.Concept.Expansion
import TypeConcepts.Proofs.Token.Names

/-!
What type expressions mean where names have the meanings of a scope.

Only the parts of a type that a shape can be made of are taken apart. Lifetimes and parentheses add
nothing, and the meaning of any other syntax is a function of its tokens and the scope.
-/

namespace TypeConcepts

open TokenTree

variable {Meaning : Type}

/-- Both scopes give the same meaning to every identifier in the tokens. -/
def AgreeOn (tokens : Tokens) (scope scope' : String → Meaning) : Prop :=
  ∀ name ∈ namesIn tokens, scope name = scope' name

theorem AgreeOn.mono {inner outer : Tokens} {scope scope' : String → Meaning}
    (agree : AgreeOn outer scope scope') (within : namesIn inner ⊆ namesIn outer) :
    AgreeOn inner scope scope' :=
  fun name member => agree name (within member)

theorem agreeOn_append {left right : Tokens} {scope scope' : String → Meaning} :
    AgreeOn (left ++ right) scope scope' ↔
      AgreeOn left scope scope' ∧ AgreeOn right scope scope' := by
  simp only [AgreeOn, namesIn_append, List.forall_mem_append]

theorem agreeOn_cons {tree : TokenTree} {rest : Tokens} {scope scope' : String → Meaning} :
    AgreeOn (tree :: rest) scope scope' ↔
      (∀ name ∈ tree.names, scope name = scope' name) ∧ AgreeOn rest scope scope' := by
  simp only [AgreeOn, namesIn, List.forall_mem_append]

/-- How a language builds types from the meanings of their parts, and which bounds they meet. -/
structure Language (Meaning : Type) where
  path : (head : Meaning) → (args : List Meaning) → (rest : List (String × List Meaning)) → Meaning
  rooted : List (String × List Meaning) → Meaning
  tuple : List Meaning → Meaning
  slice : Meaning → Meaning
  array : (item length : Meaning) → Meaning
  reference : (mutable : Bool) → Meaning → Meaning
  pointer : (mutable : Bool) → Meaning → Meaning
  verbatim : (scope : String → Meaning) → Tokens → Meaning
  /-- A type whose size is known. -/
  sized : Meaning → Prop
  meets : (scope : String → Meaning) → (bounds : Tokens) → Meaning → Prop
  path_bare : ∀ head, path head [] [] = head
  verbatim_agree : ∀ {scope scope' : String → Meaning} {tokens : Tokens},
    AgreeOn tokens scope scope' → verbatim scope tokens = verbatim scope' tokens
  meets_agree : ∀ {scope scope' : String → Meaning} {bounds : Tokens},
    AgreeOn bounds scope scope' → meets scope bounds = meets scope' bounds
  meets_relaxed : ∀ {scope : String → Meaning} {bounds : Tokens} {type : Meaning},
    meets scope (relaxedSize ++ mark '+' :: bounds) type ↔ meets scope bounds type

namespace Language

variable (language : Language Meaning) (scope : String → Meaning)

mutual

def type : TypeExpr → Meaning
  | .path path => pathType path
  | .paren inner => type inner
  | .tuple items _ => language.tuple (types items)
  | .slice item => language.slice (type item)
  | .array item length => language.array (type item) (language.verbatim scope length)
  | .reference _ mutable target => language.reference mutable (type target)
  | .pointer mutable target => language.pointer mutable (type target)
  | .qualified self trait rest =>
      language.verbatim scope (TypeExpr.qualified self trait rest).tokens
  | .invocation path body => language.verbatim scope (TypeExpr.invocation path body).tokens
  | .never => language.verbatim scope TypeExpr.never.tokens
  | .infer => language.verbatim scope TypeExpr.infer.tokens
  | .object keyword bounds trailing =>
      language.verbatim scope (TypeExpr.object keyword bounds trailing).tokens
  | .existential bounds trailing =>
      language.verbatim scope (TypeExpr.existential bounds trailing).tokens
  | .function signature => language.verbatim scope signature.tokens

def types : List TypeExpr → List Meaning
  | [] => []
  | item :: rest => type item :: types rest

/-- The scope tells what the first name of a path means, unless the path has a root. -/
def pathType : Path → Meaning
  | ⟨_, true, segments⟩ => language.rooted (segmentList segments)
  | ⟨_, false, []⟩ => language.rooted []
  | ⟨_, false, ⟨name, args⟩ :: rest⟩ =>
      language.path (scope (plainName name)) (pathArgs args) (segmentList rest)

def segmentList : List Segment → List (String × List Meaning)
  | [] => []
  | ⟨name, args⟩ :: rest => (plainName name, pathArgs args) :: segmentList rest

def pathArgs : PathArgs → List Meaning
  | .none => []
  | .angle _ args _ => genericArgs args
  | .call pos inputs trailing output =>
      [language.verbatim scope (PathArgs.call pos inputs trailing output).tokens]

def genericArgs : List GenericArg → List Meaning
  | [] => []
  | arg :: rest => genericArg arg ++ genericArgs rest

def genericArg : GenericArg → List Meaning
  | .lifetime _ _ => []
  | .type item => [type item]
  | .const _ value => [language.verbatim scope value]
  | .typeBinding pos name args value =>
      [language.verbatim scope (GenericArg.typeBinding pos name args value).tokens]
  | .constBinding pos name args value =>
      [language.verbatim scope (GenericArg.constBinding pos name args value).tokens]
  | .constraint pos name args bounds trailing =>
      [language.verbatim scope (GenericArg.constraint pos name args bounds trailing).tokens]

end

/-! ### Lexical scope -/

section Agreement

variable {language : Language Meaning} {scope scope' : String → Meaning}

mutual

/-- The meaning of a type depends on the scope at the identifiers of its tokens only. -/
theorem type_agree : ∀ expression : TypeExpr, AgreeOn expression.tokens scope scope' →
    language.type scope expression = language.type scope' expression
  | .path path, agree => by
      rw [TypeExpr.tokens] at agree
      simp only [type]
      exact pathType_agree path agree
  | .paren inner, agree => by
      rw [TypeExpr.tokens, agreeOn_cons, names_delimited] at agree
      simp only [type]
      exact type_agree inner agree.1
  | .tuple items trailing, agree => by
      rw [TypeExpr.tokens, agreeOn_cons, names_delimited] at agree
      simp only [type]
      rw [types_agree items fun item member =>
        AgreeOn.mono agree.1 (namesIn_subset_separated _ _ member)]
  | .slice item, agree => by
      rw [TypeExpr.tokens, agreeOn_cons, names_delimited] at agree
      simp only [type]
      rw [type_agree item agree.1]
  | .array item length, agree => by
      rw [TypeExpr.tokens, agreeOn_cons, names_delimited] at agree
      have parts := agreeOn_append.mp agree.1
      simp only [type]
      rw [type_agree item parts.1, language.verbatim_agree (agreeOn_cons.mp parts.2).2]
  | .reference name mutable target, agree => by
      rw [TypeExpr.tokens, agreeOn_append] at agree
      simp only [type]
      rw [type_agree target agree.2]
  | .pointer mutable target, agree => by
      rw [TypeExpr.tokens, agreeOn_append] at agree
      simp only [type]
      rw [type_agree target agree.2]
  | .qualified _ _ _, agree
  | .invocation _ _, agree
  | .never, agree
  | .infer, agree
  | .object _ _ _, agree
  | .existential _ _, agree => by
      simp only [type]
      exact language.verbatim_agree agree
  | .function signature, agree => by
      rw [TypeExpr.tokens] at agree
      simp only [type]
      exact language.verbatim_agree agree

theorem types_agree : ∀ items : List TypeExpr,
    (∀ item ∈ typeLists items, AgreeOn item scope scope') →
      language.types scope items = language.types scope' items
  | [], _ => rfl
  | item :: rest, agree => by
      rw [typeLists, List.forall_mem_cons] at agree
      simp only [types]
      rw [type_agree item agree.1, types_agree rest agree.2]

theorem pathType_agree : ∀ path : Path, AgreeOn path.tokens scope scope' →
    language.pathType scope path = language.pathType scope' path
  | ⟨_, true, segments⟩, agree => by
      rw [Path.tokens, agreeOn_append] at agree
      simp only [pathType]
      rw [segmentList_agree segments agree.2]
  | ⟨_, false, []⟩, _ => by
      simp only [pathType]
  | ⟨_, false, [⟨name, args⟩]⟩, agree => by
      rw [Path.tokens, agreeOn_append, segmentTokens, Segment.tokens, agreeOn_cons] at agree
      simp only [pathType, segmentList]
      rw [agree.2.1 (plainName name) (by simp), pathArgs_agree args agree.2.2]
  | ⟨_, false, ⟨name, args⟩ :: second :: rest⟩, agree => by
      rw [Path.tokens, agreeOn_append, segmentTokens_cons_cons, agreeOn_append, agreeOn_append,
        Segment.tokens, agreeOn_cons] at agree
      simp only [pathType]
      rw [agree.2.1.1.1 (plainName name) (by simp), pathArgs_agree args agree.2.1.1.2,
        segmentList_agree (second :: rest) agree.2.2]

theorem segmentList_agree : ∀ segments : List Segment,
    AgreeOn (segmentTokens segments) scope scope' →
      language.segmentList scope segments = language.segmentList scope' segments
  | [], _ => rfl
  | [⟨name, args⟩], agree => by
      rw [segmentTokens, Segment.tokens, agreeOn_cons] at agree
      simp only [segmentList]
      rw [pathArgs_agree args agree.2]
  | ⟨name, args⟩ :: second :: rest, agree => by
      rw [segmentTokens_cons_cons, agreeOn_append, agreeOn_append, Segment.tokens,
        agreeOn_cons] at agree
      rw [segmentList, segmentList]
      rw [pathArgs_agree args agree.1.1.2, segmentList_agree (second :: rest) agree.2]

theorem pathArgs_agree : ∀ args : PathArgs, AgreeOn args.tokens scope scope' →
    language.pathArgs scope args = language.pathArgs scope' args
  | .none, _ => rfl
  | .angle doubleColon args trailing, agree => by
      rw [PathArgs.tokens, agreeOn_append, agreeOn_append, agreeOn_cons] at agree
      simp only [pathArgs]
      exact genericArgs_agree args fun isLifetime tokens member =>
        AgreeOn.mono agree.1.2.2 (namesIn_subset_argList _ member)
  | .call pos inputs trailing output, agree => by
      simp only [pathArgs]
      rw [language.verbatim_agree agree]

theorem genericArgs_agree : ∀ args : List GenericArg,
    (∀ isLifetime tokens, (isLifetime, tokens) ∈ argLists args → AgreeOn tokens scope scope') →
      language.genericArgs scope args = language.genericArgs scope' args
  | [], _ => rfl
  | arg :: rest, agree => by
      have first := agree arg.isLifetime arg.tokens (by rw [argLists]; exact List.mem_cons_self)
      have later := fun isLifetime tokens member =>
        agree isLifetime tokens (by rw [argLists]; exact List.mem_cons_of_mem _ member)
      simp only [genericArgs]
      rw [genericArg_agree arg first, genericArgs_agree rest later]

theorem genericArg_agree : ∀ arg : GenericArg, AgreeOn arg.tokens scope scope' →
    language.genericArg scope arg = language.genericArg scope' arg
  | .lifetime _ _, _ => rfl
  | .type item, agree => by
      rw [GenericArg.tokens] at agree
      simp only [genericArg]
      rw [type_agree item agree]
  | .const _ value, agree => by
      rw [GenericArg.tokens] at agree
      simp only [genericArg]
      rw [language.verbatim_agree agree]
  | .typeBinding _ _ _ _, agree
  | .constBinding _ _ _ _, agree
  | .constraint _ _ _ _ _, agree => by
      simp only [genericArg]
      rw [language.verbatim_agree agree]

end

end Agreement

end Language

end TypeConcepts
