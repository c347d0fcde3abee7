import TypeConcepts.Proofs.Token.Conservation
import TypeConcepts.Proofs.TypeExpr.Printed

/-!
Reading a type and printing it again keeps the identifiers of the text, at any depth. Only spacing,
commas and the place of lifetimes change; the one thing that is lost is a binder in front of a call
with a bang, and with it the names of some lifetimes.

This is told by the grammar alone, phrase by phrase. What the readers take is a text of the grammar.
-/

namespace TypeConcepts

open TokenTree TypeReader

variable {name : String}

theorem occurrences_separated (separator : Char) (trailing : Bool) (items : List Tokens) :
    occurrences name (separated separator trailing items) = occurrences name items.flatten := by
  induction items with
  | nil => rfl
  | cons item rest ih =>
      cases rest with
      | nil => cases trailing <;> simp [separated]
      | cons second others =>
          rw [separated_cons_cons, occurrences_append, occurrences_mark, ih]
          exact (occurrences_append _ _).symm

@[simp]
theorem occurrences_types (trailing : Bool) (types : List TypeExpr) :
    occurrences name (separated ',' trailing (typeLists types)) =
      occurrences name (types.flatMap TypeExpr.tokens) := by
  rw [occurrences_separated, typeLists_eq_map, List.flatMap_def]

@[simp]
theorem occurrences_bounds (trailing : Bool) (bounds : List Bound) :
    occurrences name (separated '+' trailing (boundLists bounds)) =
      occurrences name (bounds.flatMap Bound.tokens) := by
  rw [occurrences_separated, boundLists_eq_map, List.flatMap_def]

@[simp]
theorem occurrences_params (trailing : Bool) (params : List Param) :
    occurrences name (separated ',' trailing (paramLists params)) =
      occurrences name (params.flatMap Param.tokens) := by
  rw [occurrences_separated, paramLists_eq_map, List.flatMap_def]

@[simp]
theorem occurrences_segmentTokens (segments : List Segment) :
    occurrences name (segmentTokens segments) =
      occurrences name (segments.flatMap Segment.tokens) := by
  induction segments with
  | nil => rfl
  | cons segment rest ih =>
      cases rest with
      | nil => simp [segmentTokens]
      | cons second others =>
          rw [segmentTokens_cons_cons, occurrences_append, occurrences_append,
            occurrences_operator, ih, Nat.add_zero]
          exact (occurrences_append _ _).symm

theorem occurrences_own (entry : ArgEntry) :
    occurrences name entry.own = occurrences name entry.tokens := by
  cases comma : entry.comma <;> simp [ArgEntry.own, comma]

theorem occurrences_layArgs (closed : Bool) (entries : List ArgEntry) :
    occurrences name (layArgs closed entries) =
      occurrences name (entries.flatMap ArgEntry.tokens) := by
  induction entries generalizing closed with
  | nil => rfl
  | cons entry rest ih =>
      rw [layArgs, occurrences_append, occurrences_append, occurrences_own, ih]
      cases closed <;> simp

theorem occurrences_flatMap_own (entries : List ArgEntry) :
    occurrences name (entries.flatMap ArgEntry.own) =
      occurrences name (entries.flatMap ArgEntry.tokens) := by
  induction entries with
  | nil => rfl
  | cons entry rest ih =>
      rw [List.flatMap_cons, List.flatMap_cons, occurrences_append, occurrences_append,
        occurrences_own, ih]

theorem occurrences_argEntries (trailing : Bool) (args : List (Bool × Tokens)) :
    occurrences name ((argEntries trailing args).flatMap ArgEntry.tokens) =
      occurrences name (args.flatMap Prod.snd) := by
  induction args with
  | nil => rfl
  | cons arg rest ih =>
      cases rest with
      | nil => rfl
      | cons second others =>
          rw [argEntries, List.flatMap_cons, occurrences_append, ih]
          · exact (occurrences_append _ _).symm
          · exact List.cons_ne_nil second others

theorem occurrences_argList (trailing : Bool) (args : List (Bool × Tokens)) :
    occurrences name (argList trailing args) = occurrences name (args.flatMap Prod.snd) := by
  have parted : ∀ entries : List ArgEntry,
      occurrences name ((entries.filter (·.isLifetime)).flatMap ArgEntry.tokens) +
          occurrences name
            ((entries.filter fun entry => !entry.isLifetime).flatMap ArgEntry.tokens) =
        occurrences name (entries.flatMap ArgEntry.tokens) := by
    intro entries
    induction entries with
    | nil => rfl
    | cons entry rest ih =>
        cases kind : entry.isLifetime <;> simp [kind] at ih ⊢ <;> omega
  rw [argList, occurrences_append, occurrences_flatMap_own, occurrences_layArgs, parted,
    occurrences_argEntries]

@[simp]
theorem occurrences_args (trailing : Bool) (args : List GenericArg) :
    occurrences name (argList trailing (argLists args)) =
      occurrences name (args.flatMap GenericArg.tokens) := by
  rw [occurrences_argList, argLists_eq_map, List.flatMap_map]

@[simp]
theorem occurrences_traitBound (wrapped relaxed : Bool) (binder : Option Binder) (path : Path) :
    occurrences name (TraitBound.tokens ⟨wrapped, relaxed, binder, path⟩) =
      occurrences name (binderTokens binder) + occurrences name path.tokens := by
  cases wrapped <;> cases relaxed <;> simp [TraitBound.tokens]

theorem occurrences_of_yieldsToCall {args : PathArgs} (yields : yieldsToCall args = true) :
    occurrences name args.tokens = 0 := by
  cases args with
  | none => simp [PathArgs.tokens]
  | angle doubleColon args trailing =>
      have empty : args = [] := List.isEmpty_iff.mp yields
      subst empty
      cases doubleColon <;> simp [PathArgs.tokens]
  | call => cases yields

theorem occurrences_of_asBound {type : TypeExpr} {bound : Bound}
    (found : asBound type = some bound) :
    occurrences name bound.tokens = occurrences name type.tokens := by
  unfold asBound at found
  split at found
  · cases found
    simp [Bound.tokens, TypeExpr.tokens, binderTokens]
  · rename_i inner
    cases found
    cases inner
    simp [Bound.tokens, TypeExpr.tokens]
  · cases found
    simp [Bound.tokens, TypeExpr.tokens]
  · cases found

/-! ### Words and marks -/

theorem Colons.keeps {present : Bool} {tokens : Tokens} (colons : Colons present tokens) :
    Keeps name tokens [] [] := by
  cases colons with
  | absent => exact .refl []
  | present => exact (Keeps.punct _ _ _ _).skip

theorem Keyword.keeps {keyword : String} {present : Bool} {tokens : Tokens}
    (words : Keyword keyword present tokens) :
    Keeps name tokens (if present then [word keyword] else []) [] := by
  cases words with
  | absent => exact .refl []
  | present => exact .ident _ _ _

theorem Marked.keeps {char : Char} {present : Bool} {tokens : Tokens}
    (marked : Marked char present tokens) : Keeps name tokens [] [] := by
  cases marked with
  | absent => exact .refl []
  | present => exact .punct _ _ _ _

theorem Named.keeps {life : Option String} {tokens : Tokens} (named : Named life tokens) :
    Keeps name tokens ((life.map lifetime).getD []) [] := by
  cases named with
  | absent => exact .refl []
  | present => exact .lifetime _ _ _ _

theorem Listed.keeps {names : List String} {trailing : Bool} {tokens : Tokens}
    (listed : Listed names trailing tokens) :
    Keeps name tokens (names.flatMap lifetime) [] ∧ Keeps name tokens [] [] := by
  induction listed with
  | close => exact ⟨.punct _ _ _ _, .punct _ _ _ _⟩
  | last =>
      exact ⟨((Keeps.lifetime _ _ _ _).trans (.punct _ _ _ _)).as (by simp),
        (Keeps.skipLifetime _ _ _ _).trans (.punct _ _ _ _)⟩
  | more others ih =>
      obtain ⟨printed, leftOut⟩ := ih
      exact ⟨(Keeps.lifetime _ _ _ _).trans printed.skip,
        (Keeps.skipLifetime _ _ _ _).trans leftOut.skip⟩

theorem Bindings.keeps {binder : Option Binder} {tokens : Tokens}
    (bindings : Bindings binder tokens) : Keeps name tokens (binderTokens binder) [] := by
  cases bindings with
  | absent => exact .refl []
  | present listed =>
      refine ((Keeps.ident _ _ _).trans listed.keeps.1.skip).as ?_
      simp [binderTokens, Binder.tokens, occurrences_separated, List.flatMap_def]

theorem Bindings.leftOut {binder : Option Binder} {tokens : Tokens} (other : name ≠ "for")
    (bindings : Bindings binder tokens) : Keeps name tokens [] [] := by
  cases bindings with
  | absent => exact .refl []
  | present listed =>
      have different : "for" ≠ name := other.symm
      refine ((Keeps.ident _ _ _).trans listed.keeps.2.skip).as ?_
      simp [plainName, different]

theorem Convention.keeps {convention : Option (Option String)} {tokens : Tokens}
    (calling : Convention convention tokens) :
    Keeps name tokens (conventionTokens convention) [] := by
  cases calling with
  | absent => exact .refl []
  | unnamed => exact .ident _ _ _
  | named =>
      exact ((Keeps.ident _ _ _).trans (.literal _ _ _)).as (by simp [conventionTokens])

theorem Variadic.keeps {further : Option String × Bool} {tokens : Tokens}
    (dots : Variadic further tokens) : Keeps name tokens (dotTokens (some further)) [] := by
  cases dots with
  | @unnamed comma _ _ _ _ _ closed =>
      refine closed.keeps.skip.skip.skip.as ?_
      cases comma <;> simp [dotTokens, ellipsis, TypeConcepts.named]
  | @named _ comma _ _ _ _ _ _ _ _ word closed =>
      refine ((Keeps.ident _ _ _).trans closed.keeps.skip.skip.skip.skip).as ?_
      cases comma <;> simp [dotTokens, ellipsis, TypeConcepts.named]

/-! ### Phrases -/

/-- What is printed for a phrase, up to punctuation. -/
@[simp]
def Phrase.printed : Phrase → Tokens
  | .type _ value => value.tokens
  | .types values _ => values.flatMap TypeExpr.tokens
  | .segment value => value.tokens
  | .steps values => values.flatMap Segment.tokens
  | .path value | .traitPath value => value.tokens
  | .arg value => value.tokens
  | .args values _ => values.flatMap GenericArg.tokens
  | .call value => value.tokens
  | .output value => outputTokens value
  | .view _ value => traitTokens value
  | .traitBound value => value.tokens
  | .bound value => value.tokens
  | .more _ values _ | .bounds _ values _ | .limits values _ => values.flatMap Bound.tokens
  | .param _ value => value.tokens
  | .params _ values _ further => values.flatMap Param.tokens ++ dotTokens further

namespace Spelling

theorem keeps {phrase : Phrase} {ending : Ending} {tokens : Tokens} (other : name ≠ "for")
    (spelled : Spelling phrase ending tokens) : Keeps name tokens phrase.printed [] := by
  induction spelled with
  | bareSegment word => exact (Keeps.ident _ _ _).as (by simp [Segment.tokens, PathArgs.tokens])
  | @openSegment _ _ _ doubleColon _ _ _ _ _ _ word turbofish inner ih =>
      refine ((Keeps.ident _ _ _).trans (turbofish.keeps.append ih.skip)).as ?_
      cases doubleColon <;> simp [Segment.tokens, PathArgs.tokens]
  | lastStep only ih => exact ih.as (by simp)
  | moreSteps first others ihFirst ihOthers => exact ihFirst.append ihOthers.skip.skip
  | @path rooted _ _ _ _ root steps ih =>
      refine (root.keeps.append ih).as ?_
      cases rooted <;> simp [Path.tokens]
  | lifetimeArg => exact (Keeps.lifetime _ _ _ _).as (by simp [GenericArg.tokens])
  | typeArg inner ih => exact ih.as (by simp [GenericArg.tokens])
  | constArg read =>
      exact (Keeps.self _).as (by simp [GenericArg.tokens, occurrences_of_constant? name read])
  | typeBinding word head inner ihHead ihInner =>
      exact (ihHead.append ihInner.skip).as (by simp [GenericArg.tokens, Segment.tokens])
  | constBinding word head read ihHead =>
      refine (ihHead.append (Keeps.self _).skip).as ?_
      simp [GenericArg.tokens, Segment.tokens, occurrences_of_constant? name read]
  | constraint word head lone inner ihHead ihInner =>
      obtain ⟨spacing, pos, same⟩ := lone.exists_punct
      cases same
      exact (ihHead.append ihInner.skip).as (by simp [GenericArg.tokens, Segment.tokens])
  | closeArgs => exact .punct _ _ _ _
  | lastArg only ih => exact (ih.append (.punct _ _ _ _)).as (by simp)
  | moreArgs first others ihFirst ihOthers => exact ihFirst.append ihOthers.skip
  | noOutput | noTypes | noLimits | noView => exact .refl []
  | someOutput inner ih => exact ih.skip.skip.as (by simp [outputTokens])
  | call first second ihFirst ihSecond =>
      exact ((ihFirst.group _ _ _).trans ihSecond).as (by simp [PathArgs.tokens])
  | lastType only ih => exact ih.as (by simp)
  | moreTypes first others ihFirst ihOthers => exact ihFirst.append ihOthers.skip
  | plainTrait inner ih => exact ih
  | @calledTrait pos rooted doubleColon segments last args _ _ _ _ _ inner yields turbofish called
      ihInner ihCalled =>
      have gone : occurrences name last.args.tokens = 0 := occurrences_of_yieldsToCall yields
      refine (ihInner.append (turbofish.keeps.append ihCalled)).as ?_
      cases last
      dsimp only at gone ⊢
      simp [Path.tokens, Segment.tokens, gone, Nat.add_assoc]
  | traitBound mark bindings inner ih =>
      exact (mark.keeps.append (bindings.keeps.append ih)).as (by simp)
  | lifetimeBound => exact (Keeps.lifetime _ _ _ _).as (by simp [Bound.tokens])
  | wrappedBound wrapped inner ih => exact (ih.group _ _ _).as (by simp [Bound.tokens])
  | plainBound plain inner ih => exact ih.as (by simp [Bound.tokens])
  | noMore => exact .refl []
  | trailingPlus ended => exact .punct _ _ _ _
  | moreBounds ended first others ihFirst ihOthers => exact (ihFirst.append ihOthers).skip
  | oneBound only ih => exact ih.as (by simp)
  | sum first others ihFirst ihOthers => exact ihFirst.append ihOthers
  | limits inner ih => exact ih
  | pathType starts inner ih => exact ih.as (by simp [TypeExpr.tokens])
  | boundType bindings starts inner ih =>
      exact (bindings.keeps.append ih).as (by simp [TypeExpr.tokens, Bound.tokens])
  | sumType bindings starts named inner some others ihInner ihOthers =>
      exact (bindings.keeps.append (ihInner.append ihOthers)).as
        (by simp [TypeExpr.tokens, Bound.tokens, Nat.add_assoc])
  | @invocation _ _ _ _ _ body _ _ _ _ _ bindings starts named plain inner ih =>
      refine ((bindings.leftOut other).append
        (ih.append ((Keeps.self body).group _ _ _).skip)).as ?_
      simp [TypeExpr.tokens]
  | someView ended inner ih => exact (Keeps.ident _ _ _).trans ih
  | qualified first second third ihFirst ihSecond ihThird =>
      refine (ihFirst.append (ihSecond.append ihThird.skip.skip.skip)).skip.as ?_
      simp [TypeExpr.tokens]
  | reference lifetime kind unticked inner ih =>
      have behind := lifetime.keeps.append (kind.keeps.append ih)
      exact behind.skip.as (by simp [TypeExpr.tokens])
  | pointer inner ih =>
      exact ((Keeps.ident _ _ _).trans ih).skip.as (by simp [TypeExpr.tokens, access])
  | never => exact (Keeps.punct _ _ _ _).as (by simp [TypeExpr.tokens])
  | tickedType ticked trait inner ih => exact ih.as (by simp [TypeExpr.tokens])
  | parens unticked inner ih | tickedParens ticked trait inner ih | slice inner ih =>
      exact (ih.group _ _ _).as (by simp [TypeExpr.tokens])
  | @parenSum type bound _ _ _ _ _ _ unticked inner names some others ihInner ihOthers =>
      have same : occurrences name bound.tokens = occurrences name type.tokens :=
        occurrences_of_asBound names
      exact ((ihInner.group _ _ _).trans ihOthers).as (by simp [TypeExpr.tokens, same])
  | relaxedSum wrapped relaxed inner others ihInner ihOthers =>
      exact ((ihInner.group _ _ _).trans ihOthers).as (by simp [TypeExpr.tokens, Bound.tokens])
  | unit =>
      exact ((Keeps.refl []).group _ _ _).as (by simp [TypeExpr.tokens, typeLists, separated])
  | tuple unticked first others ihFirst ihOthers =>
      exact ((ihFirst.append ihOthers.skip).group _ _ _).as (by simp [TypeExpr.tokens])
  | array inner read ih =>
      refine ((ih.append (Keeps.self _).skip).group _ _ _).as ?_
      simp [TypeExpr.tokens, occurrences_of_constExpr? name read]
  | infer => exact (Keeps.ident _ _ _).as (by simp [TypeExpr.tokens])
  | object trait inner ih | existential trait inner ih =>
      exact ((Keeps.ident _ _ _).trans ih).as (by simp [TypeExpr.tokens])
  | function bindings keyword calling inner result ihInner ihResult =>
      refine (bindings.keeps.append (keyword.keeps.append (calling.keeps.append
        ((Keeps.ident _ _ _).trans ((ihInner.group _ _ _).trans ihResult))))).as ?_
      simp [TypeExpr.tokens, Signature.tokens_eq, Nat.add_assoc]
  | bareParam inner ih => exact ih.as (by simp [Param.tokens, named])
  | namedParam word lone inner ih =>
      obtain ⟨spacing, pos, same⟩ := lone.exists_punct
      cases same
      exact ((Keeps.ident _ _ _).trans ih.skip).as (by simp [Param.tokens, named])
  | noParams => exact .refl []
  | furtherParams dots => exact dots.keeps
  | lastParam only ih => exact ih.as (by simp [dotTokens])
  | moreParams head others ihHead ihOthers =>
      exact (ihHead.append ihOthers.skip).as (by simp)

end Spelling

/-- A name that no lifetime of the text bears occurs in the printed type as often as in the text. -/
theorem TypeExpr.occurrences_tokens_of_ofTokens? (other : name ≠ "for") {tokens : Tokens}
    {type : TypeExpr} (found : TypeExpr.ofTokens? tokens = some type)
    (noLifetime : lifetimesIn name false tokens = 0) :
    occurrences name type.tokens = occurrences name tokens := by
  obtain ⟨ending, spelled⟩ := TypeExpr.ofTokens?_eq_some_iff.mp found
  have kept : Keeps name tokens type.tokens [] := spelled.keeps other
  obtain ⟨noMore, noLess⟩ := kept
  simp only [occurrences_nil, lifetimesIn] at noMore noLess
  omega

end TypeConcepts
