import Mathlib.Data.List.Basic
import TypeConcepts.TypeExpr.Tokens

/-!
How the tokens of lists are laid out: where their separators stand, and what becomes of generic
arguments when the lifetimes move to the front.
-/

namespace TypeConcepts

open TokenTree

theorem segmentTokens_cons_cons (first second : Segment) (rest : List Segment) :
    segmentTokens (first :: second :: rest) =
      first.tokens ++ operator [':', ':'] ++ segmentTokens (second :: rest) :=
  rfl

theorem typeLists_eq_map (types : List TypeExpr) : typeLists types = types.map TypeExpr.tokens := by
  induction types with
  | nil => rfl
  | cons type rest ih => rw [typeLists, ih, List.map_cons]

theorem boundLists_eq_map (bounds : List Bound) : boundLists bounds = bounds.map Bound.tokens := by
  induction bounds with
  | nil => rfl
  | cons bound rest ih => rw [boundLists, ih, List.map_cons]

theorem paramLists_eq_map (params : List Param) : paramLists params = params.map Param.tokens := by
  induction params with
  | nil => rfl
  | cons param rest ih => rw [paramLists, ih, List.map_cons]

theorem argLists_eq_map (args : List GenericArg) :
    argLists args = args.map fun arg => (arg.isLifetime, arg.tokens) := by
  induction args with
  | nil => rfl
  | cons arg rest ih => rw [argLists, ih, List.map_cons]

theorem separated_cons_cons (separator : Char) (trailing : Bool) (first second : Tokens)
    (rest : List Tokens) :
    separated separator trailing (first :: second :: rest) =
      first ++ mark separator :: separated separator trailing (second :: rest) :=
  rfl

section Separated

variable (separator : Char) (trailing : Bool)

theorem separated_more (first : Tokens) (rest : List Tokens) :
    separated separator (trailing || rest.isEmpty) (first :: rest) =
      first ++ mark separator :: separated separator trailing rest := by
  cases rest with
  | nil => simp only [separated, List.isEmpty_nil, Bool.or_true, if_true]
  | cons second others => simp only [separated, List.isEmpty_cons, Bool.or_false]

theorem separated_single (item : Tokens) : separated separator false [item] = item := by
  simp only [separated, Bool.false_eq_true, if_false, List.append_nil]

def closed (items : List Tokens) : Tokens := items.flatMap (· ++ [mark separator])

theorem closed_cons (first : Tokens) (rest : List Tokens) :
    closed separator (first :: rest) = first ++ mark separator :: closed separator rest := by
  rw [closed, List.flatMap_cons, List.append_assoc]
  rfl

theorem closed_append (first second : List Tokens) :
    closed separator (first ++ second) = closed separator first ++ closed separator second :=
  List.flatMap_append

theorem separated_concat (init : List Tokens) (last : Tokens) :
    separated separator trailing (init ++ [last]) =
      closed separator init ++ (last ++ if trailing then [mark separator] else []) := by
  induction init with
  | nil => rfl
  | cons first rest ih =>
      rw [List.cons_append, closed_cons, List.append_assoc, List.cons_append, ← ih]
      cases rest <;> rfl

theorem separated_true (items : List Tokens) :
    separated separator true items = closed separator items := by
  induction items with
  | nil => rfl
  | cons first rest ih =>
      rw [closed_cons, ← ih, ← separated_more, Bool.true_or]

def plusTokens : List Tokens → Tokens
  | [] => if trailing then [mark '+'] else []
  | item :: rest => mark '+' :: (item ++ plusTokens rest)

theorem separated_plus (first : Tokens) (rest : List Tokens) :
    separated '+' trailing (first :: rest) = first ++ plusTokens trailing rest := by
  induction rest generalizing first with
  | nil => rfl
  | cons second others ih =>
      rw [separated, plusTokens, ih]
      exact List.cons_ne_nil second others

end Separated

/-! ### Lifetimes first -/

section Front

variable {α β : Type}

/-- The members with the property, and then the others. -/
def front (first : α → Bool) (items : List α) : List α :=
  items.filter first ++ items.filter fun item => !first item

theorem mem_front (first : α → Bool) {items : List α} {item : α} :
    item ∈ front first items ↔ item ∈ items := by
  rw [front, List.mem_append, List.mem_filter, List.mem_filter]
  cases first item <;> simp

theorem front_map (change : α → β) (first : β → Bool) (items : List α) :
    front first (items.map change) =
      (front (fun item => first (change item)) items).map change := by
  rw [front, front, List.map_append, List.filter_map, List.filter_map]
  rfl

theorem filter_front (first : α → Bool) (items : List α) :
    (front first items).filter first = items.filter first := by
  have others : (items.filter fun item => !first item).filter first = [] := by
    simp [List.filter_filter]
  rw [front, List.filter_append, List.filter_filter, others, List.append_nil]
  simp only [Bool.and_self]

theorem filter_not_front (first : α → Bool) (items : List α) :
    ((front first items).filter fun item => !first item) =
      items.filter fun item => !first item := by
  have others : ((items.filter first).filter fun item => !first item) = [] := by
    simp [List.filter_filter]
  rw [front, List.filter_append, others, List.nil_append, List.filter_filter]
  simp only [Bool.and_self]

theorem front_front (first : α → Bool) (items : List α) :
    front first (front first items) = front first items := by
  rw [front, filter_front, filter_not_front]
  rfl

/-- Whether a separator stands behind the last of the members in their new order: where a member
with the property is moved away from the end, the others keep the separators that they had. -/
def closes (first : α → Bool) (trailing : Bool) (items : List α) : Bool :=
  trailing ||
    ((items.getLast?.map first).getD false && !(items.filter fun item => !first item).isEmpty)

theorem closes_congr {first : α → Bool} {trailing : Bool} {items items' : List α}
    (same : items'.map first = items.map first) :
    closes first trailing items' = closes first trailing items := by
  have others : ∀ items : List α, (items.filter fun item => !first item).isEmpty =
      ((items.map first).filter (!·)).isEmpty := by
    intro items
    rw [List.filter_map, List.isEmpty_map]
    rfl
  rw [closes, closes, others, others, same, ← List.getLast?_map, ← List.getLast?_map, same]

theorem closes_front (first : α → Bool) (trailing : Bool) (items : List α) :
    closes first trailing (front first items) = trailing := by
  have nothing : (((front first items).getLast?.map first).getD false &&
      !(items.filter fun item => !first item).isEmpty) = false := by
    rcases List.eq_nil_or_concat' (items.filter fun item => !first item) with
      none | ⟨init, last, some⟩
    · rw [none, List.isEmpty_nil, Bool.not_true, Bool.and_false]
    · have member : last ∈ items.filter fun item => !first item := by
        rw [some]
        exact List.mem_append_right _ (List.mem_singleton_self last)
      have other := (List.mem_filter.mp member).2
      rw [Bool.not_eq_true'] at other
      rw [front, some, ← List.append_assoc, List.getLast?_concat, Option.map_some, Option.getD_some,
        other, Bool.false_and]
  rw [closes, filter_not_front, nothing, Bool.or_false]

end Front

section Arguments

def ArgEntry.inner (arg : Bool × Tokens) : ArgEntry := ⟨arg.1, arg.2, true⟩

theorem argEntries_concat (trailing : Bool) (init : List (Bool × Tokens)) (last : Bool × Tokens) :
    argEntries trailing (init ++ [last]) =
      init.map ArgEntry.inner ++ [⟨last.1, last.2, trailing⟩] := by
  induction init with
  | nil => rfl
  | cons first rest ih =>
      rw [List.cons_append, List.map_cons, List.cons_append, ← ih]
      cases rest <;> rfl

theorem flatMap_own_inner (args : List (Bool × Tokens)) :
    (args.map ArgEntry.inner).flatMap ArgEntry.own = closed ',' (args.map Prod.snd) := by
  rw [List.flatMap_map, closed, List.flatMap_map]
  rfl

theorem layArgs_inner (args : List (Bool × Tokens)) (rest : List ArgEntry) :
    layArgs true (args.map ArgEntry.inner ++ rest) =
      closed ',' (args.map Prod.snd) ++ layArgs true rest := by
  induction args with
  | nil => rfl
  | cons first others ih =>
      rw [List.map_cons, List.cons_append, layArgs, List.map_cons, closed_cons]
      simp only [ArgEntry.inner, ArgEntry.own, if_true, List.nil_append] at ih ⊢
      rw [ih]
      simp only [List.append_assoc, List.cons_append, List.nil_append]

theorem layArgs_open {args : List (Bool × Tokens)} (some : args ≠ []) (trailing : Bool) :
    (if trailing then [mark ','] else []) ++ layArgs trailing (args.map ArgEntry.inner) =
      mark ',' :: closed ',' (args.map Prod.snd) := by
  have whole := layArgs_inner args []
  rw [List.append_nil, layArgs, List.append_nil] at whole
  rw [← whole]
  cases args with
  | nil => exact absurd rfl some
  | cons first others => cases trailing <;> rfl

theorem filter_inner (keep : Bool → Bool) (args : List (Bool × Tokens)) :
    (args.map ArgEntry.inner).filter (fun entry => keep entry.isLifetime) =
      (args.filter fun arg => keep arg.1).map ArgEntry.inner := by
  rw [List.filter_map]
  rfl

theorem getLast?_inner (args : List (Bool × Tokens)) :
    (((args.map ArgEntry.inner).getLast?).map ArgEntry.comma).getD true = true := by
  rw [List.getLast?_map, Option.map_map]
  cases args.getLast? <;> rfl

/-- Moving the lifetimes to the front keeps a comma between any two arguments. -/
theorem argList_eq (trailing : Bool) (args : List (Bool × Tokens)) :
    argList trailing args =
      separated ',' (closes Prod.fst trailing args) ((front Prod.fst args).map Prod.snd) := by
  rcases List.eq_nil_or_concat' args with rfl | ⟨init, ⟨isLifetime, tokens⟩, rfl⟩
  · rfl
  · have others := filter_inner (!·) init
    have lifetimes := filter_inner id init
    simp only [id] at lifetimes
    rw [argList, argEntries_concat]
    simp only [List.filter_append, lifetimes, others, front, List.map_append]
    cases isLifetime with
    | false =>
        simp only [List.filter_cons, List.filter_nil, Bool.not_false, Bool.false_eq_true, if_true,
          if_false, List.append_nil, flatMap_own_inner, getLast?_inner, layArgs_inner, closes,
          List.getLast?_concat, Option.map_some, Option.getD_some, Bool.false_and, Bool.or_false,
          List.map_cons, List.map_nil, layArgs, ArgEntry.own, List.nil_append]
        conv_rhs => rw [← List.append_assoc, separated_concat, closed_append, List.append_assoc]
    | true =>
        simp only [List.filter_cons, List.filter_nil, Bool.not_true, Bool.false_eq_true, if_true,
          if_false, List.append_nil, List.flatMap_append, flatMap_own_inner, closes,
          List.filter_append, List.getLast?_concat, Option.map_some, Option.getD_some,
          Bool.true_and, List.map_cons, List.map_nil, List.flatMap_cons, List.flatMap_nil,
          ArgEntry.own]
        cases others : init.filter fun arg => !arg.1 with
        | nil =>
            simp only [List.map_nil, layArgs, List.append_nil, List.isEmpty_nil, Bool.not_true,
              Bool.or_false]
            rw [separated_concat]
        | cons first rest =>
            have behind := layArgs_open (List.cons_ne_nil first rest) trailing
            rw [List.isEmpty_cons, Bool.not_false, Bool.or_true, separated_true, List.append_assoc,
              List.append_assoc, behind]
            simp only [List.append_assoc, List.cons_append, List.nil_append, closed_append,
              closed_cons]

end Arguments

theorem argList_args (trailing : Bool) (args : List GenericArg) :
    argList trailing (argLists args) =
      separated ',' (closes GenericArg.isLifetime trailing args)
        ((front GenericArg.isLifetime args).map GenericArg.tokens) := by
  have closing : closes Prod.fst trailing (argLists args) =
      closes GenericArg.isLifetime trailing args := by
    rw [argLists_eq_map, closes, closes, List.getLast?_map, Option.map_map, List.filter_map,
      List.isEmpty_map]
    rfl
  rw [argList_eq, closing, argLists_eq_map, front_map, List.map_map]
  rfl

end TypeConcepts
