import Mathlib.Algebra.GroupWithZero.Nat
import TypeConcepts.Proofs.Shape.Instance
import TypeConcepts.Proofs.TypeExpr.Conservation

/-!
When the parameters that stand for the holes of a shape are fresh.

Filling takes nothing out of a shape but the holes and their bounds, and the filled shape is printed
as it was read. So a parameter occurs once for its hole and once more for every time that the shape
itself mentions it; nothing keeps a shape from doing so.
-/

namespace TypeConcepts

open TokenTree Shape

def Hole.written (hole : Hole) : Tokens := hole.bounds.getD []

namespace Shape

mutual

def blanksOf (ticked : Bool) : TokenTree → Nat
  | .ident name _ => if name = "_" ∧ ticked = false then 1 else 0
  | .group _ inner _ => blanksIn false inner
  | .literal .. | .punct .. => 0

def blanksIn (ticked : Bool) : Tokens → Nat
  | [] => 0
  | tree :: rest => blanksOf ticked tree + blanksIn (isTick tree) rest

end

/-- Behind a hole stand a colon and its bounds, which end where nothing follows or a comma or a
closing mark does, or else there are no bounds. -/
inductive Behind : Option Tokens → Tokens → Tokens → Prop
  | unbounded {next : Tokens} : Behind none next next
  | bounded {bounds next : Tokens} {spacing : Spacing} {pos : Nat}
      (stops : StopsAt [',', '>'] next) :
      Behind (some bounds) (.punct ':' spacing pos :: (bounds ++ next)) next

/-- All that filling can do with a token list that `count` holes come before. -/
inductive Filling : Nat → Bool → Tokens → Tokens → List Hole → Prop
  | nil {count : Nat} {ticked : Bool} : Filling count ticked [] [] []
  | hole {count pos : Nat} {bounds : Option Tokens} {rest next done : Tokens} {holes : List Hole}
      (behind : Behind bounds rest next) (later : Filling (count + 1) false next done holes) :
      Filling count false (.ident "_" pos :: rest) (word (parameter count) :: done)
        (⟨parameter count, bounds⟩ :: holes)
  | ident {count pos : Nat} {ticked : Bool} {name : String} {rest done : Tokens}
      {holes : List Hole} (kept : name = "_" → ticked = true)
      (later : Filling count false rest done holes) :
      Filling count ticked (.ident name pos :: rest) (.ident name pos :: done) holes
  | literal {count pos : Nat} {ticked : Bool} {text : String} {rest done : Tokens}
      {holes : List Hole} (later : Filling count false rest done holes) :
      Filling count ticked (.literal text pos :: rest) (.literal text pos :: done) holes
  | punct {count pos : Nat} {ticked : Bool} {char : Char} {spacing : Spacing}
      {rest done : Tokens} {holes : List Hole}
      (later : Filling count (isTick (.punct char spacing pos)) rest done holes) :
      Filling count ticked (.punct char spacing pos :: rest) (.punct char spacing pos :: done)
        holes
  | group {count pos : Nat} {ticked : Bool} {delimiter : Delimiter}
      {inner filled rest done : Tokens} {within holes : List Hole}
      (inside : Filling count false inner filled within)
      (later : Filling (count + within.length) false rest done holes) :
      Filling count ticked (.group delimiter inner pos :: rest) (.group delimiter filled pos :: done)
        (within ++ holes)

theorem stopsAt_drop_boundsLength (depth : Nat) (dash : Bool) (tokens : Tokens) :
    StopsAt [',', '>'] (tokens.drop (boundsLength depth dash tokens)) := by
  induction tokens generalizing depth dash with
  | nil => exact .nil
  | cons tree rest ih =>
      rw [boundsLength]
      cases next : nesting depth dash tree with
      | some depth' => exact ih depth' (isJointDash tree)
      | none =>
          unfold nesting at next
          split at next
          · cases next
          · exact .punct (by decide) _ _ _
          · exact .punct (by decide) _ _ _
          · cases next

theorem behind (rest : Tokens) :
    let stop := if startsBounds rest then boundsEnd rest 1 else 0
    Behind (if startsBounds rest then some ((rest.take stop).drop 1) else none) rest
      (rest.drop stop) := by
  dsimp only
  cases starts : startsBounds rest with
  | false => exact .unbounded
  | true =>
      unfold startsBounds at starts
      split at starts
      · cases starts
      · rename_i spacing pos others _
        have stop : boundsEnd (.punct ':' spacing pos :: others) 1 =
            boundsLength 0 false others + 1 := boundsEnd_cons _ others
        have found : Behind (some (others.take (boundsLength 0 false others)))
            (.punct ':' spacing pos :: (others.take (boundsLength 0 false others) ++
              others.drop (boundsLength 0 false others)))
            (others.drop (boundsLength 0 false others)) :=
          .bounded (stopsAt_drop_boundsLength 0 false others)
        rw [List.take_append_drop] at found
        rw [if_pos rfl, if_pos rfl, stop]
        exact found
      · cases starts

mutual

theorem filling_fillTree (count : Nat) (ticked : Bool) {rest done : Tokens} {holes : List Hole} :
    ∀ tree : TokenTree, (isBlank tree && !ticked) = false →
      Filling (count + (fillTree count tree).2.length) (isTick tree) rest done holes →
      Filling count ticked (tree :: rest) ((fillTree count tree).1 :: done)
        ((fillTree count tree).2 ++ holes)
  | .ident name _, kept, later => by
      refine .ident ?_ later
      rintro rfl
      simpa [isBlank] using kept
  | .literal _ _, _, later => .literal later
  | .punct _ _ _, _, later => .punct later
  | .group _ inner _, _, later =>
      .group (filling_fillFrom count 0 false inner fun nonzero => absurd rfl nonzero) later

/-- Filling does nothing else. -/
theorem filling_fillFrom : ∀ (count skip : Nat) (ticked : Bool) (tokens : Tokens),
    (skip ≠ 0 → ticked = false) →
      Filling count ticked (tokens.drop skip) (fillFrom count skip ticked tokens).1
        (fillFrom count skip ticked tokens).2
  | _, skip, _, [], _ => by
      rw [List.drop_nil, fillFrom]
      exact .nil
  | count, skip + 1, ticked, tree :: rest, plain => by
      rw [plain (Nat.succ_ne_zero skip), List.drop_succ_cons, fillFrom]
      exact filling_fillFrom count skip false rest fun _ => rfl
  | count, 0, ticked, tree :: rest, _ => by
      rw [List.drop_zero, fillFrom]
      split
      · rename_i blank
        rw [Bool.and_eq_true] at blank
        obtain ⟨isBlank, unticked⟩ := blank
        have plain : ticked = false := by simpa using unticked
        subst plain
        unfold Shape.isBlank at isBlank
        split at isBlank
        · exact .hole (behind rest) (filling_fillFrom _ _ false rest fun _ => rfl)
        · cases isBlank
      · rename_i kept
        exact filling_fillTree count ticked tree (Bool.eq_false_iff.mpr kept)
          (filling_fillFrom _ 0 _ rest fun nonzero => absurd rfl nonzero)

end

theorem filling_takeHoles (tokens : Tokens) :
    Filling 0 false tokens (takeHoles tokens).1 (takeHoles tokens).2 :=
  filling_fillFrom 0 0 false tokens fun nonzero => absurd rfl nonzero

/-! ### What filling keeps -/

theorem blanksIn_append_of_stopsAt {chars : List Char} (ticked : Bool) (left : Tokens)
    {right : Tokens} (stops : StopsAt chars right) :
    blanksIn ticked (left ++ right) = blanksIn ticked left + blanksIn false right := by
  induction left generalizing ticked with
  | nil =>
      rcases stops with rfl | ⟨char, spacing, pos, rest, _, rfl⟩
      · rfl
      · exact (Nat.zero_add _).symm
  | cons tree rest ih =>
      have later := ih (isTick tree)
      rw [List.cons_append, blanksIn, blanksIn, later]
      omega

namespace Behind

variable {bounds : Option Tokens} {rest next : Tokens} (behind : Behind bounds rest next)
include behind

theorem occurrences_eq (name : String) :
    occurrences name rest = occurrences name (bounds.getD []) + occurrences name next := by
  cases behind with
  | unbounded => simp
  | bounded stops => simp

theorem blanksIn_eq :
    blanksIn false rest = blanksIn false (bounds.getD []) + blanksIn false next := by
  cases behind with
  | unbounded => exact (Nat.zero_add _).symm
  | @bounded inside next spacing pos stops =>
      have colon : isTick (.punct ':' spacing pos) = false := rfl
      rw [blanksIn, colon, blanksIn_append_of_stopsAt false inside stops]
      exact Nat.zero_add _

theorem lifetimesIn_le (name : String) : lifetimesIn name false next ≤ lifetimesIn name false rest := by
  cases behind with
  | unbounded => exact Nat.le_refl _
  | @bounded inside next spacing pos stops =>
      have apart := lifetimesIn_append_le name false (.punct ':' spacing pos :: inside) next
      rw [List.cons_append] at apart
      omega

end Behind

namespace Filling

variable {count : Nat} {ticked : Bool} {tokens done : Tokens} {holes : List Hole}
  (filling : Filling count ticked tokens done holes)
include filling

theorem names_eq : holes.map Hole.name = (List.range' count holes.length).map parameter := by
  induction filling with
  | nil => rfl
  | hole behind later ih =>
      rw [List.map_cons, List.length_cons, List.range'_succ, List.map_cons, ih]
  | ident kept later ih => exact ih
  | literal later ih => exact ih
  | punct later ih => exact ih
  | group inside later ihInside ih =>
      rw [List.map_append, List.length_append, List.range'_append_1.symm, List.map_append, ihInside,
        ih]

theorem nodup_names : (holes.map Hole.name).Nodup := by
  rw [filling.names_eq]
  have injective : Function.Injective parameter := fun _ _ => parameter_injective
  exact List.Nodup.map injective List.nodup_range'

/-- Every name but the underscore goes to the filled text or to the bounds of a hole, and the names
of the parameters come to it. -/
theorem occurrences_add {name : String} (other : name ≠ "_") :
    occurrences name done + occurrences name (holes.flatMap Hole.written) =
      occurrences name tokens + (holes.map Hole.name).count name := by
  induction filling with
  | nil => rfl
  | @hole count pos bounds rest next done holes behind later ih =>
      have blank : [plainName "_"].count name = 0 := by
        have different : "_" ≠ name := other.symm
        simp [plainName, different]
      have kept := behind.occurrences_eq name
      have named : (parameter count :: holes.map Hole.name).count name =
          [parameter count].count name + (holes.map Hole.name).count name := by
        rw [← List.count_append, List.singleton_append]
      rw [occurrences_word, plainName_parameter, occurrences_ident, blank, List.flatMap_cons,
        occurrences_append, List.map_cons, named]
      dsimp only [Hole.written]
      omega
  | ident kept later ih =>
      rw [occurrences_ident, occurrences_ident]
      omega
  | literal later ih =>
      rw [occurrences_literal, occurrences_literal]
      exact ih
  | punct later ih =>
      rw [occurrences_punct, occurrences_punct]
      exact ih
  | group inside later ihInside ih =>
      rw [occurrences_group, occurrences_group, List.flatMap_append, occurrences_append,
        List.map_append, List.count_append]
      omega

theorem occurrences_written_le (name : String) :
    occurrences name (holes.flatMap Hole.written) ≤ occurrences name tokens := by
  induction filling with
  | nil => exact Nat.le_refl _
  | hole behind later ih =>
      have kept := behind.occurrences_eq name
      rw [List.flatMap_cons, occurrences_append, occurrences_ident]
      dsimp only [Hole.written]
      omega
  | ident kept later ih =>
      rw [occurrences_ident]
      omega
  | literal later ih =>
      rw [occurrences_literal]
      exact ih
  | punct later ih =>
      rw [occurrences_punct]
      exact ih
  | group inside later ihInside ih =>
      rw [occurrences_group, List.flatMap_append, occurrences_append]
      omega

/-- Every lone underscore is a hole or stands in the bounds of one. -/
theorem blanksIn_eq : blanksIn ticked tokens =
    holes.length + (holes.map fun hole => blanksIn false hole.written).sum := by
  induction filling with
  | nil => rfl
  | @hole count pos bounds rest next done holes behind later ih =>
      have plain : isTick (.ident "_" pos) = false := rfl
      have kept := behind.blanksIn_eq
      simp only [blanksIn, blanksOf, plain, and_self, if_true, List.length_cons, List.map_cons,
        List.sum_cons, Hole.written] at ih ⊢
      omega
  | @ident count pos ticked name rest done holes kept later ih =>
      have plain : isTick (.ident name pos) = false := rfl
      have noHole : ¬(name = "_" ∧ ticked = false) := by
        rintro ⟨blank, unticked⟩
        rw [kept blank] at unticked
        cases unticked
      rw [blanksIn, blanksOf, if_neg noHole, plain, Nat.zero_add]
      exact ih
  | @literal count pos ticked text rest done holes later ih =>
      have plain : isTick (.literal text pos) = false := rfl
      rw [blanksIn, blanksOf, plain, Nat.zero_add]
      exact ih
  | punct later ih =>
      rw [blanksIn, blanksOf, Nat.zero_add]
      exact ih
  | @group count pos ticked delimiter inner filled rest done within holes inside later ihInside ih =>
      have plain : isTick (.group delimiter inner pos) = false := rfl
      rw [blanksIn, blanksOf, plain, List.length_append, List.map_append, List.sum_append]
      omega

theorem lifetimesIn_le (name : String) : lifetimesIn name ticked done ≤ lifetimesIn name ticked tokens := by
  induction filling with
  | nil => exact Nat.le_refl _
  | hole behind later ih =>
      have kept := Nat.le_trans ih (behind.lifetimesIn_le name)
      exact Nat.add_le_add_left kept 0
  | ident kept later ih => exact Nat.add_le_add_left ih _
  | literal later ih => exact Nat.add_le_add_left ih _
  | punct later ih => exact Nat.add_le_add_left ih _
  | group inside later ihInside ih => exact Nat.add_le_add ihInside ih

end Filling

end Shape

namespace ShapeMatch

variable {request : ShapeMatch} {filled : Filled}

theorem filling_of_filled (accepted : request.filled = .ok filled) : ∃ done,
    Shape.Filling 0 false request.shape done filled.holes ∧
      TypeExpr.ofTokens? done = some (.path filled.path) := by
  obtain ⟨done, taken, read⟩ := filled_eq_ok_iff.mp accepted
  have filling := filling_takeHoles request.shape
  rw [taken] at filling
  exact ⟨done, filling, read⟩

/-- The parameters of the implementation are as many as the holes and differ from one another, each
occurs once in the printed shape, and the text of the shape has none of them. -/
structure Fresh (request : ShapeMatch) (filled : Filled) : Prop where
  complete : blanksIn false request.shape =
    filled.holes.length + (filled.holes.map fun hole => blanksIn false hole.written).sum
  distinct : (filled.holes.map Hole.name).Nodup
  once : ∀ hole ∈ filled.holes, occurrences hole.name filled.path.tokens = 1
  apart : ∀ hole ∈ filled.holes, hole.name ∉ namesIn request.shape

theorem parameter_ne (index : Nat) {name : String} (other : name.toList.take 3 ≠ ['_', '_', 'S']) :
    parameter index ≠ name := by
  rintro rfl
  rw [toList_parameter] at other
  exact other rfl

section Accepted

variable (accepted : request.filled = .ok filled)
include accepted

theorem names_of_filled :
    filled.holes.map Hole.name = (List.range filled.holes.length).map parameter := by
  obtain ⟨done, filling, _⟩ := filling_of_filled accepted
  rw [List.range_eq_range']
  exact filling.names_eq

theorem mem_names_iff {name : String} :
    name ∈ filled.holes.map Hole.name ↔ ∃ index < filled.holes.length, parameter index = name := by
  rw [names_of_filled accepted]
  simp

/-- A parameter occurs once for its hole and once for every time that the shape mentions it; the
bounds of the holes share in that. -/
theorem occurrences_parameter {index : Nat} (within : index < filled.holes.length)
    (noLifetime : lifetimesIn (parameter index) false request.shape = 0) :
    occurrences (parameter index) filled.path.tokens +
        occurrences (parameter index) (filled.holes.flatMap Hole.written) =
      occurrences (parameter index) request.shape + 1 := by
  obtain ⟨done, filling, read⟩ := filling_of_filled accepted
  have single : (filled.holes.map Hole.name).count (parameter index) = 1 :=
    List.count_eq_one_of_mem filling.nodup_names
      ((mem_names_iff accepted).mpr ⟨index, within, rfl⟩)
  have taken := filling.occurrences_add (parameter_ne index (by decide))
  have lifetimes := filling.lifetimesIn_le (parameter index)
  have printed := TypeExpr.occurrences_tokens_of_ofTokens? (parameter_ne index (by decide)) read
    (by omega)
  rw [TypeExpr.tokens] at printed
  omega

/-- The parameters are fresh exactly if the text of the shape has none of their names. -/
theorem fresh_iff_absent :
    Fresh request filled ↔
      ∀ index < filled.holes.length, parameter index ∉ namesIn request.shape := by
  obtain ⟨done, filling, _⟩ := filling_of_filled accepted
  constructor
  · intro fresh index within
    obtain ⟨hole, member, named⟩ :=
      List.mem_map.mp ((mem_names_iff accepted).mpr ⟨index, within, rfl⟩)
    rw [← named]
    exact fresh.apart hole member
  · intro absent
    have numbered : ∀ hole ∈ filled.holes, ∃ index < filled.holes.length,
        parameter index = hole.name := fun hole member =>
      (mem_names_iff accepted).mp (List.mem_map_of_mem member)
    refine ⟨filling.blanksIn_eq, filling.nodup_names, ?_, ?_⟩
    · intro hole member
      obtain ⟨index, within, named⟩ := numbered hole member
      have unused : occurrences (parameter index) request.shape = 0 :=
        List.count_eq_zero_of_not_mem (absent index within)
      have lifetimes := lifetimesIn_le_occurrences (parameter index) false request.shape
      have written := filling.occurrences_written_le (parameter index)
      have total := occurrences_parameter accepted within (by omega)
      rw [← named]
      omega
    · intro hole member
      obtain ⟨index, within, named⟩ := numbered hole member
      rw [← named]
      exact absent index within

/-- Fresh parameters are what keeps every name of the shape at its meaning. -/
theorem fresh_iff_unshadowed :
    Fresh request filled ↔
      ∀ (Meaning : Type) (types own outer : String → Meaning), ∀ name ∈ namesIn request.shape,
        (Probe.ofShape filled request.subject).inImplementation types own outer name =
          (Probe.ofShape filled request.subject).inBlock own outer name := by
  rw [fresh_iff_absent accepted]
  constructor
  · intro absent Meaning types own outer name mentioned
    refine Probe.inImplementation_of_not_mem ?_
    intro member
    obtain ⟨index, within, rfl⟩ := (mem_names_iff accepted).mp member
    exact absent index within mentioned
  · intro same index within mentioned
    have member : parameter index ∈
        (Probe.ofShape filled request.subject).parameters.map Hole.name :=
      (mem_names_iff accepted).mpr ⟨index, within, rfl⟩
    have clash := same Bool (fun _ => true) (fun _ => false) (fun _ => false) _ mentioned
    rw [Probe.inImplementation_of_mem member, Probe.inBlock, ite_self] at clash
    cases clash

end Accepted

/-- An accepted shape match expands to a probe with one parameter for each hole. The parameters are
fresh, and every name of the shape keeps its meaning, exactly if the text of the shape has none of
the names `__S0`, `__S1` and so on that the parameters bear. -/
theorem parameters_fresh_iff (request : ShapeMatch) (filled : Filled)
    (accepted : request.filled = .ok filled) :
    request.expand = .ok [(Probe.ofShape filled request.subject).code] ∧
      blanksIn false request.shape =
        filled.holes.length + (filled.holes.map fun hole => blanksIn false hole.written).sum ∧
      filled.holes.map Hole.name = (List.range filled.holes.length).map parameter ∧
      (∀ index < filled.holes.length,
        lifetimesIn (parameter index) false request.shape = 0 →
          occurrences (parameter index) filled.path.tokens +
              occurrences (parameter index) (filled.holes.flatMap Hole.written) =
            occurrences (parameter index) request.shape + 1) ∧
      (Fresh request filled ↔
        ∀ index < filled.holes.length, parameter index ∉ namesIn request.shape) ∧
      (Fresh request filled ↔
        ∀ (Meaning : Type) (types own outer : String → Meaning), ∀ name ∈ namesIn request.shape,
          (Probe.ofShape filled request.subject).inImplementation types own outer name =
            (Probe.ofShape filled request.subject).inBlock own outer name) := by
  obtain ⟨done, filling, _⟩ := filling_of_filled accepted
  exact ⟨expand_of_filled accepted, filling.blanksIn_eq, names_of_filled accepted,
    fun _ => occurrences_parameter accepted, fresh_iff_absent accepted,
    fresh_iff_unshadowed accepted⟩

/-- The holes of a shape that mentions none of their parameters. -/
theorem parameters_fresh_iff_nestedHoles :
    ∃ filled, nestedHoles.filled = .ok filled ∧ filled.holes.length = 3 ∧
      Fresh nestedHoles filled := by
  refine ⟨_, rfl, rfl, (parameters_fresh_iff nestedHoles _ rfl).2.2.2.2.1.mpr ?_⟩
  intro index _ mentioned
  have unreserved : ∀ name ∈ namesIn nestedHoles.shape, name.toList.take 2 ≠ ['_', '_'] := by decide
  exact not_reserved (unreserved _ mentioned) (.inr (.inr ⟨index, rfl⟩))

/-! ### A shape that mentions a parameter -/

/-- The type `Result<u8, u8>` and the shape `Result<__S0, _>`. -/
def mentionedParameter : ShapeMatch where
  subject := .path ⟨0, false, [⟨"Result", .angle false [.type (.bare "u8"), .type (.bare "u8")]
    false⟩]⟩
  shape := [word "Result", mark '<', word "__S0", mark ',', word "_", mark '>']

def mentioningShape : Shape.Tree (Option Tokens) :=
  .path false [⟨"Result", [.path false [⟨"__S0", []⟩], .hole none]⟩]

theorem spells_mentioningShape : SpellsPath .blanks mentioningShape mentionedParameter.shape := by
  have name : Spells .blanks (.type (.path false [⟨"__S0", []⟩])) [word "__S0"] :=
    .path (.lastStep (.bareStep (by decide)))
  have hole : Spells .blanks (.type (.hole none)) [word "_"] := .hole ⟨rfl, 0, rfl⟩
  exact .plain (.lastStep (.openStep (.inr (by decide)) .absent
    (.moreArguments (.argument (.plain name)) (.lastArgument (.argument (.plain hole))))))

theorem not_isInstance_mentioningShape :
    ¬Language.written.IsInstance .name mentioningShape
      (Language.written.type .name mentionedParameter.subject) := by
  rintro ⟨choice, shaped, _, instantiated⟩
  obtain ⟨types, stands⟩ := exists_types choice .name
  rw [← map_number_eq stands, shaped] at instantiated
  have arguments : Written.applied "path" [.name "Result", .name "__S0", types (parameter 0)] =
      .applied "path" [.name "Result", .name "u8", .name "u8"] := instantiated
  exact absurd arguments (by simp)

/-- No type `__S0` has anything to do with `u8`, and yet the probe answers that `Result<u8, u8>` is
an instance of `Result<__S0, _>`: the name stands for the parameter of the hole behind it. -/
theorem mentioned_parameter_captured :
    ∃ filled, mentionedParameter.filled = .ok filled ∧
      filled.holes.map Hole.name = ["__S0"] ∧ occurrences "__S0" filled.path.tokens = 2 ∧
      ¬Fresh mentionedParameter filled ∧
      SpellsPath .blanks mentioningShape mentionedParameter.shape ∧
      (Probe.ofShape filled mentionedParameter.subject).Selects .written .name .name ∧
      ¬Language.written.IsInstance .name mentioningShape
        (Language.written.type .name mentionedParameter.subject) := by
  refine ⟨_, rfl, rfl, by decide, ?_, spells_mentioningShape, ?_, not_isInstance_mentioningShape⟩
  · intro fresh
    have once := fresh.once ⟨"__S0", none⟩ List.mem_cons_self
    exact absurd once (by decide)
  · refine ⟨fun _ => .name "u8", rfl, ?_⟩
    intro hole member
    rw [List.mem_singleton.mp member]
    exact Written.name_ne (by decide)

end ShapeMatch

end TypeConcepts
