import Mathlib.Data.List.Basic
import TypeConcepts.Concept.Expansion

/-!
Where a leaf goes: to the predicate of a concept, to the probe of a bound, or nowhere, because its
concept does not take its arguments. The last segment of a plain path decides alone.
-/

namespace TypeConcepts

open TokenTree

namespace Concept

theorem mem_all (concept : Concept) : concept ∈ all := by
  cases concept with
  | unary concept => cases concept <;> decide
  | binary concept => cases concept <;> decide
  | instanceOf => decide
  | variadic concept => cases concept <;> decide

theorem ofName?_name (concept : Concept) : ofName? concept.name = some concept := by
  have distinct : ∀ concept ∈ all, ofName? concept.name = some concept := by decide
  exact distinct concept concept.mem_all

/-- Every concept is found by its name, and no two by one name. -/
theorem ofName?_eq_some_iff {name : String} {concept : Concept} :
    ofName? name = some concept ↔ concept.name = name := by
  constructor
  · intro found
    unfold ofName? at found
    have same := List.find?_some found
    exact eq_of_beq same
  · rintro rfl
    exact concept.ofName?_name

theorem ofName?_eq_none_iff {name : String} :
    ofName? name = none ↔ ∀ concept : Concept, concept.name ≠ name := by
  rw [Option.eq_none_iff_forall_ne_some]
  exact forall_congr' fun concept => not_congr ofName?_eq_some_iff

end Concept

namespace ConceptRef

theorem asType_eq_ok_iff {arg : GenericArg} {type : TypeExpr} :
    arg.asType = .ok type ↔ arg = .type type := by
  cases arg <;> simp [GenericArg.asType]

theorem exists_asType_eq_error_iff {arg : GenericArg} :
    (∃ start, arg.asType = .error start) ↔ ∀ type, arg ≠ .type type := by
  cases arg <;> simp [GenericArg.asType]

theorem typesOf_map (types : List TypeExpr) : typesOf (types.map .type) = .ok types := by
  induction types with
  | nil => rfl
  | cons type rest ih => simp only [List.map_cons, typesOf, GenericArg.asType, ih]

theorem typesOf_eq_ok_iff {args : List GenericArg} {types : List TypeExpr} :
    typesOf args = .ok types ↔ args = types.map .type := by
  constructor
  · intro found
    induction args generalizing types with
    | nil =>
        cases found
        rfl
    | cons arg rest ih =>
        rw [typesOf] at found
        split at found
        · cases found
        · cases found
        · rename_i type others first later
          cases found
          rw [asType_eq_ok_iff.mp first, ih later, List.map_cons]
  · rintro rfl
    exact typesOf_map types

theorem typesOf_eq_error_iff {args : List GenericArg} {start : Nat} :
    typesOf args = .error start ↔
      ∃ (before : List TypeExpr) (arg : GenericArg) (after : List GenericArg),
        args = before.map .type ++ arg :: after ∧ arg.asType = .error start := by
  constructor
  · intro failed
    induction args with
    | nil => cases failed
    | cons arg rest ih =>
        rw [typesOf] at failed
        split at failed
        · rename_i start' first
          cases failed
          exact ⟨[], arg, rest, rfl, first⟩
        · rename_i type start' first later
          cases failed
          obtain ⟨before, other, after, rfl, reason⟩ := ih later
          exact ⟨type :: before, other, after, by rw [asType_eq_ok_iff.mp first]; rfl, reason⟩
        · cases failed
  · rintro ⟨before, arg, after, rfl, reason⟩
    induction before with
    | nil => simp only [List.map_nil, List.nil_append, typesOf, reason]
    | cons type rest ih =>
        simp only [List.map_cons, List.cons_append, typesOf, GenericArg.asType, ih]

/-- The arguments behind a name are these types and nothing else. -/
inductive Lists : PathArgs → List TypeExpr → Prop
  | bare : Lists .none []
  | angle {doubleColon trailing : Bool} {types : List TypeExpr} :
      Lists (.angle doubleColon (types.map .type) trailing) types

theorem operands_eq_ok_iff {name : String} {args : PathArgs} {types : List TypeExpr} :
    operands name args = .ok types ↔ Lists args types := by
  constructor
  · intro found
    cases args with
    | none =>
        cases found
        exact .bare
    | angle doubleColon args trailing =>
        rw [operands] at found
        split at found
        · cases found
        · rename_i types' listed
          cases found
          rw [typesOf_eq_ok_iff.mp listed]
          exact .angle
    | call => cases found
  · rintro (_ | _)
    · rfl
    · rw [operands, typesOf_map]

/-- The complaint that arguments draw whatever their number. -/
inductive Misplaced (name : String) : PathArgs → Complaint → Prop
  | call {start : Nat} {inputs : List TypeExpr} {trailing : Bool} {output : Option TypeExpr} :
      Misplaced name (.call start inputs trailing output) (.notFunctionLike name start)
  /-- All arguments before this one are types. -/
  | noType {doubleColon trailing : Bool} {before : List TypeExpr} {arg : GenericArg}
      {after : List GenericArg} {start : Nat} (first : arg.asType = .error start) :
      Misplaced name (.angle doubleColon (before.map .type ++ arg :: after) trailing)
        (.typeArgumentsOnly name start)

theorem operands_eq_error_iff {name : String} {args : PathArgs} {complaint : Complaint} :
    operands name args = .error complaint ↔ Misplaced name args complaint := by
  constructor
  · intro failed
    cases args with
    | none => cases failed
    | angle doubleColon args trailing =>
        rw [operands] at failed
        split at failed
        · rename_i start listed
          cases failed
          obtain ⟨before, arg, after, rfl, first⟩ := typesOf_eq_error_iff.mp listed
          exact .noType first
        · cases failed
    | call =>
        cases failed
        exact .call
  · intro misplaced
    cases misplaced with
    | call => rfl
    | noType first => rw [operands, typesOf_eq_error_iff.mpr ⟨_, _, _, rfl, first⟩]

/-- The complaint of a concept about the arguments behind its name; the path begins at `pos`. The
number of arguments counts only where all are types. -/
inductive Refuses (concept : Concept) (pos : Nat) (args : PathArgs) : Complaint → Prop
  | misplaced {complaint : Complaint} (misplaced : Misplaced concept.name args complaint) :
      Refuses concept pos args complaint
  | tooMany {types : List TypeExpr} (unary : concept.arity = .unary) (lists : Lists args types)
      (count : types.length ≠ 0) : Refuses concept pos args (.takesNoArguments concept.name pos)
  | notOne {types : List TypeExpr} (binary : concept.arity = .binary) (lists : Lists args types)
      (count : types.length ≠ 1) : Refuses concept pos args (.takesOneArgument concept.name pos)

section Segments

variable {concept : Concept} {pos : Nat} {args : PathArgs}

theorem ofSegment_eq_ok_iff {ref : ConceptRef} :
    ofSegment concept pos ⟨concept.name, args⟩ = .ok ref ↔
      ref.concept = concept ∧ Lists args ref.args ∧
        concept.arity.accepts ref.args.length = true := by
  obtain ⟨concept', types⟩ := ref
  have named := @operands_eq_ok_iff concept.name args types
  rw [← named, ofSegment]
  dsimp only
  cases listed : operands concept.name args with
  | error complaint => simp
  | ok types' =>
      dsimp only
      split
      · rename_i fits
        constructor
        · rintro ⟨⟩
          exact ⟨rfl, rfl, fits⟩
        · rintro ⟨rfl, ⟨⟩, _⟩
          rfl
      · rename_i unfit
        refine iff_of_false nofun ?_
        rintro ⟨rfl, ⟨⟩, fits⟩
        exact unfit fits

theorem ofSegment_eq_error_iff {complaint : Complaint} :
    ofSegment concept pos ⟨concept.name, args⟩ = .error complaint ↔
      Refuses concept pos args complaint := by
  rw [ofSegment]
  dsimp only
  constructor
  · intro failed
    split at failed
    · rename_i other listed
      cases failed
      exact .misplaced (operands_eq_error_iff.mp listed)
    · rename_i types listed
      have lists := operands_eq_ok_iff.mp listed
      split at failed
      · cases failed
      · rename_i unfit
        cases failed
        rw [countComplaint]
        cases arity : concept.arity with
        | unary => exact .tooMany arity lists (by simpa [arity, Arity.accepts] using unfit)
        | binary => exact .notOne arity lists (by simpa [arity, Arity.accepts] using unfit)
        | variadic => exact absurd (by rw [arity]; rfl) unfit
  · intro refuses
    cases refuses with
    | misplaced misplaced => rw [operands_eq_error_iff.mpr misplaced]
    | tooMany unary lists count =>
        simp [operands_eq_ok_iff.mpr lists, unary, Arity.accepts, count, countComplaint]
    | notOne binary lists count =>
        simp [operands_eq_ok_iff.mpr lists, binary, Arity.accepts, count, countComplaint]

end Segments

/-! ### Paths and leaves -/

/-- Only the last segment of a path counts. -/
theorem ofType_concat (pos : Nat) (rooted : Bool) (before : List Segment) (last : Segment) :
    ofType (.path ⟨pos, rooted, before ++ [last]⟩) =
      match Concept.ofName? last.name with
      | none => .ok none
      | some concept => (ofSegment concept pos last).map some := by
  change ofPath ⟨pos, rooted, before ++ [last]⟩ = _
  unfold ofPath
  split
  · rename_i absent
    rw [List.getLast?_concat] at absent
    cases absent
  · rename_i found
    rw [List.getLast?_concat] at found
    cases found
    rfl

theorem ofType_named (pos : Nat) (rooted : Bool) (before : List Segment) (concept : Concept)
    (args : PathArgs) :
    ofType (.path ⟨pos, rooted, before ++ [⟨concept.name, args⟩]⟩) =
      (ofSegment concept pos ⟨concept.name, args⟩).map some := by
  rw [ofType_concat]
  dsimp only
  rw [concept.ofName?_name]

/-- A leaf without a concept is no path, or has no segment, or its last name is in no table. -/
theorem ofType_eq_none_iff {leaf : TypeExpr} :
    ofType leaf = .ok none ↔
      (∀ path, leaf ≠ .path path) ∨ (∃ pos rooted, leaf = .path ⟨pos, rooted, []⟩) ∨
        ∃ pos rooted before last, leaf = .path ⟨pos, rooted, before ++ [last]⟩ ∧
          ∀ concept : Concept, concept.name ≠ last.name := by
  constructor
  · intro found
    cases leaf with
    | path path =>
        obtain ⟨pos, rooted, segments⟩ := path
        refine .inr ?_
        rcases List.eq_nil_or_concat' segments with rfl | ⟨before, last, rfl⟩
        · exact .inl ⟨pos, rooted, rfl⟩
        · refine .inr ⟨pos, rooted, before, last, rfl, Concept.ofName?_eq_none_iff.mp ?_⟩
          rw [ofType_concat] at found
          split at found
          · assumption
          · rename_i concept _
            cases segment : ofSegment concept pos last <;> rw [segment] at found <;> cases found
    | _ => exact .inl nofun
  · rintro (noPath | ⟨pos, rooted, rfl⟩ | ⟨pos, rooted, before, last, rfl, unknown⟩)
    · cases leaf with
      | path path => exact absurd rfl (noPath path)
      | _ => rfl
    · rfl
    · rw [ofType_concat, Concept.ofName?_eq_none_iff.mpr unknown]

section Named

variable {pos : Nat} {rooted : Bool} {before : List Segment} {concept : Concept} {args : PathArgs}

theorem ofType_named_eq_ok_iff {ref : ConceptRef} :
    ofType (.path ⟨pos, rooted, before ++ [⟨concept.name, args⟩]⟩) = .ok (some ref) ↔
      ref.concept = concept ∧ Lists args ref.args ∧
        concept.arity.accepts ref.args.length = true := by
  have segment := @ofSegment_eq_ok_iff concept pos args ref
  rw [ofType_named, ← segment]
  cases ofSegment concept pos ⟨concept.name, args⟩ <;> simp [Except.map]

theorem ofType_named_eq_error_iff {complaint : Complaint} :
    ofType (.path ⟨pos, rooted, before ++ [⟨concept.name, args⟩]⟩) = .error complaint ↔
      Refuses concept pos args complaint := by
  rw [ofType_named, ← ofSegment_eq_error_iff]
  cases ofSegment concept pos ⟨concept.name, args⟩ <;> simp [Except.map]

/-- Some complaint is made about arguments in parentheses, about an argument that is no type, and
about too many or too few. -/
theorem exists_refuses_iff :
    (∃ complaint, Refuses concept pos args complaint) ↔
      (∃ start inputs trailing output, args = .call start inputs trailing output) ∨
      (∃ doubleColon list trailing, args = .angle doubleColon list trailing ∧
        ∃ arg ∈ list, ∀ type, arg ≠ .type type) ∨
      ∃ types, Lists args types ∧ (concept.arity = .unary ∧ types.length ≠ 0 ∨
        concept.arity = .binary ∧ types.length ≠ 1) := by
  constructor
  · rintro ⟨complaint, refuses⟩
    cases refuses with
    | misplaced misplaced =>
        cases misplaced with
        | call => exact .inl ⟨_, _, _, _, rfl⟩
        | @noType _ _ _ arg _ start first =>
            exact .inr (.inl ⟨_, _, _, rfl, arg, by simp,
              exists_asType_eq_error_iff.mp ⟨start, first⟩⟩)
    | tooMany unary lists count => exact .inr (.inr ⟨_, lists, .inl ⟨unary, count⟩⟩)
    | notOne binary lists count => exact .inr (.inr ⟨_, lists, .inr ⟨binary, count⟩⟩)
  · rintro (⟨start, inputs, trailing, output, rfl⟩ | ⟨doubleColon, list, trailing, rfl, member⟩ |
      ⟨types, lists, ⟨unary, count⟩ | ⟨binary, count⟩⟩)
    · exact ⟨_, .misplaced .call⟩
    · obtain ⟨arg, member, noType⟩ := member
      cases listed : typesOf list with
      | error start =>
          obtain ⟨first, other, after, rfl, reason⟩ := typesOf_eq_error_iff.mp listed
          exact ⟨_, .misplaced (.noType reason)⟩
      | ok types =>
          rw [typesOf_eq_ok_iff.mp listed] at member
          obtain ⟨type, _, rfl⟩ := List.mem_map.mp member
          exact absurd rfl (noType type)
    · exact ⟨_, .tooMany unary lists count⟩
    · exact ⟨_, .notOne binary lists count⟩

end Named

/-! ### The code of a leaf -/

/-- A leaf without code is one whose concept objects. -/
theorem expandLeaf_eq_error_iff {subject leaf : TypeExpr} {complaint : Complaint} :
    expandLeaf subject leaf = .error complaint ↔ ofType leaf = .error complaint := by
  rw [expandLeaf]
  split <;> simp_all

theorem expandLeaf_eq_probe_iff {subject leaf : TypeExpr} :
    expandLeaf subject leaf = .ok [boundProbe leaf.tokens subject.tokens] ↔
      ofType leaf = .ok none := by
  rw [expandLeaf]
  split
  · simp_all
  · simp_all
  · rename_i ref found
    rw [found]
    refine iff_of_false (fun same => ?_) (by simp)
    have lengths := congrArg List.length (Except.ok.inj same)
    simp [ConceptRef.call, predicateCall, pathSep, operator] at lengths

theorem accepts_iff {arity : Arity} {count : Nat} :
    arity.accepts count = true ↔
      (arity = .unary → count = 0) ∧ (arity = .binary → count = 1) := by
  cases arity <;> simp [Arity.accepts]

theorem call_eq (ref : ConceptRef) (subject : TypeExpr) :
    ref.call subject =
      operator [':', ':'] ++ [word "tola_concepts"] ++ operator [':', ':'] ++
        [word (String.ofList (snakeCase ref.concept.name.toList)), mark '!',
          delimited .paren (subject.tokens ++
            ref.args.flatMap fun type => mark ',' :: type.tokens)] := by
  rw [call, predicateCall, List.flatMap_map]
  rfl

theorem expandLeaf_named_eq_ok_iff {subject : TypeExpr} {pos : Nat} {rooted : Bool}
    {before : List Segment} {concept : Concept} {args : PathArgs} {code : Tokens} :
    expandLeaf subject (.path ⟨pos, rooted, before ++ [⟨concept.name, args⟩]⟩) = .ok code ↔
      ∃ types, Lists args types ∧ concept.arity.accepts types.length = true ∧
        code = ConceptRef.call ⟨concept, types⟩ subject := by
  have known : ofType (.path ⟨pos, rooted, before ++ [⟨concept.name, args⟩]⟩) ≠ .ok none := by
    rw [ofType_named]
    cases ofSegment concept pos ⟨concept.name, args⟩ <;> simp [Except.map]
  constructor
  · intro expanded
    rw [expandLeaf] at expanded
    split at expanded
    · cases expanded
    · rename_i unknown
      exact absurd unknown known
    · rename_i ref found
      cases expanded
      obtain ⟨rfl, lists, fits⟩ := ofType_named_eq_ok_iff.mp found
      exact ⟨ref.args, lists, fits, rfl⟩
  · rintro ⟨types, lists, fits, rfl⟩
    have found : ofType (.path ⟨pos, rooted, before ++ [⟨concept.name, args⟩]⟩) =
        .ok (some ⟨concept, types⟩) := ofType_named_eq_ok_iff.mpr ⟨rfl, lists, fits⟩
    rw [expandLeaf, found]

/-- A leaf is probed as a bound exactly if it is no plain path, has no segment, or has a last name
that is in no table. Otherwise the concept of its last name gets all arguments behind that name, in
their order, and neither the segments before it nor a root matter. Arguments in parentheses are
complained about, else the first that is no type, else their number; in all other cases the leaf
becomes a call of the concept's predicate with the subject and the arguments. -/
theorem expandLeaf_routes (subject : TypeExpr) :
    (∀ leaf, ofType leaf = .ok none ↔
      (∀ path, leaf ≠ .path path) ∨ (∃ pos rooted, leaf = .path ⟨pos, rooted, []⟩) ∨
        ∃ pos rooted before last, leaf = .path ⟨pos, rooted, before ++ [last]⟩ ∧
          ∀ concept : Concept, concept.name ≠ last.name) ∧
    (∀ leaf, expandLeaf subject leaf = .ok [boundProbe leaf.tokens subject.tokens] ↔
      ofType leaf = .ok none) ∧
    ∀ (pos : Nat) (rooted : Bool) (before : List Segment) (concept : Concept) (args : PathArgs),
      let leaf := TypeExpr.path ⟨pos, rooted, before ++ [⟨concept.name, args⟩]⟩
      (∀ rooted' before',
        ofType (.path ⟨pos, rooted', before' ++ [⟨concept.name, args⟩]⟩) = ofType leaf) ∧
      ((∃ complaint, ofType leaf = .error complaint) ↔
        (∃ start inputs trailing output, args = .call start inputs trailing output) ∨
        (∃ doubleColon list trailing, args = .angle doubleColon list trailing ∧
          ∃ arg ∈ list, ∀ type, arg ≠ .type type) ∨
        ∃ types, Lists args types ∧ (concept.arity = .unary ∧ types.length ≠ 0 ∨
          concept.arity = .binary ∧ types.length ≠ 1)) ∧
      (∀ complaint, expandLeaf subject leaf = .error complaint ↔
        Refuses concept pos args complaint) ∧
      ∀ code, expandLeaf subject leaf = .ok code ↔
        ∃ types, Lists args types ∧ (concept.arity = .unary → types.length = 0) ∧
          (concept.arity = .binary → types.length = 1) ∧
          code = operator [':', ':'] ++ [word "tola_concepts"] ++ operator [':', ':'] ++
            [word (String.ofList (snakeCase concept.name.toList)), mark '!',
              delimited .paren (subject.tokens ++
                types.flatMap fun type => mark ',' :: type.tokens)] := by
  refine ⟨fun leaf => ofType_eq_none_iff, fun leaf => expandLeaf_eq_probe_iff, ?_⟩
  intro pos rooted before concept args leaf
  refine ⟨fun rooted' before' => ?_, ?_, fun complaint => ?_, fun code => ?_⟩
  · rw [ofType_named, ofType_named]
  · simp only [leaf, ofType_named_eq_error_iff]
    exact exists_refuses_iff
  · rw [expandLeaf_eq_error_iff, ofType_named_eq_error_iff]
  · simp only [leaf, expandLeaf_named_eq_ok_iff, accepts_iff, call_eq, and_assoc]

/-- In `a::SameAs<u8, 'b, 3>` the lifetime is complained about, not the constant and not the number of
arguments. -/
example : ofType (.path ⟨0, false, [⟨"a", .none⟩, ⟨"SameAs", .angle false
    [.type (.path ⟨10, false, [⟨"u8", .none⟩]⟩), .lifetime 14 "b", .const 18 [.literal "3" 18]]
    false⟩]⟩) = .error (.typeArgumentsOnly "SameAs" 14) := rfl

end ConceptRef

end TypeConcepts
