import TypeConcepts.Proofs.Check.Grammar
import TypeConcepts.Proofs.Check.Meaning
import TypeConcepts.Proofs.Concept.Routing
import TypeConcepts.Proofs.TypeExpr.Completeness

/-!
The complaint about a request is the one about its first leaf that draws any, in the order in which
the leaves are written. Without a complaint the code has a place for every leaf, in that order.
-/

namespace TypeConcepts

open TokenTree TypeReader

section Failure

variable {ε α β : Type} {result : α → Except ε β} {items others : List α} {failure : ε}

/-- All items before the first that has no result have one, and that item fails in this way. -/
def FirstFailure (result : α → Except ε β) (items : List α) (failure : ε) : Prop :=
  ∃ before item after, items = before ++ item :: after ∧
    (∀ earlier ∈ before, ∃ value, result earlier = .ok value) ∧ result item = .error failure

theorem firstFailure_cons_iff {item : α} :
    FirstFailure result (item :: items) failure ↔
      result item = .error failure ∨
        (∃ value, result item = .ok value) ∧ FirstFailure result items failure := by
  constructor
  · rintro ⟨before, failed, after, same, succeeded, fails⟩
    cases before with
    | nil =>
        cases same
        exact .inl fails
    | cons first before =>
        cases same
        obtain ⟨head, tail⟩ := List.forall_mem_cons.mp succeeded
        exact .inr ⟨head, before, failed, after, rfl, tail, fails⟩
  · rintro (fails | ⟨head, before, failed, after, rfl, tail, fails⟩)
    · exact ⟨[], item, items, rfl, nofun, fails⟩
    · exact ⟨item :: before, failed, after, rfl, List.forall_mem_cons.mpr ⟨head, tail⟩, fails⟩

theorem not_firstFailure_nil : ¬FirstFailure result [] failure := by
  rintro ⟨before, item, after, same, _⟩
  cases before <;> cases same

theorem firstFailure_append_iff :
    FirstFailure result (items ++ others) failure ↔
      FirstFailure result items failure ∨
        (∀ item ∈ items, ∃ value, result item = .ok value) ∧
          FirstFailure result others failure := by
  induction items with
  | nil => simp [not_firstFailure_nil]
  | cons item rest ih =>
      rw [List.cons_append, firstFailure_cons_iff, firstFailure_cons_iff, ih, List.forall_mem_cons]
      tauto

theorem firstFailure_map_iff {γ : Type} {view : γ → α} {sources : List γ} :
    FirstFailure result (sources.map view) failure ↔
      FirstFailure (fun source => result (view source)) sources failure := by
  induction sources with
  | nil => simp [not_firstFailure_nil]
  | cons source rest ih => rw [List.map_cons, firstFailure_cons_iff, firstFailure_cons_iff, ih]

theorem exists_firstFailure_iff :
    (∃ failure, FirstFailure result items failure) ↔
      ∃ item ∈ items, ∃ failure, result item = .error failure := by
  induction items with
  | nil => simp [not_firstFailure_nil]
  | cons item rest ih =>
      simp only [firstFailure_cons_iff, List.exists_mem_cons_iff, ← ih]
      cases result item <;> simp

theorem forall_ok_iff :
    (∀ item ∈ items, ∃ value, result item = .ok value) ↔
      ¬∃ failure, FirstFailure result items failure := by
  rw [exists_firstFailure_iff]
  simp only [exists_eq_ok_iff, not_exists, not_and]

end Failure

namespace Formula

variable {α : Type} {atom : α → Except Complaint Tokens}

theorem expand_eq_error_iff {formula : Formula α} {complaint : Complaint} :
    formula.expand atom = .error complaint ↔ FirstFailure atom formula.leaves complaint := by
  induction formula generalizing complaint with
  | leaf value => simp [expand, leaves, firstFailure_cons_iff, not_firstFailure_nil]
  | and left right ihLeft ihRight | or left right ihLeft ihRight =>
      rw [leaves, firstFailure_append_iff, forall_ok_iff, ← ihLeft, ← ihRight, expand,
        bind_eq_error_iff]
      simp only [← ihLeft, ← exists_eq_ok_iff, bind_eq_error_iff, reduceCtorEq, and_false,
        exists_false, or_false, exists_and_right]
  | not operand ih =>
      rw [leaves, ← ih, expand, bind_eq_error_iff]
      simp

end Formula

namespace Check

theorem questions_cons (check : Check TypeExpr) (checks : List (Check TypeExpr)) :
    questions (check :: checks) =
      check.formula.leaves.map (fun leaf => (check.subject, leaf)) ++ questions checks := by
  rw [questions, List.flatMap_cons, questions]

theorem mem_questions_iff {checks : List (Check TypeExpr)} {question : TypeExpr × TypeExpr} :
    question ∈ questions checks ↔
      ∃ check ∈ checks, question.1 = check.subject ∧ question.2 ∈ check.formula.leaves := by
  obtain ⟨subject, leaf⟩ := question
  simp only [questions, List.mem_flatMap, List.mem_map, Prod.mk.injEq]
  constructor
  · rintro ⟨check, member, _, leafMember, rfl, rfl⟩
    exact ⟨check, member, rfl, leafMember⟩
  · rintro ⟨check, member, rfl, leafMember⟩
    exact ⟨check, member, leaf, leafMember, rfl, rfl⟩

theorem expandEach_eq_error_iff {checks : List (Check TypeExpr)} {complaint : Complaint} :
    expandEach checks = .error complaint ↔
      FirstFailure (fun question => expandLeaf question.1 question.2) (questions checks)
        complaint := by
  induction checks with
  | nil => simp [expandEach, questions, not_firstFailure_nil]
  | cons check rest ih =>
      have head : ∀ {complaint}, check.expand = .error complaint ↔
          FirstFailure (fun question => expandLeaf question.1 question.2)
            (check.formula.leaves.map fun leaf => (check.subject, leaf)) complaint := by
        intro complaint
        rw [Check.expand, Formula.expand_eq_error_iff, firstFailure_map_iff]
      rw [questions_cons, firstFailure_append_iff, forall_ok_iff, ← ih, expandEach,
        bind_eq_error_iff]
      simp only [← head, ← exists_eq_ok_iff, bind_eq_error_iff, reduceCtorEq, and_false,
        exists_false, or_false, exists_and_right]

/-- A request fails like its first leaf without code. -/
theorem expandChecks_eq_error_iff {checks : List (Check TypeExpr)} {complaint : Complaint} :
    expandChecks checks = .error complaint ↔
      FirstFailure (fun question => expandLeaf question.1 question.2) (questions checks)
        complaint := by
  rw [expandChecks, bind_eq_error_iff, expandEach_eq_error_iff]
  simp

end Check

section Woven

variable {α : Type} {marks : List Char} {text : α → Tokens → Prop}

/-- The tokens are the texts of all items, each once and in their order, with nothing but these marks
between them and parentheses around any of them. -/
inductive Woven (marks : List Char) (text : α → Tokens → Prop) : List α → Tokens → Prop
  | nil : Woven marks text [] []
  | item {item : α} {tokens : Tokens} (spelled : text item tokens) :
      Woven marks text [item] tokens
  | mark {char : Char} {spacing : Spacing} {pos : Nat} (member : char ∈ marks) :
      Woven marks text [] [.punct char spacing pos]
  | parens {items : List α} {tokens : Tokens} {pos : Nat} (inner : Woven marks text items tokens) :
      Woven marks text items [.group .paren tokens pos]
  | append {items others : List α} {tokens more : Tokens} (first : Woven marks text items tokens)
      (second : Woven marks text others more) :
      Woven marks text (items ++ others) (tokens ++ more)

namespace Woven

variable {items others : List α} {tokens more : Tokens}

theorem mark_cons {char : Char} (member : char ∈ marks) (spacing : Spacing) (pos : Nat)
    (woven : Woven marks text items tokens) :
    Woven marks text items (.punct char spacing pos :: tokens) :=
  .append (.mark member) woven

theorem join {char : Char} (member : char ∈ marks) (spacing : Spacing) (pos : Nat)
    (first : Woven marks text items tokens) (second : Woven marks text others more) :
    Woven marks text (items ++ others) (tokens ++ .punct char spacing pos :: more) :=
  .append first (second.mark_cons member spacing pos)

theorem double {char : Char} (member : char ∈ marks)
    (first : Woven marks text items tokens) (second : Woven marks text others more) :
    Woven marks text (items ++ others) (tokens ++ operator [char, char] ++ more) := by
  rw [List.append_assoc]
  exact first.join member .joint 0 (second.mark_cons member .alone 0)

theorem map {β : Type} {view : α → β} {text' : β → Tokens → Prop}
    (texts : ∀ item tokens, text item tokens → text' (view item) tokens)
    (woven : Woven marks text items tokens) : Woven marks text' (items.map view) tokens := by
  induction woven with
  | nil => exact .nil
  | item spelled => exact .item (texts _ _ spelled)
  | mark member => exact .mark member
  | parens inner ih => exact .parens ih
  | append first second ihFirst ihSecond =>
      rw [List.map_append]
      exact .append ihFirst ihSecond

theorem imp {text' : α → Tokens → Prop} (woven : Woven marks text items tokens)
    (texts : ∀ item tokens, text item tokens → text' item tokens) :
    Woven marks text' items tokens := by
  have mapped : Woven marks text' (items.map id) tokens := woven.map texts
  rwa [List.map_id] at mapped

end Woven

end Woven

/-! ### The leaves in a request and in its code -/

def signs : List Char := ['!', '&', '|']

/-- The marks of a request that belong to no type. -/
def requestMarks : List Char := ':' :: ',' :: signs

theorem TypeExpr.exists_text_of_read {tokens rest : Tokens} {type : TypeExpr}
    (read : TypeExpr.read tokens = some (type, rest)) :
    ∃ text, tokens = text ++ rest ∧ TypeExpr.ofTokens? text = some type := by
  obtain ⟨ending, text, whole, spelled, _⟩ := (sound_rounds _).type true _ _ _ read
  exact ⟨text, whole, TypeExpr.ofTokens?_eq_some_iff.mpr ⟨ending, spelled⟩⟩

namespace Formula

theorem Derives.woven {rank : Rank} {tokens rest : Tokens} {formula : Formula TypeExpr}
    (derivation : Derives (.ofTypes TypeExpr.read) rank tokens formula rest) :
    ∃ text, tokens = text ++ rest ∧
      Woven requestMarks (fun type text => TypeExpr.ofTokens? text = some type) formula.leaves
        text := by
  induction derivation with
  | factors only ih => exact ih
  | operand only ih => exact ih
  | or first sign second ihFirst ihSecond | and first sign second ihFirst ihSecond =>
      obtain ⟨left, rfl, leftWoven⟩ := ihFirst
      obtain ⟨right, rfl, rightWoven⟩ := ihSecond
      obtain ⟨spacing, pos, rfl⟩ := sign.exists_punct
      exact ⟨_, (List.append_assoc left (_ :: right) _).symm,
        leftWoven.join (by decide) spacing pos rightWoven⟩
  | not sign inner ih =>
      obtain ⟨spacing, pos, rfl⟩ := sign
      obtain ⟨text, rfl, woven⟩ := ih
      exact ⟨_, rfl, woven.mark_cons (by decide) spacing pos⟩
  | @group inner rest pos formula whole ih =>
      obtain ⟨text, rfl, woven⟩ := ih
      rw [List.append_nil]
      exact ⟨[.group .paren text pos], rfl, woven.parens⟩
  | leaf found =>
      obtain ⟨text, rfl, read⟩ := TypeExpr.exists_text_of_read found.2
      exact ⟨text, rfl, .item read⟩

theorem woven_of_expand {α : Type} {atom : α → Except Complaint Tokens} {formula : Formula α}
    {code : Tokens} (expanded : formula.expand atom = .ok code) :
    Woven signs (fun leaf text => atom leaf = .ok text) formula.leaves code := by
  induction formula generalizing code with
  | leaf value => exact .item expanded
  | and left right ihLeft ihRight | or left right ihLeft ihRight =>
      obtain ⟨leftCode, leftExpanded, remaining⟩ := exists_of_bind_eq_ok expanded
      obtain ⟨rightCode, rightExpanded, finished⟩ := exists_of_bind_eq_ok remaining
      cases finished
      exact .parens ((ihLeft leftExpanded).double (by decide) (ihRight rightExpanded))
  | not operand ih =>
      obtain ⟨operandCode, operandExpanded, finished⟩ := exists_of_bind_eq_ok expanded
      cases finished
      exact .parens ((ih operandExpanded).mark_cons (by decide) .alone 0)

end Formula

namespace Check

/-- The types of a request as they are written: each subject before the leaves of its formula. -/
def writtenTypes (checks : List (Check TypeExpr)) : List TypeExpr :=
  checks.flatMap fun check => check.subject :: check.formula.leaves

theorem Derives.woven {tokens rest : Tokens} {check : Check TypeExpr}
    (derivation : Derives TypeExpr.read tokens check rest) :
    ∃ text, tokens = text ++ rest ∧
      Woven requestMarks (fun type text => TypeExpr.ofTokens? text = some type)
        (check.subject :: check.formula.leaves) text := by
  cases derivation with
  | @intro _ _ spacing pos subject formula first second =>
      obtain ⟨source, rfl, read⟩ := TypeExpr.exists_text_of_read first
      obtain ⟨text, rfl, woven⟩ := second.woven
      have subjectWoven : Woven requestMarks
          (fun type text => TypeExpr.ofTokens? text = some type) [subject] source := .item read
      exact ⟨_, (List.append_assoc source (_ :: text) rest).symm,
        subjectWoven.join (by decide) spacing pos woven⟩

theorem Request.woven {tokens : Tokens} {checks : List (Check TypeExpr)}
    (request : Request TypeExpr.read tokens checks) :
    Woven requestMarks (fun type text => TypeExpr.ofTokens? text = some type)
      (writtenTypes checks) tokens := by
  induction request with
  | last only =>
      obtain ⟨text, rfl, woven⟩ := only.woven
      simpa [writtenTypes] using woven
  | @closed _ _ spacing pos only =>
      obtain ⟨text, rfl, woven⟩ := only.woven
      have comma := woven.join (by decide : ',' ∈ requestMarks) spacing pos .nil
      simpa [writtenTypes] using comma
  | @more _ rest check checks spacing pos first others ih =>
      obtain ⟨text, rfl, woven⟩ := first.woven
      exact woven.join (by decide) spacing pos ih

theorem woven_of_expand {check : Check TypeExpr} {code : Tokens}
    (expanded : check.expand = .ok code) :
    Woven signs (fun question text => expandLeaf question.1 question.2 = .ok text)
      (check.formula.leaves.map fun leaf => (check.subject, leaf)) code :=
  (Formula.woven_of_expand expanded).map fun _ _ found => found

theorem woven_of_expandEach {checks : List (Check TypeExpr)} {parts : List Tokens}
    (expanded : expandEach checks = .ok parts) :
    Woven signs (fun question text => expandLeaf question.1 question.2 = .ok text)
      (questions checks) (conjunction parts) := by
  induction checks generalizing parts with
  | nil =>
      cases expanded
      exact .nil
  | cons check rest ih =>
      obtain ⟨first, firstExpanded, remaining⟩ := exists_of_bind_eq_ok expanded
      obtain ⟨others, othersExpanded, finished⟩ := exists_of_bind_eq_ok remaining
      cases finished
      have head := woven_of_expand firstExpanded
      have tail := ih othersExpanded
      rw [questions_cons]
      cases others with
      | nil =>
          have whole := head.append tail
          rwa [conjunction, List.append_nil] at whole
      | cons second later => exact head.double (by decide) tail

theorem exists_leaf_of_expandChecks_eq_error {checks : List (Check TypeExpr)}
    {complaint : Complaint} (failed : expandChecks checks = .error complaint) :
    ∃ check ∈ checks, ∃ leaf ∈ check.formula.leaves,
      ConceptRef.ofType leaf = .error complaint := by
  obtain ⟨before, question, after, whole, _, fails⟩ := expandChecks_eq_error_iff.mp failed
  have asked : question ∈ questions checks := by simp [whole]
  obtain ⟨check, member, _, leafMember⟩ := mem_questions_iff.mp asked
  exact ⟨check, member, question.2, leafMember, ConceptRef.expandLeaf_eq_error_iff.mp fails⟩

/-- A request is complained about if and only if one of its leaves is. -/
theorem exists_expandChecks_eq_error_iff {checks : List (Check TypeExpr)} :
    (∃ complaint, expandChecks checks = .error complaint) ↔
      ∃ check ∈ checks, ∃ leaf ∈ check.formula.leaves, ∃ complaint,
        ConceptRef.ofType leaf = .error complaint := by
  constructor
  · rintro ⟨complaint, failed⟩
    obtain ⟨check, member, leaf, leafMember, fails⟩ := exists_leaf_of_expandChecks_eq_error failed
    exact ⟨check, member, leaf, leafMember, complaint, fails⟩
  · rintro ⟨check, member, leaf, leafMember, complaint, fails⟩
    simp only [expandChecks_eq_error_iff, exists_firstFailure_iff]
    exact ⟨(check.subject, leaf), mem_questions_iff.mpr ⟨check, member, rfl, leafMember⟩,
      complaint, ConceptRef.expandLeaf_eq_error_iff.mpr fails⟩

/-- A request has its subjects and leaves in the order in which its checks and their formulas list
them. It has no code exactly if some leaf's concept objects, and then all there is to tell is the
complaint of the first such leaf in that order. Otherwise its code is made of the code of all leaves,
each of which holds its leaf and its subject, one after another in that order, with signs and
parentheses only. -/
theorem expandChecks_first_complaint {tokens : Tokens} {checks : List (Check TypeExpr)}
    (accepted : ofTokens? tokens = some checks) :
    Woven requestMarks (fun type text => TypeExpr.ofTokens? text = some type)
      (checks.flatMap fun check => check.subject :: check.formula.leaves) tokens ∧
    ((∃ complaint, expandChecks checks = .error complaint) ↔
      ∃ check ∈ checks, ∃ leaf ∈ check.formula.leaves, ∃ complaint,
        ConceptRef.ofType leaf = .error complaint) ∧
    (∀ complaint, expandChecks checks = .error complaint ↔
      ∃ before subject leaf after, questions checks = before ++ (subject, leaf) :: after ∧
        (∀ earlier ∈ before, ∃ found, ConceptRef.ofType earlier.2 = .ok found) ∧
        ConceptRef.ofType leaf = .error complaint) ∧
    ∀ code, expandChecks checks = .ok code →
      Woven signs (fun question text => expandLeaf question.1 question.2 = .ok text ∧
          Poses question.1 question.2 text)
        (questions checks) code := by
  have request := (readAll_eq_some_iff (fun _ _ _ => TypeExpr.suffix_of_read) tokens checks).1.mp
    accepted
  refine ⟨request.woven, exists_expandChecks_eq_error_iff, fun complaint => ?_,
    fun code expanded => ?_⟩
  · rw [expandChecks_eq_error_iff, FirstFailure]
    simp only [exists_eq_ok_iff, ConceptRef.expandLeaf_eq_error_iff, Prod.exists]
  · obtain ⟨parts, eachExpanded, finished⟩ := exists_of_bind_eq_ok expanded
    cases finished
    exact (woven_of_expandEach eachExpanded).parens.imp fun _ _ found =>
      ⟨found, poses_of_expandLeaf found⟩

/-- In `u8: Clone & !(Copy | Movable<u8>), u8: SameAs`, both last leaves draw complaints. -/
theorem expandChecks_first_complaint_negated_group :
    let byte : TypeExpr := .path ⟨0, false, [⟨"u8", .none⟩]⟩
    let clone : TypeExpr := .path ⟨0, false, [⟨"Clone", .none⟩]⟩
    let copy : TypeExpr := .path ⟨0, false, [⟨"Copy", .none⟩]⟩
    let movable : TypeExpr := .path ⟨0, false, [⟨"Movable", .angle false [.type byte] false⟩]⟩
    let same : TypeExpr := .path ⟨0, false, [⟨"SameAs", .none⟩]⟩
    let checks : List (Check TypeExpr) :=
      [⟨byte, .and (.leaf clone) (.not (.or (.leaf copy) (.leaf movable)))⟩, ⟨byte, .leaf same⟩]
    ofTokens? [word "u8", mark ':', word "Clone", mark '&', mark '!',
        delimited .paren [word "Copy", mark '|', word "Movable", mark '<', word "u8", mark '>'],
        mark ',', word "u8", mark ':', word "SameAs"] = some checks ∧
      expandChecks checks = .error (.takesNoArguments "Movable" 0) := by
  intro byte clone copy movable same checks
  have accepted : ofTokens? [word "u8", mark ':', word "Clone", mark '&', mark '!',
      delimited .paren [word "Copy", mark '|', word "Movable", mark '<', word "u8", mark '>'],
      mark ',', word "u8", mark ':', word "SameAs"] = some checks := rfl
  obtain ⟨_, _, complains, _⟩ := expandChecks_first_complaint accepted
  refine ⟨accepted, (complains _).mpr ⟨[(byte, clone), (byte, copy)], byte, movable, [(byte, same)],
    rfl, ?_, rfl⟩⟩
  rw [List.forall_mem_cons, List.forall_mem_singleton]
  exact ⟨⟨none, rfl⟩, ⟨none, rfl⟩⟩

end Check

end TypeConcepts
