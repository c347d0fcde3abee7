import TypeConcepts.Shape.Hole
import TypeConcepts.Proofs.Token.Reader

/-!
Scanning over bounds: the depth that is reached behind a piece of text, and the pieces that are
crossed from one depth to another wherever they stand.
-/

namespace TypeConcepts

namespace Shape

/-- The depth behind the tokens and whether they end with the joint dash of an arrow; nothing if
bounds end among them. -/
def scan (depth : Nat) (dash : Bool) : Tokens → Option (Nat × Bool)
  | [] => some (depth, dash)
  | tree :: rest =>
      match nesting depth dash tree with
      | none => none
      | some depth => scan depth (isJointDash tree) rest

theorem scan_append (depth : Nat) (dash : Bool) (left right : Tokens) :
    scan depth dash (left ++ right) =
      (scan depth dash left).bind fun (depth, dash) => scan depth dash right := by
  induction left generalizing depth dash with
  | nil => rfl
  | cons tree rest ih =>
      simp only [List.cons_append, scan]
      cases nesting depth dash tree with
      | none => rfl
      | some depth => exact ih depth (isJointDash tree)

theorem boundsLength_append_of_scan {depth depth' : Nat} {dash dash' : Bool} {taken : Tokens}
    (scanned : scan depth dash taken = some (depth', dash')) (rest : Tokens) :
    boundsLength depth dash (taken ++ rest) = taken.length + boundsLength depth' dash' rest := by
  induction taken generalizing depth dash with
  | nil =>
      cases scanned
      simp
  | cons tree others ih =>
      simp only [scan] at scanned
      simp only [List.cons_append, boundsLength, List.length_cons]
      cases next : nesting depth dash tree with
      | none =>
          rw [next] at scanned
          contradiction
      | some depth =>
          rw [next] at scanned
          change boundsLength depth (isJointDash tree) (others ++ rest) + 1 = _
          rw [ih scanned]
          omega

def endsInDash (front : Tokens) : Bool := (front.getLast?.map isJointDash).getD false

theorem endsInDash_concat (front : Tokens) (tree : TokenTree) :
    endsInDash (front ++ [tree]) = isJointDash tree := by
  rw [endsInDash, List.getLast?_concat, Option.map_some, Option.getD_some]

theorem boundsEnd_append (front rest : Tokens) :
    boundsEnd (front ++ rest) front.length =
      front.length + boundsLength 0 (endsInDash front) rest := by
  rw [boundsEnd, List.take_left, List.drop_left, endsInDash]

theorem boundsEnd_cons (colon : TokenTree) (rest : Tokens) :
    boundsEnd (colon :: rest) 1 = boundsLength 0 (isJointDash colon) rest + 1 := by
  rw [Nat.add_comm]
  exact boundsEnd_append [colon] rest

/-- The tokens are `rest` behind a piece that leads from one depth to another, whatever the depth
around it. -/
def Passes (before after : Nat) (tokens rest : Tokens) : Prop :=
  ∃ taken, tokens = taken ++ rest ∧
    ∀ depth, scan (depth + before) false taken = some (depth + after, false)

namespace Passes

variable {before middle after : Nat} {tokens next rest : Tokens}

theorem scan_eq (passes : Passes 0 0 tokens []) (depth : Nat) :
    scan depth false tokens = some (depth, false) := by
  obtain ⟨taken, rfl, scanned⟩ := passes
  rw [List.append_nil]
  exact scanned depth

theorem refl (level : Nat) (tokens : Tokens) : Passes level level tokens tokens :=
  ⟨[], rfl, fun _ => rfl⟩

theorem trans (first : Passes before middle tokens next) (second : Passes middle after next rest) :
    Passes before after tokens rest := by
  obtain ⟨taken, rfl, scanned⟩ := first
  obtain ⟨more, rfl, scannedMore⟩ := second
  refine ⟨taken ++ more, by rw [List.append_assoc], ?_⟩
  intro depth
  rw [scan_append, scanned depth]
  exact scannedMore depth

theorem append {more : Tokens} (first : Passes before middle tokens [])
    (second : Passes middle after more rest) : Passes before after (tokens ++ more) rest := by
  obtain ⟨taken, rfl, scanned⟩ := first
  have front : Passes before middle (taken ++ [] ++ more) more := by
    rw [List.append_nil]
    exact ⟨taken, rfl, scanned⟩
  exact front.trans second

theorem inside (passes : Passes before after tokens rest) :
    Passes (before + 1) (after + 1) tokens rest := by
  obtain ⟨taken, rfl, scanned⟩ := passes
  refine ⟨taken, rfl, ?_⟩
  intro depth
  have deeper := scanned (depth + 1)
  rwa [Nat.add_right_comm, Nat.add_right_comm depth 1 after] at deeper

theorem of_nesting {tree : TokenTree} (plain : isJointDash tree = false)
    (step : ∀ depth, nesting (depth + before) false tree = some (depth + after)) :
    Passes before after (tree :: rest) rest := by
  refine ⟨[tree], rfl, ?_⟩
  intro depth
  simp only [scan, step depth, plain]

theorem ident (name : String) (pos : Nat) (rest : Tokens) :
    Passes 0 0 (.ident name pos :: rest) rest :=
  of_nesting rfl fun _ => rfl

theorem literal (text : String) (pos : Nat) (rest : Tokens) :
    Passes 0 0 (.literal text pos :: rest) rest :=
  of_nesting rfl fun _ => rfl

theorem group (delimiter : Delimiter) (inner : Tokens) (pos : Nat) (rest : Tokens) :
    Passes 0 0 (.group delimiter inner pos :: rest) rest :=
  of_nesting rfl fun _ => rfl

theorem opening (spacing : Spacing) (pos : Nat) (rest : Tokens) :
    Passes 0 1 (.punct '<' spacing pos :: rest) rest :=
  of_nesting rfl fun _ => rfl

theorem closing (spacing : Spacing) (pos : Nat) (rest : Tokens) :
    Passes 1 0 (.punct '>' spacing pos :: rest) rest :=
  of_nesting rfl fun _ => rfl

theorem comma (spacing : Spacing) (pos : Nat) (rest : Tokens) :
    Passes 1 1 (.punct ',' spacing pos :: rest) rest :=
  of_nesting rfl fun _ => rfl

theorem punct {char : Char} (plain : char ∉ ['<', '>', ',', '-']) (spacing : Spacing) (pos : Nat)
    (rest : Tokens) : Passes 0 0 (.punct char spacing pos :: rest) rest := by
  simp only [List.mem_cons, List.not_mem_nil, or_false, not_or] at plain
  obtain ⟨notOpening, notClosing, notComma, notDash⟩ := plain
  refine of_nesting ?_ ?_
  · unfold isJointDash
    split
    · rename_i same
      cases same
      contradiction
    · rfl
  · intro depth
    unfold nesting
    split <;> simp_all

theorem arrow (pos pos' : Nat) (spacing : Spacing) (rest : Tokens) :
    Passes 0 0 (.punct '-' .joint pos :: .punct '>' spacing pos' :: rest) rest :=
  ⟨[.punct '-' .joint pos, .punct '>' spacing pos'], rfl, fun _ => rfl⟩

theorem signed (spacing : Spacing) (pos pos' : Nat) (text : String) (rest : Tokens) :
    Passes 0 0 (.punct '-' spacing pos :: .literal text pos' :: rest) rest :=
  ⟨[.punct '-' spacing pos, .literal text pos'], rfl, fun _ => rfl⟩

theorem colons (pos pos' : Nat) (spacing : Spacing) (rest : Tokens) :
    Passes 0 0 (.punct ':' .joint pos :: .punct ':' spacing pos' :: rest) rest :=
  (punct (by decide) .joint pos _).trans (punct (by decide) spacing pos' rest)

theorem lifetime (name : String) (pos pos' : Nat) (rest : Tokens) :
    Passes 0 0 (.punct '\'' .joint pos :: .ident name pos' :: rest) rest :=
  (punct (by decide) .joint pos _).trans (ident name pos' rest)

end Passes

end Shape

end TypeConcepts
