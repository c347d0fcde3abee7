/-!
Token trees: identifiers, literals and single punctuation characters, nested in balanced groups.

Every tree remembers the byte offset at which its text began, so that a complaint can point at it.
A tree that no source text produced stands at offset 0.
-/

namespace TypeConcepts

/-- The delimiters of source text. Groups without a delimiter, which only macros produce, are left
out. -/
inductive Delimiter where
  | paren
  | bracket
  | brace
  deriving DecidableEq, Repr

/-- Whether punctuation runs on into more punctuation, which is how an operator of several
characters is told from its characters written apart. -/
inductive Spacing where
  | joint
  | alone
  deriving DecidableEq, Repr

inductive TokenTree where
  | ident (name : String) (pos : Nat)
  | literal (text : String) (pos : Nat)
  | punct (char : Char) (spacing : Spacing) (pos : Nat)
  | group (delimiter : Delimiter) (inner : List TokenTree) (pos : Nat)
  deriving Repr, Inhabited

abbrev Tokens := List TokenTree

namespace TokenTree

mutual
private def decideTree : (left right : TokenTree) → Decidable (left = right)
  | .ident name pos, .ident name' pos' =>
      if same : name = name' ∧ pos = pos' then isTrue (by simp [same])
      else isFalse (by simpa using same)
  | .literal text pos, .literal text' pos' =>
      if same : text = text' ∧ pos = pos' then isTrue (by simp [same])
      else isFalse (by simpa using same)
  | .punct char spacing pos, .punct char' spacing' pos' =>
      if same : char = char' ∧ spacing = spacing' ∧ pos = pos' then isTrue (by simp [same])
      else isFalse (by simpa using same)
  | .group delimiter inner pos, .group delimiter' inner' pos' =>
      match decideTrees inner inner' with
      | isTrue equal =>
          if same : delimiter = delimiter' ∧ pos = pos' then isTrue (by simp [same, equal])
          else isFalse (by intro whole; injection whole; simp_all)
      | isFalse different => isFalse (by intro whole; injection whole; contradiction)
  | .ident .., .literal .. | .ident .., .punct .. | .ident .., .group .. => isFalse (by simp)
  | .literal .., .ident .. | .literal .., .punct .. | .literal .., .group .. => isFalse (by simp)
  | .punct .., .ident .. | .punct .., .literal .. | .punct .., .group .. => isFalse (by simp)
  | .group .., .ident .. | .group .., .literal .. | .group .., .punct .. => isFalse (by simp)

private def decideTrees : (left right : List TokenTree) → Decidable (left = right)
  | [], [] => isTrue rfl
  | [], _ :: _ => isFalse (by simp)
  | _ :: _, [] => isFalse (by simp)
  | tree :: rest, tree' :: rest' =>
      match decideTree tree tree', decideTrees rest rest' with
      | isTrue first, isTrue others => isTrue (by simp [first, others])
      | isFalse different, _ => isFalse (by simp [different])
      | _, isFalse different => isFalse (by simp [different])
end

instance : DecidableEq TokenTree := decideTree

def pos : TokenTree → Nat
  | .ident _ pos | .literal _ pos | .punct _ _ pos | .group _ _ pos => pos

mutual
/-- The number of trees in a tree, itself included: a bound for every descent into it. -/
def size : TokenTree → Nat
  | .group _ inner _ => sizes inner + 1
  | .ident .. | .literal .. | .punct .. => 1

def sizes : List TokenTree → Nat
  | [] => 0
  | tree :: rest => tree.size + sizes rest
end

theorem size_pos (tree : TokenTree) : 0 < tree.size := by
  cases tree <;> simp [size]

theorem sizes_append (left right : List TokenTree) :
    sizes (left ++ right) = sizes left + sizes right := by
  induction left with
  | nil => simp [sizes]
  | cons tree rest ih => simp [sizes, ih, Nat.add_assoc]

theorem length_le_sizes (trees : List TokenTree) : trees.length ≤ sizes trees := by
  induction trees with
  | nil => simp [sizes]
  | cons tree rest ih =>
      have positive := tree.size_pos
      simp only [List.length_cons, sizes]
      omega

def word (name : String) : TokenTree := .ident name 0

def delimited (delimiter : Delimiter) (inner : List TokenTree) : TokenTree :=
  .group delimiter inner 0

def mark (char : Char) : TokenTree := .punct char .alone 0

/-- An operator of several characters: each is joint to the next and the last stands alone. -/
def operator : List Char → List TokenTree
  | [] => []
  | [char] => [mark char]
  | char :: rest => .punct char .joint 0 :: operator rest

def lifetime (name : String) : List TokenTree := [.punct '\'' .joint 0, word name]

end TokenTree

end TypeConcepts
