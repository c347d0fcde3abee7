import TypeConcepts.Text.Uppercase

/-!
The name of a concept's predicate: the words of the concept's name in lower case, joined by
underscores.
-/

namespace TypeConcepts

open Text

/-- The characters after the first: an underscore goes before each capital of any script, while
only ASCII letters change their case. -/
def snakeTail : List Char → List Char
  | [] => []
  | c :: rest => (if isUppercase c then ['_'] else []) ++ c.toLower :: snakeTail rest

def snakeCase : List Char → List Char
  | [] => []
  | c :: rest => c.toLower :: snakeTail rest

end TypeConcepts
