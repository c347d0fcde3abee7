import TypeConcepts.Environment.Regular
import TypeConcepts.Universe.Answer

/-! The builds of the library, with more or less of the standard library, and what they decide. -/

namespace TypeConcepts.Universe

inductive Build where
  | core
  | alloc
  | std
  deriving DecidableEq, Repr

def toolchain : Build := .std

namespace Build

def ofName? : String → Option Build
  | "none" => some .core
  | "alloc" => some .alloc
  | "std" => some .std
  | _ => none

def hasStandardLibrary (build : Build) : Bool := build == .std

def hasHeap : Build → Bool
  | .core => false
  | .alloc | .std => true

def environment (build : Build) : Environment := Universe.environment build.hasHeap

/-- The concepts whose meaning depends on the build, for a type of the universe. -/
structure Report where
  defaultInitializable : Bool
  semiregular : Bool
  regular : Bool

def report? (build : Build) (type : String) : Option Report := do
  let type ← listed? subjects type
  some
    { defaultInitializable := build.environment.defaultInitializable type
      semiregular := build.environment.semiregular type
      regular := build.environment.regular type }

end Build

end TypeConcepts.Universe
