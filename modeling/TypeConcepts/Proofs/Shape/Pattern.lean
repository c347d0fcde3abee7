import Mathlib.Algebra.GroupWithZero.Nat
import TypeConcepts.Proofs.Shape.Cursor
import TypeConcepts.Proofs.Shape.Refilled

/-!
Bounded holes wherever a type may stand: among generic arguments, in tuples, arrays and slices, behind
references and pointers, and in the types of functions.

Filling finds the end of bounds by a comma or a closing mark alone. Every place that a type can stand
in is closed by one of them or by the end of its group, but for one: the item of an array is closed by
a semicolon. There the bounds of a hole take in the length of the array.
-/

namespace TypeConcepts

open TokenTree

namespace Shape

/-- What is written at a hole: nothing, or a colon and bounds. -/
structure Site where
  bounds : Option Tokens
  valid : ∀ inside, bounds = some inside → ValidBounds inside

def Site.tokens (site : Site) : Tokens :=
  match site.bounds with
  | none => [word "_"]
  | some inside => word "_" :: mark ':' :: inside

def Word := { name : String // name ≠ "_" }

/-- The kinds of text that a shape is made of. -/
inductive Role where
  | type
  | argument
  | segment
  | segments
  | output
  | list (member : Role)

/-- Shapes whose holes carry values. Besides the holes no underscore stands for a type. -/
inductive Pattern (α : Type) : Role → Type
  | hole (value : α) : Pattern α .type
  | path (rooted : Bool) (segments : Pattern α .segments) : Pattern α .type
  | tuple (items : Pattern α (.list .type)) : Pattern α .type
  | slice (item : Pattern α .type) : Pattern α .type
  | array (item : Pattern α .type) (length : Tokens) (blankless : "_" ∉ namesIn length) :
      Pattern α .type
  | reference (lifetime : Option String) (mutable : Bool) (target : Pattern α .type) :
      Pattern α .type
  | pointer (mutable : Bool) (target : Pattern α .type) : Pattern α .type
  | function (binder : Option Binder) (isUnsafe : Bool) (abi : Option (Option String))
      (inputs : Pattern α (.list .type)) (output : Pattern α .output) : Pattern α .type
  | lifetime (name : String) : Pattern α .argument
  | constant (source value : Tokens) (read : constant? source = some (value, []))
      (blankless : "_" ∉ namesIn source) : Pattern α .argument
  | argument (type : Pattern α .type) : Pattern α .argument
  | binding (name : Word) (type : Pattern α .type) : Pattern α .argument
  | bare (name : Word) : Pattern α .segment
  | generic (name : Word) (doubleColon : Bool) (args : Pattern α (.list .argument)) :
      Pattern α .segment
  | last (segment : Pattern α .segment) : Pattern α .segments
  | step (segment : Pattern α .segment) (rest : Pattern α .segments) : Pattern α .segments
  | noOutput : Pattern α .output
  | returns (type : Pattern α .type) : Pattern α .output
  | nil {member : Role} : Pattern α (.list member)
  | only {member : Role} (item : Pattern α member) (trailing : Bool) : Pattern α (.list member)
  | cons {member : Role} (item : Pattern α member) (rest : Pattern α (.list member)) :
      Pattern α (.list member)

def referenceFront (lifetime : Option String) (mutable : Bool) : Tokens :=
  mark '&' :: (lifetime.map TokenTree.lifetime).getD [] ++ if mutable then [word "mut"] else []

def functionFront (binder : Option Binder) (isUnsafe : Bool) (abi : Option (Option String)) :
    Tokens :=
  binderTokens binder ++ (if isUnsafe then [word "unsafe"] else []) ++ conventionTokens abi ++
    [word "fn"]

def genericFront (name : Word) (doubleColon : Bool) : Tokens :=
  word name.val :: (if doubleColon then operator [':', ':'] else []) ++ [mark '<']

namespace Pattern

variable {α : Type} {role : Role}

def holes {role : Role} : Pattern α role → List α
  | .hole value => [value]
  | .path _ segments => segments.holes
  | .tuple items => items.holes
  | .slice item | .array item _ _ => item.holes
  | .reference _ _ target | .pointer _ target => target.holes
  | .function _ _ _ inputs output => inputs.holes ++ output.holes
  | .argument type | .binding _ type | .returns type => type.holes
  | .generic _ _ args => args.holes
  | .last segment => segment.holes
  | .step segment rest => segment.holes ++ rest.holes
  | .only item _ => item.holes
  | .cons item rest => item.holes ++ rest.holes
  | .lifetime _ | .constant .. | .bare _ | .noOutput | .nil => []

def tokens {role : Role} (leaf : α → Tokens) : Pattern α role → Tokens
  | .hole value => leaf value
  | .path rooted segments =>
      (if rooted then operator [':', ':'] else []) ++ segments.tokens leaf
  | .tuple items => [delimited .paren (items.tokens leaf)]
  | .slice item => [delimited .bracket (item.tokens leaf)]
  | .array item length _ => [delimited .bracket (item.tokens leaf ++ mark ';' :: length)]
  | .reference life mutable target => referenceFront life mutable ++ target.tokens leaf
  | .pointer mutable target => mark '*' :: access mutable ++ target.tokens leaf
  | .function binder isUnsafe abi inputs output =>
      functionFront binder isUnsafe abi ++
        ([delimited .paren (inputs.tokens leaf)] ++ output.tokens leaf)
  | .lifetime name => TokenTree.lifetime name
  | .constant source _ _ _ => source
  | .argument type => type.tokens leaf
  | .binding name type => [word name.val, mark '='] ++ type.tokens leaf
  | .bare name => [word name.val]
  | .generic name doubleColon args =>
      genericFront name doubleColon ++ (args.tokens leaf ++ [mark '>'])
  | .last segment => segment.tokens leaf
  | .step segment rest => segment.tokens leaf ++ (operator [':', ':'] ++ rest.tokens leaf)
  | .noOutput => []
  | .returns type => operator ['-', '>'] ++ type.tokens leaf
  | .nil => []
  | .only item trailing => item.tokens leaf ++ if trailing then [mark ','] else []
  | .cons item rest => item.tokens leaf ++ mark ',' :: rest.tokens leaf

def named {role : Role} (count : Nat) : Pattern α role → Pattern String role
  | .hole _ => .hole (parameter count)
  | .path rooted segments => .path rooted (segments.named count)
  | .tuple items => .tuple (items.named count)
  | .slice item => .slice (item.named count)
  | .array item length blankless => .array (item.named count) length blankless
  | .reference life mutable target => .reference life mutable (target.named count)
  | .pointer mutable target => .pointer mutable (target.named count)
  | .function binder isUnsafe abi inputs output =>
      .function binder isUnsafe abi (inputs.named count)
        (output.named (count + inputs.holes.length))
  | .lifetime name => .lifetime name
  | .constant source value read blankless => .constant source value read blankless
  | .argument type => .argument (type.named count)
  | .binding name type => .binding name (type.named count)
  | .bare name => .bare name
  | .generic name doubleColon args => .generic name doubleColon (args.named count)
  | .last segment => .last (segment.named count)
  | .step segment rest =>
      .step (segment.named count) (rest.named (count + segment.holes.length))
  | .noOutput => .noOutput
  | .returns type => .returns (type.named count)
  | .nil => .nil
  | .only item trailing => .only (item.named count) trailing
  | .cons item rest => .cons (item.named count) (rest.named (count + item.holes.length))

def arrays {role : Role} : Pattern α role → List (Pattern α .type × Tokens)
  | .array item length _ => (item, length) :: item.arrays
  | .path _ segments => segments.arrays
  | .tuple items => items.arrays
  | .slice item => item.arrays
  | .reference _ _ target | .pointer _ target => target.arrays
  | .function _ _ _ inputs output => inputs.arrays ++ output.arrays
  | .argument type | .binding _ type | .returns type => type.arrays
  | .generic _ _ args => args.arrays
  | .last segment => segment.arrays
  | .step segment rest => segment.arrays ++ rest.arrays
  | .only item _ => item.arrays
  | .cons item rest => item.arrays ++ rest.arrays
  | .hole _ | .lifetime _ | .constant .. | .bare _ | .noOutput | .nil => []

/-- Whether a type, or the output of a function type, ends with the bounds of a hole. -/
def endsBounded {role : Role} : Pattern Site role → Bool
  | .hole site => site.bounds.isSome
  | .reference _ _ target | .pointer _ target => target.endsBounded
  | .function _ _ _ _ output => output.endsBounded
  | .returns type => type.endsBounded
  | _ => false

def text (pattern : Pattern Site role) : Tokens := pattern.tokens Site.tokens

def bounds (pattern : Pattern Site role) : List (Option Tokens) := pattern.holes.map Site.bounds

/-- No item of an array ends with the bounds of a hole. -/
def Clear (pattern : Pattern Site role) : Prop :=
  ∀ array ∈ pattern.arrays, array.1.endsBounded = false

/-- The shape as filling should leave it: a parameter for every hole, and nothing else changed. -/
def spelled (pattern : Pattern Site role) (count : Nat) : Tokens :=
  (pattern.named count).tokens fun name => [word name]

end Pattern

theorem Still.append {before behind : Tokens} (first : Still before) (second : Still behind) :
    Still (before ++ behind) := by
  refine ⟨fun later => ?_⟩
  rw [List.append_assoc, List.append_assoc]
  exact first.ahead (second.ahead later)

theorem still_lifetime (name : String) : Still (TokenTree.lifetime name) :=
  Still.nil.lifetime name 0 0

theorem still_lifetimes (trailing : Bool) (names : List String) :
    Still (separated ',' trailing (names.map TokenTree.lifetime)) := by
  induction names with
  | nil => exact .nil
  | cons name rest ih =>
      cases rest with
      | nil =>
          rw [List.map_cons, List.map_nil, separated]
          exact (still_lifetime name).append ((Marked.printed ',' trailing).still (by decide))
      | cons second others =>
          simp only [List.map_cons, separated_cons_cons] at ih ⊢
          exact (still_lifetime name).append (ih.mark ',' (by decide) .alone 0)

theorem still_binderTokens (binder : Option Binder) : Still (binderTokens binder) := by
  cases binder with
  | none => exact .nil
  | some binder =>
      have inner := (still_lifetimes binder.trailing binder.lifetimes).append
        (Still.nil.mark '>' (by decide) .alone 0)
      exact (inner.mark '<' (by decide) .alone 0).name (by decide) 0

theorem still_conventionTokens (abi : Option (Option String)) : Still (conventionTokens abi) := by
  rcases abi with _ | _ | name
  · exact .nil
  · exact Still.nil.name (by decide) 0
  · exact (Still.nil.literal name 0).name (by decide) 0

theorem still_keyword (name : String) (present : Bool) (notBlank : name ≠ "_") :
    Still (if present then [word name] else []) :=
  (Keyword.printed name present).still notBlank

theorem still_referenceFront (life : Option String) (mutable : Bool) :
    Still (referenceFront life mutable) := by
  have front := (Named.printed life).still.append (still_keyword "mut" mutable (by decide))
  exact front.mark '&' (by decide) .alone 0

theorem still_pointerFront (mutable : Bool) : Still (mark '*' :: access mutable) := by
  cases mutable with
  | false => exact (Still.nil.name (by decide) 0).mark '*' (by decide) .alone 0
  | true => exact (Still.nil.name (by decide) 0).mark '*' (by decide) .alone 0

theorem still_functionFront (binder : Option Binder) (isUnsafe : Bool)
    (abi : Option (Option String)) : Still (functionFront binder isUnsafe abi) :=
  (((still_binderTokens binder).append (still_keyword "unsafe" isUnsafe (by decide))).append
    (still_conventionTokens abi)).append (Still.nil.name (by decide) 0)

theorem still_genericFront (name : Word) (doubleColon : Bool) :
    Still (genericFront name doubleColon) := by
  have front := (Colons.printed doubleColon).still.append
    (Still.nil.mark '<' (by decide) .alone 0)
  exact front.name name.property 0

theorem still_constant {source value : Tokens} (read : constant? source = some (value, []))
    (blankless : "_" ∉ namesIn source) : Still source := by
  refine ⟨fun later => ?_⟩
  have filled : ∀ count, Fills (fun _ => True) count source source [] :=
    fills_constant read blankless
  exact (filled _).append later fun _ _ => trivial

def held (bounds : List (Option Tokens)) : Nat :=
  (bounds.map fun inside => (inside.getD []).length).sum

theorem held_append (first second : List (Option Tokens)) :
    held (first ++ second) = held first + held second := by
  simp [held]

/-- The number of tokens behind the items of arrays that filling takes for bounds. -/
def overrun (arrays : List (Pattern Site .type × Tokens)) : Nat :=
  (arrays.map fun array =>
    if array.1.endsBounded then boundsLength 0 false (mark ';' :: array.2) else 0).sum

theorem overrun_cons (array : Pattern Site .type × Tokens)
    (arrays : List (Pattern Site .type × Tokens)) :
    overrun (array :: arrays) =
      (if array.1.endsBounded then boundsLength 0 false (mark ';' :: array.2) else 0) +
        overrun arrays := by
  rw [overrun, List.map_cons, List.sum_cons, overrun]

theorem overrun_append (first second : List (Pattern Site .type × Tokens)) :
    overrun (first ++ second) = overrun first + overrun second := by
  simp [overrun]

theorem fills_overrun {inside rest : Tokens} (count pos : Nat)
    (scanned : scan 0 false inside = some (0, false)) (blankless : "_" ∉ namesIn rest) :
    Fills (· = []) count (.ident "_" pos :: mark ':' :: (inside ++ rest))
      (word (parameter count) :: rest.drop (boundsLength 0 false rest))
      [⟨parameter count, some (inside ++ rest.take (boundsLength 0 false rest))⟩] := by
  rintro _ rfl
  have absent : "_" ∉ namesIn (rest.drop (boundsLength 0 false rest)) := fun member =>
    blankless (namesIn_mono (List.drop_subset _ rest) member)
  have filled := fillFrom_bounded count pos (rfl : startsBounds (mark ':' :: (inside ++ rest)) = true)
    rfl scanned
  rw [List.append_nil, filled]
  simp [fillFrom_blankless _ _ _ absent, fillFrom]

/-! ### What filling makes of a part -/

/-- What may come next behind a part, as it does everywhere but behind the item of an array. -/
def Role.Fits : Role → Bool → Tokens → Prop
  | .argument, _ | .list _, _ | _, true => StopsAt [',', '>']
  | _, false => Unbounded

theorem Role.fits_of_stopsAt (role : Role) (bounded : Bool) {rest : Tokens}
    (stops : StopsAt [',', '>'] rest) : role.Fits bounded rest := by
  unfold Role.Fits
  split
  · exact stops
  · exact stops
  · exact stops
  · exact .of_stopsAt stops

theorem Role.fits_output_iff (bounded : Bool) {rest : Tokens} :
    Role.output.Fits bounded rest ↔ Role.type.Fits bounded rest := by
  cases bounded <;> rfl

section Parts

variable {role role' role'' : Role}

theorem Pattern.bounds_congr {part : Pattern Site role} {whole : Pattern Site role'}
    (sameHoles : whole.holes = part.holes) : whole.bounds = part.bounds := by
  rw [Pattern.bounds, sameHoles, Pattern.bounds]

theorem Pattern.bounds_append {first : Pattern Site role} {second : Pattern Site role'}
    {whole : Pattern Site role''} (sameHoles : whole.holes = first.holes ++ second.holes) :
    whole.bounds = first.bounds ++ second.bounds := by
  rw [Pattern.bounds, sameHoles, List.map_append, Pattern.bounds, Pattern.bounds]

/-- These are the holes of a part, but `more` tokens and those that follow the items of arrays are
taken for bounds as well. -/
structure Holds (part : Pattern Site role) (more : Nat) (holes : List Hole) : Prop where
  length : holes.length = part.holes.length
  held : held (holes.map Hole.bounds) = held part.bounds + overrun part.arrays + more

namespace Holds

variable {more : Nat} {holes holes' : List Hole}

theorem as {part : Pattern Site role} {whole : Pattern Site role'} (holds : Holds part more holes)
    (sameHoles : whole.holes = part.holes) (sameArrays : whole.arrays = part.arrays) :
    Holds whole more holes := by
  refine ⟨by rw [holds.length, sameHoles], ?_⟩
  rw [holds.held, Pattern.bounds_congr sameHoles, sameArrays]

theorem append {first : Pattern Site role} {second : Pattern Site role'}
    {whole : Pattern Site role''} (left : Holds first 0 holes) (right : Holds second more holes')
    (sameHoles : whole.holes = first.holes ++ second.holes)
    (sameArrays : whole.arrays = first.arrays ++ second.arrays) :
    Holds whole more (holes ++ holes') := by
  refine ⟨?_, ?_⟩
  · rw [List.length_append, left.length, right.length, sameHoles, List.length_append]
  · rw [List.map_append, held_append, left.held, right.held, Pattern.bounds_append sameHoles,
      held_append, sameArrays, overrun_append]
    omega

end Holds

/-- Filling makes this of a part in front of what fits. -/
structure Outcome (part : Pattern Site role) (count : Nat) (done : Tokens) (holes : List Hole) :
    Prop where
  fills : Fills (role.Fits part.endsBounded) count part.text done holes
  holds : Holds part 0 holes
  clear : part.Clear → done = part.spelled count ∧ holes = holesFrom count part.bounds

theorem Outcome.wrap {part : Pattern Site role} {whole : Pattern Site role'} {count : Nat}
    {done : Tokens} {holes : List Hole} (outcome : Outcome part count done holes)
    (around : Tokens → Tokens)
    (fills : Fills (role'.Fits whole.endsBounded) count whole.text (around done) holes)
    (sameHoles : whole.holes = part.holes) (sameArrays : whole.arrays = part.arrays)
    (spelled : whole.spelled count = around (part.spelled count)) :
    Outcome whole count (around done) holes := by
  refine ⟨fills, outcome.holds.as sameHoles sameArrays, fun clear => ?_⟩
  rw [Pattern.Clear, sameArrays] at clear
  obtain ⟨rfl, rfl⟩ := outcome.clear clear
  exact ⟨spelled.symm, by rw [Pattern.bounds_congr sameHoles]⟩

/-- What filling makes of a part is known in front of what fits, and for a part that ends with bounds
in front of anything without underscores. -/
structure Fillable (part : Pattern Site role) : Prop where
  outcome : ∀ count, ∃ done holes, Outcome part count done holes
  overrun : part.endsBounded = true → ∀ count rest, "_" ∉ namesIn rest → ∃ done holes,
    Fills (· = []) count (part.text ++ rest) done holes ∧
      Holds part (boundsLength 0 false rest) holes

namespace Fillable

theorem hole (site : Site) : Fillable (.hole site) := by
  obtain ⟨bounds, valid⟩ := site
  cases bounds with
  | none =>
      refine ⟨fun count => ⟨_, _, .blank 0, ⟨rfl, rfl⟩, fun _ => ⟨rfl, rfl⟩⟩, ?_⟩
      intro bounded
      cases bounded
  | some inside =>
      have scanned := (valid inside rfl).scan_eq
      refine ⟨fun count => ⟨_, _, .bounded 0 scanned .alone, ⟨rfl, rfl⟩, fun _ => ⟨rfl, rfl⟩⟩, ?_⟩
      intro _ count rest blankless
      refine ⟨_, _, fills_overrun count 0 scanned blankless, rfl, ?_⟩
      have taken := List.length_take_of_le (boundsLength_le 0 false rest)
      have noArrays : Shape.overrun (Pattern.hole ⟨some inside, valid⟩).arrays = 0 := rfl
      rw [noArrays]
      simp [held, Pattern.bounds, Pattern.holes, taken]

theorem still {part : Pattern Site role} (text : Still part.text)
    (unbounded : part.endsBounded = false) (noHoles : part.holes = []) (noArrays : part.arrays = [])
    (spelled : ∀ count, part.spelled count = part.text) : Fillable part := by
  have noBounds : part.bounds = [] := by
    rw [Pattern.bounds, noHoles]
    rfl
  refine ⟨fun count => ⟨part.text, [], ?_, ⟨?_, ?_⟩, fun _ => ⟨(spelled count).symm, ?_⟩⟩, ?_⟩
  · have nothing : Fills (role.Fits part.endsBounded) count [] [] [] := .nil
    have filled := text.ahead nothing
    rwa [List.append_nil] at filled
  · rw [noHoles]
    rfl
  · rw [noBounds, noArrays]
    rfl
  · rw [noBounds]
    rfl
  · rw [unbounded]
    nofun

theorem front {inner : Pattern Site role} {whole : Pattern Site role'} {before : Tokens}
    (filled : Fillable inner) (still : Still before)
    (fitting : ∀ rest, role'.Fits whole.endsBounded rest → role.Fits inner.endsBounded rest)
    (ends : whole.endsBounded = true → inner.endsBounded = true)
    (text : whole.text = before ++ inner.text) (sameHoles : whole.holes = inner.holes)
    (sameArrays : whole.arrays = inner.arrays)
    (spelled : ∀ count, whole.spelled count = before ++ inner.spelled count) : Fillable whole := by
  refine ⟨fun count => ?_, fun bounded count rest blankless => ?_⟩
  · obtain ⟨done, holes, outcome⟩ := filled.outcome count
    have fills := (still.ahead outcome.fills).mono fitting
    rw [← text] at fills
    exact ⟨_, holes, outcome.wrap (before ++ ·) fills sameHoles sameArrays (spelled count)⟩
  · obtain ⟨done, holes, fills, holds⟩ := filled.overrun (ends bounded) count rest blankless
    refine ⟨before ++ done, holes, ?_, holds.as sameHoles sameArrays⟩
    rw [text, List.append_assoc]
    exact still.ahead fills

theorem surround {inner : Pattern Site role} {whole : Pattern Site role'} {before behind : Tokens}
    (filled : Fillable inner) (still : Still before) (still' : Still behind)
    (fitting : ∀ rest, role'.Fits whole.endsBounded rest →
      role.Fits inner.endsBounded (behind ++ rest))
    (unbounded : whole.endsBounded = false)
    (text : whole.text = before ++ (inner.text ++ behind)) (sameHoles : whole.holes = inner.holes)
    (sameArrays : whole.arrays = inner.arrays)
    (spelled : ∀ count, whole.spelled count = before ++ (inner.spelled count ++ behind)) :
    Fillable whole := by
  refine ⟨fun count => ?_, ?_⟩
  · obtain ⟨done, holes, outcome⟩ := filled.outcome count
    have nothing : Fills (role'.Fits whole.endsBounded) (count + holes.length) [] [] [] := .nil
    have closing := still'.ahead nothing
    have fills := still.ahead (outcome.fills.append closing fun rest fit => by
      rw [List.append_nil]
      exact fitting rest fit)
    rw [List.append_nil, List.append_nil, ← text] at fills
    exact ⟨_, holes, outcome.wrap (fun done => before ++ (done ++ behind)) fills sameHoles
      sameArrays (spelled count)⟩
  · rw [unbounded]
    nofun

theorem group {inner : Pattern Site role} {whole : Pattern Site role'} (filled : Fillable inner)
    (delimiter : Delimiter) (unbounded : whole.endsBounded = false)
    (text : whole.text = [delimited delimiter inner.text]) (sameHoles : whole.holes = inner.holes)
    (sameArrays : whole.arrays = inner.arrays)
    (spelled : ∀ count, whole.spelled count = [delimited delimiter (inner.spelled count)]) :
    Fillable whole := by
  refine ⟨fun count => ?_, ?_⟩
  · obtain ⟨done, holes, outcome⟩ := filled.outcome count
    have fills : Fills (role'.Fits whole.endsBounded) count _ _ holes :=
      .group delimiter 0 outcome.fills (role.fits_of_stopsAt _ .nil)
    have same : [TokenTree.group delimiter inner.text 0] = whole.text := text.symm
    rw [same] at fills
    exact ⟨_, holes, outcome.wrap (fun done => [delimited delimiter done]) fills sameHoles
      sameArrays (spelled count)⟩
  · rw [unbounded]
    nofun

theorem join {first : Pattern Site role} {second : Pattern Site role'}
    {whole : Pattern Site role''} {before between : Tokens} (left : Fillable first)
    (right : Fillable second) (still : Still before) (still' : Still between)
    (fitting : ∀ rest, role''.Fits whole.endsBounded rest →
      role'.Fits second.endsBounded rest)
    (apart : ∀ rest, role.Fits first.endsBounded (between ++ second.text ++ rest))
    (ends : whole.endsBounded = true → second.endsBounded = true)
    (text : whole.text = before ++ (first.text ++ (between ++ second.text)))
    (sameHoles : whole.holes = first.holes ++ second.holes)
    (sameArrays : whole.arrays = first.arrays ++ second.arrays)
    (spelled : ∀ count, whole.spelled count =
      before ++ (first.spelled count ++
        (between ++ second.spelled (count + first.holes.length)))) : Fillable whole := by
  refine ⟨fun count => ?_, fun bounded count rest blankless => ?_⟩
  · obtain ⟨done, holes, fills, holds, clear⟩ := left.outcome count
    obtain ⟨done', holes', fills', holds', clear'⟩ := right.outcome (count + holes.length)
    refine ⟨before ++ (done ++ (between ++ done')), holes ++ holes', ?_,
      holds.append holds' sameHoles sameArrays, fun clearWhole => ?_⟩
    · rw [text]
      exact still.ahead (fills.append ((still'.ahead fills').mono fitting) fun rest _ => apart rest)
    · rw [Pattern.Clear, sameArrays, List.forall_mem_append] at clearWhole
      obtain ⟨rfl, rfl⟩ := clear clearWhole.1
      obtain ⟨rfl, rfl⟩ := clear' clearWhole.2
      have counted : first.bounds.length = first.holes.length := List.length_map _
      rw [length_holesFrom, spelled, Pattern.bounds_append sameHoles, holesFrom_append, counted]
      exact ⟨rfl, rfl⟩
  · obtain ⟨done, holes, fills, holds, _⟩ := left.outcome count
    obtain ⟨done', holes', fills', holds'⟩ :=
      right.overrun (ends bounded) (count + holes.length) rest blankless
    refine ⟨before ++ (done ++ (between ++ done')), holes ++ holes', ?_,
      holds.append holds' sameHoles sameArrays⟩
    have later := fills.append (still'.ahead fills') fun rest' _ => by
      have far := apart (rest ++ rest')
      simpa only [List.append_assoc] using far
    rw [text]
    simpa only [List.append_assoc] using still.ahead later

theorem array {item : Pattern Site .type} (filled : Fillable item) (length : Tokens)
    (blankless : "_" ∉ namesIn length) : Fillable (.array item length blankless) := by
  have rest : "_" ∉ namesIn (mark ';' :: length) := blankless
  refine ⟨fun count => ?_, nofun⟩
  cases bounded : item.endsBounded with
  | false =>
      obtain ⟨done, holes, fills, holds, clear⟩ := filled.outcome count
      rw [bounded] at fills
      have closing : Fills (· = []) (count + holes.length) (mark ';' :: length)
          (mark ';' :: length) [] := .blankless rest
      have inside := fills.append closing fun rest _ => .punct (by decide) .alone 0 _
      rw [List.append_nil] at inside
      refine ⟨_, holes, .group .bracket 0 inside rfl, ⟨holds.length, ?_⟩, fun clearWhole => ?_⟩
      · rw [holds.held, Pattern.arrays, overrun_cons, bounded]
        simp [Pattern.bounds, Pattern.holes]
      · rw [Pattern.Clear, Pattern.arrays, List.forall_mem_cons] at clearWhole
        obtain ⟨rfl, rfl⟩ := clear clearWhole.2
        exact ⟨rfl, rfl⟩
  | true =>
      obtain ⟨done, holes, fills, holds⟩ := filled.overrun bounded count _ rest
      refine ⟨_, holes, .group .bracket 0 fills rfl, ⟨holds.length, ?_⟩, fun clearWhole => ?_⟩
      · rw [holds.held, Pattern.arrays, overrun_cons, if_pos bounded]
        simp only [Pattern.bounds, Pattern.holes]
        omega
      · rw [Pattern.Clear, Pattern.arrays, List.forall_mem_cons, bounded] at clearWhole
        cases clearWhole.1

end Fillable

theorem Pattern.endsBounded_segment (segment : Pattern Site .segment) :
    segment.endsBounded = false := by
  cases segment <;> rfl

theorem Pattern.endsBounded_segments (segments : Pattern Site .segments) :
    segments.endsBounded = false := by
  cases segments <;> rfl

/-- Filling is known for every part, by the parts that it is made of. -/
theorem Pattern.fillable (part : Pattern Site role) : Fillable part := by
  induction part with
  | hole site => exact .hole site
  | path rooted segments ih =>
      refine ih.front (Colons.printed rooted).still ?_ nofun rfl rfl rfl fun _ => rfl
      rw [segments.endsBounded_segments]
      exact fun _ fit => fit
  | tuple items ih => exact ih.group .paren rfl rfl rfl rfl fun _ => rfl
  | slice item ih => exact ih.group .bracket rfl rfl rfl rfl fun _ => rfl
  | array item length blankless ih => exact ih.array length blankless
  | reference life mutable target ih =>
      exact ih.front (still_referenceFront life mutable) (fun _ fit => fit) id rfl rfl rfl
        fun _ => rfl
  | pointer mutable target ih =>
      exact ih.front (still_pointerFront mutable) (fun _ fit => fit) id rfl rfl rfl fun _ => rfl
  | function binder isUnsafe abi inputs output ihInputs ihOutput =>
      have front := still_functionFront binder isUnsafe abi
      have group : Fillable (.tuple inputs) := ihInputs.group .paren rfl rfl rfl rfl fun _ => rfl
      cases output with
      | noOutput =>
          exact group.front front (fun _ fit => fit) nofun rfl (List.append_nil _)
            (List.append_nil _) fun _ => rfl
      | returns type =>
          exact group.join ihOutput front .nil (fun _ => (Role.fits_output_iff _).mpr) (fun _ => rfl)
            id rfl rfl rfl fun _ => rfl
  | lifetime name => exact .still (still_lifetime name) rfl rfl rfl fun _ => rfl
  | constant source value read blankless =>
      exact .still (still_constant read blankless) rfl rfl rfl fun _ => rfl
  | argument type ih =>
      exact ih.front .nil (fun _ fit => Role.fits_of_stopsAt _ _ fit) nofun rfl rfl rfl fun _ => rfl
  | binding name type ih =>
      exact ih.front ((Still.nil.mark '=' (by decide) .alone 0).name name.property 0)
        (fun _ fit => Role.fits_of_stopsAt _ _ fit) nofun rfl rfl rfl fun _ => rfl
  | bare name => exact .still (Still.nil.name name.property 0) rfl rfl rfl fun _ => rfl
  | generic name doubleColon args ih =>
      exact ih.surround (still_genericFront name doubleColon)
        (Still.nil.mark '>' (by decide) .alone 0) (fun _ _ => .punct (by decide) .alone 0 _) rfl rfl
        rfl rfl fun _ => rfl
  | last segment ih =>
      refine ih.front .nil ?_ nofun rfl rfl rfl fun _ => rfl
      rw [segment.endsBounded_segment]
      exact fun _ fit => fit
  | step segment rest ihSegment ihRest =>
      have colons := (Colons.printed true).still
      refine ihSegment.join ihRest .nil colons ?_ ?_ nofun rfl rfl rfl fun _ => rfl
      · rw [rest.endsBounded_segments]
        exact fun _ fit => fit
      · rw [segment.endsBounded_segment]
        exact fun _ => rfl
  | noOutput => exact .still .nil rfl rfl rfl fun _ => rfl
  | returns type ih =>
      exact ih.front ((Still.nil.mark '>' (by decide) .alone 0).mark '-' (by decide) .joint 0)
        (fun _ => (Role.fits_output_iff _).mp) id rfl rfl rfl fun _ => rfl
  | nil => exact .still .nil rfl rfl rfl fun _ => rfl
  | only item trailing ih =>
      refine ih.surround .nil ((Marked.printed ',' trailing).still (by decide)) ?_ rfl rfl rfl rfl
        fun _ => rfl
      intro rest fit
      refine Role.fits_of_stopsAt _ _ ?_
      cases trailing with
      | false => exact fit
      | true => exact .punct (by decide) .alone 0 _
  | cons item rest ihItem ihRest =>
      exact ihItem.join ihRest .nil (Still.nil.mark ',' (by decide) .alone 0) (fun _ fit => fit)
        (fun _ => Role.fits_of_stopsAt _ _ (.punct (by decide) .alone 0 _)) nofun rfl rfl rfl
        fun _ => rfl

end Parts

/-! ### Filling the holes of a shape -/

/-- Filling records what is written at the holes and, behind each item of an array that ends with
bounds, everything up to a comma or a closing mark. -/
theorem held_takeHoles (pattern : Pattern Site .type) :
    held ((takeHoles pattern.text).2.map Hole.bounds) =
      held pattern.bounds + overrun pattern.arrays := by
  obtain ⟨done, holes, fills, holds, _⟩ := pattern.fillable.outcome 0
  rw [fills.takeHoles_eq (Role.fits_of_stopsAt _ _ .nil), holds.held, Nat.add_zero]

theorem overrun_eq_zero_iff {arrays : List (Pattern Site .type × Tokens)} :
    overrun arrays = 0 ↔ ∀ array ∈ arrays, array.1.endsBounded = false := by
  have taken : ∀ length, boundsLength 0 false (mark ';' :: length) ≠ 0 := fun _ => Nat.succ_ne_zero _
  induction arrays with
  | nil => exact iff_of_true rfl nofun
  | cons array rest ih =>
      rw [overrun_cons, Nat.add_eq_zero_iff, List.forall_mem_cons]
      refine and_congr ?_ ih
      cases array.1.endsBounded <;> simp [taken]

/-- Filling puts a parameter in place of each hole, changes nothing else and records for the holes
exactly what is written at them, if and only if no item of an array ends with the bounds of a hole. -/
theorem takeHoles_eq_iff_clear (pattern : Pattern Site .type) :
    takeHoles pattern.text = (pattern.spelled 0, holesFrom 0 pattern.bounds) ↔ pattern.Clear := by
  constructor
  · intro filled
    have counted := held_takeHoles pattern
    have recorded : (holesFrom 0 pattern.bounds).map Hole.bounds = pattern.bounds := by
      rw [holesFrom, List.map_map]
      exact List.zipIdx_map_fst 0 pattern.bounds
    rw [filled, recorded] at counted
    exact overrun_eq_zero_iff.mp (by omega)
  · intro clear
    obtain ⟨done, holes, fills, _, exact⟩ := pattern.fillable.outcome 0
    obtain ⟨rfl, rfl⟩ := exact clear
    exact fills.takeHoles_eq (Role.fits_of_stopsAt _ _ .nil)

/-- The shape `Option<[_: Copy; 4]>`. -/
def boundedItems : Pattern Site .type :=
  .path false (.last (.generic ⟨"Option", by decide⟩ false (.only (.argument
    (.array (.hole ⟨some [word "Copy"], by rintro _ ⟨⟩; exact .inr rfl⟩) [.literal "4" 0]
      (by decide))) false)))

/-- The length of the array goes to the bounds of the hole, and what is left is a slice. -/
theorem length_taken_for_bounds :
    boundedItems.text = [word "Option", mark '<', delimited .bracket [word "_", mark ':',
        word "Copy", mark ';', .literal "4" 0], mark '>'] ∧
      takeHoles boundedItems.text =
        ([word "Option", mark '<', delimited .bracket [word "__S0"], mark '>'],
          [⟨"__S0", some [word "Copy", mark ';', .literal "4" 0]⟩]) ∧
      (boundedItems.spelled 0, holesFrom 0 boundedItems.bounds) =
        ([word "Option", mark '<', delimited .bracket [word "__S0", mark ';', .literal "4" 0],
          mark '>'], [⟨"__S0", some [word "Copy"]⟩]) ∧
      takeHoles boundedItems.text ≠ (boundedItems.spelled 0, holesFrom 0 boundedItems.bounds) := by
  refine ⟨rfl, rfl, rfl, fun same => ?_⟩
  have holes := congrArg (fun filled => held (filled.2.map Hole.bounds)) same
  revert holes
  decide

end Shape

end TypeConcepts
