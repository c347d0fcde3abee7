import TypeConcepts.Proofs.Shape.Filling
import TypeConcepts.Proofs.TypeExpr.Printed

/-!
Filling a text and filling what is printed for it, side by side: both get the same parameters, and
the bounds that go to a parameter are the same or printed from the same type.
-/

namespace TypeConcepts

open TokenTree TypeReader

namespace Shape

/-- A hole of a text, and the same hole of what is printed for the text. -/
inductive Reprinted : Hole → Hole → Prop
  | same {hole : Hole} : Reprinted hole hole
  | type {name : String} {text : Tokens} {type : TypeExpr}
      (read : TypeExpr.ofTokens? text = some type) :
      Reprinted ⟨name, some text⟩ ⟨name, some type.tokens⟩
  | dots {name : String} {spacing : Spacing} {pos pos' pos'' : Nat} :
      Reprinted
        ⟨name, some [.punct '.' .joint pos, .punct '.' .joint pos', .punct '.' spacing pos'']⟩
        ⟨name, some ellipsis⟩

/-- No hole in front of the tokens would get bounds. -/
def Unbounded (rest : Tokens) : Prop := startsBounds rest = false

theorem Unbounded.punct {char : Char} (other : char ≠ ':') (spacing : Spacing) (pos : Nat)
    (rest : Tokens) : Unbounded (.punct char spacing pos :: rest) :=
  startsBounds_of_stopsAt (.punct (List.mem_singleton_self char) spacing pos rest)
    (by simpa using other.symm)

theorem Unbounded.of_stopsAt {rest : Tokens} (stops : StopsAt [',', '>'] rest) : Unbounded rest :=
  startsBounds_of_stopsAt stops (by decide)

namespace Fills

variable {fits fits' : Tokens → Prop} {count : Nat} {tokens done tokens' done' : Tokens}
  {holes holes' : List Hole}

theorem alone (fills : Fills fits count tokens done holes) (fit : fits []) :
    fillFrom count 0 false tokens = (done, holes) := by
  have filled := fills [] fit
  simpa only [List.append_nil, fillFrom] using filled

theorem eq_nil (fills : Fills fits count [] done holes) (fit : fits []) : done = [] := by
  have filled := fills.alone fit
  cases filled
  rfl

theorem literal (text : String) (pos : Nat) (later : Fills fits count tokens done holes) :
    Fills fits count (.literal text pos :: tokens) (.literal text pos :: done) holes :=
  later.keep rfl rfl rfl

theorem rawGroup (delimiter : Delimiter) (inner : Tokens) (pos : Nat) :
    Fills fits count [.group delimiter inner pos]
      [.group delimiter (fillFrom count 0 false inner).1 pos] (fillFrom count 0 false inner).2 := by
  intro rest _
  rfl

theorem blank (pos : Nat) :
    Fills Unbounded count [.ident "_" pos] [word (parameter count)]
      [⟨parameter count, none⟩] := by
  intro rest unbounded
  rw [Unbounded] at unbounded
  rw [List.singleton_append, fillFrom_blank]
  simp only [unbounded, Bool.false_eq_true, if_false]
  rfl

end Fills

/-- Both texts are filled with the same parameters, each on its own in front of what fits. -/
structure Alike (fits : Tokens → Prop) (count : Nat) (text done text' done' : Tokens)
    (holes : List (Hole × Hole)) : Prop where
  source : Fills fits count text done (holes.map Prod.fst)
  print : Fills fits count text' done' (holes.map Prod.snd)
  same : ∀ pair ∈ holes, Reprinted pair.1 pair.2

namespace Alike

variable {fits fits' : Tokens → Prop} {count : Nat}
  {text done text' done' more doneMore more' doneMore' : Tokens} {holes others : List (Hole × Hole)}

theorem mono (alike : Alike fits count text done text' done' holes)
    (fitting : ∀ rest, fits' rest → fits rest) : Alike fits' count text done text' done' holes :=
  ⟨alike.source.mono fitting, alike.print.mono fitting, alike.same⟩

theorem append (first : Alike fits count text done text' done' holes)
    (second : Alike fits' (count + holes.length) more doneMore more' doneMore' others)
    (fitting : ∀ rest, fits' rest → fits (more ++ rest) ∧ fits (more' ++ rest)) :
    Alike fits' count (text ++ more) (done ++ doneMore) (text' ++ more') (done' ++ doneMore')
      (holes ++ others) := by
  obtain ⟨source, print, same⟩ := second
  refine ⟨?_, ?_, ?_⟩
  · rw [List.map_append]
    rw [← List.length_map Prod.fst] at source
    exact first.source.append source fun rest fit => (fitting rest fit).1
  · rw [List.map_append]
    rw [← List.length_map Prod.snd] at print
    exact first.print.append print fun rest fit => (fitting rest fit).2
  · intro pair member
    rcases List.mem_append.mp member with earlier | later
    · exact first.same pair earlier
    · exact same pair later

theorem nil : Alike fits count [] [] [] [] [] :=
  ⟨.nil, .nil, nofun⟩

theorem punct {char : Char} (notTick : char ≠ '\'') (spacing spacing' : Spacing) (pos pos' : Nat)
    (later : Alike fits count text done text' done' holes) :
    Alike fits count (.punct char spacing pos :: text) (.punct char spacing pos :: done)
      (.punct char spacing' pos' :: text') (.punct char spacing' pos' :: done') holes :=
  ⟨later.source.mark char notTick spacing pos, later.print.mark char notTick spacing' pos',
    later.same⟩

theorem name {name : String} (notBlank : name ≠ "_") (pos pos' : Nat)
    (later : Alike fits count text done text' done' holes) :
    Alike fits count (.ident name pos :: text) (.ident name pos :: done) (.ident name pos' :: text')
      (.ident name pos' :: done') holes :=
  ⟨later.source.name notBlank pos, later.print.name notBlank pos', later.same⟩

theorem literal (string : String) (pos pos' : Nat)
    (later : Alike fits count text done text' done' holes) :
    Alike fits count (.literal string pos :: text) (.literal string pos :: done)
      (.literal string pos' :: text') (.literal string pos' :: done') holes :=
  ⟨later.source.literal string pos, later.print.literal string pos', later.same⟩

theorem lifetime (name : String) (pos pos' : Nat)
    (later : Alike fits count text done text' done' holes) :
    Alike fits count (.punct '\'' .joint pos :: .ident name pos' :: text)
      (.punct '\'' .joint pos :: .ident name pos' :: done) (TokenTree.lifetime name ++ text')
      (TokenTree.lifetime name ++ done') holes :=
  ⟨later.source.lifetime name pos pos', later.print.lifetime name 0 0, later.same⟩

theorem group (delimiter : Delimiter) (pos : Nat)
    (inner : Alike fits count text done text' done' holes) (alone : fits []) :
    Alike fits' count [.group delimiter text pos] [.group delimiter done pos]
      [delimited delimiter text'] [delimited delimiter done'] holes :=
  ⟨.group delimiter pos inner.source alone, .group delimiter 0 inner.print alone, inner.same⟩

theorem rawGroup (delimiter : Delimiter) (inner : Tokens) (pos : Nat) :
    Alike fits count [.group delimiter inner pos]
      [.group delimiter (fillFrom count 0 false inner).1 pos] [.group delimiter inner pos]
      [.group delimiter (fillFrom count 0 false inner).1 pos]
      ((fillFrom count 0 false inner).2.map fun hole => (hole, hole)) := by
  refine ⟨?_, ?_, ?_⟩
  · rw [List.map_map]
    exact (List.map_id _).symm ▸ Fills.rawGroup delimiter inner pos
  · rw [List.map_map]
    exact (List.map_id _).symm ▸ Fills.rawGroup delimiter inner pos
  · intro pair member
    obtain ⟨hole, _, rfl⟩ := List.mem_map.mp member
    exact .same

theorem blank (pos : Nat) :
    Alike Unbounded count [.ident "_" pos] [word (parameter count)] [word "_"]
      [word (parameter count)] [(⟨parameter count, none⟩, ⟨parameter count, none⟩)] := by
  refine ⟨.blank pos, .blank 0, fun pair member => ?_⟩
  obtain rfl := List.mem_singleton.mp member
  exact .same

theorem bounded {inside inside' : Tokens} {colon : TokenTree} (pos : Nat)
    (scanned : scan 0 false inside = some (0, false))
    (scanned' : scan 0 false inside' = some (0, false))
    (lone : Lone ':' ':' (colon :: inside) inside)
    (same : ∀ name, Reprinted ⟨name, some inside⟩ ⟨name, some inside'⟩) :
    Alike (StopsAt [',', '>']) count (.ident "_" pos :: colon :: inside) [word (parameter count)]
      (word "_" :: mark ':' :: inside') [word (parameter count)]
      [(⟨parameter count, some inside⟩, ⟨parameter count, some inside'⟩)] := by
  refine ⟨.bounded pos scanned lone, .bounded 0 scanned' .alone, fun pair member => ?_⟩
  obtain rfl := List.mem_singleton.mp member
  exact same _

end Alike

/-! ### Lists of parts -/

section Each

variable {α : Type}

/-- The members of two lists side by side, each with the holes of its own. -/
inductive Each (rel : Nat → α → α → List (Hole × Hole) → Prop) :
    Nat → List α → List α → List (Hole × Hole) → Prop
  | nil {count : Nat} : Each rel count [] [] []
  | cons {count : Nat} {item item' : α} {items items' : List α} {holes others : List (Hole × Hole)}
      (first : rel count item item' holes)
      (rest : Each rel (count + holes.length) items items' others) :
      Each rel count (item :: items) (item' :: items') (holes ++ others)

namespace Each

variable {rel : Nat → α → α → List (Hole × Hole) → Prop} {count : Nat}
  {items items' more more' : List α} {holes others : List (Hole × Hole)}

theorem append (first : Each rel count items items' holes)
    (second : Each rel (count + holes.length) more more' others) :
    Each rel count (items ++ more) (items' ++ more') (holes ++ others) := by
  induction first with
  | nil => exact second
  | cons first rest ih =>
      rw [List.append_assoc]
      refine .cons first (ih ?_)
      rwa [List.length_append, ← Nat.add_assoc] at second

theorem of_append (each : Each rel count (items ++ more) more' holes) :
    ∃ first first' second second', more' = first ++ second ∧ holes = first' ++ second' ∧
      Each rel count items first first' ∧ Each rel (count + first'.length) more second second' := by
  induction items generalizing count more' holes with
  | nil => exact ⟨[], [], more', holes, rfl, rfl, .nil, each⟩
  | cons item items ih =>
      cases each with
      | @cons _ _ item' _ _ head _ first rest =>
          obtain ⟨front, inFront, behind, inBehind, rfl, rfl, before, after⟩ := ih rest
          refine ⟨item' :: front, head ++ inFront, behind, inBehind, rfl,
            (List.append_assoc _ _ _).symm, .cons first before, ?_⟩
          rwa [List.length_append, ← Nat.add_assoc]

theorem front {moves : α → Bool}
    (kind : ∀ count item item' holes, rel count item item' holes → moves item' = moves item)
    (still : ∀ count item item' holes, rel count item item' holes → moves item = true →
      holes = [] ∧ ∀ count, rel count item item' [])
    (each : Each rel count items items' holes) :
    Each rel count (TypeConcepts.front moves items) (TypeConcepts.front moves items') holes := by
  have parts : (∀ count, Each rel count (items.filter moves) (items'.filter moves) []) ∧
      Each rel count (items.filter fun item => !moves item)
        (items'.filter fun item => !moves item) holes := by
    induction each with
    | nil => exact ⟨fun _ => .nil, .nil⟩
    | @cons count item item' items items' holes others first rest ih =>
        have same := kind _ _ _ _ first
        cases moved : moves item with
        | true =>
            rw [moved] at same
            obtain ⟨rfl, anywhere⟩ := still _ _ _ _ first moved
            simp only [List.filter_cons, moved, same, if_true, Bool.not_true, Bool.false_eq_true,
              if_false, List.nil_append]
            exact ⟨fun count => .cons (anywhere count) (ih.1 _), ih.2⟩
        | false =>
            rw [moved] at same
            simp only [List.filter_cons, moved, same, if_true, Bool.not_false, Bool.false_eq_true,
              if_false]
            exact ⟨ih.1, .cons first ih.2⟩
  exact (parts.1 count).append parts.2

theorem map_eq {β : Type} {view : α → β}
    (same : ∀ count item item' holes, rel count item item' holes → view item' = view item)
    (each : Each rel count items items' holes) : items'.map view = items.map view := by
  induction each with
  | nil => rfl
  | cons first rest ih => rw [List.map_cons, List.map_cons, ih, same _ _ _ _ first]

theorem fills_separated {fits fits' : Tokens → Prop} {layout : α → Tokens} {separator : Char}
    {trailing : Bool} (notTick : separator ≠ '\'')
    (fitting : ∀ rest, fits (mark separator :: rest)) (fitting' : ∀ rest, fits' rest → fits rest)
    (fills : ∀ count item item' holes, rel count item item' holes →
      Fills fits count (layout item) (layout item') (holes.map Prod.snd))
    (each : Each rel count items items' holes) :
    Fills fits' count (separated separator trailing (items.map layout))
      (separated separator trailing (items'.map layout)) (holes.map Prod.snd) := by
  induction each with
  | nil => exact .nil
  | @cons count item item' items items' holes others first rest ih =>
      have head := fills _ _ _ _ first
      cases rest with
      | nil =>
          rw [List.append_nil]
          cases trailing with
          | false =>
              simp only [List.map_cons, List.map_nil, separated_single]
              exact head.mono fitting'
          | true =>
              have closing : Fills fits' (count + (holes.map Prod.snd).length) [mark separator]
                  [mark separator] [] := Fills.nil.mark separator notTick .alone 0
              have whole := head.append closing fun rest _ => fitting rest
              rwa [List.append_nil] at whole
      | cons second later =>
          simp only [List.map_cons, separated_cons_cons] at ih ⊢
          rw [List.map_append]
          rw [← List.length_map Prod.snd] at ih
          exact head.append (ih.mark separator notTick .alone 0) fun rest _ => fitting _

end Each

end Each

end Shape

end TypeConcepts
