import TypeConcepts.Proofs.Shape.Filling

/-!
The bounds that are written at the holes of a shape, told without filling it, are the ones that
filling records.
-/

namespace TypeConcepts

open TokenTree

namespace Shape

/-- The bounds end here: with the next token they would close what they did not open, or hold a
comma outside of all marks. -/
def Ends (depth : Nat) (dash : Bool) (inside next : Tokens) : Prop :=
  ∀ tree more, next = tree :: more → scan depth dash (inside ++ [tree]) = none

theorem scan_of_append {depth : Nat} {dash : Bool} {left right : Tokens}
    (scanned : (scan depth dash (left ++ right)).isSome = true) :
    (scan depth dash left).isSome = true := by
  rw [scan_append] at scanned
  cases first : scan depth dash left with
  | none =>
      rw [first] at scanned
      cases scanned
  | some => rfl

theorem Ends.unique {depth : Nat} {dash : Bool} {inside next inside' next' : Tokens}
    (ends : Ends depth dash inside next) (ends' : Ends depth dash inside' next')
    (scanned : (scan depth dash inside).isSome = true)
    (scanned' : (scan depth dash inside').isSome = true)
    (same : inside ++ next = inside' ++ next') : inside = inside' ∧ next = next' := by
  -- Bounds that reach further take the token at which the others end.
  have longer : ∀ {inside next further : Tokens}, Ends depth dash inside next →
      (scan depth dash (inside ++ further)).isSome = true → further <+: next → further = [] := by
    rintro inside next further ends scanned ⟨after, rfl⟩
    cases further with
    | nil => rfl
    | cons tree more =>
        have none := ends tree (more ++ after) rfl
        rw [List.append_cons] at scanned
        rw [← Option.not_isSome_iff_eq_none] at none
        exact absurd (scan_of_append scanned) none
  rcases List.append_eq_append_iff.mp same with ⟨further, rfl, rfl⟩ | ⟨further, rfl, rfl⟩
  · obtain rfl := longer ends scanned' (List.prefix_append _ _)
    exact ⟨(List.append_nil _).symm, rfl⟩
  · obtain rfl := longer ends' scanned (List.prefix_append _ _)
    exact ⟨List.append_nil _, rfl⟩

theorem scan_take_boundsLength (depth : Nat) (dash : Bool) (tokens : Tokens) :
    (scan depth dash (tokens.take (boundsLength depth dash tokens))).isSome = true ∧
      Ends depth dash (tokens.take (boundsLength depth dash tokens))
        (tokens.drop (boundsLength depth dash tokens)) := by
  induction tokens generalizing depth dash with
  | nil => exact ⟨rfl, nofun⟩
  | cons tree rest ih =>
      rw [boundsLength]
      cases step : nesting depth dash tree with
      | none =>
          refine ⟨rfl, ?_⟩
          rintro _ _ ⟨⟩
          rw [List.take_zero, List.nil_append, scan, step]
      | some depth' =>
          obtain ⟨scanned, ends⟩ := ih depth' (isJointDash tree)
          simp only [List.take_succ_cons, List.drop_succ_cons]
          refine ⟨?_, fun next more same => ?_⟩
          · rw [scan, step]
            exact scanned
          · rw [List.cons_append, scan, step]
            exact ends next more same

/-- Behind a hole stand a lone colon and bounds that reach as far as they can, or no colon. -/
inductive Extent : Option Tokens → Tokens → Tokens → Prop
  | unbounded {next : Tokens} (single : ∀ rest, ¬Lone ':' ':' next rest) : Extent none next next
  | bounded {colon : TokenTree} {inside next : Tokens}
      (lone : Lone ':' ':' (colon :: (inside ++ next)) (inside ++ next))
      (scanned : (scan 0 false inside).isSome = true) (ends : Ends 0 false inside next) :
      Extent (some inside) (colon :: (inside ++ next)) next

theorem startsBounds_iff {tokens : Tokens} :
    startsBounds tokens = true ↔ ∃ rest, Lone ':' ':' tokens rest := by
  unfold startsBounds
  split
  · refine iff_of_false Bool.false_ne_true ?_
    rintro ⟨rest, lone⟩
    cases lone with
    | joint single => exact single _ _ _ rfl
  · rename_i spacing pos rest single
    refine iff_of_true rfl ⟨rest, ?_⟩
    cases spacing with
    | alone => exact .alone
    | joint =>
        refine .joint fun spacing' pos' others => ?_
        rintro rfl
        exact single _ _ _ rfl rfl
  · rename_i other
    refine iff_of_false Bool.false_ne_true ?_
    rintro ⟨rest, lone⟩
    cases lone with
    | alone => exact other _ _ _ rfl
    | joint => exact other _ _ _ rfl

theorem extent (rest : Tokens) :
    let stop := if startsBounds rest then boundsEnd rest 1 else 0
    Extent (if startsBounds rest then some ((rest.take stop).drop 1) else none) rest
      (rest.drop stop) := by
  dsimp only
  cases starts : startsBounds rest with
  | false =>
      refine .unbounded fun next lone => ?_
      rw [startsBounds_iff.mpr ⟨next, lone⟩] at starts
      cases starts
  | true =>
      obtain ⟨others, lone⟩ := startsBounds_iff.mp starts
      have colon : ∃ tree, rest = tree :: others ∧ isJointDash tree = false := by
        cases lone <;> exact ⟨_, rfl, rfl⟩
      obtain ⟨tree, rfl, plain⟩ := colon
      obtain ⟨scanned, ends⟩ := scan_take_boundsLength 0 false others
      have stop := boundsEnd_cons tree others
      rw [plain] at stop
      have split := List.take_append_drop (boundsLength 0 false others) others
      have whole := @Extent.bounded tree _ _ (split.symm ▸ lone) scanned ends
      rw [split] at whole
      rw [if_pos rfl, if_pos rfl, stop]
      exact whole

theorem Extent.unique {bounds bounds' : Option Tokens} {rest next next' : Tokens}
    (extent : Extent bounds rest next) (extent' : Extent bounds' rest next') :
    bounds = bounds' ∧ next = next' := by
  cases extent with
  | unbounded single =>
      cases extent' with
      | unbounded => exact ⟨rfl, rfl⟩
      | bounded lone => exact absurd lone (single _)
  | bounded lone scanned ends =>
      generalize same : (_ :: (_ ++ next) : Tokens) = rest at extent'
      cases extent' with
      | unbounded single =>
          subst same
          exact absurd lone (single _)
      | bounded lone' scanned' ends' =>
          injection same with _ same
          obtain ⟨rfl, rfl⟩ := ends.unique ends' scanned scanned' same
          exact ⟨rfl, rfl⟩

/-! ### The bounds of all holes -/

/-- The bounds written at the holes in reading order; nothing for a hole without a colon. A tick may
stand right before. -/
inductive HoleBounds : Bool → Tokens → List (Option Tokens) → Prop
  | nil {ticked : Bool} : HoleBounds ticked [] []
  | hole {pos : Nat} {bounds : Option Tokens} {rest next : Tokens} {written : List (Option Tokens)}
      (extent : Extent bounds rest next) (later : HoleBounds false next written) :
      HoleBounds false (.ident "_" pos :: rest) (bounds :: written)
  | other {ticked : Bool} {tree : TokenTree} {rest : Tokens} {written : List (Option Tokens)}
      (kept : isBlank tree = true → ticked = true)
      (single : ∀ delimiter inner pos, tree ≠ .group delimiter inner pos)
      (later : HoleBounds (isTick tree) rest written) : HoleBounds ticked (tree :: rest) written
  | group {ticked : Bool} {delimiter : Delimiter} {inner rest : Tokens} {pos : Nat}
      {within written : List (Option Tokens)} (inside : HoleBounds false inner within)
      (later : HoleBounds false rest written) :
      HoleBounds ticked (.group delimiter inner pos :: rest) (within ++ written)

theorem HoleBounds.unique {ticked : Bool} {tokens : Tokens}
    {written written' : List (Option Tokens)} (first : HoleBounds ticked tokens written)
    (second : HoleBounds ticked tokens written') : written = written' := by
  induction first generalizing written' with
  | nil =>
      cases second
      rfl
  | hole extent later ih =>
      cases second with
      | hole extent' later' =>
          obtain ⟨rfl, rfl⟩ := extent.unique extent'
          rw [ih later']
      | other kept => cases kept rfl
  | other kept single later ih =>
      cases second with
      | hole => cases kept rfl
      | other _ _ later' => exact ih later'
      | group => exact absurd rfl (single _ _ _)
  | group inside later ihInside ihLater =>
      cases second with
      | other _ single => exact absurd rfl (single _ _ _)
      | group inside' later' => rw [ihInside inside', ihLater later']

mutual

theorem holeBounds_fillTree (count : Nat) (ticked : Bool) {rest : Tokens}
    {written : List (Option Tokens)} : ∀ tree : TokenTree,
      (isBlank tree = true → ticked = true) → HoleBounds (isTick tree) rest written →
      HoleBounds ticked (tree :: rest) ((fillTree count tree).2.map Hole.bounds ++ written)
  | .ident _ _, kept, later => .other kept nofun later
  | .literal _ _, kept, later => .other kept nofun later
  | .punct _ _ _, kept, later => .other kept nofun later
  | .group _ inner _, _, later =>
      .group (holeBounds_fillFrom count 0 false inner fun nonzero => absurd rfl nonzero) later

theorem holeBounds_fillFrom : ∀ (count skip : Nat) (ticked : Bool) (tokens : Tokens),
    (skip ≠ 0 → ticked = false) →
      HoleBounds ticked (tokens.drop skip)
        ((fillFrom count skip ticked tokens).2.map Hole.bounds)
  | _, skip, _, [], _ => by
      rw [List.drop_nil, fillFrom]
      exact .nil
  | count, skip + 1, ticked, tree :: rest, plain => by
      rw [plain (Nat.succ_ne_zero skip), List.drop_succ_cons, fillFrom]
      exact holeBounds_fillFrom count skip false rest fun _ => rfl
  | count, 0, ticked, tree :: rest, _ => by
      rw [List.drop_zero, fillFrom]
      split
      · rename_i blank
        rw [Bool.and_eq_true] at blank
        obtain ⟨isBlank, unticked⟩ := blank
        have plain : ticked = false := by simpa using unticked
        subst plain
        unfold Shape.isBlank at isBlank
        split at isBlank
        · exact .hole (extent rest) (holeBounds_fillFrom _ _ false rest fun _ => rfl)
        · cases isBlank
      · rename_i kept
        rw [List.map_append]
        refine holeBounds_fillTree count ticked tree (fun blank => ?_)
          (holeBounds_fillFrom _ 0 _ rest fun nonzero => absurd rfl nonzero)
        cases ticked with
        | true => rfl
        | false => exact absurd (by rw [blank]; rfl) kept

end

/-- Filling records exactly the bounds that are written at the holes. -/
theorem holeBounds_iff {tokens : Tokens} {written : List (Option Tokens)} :
    HoleBounds false tokens written ↔ (takeHoles tokens).2.map Hole.bounds = written := by
  have found : HoleBounds false tokens ((takeHoles tokens).2.map Hole.bounds) :=
    holeBounds_fillFrom 0 0 false tokens fun nonzero => absurd rfl nonzero
  refine ⟨fun other => found.unique other, ?_⟩
  rintro rfl
  exact found

end Shape

end TypeConcepts
