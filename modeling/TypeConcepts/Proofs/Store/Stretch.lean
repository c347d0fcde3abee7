import TypeConcepts.Store.Exchange

/-!
Stretches of sequences: what reading and writing one does to each position, and what an exchange of
two does.
-/

namespace TypeConcepts.Store

variable {α : Type}

namespace Stretch

variable (stretch : Stretch)

/-- The stretch lies in the sequence. -/
def Within (items : List α) : Prop :=
  stretch.start ≤ stretch.stop ∧ stretch.stop ≤ items.length

def Covers (position : Nat) : Prop := stretch.start ≤ position ∧ position < stretch.stop

instance (position : Nat) : Decidable (stretch.Covers position) := instDecidableAnd

def Disjoint (other : Stretch) : Prop :=
  ∀ position, ¬(stretch.Covers position ∧ other.Covers position)

theorem Disjoint.ordered {stretch other : Stretch} (disjoint : stretch.Disjoint other)
    (proper : stretch.start ≤ stretch.stop) (sameLength : stretch.length = other.length)
    (properOther : other.start ≤ other.stop) :
    stretch.stop ≤ other.start ∨ other.stop ≤ stretch.start := by
  simp only [length] at sameLength
  have apart := disjoint (max stretch.start other.start)
  simp only [Covers] at apart
  omega

variable {stretch}

theorem within_of_within? {start stop : Int} {items : List α}
    (found : within? start stop items = some stretch) : stretch.Within items := by
  unfold within? at found
  split at found
  · cases found
    constructor <;> dsimp only <;> omega
  · cases found

theorem length_read {items : List α} (within : stretch.Within items) :
    (stretch.read items).length = stretch.length := by
  obtain ⟨ordered, inside⟩ := within
  simp only [read, length, List.length_take, List.length_drop]
  omega

theorem getElem?_read (items : List α) {offset : Nat} (inside : offset < stretch.length) :
    (stretch.read items)[offset]? = items[stretch.start + offset]? := by
  rw [read, List.getElem?_take_of_lt inside, List.getElem?_drop]

section Write

variable {items inserted : List α} (within : stretch.Within items)
  (fits : inserted.length = stretch.length)
include within fits

theorem length_write : (stretch.write items inserted).length = items.length := by
  obtain ⟨ordered, inside⟩ := within
  simp only [write, length, List.length_append, List.length_take, List.length_drop] at fits ⊢
  omega

theorem getElem?_write_inside {offset : Nat} (small : offset < stretch.length) :
    (stretch.write items inserted)[stretch.start + offset]? = inserted[offset]? := by
  obtain ⟨ordered, inside⟩ := within
  have front : (items.take stretch.start).length = stretch.start := by
    rw [List.length_take]
    omega
  rw [write, List.append_assoc, List.getElem?_append_right (by omega), front,
    Nat.add_sub_cancel_left, List.getElem?_append_left (by omega)]

theorem getElem?_write_outside {position : Nat} (outside : ¬stretch.Covers position) :
    (stretch.write items inserted)[position]? = items[position]? := by
  obtain ⟨ordered, inside⟩ := within
  have front : (items.take stretch.start).length = stretch.start := by
    rw [List.length_take]
    omega
  simp only [length] at fits
  simp only [Covers] at outside
  rw [write, List.append_assoc]
  by_cases before : position < stretch.start
  · rw [List.getElem?_append_left (by omega), List.getElem?_take_of_lt before]
  · have behind : stretch.stop ≤ position := by omega
    rw [List.getElem?_append_right (by omega), front, List.getElem?_append_right (by omega),
      List.getElem?_drop]
    congr 1
    omega

end Write

theorem count_write [DecidableEq α] {items : List α} (inserted : List α) (value : α)
    (within : stretch.Within items) :
    (stretch.write items inserted).count value + (stretch.read items).count value =
      items.count value + inserted.count value := by
  obtain ⟨ordered, inside⟩ := within
  have behind : (items.drop stretch.start).drop stretch.length = items.drop stretch.stop := by
    rw [List.drop_drop, length, Nat.add_sub_cancel' ordered]
  have parts : items =
      items.take stretch.start ++ (stretch.read items ++ items.drop stretch.stop) := by
    rw [← behind, read, List.take_append_drop, List.take_append_drop]
  have total := congrArg (List.count value) parts
  simp only [List.count_append] at total
  simp only [write, List.count_append]
  omega

end Stretch

section Between

variable {left right left' right' : List α} {leftPart rightPart : Stretch}

theorem isSome_exchangeStretches_iff :
    (exchangeStretches left right leftPart rightPart).isSome = true ↔
      leftPart.length = rightPart.length := by
  by_cases same : leftPart.length = rightPart.length <;> simp [exchangeStretches, same]

/-- What one of two sequences is after an exchange of stretches with the other. -/
structure Receives (items items' other : List α) (part otherPart : Stretch) : Prop where
  length_eq : items'.length = items.length
  inside : ∀ offset < part.length,
    items'[part.start + offset]? = other[otherPart.start + offset]?
  outside : ∀ position, ¬part.Covers position → items'[position]? = items[position]?

theorem receives_write (leftWithin : leftPart.Within left) (rightWithin : rightPart.Within right)
    (same : leftPart.length = rightPart.length) :
    Receives left (leftPart.write left (rightPart.read right)) right leftPart rightPart := by
  have fits : (rightPart.read right).length = leftPart.length := by
    rw [Stretch.length_read rightWithin, same]
  refine ⟨Stretch.length_write leftWithin fits, ?_, ?_⟩
  · intro offset small
    rw [Stretch.getElem?_write_inside leftWithin fits small,
      Stretch.getElem?_read right (same ▸ small)]
  · intro position outside
    exact Stretch.getElem?_write_outside leftWithin fits outside

theorem receives_of_exchangeStretches (leftWithin : leftPart.Within left)
    (rightWithin : rightPart.Within right)
    (exchanged : exchangeStretches left right leftPart rightPart = some (left', right')) :
    Receives left left' right leftPart rightPart ∧
      Receives right right' left rightPart leftPart := by
  unfold exchangeStretches at exchanged
  split at exchanged
  · rename_i same
    cases exchanged
    exact ⟨receives_write leftWithin rightWithin same,
      receives_write rightWithin leftWithin same.symm⟩
  · cases exchanged

theorem count_exchangeStretches [DecidableEq α] (value : α) (leftWithin : leftPart.Within left)
    (rightWithin : rightPart.Within right)
    (exchanged : exchangeStretches left right leftPart rightPart = some (left', right')) :
    left'.count value + right'.count value = left.count value + right.count value := by
  unfold exchangeStretches at exchanged
  split at exchanged
  · cases exchanged
    have atLeft := Stretch.count_write (rightPart.read right) value leftWithin
    have atRight := Stretch.count_write (leftPart.read left) value rightWithin
    omega
  · cases exchanged

end Between

/-! ### Two stretches of one sequence -/

/-- A sequence with two of its stretches exchanged: it is split where the later one starts. -/
def exchangeAcross (items : List α) (earlier later : Stretch) : Option (List α) :=
  (exchangeStretches (items.take later.start) (items.drop later.start) earlier
    ⟨0, later.length⟩).map fun halves => halves.1 ++ halves.2

def exchangeWithin (items : List α) (left right : Stretch) : Option (List α) :=
  if left.stop ≤ right.start then exchangeAcross items left right
  else exchangeAcross items right left

/-- The items of the two stretches have changed places and all others are where they were. -/
structure Exchanges (items items' : List α) (left right : Stretch) : Prop where
  length_eq : items'.length = items.length
  atLeft : ∀ offset < left.length, items'[left.start + offset]? = items[right.start + offset]?
  atRight : ∀ offset < right.length, items'[right.start + offset]? = items[left.start + offset]?
  outside : ∀ position, ¬left.Covers position → ¬right.Covers position →
    items'[position]? = items[position]?

theorem Exchanges.symm {items items' : List α} {left right : Stretch}
    (exchanges : Exchanges items items' left right) : Exchanges items items' right left where
  length_eq := exchanges.length_eq
  atLeft := exchanges.atRight
  atRight := exchanges.atLeft
  outside position notRight notLeft := exchanges.outside position notLeft notRight

section Across

variable {items items' : List α} {earlier later : Stretch}

theorem isSome_exchangeAcross_iff :
    (exchangeAcross items earlier later).isSome = true ↔ earlier.length = later.length := by
  rw [exchangeAcross, Option.isSome_map, isSome_exchangeStretches_iff]
  rfl

variable (ordered : earlier.stop ≤ later.start) (earlierProper : earlier.start ≤ earlier.stop)
  (laterWithin : later.Within items)
include ordered earlierProper laterWithin

theorem exists_halves (exchanged : exchangeAcross items earlier later = some items') :
    ∃ front back, items' = front ++ back ∧
      earlier.Within (items.take later.start) ∧
      (Stretch.mk 0 later.length).Within (items.drop later.start) ∧
      exchangeStretches (items.take later.start) (items.drop later.start) earlier
        ⟨0, later.length⟩ = some (front, back) := by
  obtain ⟨⟨front, back⟩, halves, rfl⟩ := Option.map_eq_some_iff.mp exchanged
  obtain ⟨laterProper, inside⟩ := laterWithin
  refine ⟨front, back, rfl, ⟨earlierProper, ?_⟩, ⟨Nat.zero_le _, ?_⟩, halves⟩
  · rw [List.length_take]
    omega
  · rw [List.length_drop]
    dsimp only [Stretch.length]
    omega

theorem exchanges_of_exchangeAcross
    (exchanged : exchangeAcross items earlier later = some items') :
    Exchanges items items' earlier later := by
  have same : earlier.length = later.length := by
    rw [← isSome_exchangeAcross_iff, exchanged]
    rfl
  obtain ⟨front, back, rfl, frontWithin, backWithin, halves⟩ :=
    exists_halves ordered earlierProper laterWithin exchanged
  obtain ⟨atFront, atBack⟩ := receives_of_exchangeStretches frontWithin backWithin halves
  obtain ⟨laterProper, inside⟩ := laterWithin
  have frontLength : front.length = later.start := by
    rw [atFront.length_eq, List.length_take]
    omega
  have backLength : back.length = items.length - later.start := by
    rw [atBack.length_eq, List.length_drop]
  have inFront : ∀ position < later.start, (front ++ back)[position]? = front[position]? := by
    intro position before
    exact List.getElem?_append_left (by omega)
  have inBack : ∀ offset, (front ++ back)[later.start + offset]? = back[offset]? := by
    intro offset
    rw [List.getElem?_append_right (by omega), frontLength, Nat.add_sub_cancel_left]
  refine ⟨?_, ?_, ?_, ?_⟩
  · rw [List.length_append]
    omega
  · intro offset small
    have before : earlier.start + offset < later.start := by
      simp only [Stretch.length] at small
      omega
    rw [inFront _ before, atFront.inside offset small, Nat.zero_add, List.getElem?_drop]
  · intro offset small
    have before : earlier.start + offset < later.start := by
      simp only [Stretch.length] at same small
      omega
    have received := atBack.inside offset small
    rw [Nat.zero_add, List.getElem?_take_of_lt before] at received
    rw [inBack, received]
  · intro position notEarlier notLater
    by_cases before : position < later.start
    · rw [inFront position before, atFront.outside position notEarlier,
        List.getElem?_take_of_lt before]
    · obtain ⟨offset, rfl⟩ := Nat.exists_eq_add_of_le (Nat.le_of_not_lt before)
      have notBack : ¬(Stretch.mk 0 later.length).Covers offset := by
        simp only [Stretch.Covers, Stretch.length] at notLater ⊢
        omega
      rw [inBack, atBack.outside offset notBack, List.getElem?_drop]

theorem count_exchangeAcross [DecidableEq α] (value : α)
    (exchanged : exchangeAcross items earlier later = some items') :
    items'.count value = items.count value := by
  obtain ⟨front, back, rfl, frontWithin, backWithin, exchanged⟩ :=
    exists_halves ordered earlierProper laterWithin exchanged
  have halves := count_exchangeStretches value frontWithin backWithin exchanged
  have whole := congrArg (List.count value) (List.take_append_drop later.start items)
  simp only [List.count_append] at whole ⊢
  omega

end Across

section Within

variable {items items' : List α} {left right : Stretch} (leftWithin : left.Within items)
  (rightWithin : right.Within items) (disjoint : left.Disjoint right)

theorem isSome_exchangeWithin_iff :
    (exchangeWithin items left right).isSome = true ↔ left.length = right.length := by
  unfold exchangeWithin
  split
  · exact isSome_exchangeAcross_iff
  · rw [isSome_exchangeAcross_iff]
    exact eq_comm

include leftWithin rightWithin disjoint

theorem exchangeAcross_of_exchangeWithin
    (exchanged : exchangeWithin items left right = some items') :
    (left.stop ≤ right.start ∧ exchangeAcross items left right = some items') ∨
      (right.stop ≤ left.start ∧ exchangeAcross items right left = some items') := by
  have same : left.length = right.length := by
    rw [← isSome_exchangeWithin_iff, exchanged]
    rfl
  have ordered := disjoint.ordered leftWithin.1 same rightWithin.1
  unfold exchangeWithin at exchanged
  split at exchanged
  · rename_i before
    exact .inl ⟨before, exchanged⟩
  · rename_i behind
    exact .inr ⟨ordered.resolve_left behind, exchanged⟩

theorem exchanges_of_exchangeWithin
    (exchanged : exchangeWithin items left right = some items') :
    Exchanges items items' left right := by
  rcases exchangeAcross_of_exchangeWithin leftWithin rightWithin disjoint exchanged with
    ⟨ordered, across⟩ | ⟨ordered, across⟩
  · exact exchanges_of_exchangeAcross ordered leftWithin.1 rightWithin across
  · exact (exchanges_of_exchangeAcross ordered rightWithin.1 leftWithin across).symm

theorem count_exchangeWithin [DecidableEq α] (value : α)
    (exchanged : exchangeWithin items left right = some items') :
    items'.count value = items.count value := by
  rcases exchangeAcross_of_exchangeWithin leftWithin rightWithin disjoint exchanged with
    ⟨ordered, across⟩ | ⟨ordered, across⟩
  · exact count_exchangeAcross ordered leftWithin.1 rightWithin value across
  · exact count_exchangeAcross ordered rightWithin.1 leftWithin value across

end Within

end TypeConcepts.Store
