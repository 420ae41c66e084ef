import Mathlib.Data.List.Basic

/-! # A sequence with a gap

The elements before place `f` stand at the start of an array, the others at its end,
and the cells between them are free. Moving the gap moves elements from one side of
it to the other.
-/

namespace GapBuffer

variable {β : Type}

/-- The cells hold the sequence `ys` with the gap before its element number `f`. -/
structure Holds (cells : List β) (f : Nat) (ys : List β) : Prop where
  fits : ys.length ≤ cells.length
  gap : f ≤ ys.length
  left : ∀ i, i < f → cells[i]? = ys[i]?
  right : ∀ i, f ≤ i → i < ys.length → cells[i + cells.length - ys.length]? = ys[i]?

namespace Holds

variable {cells ys : List β} {f : Nat}

theorem empty (cells : List β) : Holds cells 0 [] where
  fits := Nat.zero_le _
  gap := Nat.le_refl _
  left i before := absurd before (Nat.not_lt_zero i)
  right i _ inside := absurd inside (Nat.not_lt_zero i)

/-- Without free cells the gap is anywhere. -/
theorem of_full (holds : Holds cells f ys) (full : ys.length = cells.length) {g : Nat}
    (gap : g ≤ ys.length) : Holds cells g ys := by
  have every : ∀ i, i < ys.length → cells[i]? = ys[i]? := by
    intro i inside
    rcases Nat.lt_or_ge i f with before | behind
    · exact holds.left i before
    · have there := holds.right i behind inside
      rwa [full, Nat.add_sub_cancel] at there
  refine ⟨holds.fits, gap, ?_, ?_⟩
  · intro i before
    exact every i (Nat.lt_of_lt_of_le before gap)
  · intro i _ inside
    rw [full, Nat.add_sub_cancel]
    exact every i inside

theorem eq_of_full (holds : Holds cells f ys) (full : ys.length = cells.length) : cells = ys := by
  have whole := holds.of_full full (Nat.le_refl ys.length)
  apply List.ext_getElem?
  intro i
  rcases Nat.lt_or_ge i ys.length with inside | outside
  · exact whole.left i inside
  · rw [List.getElem?_eq_none (full ▸ outside), List.getElem?_eq_none outside]

/-- Where element number `i` stands. -/
theorem get (holds : Holds cells f ys) {i : Nat} (inside : i < ys.length) :
    cells[if i < f then i else i + cells.length - ys.length]? = ys[i]? := by
  split
  · exact holds.left i ‹_›
  · exact holds.right i (Nat.le_of_not_lt ‹_›) inside

/-- Storing another value for an element. -/
theorem set (holds : Holds cells f ys) (i : Nat) (inside : i < ys.length) (b : β) :
    Holds (cells.set (if i < f then i else i + cells.length - ys.length) b) f (ys.set i b) := by
  have fits := holds.fits
  refine ⟨by simpa using fits, by simpa using holds.gap, ?_, ?_⟩
  · intro j before
    have same := holds.left j before
    grind
  · intro j behind inside'
    have same := holds.right j behind (by simpa using inside')
    grind

/-- The gap moves before the element on its left. -/
theorem move_left {a b : β} (holds : Holds cells (f + 1) ys) (free : ys.length < cells.length)
    (moved : cells[f]? = some a) :
    Holds ((cells.set (f + cells.length - ys.length) a).set f b) f ys := by
  have gap := holds.gap
  have there := holds.left f (Nat.lt_succ_self f)
  refine ⟨by simpa using holds.fits, by omega, ?_, ?_⟩
  · intro i before
    have same := holds.left i (Nat.lt_succ_of_lt before)
    grind
  · intro i behind inside
    have same := holds.right i
    grind

/-- The gap moves behind the element on its right. -/
theorem move_right {a b : β} (holds : Holds cells f ys) (free : ys.length < cells.length)
    (inside : f < ys.length) (moved : cells[f + cells.length - ys.length]? = some a) :
    Holds ((cells.set f a).set (f + cells.length - ys.length) b) (f + 1) ys := by
  have there := holds.right f (Nat.le_refl f) inside
  refine ⟨by simpa using holds.fits, inside, ?_, ?_⟩
  · intro i before
    have same := holds.left i
    grind
  · intro i behind inside'
    have same := holds.right i (Nat.le_of_succ_le behind)
    grind

/-- A new element takes the first cell of the gap. -/
theorem insert (holds : Holds cells f ys) (free : ys.length < cells.length) (b : β) :
    Holds (cells.set f b) (f + 1) (ys.insertIdx f b) := by
  have gap := holds.gap
  have length : (ys.insertIdx f b).length = ys.length + 1 := by
    rw [List.length_insertIdx, if_pos gap]
  refine ⟨by simp only [length, List.length_set]; omega, by omega, ?_, ?_⟩
  · intro i before
    have same := holds.left i
    grind
  · intro i behind inside
    have same := holds.right (i - 1)
    grind

/-- The element behind the gap becomes part of it. -/
theorem erase_right (holds : Holds cells f ys) (inside : f < ys.length) :
    Holds cells f (ys.eraseIdx f) := by
  have fits := holds.fits
  have length : (ys.eraseIdx f).length = ys.length - 1 := List.length_eraseIdx_of_lt inside
  refine ⟨by omega, by omega, ?_, ?_⟩
  · intro i before
    have same := holds.left i before
    grind
  · intro i behind inside'
    have same := holds.right (i + 1)
    grind

/-- The element before the gap becomes part of it. -/
theorem erase_left (holds : Holds cells (f + 1) ys) : Holds cells f (ys.eraseIdx f) := by
  have fits := holds.fits
  have gap := holds.gap
  have length : (ys.eraseIdx f).length = ys.length - 1 :=
    List.length_eraseIdx_of_lt (Nat.lt_of_succ_le gap)
  refine ⟨by omega, by omega, ?_, ?_⟩
  · intro i before
    have same := holds.left i
    grind
  · intro i behind inside'
    have same := holds.right (i + 1)
    grind

end Holds

/-- The free cells, behind the first `f` of `n` elements, hold `b`. -/
def Clear (cells : List β) (f n : Nat) (b : β) : Prop :=
  ∀ i, f ≤ i → i < f + cells.length - n → cells[i]? = some b

namespace Clear

variable {cells : List β} {f n : Nat} {b : β}

theorem of_full (full : cells.length ≤ n) : Clear cells f n b := by
  intro i behind before
  omega

theorem move_left (clear : Clear cells (f + 1) n b) (gap : f < n) (free : n < cells.length)
    (a : β) : Clear ((cells.set (f + cells.length - n) a).set f b) f n b := by
  intro i behind before
  have same := clear i
  grind

theorem move_right (clear : Clear cells f n b) (gap : f < n) (free : n < cells.length) (a : β) :
    Clear ((cells.set f a).set (f + cells.length - n) b) (f + 1) n b := by
  intro i behind before
  have same := clear i
  grind

theorem insert (clear : Clear cells f n b) (a : β) :
    Clear (cells.set f a) (f + 1) (n + 1) b := by
  intro i behind before
  have same := clear i
  grind

/-- The cell of an element behind the gap has been cleared. -/
theorem erase_right (clear : Clear cells f n b) (fits : n ≤ cells.length)
    (cleared : cells[f + cells.length - n]? = some b) : Clear cells f (n - 1) b := by
  intro i behind before
  have same := clear i
  by_cases last : i = f + cells.length - n
  · rw [last]
    exact cleared
  · exact same behind (by omega)

/-- The cell of the element before the gap has been cleared. -/
theorem erase_left (clear : Clear cells (f + 1) n b) (fits : n ≤ cells.length)
    (cleared : cells[f]? = some b) : Clear cells f (n - 1) b := by
  intro i behind before
  have same := clear i
  by_cases first : i = f
  · rw [first]
    exact cleared
  · exact same (by omega) (by omega)

end Clear

end GapBuffer
