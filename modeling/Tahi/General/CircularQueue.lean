/-! # A queue in a circle of cells

The elements stand in the cells from the reading place up to the writing place, around
the end of the array. One cell is always spare, so equal places mean an empty queue.
-/

namespace CircularQueue

variable {α β : Type}

/-- Place number `i` behind place `r` of `n` cells. -/
@[grind =]
def place (n r i : Nat) : Nat := if r + i < n then r + i else r + i - n

/-- The place behind `p`. -/
@[grind =]
def next (n p : Nat) : Nat := if p + 1 = n then 0 else p + 1

/-- The cells hold the queue `q`, each element as `P` tells, between the places `r` and
    `w`. -/
structure Holds (P : α → β → Prop) (cells : List α) (r w : Nat) (q : List β) : Prop where
  read_lt : r < cells.length
  spare : q.length < cells.length
  write : w = place cells.length r q.length
  cell : ∀ i b, q[i]? = some b → ∃ a, cells[place cells.length r i]? = some a ∧ P a b

namespace Holds

variable {P : α → β → Prop} {cells : List α} {r w : Nat} {q : List β}

theorem empty (P : α → β → Prop) {cells : List α} {r : Nat} (inside : r < cells.length) :
    Holds P cells r r [] where
  read_lt := inside
  spare := Nat.zero_lt_of_lt inside
  write := by simp [place, inside]
  cell i b there := by simp at there

theorem write_lt (holds : Holds P cells r w q) : w < cells.length := by
  obtain ⟨inside, spare, rfl, -⟩ := holds
  unfold place
  grind

theorem empty_iff (holds : Holds P cells r w q) : w = r ↔ q = [] := by
  obtain ⟨inside, spare, rfl, -⟩ := holds
  rw [← List.length_eq_zero_iff]
  unfold place
  grind

theorem full_iff (holds : Holds P cells r w q) :
    next cells.length w = r ↔ q.length + 1 = cells.length := by
  obtain ⟨inside, spare, rfl, -⟩ := holds
  unfold place next
  grind

theorem count (holds : Holds P cells r w q) :
    q.length = if r ≤ w then w - r else w + cells.length - r := by
  obtain ⟨inside, spare, rfl, -⟩ := holds
  unfold place
  grind

/-- The cell of an element. -/
theorem get (holds : Holds P cells r w q) {i : Nat} (inside : i < q.length) :
    ∃ a, cells[place cells.length r i]? = some a ∧ P a q[i] :=
  holds.cell i q[i] (List.getElem?_eq_getElem inside)

/-- The spare cell takes a new element, as long as another cell is left. -/
theorem push (holds : Holds P cells r w q) (room : q.length + 1 < cells.length) {a : α} {b : β}
    (stored : P a b) : Holds P (cells.set w a) r (next cells.length w) (q ++ [b]) := by
  obtain ⟨inside, spare, rfl, cell⟩ := holds
  refine ⟨by simpa using inside, by simpa using room, ?_, ?_⟩
  · rw [List.length_set, List.length_append, List.length_singleton]
    unfold place next
    grind
  · intro i c there
    rw [List.length_set]
    rcases Nat.lt_trichotomy i q.length with before | rfl | behind
    · obtain ⟨d, here, kept⟩ := cell i c (by grind)
      have apart : place cells.length r q.length ≠ place cells.length r i := by
        unfold place
        grind
      exact ⟨d, by rwa [List.getElem?_set_ne apart], kept⟩
    · have same : b = c := by simpa using there
      have lt : place cells.length r q.length < cells.length := by
        unfold place
        grind
      exact ⟨a, by simp [lt], same ▸ stored⟩
    · have outside : (q ++ [b]).length ≤ i := by
        rw [List.length_append, List.length_singleton]
        omega
      rw [List.getElem?_eq_none outside] at there
      cases there

/-- The reading place moves behind the first element. -/
theorem pop {b : β} (holds : Holds P cells r w (b :: q)) :
    Holds P cells (next cells.length r) w q := by
  obtain ⟨inside, spare, rfl, cell⟩ := holds
  rw [List.length_cons] at *
  have shifted : ∀ i, i + 1 < cells.length →
      place cells.length (next cells.length r) i = place cells.length r (i + 1) := by
    intro i small
    unfold place next
    grind
  refine ⟨?_, Nat.lt_of_succ_lt spare, (shifted _ spare).symm, ?_⟩
  · unfold next
    grind
  · intro i c there
    have small : i < q.length := (List.getElem?_eq_some_iff.mp there).1
    rw [shifted i (by omega)]
    exact cell (i + 1) c there

end Holds

end CircularQueue
