import Mathlib

/-! # Consecutive slices of a list -/

namespace Tahi

variable {α : Type}

/-- The first `n₁` elements, the `n₂` behind these, and so on. -/
def slices : List ℕ → List α → List (List α)
  | [], _ => []
  | n :: sizes, l => l.take n :: slices sizes (l.drop n)

@[simp] theorem slices_nil (l : List α) : slices [] l = [] := rfl

@[simp] theorem slices_cons (n : ℕ) (sizes : List ℕ) (l : List α) :
    slices (n :: sizes) l = l.take n :: slices sizes (l.drop n) := rfl

/-- Nothing is left out and nothing is repeated. -/
theorem flatten_slices (sizes : List ℕ) (l : List α) :
    (slices sizes l).flatten = l.take sizes.sum := by
  induction sizes generalizing l with
  | nil => simp
  | cons n sizes ih => rw [slices_cons, List.flatten_cons, ih, List.sum_cons, List.take_add]

/-- Where each of the pieces begins and how long it is, when the first one begins at `s`. -/
def places (s : ℕ) : List (List α) → List (ℕ × ℕ)
  | [] => []
  | p :: ps => (s, p.length) :: places (s + p.length) ps

/-- At its place each of them is found again. -/
theorem cut_places (front : List α) (ps : List (List α)) :
    (places front.length ps).map (fun r => ((front ++ ps.flatten).drop r.1).take r.2) = ps := by
  induction ps generalizing front with
  | nil => rfl
  | cons p ps ih =>
      have rest := ih (front ++ p)
      rw [List.length_append, List.append_assoc] at rest
      rw [places, List.map_cons, List.flatten_cons, List.drop_left, List.take_left, rest]

end Tahi
