import Mathlib

/-! # Lists with marks for what follows

The elements of a list are written one behind the other, each with a mark for whether there is
another one behind it. They are read for as long as the marks say so. What one turn of the loop
does to one element decides what the loop does to the list.
-/

namespace Marked

variable {α β γ ρ σ : Type}

/-- A function of each element and of whether there is one behind it. -/
def map (f : α → Bool → γ) : List α → List γ
  | [] => []
  | x :: xs => f x (!xs.isEmpty) :: map f xs

/-- The elements, one behind the other. -/
def write (element : α → Bool → List β) (xs : List α) : List β := (map element xs).flatten

@[simp] theorem write_nil (element : α → Bool → List β) : write element [] = [] := rfl

theorem write_cons (element : α → Bool → List β) (x : α) (xs : List α) :
    write element (x :: xs) = element x (!xs.isEmpty) ++ write element xs := by
  rw [write, map, List.flatten_cons]
  rfl

theorem le_length_write {n : ℕ} {element : α → Bool → List β}
    (long : ∀ x more, n ≤ (element x more).length) {xs : List α} (some_ : xs ≠ []) :
    n ≤ (write element xs).length := by
  cases xs with
  | nil => exact absurd rfl some_
  | cons x xs =>
      rw [write_cons, List.length_append]
      exact Nat.le_add_right_of_le (long x _)

theorem length_write {element : α → Bool → List β} {size : α → ℕ} {xs : List α}
    (sizes : ∀ x ∈ xs, ∀ more, (element x more).length = size x) :
    (write element xs).length = (xs.map size).sum := by
  induction xs with
  | nil => rfl
  | cons x xs ih =>
      rw [write_cons, List.length_append, sizes x List.mem_cons_self, List.map_cons,
        List.sum_cons, ih fun y mem => sizes y (List.mem_cons_of_mem x mem)]

theorem length_le_write (element : α → Bool → List β) {x : α} {xs : List α} (mem : x ∈ xs) :
    ∃ more, (element x more).length ≤ (write element xs).length := by
  induction xs with
  | nil => cases mem
  | cons y ys ih =>
      rw [write_cons, List.length_append]
      obtain rfl | mem := List.mem_cons.mp mem
      · exact ⟨_, Nat.le_add_right _ _⟩
      · obtain ⟨more, le⟩ := ih mem
        exact ⟨more, Nat.le_add_left_of_le le⟩

/-- Elements that are not empty can be put in front of one another, with a mark for whether
    anything has been written. -/
theorem foldr_eq_write {turn : α → List β → List β} {element : α → Bool → List β}
    (nonempty : ∀ x more, 1 ≤ (element x more).length)
    (turns : ∀ x ys, turn x (write element ys) =
      element x (0 < (write element ys).length) ++ write element ys) (xs : List α) :
    xs.foldr turn [] = write element xs := by
  have marked : ∀ ys, decide (0 < (write element ys).length) = !ys.isEmpty := by
    intro ys
    cases ys with
    | nil => rfl
    | cons y ys => exact decide_eq_true (le_length_write nonempty (List.cons_ne_nil y ys))
  induction xs with
  | nil => rfl
  | cons x xs ih => rw [List.foldr_cons, ih, turns, marked, write_cons]

/-! ## Reading -/

/-- What a turn of the loop returns. -/
structure Turn (ρ σ : Type) where
  record : ρ
  more : Bool
  rest : σ

/-- The loop, with a bound for the number of its turns. A turn may have loops with such bounds
    in it. -/
def read (turn : ℕ → σ → Option (Turn ρ σ)) : ℕ → σ → Option (List ρ)
  | 0, _ => none
  | fuel + 1, data =>
      match turn fuel data with
      | none => none
      | some t => if t.more then (read turn fuel t.rest).map (t.record :: ·) else some [t.record]

/-- Behind an element the loop goes on with what follows, if it returns the record of the
    element, which it does just for the good ones. -/
structure Reads (turn : ℕ → σ → Option (Turn ρ σ)) (data : List β → σ)
    (element : α → Bool → List β) (record : α → Bool → ρ) (Good : α → Prop) : Prop where
  good_of_turn : ∀ {fuel x more rest t}, turn fuel (data (element x more ++ rest)) = some t →
    t.record = record x more → Good x ∧ t.more = more ∧ t.rest = data rest
  turn_of_good : ∀ {x}, Good x → ∃ bound, ∀ fuel ≥ bound, ∀ more rest,
    turn fuel (data (element x more ++ rest)) = some ⟨record x more, more, data rest⟩

variable {turn : ℕ → σ → Option (Turn ρ σ)} {data : List β → σ} {element : α → Bool → List β}
  {record : α → Bool → ρ} {Good : α → Prop}

namespace Reads

/-- By induction on the list: the first turn takes the first element. -/
theorem good_of_read (reads : Reads turn data element record Good) {xs : List α} {fuel : ℕ}
    (returned : read turn fuel (data (write element xs)) = some (map record xs)) :
    ∀ x ∈ xs, Good x := by
  induction xs generalizing fuel with
  | nil => simp
  | cons x xs ih =>
      cases fuel with
      | zero => cases returned
      | succ fuel =>
          rw [write_cons, map] at returned
          unfold read at returned
          split at returned
          · cases returned
          next t taken =>
            have first : t.record = record x (!xs.isEmpty) := by
              split at returned
              · obtain ⟨rs, -, same⟩ := Option.map_eq_some_iff.mp returned
                exact (List.cons.inj same).1
              · exact (List.cons.inj (Option.some.inj returned)).1
            obtain ⟨good, more, rest⟩ := reads.good_of_turn taken first
            rw [more, rest] at returned
            intro y mem
            obtain rfl | behind := List.mem_cons.mp mem
            · exact good
            · have some_ : (!xs.isEmpty) = true := by
                cases xs with
                | nil => cases behind
                | cons => rfl
              rw [if_pos some_] at returned
              obtain ⟨rs, read_, same⟩ := Option.map_eq_some_iff.mp returned
              rw [(List.cons.inj same).2] at read_
              exact ih read_ y behind

theorem read_of_good (reads : Reads turn data element record Good) {xs : List α}
    (some_ : xs ≠ []) (good : ∀ x ∈ xs, Good x) :
    ∃ bound, ∀ fuel ≥ bound,
      read turn fuel (data (write element xs)) = some (map record xs) := by
  induction xs with
  | nil => exact absurd rfl some_
  | cons x xs ih =>
      obtain ⟨first, taken⟩ := reads.turn_of_good (good x List.mem_cons_self)
      cases xs with
      | nil =>
          refine ⟨first + 1, fun fuel enough => ?_⟩
          obtain ⟨fuel, rfl⟩ := Nat.exists_eq_add_of_le' (Nat.le_of_add_left_le enough)
          rw [write_cons, map, read, taken fuel (by omega)]
          rfl
      | cons y ys =>
          obtain ⟨behind, read_⟩ := ih (List.cons_ne_nil y ys) fun z mem =>
            good z (List.mem_cons_of_mem x mem)
          refine ⟨max first behind + 1, fun fuel enough => ?_⟩
          obtain ⟨fuel, rfl⟩ := Nat.exists_eq_add_of_le' (Nat.le_of_add_left_le enough)
          rw [write_cons, map, read, taken fuel (by omega)]
          simp only [List.isEmpty_cons, Bool.not_false, if_true, read_ fuel (by omega)]
          rfl

end Reads

end Marked
