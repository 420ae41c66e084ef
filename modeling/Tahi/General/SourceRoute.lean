import Mathlib.Logic.Function.Iterate
import Mathlib.Data.List.GetD

/-! # Loose source routes

A packet carries its destination, the list of nodes it is routed through and the
number of segments that are left. Each listed node it reaches exchanges the
destination with the next address of the list. The packet as its last node sees
it has the addresses of the segments that were left moved down by one place.
-/

namespace SourceRoute

variable {α : Type}

structure Route (α : Type) where
  dst : α
  addresses : List α
  left : Nat
deriving DecidableEq, Repr

/-- What a node does with a route whose destination it is. With no segments left,
    or more of them than addresses, it leaves the route alone. -/
def step (r : Route α) : Route α :=
  if r.left = 0 ∨ r.addresses.length < r.left then r
  else
    -- Counted from one, the next address is number `n - left + 1`.
    let i := r.addresses.length - r.left
    match r.addresses[i]? with
    | some next => ⟨next, r.addresses.set i r.dst, r.left - 1⟩
    | none => r

/-- Puts `a` in front of a list and takes the last element off again. -/
def shift (a : α) : List α → List α
  | [] => []
  | b :: l => a :: shift b l

/-- The element that `shift` takes off. -/
def last (a : α) : List α → α
  | [] => a
  | b :: l => last b l

@[simp] theorem length_shift (a : α) (l : List α) : (shift a l).length = l.length := by
  induction l generalizing a with
  | nil => rfl
  | cons b l ih => simp [shift, ih]

theorem last_eq_getLastD (a : α) (l : List α) : last a l = l.getLastD a := by
  induction l generalizing a with
  | nil => rfl
  | cons b l ih => rw [last, ih, List.getLastD_cons]

theorem map_shift {β : Type} (f : α → β) (a : α) (l : List α) :
    (shift a l).map f = shift (f a) (l.map f) := by
  induction l generalizing a with
  | nil => rfl
  | cons b l ih => rw [shift, List.map_cons, ih, List.map_cons, shift]

theorem map_last {β : Type} (f : α → β) (a : α) (l : List α) :
    f (last a l) = last (f a) (l.map f) := by
  induction l generalizing a with
  | nil => rfl
  | cons b l ih => rw [last, ih, List.map_cons, last]

theorem last_of_forall {P : α → Prop} {a : α} {l : List α} (first : P a) (rest : ∀ x ∈ l, P x) :
    P (last a l) := by
  induction l generalizing a with
  | nil => exact first
  | cons b l ih =>
      exact ih (rest b List.mem_cons_self) fun x mem => rest x (List.mem_cons_of_mem b mem)

theorem last_drop (a : α) {l : List α} {k : Nat} (inside : k < l.length) :
    last a (l.drop k) = last a l := by
  rw [last_eq_getLastD, last_eq_getLastD, List.getLastD_eq_getLast?, List.getLastD_eq_getLast?,
    List.getLast?_drop, if_neg (Nat.not_le.mpr inside)]

/-- One step takes the first of the addresses that are left. -/
theorem step_cons (d next : α) (visited rest : List α) :
    step ⟨d, visited ++ next :: rest, rest.length + 1⟩ =
      ⟨next, visited ++ d :: rest, rest.length⟩ := by
  have index : (visited ++ next :: rest).length - (rest.length + 1) = visited.length := by
    simp
  have some_ : ¬(rest.length + 1 = 0 ∨
      (visited ++ next :: rest).length < rest.length + 1) := by
    rw [List.length_append, List.length_cons]
    omega
  rw [step, if_neg some_]
  simp only [index]
  simp

/-- All the steps that are left, by induction on the addresses that are left. -/
theorem step_iterate (d : α) (visited rest : List α) :
    step^[rest.length] ⟨d, visited ++ rest, rest.length⟩ =
      ⟨last d rest, visited ++ shift d rest, 0⟩ := by
  induction rest generalizing d visited with
  | nil => rfl
  | cons next rest ih =>
      have moved := ih next (visited ++ [d])
      rw [List.append_assoc, List.append_assoc] at moved
      rw [List.length_cons, Function.iterate_succ_apply, step_cons]
      exact moved

/-- The route as the last node sees it. -/
theorem step_iterate_left (r : Route α) (listed : r.left ≤ r.addresses.length) :
    step^[r.left] r =
      ⟨last r.dst (r.addresses.drop (r.addresses.length - r.left)),
        r.addresses.take (r.addresses.length - r.left) ++
          shift r.dst (r.addresses.drop (r.addresses.length - r.left)), 0⟩ := by
  obtain ⟨d, addresses, left⟩ := r
  have size : (addresses.drop (addresses.length - left)).length = left := by
    rw [List.length_drop]
    exact Nat.sub_sub_self listed
  have run := step_iterate d (addresses.take (addresses.length - left))
    (addresses.drop (addresses.length - left))
  rwa [List.take_append_drop, size] at run

end SourceRoute
