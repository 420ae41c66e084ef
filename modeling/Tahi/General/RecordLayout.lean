import Mathlib.Data.List.Basic
import Tahi.General.RoundUp

/-! # Records in memory

The members of a record stand one behind the other, each at the next multiple of its
alignment. When octets are copied to a cleared record that has no padding, each member gets
the piece that was meant for it.
-/

namespace RecordLayout

open RoundUp

structure Member where
  size : Nat
  align : Nat
deriving DecidableEq, Repr

/-- The position behind the last member, when the first is placed behind `p`. -/
def finish : Nat → List Member → Nat
  | p, [] => p
  | p, m :: ms => finish (roundUp p m.align + m.size) ms

/-- That of the most aligned member. -/
def alignment (ms : List Member) : Nat := ms.foldr (fun m a => max m.align a) 1

/-- With the padding behind the last member. -/
def sizeof (ms : List Member) : Nat := roundUp (finish 0 ms) (alignment ms)

variable {α : Type}

/-- What each member has of the octets of the record. -/
def split (record : List α) : Nat → List Member → List (List α)
  | _, [] => []
  | p, m :: ms =>
      let p := roundUp p m.align
      (record.drop p).take m.size :: split record (p + m.size) ms

/-- What a copy to a cleared record leaves there. `none` is a copy behind its end. -/
def copy (zero : α) (size : Nat) (octets : List α) : Option (List α) :=
  if octets.length ≤ size then
    some (octets ++ List.replicate (size - octets.length) zero)
  else none

/-- No member needs padding in front of it. -/
def Packed : Nat → List Member → Prop
  | _, [] => True
  | p, m :: ms => roundUp p m.align = p ∧ Packed (p + m.size) ms

instance decidablePacked (p : Nat) (ms : List Member) : Decidable (Packed p ms) :=
  match ms with
  | [] => inferInstanceAs (Decidable True)
  | m :: ms =>
      have := decidablePacked (p + m.size) ms
      inferInstanceAs (Decidable (_ ∧ _))

/-- Each piece has the size of its member. The last one may be shorter. -/
def Fills : List (List α) → List Member → Prop
  | [], [] => True
  | [piece], [m] => piece.length ≤ m.size
  | piece :: pieces, m :: ms => piece.length = m.size ∧ Fills pieces ms
  | _, _ => False

/-- A piece, and what was cleared behind it. -/
def image (zero : α) (piece : List α) (m : Member) : List α :=
  piece ++ List.replicate (m.size - piece.length) zero

theorem image_of_eq (zero : α) {piece : List α} {m : Member} (whole : piece.length = m.size) :
    image zero piece m = piece := by
  rw [image, whole, Nat.sub_self, List.replicate_zero, List.append_nil]

theorem Fills.cons {piece : List α} {pieces : List (List α)} {m : Member} {ms : List Member}
    (fills : Fills (piece :: pieces) (m :: ms)) :
    (pieces = [] ∧ ms = [] ∧ piece.length ≤ m.size) ∨ piece.length = m.size ∧ Fills pieces ms := by
  cases pieces with
  | nil =>
      cases ms with
      | nil => exact .inl ⟨rfl, rfl, fills⟩
      | cons m' ms => exact .inr fills
  | cons piece' pieces => exact .inr fills

theorem alignment_pos (ms : List Member) : 0 < alignment ms := by
  induction ms with
  | nil => exact Nat.one_pos
  | cons m ms ih => exact Nat.lt_of_lt_of_le ih (Nat.le_max_right m.align (alignment ms))

/-- What was copied comes apart again at the members. -/
theorem split_eq (zero : α) {p : Nat} {ms : List Member} (packed : Packed p ms)
    {pieces : List (List α)} (fills : Fills pieces ms) (before : List α)
    (length : before.length = p) {k : Nat}
    (cleared : finish p ms ≤ p + pieces.flatten.length + k) :
    split (before ++ pieces.flatten ++ List.replicate k zero) p ms =
      List.zipWith (image zero) pieces ms := by
  induction ms generalizing p pieces before with
  | nil =>
      cases pieces with
      | nil => rfl
      | cons piece pieces => cases pieces <;> exact fills.elim
  | cons m ms ih =>
      cases pieces with
      | nil => exact fills.elim
      | cons piece pieces =>
          obtain ⟨here, packed⟩ := packed
          rw [finish, here] at cleared
          rw [split, List.zipWith_cons_cons, here]
          have first : (before ++ (piece :: pieces).flatten ++ List.replicate k zero).drop p =
              piece ++ (pieces.flatten ++ List.replicate k zero) := by
            rw [List.flatten_cons, List.append_assoc, List.append_assoc, ← length,
              List.drop_left]
          simp only [first]
          cases fills.cons with
          | inl last =>
              obtain ⟨rfl, rfl, short⟩ := last
              have room : m.size - piece.length ≤ k := by
                simp only [finish, List.flatten_cons, List.flatten_nil, List.append_nil] at cleared
                omega
              rw [image, List.flatten_nil, List.nil_append, List.take_append,
                List.take_of_length_le short, List.take_replicate, Nat.min_eq_left room]
              rfl
          | inr whole =>
              obtain ⟨whole, fills⟩ := whole
              rw [image_of_eq zero whole, ← whole, List.take_left]
              congr 1
              rw [whole]
              have rest := ih packed fills (before ++ piece) (by simp [length, whole])
                (by
                  rw [List.flatten_cons, List.length_append] at cleared
                  omega)
              rw [List.append_assoc before piece] at rest
              exact rest

/-- A copy of the pieces to a record leaves each of them in its member. -/
theorem split_copy (zero : α) {ms : List Member} (packed : Packed 0 ms)
    {pieces : List (List α)} (fills : Fills pieces ms) {record : List α}
    (copied : copy zero (sizeof ms) pieces.flatten = some record) :
    split record 0 ms = List.zipWith (image zero) pieces ms := by
  rw [copy] at copied
  split at copied
  · cases copied
    apply split_eq zero packed fills [] rfl
    have inside := le_roundUp (finish 0 ms) (alignment_pos ms)
    rw [sizeof] at *
    omega
  · cases copied

end RecordLayout
