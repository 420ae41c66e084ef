import Mathlib.Data.List.Basic

/-! # Streams of frames

A stream of octets is cut into frames, the length of each of which is known from its
first octets. However the stream arrives, the frames of what has arrived are the frames
of the earlier part and those of its unfinished end with the rest.
-/

/-- The length of the first frame of a stream, as soon as it is known. -/
structure Framing (α : Type) where
  size : List α → Option Nat
  pos : ∀ {xs n}, size xs = some n → 0 < n
  stable : ∀ {xs n} ys, size xs = some n → size (xs ++ ys) = some n

namespace Framing

variable {α : Type} (F : Framing α)

/-- The first frame and what follows it. -/
@[grind =]
def next (xs : List α) : Option (List α × List α) :=
  match F.size xs with
  | none => none
  | some n => if n ≤ xs.length then some (xs.take n, xs.drop n) else none

@[grind =]
def framesUpTo : Nat → List α → List (List α) × List α
  | 0, xs => ([], xs)
  | fuel + 1, xs =>
      match F.next xs with
      | none => ([], xs)
      | some (m, rest) =>
          let (ms, tail) := framesUpTo fuel rest
          (m :: ms, tail)

/-- The frames of a stream and its unfinished end. -/
def frames (xs : List α) : List (List α) × List α := F.framesUpTo xs.length xs

/-- A whole frame, alone. -/
def IsFrame (m : List α) : Prop := F.size m = some m.length

variable {F}
variable {xs ys m rest tail : List α} {ms : List (List α)} {fuel : Nat}

theorem next_length (found : F.next xs = some (m, rest)) : rest.length < xs.length := by
  unfold next at found
  split at found
  · cases found
  · rename_i n known
    have positive := F.pos known
    split at found
    · cases found
      rw [List.length_drop]
      omega
    · cases found

theorem append_of_next (found : F.next xs = some (m, rest)) : m ++ rest = xs := by
  unfold next at found
  split at found
  · cases found
  · split at found
    · cases found
      exact List.take_append_drop _ xs
    · cases found

theorem next_append (found : F.next xs = some (m, rest)) (ys : List α) :
    F.next (xs ++ ys) = some (m, rest ++ ys) := by
  unfold next at *
  cases known : F.size xs with
  | none => simp [known] at found
  | some n =>
      simp only [known] at found
      split at found
      · rename_i whole
        cases found
        simp only [F.stable ys known, List.length_append]
        rw [if_pos (Nat.le_add_right_of_le whole), List.take_append_of_le_length whole,
          List.drop_append_of_le_length whole]
      · cases found

/-- More turns than octets make no difference. -/
theorem framesUpTo_eq (enough : xs.length ≤ fuel) : F.framesUpTo fuel xs = F.frames xs := by
  have any (fuel fuel' : Nat) (xs : List α) (enough : xs.length ≤ fuel)
      (enough' : xs.length ≤ fuel') : F.framesUpTo fuel xs = F.framesUpTo fuel' xs := by
    induction fuel generalizing fuel' xs with
    | zero =>
        cases List.length_eq_zero_iff.mp (Nat.le_zero.mp enough)
        cases fuel' with
        | zero => rfl
        | succ fuel' =>
            cases found : F.next ([] : List α) with
            | none => simp [framesUpTo, found]
            | some r => exact absurd (next_length found) (Nat.not_lt_zero _)
    | succ fuel ih =>
        cases fuel' with
        | zero =>
            cases List.length_eq_zero_iff.mp (Nat.le_zero.mp enough')
            cases found : F.next ([] : List α) with
            | none => simp [framesUpTo, found]
            | some r => exact absurd (next_length found) (Nat.not_lt_zero _)
        | succ fuel' =>
            cases found : F.next xs with
            | none => simp [framesUpTo, found]
            | some r =>
                have shorter := next_length found
                simp only [framesUpTo, found]
                rw [ih fuel' r.2 (by omega) (by omega)]
  exact any fuel xs.length xs enough (Nat.le_refl _)

theorem frames_none (unfinished : F.next xs = none) : F.frames xs = ([], xs) := by
  unfold frames
  cases xs.length <;> simp [framesUpTo, unfinished]

theorem frames_some (found : F.next xs = some (m, rest)) :
    F.frames xs = (m :: (F.frames rest).1, (F.frames rest).2) := by
  have shorter := next_length found
  rw [← framesUpTo_eq (Nat.le_succ xs.length), framesUpTo, found]
  simp only
  rw [framesUpTo_eq (Nat.le_of_lt shorter)]

/-- The frames of a stream whose end arrives later. -/
theorem frames_append (xs ys : List α) :
    F.frames (xs ++ ys) =
      ((F.frames xs).1 ++ (F.frames ((F.frames xs).2 ++ ys)).1,
        (F.frames ((F.frames xs).2 ++ ys)).2) := by
  induction size : xs.length using Nat.strongRecOn generalizing xs with
  | ind n ih =>
      cases found : F.next xs with
      | none => rw [frames_none found, List.nil_append]
      | some r =>
          have shorter := next_length found
          rw [frames_some found, frames_some (next_append found ys),
            ih _ (size ▸ shorter) r.2 rfl, List.cons_append]

theorem next_of_isFrame (whole : F.IsFrame m) (rest : List α) :
    F.next (m ++ rest) = some (m, rest) := by
  unfold next
  rw [F.stable rest whole]
  simp

/-- The frames of a stream that was put together from frames. -/
theorem frames_flatten (whole : ∀ m ∈ ms, F.IsFrame m) (unfinished : F.next tail = none) :
    F.frames (ms.flatten ++ tail) = (ms, tail) := by
  induction ms with
  | nil => exact frames_none unfinished
  | cons m ms ih =>
      rw [List.flatten_cons, List.append_assoc,
        frames_some (next_of_isFrame (whole m (by simp)) _),
        ih fun m mem => whole m (List.mem_cons_of_mem _ mem)]

end Framing
