import Mathlib.Data.List.Range
import Mathlib.Tactic.Ring

/-! # Pieces that lie one behind the other

A sequence of bits is known by its value at every place. Pieces tile an interval
when each starts where the one before it ends. Where each of them also holds the
bits that stand in its place, they are together the bits of the interval.
-/

namespace Tiling

/-- The bits from place `s` on. -/
def window (m : Int → Bool) (s : Int) (n : Nat) : List Bool :=
  (List.range n).map fun i : Nat => m (s + i)

@[simp] theorem length_window (m : Int → Bool) (s : Int) (n : Nat) :
    (window m s n).length = n := by
  simp [window]

theorem window_append (m : Int → Bool) (s : Int) (a b : Nat) :
    window m s a ++ window m (s + a) b = window m s (a + b) := by
  simp only [window, List.range_add, List.map_append, List.map_map]
  congr 1
  apply List.map_congr_left
  intro i _
  simp only [Function.comp_apply, Nat.cast_add, add_assoc]

theorem window_shift (m : Int → Bool) (d s : Int) (n : Nat) :
    window (fun k => m (k + d)) s n = window m (s + d) n := by
  apply List.map_congr_left
  intro i _
  change m (s + i + d) = m (s + d + i)
  rw [add_right_comm]

structure Piece where
  start : Int
  width : Int
  bits : List Bool
deriving DecidableEq

namespace Piece

def shift (p : Piece) (d : Int) : Piece := { p with start := p.start + d }

/-- The piece has the bits that stand in its place. -/
def Holds (m : Int → Bool) (p : Piece) : Prop := p.bits = window m p.start p.width.toNat

theorem Holds.shift {m : Int → Bool} {d : Int} {p : Piece}
    (holds : p.Holds fun k => m (k + d)) : (p.shift d).Holds m := by
  rw [Holds, window_shift] at holds
  exact holds

end Piece

/-- The pieces tile the places from `s` up to `e`. -/
inductive Tiles : Int → Int → List Piece → Prop where
  | nil (s : Int) : Tiles s s []
  | cons (s : Int) (n : Nat) (bits : List Bool) {e : Int} {ps : List Piece}
      (rest : Tiles (s + n) e ps) : Tiles s e (⟨s, n, bits⟩ :: ps)

namespace Tiles

variable {m : Int → Bool} {s e : Int} {ps qs : List Piece}

theorem single (s : Int) (n : Nat) (bits : List Bool) : Tiles s (s + n) [⟨s, n, bits⟩] :=
  .cons s n bits (.nil _)

theorem append {u : Int} (first : Tiles s u ps) (second : Tiles u e qs) :
    Tiles s e (ps ++ qs) := by
  induction first with
  | nil s => exact second
  | cons s n bits rest ih => exact .cons s n bits (ih second)

theorem shift (d : Int) (tiles : Tiles s e ps) :
    Tiles (s + d) (e + d) (ps.map (·.shift d)) := by
  induction tiles with
  | nil s => exact .nil _
  | cons s n bits rest ih =>
      have next : s + n + d = s + d + n := by ring
      rw [next] at ih
      exact .cons (s + d) n bits ih

theorem le (tiles : Tiles s e ps) : s ≤ e := by
  induction tiles with
  | nil s => exact le_rfl
  | cons s n bits rest ih => omega

/-- The widths of the pieces sum to the length of the interval. -/
theorem sum_width (tiles : Tiles s e ps) : (ps.map Piece.width).sum = e - s := by
  induction tiles with
  | nil s => simp
  | cons s n bits rest ih =>
      rw [List.map_cons, List.sum_cons, ih]
      ring

/-- The concatenation of the pieces is the interval. -/
theorem flatMap_bits (tiles : Tiles s e ps) (holds : ∀ p ∈ ps, p.Holds m) :
    ps.flatMap Piece.bits = window m s (e - s).toNat := by
  induction tiles with
  | nil s => simp [window]
  | cons s n bits rest ih =>
      have lower := rest.le
      have first : bits = window m s n := holds _ (List.mem_cons_self)
      rw [List.flatMap_cons, ih fun p member => holds p (List.mem_cons_of_mem _ member), first,
        window_append]
      congr 1
      omega

end Tiles

end Tiling
