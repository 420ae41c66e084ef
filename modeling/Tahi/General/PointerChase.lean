import Mathlib.Data.Fintype.Pigeonhole
import Mathlib.Order.WellFounded

/-! # Following pointers

Who follows the pointers from a place comes to an end whichever of them is taken, or can
go on for ever. With finitely many places to point to, that is because of a circle.
-/

namespace PointerChase

open Relation

variable {α : Type*} {next : α → α → Prop} {a b : α}

/-- The pointers from `a` come to an end. -/
abbrev Ends (next : α → α → Prop) (a : α) : Prop := Acc (fun b a => next a b) a

/-- From `a` one gets to a place that the pointers come back to. -/
def Circles (next : α → α → Prop) (a : α) : Prop :=
  ∃ p, ReflTransGen next a p ∧ TransGen next p p

theorem Ends.of_leads (ends : Ends next a) (leads : ReflTransGen next a b) : Ends next b := by
  induction leads with
  | refl => exact ends
  | tail _ points ih => exact ih.inv points

theorem Ends.not_back (ends : Ends next a) : ¬ TransGen next a a := by
  induction ends.transGen with
  | intro a _ ih =>
      intro back
      have back' : TransGen (fun b a => next a b) a a := transGen_swap.mpr back
      exact ih a back' (ends.inv_of_transGen back') back

theorem Ends.not_circles (ends : Ends next a) : ¬ Circles next a := by
  intro ⟨p, leads, back⟩
  exact (ends.of_leads leads).not_back back

theorem leads_of_lt {place : Nat → α} (points : ∀ n, next (place n) (place (n + 1)))
    {i j : Nat} (lt : i < j) : TransGen next (place i) (place j) := by
  induction j, lt using Nat.le_induction with
  | base => exact .single (points i)
  | succ j _ ih => exact ih.tail (points j)

theorem circles_of_not_ends (finite : {b | ∃ a, next a b}.Finite)
    (unending : ¬ Ends next a) : Circles next a := by
  obtain ⟨place, rfl, points⟩ := not_acc_iff_exists_descending_chain.mp unending
  have : Finite {b | ∃ a, next a b} := finite
  let target (n : Nat) : {b | ∃ a, next a b} := ⟨place (n + 1), place n, points n⟩
  obtain ⟨i, j, distinct, same⟩ := Finite.exists_ne_map_eq_of_infinite target
  have same : place (i + 1) = place (j + 1) := congrArg Subtype.val same
  have reach (n : Nat) : ReflTransGen next (place 0) (place (n + 1)) :=
    (leads_of_lt points (Nat.succ_pos n)).to_reflTransGen
  rcases Nat.lt_or_gt_of_ne distinct with lt | lt
  · have back := leads_of_lt points (Nat.succ_lt_succ lt)
    rw [← same] at back
    exact ⟨_, reach i, back⟩
  · have back := leads_of_lt points (Nat.succ_lt_succ lt)
    rw [same] at back
    exact ⟨_, reach j, back⟩

theorem ends_iff_not_circles (finite : {b | ∃ a, next a b}.Finite) :
    Ends next a ↔ ¬ Circles next a := by
  constructor
  · exact Ends.not_circles
  · intro straight
    by_contra unending
    exact straight (circles_of_not_ends finite unending)

/-- A recursion with a bound for its depth returns for some bound exactly when the calls it
    makes come to an end. -/
theorem returns_iff_ends {calls : α → List α} {run : Nat → α → Bool}
    (stuck : ∀ a, run 0 a → calls a = [])
    (step : ∀ n a, run (n + 1) a = (calls a).all (run n)) (a : α) :
    (∃ n, run n a) ↔ Ends (fun a b => b ∈ calls a) a := by
  have more (n : Nat) : ∀ a, run n a → run (n + 1) a := by
    induction n with
    | zero =>
        intro a returns
        rw [step, stuck a returns]
        rfl
    | succ n ih =>
        intro a returns
        rw [step, List.all_eq_true] at returns ⊢
        exact fun b called => ih b (returns b called)
  have enough {n m : Nat} (le : n ≤ m) (a : α) (returns : run n a) : run m a := by
    induction m, le using Nat.le_induction with
    | base => exact returns
    | succ m _ ih => exact more m a ih
  constructor
  · rintro ⟨n, returns⟩
    induction n generalizing a with
    | zero =>
        apply Acc.intro
        intro b called
        have none : calls a = [] := stuck a returns
        simp [none] at called
    | succ n ih =>
        apply Acc.intro
        intro b called
        rw [step, List.all_eq_true] at returns
        exact ih b (returns b called)
  · intro ends
    induction ends with
    | intro a _ ih =>
        have common : ∀ l : List α, (∀ b ∈ l, ∃ n, run n b) → ∃ n, ∀ b ∈ l, run n b := by
          intro l each
          induction l with
          | nil => exact ⟨0, by simp⟩
          | cons b l ihl =>
              obtain ⟨n, first⟩ := each b (by simp)
              obtain ⟨m, rest⟩ := ihl fun c member => each c (by simp [member])
              use max n m
              intro c member
              rcases List.mem_cons.mp member with rfl | member
              · exact enough (Nat.le_max_left n m) c first
              · exact enough (Nat.le_max_right n m) c (rest c member)
        obtain ⟨n, all⟩ := common (calls a) ih
        exact ⟨n + 1, by rw [step, List.all_eq_true]; exact all⟩

/-- Pointers of two kinds: those of the first make a measure smaller, and those of the
    second start it again. It is enough that there are not for ever more of the second. -/
theorem ends_of_restarts {ordinary restart : α → α → Prop} (measure : α → Nat)
    (smaller : ∀ p b, ReflTransGen (fun a b => ordinary a b ∨ restart a b) a p →
      ordinary p b → measure b < measure p)
    (few : Ends (fun a b => ∃ p, ReflTransGen ordinary a p ∧ restart p b) a) :
    Ends (fun a b => ordinary a b ∨ restart a b) a := by
  induction few with
  | intro a _ ih =>
      have onward : ∀ n p, measure p = n → ReflTransGen ordinary a p →
          Ends (fun a b => ordinary a b ∨ restart a b) p := by
        intro n
        induction n using Nat.strong_induction_on with
        | h n ihn =>
            intro p size leads
            have come : ReflTransGen (fun a b => ordinary a b ∨ restart a b) a p :=
              ReflTransGen.mono (fun _ _ => Or.inl) _ _ leads
            apply Acc.intro
            rintro b (points | points)
            · have less := smaller p b come points
              exact ihn (measure b) (size ▸ less) b rfl (leads.tail points)
            · apply ih b ⟨p, leads, points⟩
              intro q c on
              exact smaller q c ((come.tail (.inr points)).trans on)
      exact onward (measure a) a rfl .refl

/-- Where all pointers come to an end, those that start the measure again are few. -/
theorem Ends.restarts {ordinary restart : α → α → Prop}
    (ends : Ends (fun a b => ordinary a b ∨ restart a b) a) :
    Ends (fun a b => ∃ p, ReflTransGen ordinary a p ∧ restart p b) a := by
  induction ends.transGen with
  | intro a _ ih =>
      apply Acc.intro
      rintro b ⟨p, leads, points⟩
      have come : TransGen (fun b a => ordinary a b ∨ restart a b) b a := by
        apply transGen_swap.mpr
        exact .tail' (ReflTransGen.mono (fun _ _ => Or.inl) _ _ leads) (.inr points)
      exact ih b come (ends.inv_of_transGen come)

end PointerChase
