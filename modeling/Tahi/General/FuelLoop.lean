import Mathlib.Data.Nat.Init
import Mathlib.Logic.Relation
import Mathlib.Order.Basic

/-! # Loops with a bound for their turns

A loop goes from state to state until a turn says that it is over. A turn may run loops of its
own. So it has the bound as well, and gives nothing when that is too small for them.
-/

namespace FuelLoop

open Relation

/-- What a turn comes to: the state the next one begins in, or what the loop results in. -/
inductive Turn (σ ρ : Type*) where
  | next (s : σ)
  | done (r : ρ)
deriving DecidableEq, Repr

variable {α β σ ρ : Type*}

@[grind =]
def run (turn : Nat → σ → Option (Turn σ ρ)) : Nat → σ → Option ρ
  | 0, _ => none
  | fuel + 1, s =>
      match turn fuel s with
      | none => none
      | some (.done r) => some r
      | some (.next t) => run turn fuel t

/-- A bound that is enough stays enough when it grows. -/
def Grows (f : Nat → α → Option β) : Prop := ∀ n a b, f n a = some b → f (n + 1) a = some b

/-- With some bound `f` gives `b`. -/
@[grind =]
def Gives (f : Nat → α → Option β) (a : α) (b : β) : Prop := ∃ n, f n a = some b

@[grind =]
def Returns (f : Nat → α → Option β) (a : α) : Prop := ∃ b, Gives f a b

section Bounds

variable {f : Nat → α → Option β} {a : α} {b c : β}

theorem Grows.le (grows : Grows f) {n m : Nat} (le : n ≤ m) (enough : f n a = some b) :
    f m a = some b := by
  induction m, le using Nat.le_induction with
  | base => exact enough
  | succ m _ ih => exact grows m a b ih

theorem Gives.unique (grows : Grows f) (one : Gives f a b) (other : Gives f a c) : b = c := by
  obtain ⟨n, enough⟩ := one
  obtain ⟨m, enough'⟩ := other
  have both := grows.le (Nat.le_max_left n m) enough
  have both' := grows.le (Nat.le_max_right n m) enough'
  rw [both] at both'
  exact Option.some.inj both'

/-- What needs no bound. -/
theorem grows_pure (f : α → β) : Grows fun _ a => some (f a) := fun _ _ _ gives => gives

theorem gives_pure (f : α → β) (a : α) : Gives (fun _ a => some (f a)) a b ↔ b = f a := by
  simp only [Gives, exists_const, Option.some.injEq]
  exact eq_comm

theorem returns_pure (f : α → β) (a : α) : Returns (fun _ a => some (f a)) a :=
  ⟨f a, 0, rfl⟩

variable {γ : Type*} {g : α → β → γ}

theorem Grows.map (grows : Grows f) (g : α → β → γ) : Grows fun n a => (f n a).map (g a) := by
  intro n a c gives
  obtain ⟨b, enough, rfl⟩ := Option.map_eq_some_iff.mp gives
  exact Option.map_eq_some_iff.mpr ⟨b, grows n a b enough, rfl⟩

theorem gives_map {c : γ} :
    Gives (fun n a => (f n a).map (g a)) a c ↔ ∃ b, Gives f a b ∧ g a b = c := by
  simp only [Gives, Option.map_eq_some_iff]
  constructor
  · rintro ⟨n, b, enough, same⟩
    exact ⟨b, ⟨n, enough⟩, same⟩
  · rintro ⟨b, ⟨n, enough⟩, same⟩
    exact ⟨n, b, enough, same⟩

theorem returns_map : Returns (fun n a => (f n a).map (g a)) a ↔ Returns f a := by
  constructor
  · rintro ⟨_, gives⟩
    obtain ⟨b, gives, -⟩ := gives_map.mp gives
    exact ⟨b, gives⟩
  · rintro ⟨b, gives⟩
    exact ⟨g a b, gives_map.mpr ⟨b, gives, rfl⟩⟩

end Bounds

section Loops

variable {turn : Nat → σ → Option (Turn σ ρ)} {s t : σ} {r : ρ}

/-- One turn leads from a state to the next. -/
def Leads (turn : Nat → σ → Option (Turn σ ρ)) (s t : σ) : Prop := Gives turn s (.next t)

/-- The states the loop comes to. -/
abbrev Comes (turn : Nat → σ → Option (Turn σ ρ)) : σ → σ → Prop := ReflTransGen (Leads turn)

theorem Grows.run (grows : Grows turn) : Grows (run turn) := by
  intro n
  induction n with
  | zero =>
      intro s r gives
      cases gives
  | succ n ih =>
      intro s r gives
      simp only [FuelLoop.run] at gives ⊢
      cases once : turn n s with
      | none => simp [once] at gives
      | some x =>
          rw [once] at gives
          rw [grows n s x once]
          cases x with
          | done _ => exact gives
          | next t => exact ih t r gives

theorem run_done (ends : Gives turn s (.done r)) : Gives (run turn) s r := by
  obtain ⟨n, ends⟩ := ends
  exact ⟨n + 1, by simp [run, ends]⟩

theorem run_next (grows : Grows turn) (leads : Leads turn s t) (gives : Gives (run turn) t r) :
    Gives (run turn) s r := by
  obtain ⟨n, once⟩ := leads
  obtain ⟨m, rest⟩ := gives
  have once := grows.le (Nat.le_max_left n m) once
  have rest := grows.run.le (Nat.le_max_right n m) rest
  exact ⟨max n m + 1, by simp [run, once, rest]⟩

/-- A loop is over after one turn, or what it gives is what the rest of it gives. -/
theorem run_cases (gives : Gives (run turn) s r) :
    Gives turn s (.done r) ∨ ∃ t, Leads turn s t ∧ Gives (run turn) t r := by
  obtain ⟨n, gives⟩ := gives
  cases n with
  | zero => cases gives
  | succ n =>
      simp only [run] at gives
      cases once : turn n s with
      | none => simp [once] at gives
      | some x =>
          rw [once] at gives
          cases x with
          | done r' =>
              cases gives
              exact .inl ⟨n, once⟩
          | next t => exact .inr ⟨t, ⟨n, once⟩, n, gives⟩

theorem run_of_leads (grows : Grows turn) (leads : Leads turn s t) :
    Gives (run turn) s r ↔ Gives (run turn) t r := by
  constructor
  · intro gives
    rcases run_cases gives with ends | ⟨u, leads', rest⟩
    · cases Gives.unique grows leads ends
    · cases Gives.unique grows leads leads'
      exact rest
  · exact run_next grows leads

theorem run_of_comes (grows : Grows turn) (comes : Comes turn s t) :
    Gives (run turn) s r ↔ Gives (run turn) t r := by
  induction comes with
  | refl => rfl
  | tail _ leads ih => rw [ih, run_of_leads grows leads]

/-- What a loop gives, one of its turns does. -/
theorem run_last (gives : Gives (run turn) s r) :
    ∃ t, Comes turn s t ∧ Gives turn t (.done r) := by
  obtain ⟨n, gives⟩ := gives
  induction n generalizing s with
  | zero => cases gives
  | succ n ih =>
      simp only [run] at gives
      cases once : turn n s with
      | none => simp [once] at gives
      | some x =>
          rw [once] at gives
          cases x with
          | done r' =>
              cases gives
              exact ⟨s, .refl, n, once⟩
          | next u =>
              obtain ⟨t, comes, ends⟩ := ih gives
              exact ⟨t, .head ⟨n, once⟩ comes, ends⟩

/-- A loop returns if all the turns it comes to do, and each that is not the last one makes a
    measure smaller. -/
theorem returns_of_smaller (grows : Grows turn) (measure : σ → Nat)
    (turns : ∀ t, Comes turn s t → Returns turn t)
    (smaller : ∀ t u, Comes turn s t → Leads turn t u → measure u < measure t) :
    Returns (run turn) s := by
  have onward : ∀ n t, measure t = n → Comes turn s t → Returns (run turn) t := by
    intro n
    induction n using Nat.strong_induction_on with
    | h n ih =>
        intro t size comes
        obtain ⟨x, once⟩ := turns t comes
        cases x with
        | done r => exact ⟨r, run_done once⟩
        | next u =>
            have less := smaller t u comes once
            obtain ⟨r, rest⟩ := ih (measure u) (size ▸ less) u rfl (comes.tail once)
            exact ⟨r, run_next grows once rest⟩
  exact onward (measure s) s rfl .refl

end Loops

end FuelLoop
