import Mathlib.Data.List.Forall2
import Mathlib.Data.List.Perm.Basic

/-! # Matching without backtracking

The elements of `sites` are visited in order and each takes the first requirement
that accepts it. No choice is ever taken back, so a requirement that accepts much
can take the place of one that accepts little.
-/

namespace GreedyMatching

variable {α β : Type} (accept : α → β → Bool)

@[grind =]
def greedy : List β → List α → Bool
  | [], refs => refs.isEmpty
  | s :: left, refs =>
      refs.isEmpty || (refs.any (accept · s) && greedy left (refs.eraseP (accept · s)))

/-- Every requirement accepts the element at its own place of an initial run. -/
def Matched (refs : List α) (sites : List β) : Prop :=
  ∃ p taken, p.Perm refs ∧ taken <+: sites ∧
    List.Forall₂ (fun x s => accept x s = true) p taken

/-- However some of the requirements are placed, one of the others accepts the
    element that comes next. -/
def NoDeadEnd (refs : List α) (sites : List β) : Prop :=
  ∀ done rest taken left, (done ++ rest).Perm refs → sites = taken ++ left →
    List.Forall₂ (fun x s => accept x s = true) done taken → rest ≠ [] →
      ∃ s ∈ left.head?, ∃ x ∈ rest, accept x s = true

variable {accept} {refs : List α} {sites : List β}

theorem Matched.perm {refs' : List α} (same : refs'.Perm refs)
    (matched : Matched accept refs' sites) : Matched accept refs sites := by
  obtain ⟨p, taken, order, initial, all⟩ := matched
  exact ⟨p, taken, order.trans same, initial, all⟩

theorem NoDeadEnd.perm {refs' : List α} (same : refs'.Perm refs)
    (extends_ : NoDeadEnd accept refs sites) : NoDeadEnd accept refs' sites :=
  fun done rest taken left order => extends_ done rest taken left (order.trans same)

/-- The requirement that is taken and the ones that stay. -/
private theorem exists_taken {p : α → Bool} (some_ : refs.any p = true) :
    ∃ x, p x = true ∧ (x :: refs.eraseP p).Perm refs := by
  obtain ⟨a, member, holds⟩ := List.any_eq_true.mp some_
  obtain ⟨x, before, after, _, accepts, whole, erased⟩ := List.exists_of_eraseP member holds
  refine ⟨x, accepts, ?_⟩
  rw [erased, whole]
  exact List.perm_middle.symm

/-- What the greedy run accepts has a matching, by induction on the elements. -/
theorem greedy_sound (accepted : greedy accept sites refs = true) :
    Matched accept refs sites := by
  induction sites generalizing refs with
  | nil =>
      cases refs with
      | nil => exact ⟨[], [], .nil, List.nil_prefix, .nil⟩
      | cons x refs => simp [greedy] at accepted
  | cons s left ih =>
      cases refs with
      | nil => exact ⟨[], [], .nil, List.nil_prefix, .nil⟩
      | cons y refs =>
          simp only [greedy, List.isEmpty_cons, Bool.false_or, Bool.and_eq_true] at accepted
          obtain ⟨x, accepts, order⟩ := exists_taken accepted.1
          obtain ⟨p, taken, order', initial, all⟩ := ih accepted.2
          exact ⟨x :: p, s :: taken, (order'.cons x).trans order,
            (List.cons_prefix_cons).mpr ⟨rfl, initial⟩, .cons accepts all⟩

/-- A run over requirements that are listed in a matching order leaves what comes
    after them. -/
theorem greedy_append {done rest : List α} {taken left : List β}
    (all : List.Forall₂ (fun x s => accept x s = true) done taken) :
    greedy accept (taken ++ left) (done ++ rest) = greedy accept left rest := by
  induction all with
  | nil => rfl
  | cons accepts _ ih => simp [greedy, accepts, ih]

theorem greedy_nil (sites : List β) : greedy accept sites [] = true := by
  cases sites with
  | nil => rfl
  | cons s left => rfl

/-- A matching is found when the requirements are listed in its own order. -/
theorem greedy_of_forall₂ {p : List α} {taken : List β}
    (all : List.Forall₂ (fun x s => accept x s = true) p taken) (initial : taken <+: sites) :
    greedy accept sites p = true := by
  obtain ⟨left, rfl⟩ := initial
  have run := @greedy_append _ _ accept p [] taken left all
  rw [List.append_nil] at run
  rw [run, greedy_nil]

theorem NoDeadEnd.tail {x : α} {s : β} {rest : List α} {left : List β}
    (extends_ : NoDeadEnd accept refs (s :: left)) (accepts : accept x s = true)
    (order : (x :: rest).Perm refs) : NoDeadEnd accept rest left := by
  intro done rest' taken left' order' whole all nonempty
  refine extends_ (x :: done) rest' (s :: taken) left' ?_ ?_ (.cons accepts all) nonempty
  · exact (order'.cons x).trans order
  · rw [whole, List.cons_append]

/-- Where no choice is a dead end, the first one that offers itself will do. -/
theorem NoDeadEnd.greedy (extends_ : NoDeadEnd accept refs sites) :
    greedy accept sites refs = true := by
  induction sites generalizing refs with
  | nil =>
      cases refs with
      | nil => rfl
      | cons x refs =>
          obtain ⟨s, head, _⟩ := extends_ [] (x :: refs) [] [] (.refl _) rfl .nil (by simp)
          cases head
  | cons s left ih =>
      cases refs with
      | nil => exact greedy_nil _
      | cons y refs =>
          obtain ⟨s', head, x, member, accepts⟩ :=
            extends_ [] (y :: refs) [] (s :: left) (.refl _) rfl .nil (by simp)
          cases head
          have some_ : (y :: refs).any (accept · s) = true :=
            List.any_eq_true.mpr ⟨x, member, accepts⟩
          obtain ⟨z, accepts', order⟩ := exists_taken some_
          simp only [GreedyMatching.greedy, List.isEmpty_cons, Bool.false_or, some_,
            Bool.true_and]
          exact ih (extends_.tail accepts' order)

/-- If every order is accepted there is no dead end: list the placed requirements
    first. -/
theorem noDeadEnd_of_greedy
    (accepted : ∀ refs', refs'.Perm refs → greedy accept sites refs' = true) :
    NoDeadEnd accept refs sites := by
  rintro done rest taken left order rfl all nonempty
  have run := accepted (done ++ rest) order
  rw [greedy_append all] at run
  cases rest with
  | nil => exact absurd rfl nonempty
  | cons y rest =>
      cases left with
      | nil => simp [greedy] at run
      | cons s left =>
          simp only [greedy, List.isEmpty_cons, Bool.false_or, Bool.and_eq_true] at run
          obtain ⟨x, member, accepts⟩ := List.any_eq_true.mp run.1
          exact ⟨s, rfl, x, member, accepts⟩

/-- There is a matching exactly when some order of the requirements is accepted. -/
theorem exists_greedy_iff :
    (∃ refs', refs'.Perm refs ∧ greedy accept sites refs' = true) ↔
      Matched accept refs sites := by
  constructor
  · rintro ⟨refs', same, accepted⟩
    exact (greedy_sound accepted).perm same
  · rintro ⟨p, taken, order, initial, all⟩
    exact ⟨p, order, greedy_of_forall₂ all initial⟩

/-- The order of the requirements does not matter exactly when there is no matching
    or no dead end. -/
theorem forall_greedy_iff :
    (∀ refs', refs'.Perm refs →
        (greedy accept sites refs' = true ↔ Matched accept refs sites)) ↔
      (Matched accept refs sites → NoDeadEnd accept refs sites) := by
  constructor
  · intro right matched
    exact noDeadEnd_of_greedy fun refs' same => (right refs' same).mpr matched
  · intro extends_ refs' same
    constructor
    · exact fun accepted => (greedy_sound accepted).perm same
    · exact fun matched => ((extends_ matched).perm same).greedy

end GreedyMatching
