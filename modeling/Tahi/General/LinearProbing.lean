/-! # Linear probing

An element of a circular table stands at its home or behind it, with no free cell on
the way. A cell that is freed may be on the way to others: walking on from it, each
element that has the free cell on its way is moved there, and leaves a free cell of
its own.
-/

namespace LinearProbing

variable {α : Type}

/-- The steps forward from `a` to `b` around a table of `n` cells. -/
@[grind =]
def dist (n a b : Nat) : Nat := if a ≤ b then b - a else b + n - a

theorem dist_lt {n a b : Nat} (ha : a < n) (hb : b < n) : dist n a b < n := by
  unfold dist
  grind

theorem dist_inj {n a b c : Nat} (_ : a < n) (hb : b < n) (hc : c < n)
    (same : dist n a b = dist n a c) : b = c := by
  unfold dist at same
  grind

/-- One step forward. -/
def next (n p : Nat) : Nat := if n ≤ p + 1 then 0 else p + 1

theorem next_lt {n p : Nat} (hp : p < n) : next n p < n := by
  unfold next
  grind

theorem dist_next {n a p : Nat} (ha : a < n) (hp : p < n) (more : dist n a p + 1 < n) :
    dist n a (next n p) = dist n a p + 1 := by
  unfold dist next at *
  grind

@[simp] theorem dist_self (n a : Nat) : dist n a a = 0 := by
  simp [dist]

/-- On the way to `c` from a place that has `a` on its way stands what is between them. -/
theorem dist_between {n s h a b c : Nat} (hs : s < n) (hh : h < n) (_ : a < n) (hb : b < n)
    (hc : c < n) (first : dist n s a < dist n s b) (second : dist n s b < dist n s c)
    (on : dist n h a ≤ dist n h c) : dist n h b ≤ dist n h c := by
  unfold dist at *
  grind

/-- The way to `a` from a place that has `b` on its way goes around. -/
theorem dist_around {n s h a b c : Nat} (hs : s < n) (hh : h < n) (ha : a < n) (hb : b < n)
    (hc : c < n) (first : dist n s a < dist n s b) (second : dist n s b < dist n s c)
    (on : dist n h b ≤ dist n h a) : dist n h c ≤ dist n h a := by
  unfold dist at *
  grind

/-- No free cell is on the way from an element's home to the element. -/
def Reachable (home : α → Nat) (cells : List (Option α)) : Prop :=
  ∀ p x, cells[p]? = some (some x) → ∀ q, q < cells.length →
    dist cells.length (home x) q ≤ dist cells.length (home x) p → cells[q]? ≠ some none

namespace Reachable

variable {home : α → Nat} {cells : List (Option α)}

theorem empty (home : α → Nat) (n : Nat) : Reachable home (List.replicate n (none : Option α)) := by
  intro p x there
  simp [List.getElem?_replicate] at there

/-- A new element may take a cell that no free cell is on the way to. -/
theorem set (reachable : Reachable home cells) {u : Nat} {o : α} (home_lt : home o < cells.length)
    (way : ∀ q, q < cells.length → dist cells.length (home o) q < dist cells.length (home o) u →
      cells[q]? ≠ some none) : Reachable home (cells.set u (some o)) := by
  intro p x there q inside near
  rw [List.length_set] at inside near
  rw [List.getElem?_set] at there ⊢
  by_cases same : u = q
  · simp [same, inside]
  · rw [if_neg same]
    by_cases new : u = p
    · obtain ⟨here, rfl⟩ : u < cells.length ∧ o = x := by grind
      subst new
      exact way q inside (Nat.lt_of_le_of_ne near fun equal =>
        same (dist_inj home_lt here inside equal.symm))
    · rw [if_neg new] at there
      exact reachable p x there q inside near

/-- An element is met before the first free cell on the way from its home. -/
theorem before (reachable : Reachable home cells) {p q : Nat} {x : α}
    (there : cells[p]? = some (some x)) (free : cells[q]? = some none) :
    dist cells.length (home x) p < dist cells.length (home x) q := by
  apply Nat.lt_of_not_le
  intro near
  have inside : q < cells.length := (List.getElem?_eq_some_iff.mp free).1
  exact reachable p x there q inside near free

end Reachable

/-- What a walk from the home `h` finds that stops at an element with `m` or at a free
    cell: the element and its cell, the free cell, or neither. -/
inductive Probed (cells : List (Option α)) (h : Nat) (m : α → Prop) : Option α × Option Nat → Prop
  | hit (p : Nat) (c : α) (there : cells[p]? = some (some c)) (found : m c) :
      Probed cells h m (some c, some p)
  | free (p : Nat) (here : cells[p]? = some none)
      (way : ∀ q, q < cells.length → dist cells.length h q < dist cells.length h p →
        ∃ c, cells[q]? = some (some c) ∧ ¬m c) : Probed cells h m (none, some p)
  | full (way : ∀ q, q < cells.length → ∃ c, cells[q]? = some (some c) ∧ ¬m c) :
      Probed cells h m (none, none)

/-- Where elements with `m` have the home `h`, a walk that finds none tells that there is
    none. -/
theorem Probed.absent {home : α → Nat} {cells : List (Option α)} {h : Nat} {m : α → Prop}
    {u : Option Nat} (probed : Probed cells h m (none, u)) (reachable : Reachable home cells)
    (homes : ∀ x, m x → home x = h) : ∀ x, some x ∈ cells → ¬m x := by
  intro x mem found
  obtain ⟨p, there⟩ := List.mem_iff_getElem?.mp mem
  have inside : p < cells.length := (List.getElem?_eq_some_iff.mp there).1
  cases probed with
  | free q here way =>
      have near := reachable.before there here
      rw [homes x found] at near
      obtain ⟨c, there', other⟩ := way p inside near
      grind
  | full way =>
      obtain ⟨c, there', other⟩ := way p inside
      grind

/-- The walk that repairs the table after cell `start` was freed, before its step number
    `j`. The free cell is now `hole`, and it is not on the way to elements that the walk
    has passed. -/
structure Repairing (home : α → Nat) (cells : List (Option α)) (start hole j : Nat) : Prop where
  start_lt : start < cells.length
  home_lt : ∀ x, home x < cells.length
  free : cells[hole]? = some none
  passed : dist cells.length start hole < j
  way : ∀ p x, cells[p]? = some (some x) → ∀ q, q < cells.length →
    dist cells.length (home x) q ≤ dist cells.length (home x) p → cells[q]? = some none →
    q = hole ∧ j ≤ dist cells.length start p
  -- Around a full table of more cells the walk would free cells it has passed.
  other : cells.length ≤ 2 ∨
    ∃ z, cells[z]? = some none ∧ z ≠ hole ∧ j ≤ dist cells.length start z

namespace Repairing

variable {home : α → Nat} {cells : List (Option α)} {start hole j i : Nat}

theorem hole_lt (walk : Repairing home cells start hole j) : hole < cells.length :=
  (List.getElem?_eq_some_iff.mp walk.free).1

/-- Freeing a cell of a table that is not full, or that has at most two cells. -/
theorem begin_ (reachable : Reachable home cells) (home_lt : ∀ x, home x < cells.length)
    (inside : start < cells.length)
    (other : cells.length ≤ 2 ∨ ∃ z : Nat, cells[z]? = some none ∧ z ≠ start) :
    Repairing home (cells.set start none) start start 1 := by
  have later : ∀ p, p < cells.length → p ≠ start → 1 ≤ dist cells.length start p := by
    intro p inside' apart
    unfold dist
    grind
  constructor
  · simpa using inside
  · simpa using home_lt
  · simp [inside]
  · simp [dist]
  · intro p x there q inside' near free
    rw [List.length_set] at inside' near ⊢
    have ways := reachable p x
    have := later p
    grind
  · rw [List.length_set]
    refine other.imp_right ?_
    rintro ⟨z, free, apart⟩
    refine ⟨z, by rwa [List.getElem?_set_ne (Ne.symm apart)], apart, ?_⟩
    exact later z (List.getElem?_eq_some_iff.mp free).1 apart

/-- An element that does not have the hole on its way stays. -/
theorem stay (walk : Repairing home cells start hole j) {o : α} (there : cells[i]? = some (some o))
    (here : dist cells.length start i = j)
    (off : ¬dist cells.length (home o) hole < dist cells.length (home o) i) :
    Repairing home cells start hole (j + 1) := by
  have inside : i < cells.length := (List.getElem?_eq_some_iff.mp there).1
  refine { walk with passed := Nat.lt_succ_of_lt walk.passed, way := ?_, other := ?_ }
  · intro p x there' q inside' near free
    obtain ⟨rfl, ahead⟩ := walk.way p x there' q inside' near free
    refine ⟨rfl, Nat.lt_of_le_of_ne ahead ?_⟩
    intro same
    have inside'' : p < cells.length := (List.getElem?_eq_some_iff.mp there').1
    obtain rfl := dist_inj walk.start_lt inside inside'' (here.trans same)
    obtain rfl : o = x := by grind
    have equal := Nat.le_antisymm near (Nat.le_of_not_lt off)
    obtain rfl := dist_inj (walk.home_lt o) inside' inside equal
    simp [free] at there
  · refine walk.other.imp_right ?_
    rintro ⟨z, free, apart, ahead⟩
    refine ⟨z, free, apart, Nat.lt_of_le_of_ne ahead ?_⟩
    intro same
    have inside' : z < cells.length := (List.getElem?_eq_some_iff.mp free).1
    obtain rfl := dist_inj walk.start_lt inside inside' (here.trans same)
    simp [free] at there

/-- An element that has the hole on its way moves there. -/
theorem move (walk : Repairing home cells start hole j) {o : α} (there : cells[i]? = some (some o))
    (here : dist cells.length start i = j)
    (on : dist cells.length (home o) hole < dist cells.length (home o) i) :
    Repairing home ((cells.set hole (some o)).set i none) start i (j + 1) := by
  have inside : i < cells.length := (List.getElem?_eq_some_iff.mp there).1
  have hole_lt := walk.hole_lt
  have apart : hole ≠ i := by
    rintro rfl
    simp [walk.free] at there
  -- The cells that are free after the move, apart from the new hole, were free before.
  have still : ∀ q, q ≠ i → ((cells.set hole (some o)).set i none)[q]? = some none →
      q ≠ hole ∧ cells[q]? = some none := by
    intro q other free
    grind
  have stored : ∀ p x, ((cells.set hole (some o)).set i none)[p]? = some (some x) →
      (p = hole ∧ x = o) ∨ (cells[p]? = some (some x) ∧ p ≠ hole ∧ p ≠ i) := by
    intro p x there'
    grind
  constructor
  · simpa using walk.start_lt
  · simpa using walk.home_lt
  · simp [inside]
  · simp only [List.length_set]
    omega
  · intro p x there' q inside' near free
    simp only [List.length_set] at inside' near ⊢
    rcases stored p x there' with ⟨rfl, rfl⟩ | ⟨standing, notHole, notHere⟩
    · -- The moved element: what is on its way now was on its way before.
      by_cases new : q = i
      · exact absurd (new ▸ near) (Nat.not_le.mpr on)
      · obtain ⟨apart', free'⟩ := still q new free
        have before := Nat.le_of_lt (Nat.lt_of_le_of_lt near on)
        exact absurd (walk.way i x there q inside' before free').1 apart'
    · by_cases new : q = i
      · subst new
        refine ⟨rfl, Nat.lt_of_not_le fun behind => ?_⟩
        have inside'' : p < cells.length := (List.getElem?_eq_some_iff.mp standing).1
        have earlier : dist cells.length start p < dist cells.length start q :=
          Nat.lt_of_le_of_ne (here ▸ behind) fun same =>
            notHere (dist_inj walk.start_lt inside'' inside same)
        rcases walk.other with small | ⟨z, free', apart', ahead⟩
        · omega
        · have insideZ : z < cells.length := (List.getElem?_eq_some_iff.mp free').1
          have later : dist cells.length start q < dist cells.length start z := by
            refine Nat.lt_of_le_of_ne (here ▸ ahead) fun same => ?_
            obtain rfl := dist_inj walk.start_lt inside insideZ same
            simp [there] at free'
          have around := dist_around walk.start_lt (walk.home_lt x) inside'' inside insideZ
            earlier later near
          exact apart' (walk.way p x standing z insideZ around free').1
      · obtain ⟨apart', free'⟩ := still q new free
        exact absurd (walk.way p x standing q inside' near free').1 apart'
  · simp only [List.length_set]
    refine walk.other.imp_right ?_
    rintro ⟨z, free, apart', ahead⟩
    have other : z ≠ i := by
      rintro rfl
      simp [free] at there
    refine ⟨z, by grind, other, ?_⟩
    have inside' : z < cells.length := (List.getElem?_eq_some_iff.mp free).1
    refine Nat.lt_of_le_of_ne ahead fun same => other ?_
    exact dist_inj walk.start_lt inside' inside (same.symm.trans here.symm)

/-- At a free cell the table is repaired. -/
theorem stop (walk : Repairing home cells start hole j) (free : cells[i]? = some none)
    (here : dist cells.length start i = j) : Reachable home cells := by
  intro p x there q inside near free'
  obtain ⟨rfl, ahead⟩ := walk.way p x there q inside near free'
  have inside' : i < cells.length := (List.getElem?_eq_some_iff.mp free).1
  have inside'' : p < cells.length := (List.getElem?_eq_some_iff.mp there).1
  have beyond : dist cells.length start i < dist cells.length start p := by
    refine here ▸ Nat.lt_of_le_of_ne ahead fun same => ?_
    obtain rfl := dist_inj walk.start_lt inside' inside'' (here.trans same)
    simp [free] at there
  have onWay := dist_between walk.start_lt (walk.home_lt x) inside inside' inside''
    (here ▸ walk.passed) beyond near
  obtain ⟨rfl, -⟩ := walk.way p x there i inside' onWay free
  exact Nat.lt_irrefl _ (here ▸ walk.passed)

/-- All around the table it is repaired. -/
theorem around (walk : Repairing home cells start hole j) (done : cells.length ≤ j) :
    Reachable home cells := by
  intro p x there q inside near free
  obtain ⟨rfl, ahead⟩ := walk.way p x there q inside near free
  have inside' : p < cells.length := (List.getElem?_eq_some_iff.mp there).1
  exact absurd (dist_lt walk.start_lt inside') (Nat.not_lt.mpr (Nat.le_trans done ahead))

end Repairing

end LinearProbing
