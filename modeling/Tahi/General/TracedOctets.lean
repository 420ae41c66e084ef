import Tahi.General.TracedMemory

/-! # Rows of octets, written by programs over octet memory

A generator seldom writes its octets from the front to the back: a length goes in front of what
it counts, and a default is written again. `Lays` says what a program has written as a whole,
and that it has touched just the octets of the row. It has a rule for each order.
-/

namespace TracedMemory

open BitField

/-- The memory with a row of octets from `a` on. -/
@[grind =]
def lay (m : Memory) (a : Int) (xs : List Octet) : Memory := fun x =>
  if a ≤ x then (xs[(x - a).toNat]?).getD (m x) else m x

section Lay

variable (m : Memory) (a : Int) (xs ys : List Octet)

@[simp] theorem lay_nil : lay m a [] = m := by
  funext x
  simp [lay]

theorem lay_single (o : Octet) : lay m a [o] = Function.update m a o := by
  funext x
  by_cases at_a : x = a
  · subst at_a
    simp [lay]
  · rw [Function.update_of_ne at_a, lay]
    split
    · rw [List.getElem?_eq_none (show [o].length ≤ _ by simp; omega), Option.getD_none]
    · rfl

/-- An octet of the row. -/
theorem lay_at {i : Nat} {x : Octet} (at_i : xs[i]? = some x) : lay m a xs (a + i) = x := by
  have place : (a + i - a).toNat = i := by omega
  rw [lay, if_pos (by omega), place, at_i, Option.getD_some]

theorem lay_outside {x : Int} (outside : x < a ∨ a + xs.length ≤ x) : lay m a xs x = m x := by
  rw [lay]
  split
  · rw [List.getElem?_eq_none (by omega), Option.getD_none]
  · rfl

theorem lay_inside {x : Int} (from_ : a ≤ x) (to_ : x < a + xs.length) :
    some (lay m a xs x) = xs[(x - a).toNat]? := by
  have inside : (x - a).toNat < xs.length := by omega
  rw [lay, if_pos from_, List.getElem?_eq_getElem inside, Option.getD_some]

/-- A row in two parts, whichever of them is written first. -/
theorem lay_append : lay (lay m a xs) (a + xs.length) ys = lay m a (xs ++ ys) := by
  funext x
  by_cases first : x < a + xs.length
  · rw [lay_outside _ _ _ (.inl first)]
    by_cases from_ : a ≤ x
    · apply Option.some.inj
      rw [lay_inside _ _ _ from_ first, lay_inside _ _ _ from_ (by simp; omega),
        List.getElem?_append_left (by omega)]
    · rw [lay_outside _ _ _ (.inl (by omega)), lay_outside _ _ _ (.inl (by omega))]
  · by_cases second : x < a + xs.length + ys.length
    · apply Option.some.inj
      rw [lay_inside _ _ _ (by omega) second, lay_inside _ _ _ (by omega) (by simp; omega),
        List.getElem?_append_right (by omega)]
      congr 1
      omega
    · rw [lay_outside _ _ _ (.inr (by omega)), lay_outside _ _ _ (.inr (by omega)),
        lay_outside _ _ _ (.inr (by simp; omega))]

theorem lay_front : lay (lay m (a + ys.length) xs) a ys = lay m a (ys ++ xs) := by
  rw [← lay_append]
  funext x
  by_cases first : a ≤ x ∧ x < a + ys.length
  · rw [lay_outside (lay m a ys) _ _ (.inl first.2)]
    apply Option.some.inj
    rw [lay_inside _ _ _ first.1 first.2, lay_inside _ _ _ first.1 first.2]
  · rw [lay_outside (lay m (a + ys.length) xs) _ _ (by omega)]
    by_cases second : a + ys.length ≤ x ∧ x < a + ys.length + xs.length
    · apply Option.some.inj
      rw [lay_inside _ _ _ second.1 second.2, lay_inside _ _ _ second.1 second.2]
    · rw [lay_outside _ _ _ (by omega), lay_outside _ _ _ (by omega),
        lay_outside _ _ _ (by omega)]

/-- What is written again is lost. -/
theorem lay_again (whole : xs.length ≤ ys.length) : lay (lay m a xs) a ys = lay m a ys := by
  funext x
  by_cases inside : a ≤ x ∧ x < a + ys.length
  · apply Option.some.inj
    rw [lay_inside _ _ _ inside.1 inside.2, lay_inside _ _ _ inside.1 inside.2]
  · rw [lay_outside _ _ _ (by omega), lay_outside _ _ _ (by omega), lay_outside _ _ _ (by omega)]

/-- What is written again inside a row takes the place of what was there. -/
theorem lay_within (us vs : List Octet) (same : ys.length = xs.length) :
    lay (lay m a (us ++ xs ++ vs)) (a + us.length) ys = lay m a (us ++ ys ++ vs) := by
  rw [List.append_assoc, List.append_assoc, ← lay_append m a us, ← lay_append m a us,
    ← lay_front _ _ vs xs, lay_again _ _ _ _ (Nat.le_of_eq same.symm), ← same, lay_front]

end Lay

/-- From every state the program ends without an abort, returns `r`, has laid `xs` down from `a`
    on and changed nothing else, and has touched just the octets of that row. -/
def Lays {α : Type} (prog : Access α) (r : α) (a : Int) (xs : List Octet) : Prop :=
  ∀ s : State, ∃ ts, prog s = some (r, ⟨lay s.cell a xs, s.touched ++ ts⟩) ∧
    ∀ x, x ∈ ts ↔ a ≤ x ∧ x < a + xs.length

theorem Lays.nothing {α : Type} (r : α) (a : Int) : Lays (pure r) r a [] := by
  intro s
  refine ⟨[], ?_, fun x => ?_⟩
  · rw [lay_nil, List.append_nil]
    rfl
  · simp only [List.not_mem_nil, List.length_nil, false_iff]
    omega

theorem store_lays (a : Int) (o : Octet) : Lays (store a o) () a [o] := by
  intro s
  refine ⟨[a], ?_, fun x => ?_⟩
  · rw [lay_single]
    rfl
  · simp only [List.mem_singleton, List.length_singleton]
    omega

/-- An octet is stored and then changed where it stands. -/
theorem store_change_lays (a : Int) (o : Octet) (change : Octet → Octet) :
    Lays (store a o >>= fun _ => load a >>= fun p => store a (change p)) () a [change o] := by
  intro s
  refine ⟨[a, a, a], ?_, fun x => ?_⟩
  · change some ((), State.mk (Function.update (Function.update s.cell a o) a
        (change (Function.update s.cell a o a))) (((s.touched ++ [a]) ++ [a]) ++ [a])) = _
    rw [Function.update_self, Function.update_idem, lay_single, List.append_assoc,
      List.append_assoc]
    rfl
  · simp only [List.mem_cons, List.not_mem_nil, or_false, or_self, List.length_singleton]
    omega

section Sequence

variable {α β : Type} {first : Access α} {second : α → Access β} {r : α} {q : β}
  {a b c : Int} {xs ys zs : List Octet}

/-- Two rows that make up a third one. -/
theorem Lays.bind (h₁ : Lays first r a xs) (h₂ : Lays (second r) q b ys)
    (same : ∀ m, lay (lay m a xs) b ys = lay m c zs)
    (reach : ∀ x, (a ≤ x ∧ x < a + xs.length) ∨ (b ≤ x ∧ x < b + ys.length) ↔
      c ≤ x ∧ x < c + zs.length) :
    Lays (first >>= second) q c zs := by
  intro s
  obtain ⟨ts₁, run₁, reach₁⟩ := h₁ s
  obtain ⟨ts₂, run₂, reach₂⟩ := h₂ ⟨lay s.cell a xs, s.touched ++ ts₁⟩
  refine ⟨ts₁ ++ ts₂, ?_, ?_⟩
  · change (first s).bind (fun t => second t.1 t.2) = _
    rw [run₁, Option.bind_some, run₂, same, List.append_assoc]
  · intro x
    rw [List.mem_append, reach₁, reach₂, reach]

/-- The second row follows on the first. -/
theorem Lays.behind (h₁ : Lays first r a xs) (h₂ : Lays (second r) q (a + xs.length) ys) :
    Lays (first >>= second) q a (xs ++ ys) := by
  apply h₁.bind h₂ fun m => lay_append m a xs ys
  intro x
  rw [List.length_append]
  omega

/-- The second row goes in front of the first. -/
theorem Lays.front (h₁ : Lays first r (a + ys.length) xs) (h₂ : Lays (second r) q a ys) :
    Lays (first >>= second) q a (ys ++ xs) := by
  apply h₁.bind h₂ fun m => lay_front m a xs ys
  intro x
  rw [List.length_append]
  omega

/-- The second row takes the place of the first. -/
theorem Lays.again (h₁ : Lays first r a xs) (h₂ : Lays (second r) q a ys)
    (whole : xs.length ≤ ys.length) : Lays (first >>= second) q a ys := by
  apply h₁.bind h₂ fun m => lay_again m a xs ys whole
  intro x
  omega

/-- The second row takes the place of a part of the first. -/
theorem Lays.within {us vs : List Octet} (h₁ : Lays first r a (us ++ xs ++ vs))
    (h₂ : Lays (second r) q (a + us.length) ys) (same : ys.length = xs.length) :
    Lays (first >>= second) q a (us ++ ys ++ vs) := by
  apply h₁.bind h₂ fun m => lay_within m a xs ys us vs same
  intro x
  simp only [List.length_append]
  omega

theorem Lays.yield (h : Lays first r a xs) (x : β) :
    Lays (first >>= fun _ => pure x) x a xs := by
  have whole := @Lays.behind α β first (fun _ => pure x) r x a xs [] h (Lays.nothing x _)
  rwa [List.append_nil] at whole

end Sequence

end TracedMemory
