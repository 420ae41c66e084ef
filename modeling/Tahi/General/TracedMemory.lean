import Tahi.General.BitField

/-! # Programs over octet memory, with the addresses they use

A program loads and stores octets and may abort. Its state keeps every address
it used, in order, so that one run answers both questions asked of a codec: what
the memory holds afterwards, and which addresses were touched on the way.
`Stores` and `Loads` are the two specifications, each with its rule of sequence.
-/

namespace TracedMemory

open BitField

structure State where
  cell : Memory
  touched : List Int

/-- A program over the traced memory. `none` is an abort. -/
abbrev Access (α : Type) := StateT State Option α

def load (a : Int) : Access Octet := fun s => some (s.cell a, { s with touched := s.touched ++ [a] })

def store (a : Int) (o : Octet) : Access Unit := fun s =>
  some ((), { cell := Function.update s.cell a o, touched := s.touched ++ [a] })

def abort {α : Type} : Access α := fun _ => none

/-- From every state the program ends without an abort, has stored the low `w`
    bits of `v` at bit `p` and nothing else, and has touched exactly `reach`. -/
def Stores (prog : Access Unit) (p : Int) (w v : Nat) (reach : Int → Prop) : Prop :=
  ∀ s : State, ∃ m ts, prog s = some ((), ⟨m, s.touched ++ ts⟩) ∧
    Writes s.cell m p w v ∧ ∀ a, a ∈ ts ↔ reach a

/-- From every state the program ends without an abort, returns a function of the
    memory, leaves the memory as it was, and has touched exactly `reach`. -/
def Loads {α : Type} (prog : Access α) (result : Memory → α) (reach : Int → Prop) : Prop :=
  ∀ s : State, ∃ ts, prog s = some (result s.cell, ⟨s.cell, s.touched ++ ts⟩) ∧
    ∀ a, a ∈ ts ↔ reach a

theorem Stores.nothing (p : Int) (v : Nat) : Stores (pure ()) p 0 v (fun _ => False) := by
  intro s
  refine ⟨s.cell, [], ?_, Writes.empty s.cell p v, by simp⟩
  simp only [List.append_nil]
  rfl

/-- Storing the high part and then the low part of a field. -/
theorem Stores.seq {first second : Access Unit} {p : Int} {a b v : Nat} {r₁ r₂ : Int → Prop}
    (high : Stores first p a (v / 2 ^ b) r₁) (low : Stores second (p + a) b v r₂) :
    Stores (first >>= fun _ => second) p (a + b) v (fun x => r₁ x ∨ r₂ x) := by
  intro s
  obtain ⟨m₁, ts₁, run₁, writes₁, reach₁⟩ := high s
  obtain ⟨m₂, ts₂, run₂, writes₂, reach₂⟩ := low ⟨m₁, s.touched ++ ts₁⟩
  refine ⟨m₂, ts₁ ++ ts₂, ?_, writes₁.append writes₂, ?_⟩
  · change (first s).bind (fun r => second r.2) = _
    rw [run₁, Option.bind_some, run₂, List.append_assoc]
  · intro x
    rw [List.mem_append, reach₁, reach₂]

theorem Stores.congr {prog : Access Unit} {p q : Int} {w u v : Nat} {r₁ r₂ : Int → Prop}
    (h : Stores prog p w v r₁) (position : p = q) (same : v % 2 ^ w = u % 2 ^ w)
    (reach : ∀ x, r₁ x ↔ r₂ x) : Stores prog q w u r₂ := by
  subst position
  intro s
  obtain ⟨m, ts, run, writes, touched⟩ := h s
  exact ⟨m, ts, run, writes.congr same, fun x => (touched x).trans (reach x)⟩

theorem Loads.pure {α : Type} (x : α) : Loads (pure x) (fun _ => x) (fun _ => False) := by
  intro s
  refine ⟨[], ?_, by simp⟩
  simp only [List.append_nil]
  rfl

theorem Loads.bind {α β : Type} {first : Access α} {second : α → Access β}
    {f : Memory → α} {g : α → Memory → β} {r₁ : Int → Prop} {r₂ : Int → Prop}
    (h₁ : Loads first f r₁) (h₂ : ∀ x, Loads (second x) (g x) r₂) :
    Loads (first >>= second) (fun m => g (f m) m) (fun x => r₁ x ∨ r₂ x) := by
  intro s
  obtain ⟨ts₁, run₁, reach₁⟩ := h₁ s
  obtain ⟨ts₂, run₂, reach₂⟩ := h₂ (f s.cell) ⟨s.cell, s.touched ++ ts₁⟩
  refine ⟨ts₁ ++ ts₂, ?_, ?_⟩
  · change (first s).bind (fun r => second r.1 r.2) = _
    rw [run₁, Option.bind_some, run₂, List.append_assoc]
  · intro x
    rw [List.mem_append, reach₁, reach₂]

theorem Loads.congr {α : Type} {prog : Access α} {f g : Memory → α} {r₁ r₂ : Int → Prop}
    (h : Loads prog f r₁) (same : ∀ m, f m = g m) (reach : ∀ x, r₁ x ↔ r₂ x) :
    Loads prog g r₂ := by
  intro s
  obtain ⟨ts, run, touched⟩ := h s
  exact ⟨ts, by rw [run, same], fun x => (touched x).trans (reach x)⟩

theorem store_stores (a : Int) (o : Octet) :
    Stores (store a o) (8 * a) 8 o.toNat (fun x => x = a) := by
  intro s
  exact ⟨_, [a], rfl, writes_octet s.cell a o, by simp⟩

theorem load_loads (a : Int) : Loads (load a) (fun m => m a) (fun x => x = a) := by
  intro s
  exact ⟨[a], rfl, by simp⟩

/-- Load an octet, change it, and store it back. -/
theorem loadStore_stores {a : Int} {b w v : Nat} (change : Octet → Octet) (fits : b + w ≤ 8)
    (bits : ∀ d : Octet, ∀ j < 8, (change d).getMsbD j =
      if b ≤ j ∧ j < b + w then v.testBit (b + w - 1 - j) else d.getMsbD j) :
    Stores (load a >>= fun d => store a (change d)) (8 * a + b) w v (fun x => x = a) := by
  intro s
  refine ⟨Function.update s.cell a (change (s.cell a)), [a, a], ?_,
    writes_inOctet fits (bits (s.cell a)), by simp⟩
  change some ((), State.mk _ ((s.touched ++ [a]) ++ [a])) = _
  rw [List.append_assoc]
  rfl

/-- `Stores`, for those who do not ask which addresses are touched. -/
def Puts (prog : Access Unit) (p : Int) (w v : Nat) : Prop := ∃ reach, Stores prog p w v reach

theorem Stores.puts {prog : Access Unit} {p : Int} {w v : Nat} {reach : Int → Prop}
    (h : Stores prog p w v reach) : Puts prog p w v := ⟨reach, h⟩

theorem Puts.seq {first second : Access Unit} {p : Int} {a b v : Nat}
    (high : Puts first p a (v / 2 ^ b)) (low : Puts second (p + a) b v) :
    Puts (first >>= fun _ => second) p (a + b) v := by
  obtain ⟨_, firstStores⟩ := high
  obtain ⟨_, secondStores⟩ := low
  exact (firstStores.seq secondStores).puts

/-- The memory that a program leaves. -/
def finalMemory (prog : Access Unit) (m : Memory) : Option Memory :=
  (prog ⟨m, []⟩).map fun r => r.2.cell

theorem Puts.finalMemory {prog : Access Unit} {p : Int} {w v : Nat} (h : Puts prog p w v)
    (m : Memory) : ∃ m', finalMemory prog m = some m' ∧ Writes m m' p w v := by
  obtain ⟨_, stores⟩ := h
  obtain ⟨m', ts, run, writes, -⟩ := stores ⟨m, []⟩
  exact ⟨m', by rw [TracedMemory.finalMemory, run]; rfl, writes⟩

/-- From the memory `m` the program ends without an abort, with `x` and `m'`. -/
def Runs {α : Type} (prog : Access α) (m : Memory) (x : α) (m' : Memory) : Prop :=
  ∀ ts, ∃ ts', prog ⟨m, ts⟩ = some (x, ⟨m', ts'⟩)

theorem Runs.pure {α : Type} (x : α) (m : Memory) : Runs (pure x) m x m := fun ts => ⟨ts, rfl⟩

theorem Runs.unique {α : Type} {prog : Access α} {m m₁ m₂ : Memory} {x y : α}
    (h₁ : Runs prog m x m₁) (h₂ : Runs prog m y m₂) : x = y ∧ m₁ = m₂ := by
  obtain ⟨ts₁, run₁⟩ := h₁ []
  obtain ⟨ts₂, run₂⟩ := h₂ []
  have same := Option.some.inj (run₁.symm.trans run₂)
  exact ⟨congrArg Prod.fst same, congrArg (fun r => r.2.cell) same⟩

theorem Runs.bind {α β : Type} {first : Access α} {second : α → Access β} {m₁ m₂ m₃ : Memory}
    {x : α} {y : β} (h₁ : Runs first m₁ x m₂) (h₂ : Runs (second x) m₂ y m₃) :
    Runs (first >>= second) m₁ y m₃ := by
  intro ts
  obtain ⟨ts₁, run₁⟩ := h₁ ts
  obtain ⟨ts₂, run₂⟩ := h₂ ts₁
  refine ⟨ts₂, ?_⟩
  change (first ⟨m₁, ts⟩).bind (fun r => second r.1 r.2) = _
  rw [run₁, Option.bind_some, run₂]

theorem Runs.yield {α : Type} {prog : Access Unit} {m m' : Memory} (h : Runs prog m () m')
    (x : α) : Runs (prog >>= fun _ => Pure.pure x) m x m' :=
  h.bind (Runs.pure x m')

theorem Puts.runs {prog : Access Unit} {p : Int} {w v : Nat} (h : Puts prog p w v) (m : Memory) :
    Runs prog m () (put m p w v) := by
  intro ts
  obtain ⟨_, stores⟩ := h
  obtain ⟨m', ts', run, writes, -⟩ := stores ⟨m, ts⟩
  rw [writes.unique (writes_put m p w v)] at run
  exact ⟨_, run⟩

theorem Loads.runs {α : Type} {prog : Access α} {f : Memory → α} {reach : Int → Prop}
    (h : Loads prog f reach) (m : Memory) : Runs prog m (f m) m := by
  intro ts
  obtain ⟨ts', run, -⟩ := h ⟨m, ts⟩
  exact ⟨_, run⟩

/-- From every memory the program ends without an abort and touches only the
    octets of a buffer of `n`. -/
def Confined {α : Type} (prog : Access α) (n : Nat) : Prop :=
  ∀ m, ∃ x s, prog ⟨m, []⟩ = some (x, s) ∧ ∀ a ∈ s.touched, 0 ≤ a ∧ a < n

theorem Stores.confined_iff {prog : Access Unit} {p : Int} {w v n : Nat} {reach : Int → Prop}
    (h : Stores prog p w v reach) : Confined prog n ↔ ∀ a, reach a → 0 ≤ a ∧ a < n := by
  constructor
  · intro confined a reached
    obtain ⟨m, ts, run, -, touched⟩ := h ⟨fun _ => 0, []⟩
    obtain ⟨x, s, run', inside⟩ := confined fun _ => 0
    obtain ⟨-, rfl⟩ := Prod.mk.inj (Option.some.inj (run.symm.trans run'))
    exact inside a (List.mem_append_right _ ((touched a).mpr reached))
  · intro inside m
    obtain ⟨m', ts, run, -, touched⟩ := h ⟨m, []⟩
    exact ⟨(), _, run, fun a mem => inside a ((touched a).mp (by simpa using mem))⟩

theorem Loads.confined_iff {α : Type} {prog : Access α} {f : Memory → α} {n : Nat}
    {reach : Int → Prop} (h : Loads prog f reach) :
    Confined prog n ↔ ∀ a, reach a → 0 ≤ a ∧ a < n := by
  constructor
  · intro confined a reached
    obtain ⟨ts, run, touched⟩ := h ⟨fun _ => 0, []⟩
    obtain ⟨x, s, run', inside⟩ := confined fun _ => 0
    obtain ⟨-, rfl⟩ := Prod.mk.inj (Option.some.inj (run.symm.trans run'))
    exact inside a (List.mem_append_right _ ((touched a).mpr reached))
  · intro inside m
    obtain ⟨ts, run, touched⟩ := h ⟨m, []⟩
    exact ⟨_, _, run, fun a mem => inside a ((touched a).mp (by simpa using mem))⟩

end TracedMemory
