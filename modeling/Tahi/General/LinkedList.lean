import Mathlib.Data.List.Nodup
import Mathlib.Data.List.Perm.Subperm

/-! # Singly linked lists in a heap

A heap of nodes that are allocated, read, written and freed, and lists of nodes that are
chained through their next pointers. An access to a node that has been freed is an
error. The rules say what a search, an append, an unlinking and a change of one node do
to the list that starts at a pointer.
-/

namespace LinkedList

structure Node (α : Type) where
  data : α
  next : Option Nat
deriving DecidableEq, Repr

/-- The nodes that were ever allocated. `none` has been freed. -/
abbrev Heap (α : Type) := List (Option (Node α))

namespace Heap

variable {α : Type}

@[grind =]
def read (h : Heap α) (p : Nat) : Option (Node α) := (h[p]?).join

@[grind =]
def malloc (h : Heap α) (node : Node α) : Heap α := h ++ [some node]

def write (h : Heap α) (p : Nat) (node : Node α) : Option (Heap α) :=
  match h.read p with
  | none => none
  | some _ => some (h.set p (some node))

def free (h : Heap α) (p : Nat) : Option (Heap α) :=
  match h.read p with
  | none => none
  | some _ => some (h.set p none)

/-- `node` at the end of the list, with a pointer to its last node at hand. -/
def append (h : Heap α) (start last : Option Nat) (x : α) :
    Option (Heap α × Option Nat × Option Nat) :=
  let new := h.length
  let h := h.malloc ⟨x, none⟩
  match start, last with
  | none, _ => some (h, some new, some new)
  | some _, none => none
  | some start, some last =>
      match h.read last with
      | none => none
      | some node => (h.write last { node with next := some new }).map (·, some start, some new)

/-- The node behind `prev` gets out of the list, or the first when there is no `prev`. -/
def unlink (h : Heap α) (start prev next : Option Nat) : Option (Heap α × Option Nat) :=
  match prev with
  | none => some (h, next)
  | some prev =>
      match h.read prev with
      | none => none
      | some node => (h.write prev { node with next := next }).map (·, start)

/-- From one node to the next until the test holds. It returns the node and the one
    before. A list that has more nodes than the heap does not end. -/
def scan {σ : Type} (h : Heap α) (test : σ → α → σ × Bool) :
    Nat → σ → Option Nat → Nat → Option (σ × Option (Option Nat × Nat × Node α))
  | 0, _, _, _ => none
  | fuel + 1, s, prev, current =>
      match h.read current with
      | none => none
      | some node =>
          match test s node.data with
          | (s, true) => some (s, some (prev, current, node))
          | (s, false) =>
              match node.next with
              | none => some (s, none)
              | some next => scan h test fuel s (some current) next

/-- The first node from `start` on whose data has a property. -/
def find (h : Heap α) (p : α → Bool) (start : Nat) : Option (Option (Option Nat × Nat × Node α)) :=
  (h.scan (fun _ x => ((), p x)) h.length () none start).map Prod.snd

/-- Every node from `current` on is freed. -/
def freeAll (h : Heap α) : Nat → Nat → Option (Heap α)
  | 0, _ => none
  | fuel + 1, current =>
      match h.read current with
      | none => none
      | some node =>
          match h.free current, node.next with
          | none, _ => none
          | some h, none => some h
          | some h, some next => freeAll h fuel next

/-- The nodes from `p` on, with their addresses. -/
def walk (h : Heap α) : Nat → Option Nat → Option (List (Nat × α))
  | _, none => some []
  | 0, some _ => none
  | fuel + 1, some p =>
      match h.read p with
      | none => none
      | some node => (h.walk fuel node.next).map ((p, node.data) :: ·)

section Read

variable {h h' : Heap α} {p q : Nat} {node : Node α}

theorem lt_length (found : h.read p = some node) : p < h.length := by
  rw [read, Option.join_eq_some_iff] at found
  exact (List.getElem?_eq_some_iff.mp found).1

theorem write_of_read (found : h.read p = some node) (node' : Node α) :
    h.write p node' = some (h.set p (some node')) := by
  simp only [write, found]

theorem free_of_read (found : h.read p = some node) : h.free p = some (h.set p none) := by
  simp only [free, found]

theorem length_malloc : (h.malloc node).length = h.length + 1 := by
  simp [malloc]

theorem length_write (written : h.write p node = some h') : h'.length = h.length := by
  unfold write at written
  split at written
  · cases written
  · cases written
    exact List.length_set

theorem length_free (freed : h.free p = some h') : h'.length = h.length := by
  unfold free at freed
  split at freed
  · cases freed
  · cases freed
    exact List.length_set

theorem length_unlink {start start' prev next : Option Nat}
    (unlinked : h.unlink start prev next = some (h', start')) : h'.length = h.length := by
  unfold unlink at unlinked
  split at unlinked
  · cases unlinked
    rfl
  · split at unlinked
    · cases unlinked
    · obtain ⟨written, found, same⟩ := Option.map_eq_some_iff.mp unlinked
      cases same
      exact length_write found

@[simp] theorem read_set (inside : p < h.length) (cell : Option (Node α)) :
    Heap.read (h.set p cell) p = cell := by
  simp [read, inside]

theorem read_set_of_ne (other : p ≠ q) (cell : Option (Node α)) :
    Heap.read (h.set q cell) p = h.read p := by
  simp [read, List.getElem?_set_ne other.symm]

@[simp] theorem read_malloc_self : (h.malloc node).read h.length = some node := by
  simp [read, malloc]

theorem read_malloc (found : h.read p = some node) (new : Node α) :
    (h.malloc new).read p = some node := by
  rw [read, malloc, List.getElem?_append_left (lt_length found)]
  exact found

end Read

end Heap

/-! ## Segments -/

section Seg

variable {α : Type} {h h' : Heap α} {a : Nat} {x y : α} {p q : Option Nat}
variable {cells before after : List (Nat × α)}

/-- The nodes that are visited from `p` on, before `q`. -/
def Seg (h : Heap α) (p : Option Nat) : List (Nat × α) → Option Nat → Prop
  | [], q => p = q
  | (a, x) :: cells, q => p = some a ∧ ∃ next, h.read a = some ⟨x, next⟩ ∧ Seg h next cells q

/-- Where a segment starts that arrives at `q`. -/
def first (cells : List (Nat × α)) (q : Option Nat) : Option Nat :=
  match cells with
  | [] => q
  | (a, _) :: _ => some a

@[simp] theorem first_cons (a : Nat) (x : α) (cells : List (Nat × α)) (q : Option Nat) :
    first ((a, x) :: cells) q = some a := rfl

theorem Seg.start_eq (seg : Seg h p cells q) : p = first cells q := by
  cases cells with
  | nil => exact seg
  | cons cell cells => exact seg.1

theorem Seg.append (left : Seg h p before q) {r : Option Nat} (right : Seg h q after r) :
    Seg h p (before ++ after) r := by
  induction before generalizing p with
  | nil =>
      cases left
      exact right
  | cons cell before ih =>
      obtain ⟨start, next, found, rest⟩ := left
      exact ⟨start, next, found, ih rest⟩

theorem Seg.split {r : Option Nat} (seg : Seg h p (before ++ after) r) :
    ∃ q, Seg h p before q ∧ Seg h q after r := by
  induction before generalizing p with
  | nil => exact ⟨p, rfl, seg⟩
  | cons cell before ih =>
      obtain ⟨start, next, found, rest⟩ := seg
      obtain ⟨q, left, right⟩ := ih rest
      exact ⟨q, ⟨start, next, found, left⟩, right⟩

theorem Seg.unique {cells' : List (Nat × α)} (seg : Seg h p cells none)
    (seg' : Seg h p cells' none) : cells = cells' := by
  induction cells generalizing p cells' with
  | nil =>
      cases seg
      cases cells' with
      | nil => rfl
      | cons cell cells' => cases seg'.1
  | cons cell cells ih =>
      obtain ⟨rfl, next, found, rest⟩ := seg
      cases cells' with
      | nil => cases seg'
      | cons cell' cells' =>
          obtain ⟨same, next', found', rest'⟩ := seg'
          rw [← Option.some.inj same, found, Option.some_inj, Node.mk.injEq] at found'
          obtain ⟨data, rfl⟩ := found'
          rw [ih rest rest', Prod.ext (Option.some.inj same) data]

/-- A segment depends on its own nodes only. -/
theorem Seg.congr (seg : Seg h p cells q)
    (same : ∀ a ∈ cells.map Prod.fst, h'.read a = h.read a) : Seg h' p cells q := by
  induction cells generalizing p with
  | nil => exact seg
  | cons cell cells ih =>
      obtain ⟨start, next, found, rest⟩ := seg
      refine ⟨start, next, ?_, ih rest fun a mem => same a (List.mem_cons_of_mem _ mem)⟩
      rw [same cell.1 (by simp), found]

theorem Seg.lt_length (seg : Seg h p cells q) (mem : a ∈ cells.map Prod.fst) : a < h.length := by
  induction cells generalizing p with
  | nil => simp at mem
  | cons cell cells ih =>
      obtain ⟨-, next, found, rest⟩ := seg
      rcases List.mem_cons.mp mem with rfl | behind
      · exact Heap.lt_length found
      · exact ih rest behind

theorem Seg.set (seg : Seg h p cells q) (outside : a ∉ cells.map Prod.fst)
    (cell : Option (Node α)) : Seg (h.set a cell) p cells q := by
  refine seg.congr fun b mem => Heap.read_set_of_ne ?_ cell
  rintro rfl
  exact outside mem

theorem Seg.malloc (seg : Seg h p cells q) (node : Node α) : Seg (h.malloc node) p cells q := by
  induction cells generalizing p with
  | nil => exact seg
  | cons cell cells ih =>
      obtain ⟨start, next, found, rest⟩ := seg
      exact ⟨start, next, Heap.read_malloc found node, ih rest⟩

end Seg

/-! ## Whole lists -/

/-- The list of the nodes from `start` on. -/
structure Linked {α : Type} (h : Heap α) (start : Option Nat) (cells : List (Nat × α)) : Prop where
  seg : Seg h start cells none
  nodup : (cells.map Prod.fst).Nodup

/-- The node at `a` has been freed. -/
def Freed {α : Type} (h : Heap α) (a : Nat) : Prop := h[a]? = some none

theorem Freed.read {α : Type} {h : Heap α} {a : Nat} (freed : Freed h a) : h.read a = none := by
  simp [Heap.read, show h[a]? = some none from freed]

theorem Freed.malloc {α : Type} {h : Heap α} {a : Nat} (freed : Freed h a) (node : Node α) :
    Freed (h.malloc node) a := by
  unfold Freed Heap.malloc at *
  grind

theorem Freed.set {α : Type} {h : Heap α} {a b : Nat} (freed : Freed h a) (other : a ≠ b)
    (cell : Option (Node α)) : Freed (h.set b cell) a := by
  unfold Freed at *
  rw [List.getElem?_set_ne other.symm, freed]

/-- To append behind a node that has been freed is an error. -/
theorem Freed.append {α : Type} {h : Heap α} {a b : Nat} (freed : Freed h a) (x : α) :
    h.append (some b) (some a) x = none := by
  simp only [Heap.append, (freed.malloc ⟨x, none⟩).read]

/-- The node in front of a segment, or `prev`. -/
@[grind =]
def lastOf {α : Type} (prev : Option Nat) (cells : List (Nat × α)) : Option Nat :=
  match cells.getLast? with
  | none => prev
  | some cell => some cell.1

theorem lastOf_cons {α : Type} (prev : Option Nat) (cell : Nat × α) (cells : List (Nat × α)) :
    lastOf prev (cell :: cells) = lastOf (some cell.1) cells := by
  cases cells with
  | nil => rfl
  | cons next cells => rfl

theorem lastOf_append {α : Type} (prev : Option Nat) (before after : List (Nat × α)) :
    lastOf prev (before ++ after) = lastOf (lastOf prev before) after := by
  rcases after.eq_nil_or_concat with rfl | ⟨after, cell, rfl⟩
  · simp [lastOf]
  · simp [lastOf, ← List.append_assoc]

/-- A segment that is not empty has a last node of its own. -/
theorem lastOf_of_ne_nil {α : Type} (prev : Option Nat) {cells : List (Nat × α)}
    (some_ : cells ≠ []) : ∃ a ∈ cells.map Prod.fst, lastOf prev cells = some a := by
  refine ⟨_, List.mem_map_of_mem (List.getLast_mem some_), ?_⟩
  simp only [lastOf, List.getLast?_eq_some_getLast some_]

theorem lastOf_congr {α : Type} (prev prev' : Option Nat) {cells : List (Nat × α)}
    (some_ : cells ≠ []) : lastOf prev cells = lastOf prev' cells := by
  simp only [lastOf, List.getLast?_eq_some_getLast some_]

@[simp] theorem lastOf_concat {α : Type} (prev : Option Nat) (cells : List (Nat × α))
    (cell : Nat × α) : lastOf prev (cells ++ [cell]) = some cell.1 := by
  simp [lastOf]

namespace Linked

variable {α : Type} {h h' : Heap α} {a : Nat} {x y : α} {start : Option Nat}
variable {cells before after : List (Nat × α)}

theorem start_eq (linked : Linked h start cells) : start = first cells none :=
  linked.seg.start_eq

theorem length_le (linked : Linked h start cells) : cells.length ≤ h.length := by
  have inside : cells.map Prod.fst ⊆ List.range h.length := by
    intro a mem
    exact List.mem_range.mpr (linked.seg.lt_length mem)
  simpa using (List.subperm_of_subset linked.nodup inside).length_le

theorem read (linked : Linked h start (before ++ (a, x) :: after)) :
    h.read a = some ⟨x, first after none⟩ := by
  obtain ⟨q, -, -, next, found, rest⟩ := linked.seg.split
  rw [found, rest.start_eq]

/-- A node gets new data and another tail behind it. -/
theorem relink (linked : Linked h start (before ++ (a, x) :: after)) {next : Option Nat}
    (tail : Seg h next cells none) (nodup : ((before ++ (a, y) :: cells).map Prod.fst).Nodup) :
    Linked (h.set a (some ⟨y, next⟩)) start (before ++ (a, y) :: cells) := by
  have inside := Heap.lt_length linked.read
  obtain ⟨q, left, same, -⟩ := linked.seg.split
  have outside := nodup
  rw [List.map_append, List.map_cons, List.nodup_middle, List.nodup_cons, List.mem_append,
    not_or] at outside
  refine ⟨(left.set outside.1.1 _).append ⟨same, next, Heap.read_set inside _, ?_⟩, nodup⟩
  exact tail.set outside.1.2 _

/-- The data of one node is changed. -/
theorem change (linked : Linked h start (before ++ (a, x) :: after)) (y : α) :
    Linked (h.set a (some ⟨y, first after none⟩)) start (before ++ (a, y) :: after) := by
  obtain ⟨q, -, -, next, -, rest⟩ := linked.seg.split
  rw [← rest.start_eq]
  exact linked.relink rest (by simpa using linked.nodup)

theorem malloc (linked : Linked h start cells) (node : Node α) :
    Linked (h.malloc node) start cells :=
  ⟨linked.seg.malloc node, linked.nodup⟩

theorem new_not_mem (linked : Linked h start cells) : h.length ∉ cells.map Prod.fst :=
  fun mem => absurd (linked.seg.lt_length mem) (Nat.lt_irrefl _)

/-- A node gets a new one behind it. -/
theorem insert (linked : Linked h start (before ++ (a, x) :: after)) (y : α) :
    ∃ h', (h.malloc ⟨y, first after none⟩).write a ⟨x, some h.length⟩ = some h' ∧
      Linked h' start (before ++ (a, x) :: (h.length, y) :: after) := by
  have grown := linked.malloc ⟨y, first after none⟩
  obtain ⟨q, -, -, next, -, rest⟩ := linked.seg.split
  have tail : Seg (h.malloc ⟨y, first after none⟩) (some h.length) ((h.length, y) :: after) none := by
    rw [← rest.start_eq]
    exact ⟨rfl, next, Heap.read_malloc_self, rest.malloc _⟩
  have nodup : ((before ++ (a, x) :: (h.length, y) :: after).map Prod.fst).Nodup := by
    have moved : (before ++ (a, x) :: (h.length, y) :: after).Perm
        ((h.length, y) :: (before ++ (a, x) :: after)) := by
      rw [List.append_cons]
      exact List.perm_middle.trans (by simp)
    rw [(moved.map Prod.fst).nodup_iff, List.map_cons, List.nodup_cons]
    exact ⟨linked.new_not_mem, linked.nodup⟩
  exact ⟨_, Heap.write_of_read grown.read _, grown.relink tail nodup⟩

/-- A new node in front of the list. -/
theorem prepend (linked : Linked h start cells) (y : α) :
    Linked (h.malloc ⟨y, start⟩) (some h.length) ((h.length, y) :: cells) := by
  refine ⟨⟨rfl, start, Heap.read_malloc_self, linked.seg.malloc _⟩, ?_⟩
  rw [List.map_cons, List.nodup_cons]
  exact ⟨linked.new_not_mem, linked.nodup⟩

/-- The last node gets a new one behind it. -/
theorem extend (linked : Linked h start (before ++ [(a, x)])) (y : α) :
    ∃ h', h.append start (some a) y = some (h', start, some h.length) ∧
      Linked h' start (before ++ [(a, x)] ++ [(h.length, y)]) := by
  have started := linked.start_eq
  obtain ⟨h', written, grown⟩ := linked.insert y
  have found := (linked.malloc ⟨y, none⟩).read
  refine ⟨h', ?_, by simpa using grown⟩
  cases start with
  | none => cases before <;> simp [first] at started
  | some start =>
      simp only [Heap.append, found]
      exact congrArg (Option.map (·, some start, some h.length)) written

theorem extend_nil (last : Option Nat) (linked : Linked h start []) (y : α) :
    ∃ h', h.append start last y = some (h', some h.length, some h.length) ∧
      Linked h' (some h.length) [(h.length, y)] := by
  cases linked.start_eq
  exact ⟨_, rfl, linked.prepend y⟩

/-- An append behind the last node. -/
theorem push (linked : Linked h start cells) {last : Option Nat}
    (tail : cells ≠ [] → last = lastOf none cells) (y : α) :
    ∃ h' start', h.append start last y = some (h', start', some h.length) ∧
      Linked h' start' (cells ++ [(h.length, y)]) := by
  rcases cells.eq_nil_or_concat with rfl | ⟨cells, ⟨a, x⟩, rfl⟩
  · obtain ⟨h', appended, linked'⟩ := linked.extend_nil last y
    exact ⟨h', _, appended, linked'⟩
  · rw [List.concat_eq_append] at linked tail ⊢
    obtain ⟨h', appended, linked'⟩ := linked.extend y
    rw [tail (by simp), lastOf_concat]
    exact ⟨h', _, appended, linked'⟩

theorem skip (linked : Linked h start (before ++ (a, x) :: after)) :
    ((before ++ after).map Prod.fst).Nodup :=
  linked.nodup.sublist (((List.sublist_cons_self _ _).append_left _).map _)

/-- A node gets out of the list and is freed. -/
theorem remove (linked : Linked h start (before ++ (a, x) :: after)) :
    ∃ h₁ start' h', h.unlink start (lastOf none before) (first after none) = some (h₁, start') ∧
      h₁.free a = some h' ∧ Linked h' start' (before ++ after) ∧ Freed h' a ∧
      ∀ b, Freed h b → Freed h' b := by
  have found := linked.read
  have inside := Heap.lt_length found
  have nodup := linked.skip
  obtain ⟨q, -, -, next, -, rest⟩ := linked.seg.split
  have outside := linked.nodup
  rw [List.map_append, List.map_cons, List.nodup_middle, List.nodup_cons, List.mem_append,
    not_or] at outside
  rcases before.eq_nil_or_concat with rfl | ⟨before, ⟨b, z⟩, rfl⟩
  · refine ⟨h, first after none, h.set a none, rfl, Heap.free_of_read found, ⟨?_, nodup⟩, ?_, ?_⟩
    · rw [← rest.start_eq]
      exact rest.set outside.1.2 none
    · simp [Freed, inside]
    · intro c freed
      unfold Freed at freed ⊢
      grind
  · simp only [List.concat_eq_append] at *
    rw [List.append_assoc, List.singleton_append] at linked nodup ⊢
    have front := linked.read
    have other : a ≠ b := by
      rintro rfl
      exact outside.1.1 (by simp)
    have relinked := linked.relink (y := z) rest nodup
    rw [rest.start_eq] at relinked
    have found' : Heap.read (h.set b (some ⟨z, first after none⟩)) a = some ⟨x, first after none⟩ := by
      rw [Heap.read_set_of_ne other, found]
    refine ⟨_, start, _, ?_, Heap.free_of_read found', ⟨?_, nodup⟩, ?_, ?_⟩
    · simp only [Heap.unlink, lastOf, List.getLast?_append, List.getLast?_singleton,
        Option.some_or, front, Heap.write_of_read front, Option.map_some]
    · exact relinked.seg.set (by simpa [and_assoc] using outside.1) none
    · simp [Freed, inside]
    · intro c freed
      have behind : c ≠ b := by
        rintro rfl
        rw [freed.read] at front
        cases front
      unfold Freed at freed ⊢
      grind

end Linked

/-- Walking along a list finds its nodes. -/
theorem Seg.walk {α : Type} {h : Heap α} {p : Option Nat} {cells : List (Nat × α)}
    (seg : Seg h p cells none) {fuel : Nat} (enough : cells.length ≤ fuel) :
    h.walk fuel p = some cells := by
  induction cells generalizing p fuel with
  | nil =>
      cases seg
      cases fuel <;> rfl
  | cons cell cells ih =>
      obtain ⟨rfl, next, found, rest⟩ := seg
      cases fuel with
      | zero => cases enough
      | succ fuel =>
          simp only [Heap.walk, found, ih rest (Nat.le_of_succ_le_succ enough), Option.map_some]

theorem Linked.walk {α : Type} {h : Heap α} {start : Option Nat} {cells : List (Nat × α)}
    (linked : Linked h start cells) : h.walk h.length start = some cells :=
  linked.seg.walk linked.length_le

/-! ## Searches -/

/-- Where the test first holds: what is before, the element and what is behind. -/
@[grind =]
def locate {σ α : Type} (test : σ → α → σ × Bool) (s : σ) : List α → σ × Option (List α × α × List α)
  | [] => (s, none)
  | x :: xs =>
      match test s x with
      | (s, true) => (s, some ([], x, xs))
      | (s, false) =>
          match locate test s xs with
          | (s, none) => (s, none)
          | (s, some (before, y, after)) => (s, some (x :: before, y, after))

section Locate

variable {σ α : Type} {test : σ → α → σ × Bool} {p : α → Bool} {s : σ}
variable {x : α} {xs before after : List α}

/-- Where the answer of the test does not depend on the state, the element is the first
    that has the property. -/
theorem find?_eq_locate (same : ∀ s x, (test s x).2 = p x) (s : σ) (xs : List α) :
    xs.find? p = (locate test s xs).2.map fun r => r.2.1 := by
  induction xs generalizing s with
  | nil => rfl
  | cons x xs ih =>
      have answer := same s x
      unfold locate
      split
      · rename_i r
        rw [List.find?_cons_of_pos (by rw [← answer, r])]
        rfl
      · rename_i s' r
        rw [List.find?_cons_of_neg (by simp [← answer, r]), ih s']
        split
        · rename_i rest
          rw [rest]
        · rename_i rest
          rw [rest]
          rfl

theorem locate_eq_none (same : ∀ s x, (test s x).2 = p x) (s : σ)
    (none_ : ∀ x ∈ xs, p x = false) : (locate test s xs).2 = none := by
  have found := find?_eq_locate same s xs
  rw [List.find?_eq_none.mpr fun x mem => by simp [none_ x mem]] at found
  simpa using found.symm

theorem locate_eq_some (same : ∀ s x, (test s x).2 = p x) (s : σ)
    (none_ : ∀ y ∈ before, p y = false) (here : p x) (after : List α) :
    (locate test s (before ++ x :: after)).2 = some (before, x, after) := by
  induction before generalizing s with
  | nil =>
      have answer := same s x
      rw [List.nil_append, locate]
      split
      · rfl
      · rename_i r
        rw [r, here] at answer
        cases answer
  | cons y before ih =>
      have answer := same s y
      rw [none_ y (by simp)] at answer
      rw [List.cons_append, locate]
      split
      · rename_i r
        rw [r] at answer
        cases answer
      · rename_i s' r
        have rest := ih s' fun z mem => none_ z (List.mem_cons_of_mem _ mem)
        split
        · rename_i found
          rw [found] at rest
          cases rest
        · rename_i found
          rw [found] at rest
          cases rest
          rfl

end Locate

/-- A search through a list is one through its data. -/
theorem Seg.scan {σ α : Type} {h : Heap α} (test : σ → α → σ × Bool) {cells : List (Nat × α)}
    {current : Nat} (seg : Seg h (some current) cells none) {fuel : Nat}
    (enough : cells.length ≤ fuel) (s : σ) (prev : Option Nat) :
    h.scan test fuel s prev current =
      match locate (fun s cell => test s cell.2) s cells with
      | (s, none) => some (s, none)
      | (s, some (before, cell, after)) =>
          some (s, some (lastOf prev before, cell.1, ⟨cell.2, first after none⟩)) := by
  induction fuel generalizing cells current s prev with
  | zero =>
      cases List.length_eq_zero_iff.mp (Nat.le_zero.mp enough)
      cases seg
  | succ fuel ih =>
      cases cells with
      | nil => cases seg
      | cons cell cells =>
          obtain ⟨a, x⟩ := cell
          obtain ⟨same, next, found, rest⟩ := seg
          cases same
          simp only [Heap.scan, locate, found]
          rcases test s x with ⟨s', _ | _⟩
          · cases next with
            | none =>
                cases cells with
                | nil => rfl
                | cons cell cells => cases rest.1
            | some next =>
                simp only [ih rest (Nat.le_of_succ_le_succ enough) s' (some current)]
                cases located : locate (fun s (cell : Nat × α) => test s cell.2) s' cells with
                | mk s'' r =>
                    cases r with
                    | none => rfl
                    | some r => simp only [lastOf_cons]
          · simp only [rest.start_eq]
            rfl

section Scan

variable {σ α : Type} {h : Heap α} {test : σ → α → σ × Bool} {p : α → Bool} {start a : Nat} {x : α}
variable {cells before after : List (Nat × α)}

theorem Linked.scan_none (linked : Linked h (some start) cells)
    (same : ∀ s x, (test s x).2 = p x) (none_ : ∀ c ∈ cells, p c.2 = false) (s : σ) :
    ∃ s', h.scan test h.length s none start = some (s', none) := by
  have located : (locate (fun s (c : Nat × α) => test s c.2) s cells).2 = none :=
    locate_eq_none (fun s c => same s c.2) s none_
  rw [linked.seg.scan test linked.length_le]
  generalize locate (fun s (c : Nat × α) => test s c.2) s cells = r at located
  obtain ⟨s', r⟩ := r
  cases located
  exact ⟨s', rfl⟩

theorem Linked.scan_some (linked : Linked h (some start) (before ++ (a, x) :: after))
    (same : ∀ s x, (test s x).2 = p x) (none_ : ∀ c ∈ before, p c.2 = false) (here : p x) (s : σ) :
    ∃ s', h.scan test h.length s none start =
      some (s', some (lastOf none before, a, ⟨x, first after none⟩)) := by
  have located : (locate (fun s (c : Nat × α) => test s c.2) s (before ++ (a, x) :: after)).2 =
      some (before, (a, x), after) :=
    locate_eq_some (fun s c => same s c.2) s none_ here after
  rw [linked.seg.scan test linked.length_le]
  generalize locate (fun s (c : Nat × α) => test s c.2) s (before ++ (a, x) :: after) = r at located
  obtain ⟨s', r⟩ := r
  cases located
  exact ⟨s', rfl⟩

theorem Linked.find_none (linked : Linked h (some start) cells)
    (none_ : ∀ c ∈ cells, p c.2 = false) : h.find p start = some none := by
  have same : ∀ (u : Unit) (x : α), ((u, p x) : Unit × Bool).2 = p x := fun _ _ => rfl
  obtain ⟨u, scanned⟩ := linked.scan_none same none_ ()
  exact congrArg (Option.map Prod.snd) scanned

theorem Linked.find_some (linked : Linked h (some start) (before ++ (a, x) :: after))
    (none_ : ∀ c ∈ before, p c.2 = false) (here : p x) :
    h.find p start = some (some (lastOf none before, a, ⟨x, first after none⟩)) := by
  have same : ∀ (u : Unit) (x : α), ((u, p x) : Unit × Bool).2 = p x := fun _ _ => rfl
  obtain ⟨u, scanned⟩ := linked.scan_some same none_ here ()
  exact congrArg (Option.map Prod.snd) scanned

end Scan

/-- Freeing every node of a list meets no node that has been freed. -/
theorem Linked.freeAll {α : Type} {h : Heap α} {cells : List (Nat × α)} {current fuel : Nat}
    (linked : Linked h (some current) cells) (enough : cells.length ≤ fuel) :
    ∃ h', h.freeAll fuel current = some h' := by
  induction fuel generalizing h cells current with
  | zero =>
      cases List.length_eq_zero_iff.mp (Nat.le_zero.mp enough)
      cases linked.seg
  | succ fuel ih =>
      cases cells with
      | nil => cases linked.seg
      | cons cell cells =>
          obtain ⟨a, x⟩ := cell
          obtain ⟨⟨same, next, found, rest⟩, nodup⟩ := linked
          cases same
          rw [List.map_cons, List.nodup_cons] at nodup
          cases next with
          | none => exact ⟨h.set current none, by simp only [Heap.freeAll, found, Heap.free_of_read found]⟩
          | some next =>
              obtain ⟨h', freed⟩ := ih ⟨rest.set nodup.1 none, nodup.2⟩
                (Nat.le_of_succ_le_succ enough)
              exact ⟨h', by simp only [Heap.freeAll, found, Heap.free_of_read found, freed]⟩

end LinkedList
