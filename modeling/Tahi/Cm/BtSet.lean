import Mathlib.Data.List.Pairwise
import Mathlib.Data.List.ReduceOption
import Tahi.General.LinearProbing
import Tahi.General.Refinement

/-! # Sets by open addressing

`BtSet` probes linearly from the hash of an element. It grows when two thirds of its
cells are taken, and a removal moves later elements back.
-/

namespace Tahi.Cm

open LinearProbing Refinement

/-! ## The walk

What `isSame` is makes no difference to where the walk over the cells ends. -/

/-- The virtual functions as an element type has them. Nothing is known of them. -/
structure Virtual (α : Type) where
  hashElement : α → UInt32
  isSame : α → α → Bool

namespace Virtual

variable {α : Type} (V : Virtual α)

/-- The loop of `findAt`, with `u` turns left. A null position is `noObjectEntry`. -/
def findLoop (cells : List (Option α)) (o : α) (p : Nat) : Nat → Option α × Option Nat
  | 0 => (none, none)
  | u + 1 =>
      let p := if cells.length ≤ p then 0 else p
      match cells.getD p none with
      | none => (none, some p)
      | some c =>
          if V.isSame c o then (some c, some p)
          else findLoop cells o (p + 1) u

/-- Where an element is looked for first in `n` cells. -/
def home (n : Nat) (o : α) : Nat := (V.hashElement o).toNat % n

theorem findLoop_probed {cells : List (Option α)} {o : α} {h p u : Nat} (inside : h < cells.length)
    (left : u ≤ cells.length)
    (at_ : 0 < u → (if cells.length ≤ p then 0 else p) < cells.length ∧
      dist cells.length h (if cells.length ≤ p then 0 else p) + u = cells.length)
    (way : ∀ q, q < cells.length → dist cells.length h q + u < cells.length →
      ∃ c, cells[q]? = some (some c) ∧ ¬V.isSame c o) :
    Probed cells h (fun c => V.isSame c o) (V.findLoop cells o p u) := by
  induction u generalizing p with
  | zero =>
      refine .full fun q inside' => way q inside' ?_
      simpa using dist_lt inside inside'
  | succ u ih =>
      obtain ⟨here, turn⟩ := at_ (Nat.succ_pos u)
      simp only [findLoop]
      generalize (if cells.length ≤ p then 0 else p) = pos at here turn ⊢
      have cell : cells[pos]? = some (cells.getD pos none) := by
        rw [List.getD_eq_getElem?_getD, List.getElem?_eq_getElem here, Option.getD_some]
      cases found : cells.getD pos none with
      | none =>
          rw [found] at cell
          exact .free pos cell fun q inside' near => way q inside' (by omega)
      | some c =>
          rw [found] at cell
          by_cases same : V.isSame c o
          · simp only [same, if_true]
            exact .hit pos c cell same
          · simp only [same]
            apply ih (Nat.le_of_succ_le left)
            · intro more
              have step := dist_next inside here (by omega)
              have inside' := next_lt here
              unfold next at step inside'
              exact ⟨inside', by omega⟩
            · intro q inside' near
              by_cases equal : dist cells.length h q = dist cells.length h pos
              · obtain rfl := dist_inj inside inside' here equal
                exact ⟨c, cell, same⟩
              · exact way q inside' (by omega)

/-- A walk through all cells from the home of an element. -/
theorem findLoop_home {cells : List (Option α)} (some_ : 0 < cells.length) (o : α) :
    Probed cells (V.home cells.length o) (fun c => V.isSame c o)
      (V.findLoop cells o (V.home cells.length o) cells.length) := by
  have inside : V.home cells.length o < cells.length := Nat.mod_lt _ some_
  apply V.findLoop_probed inside (Nat.le_refl _)
  · intro _
    rw [if_neg (Nat.not_le.mpr inside)]
    exact ⟨inside, by rw [dist_self, Nat.zero_add]⟩
  · intro q _ near
    omega

end Virtual

/-! ## The set -/

/-- The virtual functions of an element type: an equivalence, and a hash that is
    compatible with it. -/
structure Elements (α : Type) where
  hashElement : α → UInt32
  isSame : α → α → Bool
  refl : ∀ a, isSame a a
  symm : ∀ a b, isSame a b → isSame b a
  trans : ∀ a b c, isSame a b → isSame b c → isSame a c
  compatible : ∀ a b, isSame a b → hashElement a = hashElement b

/-- Without what is known of them. -/
def Elements.virtual {α : Type} (E : Elements α) : Virtual α := ⟨E.hashElement, E.isSame⟩

/-- A table of pointers. `none` is a null pointer, and the capacity is the length of the
    array. -/
structure BtSet (α : Type) where
  elements_ : List (Option α)
  noOfElements_ : Nat
deriving DecidableEq, Repr

namespace BtSet

variable {α : Type}

def capacity (t : BtSet α) : Nat := t.elements_.length

/-- The constructor. -/
def new (s : Nat) : BtSet α := ⟨List.replicate (if 1 < s then s * 2 else 2) none, 0⟩

variable (E : Elements α)

/-- The loop of `findAt`, with `u` turns left. A null position is `noObjectEntry`. -/
def findLoop (cells : List (Option α)) (o : α) (p : Nat) : Nat → Option α × Option Nat
  | 0 => (none, none)
  | u + 1 =>
      let p := if cells.length ≤ p then 0 else p
      match cells.getD p none with
      | none => (none, some p)
      | some c =>
          if E.isSame c o then (some c, some p)
          else findLoop cells o (p + 1) u

def findAt (t : BtSet α) (o : α) : Option α × Option Nat :=
  let size := t.capacity
  if size = 0 then (none, none)
  else
    let hash := (E.hashElement o).toNat
    findLoop E t.elements_ o (hash % size) size

def find (t : BtSet α) (o : α) : Option α := (t.findAt E o).1

/-- The loop of `rehash`, with `u` turns left. -/
def rehashLoop (cells : List (Option α)) (at_ i : Nat) : Nat → List (Option α)
  | 0 => cells
  | u + 1 =>
      let size := cells.length
      let i := if size ≤ i then 0 else i
      match cells.getD i none with
      | none => cells
      | some o =>
          let hash := (E.hashElement o).toNat % size
          if (if at_ < i then hash ≤ at_ ∨ i < hash else i < hash ∧ hash ≤ at_) then
            rehashLoop ((cells.set at_ (some o)).set i none) i (i + 1) u
          else rehashLoop cells at_ (i + 1) u

def rehash (t : BtSet α) (at_ : Nat) : BtSet α :=
  { t with elements_ := rehashLoop E t.elements_ at_ (at_ + 1) (t.capacity - 1) }

/-- What `addIfAbsent` does once the table is large enough: the new set, the element
    that is in it now and its position. -/
def enter (t : BtSet α) (o : α) : BtSet α × Option α × Option Nat :=
  match t.findAt E o with
  | (none, some u) => (⟨t.elements_.set u (some o), t.noOfElements_ + 1⟩, some o, some u)
  | (old, u) => (t, old, u)

/-- Adds the elements of the old array. `none` would be an expansion inside an
    expansion. -/
def copyElements (t : BtSet α) : List (Option α) → Option (BtSet α)
  | [] => some t
  | none :: from_ => t.copyElements from_
  | some c :: from_ =>
      if t.capacity * 2 < t.noOfElements_ * 3 then none
      else (t.enter E c).1.copyElements from_

def expand (t : BtSet α) : Option (BtSet α) :=
  copyElements E ⟨List.replicate ((t.capacity + 1) * 2) none, 0⟩ t.elements_

def addIfAbsent (t : BtSet α) (o : α) : Option (BtSet α × Option α × Option Nat) :=
  let roomy := if t.capacity * 2 < t.noOfElements_ * 3 then t.expand E else some t
  roomy.map fun t => t.enter E o

section

/- Pointers are compared. -/
variable [DecidableEq α]

def add (t : BtSet α) : Option α → Option (BtSet α × Option α)
  | none => some (t, none)
  | some o =>
      (t.addIfAbsent E o).map fun (t, add, _) => (t, if add = some o then some o else none)

/-- The element that is not added is deleted, which is not part of the set. -/
def filter (t : BtSet α) : Option α → Option (BtSet α × Option α)
  | none => some (t, none)
  | some o => (t.addIfAbsent E o).map fun (t, add, _) => (t, add)

def replace (t : BtSet α) : Option α → Option (BtSet α × Option α)
  | none => some (t, none)
  | some o =>
      (t.addIfAbsent E o).map fun (t, add, n) =>
        match add, n with
        | some old, some n =>
            if old = o then (t, none)
            else ({ t with elements_ := t.elements_.set n (some o) }, some old)
        | _, _ => (t, none)

def remove (t : BtSet α) (o : α) : BtSet α × Option α :=
  match t.findAt E o with
  | (some old, some n) =>
      (rehash E ⟨t.elements_.set n none, t.noOfElements_ - 1⟩ n, some old)
  | _ => (t, none)

inductive Op (α : Type) where
  | add (o : Option α)
  | filter (o : Option α)
  | replace (o : Option α)
  | remove (o : α)

@[grind =]
def step (t : BtSet α) : Op α → Option (BtSet α × Option α)
  | .add o => t.add E o
  | .filter o => t.filter E o
  | .replace o => t.replace E o
  | .remove o => some (t.remove E o)

/-! ## The plain set -/

/-- The element of a list that is the same as `o`. -/
def member (xs : List α) (o : α) : Option α := xs.find? fun c => E.isSame c o

def others (xs : List α) (o : α) : List α := xs.filter fun c => !E.isSame c o

/-- The same operations on a list of the elements. -/
@[grind =]
def plain (xs : List α) : Op α → List α × Option α
  | .add none => (xs, none)
  | .add (some o) =>
      match member E xs o with
      | some old => (xs, if old = o then some o else none)
      | none => (o :: xs, some o)
  | .filter none => (xs, none)
  | .filter (some o) =>
      match member E xs o with
      | some old => (xs, some old)
      | none => (o :: xs, some o)
  | .replace none => (xs, none)
  | .replace (some o) =>
      match member E xs o with
      | some old => (o :: others E xs o, if old = o then none else some old)
      | none => (o :: xs, none)
  | .remove o => (others E xs o, member E xs o)

end

/-! ## The contents of the cells -/

theorem reduceOption_cons (a : Option α) (cells : List (Option α)) :
    (a :: cells).reduceOption = a.toList ++ cells.reduceOption := by
  cases a with
  | none => rfl
  | some a => rfl

/-- Storing into a cell exchanges its contents. -/
theorem reduceOption_set {cells : List (Option α)} {u : Nat} {a : Option α}
    (there : cells[u]? = some a) (b : Option α) :
    ∃ rest, cells.reduceOption.Perm (a.toList ++ rest) ∧
      (cells.set u b).reduceOption.Perm (b.toList ++ rest) := by
  induction cells generalizing u with
  | nil => simp at there
  | cons c cells ih =>
      cases u with
      | zero =>
          obtain rfl : c = a := by simpa using there
          refine ⟨cells.reduceOption, ?_, ?_⟩
          · rw [reduceOption_cons]
          · rw [List.set_cons_zero, reduceOption_cons]
      | succ u =>
          obtain ⟨rest, before, after⟩ := ih (by simpa using there)
          have swap (d : Option α) : (c.toList ++ (d.toList ++ rest)).Perm
              (d.toList ++ (c.toList ++ rest)) := by
            rw [← List.append_assoc, ← List.append_assoc]
            exact List.perm_append_comm.append_right rest
          refine ⟨c.toList ++ rest, ?_, ?_⟩
          · rw [reduceOption_cons]
            exact (before.append_left _).trans (swap a)
          · rw [List.set_cons_succ, reduceOption_cons]
            exact (after.append_left _).trans (swap b)

/-! ## Lookup -/

section

variable (E : Elements α)

/-- Where an element is looked for first in `n` cells. -/
def home (n : Nat) (o : α) : Nat := (E.hashElement o).toNat % n

theorem home_eq {n : Nat} {a b : α} (same : E.isSame a b) : home E n a = home E n b := by
  rw [home, home, E.compatible a b same]

theorem findLoop_virtual (cells : List (Option α)) (o : α) (p u : Nat) :
    E.virtual.findLoop cells o p u = findLoop E cells o p u := by
  induction u generalizing p with
  | zero => rfl
  | succ u ih =>
      simp only [findLoop, Virtual.findLoop, ih]
      rfl

theorem findAt_probed (t : BtSet α) (o : α) :
    Probed t.elements_ (home E t.capacity o) (fun c => E.isSame c o) (t.findAt E o) := by
  unfold findAt
  by_cases none_ : t.capacity = 0
  · rw [if_pos none_]
    refine .full fun q inside => ?_
    rw [capacity] at none_
    omega
  · rw [if_neg none_]
    have probed := E.virtual.findLoop_home (Nat.pos_of_ne_zero none_) o
    rwa [findLoop_virtual] at probed

/-! ## Removal -/

/-- The interval test asks whether the free cell is on the way to the element. -/
theorem rehash_test {n at_ i hash : Nat} (hole : at_ < n) (inside : i < n) (bound : hash < n)
    (apart : at_ ≠ i) :
    (if at_ < i then hash ≤ at_ ∨ i < hash else i < hash ∧ hash ≤ at_) ↔
      dist n hash at_ < dist n hash i := by
  unfold LinearProbing.dist
  grind

theorem rehashLoop_spec {cells : List (Option α)} {start at_ i j u : Nat}
    (walk : Repairing (home E cells.length) cells start at_ j) (left : j + u = cells.length)
    (here : 0 < u → (if cells.length ≤ i then 0 else i) < cells.length ∧
      dist cells.length start (if cells.length ≤ i then 0 else i) = j) :
    Reachable (home E cells.length) (rehashLoop E cells at_ i u) ∧
      (rehashLoop E cells at_ i u).reduceOption.Perm cells.reduceOption ∧
      (rehashLoop E cells at_ i u).length = cells.length := by
  induction u generalizing cells at_ i j with
  | zero => exact ⟨walk.around (Nat.le_of_eq left.symm), .refl _, rfl⟩
  | succ u ih =>
      obtain ⟨inside, turn⟩ := here (Nat.succ_pos u)
      simp only [rehashLoop]
      generalize (if cells.length ≤ i then 0 else i) = pos at inside turn ⊢
      have cell : cells[pos]? = some (cells.getD pos none) := by
        rw [List.getD_eq_getElem?_getD, List.getElem?_eq_getElem inside, Option.getD_some]
      have later : 0 < u → (if cells.length ≤ pos + 1 then 0 else pos + 1) < cells.length ∧
          dist cells.length start (if cells.length ≤ pos + 1 then 0 else pos + 1) = j + 1 := by
        intro more
        have step := dist_next walk.start_lt inside (by omega)
        have inside' := next_lt inside
        unfold next at step inside'
        exact ⟨inside', by omega⟩
      cases found : cells.getD pos none with
      | none => exact ⟨walk.stop (found ▸ cell) turn, .refl _, rfl⟩
      | some o =>
          rw [found] at cell
          have apart : at_ ≠ pos := by
            rintro rfl
            simp [walk.free] at cell
          have test := rehash_test walk.hole_lt inside (walk.home_lt o) apart
          simp only [home] at test
          simp only [test]
          split
          · rename_i on
            obtain ⟨rest, before, after⟩ := reduceOption_set walk.free (some o)
            have cell' : (cells.set at_ (some o))[pos]? = some (some o) := by
              rw [List.getElem?_set_ne apart, cell]
            obtain ⟨rest', before', after'⟩ := reduceOption_set cell' none
            have moved := walk.move cell turn on
            have same : ((cells.set at_ (some o)).set pos none).length = cells.length := by simp
            rw [← same] at moved
            obtain ⟨reachable, contents, length⟩ := ih moved (by rw [same]; omega) (by rwa [same])
            rw [same] at reachable length
            refine ⟨reachable, contents.trans ?_, length⟩
            have kept : rest'.Perm rest := (List.perm_cons o).mp (before'.symm.trans after)
            exact after'.trans (kept.trans before.symm)
          · rename_i off
            exact ih (walk.stay cell turn off) (by omega) later

theorem count_full {t : BtSet α} (count : t.noOfElements_ = t.elements_.reduceOption.length)
    (full : ∀ q, q < t.capacity → ∃ c, t.elements_[q]? = some (some c)) :
    t.noOfElements_ = t.capacity := by
  rw [count, capacity, List.reduceOption_length_eq_iff]
  intro a mem
  obtain ⟨q, inside, rfl⟩ := List.mem_iff_getElem.mp mem
  obtain ⟨c, there⟩ := full q inside
  rw [List.getElem?_eq_getElem inside, Option.some_inj] at there
  rw [there]
  rfl

/-- A removal leaves another free cell, except in a table of two cells. -/
theorem other_free {t : BtSet α} (count : t.noOfElements_ = t.elements_.reduceOption.length)
    (even : 2 ∣ t.capacity) (some_ : 0 < t.capacity)
    (load : t.noOfElements_ * 3 ≤ t.capacity * 2 + 3) {c : α} {p : Nat}
    (there : t.elements_[p]? = some (some c)) :
    t.capacity ≤ 2 ∨ ∃ z : Nat, t.elements_[z]? = some none ∧ z ≠ p := by
  by_cases full : ∀ q, q < t.capacity → ∃ c, t.elements_[q]? = some (some c)
  · left
    have count := count_full count full
    obtain ⟨k, even⟩ := even
    omega
  · right
    push Not at full
    obtain ⟨z, inside, free⟩ := full
    have here : t.elements_[z]? = some none := by
      rw [List.getElem?_eq_getElem inside] at free ⊢
      cases cell : t.elements_[z] with
      | none => rfl
      | some d => exact absurd (congrArg some cell) (free d)
    refine ⟨z, here, ?_⟩
    rintro rfl
    simp [there] at here

/-- The table after a cell is freed, and repaired from there. -/
theorem rehash_freed {t : BtSet α} {p : Nat} (inside : p < t.capacity)
    (reachable : Reachable (home E t.capacity) t.elements_)
    (other : t.capacity ≤ 2 ∨ ∃ z : Nat, t.elements_[z]? = some none ∧ z ≠ p) (n : Nat) :
    Reachable (home E t.capacity) (rehash E ⟨t.elements_.set p none, n⟩ p).elements_ ∧
      (rehash E ⟨t.elements_.set p none, n⟩ p).elements_.reduceOption.Perm
        (t.elements_.set p none).reduceOption ∧
      (rehash E ⟨t.elements_.set p none, n⟩ p).capacity = t.capacity := by
  have length : (t.elements_.set p none).length = t.capacity := List.length_set
  have walk := Repairing.begin_ reachable (fun x => Nat.mod_lt _ (Nat.zero_lt_of_lt inside)) inside
    other
  rw [← length] at walk
  obtain ⟨reachable, contents, length'⟩ := rehashLoop_spec E (u := t.capacity - 1) (i := p + 1) walk
    (by rw [length]; omega) (by
      intro more
      have step := dist_next inside inside (by rw [dist_self]; omega)
      have inside' := next_lt inside
      unfold next at step inside'
      rw [length]
      exact ⟨inside', by rw [step, dist_self]⟩)
  have unfolded : rehash E ⟨t.elements_.set p none, n⟩ p =
      ⟨rehashLoop E (t.elements_.set p none) p (p + 1) (t.capacity - 1), n⟩ := by
    simp only [rehash, capacity, List.length_set]
  rw [unfolded]
  exact ⟨length ▸ reachable, contents, length'.trans length⟩

/-! ## The invariant -/

/-- The set represents a list of elements, no two of which are the same. The capacity is
    even, as the constructor and the expansion make it. -/
structure Represents (t : BtSet α) (xs : List α) : Prop where
  contents : t.elements_.reduceOption.Perm xs
  distinct : xs.Pairwise fun a b => ¬E.isSame a b
  count : t.noOfElements_ = xs.length
  reachable : Reachable (home E t.capacity) t.elements_
  even : 2 ∣ t.capacity
  some_ : 0 < t.capacity
  load : t.noOfElements_ * 3 ≤ t.capacity * 2 + 3

theorem member_eq_some {xs : List α} (distinct : xs.Pairwise fun a b => ¬E.isSame a b) {c o : α}
    (mem : c ∈ xs) (same : E.isSame c o) : member E xs o = some c := by
  cases found : member E xs o with
  | none => exact absurd same (List.find?_eq_none.mp found c mem)
  | some d =>
      have same' : E.isSame d o := List.find?_some (p := fun c => E.isSame c o) found
      have mem' : d ∈ xs := List.mem_of_find?_eq_some found
      by_contra other
      have symmetric : Std.Symm fun a b : α => ¬E.isSame a b :=
        ⟨fun a b apart same => apart (E.symm b a same)⟩
      have apart := distinct.forall mem mem' fun equal => other (congrArg some equal.symm)
      exact apart (E.trans c o d same (E.symm d o same'))

theorem member_eq_none {xs : List α} {o : α} (absent : ∀ x ∈ xs, ¬E.isSame x o) :
    member E xs o = none := List.find?_eq_none.mpr absent

theorem others_eq_self {xs : List α} {o : α} (absent : ∀ x ∈ xs, ¬E.isSame x o) :
    others E xs o = xs := by
  refine List.filter_eq_self.mpr fun x mem => ?_
  simpa using absent x mem

/-- Without the element that is the same as `o`, and with it. -/
theorem others_perm {xs rest : List α} (distinct : xs.Pairwise fun a b => ¬E.isSame a b) {c o : α}
    (split_ : xs.Perm (c :: rest)) (same : E.isSame c o) : (others E xs o).Perm rest := by
  have apart := (split_.pairwise_iff (fun h h' => h (E.symm _ _ h'))).mp distinct
  have filtered : (others E xs o).Perm (others E (c :: rest) o) := split_.filter _
  have kept : others E (c :: rest) o = rest := by
    rw [others, List.filter_cons_of_neg (by simpa using same)]
    refine others_eq_self E fun x mem same' => ?_
    exact List.rel_of_pairwise_cons apart mem (E.trans c o x same (E.symm x o same'))
  rwa [kept] at filtered

namespace Represents

variable {E} {t : BtSet α} {xs : List α}

theorem home_lt (represents : t.Represents E xs) (x : α) : home E t.capacity x < t.capacity :=
  Nat.mod_lt _ represents.some_

theorem mem (represents : t.Represents E xs) {x : α} : some x ∈ t.elements_ ↔ x ∈ xs := by
  rw [← List.reduceOption_mem_iff, represents.contents.mem_iff]

theorem count_cells (represents : t.Represents E xs) :
    t.noOfElements_ = t.elements_.reduceOption.length := by
  rw [represents.count, represents.contents.length_eq]

/-- Elements that are the same stand in the same cell. -/
theorem position_unique (represents : t.Represents E xs) {p q : Nat} {a b : α}
    (here : t.elements_[p]? = some (some a)) (there : t.elements_[q]? = some (some b))
    (same : E.isSame a b) : p = q := by
  by_contra apart
  obtain ⟨rest, before, after⟩ := reduceOption_set here none
  have distinct := (before.pairwise_iff fun h h' => h (E.symm _ _ h')).mp
    ((represents.contents.pairwise_iff fun h h' => h (E.symm _ _ h')).mpr represents.distinct)
  have still : (t.elements_.set p none)[q]? = some (some b) := by
    rw [List.getElem?_set_ne apart, there]
  have mem : b ∈ rest :=
    after.mem_iff.mp (List.reduceOption_mem_iff.mpr (List.mem_of_getElem? still))
  exact List.rel_of_pairwise_cons distinct mem same

/-- What a lookup finds. -/
theorem findAt (represents : t.Represents E xs) (o : α) :
    (∃ c p, t.findAt E o = (some c, some p) ∧ t.elements_[p]? = some (some c) ∧
      E.isSame c o ∧ member E xs o = some c) ∨
    ((∀ x ∈ xs, ¬E.isSame x o) ∧
      ((∃ p, t.findAt E o = (none, some p) ∧ t.elements_[p]? = some none ∧
          Reachable (home E t.capacity) (t.elements_.set p (some o))) ∨
        (t.findAt E o = (none, none) ∧ t.noOfElements_ = t.capacity))) := by
  have probed := findAt_probed E t o
  have homes : ∀ x, E.isSame x o → home E t.capacity x = home E t.capacity o :=
    fun x same => home_eq E same
  generalize result : t.findAt E o = r at probed
  cases probed with
  | hit p c there found =>
      refine .inl ⟨c, p, rfl, there, found, ?_⟩
      exact member_eq_some E represents.distinct
        (represents.mem.mp (List.mem_of_getElem? there)) found
  | free p here way =>
      have absent := (Probed.free p here way).absent represents.reachable homes
      refine .inr ⟨fun x mem => absent x (represents.mem.mpr mem), .inl ⟨p, rfl, here, ?_⟩⟩
      refine represents.reachable.set (represents.home_lt o) fun q inside near => ?_
      obtain ⟨c, there, -⟩ := way q inside near
      simp [there]
  | full way =>
      have absent := (Probed.full way).absent represents.reachable homes
      refine .inr ⟨fun x mem => absent x (represents.mem.mpr mem), .inr ⟨rfl, ?_⟩⟩
      refine count_full represents.count_cells fun q inside => ?_
      obtain ⟨c, there, -⟩ := way q inside
      exact ⟨c, there⟩

theorem find (represents : t.Represents E xs) (o : α) : t.find E o = member E xs o := by
  unfold BtSet.find
  rcases represents.findAt o with ⟨c, p, found, -, -, mem⟩ | ⟨absent, ⟨p, found, -, -⟩ | ⟨found, -⟩⟩
  · rw [found, mem]
  · rw [found, member_eq_none E absent]
  · rw [found, member_eq_none E absent]

theorem new (s : Nat) : (new s : BtSet α).Represents E [] := by
  constructor
  · simp [BtSet.new]
  · exact .nil
  · rfl
  · exact .empty _ _
  · simp only [capacity, BtSet.new, List.length_replicate]
    split
    · exact Nat.dvd_mul_left 2 s
    · exact Nat.dvd_refl 2
  · simp only [capacity, BtSet.new, List.length_replicate]
    split <;> omega
  · simp [BtSet.new]

/-- Storing a new element into a free cell that its lookup ends at. -/
theorem store (represents : t.Represents E xs) {o : α} {p : Nat} (absent : ∀ x ∈ xs, ¬E.isSame x o)
    (here : t.elements_[p]? = some none)
    (reachable : Reachable (home E t.capacity) (t.elements_.set p (some o)))
    (roomy : t.noOfElements_ * 3 ≤ t.capacity * 2) :
    (⟨t.elements_.set p (some o), t.noOfElements_ + 1⟩ : BtSet α).Represents E (o :: xs) := by
  have same : (⟨t.elements_.set p (some o), t.noOfElements_ + 1⟩ : BtSet α).capacity = t.capacity :=
    List.length_set
  obtain ⟨rest, before, after⟩ := reduceOption_set here (some o)
  constructor
  · exact after.trans ((before.symm.trans represents.contents).cons o)
  · exact represents.distinct.cons fun x mem equal => absent x mem (E.symm o x equal)
  · rw [represents.count, List.length_cons]
  · rw [same]
    exact reachable
  · exact same ▸ represents.even
  · exact same ▸ represents.some_
  · rw [same]
    change (t.noOfElements_ + 1) * 3 ≤ t.capacity * 2 + 3
    omega

/-- `addIfAbsent` in a set that is large enough. -/
theorem enter (represents : t.Represents E xs) (roomy : t.noOfElements_ * 3 ≤ t.capacity * 2)
    (o : α) :
    (∃ c p, t.enter E o = (t, some c, some p) ∧ t.elements_[p]? = some (some c) ∧
      E.isSame c o ∧ member E xs o = some c) ∨
    ((∀ x ∈ xs, ¬E.isSame x o) ∧ ∃ t' p, t.enter E o = (t', some o, some p) ∧
      t'.Represents E (o :: xs) ∧ t'.capacity = t.capacity) := by
  unfold BtSet.enter
  rcases represents.findAt o with
    ⟨c, p, found, there, same, mem⟩ | ⟨absent, ⟨p, found, here, reachable⟩ | ⟨found, full⟩⟩
  · rw [found]
    exact .inl ⟨c, p, rfl, there, same, mem⟩
  · rw [found]
    exact .inr ⟨absent, _, p, rfl, represents.store absent here reachable roomy, List.length_set⟩
  · have some_ := represents.some_
    omega

theorem copyElements (represents : t.Represents E xs) {from_ : List (Option α)}
    (distinct : (from_.reduceOption ++ xs).Pairwise fun a b => ¬E.isSame a b)
    (roomy : (from_.length + t.noOfElements_) * 3 ≤ t.capacity * 2) :
    ∃ t', t.copyElements E from_ = some t' ∧ t'.Represents E (from_.reduceOption.reverse ++ xs) ∧
      t'.capacity = t.capacity := by
  induction from_ generalizing t xs with
  | nil => exact ⟨t, rfl, by simpa using represents, rfl⟩
  | cons a from_ ih =>
      rw [List.length_cons] at roomy
      cases a with
      | none => exact ih represents distinct (by omega)
      | some c =>
          rw [reduceOption_cons, Option.toList_some, List.singleton_append] at distinct
          have absent : ∀ x ∈ xs, ¬E.isSame x c := fun x mem same =>
            List.rel_of_pairwise_cons distinct (List.mem_append_right _ mem) (E.symm x c same)
          have free : ¬t.capacity * 2 < t.noOfElements_ * 3 := by omega
          rcases represents.enter (Nat.le_of_not_lt free) c with
            ⟨d, p, -, -, same, mem⟩ | ⟨-, t', p, entered, related, same⟩
          · rw [member_eq_none E absent] at mem
            cases mem
          · have later : (from_.reduceOption ++ c :: xs).Pairwise fun a b => ¬E.isSame a b := by
              refine (List.perm_middle.pairwise_iff fun h h' => h (E.symm _ _ h')).mpr ?_
              simpa using distinct
            obtain ⟨t'', copied, related', same'⟩ := ih related later (by
              rw [same, related.count, List.length_cons, ← represents.count]
              omega)
            refine ⟨t'', ?_, ?_, same'.trans same⟩
            · rw [BtSet.copyElements, if_neg free, entered]
              exact copied
            · rw [reduceOption_cons]
              simpa using related'

/-- The order of the list does not matter. -/
theorem perm (represents : t.Represents E xs) {ys : List α} (same : xs.Perm ys) :
    t.Represents E ys :=
  { represents with
    contents := represents.contents.trans same
    distinct := (same.pairwise_iff fun h h' => h (E.symm _ _ h')).mp represents.distinct
    count := represents.count.trans same.length_eq }

/-- A set of any load expands to one that represents the same elements with room for
    another. -/
theorem expand (represents : t.Represents E xs) :
    ∃ t', t.expand E = some t' ∧ t'.Represents E xs ∧ t'.noOfElements_ * 3 ≤ t'.capacity * 2 := by
  have room : (⟨List.replicate ((t.capacity + 1) * 2) none, 0⟩ : BtSet α).capacity =
      (t.capacity + 1) * 2 := List.length_replicate
  have cleared : (⟨List.replicate ((t.capacity + 1) * 2) none, 0⟩ : BtSet α).Represents E [] := by
    constructor
    · simp
    · exact .nil
    · rfl
    · exact .empty _ _
    · exact ⟨t.capacity + 1, by rw [room, Nat.mul_comm]⟩
    · rw [room]
      omega
    · exact Nat.zero_le _
  have distinct : (t.elements_.reduceOption ++ []).Pairwise fun a b => ¬E.isSame a b := by
    rw [List.append_nil]
    exact (represents.contents.pairwise_iff fun h h' => h (E.symm _ _ h')).mpr represents.distinct
  have count : t.noOfElements_ ≤ t.capacity := by
    rw [represents.count, ← represents.contents.length_eq]
    exact List.reduceOption_length_le _
  obtain ⟨t', copied, related, same⟩ := cleared.copyElements distinct (by
    rw [room]
    change (t.capacity + 0) * 3 ≤ (t.capacity + 1) * 2 * 2
    omega)
  rw [List.append_nil] at related
  have again := related.perm ((List.reverse_perm _).trans represents.contents)
  refine ⟨t', copied, again, ?_⟩
  rw [same, room, again.count, ← represents.count]
  omega

/-- `addIfAbsent` finds the element that is the same, or adds the new one. -/
theorem addIfAbsent (represents : t.Represents E xs) (o : α) :
    (∃ t' c p, t.addIfAbsent E o = some (t', some c, some p) ∧ t'.Represents E xs ∧
      t'.elements_[p]? = some (some c) ∧ E.isSame c o ∧ member E xs o = some c) ∨
    (member E xs o = none ∧ ∃ t' p, t.addIfAbsent E o = some (t', some o, some p) ∧
      t'.Represents E (o :: xs)) := by
  have roomy : ∃ t', (if t.capacity * 2 < t.noOfElements_ * 3 then t.expand E else some t) =
      some t' ∧ t'.Represents E xs ∧ t'.noOfElements_ * 3 ≤ t'.capacity * 2 := by
    split
    · exact represents.expand
    · rename_i free
      exact ⟨t, rfl, represents, Nat.le_of_not_lt free⟩
  obtain ⟨t', expanded, related, free⟩ := roomy
  simp only [BtSet.addIfAbsent, expanded, Option.map_some]
  rcases related.enter free o with
    ⟨c, p, entered, there, same, mem⟩ | ⟨absent, t'', p, entered, related', -⟩
  · exact .inl ⟨t', c, p, congrArg some entered, related, there, same, mem⟩
  · exact .inr ⟨member_eq_none E absent, t'', p, congrArg some entered, related'⟩

/-- Storing another element that is the same over the one that is stored. -/
theorem overwrite (represents : t.Represents E xs) {c o : α} {p : Nat}
    (there : t.elements_[p]? = some (some c)) (same : E.isSame c o) :
    ({ t with elements_ := t.elements_.set p (some o) } : BtSet α).Represents E
      (o :: others E xs o) := by
  have length : ({ t with elements_ := t.elements_.set p (some o) } : BtSet α).capacity =
      t.capacity := List.length_set
  obtain ⟨rest, before, after⟩ := reduceOption_set there (some o)
  have split_ : xs.Perm (c :: rest) := represents.contents.symm.trans before
  have left := others_perm E represents.distinct split_ same
  constructor
  · exact after.trans (left.symm.cons o)
  · refine (represents.distinct.filter _).cons fun x mem equal => ?_
    have apart := (List.mem_filter.mp mem).2
    simp [E.symm o x equal] at apart
  · rw [List.length_cons, left.length_eq, represents.count, split_.length_eq, List.length_cons]
  · rw [length]
    refine represents.reachable.set (represents.home_lt o) fun q inside near => ?_
    rw [← home_eq E same] at near
    exact represents.reachable p c there q inside (Nat.le_of_lt near)
  · exact length ▸ represents.even
  · exact length ▸ represents.some_
  · rw [length]
    exact represents.load

/-- Taking an element out of its cell, and repairing the table. -/
theorem remove_stored (represents : t.Represents E xs) {c o : α} {p : Nat}
    (there : t.elements_[p]? = some (some c)) (same : E.isSame c o) :
    (BtSet.rehash E ⟨t.elements_.set p none, t.noOfElements_ - 1⟩ p).Represents E
      (others E xs o) := by
  have inside : p < t.capacity := (List.getElem?_eq_some_iff.mp there).1
  obtain ⟨rest, before, after⟩ := reduceOption_set there none
  have split_ : xs.Perm (c :: rest) := represents.contents.symm.trans before
  have left := others_perm E represents.distinct split_ same
  have other := other_free represents.count_cells represents.even represents.some_ represents.load
    there
  obtain ⟨reachable, contents, kept⟩ :=
    rehash_freed E inside represents.reachable other (t.noOfElements_ - 1)
  constructor
  · exact (contents.trans after).trans left.symm
  · exact represents.distinct.filter _
  · change t.noOfElements_ - 1 = (others E xs o).length
    rw [represents.count, split_.length_eq, left.length_eq, List.length_cons, Nat.add_sub_cancel]
  · rw [kept]
    exact reachable
  · exact kept ▸ represents.even
  · exact kept ▸ represents.some_
  · rw [kept]
    exact Nat.le_trans (Nat.mul_le_mul_right 3 (Nat.sub_le _ 1)) represents.load

theorem remove (represents : t.Represents E xs) [DecidableEq α] (o : α) :
    (t.remove E o).2 = member E xs o ∧ (t.remove E o).1.Represents E (others E xs o) := by
  unfold BtSet.remove
  rcases represents.findAt o with
    ⟨c, p, found, there, same, mem⟩ | ⟨absent, ⟨p, found, -, -⟩ | ⟨found, -⟩⟩
  · rw [found]
    exact ⟨mem.symm, represents.remove_stored there same⟩
  · rw [found, others_eq_self E absent]
    exact ⟨(member_eq_none E absent).symm, represents⟩
  · rw [found, others_eq_self E absent]
    exact ⟨(member_eq_none E absent).symm, represents⟩

end Represents

/-! ## Runs -/

variable [DecidableEq α]

theorem simulates : Simulates (step E) (plain E) (fun _ _ => True) Eq (Represents E) := by
  intro t xs op represents _
  cases op with
  | add o =>
      cases o with
      | none => exact ⟨t, none, rfl, rfl, represents⟩
      | some o =>
          rcases represents.addIfAbsent o with
            ⟨t', c, p, added, related, -, -, mem⟩ | ⟨mem, t', p, added, related⟩
          · simp only [step, add, plain, added, mem, Option.map_some, Option.some_inj]
            exact ⟨t', _, rfl, rfl, related⟩
          · simp only [step, add, plain, added, mem, Option.map_some, if_true]
            exact ⟨t', _, rfl, rfl, related⟩
  | filter o =>
      cases o with
      | none => exact ⟨t, none, rfl, rfl, represents⟩
      | some o =>
          rcases represents.addIfAbsent o with
            ⟨t', c, p, added, related, -, -, mem⟩ | ⟨mem, t', p, added, related⟩
          · simp only [step, filter, plain, added, mem, Option.map_some]
            exact ⟨t', _, rfl, rfl, related⟩
          · simp only [step, filter, plain, added, mem, Option.map_some]
            exact ⟨t', _, rfl, rfl, related⟩
  | replace o =>
      cases o with
      | none => exact ⟨t, none, rfl, rfl, represents⟩
      | some o =>
          rcases represents.addIfAbsent o with
            ⟨t', c, p, added, related, there, same, mem⟩ | ⟨mem, t', p, added, related⟩
          · have stored := related.overwrite there same
            simp only [step, replace, plain, added, mem, Option.map_some]
            split
            · rename_i equal
              obtain ⟨inside, cell⟩ := List.getElem?_eq_some_iff.mp there
              have unchanged : t'.elements_.set p (some o) = t'.elements_ := by
                rw [← equal, ← cell, List.set_getElem_self]
              rw [unchanged] at stored
              exact ⟨t', _, rfl, rfl, stored⟩
            · exact ⟨_, _, rfl, rfl, stored⟩
          · simp only [step, replace, plain, added, mem, Option.map_some, if_true]
            exact ⟨t', _, rfl, rfl, related⟩
  | remove o =>
      obtain ⟨reply, related⟩ := represents.remove o
      exact ⟨_, _, rfl, reply, related⟩

/-- After any run from a new set of any size, a lookup finds the element that was added
    and not removed since, and no two elements that are the same are stored. -/
theorem find_agrees (s : Nat) (ops : List (Op α)) :
    ∃ t : BtSet α, run (step E) (new s) ops = some (t, (specRun (plain E) [] ops).2) ∧
      (∀ x, t.find E x = member E (specRun (plain E) [] ops).1 x) ∧
      ∀ (p q : Nat) (a b : α), t.elements_[p]? = some (some a) →
        t.elements_[q]? = some (some b) → E.isSame a b → p = q := by
  obtain ⟨t, ran, represents⟩ := (simulates E).run_eq (Represents.new s)
    (allowed_of_forall (fun _ _ => trivial) [] ops)
  exact ⟨t, ran, represents.find, fun p q a b => represents.position_unique⟩

end

end BtSet

end Tahi.Cm
