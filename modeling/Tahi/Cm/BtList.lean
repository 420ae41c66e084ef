import Mathlib.Data.List.InsertIdx
import Tahi.General.GapBuffer
import Tahi.General.Refinement

/-! # Growing lists

`BtList` keeps its elements on both sides of a gap in an array. An insertion moves the
gap to its place first, a removal leaves the gap at its own. A list whose array is full
copies its elements to a bigger one.
-/

namespace Tahi.Cm

open GapBuffer Refinement

/-- A list of pointers. `none` is a null pointer, and the capacity is the length of the
    array. -/
structure BtList (α : Type) where
  elements_ : List (Option α)
  noOfElements_ : Nat
  free_ : Nat
deriving DecidableEq, Repr

namespace BtList

variable {α : Type}

@[grind =]
def capacity (l : BtList α) : Nat := l.elements_.length

def size (l : BtList α) : Nat := l.noOfElements_

/-- The constructor, over the cells that `newCapacity` clears. -/
def new (s : Nat) : BtList α := ⟨List.replicate s none, 0, 0⟩

def leftPosition (_ : BtList α) (n : Nat) : Nat := n

def rightPosition (l : BtList α) (n : Nat) : Nat := n + l.capacity - l.noOfElements_

/-- `none` is `rangeError`, which aborts. -/
def position (l : BtList α) (n : Nat) : Option Nat :=
  if l.noOfElements_ ≤ n then none
  else some (if n < l.free_ then l.leftPosition n else l.rightPosition n)

def index (l : BtList α) (n : Nat) : Option (Option α) :=
  (l.position n).map fun pos => l.elements_.getD pos none

/-- One turn of either loop: the element goes from one place to the other. -/
def transfer (l : BtList α) (source target : Nat) : BtList α :=
  { l with elements_ := (l.elements_.set target (l.elements_.getD source none)).set source none }

/-- `for(i=s;i>=e;--i) {leftToRight(i);}` for the `k` numbers from `e` to `s`. -/
def leftToRightLoop (l : BtList α) (e : Nat) : Nat → BtList α
  | 0 => l
  | k + 1 =>
      (l.transfer (l.leftPosition (e + k)) (l.rightPosition (e + k))).leftToRightLoop e k

def leftToRight (l : BtList α) (s e : Nat) : BtList α := l.leftToRightLoop e (s + 1 - e)

/-- `for(i=s;i<e;++i) {rightToLeft(i);}` for the `k` numbers from `s` on. -/
def rightToLeftLoop (l : BtList α) (s : Nat) : Nat → BtList α
  | 0 => l
  | k + 1 => (l.transfer (l.rightPosition s) (l.leftPosition s)).rightToLeftLoop (s + 1) k

def rightToLeft (l : BtList α) (s e : Nat) : BtList α := l.rightToLeftLoop s (e - s)

/-- What `insert` does once there is a free cell. -/
def place (l : BtList α) (at_ : Nat) (o : α) : BtList α :=
  let l :=
    if at_ < l.free_ then l.leftToRight (l.free_ - 1) at_
    else if l.free_ < at_ then l.rightToLeft l.free_ at_
    else l
  ⟨l.elements_.set at_ (some o), l.noOfElements_ + 1, at_ + 1⟩

/-- Adds the elements of the old array. `none` would be an expansion inside an
    expansion. -/
def copyElements (l : BtList α) : List (Option α) → Option (BtList α)
  | [] => some l
  | none :: from_ => l.copyElements from_
  | some c :: from_ =>
      if l.capacity ≤ l.noOfElements_ then none
      else (l.place l.noOfElements_ c).copyElements from_

def expand (l : BtList α) : Option (BtList α) :=
  (new ((l.capacity + 1) * 2)).copyElements l.elements_

def insert (l : BtList α) (at_ : Nat) (o : α) : Option (BtList α × Option α) :=
  if l.noOfElements_ < at_ then none
  else
    let roomy := if l.capacity ≤ l.noOfElements_ then l.expand else some l
    roomy.map fun l => (l.place at_ o, some o)

def append (l : BtList α) (elm : α) : Option (BtList α × Option α) :=
  l.insert l.noOfElements_ elm

def prepend (l : BtList α) (elm : α) : Option (BtList α × Option α) := l.insert 0 elm

def removeAt (l : BtList α) (at_ : Nat) : Option (BtList α × Option α) :=
  match l.position at_ with
  | none => none
  | some pos =>
      let old := l.elements_.getD pos none
      let l := { l with elements_ := l.elements_.set pos none }
      let l :=
        if l.noOfElements_ < l.capacity then
          if at_ < l.free_ then l.leftToRight (l.free_ - 1) (at_ + 1)
          else if l.free_ < at_ then l.rightToLeft l.free_ at_
          else l
        else l
      some (⟨l.elements_, l.noOfElements_ - 1, at_⟩, old)

/-- The operations of a list. -/
inductive Op (α : Type) where
  | insert (at_ : Nat) (o : α)
  | append (elm : α)
  | prepend (elm : α)
  | removeAt (at_ : Nat)
deriving DecidableEq, Repr

def step (l : BtList α) : Op α → Option (BtList α × Option α)
  | .insert at_ o => l.insert at_ o
  | .append elm => l.append elm
  | .prepend elm => l.prepend elm
  | .removeAt at_ => l.removeAt at_

/-! ## The plain sequence -/

/-- The same operations on a sequence. -/
def plain (xs : List α) : Op α → List α × Option α
  | .insert at_ o => (xs.insertIdx at_ o, some o)
  | .append elm => (xs ++ [elm], some elm)
  | .prepend elm => (elm :: xs, some elm)
  | .removeAt at_ => (xs.eraseIdx at_, xs[at_]?)

/-- The indices of an operation are valid. -/
def Valid (xs : List α) : Op α → Prop
  | .insert at_ _ => at_ ≤ xs.length
  | .append _ => True
  | .prepend _ => True
  | .removeAt at_ => at_ < xs.length

instance (xs : List α) (op : Op α) : Decidable (Valid xs op) := by
  cases op <;> unfold Valid <;> infer_instance

/-! ## Moving the gap -/

/-- The list holds pointers with its gap before number `f`. -/
structure Gap (l : BtList α) (f : Nat) (ys : List (Option α)) : Prop where
  count : l.noOfElements_ = ys.length
  holds : Holds l.elements_ f ys

/-- The list represents a sequence of elements. -/
def Represents (l : BtList α) (xs : List α) : Prop := l.Gap l.free_ (xs.map some)

namespace Gap

variable {l : BtList α} {f : Nat} {ys : List (Option α)}

theorem fits (gap : l.Gap f ys) : l.noOfElements_ ≤ l.capacity := by
  rw [gap.count]
  exact gap.holds.fits

theorem leftToRightLoop {e k : Nat} (gap : l.Gap (e + k) ys) (free : l.noOfElements_ < l.capacity) :
    (l.leftToRightLoop e k).Gap e ys := by
  induction k generalizing l with
  | zero => exact gap
  | succ k ih =>
      have inside : e + k < ys.length := gap.holds.gap
      have count := gap.count
      have fits := gap.holds.fits
      apply ih
      · refine ⟨count, ?_⟩
        have moved : l.elements_[e + k]? = some (l.elements_.getD (e + k) none) := by
          rw [List.getD_eq_getElem?_getD, List.getElem?_eq_getElem (by omega)]
          rfl
        rw [capacity, count] at free
        simp only [transfer, leftPosition, rightPosition, capacity, count]
        exact gap.holds.move_left free moved
      · simpa [capacity, transfer] using free

theorem rightToLeftLoop {s k : Nat} (gap : l.Gap s ys) (inside : s + k ≤ ys.length)
    (free : l.noOfElements_ < l.capacity) : (l.rightToLeftLoop s k).Gap (s + k) ys := by
  induction k generalizing l s with
  | zero => exact gap
  | succ k ih =>
      have count := gap.count
      have fits := gap.holds.fits
      rw [← Nat.add_assoc, Nat.add_right_comm]
      apply ih
      · refine ⟨count, ?_⟩
        rw [capacity, count] at free
        have moved : l.elements_[s + l.elements_.length - ys.length]? =
            some (l.elements_.getD (s + l.elements_.length - ys.length) none) := by
          rw [List.getD_eq_getElem?_getD, List.getElem?_eq_getElem (by omega)]
          rfl
        simp only [transfer, leftPosition, rightPosition, capacity, count]
        exact gap.holds.move_right free (by omega) moved
      · omega
      · simpa [capacity, transfer] using free

end Gap

/-! The loops keep the number of cells. -/

@[simp] theorem length_transfer (l : BtList α) (i j : Nat) :
    (l.transfer i j).elements_.length = l.elements_.length := by
  simp [transfer]

@[simp] theorem length_leftToRight (l : BtList α) (s e : Nat) :
    (l.leftToRight s e).elements_.length = l.elements_.length := by
  unfold leftToRight
  generalize s + 1 - e = k
  induction k generalizing l with
  | zero => rfl
  | succ k ih => rw [leftToRightLoop, ih, length_transfer]

@[simp] theorem length_rightToLeft (l : BtList α) (s e : Nat) :
    (l.rightToLeft s e).elements_.length = l.elements_.length := by
  unfold rightToLeft
  generalize e - s = k
  induction k generalizing l s with
  | zero => rfl
  | succ k ih => rw [rightToLeftLoop, ih, length_transfer]

namespace Gap

variable {l : BtList α} {f : Nat} {ys : List (Option α)}

theorem leftToRight {e : Nat} (gap : l.Gap f ys) (some_ : 0 < f) (before : e ≤ f)
    (free : l.noOfElements_ < l.capacity) : (l.leftToRight (f - 1) e).Gap e ys := by
  obtain ⟨k, rfl⟩ := Nat.exists_eq_add_of_le before
  have turns : e + k - 1 + 1 - e = k := by omega
  rw [BtList.leftToRight, turns]
  exact leftToRightLoop gap free

theorem rightToLeft {e : Nat} (gap : l.Gap f ys) (behind : f ≤ e) (inside : e ≤ ys.length)
    (free : l.noOfElements_ < l.capacity) : (l.rightToLeft f e).Gap e ys := by
  obtain ⟨k, rfl⟩ := Nat.exists_eq_add_of_le behind
  have turns : f + k - f = k := by omega
  rw [BtList.rightToLeft, turns]
  exact rightToLeftLoop gap inside free

end Gap

/-! ## The operations -/

namespace Represents

variable {l : BtList α} {xs : List α}

theorem count (represents : l.Represents xs) : l.noOfElements_ = xs.length := by
  simpa using Gap.count represents

theorem new (s : Nat) : (new s : BtList α).Represents [] := ⟨rfl, Holds.empty _⟩

/-- Storing the new element, once the gap is in front of its place. -/
theorem store {k : BtList α} {at_ : Nat} (gap : k.Gap at_ (xs.map some)) (valid : at_ ≤ xs.length)
    (free : xs.length < k.capacity) (o : α) :
    (⟨k.elements_.set at_ (some o), k.noOfElements_ + 1, at_ + 1⟩ : BtList α).Represents
      (xs.insertIdx at_ o) := by
  have placed := gap.holds.insert (by simpa [capacity] using free) (some o)
  rw [← List.map_insertIdx] at placed
  refine ⟨?_, placed⟩
  simp [gap.count, List.length_insertIdx, valid]

/-- `insert` with a free cell. -/
theorem place (represents : l.Represents xs) {at_ : Nat} (valid : at_ ≤ xs.length)
    (free : l.noOfElements_ < l.capacity) (o : α) :
    (l.place at_ o).Represents (xs.insertIdx at_ o) ∧ (l.place at_ o).capacity = l.capacity := by
  have roomy : xs.length < l.capacity := represents.count ▸ free
  unfold BtList.place
  split
  · rename_i before
    have gap := Gap.leftToRight represents (Nat.zero_lt_of_lt before) (Nat.le_of_lt before) free
    exact ⟨store gap valid (by simpa [capacity] using roomy) o, by simp [capacity]⟩
  · split
    · rename_i behind
      have gap := Gap.rightToLeft represents (Nat.le_of_lt behind) (by simpa using valid) free
      exact ⟨store gap valid (by simpa [capacity] using roomy) o, by simp [capacity]⟩
    · have here : l.free_ = at_ := by omega
      exact ⟨store (here ▸ represents) valid roomy o, by simp [capacity]⟩

theorem copyElements (represents : l.Represents xs) {ys : List α}
    (roomy : xs.length + ys.length ≤ l.capacity) :
    ∃ l', l.copyElements (ys.map some) = some l' ∧ l'.Represents (xs ++ ys) ∧
      l'.capacity = l.capacity := by
  induction ys generalizing l xs with
  | nil => exact ⟨l, rfl, by simpa using represents, rfl⟩
  | cons y ys ih =>
      have count := represents.count
      rw [List.length_cons] at roomy
      have free : l.noOfElements_ < l.capacity := by omega
      obtain ⟨placed, same⟩ := represents.place (Nat.le_of_eq count) free y
      rw [count, List.insertIdx_length_self] at placed
      obtain ⟨l', copied, related, same'⟩ := ih placed (by
        rw [← count, same, List.length_append, ← count, List.length_singleton]
        omega)
      refine ⟨l', ?_, by simpa using related, ?_⟩
      · rw [List.map_cons, BtList.copyElements, if_neg (Nat.not_le.mpr free), count]
        exact copied
      · rw [same', ← count, same]

/-- A full list expands to one of the same elements with free cells. -/
theorem expand (represents : l.Represents xs) (full : l.capacity ≤ l.noOfElements_) :
    ∃ l', l.expand = some l' ∧ l'.Represents xs ∧ l'.noOfElements_ < l'.capacity := by
  have count := represents.count
  have fits := Gap.fits represents
  have cells : l.elements_ = xs.map some :=
    (Gap.holds represents).eq_of_full (by simp only [capacity, List.length_map] at *; omega)
  have room : (BtList.new ((l.capacity + 1) * 2) : BtList α).capacity = (l.capacity + 1) * 2 :=
    List.length_replicate
  have roomy : ([] : List α).length + xs.length ≤
      (BtList.new ((l.capacity + 1) * 2) : BtList α).capacity := by
    rw [room, List.length_nil]
    omega
  obtain ⟨l', copied, related, same⟩ := (Represents.new ((l.capacity + 1) * 2)).copyElements roomy
  rw [List.nil_append] at related
  refine ⟨l', ?_, related, ?_⟩
  · rw [BtList.expand, cells]
    exact copied
  · rw [same, room, related.count, ← count]
    omega

theorem insert (represents : l.Represents xs) {at_ : Nat} (valid : at_ ≤ xs.length) (o : α) :
    ∃ l', l.insert at_ o = some (l', some o) ∧ l'.Represents (xs.insertIdx at_ o) := by
  have count := represents.count
  have inRange : ¬l.noOfElements_ < at_ := by omega
  rw [BtList.insert, if_neg inRange]
  split
  · rename_i full
    obtain ⟨l', expanded, related, free⟩ := represents.expand full
    rw [expanded]
    exact ⟨_, rfl, (related.place valid free o).1⟩
  · rename_i roomy
    exact ⟨_, rfl, (represents.place valid (Nat.lt_of_not_le roomy) o).1⟩

/-- The place of an element, and what stands there. -/
theorem position (represents : l.Represents xs) {n : Nat} (inside : n < xs.length) :
    ∃ pos, l.position n = some pos ∧ l.elements_[pos]? = some xs[n]? ∧
      pos = if n < l.free_ then n else n + l.elements_.length - xs.length := by
  have count := represents.count
  have there := (Gap.holds represents).get (i := n) (by simpa using inside)
  refine ⟨_, ?_, ?_, rfl⟩
  · rw [BtList.position, if_neg (by omega), leftPosition, rightPosition, capacity, count]
  · simpa [List.getElem?_eq_getElem inside] using there

/-- Forgetting the removed element, once the gap is in front of its place. -/
theorem drop {k : BtList α} {at_ : Nat} (count : k.noOfElements_ = xs.length)
    (valid : at_ < xs.length) (holds : Holds k.elements_ at_ (((xs.map some).set at_ none).eraseIdx at_)) :
    (⟨k.elements_, k.noOfElements_ - 1, at_⟩ : BtList α).Represents (xs.eraseIdx at_) := by
  rw [List.eraseIdx_set_eq, List.eraseIdx_map] at holds
  refine ⟨?_, holds⟩
  simp [count, List.length_eraseIdx_of_lt valid]

theorem removeAt (represents : l.Represents xs) {at_ : Nat} (valid : at_ < xs.length) :
    ∃ l', l.removeAt at_ = some (l', xs[at_]?) ∧ l'.Represents (xs.eraseIdx at_) := by
  have count := represents.count
  obtain ⟨pos, found, there, where_⟩ := represents.position valid
  have inside : at_ < ((xs.map some).set at_ none).length := by simpa using valid
  -- The cell of the element is cleared before the gap moves.
  have cleared : ({ l with elements_ := l.elements_.set pos none } : BtList α).Gap l.free_
      ((xs.map some).set at_ none) := by
    refine ⟨by simpa using count, ?_⟩
    have holds := (Gap.holds represents).set at_ (by simpa using valid) none
    rwa [List.length_map, ← where_] at holds
  rw [BtList.removeAt, found]
  refine ⟨_, Option.some_inj.mpr (Prod.ext rfl ?_), ?_⟩
  · simp [List.getD_eq_getElem?_getD, there]
  · split
    · rename_i free
      split
      · rename_i before
        have gap := cleared.leftToRight (Nat.zero_lt_of_lt before) before free
        exact drop (gap.count.trans (by simp)) valid gap.holds.erase_left
      · split
        · rename_i behind
          have gap := cleared.rightToLeft (Nat.le_of_lt behind) (Nat.le_of_lt inside) free
          exact drop (gap.count.trans (by simp)) valid (gap.holds.erase_right inside)
        · rename_i notBefore notBehind
          have here : l.free_ = at_ :=
            Nat.le_antisymm (Nat.le_of_not_lt notBefore) (Nat.le_of_not_lt notBehind)
          rw [here] at cleared
          exact drop count valid (cleared.holds.erase_right inside)
    · rename_i full
      have filled := Nat.le_antisymm cleared.holds.fits (cleared.count ▸ Nat.le_of_not_lt full)
      exact drop count valid
        ((cleared.holds.of_full filled (Nat.le_of_lt inside)).erase_right inside)

theorem index (represents : l.Represents xs) {i : Nat} (inside : i < xs.length) :
    l.index i = some xs[i]? := by
  obtain ⟨pos, found, there, -⟩ := represents.position inside
  simp [BtList.index, found, there]

end Represents

/-! ## Runs -/

/-- Every operation with a valid index is the one of the plain sequence. -/
theorem simulates : Simulates (step : BtList α → _ → _) plain Valid Eq Represents := by
  intro l xs op represents valid
  cases op with
  | insert at_ o =>
      obtain ⟨l', inserted, related⟩ := represents.insert valid o
      exact ⟨l', _, inserted, rfl, related⟩
  | append elm =>
      obtain ⟨l', inserted, related⟩ := represents.insert (Nat.le_refl xs.length) elm
      rw [List.insertIdx_length_self] at related
      exact ⟨l', some elm, by rw [step, append, represents.count, inserted], rfl, related⟩
  | prepend elm =>
      obtain ⟨l', inserted, related⟩ := represents.insert (Nat.zero_le xs.length) elm
      exact ⟨l', _, inserted, rfl, related⟩
  | removeAt at_ =>
      obtain ⟨l', removed, related⟩ := represents.removeAt valid
      exact ⟨l', _, removed, rfl, related⟩

/-- After any run of valid operations from a new list of any capacity, the size and the
    elements by index are those of the plain sequence, and so were all replies. -/
theorem index_agrees (s : Nat) (ops : List (Op α)) (valid : Allowed plain Valid [] ops) :
    ∃ l, run step (new s) ops = some (l, (specRun plain [] ops).2) ∧
      l.size = (specRun plain [] ops).1.length ∧
      ∀ i < l.size, l.index i = some (specRun plain [] ops).1[i]? := by
  obtain ⟨l, ran, represents⟩ := simulates.run_eq (Represents.new s) valid
  have count := represents.count
  exact ⟨l, ran, count, fun i inside => represents.index (count ▸ inside)⟩

/-- The second insertion fills the array of two cells and the third expands it. -/
theorem index_agrees_expanding :
    ∃ l, run step (new 0) [.append 'a', .prepend 'b', .insert 1 'c', .removeAt 0] =
        some (l, [some 'a', some 'b', some 'c', some 'b']) ∧
      l.size = 2 ∧ ∀ i < l.size, l.index i = some ['c', 'a'][i]? :=
  index_agrees 0 [.append 'a', .prepend 'b', .insert 1 'c', .removeAt 0] (by decide)

end BtList

end Tahi.Cm
