import Mathlib.Data.List.ReduceOption
import Tahi.Cm.BtList

/-! # Lists as arrays

`array` closes the gap of a list as far as a range of its elements needs it, so that they
stand in one row. It does so without a look at the free cells, and it takes the gap away from
elements that it has not moved.
-/

namespace Tahi.Cm

open GapBuffer Refinement

/-- What `qsort` makes of a row of pointers. -/
structure Qsort (α : Type) where
  sorted : List (Option α) → List (Option α)
  perm : ∀ row, (sorted row).Perm row

namespace BtList

variable {α : Type}

/-- The list and the place of the first element of the range. -/
def array (l : BtList α) (s count : Nat) : BtList α × Nat :=
  if l.free_ ≤ s then (l, l.rightPosition s)
  else ({ l.rightToLeft l.free_ (s + count) with free_ := s + count }, s)

/-- `CmList::sort` -/
def sort (l : BtList α) (qsort : Qsort α) : BtList α :=
  let c := l.noOfElements_
  let (l, p) := l.array 0 c
  let row := qsort.sorted ((l.elements_.drop p).take c)
  { l with elements_ := l.elements_.take p ++ (row ++ l.elements_.drop (p + c)) }

def atPut (l : BtList α) (n : Nat) (o : α) : Option (BtList α) :=
  (l.position n).map fun pos => { l with elements_ := l.elements_.set pos (some o) }

/-- `deleteContents` clears all cells, as does `emptyYourself`. -/
def deleteContents (l : BtList α) : BtList α := new l.capacity

/-- `operator=` from another list with the cells `from_`. -/
def assign (l : BtList α) (from_ : List (Option α)) : Option (BtList α) :=
  let l := l.deleteContents
  let l := if l.capacity < from_.length then new from_.length else l
  l.copyElements from_

/-- What can be done to a list. -/
inductive Call (α : Type) where
  | op (o : Op α)
  | atPut (n : Nat) (o : α)
  | deleteContents
  | assign (from_ : List (Option α))
  | array (s count : Nat)
  | sort (qsort : Qsort α)

def call (l : BtList α) : Call α → Option (BtList α)
  | .op o => (l.step o).map Prod.fst
  | .atPut n o => l.atPut n o
  | .deleteContents => some l.deleteContents
  | .assign from_ => l.assign from_
  | .array s count => some (l.array s count).1
  | .sort qsort => some (l.sort qsort)

/-- The elements by index. -/
def sequence (l : BtList α) : List (Option α) :=
  (List.range l.noOfElements_).map fun i => (l.index i).getD none

/-- `array` finds the elements of the range in one row and leaves the list as it was. -/
def Keeps (l : BtList α) (s count : Nat) : Prop :=
  (l.array s count).1.sequence = l.sequence ∧
    ∀ i < count, (l.array s count).1.elements_[(l.array s count).2 + i]? = l.sequence[s + i]?

/-- The range is behind the gap; or it reaches the gap, which has free cells; or the list is full
    and the range ends before the place of its gap. -/
def Closes (l : BtList α) (s count : Nat) : Prop :=
  s < l.free_ → if l.noOfElements_ < l.capacity then l.free_ ≤ s + count else s + count ≤ l.free_

instance (l : BtList α) (s count : Nat) : Decidable (l.Closes s count) := by
  unfold Closes
  infer_instance

/-! ## The free cells -/

/-- The list holds the elements `xs`, and no pointers besides. -/
structure Sound (l : BtList α) (xs : List α) : Prop where
  represents : l.Represents xs
  clear : Clear l.elements_ l.free_ xs.length none

section

variable {l : BtList α} {n : Nat}

theorem clear_leftToRightLoop {e k : Nat} (count : l.noOfElements_ = n)
    (clear : Clear l.elements_ (e + k) n none) (gap : e + k ≤ n) (free : n < l.capacity) :
    Clear (l.leftToRightLoop e k).elements_ e n none := by
  induction k generalizing l with
  | zero => exact clear
  | succ k ih =>
      apply ih
      · exact count
      · simp only [transfer, leftPosition, rightPosition, capacity, count]
        exact clear.move_left gap free _
      · omega
      · simpa only [capacity, length_transfer] using free

theorem clear_rightToLeftLoop {s k : Nat} (count : l.noOfElements_ = n)
    (clear : Clear l.elements_ s n none) (gap : s + k ≤ n) (free : n < l.capacity) :
    Clear (l.rightToLeftLoop s k).elements_ (s + k) n none := by
  induction k generalizing l s with
  | zero => exact clear
  | succ k ih =>
      rw [← Nat.add_assoc, Nat.add_right_comm]
      apply ih
      · exact count
      · simp only [transfer, leftPosition, rightPosition, capacity, count]
        exact clear.move_right (by omega) free _
      · omega
      · simpa only [capacity, length_transfer] using free

theorem clear_leftToRight {f e : Nat} (count : l.noOfElements_ = n)
    (clear : Clear l.elements_ f n none) (some_ : 0 < f) (before : e ≤ f) (gap : f ≤ n)
    (free : n < l.capacity) : Clear (l.leftToRight (f - 1) e).elements_ e n none := by
  obtain ⟨k, rfl⟩ := Nat.exists_eq_add_of_le before
  have turns : e + k - 1 + 1 - e = k := by omega
  rw [BtList.leftToRight, turns]
  exact clear_leftToRightLoop count clear gap free

theorem clear_rightToLeft {f e : Nat} (count : l.noOfElements_ = n)
    (clear : Clear l.elements_ f n none) (behind : f ≤ e) (gap : e ≤ n)
    (free : n < l.capacity) : Clear (l.rightToLeft f e).elements_ e n none := by
  obtain ⟨k, rfl⟩ := Nat.exists_eq_add_of_le behind
  have turns : f + k - f = k := by omega
  rw [BtList.rightToLeft, turns]
  exact clear_rightToLeftLoop count clear gap free

end

/-! ## The operations -/

namespace Sound

variable {l : BtList α} {xs : List α}

theorem count (sound : l.Sound xs) : l.noOfElements_ = xs.length := sound.represents.count

theorem gap (sound : l.Sound xs) : l.free_ ≤ xs.length := by
  simpa using (Gap.holds sound.represents).gap

theorem fits (sound : l.Sound xs) : xs.length ≤ l.capacity := by
  simpa [capacity] using (Gap.holds sound.represents).fits

theorem new (s : Nat) : (BtList.new s : BtList α).Sound [] where
  represents := Represents.new s
  clear := by
    intro i _ before
    have inside : i < s := by simpa [BtList.new] using before
    rw [BtList.new, List.getElem?_replicate, if_pos inside]

theorem place (sound : l.Sound xs) {at_ : Nat} (valid : at_ ≤ xs.length)
    (free : xs.length < l.capacity) (o : α) : (l.place at_ o).Sound (xs.insertIdx at_ o) := by
  have count := sound.count
  have roomy : l.noOfElements_ < l.capacity := by omega
  have stored := (sound.represents.place valid roomy o).1
  refine ⟨stored, ?_⟩
  have longer : (xs.insertIdx at_ o).length = xs.length + 1 := by
    rw [List.length_insertIdx, if_pos valid]
  rw [longer, BtList.place]
  apply Clear.insert
  split
  · rename_i before
    exact clear_leftToRight count sound.clear (Nat.zero_lt_of_lt before) (Nat.le_of_lt before)
      sound.gap free
  · split
    · rename_i behind
      exact clear_rightToLeft count sound.clear (Nat.le_of_lt behind) valid free
    · have here : l.free_ = at_ := by omega
      rw [← here]
      exact sound.clear

/-- The pointers of any array, without the null ones, are added at the end. -/
theorem copyElements (sound : l.Sound xs) (from_ : List (Option α))
    (roomy : xs.length + from_.length ≤ l.capacity) :
    ∃ l', l.copyElements from_ = some l' ∧ l'.Sound (xs ++ from_.reduceOption) ∧
      l'.capacity = l.capacity := by
  induction from_ generalizing l xs with
  | nil => exact ⟨l, rfl, by simpa using sound, rfl⟩
  | cons c from_ ih =>
      have count := sound.count
      rw [List.length_cons] at roomy
      cases c with
      | none =>
          obtain ⟨l', copied, sound', same⟩ := ih sound (by omega)
          exact ⟨l', copied, by rwa [List.reduceOption_cons_of_none], same⟩
      | some c =>
          have free : l.noOfElements_ < l.capacity := by omega
          have placed := sound.place (Nat.le_of_eq count) (by omega) c
          have same := (sound.represents.place (Nat.le_of_eq count) free c).2
          rw [count, List.insertIdx_length_self] at placed
          obtain ⟨l', copied, sound', same'⟩ := ih placed (by
            rw [← count, same, List.length_append, List.length_singleton]
            omega)
          refine ⟨l', ?_, ?_, ?_⟩
          · rw [BtList.copyElements, if_neg (Nat.not_le.mpr free), count]
            exact copied
          · rwa [List.reduceOption_cons_of_some, List.append_cons]
          · rw [same', ← count, same]

theorem expand (sound : l.Sound xs) (full : l.capacity ≤ l.noOfElements_) :
    ∃ l', l.expand = some l' ∧ l'.Sound xs ∧ xs.length < l'.capacity := by
  have count := sound.count
  have fits := sound.fits
  have cells : l.elements_ = xs.map some :=
    (Gap.holds sound.represents).eq_of_full (by simp only [capacity, List.length_map] at *; omega)
  have room : (BtList.new ((l.capacity + 1) * 2) : BtList α).capacity = (l.capacity + 1) * 2 :=
    List.length_replicate
  obtain ⟨l', copied, sound', same⟩ := (Sound.new ((l.capacity + 1) * 2)).copyElements
    (xs.map some) (by rw [room, List.length_nil, List.length_map]; omega)
  refine ⟨l', ?_, ?_, ?_⟩
  · rw [BtList.expand, cells]
    exact copied
  · have all : (xs.map some).reduceOption = xs := by simp [List.reduceOption]
    rwa [all] at sound'
  · rw [same, room]
    omega

theorem insert (sound : l.Sound xs) {at_ : Nat} (valid : at_ ≤ xs.length) (o : α) :
    ∃ l', l.insert at_ o = some (l', some o) ∧ l'.Sound (xs.insertIdx at_ o) := by
  have count := sound.count
  have inRange : ¬l.noOfElements_ < at_ := by omega
  rw [BtList.insert, if_neg inRange]
  split
  · rename_i full
    obtain ⟨l', expanded, sound', free⟩ := sound.expand full
    rw [expanded]
    exact ⟨_, rfl, sound'.place valid free o⟩
  · rename_i roomy
    exact ⟨_, rfl, sound.place valid (by omega) o⟩

/-- Forgetting the removed element, whose cell is one of the free ones now. -/
theorem drop {k : BtList α} {at_ : Nat} (count : k.noOfElements_ = xs.length)
    (valid : at_ < xs.length)
    (holds : Holds k.elements_ at_ (((xs.map some).set at_ none).eraseIdx at_))
    (clear : Clear k.elements_ at_ (xs.length - 1) none) :
    (⟨k.elements_, k.noOfElements_ - 1, at_⟩ : BtList α).Sound (xs.eraseIdx at_) := by
  refine ⟨Represents.drop count valid holds, ?_⟩
  rwa [List.length_eraseIdx_of_lt valid]

theorem removeAt (sound : l.Sound xs) {at_ : Nat} (valid : at_ < xs.length) :
    ∃ l', l.removeAt at_ = some (l', xs[at_]?) ∧ l'.Sound (xs.eraseIdx at_) := by
  have count := sound.count
  have fits := sound.fits
  obtain ⟨pos, found, there, where_⟩ := sound.represents.position valid
  have inside : at_ < ((xs.map some).set at_ none).length := by simpa using valid
  have erased : ((xs.map some).set at_ none)[at_]? = some none := by
    rw [List.getElem?_set_self (by simpa using valid)]
  have cleared : ({ l with elements_ := l.elements_.set pos none } : BtList α).Gap l.free_
      ((xs.map some).set at_ none) := by
    refine ⟨by simpa using count, ?_⟩
    have holds := (Gap.holds sound.represents).set at_ (by simpa using valid) none
    rwa [List.length_map, ← where_] at holds
  have clear : Clear (l.elements_.set pos none) l.free_ xs.length none := by
    intro i behind before
    have same := sound.clear i behind (by simpa using before)
    grind
  have whole : ((xs.map some).set at_ none).length = xs.length := by simp
  have kept : ({ l with elements_ := l.elements_.set pos none } : BtList α).noOfElements_ =
      xs.length := count
  rw [BtList.removeAt, found]
  refine ⟨_, Option.some_inj.mpr (Prod.ext rfl ?_), ?_⟩
  · simp [List.getD_eq_getElem?_getD, there]
  · split
    · rename_i free
      have roomy : xs.length < l.capacity := by simpa [count, capacity] using free
      split
      · rename_i before
        have gap := cleared.leftToRight (Nat.zero_lt_of_lt before) before free
        have left := gap.holds.left at_ (Nat.lt_succ_self at_)
        rw [erased] at left
        have rest := clear_leftToRight kept clear (Nat.zero_lt_of_lt before) before
          sound.gap (by simpa [capacity] using roomy)
        exact drop (gap.count.trans whole) valid gap.holds.erase_left
          (rest.erase_left (by simpa [capacity] using fits) left)
      · split
        · rename_i behind
          have gap := cleared.rightToLeft (Nat.le_of_lt behind) (Nat.le_of_lt inside) free
          have right := gap.holds.right at_ (Nat.le_refl at_) inside
          rw [erased, whole] at right
          have rest := clear_rightToLeft kept clear (Nat.le_of_lt behind) (Nat.le_of_lt valid)
            (by simpa [capacity] using roomy)
          exact drop (gap.count.trans whole) valid (gap.holds.erase_right inside)
            (rest.erase_right (by simpa [capacity] using fits) right)
        · rename_i notBefore notBehind
          have here : l.free_ = at_ :=
            Nat.le_antisymm (Nat.le_of_not_lt notBefore) (Nat.le_of_not_lt notBehind)
          rw [here] at cleared clear
          have right := cleared.holds.right at_ (Nat.le_refl at_) inside
          rw [erased, whole] at right
          exact drop count valid (cleared.holds.erase_right inside)
            (clear.erase_right (by simpa [capacity] using fits) right)
    · rename_i full
      have filled := Nat.le_antisymm cleared.holds.fits (cleared.count ▸ Nat.le_of_not_lt full)
      have holds := cleared.holds.of_full filled (Nat.le_of_lt inside)
      have right := holds.right at_ (Nat.le_refl at_) inside
      rw [erased, whole] at right
      exact drop count valid (holds.erase_right inside)
        ((Clear.of_full (Nat.le_of_eq (filled.symm.trans whole))).erase_right (by simpa [capacity] using fits)
          right)

theorem atPut (sound : l.Sound xs) {n : Nat} (valid : n < xs.length) (o : α) :
    ∃ l', l.atPut n o = some l' ∧ l'.Sound (xs.set n o) := by
  obtain ⟨pos, found, there, where_⟩ := sound.represents.position valid
  have gap := sound.gap
  have fits := sound.fits
  refine ⟨{ l with elements_ := l.elements_.set pos (some o) }, by rw [BtList.atPut, found]; rfl,
    ⟨⟨by simpa using sound.count, ?_⟩, ?_⟩⟩
  · have holds := (Gap.holds sound.represents).set n (by simpa using valid) (some o)
    rw [← List.map_set] at holds
    simpa [where_] using holds
  · intro i behind before
    have same := sound.clear i behind (by simpa using before)
    have apart : pos ≠ i := by
      change l.free_ ≤ i at behind
      simp only [capacity, List.length_set] at fits before
      split at where_ <;> omega
    rw [List.getElem?_set_ne apart]
    exact same

theorem assign (l : BtList α) (from_ : List (Option α)) :
    ∃ l', l.assign from_ = some l' ∧ l'.Sound from_.reduceOption := by
  have room (s : Nat) : (BtList.new s : BtList α).capacity = s := List.length_replicate
  rw [BtList.assign, deleteContents, room]
  split
  · obtain ⟨l', copied, sound, -⟩ := (Sound.new from_.length).copyElements from_
      (by rw [room, List.length_nil]; omega)
    exact ⟨l', copied, by simpa using sound⟩
  · obtain ⟨l', copied, sound, -⟩ := (Sound.new l.capacity).copyElements from_
      (by rw [room, List.length_nil]; omega)
    exact ⟨l', copied, by simpa using sound⟩

theorem index (sound : l.Sound xs) {i : Nat} (inside : i < xs.length) : l.index i = some xs[i]? :=
  sound.represents.index inside

theorem sequence_eq (sound : l.Sound xs) : l.sequence = xs.map some := by
  apply List.ext_getElem
  · rw [sequence, List.length_map, List.length_range, List.length_map, sound.count]
  · intro i left right
    have inside : i < xs.length := by simpa using right
    simp only [sequence, List.getElem_map, List.getElem_range, sound.index inside,
      List.getElem?_eq_getElem inside, Option.getD_some]

/-! ## The gap is closed -/

/-- A range that is closed properly stands in one row. -/
theorem array (sound : l.Sound xs) {s n : Nat} (inside : s + n ≤ xs.length)
    (closes : l.Closes s n) :
    (l.array s n).1.Sound xs ∧
      ∀ i < n, (l.array s n).1.elements_[(l.array s n).2 + i]? = some xs[s + i]? := by
  have count := sound.count
  have fits := sound.fits
  have gap := sound.gap
  have holds := Gap.holds sound.represents
  have there (i : Nat) (ranged : i < n) : (xs.map some)[s + i]? = some xs[s + i]? := by
    rw [List.getElem?_map, List.getElem?_eq_getElem (by omega)]
    rfl
  rw [BtList.array]
  split
  · rename_i behind
    refine ⟨sound, fun i ranged => ?_⟩
    have right := holds.right (s + i) (by omega) (by simp only [List.length_map]; omega)
    have place : l.rightPosition s + i = s + i + l.elements_.length - (xs.map some).length := by
      simp only [rightPosition, capacity, List.length_map, count] at fits ⊢
      omega
    rw [place, right, there i ranged]
  · rename_i before
    have closed := closes (by omega)
    have moved : ({ l.rightToLeft l.free_ (s + n) with free_ := s + n } : BtList α).Sound xs := by
      split at closed
      · rename_i free
        have whole : s + n ≤ (xs.map some).length := by simpa using inside
        have gap' := Gap.rightToLeft sound.represents closed whole free
        exact ⟨⟨gap'.count, gap'.holds⟩,
          clear_rightToLeft count sound.clear closed inside (by omega)⟩
      · rename_i full
        have turns : s + n - l.free_ = 0 := by omega
        have filled : (xs.map some).length = l.elements_.length := by
          simp only [capacity, List.length_map] at fits full ⊢
          omega
        have same : l.rightToLeft l.free_ (s + n) = l := by
          rw [BtList.rightToLeft, turns]
          rfl
        rw [same]
        refine ⟨⟨by simpa using count, holds.of_full filled (by simpa using inside)⟩, ?_⟩
        exact Clear.of_full (Nat.le_of_eq (filled.symm.trans (List.length_map _)))
    refine ⟨moved, fun i ranged => ?_⟩
    have left := (Gap.holds moved.represents).left (s + i) (Nat.add_lt_add_left ranged s)
    rw [left, there i ranged]

/-- A row of pointers without null ones that is put in another order. -/
theorem sorted_eq (qsort : Qsort α) (xs : List α) :
    ∃ ys : List α, qsort.sorted (xs.map some) = ys.map some ∧ ys.Perm xs := by
  have perm := qsort.perm (xs.map some)
  have every : ∀ c ∈ qsort.sorted (xs.map some), ∃ x, c = some x := by
    intro c mem
    obtain ⟨x, -, rfl⟩ := List.mem_map.mp (perm.mem_iff.mp mem)
    exact ⟨x, rfl⟩
  have pointers (row : List (Option α)) (some_ : ∀ c ∈ row, ∃ x, c = some x) :
      row = row.reduceOption.map some := by
    induction row with
    | nil => rfl
    | cons c row ih =>
        obtain ⟨x, rfl⟩ := some_ c List.mem_cons_self
        rw [List.reduceOption_cons_of_some, List.map_cons,
          ← ih fun d mem => some_ d (List.mem_cons_of_mem _ mem)]
  refine ⟨_, pointers _ every, ?_⟩
  have kept := perm.filterMap id
  rwa [List.filterMap_map, Function.id_comp, List.filterMap_some] at kept

/-- Where the row of all elements is. -/
theorem array_ends (sound : l.Sound xs) :
    ((l.array 0 xs.length).1.free_ = 0 ∧
        (l.array 0 xs.length).2 + xs.length = (l.array 0 xs.length).1.capacity) ∨
      ((l.array 0 xs.length).1.free_ = xs.length ∧ (l.array 0 xs.length).2 = 0) := by
  have count := sound.count
  have fits := sound.fits
  rw [BtList.array]
  split
  · rename_i behind
    left
    refine ⟨Nat.le_zero.mp behind, ?_⟩
    change l.rightPosition 0 + xs.length = l.capacity
    rw [rightPosition, count]
    omega
  · right
    exact ⟨Nat.zero_add _, rfl⟩

/-- Other elements are stored over a row of all elements. -/
theorem overwrite (sound : l.Sound xs) {p : Nat} {ys : List α} (same : ys.length = xs.length)
    (ends : (l.free_ = 0 ∧ p + xs.length = l.capacity) ∨ (l.free_ = xs.length ∧ p = 0)) :
    ({ l with elements_ := l.elements_.take p ++
      (ys.map some ++ l.elements_.drop (p + xs.length)) } : BtList α).Sound ys := by
  have count := sound.count
  have fits := sound.fits
  have clear := sound.clear
  rw [capacity] at fits ends
  have length : (l.elements_.take p ++
      (ys.map some ++ l.elements_.drop (p + xs.length))).length = l.elements_.length := by
    simp only [List.length_append, List.length_take, List.length_map, List.length_drop]
    omega
  have inRow (i : Nat) (inside : i < ys.length) : (l.elements_.take p ++
      (ys.map some ++ l.elements_.drop (p + xs.length)))[p + i]? = (ys.map some)[i]? := by
    have row : i < (ys.map some).length := by simpa using inside
    have start : (l.elements_.take p).length = p := by
      rw [List.length_take]
      omega
    rw [List.getElem?_append_right (by omega), start, Nat.add_sub_cancel_left,
      List.getElem?_append_left row]
  have holds : Holds (l.elements_.take p ++ (ys.map some ++ l.elements_.drop (p + xs.length)))
      l.free_ (ys.map some) := by
    refine ⟨by rw [List.length_map, length, same]; exact fits, ?_, ?_, ?_⟩
    · rw [List.length_map]
      omega
    · intro i before
      have there := inRow i (by omega)
      cases ends with
      | inl empty => omega
      | inr whole => simpa only [whole.2, Nat.zero_add] using there
    · intro i behind inside
      rw [List.length_map] at inside
      have there := inRow i inside
      have place : i + l.elements_.length - ys.length = p + i := by omega
      rwa [List.length_map, length, place]
  have free : Clear (l.elements_.take p ++ (ys.map some ++ l.elements_.drop (p + xs.length)))
      l.free_ ys.length none := by
    intro i behind before
    rw [length, same] at before
    rw [← clear i behind before]
    cases ends with
    | inl empty =>
        have inside : i < (l.elements_.take p).length := by
          rw [List.length_take]
          omega
        rw [List.getElem?_append_left inside, List.getElem?_take_of_lt (by omega)]
    | inr whole =>
        have place : xs.length + (i - (ys.map some).length) = i := by
          rw [List.length_map]
          omega
        rw [whole.2, List.take_zero, List.nil_append,
          List.getElem?_append_right (by rw [List.length_map]; omega), List.getElem?_drop,
          Nat.zero_add, place]
  exact ⟨⟨by simpa using count.trans same.symm, holds⟩, free⟩

theorem sort (sound : l.Sound xs) (qsort : Qsort α) (closes : l.Closes 0 l.noOfElements_) :
    ∃ ys, (l.sort qsort).Sound ys ∧ ys.Perm xs := by
  have count := sound.count
  rw [count] at closes
  obtain ⟨sound', row⟩ := sound.array (by omega) closes
  have ends := sound.array_ends
  obtain ⟨ys, sorted, perm⟩ := sorted_eq qsort xs
  refine ⟨ys, ?_, perm⟩
  have slots : ((l.array 0 xs.length).1.elements_.drop (l.array 0 xs.length).2).take xs.length =
      xs.map some := by
    have fits := sound'.fits
    rw [capacity] at fits
    apply List.ext_getElem?
    intro i
    by_cases inside : i < xs.length
    · have there := row i inside
      rw [Nat.zero_add] at there
      rw [List.getElem?_take_of_lt inside, List.getElem?_drop, there, List.getElem?_map,
        List.getElem?_eq_getElem inside]
      rfl
    · rw [List.getElem?_eq_none (by rw [List.length_take]; omega),
        List.getElem?_eq_none (by rw [List.length_map]; omega)]
  have replaced := sound'.overwrite perm.length_eq ends
  rw [← sorted, ← slots] at replaced
  simp only [BtList.sort, count]
  exact replaced

/-! ## The gap is not closed -/

/-- In a full list both places of an element are the same, and the element is lost. -/
theorem lost {l : BtList α} (full : l.noOfElements_ = l.capacity) (s k : Nat) {j : Nat}
    (inside : j < l.capacity) : (l.rightToLeftLoop s k).elements_[j]? =
      if s ≤ j ∧ j < s + k then some none else l.elements_[j]? := by
  induction k generalizing l s with
  | zero => rw [rightToLeftLoop, if_neg (by omega)]
  | succ k ih =>
      have here : l.rightPosition s = s := by
        rw [rightPosition, full]
        omega
      have same : (l.transfer s s).capacity = l.capacity := length_transfer l s s
      have step := @ih (l.transfer s s) (full.trans same.symm) (s + 1) (by rw [same]; exact inside)
      rw [rightToLeftLoop, here, leftPosition, step]
      by_cases first : j = s
      · have cleared : (l.transfer s s).elements_[j]? = some none := by
          rw [first, transfer, List.getElem?_set_self (by rw [List.length_set, ← first]; exact inside)]
        rw [if_neg (by omega), if_pos (by omega), cleared]
      · have kept : (l.transfer s s).elements_[j]? = l.elements_[j]? := by
          rw [transfer, List.getElem?_set_ne (Ne.symm first), List.getElem?_set_ne (Ne.symm first)]
        rw [kept]
        split <;> split <;> first | rfl | omega

theorem noOfElements_rightToLeft (l : BtList α) (s e : Nat) :
    (l.rightToLeft s e).noOfElements_ = l.noOfElements_ := by
  unfold BtList.rightToLeft
  generalize e - s = k
  induction k generalizing l s with
  | zero => rfl
  | succ k ih =>
      rw [rightToLeftLoop, ih]
      rfl

/-- Where a range is closed improperly, an element by index is a null pointer afterwards. -/
theorem null_of_not_closes (sound : l.Sound xs) {s n : Nat} (inside : s + n ≤ xs.length)
    (improper : ¬l.Closes s n) :
    (l.array s n).1.noOfElements_ = xs.length ∧
      ∃ j < xs.length, (l.array s n).1.index j = some none := by
  have count := sound.count
  have fits := sound.fits
  have gap := sound.gap
  obtain ⟨before, open_⟩ := Classical.not_imp.mp improper
  rw [BtList.array, if_neg (by omega)]
  split at open_
  · rename_i free
    -- nothing is moved, and the last element before the gap is looked for behind it
    have turns : s + n - l.free_ = 0 := by omega
    have same : l.rightToLeft l.free_ (s + n) = l := by
      rw [BtList.rightToLeft, turns]
      rfl
    rw [same]
    refine ⟨count, l.free_ - 1, by omega, ?_⟩
    have cell := sound.clear (l.free_ - 1 + l.capacity - xs.length) (by omega)
      (by rw [capacity] at *; omega)
    simp only [BtList.index, BtList.position, count, capacity, rightPosition]
    rw [if_neg (by omega), if_neg (by omega)]
    simp only [Option.map_some, List.getD_eq_getElem?_getD]
    rw [capacity] at cell
    rw [cell]
    rfl
  · rename_i full
    have filled : l.noOfElements_ = l.capacity := by omega
    have turns : l.free_ + (s + n - l.free_) = s + n := by omega
    have cell := lost filled l.free_ (s + n - l.free_) (j := l.free_) (by omega)
    rw [if_pos (by omega)] at cell
    have kept : (l.rightToLeft l.free_ (s + n)).noOfElements_ = xs.length :=
      (noOfElements_rightToLeft l _ _).trans count
    refine ⟨kept, l.free_, by omega, ?_⟩
    simp only [BtList.index, BtList.position, kept]
    rw [if_neg (by omega), if_pos (by omega)]
    simp only [Option.map_some, List.getD_eq_getElem?_getD, leftPosition]
    rw [BtList.rightToLeft, cell]
    rfl

theorem sequence_getElem? (l : BtList α) {j : Nat} (inside : j < l.noOfElements_) :
    l.sequence[j]? = some ((l.index j).getD none) := by
  rw [sequence, List.getElem?_map, List.getElem?_range inside, Option.map_some]

theorem keeps_iff (sound : l.Sound xs) {s n : Nat} (inside : s + n ≤ xs.length) :
    l.Keeps s n ↔ l.Closes s n := by
  constructor
  · intro keeps
    by_contra improper
    obtain ⟨count, j, listed, null⟩ := sound.null_of_not_closes inside improper
    have there := sequence_getElem? (l.array s n).1 (j := j) (by rw [count]; exact listed)
    rw [keeps.1, sound.sequence_eq, null, List.getElem?_map, List.getElem?_eq_getElem listed] at there
    cases there
  · intro closes
    obtain ⟨sound', row⟩ := sound.array inside closes
    refine ⟨sound'.sequence_eq.trans sound.sequence_eq.symm, fun i ranged => ?_⟩
    rw [row i ranged, sound.sequence_eq, List.getElem?_map, List.getElem?_eq_getElem (by omega)]
    rfl

/-- A full list whose gap is inside loses an element when it is sorted. -/
theorem null_of_sort (sound : l.Sound xs) (qsort : Qsort α)
    (improper : ¬l.Closes 0 l.noOfElements_) : none ∈ (l.sort qsort).sequence := by
  have count := sound.count
  have fits := sound.fits
  have gap := sound.gap
  obtain ⟨before, open_⟩ := Classical.not_imp.mp improper
  rw [Nat.zero_add] at open_
  have full : l.noOfElements_ = l.capacity := by
    split at open_ <;> omega
  have inside : l.free_ < l.noOfElements_ := by
    split at open_ <;> omega
  have cell := lost full l.free_ (l.noOfElements_ - l.free_) (j := l.free_) (by omega)
  rw [if_pos (by omega)] at cell
  have closed : l.array 0 l.noOfElements_ =
      (⟨(l.rightToLeft l.free_ l.noOfElements_).elements_, l.noOfElements_, l.noOfElements_⟩, 0) := by
    rw [BtList.array, if_neg (by omega), Nat.zero_add]
    simp only [noOfElements_rightToLeft]
  have length : (l.rightToLeft l.free_ l.noOfElements_).elements_.length = l.noOfElements_ := by
    rw [length_rightToLeft, full, capacity]
  have row : none ∈ (l.rightToLeft l.free_ l.noOfElements_).elements_ := List.mem_of_getElem? cell
  simp only [BtList.sort, closed, List.drop_zero, List.take_zero, List.nil_append, Nat.zero_add]
  rw [List.take_of_length_le (Nat.le_of_eq length)]
  have perm := qsort.perm (l.rightToLeft l.free_ l.noOfElements_).elements_
  obtain ⟨j, short, null⟩ := List.getElem_of_mem (perm.mem_iff.mpr row)
  have ranged : j < l.noOfElements_ := by
    rw [← length, ← perm.length_eq]
    exact short
  apply List.mem_of_getElem? (i := j)
  refine (sequence_getElem? ⟨_, l.noOfElements_, l.noOfElements_⟩ ranged).trans ?_
  simp only [BtList.index, BtList.position, leftPosition]
  rw [if_neg (by omega), if_pos ranged]
  simp only [Option.map_some, Option.getD_some, List.getD_eq_getElem?_getD]
  rw [List.getElem?_append_left short, List.getElem?_eq_getElem short, null]
  rfl

theorem sort_iff (sound : l.Sound xs) (qsort : Qsort α) :
    (l.sort qsort).sequence.Perm l.sequence ↔ l.Closes 0 l.noOfElements_ := by
  constructor
  · intro perm
    by_contra improper
    have null := perm.mem_iff.mp (sound.null_of_sort qsort improper)
    rw [sound.sequence_eq] at null
    obtain ⟨x, -, absurd_⟩ := List.mem_map.mp null
    cases absurd_
  · intro closes
    obtain ⟨ys, sorted, perm⟩ := sound.sort qsort closes
    rw [sorted.sequence_eq, sound.sequence_eq]
    exact perm.map some

end Sound

/-! ## Runs -/

/-- The indices of a call are valid, and a range is closed properly. -/
def Proper (l : BtList α) : Call α → Prop
  | .op (.insert at_ _) => at_ ≤ l.noOfElements_
  | .op (.removeAt at_) => at_ < l.noOfElements_
  | .op (.append _) | .op (.prepend _) => True
  | .atPut n _ => n < l.noOfElements_
  | .deleteContents | .assign _ => True
  | .array s count => s + count ≤ l.noOfElements_ ∧ l.Closes s count
  | .sort _ => l.Closes 0 l.noOfElements_

instance (l : BtList α) : (c : Call α) → Decidable (l.Proper c)
  | .op (.insert _ _) | .op (.removeAt _) | .atPut _ _ => Nat.decLe _ _
  | .op (.append _) | .op (.prepend _) | .deleteContents | .assign _ => isTrue trivial
  | .array _ _ => instDecidableAnd
  | .sort _ => inferInstanceAs (Decidable (l.Closes 0 l.noOfElements_))

def runCalls (l : BtList α) (calls : List (Call α)) : Option (BtList α) := calls.foldlM call l

/-- Every call of a run is proper where it is made. -/
def ProperRun (l : BtList α) : List (Call α) → Prop
  | [] => True
  | c :: calls => l.Proper c ∧ match l.call c with
      | some l' => ProperRun l' calls
      | none => True

theorem Sound.call {l : BtList α} {xs : List α} (sound : l.Sound xs) {c : Call α}
    (proper : l.Proper c) : ∃ l' ys, l.call c = some l' ∧ l'.Sound ys := by
  have count := sound.count
  cases c with
  | op o =>
      cases o with
      | insert at_ o =>
          have valid : at_ ≤ l.noOfElements_ := proper
          obtain ⟨l', inserted, sound'⟩ := sound.insert (count ▸ valid) o
          exact ⟨l', _, by rw [BtList.call, step, inserted]; rfl, sound'⟩
      | append elm =>
          obtain ⟨l', inserted, sound'⟩ := sound.insert (Nat.le_refl xs.length) elm
          exact ⟨l', _, by rw [BtList.call, step, append, count, inserted]; rfl, sound'⟩
      | prepend elm =>
          obtain ⟨l', inserted, sound'⟩ := sound.insert (Nat.zero_le xs.length) elm
          exact ⟨l', _, by rw [BtList.call, step, prepend, inserted]; rfl, sound'⟩
      | removeAt at_ =>
          have valid : at_ < l.noOfElements_ := proper
          obtain ⟨l', removed, sound'⟩ := sound.removeAt (count ▸ valid)
          exact ⟨l', _, by rw [BtList.call, step, removed]; rfl, sound'⟩
  | atPut n o =>
      have valid : n < l.noOfElements_ := proper
      obtain ⟨l', put, sound'⟩ := sound.atPut (count ▸ valid) o
      exact ⟨l', _, put, sound'⟩
  | deleteContents => exact ⟨_, [], rfl, Sound.new l.capacity⟩
  | assign from_ =>
      obtain ⟨l', assigned, sound'⟩ := Sound.assign l from_
      exact ⟨l', _, assigned, sound'⟩
  | array s n =>
      obtain ⟨inside, closes⟩ := proper
      exact ⟨_, xs, rfl, (sound.array (count ▸ inside) closes).1⟩
  | sort qsort =>
      obtain ⟨ys, sorted, -⟩ := sound.sort qsort proper
      exact ⟨_, ys, rfl, sorted⟩

theorem Sound.run {l : BtList α} {xs : List α} (sound : l.Sound xs) {calls : List (Call α)}
    (proper : l.ProperRun calls) : ∃ l' ys, l.runCalls calls = some l' ∧ l'.Sound ys := by
  induction calls generalizing l xs with
  | nil => exact ⟨l, xs, rfl, sound⟩
  | cons c calls ih =>
      obtain ⟨l', ys, called, sound'⟩ := sound.call proper.1
      have rest := proper.2
      rw [called] at rest
      obtain ⟨l'', zs, ran, sound''⟩ := ih sound' rest
      refine ⟨l'', zs, ?_, sound''⟩
      rw [runCalls, List.foldlM_cons, called]
      exact ran

/-- After any run of proper calls, `array` finds a range of the elements in one row and leaves the
    list as it was exactly when the range is closed properly, and `sort` only permutes the elements
    exactly when the whole list is. -/
theorem array_keeps_iff (cap : Nat) (calls : List (Call α)) (proper : (new cap).ProperRun calls) :
    ∃ l, (new cap).runCalls calls = some l ∧ none ∉ l.sequence ∧
      (∀ s n, s + n ≤ l.size → (l.Keeps s n ↔ l.Closes s n)) ∧
      ∀ qsort, (l.sort qsort).sequence.Perm l.sequence ↔ l.Closes 0 l.size := by
  obtain ⟨l, xs, ran, sound⟩ := (Sound.new cap).run proper
  refine ⟨l, ran, ?_, fun s n inside => sound.keeps_iff (sound.count ▸ inside), sound.sort_iff⟩
  rw [sound.sequence_eq]
  simp

instance (l : BtList Nat) (s n : Nat) : Decidable (l.Keeps s n) := by
  unfold Keeps
  infer_instance

/-- A list of three elements, before the last of which the gap is. -/
theorem array_keeps_three :
    (⟨[some 1, some 2, none, some 3], 3, 2⟩ : BtList Nat).Keeps 0 3 := by
  obtain ⟨l, ran, -, keeps, -⟩ := array_keeps_iff (α := Nat) 4
    [.op (.append 1), .op (.append 3), .op (.insert 1 2)]
    ⟨by decide, by decide, by decide, trivial⟩
  cases ran
  exact (keeps 0 3 (by decide)).mpr (by decide)

/-- A list of two cells that is full, with the place of its gap between the elements. -/
theorem not_array_keeps : ¬ ∀ (cap : Nat) (calls : List (Call Nat)) (l : BtList Nat),
    (new cap).runCalls calls = some l → none ∉ l.sequence →
    ∀ s n, s + n ≤ l.size → l.Keeps s n := by
  intro claim
  have keeps := claim 2 [.op (.append 1), .op (.prepend 2)] ⟨[some 2, some 1], 2, 1⟩ rfl (by decide)
    0 2 (by decide)
  exact absurd keeps (by decide)

end BtList

end Tahi.Cm
