import Tahi.Cm.BtSet

/-! # Tables of any elements

Nothing obliges an element type to have a hash that its `isEqual` respects. The operations of a
table keep every element within reach of its own hash all the same, so that just those keys find
it in every table that have the same hash.
-/

namespace Tahi.Cm

open LinearProbing

namespace Virtual

variable {α : Type} (V : Virtual α)

/-! ## The operations -/

def findAt (t : BtSet α) (o : α) : Option α × Option Nat :=
  let size := t.capacity
  if size = 0 then (none, none)
  else
    let hash := (V.hashElement o).toNat
    V.findLoop t.elements_ o (hash % size) size

def find (t : BtSet α) (o : α) : Option α := (V.findAt t o).1

/-- `rehash` asks for the hash only. -/
def byHash : Elements α where
  hashElement := V.hashElement
  isSame a b := V.hashElement a == V.hashElement b
  refl a := beq_self_eq_true _
  symm a b same := by rwa [beq_iff_eq, eq_comm, ← beq_iff_eq]
  trans a b c same same' := by
    rw [beq_iff_eq] at *
    exact same.trans same'
  compatible a b same := by rwa [beq_iff_eq] at same

def rehash (t : BtSet α) (at_ : Nat) : BtSet α := BtSet.rehash V.byHash t at_

/-- What `addIfAbsent` does once the table is large enough. -/
def enter (t : BtSet α) (o : α) : BtSet α :=
  match V.findAt t o with
  | (none, some u) => ⟨t.elements_.set u (some o), t.noOfElements_ + 1⟩
  | _ => t

/-- Adds the elements of the old array. `none` would be an expansion inside an expansion. -/
def copyElements (t : BtSet α) : List (Option α) → Option (BtSet α)
  | [] => some t
  | none :: from_ => copyElements t from_
  | some c :: from_ =>
      if t.capacity * 2 < t.noOfElements_ * 3 then none
      else copyElements (V.enter t c) from_

def expand (t : BtSet α) : Option (BtSet α) :=
  V.copyElements ⟨List.replicate ((t.capacity + 1) * 2) none, 0⟩ t.elements_

def add (t : BtSet α) (o : α) : Option (BtSet α) :=
  let roomy := if t.capacity * 2 < t.noOfElements_ * 3 then V.expand t else some t
  roomy.map fun t => V.enter t o

def remove (t : BtSet α) (o : α) : BtSet α :=
  match V.findAt t o with
  | (some _, some n) => V.rehash ⟨t.elements_.set n none, t.noOfElements_ - 1⟩ n
  | _ => t

/-- The tables that a program can have. It may change what it has stored a pointer to, in what
    the hash is not made of. -/
inductive Made : BtSet α → Prop where
  | new (s : Nat) : Made (BtSet.new s)
  | add {t t' : BtSet α} {o : α} (made : Made t) (added : V.add t o = some t') : Made t'
  | remove {t : BtSet α} (made : Made t) (o : α) : Made (V.remove t o)
  | change {t : BtSet α} {p : Nat} {a b : α} (made : Made t)
      (there : t.elements_[p]? = some (some a)) (hash : V.hashElement b = V.hashElement a) :
      Made ⟨t.elements_.set p (some b), t.noOfElements_⟩

/-- A key finds an element in every table that the element is stored in. -/
def Finds (a k : α) : Prop := ∀ t, V.Made t → some a ∈ t.elements_ → (V.find t k).isSome

/-! ## They are those of a set -/

theorem findAt_virtual (E : Elements α) (t : BtSet α) (o : α) :
    E.virtual.findAt t o = t.findAt E o := by
  simp only [findAt, BtSet.findAt, BtSet.findLoop_virtual]
  rfl

/-! ## The invariant -/

/-- Every element is within reach of its own hash. -/
structure Kept (t : BtSet α) : Prop where
  count : t.noOfElements_ = t.elements_.reduceOption.length
  reachable : Reachable (V.home t.capacity) t.elements_
  even : 2 ∣ t.capacity
  some_ : 0 < t.capacity
  load : t.noOfElements_ * 3 ≤ t.capacity * 2 + 3

variable {V} {t : BtSet α}

theorem findAt_probed (kept : V.Kept t) (o : α) :
    Probed t.elements_ (V.home t.capacity o) (fun c => V.isSame c o) (V.findAt t o) := by
  unfold findAt
  rw [if_neg (Nat.ne_of_gt kept.some_)]
  exact V.findLoop_home kept.some_ o

namespace Kept

theorem home_lt (kept : V.Kept t) (x : α) : V.home t.capacity x < t.capacity :=
  Nat.mod_lt _ kept.some_

theorem cleared {n : Nat} (even : 2 ∣ n) (some_ : 0 < n) :
    V.Kept ⟨List.replicate n none, 0⟩ where
  count := by simp
  reachable := .empty _ _
  even := by rwa [BtSet.capacity, List.length_replicate]
  some_ := by rwa [BtSet.capacity, List.length_replicate]
  load := Nat.zero_le _

theorem new (s : Nat) : V.Kept (BtSet.new s) := by
  apply cleared
  · split
    · exact Nat.dvd_mul_left 2 s
    · exact Nat.dvd_refl 2
  · split <;> omega

/-- The element goes into the first free cell behind its hash. -/
theorem enter (kept : V.Kept t) (roomy : t.noOfElements_ * 3 ≤ t.capacity * 2) (o : α) :
    V.Kept (V.enter t o) ∧ (V.enter t o).capacity = t.capacity ∧
      (V.enter t o).noOfElements_ ≤ t.noOfElements_ + 1 := by
  have probed := findAt_probed kept o
  unfold Virtual.enter
  generalize V.findAt t o = result at probed
  cases probed with
  | hit p c there found => exact ⟨kept, rfl, Nat.le_succ _⟩
  | full way => exact ⟨kept, rfl, Nat.le_succ _⟩
  | free p here way =>
      have same : (⟨t.elements_.set p (some o), t.noOfElements_ + 1⟩ : BtSet α).capacity =
          t.capacity := List.length_set
      obtain ⟨rest, before, after⟩ := BtSet.reduceOption_set here (some o)
      refine ⟨?_, same, Nat.le_refl _⟩
      constructor
      · change t.noOfElements_ + 1 = (t.elements_.set p (some o)).reduceOption.length
        rw [after.length_eq, kept.count, before.length_eq]
        rfl
      · rw [same]
        refine kept.reachable.set (kept.home_lt o) fun q inside near => ?_
        obtain ⟨c, there, -⟩ := way q inside near
        simp [there]
      · exact same ▸ kept.even
      · exact same ▸ kept.some_
      · rw [same]
        change (t.noOfElements_ + 1) * 3 ≤ t.capacity * 2 + 3
        omega

theorem copyElements (kept : V.Kept t) {from_ : List (Option α)}
    (roomy : (from_.length + t.noOfElements_) * 3 ≤ t.capacity * 2) :
    ∃ t', V.copyElements t from_ = some t' ∧ V.Kept t' ∧ t'.noOfElements_ * 3 ≤ t'.capacity * 2 := by
  induction from_ generalizing t with
  | nil => exact ⟨t, rfl, kept, by simpa using roomy⟩
  | cons a from_ ih =>
      rw [List.length_cons] at roomy
      cases a with
      | none => exact ih kept (by omega)
      | some c =>
          have free : ¬t.capacity * 2 < t.noOfElements_ * 3 := by omega
          obtain ⟨kept', same, more⟩ := kept.enter (Nat.le_of_not_lt free) c
          rw [Virtual.copyElements, if_neg free]
          apply ih kept'
          rw [same]
          omega

/-- A table of any load expands to one with room for another element. -/
theorem expand (t : BtSet α) :
    ∃ t', V.expand t = some t' ∧ V.Kept t' ∧ t'.noOfElements_ * 3 ≤ t'.capacity * 2 := by
  have empty : V.Kept ⟨List.replicate ((t.capacity + 1) * 2) none, 0⟩ :=
    cleared (Nat.dvd_mul_left 2 _) (by omega)
  apply empty.copyElements
  have room : (⟨List.replicate ((t.capacity + 1) * 2) none, 0⟩ : BtSet α).capacity =
      (t.capacity + 1) * 2 := List.length_replicate
  rw [room]
  change (t.capacity + 0) * 3 ≤ (t.capacity + 1) * 2 * 2
  omega

theorem add (kept : V.Kept t) (o : α) : ∃ t', V.add t o = some t' ∧ V.Kept t' := by
  have roomy : ∃ t', (if t.capacity * 2 < t.noOfElements_ * 3 then V.expand t else some t) =
      some t' ∧ V.Kept t' ∧ t'.noOfElements_ * 3 ≤ t'.capacity * 2 := by
    split
    · exact expand t
    next free => exact ⟨t, rfl, kept, Nat.le_of_not_lt free⟩
  obtain ⟨t', expanded, kept', free⟩ := roomy
  refine ⟨V.enter t' o, ?_, (kept'.enter free o).1⟩
  simp only [Virtual.add, expanded, Option.map_some]

theorem remove (kept : V.Kept t) (o : α) : V.Kept (V.remove t o) := by
  have probed := findAt_probed kept o
  unfold Virtual.remove
  generalize V.findAt t o = result at probed
  cases probed with
  | free p here way => exact kept
  | full way => exact kept
  | hit p c there found =>
      have inside : p < t.capacity := (List.getElem?_eq_some_iff.mp there).1
      obtain ⟨rest, before, after⟩ := BtSet.reduceOption_set there none
      have other := BtSet.other_free kept.count kept.even kept.some_ kept.load there
      obtain ⟨reachable, contents, same⟩ :=
        BtSet.rehash_freed V.byHash inside kept.reachable other (t.noOfElements_ - 1)
      change V.Kept (BtSet.rehash V.byHash ⟨t.elements_.set p none, t.noOfElements_ - 1⟩ p)
      constructor
      · change t.noOfElements_ - 1 = _
        rw [contents.length_eq, after.length_eq, kept.count, before.length_eq]
        rfl
      · rw [same]
        exact reachable
      · rw [same]
        exact kept.even
      · rw [same]
        exact kept.some_
      · rw [same]
        exact Nat.le_trans (Nat.mul_le_mul_right 3 (Nat.sub_le _ 1)) kept.load

theorem change (kept : V.Kept t) {p : Nat} {a b : α} (there : t.elements_[p]? = some (some a))
    (hash : V.hashElement b = V.hashElement a) :
    V.Kept ⟨t.elements_.set p (some b), t.noOfElements_⟩ := by
  have same : (⟨t.elements_.set p (some b), t.noOfElements_⟩ : BtSet α).capacity = t.capacity :=
    List.length_set
  have homes : V.home t.capacity b = V.home t.capacity a := by
    rw [home, home, hash]
  obtain ⟨rest, before, after⟩ := BtSet.reduceOption_set there (some b)
  constructor
  · change t.noOfElements_ = (t.elements_.set p (some b)).reduceOption.length
    rw [after.length_eq, kept.count, before.length_eq]
    rfl
  · rw [same]
    refine kept.reachable.set (kept.home_lt b) fun q inside near => ?_
    rw [homes] at near
    exact kept.reachable p a there q inside (Nat.le_of_lt near)
  · exact same ▸ kept.even
  · exact same ▸ kept.some_
  · rw [same]
    exact kept.load

end Kept

theorem Made.kept (made : V.Made t) : V.Kept t := by
  induction made with
  | new s => exact .new s
  | add _ added kept =>
      obtain ⟨t', added', kept'⟩ := kept.add _
      rw [added] at added'
      exact Option.some.inj added' ▸ kept'
  | remove _ o kept => exact kept.remove o
  | change _ there hash kept => exact kept.change there hash

/-! ## What is found -/

/-- A key that has the hash of an element stored finds that element, if not another one. -/
theorem finds_of_hash_eq {a k : α} (same : V.isSame a k)
    (hash : V.hashElement a = V.hashElement k) : V.Finds a k := by
  intro t made stored
  have kept := made.kept
  have homes : V.home t.capacity a = V.home t.capacity k := by
    rw [home, home, hash]
  obtain ⟨p, there⟩ := List.mem_iff_getElem?.mp stored
  have inside : p < t.capacity := (List.getElem?_eq_some_iff.mp there).1
  -- A cell that the walk passes does not have the element.
  have passed {d : α} (cell : t.elements_[p]? = some (some d)) (other : ¬V.isSame d k) : False := by
    rw [there, Option.some_inj, Option.some_inj] at cell
    exact other (cell ▸ same)
  have probed := findAt_probed kept k
  unfold find
  generalize V.findAt t k = result at probed
  cases probed with
  | hit q c there' found => rfl
  | free q here way =>
      have near := kept.reachable.before there here
      rw [homes] at near
      obtain ⟨d, cell, other⟩ := way p inside near
      exact (passed cell other).elim
  | full way =>
      obtain ⟨d, cell, other⟩ := way p inside
      exact (passed cell other).elim

/-- A key whose first cell is free finds nothing. -/
theorem findAt_free {o : α} (free : t.elements_[V.home t.capacity o]? = some none) :
    V.findAt t o = (none, some (V.home t.capacity o)) := by
  obtain ⟨inside, -⟩ := List.getElem?_eq_some_iff.mp free
  obtain ⟨u, size⟩ : ∃ u, t.capacity = u + 1 := Nat.exists_eq_add_one.mpr (Nat.zero_lt_of_lt inside)
  have turn : V.findLoop t.elements_ o (V.home t.capacity o) (u + 1) =
      (none, some (V.home t.capacity o)) := by
    simp only [findLoop, if_neg (Nat.not_le.mpr inside), List.getD_eq_getElem?_getD, free,
      Option.getD_some]
  rw [findAt, if_neg (by omega)]
  exact (congrArg _ size).trans turn

/-- A table of one element. -/
theorem made_single (V : Virtual α) {s : Nat} (some_ : 1 < s) (a : α) :
    V.Made ⟨(List.replicate (s * 2) none).set (V.home (s * 2) a) (some a), 1⟩ := by
  have size : (BtSet.new s : BtSet α).capacity = s * 2 := by
    simp only [BtSet.new, BtSet.capacity, List.length_replicate, if_pos some_]
  have cells : (BtSet.new s : BtSet α).elements_ = List.replicate (s * 2) none := by
    simp only [BtSet.new, if_pos some_]
  have inside : V.home (s * 2) a < s * 2 := Nat.mod_lt _ (by omega)
  have found := findAt_free (V := V) (t := BtSet.new s) (o := a) (by
    rw [size, cells, List.getElem?_replicate, if_pos inside])
  apply Made.add (Made.new s) (o := a)
  rw [Virtual.add, if_neg (by simp [BtSet.new]), Option.map_some, enter, found, size, cells]
  rfl

/-- Hashes that differ do so in a table of some size. -/
theorem exists_size {h h' : UInt32} (ne : h ≠ h') :
    ∃ s, 1 < s ∧ h.toNat % (s * 2) ≠ h'.toNat % (s * 2) := by
  have apart : h.toNat ≠ h'.toNat := fun same => ne (UInt32.toNat_inj.mp same)
  have bound : h.toNat < 4294967296 := h.toNat_lt
  have bound' : h'.toNat < 4294967296 := h'.toNat_lt
  -- Only hashes that are half the range apart agree in the larger of the two.
  by_cases half : h.toNat % 2147483648 = h'.toNat % 2147483648
  · have third : h.toNat % 6 ≠ h'.toNat % 6 := by
      rcases Nat.lt_or_gt_of_ne apart with less | more
      · have far : h'.toNat = h.toNat + 2147483648 := by omega
        omega
      · have far : h.toNat = h'.toNat + 2147483648 := by omega
        omega
    exact ⟨3, by decide, third⟩
  · have large : 1 < 1073741824 := by decide
    exact ⟨1073741824, large, half⟩

theorem finds_iff {a k : α} (same : V.isSame a k) :
    V.Finds a k ↔ V.hashElement a = V.hashElement k := by
  refine ⟨fun finds => ?_, finds_of_hash_eq same⟩
  by_contra ne
  obtain ⟨s, some_, apart⟩ := exists_size ne
  change V.home (s * 2) a ≠ V.home (s * 2) k at apart
  have room : 0 < s * 2 := by omega
  have made := V.made_single some_ a
  have stored : some a ∈ (List.replicate (s * 2) none).set (V.home (s * 2) a) (some a) := by
    refine List.mem_iff_getElem?.mpr ⟨V.home (s * 2) a, ?_⟩
    rw [List.getElem?_set_self (by rw [List.length_replicate]; exact Nat.mod_lt _ room)]
  have found := finds _ made stored
  have size : (⟨(List.replicate (s * 2) none).set (V.home (s * 2) a) (some a), 1⟩ :
      BtSet α).capacity = s * 2 := by
    rw [BtSet.capacity, List.length_set, List.length_replicate]
  have free := findAt_free (V := V) (o := k)
    (t := ⟨(List.replicate (s * 2) none).set (V.home (s * 2) a) (some a), 1⟩) (by
      rw [size]
      change ((List.replicate (s * 2) none).set (V.home (s * 2) a) (some a))[V.home (s * 2) k]? = _
      have inside : V.home (s * 2) k < s * 2 := Nat.mod_lt _ room
      rw [List.getElem?_set_ne apart, List.getElem?_replicate, if_pos inside])
  rw [find, free] at found
  cases found

end Virtual

end Tahi.Cm
