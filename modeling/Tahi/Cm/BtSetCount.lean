import Tahi.Cm.BtSet

/-! # The counter of a set

A set counts its elements beside the cells they are in. What it inherits for its assignment
clears the cells without a look at the counter, so the elements of a set that is assigned to are
counted on, until an expansion starts again from zero.
-/

namespace Tahi.Cm

open LinearProbing

namespace BtSet

variable {α : Type}

/-- The occupied cells. -/
def occupied (t : BtSet α) : Nat := (t.elements_.filter Option.isSome).length

def Counted (t : BtSet α) : Prop := t.noOfElements_ = t.occupied

/-- `BtArray::emptyYourself` -/
def emptyYourself (t : BtSet α) : BtSet α :=
  { t with elements_ := List.replicate t.capacity none }

def deleteContents (t : BtSet α) : BtSet α := ⟨List.replicate t.capacity none, 0⟩

variable (E : Elements α)

/-- `BtArray::copyElements` outside of an expansion, from the cells `from_`. -/
def addElements (t : BtSet α) : List (Option α) → Option (BtSet α)
  | [] => some t
  | none :: from_ => t.addElements from_
  | some c :: from_ => (t.addIfAbsent E c).bind fun (t, _) => t.addElements from_

/-- `operator=` of an emptied set. -/
def assign (t : BtSet α) (from_ : List (Option α)) : Option (BtSet α) :=
  let t :=
    if t.capacity < from_.length then { t with elements_ := List.replicate from_.length none } else t
  t.addElements E from_

section

variable {ι : Type} [DecidableEq ι] [DecidableEq α]

/-- What can be done with several sets. -/
inductive Action (ι α : Type) where
  | construct (i : ι) (s : Nat)
  | copy (i j : ι)
  | step (i : ι) (op : Op α)
  | deleteContents (i : ι)
  | expand (i : ι)
  | assign (i j : ι)

def act (sets : ι → BtSet α) : Action ι α → Option (ι → BtSet α)
  | .construct i s => some (Function.update sets i (new s))
  | .copy i j =>
      (assign E ⟨List.replicate (sets j).capacity none, 0⟩ (sets j).elements_).map
        (Function.update sets i)
  | .step i op => (step E (sets i) op).map fun (t, _) => Function.update sets i t
  | .deleteContents i => some (Function.update sets i (sets i).deleteContents)
  | .expand i => ((sets i).expand E).map (Function.update sets i)
  | .assign i j =>
      let t := (sets i).emptyYourself
      -- a set that is assigned to itself finds its own cells empty
      let from_ := if i = j then t.elements_ else (sets j).elements_
      (t.assign E from_).map (Function.update sets i)

/-- The elements of the source expand the set while the old ones are still counted. -/
def Outgrows (t source : BtSet α) : Prop :=
  0 < source.noOfElements_ ∧
    max t.capacity source.capacity * 2 < (t.noOfElements_ + source.noOfElements_ - 1) * 3

/-- A set that is assigned to is empty, or it is expanded by the elements of another one. -/
def Proper (sets : ι → BtSet α) : Action ι α → Prop
  | .assign i j => (sets i).noOfElements_ = 0 ∨ (i ≠ j ∧ (sets i).Outgrows (sets j))
  | _ => True

/-- All sets are counted in every state of a run. -/
def CountedRun (sets : ι → BtSet α) : List (Action ι α) → Prop
  | [] => ∀ i, (sets i).Counted
  | a :: acts => (∀ i, (sets i).Counted) ∧ match act E sets a with
      | some sets => CountedRun sets acts
      | none => True

/-- Every assignment is proper where it is made. -/
def ProperRun (sets : ι → BtSet α) : List (Action ι α) → Prop
  | [] => True
  | a :: acts => Proper sets a ∧ match act E sets a with
      | some sets => ProperRun sets acts
      | none => True

end

/-! ## Counting on -/

/-- The same cells with `d` elements too many counted. -/
def inflate (t : BtSet α) (d : Nat) : BtSet α := { t with noOfElements_ := t.noOfElements_ + d }

@[simp] theorem inflate_zero (t : BtSet α) : t.inflate 0 = t := rfl

@[simp] theorem capacity_inflate (t : BtSet α) (d : Nat) : (t.inflate d).capacity = t.capacity := rfl

theorem enter_inflate (t : BtSet α) (d : Nat) (o : α) :
    (t.inflate d).enter E o = ((t.enter E o).1.inflate d, (t.enter E o).2) := by
  have same : (t.inflate d).findAt E o = t.findAt E o := rfl
  rw [enter, enter, same]
  cases t.findAt E o with
  | mk old u =>
      cases old with
      | some c => rfl
      | none =>
          cases u with
          | none => rfl
          | some u => simp only [inflate, Nat.add_right_comm]

variable {E}

theorem Represents.cleared {n : Nat} (even : 2 ∣ n) (some_ : 0 < n) :
    (⟨List.replicate n none, 0⟩ : BtSet α).Represents E [] := by
  have room : (⟨List.replicate n none, 0⟩ : BtSet α).capacity = n := List.length_replicate
  constructor
  · simp
  · exact .nil
  · rfl
  · exact .empty _ _
  · rwa [room]
  · rwa [room]
  · exact Nat.zero_le _

theorem Represents.occupied_eq {t : BtSet α} {xs : List α} (represents : t.Represents E xs) :
    t.occupied = xs.length := by
  rw [occupied, ← List.reduceOption_length_eq, represents.contents.length_eq]

theorem Represents.counted_inflate {t : BtSet α} {xs : List α} (represents : t.Represents E xs)
    (d : Nat) : (t.inflate d).Counted ↔ d = 0 := by
  have same : (t.inflate d).occupied = t.occupied := rfl
  rw [Counted, same, represents.occupied_eq]
  change t.noOfElements_ + d = xs.length ↔ d = 0
  rw [represents.count]
  omega

/-- Adding an element to a set that counts too many. -/
theorem Represents.addIfAbsent_inflate {t : BtSet α} {xs : List α} (represents : t.Represents E xs)
    {d : Nat} {o : α} (absent : ∀ x ∈ xs, ¬E.isSame x o) :
    ∃ (t' : BtSet α) (d' : Nat) (r : Option α × Option Nat),
      (t.inflate d).addIfAbsent E o = some (t'.inflate d', r) ∧
      t'.Represents E (o :: xs) ∧
      (d' = if t.capacity * 2 < (xs.length + d) * 3 then 0 else d) ∧
      (t.capacity * 2 < (xs.length + d) * 3 ∨ t'.capacity = t.capacity) := by
  have count := represents.count
  have full : (t.inflate d).capacity * 2 < (t.inflate d).noOfElements_ * 3 ↔
      t.capacity * 2 < (xs.length + d) * 3 := by
    rw [capacity_inflate, inflate, count]
  have none_ := member_eq_none E absent
  by_cases grows : t.capacity * 2 < (xs.length + d) * 3
  · obtain ⟨t', expanded, related, roomy⟩ := represents.expand
    have same : (t.inflate d).expand E = t.expand E := rfl
    obtain ⟨c, p, -, -, -, mem⟩ | ⟨-, t'', p, entered, related', -⟩ := related.enter roomy o
    · rw [none_] at mem
      cases mem
    · refine ⟨t'', 0, (some o, some p), ?_, related', (if_pos grows).symm, .inl grows⟩
      rw [BtSet.addIfAbsent, if_pos (full.mpr grows), same, expanded, Option.map_some, entered,
        inflate_zero]
  · obtain ⟨c, p, -, -, -, mem⟩ | ⟨-, t'', p, entered, related', same⟩ :=
      represents.enter (by omega) o
    · rw [none_] at mem
      cases mem
    · refine ⟨t'', d, (some o, some p), ?_, related', (if_neg grows).symm, .inr same⟩
      rw [BtSet.addIfAbsent, if_neg (full.not.mpr grows), Option.map_some, enter_inflate, entered]

/-- Adding elements to a set that counts too many, until an expansion corrects it. -/
theorem Represents.addElements_inflate {t : BtSet α} {xs : List α} (represents : t.Represents E xs)
    {d : Nat} {from_ : List (Option α)}
    (distinct : (from_.reduceOption ++ xs).Pairwise fun a b => ¬E.isSame a b) :
    ∃ (t' : BtSet α) (d' : Nat), (t.inflate d).addElements E from_ = some (t'.inflate d') ∧
      t'.Represents E (from_.reduceOption.reverse ++ xs) ∧
      (d' = 0 ↔ d = 0 ∨ (0 < from_.reduceOption.length ∧
        t.capacity * 2 < (xs.length + d + from_.reduceOption.length - 1) * 3)) := by
  induction from_ generalizing t xs d with
  | nil => exact ⟨t, d, rfl, represents, by simp⟩
  | cons a from_ ih =>
      cases a with
      | none => exact ih represents distinct
      | some c =>
          rw [reduceOption_cons, Option.toList_some, List.singleton_append] at distinct
          have absent : ∀ x ∈ xs, ¬E.isSame x c := fun x mem same =>
            List.rel_of_pairwise_cons distinct (List.mem_append_right _ mem) (E.symm x c same)
          have later : (from_.reduceOption ++ c :: xs).Pairwise fun a b => ¬E.isSame a b := by
            refine (List.perm_middle.pairwise_iff fun h h' => h (E.symm _ _ h')).mpr ?_
            simpa using distinct
          obtain ⟨t', d', r, added, related, corrected, kept⟩ :=
            represents.addIfAbsent_inflate (d := d) absent
          obtain ⟨t'', d'', ran, related', exact_⟩ := ih (d := d') related later
          refine ⟨t'', d'', ?_, ?_, ?_⟩
          · rw [addElements, added]
            exact ran
          · rw [reduceOption_cons]
            simpa using related'
          · rw [exact_, reduceOption_cons, corrected, List.length_append, List.length_cons]
            simp only [Option.toList_some, List.length_singleton]
            split
            · rename_i grows
              omega
            · rename_i stays
              have same := kept.resolve_left stays
              rw [same]
              omega

theorem Represents.distinct_cells {t : BtSet α} {xs : List α} (represents : t.Represents E xs) :
    t.elements_.reduceOption.Pairwise fun a b => ¬E.isSame a b :=
  (represents.contents.pairwise_iff fun h h' => h (E.symm _ _ h')).mpr represents.distinct

/-- What an assignment leaves, and when it is counted. -/
theorem Represents.assign_inflate {t : BtSet α} {xs : List α} (represents : t.Represents E xs)
    (from_ : List (Option α)) (even : 2 ∣ from_.length)
    (distinct : from_.reduceOption.Pairwise fun a b => ¬E.isSame a b) :
    ∃ (t' : BtSet α) (d : Nat), t.emptyYourself.assign E from_ = some (t'.inflate d) ∧
      t'.Represents E from_.reduceOption.reverse ∧
      (d = 0 ↔ t.noOfElements_ = 0 ∨ (0 < from_.reduceOption.length ∧
        max t.capacity from_.length * 2 <
          (t.noOfElements_ + from_.reduceOption.length - 1) * 3)) := by
  have room (n : Nat) : (⟨List.replicate n none, 0⟩ : BtSet α).capacity = n := List.length_replicate
  have emptied : t.emptyYourself.capacity = t.capacity := List.length_replicate
  have some_ := represents.some_
  have apart : (from_.reduceOption ++ []).Pairwise fun a b => ¬E.isSame a b := by
    rwa [List.append_nil]
  have large : 2 ∣ max t.capacity from_.length := by
    cases Nat.le_total t.capacity from_.length with
    | inl le => rwa [Nat.max_eq_right le]
    | inr ge => rw [Nat.max_eq_left ge]; exact represents.even
  have inflated : (if t.emptyYourself.capacity < from_.length then
      { t.emptyYourself with elements_ := List.replicate from_.length none }
      else t.emptyYourself) =
      (⟨List.replicate (max t.capacity from_.length) none, 0⟩ : BtSet α).inflate
        t.noOfElements_ := by
    simp only [inflate, Nat.zero_add]
    split
    · rename_i larger
      rw [Nat.max_eq_right (Nat.le_of_lt (emptied ▸ larger))]
      rfl
    · rename_i enough
      rw [Nat.max_eq_left (Nat.le_of_not_lt (emptied ▸ enough))]
      rfl
  have cleared : (⟨List.replicate (max t.capacity from_.length) none, 0⟩ : BtSet α).Represents E
      [] := Represents.cleared large (by omega)
  obtain ⟨t', d, ran, related, exact_⟩ :=
    cleared.addElements_inflate (d := t.noOfElements_) apart
  refine ⟨t', d, ?_, by simpa using related, ?_⟩
  · rw [assign, inflated]
    exact ran
  · rw [exact_, room, List.length_nil, Nat.zero_add]

/-! ## Runs -/

section

variable {ι : Type}

/-- All sets are as their operations keep them. -/
def Sound (E : Elements α) (sets : ι → BtSet α) : Prop := ∀ i, ∃ xs, (sets i).Represents E xs

theorem Sound.counted {sets : ι → BtSet α} (sound : Sound E sets) (i : ι) : (sets i).Counted := by
  obtain ⟨xs, represents⟩ := sound i
  exact (represents.counted_inflate 0).mpr rfl

variable [DecidableEq ι]

theorem Sound.update {sets : ι → BtSet α} (sound : Sound E sets) {t : BtSet α} {xs : List α}
    (represents : t.Represents E xs) (i : ι) : Sound E (Function.update sets i t) := by
  intro k
  by_cases here : k = i
  · rw [here, Function.update_self]
    exact ⟨xs, represents⟩
  · rw [Function.update_of_ne here]
    exact sound k

variable [DecidableEq α]

/-- One action: the sets stay sound when it is proper, and one of them is not counted any more when
    it is not. -/
theorem Sound.act {sets : ι → BtSet α} (sound : Sound E sets) (a : Action ι α) :
    ∃ sets', act E sets a = some sets' ∧ (Proper sets a → Sound E sets') ∧
      (¬Proper sets a → ∃ i, ¬(sets' i).Counted) := by
  cases a with
  | construct i s => exact ⟨_, rfl, fun _ => sound.update (.new s) i, fun h => absurd trivial h⟩
  | copy i j =>
      obtain ⟨ys, source⟩ := sound j
      have fresh : (⟨List.replicate (sets j).capacity none, 0⟩ : BtSet α).Represents E [] :=
        .cleared source.even source.some_
      obtain ⟨t', d, ran, related, exact_⟩ := fresh.assign_inflate _ source.even source.distinct_cells
      have none_ : d = 0 := exact_.mpr (.inl rfl)
      have same : (⟨List.replicate (sets j).capacity none, 0⟩ : BtSet α).emptyYourself =
          ⟨List.replicate (sets j).capacity none, 0⟩ := by
        simp only [emptyYourself, capacity, List.length_replicate]
      rw [same, none_] at ran
      refine ⟨_, ?_, fun _ => sound.update related i, fun h => absurd trivial h⟩
      rw [BtSet.act, ran]
      rfl
  | step i op =>
      obtain ⟨xs, represents⟩ := sound i
      obtain ⟨t', r, stepped, -, related⟩ := simulates E (sets i) xs op represents trivial
      refine ⟨_, ?_, fun _ => sound.update related i, fun h => absurd trivial h⟩
      rw [BtSet.act, stepped]
      rfl
  | deleteContents i =>
      obtain ⟨xs, represents⟩ := sound i
      exact ⟨_, rfl, fun _ => sound.update (.cleared represents.even represents.some_) i,
        fun h => absurd trivial h⟩
  | expand i =>
      obtain ⟨xs, represents⟩ := sound i
      obtain ⟨t', expanded, related, -⟩ := represents.expand
      refine ⟨_, ?_, fun _ => sound.update related i, fun h => absurd trivial h⟩
      rw [BtSet.act, expanded]
      rfl
  | assign i j =>
      obtain ⟨xs, represents⟩ := sound i
      obtain ⟨ys, source⟩ := sound j
      have assigned : ∃ (t' : BtSet α) (d : Nat) (zs : List α),
          BtSet.act E sets (.assign i j) = some (Function.update sets i (t'.inflate d)) ∧
            t'.Represents E zs ∧ (d = 0 ↔ Proper sets (.assign i j)) := by
        by_cases self : i = j
        · have cells : (List.replicate (sets i).capacity (none : Option α)).reduceOption = [] :=
            List.reduceOption_replicate_none
          obtain ⟨t', d, ran, related, exact_⟩ := represents.assign_inflate
            (List.replicate (sets i).capacity none) (by rw [List.length_replicate]; exact represents.even) (by rw [cells]; exact .nil)
          refine ⟨t', d, _, ?_, related, ?_⟩
          · simp only [BtSet.act, if_pos self]
            rw [show (sets i).emptyYourself.elements_ = List.replicate (sets i).capacity none from rfl,
              ran]
            rfl
          · rw [exact_, cells, List.length_nil]
            simp only [Proper, self, ne_eq, not_true_eq_false, false_and, Nat.lt_irrefl, or_false]
        · obtain ⟨t', d, ran, related, exact_⟩ :=
            represents.assign_inflate _ source.even source.distinct_cells
          refine ⟨t', d, _, ?_, related, ?_⟩
          · simp only [BtSet.act, if_neg self]
            rw [ran]
            rfl
          · have total : (sets j).elements_.reduceOption.length = (sets j).noOfElements_ := by
              rw [source.contents.length_eq, source.count]
            rw [exact_, total]
            simp only [Proper, Outgrows, capacity, ne_eq, self, not_false_eq_true, true_and]
      obtain ⟨t', d, zs, ran, related, exact_⟩ := assigned
      refine ⟨_, ran, fun proper => ?_, fun improper => ⟨i, ?_⟩⟩
      · rw [exact_.mpr proper, inflate_zero]
        exact sound.update related i
      · rw [Function.update_self, related.counted_inflate]
        exact fun none_ => improper (exact_.mp none_)

theorem Sound.countedRun_iff {sets : ι → BtSet α} (sound : Sound E sets)
    (acts : List (Action ι α)) : CountedRun E sets acts ↔ ProperRun E sets acts := by
  induction acts generalizing sets with
  | nil => exact iff_of_true sound.counted trivial
  | cons a acts ih =>
      obtain ⟨sets', acted, keeps, breaks⟩ := sound.act a
      simp only [CountedRun, ProperRun, acted]
      by_cases proper : Proper sets a
      · rw [ih (keeps proper)]
        exact and_congr_left fun _ => iff_of_true sound.counted proper
      · refine iff_of_false (fun counted => ?_) fun run => proper run.1
        obtain ⟨i, miscounted⟩ := breaks proper
        cases acts with
        | nil => exact miscounted (counted.2 i)
        | cons b acts => exact miscounted (counted.2.1 i)

/-- In every run over newly constructed sets, the counter of every set is the number of its
    occupied cells in every state exactly when every assignment is proper. -/
theorem counted_iff_proper (E : Elements α) (sizes : ι → Nat) (acts : List (Action ι α)) :
    CountedRun E (fun i => new (sizes i)) acts ↔ ProperRun E (fun i => new (sizes i)) acts :=
  Sound.countedRun_iff (fun i => ⟨[], .new (sizes i)⟩) acts

end

/-- The virtual functions of `BtSet`: elements are compared and hashed as the pointers they are. -/
def pointers : Elements UInt32 where
  hashElement o := o
  isSame a b := a == b
  refl := by simp
  symm := by simp
  trans := by simp
  compatible := by simp

/-- A set of one element is assigned to another one. -/
theorem not_counted : ¬ ∀ (E : Elements UInt32) (sizes : Bool → Nat)
    (acts : List (Action Bool UInt32)), CountedRun E (fun i => new (sizes i)) acts := by
  intro claim
  have counted := claim pointers (fun _ => 8)
    [.step true (.add (some 1)), .step false (.add (some 2)), .assign true false]
  exact absurd (counted.2.2.2 true) (by unfold Counted; decide)

end BtSet

end Tahi.Cm
