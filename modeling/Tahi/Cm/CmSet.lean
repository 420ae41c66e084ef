import Mathlib.Data.List.Nodup
import Tahi.Cm.BtSet

/-! # Sets of elements with keys

Elements are the same when their keys are. A set is the list of its elements, and adding an
element the same as one that is there does nothing.
-/

namespace Tahi.Cm.CmSet

variable {α κ : Type} [DecidableEq κ] (key : α → κ)

def find (xs : List α) (k : κ) : Option α := xs.find? fun x => key x = k

def add (xs : List α) (x : α) : List α := if key x ∈ xs.map key then xs else x :: xs

def remove (xs : List α) (k : κ) : List α := xs.eraseP fun x => key x = k

variable {key} {xs : List α} {x y : α} {k k' : κ}

theorem find_eq_some (found : find key xs k = some x) : x ∈ xs ∧ key x = k :=
  ⟨List.mem_of_find?_eq_some found, by simpa using List.find?_some found⟩

theorem find_eq_none : find key xs k = none ↔ ∀ x ∈ xs, key x ≠ k := by
  simp [find]

theorem find_of_mem (nodup : (xs.map key).Nodup) (mem : x ∈ xs) : find key xs (key x) = some x := by
  cases found : find key xs (key x) with
  | none => exact absurd rfl (find_eq_none.mp found x mem)
  | some y =>
      obtain ⟨mem', same⟩ := find_eq_some found
      rw [List.inj_on_of_nodup_map nodup mem' mem same]

theorem add_of_new (new : ∀ y ∈ xs, key y ≠ key x) : add key xs x = x :: xs :=
  if_neg fun mem => by
    obtain ⟨y, mem, same⟩ := List.mem_map.mp mem
    exact new y mem same

theorem add_of_mem (mem : y ∈ xs) (same : key y = key x) : add key xs x = xs :=
  if_pos (List.mem_map.mpr ⟨y, mem, same⟩)

theorem find_add_of_ne (ne : key x ≠ k) : find key (add key xs x) k = find key xs k := by
  unfold add
  split
  · rfl
  · exact List.find?_cons_of_neg (by simpa using ne)

theorem find_add_new (new : find key xs (key x) = none) :
    find key (add key xs x) (key x) = some x := by
  rw [add_of_new (find_eq_none.mp new)]
  exact List.find?_cons_of_pos (by simp)

theorem mem_of_mem_add (mem : y ∈ add key xs x) : y = x ∨ y ∈ xs := by
  unfold add at mem
  split at mem
  · exact .inr mem
  · exact List.mem_cons.mp mem

theorem nodup_add (nodup : (xs.map key).Nodup) : ((add key xs x).map key).Nodup := by
  unfold add
  split
  · exact nodup
  · rename_i new
    exact List.nodup_cons.mpr ⟨new, nodup⟩

theorem mem_of_mem_remove (mem : x ∈ remove key xs k) : x ∈ xs := List.mem_of_mem_eraseP mem

theorem nodup_remove (nodup : (xs.map key).Nodup) : ((remove key xs k).map key).Nodup :=
  nodup.sublist (List.eraseP_sublist.map key)

theorem find_remove_of_ne (ne : k' ≠ k) : find key (remove key xs k) k' = find key xs k' := by
  induction xs with
  | nil => rfl
  | cons x xs ih =>
      by_cases same : key x = k
      · have other : key x ≠ k' := fun h => ne (h.symm.trans same)
        rw [remove, List.eraseP_cons_of_pos (by simpa using same)]
        exact (List.find?_cons_of_neg (by simpa using other)).symm
      · rw [remove, List.eraseP_cons_of_neg (by simpa using same)]
        by_cases here : key x = k'
        · rw [find, find, List.find?_cons_of_pos (by simpa using here),
            List.find?_cons_of_pos (by simpa using here)]
        · rw [find, find, List.find?_cons_of_neg (by simpa using here),
            List.find?_cons_of_neg (by simpa using here)]
          exact ih

theorem remove_of_ne (ne : ∀ x ∈ xs, key x ≠ k) : remove key xs k = xs :=
  List.eraseP_of_forall_not fun x mem => by simpa using ne x mem

theorem perm_remove (found : find key xs k = some x) : xs.Perm (x :: remove key xs k) := by
  induction xs with
  | nil => cases found
  | cons y xs ih =>
      by_cases same : key y = k
      · rw [find, List.find?_cons_of_pos (by simpa using same)] at found
        cases found
        rw [remove, List.eraseP_cons_of_pos (by simpa using same)]
      · rw [find, List.find?_cons_of_neg (by simpa using same)] at found
        rw [remove, List.eraseP_cons_of_neg (by simpa using same)]
        exact ((ih found).cons y).trans (.swap x y _)

/-- What is not in a part of the set does not change it. -/
theorem filter_add {P : α → Bool} (out : P x = false) : (add key xs x).filter P = xs.filter P := by
  unfold add
  split
  · rfl
  · exact List.filter_cons_of_neg (by simp [out])

theorem filter_remove {P : α → Bool} (out : ∀ x ∈ xs, key x = k → P x = false) :
    (remove key xs k).filter P = xs.filter P := by
  induction xs with
  | nil => rfl
  | cons y xs ih =>
      by_cases same : key y = k
      · rw [remove, List.eraseP_cons_of_pos (by simpa using same),
          List.filter_cons_of_neg (by simp [out y List.mem_cons_self same])]
      · have rest := ih fun x mem => out x (List.mem_cons_of_mem y mem)
        rw [remove, List.eraseP_cons_of_neg (by simpa using same), List.filter_cons,
          List.filter_cons]
        rw [remove] at rest
        rw [rest]

/-- Only the element with the key is removed. -/
theorem remove_eq_filter (nodup : (xs.map key).Nodup) :
    remove key xs k = xs.filter fun x => key x ≠ k := by
  induction xs with
  | nil => rfl
  | cons x xs ih =>
      obtain ⟨new, nodup⟩ := List.nodup_cons.mp nodup
      by_cases same : key x = k
      · subst same
        have rest : ∀ y ∈ xs, key y ≠ key x := fun y mem same =>
          new (List.mem_map.mpr ⟨y, mem, same⟩)
        rw [remove, List.eraseP_cons_of_pos (by simp), List.filter_cons_of_neg (by simp),
          List.filter_eq_self.mpr fun y mem => by simpa using rest y mem]
      · rw [remove, List.eraseP_cons_of_neg (by simpa using same),
          List.filter_cons_of_pos (by simpa using same)]
        exact congrArg _ (ih nodup)

theorem find_remove_self (nodup : (xs.map key).Nodup) : find key (remove key xs k) k = none := by
  rw [remove_eq_filter nodup, find_eq_none]
  intro x mem
  simpa using (List.mem_filter.mp mem).2

theorem mem_remove (nodup : (xs.map key).Nodup) :
    x ∈ remove key xs k ↔ x ∈ xs ∧ key x ≠ k := by
  rw [remove_eq_filter nodup, List.mem_filter]
  simp

/-! ## These are the operations of a table -/

section

variable (key) in
/-- The elements of a table, with a hash of their keys. -/
def elements (hash : κ → UInt32) : Elements α where
  hashElement x := hash (key x)
  isSame x y := key x = key y
  refl x := by simp
  symm x y same := by simpa using (of_decide_eq_true same).symm
  trans x y z same same' := by
    simpa using (of_decide_eq_true same).trans (of_decide_eq_true same')
  compatible x y same := congrArg hash (of_decide_eq_true same)

variable {hash : κ → UInt32} {t : BtSet α}

theorem find_table (represents : t.Represents (elements key hash) xs) (x : α) :
    t.find (elements key hash) x = find key xs (key x) :=
  represents.find x

theorem nodup_of_represents (represents : t.Represents (elements key hash) xs) :
    (xs.map key).Nodup := by
  rw [List.Nodup, List.pairwise_map]
  exact represents.distinct.imp fun apart same => apart (decide_eq_true same)

variable [DecidableEq α]

theorem plain_add : (BtSet.plain (elements key hash) xs (.add (some x))).1 = add key xs x := by
  have member : BtSet.member (elements key hash) xs x = find key xs (key x) := rfl
  simp only [BtSet.plain, member]
  cases found : find key xs (key x) with
  | none => rw [add_of_new (find_eq_none.mp found)]
  | some y =>
      obtain ⟨mem, same⟩ := find_eq_some found
      rw [add_of_mem mem same]

theorem add_table (represents : t.Represents (elements key hash) xs) (x : α) :
    ∃ t' r, t.add (elements key hash) (some x) = some (t', r) ∧
      t'.Represents (elements key hash) (add key xs x) := by
  obtain ⟨t', r, added, -, represents'⟩ :=
    BtSet.simulates (elements key hash) t xs (.add (some x)) represents trivial
  rw [plain_add] at represents'
  exact ⟨t', r, added, represents'⟩

theorem remove_table (represents : t.Represents (elements key hash) xs) (x : α) :
    (t.remove (elements key hash) x).2 = find key xs (key x) ∧
      (t.remove (elements key hash) x).1.Represents (elements key hash)
        (remove key xs (key x)) := by
  obtain ⟨found, represents'⟩ := represents.remove x
  refine ⟨found, ?_⟩
  have others : BtSet.others (elements key hash) xs x = remove key xs (key x) := by
    rw [remove_eq_filter (nodup_of_represents represents)]
    refine List.filter_congr fun y _ => ?_
    simp [elements]
  exact others ▸ represents'

end

end Tahi.Cm.CmSet
