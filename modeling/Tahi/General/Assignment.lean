import Mathlib.Data.List.Count
import Mathlib.Data.List.Forall2
import Mathlib.Data.List.Nodup
import Mathlib.Data.List.Perm.Subperm

/-! # Assignments and first fits

Wanted elements are to be given offered elements with the same key that they accept, each
of them another one. Who only tries the first offered element of the key, and forgets what
has been given away, does that in a few cases: those in which no key is wanted or offered
twice, or in which nothing can be given anyhow.
-/

namespace Assignment

variable {α β κ : Type} (keyOf : α → κ) (keyOf' : β → κ) (ok : α → β → Prop)

/-- Different offered elements, one for each of the wanted. -/
def Assignable (offered : List α) (wanted : List β) : Prop :=
  ∃ chosen, chosen.Subperm offered ∧
    List.Forall₂ (fun a b => keyOf a = keyOf' b ∧ ok a b) chosen wanted

variable {keyOf keyOf' ok} {offered seen : List α} {wanted : List β}

theorem Assignable.perm {wanted' : List β} (order : wanted'.Perm wanted)
    (assignable : Assignable keyOf keyOf' ok offered wanted) :
    Assignable keyOf keyOf' ok offered wanted' := by
  obtain ⟨chosen, within, all⟩ := assignable
  obtain ⟨chosen', all', order'⟩ := List.perm_comp_forall₂ order all.flip
  exact ⟨chosen', order'.subperm.trans within, all'.flip⟩

theorem Assignable.cons {a : α} {b : β} (same : keyOf a = keyOf' b) (accepts : ok a b)
    (assignable : Assignable keyOf keyOf' ok offered wanted) :
    Assignable keyOf keyOf' ok (a :: offered) (b :: wanted) := by
  obtain ⟨chosen, within, all⟩ := assignable
  exact ⟨a :: chosen, (List.subperm_cons a).mpr within, .cons ⟨same, accepts⟩ all⟩

theorem Assignable.of_perm {offered' : List α} (order : offered'.Perm offered)
    (assignable : Assignable keyOf keyOf' ok offered' wanted) :
    Assignable keyOf keyOf' ok offered wanted := by
  obtain ⟨chosen, within, all⟩ := assignable
  exact ⟨chosen, within.trans order.subperm, all⟩

/-- What is chosen has the keys that are wanted. -/
theorem keys_eq {chosen : List α}
    (all : List.Forall₂ (fun a b => keyOf a = keyOf' b ∧ ok a b) chosen wanted) :
    chosen.map keyOf = wanted.map keyOf' := by
  induction all with
  | nil => rfl
  | cons pair _ ih => simp only [List.map_cons, pair.1, ih]

/-- Who wants has somebody chosen. -/
theorem exists_chosen {chosen : List α} {b : β}
    (all : List.Forall₂ (fun a b => keyOf a = keyOf' b ∧ ok a b) chosen wanted)
    (mem : b ∈ wanted) : ∃ a ∈ chosen, keyOf a = keyOf' b ∧ ok a b := by
  induction all with
  | nil => cases mem
  | @cons a b' chosen wanted pair _ ih =>
      cases mem with
      | head => exact ⟨a, List.mem_cons_self, pair⟩
      | tail _ mem =>
          obtain ⟨a', mem', pair'⟩ := ih mem
          exact ⟨a', List.mem_cons_of_mem _ mem', pair'⟩

theorem Assignable.imp {ok' : α → β → Prop} (accepts : ∀ b ∈ wanted, ∀ a, ok a b → ok' a b)
    (assignable : Assignable keyOf keyOf' ok offered wanted) :
    Assignable keyOf keyOf' ok' offered wanted := by
  obtain ⟨chosen, within, all⟩ := assignable
  rw [List.forall₂_iff_zip] at all
  refine ⟨chosen, within, List.forall₂_iff_zip.mpr ⟨all.1, fun {a b} mem => ?_⟩⟩
  exact ⟨(all.2 mem).1, accepts b (List.of_mem_zip mem).2 a (all.2 mem).2⟩

section Keys

variable [DecidableEq κ]

variable (keyOf keyOf' ok) in
/-- Each of the wanted elements accepts the first that is seen of its key. -/
def FirstFits (seen : List α) (wanted : List β) : Prop :=
  ∀ b ∈ wanted, ∃ a, seen.find? (fun a => decide (keyOf a = keyOf' b)) = some a ∧ ok a b

/-- Either there is a key of which none is seen and one of which too few are offered, or every
    key that is wanted is wanted once, offered once and seen. -/
def Decided (seen offered : List κ) (wanted : List κ) : Prop :=
  (∃ k ∈ wanted, k ∉ seen) ∧ (∃ j, offered.count j < wanted.count j) ∨
    ∀ k ∈ wanted, wanted.count k = 1 ∧ offered.count k = 1 ∧ k ∈ seen

theorem Assignable.count_le (assignable : Assignable keyOf keyOf' ok offered wanted) (k : κ) :
    (wanted.map keyOf').count k ≤ (offered.map keyOf).count k := by
  obtain ⟨chosen, ⟨arranged, order, within⟩, all⟩ := assignable
  rw [← keys_eq all, ← (order.map keyOf).count_eq k]
  exact (within.map keyOf).count_le k

/-- Enough of each key are enough for who accepts all of the key. -/
theorem assignable_of_count_le
    (enough : ∀ k, (wanted.map keyOf').count k ≤ (offered.map keyOf).count k)
    (accepts : ∀ a ∈ offered, ∀ b ∈ wanted, keyOf a = keyOf' b → ok a b) :
    Assignable keyOf keyOf' ok offered wanted := by
  obtain ⟨keys, order, within⟩ := List.subperm_iff_count.mpr enough
  obtain ⟨arranged, within', rfl⟩ := List.sublist_map_iff.mp within
  have pairs : List.Forall₂ (fun k b => k = keyOf' b) (wanted.map keyOf') wanted := by
    rw [List.forall₂_map_left_iff, List.forall₂_same]
    exact fun _ _ => rfl
  obtain ⟨arranged', all, order'⟩ := List.perm_comp_forall₂ order pairs
  have chosen : List.Forall₂ (fun a b => keyOf a = keyOf' b ∧ ok a b) arranged arranged' := by
    rw [List.forall₂_map_left_iff] at all
    rw [List.forall₂_iff_zip] at all ⊢
    refine ⟨all.1, fun {a b} mem => ⟨all.2 mem, accepts a ?_ b ?_ (all.2 mem)⟩⟩
    · exact within'.subset (List.of_mem_zip mem).1
    · exact order'.subset (List.of_mem_zip mem).2
  exact Assignable.perm order'.symm ⟨arranged, within'.subperm, chosen⟩

theorem mem_of_find? {b : β} {a : α}
    (found : seen.find? (fun a => decide (keyOf a = keyOf' b)) = some a) :
    a ∈ seen ∧ keyOf a = keyOf' b :=
  ⟨List.mem_of_find?_eq_some found, by simpa using List.find?_some found⟩

theorem exists_find? {b : β} (visible : keyOf' b ∈ seen.map keyOf) :
    ∃ a, seen.find? (fun a => decide (keyOf a = keyOf' b)) = some a := by
  apply Option.isSome_iff_exists.mp
  rw [List.find?_isSome]
  obtain ⟨a, mem, same⟩ := List.mem_map.mp visible
  exact ⟨a, mem, by simpa using same⟩

/-- Of a key that occurs once there is one element. -/
theorem eq_of_count {l : List α} {a a' : α} (once : (l.map keyOf).count (keyOf a) = 1)
    (mem : a ∈ l) (mem' : a' ∈ l) (same : keyOf a' = keyOf a) : a' = a := by
  have single : (l.filter fun x => keyOf x == keyOf a).length = 1 := by
    rw [← List.countP_eq_length_filter, ← once, List.count, List.countP_map]
    rfl
  obtain ⟨only, eq⟩ := List.length_eq_one_iff.mp single
  have first : a ∈ l.filter fun x => keyOf x == keyOf a := by simp [mem]
  have second : a' ∈ l.filter fun x => keyOf x == keyOf a := by simp [mem', same]
  rw [eq, List.mem_singleton] at first second
  rw [first, second]

theorem FirstFits.visible (fits : FirstFits keyOf keyOf' ok seen wanted) {k : κ}
    (mem : k ∈ wanted.map keyOf') : k ∈ seen.map keyOf := by
  obtain ⟨b, wants, rfl⟩ := List.mem_map.mp mem
  obtain ⟨a, found, -⟩ := fits b wants
  obtain ⟨mem', same⟩ := mem_of_find? found
  exact List.mem_map.mpr ⟨a, mem', same⟩

/-- The first ones that are seen of the keys, as the chosen ones. -/
theorem FirstFits.chosen (fits : FirstFits keyOf keyOf' ok seen wanted) :
    ∃ chosen, chosen ⊆ seen ∧
      List.Forall₂ (fun a b => keyOf a = keyOf' b ∧ ok a b) chosen wanted := by
  induction wanted with
  | nil => exact ⟨[], List.nil_subset _, .nil⟩
  | cons b wanted ih =>
      obtain ⟨chosen, within, all⟩ := ih fun b mem => fits b (List.mem_cons_of_mem _ mem)
      obtain ⟨a, found, accepts⟩ := fits b List.mem_cons_self
      obtain ⟨mem, same⟩ := mem_of_find? found
      exact ⟨a :: chosen, List.cons_subset.mpr ⟨mem, within⟩, .cons ⟨same, accepts⟩ all⟩

/-- Where every key is wanted and offered once, the first one is the only one. -/
theorem firstFits_iff_assignable (within : seen <+: offered)
    (once : ∀ k ∈ wanted.map keyOf', (wanted.map keyOf').count k = 1 ∧
      (offered.map keyOf).count k = 1 ∧ k ∈ seen.map keyOf) :
    FirstFits keyOf keyOf' ok seen wanted ↔ Assignable keyOf keyOf' ok offered wanted := by
  constructor
  · intro fits
    obtain ⟨chosen, subset, all⟩ := fits.chosen
    have distinct : chosen.Nodup := by
      apply List.Nodup.of_map keyOf
      rw [keys_eq all]
      exact List.nodup_iff_count_eq_one.mpr fun k mem => (once k mem).1
    exact ⟨chosen, distinct.subperm (List.Subset.trans subset within.subset), all⟩
  · rintro ⟨chosen, subperm, all⟩ b mem
    obtain ⟨-, single, visible⟩ := once _ (List.mem_map_of_mem mem)
    obtain ⟨a, found⟩ := exists_find? visible
    obtain ⟨mem', same⟩ := mem_of_find? found
    obtain ⟨a', mem'', same', accepts⟩ := exists_chosen all mem
    have only : a' = a :=
      eq_of_count (same ▸ single) (within.subset mem') (subperm.subset mem'') (same'.trans same.symm)
    exact ⟨a, found, only ▸ accepts⟩

/-- In the decided cases the first fits exist if and only if there is an assignment. -/
theorem Decided.firstFits_iff (within : seen <+: offered)
    (decided : Decided (seen.map keyOf) (offered.map keyOf) (wanted.map keyOf')) :
    FirstFits keyOf keyOf' ok seen wanted ↔ Assignable keyOf keyOf' ok offered wanted := by
  rcases decided with ⟨⟨k, mem, hidden⟩, j, few⟩ | once
  · apply iff_of_false
    · exact fun fits => hidden (fits.visible mem)
    · exact fun assignable => Nat.not_le_of_lt few (assignable.count_le j)
  · exact firstFits_iff_assignable within once

/-- With one pair refused there still is an assignment, if there are two of the key. -/
theorem assignable_refused {a : α} {b : β} (distinct : wanted.Nodup)
    (enough : ∀ k, (wanted.map keyOf').count k ≤ (offered.map keyOf).count k)
    (mem : a ∈ offered) (distinct' : offered.Nodup) (wants : b ∈ wanted)
    (same : keyOf a = keyOf' b) (many : 1 < (offered.map keyOf).count (keyOf' b)) :
    Assignable keyOf keyOf' (fun x y => ¬ (x = a ∧ y = b)) offered wanted := by
  obtain ⟨before, after, rfl⟩ := List.append_of_mem wants
  obtain ⟨front, back, rfl⟩ := List.append_of_mem mem
  -- Another one with the key is put in front of the others.
  obtain ⟨a', mem', same'⟩ : ∃ a' ∈ front ++ back, keyOf a' = keyOf' b := by
    have other : 0 < ((front ++ back).map keyOf).count (keyOf' b) := by
      rw [((@List.perm_middle _ a front back).map keyOf).count_eq,
        List.map_cons, same, List.count_cons_self] at many
      omega
    exact List.mem_map.mp (List.count_pos_iff.mp other)
  obtain ⟨front', back', others⟩ := List.append_of_mem mem'
  have order : (a' :: a :: (front' ++ back')).Perm (front ++ a :: back) := by
    apply (List.Perm.swap a a' _).trans
    apply List.Perm.trans _ List.perm_middle.symm
    rw [others]
    exact List.perm_middle.symm.cons a
  have differ : a' ≠ a := by
    have apart := (List.nodup_middle.mp distinct')
    rintro rfl
    exact (List.nodup_cons.mp apart).1 mem'
  apply Assignable.of_perm order
  apply Assignable.perm List.perm_middle
  apply Assignable.cons same' (fun both => differ both.1)
  apply assignable_of_count_le
  · intro k
    have bound := enough k
    rw [(order.symm.map keyOf).count_eq, (List.perm_middle.map keyOf').count_eq,
      List.map_cons, List.map_cons, same', List.count_cons, List.count_cons] at bound
    omega
  · intro x _ y mem'' _ both
    exact (List.nodup_cons.mp (List.nodup_middle.mp distinct)).1 (both.2 ▸ mem'')

/-- In all other cases somebody judges in such a way that they disagree, if the elements can be
    told apart: all pairs are accepted, or all but one. -/
theorem Decided.of_forall (within : seen <+: offered) (distinct : offered.Nodup)
    (distinct' : wanted.Nodup)
    (agree : ∀ refused : Option (α × β),
      FirstFits keyOf keyOf' (fun x y => refused ≠ some (x, y)) seen wanted ↔
        Assignable keyOf keyOf' (fun x y => refused ≠ some (x, y)) offered wanted) :
    Decided (seen.map keyOf) (offered.map keyOf) (wanted.map keyOf') := by
  by_cases enough : ∀ k, (wanted.map keyOf').count k ≤ (offered.map keyOf).count k
  · have fits := (agree none).mpr (assignable_of_count_le enough fun _ _ _ _ _ => by simp)
    refine .inr fun k mem => ?_
    have visible := fits.visible mem
    have single : ¬ 1 < (offered.map keyOf).count k := by
      intro many
      obtain ⟨b, wants, rfl⟩ := List.mem_map.mp mem
      obtain ⟨a, found⟩ := exists_find? visible
      obtain ⟨mem', same⟩ := mem_of_find? found
      -- The first one is refused by one of those who want it, who takes another.
      have taken := assignable_refused distinct' enough (within.subset mem') distinct wants same many
      have fits' := (agree (some (a, b))).mpr (by simpa [eq_comm] using taken)
      obtain ⟨a', found', accepts⟩ := fits' b wants
      rw [found] at found'
      cases found'
      exact accepts rfl
    have wanted_ : 0 < (wanted.map keyOf').count k := List.count_pos_iff.mpr mem
    have bound := enough k
    exact ⟨by omega, by omega, visible⟩
  · obtain ⟨j, many⟩ := not_forall.mp enough
    have few := Nat.lt_of_not_le many
    refine .inl ⟨?_, j, few⟩
    by_contra seen_
    push Not at seen_
    have fits : FirstFits keyOf keyOf' (fun x y => none ≠ some (x, y)) seen wanted := by
      intro b wants
      obtain ⟨a, found⟩ := exists_find? (seen_ _ (List.mem_map_of_mem wants))
      exact ⟨a, found, by simp⟩
    exact Nat.not_le_of_lt few (((agree none).mp fits).count_le j)

end Keys

end Assignment
