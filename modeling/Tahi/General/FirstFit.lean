import Mathlib.Combinatorics.Hall.Basic
import Mathlib.Data.Fintype.Basic
import Mathlib.Data.List.Forall2

/-! # Assignments by first fit

Wanted elements are to be given different places of offered elements that fit them. Who gives
each in turn the first place that fits and is left finds no assignment that takes a choice back.
-/

namespace FirstFit

variable {α β : Type} (ok : α → β → Prop) (offered : List α)

def Fits (p : Nat) (b : β) : Prop := ∃ a, offered[p]? = some a ∧ ok a b

/-- Each of the wanted can be given another place. -/
def Assignable (wanted : List β) : Prop :=
  ∃ places : List Nat, places.Nodup ∧ List.Forall₂ (Fits ok offered) places wanted

/-- Places outside `taken`, in front of which nothing that fits is left by the earlier ones. -/
structure InTurn (taken : List Nat) (wanted : List β) (places : List Nat) : Prop where
  fits : List.Forall₂ (Fits ok offered) places wanted
  fresh : ∀ i p, places[i]? = some p → p ∉ taken ∧ p ∉ places.take i
  first : ∀ i p b, places[i]? = some p → wanted[i]? = some b → ∀ q < p, Fits ok offered q b →
    q ∈ taken ∨ q ∈ places.take i

variable {ok offered} {taken : List Nat} {wanted : List β} {places : List Nat}

theorem inTurn_nil (taken : List Nat) : InTurn ok offered taken ([] : List β) [] where
  fits := .nil
  fresh _ _ there := by cases there
  first _ _ _ there := by cases there

/-- The first of the wanted is given its place, and the others theirs behind it. -/
theorem inTurn_cons {b : β} {p : Nat} :
    InTurn ok offered taken (b :: wanted) (p :: places) ↔
      (Fits ok offered p b ∧ p ∉ taken ∧ ∀ q < p, Fits ok offered q b → q ∈ taken) ∧
        InTurn ok offered (p :: taken) wanted places := by
  constructor
  · intro turns
    obtain ⟨here, fits⟩ := List.forall₂_cons.mp turns.fits
    refine ⟨⟨here, (turns.fresh 0 p rfl).1, fun q before fit => ?_⟩, fits, ?_, ?_⟩
    · exact (turns.first 0 p b rfl rfl q before fit).resolve_right List.not_mem_nil
    · intro i r there
      obtain ⟨left, other⟩ := turns.fresh (i + 1) r there
      rw [List.take_succ_cons, List.mem_cons, not_or] at other
      exact ⟨List.not_mem_cons_of_ne_of_not_mem other.1 left, other.2⟩
    · intro i r c there wants q before fit
      have taken := turns.first (i + 1) r c there wants q before fit
      rw [List.take_succ_cons, List.mem_cons] at taken
      rw [List.mem_cons]
      tauto
  · rintro ⟨⟨here, left, first⟩, turns⟩
    refine ⟨.cons here turns.fits, ?_, ?_⟩
    · intro i r there
      cases i with
      | zero =>
          obtain rfl : p = r := by simpa using there
          exact ⟨left, List.not_mem_nil⟩
      | succ i =>
          obtain ⟨apart, other⟩ := turns.fresh i r there
          rw [List.mem_cons, not_or] at apart
          rw [List.take_succ_cons, List.mem_cons, not_or]
          exact ⟨apart.2, apart.1, other⟩
    · intro i r c there wants q before fit
      cases i with
      | zero =>
          obtain rfl : p = r := by simpa using there
          obtain rfl : b = c := by simpa using wants
          exact .inl (first q before fit)
      | succ i =>
          have taken := turns.first i r c there wants q before fit
          rw [List.mem_cons] at taken
          rw [List.take_succ_cons, List.mem_cons]
          tauto

/-- Nobody is left out in turn, so the first of the wanted finds a place. -/
theorem InTurn.exists_cons {b : β} (turns : InTurn ok offered taken (b :: wanted) places) :
    ∃ p rest, places = p :: rest ∧ (Fits ok offered p b ∧ p ∉ taken ∧
      ∀ q < p, Fits ok offered q b → q ∈ taken) ∧ InTurn ok offered (p :: taken) wanted rest := by
  cases places with
  | nil => cases turns.fits
  | cons p rest => exact ⟨p, rest, rfl, inTurn_cons.mp turns⟩

/-- Only what fits and what is taken matters. -/
theorem InTurn.congr {ok' : α → β → Prop} {taken' : List Nat}
    (fits : ∀ p b, Fits ok offered p b ↔ Fits ok' offered p b) (same : ∀ q, q ∈ taken ↔ q ∈ taken')
    (turns : InTurn ok offered taken wanted places) : InTurn ok' offered taken' wanted places where
  fits := turns.fits.imp fun p b => (fits p b).mp
  fresh i p there := by
    rw [← same]
    exact turns.fresh i p there
  first i p b there wants q before fit := by
    rw [← same]
    exact turns.first i p b there wants q before ((fits q b).mpr fit)

/-- First fits are an assignment. -/
theorem InTurn.assignable (turns : InTurn ok offered taken wanted places) :
    Assignable ok offered wanted := by
  refine ⟨places, List.nodup_iff_getElem?_ne_getElem?.mpr fun i j before inside same => ?_, turns.fits⟩
  obtain ⟨p, there⟩ : ∃ p, places[j]? = some p := ⟨_, List.getElem?_eq_getElem inside⟩
  apply (turns.fresh j p there).2
  rw [List.mem_take_iff_getElem]
  obtain ⟨inside', here⟩ := List.getElem?_eq_some_iff.mp (same.trans there)
  exact ⟨i, Nat.lt_min.mpr ⟨before, inside'⟩, here⟩

/-- What fits in one form fits in another. -/
theorem Assignable.of_map {γ δ : Type} {f : γ → α} {g : δ → β} {offered : List γ} {wanted : List δ}
    {ok' : γ → δ → Prop} (weaker : ∀ c ∈ offered, ∀ d ∈ wanted, ok (f c) (g d) → ok' c d)
    (assignable : Assignable ok (offered.map f) (wanted.map g)) : Assignable ok' offered wanted := by
  obtain ⟨places, distinct, fits⟩ := assignable
  rw [List.forall₂_map_right_iff, List.forall₂_iff_zip] at fits
  refine ⟨places, distinct, List.forall₂_iff_zip.mpr ⟨fits.1, fun {p d} mem => ?_⟩⟩
  obtain ⟨a, there, fit⟩ := fits.2 mem
  rw [List.getElem?_map, Option.map_eq_some_iff] at there
  obtain ⟨c, there, rfl⟩ := there
  exact ⟨c, there, weaker c (List.mem_of_getElem? there) d (List.of_mem_zip mem).2 fit⟩

theorem Assignable.imp {ok' : α → β → Prop} (weaker : ∀ a b, ok a b → ok' a b)
    (assignable : Assignable ok offered wanted) : Assignable ok' offered wanted := by
  obtain ⟨places, distinct, fits⟩ := assignable
  exact ⟨places, distinct, fits.imp fun p b ⟨a, there, fit⟩ => ⟨a, there, weaker a b fit⟩⟩

theorem assignable_iff_injective :
    Assignable ok offered wanted ↔ ∃ f : Fin wanted.length → Fin offered.length,
      Function.Injective f ∧ ∀ i, ok offered[f i] wanted[i] := by
  constructor
  · rintro ⟨places, distinct, fits⟩
    rw [List.forall₂_iff_get] at fits
    obtain ⟨length, fits⟩ := fits
    have given (i : Fin wanted.length) : ∃ p : Fin offered.length,
        places.get (i.cast length.symm) = p ∧ ok offered[p] wanted[i] := by
      obtain ⟨a, there, fit⟩ := fits i (i.cast length.symm).isLt i.isLt
      obtain ⟨inside, rfl⟩ := List.getElem?_eq_some_iff.mp there
      exact ⟨⟨_, inside⟩, rfl, fit⟩
    choose f here fit using given
    refine ⟨f, fun i j same => ?_, fit⟩
    have equal := (here i).trans ((congrArg Fin.val same).trans (here j).symm)
    have inj := (List.nodup_iff_injective_get.mp distinct) equal
    exact Fin.cast_injective length.symm inj
  · rintro ⟨f, injective, fit⟩
    refine ⟨List.ofFn fun i => (f i).val, ?_, ?_⟩
    · exact List.nodup_ofFn.mpr fun i j same => injective (Fin.ext same)
    · rw [List.forall₂_iff_get]
      refine ⟨List.length_ofFn, fun i inside inside' => ?_⟩
      refine ⟨offered[f ⟨i, inside'⟩], ?_, fit ⟨i, inside'⟩⟩
      rw [List.get_ofFn]
      exact List.getElem?_eq_getElem (f ⟨i, inside'⟩).isLt

variable (ok offered wanted) in
/-- Any wanted elements together are fit by as many offered ones. -/
def Marriage [DecidableRel ok] : Prop :=
  ∀ s : Finset (Fin wanted.length),
    s.card ≤ (Finset.univ.filter fun p : Fin offered.length =>
      ∃ i ∈ s, ok offered[p] wanted[i]).card

theorem assignable_iff_marriage [DecidableRel ok] :
    Assignable ok offered wanted ↔ Marriage ok offered wanted := by
  rw [assignable_iff_injective, Marriage]
  convert (Fintype.all_card_le_filter_rel_iff_exists_injective
    fun (i : Fin wanted.length) (p : Fin offered.length) => ok offered[p] wanted[i]).symm

theorem card_places (q : α → Bool) :
    (Finset.univ.filter fun p : Fin offered.length => q offered[p]).card = offered.countP q := by
  have places := List.Nodup.card_eq_countP (P := fun p : Fin offered.length => q offered[p])
    (List.nodup_finRange offered.length)
  rw [List.toFinset_finRange] at places
  have all : (List.finRange offered.length).map offered.get = offered :=
    List.map_get_finRange offered
  rw [places]
  conv_rhs => rw [← all, List.countP_map]
  exact List.countP_congr fun p _ => by simp

/-- All the wanted together are fit by as many. -/
theorem Marriage.length_le [DecidableRel ok] (marriage : Marriage ok offered wanted) :
    wanted.length ≤ offered.countP fun a => wanted.any (ok a ·) := by
  have all := marriage Finset.univ
  rw [Finset.card_univ, Fintype.card_fin] at all
  apply all.trans
  rw [← card_places]
  apply Finset.card_le_card
  intro p
  simp only [Finset.mem_filter, Finset.mem_univ, true_and]
  rintro ⟨i, fit⟩
  exact List.any_eq_true.mpr ⟨wanted[i], List.getElem_mem i.isLt, decide_eq_true fit⟩

end FirstFit
