import Tahi.Pz.WvComb

/-! # What an evaluation accepts

The walk over a definition and a decoded packet goes on behind a mismatch. Its verdict is a relation
between the two trees.
-/

namespace Tahi.Pz

variable {M V E : Type}

section

variable (k : Comparison M V E)

def WObject.evaluable (w : WObject M E) : Bool := TObject.evaluateObject k w.meta_

def RObject.evaluable (r : RObject M V) : Bool := TObject.evaluateObject k r.meta_

namespace WObject

/-- A value whose comparison leaves the control alone, as all do but the stop keyword. -/
def Steady (e : E) : Prop :=
  ∀ c v, k.compareObjectWith c e v = ((k.compareObjectWith {} e v).1, c)

/-- Compounds, members and `oneof`. -/
inductive Plain : WObject M E → Prop where
  | member (m : M) (operation : UInt32) {revaluate : E} (steady : Steady k revaluate) :
      Plain (.member m operation revaluate)
  | compound (m : M) {children : List (WObject M E)} (plain : ∀ w ∈ children, Plain w) :
      Plain (.compound m children)
  | oneof (m : M) {references : List (WObject M E)} (plain : ∀ w ∈ references, Plain w) :
      Plain (.oneof m references)

/-- A decoded object matches one of a definition. The objects below a compound that take part match
    one by one. -/
inductive Matches : WObject M E → RObject M V → Prop where
  | member {m : M} {operation : UInt32} {revaluate : E} {r : RObject M V}
      (sameMeta : k.comparableMeta m r.meta_ = true)
      (relation : accepts operation (k.compareObjectWith {} revaluate r.pvalue).1 = true) :
      Matches (.member m operation revaluate) r
  | compound {m : M} {children : List (WObject M E)} {r : RObject M V}
      (sameMeta : k.comparableMeta m r.meta_ = true)
      (each : List.Forall₂ Matches (children.filter (evaluable k))
        (r.children.filter (RObject.evaluable k))) : Matches (.compound m children) r
  | oneof {m : M} {references : List (WObject M E)} {w : WObject M E} {r : RObject M V}
      (mem : w ∈ references) (alternative : Matches w r) : Matches (.oneof m references) r

end WObject

end

/-- A control goes on as one that has judged `P`. -/
structure WControl.Judges (P : Prop) (c c' : WControl) : Prop where
  stop : c'.stop = c.stop
  ok : c'.ok = true ↔ c.ok = true ∧ P

namespace WControl.Judges

variable {P Q : Prop} {c c' c'' : WControl}

theorem refl (holds : P) : Judges P c c := ⟨rfl, (and_iff_left holds).symm⟩

theorem result (fails : ¬ P) : Judges P c (c.result 1) := by
  refine ⟨rfl, ?_⟩
  rw [ok_result]
  exact ⟨fun absurd_ => (Bool.false_ne_true absurd_).elim, fun both => (fails both.2).elim⟩

theorem trans (first : Judges P c c') (second : Judges Q c' c'') : Judges (P ∧ Q) c c'' := by
  refine ⟨second.stop.trans first.stop, ?_⟩
  rw [second.ok, first.ok, and_assoc]

theorem congr (judges : Judges P c c') (same : P ↔ Q) : Judges Q c c' := by
  refine ⟨judges.stop, ?_⟩
  rw [judges.ok, same]

theorem ite (P : Prop) (b : Bool) (same : b = true ↔ P) :
    Judges P c (if b then c else c.result 1) := by
  cases b with
  | true => exact refl (same.mp rfl)
  | false => exact result fun holds => Bool.false_ne_true (same.mpr holds)

end WControl.Judges

namespace WObject

open WControl (Judges)

variable {k : Comparison M V E}

theorem filter_nextEvaluation (l : List (RObject M V)) :
    l.filter (RObject.evaluable k) =
      match RObject.nextEvaluation k l with
      | [] => []
      | r :: after => r :: after.filter (RObject.evaluable k) := by
  induction l with
  | nil => rfl
  | cons r l ih =>
      by_cases takes : RObject.evaluable k r = true
      · have stays : RObject.nextEvaluation k (r :: l) = r :: l := by
          apply List.dropWhile_cons_of_neg
          rw [Bool.not_eq_true, Bool.not_eq_false']
          exact takes
        rw [List.filter_cons_of_pos takes, stays]
      · have drops : RObject.nextEvaluation k (r :: l) = RObject.nextEvaluation k l := by
          apply List.dropWhile_cons_of_pos
          rw [Bool.not_eq_true']
          exact Bool.eq_false_iff.mpr takes
        rw [List.filter_cons_of_neg takes, ih, drops]

/-- Where an evaluation goes on does not depend on what it finds. -/
theorem evaluate_next {w : WObject M E} (plain : Plain k w) (c : WControl) (r : RObject M V)
    (after : List (RObject M V)) :
    (evaluate k w c (r :: after)).2 = RObject.nextEvaluation k after := by
  cases plain with
  | member m operation steady => rw [evaluate]
  | compound m plain => rw [evaluate]
  | oneof m plain => rw [evaluate]

/-- The walk over the children of a compound, by induction on those of the definition. -/
theorem evaluateChildren_judges {ws : List (WObject M E)} (plain : ∀ w ∈ ws, Plain k w)
    (judges : ∀ w ∈ ws, ∀ c r after, c.stop = false →
      Judges (Matches k w r) c (evaluate k w c (r :: after)).1)
    (l : List (RObject M V)) (c : WControl) (going : c.stop = false) :
    Judges (List.Forall₂ (Matches k) (ws.filter (evaluable k)) (l.filter (RObject.evaluable k))) c
      (evaluateChildren k ws c (RObject.nextEvaluation k l)) := by
  induction ws generalizing c l with
  | nil =>
      rw [evaluateChildren, filter_nextEvaluation]
      cases RObject.nextEvaluation k l with
      | nil => exact .refl .nil
      | cons r after =>
          apply Judges.result
          intro each
          cases each
  | cons w ws ih =>
      have ih (l : List (RObject M V)) (c : WControl) (going : c.stop = false) :=
        ih (fun w mem => plain w (List.mem_cons_of_mem _ mem))
          (fun w mem => judges w (List.mem_cons_of_mem _ mem)) l c going
      by_cases takes : TObject.evaluateObject k w.meta_ = true
      · have kept : (w :: ws).filter (evaluable k) = w :: ws.filter (evaluable k) :=
          List.filter_cons_of_pos takes
        rw [evaluateChildren, if_pos takes, kept, filter_nextEvaluation]
        cases RObject.nextEvaluation k l with
        | nil =>
            apply Judges.result
            intro each
            cases each
        | cons r after =>
            have mine := judges w List.mem_cons_self c r after going
            have next := evaluate_next (plain w List.mem_cons_self) c r after
            have still : (evaluate k w c (r :: after)).1.stop = false := mine.stop.trans going
            have others := ih after (evaluate k w c (r :: after)).1 still
            simp only [List.isEmpty_cons, Bool.false_eq_true, if_false, still, next]
            exact (mine.trans others).congr List.forall₂_cons.symm
      · have dropped : (w :: ws).filter (evaluable k) = ws.filter (evaluable k) :=
          List.filter_cons_of_neg takes
        rw [evaluateChildren, if_neg takes, dropped]
        exact ih l c going

theorem evaluate_judges {w : WObject M E} (plain : Plain k w) (c : WControl) (r : RObject M V)
    (after : List (RObject M V)) (going : c.stop = false) :
    Judges (Matches k w r) c (evaluate k w c (r :: after)).1 := by
  induction plain generalizing c r after with
  | member m operation steady =>
      rename_i revaluate
      simp only [evaluate, metaEvaluate]
      by_cases same : k.comparableMeta m r.meta_ = true
      · simp only [same, if_true, compareValue, steady c r.pvalue]
        apply Judges.ite
        constructor
        · intro relation
          exact .member same relation
        · intro matches_
          cases matches_ with
          | member sameMeta relation => exact relation
      · simp only [same, Bool.false_eq_true, if_false]
        apply Judges.result
        intro matches_
        cases matches_ with
        | member sameMeta relation => exact same sameMeta
  | compound m plain judges =>
      simp only [evaluate, metaEvaluate]
      by_cases same : k.comparableMeta m r.meta_ = true
      · simp only [same, if_true]
        refine (evaluateChildren_judges plain judges r.children c going).congr ?_
        constructor
        · intro each
          exact .compound same each
        · intro matches_
          cases matches_ with
          | compound sameMeta each => exact each
      · simp only [same, Bool.false_eq_true, if_false]
        apply Judges.result
        intro matches_
        cases matches_ with
        | compound sameMeta each => exact same sameMeta
  | oneof m plain judges =>
      rename_i references
      simp only [evaluate, vevaluates_eq_map]
      apply Judges.ite
      rw [List.any_map, List.any_eq_true]
      have each (w : WObject M E) (mem : w ∈ references) :
          vevaluate k w (r :: after) = true ↔ Matches k w r := by
        have alone := (judges w mem {} r after rfl).ok
        have fresh : ({} : WControl).ok = true := rfl
        rw [vevaluate, List.isEmpty_cons, Bool.not_false, Bool.true_and, alone]
        exact and_iff_right fresh
      constructor
      · intro found
        obtain ⟨w, mem, matches_⟩ := found
        exact .oneof mem ((each w mem).mp matches_)
      · intro matches_
        cases matches_ with
        | oneof mem alternative => exact ⟨_, mem, (each _ mem).mpr alternative⟩

/-- A number, and one option or another. -/
def choice : WObject ℕ WvComb.Expected :=
  .compound 3 [.member 1 eOPLT_ (.number ⟨9⟩), .oneof 2 [WvComb.option (.number ⟨1⟩),
    WvComb.option (.number ⟨2⟩)]]

def chosen : RObject ℕ PvNumber :=
  .mk 3 ⟨0, 0⟩ ⟨8, 0⟩ ⟨0⟩ [.mk 1 ⟨0, 0⟩ ⟨4, 0⟩ ⟨7⟩ [], WvComb.received 2]

theorem plain_option (n : PvNumber) : Plain WvComb.numbers (WvComb.option (.number n)) := by
  apply Plain.compound
  intro w mem
  cases List.mem_singleton.mp mem
  exact .member 1 eOPEQ_ fun _ _ => rfl

theorem plain_choice : Plain WvComb.numbers choice := by
  apply Plain.compound
  intro w mem
  rcases List.mem_cons.mp mem with rfl | mem
  · exact .member 1 eOPLT_ fun _ _ => rfl
  · cases List.mem_singleton.mp mem
    apply Plain.oneof
    intro w mem
    rcases List.mem_cons.mp mem with rfl | mem
    · exact plain_option ⟨1⟩
    · cases List.mem_singleton.mp mem
      exact plain_option ⟨2⟩

end WObject

end Tahi.Pz
