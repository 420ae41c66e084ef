import Tahi.General.GreedyMatching
import Tahi.Pz.PvNumber
import Tahi.Pz.RControl

/-! # Comparing a decoded packet with a packet definition

The evaluator walks the objects of the definition and the decoded objects side by
side. An object is handed the decoded one it starts at and says where the next one
starts. `oneof` consumes one decoded object, `comb` as many as it has references.
-/

namespace Tahi.Pz

open GreedyMatching

structure WControl extends PControl where
  stop : Bool := false
deriving DecidableEq, Repr

namespace WControl

def result (c : WControl) (ecode : Int) : WControl :=
  { c with toPControl := c.toPControl.result ecode }

def setStop (c : WControl) : WControl := { c with stop := true }

def clearStop (c : WControl) : WControl := { c with stop := false }

@[simp] theorem ok_result (c : WControl) (e : Int) : (c.result e).ok = false := rfl

end WControl

/-- What the evaluator asks of the metas, of type `M`, and of the expected values,
    of type `E`, about the received values, of type `V`. -/
structure Comparison (M V E : Type) where
  disused : M → Bool
  comparableMeta : M → M → Bool
  compareObjectWith : WControl → E → V → Int32 × WControl

/-- An object of a packet definition: a function of the right-hand side that has no
    value to compare, a member, a compound, `oneof` and `comb`. -/
inductive WObject (M E : Type) where
  | data (m : M)
  | member (m : M) (operation : UInt32) (revaluate : E)
  | compound (m : M) (children : List (WObject M E))
  | oneof (m : M) (references : List (WObject M E))
  | comb (m : M) (references : List (WObject M E))

variable {M V E : Type}

def WObject.meta_ : WObject M E → M
  | .data m => m
  | .member m _ _ => m
  | .compound m _ => m
  | .oneof m _ => m
  | .comb m _ => m

/-- `WvComb::evaluate` up to its return. A decoded object is a list of itself and its
    later sisters, a null pointer is the empty list. The number is `tmp.size()`:
    `remove` takes one off. -/
@[grind =]
def combLoop {α : Type} (vevaluate : α → List (RObject M V) → Bool)
    (nextEvaluation : List (RObject M V) → List (RObject M V)) :
    Nat → List α → (q r : List (RObject M V)) → WControl → WControl × List (RObject M V)
  | 0, _, _, r, c => (c, nextEvaluation r.tail)
  | size + 1, tmp, q, r, c =>
      let next := nextEvaluation r.tail
      let r' := if q.isEmpty then next else r
      let q' := if q.isEmpty then next else q
      match tmp.find? (vevaluate · q') with
      | none => (c.result 1, q')
      | some _ => combLoop vevaluate nextEvaluation size (tmp.eraseP (vevaluate · q')) [] r' c

section

variable (k : Comparison M V E)

def TObject.evaluateObject (m : M) : Bool := !k.disused m

/-- The first of the objects that takes part in the evaluation. -/
def RObject.nextEvaluation (l : List (RObject M V)) : List (RObject M V) :=
  l.dropWhile fun r => !TObject.evaluateObject k r.meta_

namespace WObject

def metaEvaluate (m : M) (c : WControl) (r : RObject M V) : Bool × WControl :=
  let comp := k.comparableMeta m r.meta_
  (comp, if comp then c else c.result 1)

/-- `WObject::valueEvaluate` for any values. -/
def compareValue (operation : UInt32) (ro : V) (eo : E) (c : WControl) : WControl :=
  let (x, c) := k.compareObjectWith c eo ro
  if accepts operation x then c else c.result 1

mutual

/-- `evaluate` of each class, with its `doEvaluate`. -/
def evaluate : WObject M E → WControl → List (RObject M V) →
    WControl × List (RObject M V)
  | _, c, [] => (c, [])
  | .data m, c, r :: after => ((metaEvaluate k m c r).2, RObject.nextEvaluation k after)
  | .member m operation eo, c, r :: after =>
      let (comp, c) := metaEvaluate k m c r
      (if comp then compareValue k operation r.pvalue eo c else c,
        RObject.nextEvaluation k after)
  | .compound m children, c, r :: after =>
      let (comp, c) := metaEvaluate k m c r
      (if comp then evaluateChildren children c (RObject.nextEvaluation k r.children) else c,
        RObject.nextEvaluation k after)
  | .oneof _ references, c, r :: after =>
      let ok := (vevaluates references).any (· (r :: after))
      (if ok then c else c.result 1, RObject.nextEvaluation k after)
  | .comb _ references, c, r :: after =>
      combLoop (fun w q => w q) (RObject.nextEvaluation k) references.length
        (vevaluates references) (r :: after) (r :: after) c

/-- The loop of `WcObject::doEvaluate`, from the decoded object `cr` on. -/
def evaluateChildren : List (WObject M E) → WControl → List (RObject M V) → WControl
  | [], c, cr => if cr.isEmpty then c else c.result 1
  | w :: ws, c, cr =>
      if TObject.evaluateObject k w.meta_ then
        if cr.isEmpty then c.result 1
        else
          let (c, cr) := evaluate w c cr
          if c.stop then c.clearStop else evaluateChildren ws c cr
      else evaluateChildren ws c cr

/-- `vevaluate` of each object of a list. A null pointer is not accepted, anything
    else is evaluated under a control of its own. -/
def vevaluates : List (WObject M E) → List (List (RObject M V) → Bool)
  | [] => []
  | w :: ws => (fun r => !r.isEmpty && (evaluate w {} r).1.ok) :: vevaluates ws

end

def vevaluate (w : WObject M E) (r : List (RObject M V)) : Bool :=
  !r.isEmpty && (evaluate k w {} r).1.ok

end WObject

/-- The decoded objects that take part in the evaluation, each with its later
    sisters. -/
def RObject.evaluated : List (RObject M V) → List (List (RObject M V))
  | [] => []
  | r :: after =>
      if TObject.evaluateObject k r.meta_ then (r :: after) :: RObject.evaluated after
      else RObject.evaluated after

end

variable {k : Comparison M V E}

theorem WObject.vevaluates_eq_map (ws : List (WObject M E)) :
    vevaluates k ws = ws.map (vevaluate k) := by
  induction ws with
  | nil => simp [vevaluates]
  | cons w ws ih =>
      simp only [vevaluates, ih, List.map_cons, List.cons.injEq, and_true]
      rfl

theorem RObject.nextEvaluation_nil : RObject.nextEvaluation k ([] : List (RObject M V)) = [] :=
  rfl

/-- Where the walk over the sisters goes next. -/
theorem RObject.evaluated_eq (l : List (RObject M V)) :
    RObject.evaluated k l =
      match RObject.nextEvaluation k l with
      | [] => []
      | r :: after => (r :: after) :: RObject.evaluated k after := by
  induction l with
  | nil => simp [RObject.evaluated, RObject.nextEvaluation]
  | cons r after ih =>
      cases takes : TObject.evaluateObject k r.meta_ with
      | true => simp [RObject.evaluated, RObject.nextEvaluation, takes]
      | false =>
          simp only [RObject.evaluated, RObject.nextEvaluation, takes, Bool.not_false,
            List.dropWhile_cons_of_pos, Bool.false_eq_true, if_false]
          exact ih

section

variable {α : Type} {accept : α → List (RObject M V) → Bool}

/-- A turn that has an object to look at. -/
theorem combLoop_cons (size : Nat) (tmp : List α) (r : RObject M V)
    (after : List (RObject M V)) (c : WControl) :
    combLoop accept (RObject.nextEvaluation k) (size + 1) tmp (r :: after) (r :: after) c =
      if tmp.any (accept · (r :: after)) then
        combLoop accept (RObject.nextEvaluation k) size
          (tmp.eraseP (accept · (r :: after))) [] (r :: after) c
      else (c.result 1, r :: after) := by
  rw [combLoop]
  cases found : tmp.find? (accept · (r :: after)) with
  | none =>
      have none_ : tmp.any (accept · (r :: after)) = false := by
        simpa using found
      simp [found, none_]
  | some ok =>
      have accepts := List.find?_some found
      have some_ : tmp.any (accept · (r :: after)) = true :=
        List.any_eq_true.mpr ⟨ok, List.mem_of_find?_eq_some found, accepts⟩
      simp [found, some_]

/-- A turn that goes on to the next object. -/
theorem combLoop_nil (size : Nat) (tmp : List α) (r : List (RObject M V)) (c : WControl) :
    combLoop accept (RObject.nextEvaluation k) (size + 1) tmp [] r c =
      combLoop accept (RObject.nextEvaluation k) (size + 1) tmp
        (RObject.nextEvaluation k r.tail) (RObject.nextEvaluation k r.tail) c := by
  cases next : RObject.nextEvaluation k r.tail with
  | nil => simp [combLoop, next, RObject.nextEvaluation_nil]
  | cons s after => simp [combLoop, next]

/-- The loop is the greedy run over the objects that take part, by induction on the
    references that are left. -/
theorem combLoop_eq_greedy (null : ∀ x, accept x [] = false) {size : Nat} {tmp : List α}
    (count : tmp.length = size) (r : List (RObject M V)) (c : WControl) :
    (combLoop accept (RObject.nextEvaluation k) size tmp [] r c).1 =
      if greedy accept (RObject.evaluated k r.tail) tmp then c else c.result 1 := by
  induction size generalizing tmp r with
  | zero =>
      rw [List.length_eq_zero_iff.mp count, greedy_nil]
      rfl
  | succ size ih =>
      have more : tmp.isEmpty = false := by
        cases tmp with
        | nil => cases count
        | cons x tmp => rfl
      rw [combLoop_nil, RObject.evaluated_eq]
      cases next : RObject.nextEvaluation k r.tail with
      | nil =>
          have none_ : tmp.find? (accept · []) = none := by
            simp [null]
          simp [combLoop, RObject.nextEvaluation_nil, greedy, more, none_]
      | cons s after =>
          rw [combLoop_cons]
          cases some_ : tmp.any (accept · (s :: after)) with
          | false => simp [greedy, more, some_]
          | true =>
              obtain ⟨x, member, accepts⟩ := List.any_eq_true.mp some_
              have fewer : (tmp.eraseP (accept · (s :: after))).length = size := by
                rw [List.length_eraseP_of_mem member accepts, count]
                rfl
              simp only [if_true, greedy, more, some_, Bool.false_or, Bool.true_and]
              exact ih fewer (s :: after)

/-- The references may be read through a map. -/
theorem combLoop_map {γ : Type} (f : γ → α) (size : Nat) (tmp : List γ)
    (q r : List (RObject M V)) (c : WControl) :
    combLoop accept (RObject.nextEvaluation k) size (tmp.map f) q r c =
      combLoop (fun x => accept (f x)) (RObject.nextEvaluation k) size tmp q r c := by
  induction size generalizing tmp q r with
  | zero => rfl
  | succ size ih =>
      simp only [combLoop, List.find?_map, List.eraseP_map, Function.comp_def, ih]
      cases tmp.find? fun x =>
          accept (f x) (if q.isEmpty then RObject.nextEvaluation k r.tail else q) with
      | none => rfl
      | some ok => rfl

end

namespace WvComb

open WObject

/-- `WvComb::evaluate`, which starts at an object that takes part. -/
theorem evaluate_comb (m : M) (references : List (WObject M E)) (r : RObject M V)
    (after : List (RObject M V)) (c : WControl) :
    (evaluate k (.comb m references) c (r :: after)).1 =
      if greedy (vevaluate k) ((r :: after) :: RObject.evaluated k after) references
      then c else c.result 1 := by
  rw [evaluate, vevaluates_eq_map, combLoop_map]
  cases references with
  | nil => rfl
  | cons w ws =>
      have null (x : WObject M E) : vevaluate k x [] = false := rfl
      change (combLoop (vevaluate k) _ (ws.length + 1) _ _ _ c).1 = _
      rw [combLoop_cons]
      cases some_ : (w :: ws).any (vevaluate k · (r :: after)) with
      | false => simp only [greedy, some_]; rfl
      | true =>
          obtain ⟨x, member, accepts⟩ := List.any_eq_true.mp some_
          have fewer : ((w :: ws).eraseP (vevaluate k · (r :: after))).length = ws.length :=
            List.length_eraseP_of_mem member accepts
          simp only [if_true, greedy, some_, List.isEmpty_cons, Bool.false_or, Bool.true_and]
          exact combLoop_eq_greedy null fewer (r :: after) c

/-- The references of a `comb` can be matched one-to-one, in some order, with that
    many consecutive objects from the first one on. -/
def Matching (k : Comparison M V E) (references : List (WObject M E)) (r : RObject M V)
    (after : List (RObject M V)) : Prop :=
  Matched (vevaluate k) references ((r :: after) :: RObject.evaluated k after)

/-- However some references are matched with the first objects, one of the others
    accepts the next object. -/
def Extendable (k : Comparison M V E) (references : List (WObject M E)) (r : RObject M V)
    (after : List (RObject M V)) : Prop :=
  NoDeadEnd (vevaluate k) references ((r :: after) :: RObject.evaluated k after)

/-- Acceptance by `comb` is sound, and every matching is found in some order of the
    references. In every order, it is found exactly when no partial matching is a
    dead end. -/
theorem comb_accepts (m : M) (references : List (WObject M E)) (r : RObject M V)
    (after : List (RObject M V)) (c : WControl) (noError : c.ok = true) :
    ((evaluate k (.comb m references) c (r :: after)).1.ok = true →
      Matching k references r after) ∧
    ((∃ references', references'.Perm references ∧
      (evaluate k (.comb m references') c (r :: after)).1.ok = true) ↔
      Matching k references r after) ∧
    ((∀ references', references'.Perm references →
        ((evaluate k (.comb m references') c (r :: after)).1.ok = true ↔
          Matching k references r after)) ↔
      (Matching k references r after → Extendable k references r after)) := by
  have accepted (l : List (WObject M E)) :
      (evaluate k (.comb m l) c (r :: after)).1.ok = true ↔
        greedy (vevaluate k) ((r :: after) :: RObject.evaluated k after) l = true := by
    rw [evaluate_comb]
    split
    · simp [*]
    · simp [*]
  simp only [accepted]
  exact ⟨greedy_sound, exists_greedy_iff, forall_greedy_iff⟩

/-- Values as a definition writes them for numeric members. -/
inductive Expected where
  | number (n : PvNumber)
  | any
  | stop

/-- Numeric members, with metas that are compared by identity. -/
def numbers : Comparison Nat PvNumber Expected where
  disused _ := false
  comparableMeta m m' := m == m'
  compareObjectWith
    | c, .number eo, ro => (eo.compareObject ro, c)
    | c, .any, _ => (0, c)
    | c, .stop, _ => (0, c.setStop)

/-- An option with one member. -/
def option (e : Expected) : WObject Nat Expected := .compound 0 [.member 1 eOPEQ_ e]

def received (n : Int32) : RObject Nat PvNumber :=
  .mk 0 ⟨0, 0⟩ ⟨4, 0⟩ ⟨0⟩ [.mk 1 ⟨0, 0⟩ ⟨4, 0⟩ ⟨n⟩ []]

theorem comb_accepts_one : ({} : WControl).ok = true ∧
    ((evaluate numbers (.comb 2 [option (.number ⟨1⟩)]) {} [received 1]).1.ok = true →
      Matching numbers [option (.number ⟨1⟩)] (received 1) []) :=
  ⟨by decide, (comb_accepts 2 [option (.number ⟨1⟩)] (received 1) [] {} (by decide)).1⟩

/-- An option that leaves its member open takes the place of the one that fixes it.
    The other order of the references is accepted. -/
theorem comb_order : Matching numbers [option .any, option (.number ⟨1⟩)] (received 1) [received 2] ∧
    (evaluate numbers (.comb 2 [option .any, option (.number ⟨1⟩)]) {}
      [received 1, received 2]).1.ok = false ∧
    (evaluate numbers (.comb 2 [option (.number ⟨1⟩), option .any]) {}
      [received 1, received 2]).1.ok = true := by
  refine ⟨⟨[option (.number ⟨1⟩), option .any], [[received 1, received 2], [received 2]],
    .swap _ _ _, ?_, ?_⟩, ?_, ?_⟩
  · exact List.prefix_rfl
  · exact .cons (by decide) (.cons (by decide) .nil)
  · decide
  · decide

end WvComb

end Tahi.Pz
