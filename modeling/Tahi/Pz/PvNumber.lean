import Mathlib.Algebra.Order.Ring.Int

/-! # Comparing a received number with an expected one

A packet definition names a field, an operator and a value. The decoder leaves
the received value as a `PvNumber`, whose member is signed, and the evaluator
compares the two by a subtraction of 32-bit words. Both carry the state of the run with
them.
-/

namespace Tahi.Pz

/-- The error flag and the code of the last error or warning. A warning never
    replaces an error. -/
structure PControl where
  error : Bool := false
  resultcode : Int := 0
deriving DecidableEq, Repr

namespace PControl

/-- `operator bool`: true as long as there is no error. -/
def ok (c : PControl) : Bool := !c.error

def setError (c : PControl) (ecode : Int) : PControl :=
  { c with error := true, resultcode := ecode }

def setWarning (c : PControl) (wcode : Int) : PControl :=
  if c.error then c else { c with resultcode := wcode }

/-- The old interface. -/
def result (c : PControl) (ecode : Int) : PControl := c.setError ecode

@[simp] theorem error_setError (c : PControl) (e : Int) : (c.setError e).error = true := rfl

@[simp] theorem error_result (c : PControl) (e : Int) : (c.result e).error = true := rfl

@[simp] theorem error_setWarning (c : PControl) (w : Int) : (c.setWarning w).error = c.error := by
  unfold setWarning
  split
  · rfl
  · rfl

end PControl

/-- The bits of `TObject::eOperation`: which outcomes of a comparison an operator
    accepts. -/
def eOPLT_ : UInt32 := 0x01
def eOPEQ_ : UInt32 := 0x02
def eOPGT_ : UInt32 := 0x04

/-- The operators that the lexer knows. -/
inductive Operator where
  | eq
  | ne
  | lt
  | gt
  | le
  | ge
deriving DecidableEq, Repr

/-- The bits that the lexer registers for an operator. -/
def Operator.operation : Operator → UInt32
  | .eq => eOPEQ_
  | .ne => eOPLT_ ||| eOPGT_
  | .lt => eOPLT_
  | .gt => eOPGT_
  | .le => eOPLT_ ||| eOPEQ_
  | .ge => eOPGT_ ||| eOPEQ_

/-- What an operator means for the unsigned values of a field. -/
def Operator.Holds (op : Operator) (r e : UInt32) : Prop :=
  match op with
  | .eq => r = e
  | .ne => r ≠ e
  | .lt => r < e
  | .gt => r > e
  | .le => r ≤ e
  | .ge => r ≥ e

instance (op : Operator) (r e : UInt32) : Decidable (op.Holds r e) := by
  cases op <;> unfold Operator.Holds <;> infer_instance

structure PvNumber where
  value_ : Int32
deriving DecidableEq, Repr

namespace PvNumber

def value (n : PvNumber) : Int32 := n.value_

def compareNumber (n : PvNumber) (r : Int32) : Int32 := n.value - r

def compareObject (n r : PvNumber) : Int32 := -(r.compareNumber n.value)

theorem compareObject_eq_zero (n r : PvNumber) : n.compareObject r = 0 ↔ r = n := by
  obtain ⟨n⟩ := n
  obtain ⟨r⟩ := r
  rw [compareObject, compareNumber, PvNumber.mk.injEq]
  change -(r - n) = 0 ↔ r = n
  constructor
  · intro h
    have same : n - r = 0 := by rwa [Int32.neg_sub] at h
    rw [← Int32.sub_add_cancel n r, same, Int32.zero_add]
  · rintro rfl
    rw [Int32.sub_self, Int32.neg_zero]

end PvNumber

namespace WObject

/-- Whether an operator accepts what the expected value returned for the received
    one: a positive `x` says that the expected value is the greater. -/
def accepts (operation : UInt32) (x : Int32) : Bool :=
  if x > 0 then operation &&& eOPLT_ != 0
  else if x = 0 then operation &&& eOPEQ_ != 0
  else operation &&& eOPGT_ != 0

/-- `WObject::valueEvaluate` on two numbers. -/
def valueEvaluate (operation : UInt32) (ro eo : PvNumber) (c : PControl) : Bool × PControl :=
  let cmp := accepts operation (eo.compareObject ro)
  (cmp, if cmp then c else c.result 1)

/-- Which of the three outcomes an operator accepts. -/
private theorem operation_bits (op : Operator) :
    ((op.operation &&& eOPLT_ != 0) = true ↔ op = .lt ∨ op = .ne ∨ op = .le) ∧
    ((op.operation &&& eOPEQ_ != 0) = true ↔ op = .eq ∨ op = .le ∨ op = .ge) ∧
    ((op.operation &&& eOPGT_ != 0) = true ↔ op = .gt ∨ op = .ne ∨ op = .ge) := by
  cases op with
  | eq | ne | lt | gt | le | ge => decide

theorem accepts_iff (op : Operator) (x : Int32) :
    accepts op.operation x = true ↔
      match op with
      | .eq => x.toInt = 0
      | .ne => x.toInt ≠ 0
      | .lt => 0 < x.toInt
      | .gt => x.toInt < 0
      | .le => 0 ≤ x.toInt
      | .ge => x.toInt ≤ 0 := by
  have positive : x > 0 ↔ 0 < x.toInt := Int32.lt_iff_toInt_lt
  have zero : x = 0 ↔ x.toInt = 0 := Int32.toInt_inj.symm
  obtain ⟨less, same, greater⟩ := operation_bits op
  unfold accepts
  by_cases isLess : 0 < x.toInt
  · rw [if_pos (positive.mpr isLess), less]
    cases op with
    | eq | ne | lt | gt | le | ge => simp; try omega
  · rw [if_neg (positive.not.mpr isLess)]
    by_cases isSame : x.toInt = 0
    · rw [if_pos (zero.mpr isSame), same]
      cases op with
      | eq | ne | lt | gt | le | ge => simp [isSame]
    · rw [if_neg (zero.not.mpr isSame), greater]
      cases op with
      | eq | ne | lt | gt | le | ge => simp; try omega

theorem valueEvaluate_equal (ro eo : PvNumber) (c : PControl) :
    (valueEvaluate eOPEQ_ ro eo c).1 = true ↔ ro = eo := by
  have zero := accepts_iff .eq (eo.compareObject ro)
  rw [← PvNumber.compareObject_eq_zero]
  exact zero.trans (@Int32.toInt_inj _ 0)

/-- The comparison as an integer: the difference of the two words, wrapped when
    it is formed and once more when it is negated. -/
theorem compareObject_toInt (r e : UInt32) :
    ((PvNumber.mk e.toInt32).compareObject ⟨r.toInt32⟩).toInt =
      (-((r.toNat : Int) - e.toNat).bmod (2 ^ 32)).bmod (2 ^ 32) := by
  have word (u : UInt32) : u.toInt32.toInt = (u.toNat : Int).bmod (2 ^ 32) :=
    BitVec.toInt_eq_toNat_bmod u.toBitVec
  rw [PvNumber.compareObject, PvNumber.compareNumber, Int32.toInt_neg, Int32.toInt_sub]
  change (-(r.toInt32.toInt - e.toInt32.toInt).bmod (2 ^ 32)).bmod (2 ^ 32) = _
  rw [word, word, Int.bmod_sub_bmod, Int.sub_bmod_bmod]

/-- Where the wrapped difference has the sign of the difference. -/
private theorem wrapped_sign (d : Int) (lo : -2 ^ 32 < d) (hi : d < 2 ^ 32) :
    ((-d.bmod (2 ^ 32)).bmod (2 ^ 32) = 0 ↔ d = 0) ∧
    (0 < (-d.bmod (2 ^ 32)).bmod (2 ^ 32) ↔
      (-2 ^ 31 < d ∧ d < 0) ∨ 2 ^ 31 < d) := by
  simp only [Int.bmod]
  omega

/-- Equality and inequality are always right. The four orderings are right as
    long as the received value is less than `2 ^ 31` below the expected one and
    at most `2 ^ 31` above it. -/
theorem valueEvaluate_iff (op : Operator) (r e : UInt32) (c : PControl) :
    ((valueEvaluate op.operation ⟨r.toInt32⟩ ⟨e.toInt32⟩ c).1 = true ↔ op.Holds r e) ↔
      op = .eq ∨ op = .ne ∨
        (-2 ^ 31 < (r.toNat : Int) - e.toNat ∧ (r.toNat : Int) - e.toNat ≤ 2 ^ 31) := by
  have rLt := r.toNat_lt
  have eLt := e.toNat_lt
  obtain ⟨zero, positive⟩ := wrapped_sign ((r.toNat : Int) - e.toNat) (by omega) (by omega)
  rw [← compareObject_toInt] at zero positive
  simp only [valueEvaluate, accepts_iff]
  cases op with
  | eq =>
      simp [Operator.Holds, zero, ← UInt32.toNat_inj]
      omega
  | ne =>
      simp [Operator.Holds, zero, ← UInt32.toNat_inj]
      omega
  | lt =>
      simp [Operator.Holds, UInt32.lt_iff_toNat_lt]
      omega
  | gt => 
      simp [Operator.Holds, UInt32.lt_iff_toNat_lt]
      omega
  | le =>
      simp [Operator.Holds, UInt32.le_iff_toNat_le]
      omega
  | ge => 
      simp [Operator.Holds, UInt32.le_iff_toNat_le]
      omega

/-- A received 0 is not accepted as less than an expected `0x80000001`; it is
    accepted as greater. -/
theorem valueEvaluate_wraps : Operator.lt.Holds 0 0x80000001 ∧
    (valueEvaluate Operator.lt.operation ⟨(0 : UInt32).toInt32⟩
      ⟨(0x80000001 : UInt32).toInt32⟩ {}).1 = false ∧
    (valueEvaluate Operator.gt.operation ⟨(0 : UInt32).toInt32⟩
      ⟨(0x80000001 : UInt32).toInt32⟩ {}).1 = true := by
  decide

end WObject

end Tahi.Pz
