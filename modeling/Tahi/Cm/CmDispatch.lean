import Mathlib.Algebra.Order.Ring.Int
import Mathlib.Data.List.FinRange
import Tahi.General.Refinement

/-! # Waiting for descriptors

`select` and the loop behind it look at the descriptors below `nfds_`. It is raised when a descriptor
is linked, and lowered by a search when the highest one is given up.
-/

namespace Tahi.Cm

variable {NOFILE : ℕ} {ρ : Type}

abbrev CmFdSet (NOFILE : ℕ) := Fin NOFILE → Bool

def CmFdSet.setBit (fd : Fin NOFILE) (s : CmFdSet NOFILE) : CmFdSet NOFILE :=
  Function.update s fd true

def CmFdSet.clrBit (fd : Fin NOFILE) (s : CmFdSet NOFILE) : CmFdSet NOFILE :=
  Function.update s fd false

structure CmFdMasks (NOFILE : ℕ) (ρ : Type) where
  masks_ : CmFdSet NOFILE := fun _ => false
  readies_ : CmFdSet NOFILE := fun _ => false
  onSelects_ : CmFdSet NOFILE := fun _ => false
  handlers_ : Fin NOFILE → Option ρ := fun _ => none

namespace CmFdMasks

variable (fd : Fin NOFILE) (m : CmFdMasks NOFILE ρ)

/-- The handler may be a null pointer. -/
def attach (handler : Option ρ) : CmFdMasks NOFILE ρ :=
  { m with masks_ := m.masks_.setBit fd, handlers_ := Function.update m.handlers_ fd handler }

def detach : CmFdMasks NOFILE ρ :=
  { m with masks_ := m.masks_.clrBit fd
           readies_ := m.readies_.clrBit fd
           handlers_ := Function.update m.handlers_ fd none }

def notify : Option ρ := (m.handlers_ fd).filter fun _ => m.onSelects_ fd || m.readies_ fd

def clearReady : CmFdMasks NOFILE ρ := { m with readies_ := m.readies_.clrBit fd }

def setReady : CmFdMasks NOFILE ρ := { m with readies_ := m.readies_.setBit fd }

def clear : CmFdMasks NOFILE ρ :=
  { m with masks_ := m.masks_.clrBit fd, readies_ := m.readies_.clrBit fd }

/-- What `select` makes of `onSelects_`, of the descriptors below `nfds`. -/
def select (nfds : ℕ) (found : CmFdSet NOFILE) : CmFdMasks NOFILE ρ :=
  { m with onSelects_ := fun fd => decide (fd < nfds) && m.masks_ fd && found fd }

/-- The loop of `checkConnections`. A descriptor `fails` when it cannot be waited for. -/
def checkConnections (n : ℕ) (fails : CmFdSet NOFILE) : CmFdMasks NOFILE ρ :=
  ((List.finRange NOFILE).filter fun fd => decide (fd.val < n)).foldl (fun m fd =>
    if (m.handlers_ fd).isNone then m.clear fd else if fails fd then m.detach fd else m) m

end CmFdMasks

inductive CmDispatchMask where
  | ReadMask
  | WriteMask
  | ExceptMask
deriving DecidableEq, Repr

open CmDispatchMask

structure CmDispatch (NOFILE : ℕ) (ρ : Type) where
  nfds_ : ℕ := 0
  onRead_ : CmFdMasks NOFILE ρ := {}
  onWrite_ : CmFdMasks NOFILE ρ := {}
  onExcept_ : CmFdMasks NOFILE ρ := {}
  bounded : nfds_ ≤ NOFILE := by exact Nat.zero_le _

namespace CmDispatch

variable (d : CmDispatch NOFILE ρ)

def maskHandler : CmDispatchMask → CmFdMasks NOFILE ρ
  | ReadMask => d.onRead_
  | WriteMask => d.onWrite_
  | ExceptMask => d.onExcept_

def onMask (f : CmFdMasks NOFILE ρ → CmFdMasks NOFILE ρ) : CmDispatchMask → CmDispatch NOFILE ρ
  | ReadMask => { d with onRead_ := f d.onRead_ }
  | WriteMask => { d with onWrite_ := f d.onWrite_ }
  | ExceptMask => { d with onExcept_ := f d.onExcept_ }

/-- The process is aborted for any other descriptor. -/
def descriptor (fd : ℤ) : Option (Fin NOFILE) :=
  if inside : 0 ≤ fd ∧ fd < NOFILE then some ⟨fd.toNat, by omega⟩ else none

def attach (fd : Fin NOFILE) (mask : CmDispatchMask) (handler : Option ρ) : CmDispatch NOFILE ρ :=
  let d := d.onMask (CmFdMasks.attach fd · handler) mask
  if d.nfds_ < fd + 1 then { d with nfds_ := fd + 1, bounded := fd.isLt } else d

def link (fd : ℤ) (mask : CmDispatchMask) (handler : Option ρ) : Option (CmDispatch NOFILE ρ) :=
  (descriptor fd).map fun fd => d.attach fd mask handler

/-- The loop of `reduce_nfds`. It asks for a handler of `onWrite_` twice, and never for one of
    `onExcept_`. -/
def reduceLoop : (n : ℕ) → n ≤ NOFILE → ℕ
  | 0, _ => 0
  | i + 1, inside =>
      if (d.onRead_.handlers_ ⟨i, inside⟩).isSome || (d.onWrite_.handlers_ ⟨i, inside⟩).isSome ||
          (d.onWrite_.handlers_ ⟨i, inside⟩).isSome then i + 1
      else reduceLoop i (Nat.le_of_succ_le inside)

theorem reduceLoop_le (n : ℕ) (inside : n ≤ NOFILE) : d.reduceLoop n inside ≤ n := by
  induction n with
  | zero => exact Nat.le_refl _
  | succ i ih =>
      rw [reduceLoop]
      split
      · exact Nat.le_refl _
      · exact Nat.le_succ_of_le (ih _)

def reduce_nfds (fd : Fin NOFILE) : CmDispatch NOFILE ρ :=
  if d.nfds_ ≠ fd + 1 then d
  else
    { d with nfds_ := d.reduceLoop d.nfds_ d.bounded
             bounded := (d.reduceLoop_le _ _).trans d.bounded }

def detachMask (fd : Fin NOFILE) (mask : CmDispatchMask) : CmDispatch NOFILE ρ :=
  d.onMask (CmFdMasks.detach fd) mask

def detach (fd : Fin NOFILE) : CmDispatch NOFILE ρ :=
  (((d.detachMask fd ReadMask).detachMask fd WriteMask).detachMask fd ExceptMask).reduce_nfds fd

def unlinkMask (fd : ℤ) (mask : CmDispatchMask) : Option (CmDispatch NOFILE ρ) :=
  (descriptor fd).map fun fd => (d.detachMask fd mask).reduce_nfds fd

def unlink (fd : ℤ) : Option (CmDispatch NOFILE ρ) := (descriptor fd).map d.detach

/-- What `notify` does with the status of a receiver. -/
def notified (n : Fin NOFILE) (mask : CmDispatchMask) (status : ℤ) : CmDispatch NOFILE ρ :=
  if status < 0 then d.detach n
  else if status = 0 then d.onMask (CmFdMasks.clearReady n) mask
  else d.onMask (CmFdMasks.setReady n) mask

def waitFor (found : CmDispatchMask → CmFdSet NOFILE) : CmDispatch NOFILE ρ :=
  { d with onRead_ := d.onRead_.select d.nfds_ (found ReadMask)
           onWrite_ := d.onWrite_.select d.nfds_ (found WriteMask)
           onExcept_ := d.onExcept_.select d.nfds_ (found ExceptMask) }

/-- After `EBADF`, for the descriptors that are read from. -/
def checkConnections (fails : CmFdSet NOFILE) : CmDispatch NOFILE ρ :=
  d.onMask (CmFdMasks.checkConnections · d.nfds_ fails) ReadMask

end CmDispatch

/-- With the notifications that have been begun, the innermost one first. A receiver may link and
    unlink before it returns its status. -/
structure Dispatching (NOFILE : ℕ) (ρ : Type) extends CmDispatch NOFILE ρ where
  notifying : List (Fin NOFILE × CmDispatchMask) := []

namespace Dispatching

inductive Op (NOFILE : ℕ) (ρ : Type) where
  | link (fd : ℤ) (mask : CmDispatchMask) (handler : Option ρ)
  | unlinkMask (fd : ℤ) (mask : CmDispatchMask)
  | unlink (fd : ℤ)
  | waitFor (found : CmDispatchMask → CmFdSet NOFILE)
  | checkConnections (fails : CmFdSet NOFILE)
  | notify (n : Fin NOFILE) (mask : CmDispatchMask)
  /-- The receiver that is being notified returns. -/
  | status (status : ℤ)

/-- Without a receiver there is nothing to call, and the status is 0. -/
def step (s : Dispatching NOFILE ρ) : Op NOFILE ρ → Option (Dispatching NOFILE ρ × Unit)
  | .link fd mask handler =>
      (s.toCmDispatch.link fd mask handler).map fun d => ({ s with toCmDispatch := d }, ())
  | .unlinkMask fd mask =>
      (s.toCmDispatch.unlinkMask fd mask).map fun d => ({ s with toCmDispatch := d }, ())
  | .unlink fd => (s.toCmDispatch.unlink fd).map fun d => ({ s with toCmDispatch := d }, ())
  | .waitFor found => some ({ s with toCmDispatch := s.toCmDispatch.waitFor found }, ())
  | .checkConnections fails =>
      some ({ s with toCmDispatch := s.toCmDispatch.checkConnections fails }, ())
  | .notify n mask =>
      if ((s.maskHandler mask).notify n).isSome then
        some ({ s with notifying := (n, mask) :: s.notifying }, ())
      else some ({ s with toCmDispatch := s.toCmDispatch.notified n mask 0 }, ())
  | .status status =>
      match s.notifying with
      | [] => none
      | (n, mask) :: notifying => some (⟨s.toCmDispatch.notified n mask status, notifying⟩, ())

end Dispatching

/-! ## What is linked -/

namespace CmFdMasks

variable (m : CmFdMasks NOFILE ρ) (fd i : Fin NOFILE)

/-- The descriptor has a handler. -/
def Handles : Prop := (m.handlers_ i).isSome

theorem handles_attach (handler : Option ρ) (handles : (m.attach fd handler).Handles i) :
    i = fd ∨ m.Handles i := by
  by_cases same : i = fd
  · exact .inl same
  · simp only [Handles, attach, Function.update_of_ne same] at handles
    exact .inr handles

theorem handles_detach : (m.detach fd).Handles i ↔ m.Handles i ∧ i ≠ fd := by
  unfold Handles detach
  by_cases same : i = fd
  · simp [same]
  · simp [same]

/-- The sets of descriptors that are ready have nothing to do with it. -/
theorem handles_checkConnections (n : ℕ) (fails : CmFdSet NOFILE)
    (handles : (m.checkConnections n fails).Handles i) : m.Handles i := by
  unfold checkConnections at handles
  generalize (List.finRange NOFILE).filter (fun fd => decide (fd.val < n)) = fds at handles
  induction fds generalizing m with
  | nil => exact handles
  | cons fd fds ih =>
      rw [List.foldl_cons] at handles
      have before := ih _ handles
      split_ifs at before
      · exact before
      · exact ((m.handles_detach fd i).mp before).1
      · exact before

end CmFdMasks

namespace CmDispatch

variable (d : CmDispatch NOFILE ρ) (fd i : Fin NOFILE) (mask mask' : CmDispatchMask)

def Linked : Prop := (d.maskHandler mask).Handles i

/-- Every descriptor that has a handler is waited for. -/
def Covers : Prop := ∀ mask i, d.Linked i mask → i < d.nfds_

/-- What is linked when the handlers of `fd` in the masks that are `gone` have been taken away. -/
def Left (gone : CmDispatchMask → Prop) : Prop := d.Linked i mask ∧ ¬ (gone mask ∧ i = fd)

/-- The search from the highest descriptor finds a handler for reading or writing before it passes
    any for exceptions. -/
def Found (gone : CmDispatchMask → Prop) : Prop :=
  d.nfds_ = fd + 1 → ∀ j, d.Left fd j ExceptMask gone →
    ∃ i, j ≤ i ∧ (d.Left fd i ReadMask gone ∨ d.Left fd i WriteMask gone)

theorem maskHandler_onMask (f : CmFdMasks NOFILE ρ → CmFdMasks NOFILE ρ) :
    (d.onMask f mask).maskHandler mask' =
      if mask' = mask then f (d.maskHandler mask') else d.maskHandler mask' := by
  cases mask <;> cases mask' <;> rfl

@[simp] theorem nfds_onMask (f : CmFdMasks NOFILE ρ → CmFdMasks NOFILE ρ) :
    (d.onMask f mask).nfds_ = d.nfds_ := by
  cases mask <;> rfl

theorem linked_detachMask :
    (d.detachMask fd mask).Linked i mask' ↔ d.Linked i mask' ∧ ¬ (mask' = mask ∧ i = fd) := by
  unfold Linked detachMask
  rw [maskHandler_onMask]
  by_cases same : mask' = mask
  · rw [if_pos same, CmFdMasks.handles_detach]
    simp [same]
  · rw [if_neg same]
    simp [same]

@[simp] theorem nfds_detachMask : (d.detachMask fd mask).nfds_ = d.nfds_ := d.nfds_onMask mask _

theorem reduce_nfds_linked : (d.reduce_nfds fd).Linked i mask ↔ d.Linked i mask := by
  unfold reduce_nfds
  split <;> rfl

/-- The search stops above every handler for reading or writing. -/
theorem lt_reduceLoop (n : ℕ) (inside : n ≤ NOFILE) (j : ℕ) :
    j < d.reduceLoop n inside ↔
      ∃ i : Fin NOFILE, j ≤ i ∧ i < n ∧ (d.Linked i ReadMask ∨ d.Linked i WriteMask) := by
  induction n with
  | zero => simp [reduceLoop]
  | succ n ih =>
      have top : ((d.onRead_.handlers_ ⟨n, inside⟩).isSome ||
          (d.onWrite_.handlers_ ⟨n, inside⟩).isSome ||
          (d.onWrite_.handlers_ ⟨n, inside⟩).isSome) = true ↔
          d.Linked ⟨n, inside⟩ ReadMask ∨ d.Linked ⟨n, inside⟩ WriteMask := by
        simp [Linked, maskHandler, CmFdMasks.Handles]
      rw [reduceLoop]
      split
      · rename_i found
        constructor
        · intro less
          exact ⟨⟨n, inside⟩, Nat.le_of_lt_succ less, Nat.lt_succ_self n, top.mp found⟩
        · rintro ⟨i, le, less, -⟩
          exact Nat.lt_of_le_of_lt le less
      · rename_i absent
        rw [ih]
        constructor
        · rintro ⟨i, le, less, linked⟩
          exact ⟨i, le, Nat.lt_succ_of_lt less, linked⟩
        · rintro ⟨i, le, less, linked⟩
          refine ⟨i, le, ?_, linked⟩
          refine Nat.lt_of_le_of_ne (Nat.le_of_lt_succ less) ?_
          intro same
          obtain rfl : i = ⟨n, inside⟩ := Fin.ext same
          exact absent (top.mpr linked)

theorem nfds_reduce_nfds : (d.reduce_nfds fd).nfds_ =
    if d.nfds_ = fd + 1 then d.reduceLoop d.nfds_ d.bounded else d.nfds_ := by
  unfold reduce_nfds
  rw [ite_not]
  split <;> rfl

theorem covers_reduce_nfds (covers : d.Covers) :
    (d.reduce_nfds fd).Covers ↔ (d.nfds_ = fd + 1 → ∀ j, d.Linked j ExceptMask →
      ∃ i, j ≤ i ∧ (d.Linked i ReadMask ∨ d.Linked i WriteMask)) := by
  simp only [Covers, reduce_nfds_linked, nfds_reduce_nfds]
  by_cases highest : d.nfds_ = fd + 1
  · simp only [if_pos highest, lt_reduceLoop]
    constructor
    · intro all _ j linked
      obtain ⟨i, le, -, found⟩ := all ExceptMask j linked
      exact ⟨i, le, found⟩
    · intro found mask j linked
      cases mask with
      | ReadMask => exact ⟨j, Nat.le_refl _, covers _ j linked, .inl linked⟩
      | WriteMask => exact ⟨j, Nat.le_refl _, covers _ j linked, .inr linked⟩
      | ExceptMask =>
          obtain ⟨i, le, linked'⟩ := found highest j linked
          exact ⟨i, le, linked'.elim (covers _ i) (covers _ i), linked'⟩
  · simp only [if_neg highest]
    exact iff_of_true covers fun same => absurd same highest

variable {d fd}

theorem Covers.of_linked {d' : CmDispatch NOFILE ρ} (covers : d.Covers)
    (linked : ∀ mask i, d'.Linked i mask → d.Linked i mask) (nfds : d'.nfds_ = d.nfds_) :
    d'.Covers := by
  intro mask i there
  rw [nfds]
  exact covers mask i (linked mask i there)

/-- What is done to the sets of descriptors that are ready changes no handler. -/
theorem Covers.onMask (covers : d.Covers) {f : CmFdMasks NOFILE ρ → CmFdMasks NOFILE ρ}
    (handles : ∀ m i, (f m).Handles i → m.Handles i) (mask : CmDispatchMask) :
    (d.onMask f mask).Covers := by
  refine covers.of_linked ?_ (d.nfds_onMask mask f)
  intro mask' i there
  rw [Linked, maskHandler_onMask] at there
  split at there
  · exact handles _ i there
  · exact there

theorem Covers.attach (covers : d.Covers) (fd : Fin NOFILE) (mask : CmDispatchMask)
    (handler : Option ρ) : (d.attach fd mask handler).Covers := by
  have linked : ∀ mask' i, (d.onMask (CmFdMasks.attach fd · handler) mask).Linked i mask' →
      i = fd ∨ d.Linked i mask' := by
    intro mask' i there
    rw [Linked, maskHandler_onMask] at there
    split at there
    · exact CmFdMasks.handles_attach _ _ _ _ there
    · exact .inr there
  unfold CmDispatch.attach
  simp only [nfds_onMask]
  split
  · intro mask' i there
    rcases linked mask' i there with rfl | before
    · exact Nat.lt_succ_self _
    · exact Nat.lt_trans (covers mask' i before) ‹_›
  · rename_i above
    intro mask' i there
    rw [nfds_onMask]
    rcases linked mask' i there with rfl | before
    · exact Nat.lt_of_succ_le (Nat.le_of_not_lt above)
    · exact covers mask' i before

/-- After handlers have been taken away, the search is what the bound depends on. -/
theorem Covers.removed_iff {d' : CmDispatch NOFILE ρ} {gone : CmDispatchMask → Prop}
    (covers : d.Covers) (linked : ∀ mask i, d'.Linked i mask ↔ d.Left fd i mask gone)
    (nfds : d'.nfds_ = d.nfds_) : (d'.reduce_nfds fd).Covers ↔ d.Found fd gone := by
  have covers' : d'.Covers :=
    covers.of_linked (fun mask i there => ((linked mask i).mp there).1) nfds
  rw [covers_reduce_nfds _ _ covers', nfds]
  simp only [linked]
  rfl

theorem Covers.unlinkMask_iff (covers : d.Covers) (fd : Fin NOFILE) (mask : CmDispatchMask) :
    ((d.detachMask fd mask).reduce_nfds fd).Covers ↔ d.Found fd (· = mask) :=
  covers.removed_iff (fun mask' i => linked_detachMask d fd i mask mask') (by simp)

theorem Covers.detach_iff (covers : d.Covers) (fd : Fin NOFILE) :
    (d.detach fd).Covers ↔ d.Found fd fun _ => True := by
  refine covers.removed_iff (fun mask i => ?_) (by simp)
  rw [linked_detachMask, linked_detachMask, linked_detachMask, Left]
  cases mask <;> simp

theorem Covers.checkConnections (covers : d.Covers) (fails : CmFdSet NOFILE) :
    (d.checkConnections fails).Covers :=
  covers.onMask (fun m i => m.handles_checkConnections i d.nfds_ fails) ReadMask

/-- A receiver that has failed is given up, any other stays. -/
theorem Covers.notified_iff (covers : d.Covers) (n : Fin NOFILE) (mask : CmDispatchMask)
    (status : ℤ) :
    (d.notified n mask status).Covers ↔ (status < 0 → d.Found n fun _ => True) := by
  unfold notified
  by_cases failed : status < 0
  · rw [if_pos failed, covers.detach_iff]
    simp [failed]
  · rw [if_neg failed]
    refine iff_of_true ?_ fun negative => absurd negative failed
    split
    · exact covers.onMask (f := CmFdMasks.clearReady n) (fun _ _ handles => handles) mask
    · exact covers.onMask (f := CmFdMasks.setReady n) (fun _ _ handles => handles) mask

/-- `select` reports every descriptor that is linked and found. -/
theorem Covers.onSelects_waitFor (covers : d.Covers) {i : Fin NOFILE} {mask : CmDispatchMask}
    (linked : d.Linked i mask) (found : CmDispatchMask → CmFdSet NOFILE) :
    ((d.waitFor found).maskHandler mask).onSelects_ i =
      ((d.maskHandler mask).masks_ i && found mask i) := by
  have below := covers mask i linked
  cases mask <;> simp [waitFor, maskHandler, CmFdMasks.select, below]

end CmDispatch

/-! ## Every run -/

namespace Dispatching

/-- In the state before the step. -/
def Counted (s : Dispatching NOFILE ρ) : Op NOFILE ρ → Prop
  | .unlinkMask fd mask => ∀ n, CmDispatch.descriptor fd = some n → s.Found n (· = mask)
  | .unlink fd => ∀ n, CmDispatch.descriptor fd = some n → s.Found n fun _ => True
  | .status status =>
      status < 0 → ∀ top, s.notifying.head? = some top → s.Found top.1 fun _ => True
  | _ => True

/-- What one operation needs to keep the bound. -/
theorem step_covers_iff (s : Dispatching NOFILE ρ) (op : Op NOFILE ρ) (covers : s.Covers) :
    s.Counted op ↔ ∀ s' r, s.step op = some (s', r) → s'.Covers := by
  cases op with
  | link fd mask handler =>
      refine iff_of_true trivial ?_
      intro s' r stepped
      obtain ⟨d, linked, ends⟩ := Option.map_eq_some_iff.mp stepped
      obtain ⟨n, -, rfl⟩ := Option.map_eq_some_iff.mp linked
      cases ends
      exact covers.attach n mask handler
  | unlinkMask fd mask =>
      constructor
      · intro found s' r stepped
        obtain ⟨d, unlinked, ends⟩ := Option.map_eq_some_iff.mp stepped
        obtain ⟨n, inside, rfl⟩ := Option.map_eq_some_iff.mp unlinked
        cases ends
        exact (covers.unlinkMask_iff n mask).mpr (found n inside)
      · intro every n inside
        let s' := { s with toCmDispatch := (s.detachMask n mask).reduce_nfds n }
        have stepped : s.step (.unlinkMask fd mask) = some (s', ()) := by
          simp only [step, CmDispatch.unlinkMask, inside, Option.map_some, s']
        exact (covers.unlinkMask_iff n mask).mp (every s' () stepped)
  | unlink fd =>
      constructor
      · intro found s' r stepped
        obtain ⟨d, unlinked, ends⟩ := Option.map_eq_some_iff.mp stepped
        obtain ⟨n, inside, rfl⟩ := Option.map_eq_some_iff.mp unlinked
        cases ends
        exact (covers.detach_iff n).mpr (found n inside)
      · intro every n inside
        let s' := { s with toCmDispatch := s.detach n }
        have stepped : s.step (.unlink fd) = some (s', ()) := by
          simp only [step, CmDispatch.unlink, inside, Option.map_some, s']
        exact (covers.detach_iff n).mp (every s' () stepped)
  | waitFor found =>
      refine iff_of_true trivial ?_
      intro s' r stepped
      cases stepped
      exact covers.of_linked (fun mask i there => by cases mask <;> exact there) rfl
  | checkConnections fails =>
      refine iff_of_true trivial ?_
      intro s' r stepped
      cases stepped
      exact covers.checkConnections fails
  | notify n mask =>
      refine iff_of_true trivial ?_
      intro s' r stepped
      rw [step] at stepped
      split at stepped
      · cases stepped
        exact covers
      · cases stepped
        exact (covers.notified_iff n mask 0).mpr fun negative => absurd negative (by decide)
  | status status =>
      simp only [Counted, step]
      cases s.notifying with
      | nil => simp
      | cons top notifying =>
          constructor
          · intro found s' r stepped
            cases stepped
            exact (covers.notified_iff top.1 top.2 status).mpr fun failed => found failed top rfl
          · rintro every failed _ ⟨⟩
            exact (covers.notified_iff top.1 top.2 status).mp (every _ () rfl) failed

/-- The descriptors that have a handler are below `nfds_` after each part of the run. -/
def KeepsCovered (ops : List (Op NOFILE ρ)) : Prop :=
  ∀ before, before <+: ops → ∀ s rs, Refinement.run step {} before = some (s, rs) → s.Covers

theorem covers_initial : CmDispatch.Covers ({} : CmDispatch NOFILE ρ) := by
  intro mask i linked
  cases mask <;> cases linked

/-- The bound is kept as long as no handler for exceptions is above those that the search finds. -/
theorem keepsCovered_iff (ops : List (Op NOFILE ρ)) :
    KeepsCovered ops ↔ Refinement.Meets step Counted {} ops :=
  (@Refinement.Meets.iff_of_exact _ _ _ step Counted (fun s => s.Covers) step_covers_iff {}
    covers_initial ops).symm

/-- Behind the descriptor that is given up is one that is linked for exceptions only. -/
theorem not_keepsCovered : ¬ ∀ ops : List (Op 64 Unit), KeepsCovered ops := by
  intro claim
  let ops : List (Op 64 Unit) :=
    [.link 3 ExceptMask (some ()), .link 5 ReadMask (some ()), .unlink 5]
  have covers := claim ops ops (List.prefix_refl ops) _ _ rfl
  exact absurd (covers ExceptMask 3 rfl) (by decide)

end Dispatching

end Tahi.Cm
