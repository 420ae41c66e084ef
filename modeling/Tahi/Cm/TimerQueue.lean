import Mathlib.Data.List.Induction
import Mathlib.Data.List.Nodup
import Mathlib.Data.List.Perm.Lattice
import Tahi.General.LinkedList

/-! # The queue of the timers

`TimerQueue` keeps the timers in a list that is chained through `next_`, the earliest first.
`insert` puts a timer in its place, `remove` takes the first one of a receiver out, and `expire`
takes the first one out when its time has come.
-/

namespace Tahi.Cm

open LinkedList

structure Timeval where
  tv_sec : Int
  tv_usec : Int
deriving DecidableEq, Repr

namespace Timeval

def gt (src1 src2 : Timeval) : Bool :=
  decide (src1.tv_sec > src2.tv_sec) ||
    src1.tv_sec == src2.tv_sec && decide (src1.tv_usec > src2.tv_usec)

def lt (src1 src2 : Timeval) : Bool :=
  decide (src1.tv_sec < src2.tv_sec) ||
    src1.tv_sec == src2.tv_sec && decide (src1.tv_usec < src2.tv_usec)

def le (src1 src2 : Timeval) : Bool :=
  decide (src1.tv_sec < src2.tv_sec) ||
    src1.tv_sec == src2.tv_sec && decide (src1.tv_usec ≤ src2.tv_usec)

end Timeval

/-- A receiver is a pointer, `none` is 0. -/
structure Timer (ρ : Type) where
  value_ : Timeval
  receiver_ : Option ρ
deriving DecidableEq, Repr

structure TimerQueue (ρ : Type) where
  heap : Heap (Timer ρ) := []
  first_ : Option Nat := none
deriving DecidableEq, Repr

namespace TimerQueue

variable {ρ : Type}

/-- The loop of `insert`: from one node to the next while the new time is after its time. It
    returns `before` and `after`. -/
def advance (heap : Heap (Timer ρ)) (futureTime : Timeval) :
    Nat → Nat → Option Nat → Option (Nat × Option Nat)
  | _, before, none => some (before, none)
  | 0, _, some _ => none
  | fuel + 1, before, some after =>
      match heap.read after with
      | none => none
      | some node =>
          if futureTime.gt node.data.value_ then advance heap futureTime fuel after node.next
          else some (before, some after)

/-- An access to a timer that was deleted has no result. -/
def insert (q : TimerQueue ρ) (futureTime : Timeval) (r : Option ρ) : Option (TimerQueue ρ) :=
  match q.first_ with
  | none => some ⟨q.heap.malloc ⟨⟨futureTime, r⟩, none⟩, some q.heap.length⟩
  | some first =>
      match q.heap.read first with
      | none => none
      | some node =>
          if futureTime.lt node.data.value_ then
            some ⟨q.heap.malloc ⟨⟨futureTime, r⟩, some first⟩, some q.heap.length⟩
          else
            match advance q.heap futureTime q.heap.length first node.next with
            | none => none
            | some (before, after) =>
                let heap := q.heap.malloc ⟨⟨futureTime, r⟩, after⟩
                match heap.read before with
                | none => none
                | some node =>
                    (heap.write before ⟨node.data, some q.heap.length⟩).map (⟨·, some first⟩)

def remove [DecidableEq ρ] (q : TimerQueue ρ) (r : Option ρ) : Option (TimerQueue ρ) :=
  match q.first_ with
  | none => some q
  | some first =>
      match q.heap.find (fun timer => timer.receiver_ == r) first with
      | none => none
      | some none => some q
      | some (some (before, doomed, node)) =>
          match q.heap.unlink (some first) before node.next with
          | none => none
          | some (heap, first) => (heap.free doomed).map (⟨·, first⟩)

def expire (q : TimerQueue ρ) (curTime : Timeval) : Option (TimerQueue ρ × Option ρ) :=
  match q.first_ with
  | none => some (q, none)
  | some expired =>
      match q.heap.read expired with
      | none => none
      | some node =>
          if node.data.value_.gt curTime then some (q, none)
          else (q.heap.free expired).map fun heap => (⟨heap, node.next⟩, node.data.receiver_)

/-- `n` calls of `expire` with one time, and what they return. -/
def expires (curTime : Timeval) : Nat → TimerQueue ρ → Option (TimerQueue ρ × List (Option ρ))
  | 0, q => some (q, [])
  | n + 1, q =>
      match q.expire curTime with
      | none => none
      | some (q, h) => (expires curTime n q).map fun (q, hs) => (q, h :: hs)

/-- The timers that are queued, each with its address. -/
def timers (q : TimerQueue ρ) : Option (List (Nat × Timer ρ)) := q.heap.walk q.heap.length q.first_

end TimerQueue

/-- The earlier timer is before the later one. -/
def InOrder {ρ : Type} (timers : List (Nat × Timer ρ)) : Prop :=
  timers.Pairwise fun a b => a.2.value_.le b.2.value_

/-! ## The order of the times -/

namespace Timeval

variable {a b c : Timeval}

theorem le_iff : a.le b = true ↔ a.tv_sec < b.tv_sec ∨ a.tv_sec = b.tv_sec ∧ a.tv_usec ≤ b.tv_usec := by
  simp [le]

theorem gt_eq_not_le (a b : Timeval) : a.gt b = !a.le b := by
  rw [Bool.eq_iff_iff]
  simp only [gt, le, Bool.or_eq_true, Bool.and_eq_true, decide_eq_true_eq, beq_iff_eq,
    Bool.not_eq_true', Bool.or_eq_false_iff, Bool.and_eq_false_iff, decide_eq_false_iff_not,
    beq_eq_false_iff_ne]
  omega

theorem lt_eq_not_le (a b : Timeval) : a.lt b = !b.le a := by
  have swapped : a.lt b = b.gt a := by simp only [lt, gt, gt_iff_lt, BEq.comm]
  rw [swapped, gt_eq_not_le]

theorem le_total (more : a.le b = false) : b.le a := by
  rw [← Bool.not_eq_true, le_iff] at more
  rw [le_iff]
  omega

theorem le_trans (first : a.le b) (second : b.le c) : a.le c := by
  rw [le_iff] at *
  omega

end Timeval

/-! ## One call -/

namespace TimerQueue

variable {ρ : Type} {q : TimerQueue ρ} {cells : List (Nat × Timer ρ)}

/-- The queue is a list of timers in the order of their times. -/
structure Holds (q : TimerQueue ρ) (cells : List (Nat × Timer ρ)) : Prop where
  linked : Linked q.heap q.first_ cells
  inOrder : InOrder cells

theorem Holds.timers (holds : q.Holds cells) : q.timers = some cells := holds.linked.walk

/-- The loop of `insert` passes timers that are not later, and stops at one that is not
    earlier. -/
theorem advance_stops {heap : Heap (Timer ρ)} {futureTime : Timeval} {after : Option Nat}
    (seg : Seg heap after cells none) {fuel : Nat} (enough : cells.length ≤ fuel)
    {before : Nat} {timer : Timer ρ} (notLater : timer.value_.le futureTime) :
    ∃ front cell ahead, (before, timer) :: cells = front ++ cell :: ahead ∧
      advance heap futureTime fuel before after = some (cell.1, first ahead none) ∧
      (∀ c ∈ front ++ [cell], c.2.value_.le futureTime) ∧
      ∀ c ∈ ahead.head?, futureTime.le c.2.value_ := by
  induction cells generalizing after fuel before timer with
  | nil =>
      cases seg
      refine ⟨[], (before, timer), [], rfl, ?_, by simpa using notLater, by simp⟩
      cases fuel <;> rfl
  | cons next cells ih =>
      obtain ⟨rfl, behind, found, rest⟩ := seg
      cases fuel with
      | zero => cases enough
      | succ fuel =>
          simp only [advance, found, Timeval.gt_eq_not_le]
          cases later : futureTime.le next.2.value_ with
          | true =>
              exact ⟨[], (before, timer), next :: cells, rfl, rfl, by simpa using notLater,
                by simpa using later⟩
          | false =>
              obtain ⟨front, cell, ahead, same, advanced, passed, stopped⟩ :=
                ih rest (Nat.le_of_succ_le_succ enough) (Timeval.le_total later)
              refine ⟨(before, timer) :: front, cell, ahead, by rw [same]; rfl, advanced, ?_, stopped⟩
              intro c mem
              cases List.mem_cons.mp mem with
              | inl here => exact here ▸ notLater
              | inr behind => exact passed c behind

/-- A timer that is put between earlier and later ones keeps the order. -/
theorem InOrder.insert {before after : List (Nat × Timer ρ)} {cell : Nat × Timer ρ}
    (inOrder : InOrder (before ++ after)) (earlier : ∀ c ∈ before, c.2.value_.le cell.2.value_)
    (later : ∀ c ∈ after.head?, cell.2.value_.le c.2.value_) :
    InOrder (before ++ cell :: after) := by
  have laterAll : ∀ c ∈ after, cell.2.value_.le c.2.value_ := by
    cases after with
    | nil => simp
    | cons next after =>
        intro c mem
        have nextLater := later next rfl
        cases List.mem_cons.mp mem with
        | inl here => exact here ▸ nextLater
        | inr behind =>
            have tail := (List.pairwise_append.mp inOrder).2.1
            exact Timeval.le_trans nextLater ((List.pairwise_cons.mp tail).1 c behind)
  obtain ⟨front, back, between⟩ := List.pairwise_append.mp inOrder
  apply List.pairwise_append.mpr
  refine ⟨front, List.pairwise_cons.mpr ⟨laterAll, back⟩, ?_⟩
  intro a inFront b inBack
  cases List.mem_cons.mp inBack with
  | inl here => exact here ▸ earlier a inFront
  | inr behind => exact between a inFront b behind

theorem Holds.insert_spec (holds : q.Holds cells) (futureTime : Timeval) (r : Option ρ) :
    ∃ q' before after, q.insert futureTime r = some q' ∧ cells = before ++ after ∧
      q'.Holds (before ++ (q.heap.length, ⟨futureTime, r⟩) :: after) ∧
      q'.heap.length = q.heap.length + 1 := by
  obtain ⟨linked, inOrder⟩ := holds
  unfold insert
  cases cells with
  | nil =>
      have empty : q.first_ = none := linked.start_eq
      rw [empty] at linked ⊢
      refine ⟨_, [], [], rfl, rfl, ⟨linked.prepend _, ?_⟩, Heap.length_malloc⟩
      exact List.pairwise_singleton _ _
  | cons cell cells =>
      obtain ⟨address, timer⟩ := cell
      have started : q.first_ = some address := linked.start_eq
      obtain ⟨-, next, found, rest⟩ := linked.seg
      rw [started] at linked ⊢
      simp only [found, Timeval.lt_eq_not_le]
      cases notLater : timer.value_.le futureTime with
      | false =>
          refine ⟨_, [], (address, timer) :: cells, rfl, rfl, ⟨linked.prepend _, ?_⟩,
            Heap.length_malloc⟩
          have earlier := Timeval.le_total notLater
          exact @InOrder.insert ρ [] _ (_, ⟨futureTime, r⟩) inOrder (by simp) (by simpa using earlier)
      | true =>
          have enough : cells.length ≤ q.heap.length := Nat.le_of_succ_le linked.length_le
          obtain ⟨front, before, ahead, same, advanced, passed, stopped⟩ :=
            @advance_stops ρ cells q.heap futureTime next rest _ enough address timer notLater
          rw [same] at linked inOrder ⊢
          obtain ⟨heap, written, grown⟩ := linked.insert ⟨futureTime, r⟩
          have read := (linked.malloc ⟨⟨futureTime, r⟩, first ahead none⟩).read
          refine ⟨⟨heap, some address⟩, front ++ [before], ahead, ?_, by simp, ⟨?_, ?_⟩, ?_⟩
          · simp only [advanced, read, written]
            rfl
          · simpa using grown
          · exact InOrder.insert (by simpa using inOrder) passed stopped
          · rw [Heap.length_write written, Heap.length_malloc]

/-- `remove` takes the first timer of the receiver out, if it has one. -/
theorem Holds.remove_spec [DecidableEq ρ] (holds : q.Holds cells) (r : Option ρ) :
    (∀ c ∈ cells, c.2.receiver_ ≠ r) ∧ q.remove r = some q ∨
      ∃ q' before doomed after, q.remove r = some q' ∧ cells = before ++ doomed :: after ∧
        (∀ c ∈ before, c.2.receiver_ ≠ r) ∧ doomed.2.receiver_ = r ∧
        q'.Holds (before ++ after) ∧ q'.heap.length = q.heap.length := by
  obtain ⟨linked, inOrder⟩ := holds
  unfold remove
  cases started : q.first_ with
  | none =>
      rw [started] at linked
      have empty : cells = [] := linked.seg.unique rfl
      exact Or.inl ⟨by simp [empty], rfl⟩
  | some first =>
      rw [started] at linked
      cases found : cells.find? fun c => c.2.receiver_ == r with
      | none =>
          have others : ∀ c ∈ cells, (c.2.receiver_ == r) = false := by
            simpa using List.find?_eq_none.mp found
          refine Or.inl ⟨by simpa using others, ?_⟩
          simp only [Linked.find_none (p := fun timer => timer.receiver_ == r) linked others]
      | some doomed =>
          obtain ⟨here, before, after, rfl, others⟩ := List.find?_eq_some_iff_append.mp found
          simp only [Bool.not_eq_eq_eq_not, Bool.not_true] at others
          obtain ⟨heap, start, heap', unlinked, freed, shorter, -, -⟩ := linked.remove
          refine Or.inr ⟨⟨heap', start⟩, before, doomed, after, ?_, rfl, by simpa using others,
            by simpa using here, ⟨shorter, ?_⟩, ?_⟩
          · simp only [Linked.find_some (p := fun timer => timer.receiver_ == r) linked others here,
              unlinked, freed]
            rfl
          · exact inOrder.sublist ((List.sublist_cons_self _ _).append_left _)
          · rw [Heap.length_free freed, Heap.length_unlink unlinked]

/-- `expire` takes the first timer out if it is not later than the time. -/
theorem Holds.expire_spec (holds : q.Holds cells) (curTime : Timeval) :
    (∀ c ∈ cells.head?, c.2.value_.le curTime = false) ∧ q.expire curTime = some (q, none) ∨
      ∃ q' expired rest, q.expire curTime = some (q', expired.2.receiver_) ∧
        cells = expired :: rest ∧ expired.2.value_.le curTime ∧
        q'.Holds rest ∧ q'.heap.length = q.heap.length := by
  obtain ⟨linked, inOrder⟩ := holds
  unfold expire
  cases cells with
  | nil =>
      have empty : q.first_ = none := linked.start_eq
      exact Or.inl ⟨by simp, by rw [empty]⟩
  | cons cell cells =>
      obtain ⟨address, timer⟩ := cell
      have started : q.first_ = some address := linked.start_eq
      obtain ⟨-, next, found, rest⟩ := linked.seg
      simp only [started, found, Timeval.gt_eq_not_le, Heap.free_of_read found, Option.map_some]
      cases due : timer.value_.le curTime with
      | false => exact Or.inl ⟨by simpa using due, rfl⟩
      | true =>
          have nodup := List.nodup_cons.mp linked.nodup
          refine Or.inr ⟨_, (address, timer), cells, rfl, rfl, due, ⟨⟨?_, nodup.2⟩, ?_⟩,
            List.length_set⟩
          · exact rest.set nodup.1 none
          · exact (List.pairwise_cons.mp inOrder).2

/-! ## Calls with one time -/

/-- The timers whose time has come. -/
def due (curTime : Timeval) (cells : List (Nat × Timer ρ)) : List (Nat × Timer ρ) :=
  cells.filter fun c => c.2.value_.le curTime

def later (curTime : Timeval) (cells : List (Nat × Timer ρ)) : List (Nat × Timer ρ) :=
  cells.filter fun c => !c.2.value_.le curTime

/-- Behind a timer that is later there are later ones only. -/
theorem due_eq_nil (inOrder : InOrder cells) {curTime : Timeval}
    (early : ∀ c ∈ cells.head?, c.2.value_.le curTime = false) :
    due curTime cells = [] := by
  apply List.filter_eq_nil_iff.mpr
  cases cells with
  | nil => simp
  | cons first cells =>
      have firstLater := early first rfl
      intro c mem
      cases List.mem_cons.mp mem with
      | inl here => simp [here, firstLater]
      | inr behind =>
          intro notLater
          have ordered := (List.pairwise_cons.mp inOrder).1 c behind
          rw [Timeval.le_trans ordered notLater] at firstLater
          cases firstLater

theorem later_eq_self {curTime : Timeval} (none_ : due curTime cells = []) :
    later curTime cells = cells := by
  apply List.filter_eq_self.mpr
  intro c mem
  simpa using List.filter_eq_nil_iff.mp none_ c mem

theorem due_append_later (inOrder : InOrder cells) (curTime : Timeval) :
    due curTime cells ++ later curTime cells = cells := by
  induction cells with
  | nil => rfl
  | cons first cells ih =>
      cases firstDue : first.2.value_.le curTime with
      | false =>
          have none_ : due curTime (first :: cells) = [] :=
            due_eq_nil inOrder (by simpa using firstDue)
          rw [none_, later_eq_self none_, List.nil_append]
      | true =>
          have rest := ih (List.pairwise_cons.mp inOrder).2
          simpa [due, later, firstDue] using rest

/-- `n` calls return the receivers of the first `n` timers that are due, and 0 when there are
    no more of them. -/
theorem Holds.expires_spec (holds : q.Holds cells) (curTime : Timeval) (n : Nat) :
    ∃ q', q.expires curTime n = some (q',
        ((due curTime cells).map fun c => c.2.receiver_).take n ++
          List.replicate (n - (due curTime cells).length) none) ∧
      q'.Holds ((due curTime cells).drop n ++ later curTime cells) := by
  induction n generalizing q cells with
  | zero =>
      refine ⟨q, by simp [expires], ?_⟩
      rw [List.drop_zero, due_append_later holds.inOrder]
      exact holds
  | succ n ih =>
      cases holds.expire_spec curTime with
      | inl nothing =>
          obtain ⟨early, expired⟩ := nothing
          have none_ := due_eq_nil holds.inOrder early
          obtain ⟨q', again, holds'⟩ := ih holds
          rw [none_] at again holds' ⊢
          refine ⟨q', ?_, by simpa using holds'⟩
          simp only [expires, expired, again, Option.map_some]
          simp [List.replicate_succ]
      | inr taken =>
          obtain ⟨q₁, first, rest, expired, rfl, firstDue, holds₁, -⟩ := taken
          obtain ⟨q', again, holds'⟩ := ih holds₁
          have dueCons : due curTime (first :: rest) = first :: due curTime rest := by
            simp [due, firstDue]
          have laterCons : later curTime (first :: rest) = later curTime rest := by
            simp [later, firstDue]
          rw [dueCons, laterCons]
          refine ⟨q', ?_, by simpa using holds'⟩
          simp only [expires, expired, again, Option.map_some]
          simp

/-! ## Histories -/

inductive Op (ρ : Type) where
  | insert (futureTime : Timeval) (r : Option ρ)
  | remove (r : Option ρ)
  | expire (curTime : Timeval)
deriving DecidableEq, Repr

/-- The timer that a call makes. -/
def Op.made : Op ρ → Option (Timer ρ)
  | .insert futureTime r => some ⟨futureTime, r⟩
  | _ => none

/-- The timers that were inserted, numbered in the order of the calls. -/
def inserted (ops : List (Op ρ)) : List (Nat × Timer ρ) :=
  ((ops.filterMap Op.made).zipIdx).map Prod.swap

/-- A queue after some calls. With each `remove` and `expire` are its argument, what it
    returned and the timers that were queued before it and are not after it. -/
structure Past (ρ : Type) where
  queue : TimerQueue ρ := {}
  removed : List (Option ρ × List (Nat × Timer ρ)) := []
  expired : List (Timeval × Option ρ × List (Nat × Timer ρ)) := []

namespace Past

/-- The timers that left the queue. -/
def gone (s : Past ρ) : List (Nat × Timer ρ) :=
  s.removed.flatMap (fun r => r.2) ++ s.expired.flatMap fun e => e.2.2

end Past

variable [DecidableEq ρ]

def lost (q q' : TimerQueue ρ) : List (Nat × Timer ρ) :=
  (q.timers.getD []).filter fun c => c ∉ q'.timers.getD []

def Past.step (s : Past ρ) : Op ρ → Option (Past ρ)
  | .insert futureTime r => (s.queue.insert futureTime r).map fun q => { s with queue := q }
  | .remove r =>
      (s.queue.remove r).map fun q =>
        { s with queue := q, removed := s.removed ++ [(r, lost s.queue q)] }
  | .expire curTime =>
      (s.queue.expire curTime).map fun (q, h) =>
        { s with queue := q, expired := s.expired ++ [(curTime, h, lost s.queue q)] }

def Past.run (ops : List (Op ρ)) : Option (Past ρ) := ops.foldlM Past.step {}

/-- A timer that left at a `remove` is of its receiver. One that left at an `expire` is not
    later than the time, and its receiver was returned. No call takes two. -/
def Past.OneEach (s : Past ρ) : Prop :=
  (∀ r ∈ s.removed, r.2 = [] ∨ ∃ c, r.2 = [c] ∧ c.2.receiver_ = r.1) ∧
  ∀ e ∈ s.expired, (e.2.2 = [] ∧ e.2.1 = none) ∨
    ∃ c, e.2.2 = [c] ∧ c.2.receiver_ = e.2.1 ∧ c.2.value_.le e.1

omit [DecidableEq ρ] in
theorem inserted_nodup (ops : List (Op ρ)) : ((inserted ops).map Prod.fst).Nodup := by
  have numbers : (inserted ops).map Prod.fst =
      ((ops.filterMap Op.made).zipIdx).map Prod.snd := by
    rw [inserted, List.map_map]
    rfl
  rw [numbers, List.zipIdx_map_snd]
  exact List.nodup_range'

omit [DecidableEq ρ] in
theorem inserted_concat (ops : List (Op ρ)) (op : Op ρ) :
    inserted (ops ++ [op]) =
      inserted ops ++ (op.made.toList.map fun timer => ((inserted ops).length, timer)) := by
  cases made : op.made with
  | none => simp [inserted, made]
  | some timer => simp [inserted, made, List.zipIdx_append]

section Lost

variable {q' : TimerQueue ρ} {before after : List (Nat × Timer ρ)} {cell : Nat × Timer ρ}

theorem lost_self (holds : q.Holds cells) : lost q q = [] := by
  simp [lost, holds.timers]

theorem lost_one (holds : q.Holds (before ++ cell :: after)) (holds' : q'.Holds (before ++ after)) :
    lost q q' = [cell] := by
  have nodup := holds.linked.nodup.of_map
  simp only [lost, holds.timers, holds'.timers, Option.getD_some]
  rw [List.nodup_middle, List.nodup_cons] at nodup
  rw [List.filter_append, List.filter_cons_of_pos (by simpa using nodup.1)]
  have front : before.filter (fun c => c ∉ before ++ after) = [] := by simp +contextual
  have back : after.filter (fun c => c ∉ before ++ after) = [] := by simp +contextual
  rw [front, back, List.nil_append]

end Lost

/-- After the calls `ops` the timers `cells` are queued. -/
structure Past.Keeps (s : Past ρ) (ops : List (Op ρ)) (cells : List (Nat × Timer ρ)) : Prop where
  holds : s.queue.Holds cells
  numbered : s.queue.heap.length = (inserted ops).length
  conserved : (inserted ops).Perm (s.gone ++ cells)
  oneEach : s.OneEach

section Conserved

variable {s : Past ρ} {ops : List (Op ρ)} {before after : List (Nat × Timer ρ)}
variable {cell : Nat × Timer ρ} {made : List (Nat × Timer ρ)}

omit [DecidableEq ρ] in
theorem conserved_insert (conserved : made.Perm (s.gone ++ (before ++ after))) :
    (made ++ [cell]).Perm (s.gone ++ (before ++ cell :: after)) := by
  have moved := (List.perm_append_singleton cell made).trans (conserved.cons cell)
  rw [← List.append_assoc] at moved ⊢
  exact moved.trans List.perm_middle.symm

theorem conserved_remove (r : Option ρ) (q : TimerQueue ρ)
    (conserved : made.Perm (s.gone ++ (before ++ cell :: after))) :
    made.Perm (Past.gone { s with queue := q, removed := s.removed ++ [(r, [cell])] } ++
      (before ++ after)) := by
  rw [List.perm_iff_count] at *
  intro c
  have same := conserved c
  simp only [Past.gone, List.flatMap_append, List.flatMap_singleton, List.count_append,
    List.count_cons, List.count_nil] at same ⊢
  omega

theorem conserved_expire (curTime : Timeval) (h : Option ρ) (q : TimerQueue ρ)
    (conserved : made.Perm (s.gone ++ cell :: after)) :
    made.Perm (Past.gone { s with queue := q, expired := s.expired ++ [(curTime, h, [cell])] } ++
      after) := by
  rw [List.perm_iff_count] at *
  intro c
  have same := conserved c
  simp only [Past.gone, List.flatMap_append, List.flatMap_singleton, List.count_append,
    List.count_cons, List.count_nil] at same ⊢
  omega

end Conserved

/-- One call. -/
theorem Past.Keeps.step {s : Past ρ} {ops : List (Op ρ)} (keeps : s.Keeps ops cells) (op : Op ρ) :
    ∃ s' cells', s.step op = some s' ∧ s'.Keeps (ops ++ [op]) cells' := by
  obtain ⟨holds, numbered, conserved, removedOne, expiredOne⟩ := keeps
  have longer := inserted_concat ops op
  cases op with
  | insert futureTime r =>
      obtain ⟨q', before, after, done, rfl, holds', length⟩ := holds.insert_spec futureTime r
      refine ⟨{ s with queue := q' }, _, by simp only [Past.step, done, Option.map_some],
        holds', ?_, ?_, removedOne, expiredOne⟩
      · simp [longer, Op.made, length, numbered]
      · rw [longer, numbered]
        exact conserved_insert conserved
  | remove r =>
      replace longer : inserted (ops ++ [Op.remove r]) = inserted ops := by simpa [Op.made] using longer
      cases holds.remove_spec r with
      | inl nothing =>
          refine ⟨{ s with removed := s.removed ++ [(r, lost s.queue s.queue)] }, cells, ?_,
            holds, by rw [longer, numbered], ?_, ?_, expiredOne⟩
          · simp only [Past.step, nothing.2, Option.map_some]
          · rw [longer]
            simpa [Past.gone, lost_self holds] using conserved
          · exact List.forall_mem_append.mpr ⟨removedOne, by simp [lost_self holds]⟩
      | inr taken =>
          obtain ⟨q', before, doomed, after, done, rfl, -, here, holds', length⟩ := taken
          refine ⟨{ s with queue := q', removed := s.removed ++ [(r, lost s.queue q')] },
            before ++ after, by simp only [Past.step, done, Option.map_some], holds',
            by rw [longer, ← numbered, length], ?_, ?_, expiredOne⟩
          · rw [longer, lost_one holds holds']
            exact conserved_remove r q' conserved
          · apply List.forall_mem_append.mpr ⟨removedOne, List.forall_mem_singleton.mpr ?_⟩
            exact Or.inr ⟨doomed, lost_one holds holds', here⟩
  | expire curTime =>
      replace longer : inserted (ops ++ [Op.expire curTime]) = inserted ops := by
        simpa [Op.made] using longer
      cases holds.expire_spec curTime with
      | inl nothing =>
          refine ⟨{ s with expired := s.expired ++ [(curTime, none, lost s.queue s.queue)] },
            cells, ?_, holds, by rw [longer, numbered], ?_, removedOne, ?_⟩
          · simp only [Past.step, nothing.2, Option.map_some]
          · rw [longer]
            simpa [Past.gone, lost_self holds] using conserved
          · exact List.forall_mem_append.mpr ⟨expiredOne, by simp [lost_self holds]⟩
      | inr taken =>
          obtain ⟨q', first, rest, done, rfl, firstDue, holds', length⟩ := taken
          have left : lost s.queue q' = [first] := @lost_one ρ _ _ _ [] rest first holds holds'
          refine ⟨{ s with queue := q', expired := s.expired ++
              [(curTime, first.2.receiver_, lost s.queue q')] }, rest,
            by simp only [Past.step, done, Option.map_some], holds',
            by rw [longer, ← numbered, length], ?_, removedOne, ?_⟩
          · rw [longer, left]
            exact conserved_expire curTime _ q' conserved
          · apply List.forall_mem_append.mpr ⟨expiredOne, List.forall_mem_singleton.mpr ?_⟩
            exact Or.inr ⟨first, left, rfl, firstDue⟩

/-- Every sequence of calls. -/
theorem Past.run_keeps (ops : List (Op ρ)) :
    ∃ s cells, Past.run ops = some s ∧ Past.Keeps s ops cells := by
  induction ops using List.reverseRecOn with
  | nil =>
      refine ⟨{}, [], rfl, ⟨⟨rfl, List.nodup_nil⟩, List.Pairwise.nil⟩, rfl, ?_, ?_⟩
      · exact List.Perm.refl []
      · simp [Past.OneEach]
  | append_singleton ops op ih =>
      obtain ⟨s, cells, ran, keeps⟩ := ih
      obtain ⟨s', cells', stepped, keeps'⟩ := keeps.step op
      refine ⟨s', cells', ?_, keeps'⟩
      rw [Past.run] at ran ⊢
      rw [List.foldlM_append, ran]
      simpa using stepped

-- The second timer of the time 5 is put behind the head, the third one in front of the second.
example : ((Past.run [.insert ⟨5, 0⟩ (some 1), .insert ⟨5, 0⟩ (some 2),
    .insert ⟨5, 0⟩ (some 3), .insert ⟨7, 0⟩ (some 1), .insert ⟨4, 9⟩ (some 3),
    .remove (some 3)]).bind fun s => s.queue.expires ⟨6, 0⟩ 4).map Prod.snd =
      some [some (1 : Nat), some 3, some 2, none] := by
  decide

end TimerQueue

end Tahi.Cm
