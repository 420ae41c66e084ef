import Mathlib.Algebra.Order.Ring.Nat
import Tahi.Tg.SyncRuns

/-! # Threads run their statements in order

What a thread performs, in any run, is a beginning of its program: the steps of its statements, one
statement after the other. For this the thread has to be the only one of its action, whose
statements it would share otherwise.
-/

namespace Tahi.Tg

variable {A T E : Type}

/-- The number of the step that finds a statement done. -/
def Kind.last : Kind E → ℕ
  | traffic ops => ops
  | _ => 1

/-- The steps of a statement that one call of `doStep` performs. -/
def Kind.performs (c : Choice) (step_ : ℕ) : Kind E → List ℕ
  | traffic ops =>
      List.range' step_ ((operations c.op step_ (ops - step_)).1 + 1 - step_)
  | _ => [step_]

/-- The first steps of the statement at a place. -/
def steps (p n : ℕ) : List (ℕ × ℕ) := (List.range n).map (p, ·)

/-- A thread performs a step of a statement. -/
structure Performed (T : Type) where
  thread : T
  index : ℕ
  step_ : ℕ
deriving DecidableEq, Repr

namespace Scenario

variable (sc : Scenario A T E)

/-- All steps of the first statements of an action, one statement after the other. -/
def before (a : A) : ℕ → List (ℕ × ℕ)
  | 0 => []
  | p + 1 => before a p ++ (sc.stmtAt a p).elim [] fun k => steps p (k.last + 1)

def program (a : A) : List (ℕ × ℕ) := sc.before a (sc.stmtList a).length

/-- What the next turn of a loop performs. -/
def performs (c : Choice) (s : State A T E) : List (Performed T) :=
  match s.work with
  | .next t :: _ =>
      match s.stmtPos_ t with
      | none => []
      | some p =>
          (sc.stmtAt (sc.action t) p).elim [] fun k =>
            (k.performs c (s.stmts (sc.action t) p).step_).map fun n => ⟨t, p, n⟩
  | _ => []

/-- The thread was started and has its position at -1. -/
structure Aborted (s : State A T E) (t : T) : Prop where
  started : .start t ∉ s.work
  pos : s.stmtPos_ t = none

variable [DecidableEq A] [DecidableEq T] [DecidableEq E]

/-- A run, and all that is performed in it. -/
inductive Run (s : State A T E) : List (Performed T) → State A T E → Prop where
  | refl : Run s [] s
  | internal {log s' s''} (c : Choice) (run : Run s log s') (does : sc.internal c s' = some s'') :
      Run s (log ++ sc.performs c s') s''
  | external {log s' s''} (call : Call A E) (run : Run s log s') (idle : s'.work = [])
      (does : sc.external call s' = some s'') : Run s log s''

/-- What a thread performs of it. -/
def performedBy (t : T) (log : List (Performed T)) : List (ℕ × ℕ) :=
  (log.filter fun d => d.thread = t).map fun d => (d.index, d.step_)

/-- The callbacks that are outstanding for a thread: of requests, of delays, and of some events. -/
def outstanding (s : State A T E) (t : T) (events : List E) : ℕ :=
  (s.requests.filter fun cb => cb.action = sc.action t).length +
    (s.delays.filter fun d => d.1 = sc.action t).length +
    (events.map fun e => ((s.pending e).filter fun cb => cb.action = sc.action t).length).sum

structure InOrder (t : T) (log : List (Performed T)) (s : State A T E) : Prop where
  /-- There is one outstanding callback at most, among any events. -/
  one : ∀ events : List E, events.Nodup → sc.outstanding s t events ≤ 1
  /-- In program order, and nothing twice. -/
  ordered : performedBy t log <+: sc.program (sc.action t)
  /-- A thread that has aborted is not called any more, whatever comes. -/
  aborted : Aborted s t → .next t ∉ s.work ∧ (∀ events, sc.outstanding s t events = 0) ∧
    ∀ log' s', sc.Run s log' s' → performedBy t log' = []

end Scenario

/-! ## Operations -/

theorem operations_done {op : ℕ → Outcome} {n left : ℕ} (done : (operations op n left).2 = .done) :
    (operations op n left).1 = n + left := by
  induction left generalizing n with
  | zero => rfl
  | succ left ih =>
    rw [operations] at done ⊢
    cases outcome : op n with
    | fails =>
      rw [outcome] at done
      cases done
    | waits =>
      rw [outcome] at done
      cases done
    | passes =>
      rw [outcome] at done
      simp only [ih done]
      omega

theorem le_operations (op : ℕ → Outcome) (n left : ℕ) : n ≤ (operations op n left).1 := by
  induction left generalizing n with
  | zero => exact Nat.le_refl n
  | succ left ih =>
    rw [operations]
    cases op n with
    | fails | waits => exact Nat.le_refl n
    | passes => exact Nat.le_of_succ_le (ih (n + 1))

theorem operations_lt {op : ℕ → Outcome} {n left : ℕ} (ne : (operations op n left).2 ≠ .done) :
    (operations op n left).1 < n + left := by
  induction left generalizing n with
  | zero => exact absurd rfl ne
  | succ left ih =>
    rw [operations] at ne ⊢
    cases outcome : op n with
    | fails | waits =>
      change n < n + (left + 1)
      omega
    | passes =>
      rw [outcome] at ne
      have lt := ih ne
      change (operations op (n + 1) left).1 < n + (left + 1)
      omega

/-! ## Steps -/

theorem steps_append {p n m : ℕ} (le : n ≤ m + 1) :
    steps p n ++ (List.range' n (m + 1 - n)).map (p, ·) = steps p (m + 1) := by
  have parts : List.range n ++ List.range' n (m + 1 - n) = List.range (m + 1) := by
    have split := @List.range'_append_1 0 n (m + 1 - n)
    rw [Nat.zero_add] at split
    rw [List.range_eq_range', List.range_eq_range', split]
    congr 1
    omega
  rw [steps, steps, ← List.map_append, parts]

theorem steps_mono {p n m : ℕ} (le : n ≤ m) : steps p n <+: steps p m := by
  obtain ⟨k, rfl⟩ := Nat.exists_eq_add_of_le le
  rw [steps, steps, List.range_add, List.map_append]
  exact List.prefix_append _ _

namespace Scenario

variable {sc : Scenario A T E} {a : A} {t : T}

theorem before_succ {p : ℕ} {k : Kind E} (there : sc.stmtAt a p = some k) :
    sc.before a (p + 1) = sc.before a p ++ steps p (k.last + 1) := by
  rw [before, there]
  rfl

theorem before_mono {p q : ℕ} (le : p ≤ q) : sc.before a p <+: sc.before a q := by
  induction le with
  | refl => exact List.prefix_refl _
  | step _ ih => exact ih.trans (List.prefix_append _ _)

/-- What comes up to a step of a statement is a beginning of the program. -/
theorem up_to_step {p n : ℕ} {k : Kind E} (there : sc.stmtAt a p = some k)
    (le : n ≤ k.last + 1) : sc.before a p ++ steps p n <+: sc.program a := by
  obtain ⟨inside, -⟩ := List.getElem?_eq_some_iff.mp there
  have upTo : sc.before a p ++ steps p n <+: sc.before a (p + 1) := by
    rw [before_succ there]
    exact (List.prefix_append_right_inj _).mpr (steps_mono le)
  exact upTo.trans (before_mono inside)

/-! ## What has been performed -/

variable {s s' : State A T E} {log : List (ℕ × ℕ)}

section

variable [DecidableEq T]

variable (sc a t) in
/-- What a thread has performed, by where it is: nothing, all up to the step that is next, or all up
    to the step whose callback is outstanding. -/
structure Logs (log : List (ℕ × ℕ)) (s : State A T E) : Prop where
  start : .start t ∈ s.work → log = []
  next : .next t ∈ s.work → ∀ p, s.stmtPos_ t = some p →
    log = sc.before a p ++ steps p (s.stmts a p).step_ ∧
      ∀ k, sc.stmtAt a p = some k → (s.stmts a p).step_ ≤ k.last
  waits : (s.work.filter fun w => w.thread? = some t) = [] → ∀ p k, s.stmtPos_ t = some p →
    sc.stmtAt a p = some k →
    log = sc.before a p ++ steps p ((s.stmts a p).step_ + 1) ∧ (s.stmts a p).step_ < k.last
  ordered : log <+: sc.program a

theorem mem_work_iff {w : Work T E} (own : w.thread? = some t) :
    w ∈ s.work ↔ w ∈ s.work.filter fun w => w.thread? = some t := by
  simp [own]

/-- A step that does not concern the thread. -/
theorem Logs.congr (logs : Logs sc a t log s)
    (work : (s'.work.filter fun w => w.thread? = some t) =
      s.work.filter fun w => w.thread? = some t)
    (pos : s'.stmtPos_ t = s.stmtPos_ t)
    (stmts : ∀ p, (s'.stmts a p).step_ = (s.stmts a p).step_) : Logs sc a t log s' where
  start mem := by
    rw [mem_work_iff (t := t) rfl, work, ← mem_work_iff rfl] at mem
    exact logs.start mem
  next mem := by
    rw [mem_work_iff (t := t) rfl, work, ← mem_work_iff rfl] at mem
    simp only [pos, stmts]
    exact logs.next mem
  waits idle := by
    rw [work] at idle
    simp only [pos, stmts]
    exact logs.waits idle
  ordered := logs.ordered

/-- A thread that goes on behind a step, or at its first statement. -/
theorem Logs.goes_on {p : ℕ} (ordered : log <+: sc.program a)
    (work : (s'.work.filter fun w => w.thread? = some t) = [.next t])
    (pos : s'.stmtPos_ t = some p) (here : log = sc.before a p ++ steps p (s'.stmts a p).step_)
    (le : ∀ k, sc.stmtAt a p = some k → (s'.stmts a p).step_ ≤ k.last) :
    Logs sc a t log s' where
  start mem := by
    rw [mem_work_iff (t := t) rfl, work] at mem
    cases List.mem_singleton.mp mem
  next _ q pos' := by
    cases pos.symm.trans pos'
    exact ⟨here, le⟩
  waits idle := by
    rw [work] at idle
    cases idle
  ordered := ordered

/-- A thread that has to wait behind a step. -/
theorem Logs.stays {p : ℕ} {k : Kind E} (there : sc.stmtAt a p = some k)
    (work : (s'.work.filter fun w => w.thread? = some t) = []) (pos : s'.stmtPos_ t = some p)
    (here : log = sc.before a p ++ steps p ((s'.stmts a p).step_ + 1))
    (lt : (s'.stmts a p).step_ < k.last) : Logs sc a t log s' where
  start mem := by
    rw [mem_work_iff (t := t) rfl, work] at mem
    cases mem
  next mem := by
    rw [mem_work_iff (t := t) rfl, work] at mem
    cases mem
  waits _ q k' pos' there' := by
    cases pos.symm.trans pos'
    cases there.symm.trans there'
    exact ⟨here, lt⟩
  ordered := by
    rw [here]
    exact up_to_step there (by omega)

/-- A thread that is over. -/
theorem Logs.ended (ordered : log <+: sc.program a)
    (work : (s'.work.filter fun w => w.thread? = some t) = [])
    (pos : ∀ p k, s'.stmtPos_ t = some p → sc.stmtAt a p ≠ some k) : Logs sc a t log s' where
  start mem := by
    rw [mem_work_iff (t := t) rfl, work] at mem
    cases mem
  next mem := by
    rw [mem_work_iff (t := t) rfl, work] at mem
    cases mem
  waits _ p k pos' there := absurd there (pos p k pos')
  ordered := ordered

variable (sc a t) in
/-- The thread waits at a statement. -/
structure Awaits (s : State A T E) (p : ℕ) : Prop where
  work : (s.work.filter fun w => w.thread? = some t) = []
  thread : s.thread_ a = some t
  pos : s.stmtPos_ t = some p
  stmt : ∃ k, sc.stmtAt a p = some k

variable (sc t) in
/-- The thread goes on with a statement, behind what it has performed. -/
structure Going (log : List (ℕ × ℕ)) (s : State A T E) (work : List (Work T E)) (p : ℕ)
    (k : Kind E) : Prop where
  goes : sc.Goes s t work p k
  rest : (work.filter fun w => w.thread? = some t) = []
  thread : s.thread_ (sc.action t) = some t
  idle : (s.stmts (sc.action t) p).Idle
  later : (s.stmts (sc.action t) (p + 1)).step_ = 0
  here : log = sc.before (sc.action t) p ++ steps p (s.stmts (sc.action t) p).step_
  le : (s.stmts (sc.action t) p).step_ ≤ k.last

variable {work : List (Work T E)} {p : ℕ} {k : Kind E}

theorem performedBy_performs (c : Choice) (goes : sc.Goes s t work p k) :
    performedBy t (sc.performs c s) =
      (k.performs c (s.stmts (sc.action t) p).step_).map (p, ·) := by
  have own : (sc.performs c s) =
      (k.performs c (s.stmts (sc.action t) p).step_).map fun n => ⟨t, p, n⟩ := by
    simp only [performs, goes.work, goes.pos, goes.stmt, Option.elim]
  rw [own, performedBy, List.filter_eq_self.mpr, List.map_map]
  · rfl
  · intro d mem
    obtain ⟨n, -, rfl⟩ := List.mem_map.mp mem
    exact decide_eq_true rfl

/-- Behind the steps from where the thread is up to another one. -/
theorem Going.performed (going : Going sc t log s work p k) {c : Choice} {m : ℕ}
    (performs : k.performs c (s.stmts (sc.action t) p).step_ =
      List.range' (s.stmts (sc.action t) p).step_ (m + 1 - (s.stmts (sc.action t) p).step_))
    (le : (s.stmts (sc.action t) p).step_ ≤ m) :
    log ++ performedBy t (sc.performs c s) =
      sc.before (sc.action t) p ++ steps p (m + 1) := by
  rw [performedBy_performs c going.goes, performs, going.here, List.append_assoc,
    steps_append (Nat.le_succ_of_le le)]

/-- The statement is done. -/
theorem Going.forth (going : Going sc t log s work p k) {c : Choice}
    (performs : k.performs c (s.stmts (sc.action t) p).step_ =
      List.range' (s.stmts (sc.action t) p).step_ (k.last + 1 - (s.stmts (sc.action t) p).step_))
    (work' : s'.work = .next t :: work) (pos : s'.stmtPos_ t = some (p + 1))
    (later : (s'.stmts (sc.action t) (p + 1)).step_ = (s.stmts (sc.action t) (p + 1)).step_) :
    Logs sc (sc.action t) t (log ++ performedBy t (sc.performs c s)) s' := by
  rw [going.performed performs going.le]
  apply Logs.goes_on (p := p + 1) (up_to_step going.goes.stmt (Nat.le_refl _))
  · rw [work', filter_own _ rfl, going.rest]
  · exact pos
  · rw [later, going.later, before_succ going.goes.stmt]
    exact (List.append_nil _).symm
  · rw [later, going.later]
    exact fun k _ => Nat.zero_le _

/-- The statement has to wait for a callback. -/
theorem Going.waits (going : Going sc t log s work p k) {c : Choice} {m : ℕ}
    (performs : k.performs c (s.stmts (sc.action t) p).step_ =
      List.range' (s.stmts (sc.action t) p).step_ (m + 1 - (s.stmts (sc.action t) p).step_))
    (le : (s.stmts (sc.action t) p).step_ ≤ m) (lt : m < k.last)
    (work' : s'.work = work) (pos : s'.stmtPos_ t = s.stmtPos_ t)
    (step : (s'.stmts (sc.action t) p).step_ = m) :
    Logs sc (sc.action t) t (log ++ performedBy t (sc.performs c s)) s' := by
  rw [going.performed performs le]
  apply Logs.stays going.goes.stmt
  · rw [work', going.rest]
  · exact pos.trans going.goes.pos
  · rw [step]
  · rw [step]
    exact lt

/-- The thread aborts. -/
theorem Going.aborts (going : Going sc t log s work p k) {c : Choice} {m : ℕ}
    (performs : k.performs c (s.stmts (sc.action t) p).step_ =
      List.range' (s.stmts (sc.action t) p).step_ (m + 1 - (s.stmts (sc.action t) p).step_))
    (le : (s.stmts (sc.action t) p).step_ ≤ m) (most : m ≤ k.last)
    (work' : s'.work = work) (pos : s'.stmtPos_ t = none) :
    Logs sc (sc.action t) t (log ++ performedBy t (sc.performs c s)) s' := by
  rw [going.performed performs le]
  apply Logs.ended (up_to_step going.goes.stmt (Nat.succ_le_succ most))
  · rw [work', going.rest]
  · intro q k' pos'
    rw [pos] at pos'
    cases pos'

section

variable [DecidableEq A]

/-- The callback of a thread that waits. -/
theorem Logs.complete {cb : TgStmtCb A} (logs : Logs sc cb.action t log s)
    (awaits : Awaits sc cb.action t s cb.index) (does : s.onComplete cb = some s') :
    Logs sc cb.action t log s' := by
  obtain ⟨k, there⟩ := awaits.stmt
  obtain ⟨here, lt⟩ := logs.waits awaits.work cb.index k awaits.pos there
  cases State.onComplete_cases does with
  | inl goes =>
    obtain ⟨t', thread, rfl⟩ := goes
    obtain rfl := Option.some.inj (awaits.thread.symm.trans thread)
    apply Logs.goes_on logs.ordered (p := cb.index)
    · simp only [State.push, State.note, State.setStmt]
      rw [filter_own _ rfl, awaits.work]
    · exact awaits.pos
    · simpa [State.push, State.note] using here
    · intro k' there'
      cases there.symm.trans there'
      simpa [State.push, State.note] using Nat.succ_le_of_lt lt
  | inr stays =>
    subst stays
    refine logs.congr rfl rfl fun p => ?_
    by_cases same : p = cb.index
    · rw [same, State.setStmt_same, unlock_step]
    · rw [State.setStmt_of_ne fun h => same h.2]

/-- The callback of a thread of another action. -/
theorem Logs.completeOther {cb : TgStmtCb A} (logs : Logs sc a t log s) (alone : Alone sc a t)
    (named : Named sc s) (other : cb.action ≠ a) (does : s.onComplete cb = some s') :
    Logs sc a t log s' := by
  cases State.onComplete_cases does with
  | inl goes =>
    obtain ⟨t', thread, rfl⟩ := goes
    have ne : t' ≠ t := by
      intro same
      apply other
      rw [← named _ _ thread, same, alone.action]
    apply logs.congr
    · simp only [State.push, State.note, State.setStmt]
      exact filter_other _ (by simpa [Work.thread?] using ne)
    · rfl
    · intro p
      simp only [State.push, State.note, setStmt_stmts_of_ne (Ne.symm other)]
  | inr stays =>
    subst stays
    refine logs.congr rfl rfl fun p => ?_
    rw [setStmt_stmts_of_ne (Ne.symm other)]

/-- A thread of another action that goes on. -/
theorem Logs.goesOther {t' : T} {work : List (Work T E)} {p : ℕ} {k : Kind E}
    {stmt : TgStatement} (alone : Alone sc a t) (logs : Logs sc a t log s) (ne : t' ≠ t)
    (goes : sc.Goes s t' work p k) (work' : s'.work = work ∨ s'.work = .next t' :: work)
    (pos : s'.stmtPos_ t = s.stmtPos_ t)
    (stmts : s'.stmts = (s.setStmt (sc.action t') p stmt).stmts) : Logs sc a t log s' := by
  have other : (Work.next t' : Work T E).thread? ≠ some t := by simpa [Work.thread?] using ne
  refine logs.congr ?_ pos fun q => ?_
  · rw [goes.work, filter_other _ other]
    cases work' with
    | inl same => rw [same]
    | inr same => rw [same, filter_other _ other]
  · rw [stmts, setStmt_stmts_of_ne (alone.elsewhere ne)]

end

variable [DecidableEq A] [DecidableEq E]

theorem Awaits.of_request {cb : TgStmtCb A} (orderly : Orderly sc cb.action t s)
    (mem : cb ∈ s.requests) : Awaits sc cb.action t s cb.index := by
  obtain ⟨phase, shows_⟩ := orderly.shows_
  obtain ⟨rfl, -⟩ := shows_.of_request mem
  obtain ⟨at_, ⟨ops, there⟩, -⟩ := shows_.placed
  exact ⟨shows_.work, at_.thread, at_.pos, _, there⟩

theorem Awaits.of_delay {p : ℕ} (orderly : Orderly sc a t s) (mem : (a, p) ∈ s.delays) :
    Awaits sc a t s p := by
  obtain ⟨phase, shows_⟩ := orderly.shows_
  obtain rfl := shows_.delayed_of_mem (d := (a, p)) (List.mem_filter.mpr ⟨mem, by simp⟩)
  obtain ⟨at_, there, -⟩ := shows_.placed
  exact ⟨shows_.work, at_.thread, at_.pos, _, there⟩

theorem Awaits.of_pending {cb : TgStmtCb A} {e : E} (orderly : Orderly sc cb.action t s)
    (mem : cb ∈ s.pending e) : Awaits sc cb.action t s cb.index := by
  obtain ⟨phase, shows_⟩ := orderly.shows_
  obtain ⟨rfl, -⟩ := shows_.arrived_of_mem (e := e) (List.mem_filter.mpr ⟨mem, by simp⟩)
  obtain ⟨at_, ⟨k, there, -⟩, -⟩ := shows_.placed
  exact ⟨shows_.work, at_.thread, at_.pos, _, there⟩

theorem Logs.start_thread {work : List (Work T E)} {t' : T} (alone : Alone sc a t)
    (orderly : Orderly sc a t s) (logs : Logs sc a t log s) (top : s.work = .start t' :: work) :
    Logs sc a t log (sc.start { s with work } t') := by
  by_cases same : t' = t
  · subst same
    obtain rfl := alone.action
    obtain ⟨phase, shows_⟩ := orderly.shows_
    have first : (s.view (sc.action t') t').work =
        .start t' :: work.filter fun w => w.thread? = some t' := by
      rw [State.view, top]
      exact filter_own work rfl
    obtain rfl := shows_.unstarted_of_mem (by rw [first]; exact List.mem_cons_self)
    have rest := (List.cons.inj (first.symm.trans shows_.work)).2
    have fresh : ((sc.start { s with work } t').stmts (sc.action t') 0).step_ = 0 := by
      simp only [Scenario.start, Function.update_self]
      rfl
    have none_ := logs.start (by rw [top]; exact List.mem_cons_self)
    apply Logs.goes_on logs.ordered (p := 0)
    · simp only [Scenario.start]
      rw [filter_own _ rfl, rest]
    · simp only [Scenario.start, Function.update_self]
    · rw [fresh, none_]
      rfl
    · rw [fresh]
      exact fun k _ => Nat.zero_le _
  · have other (w : T → Work T E) (own : ∀ t, (w t).thread? = some t) : (w t').thread? ≠ some t := by
      rw [own]
      simpa using same
    refine logs.congr ?_ ?_ fun p => ?_
    · rw [top, filter_other _ (other .start fun _ => rfl), Scenario.start,
        filter_other _ (other .next fun _ => rfl)]
    · simp only [Scenario.start, Function.update_of_ne (Ne.symm same)]
    · simp only [Scenario.start, Function.update_of_ne (alone.elsewhere same)]

/-- A request that is answered with an error ends the thread. -/
theorem Logs.refused {cb : TgStmtCb A} (alone : Alone sc a t) (named : Named sc s)
    (orderly : Orderly sc a t s) (logs : Logs sc a t log s) (mem : cb ∈ s.requests)
    (eq : sc.onError { s with requests := s.requests.erase cb } cb = some s') :
    Logs sc a t log s' := by
  obtain ⟨t', thread, result⟩ := Option.bind_eq_some_iff.mp eq
  by_cases same : cb.action = a
  · subst same
    have awaits := Awaits.of_request orderly mem
    obtain rfl := Option.some.inj (awaits.thread.symm.trans thread)
    have pos : s.stmtPos_ t = some cb.index := awaits.pos
    simp only [State.setStmt, pos] at result
    split at result
    · cases result
      refine Logs.ended logs.ordered awaits.work fun p k pos' => ?_
      simp only [State.setPos, Function.update_self] at pos'
      cases pos'
    · cases result
  · have ne : t ≠ t' := by
      intro same'
      exact same ((named _ _ thread).symm.trans (same' ▸ alone.action))
    have stmts (p : ℕ) (stmt : TgStatement) :
        ((s.setStmt cb.action cb.index stmt).stmts a p).step_ = (s.stmts a p).step_ := by
      rw [setStmt_stmts_of_ne (Ne.symm same)]
    split at result
    · cases result
      exact logs.congr rfl rfl fun p => stmts p _
    · split at result
      · cases result
        exact logs.congr rfl (Function.update_of_ne ne _ _) fun p => stmts p _
      · cases result

/-- The end of a delay. -/
theorem Logs.expired {b : A} {p : ℕ} (alone : Alone sc a t) (named : Named sc s)
    (orderly : Orderly sc a t s) (logs : Logs sc a t log s) (mem : (b, p) ∈ s.delays)
    (eq : { s with delays := s.delays.erase (b, p) }.onExpired b p = some s') :
    Logs sc a t log s' := by
  obtain ⟨t', thread, rfl⟩ := State.onExpired_eq eq
  by_cases same : b = a
  · subst same
    have awaits := Awaits.of_delay orderly mem
    obtain rfl := Option.some.inj (awaits.thread.symm.trans thread)
    obtain ⟨k, there⟩ := awaits.stmt
    obtain ⟨here, lt⟩ := logs.waits awaits.work p k awaits.pos there
    apply Logs.goes_on logs.ordered (p := p)
    · simp only [State.push, State.setStmt]
      rw [filter_own _ rfl, awaits.work]
    · exact awaits.pos
    · simpa [State.push] using here
    · intro k' there'
      cases there.symm.trans there'
      simpa [State.push] using Nat.succ_le_of_lt lt
  · have ne : t' ≠ t := by
      intro same'
      exact same ((named _ _ thread).symm.trans (same' ▸ alone.action))
    refine logs.congr ?_ rfl fun q => ?_
    · simp only [State.push, State.setStmt]
      exact filter_other _ (by simpa [Work.thread?] using ne)
    · simp only [State.push, setStmt_stmts_of_ne (Ne.symm same)]

/-- What all do but the thread itself. -/
theorem Logs.move (alone : Alone sc a t) (named : Named sc s) (sound : sc.Sound s)
    (orderly : Orderly sc a t s) (logs : Logs sc a t log s) (move : sc.Move s s')
    (other : ∀ work, s.work ≠ .next t :: work) : Logs sc a t log s' := by
  have ne {t' : T} {work : List (Work T E)} (top : s.work = .next t' :: work) : t' ≠ t := by
    intro same
    exact other work (same ▸ top)
  cases move with
  | start top eq => exact eq ▸ logs.start_thread alone orderly top
  | ended top pos behind eq =>
    subst eq
    refine logs.congr ?_ rfl fun p => rfl
    rw [top, filter_other _ (by simpa [Work.thread?] using ne top)]
  | forth goes continues passed eq =>
    subst eq
    have ne := ne goes.work
    exact logs.goesOther alone ne goes (.inr rfl) (Function.update_of_ne (Ne.symm ne) _ _) rfl
  | aborts goes continues eq =>
    subst eq
    have ne := ne goes.work
    exact logs.goesOther alone ne goes (.inl rfl) (Function.update_of_ne (Ne.symm ne) _ _) rfl
  | waits goes continues eq =>
    subst eq
    exact logs.goesOther alone (ne goes.work) goes (.inl rfl) rfl rfl
  | delayed goes fresh eq =>
    subst eq
    exact logs.goesOther alone (ne goes.work) goes (.inl rfl) rfl
      (congrArg State.stmts (State.setStmt_of_eq rfl)).symm
  | arrives goes about fresh event member eq =>
    subst eq
    exact logs.goesOther alone (ne goes.work) goes (.inl rfl) rfl rfl
  | @prints t' work p goes fresh eq =>
    have away := alone.elsewhere (ne goes.work)
    have gone : Logs sc a t log { s with work } := logs.goesOther alone (ne goes.work) goes
      (.inl rfl) rfl (congrArg State.stmts (State.setStmt_of_eq rfl)).symm
    exact gone.completeOther alone (fun b t' => named b t') (Ne.symm away) eq
  | @callback e i i9 work ev cb top event inside there eq =>
    have rest : (Work.expired e (i + 1) i9 :: work).filter (fun w => w.thread? = some t) =
        s.work.filter fun w => w.thread? = some t := by
      rw [top, filter_other _ (by simp [Work.thread?]), filter_other _ (by simp [Work.thread?])]
    have gone : Logs sc a t log { s with work := .expired e (i + 1) i9 :: work } :=
      logs.congr rest rfl fun p => rfl
    by_cases same : cb.action = a
    · subst same
      have mem : cb ∈ s.pending e := by
        obtain ⟨walks, -⟩ := sound.walk top
        obtain ⟨lt, here⟩ := List.getElem?_eq_some_iff.mp there
        rw [pending_at event walks, List.drop_eq_getElem_cons lt, here]
        exact List.mem_cons_self
      have awaits := Awaits.of_pending orderly mem
      exact gone.complete ⟨rest.trans awaits.work, awaits.thread, awaits.pos, awaits.stmt⟩ eq
    · exact gone.completeOther alone (fun b t' => named b t') same eq
  | removed top event outside eq =>
    subst eq
    refine logs.congr ?_ rfl fun p => rfl
    rw [top, filter_other _ (by simp [Work.thread?])]
  | @answered cb idle mem eq =>
    have gone : Logs sc a t log { s with requests := s.requests.erase cb } :=
      logs.congr rfl rfl fun p => rfl
    by_cases same : cb.action = a
    · subst same
      have awaits := Awaits.of_request orderly mem
      exact gone.complete ⟨awaits.work, awaits.thread, awaits.pos, awaits.stmt⟩ eq
    · exact gone.completeOther alone (fun b t' => named b t') same eq
  | refused idle mem eq => exact logs.refused alone named orderly mem eq
  | delayOver idle mem eq => exact logs.expired alone named orderly mem eq
  | timer idle mem event eq =>
    subst eq
    refine logs.congr ?_ rfl fun p => rfl
    rw [idle, filter_other _ (by simp [Work.thread?])]

theorem Going.of_goes (orderly : Orderly sc (sc.action t) t s)
    (logs : Logs sc (sc.action t) t log s) (goes : sc.Goes s t work p k) :
    Going sc t log s work p k := by
  obtain ⟨phase, shows_⟩ := orderly.shows_
  obtain ⟨rfl, rest, at_, idle⟩ := shows_.of_goes goes
  obtain ⟨here, le⟩ := logs.next (by rw [goes.work]; exact List.mem_cons_self) p goes.pos
  have new : s.stmts (sc.action t) (p + 1) = .new := at_.later (p + 1) (Nat.lt_succ_self p)
  have later : (s.stmts (sc.action t) (p + 1)).step_ = 0 := by
    rw [new]
    rfl
  exact ⟨goes, rest, at_.thread, idle, later, here, le k goes.stmt⟩

theorem Going.traffic {ops : ℕ} {c : Choice} (going : Going sc t log s work p (.traffic ops))
    (does : sc.internal c s = some s') :
    Logs sc (sc.action t) t (log ++ performedBy t (sc.performs c s)) s' := by
  have there : (sc.stmtList (sc.action t))[p]? = some (.traffic ops) := going.goes.stmt
  have most : (s.stmts (sc.action t) p).step_ ≤ ops := going.le
  have ne : p + 1 ≠ p := Nat.succ_ne_self p
  simp only [Scenario.internal, going.goes.work, Scenario.next, going.goes.pos, there, doStep,
    State.getReqId] at does
  have le := le_operations c.op (s.stmts (sc.action t) p).step_
    (ops - (s.stmts (sc.action t) p).step_)
  have total : (s.stmts (sc.action t) p).step_ + (ops - (s.stmts (sc.action t) p).step_) = ops :=
    Nat.add_sub_cancel' most
  cases result : (operations c.op (s.stmts (sc.action t) p).step_
      (ops - (s.stmts (sc.action t) p).step_)).2 with
  | done =>
    rw [result] at does
    cases does
    have all := operations_done result
    rw [total] at all
    apply going.forth
    · change List.range' _ ((operations c.op _ _).1 + 1 - _) = _
      rw [all]
      rfl
    · rfl
    · exact Function.update_self _ _ _
    · exact congrArg TgStatement.step_ (State.setStmt_of_ne fun h => ne h.2)
  | waiting =>
    rw [result] at does
    cases does
    have lt := operations_lt (by rw [result]; simp)
    rw [total] at lt
    exact going.waits rfl le lt rfl rfl (congrArg TgStatement.step_ State.setStmt_same)
  | aborts =>
    rw [result] at does
    cases does
    have lt := operations_lt (by rw [result]; simp)
    rw [total] at lt
    exact going.aborts rfl le (Nat.le_of_lt lt) rfl (Function.update_self _ _ _)

omit [DecidableEq T] [DecidableEq A] [DecidableEq E] in
theorem Goes.unique {t' : T} {work' : List (Work T E)} {p' : ℕ} {k' : Kind E}
    (goes : sc.Goes s t work p k) (goes' : sc.Goes s t' work' p' k') :
    t = t' ∧ work = work' ∧ p = p' ∧ k = k' := by
  obtain ⟨first, rest⟩ := List.cons.inj (goes.work.symm.trans goes'.work)
  cases first
  cases goes.pos.symm.trans goes'.pos
  cases goes.stmt.symm.trans goes'.stmt
  exact ⟨rfl, rest, rfl, rfl⟩

omit [DecidableEq T] [DecidableEq A] [DecidableEq E] in
/-- All other statements perform one step at a time. -/
theorem performs_single (single : ∀ ops, k ≠ .traffic ops) (c : Choice) (n : ℕ) :
    k.performs c n = List.range' n (n + 1 - n) := by
  have one : n + 1 - n = 1 := Nat.add_sub_cancel_left n 1
  rw [one]
  cases k with
  | traffic ops => exact absurd rfl (single ops)
  | sync | wait | delay | print => rfl

theorem Going.single {c : Choice} (going : Going sc t log s work p k)
    (single : ∀ ops, k ≠ .traffic ops) (move : sc.Move s s') :
    Logs sc (sc.action t) t (log ++ performedBy t (sc.performs c s)) s' := by
  have performs := performs_single single c (s.stmts (sc.action t) p).step_
  have last : k.last = 1 := by
    cases k with
    | traffic ops => exact absurd rfl (single ops)
    | sync | wait | delay | print => rfl
  have first (fresh : (s.stmts (sc.action t) p).step_ = 0) :
      (s.stmts (sc.action t) p).step_ < k.last := by omega
  have busy (idle : s.work = []) : False := by
    rw [going.goes.work] at idle
    cases idle
  have step_ {w : Work T E} {work'} (top : s.work = w :: work') : w = .next t :=
    (List.cons.inj (top.symm.trans going.goes.work)).1
  cases move with
  | start top eq => cases step_ top
  | ended top pos behind eq =>
    cases step_ top
    cases pos.symm.trans going.goes.pos
    cases behind.symm.trans going.goes.stmt
  | forth goes continues passed eq =>
    obtain ⟨rfl, rfl, rfl, rfl⟩ := going.goes.unique goes
    have same : _ = s.stmts _ _ := continues.resolve_right fun h => by
      obtain ⟨⟨ops, traffic⟩, -⟩ := h
      exact single ops traffic
    subst same
    have stepped := passed.resolve_left fun ⟨ops, traffic⟩ => single ops traffic
    have le := going.le
    have done : (s.stmts (sc.action t) p).step_ = k.last := by omega
    rw [State.setStmt_of_eq (s := { s with work := work, id_seed_ := _ }) rfl] at eq
    subst eq
    apply going.forth
    · rw [performs, done]
    · rfl
    · exact Function.update_self _ _ _
    · rfl
  | aborts goes continues eq =>
    obtain ⟨rfl, rfl, rfl, rfl⟩ := going.goes.unique goes
    subst eq
    exact going.aborts performs (Nat.le_refl _) going.le rfl (Function.update_self _ _ _)
  | waits goes continues eq =>
    obtain ⟨-, -, -, same⟩ := going.goes.unique goes
    exact absurd same (single _)
  | delayed goes fresh eq =>
    obtain ⟨rfl, rfl, rfl, rfl⟩ := going.goes.unique goes
    subst eq
    exact going.waits performs (Nat.le_refl _) (first fresh) rfl rfl rfl
  | arrives goes about fresh event member eq =>
    obtain ⟨rfl, rfl, rfl, rfl⟩ := going.goes.unique goes
    subst eq
    refine going.waits performs (Nat.le_refl _) (first fresh) rfl rfl ?_
    rw [State.setStmt_same]
    rfl
  | prints goes fresh eq =>
    obtain ⟨rfl, rfl, rfl, rfl⟩ := going.goes.unique goes
    rw [State.onComplete, going.idle.unlock 0, if_pos ⟨going.idle.numWaits, going.idle.errors⟩,
      going.thread] at eq
    cases eq
    rw [going.performed performs (Nat.le_refl _)]
    have le := first fresh
    apply Logs.goes_on (p := p) (up_to_step going.goes.stmt (by omega))
    · change ((Work.next t :: work).filter fun w => w.thread? = some t) = _
      rw [filter_own _ rfl, going.rest]
    · exact going.goes.pos
    · simp [State.push, State.note]
    · intro k there
      cases there.symm.trans going.goes.stmt
      simpa [State.push, State.note] using Nat.succ_le_of_lt le
  | callback top event inside there eq => cases step_ top
  | removed top event outside eq => cases step_ top
  | answered idle mem eq => exact (busy idle).elim
  | refused idle mem eq => exact (busy idle).elim
  | delayOver idle mem eq => exact (busy idle).elim
  | timer idle mem event eq => exact (busy idle).elim

/-! ## Runs -/

omit [DecidableEq A] [DecidableEq E] in
theorem performedBy_append (log log' : List (Performed T)) :
    performedBy t (log ++ log') = performedBy t log ++ performedBy t log' := by
  rw [performedBy, List.filter_append, List.map_append]
  rfl

omit [DecidableEq A] [DecidableEq E] in
/-- Only the thread that goes on performs something. -/
theorem performedBy_other {c : Choice} (other : ∀ work p, s.work = .next t :: work →
    s.stmtPos_ t ≠ some p) : performedBy t (sc.performs c s) = [] := by
  unfold performs
  split
  · rename_i t' work top
    split
    · rfl
    · rename_i p pos
      have ne : t' ≠ t := by
        intro same
        exact other work p (same ▸ top) (same ▸ pos)
      cases sc.stmtAt (sc.action t') p with
      | none => rfl
      | some k =>
        rw [performedBy, List.filter_eq_nil_iff.mpr]
        · rfl
        · intro d mem
          obtain ⟨n, -, rfl⟩ := List.mem_map.mp mem
          simpa using ne
  · rfl

theorem Logs.internal {c : Choice} (alone : Alone sc a t) (named : Named sc s)
    (sound : sc.Sound s) (orderly : Orderly sc a t s) (logs : Logs sc a t log s)
    (does : sc.internal c s = some s') :
    Logs sc a t (log ++ performedBy t (sc.performs c s)) s' := by
  obtain rfl := alone.action
  have move := (Step.internal c does).move
  by_cases own : ∃ work, s.work = .next t :: work
  · obtain ⟨work, top⟩ := own
    obtain ⟨phase, shows_⟩ := orderly.shows_
    have first : (s.view (sc.action t) t).work =
        .next t :: work.filter fun w => w.thread? = some t := by
      rw [State.view, top]
      exact filter_own work rfl
    obtain rfl := shows_.running_of_mem (by rw [first]; exact List.mem_cons_self)
    have rest := (List.cons.inj (first.symm.trans shows_.work)).2
    obtain ⟨p, at_, -⟩ := shows_.placed
    have pos : s.stmtPos_ t = some p := at_.pos
    cases there : sc.stmtAt (sc.action t) p with
    | none =>
      have nothing : sc.performs c s = [] := by
        simp only [performs, top, pos, there, Option.elim]
      have there' : (sc.stmtList (sc.action t))[p]? = none := there
      simp only [Scenario.internal, top, Scenario.next, pos, there'] at does
      cases does
      rw [nothing]
      refine Logs.ended ?_ rest fun q k pos' there' => ?_
      · rw [performedBy, List.filter_nil, List.map_nil, List.append_nil]
        exact logs.ordered
      · cases pos.symm.trans pos'
        cases there.symm.trans there'
    | some k =>
      have going := Going.of_goes orderly logs ⟨top, pos, there⟩
      by_cases traffic : ∃ ops, k = .traffic ops
      · obtain ⟨ops, rfl⟩ := traffic
        exact going.traffic does
      · exact going.single (fun ops same => traffic ⟨ops, same⟩) move
  · have other (work : List (Work T E)) : s.work ≠ .next t :: work := fun top => own ⟨work, top⟩
    rw [performedBy_other fun work p top => (other work top).elim, List.append_nil]
    exact logs.move alone named sound orderly move other

omit [DecidableEq A] [DecidableEq E] in
theorem logs_initial : Logs sc a t [] sc.initial where
  start _ := rfl
  next mem := by
    obtain ⟨t', -, same⟩ := List.mem_map.mp mem
    cases same
  waits _ p k pos := by cases pos
  ordered := List.nil_prefix

namespace Run

variable {log : List (Performed T)}

theorem reachable {r : State A T E} (from_ : sc.Reachable r) (run : sc.Run r log s) :
    sc.Reachable s := by
  induction run with
  | refl => exact from_
  | internal c run does ih => exact ih.tail (.internal c does)
  | external call run idle does ih => exact ih.tail (.external call idle does)

theorem logs (alone : Alone sc a t) (run : sc.Run sc.initial log s) :
    Logs sc a t (performedBy t log) s := by
  induction run with
  | refl => exact logs_initial
  | internal c run does ih =>
    have before := run.reachable .refl
    rw [performedBy_append]
    exact ih.internal alone before.started.named before.sound (before.orderly alone) does
  | external call run idle does ih =>
    have before := run.reachable .refl
    apply ih.move alone before.started.named before.sound (before.orderly alone)
      (Step.external call idle does).move
    intro work top
    rw [idle] at top
    cases top

end Run

/-! ## Threads that have aborted -/

omit [DecidableEq T] [DecidableEq E] in
theorem Aborted.onComplete {cb : TgStmtCb A} (aborted : Aborted s t)
    (does : s.onComplete cb = some s') : Aborted s' t := by
  cases State.onComplete_cases does with
  | inl goes =>
    obtain ⟨t', -, rfl⟩ := goes
    refine ⟨fun mem => aborted.started ?_, aborted.pos⟩
    exact (List.mem_cons.mp mem).resolve_left fun same => by cases same
  | inr stays =>
    subst stays
    exact ⟨aborted.started, aborted.pos⟩

theorem Aborted.move (aborted : Aborted s t) (move : sc.Move s s') : Aborted s' t := by
  have fewer {w : Work T E} {work} (top : s.work = w :: work) : .start t ∉ work := by
    intro mem
    apply aborted.started
    rw [top]
    exact List.mem_cons_of_mem w mem
  have away {t' : T} {p : ℕ} (pos : s.stmtPos_ t' = some p) : t ≠ t' := by
    intro same
    rw [← same, aborted.pos] at pos
    cases pos
  cases move with
  | @start t' work top eq =>
    subst eq
    have ne : t ≠ t' := by
      intro same
      apply aborted.started
      rw [top, same]
      exact List.mem_cons_self
    refine ⟨fun mem => fewer top ?_, ?_⟩
    · exact (List.mem_cons.mp mem).resolve_left fun same => by cases same
    · exact (Function.update_of_ne ne _ _).trans aborted.pos
  | ended top pos behind eq =>
    subst eq
    exact ⟨fewer top, aborted.pos⟩
  | forth goes continues passed eq =>
    subst eq
    refine ⟨fun mem => fewer goes.work ?_, ?_⟩
    · exact (List.mem_cons.mp mem).resolve_left fun same => by cases same
    · exact (Function.update_of_ne (away goes.pos) _ _).trans aborted.pos
  | aborts goes continues eq =>
    subst eq
    exact ⟨fewer goes.work, (Function.update_of_ne (away goes.pos) _ _).trans aborted.pos⟩
  | waits goes continues eq =>
    subst eq
    exact ⟨fewer goes.work, aborted.pos⟩
  | delayed goes fresh eq =>
    subst eq
    exact ⟨fewer goes.work, aborted.pos⟩
  | arrives goes about fresh event member eq =>
    subst eq
    exact ⟨fewer goes.work, aborted.pos⟩
  | prints goes fresh eq =>
    exact Aborted.onComplete (s := { s with work := _ }) ⟨fewer goes.work, aborted.pos⟩ eq
  | @callback e i i9 work ev cb top event inside there eq =>
    refine Aborted.onComplete (s := { s with work := .expired e (i + 1) i9 :: work })
      ⟨fun mem => fewer top ?_, aborted.pos⟩ eq
    exact (List.mem_cons.mp mem).resolve_left fun same => by cases same
  | removed top event outside eq =>
    subst eq
    exact ⟨fewer top, aborted.pos⟩
  | @answered cb idle mem eq =>
    exact Aborted.onComplete (s := { s with requests := s.requests.erase cb })
      ⟨aborted.started, aborted.pos⟩ eq
  | refused idle mem eq =>
    obtain ⟨t', thread, result⟩ := Option.bind_eq_some_iff.mp eq
    split at result
    · cases result
      exact ⟨aborted.started, aborted.pos⟩
    · rename_i p pos
      split at result
      · cases result
        exact ⟨aborted.started, (Function.update_of_ne (away pos) _ _).trans aborted.pos⟩
      · cases result
  | delayOver idle mem eq =>
    obtain ⟨t', -, rfl⟩ := State.onExpired_eq eq
    refine ⟨fun mem => aborted.started ?_, aborted.pos⟩
    exact (List.mem_cons.mp mem).resolve_left fun same => by cases same
  | timer idle mem event eq =>
    subst eq
    exact ⟨by simp, aborted.pos⟩

theorem Aborted.run {log : List (Performed T)} (aborted : Aborted s t) (run : sc.Run s log s') :
    Aborted s' t ∧ performedBy t log = [] := by
  induction run with
  | refl => exact ⟨aborted, rfl⟩
  | @internal log s₁ s₂ c run does ih =>
    obtain ⟨aborted, none_⟩ := ih
    have nothing : performedBy t (sc.performs c s₁) = [] := by
      apply performedBy_other
      intro work p _ pos
      rw [aborted.pos] at pos
      cases pos
    rw [performedBy_append, none_, nothing]
    exact ⟨aborted.move (Step.internal c does).move, rfl⟩
  | external call run idle does ih =>
    exact ⟨ih.1.move (Step.external call idle does).move, ih.2⟩

/-! ## Callbacks -/

theorem outstanding_eq {phase : Phase E} (shows_ : Shows sc (sc.action t) t
    (s.view (sc.action t) t) phase) (events : List E) :
    sc.outstanding s t events = (phase.requests (sc.action t)).length +
      (phase.delays (sc.action t)).length +
      (events.map fun e => (phase.callbacks (sc.action t) e).length).sum := by
  have requests : (s.requests.filter fun cb => cb.action = sc.action t) = _ := shows_.requests
  have delays : (s.delays.filter fun d => d.1 = sc.action t) = _ := shows_.delays
  have callbacks (e : E) : ((s.pending e).filter fun cb => cb.action = sc.action t) = _ :=
    shows_.callbacks e
  simp only [Scenario.outstanding, requests, delays, callbacks]

omit [DecidableEq A] [DecidableEq T] in
theorem sum_callbacks_eq {e : E} {p id : ℕ} (events : List E) :
    (events.map fun e' => ((Phase.arrived e p id).callbacks a e').length).sum =
      events.count e := by
  induction events with
  | nil => rfl
  | cons e' events ih =>
    rw [List.map_cons, List.sum_cons, ih, List.count_cons, Nat.add_comm]
    congr 1
    by_cases same : e' = e
    · simp [Phase.callbacks, same]
    · simp [Phase.callbacks, same]

theorem outstanding_le_one (orderly : Orderly sc (sc.action t) t s) {events : List E}
    (nodup : events.Nodup) : sc.outstanding s t events ≤ 1 := by
  obtain ⟨phase, shows_⟩ := orderly.shows_
  rw [outstanding_eq shows_]
  cases phase with
  | arrived e p id =>
    rw [sum_callbacks_eq]
    have once := List.nodup_iff_count_le_one.mp nodup e
    simpa [Phase.requests, Phase.delays] using once
  | unstarted | running | requested p id | delayed p | ended =>
    simp [Phase.requests, Phase.delays, Phase.callbacks]

theorem quiet_of_aborted (orderly : Orderly sc (sc.action t) t s) (aborted : Aborted s t) :
    .next t ∉ s.work ∧ ∀ events, sc.outstanding s t events = 0 := by
  obtain ⟨phase, shows_⟩ := orderly.shows_
  have pos : (s.view (sc.action t) t).pos = none := aborted.pos
  have nowhere {p : ℕ} (at_ : (s.view (sc.action t) t).At t p) : False := by
    have there := at_.pos
    rw [pos] at there
    cases there
  have ended : phase = .ended := by
    cases phase with
    | unstarted =>
      have mem : Work.start t ∈ (s.view (sc.action t) t).work := by
        rw [shows_.work]
        exact List.mem_singleton_self _
      exact absurd (List.mem_filter.mp mem).1 aborted.started
    | running =>
      obtain ⟨p, at_, -⟩ := shows_.placed
      exact (nowhere at_).elim
    | requested | delayed | arrived => exact (nowhere shows_.placed.1).elim
    | ended => rfl
  subst ended
  refine ⟨fun mem => ?_, fun events => ?_⟩
  · rw [mem_work_iff (t := t) rfl] at mem
    have work : (s.work.filter fun w => w.thread? = some t) = [] := shows_.work
    rw [work] at mem
    cases mem
  · rw [outstanding_eq shows_]
    simp [Phase.requests, Phase.delays, Phase.callbacks]

/-- A thread that shares its statements with no other thread is in order, in every run. -/
theorem in_order {log : List (Performed T)} (alone : ∀ t', sc.action t' = sc.action t → t' = t)
    (run : sc.Run sc.initial log s) : sc.InOrder t log s := by
  have orderly := (run.reachable .refl).orderly ⟨rfl, alone⟩
  refine ⟨fun events => outstanding_le_one orderly, (run.logs ⟨rfl, alone⟩).ordered, fun aborted => ?_⟩
  obtain ⟨notNext, none_⟩ := quiet_of_aborted orderly aborted
  exact ⟨notNext, none_, fun log' s' run' => (aborted.run run').2⟩

variable (sc) in
/-- The steps of a script. -/
def follow : List (Choice ⊕ Call A E) → State A T E → Option (State A T E)
  | [], s => some s
  | .inl c :: script, s => (sc.internal c s).bind (follow script)
  | .inr call :: script, s =>
      if s.work.isEmpty then (sc.external call s).bind (follow script) else none

theorem Run.follow {r : State A T E} {log : List (Performed T)} {script : List (Choice ⊕ Call A E)}
    (run : sc.Run r log s) (follows : sc.follow script s = some s') :
    ∃ log', sc.Run r log' s' := by
  induction script generalizing log s with
  | nil =>
    cases follows
    exact ⟨log, run⟩
  | cons one script ih =>
    cases one with
    | inl c =>
      obtain ⟨s₁, does, follows⟩ := Option.bind_eq_some_iff.mp follows
      exact ih (run.internal c does) follows
    | inr call =>
      rw [Scenario.follow] at follows
      split at follows
      · rename_i idle
        obtain ⟨s₁, does, follows⟩ := Option.bind_eq_some_iff.mp follows
        exact ih (run.external call (List.isEmpty_iff.mp idle) does) follows
      · cases follows

end

/-- All operations wait for a confirm. -/
def asking : Choice := ⟨fun _ => .waits, true⟩

/-- Both threads come together, and both are done. -/
theorem meeting_in_order : ∃ log s, meeting.Run meeting.initial log s ∧
    s.stmtPos_ false = some 2 ∧ meeting.InOrder false log s := by
  have done : ((meeting.follow (List.replicate 8 (.inl asking) ++ .inr (.timerExpired ()) ::
      List.replicate 7 (.inl asking)) meeting.initial).map fun s => s.stmtPos_ false) =
        some (some 2) := by decide
  obtain ⟨s, follows, pos⟩ := Option.map_eq_some_iff.mp done
  obtain ⟨log, run⟩ := Run.follow (.refl (s := meeting.initial)) follows
  exact ⟨log, s, run, pos, in_order (fun _ same => same) run⟩

/-- A scenario that names its action twice. -/
def twice : Scenario Unit Bool Unit where
  stmtList _ := [.delay, .traffic 3]
  action _ := ()
  threads := [false, true]
  nodup := meeting.nodup
  mem_threads := meeting.mem_threads
  members _ := none
  members_ne_nil _ same := by cases same
  members_nodup _ _ same := by cases same

/-- Both threads delay, and the second one goes on with both ends of the delay. -/
theorem not_in_order : ¬ ∀ (A T E : Type) [DecidableEq A] [DecidableEq T] [DecidableEq E]
    (sc : Scenario A T E) (t : T) (log : List (Performed T)) (s : State A T E),
    sc.Run sc.initial log s → sc.InOrder t log s := by
  intro all
  have two : ((twice.follow (List.replicate 4 (.inl asking) ++ .inr (.delayExpired () 0) ::
      .inl asking :: .inl asking :: .inr (.delayExpired () 0) :: [.inl asking]) twice.initial).map
        fun s => twice.outstanding s true []) = some 2 := by decide
  obtain ⟨s, follows, count⟩ := Option.map_eq_some_iff.mp two
  obtain ⟨log, run⟩ := Run.follow (.refl (s := twice.initial)) follows
  have one := (all _ _ _ twice true log s run).one [] List.nodup_nil
  rw [count] at one
  omega

end Scenario

end Tahi.Tg
