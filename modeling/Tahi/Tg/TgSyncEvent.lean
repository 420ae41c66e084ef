import Mathlib.Data.List.FinRange
import Mathlib.Logic.Function.Basic
import Mathlib.Logic.Relation

/-! # Events that threads wait for

A thread that comes to a `sync` or `wait` is taken off the members of its event. When there are
no members left, a timer completes the statements of all of them, which lets each thread go on
to where it has to wait again.
-/

namespace Tahi.Tg

/-! ## Statements

A statement goes through its steps. While it waits for an answer it is locked under the number
of its request. -/

def ID_SIZE : ℕ := 32

/-- What the base class of all statements holds. -/
structure TgStatement where
  step_ : ℕ
  errors_ : ℕ
  id_lock : Fin ID_SIZE → ℕ

namespace TgStatement

/-- The constructor. -/
def new : TgStatement := ⟨0, 0, fun _ => 0⟩

def reset (s : TgStatement) : TgStatement := { s with step_ := 0 }

def slot (id : ℕ) : Fin ID_SIZE := ⟨id % ID_SIZE, Nat.mod_lt id (by decide)⟩

def lock (s : TgStatement) (id : ℕ) : TgStatement :=
  { s with id_lock := Function.update s.id_lock (slot id) id }

def unlock (s : TgStatement) (id : ℕ) : TgStatement :=
  if s.id_lock (slot id) = id then { s with id_lock := Function.update s.id_lock (slot id) 0 }
  else s

def numWaits (s : TgStatement) : ℕ := (List.finRange ID_SIZE).countP fun n => s.id_lock n != 0

/-- It waits for nothing and nothing has gone wrong. -/
structure Idle (s : TgStatement) : Prop where
  errors : s.errors_ = 0
  unlocked : s.id_lock = fun _ => 0

theorem idle_new : Idle new := ⟨rfl, rfl⟩

variable {s : TgStatement}

theorem Idle.reset (idle : Idle s) : Idle s.reset := ⟨idle.errors, idle.unlocked⟩

theorem Idle.step (idle : Idle s) (n : ℕ) : Idle { s with step_ := n } :=
  ⟨idle.errors, idle.unlocked⟩

theorem Idle.numWaits (idle : Idle s) : s.numWaits = 0 := by
  rw [TgStatement.numWaits, idle.unlocked, List.countP_eq_zero]
  intro n _
  simp

/-- The answer to the only request leaves the statement as it was. -/
theorem Idle.unlock_lock (idle : Idle s) (id : ℕ) : (s.lock id).unlock id = s := by
  have back : Function.update (Function.update s.id_lock (slot id) id) (slot id) 0 = s.id_lock := by
    rw [Function.update_idem, idle.unlocked, Function.update_eq_self_iff]
  have held : (s.lock id).id_lock (slot id) = id := Function.update_self _ _ _
  rw [TgStatement.unlock, if_pos held]
  simp only [lock, back]

theorem Idle.unlock (idle : Idle s) (id : ℕ) : s.unlock id = s := by
  unfold TgStatement.unlock
  split
  · have same : Function.update s.id_lock (slot id) 0 = s.id_lock := by
      rw [idle.unlocked, Function.update_eq_self_iff]
    rw [same]
  · rfl

end TgStatement

/-- The kinds of statements. A statement about traffic is a number of operations on the agents:
    four for a connection, three for data, one for a command. -/
inductive Kind (E : Type) where
  | traffic (ops : ℕ)
  | sync (event : E)
  | wait (event : E)
  | delay
  | print
deriving DecidableEq, Repr

/-- An operation fails, has its result at once, or waits for a confirm. -/
inductive Outcome where
  | fails
  | passes
  | waits
deriving DecidableEq, Repr

/-- What is left of a statement after a step: it goes on waiting, it is done, or the thread
    aborts. -/
inductive Rest where
  | waiting
  | done
  | aborts
deriving DecidableEq, Repr

/-- The loop over the operations of a statement, with `left` of them left: the step that it
    comes to. -/
def operations (op : ℕ → Outcome) (step_ : ℕ) : ℕ → ℕ × Rest
  | 0 => (step_, .done)
  | left + 1 =>
      match op step_ with
      | .fails => (step_, .aborts)
      | .passes => operations op (step_ + 1) left
      | .waits => (step_, .waiting)

/-! ## Events -/

section

variable {A T E : Type}

/-- A statement and the number of its request. A statement is named by its action and its place
    in the list of the action. -/
structure TgStmtCb (A : Type) where
  action : A
  index : ℕ
  reqid_ : ℕ
deriving DecidableEq, Repr

structure TgSyncEvent (A : Type) where
  waitfor_ : List A
  cblist_ : List (TgStmtCb A)
deriving DecidableEq, Repr

/-- A scenario: its threads in the order they are started in, the action of each of them, and
    the members of the events. A thread has the name of its action, and two threads of one
    action share its statements. The parser refuses a second event of a name, an event without
    members and one with the same member twice. -/
structure Scenario (A T E : Type) where
  stmtList : A → List (Kind E)
  action : T → A
  threads : List T
  nodup : threads.Nodup
  mem_threads : ∀ t, t ∈ threads
  members : E → Option (List A)
  members_ne_nil : ∀ e, members e ≠ some []
  members_nodup : ∀ e ms, members e = some ms → ms.Nodup

/-- What is still to be done before control is back at the dispatcher: a thread is to start, it is
    to go on, or the callbacks of an event are to be gone through, from one of them up to a
    number of them. -/
inductive Work (T E : Type) where
  | start (thread : T)
  | next (thread : T)
  | expired (event : E) (i i9 : ℕ)
deriving DecidableEq, Repr

/-- What is remembered of a run: which statements have come to an event, and which have been
    completed. -/
inductive Note (A E : Type) where
  | arrived (action : A) (index : ℕ) (event : E)
  | completed (action : A) (index : ℕ)
deriving DecidableEq, Repr

/-- `stmtPos_` is `none` for -1. The requests and delays are the ones that are not answered
    yet. -/
structure State (A T E : Type) where
  id_seed_ : ℕ
  stmts : A → ℕ → TgStatement
  thread_ : A → Option T
  stmtPos_ : T → Option ℕ
  list : E → Option (TgSyncEvent A)
  timers : List E
  requests : List (TgStmtCb A)
  delays : List (A × ℕ)
  work : List (Work T E)
  notes : List (Note A E)

/-- How the operations of a statement turn out, and whether there is a line to read. -/
structure Choice where
  op : ℕ → Outcome
  line : Bool

/-- What the dispatcher calls. -/
inductive Call (A E : Type) where
  | complete (cb : TgStmtCb A)
  | error (cb : TgStmtCb A)
  | delayExpired (action : A) (index : ℕ)
  | timerExpired (event : E)
deriving DecidableEq, Repr

/-- All threads are to be started. -/
def Scenario.initial (sc : Scenario A T E) : State A T E where
  id_seed_ := 0
  stmts _ _ := .new
  thread_ _ := none
  stmtPos_ _ := none
  list e := (sc.members e).map fun ms => ⟨ms, []⟩
  timers := []
  requests := []
  delays := []
  work := sc.threads.map .start
  notes := []

namespace State

variable [DecidableEq A] [DecidableEq T] [DecidableEq E]

def setStmt (s : State A T E) (a : A) (p : ℕ) (stmt : TgStatement) : State A T E :=
  { s with stmts := Function.update s.stmts a (Function.update (s.stmts a) p stmt) }

def setPos (s : State A T E) (t : T) (p : Option ℕ) : State A T E :=
  { s with stmtPos_ := Function.update s.stmtPos_ t p }

def push (s : State A T E) (w : Work T E) : State A T E := { s with work := w :: s.work }

def note (s : State A T E) (n : Note A E) : State A T E := { s with notes := n :: s.notes }

def getReqId (s : State A T E) : State A T E × ℕ :=
  ({ s with id_seed_ := s.id_seed_ + 1 }, s.id_seed_ + 1)

/-- What `syncEvent` and `waitEvent` have in common, and whether there are no members left.
    `none` is an error. -/
def join (s : State A T E) (cb : TgStmtCb A) (event : E) : Option (State A T E × Bool) :=
  match s.list event with
  | none => none
  | some e =>
      if cb.action ∈ e.waitfor_ then
        let e' : TgSyncEvent A := ⟨e.waitfor_.erase cb.action, e.cblist_ ++ [cb]⟩
        some (({ s with list := Function.update s.list event (some e') }).note
          (.arrived cb.action cb.index event), e'.waitfor_.isEmpty)
      else none

def startTimer (s : State A T E) (event : E) : State A T E :=
  { s with timers := s.timers ++ [event] }

def syncEvent (s : State A T E) (cb : TgStmtCb A) (event : E) : Option (State A T E) :=
  (s.join cb event).map fun (s, last) => if last then s.startTimer event else s

/-- The last member reads a line. The program exits when there is none, which is `none`. -/
def waitEvent (s : State A T E) (line : Bool) (cb : TgStmtCb A) (event : E) :
    Option (Option (State A T E)) :=
  match s.join cb event with
  | none => some none
  | some (s, last) =>
      if last then (if line then some (some (s.startTimer event)) else none) else some (some s)

/-- The thread goes on. It dies of a null pointer when the statement has no thread. -/
def onComplete (s : State A T E) (cb : TgStmtCb A) : Option (State A T E) :=
  let stmt := (s.stmts cb.action cb.index).unlock cb.reqid_
  if stmt.numWaits = 0 ∧ stmt.errors_ = 0 then
    (s.thread_ cb.action).map fun t =>
      ((s.setStmt cb.action cb.index { stmt with step_ := stmt.step_ + 1 }).note
        (.completed cb.action cb.index)).push (.next t)
  else some (s.setStmt cb.action cb.index stmt)

/-- What the loop of `next` does with a thread behind a step of its statement. A statement that
    waits ends the loop, also when it has itself made a thread go on. -/
def behind (s : State A T E) (t : T) (p : ℕ) : Rest → State A T E
  | .waiting => s
  | .done => (s.setPos t (some (p + 1))).push (.next t)
  | .aborts => s.setPos t none

def onExpired (s : State A T E) (a : A) (p : ℕ) : Option (State A T E) :=
  (s.thread_ a).map fun t =>
    (s.setStmt a p { s.stmts a p with step_ := (s.stmts a p).step_ + 1 }).push (.next t)

/-- One turn of the loop of `elementsPerform`, and what `timerExpired` does behind it. -/
def expired (s : State A T E) (event : E) (i i9 : ℕ) : Option (State A T E) :=
  match s.list event with
  | none => none
  | some e =>
      if i < i9 then
        match e.cblist_[i]? with
        | none => none
        | some cb => (s.push (.expired event (i + 1) i9)).onComplete cb
      else some { s with list := Function.update s.list event none }

end State

namespace Scenario

variable [DecidableEq A] [DecidableEq T] [DecidableEq E] (sc : Scenario A T E)

/-- The thread aborts. There is an `abort()` when it is behind its last statement. -/
def onError (s : State A T E) (cb : TgStmtCb A) : Option (State A T E) :=
  let stmt := (s.stmts cb.action cb.index).unlock cb.reqid_
  let s := s.setStmt cb.action cb.index { stmt with errors_ := stmt.errors_ + 1 }
  (s.thread_ cb.action).bind fun t =>
    match s.stmtPos_ t with
    | none => some s
    | some p => if p < (sc.stmtList (sc.action t)).length then some (s.setPos t none) else none

/-- A statement about an event: `none` is the exit of the program. -/
def doStepEvent (s : State A T E) (a : A) (p : ℕ)
    (operation : State A T E → TgStmtCb A → Option (Option (State A T E))) :
    Option (State A T E × Rest) :=
  let (s, id) := s.getReqId
  if (s.stmts a p).step_ = 0 then
    (operation s ⟨a, p, id⟩).map fun
      | none => (s, .aborts)
      | some s => (s.setStmt a p ((s.stmts a p).lock id), .waiting)
  else some (s, .done)

def doStep (c : Choice) (s : State A T E) (a : A) (p : ℕ) : Kind E → Option (State A T E × Rest)
  | .traffic ops =>
      let (s, id) := s.getReqId
      let stmt := s.stmts a p
      let (step_, rest) := operations c.op stmt.step_ (ops - stmt.step_)
      let stmt := { stmt with step_ }
      match rest with
      | .waiting =>
          let cb : TgStmtCb A := ⟨a, p, id⟩
          some ({ s with requests := s.requests ++ [cb] }.setStmt a p (stmt.lock id), rest)
      | _ => some (s.setStmt a p stmt, rest)
  | .sync event => doStepEvent s a p fun s cb => some (s.syncEvent cb event)
  | .wait event => doStepEvent s a p fun s cb => s.waitEvent c.line cb event
  | .delay =>
      if (s.stmts a p).step_ = 0 then some ({ s with delays := s.delays ++ [(a, p)] }, .waiting)
      else some (s, .done)
  | .print =>
      if (s.stmts a p).step_ = 0 then (s.onComplete ⟨a, p, 0⟩).map fun s => (s, .waiting)
      else some (s, .done)

/-- One turn of the loop of `next`. A thread that has aborted has no statement to go on with, and
    the program aborts. -/
def next (c : Choice) (s : State A T E) (t : T) : Option (State A T E) :=
  match s.stmtPos_ t with
  | none => none
  | some p =>
      match (sc.stmtList (sc.action t))[p]? with
      | none => some s
      | some stmt =>
          (doStep c s (sc.action t) p stmt).map fun (s, rest) => s.behind t p rest

def start (s : State A T E) (t : T) : State A T E :=
  { s with
    thread_ := Function.update s.thread_ (sc.action t) (some t)
    stmts := Function.update s.stmts (sc.action t) fun p => (s.stmts (sc.action t) p).reset
    stmtPos_ := Function.update s.stmtPos_ t (some 0)
    work := .next t :: s.work }

/-- The work goes on. `none` is the end of the program. -/
def internal (c : Choice) (s : State A T E) : Option (State A T E) :=
  match s.work with
  | [] => none
  | .start t :: work => some (sc.start { s with work } t)
  | .next t :: work => sc.next c { s with work } t
  | .expired event i i9 :: work => State.expired { s with work } event i i9

/-- An answer to a request, or a timer. -/
def external (call : Call A E) (s : State A T E) : Option (State A T E) :=
  match call with
  | .complete cb =>
      if cb ∈ s.requests then { s with requests := s.requests.erase cb }.onComplete cb else none
  | .error cb =>
      if cb ∈ s.requests then sc.onError { s with requests := s.requests.erase cb } cb else none
  | .delayExpired a p =>
      if (a, p) ∈ s.delays then { s with delays := s.delays.erase (a, p) }.onExpired a p else none
  | .timerExpired event =>
      if event ∈ s.timers then
        (s.list event).map fun e =>
          { s with timers := s.timers.erase event, work := [.expired event 0 e.cblist_.length] }
      else none

/-- The dispatcher calls when all work is done. -/
inductive Step : State A T E → State A T E → Prop where
  | internal {s s' : State A T E} (c : Choice) (does : sc.internal c s = some s') : Step s s'
  | external {s s' : State A T E} (call : Call A E) (idle : s.work = [])
      (does : sc.external call s = some s') : Step s s'

/-- What can be reached in any order of calls. -/
def Reachable (s : State A T E) : Prop := Relation.ReflTransGen sc.Step sc.initial s

end Scenario

end

end Tahi.Tg
