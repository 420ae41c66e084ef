import Tahi.Cm.CmSet

/-! # The command server

A request starts a process. The server answers when the process ends, in a signal handler that may
come between any two steps of `expandRun`.
-/

namespace Tahi.Tg

open Cm

structure TeCmd where
  pid_ : ℕ
  reqno_ : BitVec 16
deriving DecidableEq, Repr

def eCmdExec_ : BitVec 16 := 0x0013

def eCmdCancel_ : BitVec 16 := 0x0014

def eResponse_ : BitVec 16 := 0x8000

/-- The header of a response. -/
structure TeResponse where
  request : BitVec 16
  reqno : BitVec 16
  result : BitVec 32
deriving DecidableEq, Repr

def WEXITSTATUS (status : BitVec 32) : BitVec 32 := (status >>> 8) &&& 0xff

structure TeServer where
  cmdSet_ : List TeCmd
  is_find_reqno_failure : Bool
deriving DecidableEq, Repr

namespace TeServer

/-- The constructor. -/
def new : TeServer := ⟨[], false⟩

def addCmd (s : TeServer) (v : TeCmd) : TeServer :=
  { s with cmdSet_ := CmSet.add TeCmd.pid_ s.cmdSet_ v }

def removeCmd (s : TeServer) (v : TeCmd) : TeServer :=
  { s with cmdSet_ := CmSet.remove TeCmd.pid_ s.cmdSet_ v.pid_ }

def findReqno (s : TeServer) (pid : ℕ) : Option TeCmd :=
  if pid ≠ 0 then CmSet.find TeCmd.pid_ s.cmdSet_ pid else none

def noOfElements (s : TeServer) : ℕ := s.cmdSet_.length

def set_find_reqno_failure (s : TeServer) (i : Bool) : TeServer :=
  { s with is_find_reqno_failure := i }

def report (n rn : BitVec 16) (v : BitVec 32) : TeResponse := ⟨n ||| eResponse_, rn, v⟩

/-- The handler, behind its `wait`. -/
def childEnd (s : TeServer) (pid : ℕ) (status : BitVec 32) : TeServer × Option TeResponse :=
  let cmd := if status ≠ 0 then eCmdCancel_ else eCmdExec_
  match s.findReqno pid with
  | some e => (s.removeCmd e, some (report cmd e.reqno_ (WEXITSTATUS status)))
  | none => (s.set_find_reqno_failure true, none)

end TeServer

/-- Where `expandRun` is, with the command of the process that it has started. -/
inductive ExpandRun where
  | idle
  | forked (v : TeCmd)
  | counted (v : TeCmd) (num : ℕ)
  | reporting (v : TeCmd)
  | reported
  | adding (v : TeCmd)
deriving DecidableEq, Repr

/-- The server, its processes and the signal. A process that has ended is there until it is waited
    for. `requests` and `finished` are the numbers of all requests, and of those whose process has ended
    or could not be started. -/
structure TeState where
  server : TeServer
  expandRun : ExpandRun
  running : List TeCmd
  ended : List (TeCmd × BitVec 32)
  sigchld : Bool
  handling : Bool
  sent : List TeResponse
  requests : List (BitVec 16)
  finished : List (BitVec 16)
deriving DecidableEq, Repr

/-- Steps of `expandRun`, ends of processes, and the handler. -/
inductive TeEvent where
  | vforkFails (reqno : BitVec 16)
  | vfork (pid : ℕ) (reqno : BitVec 16)
  | count
  | decide
  | report
  | reset
  | add
  | ends (v : TeCmd) (status : BitVec 32)
  | signal
  | wait (v : TeCmd) (status : BitVec 32)
deriving DecidableEq, Repr

namespace TeState

def initial : TeState := ⟨.new, .idle, [], [], false, false, [], [], []⟩

/-- The processes that have not been waited for. -/
def children (s : TeState) : List TeCmd := s.running ++ s.ended.map Prod.fst

/-! ## `expandRun`, step by step -/

/-- The number that is passed to `expandRun` is the code of the request. -/
def vforkFails (s : TeState) (reqno : BitVec 16) : Option TeState :=
  match s.expandRun with
  | .idle => some { s with
      sent := s.sent ++ [TeServer.report eCmdExec_ eCmdExec_ (-2)]
      requests := s.requests ++ [reqno]
      finished := s.finished ++ [reqno] }
  | _ => none

def vfork (s : TeState) (pid : ℕ) (reqno : BitVec 16) : Option TeState :=
  match s.expandRun with
  | .idle =>
      if pid ≠ 0 ∧ pid ∉ s.children.map TeCmd.pid_ then
        some { s with
          expandRun := .forked ⟨pid, reqno⟩
          running := ⟨pid, reqno⟩ :: s.running
          requests := s.requests ++ [reqno] }
      else none
  | _ => none

def count (s : TeState) : Option TeState :=
  match s.expandRun with
  | .forked v => some { s with expandRun := .counted v s.server.noOfElements }
  | _ => none

def decide (s : TeState) : Option TeState :=
  match s.expandRun with
  | .counted v num =>
      some { s with
        expandRun :=
          if num = 0 ∧ s.server.is_find_reqno_failure then .reporting v else .adding v }
  | _ => none

def report (s : TeState) : Option TeState :=
  match s.expandRun with
  | .reporting v => some { s with
      expandRun := .reported
      sent := s.sent ++ [TeServer.report eCmdCancel_ v.reqno_ (WEXITSTATUS 0)] }
  | _ => none

def reset (s : TeState) : Option TeState :=
  match s.expandRun with
  | .reported => some { s with
      expandRun := .idle
      server := s.server.set_find_reqno_failure false }
  | _ => none

def add (s : TeState) : Option TeState :=
  match s.expandRun with
  | .adding v => some { s with expandRun := .idle, server := s.server.addCmd v }
  | _ => none

/-! ## Processes and the handler -/

/-- A signal that is raised while one is pending is lost. -/
def ends (s : TeState) (v : TeCmd) (status : BitVec 32) : Option TeState :=
  if v ∈ s.running then
    some { s with
      running := s.running.erase v
      ended := s.ended ++ [(v, status)]
      sigchld := true
      finished := s.finished ++ [v.reqno_] }
  else none

def signal (s : TeState) : Option TeState :=
  if s.sigchld ∧ ¬ s.handling then some { s with sigchld := false, handling := true }
  else none

/-- `wait` takes any process that has ended, and the handler returns. -/
def wait (s : TeState) (v : TeCmd) (status : BitVec 32) : Option TeState :=
  if s.handling ∧ (v, status) ∈ s.ended then
    let (server, response) := s.server.childEnd v.pid_ status
    some { s with
      server
      ended := s.ended.erase (v, status)
      handling := false
      sent := s.sent ++ response.toList }
  else none

/-- `expandRun` only goes on when the handler is not there. -/
def expand (s : TeState) (does : Option TeState) : Option TeState :=
  if s.handling then none else does

def step (s : TeState) : TeEvent → Option TeState
  | .vforkFails reqno => s.expand (s.vforkFails reqno)
  | .vfork pid reqno => s.expand (s.vfork pid reqno)
  | .count => s.expand s.count
  | .decide => s.expand s.decide
  | .report => s.expand s.report
  | .reset => s.expand s.reset
  | .add => s.expand s.add
  | .ends v status => s.ends v status
  | .signal => s.signal
  | .wait v status => s.wait v status

/-! ## Answers -/

/-- Nothing is under way. -/
structure Quiet (s : TeState) : Prop where
  expandRun : s.expandRun = .idle
  running : s.running = []
  sigchld : s.sigchld = false
  handling : s.handling = false

end TeState

/-- What the server does by itself. -/
def TeEvent.Own : TeEvent → Prop
  | .vforkFails _ | .vfork _ _ | .ends _ _ => False
  | _ => True

namespace TeState

/-- How much the server can still do by itself. -/
def left (s : TeState) : ℕ :=
  (match s.expandRun with
    | .forked _ => 4
    | .counted _ _ => 3
    | .reporting _ => 2
    | .reported | .adding _ => 1
    | .idle => 0) + 2 * s.sigchld.toNat + s.handling.toNat

structure Answers (s : TeState) : Prop where
  /-- Responses with a number are no more than requests with it whose process is over. -/
  behind : ∀ r, (s.sent.map TeResponse.reqno).count r ≤ s.finished.count r
  /-- When nothing is under way, each request has its response. -/
  all : s.Quiet → (s.sent.map TeResponse.reqno).Perm s.requests
  /-- When no process runs, the server goes on until nothing is under way. -/
  goes_on : s.running = [] → ¬ s.Quiet → ∃ e, e.Own ∧ (s.step e).isSome
  decreases : ∀ e s', e.Own → s.step e = some s' → s'.left < s.left

inductive Reachable : TeState → Prop where
  | initial : Reachable initial
  | step {s s' e} (before : Reachable s) (does : s.step e = some s') : Reachable s'

/-- The steps that lose nothing: no process ends while a signal is pending; a process that cannot be
    started belongs to a request with the number of its code; a process that has ended before it is
    added is waited for before the flag is looked at, when the table has been found empty. -/
def Fine (s : TeState) : TeEvent → Prop
  | .vforkFails reqno => reqno = eCmdExec_
  | .decide => ∀ v num, s.expandRun = .counted v num → s.server.is_find_reqno_failure → num = 0
  | .ends _ _ => s.sigchld = false
  | .wait v _ => ∀ w, s.expandRun = .adding w → w.pid_ ≠ v.pid_
  | _ => True

inductive FineRun : TeState → Prop where
  | initial : FineRun initial
  | step {s s' e} (before : FineRun s) (fine : s.Fine e) (does : s.step e = some s') : FineRun s'

end TeState

end Tahi.Tg
