import Mathlib.Logic.Function.Basic
import Mathlib.Logic.Relation
import Tahi.Tg.TgAgntCtrl

/-! # Threads that connect

A connect statement opens a socket at the client, listens at the server, connects, and accepts.
Each of these can have to wait for a confirm of the agent.
-/

namespace Tahi.Tg

variable {G T A : Type}

/-- A connect statement over TCP: its agents and their ports. -/
structure TgStmtConnect (G A : Type) where
  client : G
  clientPort : A
  server : G
  serverPort : A
deriving DecidableEq, Repr

inductive ThreadPhase where
  | ready
  | waiting
  | aborted
deriving DecidableEq, Repr

/-- The place of a thread: the statement that it is at, and the step of that. -/
structure ConnectThread where
  pos : ℕ
  step_ : ℕ
  phase : ThreadPhase
deriving DecidableEq, Repr

/-- What is remembered of a run: what agents have confirmed of their ports, and the connect
    indications towards ports. -/
inductive ListenNote (G T A : Type) where
  | confirmed (server : G) (port : A) (res : BitVec 32)
  | connecting (thread : T) (server : G) (port : A)
deriving DecidableEq, Repr

/-- The manager with its agents and threads. Each thread has statements of its own, and is called
    back by its name. `listening` are the listen indications that an agent has not confirmed. -/
structure Connecting (G T A : Type) where
  ctrl : G → TgAgntCtrl T A T
  rno_base : ℕ
  threads : T → ConnectThread
  listening : G → List (Id × A)
  notes : List (ListenNote G T A)

namespace Connecting

def new (rno_base : ℕ) : Connecting G T A :=
  ⟨fun _ => .new, rno_base, fun _ => ⟨0, 0, .ready⟩, fun _ => [], []⟩

variable [DecidableEq G] [DecidableEq T] [DecidableEq A]

/-- What the loop of `doStep` does with a thread behind an operation. -/
def behind (th : ConnectThread) : Option Bool → ConnectThread
  | none => { th with phase := .aborted }
  | some true => { th with phase := .waiting }
  | some false => { th with step_ := th.step_ + 1 }

/-- The listen indication, if one is sent. -/
def listenSent : Option (Indication A) → List (Id × A)
  | some (.listen id_req _ port) => [(id_req, port)]
  | _ => []

/-- The connect indication of a statement, if one is sent. -/
def connectSent (t : T) (st : TgStmtConnect G A) : Option (Indication A) → List (ListenNote G T A)
  | some (.connect _) => [.connecting t st.server st.serverPort]
  | _ => []

/-- An operation of a thread on an agent. -/
def operate (s : Connecting G T A) (t : T) (st : TgStmtConnect G A) (g : G)
    (call : AgntCall T A T) : Connecting G T A :=
  let turn := (s.ctrl g).call s.rno_base call
  { ctrl := Function.update s.ctrl g turn.ctrl
    rno_base := turn.rno_base
    threads := Function.update s.threads t (behind (s.threads t) turn.waitf)
    listening := Function.update s.listening g (listenSent turn.sent ++ s.listening g)
    notes := connectSent t st turn.sent ++ s.notes }

/-- A step of `doStep`. The statement is done behind the last one. -/
def perform (s : Connecting G T A) (t : T) (st : TgStmtConnect G A) : Connecting G T A :=
  match (s.threads t).step_ with
  | 0 => s.operate t st st.client (.opOpen t t st.clientPort st.serverPort .tcp)
  | 1 => s.operate t st st.server (.opListen t t st.serverPort .tcp)
  | 2 => s.operate t st st.client (.opConnect t t st.clientPort .tcp)
  | 3 => s.operate t st st.server (.opAccept t t st.serverPort st.clientPort .tcp)
  | _ => { s with
      threads := Function.update s.threads t ⟨(s.threads t).pos + 1, 0, .ready⟩ }

/-- A statement that is called back: it goes on, or its thread aborts. -/
def answer (threads : T → ConnectThread) : Option (Answer T) → T → ConnectThread
  | none => threads
  | some (.complete t) =>
      Function.update threads t { threads t with step_ := (threads t).step_ + 1, phase := .ready }
  | some (.error t) => Function.update threads t { threads t with phase := .aborted }

/-- A confirm or report of an agent. -/
def receive (s : Connecting G T A) (g : G) (call : AgntCall T A T) : Connecting G T A :=
  let turn := (s.ctrl g).call s.rno_base call
  { s with
    ctrl := Function.update s.ctrl g turn.ctrl
    threads := answer s.threads turn.answer }

/-- An agent confirms a listen indication. -/
def listened (s : Connecting G T A) (g : G) (id_req : Id) (port : A) (id_sock : Id)
    (res : BitVec 32) : Connecting G T A :=
  let s' := s.receive g (.listenConfirm id_req id_sock res)
  { s' with
    listening := Function.update s.listening g ((s.listening g).erase (id_req, port))
    notes := .confirmed g port res :: s.notes }

/-- The other confirms and reports. -/
def Reports : AgntCall T A T → Prop
  | .openConfirm _ _ _ => True
  | .acceptedReport _ _ _ _ => True
  | .connectConfirm _ _ => True
  | .trafficConfirm _ _ _ => True
  | .closeConfirm _ _ => True
  | .closedReport _ => True
  | _ => False

/-- When a thread listens, the port is not one whose listen is pending, and the number of the
    request is not that of a listen that is pending. -/
def Fine (s : Connecting G T A) (t : T) (st : TgStmtConnect G A) : Prop :=
  (s.threads t).step_ = 1 →
    match (s.ctrl st.server).listens_.find st.serverPort with
    | some le => le.stat_ = .listen
    | none => (s.ctrl st.server).requests_.find (BitVec.ofNat 16 s.rno_base) .listen = none

variable (script : T → List (TgStmtConnect G A)) (cond : Connecting G T A → T →
  TgStmtConnect G A → Prop)

/-- The threads and the agents go on in any order. `cond` holds of each step of a thread. -/
inductive Step (s s' : Connecting G T A) : Prop where
  | perform (t : T) (st : TgStmtConnect G A) (ready : (s.threads t).phase = .ready)
      (at_ : (script t)[(s.threads t).pos]? = some st) (fine : cond s t st)
      (eq : s' = s.perform t st)
  | receive (g : G) (call : AgntCall T A T) (reports : Reports call) (eq : s' = s.receive g call)
  | listened (g : G) (id_req : Id) (port : A) (id_sock : Id) (res : BitVec 32)
      (sent : (id_req, port) ∈ s.listening g) (eq : s' = s.listened g id_req port id_sock res)

def Run (rno_base : ℕ) (s : Connecting G T A) : Prop :=
  Relation.ReflTransGen (Step script cond) (new rno_base) s

/-- A thread is past its listen, and connects, only when the server has confirmed that it
    listens. -/
structure Ordered (s : Connecting G T A) : Prop where
  past : ∀ t st, (script t)[(s.threads t).pos]? = some st → 2 ≤ (s.threads t).step_ →
    .confirmed st.server st.serverPort 0 ∈ s.notes
  connects : ∀ t g p later earlier, s.notes = later ++ .connecting t g p :: earlier →
    .confirmed g p 0 ∈ earlier

end Connecting

end Tahi.Tg
