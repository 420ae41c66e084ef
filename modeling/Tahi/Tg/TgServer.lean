import Tahi.Tg.TcUDPSocket
import Tahi.Tg.TgAgntCtrl

/-! # The agent

An agent has sockets and listeners by their descriptors. It takes the requests of the manager one
after the other, and its sockets report when they have done what they were asked for.
-/

namespace Tahi.Tg

open BitField (Octet)

variable {T A C : Type}

/-- The counts that the manager sends with an operation with data. -/
structure TrafficRequest extends TrafficInfo where
  sinterval_ : BitVec 32
deriving DecidableEq, Repr

/-- What the manager sends. The counts are looked at for the operations with data only. -/
structure TgRequest (A : Type) where
  indication : Indication A
  info : TrafficRequest
deriving DecidableEq, Repr

/-- What the agent sends. `addr` is the address in front of the times, `none` when there is none of
    a kind that the manager knows. -/
structure TgResponse (A : Type) where
  request : ERequest
  reqno : Id
  receipt : Id
  result : BitVec 32
  addr : Option A
deriving DecidableEq, Repr

/-- What the manager does with a response. -/
def TgResponse.call (r : TgResponse A) : Option (AgntCall T A C) :=
  match r.request with
  | .open_ => some (.openConfirm r.reqno r.receipt r.result)
  | .listen => some (.listenConfirm r.reqno r.receipt r.result)
  | .accepted => r.addr.map fun caddr => .acceptedReport r.reqno r.receipt r.result caddr
  | .connect => r.addr.map fun _ => .connectConfirm r.receipt r.result
  | .snd => some (.trafficConfirm .send r.receipt r.result)
  | .recv => some (.trafficConfirm .recv r.receipt r.result)
  | .recvEffect => some (.trafficConfirm .recvTerm r.receipt r.result)
  | .sndRecv => some (.trafficConfirm .sendRecv r.receipt r.result)
  | .recvSnd => some (.trafficConfirm .recvSend r.receipt r.result)
  | .close => some (.closeConfirm r.receipt r.result)
  | .closed => some (.closedReport r.receipt)
  | .connectSnd | .connectSndRecv | .listenRecv | .listenRecvSnd => none

/-- What the system gives while a request is taken: the descriptor of the socket that is made,
    bound and listened on, the error, whether a connect is successful, the address of the socket,
    the address that the times in a response are taken for, what the stack holds and what comes of
    a first message. -/
structure SystemCalls (A : Type) where
  made : Option Id
  errno : BitVec 32
  connected : Bool
  destSock : A
  times : Option A
  stack : ℕ → Octet
  sendto : SendResult

/-- A listener has the number of the request that it was made by. -/
inductive TcAgent where
  | accept (request_ : ERequest) (reqno_ : Id)
  | socket (type : ConnType) (s : TcSocket)

namespace TcAgent

def request (r : ERequest) : TcAgent → TcAgent
  | accept _ reqno_ => accept r reqno_
  | socket type s => socket type { s with request_ := r }

/-- A socket does something, and what it reports is sent at once. -/
def tell (type : ConnType) (s : TcSocket) : TcAgent × List Report :=
  (socket type { s with reports := [] }, s.reports)

/-- A listener does nothing with what is only for sockets. -/
def act (f : ConnType → TcSocket → TcSocket) : TcAgent → TcAgent × List Report
  | accept request_ reqno_ => (accept request_ reqno_, [])
  | socket type s => tell type (f type s)

def sndIndication (a : TcAgent) (c l t : BitVec 32) (stack : ℕ → Octet) (sendto : SendResult) :
    TcAgent × List Report :=
  a.act fun
    | .tcp, s => s.sndIndication c l t stack sendto
    | .udp, s => TcUDPSocket.sndIndication s c l t stack sendto

def recvIndication (a : TcAgent) (c l : BitVec 32) : TcAgent × List Report :=
  a.act fun _ s => s.recvIndication c l

def recvEffectIndication (a : TcAgent) : TcAgent × List Report :=
  a.act fun
    | .tcp, s => s.recvEffectIndication
    | .udp, s => TcUDPSocket.recvEffectIndication s

def sndrecvIndication (a : TcAgent) (c sl rl t : BitVec 32) (stack : ℕ → Octet)
    (sendto : SendResult) : TcAgent × List Report :=
  a.act fun
    | .tcp, s => s.sndrecvIndication c sl rl t stack sendto
    | .udp, s => TcUDPSocket.sndrecvIndication s c sl rl t stack sendto

def recvsndIndication (a : TcAgent) (c sl rl : BitVec 32) : TcAgent × List Report :=
  a.act fun _ s => s.recvsndIndication c sl rl

end TcAgent

/-- The listeners and sockets of the agent, by their descriptors. -/
structure TgServer where
  agentSet_ : Id → Option TcAgent

namespace TgServer

/-- What the agent sends with a step. -/
abbrev Result (A : Type) := TgServer × List (TgResponse A)

def new : TgServer := ⟨fun _ => none⟩

def findAgent (s : TgServer) (receipt : Id) : Option TcAgent := s.agentSet_ receipt

/-- An agent that has the descriptor of another one is not added. -/
def addAgent (s : TgServer) (receipt : Id) (v : TcAgent) : TgServer :=
  match s.findAgent receipt with
  | some _ => s
  | none => ⟨Function.update s.agentSet_ receipt (some v)⟩

def removeAgent (s : TgServer) (receipt : Id) : TgServer :=
  ⟨Function.update s.agentSet_ receipt none⟩

/-- An agent has changed. -/
def put (s : TgServer) (receipt : Id) (v : TcAgent) : TgServer :=
  ⟨Function.update s.agentSet_ receipt (some v)⟩

/-- An agent has changed and reported. -/
def tell (s : TgServer) (receipt : Id) (r : TcAgent × List Report) : Result A :=
  (s.put receipt r.1, r.2.map fun r => ⟨r.request, 0, receipt, r.result, none⟩)

/-- The answer to a request for a socket that the agent does not have. -/
def absent (s : TgServer) (request : ERequest) (receipt : Id) : Result A :=
  (s, [⟨request, 0, receipt, -1, none⟩])

/-! ## Requests -/

def openRequest (s : TgServer) (reqno : Id) (type : ConnType) (calls : SystemCalls A) : Result A :=
  match calls.made with
  | none => (s, [⟨.open_, reqno, 0, calls.errno, none⟩])
  | some fd =>
      (s.addAgent fd (.socket type (.new .open_)), [⟨.open_, reqno, fd, 0, none⟩])

/-- For UDP there is nothing to accept: the socket is made with the listener, and has its
    descriptor. -/
def listenRequest (s : TgServer) (reqno : Id) (type : ConnType) (calls : SystemCalls A) :
    Result A :=
  match calls.made with
  | none => (s, [⟨.listen, reqno, 0, calls.errno, none⟩])
  | some fd =>
      let s :=
        match type with
        | .tcp => s
        | .udp => s.addAgent fd (.socket .udp (.new .listen))
      (s.addAgent fd (.accept .listen reqno), [⟨.listen, reqno, fd, 0, none⟩])

/-- A connect of a UDP socket is always successful. An answer without an address has the times in
    its place. -/
def connectRequest (s : TgServer) (receipt : Id) (calls : SystemCalls A) : Result A :=
  match s.findAgent receipt with
  | none => (s, [⟨.connect, 0, receipt, calls.errno, calls.times⟩])
  | some a =>
      (s.put receipt (a.request .connect),
        match a with
        | .accept _ _ => []
        | .socket .tcp _ =>
            [⟨.connect, 0, receipt, if calls.connected then 0 else calls.errno,
              some calls.destSock⟩]
        | .socket .udp _ => [⟨.connect, 0, receipt, 0, some calls.destSock⟩])

def sndRequest (s : TgServer) (receipt : Id) (val : TrafficRequest) (calls : SystemCalls A) :
    Result A :=
  match s.findAgent receipt with
  | none => s.absent .snd receipt
  | some a =>
      s.tell receipt ((a.request .snd).sndIndication val.scount_ val.slen_ val.sinterval_
        calls.stack calls.sendto)

/-- A receive is answered at once. -/
def recvRequest (s : TgServer) (receipt : Id) (val : TrafficRequest) : Result A :=
  match s.findAgent receipt with
  | none => s.absent .recv receipt
  | some a =>
      let (s, told) := s.tell receipt ((a.request .recv).recvIndication val.rcount_ val.rlen_)
      (s, told ++ [⟨.recv, 0, receipt, 0, none⟩])

def recvEffectRequest (s : TgServer) (receipt : Id) : Result A :=
  match s.findAgent receipt with
  | none => s.absent .recvEffect receipt
  | some a => s.tell receipt a.recvEffectIndication

def sndrecvRequest (s : TgServer) (receipt : Id) (val : TrafficRequest) (calls : SystemCalls A) :
    Result A :=
  match s.findAgent receipt with
  | none => s.absent .sndRecv receipt
  | some a =>
      s.tell receipt ((a.request .sndRecv).sndrecvIndication val.scount_ val.slen_ val.rlen_
        val.sinterval_ calls.stack calls.sendto)

def recvsndRequest (s : TgServer) (receipt : Id) (val : TrafficRequest) : Result A :=
  match s.findAgent receipt with
  | none => s.absent .recvSnd receipt
  | some a =>
      let (s, told) := s.tell receipt
        ((a.request .recvSnd).recvsndIndication val.rcount_ val.slen_ val.rlen_)
      (s, told ++ [⟨.recvSnd, 0, receipt, 0, none⟩])

def closeRequest (s : TgServer) (receipt : Id) : Result A :=
  match s.findAgent receipt with
  | none => s.absent .close receipt
  | some _ => (s.removeAgent receipt, [⟨.close, 0, receipt, 0, none⟩])

def analizeRequest (s : TgServer) (r : TgRequest A) (calls : SystemCalls A) : Result A :=
  match r.indication with
  | .open_ reqno type _ _ => s.openRequest reqno type calls
  | .listen reqno type _ => s.listenRequest reqno type calls
  | .connect receipt => s.connectRequest receipt calls
  | .send receipt => s.sndRequest receipt r.info calls
  | .recv receipt => s.recvRequest receipt r.info
  | .sendRecv receipt => s.sndrecvRequest receipt r.info calls
  | .recvSend receipt => s.recvsndRequest receipt r.info
  | .recvEffect receipt => s.recvEffectRequest receipt
  | .close receipt => s.closeRequest receipt

/-! ## Events of sockets -/

def receivePacket : ConnType → TcSocket → Option (List Octet) → (ℕ → Octet) → SendResult →
    Option TcSocket
  | .tcp => TcSocket.receivePacket
  | .udp => TcUDPSocket.receivePacket

/-- A socket is ready. When it reads and nothing is received, the manager is told and the socket is
    closed. -/
def inputReady (s : TgServer) (receipt : Id) (received : Option (List Octet)) (errno : BitVec 32)
    (stack : ℕ → Octet) (sendto : SendResult) : Result A :=
  match s.findAgent receipt with
  | some (.socket type sock) =>
      match receivePacket type sock received stack sendto with
      | some sock => s.tell receipt (TcAgent.tell type sock)
      | none => (s.removeAgent receipt, [⟨.closed, 0, receipt, errno, none⟩])
  | _ => (s, [])

def timerExpired (s : TgServer) (receipt : Id) (stack : ℕ → Octet) (sendto : SendResult) :
    Result A :=
  match s.findAgent receipt with
  | some a =>
      s.tell receipt (a.act fun
        | .tcp, s => s.timeup stack sendto
        | .udp, s => TcUDPSocket.timeup s stack sendto)
  | none => (s, [])

/-- A listener accepts a connection from `peer`. -/
def accept (s : TgServer) (receipt fd : Id) (peer : A) : Result A :=
  match s.findAgent receipt with
  | some (.accept request_ reqno_) =>
      (s.addAgent fd (.socket .tcp (.new request_)), [⟨.accepted, reqno_, fd, 0, some peer⟩])
  | _ => (s, [])

end TgServer

end Tahi.Tg
