import Tahi.Tg.TgReqElm

/-! # The manager's side of an agent

Operations of threads send an indication to the agent and leave a request behind. Confirms and
reports of the agent complete the statement of the request.
-/

namespace Tahi.Tg

open Cm

variable {T A C : Type}

structure TgAgntCtrl (T A C : Type) where
  requests_ : TgReqCltn T A C
  listens_ : TgListenCltn A
  accepts_ : TgAcceptCltn A
  connects_ : TgConnCltn T A
deriving DecidableEq, Repr

/-- What the manager tells the agent. -/
inductive Indication (A : Type) where
  | open_ (id_req : Id) (type : ConnType) (client server : A)
  | listen (id_req : Id) (type : ConnType) (server : A)
  | connect (id_sock : Id)
  | send (id_sock : Id)
  | recv (id_sock : Id)
  | sendRecv (id_sock : Id)
  | recvSend (id_sock : Id)
  | recvEffect (id_sock : Id)
  | close (id_sock : Id)
deriving DecidableEq, Repr

/-- The statement that is called back. -/
inductive Answer (C : Type) where
  | complete (cb : C)
  | error (cb : C)
deriving DecidableEq, Repr

namespace TgAgntCtrl

def new : TgAgntCtrl T A C := ⟨[], [], [], []⟩

/-- What an operation leaves behind, the indication that it sends, and `waitf`. -/
abbrev Result (T A C : Type) := TgAgntCtrl T A C × Option (Indication A) × Bool

/-- What a confirm or report leaves behind, and the statement that it completes. -/
abbrev Reply (T A C : Type) := TgAgntCtrl T A C × Option (Answer C)

def addRequest (s : TgAgntCtrl T A C) (re : TgReqElm T A C) : TgAgntCtrl T A C :=
  { s with requests_ := CmSet.add TgReqElm.key s.requests_ re }

def removeRequest (s : TgAgntCtrl T A C) (re : TgReqElm T A C) : TgAgntCtrl T A C :=
  { s with requests_ := CmSet.remove TgReqElm.key s.requests_ re.key }

/-- The call back of a request, by the result of the agent. -/
def answer (re : TgReqElm T A C) (res : BitVec 32) : Answer C :=
  if res = 0 then .complete re.cb else .error re.cb

section

variable [DecidableEq T] [DecidableEq A]

def addConnect (s : TgAgntCtrl T A C) (ce : TgConnElm T A) : TgAgntCtrl T A C :=
  { s with connects_ := CmSet.add TgConnElm.key s.connects_ ce }

def removeConnect (s : TgAgntCtrl T A C) (ce : TgConnElm T A) : TgAgntCtrl T A C :=
  { s with connects_ := CmSet.remove TgConnElm.key s.connects_ ce.key }

/-! ## Operations

`req` is the next number of a request. It is used up by `opOpen`, and by `opListen` when that
sends an indication. An operation that fails gives `none`. -/

def opOpen (s : TgAgntCtrl T A C) (req : ℕ) (thread : T) (cb : C) (srcSock dstSock : A)
    (type : ConnType) : Option (Result T A C) :=
  let req := BitVec.ofNat 16 req
  some (s.addRequest ⟨.open_, req, thread, cb, srcSock, type⟩,
    some (.open_ req type srcSock dstSock), true)

def opListen (s : TgAgntCtrl T A C) (req : ℕ) (thread : T) (cb : C) (srcSock : A)
    (type : ConnType) : Option (Result T A C) :=
  if type = .tcp ∧ s.listens_.find srcSock ≠ none then some (s, none, false)
  else
    let req := BitVec.ofNat 16 req
    let s := s.addRequest ⟨.listen, req, thread, cb, srcSock, type⟩
    let s := { s with
      listens_ := CmSet.add TgListenElm.key s.listens_ ⟨.reqListen, req, 0, srcSock⟩ }
    some (s, some (.listen req type srcSock), true)

/-- An operation on the socket of a connection. -/
def operate (stat : ReqStatus) (indication : Id → Indication A) (ce : TgConnElm T A)
    (s : TgAgntCtrl T A C) (thread : T) (cb : C) (srcSock : A) (type : ConnType) : Result T A C :=
  (s.addRequest ⟨stat, ce.id_sock_, thread, cb, srcSock, type⟩, some (indication ce.id_sock_),
    true)

def opConnect (s : TgAgntCtrl T A C) (thread : T) (cb : C) (srcSock : A) (type : ConnType) :
    Option (Result T A C) :=
  (s.connects_.find srcSock thread .opened).map fun ce =>
    operate .connect .connect ce s thread cb srcSock type

def opAccept (s : TgAgntCtrl T A C) (thread : T) (cb : C) (srcSock dstSock : A)
    (type : ConnType) : Option (Result T A C) :=
  if type = .udp then some (s, none, false)
  else
    match s.accepts_.find dstSock srcSock with
    | some ae =>
        let s := s.addConnect ⟨.connected, ae.id_sock_, ae.saddr_, thread⟩
        some ({ s with accepts_ := CmSet.remove TgAcceptElm.key s.accepts_ ae.key }, none, false)
    | none =>
        (s.listens_.find srcSock).map fun le =>
          (s.addRequest ⟨.accept, le.id_req_, thread, cb, dstSock, type⟩, none, true)

/-- The operations with data, on a connection. -/
def opTraffic (stat : ReqStatus) (indication : Id → Indication A) (s : TgAgntCtrl T A C)
    (thread : T) (cb : C) (srcSock : A) (type : ConnType) : Option (Result T A C) :=
  (s.connects_.find srcSock thread .connected).map fun ce =>
    operate stat indication ce s thread cb srcSock type

def opSend : TgAgntCtrl T A C → T → C → A → ConnType → Option (Result T A C) :=
  opTraffic .send .send

def opReceive : TgAgntCtrl T A C → T → C → A → ConnType → Option (Result T A C) :=
  opTraffic .recv .recv

def opSendRecv : TgAgntCtrl T A C → T → C → A → ConnType → Option (Result T A C) :=
  opTraffic .sendRecv .sendRecv

def opRecvSend : TgAgntCtrl T A C → T → C → A → ConnType → Option (Result T A C) :=
  opTraffic .recvSend .recvSend

def opRecvTerminate : TgAgntCtrl T A C → T → C → A → ConnType → Option (Result T A C) :=
  opTraffic .recvTerm .recvEffect

/-- Changes the element in place. -/
def setStatus (s : TgAgntCtrl T A C) (ce : TgConnElm T A) (newStat : ConnStatus) :
    TgAgntCtrl T A C :=
  { s with connects_ := s.connects_.map fun e => if e = ce then { e with stat_ := newStat } else e }

def opClose (s : TgAgntCtrl T A C) (thread : T) (cb : C) (srcSock : A) (type : ConnType) :
    Option (Result T A C) :=
  match s.connects_.find srcSock thread .connected with
  | none => some (s, none, false)
  | some ce => some (operate .close .close ce (s.setStatus ce .closing) thread cb srcSock type)

/-! ## Confirms and reports

A confirm that nothing was asked for is an error that changes nothing. -/

def recvOpenConfirm (s : TgAgntCtrl T A C) (id_req id_sock : Id) (res : BitVec 32) : Reply T A C :=
  match s.requests_.find id_req .open_ with
  | none => (s, none)
  | some re =>
      let s := s.removeRequest re
      (if res = 0 then s.addConnect ⟨.opened, id_sock, re.addr_, re.thread_⟩ else s,
        some (answer re res))

def recvListenConfirm (s : TgAgntCtrl T A C) (id_req id_sock : Id) (res : BitVec 32) :
    Reply T A C :=
  match s.requests_.find id_req .listen with
  | none => (s, none)
  | some re =>
      match s.listens_.find re.addr_ with
      | none => (s, none)
      | some le =>
          if le.stat_ = .reqListen then
            let s := s.removeRequest re
            let s := { s with listens_ := CmSet.remove TgListenElm.key s.listens_ le.key }
            let s :=
              if res = 0 then
                match re.type_ with
                | .tcp => { s with
                    listens_ := CmSet.add TgListenElm.key s.listens_
                      ⟨.listen, id_req, id_sock, re.addr_⟩ }
                | .udp => s.addConnect ⟨.connected, id_sock, le.addr_, re.thread_⟩
              else s
            (s, some (answer re res))
          else (s, none)

/-- A report with an error is not looked at. The request for the accepts of a listener has the
    number of the listener. -/
def opAcceptedReport (s : TgAgntCtrl T A C) (id_req id_sock : Id) (res : BitVec 32) (caddr : A) :
    Reply T A C :=
  match s.listens_.findReq id_req with
  | none => (s, none)
  | some le =>
      if res = 0 then
        match (s.requests_.find id_req .accept).filter fun re => re.addr_ = caddr with
        | some re =>
            ((s.removeRequest re).addConnect ⟨.connected, id_sock, le.addr_, re.thread_⟩,
              some (.complete re.cb))
        | none =>
            let ae : TgAcceptElm A := ⟨id_sock, caddr, le.addr_⟩
            ({ s with accepts_ := CmSet.add TgAcceptElm.key s.accepts_ ae }, none)
      else (s, none)

def opConnectConfirm (s : TgAgntCtrl T A C) (id_sock : Id) (res : BitVec 32) : Reply T A C :=
  match s.requests_.find id_sock .connect with
  | none => (s, none)
  | some re =>
      let s := s.removeRequest re
      (if res = 0 then s.addConnect ⟨.connected, id_sock, re.addr_, re.thread_⟩ else s,
        some (answer re res))

end

/-- The confirms of the operations with data. -/
def recvTrafficConfirm (stat : ReqStatus) (s : TgAgntCtrl T A C) (id_sock : Id)
    (res : BitVec 32) : Reply T A C :=
  match s.requests_.find id_sock stat with
  | none => (s, none)
  | some re => (s.removeRequest re, some (answer re res))

def recvSndConfirm : TgAgntCtrl T A C → Id → BitVec 32 → Reply T A C :=
  recvTrafficConfirm .send

def recvRecvConfirm : TgAgntCtrl T A C → Id → BitVec 32 → Reply T A C :=
  recvTrafficConfirm .recv

def recvRecvEffectConfirm : TgAgntCtrl T A C → Id → BitVec 32 → Reply T A C :=
  recvTrafficConfirm .recvTerm

def recvSndrecvConfirm : TgAgntCtrl T A C → Id → BitVec 32 → Reply T A C :=
  recvTrafficConfirm .sendRecv

def recvRecvsndConfirm : TgAgntCtrl T A C → Id → BitVec 32 → Reply T A C :=
  recvTrafficConfirm .recvSend

section

variable [DecidableEq T] [DecidableEq A]

/-- When the agent has reported the socket as closed, there may be no connection any more, and
    the statement is completed whatever the result. -/
def recvCloseConfirm (s : TgAgntCtrl T A C) (id_sock : Id) (res : BitVec 32) : Reply T A C :=
  match s.requests_.find id_sock .close with
  | none => (s, none)
  | some re =>
      let s := s.removeRequest re
      match s.connects_.find re.addr_ re.thread_ .closing with
      | none => (s, some (.complete re.cb))
      | some ce => (s.removeConnect ce, some (answer re res))

def recvClosedReport (s : TgAgntCtrl T A C) (id_sock : Id) : TgAgntCtrl T A C :=
  match s.connects_.findSock id_sock with
  | none => s
  | some ce => s.removeConnect ce

end

end TgAgntCtrl

/-! ## Calls -/

/-- The operations with data. -/
inductive Traffic where
  | send
  | recv
  | sendRecv
  | recvSend
  | recvTerm
deriving DecidableEq, Repr

namespace Traffic

def stat : Traffic → ReqStatus
  | send => .send
  | recv => .recv
  | sendRecv => .sendRecv
  | recvSend => .recvSend
  | recvTerm => .recvTerm

def operation [DecidableEq T] [DecidableEq A] : Traffic → TgAgntCtrl T A C → T → C → A →
    ConnType → Option (TgAgntCtrl.Result T A C)
  | send => TgAgntCtrl.opSend
  | recv => TgAgntCtrl.opReceive
  | sendRecv => TgAgntCtrl.opSendRecv
  | recvSend => TgAgntCtrl.opRecvSend
  | recvTerm => TgAgntCtrl.opRecvTerminate

def confirm : Traffic → TgAgntCtrl T A C → Id → BitVec 32 → TgAgntCtrl.Reply T A C
  | send => TgAgntCtrl.recvSndConfirm
  | recv => TgAgntCtrl.recvRecvConfirm
  | sendRecv => TgAgntCtrl.recvSndrecvConfirm
  | recvSend => TgAgntCtrl.recvRecvsndConfirm
  | recvTerm => TgAgntCtrl.recvRecvEffectConfirm

end Traffic

/-- All that threads and the agent can call. -/
inductive AgntCall (T A C : Type) where
  | opOpen (thread : T) (cb : C) (srcSock dstSock : A) (type : ConnType)
  | opListen (thread : T) (cb : C) (srcSock : A) (type : ConnType)
  | opConnect (thread : T) (cb : C) (srcSock : A) (type : ConnType)
  | opAccept (thread : T) (cb : C) (srcSock dstSock : A) (type : ConnType)
  | opTraffic (op : Traffic) (thread : T) (cb : C) (srcSock : A) (type : ConnType)
  | opClose (thread : T) (cb : C) (srcSock : A) (type : ConnType)
  | openConfirm (id_req id_sock : Id) (res : BitVec 32)
  | listenConfirm (id_req id_sock : Id) (res : BitVec 32)
  | acceptedReport (id_req id_sock : Id) (res : BitVec 32) (caddr : A)
  | connectConfirm (id_sock : Id) (res : BitVec 32)
  | trafficConfirm (op : Traffic) (id_sock : Id) (res : BitVec 32)
  | closeConfirm (id_sock : Id) (res : BitVec 32)
  | closedReport (id_sock : Id)
deriving DecidableEq, Repr

/-- What comes of a call. `waitf` is `none` for operations that fail, and for calls of the
    agent. -/
structure Turn (T A C : Type) where
  ctrl : TgAgntCtrl T A C
  rno_base : ℕ
  sent : Option (Indication A)
  waitf : Option Bool
  answer : Option (Answer C)

namespace TgAgntCtrl

def ofOp (s : TgAgntCtrl T A C) (rno_base : ℕ) : Option (Result T A C) → Turn T A C
  | none => ⟨s, rno_base, none, none, none⟩
  | some (s', sent, waitf) => ⟨s', rno_base, sent, some waitf, none⟩

def ofReply (rno_base : ℕ) (r : Reply T A C) : Turn T A C := ⟨r.1, rno_base, none, none, r.2⟩

/-- A call, with the next number of a request. -/
def call [DecidableEq T] [DecidableEq A] (s : TgAgntCtrl T A C) (rno_base : ℕ) :
    AgntCall T A C → Turn T A C
  | .opOpen t cb src dst type => s.ofOp (rno_base + 1) (s.opOpen rno_base t cb src dst type)
  | .opListen t cb src type =>
      let r := s.opListen rno_base t cb src type
      s.ofOp (if (r.bind fun r => r.2.1).isSome then rno_base + 1 else rno_base) r
  | .opConnect t cb src type => s.ofOp rno_base (s.opConnect t cb src type)
  | .opAccept t cb src dst type => s.ofOp rno_base (s.opAccept t cb src dst type)
  | .opTraffic op t cb src type => s.ofOp rno_base (op.operation s t cb src type)
  | .opClose t cb src type => s.ofOp rno_base (s.opClose t cb src type)
  | .openConfirm id_req id_sock res => ofReply rno_base (s.recvOpenConfirm id_req id_sock res)
  | .listenConfirm id_req id_sock res => ofReply rno_base (s.recvListenConfirm id_req id_sock res)
  | .acceptedReport id_req id_sock res caddr =>
      ofReply rno_base (s.opAcceptedReport id_req id_sock res caddr)
  | .connectConfirm id_sock res => ofReply rno_base (s.opConnectConfirm id_sock res)
  | .trafficConfirm op id_sock res => ofReply rno_base (op.confirm s id_sock res)
  | .closeConfirm id_sock res => ofReply rno_base (s.recvCloseConfirm id_sock res)
  | .closedReport id_sock => ofReply rno_base (s.recvClosedReport id_sock, none)

end TgAgntCtrl

end Tahi.Tg
