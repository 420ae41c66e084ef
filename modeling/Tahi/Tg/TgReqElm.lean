import Tahi.Cm.CmSet

/-! # Requests, listeners, accepted connections and connections

The elements of the sets that the manager keeps for an agent, and what they are looked up by.
-/

namespace Tahi.Tg

open Cm

/-- Numbers of requests and of the sockets of an agent. -/
abbrev Id := BitVec 16

inductive ConnType where
  | tcp
  | udp
deriving DecidableEq, Repr

/-- What a request asks for. -/
inductive ReqStatus where
  | open_
  | listen
  | accept
  | connect
  | send
  | recv
  | sendRecv
  | recvSend
  | recvTerm
  | close
deriving DecidableEq, Repr

inductive ListenStatus where
  | reqListen
  | listen
deriving DecidableEq, Repr

inductive ConnStatus where
  | opened
  | connected
  | closing
deriving DecidableEq, Repr

variable {T A C : Type}

/-- A request that an agent has not answered. `cb` is the statement to call back and the number
    it is to be called with. -/
structure TgReqElm (T A C : Type) where
  stat_ : ReqStatus
  id_ : Id
  thread_ : T
  cb : C
  addr_ : A
  type_ : ConnType
deriving DecidableEq, Repr

structure TgListenElm (A : Type) where
  stat_ : ListenStatus
  id_req_ : Id
  id_sock_ : Id
  addr_ : A
deriving DecidableEq, Repr

/-- A connection that no thread has accepted yet. -/
structure TgAcceptElm (A : Type) where
  id_sock_ : Id
  caddr_ : A
  saddr_ : A
deriving DecidableEq, Repr

structure TgConnElm (T A : Type) where
  stat_ : ConnStatus
  id_sock_ : Id
  addr_ : A
  thread_ : T
deriving DecidableEq, Repr

/-! ## What elements are compared by -/

def TgReqElm.key (e : TgReqElm T A C) : Id × ReqStatus := (e.id_, e.stat_)

def TgListenElm.key (e : TgListenElm A) : A := e.addr_

def TgAcceptElm.key (e : TgAcceptElm A) : A × A := (e.caddr_, e.saddr_)

def TgConnElm.key (e : TgConnElm T A) : A × T × ConnStatus := (e.addr_, e.thread_, e.stat_)

/-! ## Collections -/

abbrev TgReqCltn (T A C : Type) := List (TgReqElm T A C)
abbrev TgListenCltn (A : Type) := List (TgListenElm A)
abbrev TgAcceptCltn (A : Type) := List (TgAcceptElm A)
abbrev TgConnCltn (T A : Type) := List (TgConnElm T A)

def TgReqCltn.find (xs : TgReqCltn T A C) (id : Id) (stat : ReqStatus) : Option (TgReqElm T A C) :=
  CmSet.find TgReqElm.key xs (id, stat)

/-- The listener with the number of the request. -/
def TgListenCltn.findReq (xs : TgListenCltn A) (id_req : Id) : Option (TgListenElm A) :=
  xs.find? fun e => e.id_req_ = id_req

/-- The connection with the number of the socket. -/
def TgConnCltn.findSock (xs : TgConnCltn T A) (id_sock : Id) : Option (TgConnElm T A) :=
  xs.find? fun e => e.id_sock_ = id_sock

section

variable [DecidableEq T] [DecidableEq A]

def TgListenCltn.find (xs : TgListenCltn A) (addr : A) : Option (TgListenElm A) :=
  CmSet.find TgListenElm.key xs addr

def TgAcceptCltn.find (xs : TgAcceptCltn A) (caddr saddr : A) : Option (TgAcceptElm A) :=
  CmSet.find TgAcceptElm.key xs (caddr, saddr)

def TgConnCltn.find (xs : TgConnCltn T A) (addr : A) (thread : T) (stat : ConnStatus) :
    Option (TgConnElm T A) :=
  CmSet.find TgConnElm.key xs (addr, thread, stat)

end

end Tahi.Tg
