import Mathlib.Logic.Function.Basic
import Tahi.General.BitField

/-! # Traffic of an agent's socket

A socket sends and receives messages of one length, by counters. It answers the request that it
works at when it has sent or received enough.
-/

namespace Tahi.Tg

open BitField (Octet)

inductive ERequest where
  | open_
  | listen
  | accepted
  | connect
  | snd
  | recv
  | recvEffect
  | sndRecv
  | recvSnd
  | connectSnd
  | connectSndRecv
  | listenRecv
  | listenRecvSnd
  | close
  | closed
deriving DecidableEq, Repr

structure TrafficInfo where
  scount_ : BitVec 32
  slen_ : BitVec 32
  rcount_ : BitVec 32
  rlen_ : BitVec 32
deriving DecidableEq, Repr

/-- An answer of the agent. -/
structure Report where
  request : ERequest
  result : BitVec 32
  info : TrafficInfo
deriving DecidableEq, Repr

/-- What comes of writing to the peer. -/
inductive SendResult where
  | sent
  | retry
  | error (errno : BitVec 32)
deriving DecidableEq, Repr

/-- `timer_` says that the timer of the socket runs. `outgoing` is what has been written to the
    peer and not read by it, and `reports` is what the manager has been told. -/
structure TcSocket where
  request_ : ERequest
  seqno_ : BitVec 32
  recvseq_ : Octet
  sendcnt_ : BitVec 32
  recvcnt_ : BitVec 32
  sendlen_ : BitVec 32
  recvlen_ : BitVec 32
  sentcnt_ : BitVec 32
  recvdcnt_ : BitVec 32
  sentlen_ : BitVec 64
  recvdlen_ : BitVec 64
  sinterval_ : BitVec 32
  effectreq_ : Bool
  regard_ : BitVec 32
  timer_ : Bool
  outgoing : List Octet
  reports : List Report
deriving DecidableEq, Repr

namespace TcSocket

def new (request : ERequest) : TcSocket :=
  ⟨request, 0, 0, 0, 0, 0, 0, 0, 0, 0, 0, 0, false, 0, false, [], []⟩

/-- The requests whose answer has the counts. -/
def counted : ERequest → Bool
  | .snd | .recvSnd | .connectSnd | .listenRecvSnd | .recvEffect | .sndRecv | .connectSndRecv =>
      true
  | _ => false

def report (s : TcSocket) (r : ERequest) (ret : BitVec 32) : TcSocket :=
  { s with
    reports := s.reports ++ [⟨r, ret, {
      scount_ := if counted r then s.sentcnt_ else 0
      slen_ := s.sentlen_.setWidth 32
      rcount_ := if counted r then s.recvdcnt_ else 0
      rlen_ := s.recvdlen_.setWidth 32 }⟩]
    effectreq_ := if r = .recvEffect then false else s.effectreq_ }

/-! ## Sending -/

def postSend (s : TcSocket) : TcSocket :=
  match s.request_ with
  | .snd | .connectSnd =>
      if s.sentcnt_ < s.sendcnt_ then { s with timer_ := true } else s.report s.request_ 0
  | _ => s

/-- A message carries a number in its first octet: one of its own, or that of the message it
    answers. The others are what the stack holds. -/
def number (s : TcSocket) (stack : ℕ → Octet) : TcSocket × (ℕ → Octet) :=
  match s.request_ with
  | .snd | .sndRecv | .connectSnd | .connectSndRecv =>
      let next := s.seqno_ + 1
      ({ s with seqno_ := next }, Function.update stack 0 (next.setWidth 8))
  | .recvSnd | .listenRecvSnd => (s, Function.update stack 0 s.recvseq_)
  | _ => (s, stack)

/-- Without anything to send in all, nothing is sent and nothing is counted. -/
def sendPacket (s : TcSocket) (stack : ℕ → Octet) (sendto : SendResult) : TcSocket :=
  let (s, buf) := { s with timer_ := false }.number stack
  if s.sendcnt_ * s.sendlen_ ≠ 0 then
    if s.sendcnt_ ≤ s.sentcnt_ then s
    else
      match sendto with
      | .sent =>
          { s with
            sentcnt_ := s.sentcnt_ + 1
            sentlen_ := s.sentlen_ + s.sendlen_.setWidth 64
            outgoing := s.outgoing ++ (List.range s.sendlen_.toNat).map buf }.postSend
      | .retry => s.postSend
      | .error errno => s.report s.request_ errno
  else s.postSend

/-! ## Receiving -/

/-- What has been received is compared with a product of 32 bits. -/
def full (s : TcSocket) : Bool :=
  (s.recvcnt_ * s.recvlen_).setWidth 64 = s.recvdlen_

/-- What is reported when everything is received. -/
def complete (s : TcSocket) : TcSocket :=
  match s.request_ with
  | .sndRecv | .connectSndRecv => s.report s.request_ 0
  | .recv => if s.effectreq_ then s.report .recvEffect 0 else s
  | _ => s

def postReceive (s : TcSocket) (stack : ℕ → Octet) (sendto : SendResult) : TcSocket :=
  let s := if s.full then s.complete else s
  if s.sendcnt_ ≤ s.sentcnt_ then s
  else
    match s.request_ with
    | .sndRecv | .connectSndRecv =>
        -- A message was sent before by the timer.
        if s.recvdcnt_ < s.sentcnt_ then s else s.sendPacket stack sendto
    | .snd | .connectSnd | .recvSnd | .listenRecvSnd => s.sendPacket stack sendto
    | _ => s

/-- Whether the socket reads when it is ready. -/
def reads (s : TcSocket) : Bool :=
  s.recvcnt_ * s.recvlen_ ≠ 0

def countReceived (s : TcSocket) (buf : List Octet) : TcSocket :=
  { s with
    recvseq_ := buf.headD 0
    recvdcnt_ := s.recvdcnt_ + 1
    recvdlen_ := s.recvdlen_ + BitVec.ofNat 64 buf.length }

/-- The socket is ready. It is closed, `none`, when it reads and gets nothing. -/
def receivePacket (s : TcSocket) (received : Option (List Octet)) (stack : ℕ → Octet)
    (sendto : SendResult) : Option TcSocket :=
  let s := { s with timer_ := false }
  if s.reads then
    received.map fun buf => (s.countReceived buf).postReceive stack sendto
  else some (s.postReceive stack sendto)

/-- The socket is ready when something of its peer is there. When it reads, it waits for a whole
    message. -/
def receive (s : TcSocket) (stream : List Octet) (stack : ℕ → Octet) :
    Option (TcSocket × List Octet) :=
  if stream = [] then none
  else if s.reads then
    let len := s.recvlen_.toNat
    if len ≤ stream.length then
      (s.receivePacket (some (stream.take len)) stack .sent).map fun s' => (s', stream.drop len)
    else none
  else (s.receivePacket none stack .sent).map fun s' => (s', stream)

def timeup (s : TcSocket) (stack : ℕ → Octet) (sendto : SendResult) : TcSocket :=
  { s with timer_ := false, regard_ := s.regard_ + 1 }.postReceive stack sendto

/-! ## Indications -/

def sndIndication (s : TcSocket) (c l t : BitVec 32) (stack : ℕ → Octet) (sendto : SendResult) :
    TcSocket :=
  { s with
    seqno_ := 0
    sentcnt_ := 0
    recvdcnt_ := 0
    sentlen_ := 0
    recvdlen_ := 0
    regard_ := 0
    sendcnt_ := c
    sendlen_ := l
    sinterval_ := t }.sendPacket stack sendto

def recvIndication (s : TcSocket) (c l : BitVec 32) : TcSocket :=
  { s with
    effectreq_ := false
    sentcnt_ := 0
    recvdcnt_ := 0
    sentlen_ := 0
    recvdlen_ := 0
    recvcnt_ := c
    recvlen_ := l }

def sndrecvIndication (s : TcSocket) (c sl rl t : BitVec 32) (stack : ℕ → Octet)
    (sendto : SendResult) : TcSocket :=
  (s.recvIndication c rl).sndIndication c sl t stack sendto

def recvsndIndication (s : TcSocket) (c sl rl : BitVec 32) : TcSocket :=
  { s with sentcnt_ := 0, sentlen_ := 0, sendcnt_ := c, sendlen_ := sl }.recvIndication c rl

/-- What is left to receive is taken for a number of 32 bits. -/
def effectAction (s : TcSocket) (diff : BitVec 32) : TcSocket :=
  if diff ≠ 0 then s else s.report .recvEffect 0

def recvEffectIndication (s : TcSocket) : TcSocket :=
  { s with effectreq_ := true }.effectAction
    (((s.recvcnt_ * s.recvlen_).setWidth 64 - s.recvdlen_).setWidth 32)

theorem receive_ready {s s' : TcSocket} {stream rest : List Octet} {stack : ℕ → Octet}
    (reads : s.receive stream stack = some (s', rest)) : stream ≠ [] := by
  intro empty
  rw [receive, if_pos empty] at reads
  cases reads

theorem full_iff {s : TcSocket} {n : ℕ} (len : s.recvdlen_ = BitVec.ofNat 64 n)
    (small : n < 2 ^ 64) : s.full = true ↔ (s.recvcnt_ * s.recvlen_).toNat = n := by
  rw [full, len, decide_eq_true_iff]
  constructor
  · intro same
    have numbers := congrArg BitVec.toNat same
    rw [BitVec.toNat_setWidth, BitVec.toNat_ofNat, Nat.mod_eq_of_lt small] at numbers
    omega
  · intro same
    apply BitVec.eq_of_toNat_eq
    rw [BitVec.toNat_setWidth, BitVec.toNat_ofNat, same]

/-- A message is read. -/
theorem receive_eq {s : TcSocket} {stream : List Octet} {len : ℕ} (eq : s.recvlen_.toNat = len)
    (low : 1 ≤ len) (whole : len ≤ stream.length) (product : s.recvcnt_ * s.recvlen_ ≠ 0)
    (stack : ℕ → Octet) :
    s.receive stream stack = some
      (({ s with timer_ := false }.countReceived (stream.take len)).postReceive stack .sent,
        stream.drop len) := by
  have ready : stream ≠ [] := List.ne_nil_of_length_pos (Nat.le_trans low whole)
  have reads : s.reads = true := decide_eq_true product
  have reads' : ({ s with timer_ := false } : TcSocket).reads = true := decide_eq_true product
  subst eq
  simp only [receive, if_neg ready, if_pos reads, if_pos whole, receivePacket, if_pos reads',
    Option.map_some]

end TcSocket

end Tahi.Tg
