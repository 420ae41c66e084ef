import Mathlib
import Tahi.General.BitField
import Tahi.Tg.TcSocket
import Tahi.Tg.TeServer

/-! # Frames of requests

The handlers of the agents take what they need from the octets of a frame, and copy a command into
a buffer of their own.
-/

namespace Tahi.Tg

open BitField (Octet)

/-- `size` octets from `start` on. -/
structure Span where
  start : ℤ
  size : ℕ
deriving DecidableEq, Repr

/-- They are in a block of `n` octets. -/
def Span.Within (s : Span) (n : ℕ) : Prop :=
  s.size = 0 ∨ 0 ≤ s.start ∧ s.start + s.size ≤ n

instance Span.decidableWithin (s : Span) (n : ℕ) : Decidable (s.Within n) :=
  inferInstanceAs (Decidable (_ ∨ _))

structure TcpHead where
  request_ : BitVec 16
  length_ : BitVec 16
  reqno_ : BitVec 16
  receipt_ : BitVec 16
deriving DecidableEq, Repr

/-- A frame as it is received. The body has `length_` octets. Behind them `buffer_` holds what was
    there before. -/
structure Received where
  header : TcpHead
  buffer_ : ℕ → Octet

def Received.length (f : Received) : ℕ := f.header.length_.toNat

structure FrameResponse where
  request : BitVec 16
  reqno : BitVec 16
  receipt : BitVec 16
  result : BitVec 32
deriving DecidableEq, Repr

inductive ECode where
  | start
  | request (r : ERequest)
  | cmdExec
  | cmdCancel
deriving DecidableEq, Repr

def ECode.number : ECode → BitVec 16
  | start => 0x0100
  | request .open_ => 0x0001
  | request .listen => 0x0002
  | request .accepted => 0x0020
  | request .connect => 0x0003
  | request .snd => 0x0004
  | request .recv => 0x0005
  | request .recvEffect => 0x0050
  | request .sndRecv => 0x0006
  | request .recvSnd => 0x0007
  | request .connectSnd => 0x0008
  | request .connectSndRecv => 0x0009
  | request .listenRecv => 0x0010
  | request .listenRecvSnd => 0x0011
  | request .close => 0x0012
  | request .closed => 0x0015
  | cmdExec => eCmdExec_
  | cmdCancel => eCmdCancel_

def ECode.all : List ECode :=
  [.start, .request .open_, .request .close, .request .closed, .request .listen,
    .request .connect, .request .accepted, .request .snd, .request .recv, .request .recvEffect,
    .request .sndRecv, .request .recvSnd, .request .connectSnd, .request .connectSndRecv,
    .request .listenRecv, .request .listenRecvSnd, .cmdExec, .cmdCancel]

/-- The case of a request. -/
def ECode.of (r : BitVec 16) : Option ECode := ECode.all.find? fun c => c.number = r

theorem ECode.of_number (c : ECode) : ECode.of c.number = some c := by
  cases c with
  | request r => cases r <;> decide
  | start | cmdExec | cmdCancel => decide

inductive EConnKind where
  | v4St
  | v4Dg
  | v6St
  | v6Dg
deriving DecidableEq, Repr

namespace EConnKind

def of (k : BitVec 16) : Option EConnKind :=
  if k = 0x0001 then some v4St
  else if k = 0x0002 then some v4Dg
  else if k = 0x0003 then some v6St
  else if k = 0x0004 then some v6Dg
  else none

/-- The size of a `sockaddr_in` or a `sockaddr_in6`. -/
def sockaddr : EConnKind → ℕ
  | v4St | v4Dg => 16
  | v6St | v6Dg => 28

def stream : EConnKind → Bool
  | v4St | v6St => true
  | v4Dg | v6Dg => false

end EConnKind

/-- The octets of a frame from `pos_` on are still to be decoded. -/
structure TgFrame where
  length_ : BitVec 32
  pos_ : ℕ
  buffer_ : ℕ → Octet
  decoded : List Span

namespace TgFrame

def new (l : BitVec 32) (s : ℕ → Octet) : TgFrame := ⟨l, 0, s, []⟩

/-- Nothing is compared with the length. -/
def decode (f : TgFrame) (sz : ℕ) : TgFrame :=
  { f with pos_ := f.pos_ + sz, decoded := f.decoded ++ [⟨f.pos_, sz⟩] }

def int16 (f : TgFrame) : BitVec 16 × TgFrame :=
  (f.buffer_ f.pos_ ++ f.buffer_ (f.pos_ + 1), f.decode 2)

/-- The offset of a pointer into the frame. The program is aborted, `none`, when it is behind the
    end. -/
def buffer (f : TgFrame) (n : BitVec 32) : Option ℕ :=
  if f.length_ < n then none else some n.toNat

end TgFrame

/-- What comes of the calls that a handler makes: whether there is an agent for the receipt, whether
    binding and listening succeed, the error, the descriptor of the new socket, and what is
    answered by others while they are told to do something. -/
structure HandlerCalls where
  found : Bool
  bound : Bool
  listens : Bool
  errno : BitVec 32
  fileDesc : BitVec 16
  reports : List FrameResponse

/-- The octets of `buffer_` that a handler takes, the octets of its own buffer that it writes, and
    what is answered. -/
structure Handling where
  decoded : List Span
  written : List Span
  answers : List FrameResponse

namespace Received

/-! ## The traffic agent -/

def response (n rn rc : BitVec 16) (v : BitVec 32) : FrameResponse := ⟨n ||| eResponse_, rn, rc, v⟩

def myResponse (f : Received) (v : BitVec 32) : FrameResponse :=
  response f.header.request_ f.header.reqno_ f.header.receipt_ v

/-- The octets that give the kind of a connection, with what is decoded after them. The kind itself
    is decoded again. -/
def connKind (f : Received) : BitVec 16 × TgFrame :=
  let (k, frame) := TgFrame.int16
    { TgFrame.new (f.header.length_.setWidth 32) f.buffer_ with decoded := [⟨0, 2⟩] }
  (k, frame.int16.2)

/-- The octets decoded, and the descriptor of the socket. -/
def makeSocket (f : Received) (calls : HandlerCalls) : List Span × Option (BitVec 16) :=
  let (k, frame) := f.connKind
  match EConnKind.of k with
  | some kind =>
      (((frame.decode kind.sockaddr).decode kind.sockaddr).decoded,
        if calls.bound then some calls.fileDesc else none)
  | none => (frame.decoded, none)

inductive Accepter where
  | none
  | made (receipt : BitVec 16)
  | crash
deriving DecidableEq, Repr

/-- A listener of a kind that is not known is not made, and bound all the same. -/
def makeAccepter (f : Received) (calls : HandlerCalls) : List Span × Accepter :=
  let (k, frame) := f.connKind
  match EConnKind.of k with
  | some kind =>
      ((frame.decode kind.sockaddr).decoded,
        if !calls.bound then .none
        else if kind.stream && !calls.listens then .none
        else .made calls.fileDesc)
  | none => (frame.decoded, .crash)

/-- Where the last octets of the frame are taken for a `trafficInfo`, `none` when the program is
    aborted. The length is a signed number here. -/
def getTrafficInfo (f : Received) : Option Span :=
  let len := f.header.length_.signExtend 32
  let ilen : BitVec 32 := 20
  ((TgFrame.new len f.buffer_).buffer (len - ilen)).map fun n : ℕ => ⟨n, 20⟩

/-- How many octets `strncpy` reads. -/
def strncpyReads (src : ℕ → Octet) (n : ℕ) : ℕ :=
  min n (((List.range n).takeWhile fun i => src i ≠ 0).length + 1)

/-- The body is copied, and ended. The length is a signed number here. -/
def copyBody (f : Received) : Handling :=
  let len := f.header.length_
  let n := (len.signExtend 64).toNat
  ⟨[⟨0, strncpyReads f.buffer_ n⟩], [⟨0, n⟩, ⟨len.toInt, 1⟩], []⟩

def startRequest (f : Received) : Handling :=
  { f.copyBody with answers := [response ECode.start.number 0 0 0] }

def openRequest (f : Received) (calls : HandlerCalls) : Handling :=
  let (decoded, sockets) := f.makeSocket calls
  ⟨decoded, [], [match sockets with
    | none => f.myResponse calls.errno
    | some receipt => response (ECode.request .open_).number f.header.reqno_ receipt 0]⟩

/-- What the requests that make a listener answer. -/
def accepted (f : Received) (calls : HandlerCalls) (r : ERequest) : Accepter → List FrameResponse
  | .none => [f.myResponse calls.errno]
  | .made receipt => [response (ECode.request r).number f.header.reqno_ receipt 0]
  | .crash => []

def listenRequest (f : Received) (calls : HandlerCalls) : Handling :=
  let (decoded, accepter) := f.makeAccepter calls
  ⟨decoded, [], f.accepted calls .listen accepter⟩

/-- `lietenrecvRequest` and `listenrecvsndRequest`. -/
def listenTrafficRequest (f : Received) (calls : HandlerCalls) (r : ERequest) : Handling :=
  match f.getTrafficInfo with
  | none => ⟨[], [], []⟩
  | some info =>
      let (decoded, accepter) := f.makeAccepter calls
      ⟨info :: decoded, [], f.accepted calls r accepter⟩

def scount : Span := ⟨0, 4⟩

def slen : Span := ⟨4, 4⟩

def rcount : Span := ⟨8, 4⟩

def rlen : Span := ⟨12, 4⟩

def sinterval : Span := ⟨16, 4⟩

/-- A request for an agent, which takes `decoded` of the body as a `trafficInfo`. -/
def agentRequest (f : Received) (calls : HandlerCalls) (decoded : List Span) (absent : BitVec 32)
    (answers : List FrameResponse) : Handling :=
  if calls.found then ⟨decoded, [], answers⟩ else ⟨[], [], [f.myResponse absent]⟩

def connectRequest (f : Received) (calls : HandlerCalls) : Handling :=
  f.agentRequest calls [] calls.errno calls.reports

def sndRequest (f : Received) (calls : HandlerCalls) : Handling :=
  f.agentRequest calls [scount, slen, sinterval] (-1) calls.reports

def recvRequest (f : Received) (calls : HandlerCalls) : Handling :=
  f.agentRequest calls [rcount, rlen] (-1)
    [response (ECode.request .recv).number f.header.reqno_ f.header.receipt_ 0]

def recvEffectRequest (f : Received) (calls : HandlerCalls) : Handling :=
  f.agentRequest calls [] (-1) calls.reports

def sndrecvRequest (f : Received) (calls : HandlerCalls) : Handling :=
  f.agentRequest calls [scount, slen, rlen, sinterval] (-1) calls.reports

def recvsndRequest (f : Received) (calls : HandlerCalls) : Handling :=
  f.agentRequest calls [rcount, slen, rlen] (-1)
    [response (ECode.request .recvSnd).number f.header.reqno_ f.header.receipt_ 0]

/-- The agent is connected first, which is never refused. -/
def connectsndRequest (f : Received) (calls : HandlerCalls) : Handling :=
  f.agentRequest calls [scount, slen, sinterval] (-1) calls.reports

def connectsndrecvRequest (f : Received) (calls : HandlerCalls) : Handling :=
  f.agentRequest calls [scount, slen, rlen, sinterval] (-1) calls.reports

def closeRequest (f : Received) (calls : HandlerCalls) : Handling :=
  f.agentRequest calls [] (-1) [f.myResponse 0]

/-- The command goes on to the command server. -/
def cmdexecRequest (f : Received) : Handling := f.copyBody

/-! ## The command server -/

/-- `expandRun` answers. -/
def cmdExecRequest (f : Received) (calls : HandlerCalls) : Handling :=
  { f.copyBody with answers := calls.reports }

end Received

inductive Agent where
  | tg
  | te
deriving DecidableEq, Repr

namespace Agent

def analizeRequest : Agent → ECode → Received → HandlerCalls → Handling
  | tg, .start, f, _ => f.startRequest
  | tg, .request .open_, f, calls => f.openRequest calls
  | tg, .request .close, f, calls => f.closeRequest calls
  | tg, .request .closed, _, _ => ⟨[], [], []⟩
  | tg, .request .listen, f, calls => f.listenRequest calls
  | tg, .request .connect, f, calls => f.connectRequest calls
  | tg, .request .accepted, _, _ => ⟨[], [], []⟩
  | tg, .request .snd, f, calls => f.sndRequest calls
  | tg, .request .recv, f, calls => f.recvRequest calls
  | tg, .request .recvEffect, f, calls => f.recvEffectRequest calls
  | tg, .request .sndRecv, f, calls => f.sndrecvRequest calls
  | tg, .request .recvSnd, f, calls => f.recvsndRequest calls
  | tg, .request .connectSnd, f, calls => f.connectsndRequest calls
  | tg, .request .connectSndRecv, f, calls => f.connectsndrecvRequest calls
  | tg, .request .listenRecv, f, calls => f.listenTrafficRequest calls .listenRecv
  | tg, .request .listenRecvSnd, f, calls => f.listenTrafficRequest calls .listenRecvSnd
  | tg, .cmdExec, f, _ => f.cmdexecRequest
  | tg, .cmdCancel, _, _ => ⟨[], [], []⟩
  | te, .cmdExec, f, calls => f.cmdExecRequest calls
  | te, .cmdCancel, _, calls => ⟨[], [], calls.reports⟩
  | te, _, _, _ => ⟨[], [], []⟩

/-- With the response bit a frame is a confirm, which neither agent does anything with. -/
def analizePacket (a : Agent) (f : Received) (calls : HandlerCalls) : Handling :=
  if f.header.request_ &&& eResponse_ ≠ 0 then ⟨[], [], []⟩
  else
    match ECode.of f.header.request_ with
    | some c => a.analizeRequest c f calls
    | none => ⟨[], [], []⟩

end Agent

/-! ## What a frame is to have -/

def CONN_KIND_LEN : ℕ := 4

/-- The size of an address of the kind that the body names. -/
def Received.sockaddr (f : Received) : ℕ :=
  ((EConnKind.of f.connKind.1).map EConnKind.sockaddr).getD 0

/-- The request of a frame. -/
def Received.code (f : Received) : Option ECode :=
  if f.header.request_ &&& eResponse_ ≠ 0 then none else ECode.of f.header.request_

namespace Agent

/-- The length of what is sent with a request that has addresses of `n` octets. -/
def need (n : ℕ) : Agent → ECode → ℕ
  | tg, .request .open_ => CONN_KIND_LEN + n + n
  | tg, .request .listen => CONN_KIND_LEN + n
  | tg, .request .snd | tg, .request .recv | tg, .request .sndRecv | tg, .request .recvSnd
  | tg, .request .connectSnd | tg, .request .connectSndRecv => 20
  | tg, .request .listenRecv | tg, .request .listenRecvSnd => CONN_KIND_LEN + n + 20
  | _, _ => 0

/-- Whether the body is copied to a buffer of the handler. -/
def copies : Agent → ECode → Bool
  | tg, .start | tg, .cmdExec | te, .cmdExec => true
  | _, _ => false

end Agent

/-- A frame is taken as it should be, when its request needs `need` octets. `copies` says that the
    body and a zero are to go into a buffer of `BUFSIZ` octets. -/
structure Handling.Sound (h : Handling) (BUFSIZ need : ℕ) (copies : Bool) (f : Received) :
    Prop where
  decoded : ∀ s ∈ h.decoded, s.Within f.length
  written : ∀ s ∈ h.written, s.Within BUFSIZ
  refused : f.length < need ∨ copies = true ∧ BUFSIZ ≤ f.length → ∃ r ∈ h.answers, r.result ≠ 0

/-- Whatever the frame asks for. -/
def Agent.Takes (BUFSIZ : ℕ) (a : Agent) (f : Received) (calls : HandlerCalls) : Prop :=
  match f.code with
  | some c =>
      (a.analizePacket f calls).Sound BUFSIZ (a.need f.sockaddr c) (a.copies c) f
  | none => (a.analizePacket f calls).Sound BUFSIZ 0 false f

/-- Making a listener fails, for a kind that is known. -/
def Received.Refuses (f : Received) (calls : HandlerCalls) : Prop :=
  ∃ kind, EConnKind.of f.connKind.1 = some kind ∧
    (calls.bound = false ∨ kind.stream = true ∧ calls.listens = false) ∧ calls.errno ≠ 0

/-- The frame is long enough for its request and for a signed length, and its text is short enough
    for the buffer. -/
def Agent.Fits (BUFSIZ : ℕ) (f : Received) (calls : HandlerCalls) : Agent → ECode → Prop
  | .tg, .start | .tg, .cmdExec | .te, .cmdExec => f.length < 2 ^ 15 ∧ f.length < BUFSIZ
  | .tg, .request .open_ => Agent.tg.need f.sockaddr (.request .open_) ≤ f.length
  | .tg, .request .listen => Agent.tg.need f.sockaddr (.request .listen) ≤ f.length
  | .tg, .request .snd | .tg, .request .recv | .tg, .request .sndRecv | .tg, .request .recvSnd
  | .tg, .request .connectSnd | .tg, .request .connectSndRecv =>
      calls.found = false ∨ 20 ≤ f.length
  | .tg, .request .listenRecv | .tg, .request .listenRecvSnd =>
      f.length < 2 ^ 15 ∧ (CONN_KIND_LEN + f.sockaddr + 20 ≤ f.length ∨
        CONN_KIND_LEN + f.sockaddr ≤ f.length ∧ 20 ≤ f.length ∧ f.Refuses calls)
  | _, _ => True

/-! ## Octets inside of a block -/

theorem within_nat {a n m : ℕ} (some : 0 < n) : (⟨a, n⟩ : Span).Within m ↔ a + n ≤ m := by
  simp only [Span.Within]
  omega

theorem toNat_signExtend (x : BitVec 16) {v : ℕ} (wide : 16 ≤ v) :
    (x.signExtend v).toNat = x.toNat + if 2 ^ 15 ≤ x.toNat then 2 ^ v - 2 ^ 16 else 0 := by
  have small : x.toNat < 2 ^ v := Nat.lt_of_lt_of_le x.isLt (Nat.pow_le_pow_right (by decide) wide)
  rw [BitVec.toNat_signExtend, BitVec.toNat_setWidth, Nat.mod_eq_of_lt small,
    BitVec.msb_eq_decide]
  simp only [decide_eq_true_eq]

theorem toInt_nonneg (x : BitVec 16) : 0 ≤ x.toInt ↔ x.toNat < 2 ^ 15 := by
  have bound := x.isLt
  rw [BitVec.toInt_eq_toNat_cond]
  split_ifs with low
  · omega
  · omega

theorem toInt_low {x : BitVec 16} (low : x.toNat < 2 ^ 15) : x.toInt = x.toNat := by
  rw [BitVec.toInt_eq_toNat_cond, if_pos (by omega)]

theorem unwritten_sound {h : Handling} {BUFSIZ need : ℕ} {f : Received}
    (written : h.written = []) : h.Sound BUFSIZ need false f ↔
      (∀ s ∈ h.decoded, s.Within f.length) ∧
        (f.length < need → ∃ r ∈ h.answers, r.result ≠ 0) := by
  constructor
  · intro sound
    refine ⟨sound.decoded, ?_⟩
    intro short
    exact sound.refused (.inl short)
  · intro both
    refine ⟨both.1, ?_, ?_⟩
    · rw [written]
      exact List.forall_mem_nil _
    · intro unfit
      rcases unfit with short | long
      · exact both.2 short
      · cases long.1

/-- A body that is not looked at. -/
theorem untouched_sound {h : Handling} {BUFSIZ : ℕ} {f : Received} (decoded : h.decoded = [])
    (written : h.written = []) : h.Sound BUFSIZ 0 false f := by
  rw [unwritten_sound written, decoded]
  refine ⟨List.forall_mem_nil _, ?_⟩
  intro short
  exact absurd short (Nat.not_lt_zero _)

theorem TgFrame.decode_within {n sz : ℕ} (frame : TgFrame) (some : 0 < sz) :
    (∀ s ∈ (frame.decode sz).decoded, s.Within n) ↔
      (∀ s ∈ frame.decoded, s.Within n) ∧ frame.pos_ + sz ≤ n := by
  rw [TgFrame.decode, List.forall_mem_append, List.forall_mem_singleton, within_nat some]

theorem EConnKind.sockaddr_pos (kind : EConnKind) : 0 < kind.sockaddr := by
  cases kind <;> decide

namespace Received

variable (f : Received) (calls : HandlerCalls)

theorem connKind_within {n : ℕ} :
    (∀ s ∈ f.connKind.2.decoded, s.Within n) ↔ CONN_KIND_LEN ≤ n := by
  have spans : f.connKind.2.decoded = [⟨0, 2⟩, ⟨0, 2⟩, ⟨2, 2⟩] := rfl
  rw [spans]
  simp only [List.forall_mem_cons, Span.Within, CONN_KIND_LEN]
  constructor
  · intro all
    omega
  · intro whole
    refine ⟨by omega, by omega, by omega, ?_⟩
    intro s none
    cases none

theorem connKind_pos : f.connKind.2.pos_ = CONN_KIND_LEN := rfl

theorem makeSocket_within : (∀ s ∈ (f.makeSocket calls).1, s.Within f.length) ↔
    CONN_KIND_LEN + f.sockaddr + f.sockaddr ≤ f.length := by
  rcases known : EConnKind.of f.connKind.1 with _ | kind
  · simp only [makeSocket, Received.sockaddr, known, Option.map_none, Option.getD_none]
    exact f.connKind_within
  · simp only [makeSocket, Received.sockaddr, known, Option.map_some, Option.getD_some]
    have at_second : (f.connKind.2.decode kind.sockaddr).pos_ = CONN_KIND_LEN + kind.sockaddr := rfl
    rw [TgFrame.decode_within _ kind.sockaddr_pos, TgFrame.decode_within _ kind.sockaddr_pos,
      connKind_within, connKind_pos, at_second]
    omega

theorem makeAccepter_within : (∀ s ∈ (f.makeAccepter calls).1, s.Within f.length) ↔
    CONN_KIND_LEN + f.sockaddr ≤ f.length := by
  rcases known : EConnKind.of f.connKind.1 with _ | kind
  · simp only [makeAccepter, Received.sockaddr, known, Option.map_none, Option.getD_none]
    exact f.connKind_within
  · simp only [makeAccepter, Received.sockaddr, known, Option.map_some, Option.getD_some]
    rw [TgFrame.decode_within _ kind.sockaddr_pos, connKind_within, connKind_pos]
    omega

/-- A listener that fails to be made is answered with the error. -/
theorem accepted_refuses (r : ERequest) :
    (∃ a ∈ f.accepted calls r (f.makeAccepter calls).2, a.result ≠ 0) ↔ f.Refuses calls := by
  rcases known : EConnKind.of f.connKind.1 with _ | kind
  · simp only [makeAccepter, known, accepted, Refuses, List.not_mem_nil, false_and, exists_false,
      reduceCtorEq]
  · have same : f.Refuses calls ↔
        (calls.bound = false ∨ kind.stream = true ∧ calls.listens = false) ∧ calls.errno ≠ 0 := by
      rw [Refuses, known]
      constructor
      · rintro ⟨kind', eq, fails⟩
        cases eq
        exact fails
      · intro fails
        exact ⟨kind, rfl, fails⟩
    rw [same]
    simp only [makeAccepter, known]
    cases calls.bound with
    | false => simp [accepted, myResponse, response]
    | true =>
      cases kind.stream with
      | false => simp [accepted, response]
      | true =>
        cases calls.listens with
        | false => simp [accepted, myResponse, response]
        | true => simp [accepted, response]

/-- The octets taken for a `trafficInfo` are the last ones, of a length that is not negative. -/
theorem getTrafficInfo_eq : f.getTrafficInfo =
    if f.length < 20 then none
    else some ⟨(f.length - 20 + if 2 ^ 15 ≤ f.length then 2 ^ 32 - 2 ^ 16 else 0 : ℕ), 20⟩ := by
  have bound : f.length < 2 ^ 16 := f.header.length_.isLt
  have len := toNat_signExtend f.header.length_ (v := 32) (by decide)
  rw [← Received.length] at len
  have back : (f.header.length_.signExtend 32 - 20).toNat =
      (2 ^ 32 - 20 + (f.header.length_.signExtend 32).toNat) % 2 ^ 32 := BitVec.toNat_sub _ _
  rw [getTrafficInfo, TgFrame.buffer, TgFrame.new]
  simp only [BitVec.lt_def, back]
  generalize (f.header.length_.signExtend 32).toNat = signed at len
  by_cases short : f.length < 20
  · have positive : signed = f.length := by
      rw [len, if_neg (by omega), Nat.add_zero]
    rw [if_pos short, if_pos (by omega)]
    rfl
  · have place : (2 ^ 32 - 20 + signed) % 2 ^ 32 = signed - 20 := by
      split_ifs at len
      · omega
      · omega
    have low : 20 ≤ signed := by omega
    rw [if_neg short, place, if_neg (by omega), len, Option.map_some, Nat.sub_add_comm (by omega)]

/-! ## Requests -/

variable {f calls}

theorem strncpyReads_le (src : ℕ → Octet) (n : ℕ) : strncpyReads src n ≤ n := Nat.min_le_left _ _

/-- A text with a zero behind it. -/
theorem copyBody_sound {BUFSIZ : ℕ} (answers : List FrameResponse) :
    ({ f.copyBody with answers := answers } : Handling).Sound BUFSIZ 0 true f ↔
      f.length < 2 ^ 15 ∧ f.length < BUFSIZ := by
  constructor
  · intro sound
    have ended := sound.written ⟨f.header.length_.toInt, 1⟩
      (List.mem_cons_of_mem _ List.mem_cons_self)
    have inside := ended.resolve_left Nat.one_ne_zero
    have low : f.length < 2 ^ 15 := (toInt_nonneg f.header.length_).mp inside.1
    have room : f.header.length_.toInt + 1 ≤ BUFSIZ := inside.2
    rw [toInt_low low, ← Received.length] at room
    exact ⟨low, by omega⟩
  · intro fits
    have size : (f.header.length_.signExtend 64).toNat = f.length := by
      have same := toNat_signExtend f.header.length_ (v := 64) (by decide)
      rw [← Received.length, if_neg (Nat.not_le_of_lt fits.1)] at same
      exact same
    have number : f.header.length_.toInt = f.length := toInt_low fits.1
    refine ⟨?_, ?_, ?_⟩
    · have reads := strncpyReads_le f.buffer_ f.length
      simp only [copyBody, size, List.forall_mem_singleton, Span.Within]
      omega
    · simp only [copyBody, size, number, List.forall_mem_cons, Span.Within]
      refine ⟨by omega, by omega, List.forall_mem_nil _⟩
    · intro unfit
      omega

theorem agentRequest_sound {BUFSIZ need : ℕ} {decoded : List Span} {absent : BitVec 32}
    {answers : List FrameResponse} (refused : absent ≠ 0)
    (reaches : (∀ s ∈ decoded, s.Within f.length) ∧
      (f.length < need → ∃ a ∈ answers, a.result ≠ 0) ↔ need ≤ f.length) :
    (f.agentRequest calls decoded absent answers).Sound BUFSIZ need false f ↔
      calls.found = false ∨ need ≤ f.length := by
  cases found : calls.found with
  | false =>
    simp only [agentRequest, found, Bool.false_eq_true, if_false, true_or, iff_true]
    rw [unwritten_sound rfl]
    refine ⟨List.forall_mem_nil _, ?_⟩
    intro _
    exact ⟨_, List.mem_cons_self, refused⟩
  | true =>
    simp only [agentRequest, found, if_true, Bool.true_eq_false, false_or]
    rw [unwritten_sound rfl]
    exact reaches

theorem agentRequest_untouched {BUFSIZ : ℕ} (absent : BitVec 32) (answers : List FrameResponse) :
    (f.agentRequest calls [] absent answers).Sound BUFSIZ 0 false f := by
  rw [agentRequest]
  split_ifs
  · exact untouched_sound rfl rfl
  · exact untouched_sound rfl rfl

/-- The interval is the last number of a `trafficInfo`. -/
theorem sinterval_reaches {decoded : List Span} {answers : List FrameResponse}
    (inside : ∀ s ∈ decoded, s.Within 20) (last : sinterval ∈ decoded) :
    (∀ s ∈ decoded, s.Within f.length) ∧ (f.length < 20 → ∃ a ∈ answers, a.result ≠ 0) ↔
      20 ≤ f.length := by
  constructor
  · intro both
    have reached : (16 : ℤ) + 4 ≤ f.length := ((both.1 _ last).resolve_left (by decide)).2
    omega
  · intro whole
    refine ⟨?_, ?_⟩
    · intro s mem
      have within := inside s mem
      rw [Span.Within] at within ⊢
      omega
    · intro short
      omega

/-- A request that is always answered with success. -/
theorem success_reaches {decoded : List Span} {r : FrameResponse}
    (inside : ∀ s ∈ decoded, s.Within 20) (success : r.result = 0) :
    (∀ s ∈ decoded, s.Within f.length) ∧ (f.length < 20 → ∃ a ∈ [r], a.result ≠ 0) ↔
      20 ≤ f.length := by
  constructor
  · intro both
    by_contra short
    obtain ⟨a, mem, error⟩ := both.2 (by omega)
    rw [List.mem_singleton.mp mem] at error
    exact error success
  · intro whole
    refine ⟨?_, ?_⟩
    · intro s mem
      have within := inside s mem
      rw [Span.Within] at within ⊢
      omega
    · intro short
      omega

theorem openRequest_sound {BUFSIZ : ℕ} :
    (f.openRequest calls).Sound BUFSIZ (CONN_KIND_LEN + f.sockaddr + f.sockaddr) false f ↔
      CONN_KIND_LEN + f.sockaddr + f.sockaddr ≤ f.length := by
  rw [unwritten_sound rfl]
  have within := f.makeSocket_within calls
  constructor
  · intro both
    exact within.mp both.1
  · intro whole
    refine ⟨within.mpr whole, ?_⟩
    intro short
    omega

theorem listenRequest_sound {BUFSIZ : ℕ} :
    (f.listenRequest calls).Sound BUFSIZ (CONN_KIND_LEN + f.sockaddr) false f ↔
      CONN_KIND_LEN + f.sockaddr ≤ f.length := by
  rw [unwritten_sound rfl]
  have within := f.makeAccepter_within calls
  constructor
  · intro both
    exact within.mp both.1
  · intro whole
    refine ⟨within.mpr whole, ?_⟩
    intro short
    omega

theorem listenTrafficRequest_sound {BUFSIZ : ℕ} (r : ERequest) :
    (f.listenTrafficRequest calls r).Sound BUFSIZ (CONN_KIND_LEN + f.sockaddr + 20) false f ↔
      f.length < 2 ^ 15 ∧ (CONN_KIND_LEN + f.sockaddr + 20 ≤ f.length ∨
        CONN_KIND_LEN + f.sockaddr ≤ f.length ∧ 20 ≤ f.length ∧ f.Refuses calls) := by
  have within := f.makeAccepter_within calls
  have refuses := f.accepted_refuses calls r
  by_cases short : f.length < 20
  · have aborts : f.listenTrafficRequest calls r = ⟨[], [], []⟩ := by
      rw [listenTrafficRequest, getTrafficInfo_eq, if_pos short]
    rw [aborts, unwritten_sound rfl]
    constructor
    · intro both
      obtain ⟨a, mem, _⟩ := both.2 (by omega)
      cases mem
    · intro fits
      omega
  · have takes : f.listenTrafficRequest calls r =
        ⟨⟨(f.length - 20 + if 2 ^ 15 ≤ f.length then 2 ^ 32 - 2 ^ 16 else 0 : ℕ), 20⟩ ::
            (f.makeAccepter calls).1, [],
          f.accepted calls r (f.makeAccepter calls).2⟩ := by
      rw [listenTrafficRequest, getTrafficInfo_eq, if_neg short]
    rw [takes, unwritten_sound rfl, List.forall_mem_cons, within_nat (by decide), within, refuses]
    have bound : f.length < 2 ^ 16 := f.header.length_.isLt
    split_ifs with negative
    · constructor
      · intro both
        omega
      · intro fits
        omega
    · constructor
      · intro both
        refine ⟨by omega, ?_⟩
        by_cases whole : CONN_KIND_LEN + f.sockaddr + 20 ≤ f.length
        · exact .inl whole
        · exact .inr ⟨both.1.2, by omega, both.2 (by omega)⟩
      · intro fits
        rcases fits.2 with whole | fails
        · exact ⟨⟨by omega, by omega⟩, by omega⟩
        · refine ⟨⟨by omega, fails.1⟩, ?_⟩
          intro _
          exact fails.2.2

end Received

namespace Agent

variable {BUFSIZ : ℕ} {f : Received} {calls : HandlerCalls}

theorem analizePacket_some {c : ECode} (asks : f.code = some c) (a : Agent) :
    a.analizePacket f calls = a.analizeRequest c f calls := by
  rw [Received.code] at asks
  split_ifs at asks with confirm
  rw [analizePacket, if_neg confirm, asks]

theorem analizePacket_none (asks : f.code = none) (a : Agent) :
    a.analizePacket f calls = ⟨[], [], []⟩ := by
  rw [Received.code] at asks
  rw [analizePacket]
  split_ifs at asks ⊢ with confirm
  · rfl
  · rw [asks]

open Received

theorem analizeRequest_sound (a : Agent) (c : ECode) :
    (a.analizeRequest c f calls).Sound BUFSIZ (a.need f.sockaddr c) (a.copies c) f ↔
      Fits BUFSIZ f calls a c := by
  have interval {decoded : List Span} (inside : ∀ s ∈ decoded, s.Within 20)
      (last : sinterval ∈ decoded) :
      (f.agentRequest calls decoded (-1) calls.reports).Sound BUFSIZ 20 false f ↔
        calls.found = false ∨ 20 ≤ f.length :=
    agentRequest_sound (by decide) (sinterval_reaches inside last)
  have success {decoded : List Span} (r : ECode) (inside : ∀ s ∈ decoded, s.Within 20) :
      (f.agentRequest calls decoded (-1)
          [response r.number f.header.reqno_ f.header.receipt_ 0]).Sound BUFSIZ 20 false f ↔
        calls.found = false ∨ 20 ≤ f.length :=
    agentRequest_sound (by decide) (success_reaches inside rfl)
  cases a with
  | te =>
    cases c with
    | start => exact iff_of_true (untouched_sound rfl rfl) trivial
    | request r => exact iff_of_true (untouched_sound rfl rfl) trivial
    | cmdExec => exact copyBody_sound calls.reports
    | cmdCancel => exact iff_of_true (untouched_sound rfl rfl) trivial
  | tg =>
    cases c with
    | start => exact copyBody_sound _
    | cmdExec => exact copyBody_sound []
    | cmdCancel => exact iff_of_true (untouched_sound rfl rfl) trivial
    | request r =>
      cases r with
      | open_ => exact openRequest_sound
      | listen => exact listenRequest_sound
      | accepted => exact iff_of_true (untouched_sound rfl rfl) trivial
      | connect => exact iff_of_true (agentRequest_untouched _ _) trivial
      | snd => exact interval (by decide) (by decide)
      | recv => exact success _ (by decide)
      | recvEffect => exact iff_of_true (agentRequest_untouched _ _) trivial
      | sndRecv => exact interval (by decide) (by decide)
      | recvSnd => exact success _ (by decide)
      | connectSnd => exact interval (by decide) (by decide)
      | connectSndRecv => exact interval (by decide) (by decide)
      | listenRecv => exact listenTrafficRequest_sound .listenRecv
      | listenRecvSnd => exact listenTrafficRequest_sound .listenRecvSnd
      | close => exact iff_of_true (agentRequest_untouched _ _) trivial
      | closed => exact iff_of_true (untouched_sound rfl rfl) trivial

/-- No length is checked: a frame is taken as it should be just when it fits. -/
theorem takes_iff (BUFSIZ : ℕ) (a : Agent) (f : Received) (calls : HandlerCalls) :
    a.Takes BUFSIZ f calls ↔ ∀ c, f.code = some c → Fits BUFSIZ f calls a c := by
  rcases asks : f.code with _ | c
  · simp only [Takes, asks, analizePacket_none asks]
    refine iff_of_true (untouched_sound rfl rfl) ?_
    intro c some
    cases some
  · simp only [Takes, asks, analizePacket_some asks]
    rw [analizeRequest_sound]
    constructor
    · intro fits c' same
      cases same
      exact fits
    · intro fits
      exact fits c rfl

/-- A request to open a socket, whose addresses are missing. -/
def kindOnly : Received :=
  ⟨⟨0x0001, 4, 1, 0⟩, fun i => if i = 1 then 1 else 0⟩

theorem not_takes : ¬ ∀ (BUFSIZ : ℕ) (a : Agent) (f : Received) (calls : HandlerCalls),
    a.Takes BUFSIZ f calls := by
  intro all
  have taken : (tg.analizePacket kindOnly ⟨false, false, false, 0, 0, []⟩).Sound 8192
      (need 16 tg (.request .open_)) false kindOnly :=
    all 8192 tg kindOnly ⟨false, false, false, 0, 0, []⟩
  have address : (⟨4, 16⟩ : Span).Within 4 := taken.decoded _ (by decide)
  exact absurd (address.resolve_left (by decide)).2 (by decide)

end Agent

end Tahi.Tg
