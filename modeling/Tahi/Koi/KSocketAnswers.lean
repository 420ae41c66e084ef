import Tahi.Koi.SockinfoAckRuns

/-! # The ids in the acks

The ack to a connect or a wait request has the id of a socket: of a new one, or of a UDP socket that
is used again. It is 0 where nothing has been opened, which is no failure when the protocol is not
known, or when a socket listens at the port already. The address is not compared for that.
-/

namespace Tahi.Koi

/-- What else the calls come to that are made for a request. -/
structure AnswerCalls extends SocketMade where
  kIFGetDevicenameByLinkname : Bool
  /-- None fails. `kSocketOpen` goes on with addresses that are freed when one does. -/
  bind : Bool
  /-- The destination of a raw socket is found, or not looked for. The result is read if not. -/
  getaddrinfo : Bool
  /-- What is done for multicast and broadcast is defined. A host name is read that is freed, and
      there are messages without their arguments. -/
  multicast : Bool
  kSocketSend : Int32
deriving DecidableEq, Repr

structure ConnecRequest extends ConnecReq where
  datalen : Int32
deriving DecidableEq, Repr

structure WaitRequest extends WaitReq where
  s_port : UInt16
  s_addr : In6Addr
deriving DecidableEq, Repr

/-- What the acks to both have. -/
structure SocketAck where
  result : Int16
  socketid : Int16
deriving DecidableEq, Repr

/-- The port and the family that are read behind a pointer to a `ListenportInfo`. The family of a
    UDP socket is the first octet of its destination. -/
def SocketRecord.readListenport (si : SocketRecord) : Option (UInt16 × UInt8) :=
  match si.si_uniq_info with
  | .listenTcp info => some (si.li_s_port, info.li_family)
  | .listenUdp info => some (info.di_s_port, ⟨info.di_d_addr.extractLsb' 120 8⟩)
  | _ => none

/-- The address is passed, but not looked at. -/
def SocketRecords.IsExistSameSocket (type : SiType) (addressFamily : UInt8) (s_port : UInt16)
    (t : SocketRecords) : Bool :=
  (t.sockets.take SOCKET_MAXNUM).any fun si =>
    si.si_type == type && si.alive &&
      si.readListenport == some (s_port, familyOf addressFamily)

def WaitRequest.same (w : WaitRequest) (t : SocketRecords) : Bool :=
  match w.newwait_type with
  | none => false
  | some type => t.IsExistSameSocket type w.ipver w.s_port

namespace AnswerCalls

variable (c : AnswerCalls)

def opens (si_type : SiType) : Bool :=
  c.sockfd.isSome && c.malloc && (si_type == .SI_TYPE_LISTEN_TCP || c.kParserGet) &&
    (si_type == .SI_TYPE_RAW || c.getsockname)

/-- The `socketid` that comes with `RETURN_OK`, or `none` for `RETURN_NG`. -/
def newId (si : SocketRecord) (t : SocketRecords) : Option Int16 :=
  if c.opens si.si_type then some (t.g_socket_socketid + 1) else none

/-- What is returned, and the table. It is `none` where the behaviour is not defined. Under IPv6,
    the name of a device that is not known is measured for the message. -/
def kSocketOpen (r : ConnecRequest) (si : SocketRecord) (t : SocketRecords) :
    Option (Option Int16 × SocketRecords) :=
  if r.frameid < 1 then some (none, t)
  else if t.full then some (none, t)
  else if r.ipver = CM_IP_IPV6 ∧ !c.kIFGetDevicenameByLinkname then none
  else if !c.bind ∨ !c.multicast then none
  else some (c.newId si t, t.kSocketOpen c.toSocketMade si)

def kSocketOpenRaw (si : SocketRecord) (t : SocketRecords) :
    Option (Option Int16 × SocketRecords) :=
  if !c.getaddrinfo then none else some (c.newId si t, t.kSocketOpenRaw c.toSocketMade si)

/-- `socketid` is 0 before, and stays so when there is the same socket. -/
def kSocketOpenWaitSocket (w : WaitRequest) (t : SocketRecords) :
    Option (Option Int16 × SocketRecords) :=
  if w.frameid < 0 then some (none, t)
  else if !c.kIFGetDevicenameByLinkname then some (none, t)
  else if w.same t then some (some 0, t)
  else if t.full then some (none, t)
  else if !c.multicast then none
  else if w.protocol = CM_PROT_TCP ∨ w.protocol = CM_PROT_TLS then
    some (c.newId (w.tcpRecord c.toSocketMade) t,
      t.kSocketOpenWaitSocket c.toSocketMade (w.tcpRecord c.toSocketMade))
  else if w.protocol = CM_PROT_UDP then
    some (c.newId (w.udpRecord c.toSocketMade) t,
      t.kSocketOpenWaitSocket c.toSocketMade (w.udpRecord c.toSocketMade))
  else some (none, t.kSocketOpenWaitSocketInvalid c.toSocketMade)

/-- The acks behind the opening. It goes on behind the one for a `kSocketSend` that has failed. -/
def connecAcks (r : ConnecRequest) (socketid : Int16) : List SocketAck :=
  if r.datalen ≠ 0 ∧ c.kSocketSend ≠ 0 then
    [⟨CM_RESULT_SIG_NG_OTHER, socketid⟩, ⟨CM_RESULT_OK, socketid⟩]
  else [⟨CM_RESULT_OK, socketid⟩]

def waitAcks (socketid : Int16) : List SocketAck := [⟨CM_RESULT_OK, socketid⟩]

/-- An ack with an error, or the others. -/
def reply (acks : Int16 → List SocketAck) (opened : Option Int16 × SocketRecords) :
    SocketRecords × List SocketAck :=
  match opened with
  | (none, t) => (t, [⟨CM_RESULT_SIG_NG_OTHER, 0⟩])
  | (some socketid, t) => (t, acks socketid)

@[grind =]
def process_command_connect_req (r : ConnecRequest) (t : SocketRecords) :
    Option (SocketRecords × List SocketAck) :=
  if r.protocol = CM_PROT_TLS ∧ !r.kIsTLSInitialize then
    some (t, [⟨CM_RESULT_SIG_TLS_NOINIT, 0⟩])
  else
    match t.kSocketCheckNewSocket r.toConnecFor with
    | none => none
    | some (checksocketid, t) =>
        if checksocketid ≠ 0 then some (t, c.connecAcks r checksocketid)
        else
          match r.newconnec_type with
          | some .SI_TYPE_UDP =>
              (c.kSocketOpen r (r.record (.udp (c.pair (familyOf r.ipver) 0))) t).map
                (reply (c.connecAcks r))
          | some .SI_TYPE_DATA =>
              (c.kSocketOpen r (r.record (.data (c.pair (familyOf r.ipver) 0))) t).map
                (reply (c.connecAcks r))
          | some .SI_TYPE_RAW =>
              (c.kSocketOpenRaw (r.rawRecord c.toSocketMade) t).map (reply (c.connecAcks r))
          | _ => some (t, c.connecAcks r 0)

@[grind =]
def process_command_wait_req (w : WaitRequest) (t : SocketRecords) :
    Option (SocketRecords × List SocketAck) :=
  if w.protocol = CM_PROT_TLS ∧ !w.kIsTLSInitialize then
    some (t, [⟨CM_RESULT_SIG_TLS_NOINIT, 0⟩])
  else if w.protocol = CM_PROT_ICMP then
    (c.kSocketOpenRaw (w.rawRecord c.toSocketMade) t).map (reply waitAcks)
  else (c.kSocketOpenWaitSocket w t).map (reply waitAcks)

end AnswerCalls

/-! ## What is asked for -/

/-- Of an IPv4 address there are four octets. -/
def addrOf (family : UInt8) (addr : In6Addr) : In6Addr :=
  if family = AF_INET then (addr >>> 96) <<< 96 else addr

/-- The end of the socket. A port or an address that is 0 is not given. -/
structure Asked where
  port : UInt16
  addr : In6Addr
  family : UInt8
deriving DecidableEq, Repr

namespace Asked

/-- There are no ports for ICMP. -/
def of (protocol ipver : UInt8) (s_port : UInt16) (s_addr : In6Addr) : Asked :=
  if protocol = CM_PROT_ICMP then ⟨0, addrOf (rawFamilyOf ipver) s_addr, rawFamilyOf ipver⟩
  else ⟨s_port, addrOf (familyOf ipver) s_addr, familyOf ipver⟩

theorem of_icmp {protocol : UInt8} (ipver : UInt8) (s_port : UInt16) (s_addr : In6Addr)
    (icmp : protocol = CM_PROT_ICMP) : (of protocol ipver s_port s_addr).port = 0 ∧
      (of protocol ipver s_port s_addr).family = rawFamilyOf ipver := by
  rw [of, if_pos icmp]
  exact ⟨rfl, rfl⟩

theorem of_other {protocol : UInt8} (ipver : UInt8) (s_port : UInt16) (s_addr : In6Addr)
    (other : protocol ≠ CM_PROT_ICMP) :
    (of protocol ipver s_port s_addr).family = familyOf ipver := by
  rw [of, if_neg other]

def Goes (a : Asked) (info : DatasocketInfo) : Prop :=
  (a.port ≠ 0 → info.di_s_port = a.port) ∧
    (a.addr ≠ 0 → info.di_s_addr = a.addr ∧ info.di_family = a.family)

/-- The system binds a socket to the port and the address that it is told to. -/
def Bound (a : Asked) (o : SocketMade) : Prop :=
  o.sockfd ≠ none → (a.port ≠ 0 → o.s_port = a.port) ∧ (a.addr ≠ 0 → o.s_addr = a.addr)

end Asked

def ConnecRequest.asked (r : ConnecRequest) : Asked := .of r.protocol r.ipver r.s_port r.s_addr

def WaitRequest.asked (w : WaitRequest) : Asked := .of w.protocol w.ipver w.s_port w.s_addr

namespace SocketRecords

/-- There is a socket of that id with the port and the address. -/
def Given (t : SocketRecords) (a : Asked) (socketid : Int16) : Prop :=
  ∃ si ∈ t.sockets, si.si_socketid = socketid ∧ si.alive ∧ a.Goes si.info

/-- There is an ack, and each is an error or goes with a socket. -/
def Fine (t : SocketRecords) (a : Asked) (acks : List SocketAck) : Prop :=
  acks ≠ [] ∧ ∀ ack ∈ acks, ack.result = CM_RESULT_OK → t.Given a ack.socketid

/-- There is an answer, and it is right. -/
def Right (a : Asked) (answer : Option (SocketRecords × List SocketAck)) : Prop :=
  ∃ t' acks, answer = some (t', acks) ∧ t'.Fine a acks

end SocketRecords

/-! ## Runs -/

inductive SocketRequest where
  | connect (r : ConnecRequest)
  | wait (w : WaitRequest)
deriving DecidableEq, Repr

def SocketRequest.asked : SocketRequest → Asked
  | .connect r => r.asked
  | .wait w => w.asked

/-- What the daemon does, with the calls that a request leads to. -/
inductive Act where
  | request (req : SocketRequest) (c : AnswerCalls)
  | process_si_type_listen (handle : Int32) (o : SocketMade)
  | process_si_type_udp (handle : Int32) (o : SocketMade)
  | process_si_type_unixd (o : SocketMade)
  | kSocketClose (socketids : List Int16)
deriving DecidableEq, Repr

/-- The system does as it is told to for a request. -/
def Act.Bound : Act → Prop
  | .request req c => req.asked.Bound c.toSocketMade
  | _ => True

namespace SocketRecords

def answer (t : SocketRecords) : Act → Option (SocketRecords × List SocketAck)
  | .request (.connect r) c => c.process_command_connect_req r t
  | .request (.wait w) c => c.process_command_wait_req w t
  | .process_si_type_listen handle o => some (t.process_si_type_listen o handle, [])
  | .process_si_type_udp handle o => some (t.process_si_type_udp o handle, [])
  | .process_si_type_unixd o => some (t.kSocketRegist o (.new .unixData {} [] 0 0), [])
  | .kSocketClose socketids => some (t.kSocketClose socketids, [])

/-- A request has a right answer. -/
def Answered (t : SocketRecords) : Act → Prop
  | .request req c => Right req.asked (t.answer (.request req c))
  | _ => True

/-- The sockets as `kSocketCheckNewSocket` sees them. -/
@[grind =]
def infos (t : SocketRecords) : List SocketInfo := t.sockets.map SocketRecord.toSocketInfo

end SocketRecords

/-- The socket that is used again for a request. -/
def ConnecFor.Again (r : ConnecFor) (t : SocketRecords) (si : SocketInfo) : Prop :=
  r.protocol ≠ CM_PROT_TCP ∧ r.latest t.infos.dropLast = some si ∧ r.Reusable si ∧
    si.si_socketid ≠ 0

/-- A socket that is used again has what is asked for, and otherwise the protocol is known, and no
    call leads to what is not defined. -/
def ConnecRequest.Answerable (r : ConnecRequest) (c : AnswerCalls) (t : SocketRecords) : Prop :=
  r.protocol = CM_PROT_TLS ∧ !r.kIsTLSInitialize ∨
    (∃ si, r.Again t si ∧ t.Given r.asked si.si_socketid) ∨
    (∀ si, ¬ r.Again t si) ∧
      match r.newconnec_type with
      | none => t.Given r.asked 0
      | some .SI_TYPE_RAW => c.getaddrinfo
      | some _ => r.frameid < 1 ∨ t.full ∨
          (r.ipver = CM_IP_IPV6 → c.kIFGetDevicenameByLinkname) ∧ c.bind ∧ c.multicast

/-- No socket listens at the port already, and no call leads to what is not defined. -/
def WaitRequest.Answerable (w : WaitRequest) (c : AnswerCalls) (t : SocketRecords) : Prop :=
  w.protocol = CM_PROT_TLS ∧ !w.kIsTLSInitialize ∨
    if w.protocol = CM_PROT_ICMP then c.getaddrinfo = true
    else w.frameid < 0 ∨ !c.kIFGetDevicenameByLinkname ∨
      if w.same t then t.Given w.asked 0 else t.full ∨ c.multicast = true

def SocketRecords.Answerable (t : SocketRecords) : Act → Prop
  | .request (.connect r) c => r.Answerable c t
  | .request (.wait w) c => w.Answerable c t
  | _ => True

/-! ## The acks -/

namespace SocketRecords

variable {t t' : SocketRecords} {a : Asked} {c : AnswerCalls} {socketid : Int16}

/-- An error is right whatever is asked for. -/
theorem fine_error {result : Int16} (error : result ≠ CM_RESULT_OK) (socketid : Int16) :
    t.Fine a [⟨result, socketid⟩] := by
  refine ⟨by simp, ?_⟩
  intro ack here ok
  rw [List.mem_singleton.mp here] at ok
  exact absurd ok error

theorem fine_waitAcks : t.Fine a (AnswerCalls.waitAcks socketid) ↔ t.Given a socketid := by
  constructor
  · rintro ⟨-, every⟩
    exact every _ (List.mem_singleton.mpr rfl) rfl
  · intro given
    refine ⟨by simp [AnswerCalls.waitAcks], ?_⟩
    intro ack here _
    rw [List.mem_singleton.mp here]
    exact given

/-- All of them have the id. -/
theorem fine_connecAcks {r : ConnecRequest} :
    t.Fine a (c.connecAcks r socketid) ↔ t.Given a socketid := by
  unfold AnswerCalls.connecAcks
  split_ifs with failed
  · constructor
    · rintro ⟨-, every⟩
      exact every ⟨CM_RESULT_OK, socketid⟩ (by simp) rfl
    · intro given
      refine ⟨by simp, ?_⟩
      intro ack here _
      obtain rfl | rfl : ack = ⟨CM_RESULT_SIG_NG_OTHER, socketid⟩ ∨
        ack = ⟨CM_RESULT_OK, socketid⟩ := by simpa using here
      · exact given
      · exact given
  · exact fine_waitAcks

/-! ## The new socket -/

theorem opens_iff (o : AnswerCalls) (si_type : SiType) (t : SocketRecords) :
    t.Opens o.toSocketMade si_type ↔ (si_type ≠ .SI_TYPE_RAW → ¬ t.full) ∧ o.opens si_type := by
  cases si_type <;> simp [Opens, AnswerCalls.opens, Option.isSome_iff_ne_none] <;> tauto

/-- It is in the table, with the id after the last one. -/
theorem Changes.given {opened : Prop} {si : SocketRecord} (changes : Changes opened si t t')
    (open_ : opened) (alive : si.alive) (goes : a.Goes si.info) :
    t'.Given a (t.g_socket_socketid + 1) := by
  obtain ⟨t₁, -, counter, ⟨closed, -⟩ | ⟨-, sockfd, rfl⟩⟩ := changes
  · exact absurd open_ closed
  · refine ⟨{ si with si_sockethandle := sockfd, si_socketid := t₁.g_socket_socketid + 1 },
      ?_, ?_, alive, goes⟩
    · simp [SocketRecords.connect, SocketRecords.increment]
    · rw [counter]

/-- Whatever comes of the opening, the answer is right. -/
theorem fine_reply {si : SocketRecord} {acks : Int16 → List SocketAck}
    (changes : Changes (t.Opens c.toSocketMade si.si_type) si t t')
    (place : si.si_type ≠ .SI_TYPE_RAW → ¬ t.full) (alive : si.alive)
    (goes : c.opens si.si_type → a.Goes si.info)
    (acks_ : ∀ socketid, t'.Fine a (acks socketid) ↔ t'.Given a socketid) :
    (AnswerCalls.reply acks (c.newId si t, t')).1.Fine a
      (AnswerCalls.reply acks (c.newId si t, t')).2 := by
  unfold AnswerCalls.newId
  split_ifs with opens
  · have open_ := (opens_iff c si.si_type t).mpr ⟨place, opens⟩
    exact (acks_ _).mpr (changes.given open_ alive (goes opens))
  · exact fine_error (by decide) 0

theorem right_some {opened : Option Int16 × SocketRecords} {acks : Int16 → List SocketAck} :
    Right a ((some opened).map (AnswerCalls.reply acks)) ↔
      (AnswerCalls.reply acks opened).1.Fine a (AnswerCalls.reply acks opened).2 := by
  constructor
  · rintro ⟨t', acks', replied, fine⟩
    rw [Option.map_some, Option.some_inj] at replied
    rw [replied]
    exact fine
  · exact fun fine => ⟨_, _, rfl, fine⟩

theorem not_right_none {acks : Int16 → List SocketAck} :
    ¬ Right a (none.map (AnswerCalls.reply acks)) := by
  simp [Right]

section Openings

variable {si : SocketRecord} (alive : si.alive) (goes : c.opens si.si_type → a.Goes si.info)

include alive goes

theorem right_kSocketOpen (r : ConnecRequest)
    (type : si.si_type = .SI_TYPE_UDP ∨ si.si_type = .SI_TYPE_DATA) :
    Right a ((c.kSocketOpen r si t).map (AnswerCalls.reply (c.connecAcks r))) ↔
      r.frameid < 1 ∨ t.full ∨
        (r.ipver = CM_IP_IPV6 → c.kIFGetDevicenameByLinkname) ∧ c.bind ∧ c.multicast := by
  have error : (CM_RESULT_SIG_NG_OTHER : Int16) ≠ CM_RESULT_OK := by decide
  unfold AnswerCalls.kSocketOpen
  split_ifs with frameid full device calls
  · exact iff_of_true (right_some.mpr (fine_error error 0)) (.inl frameid)
  · exact iff_of_true (right_some.mpr (fine_error error 0)) (.inr (.inl full))
  · refine iff_of_false not_right_none ?_
    rintro (low | limit | ⟨known, -⟩)
    · exact frameid low
    · exact full limit
    · simp [known device.1] at device
  · refine iff_of_false not_right_none ?_
    rintro (low | limit | ⟨-, bind, multicast⟩)
    · exact frameid low
    · exact full limit
    · simp [bind, multicast] at calls
  · refine iff_of_true (right_some.mpr ?_) (.inr (.inr (by simp_all)))
    exact fine_reply (.kSocketOpen c.toSocketMade si t type) (fun _ => full) alive goes
      fun _ => fine_connecAcks

theorem right_kSocketOpenRaw {acks : Int16 → List SocketAck} (type : si.si_type = .SI_TYPE_RAW)
    (fine : ∀ t' socketid, Fine t' a (acks socketid) ↔ t'.Given a socketid) :
    Right a ((c.kSocketOpenRaw si t).map (AnswerCalls.reply acks)) ↔ c.getaddrinfo := by
  unfold AnswerCalls.kSocketOpenRaw
  split_ifs with found
  · exact iff_of_false not_right_none (by simpa using found)
  · refine iff_of_true (right_some.mpr ?_) (by simpa using found)
    exact fine_reply (.kSocketOpenRaw c.toSocketMade si t type) (absurd type) alive goes
      fun _ => fine _ _

end Openings

/-! ## A socket that is used again -/

theorem exists_modify {P : SocketRecord → Prop} {f : SocketRecord → SocketRecord}
    (same : ∀ si, P (f si) ↔ P si) (sockets : List SocketRecord) (i : ℕ) :
    (∃ si ∈ sockets.modify i f, P si) ↔ ∃ si ∈ sockets, P si := by
  induction sockets generalizing i with
  | nil => simp
  | cons si rest ih => cases i <;> simp [same, ih]

/-- The table with another destination for the `i`-th socket. -/
def toDestination (r : ConnecFor) (t : SocketRecords) (i : ℕ) : SocketRecords :=
  { t with sockets := t.sockets.modify i fun si =>
      { si with toSocketInfo := si.toSocketInfo.toDestination r } }

/-- The destination is not asked for. -/
theorem given_toDestination (r : ConnecFor) (t : SocketRecords) (i : ℕ) (a : Asked)
    (socketid : Int16) : (t.toDestination r i).Given a socketid ↔ t.Given a socketid := by
  refine exists_modify (fun si => ?_) t.sockets i
  cases uniq : si.si_uniq_info <;>
    simp [SocketInfo.toDestination, uniq, SocketRecord.info, SocketInfo.alive, Asked.Goes]

/-- The id of the socket that is used again, or 0. -/
theorem kSocketCheckNewSocket_cases (nonempty : t.sockets ≠ []) (r : ConnecFor) :
    ∃ t₁, t₁.g_socket_socketid = t.g_socket_socketid ∧
      t₁.sockets.length = t.sockets.length ∧
      (∀ a socketid, t₁.Given a socketid ↔ t.Given a socketid) ∧
      ((∃ si, r.Again t si ∧ t.kSocketCheckNewSocket r = some (si.si_socketid, t₁)) ∨
        (∀ si, ¬ r.Again t si) ∧ t.kSocketCheckNewSocket r = some (0, t₁)) := by
  have some_ : t.infos ≠ [] := by simpa [infos] using nonempty
  by_cases tcp : r.protocol = CM_PROT_TCP
  · refine ⟨t, rfl, rfl, fun _ _ => Iff.rfl, .inr ⟨fun si again => again.1 tcp, ?_⟩⟩
    rw [SocketRecords.kSocketCheckNewSocket, ← infos, ConnecFor.scan_tcp tcp some_]
  · obtain ⟨si, i, latest, reusable, here, scanned⟩ | ⟨unusable, reuseinfo, scanned⟩ :=
      ConnecFor.scan_latest tcp some_
    · obtain ⟨record, there, rfl⟩ : ∃ record, t.sockets[i]? = some record ∧
          record.toSocketInfo = si := by
        simpa [infos] using here
      refine ⟨t.toDestination r i, rfl, List.length_modify .., given_toDestination r t i, ?_⟩
      have checked : t.kSocketCheckNewSocket r =
          some (record.si_socketid, t.toDestination r i) := by
        rw [infos] at scanned
        simp only [SocketRecords.kSocketCheckNewSocket, scanned, there, toDestination]
      by_cases zero : record.si_socketid = 0
      · refine .inr ⟨?_, zero ▸ checked⟩
        rintro si ⟨-, latest', -, id⟩
        cases latest.symm.trans latest'
        exact id zero
      · exact .inl ⟨record.toSocketInfo, ⟨tcp, latest, reusable, zero⟩, checked⟩
    · refine ⟨t, rfl, rfl, fun _ _ => Iff.rfl, .inr ⟨?_, ?_⟩⟩
      · exact fun si again => unusable si again.2.1 again.2.2.1
      · rw [infos] at scanned
        simp only [SocketRecords.kSocketCheckNewSocket, scanned]

/-! ## The two requests -/

/-- A new socket is bound as it is asked for. -/
theorem goes_of_bound {o : SocketMade} {info : DatasocketInfo} (bound : a.Bound o)
    (opened : o.sockfd ≠ none) (port : a.port ≠ 0 → info.di_s_port = o.s_port)
    (addr : info.di_s_addr = o.s_addr) (family : info.di_family = a.family) : a.Goes info := by
  obtain ⟨samePort, sameAddr⟩ := bound opened
  refine ⟨fun given => (port given).trans (samePort given), fun given => ⟨?_, family⟩⟩
  exact addr.trans (sameAddr given)

theorem sockfd_of_opens {si_type : SiType} (opens : c.opens si_type) : c.sockfd ≠ none := by
  simp only [AnswerCalls.opens, Bool.and_eq_true] at opens
  exact Option.isSome_iff_ne_none.mp opens.1.1.1

theorem right_connect (nonempty : t.sockets ≠ []) (r : ConnecRequest)
    (bound : r.asked.Bound c.toSocketMade) :
    Right r.asked (c.process_command_connect_req r t) ↔ r.Answerable c t := by
  unfold AnswerCalls.process_command_connect_req ConnecRequest.Answerable
  by_cases tls : r.protocol = CM_PROT_TLS ∧ !r.kIsTLSInitialize
  · rw [if_pos tls]
    exact iff_of_true ⟨t, _, rfl, fine_error (by decide) 0⟩ (.inl tls)
  · rw [if_neg tls, or_iff_right tls]
    obtain ⟨t₁, counter, -, given, ⟨si, again, checked⟩ | ⟨unused, checked⟩⟩ :=
      kSocketCheckNewSocket_cases nonempty r.toConnecFor
    · -- It is the one that the ack has the id of.
      simp only [checked, if_pos again.2.2.2]
      have right : Right r.asked (some (t₁, c.connecAcks r si.si_socketid)) ↔
          t.Given r.asked si.si_socketid := by
        simp [Right, fine_connecAcks, given]
      rw [right, or_iff_left fun other => other.1 si again]
      constructor
      · exact fun here => ⟨si, again, here⟩
      · rintro ⟨si', again', here⟩
        cases again.2.1.symm.trans again'.2.1
        exact here
    · have zero : ¬ ((0 : Int16) ≠ 0) := not_not.mpr rfl
      have none_ : ¬ ∃ si, r.Again t si ∧ t.Given r.asked si.si_socketid :=
        fun ⟨si, again, _⟩ => unused si again
      have full : t₁.full ↔ t.full := by rw [SocketRecords.full, SocketRecords.full, counter]
      simp only [checked, if_neg zero]
      rw [or_iff_right none_, and_iff_right unused, ← full]
      cases type : r.newconnec_type with
      | none => simp [Right, fine_connecAcks, given]
      | some si_type =>
          obtain ⟨rfl, protocol⟩ | ⟨rfl, protocol⟩ | ⟨rfl, protocol⟩ :=
            ConnecReq.newconnec_type_cases type
          · refine right_kSocketOpen rfl (fun opens => ?_) r (.inl rfl)
            have family := Asked.of_other r.ipver r.s_port r.s_addr
              (show r.protocol ≠ CM_PROT_ICMP by rw [protocol]; decide)
            exact goes_of_bound bound (sockfd_of_opens opens) (fun _ => rfl) rfl family.symm
          · refine right_kSocketOpen rfl (fun opens => ?_) r (.inr rfl)
            have family := Asked.of_other r.ipver r.s_port r.s_addr
              (show r.protocol ≠ CM_PROT_ICMP by
                obtain protocol | protocol := protocol <;> rw [protocol] <;> decide)
            exact goes_of_bound bound (sockfd_of_opens opens) (fun _ => rfl) rfl family.symm
          · refine right_kSocketOpenRaw rfl (fun opens => ?_) rfl fun _ _ => fine_connecAcks
            obtain ⟨port, family⟩ := Asked.of_icmp r.ipver r.s_port r.s_addr protocol
            exact goes_of_bound bound (sockfd_of_opens opens) (absurd port) rfl family.symm

theorem right_kSocketOpenWaitSocket (w : WaitRequest) (other : w.protocol ≠ CM_PROT_ICMP)
    (bound : w.asked.Bound c.toSocketMade) :
    Right w.asked ((c.kSocketOpenWaitSocket w t).map (AnswerCalls.reply AnswerCalls.waitAcks)) ↔
      w.frameid < 0 ∨ !c.kIFGetDevicenameByLinkname ∨
        if w.same t then t.Given w.asked 0 else t.full ∨ c.multicast = true := by
  have error : (CM_RESULT_SIG_NG_OTHER : Int16) ≠ CM_RESULT_OK := by decide
  have family := Asked.of_other w.ipver w.s_port w.s_addr other
  unfold AnswerCalls.kSocketOpenWaitSocket
  by_cases frameid : w.frameid < 0
  · rw [if_pos frameid]
    exact iff_of_true (right_some.mpr (fine_error error 0)) (.inl frameid)
  rw [if_neg frameid, or_iff_right frameid]
  by_cases device : !c.kIFGetDevicenameByLinkname
  · rw [if_pos device]
    exact iff_of_true (right_some.mpr (fine_error error 0)) (.inl device)
  rw [if_neg device, or_iff_right device]
  by_cases same : w.same t
  · rw [if_pos same, if_pos same, right_some]
    exact fine_waitAcks
  rw [if_neg same, if_neg same]
  split_ifs with full calls tcp udp
  · exact iff_of_true (right_some.mpr (fine_error error 0)) (.inl full)
  · refine iff_of_false not_right_none ?_
    rintro (limit | multicast)
    · exact full limit
    · simp [multicast] at calls
  · refine iff_of_true (right_some.mpr ?_) (.inr (by simpa using calls))
    refine fine_reply (.kSocketOpenWaitSocket c.toSocketMade _ t (.inr rfl)) (fun _ => full) rfl
      (fun opens => ?_) fun _ => fine_waitAcks
    exact goes_of_bound bound (sockfd_of_opens opens) (fun _ => rfl) rfl family.symm
  · refine iff_of_true (right_some.mpr ?_) (.inr (by simpa using calls))
    refine fine_reply (.kSocketOpenWaitSocket c.toSocketMade _ t (.inl rfl)) (fun _ => full) rfl
      (fun opens => ?_) fun _ => fine_waitAcks
    exact goes_of_bound bound (sockfd_of_opens opens) (fun _ => rfl) rfl family.symm
  · exact iff_of_true (right_some.mpr (fine_error error 0)) (.inr (by simpa using calls))

theorem right_wait (w : WaitRequest) (bound : w.asked.Bound c.toSocketMade) :
    Right w.asked (c.process_command_wait_req w t) ↔ w.Answerable c t := by
  unfold AnswerCalls.process_command_wait_req WaitRequest.Answerable
  by_cases tls : w.protocol = CM_PROT_TLS ∧ !w.kIsTLSInitialize
  · rw [if_pos tls]
    exact iff_of_true ⟨t, _, rfl, fine_error (by decide) 0⟩ (.inl tls)
  rw [if_neg tls, or_iff_right tls]
  by_cases icmp : w.protocol = CM_PROT_ICMP
  · rw [if_pos icmp, if_pos icmp]
    refine right_kSocketOpenRaw rfl (fun opens => ?_) rfl fun _ _ => fine_waitAcks
    obtain ⟨port, family⟩ := Asked.of_icmp w.ipver w.s_port w.s_addr icmp
    exact goes_of_bound bound (sockfd_of_opens opens) (absurd port) rfl family.symm
  · rw [if_neg icmp, if_neg icmp]
    exact right_kSocketOpenWaitSocket w icmp bound

/-- The answer is right just when the condition is met. -/
theorem answered_iff (nonempty : t.sockets ≠ []) (act : Act) (bound : act.Bound) :
    t.Answered act ↔ t.Answerable act := by
  cases act with
  | request req c =>
      cases req with
      | connect r => exact right_connect nonempty r bound
      | wait w => exact right_wait w bound
  | _ => exact Iff.rfl

/-! ## No socket leaves the table -/

theorem Changes.length_le {opened : Prop} {si : SocketRecord} (changes : Changes opened si t t') :
    t.sockets.length ≤ t'.sockets.length := by
  obtain ⟨t₁, ages, -, ⟨-, rfl | ⟨-, rfl⟩⟩ | ⟨-, sockfd, rfl⟩⟩ := changes
  · exact ages.length_eq.le
  · exact ages.length_eq.le
  · rw [ages.length_eq]
    simp [SocketRecords.connect, SocketRecords.increment]

theorem length_le_connect (nonempty : t.sockets ≠ []) {r : ConnecReq} {o : SocketMade}
    (processed : t.process_command_connect_req o r = some t') :
    t.sockets.length ≤ t'.sockets.length := by
  unfold SocketRecords.process_command_connect_req at processed
  by_cases tls : r.protocol = CM_PROT_TLS ∧ !r.kIsTLSInitialize
  · rw [if_pos tls] at processed
    cases processed
    exact le_rfl
  · rw [if_neg tls] at processed
    obtain ⟨t₁, -, same, -, ⟨si, again, checked⟩ | ⟨-, checked⟩⟩ :=
      kSocketCheckNewSocket_cases nonempty r.toConnecFor
    · simp only [checked, if_pos again.2.2.2, Option.some_inj] at processed
      rw [← processed, same]
    · have zero : ¬ ((0 : Int16) ≠ 0) := not_not.mpr rfl
      simp only [checked, if_neg zero] at processed
      rw [← same]
      cases type : r.newconnec_type with
      | none =>
          rw [type] at processed
          cases processed
          exact le_rfl
      | some si_type =>
          rw [type] at processed
          obtain ⟨rfl, -⟩ | ⟨rfl, -⟩ | ⟨rfl, -⟩ := ConnecReq.newconnec_type_cases type
          · cases processed
            exact (Changes.kSocketOpen o _ t₁ (.inl rfl)).length_le
          · cases processed
            exact (Changes.kSocketOpen o _ t₁ (.inr rfl)).length_le
          · cases processed
            exact (Changes.kSocketOpenRaw o _ t₁ rfl).length_le

theorem length_le_wait (t : SocketRecords) (w : WaitReq) (o : SocketMade) :
    t.sockets.length ≤ (t.process_command_wait_req o w).sockets.length := by
  obtain ⟨opened, si, changes, -⟩ := Does.process_command_wait_req (t := t) w o
  exact changes.length_le

theorem length_le_process (nonempty : t.sockets ≠ []) {event : Event}
    (processed : t.process event = some t') : t.sockets.length ≤ t'.sockets.length := by
  cases event with
  | process_command_connect_req r o => exact length_le_connect nonempty processed
  | process_command_wait_req w o =>
      cases processed
      exact length_le_wait t w o
  | process_si_type_listen handle o =>
      cases processed
      unfold SocketRecords.process_si_type_listen
      cases t.kSocketGetSIBySocketHandle handle with
      | none => exact le_rfl
      | some parent =>
          dsimp only
          cases parent.child o with
          | none => exact le_rfl
          | some si => exact (Changes.kSocketRegist o si t).length_le
  | process_si_type_udp handle o =>
      cases processed
      obtain ⟨opened, si, changes, -⟩ := Does.process_si_type_udp (t := t) handle o
      exact changes.length_le
  | process_si_type_unixd o =>
      cases processed
      exact (Changes.kSocketRegist o _ t).length_le
  | kSocketClose socketids =>
      cases processed
      exact (List.length_map _).ge

/-! ## The answers and the events -/

end SocketRecords

/-- A request that stops before the calls has no descriptor. -/
def AnswerCalls.made (c : AnswerCalls) (stops : Bool) : SocketMade :=
  { c.toSocketMade with sockfd := if stops then none else c.sockfd }

def ConnecRequest.stops (r : ConnecRequest) : Bool :=
  r.protocol != CM_PROT_ICMP && decide (r.frameid < 1)

def WaitRequest.stops (w : WaitRequest) (c : AnswerCalls) (t : SocketRecords) : Bool :=
  w.protocol != CM_PROT_ICMP &&
    (decide (w.frameid < 0) || !c.kIFGetDevicenameByLinkname || w.same t)

/-- What an answer does to the table. -/
def Act.event (t : SocketRecords) : Act → SocketRecords.Event
  | .request (.connect r) c => .process_command_connect_req r.toConnecReq (c.made r.stops)
  | .request (.wait w) c => .process_command_wait_req w.toWaitReq (c.made (w.stops c t))
  | .process_si_type_listen handle o => .process_si_type_listen handle o
  | .process_si_type_udp handle o => .process_si_type_udp handle o
  | .process_si_type_unixd o => .process_si_type_unixd o
  | .kSocketClose socketids => .kSocketClose socketids

namespace SocketRecords

variable {t t' : SocketRecords} {c : AnswerCalls} {acks : List SocketAck}

theorem reply_fst (acks : Int16 → List SocketAck) (opened : Option Int16 × SocketRecords) :
    (AnswerCalls.reply acks opened).1 = opened.2 := by
  obtain ⟨_ | _, t⟩ := opened <;> rfl

/-- The table behind an opening is the one in the answer. -/
theorem of_reply {opening : Option (Option Int16 × SocketRecords)}
    {acks_ : Int16 → List SocketAck}
    (replied : opening.map (AnswerCalls.reply acks_) = some (t', acks)) :
    ∃ socketid, opening = some (socketid, t') := by
  obtain ⟨opened, rfl, same⟩ := Option.map_eq_some_iff.mp replied
  refine ⟨opened.1, ?_⟩
  have table : opened.2 = t' := by rw [← reply_fst acks_, same]
  rw [← table]

theorem kSocketOpen_event {r : ConnecRequest} {si : SocketRecord} {socketid : Option Int16}
    (other : r.protocol ≠ CM_PROT_ICMP) (opened : c.kSocketOpen r si t = some (socketid, t')) :
    t.kSocketOpen (c.made r.stops) si = t' := by
  have stops : r.stops = decide (r.frameid < 1) := by simp [ConnecRequest.stops, other]
  rw [stops]
  unfold AnswerCalls.kSocketOpen at opened
  split_ifs at opened with frameid full device calls
  · cases opened
    simp [SocketRecords.kSocketOpen, AnswerCalls.made, frameid]
  · cases opened
    rw [SocketRecords.kSocketOpen, if_pos full]
  · cases opened
    rw [decide_eq_false frameid]
    rfl

theorem kSocketOpenRaw_event {si : SocketRecord} {socketid : Option Int16}
    (opened : c.kSocketOpenRaw si t = some (socketid, t')) :
    t.kSocketOpenRaw c.toSocketMade si = t' := by
  unfold AnswerCalls.kSocketOpenRaw at opened
  split_ifs at opened
  cases opened
  rfl

theorem connect_event {r : ConnecRequest}
    (answered : c.process_command_connect_req r t = some (t', acks)) :
    t.process_command_connect_req (c.made r.stops) r.toConnecReq = some t' := by
  unfold AnswerCalls.process_command_connect_req at answered
  unfold SocketRecords.process_command_connect_req
  by_cases tls : r.protocol = CM_PROT_TLS ∧ !r.kIsTLSInitialize
  · rw [if_pos tls] at answered ⊢
    cases answered
    rfl
  rw [if_neg tls] at answered ⊢
  cases checked : t.kSocketCheckNewSocket r.toConnecFor with
  | none => simp [checked] at answered
  | some result =>
      obtain ⟨checksocketid, t₁⟩ := result
      simp only [checked] at answered ⊢
      by_cases again : checksocketid ≠ 0
      · rw [if_pos again] at answered ⊢
        cases answered
        rfl
      rw [if_neg again] at answered ⊢
      cases type : r.newconnec_type with
      | none =>
          rw [type] at answered
          cases answered
          rfl
      | some si_type =>
          rw [type] at answered
          obtain ⟨rfl, protocol⟩ | ⟨rfl, protocol⟩ | ⟨rfl, protocol⟩ :=
            ConnecReq.newconnec_type_cases type
          · obtain ⟨socketid, opened⟩ := of_reply answered
            have other : r.protocol ≠ CM_PROT_ICMP := by
              rw [protocol]
              decide
            exact congrArg some (kSocketOpen_event other opened)
          · obtain ⟨socketid, opened⟩ := of_reply answered
            have other : r.protocol ≠ CM_PROT_ICMP := by
              obtain protocol | protocol := protocol <;> rw [protocol] <;> decide
            exact congrArg some (kSocketOpen_event other opened)
          · obtain ⟨socketid, opened⟩ := of_reply answered
            have stops : r.stops = false := by simp [ConnecRequest.stops, protocol]
            rw [stops]
            exact congrArg some (kSocketOpenRaw_event opened)

/-- At the limit, or without a descriptor, nothing happens. -/
theorem wait_idle {w : WaitReq} {o : SocketMade} (other : w.protocol ≠ CM_PROT_ICMP)
    (idle : t.full ∨ o.sockfd = none) : t.process_command_wait_req o w = t := by
  have opening (si : SocketRecord) : t.kSocketOpenWaitSocket o si = t := by
    unfold SocketRecords.kSocketOpenWaitSocket
    obtain full | unmade := idle
    · rw [if_pos full]
    · rw [unmade, ite_self]
  have invalid : t.kSocketOpenWaitSocketInvalid o = t := by
    unfold SocketRecords.kSocketOpenWaitSocketInvalid
    obtain full | unmade := idle
    · rw [if_pos full]
    · rw [unmade, ite_self]
  unfold SocketRecords.process_command_wait_req
  rw [opening, opening, invalid, if_neg other, ite_self, ite_self, ite_self]

/-- It stops, or is at the limit, or comes to the calls. -/
theorem kSocketOpenWaitSocket_event {w : WaitRequest} {socketid : Option Int16}
    (tls : ¬ (w.protocol = CM_PROT_TLS ∧ !w.kIsTLSInitialize)) (other : w.protocol ≠ CM_PROT_ICMP)
    (opened : c.kSocketOpenWaitSocket w t = some (socketid, t')) :
    t.process_command_wait_req (c.made (w.stops c t)) w.toWaitReq = t' := by
  have unmade (stops : w.frameid < 0 ∨ !c.kIFGetDevicenameByLinkname ∨ w.same t) :
      (c.made (w.stops c t)).sockfd = none := by
    have stops' : w.stops c t := by simpa [WaitRequest.stops, other, or_assoc] using stops
    simp [AnswerCalls.made, stops']
  unfold AnswerCalls.kSocketOpenWaitSocket at opened
  by_cases frameid : w.frameid < 0
  · rw [if_pos frameid] at opened
    cases opened
    exact wait_idle other (.inr (unmade (.inl frameid)))
  rw [if_neg frameid] at opened
  by_cases device : !c.kIFGetDevicenameByLinkname
  · rw [if_pos device] at opened
    cases opened
    exact wait_idle other (.inr (unmade (.inr (.inl device))))
  rw [if_neg device] at opened
  by_cases same : w.same t
  · rw [if_pos same] at opened
    cases opened
    exact wait_idle other (.inr (unmade (.inr (.inr same))))
  rw [if_neg same] at opened
  by_cases full : t.full
  · rw [if_pos full] at opened
    cases opened
    exact wait_idle other (.inl full)
  rw [if_neg full] at opened
  have stops : w.stops c t = false := by simp_all [WaitRequest.stops]
  rw [stops, SocketRecords.process_command_wait_req, if_neg tls, if_neg other]
  split_ifs at opened ⊢ <;> cases opened <;> rfl

theorem wait_event {w : WaitRequest}
    (answered : c.process_command_wait_req w t = some (t', acks)) :
    t.process_command_wait_req (c.made (w.stops c t)) w.toWaitReq = t' := by
  unfold AnswerCalls.process_command_wait_req at answered
  by_cases tls : w.protocol = CM_PROT_TLS ∧ !w.kIsTLSInitialize
  · rw [if_pos tls] at answered
    cases answered
    exact if_pos tls
  rw [if_neg tls] at answered
  by_cases icmp : w.protocol = CM_PROT_ICMP
  · rw [if_pos icmp] at answered
    obtain ⟨socketid, opened⟩ := of_reply answered
    have stops : w.stops c t = false := by simp [WaitRequest.stops, icmp]
    have tcp : ¬ (w.protocol = CM_PROT_TCP ∨ w.protocol = CM_PROT_TLS) := by
      rw [icmp]
      decide
    have udp : w.protocol ≠ CM_PROT_UDP := by
      rw [icmp]
      decide
    rw [SocketRecords.process_command_wait_req, if_neg tls, if_neg tcp, if_neg udp, if_pos icmp,
      stops]
    exact kSocketOpenRaw_event opened
  · rw [if_neg icmp] at answered
    obtain ⟨socketid, opened⟩ := of_reply answered
    exact kSocketOpenWaitSocket_event tls icmp opened

/-- The table of an answer is the one that the event leaves. -/
theorem answer_event {act : Act} (answered : t.answer act = some (t', acks)) :
    t.process (act.event t) = some t' := by
  cases act with
  | request req c =>
      cases req with
      | connect r => exact connect_event answered
      | wait w => exact congrArg some (wait_event answered)
  | _ =>
      cases answered
      rfl

/-! ## Every run -/

theorem nonempty_answer (t : SocketRecords) (act : Act) (t' : SocketRecords)
    (acks : List SocketAck) (nonempty : t.sockets ≠ [])
    (answered : t.answer act = some (t', acks)) : t'.sockets ≠ [] := by
  have longer := length_le_process nonempty (answer_event answered)
  have positive := List.length_pos_of_ne_nil nonempty
  exact List.ne_nil_of_length_pos (positive.trans_le longer)

/-- A run with answers is one of the events. -/
theorem run_events {acts : List Act} {rs : List (List SocketAck)}
    (ran : Refinement.run answer t acts = some (t', rs)) :
    ∃ events done, Refinement.run step t events = some (t', done) := by
  induction acts generalizing t rs with
  | nil =>
      cases ran
      exact ⟨[], [], rfl⟩
  | cons act acts ih =>
      cases answered : t.answer act with
      | none => simp [Refinement.run, answered] at ran
      | some next =>
          obtain ⟨t₁, acks⟩ := next
          cases later : Refinement.run answer t₁ acts with
          | none => simp [Refinement.run, answered, later] at ran
          | some end_ =>
              obtain ⟨t₂, rest⟩ := end_
              simp only [Refinement.run, answered, later, Option.some_inj, Prod.mk.injEq] at ran
              obtain ⟨rfl, -⟩ := ran
              obtain ⟨events, done, ran'⟩ := ih later
              have stepped : t.step (act.event t) = some (t₁, ()) := by
                rw [SocketRecords.step, answer_event answered]
                rfl
              refine ⟨act.event t :: events, () :: done, ?_⟩
              simp only [Refinement.run, stepped, ran']

/-- What is not defined is not an answer. -/
theorem Answered.answer {act : Act} (answered : t.Answered act) :
    ∃ t' acks, t.answer act = some (t', acks) := by
  cases act with
  | request req c =>
      obtain ⟨t', acks, answer, -⟩ := answered
      exact ⟨t', acks, answer⟩
  | _ => exact ⟨_, _, rfl⟩

/-- In a run, each request that meets the condition in the table that it comes to, and no other, has
    a right answer. So all of them have just when all meet it. -/
theorem requests_answered_iff (acts : List Act) (bound : ∀ act ∈ acts, act.Bound) :
    (∀ before act, before ++ [act] <+: acts → ∀ t rs,
      Refinement.run answer start before = some (t, rs) → (t.Answered act ↔ t.Answerable act)) ∧
    (Refinement.Throughout answer (fun t act _ => t.Answered act) start acts ↔
      Refinement.Meets answer Answerable start acts) := by
  have nonempty : start.sockets ≠ [] := nofun
  constructor
  · intro before act begins t rs ran
    have here := Refinement.run_keeps nonempty_answer nonempty ran
    exact answered_iff here act (bound act (begins.subset (by simp)))
  · refine (Refinement.Meets.iff_throughout nonempty_answer ?_ nonempty).symm
    intro act mem t here
    rw [← answered_iff here act (bound act mem)]
    constructor
    · intro answered
      obtain ⟨t', acks, answer⟩ := answered.answer
      exact ⟨t', acks, answer, answered⟩
    · rintro ⟨-, -, -, answered⟩
      exact answered

/-! ## Two sockets for one port -/

/-- A socket for HTTP that is to listen, where nothing fails. -/
def listenHttp (s_addr : In6Addr) : Act :=
  .request
    (.wait {
      ipver := CM_IP_IPV6, protocol := CM_PROT_TCP, interfaceid := 0, frameid := 1
      kIsTLSInitialize := false, s_port := 80, s_addr })
    { sockfd := some 5, malloc := true, kParserGet := true, getsockname := true
      s_port := 80, d_port := 0, s_addr, d_addr := 0
      kIFGetDevicenameByLinkname := true, bind := true, getaddrinfo := true, multicast := true
      kSocketSend := 0 }

theorem bound_listenHttp (s_addr : In6Addr) : (listenHttp s_addr).Bound := fun _ =>
  ⟨fun _ => rfl, fun _ => rfl⟩

/-- The first one is opened. -/
theorem answers_listenHttp :
    Refinement.Throughout answer (fun t act _ => t.Answered act) start [listenHttp 1] := by
  have bound (act : Act) (mem : act ∈ [listenHttp 1]) : act.Bound := by
    rw [List.mem_singleton.mp mem]
    exact bound_listenHttp 1
  refine (requests_answered_iff [listenHttp 1] bound).2.mpr ⟨?_, fun _ _ _ => trivial⟩
  exact .inr (.inr (.inr (.inr rfl)))

/-- For another address at the same port the answer has the id 0, which no socket has. -/
theorem not_answered_twice :
    ¬ ∀ (acts : List Act) (act : Act) (t : SocketRecords) (rs : List (List SocketAck)),
      (∀ act ∈ acts, act.Bound) → act.Bound → Refinement.run answer start acts = some (t, rs) →
        t.Answered act := by
  intro claim
  have first (act : Act) (mem : act ∈ [listenHttp 1]) : act.Bound := by
    rw [List.mem_singleton.mp mem]
    exact bound_listenHttp 1
  obtain ⟨t', acks, answered, -, every⟩ :=
    claim [listenHttp 1] (listenHttp 2) _ _ first (bound_listenHttp 2) rfl
  cases answered
  obtain ⟨si, here, socketid, -⟩ := every ⟨CM_RESULT_OK, 0⟩ (by decide) rfl
  revert si
  decide

end SocketRecords

end Tahi.Koi
