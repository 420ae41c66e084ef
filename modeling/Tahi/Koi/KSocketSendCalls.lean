import Tahi.Koi.IcmpSend
import Tahi.Koi.KDispatcherCommand
import Tahi.Koi.KSocketSend

/-! # The calls that send

`kSocketSend` hands the data to `send`, `SSL_write` or `sendmsg`. The functions in between report a
failure as a negative number, as a Boolean, or not at all.
-/

namespace Tahi.Koi

open Pz (ByteOrder)

/-- What the calls come to that one `kSocketSend` makes. -/
structure SysCalls where
  send : Int32
  /-- How often `SSL_write` wants to be called again. -/
  waits : ℕ
  /-- Whether the `SSL_write` after that has `SSL_ERROR_NONE`. -/
  SSL_write : Bool
  TLSSessionMode : Bool
  inet_ntop : Bool
  kIFGetDevicenameByLinkname : Bool
  getaddrinfo : Int32
  sendmsg : Int32
  host : ByteOrder
  /-- What `icmp_send` sends behind the part of `buf` that it sets. -/
  stack : List UInt8

/-- What data is handed to: a descriptor, or the TLS session of a socket. -/
inductive Channel where
  | fd (sockethandle : Int32)
  | ssl (socketid : Int16)
deriving DecidableEq, Repr

/-- A call that sends. -/
structure SendCall where
  channel : Channel
  data : List UInt8
  success : Bool
deriving DecidableEq, Repr

/-- A number that is returned as a `bool`. -/
def asBool (value : Int32) : Bool := value != 0

def AF_INET : UInt8 := 2

def AF_INET6 : UInt8 := 28

def IN6_IS_ADDR_LINKLOCAL (addr : In6Addr) : Bool := addr.extractLsb' 118 10 == 0x3fa

/-- The loop of `kTLSSend`. -/
def kTLSSend (socketid : Int16) (data : List UInt8) (done : Bool) : ℕ → Int32 × List SendCall
  | 0 => (if done then RETURN_OK else RETURN_NG, [⟨.ssl socketid, data, done⟩])
  | waits + 1 =>
      let (ret, calls) := kTLSSend socketid data done waits
      (ret, ⟨.ssl socketid, data, false⟩ :: calls)

namespace SysCalls

variable (c : SysCalls)

/-- `send` on a descriptor. -/
def sendOn (fds : Int32) (data : List UInt8) : SendCall := ⟨.fd fds, data, 0 ≤ c.send⟩

/-- The tests in front of `send`, each of which returns `RETURN_NG`. -/
def addressed (info : DatasocketInfo) : Bool :=
  c.inet_ntop &&
    !(info.di_family == AF_INET6 && IN6_IS_ADDR_LINKLOCAL info.di_d_addr &&
      !c.kIFGetDevicenameByLinkname) &&
    c.getaddrinfo == 0

/-- The return type is `bool`. -/
def kSocketSendDataUdp (socketid : Int16) (data : List UInt8) (g : Sockets) :
    Bool × List SendCall :=
  match g.getDataSocket socketid with
  | none => (asBool RETURN_NG, [])
  | some infos =>
      if !c.addressed infos.datasocketinfo then (asBool RETURN_NG, [])
      else
        let call := c.sendOn (g.si_sockethandle infos.si_socketid) data
        (call.success, [call])

/-- The packet that is sent, and what is in `data` afterwards. For IPv6 the header is copied into
    `data`. -/
def icmp_send (fds : Int32) (info : DatasocketInfo) (data : List UInt8) :
    SendCall × List UInt8 :=
  if info.di_family = AF_INET then
    (⟨.fd fds, icmpPacket c.host data c.stack, 0 ≤ c.sendmsg⟩, data)
  else
    (⟨.fd fds, icmp6Header data ++ c.stack, 0 ≤ c.sendmsg⟩,
      (icmp6Header data ++ data.drop 8).take data.length)

end SysCalls

/-- A message can be registered behind the last one. -/
def Log.Ready (l : Log) : Prop := l.messages = [] ∨ l.Kept

/-- What one call has done. -/
structure SendDone where
  ret : Int32
  calls : List SendCall

namespace Koid

/-- The transports: whether it goes on, the calls, and what is in `data` then. -/
def sendBy (c : SysCalls) (infos : Infos) (data : List UInt8) (k : Koid) :
    Bool × List SendCall × List UInt8 :=
  let fds := k.sockets.si_sockethandle infos.si_socketid
  match infos.si_type with
  | some .SI_TYPE_DATA =>
      match k.si_tls infos.si_socketid with
      | .ssl =>
          let (ret, calls) := kTLSSend infos.si_socketid data c.SSL_write c.waits
          (!decide (ret < 0), calls, data)
      | .empty => (true, [], data)
      | .off =>
          let call := c.sendOn fds data
          (call.success, [call], data)
  | some .SI_TYPE_UDP =>
      let (sent, calls) := c.kSocketSendDataUdp infos.si_socketid data k.sockets
      (sent, calls, data)
  | some .SI_TYPE_RAW =>
      let (call, data) := c.icmp_send fds infos.datasocketinfo data
      (true, [call], data)
  | _ => (true, [], data)

/-- The data is registered. -/
def registerSent (infos : Infos) (time_value : Timeval) (calls : List SendCall)
    (data : List UInt8) (k : Koid) : Option (Koid × SendDone) :=
  (k.msgs.kDataRegist k.sockets.table infos.si_socketid MSG_SOCKETMODE_SEND data time_value).map
    fun (msgs, ok) => ({ k with msgs := msgs }, ⟨if ok then RETURN_OK else RETURN_NG, calls⟩)

/-- `kSocketSend`, with each of its calls. -/
def kSocketSendBy (c : SysCalls) (socketid : Int16) (data : List UInt8) (time_value : Timeval)
    (k : Koid) : Option (Koid × SendDone) :=
  if socketid < 1 then some (k, ⟨RETURN_NG, []⟩)
  else
    match k.sockets.getDataSocket socketid with
    | none => some (k, ⟨RETURN_NG, []⟩)
    | some infos =>
        match k.sendBy c infos data with
        | (false, calls, _) =>
            let net := { send := fun _ => false, prepared := true, TLSSessionMode := c.TLSSessionMode }
            some (k.afterFailure net infos.si_socketid, ⟨RETURN_NG, calls⟩)
        | (true, calls, data) => k.registerSent infos time_value calls data

/-! ## When what is returned is what has been done -/

/-- A call has taken the data, on the socket's own descriptor or session. -/
def Handed (socketid : Int16) (data : List UInt8) (calls : List SendCall) (k : Koid) : Prop :=
  ∃ call ∈ calls, call.success ∧ call.data = data ∧
    (call.channel = .fd (k.sockets.si_sockethandle socketid) ∨ call.channel = .ssl socketid)

/-- `RETURN_OK` is for data that a call has taken and for which one message is registered. -/
def ReportsSend (c : SysCalls) (socketid : Int16) (data : List UInt8) (time_value : Timeval)
    (k : Koid) (l : Log) : Prop :=
  ∃ k' sent, k.kSocketSendBy c socketid data time_value = some (k', sent) ∧
    (sent.ret = RETURN_OK → k.Handed socketid data sent.calls ∧
      ∃ msg next, MsgTable.Related k'.msgs (l.append msg next) ∧
        msg.msg_socketmode = MSG_SOCKETMODE_SEND ∧ msg.msg_socketid = socketid ∧
          msg.msg_data = data) ∧
    (sent.ret ≠ RETURN_OK → k'.msgs = k.msgs)

/-- No message is registered any more. -/
def full (k : Koid) : Prop := k.msgs.g_msg_dataid = MSG_MAXMSGNUM

/-- For each type of socket, what the calls come to when nothing is said to be sent that is not. -/
def Delivers (c : SysCalls) (socketid : Int16) (data : List UInt8) (k : Koid) (l : Log) : Prop :=
  1 ≤ socketid → ∀ si, k.sockets.table.lookup socketid = some si →
    match si.si_uniq_info with
    | .data _ =>
        match k.si_tls socketid with
        | .off => c.send < 0 ∨ k.full ∨ l.Ready
        | .ssl => ¬ c.SSL_write ∨ k.full ∨ l.Ready
        | .empty => k.full
    | .udp info => if c.addressed info then c.send < 0 ∨ k.full ∨ l.Ready else k.full
    | .raw info =>
        k.full ∨ 0 ≤ c.sendmsg ∧
          (if info.di_family = AF_INET then icmpPacket c.host data c.stack
            else icmp6Header data ++ c.stack) = data ∧
          l.Ready
    | _ => True

/-! ### One call -/

variable {k : Koid} {l : Log} {c : SysCalls} {socketid : Int16} {data : List UInt8}
  {time_value : Timeval}

/-- A call that fails leaves the messages. -/
theorem reportsSend_ng {k' : Koid} {calls : List SendCall}
    (ran : k.kSocketSendBy c socketid data time_value = some (k', ⟨RETURN_NG, calls⟩))
    (same : k'.msgs = k.msgs) : k.ReportsSend c socketid data time_value l := by
  refine ⟨k', _, ran, ?_, fun _ => same⟩
  intro ok
  have failed : ¬ RETURN_NG = RETURN_OK := by decide
  exact absurd ok failed

theorem registerSent_full (full : k.full) (infos : Infos) (calls : List SendCall) :
    k.registerSent infos time_value calls data = some (k, ⟨RETURN_NG, calls⟩) := by
  rw [registerSent, MsgTable.kDataRegist_full full]
  rfl

theorem registerSent_lost (related : MsgTable.Related k.msgs l) (place : ¬ k.full)
    (lost : ¬ l.Ready) {infos : Infos}
    (known : k.sockets.table.registrable infos.si_socketid = some infos) (calls : List SendCall) :
    k.registerSent infos time_value calls data = none := by
  rw [registerSent, related.regist_lost, Option.map_none]
  obtain ⟨cells, rep⟩ := related
  rintro (full | unknown | kept)
  · exact place (rep.dataid.trans full)
  · rw [known] at unknown
    cases unknown
  · exact lost kept

theorem registerSent_some (related : MsgTable.Related k.msgs l) (place : ¬ k.full)
    (kept : l.Ready) {infos : Infos}
    (known : k.sockets.table.registrable infos.si_socketid = some infos) (time_value : Timeval)
    (calls : List SendCall) (data : List UInt8) :
    ∃ k', k.registerSent infos time_value calls data = some (k', ⟨RETURN_OK, calls⟩) ∧
      ∃ msg next, MsgTable.Related k'.msgs (l.append msg next) ∧
        msg.msg_socketmode = MSG_SOCKETMODE_SEND ∧ msg.msg_socketid = infos.si_socketid ∧
          msg.msg_data = data := by
  obtain ⟨cells, rep⟩ := related
  have last : l.last ≠ MSG_MAXMSGNUM := by
    intro full
    exact place (rep.dataid.trans full)
  have fine : l.Fine (.regist k.sockets.table infos.si_socketid MSG_SOCKETMODE_SEND data
    time_value) := .inr (.inr kept)
  obtain ⟨msgs, ok, cells', registered, reply, rep'⟩ := rep.regist fine
  simp only [Log.step, last, if_false, known] at reply rep'
  cases reply
  rw [registerSent, registered]
  exact ⟨_, rfl, _, _, ⟨cells', rep'⟩, rfl, rfl, rfl⟩

/-- What happens when the transport lets it go on. -/
theorem reportsSend_goesOn {infos : Infos} {calls : List SendCall} {data' : List UInt8}
    (related : MsgTable.Related k.msgs l) (id : infos.si_socketid = socketid)
    (known : k.sockets.table.registrable infos.si_socketid = some infos)
    (ran : k.kSocketSendBy c socketid data time_value =
      k.registerSent infos time_value calls data')
    (same : k.Handed socketid data calls → data' = data) :
    k.ReportsSend c socketid data time_value l ↔
      k.full ∨ k.Handed socketid data calls ∧ l.Ready := by
  by_cases full : k.full
  · rw [registerSent_full full] at ran
    exact iff_of_true (reportsSend_ng ran rfl) (.inl full)
  · rw [or_iff_right full]
    by_cases ready : l.Ready
    · obtain ⟨k', registered, msg, next, related', mode, own, logged⟩ :=
        registerSent_some related full ready known time_value calls data'
      rw [and_iff_left ready]
      constructor
      · rintro ⟨k'', sent, ran', reports, -⟩
        cases (ran.trans registered).symm.trans ran'
        exact (reports rfl).1
      · intro handed
        cases same handed
        refine ⟨k', _, ran.trans registered, fun _ => ⟨handed, msg, next, related', mode, ?_, logged⟩,
          fun ng => absurd rfl ng⟩
        rw [own, id]
    · rw [registerSent_lost related full ready known] at ran
      refine iff_of_false ?_ (fun both => ready both.2)
      rintro ⟨k'', sent, ran', -⟩
      cases ran.symm.trans ran'

theorem kTLSSend_ret (id : Int16) (data : List UInt8) (done : Bool) (waits : ℕ) :
    (kTLSSend id data done waits).1 = if done then RETURN_OK else RETURN_NG := by
  induction waits with
  | zero => rfl
  | succ waits ih => exact ih

/-- The last call of the loop has the data. -/
theorem kTLSSend_handed (data : List UInt8) (waits : ℕ) :
    ⟨.ssl socketid, data, true⟩ ∈ (kTLSSend socketid data true waits).2 := by
  induction waits with
  | zero => exact List.mem_singleton_self _
  | succ waits ih => exact List.mem_cons_of_mem _ ih

theorem not_handed_nil : ¬ k.Handed socketid data [] := by
  rintro ⟨call, here, -⟩
  cases here

/-- A call on the socket's own descriptor. -/
theorem handed_singleton (packet : List UInt8) (success : Bool) :
    k.Handed socketid data [⟨.fd (k.sockets.si_sockethandle socketid), packet, success⟩] ↔
      success ∧ packet = data := by
  simp [Handed]

theorem icmp_send_call (c : SysCalls) (fds : Int32) (info : DatasocketInfo) (data : List UInt8) :
    (c.icmp_send fds info data).1 =
      ⟨.fd fds, if info.di_family = AF_INET then icmpPacket c.host data c.stack
        else icmp6Header data ++ c.stack, decide (0 ≤ c.sendmsg)⟩ := by
  unfold SysCalls.icmp_send
  split_ifs <;> rfl

theorem icmp_send_data (c : SysCalls) (fds : Int32) (info : DatasocketInfo) (data : List UInt8)
    (whole : (c.icmp_send fds info data).1.data = data) : (c.icmp_send fds info data).2 = data := by
  unfold SysCalls.icmp_send at whole ⊢
  split_ifs with inet
  · rfl
  · rw [if_neg inet] at whole
    change icmp6Header data ++ c.stack = data at whole
    change (icmp6Header data ++ data.drop 8).take data.length = data
    have start : (icmp6Header data).length = 8 := by
      unfold icmp6Header icmpStart
      split
      · rw [List.length_append, List.length_take, List.length_replicate]
        omega
      · rfl
    have rest : data.drop 8 = c.stack := by
      conv_lhs => rw [← whole]
      rw [List.drop_left' start]
    rw [rest, whole, List.take_length]

/-! ### Each transport -/

section Transports

variable {id : Int16} {status : SiStatus} {info : DatasocketInfo}

theorem sendBy_off (c : SysCalls) (data : List UInt8) (tls : k.si_tls id = .off) :
    k.sendBy c (Infos.copy {} ⟨id, status, .data info⟩) data =
      (decide (0 ≤ c.send),
        [⟨.fd (k.sockets.si_sockethandle id), data, decide (0 ≤ c.send)⟩], data) := by
  simp [sendBy, Infos.si_type, Infos.copy, Infos.si_socketid, SocketInfo.si_type, tls,
    SysCalls.sendOn]

theorem sendBy_ssl (c : SysCalls) (data : List UInt8) (tls : k.si_tls id = .ssl) :
    k.sendBy c (Infos.copy {} ⟨id, status, .data info⟩) data =
      (c.SSL_write, (kTLSSend id data c.SSL_write c.waits).2, data) := by
  have ret := kTLSSend_ret id data c.SSL_write c.waits
  simp only [sendBy, Infos.si_type, Infos.copy, Infos.si_socketid, SocketInfo.si_type,
    Option.map_some, tls, ret]
  cases c.SSL_write <;> rfl

theorem sendBy_empty (c : SysCalls) (data : List UInt8) (tls : k.si_tls id = .empty) :
    k.sendBy c (Infos.copy {} ⟨id, status, .data info⟩) data = (true, [], data) := by
  simp [sendBy, Infos.si_type, Infos.copy, Infos.si_socketid, SocketInfo.si_type, tls]

theorem sendBy_addressed (data : List UInt8)
    (found : k.sockets.getDataSocket id = some (Infos.copy {} ⟨id, status, .udp info⟩))
    (addressed : c.addressed info = true) :
    k.sendBy c (Infos.copy {} ⟨id, status, .udp info⟩) data =
      (decide (0 ≤ c.send),
        [⟨.fd (k.sockets.si_sockethandle id), data, decide (0 ≤ c.send)⟩], data) := by
  change ((c.kSocketSendDataUdp id data k.sockets).1,
    (c.kSocketSendDataUdp id data k.sockets).2, data) = _
  simp [SysCalls.kSocketSendDataUdp, found, Infos.copy, addressed, SysCalls.sendOn,
    Infos.si_socketid]

/-- `RETURN_NG` is not 0. -/
theorem sendBy_unaddressed (data : List UInt8)
    (found : k.sockets.getDataSocket id = some (Infos.copy {} ⟨id, status, .udp info⟩))
    (unaddressed : c.addressed info = false) :
    k.sendBy c (Infos.copy {} ⟨id, status, .udp info⟩) data = (true, [], data) := by
  change ((c.kSocketSendDataUdp id data k.sockets).1,
    (c.kSocketSendDataUdp id data k.sockets).2, data) = _
  simp [SysCalls.kSocketSendDataUdp, found, Infos.copy, unaddressed, asBool, RETURN_NG]

end Transports

/-! ### Every socket -/

/-- The socket is found with its information, and messages are registered for it. -/
theorem getDataSocket_found {si : SocketInfo} (found : k.sockets.table.lookup socketid = some si)
    (type : si.si_type = .SI_TYPE_DATA ∨ si.si_type = .SI_TYPE_UDP ∨ si.si_type = .SI_TYPE_RAW) :
    k.sockets.getDataSocket socketid = some (Infos.copy {} si) ∧
      (Infos.copy {} si).si_socketid = socketid ∧
      k.sockets.table.registrable socketid = some (Infos.copy {} si) := by
  refine ⟨getDataSocket_data found type, ?_, ?_⟩
  · rw [copy_id, (SocketTable.lookup_id found).2]
  · have fine : (Infos.copy {} si).refused = false := by
      rcases type with type | type | type <;> simp [Infos.refused, Infos.copy_si_type, type]
    simp only [SocketTable.registrable, found, fine]
    rfl

/-- What follows the search. -/
theorem kSocketSendBy_found (low : ¬ socketid < 1) {infos : Infos}
    (found : k.sockets.getDataSocket socketid = some infos) {goesOn : Bool}
    {calls : List SendCall} {data' : List UInt8}
    (sent : k.sendBy c infos data = (goesOn, calls, data')) (time_value : Timeval) :
    if goesOn then k.kSocketSendBy c socketid data time_value =
        k.registerSent infos time_value calls data'
    else ∃ k', k.kSocketSendBy c socketid data time_value = some (k', ⟨RETURN_NG, calls⟩) ∧
        k'.msgs = k.msgs := by
  unfold kSocketSendBy
  rw [if_neg low, found]
  simp only [sent]
  cases goesOn with
  | true => rfl
  | false =>
      refine ⟨_, rfl, ?_⟩
      unfold afterFailure
      split <;> rfl

/-- A transport that fails, or one that lets it go on. -/
theorem reportsSend_found (related : MsgTable.Related k.msgs l) (low : ¬ socketid < 1)
    {si : SocketInfo} (found : k.sockets.table.lookup socketid = some si)
    (type : si.si_type = .SI_TYPE_DATA ∨ si.si_type = .SI_TYPE_UDP ∨ si.si_type = .SI_TYPE_RAW)
    {goesOn : Bool} {calls : List SendCall} {data' : List UInt8}
    (sent : k.sendBy c (Infos.copy {} si) data = (goesOn, calls, data'))
    (same : k.Handed socketid data calls → data' = data) :
    k.ReportsSend c socketid data time_value l ↔
      goesOn = false ∨ k.full ∨ k.Handed socketid data calls ∧ l.Ready := by
  obtain ⟨found', id, known⟩ := getDataSocket_found found type
  have ran := kSocketSendBy_found low found' sent time_value
  cases goesOn with
  | false =>
      obtain ⟨k', ran, msgs⟩ := ran
      exact iff_of_true (reportsSend_ng ran msgs) (.inl rfl)
  | true =>
      rw [or_iff_right (by decide)]
      exact reportsSend_goesOn related id (by rw [id, known]) ran same

/-- A call on a descriptor that fails is seen. -/
theorem sent_iff (ret : Int32) (full ready : Prop) :
    decide (0 ≤ ret) = false ∨ full ∨ (decide (0 ≤ ret) = true ∧ data = data) ∧ ready ↔
      ret < 0 ∨ full ∨ ready := by
  by_cases failed : ret < 0
  · have low : ¬ 0 ≤ ret := Int32.not_le.mpr failed
    simp [failed, low]
  · have high : 0 ≤ ret := Int32.not_lt.mp failed
    simp [failed, high]

section Types

variable {id : Int16} {status : SiStatus} {info : DatasocketInfo}

theorem reportsSend_off (related : MsgTable.Related k.msgs l) (low : ¬ id < 1)
    (found : k.sockets.table.lookup id = some ⟨id, status, .data info⟩)
    (tls : k.si_tls id = .off) :
    k.ReportsSend c id data time_value l ↔ c.send < 0 ∨ k.full ∨ l.Ready := by
  rw [reportsSend_found related low found (.inl rfl) (sendBy_off c data tls) (fun _ => rfl),
    handed_singleton]
  exact sent_iff c.send _ _

theorem reportsSend_ssl (related : MsgTable.Related k.msgs l) (low : ¬ id < 1)
    (found : k.sockets.table.lookup id = some ⟨id, status, .data info⟩)
    (tls : k.si_tls id = .ssl) :
    k.ReportsSend c id data time_value l ↔ ¬ c.SSL_write ∨ k.full ∨ l.Ready := by
  rw [reportsSend_found related low found (.inl rfl) (sendBy_ssl c data tls) (fun _ => rfl)]
  cases done : c.SSL_write with
  | false => simp
  | true =>
      have handed : k.Handed id data (kTLSSend id data true c.waits).2 :=
        ⟨_, kTLSSend_handed data c.waits, rfl, rfl, .inr rfl⟩
      simp [handed]

/-- The answer is a success, and there has been no call. -/
theorem reportsSend_empty (related : MsgTable.Related k.msgs l) (low : ¬ id < 1)
    (found : k.sockets.table.lookup id = some ⟨id, status, .data info⟩)
    (tls : k.si_tls id = .empty) : k.ReportsSend c id data time_value l ↔ k.full := by
  rw [reportsSend_found related low found (.inl rfl) (sendBy_empty c data tls) (fun _ => rfl)]
  simp [not_handed_nil]

theorem reportsSend_addressed (related : MsgTable.Related k.msgs l) (low : ¬ id < 1)
    (found : k.sockets.table.lookup id = some ⟨id, status, .udp info⟩)
    (addressed : c.addressed info = true) :
    k.ReportsSend c id data time_value l ↔ c.send < 0 ∨ k.full ∨ l.Ready := by
  have type : SocketInfo.si_type ⟨id, status, .udp info⟩ = .SI_TYPE_UDP := rfl
  have searched := (getDataSocket_found found (.inr (.inl type))).1
  have sent := sendBy_addressed data searched addressed
  rw [reportsSend_found related low found (.inr (.inl type)) sent (fun _ => rfl), handed_singleton]
  exact sent_iff c.send _ _

/-- The same as for a connection that is lost. -/
theorem reportsSend_unaddressed (related : MsgTable.Related k.msgs l) (low : ¬ id < 1)
    (found : k.sockets.table.lookup id = some ⟨id, status, .udp info⟩)
    (unaddressed : c.addressed info = false) :
    k.ReportsSend c id data time_value l ↔ k.full := by
  have type : SocketInfo.si_type ⟨id, status, .udp info⟩ = .SI_TYPE_UDP := rfl
  have searched := (getDataSocket_found found (.inr (.inl type))).1
  have sent := sendBy_unaddressed data searched unaddressed
  rw [reportsSend_found related low found (.inr (.inl type)) sent (fun _ => rfl)]
  simp [not_handed_nil]

theorem reportsSend_raw (related : MsgTable.Related k.msgs l) (low : ¬ id < 1)
    (found : k.sockets.table.lookup id = some ⟨id, status, .raw info⟩) :
    k.ReportsSend c id data time_value l ↔ k.full ∨ 0 ≤ c.sendmsg ∧
      (if info.di_family = AF_INET then icmpPacket c.host data c.stack
        else icmp6Header data ++ c.stack) = data ∧ l.Ready := by
  have type : SocketInfo.si_type ⟨id, status, .raw info⟩ = .SI_TYPE_RAW := rfl
  have sent : k.sendBy c (Infos.copy {} ⟨id, status, .raw info⟩) data =
      (true, [(c.icmp_send (k.sockets.si_sockethandle id) info data).1],
        (c.icmp_send (k.sockets.si_sockethandle id) info data).2) := rfl
  have whole := icmp_send_data c (k.sockets.si_sockethandle id) info data
  have same : k.Handed id data [(c.icmp_send (k.sockets.si_sockethandle id) info data).1] →
      (c.icmp_send (k.sockets.si_sockethandle id) info data).2 = data := by
    rintro ⟨call, here, -, handed, -⟩
    cases List.mem_singleton.mp here
    exact whole handed
  rw [reportsSend_found related low found (.inr (.inr type)) sent same, icmp_send_call,
    handed_singleton]
  simp [and_assoc]

/-- No message is registered for it. -/
theorem reportsSend_listenUdp (low : ¬ id < 1)
    (found : k.sockets.table.lookup id = some ⟨id, status, .listenUdp info⟩) :
    k.ReportsSend c id data time_value l := by
  have refused : k.sockets.table.registrable id = none := by
    simp [SocketTable.registrable, found, Infos.refused, Infos.copy_si_type, SocketInfo.si_type]
  have ran : k.kSocketSendBy c id data time_value = some (k, ⟨RETURN_NG, []⟩) := by
    simp only [kSocketSendBy, if_neg low, getDataSocket_some found, SocketInfo.si_type]
    change k.registerSent (Infos.copy {} ⟨id, status, .listenUdp info⟩) time_value [] data = _
    rw [registerSent, copy_id, MsgTable.kDataRegist_refused refused]
    rfl
  exact reportsSend_ng ran rfl

end Types

/-- The answer is what has been done exactly when no failure is read as a success, and ICMP sends
    nothing but its data. -/
theorem reportsSend_iff (c : SysCalls) (socketid : Int16) (data : List UInt8)
    (time_value : Timeval) {k : Koid} {l : Log} (related : MsgTable.Related k.msgs l) :
    k.ReportsSend c socketid data time_value l ↔ k.Delivers c socketid data l := by
  by_cases low : socketid < 1
  · have ran : k.kSocketSendBy c socketid data time_value = some (k, ⟨RETURN_NG, []⟩) := if_pos low
    refine iff_of_true (reportsSend_ng ran rfl) ?_
    intro high
    exact absurd high (Int16.not_le.mpr low)
  · have high : 1 ≤ socketid := Int16.not_lt.mp low
    rw [Delivers, forall_prop_of_true high]
    cases found : k.sockets.table.lookup socketid with
    | none =>
        have ran : k.kSocketSendBy c socketid data time_value = some (k, ⟨RETURN_NG, []⟩) := by
          simp only [kSocketSendBy, if_neg low, Sockets.getDataSocket,
            MsgTable.kSocketGetSIBySocketId_none found]
        exact iff_of_true (reportsSend_ng ran rfl) (fun si none => by cases none)
    | some si =>
        simp only [Option.some.injEq, forall_eq']
        obtain ⟨id, status, info⟩ := si
        cases (SocketTable.lookup_id found).2
        cases info with
        | data info =>
            cases tls : k.si_tls id with
            | off => simpa only [tls] using reportsSend_off related low found tls
            | ssl => simpa only [tls] using reportsSend_ssl related low found tls
            | empty => simpa only [tls] using reportsSend_empty related low found tls
        | udp info =>
            dsimp only
            split_ifs with addressed
            · exact reportsSend_addressed related low found addressed
            · exact reportsSend_unaddressed related low found (Bool.eq_false_of_not_eq_true addressed)
        | raw info => exact reportsSend_raw related low found
        | listenUdp info => exact iff_of_true (reportsSend_listenUdp low found) trivial
        | unix | unixData | listenTcp _ =>
            have ran : k.kSocketSendBy c id data time_value = some (k, ⟨RETURN_NG, []⟩) := by
              simp only [kSocketSendBy, if_neg low, getDataSocket_some found, SocketInfo.si_type]
            exact iff_of_true (reportsSend_ng ran rfl) trivial

/-! ### The network behind the calls -/

/-- What the calls for a socket are to the model in which data goes to connections. -/
def net (c : SysCalls) (si : SocketInfo) (k : Koid) : Net where
  send _ := if si.si_type = .SI_TYPE_DATA ∧ k.si_tls si.si_socketid = .ssl then c.SSL_write
    else 0 ≤ c.send
  prepared := c.addressed (Infos.copy {} si).datasocketinfo
  TLSSessionMode := c.TLSSessionMode

/-- Data for a TCP or UDP socket whose descriptor is open goes the same way in both. -/
theorem kSocketSend_net (c : SysCalls) (data : List UInt8) (time_value : Timeval)
    {si : SocketInfo} (found : k.sockets.table.lookup socketid = some si)
    (type : si.si_type = .SI_TYPE_DATA ∨ si.si_type = .SI_TYPE_UDP)
    (isOpen : ∃ id, k.sockets.connections (k.sockets.si_sockethandle socketid) = some id) :
    (k.kSocketSend (k.net c si) socketid data time_value).map (fun r => (r.1, r.2.ok)) =
      (k.kSocketSendBy c socketid data time_value).map
        (fun r => (r.1, decide (r.2.ret = RETURN_OK))) := by
  by_cases low : socketid < 1
  · simp [kSocketSend, kSocketSendBy, low, RETURN_NG, RETURN_OK]
  · obtain ⟨id', connected⟩ := isOpen
    obtain ⟨found', id, -⟩ := getDataSocket_found found (type.imp_right .inl)
    have goes : ∃ written calls,
        k.sockets.sendData (k.net c si) (k.si_tls socketid) (Infos.copy {} si) =
          ((k.sendBy c (Infos.copy {} si) data).1, written) ∧
        (k.sendBy c (Infos.copy {} si) data).2 = (calls, data) := by
      obtain ⟨id'', status, info⟩ := si
      cases (SocketTable.lookup_id found).2
      cases info with
      | data info =>
          cases tls : k.si_tls id'' with
          | empty =>
              rw [sendBy_empty c data tls]
              exact ⟨none, [], by simp [Sockets.sendData, Infos.copy, Infos.si_type,
                SocketInfo.si_type, Sockets.sendTcp]⟩
          | off =>
              rw [sendBy_off c data tls]
              refine ⟨if 0 ≤ c.send then some id' else none, _, ?_, rfl⟩
              by_cases sent : 0 ≤ c.send <;>
                simp [Sockets.sendData, Infos.copy, Infos.si_type, SocketInfo.si_type,
                  Infos.si_socketid, Sockets.sendTcp, Sockets.transmit, net, tls, connected, sent]
          | ssl =>
              rw [sendBy_ssl c data tls]
              refine ⟨if c.SSL_write then some id' else none, _, ?_, rfl⟩
              cases sent : c.SSL_write <;>
                simp [Sockets.sendData, Infos.copy, Infos.si_type, SocketInfo.si_type,
                  Infos.si_socketid, Sockets.sendTcp, Sockets.transmit, net, tls, connected, sent]
      | udp info =>
          cases addressed : c.addressed info with
          | true =>
              rw [sendBy_addressed data found' addressed]
              refine ⟨if 0 ≤ c.send then some id' else none, _, ?_, rfl⟩
              by_cases sent : 0 ≤ c.send <;>
                simp [Sockets.sendData, Infos.copy, Infos.si_type, SocketInfo.si_type,
                  Infos.si_socketid, Sockets.kSocketSendDataUdp, Sockets.transmit, net, connected,
                  addressed, sent]
          | false =>
              rw [sendBy_unaddressed data found' addressed]
              exact ⟨none, [], by simp [Sockets.sendData, Infos.copy, Infos.si_type,
                SocketInfo.si_type, Sockets.kSocketSendDataUdp, net, addressed]⟩
      | _ => cases type <;> contradiction
    obtain ⟨written, calls, sent, sent'⟩ := goes
    simp only [kSocketSend, kSocketSendBy, if_neg low, found', id, sent]
    generalize k.sendBy c (Infos.copy {} si) data = by_ at sent sent' ⊢
    obtain ⟨goesOn, rest⟩ := by_
    cases sent'
    cases goesOn with
    | false => rfl
    | true =>
        simp only [registerSent, Option.map_map]
        rw [id]
        congr 1
        funext r
        obtain ⟨msgs, ok⟩ := r
        cases ok <;> rfl

/-- Nothing has been received, and there is one socket. -/
def oneSocket (info : UniqInfo) : Koid where
  sockets := {
    table := ⟨[⟨1, .SI_STATUS_ALIVE, info⟩], by simp [SOCKET_MAXNUM]⟩
    g_socket_socketid := 1
    si_sockethandle := fun _ => 5
    g_readfds := [5]
    connections := fun d => if d = 5 then some 1 else none }
  si_tls := fun _ => .off
  msgs := {}

/-- Calls that all are successful, but for what `getaddrinfo` says. -/
def resolving (getaddrinfo : Int32) : SysCalls where
  send := 0
  waits := 0
  SSL_write := true
  TLSSessionMode := false
  inet_ntop := true
  kIFGetDevicenameByLinkname := true
  getaddrinfo := getaddrinfo
  sendmsg := 48
  host := .little
  stack := []

theorem reportsSend_udp :
    (oneSocket (.udp {})).ReportsSend (resolving 0) 1 [] ⟨0, 0⟩ {} := by
  apply (reportsSend_iff (resolving 0) 1 [] ⟨0, 0⟩ ⟨[], .empty⟩).mpr
  intro _ si found
  cases found
  have addressed : (resolving 0).addressed {} = true := rfl
  dsimp only
  rw [if_pos addressed]
  exact .inr (.inr (.inl rfl))

/-- An address that is not found is a success. -/
theorem not_reportsSend : ¬ ∀ (c : SysCalls) (socketid : Int16) (data : List UInt8)
    (time_value : Timeval) (k : Koid) (l : Log), MsgTable.Related k.msgs l →
      k.ReportsSend c socketid data time_value l := by
  intro claim
  have reports := claim (resolving 8) 1 [] ⟨0, 0⟩ (oneSocket (.udp {})) {} ⟨[], .empty⟩
  have full := (reportsSend_unaddressed ⟨[], .empty⟩ (by decide) rfl rfl).mp reports
  have place : ¬ (0 : ℤ) = MSG_MAXMSGNUM := by decide
  exact place full

end Koid

end Tahi.Koi
