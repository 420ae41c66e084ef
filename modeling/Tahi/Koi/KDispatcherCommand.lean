import Mathlib.Algebra.Order.Ring.Int
import Tahi.Koi.KRecvTimeoutTimer

/-! # The functions for the commands

Each command of the client has a function that does what is asked for and writes an ack. The
results of the operations on sockets, of OpenSSL and of the parsers are any. The messages and
the timers of the receive requests are those of the tables.
-/

namespace Tahi.Koi

def RETURN_OK : Int32 := 0
def RETURN_NG : Int32 := -1

def CM_PROT_TCP : UInt8 := 0x01
def CM_PROT_UDP : UInt8 := 0x02
def CM_PROT_ICMP : UInt8 := 0x03
def CM_PROT_TLS : UInt8 := 0x04

def CM_RESULT_SIG_NG_OTHER : Int16 := UInt16.toInt16 0x8105
def CM_RESULT_SIG_TLS_NOINIT : Int16 := UInt16.toInt16 0x8106

def CM_CM_SIG_CONNEC_ACK : Nat := 0x8101
def CM_CM_SIG_SEND_ACK : Nat := 0x8102
def CM_CM_SIG_RECV_ACK : Nat := 0x8103
def CM_CM_SIG_CLOSE_ACK : Nat := 0x8104
def CM_CM_SIG_WAIT_ACK : Nat := 0x8105
def CM_CM_SIG_SOCKINFO_ACK : Nat := 0x8106
def CM_CM_SIG_DATAINFO_ACK : Nat := 0x8107
def CM_CM_SIG_FLUSH_ACK : Nat := 0x8108
def CM_CM_SIG_TLS_SETUP_ACK : Nat := 0x8109
def CM_CM_SIG_TLS_CLEAR_ACK : Nat := 0x810A
def CM_CM_SIG_PARSER_ATTACH_ACK : Nat := 0x810B

/-- The start of every ack. -/
structure Ack where
  handle : Int32
  command : Nat
  request_num : Int16
  result : Int16
deriving DecidableEq, Repr

/-- What `kSocketSend` returns, and the message that it has registered. -/
structure Sending where
  ret : Int32
  logged : Option (SocketTable × Int16 × List UInt8 × Timeval) := none
deriving Repr

def Sending.regist (s : Sending) (msgs : MsgTable) : Option MsgTable :=
  match s.logged with
  | none => some msgs
  | some (table, socketid, data, datatime) =>
      (msgs.kDataRegist table socketid MSG_SOCKETMODE_SEND data datatime).map Prod.fst

/-- A connect request, and what the functions that it calls return. -/
structure Connec where
  protocol : UInt8
  datalen : Int32 := 0
  kIsTLSInitialize : Bool := false
  kSocketCheckNewSocket : Int32 := 0
  checksocketid : Int16 := 0
  /-- `kSocketOpen` or `kSocketOpenRaw`. -/
  kSocketOpen : Int32 := 0
  kSocketSend : Sending := ⟨0, none⟩
deriving Repr

def Connec.newconnec_type (c : Connec) : Option SiType :=
  if c.protocol = CM_PROT_TCP then some .SI_TYPE_DATA
  else if c.protocol = CM_PROT_UDP then some .SI_TYPE_UDP
  else if c.protocol = CM_PROT_ICMP then some .SI_TYPE_RAW
  else if c.protocol = CM_PROT_TLS then some .SI_TYPE_DATA
  else none

/-- A wait request. -/
structure Wait where
  protocol : UInt8
  kIsTLSInitialize : Bool := false
  /-- `kSocketOpenWaitSocket` or `kSocketOpenRaw`. -/
  ret : Int32 := 0
deriving Repr

inductive Operation where
  | connec_req (c : Connec)
  | send_req (kSocketSend : Sending)
  | recv_req (socketid timeout_timer : Int16)
  | close_req (socketid waittime : Int16) (kCloseTimerSet : Int32)
  | wait_req (w : Wait)
  | sockinfo_req (socketid : Int16)
  | datainfo_req (dataid : Int)
  | flush_req (socketid_flag dataid_flag socketid : Int16) (dataid : Int)
  | tls_setup_req (kTLSInitialize : Int32)
  | tls_clear_req (socketid : Int16)
  /-- `kParserSet2` or `kParserDelete`. -/
  | parser_attach_req (done : Bool)
deriving Repr

/-- A request when it is dispatched. -/
structure Dispatch where
  handle : Int32
  request_num : Int16
  table : SocketTable
  g_socket_socketid : Int16
  time : Timeval
  operation : Operation
deriving Repr

namespace Dispatch

variable (d : Dispatch)

def ack (command : Nat) (result : Int16) : Ack := ⟨d.handle, command, d.request_num, result⟩

def process_command_connect_req (c : Connec) (t : Timers) : Option (Timers × List Ack) :=
  if c.protocol = CM_PROT_TLS ∧ !c.kIsTLSInitialize then
    some (t, [d.ack CM_CM_SIG_CONNEC_ACK CM_RESULT_SIG_TLS_NOINIT])
  else if c.kSocketCheckNewSocket < 0 then
    some (t, [d.ack CM_CM_SIG_CONNEC_ACK CM_RESULT_SIG_NG_OTHER])
  else if c.checksocketid = 0 ∧ c.newconnec_type ≠ none ∧ c.kSocketOpen < 0 then
    some (t, [d.ack CM_CM_SIG_CONNEC_ACK CM_RESULT_SIG_NG_OTHER])
  else if c.datalen = 0 then some (t, [d.ack CM_CM_SIG_CONNEC_ACK CM_RESULT_OK])
  else
    (c.kSocketSend.regist t.msgs).map fun msgs =>
      ({ t with msgs := msgs },
        if c.kSocketSend.ret = 0 then [d.ack CM_CM_SIG_CONNEC_ACK CM_RESULT_OK]
        -- It goes on behind the ack for the failure.
        else [d.ack CM_CM_SIG_CONNEC_ACK CM_RESULT_SIG_NG_OTHER,
          d.ack CM_CM_SIG_CONNEC_ACK CM_RESULT_OK])

def process_command_send_req (kSocketSend : Sending) (t : Timers) : Option (Timers × List Ack) :=
  (kSocketSend.regist t.msgs).map fun msgs =>
    ({ t with msgs := msgs },
      if kSocketSend.ret = 0 then [d.ack CM_CM_SIG_SEND_ACK CM_RESULT_OK]
      else [d.ack CM_CM_SIG_SEND_ACK CM_RESULT_SIG_NG_OTHER])

/-- What `kRecvTimerSet` returns is not looked at. -/
def process_command_recv_req (socketid timeout_timer : Int16) (t : Timers) :
    Option (Timers × List Ack) :=
  match t.msgs.kDataGetDataBySocketid d.table socketid with
  | none => none
  | some (msgs, reply) =>
      let t := { t with msgs := msgs }
      match reply with
      | .delivered _ => some (t, [d.ack CM_CM_SIG_RECV_ACK CM_RESULT_OK])
      | .noData =>
          (t.kRecvTimerSet d.g_socket_socketid d.handle socketid timeout_timer.toInt d.request_num
            d.time).map fun (t, _) => (t, [])
      | _ => some (t, [d.ack CM_CM_SIG_RECV_ACK CM_RESULT_SIG_NG_OTHER])

def process_command_close_req (socketid waittime : Int16) (kCloseTimerSet : Int32) : List Ack :=
  if socketid < 0 ∨ waittime < 0 then [d.ack CM_CM_SIG_CLOSE_ACK CM_RESULT_SIG_NG_OTHER]
  else if kCloseTimerSet ≠ 0 then [d.ack CM_CM_SIG_CLOSE_ACK CM_RESULT_SIG_NG_OTHER]
  else [d.ack CM_CM_SIG_CLOSE_ACK CM_RESULT_OK]

def process_command_wait_req (w : Wait) : List Ack :=
  if w.protocol = CM_PROT_TLS ∧ !w.kIsTLSInitialize then
    [d.ack CM_CM_SIG_WAIT_ACK CM_RESULT_SIG_TLS_NOINIT]
  else if w.ret ≠ 0 then [d.ack CM_CM_SIG_WAIT_ACK CM_RESULT_SIG_NG_OTHER]
  else [d.ack CM_CM_SIG_WAIT_ACK CM_RESULT_OK]

/-- With `CM_RESULT_OK`. It gives up when the socket is a UNIX one. -/
def sockinfo_ack_return (socketinfo : Option SiType) : List Ack :=
  match socketinfo with
  | some .SI_TYPE_DATA | some .SI_TYPE_LISTEN_TCP | some .SI_TYPE_UDP | some .SI_TYPE_LISTEN_UDP
  | some .SI_TYPE_RAW => [d.ack CM_CM_SIG_SOCKINFO_ACK CM_RESULT_OK]
  | some .SI_TYPE_UNIX | some .SI_TYPE_UNIX_DATA | none => []

/-- The socket table is asked without a variable for UNIX sockets, and refuses them. -/
def process_command_sockinfo_req (socketid : Int16) : List Ack :=
  match d.table.kSocketGetSIBySocketId socketid {} with
  | (false, _) => [d.ack CM_CM_SIG_SOCKINFO_ACK CM_RESULT_SIG_NG_OTHER]
  | (true, infos) =>
      match infos.si_type with
      | some .SI_TYPE_UNIX | some .SI_TYPE_UNIX_DATA =>
          [d.ack CM_CM_SIG_SOCKINFO_ACK CM_RESULT_SIG_NG_OTHER]
      | si_type => d.sockinfo_ack_return si_type

def process_command_datainfo_req (dataid : Int) (t : Timers) : Option (Timers × List Ack) :=
  (t.msgs.kDataGetDataByDataid dataid).map fun
    | .found _ => (t, [d.ack CM_CM_SIG_DATAINFO_ACK CM_RESULT_OK])
    | _ => (t, [d.ack CM_CM_SIG_DATAINFO_ACK CM_RESULT_SIG_NG_OTHER])

def process_command_flush_req (socketid_flag dataid_flag socketid : Int16) (dataid : Int)
    (t : Timers) : Option (Timers × List Ack) :=
  (t.msgs.kDataClear socketid_flag dataid_flag socketid dataid).map fun (msgs, ret) =>
    ({ t with msgs := msgs },
      if !ret then [d.ack CM_CM_SIG_FLUSH_ACK CM_RESULT_SIG_NG_OTHER]
      else [d.ack CM_CM_SIG_FLUSH_ACK CM_RESULT_OK])

def process_command_tls_setup_req (kTLSInitialize : Int32) : List Ack :=
  if kTLSInitialize ≠ 0 then [d.ack CM_CM_SIG_TLS_SETUP_ACK CM_RESULT_SIG_NG_OTHER]
  else [d.ack CM_CM_SIG_TLS_SETUP_ACK CM_RESULT_OK]

/-- It closes the TLS sessions that there are, and returns the same for all of them. -/
def kTLSClear (_socketid : Int16) : Int32 := RETURN_OK

/-- What is not 0 counts as success. -/
def process_command_tls_clear_req (socketid : Int16) : List Ack :=
  if kTLSClear socketid = 0 then [d.ack CM_CM_SIG_TLS_CLEAR_ACK CM_RESULT_SIG_NG_OTHER]
  else [d.ack CM_CM_SIG_TLS_CLEAR_ACK CM_RESULT_OK]

def process_command_parser_attach_req (done : Bool) : List Ack :=
  let ret := !done
  [d.ack CM_CM_SIG_PARSER_ATTACH_ACK (if ret then CM_RESULT_SIG_NG_OTHER else CM_RESULT_OK)]

/-- The function for the command, and the acks that it writes. -/
def process (t : Timers) : Option (Timers × List Ack) :=
  match d.operation with
  | .connec_req c => d.process_command_connect_req c t
  | .send_req kSocketSend => d.process_command_send_req kSocketSend t
  | .recv_req socketid timeout_timer => d.process_command_recv_req socketid timeout_timer t
  | .close_req socketid waittime kCloseTimerSet =>
      some (t, d.process_command_close_req socketid waittime kCloseTimerSet)
  | .wait_req w => some (t, d.process_command_wait_req w)
  | .sockinfo_req socketid => some (t, d.process_command_sockinfo_req socketid)
  | .datainfo_req dataid => d.process_command_datainfo_req dataid t
  | .flush_req socketid_flag dataid_flag socketid dataid =>
      d.process_command_flush_req socketid_flag dataid_flag socketid dataid t
  | .tls_setup_req kTLSInitialize => some (t, d.process_command_tls_setup_req kTLSInitialize)
  | .tls_clear_req socketid => some (t, d.process_command_tls_clear_req socketid)
  | .parser_attach_req done => some (t, d.process_command_parser_attach_req done)

end Dispatch

/-- What the dispatcher is called for. -/
inductive Task where
  | request (d : Dispatch)
  | arrive (table : SocketTable) (socketid : Int16) (data : List UInt8) (datatime : Timeval)
  | proc (table : SocketTable) (current_time : Timeval)
deriving Repr

def RecvAck.ack (ack : RecvAck) : Ack :=
  ⟨ack.handle, CM_CM_SIG_RECV_ACK, ack.request_num, ack.result⟩

/-- A task, and the acks that are written. -/
def Timers.perform (t : Timers) : Task → Option (Timers × List Ack)
  | .request d => d.process t
  | .arrive table socketid data datatime =>
      (t.msgs.kDataRegist table socketid MSG_SOCKETMODE_RECV data datatime).map
        fun (msgs, _) => ({ t with msgs := msgs }, [])
  | .proc table current_time =>
      (t.kRecvTimerProc table current_time).map fun (t, acks) => (t, acks.map RecvAck.ack)

/-! ## What is expected -/

/-- The ack for a request. -/
structure Expected where
  handle : Int32
  request_num : Int16
  ok : Bool
deriving DecidableEq, Repr

/-- Its result is OK if and only if the operation has succeeded. -/
def Ack.Is (ack : Ack) (expected : Expected) : Prop :=
  ack.handle = expected.handle ∧ ack.request_num = expected.request_num ∧
    (ack.result = CM_RESULT_OK ↔ expected.ok = true)

namespace Sending

def registLog (s : Sending) (log : Log) : Log :=
  match s.logged with
  | none => log
  | some (table, socketid, data, datatime) =>
      (log.step (.regist table socketid MSG_SOCKETMODE_SEND data datatime)).1

/-- The message is not registered behind one that has been cleared. -/
def Fine (s : Sending) (log : Log) : Prop :=
  match s.logged with
  | none => True
  | some (table, socketid, data, datatime) =>
      log.Fine (.regist table socketid MSG_SOCKETMODE_SEND data datatime)

instance (s : Sending) (log : Log) : Decidable (s.Fine log) :=
  match h : s.logged with
  | none => isTrue (by rw [Fine, h]; trivial)
  | some (table, socketid, data, datatime) =>
      decidable_of_iff (log.Fine (.regist table socketid MSG_SOCKETMODE_SEND data datatime))
        (by rw [Fine, h])

end Sending

namespace Connec

/-- There is a socket for the data. -/
def hasSocket (c : Connec) : Prop :=
  ¬(c.protocol = CM_PROT_TLS ∧ !c.kIsTLSInitialize) ∧ ¬c.kSocketCheckNewSocket < 0 ∧
    (c.checksocketid ≠ 0 ∨ c.newconnec_type ≠ none ∧ ¬c.kSocketOpen < 0)

instance (c : Connec) : Decidable c.hasSocket := inferInstanceAs (Decidable (_ ∧ _ ∧ _))

/-- It is known how to open a socket, when one has to be opened. -/
def Known (c : Connec) : Prop :=
  c.kSocketCheckNewSocket < 0 ∨ c.checksocketid ≠ 0 ∨ c.newconnec_type ≠ none

instance (c : Connec) : Decidable c.Known := inferInstanceAs (Decidable (_ ∨ _ ∨ _))

end Connec

namespace Pending

/-- What a request does, and whether it has succeeded. `none` is a receive request that waits
    for data. -/
def request (p : Pending) (d : Dispatch) : Pending × Option Bool :=
  match d.operation with
  | .connec_req c =>
      if c.hasSocket then
        if c.datalen = 0 then (p, some true)
        else ({ p with log := c.kSocketSend.registLog p.log }, some (c.kSocketSend.ret == 0))
      else (p, some false)
  | .send_req kSocketSend =>
      ({ p with log := kSocketSend.registLog p.log }, some (kSocketSend.ret == 0))
  | .recv_req socketid timeout_timer =>
      match p.log.step (.getBySocketid d.table socketid) with
      | (log, .delivered _) => ({ p with log := log }, some true)
      | (_, .noData) =>
          match p.step (.set d.g_socket_socketid d.handle socketid timeout_timer.toInt
            d.request_num d.time) with
          | (p, .set true) => (p, none)
          | (p, _) => (p, some false)
      | (log, _) => ({ p with log := log }, some false)
  | .close_req socketid waittime kCloseTimerSet =>
      (p, some (!decide (socketid < 0) && !decide (waittime < 0) && kCloseTimerSet == 0))
  | .wait_req w => (p, some ((w.protocol != CM_PROT_TLS || w.kIsTLSInitialize) && w.ret == 0))
  | .sockinfo_req socketid =>
      (p, some ((d.table.lookup socketid).any fun si =>
        si.si_type != .SI_TYPE_UNIX && si.si_type != .SI_TYPE_UNIX_DATA))
  | .datainfo_req dataid => (p, some (p.log.messages.any fun msg => msg.msg_dataid == dataid))
  | .flush_req socketid_flag dataid_flag socketid dataid =>
      match p.log.step (.clear socketid_flag dataid_flag socketid dataid) with
      | (log, reply) => ({ p with log := log }, some (reply == .clear true))
  | .tls_setup_req kTLSInitialize => (p, some (kTLSInitialize == RETURN_OK))
  | .tls_clear_req socketid => (p, some (Dispatch.kTLSClear socketid == RETURN_OK))
  | .parser_attach_req done => (p, some done)

/-- Each request has one ack, or waits for it. -/
def perform (p : Pending) : Task → Pending × List Expected
  | .request d =>
      match p.request d with
      | (p, none) => (p, [])
      | (p, some ok) => (p, [⟨d.handle, d.request_num, ok⟩])
  | .arrive table socketid data datatime =>
      ({ p with
          log := (p.log.step (.regist table socketid MSG_SOCKETMODE_RECV data datatime)).1 }, [])
  | .proc table current_time =>
      let (timers, log, acks) := sweep table current_time p.timers p.log
      ({ timers := timers, log := log },
        acks.map fun ack => ⟨ack.handle, ack.request_num, ack.msgdata.isSome⟩)

end Pending

end Tahi.Koi
