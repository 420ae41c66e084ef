import Mathlib.Data.List.Nodup
import Tahi.General.Decimal
import Tahi.Koi.KSocketReuse
import Tahi.Koi.KSocketSendCalls

/-! # What is said about a socket

The ack to a sockinfo request is put together from the general part of a socket and from the part for
its type. Of the latter there are two, one of which is filled, and pointers to both are passed. The
number of the interface is in the name of the link, behind a keyword.
-/

namespace Tahi.Koi

def CM_IP_IPV6 : UInt8 := 0x06
def CM_IP_IPV4 : UInt8 := 0x04

def CM_STATUS_LISTEN : UInt8 := 0x01
def CM_STATUS_CONNEC : UInt8 := 0x02
def CM_STATUS_CLOSE : UInt8 := 0x03

def P_NULL : Int16 := 2

/-- `"Link"`. -/
def IF_KEYWORD : List UInt8 := [0x4c, 0x69, 0x6e, 0x6b]
def IF_KEYSIZE : ℕ := 4

/-- The request that a socket goes back to, which the source does not keep. -/
structure OpenedFor where
  protocol : UInt8 := 0
  interfaceid : Int16 := 0
deriving DecidableEq, Repr

/-- The port and the address are of the `ListenportInfo` of a TCP socket that listens. -/
structure SocketRecord extends SocketInfo where
  si_sockethandle : Int32
  si_linkname : List UInt8 := []
  si_peyload_type : Int16
  si_tls_mode : Int32 := 0
  li_s_port : UInt16 := 0
  li_s_addr : In6Addr := 0
  openedFor : OpenedFor := {}
deriving DecidableEq, Repr

/-- The port and the address that a `ListenportInfo` also has. -/
structure Listenport extends ListenportInfo where
  li_s_port : UInt16 := 0
  li_s_addr : In6Addr := 0
deriving DecidableEq, Repr

structure SockinfoAck where
  request_num : Int16
  result : Int16
  protocol : UInt8 := 0
  connection_status : UInt8 := 0
  ipver : UInt8 := 0
  s_port : UInt16 := 0
  d_port : UInt16 := 0
  s_addr : In6Addr := 0
  d_addr : In6Addr := 0
  frameid : Int16 := 0
  interfaceid : Int16 := 0
  tlsmode : Int16 := 0
deriving DecidableEq, Repr

/-- The table, with as many sockets as there are. -/
structure SocketRecords where
  sockets : List SocketRecord
  g_socket_socketid : Int16
deriving DecidableEq, Repr

/-- `linkname_temp_char` has two places, of which the last one is for the end of the text. -/
def linknameOf (interfaceid : Int16) : List UInt8 :=
  IF_KEYWORD ++ (Decimal.print interfaceid.toInt).take 1

def ipverOf (family : UInt8) : UInt8 :=
  if family = AF_INET6 then CM_IP_IPV6 else if family = AF_INET then CM_IP_IPV4 else 0

namespace SocketRecord

/-- It is none for UNIX sockets. -/
def protocol (si : SocketRecord) : Option UInt8 :=
  match si.si_type with
  | .SI_TYPE_DATA | .SI_TYPE_LISTEN_TCP =>
      some (if si.si_tls_mode ≠ 0 then CM_PROT_TLS else CM_PROT_TCP)
  | .SI_TYPE_UDP | .SI_TYPE_LISTEN_UDP => some CM_PROT_UDP
  | .SI_TYPE_RAW => some CM_PROT_ICMP
  | .SI_TYPE_UNIX | .SI_TYPE_UNIX_DATA => none

def connection_status (si : SocketRecord) : UInt8 :=
  if si.si_socket_status = .SI_STATUS_CLOSE then CM_STATUS_CLOSE
  else if si.si_type = .SI_TYPE_LISTEN_UDP ∨ si.si_type = .SI_TYPE_LISTEN_TCP then CM_STATUS_LISTEN
  else CM_STATUS_CONNEC

end SocketRecord

/-- What is written, or `none` where a pointer is followed that is not there. -/
def sockinfo_ack_return (request_num result : Int16) (socketinfo : Option SocketRecord)
    (datasocketinfo : Option DatasocketInfo) (listenportinfo : Option Listenport) :
    Option (List SockinfoAck) :=
  if result ≠ 0 then some [{ request_num := request_num, result := result }]
  else
    match socketinfo with
    | none => none
    | some si =>
        match si.protocol with
        | none => some []
        | some protocol =>
            let ipver :=
              match datasocketinfo, listenportinfo with
              | some di, _ => ipverOf di.di_family
              | none, some li => ipverOf li.li_family
              | none, none => 0
            let ack : SockinfoAck := {
              request_num := request_num
              result := result
              protocol := protocol
              connection_status := si.connection_status
              ipver := ipver
              frameid := si.si_peyload_type
              interfaceid := Int16.ofInt (Decimal.atoi (si.si_linkname.drop IF_KEYSIZE))
              tlsmode := si.si_tls_mode.toInt16 }
            match si.si_type with
            | .SI_TYPE_DATA | .SI_TYPE_UDP => datasocketinfo.map fun di =>
                [{ ack with s_port := di.di_s_port, d_port := di.di_d_port,
                            s_addr := di.di_s_addr, d_addr := di.di_d_addr }]
            | .SI_TYPE_LISTEN_UDP => datasocketinfo.map fun di =>
                [{ ack with s_port := di.di_s_port, s_addr := di.di_s_addr }]
            | .SI_TYPE_LISTEN_TCP => listenportinfo.map fun li =>
                [{ ack with s_port := li.li_s_port, s_addr := li.li_s_addr }]
            | .SI_TYPE_RAW => datasocketinfo.map fun di =>
                [{ ack with d_port := di.di_d_port, s_addr := di.di_s_addr, d_addr := di.di_d_addr }]
            | .SI_TYPE_UNIX | .SI_TYPE_UNIX_DATA => some [ack]

namespace SocketRecords

/-- The loop of both searches. It ends with a socket that does not match when there are more than
    `SOCKET_MAXNUM`. -/
def searchFrom (isMatch : SocketRecord → Bool) :
    ℕ → SocketRecord → List SocketRecord → Option SocketRecord
  | 0, si, _ => some si
  | loop + 1, si, rest =>
      if isMatch si then some si
      else
        match rest with
        | [] => none
        | next :: rest => searchFrom isMatch loop next rest

def search (isMatch : SocketRecord → Bool) (t : SocketRecords) : Option SocketRecord :=
  match t.sockets with
  | [] => none
  | first :: rest => searchFrom isMatch SOCKET_MAXNUM first rest

def kSocketGetSIBySocketId (socketid : Int16) (t : SocketRecords) : Option SocketRecord :=
  if socketid < 0 then none else t.search fun si => si.si_socketid == socketid

def kSocketGetSIBySocketHandle (sockethandle : Int32) (t : SocketRecords) : Option SocketRecord :=
  if sockethandle < 0 then none
  else t.search fun si => si.si_sockethandle == sockethandle && si.alive

/-- A variable for UNIX sockets is not passed, and both others are zeros before. -/
def process_command_sockinfo_req (request_num socketid : Int16) (t : SocketRecords) :
    Option (List SockinfoAck) :=
  match t.kSocketGetSIBySocketId socketid with
  | none => sockinfo_ack_return request_num CM_RESULT_SIG_NG_OTHER none none none
  | some si =>
      match si.si_uniq_info with
      | .unix | .unixData =>
          sockinfo_ack_return request_num CM_RESULT_SIG_NG_OTHER none none none
      | .udp info | .listenUdp info | .data info | .raw info =>
          sockinfo_ack_return request_num CM_RESULT_OK (some si) (some info) (some {})
      | .listenTcp info =>
          sockinfo_ack_return request_num CM_RESULT_OK (some si) (some {})
            (some ⟨info, si.li_s_port, si.li_s_addr⟩)

end SocketRecords

/-! ## How sockets come into the table -/

/-- What the calls come to that a socket needs, and what the system says about its ends. A socket that
    is not opened has no descriptor, be it for its arguments, its interface, its addresses, or a
    socket that listens at the same port. -/
structure SocketMade where
  sockfd : Option Int32
  malloc : Bool
  kParserGet : Bool
  getsockname : Bool
  s_port : UInt16
  d_port : UInt16
  s_addr : In6Addr
  d_addr : In6Addr
deriving DecidableEq, Repr

/-- What a connect request says. -/
structure ConnecReq extends ConnecFor where
  ipver : UInt8
  interfaceid : Int16
  frameid : Int16
  kIsTLSInitialize : Bool
deriving DecidableEq, Repr

structure WaitReq where
  ipver : UInt8
  protocol : UInt8
  interfaceid : Int16
  frameid : Int16
  kIsTLSInitialize : Bool
deriving DecidableEq, Repr

/-- The family that an address is looked up with. -/
def familyOf (ipver : UInt8) : UInt8 := if ipver = CM_IP_IPV6 then AF_INET6 else AF_INET

/-- It is IPv4 that is looked for here. -/
def rawFamilyOf (ipver : UInt8) : UInt8 := if ipver = CM_IP_IPV4 then AF_INET else AF_INET6

namespace SocketRecord

def closed (si : SocketRecord) : SocketRecord :=
  { si with si_socket_status := .SI_STATUS_CLOSE }

/-- The ends of a UDP socket are those of the last message. -/
def receives (o : SocketMade) (si : SocketRecord) : SocketRecord :=
  match si.si_uniq_info with
  | .udp info =>
      { si with si_uniq_info := .udp { info with di_s_port := o.s_port, di_d_port := o.d_port,
                                                 di_s_addr := o.s_addr, di_d_addr := o.d_addr } }
  | _ => si

end SocketRecord

namespace SocketMade

/-- A socket that has both ends. -/
def pair (o : SocketMade) (family : UInt8) (socketid : Int16) : DatasocketInfo where
  di_s_port := o.s_port
  di_d_port := o.d_port
  di_s_addr := o.s_addr
  di_d_addr := o.d_addr
  di_parent_socketid := socketid
  di_family := family

/-- The ports of a raw socket are 0. -/
def raw (o : SocketMade) (family : UInt8) : DatasocketInfo where
  di_s_addr := o.s_addr
  di_d_addr := o.d_addr
  di_family := family

/-- A UDP socket that listens has no other end. -/
def source (o : SocketMade) (family : UInt8) : DatasocketInfo where
  di_s_port := o.s_port
  di_s_addr := o.s_addr
  di_family := family

end SocketMade

namespace SocketRecords

def full (t : SocketRecords) : Prop := t.g_socket_socketid.toInt = SOCKET_MAXNUM

instance decidableFull (t : SocketRecords) : Decidable t.full :=
  inferInstanceAs (Decidable (_ = _))

def increment (t : SocketRecords) : SocketRecords :=
  { t with g_socket_socketid := t.g_socket_socketid + 1 }

def decrement (t : SocketRecords) : SocketRecords :=
  { t with g_socket_socketid := t.g_socket_socketid - 1 }

/-- The socket gets the id that has been given out. -/
def connect (si : SocketRecord) (t : SocketRecords) : SocketRecords :=
  { t with sockets := t.sockets ++ [{ si with si_socketid := t.g_socket_socketid }] }

/-- The loop of `kSocketMakeSocketStatusClose`. -/
def closeFrom (sockethandle : Int32) : ℕ → List SocketRecord → List SocketRecord
  | _, [] => []
  | 0, si :: rest => si.closed :: rest
  | loop + 1, si :: rest =>
      if si.si_sockethandle = sockethandle then si.closed :: rest
      else si :: closeFrom sockethandle loop rest

def kSocketMakeSocketStatusClose (sockethandle : Int32) (t : SocketRecords) : SocketRecords :=
  if sockethandle < 0 then t
  else { t with sockets := closeFrom sockethandle SOCKET_MAXNUM t.sockets }

section Open

variable (o : SocketMade) (si : SocketRecord) (t : SocketRecords)

/-- `si` is what is put into the new socket. -/
def kSocketOpen : SocketRecords :=
  if t.full then t
  else
    match o.sockfd with
    | none => t
    | some sockfd =>
        let t := t.kSocketMakeSocketStatusClose sockfd
        if !o.malloc then t
        else
          let t := t.increment
          if !o.kParserGet then t.decrement
          else if !o.getsockname then t
          else t.connect { si with si_sockethandle := sockfd }

def kSocketOpenWaitSocket : SocketRecords :=
  if t.full then t
  else
    match o.sockfd with
    | none => t
    | some sockfd =>
        let t := t.kSocketMakeSocketStatusClose sockfd
        if !o.malloc then t
        else
          let t := t.increment
          if !o.getsockname then t
          else if si.si_type = .SI_TYPE_LISTEN_UDP ∧ !o.kParserGet then t
          else t.connect { si with si_sockethandle := sockfd }

/-- `kSocketOpenWaitSocket` for a type that it does not know. -/
def kSocketOpenWaitSocketInvalid : SocketRecords :=
  if t.full then t
  else
    match o.sockfd with
    | none => t
    | some sockfd => t.kSocketMakeSocketStatusClose sockfd

/-- There is no test of the limit. -/
def kSocketOpenRaw : SocketRecords :=
  match o.sockfd with
  | none => t
  | some sockfd =>
      let t := t.kSocketMakeSocketStatusClose sockfd
      if !o.malloc then t
      else
        let t := t.increment
        if !o.kParserGet then t.decrement
        else t.connect { si with si_sockethandle := sockfd }

/-- `kSocketRegistDataSocketInfo` and `kSocketRegistUnixdSocketInfo`, for a connection that has been
    accepted. -/
def kSocketRegist : SocketRecords :=
  match o.sockfd with
  | none => t
  | some handle =>
      if t.full then t
      else if !o.malloc then t
      else t.increment.connect { si with si_sockethandle := handle }

end Open

/-- The id of a socket that is used again, or 0, and the table. -/
def kSocketCheckNewSocket (r : ConnecFor) (t : SocketRecords) : Option (Int16 × SocketRecords) :=
  match r.scan (t.sockets.map SocketRecord.toSocketInfo) 0 {} with
  | none => none
  | some { flg := true, .. } => some (0, t)
  | some { flg := false, reuseinfo } =>
      match reuseinfo with
      | none => none
      | some i =>
          match t.sockets[i]? with
          | none => none
          | some si => some (si.si_socketid, { t with
              sockets := t.sockets.modify i fun si =>
                { si with toSocketInfo := si.toSocketInfo.toDestination r } })

end SocketRecords

/-- A new socket without its id and its descriptor, which are given out later. -/
def SocketRecord.new (uniq : UniqInfo) (openedFor : OpenedFor) (linkname : List UInt8)
    (peyload_type : Int16) (tls_mode : Int32) : SocketRecord where
  si_socketid := 0
  si_socket_status := .SI_STATUS_ALIVE
  si_uniq_info := uniq
  si_sockethandle := -1
  si_linkname := linkname
  si_peyload_type := peyload_type
  si_tls_mode := tls_mode
  openedFor := openedFor

namespace ConnecReq

variable (r : ConnecReq) (o : SocketMade)

def openedFor : OpenedFor := ⟨r.protocol, r.interfaceid⟩

/-- What is passed for `tlsmode`. -/
def tlsmode : Int32 := if r.protocol = CM_PROT_TLS then 1 else 0

def newconnec_type : Option SiType :=
  if r.protocol = CM_PROT_TCP then some .SI_TYPE_DATA
  else if r.protocol = CM_PROT_UDP then some .SI_TYPE_UDP
  else if r.protocol = CM_PROT_ICMP then some .SI_TYPE_RAW
  else if r.protocol = CM_PROT_TLS then some .SI_TYPE_DATA
  else none

def record (uniq : UniqInfo) : SocketRecord :=
  .new uniq r.openedFor (linknameOf r.interfaceid) r.frameid r.tlsmode

/-- The parser of a raw socket is always the same. -/
def rawRecord : SocketRecord :=
  .new (.raw (o.raw (rawFamilyOf r.ipver))) r.openedFor (linknameOf r.interfaceid) P_NULL 0

end ConnecReq

namespace WaitReq

variable (w : WaitReq) (o : SocketMade)

def openedFor : OpenedFor := ⟨w.protocol, w.interfaceid⟩

def rawRecord : SocketRecord :=
  .new (.raw { o.raw (rawFamilyOf w.ipver) with di_d_addr := 0 }) w.openedFor
    (linknameOf w.interfaceid) P_NULL 0

def udpRecord : SocketRecord :=
  .new (.listenUdp (o.source (familyOf w.ipver))) w.openedFor (linknameOf w.interfaceid) w.frameid 0

def tcpRecord : SocketRecord :=
  { SocketRecord.new (.listenTcp { li_family := familyOf w.ipver }) w.openedFor
      (linknameOf w.interfaceid) w.frameid (if w.protocol = CM_PROT_TLS then 1 else 0) with
    li_s_port := o.s_port
    li_s_addr := o.s_addr }

end WaitReq

/-- The socket for a connection that comes from a socket that listens. -/
def SocketRecord.child (o : SocketMade) (parent : SocketRecord) : Option SocketRecord :=
  let new (uniq : UniqInfo) : SocketRecord :=
    .new uniq parent.openedFor parent.si_linkname parent.si_peyload_type parent.si_tls_mode
  match parent.si_uniq_info with
  | .listenTcp info => some (new (.data (o.pair info.li_family parent.si_socketid)))
  | .listenUdp info => some (new (.udp (o.pair info.di_family parent.si_socketid)))
  | _ => none

namespace SocketRecords

section Requests

variable (t : SocketRecords) (o : SocketMade)

/-- Without a socket in the table a pointer is followed that is not there. -/
def process_command_connect_req (r : ConnecReq) : Option SocketRecords :=
  if r.protocol = CM_PROT_TLS ∧ !r.kIsTLSInitialize then some t
  else
    match t.kSocketCheckNewSocket r.toConnecFor with
    | none => none
    | some (checksocketid, t) =>
        if checksocketid ≠ 0 then some t
        else
          match r.newconnec_type with
          | some .SI_TYPE_UDP =>
              some (t.kSocketOpen o (r.record (.udp (o.pair (familyOf r.ipver) 0))))
          | some .SI_TYPE_DATA =>
              some (t.kSocketOpen o (r.record (.data (o.pair (familyOf r.ipver) 0))))
          | some .SI_TYPE_RAW => some (t.kSocketOpenRaw o (r.rawRecord o))
          | _ => some t

def process_command_wait_req (w : WaitReq) : SocketRecords :=
  if w.protocol = CM_PROT_TLS ∧ !w.kIsTLSInitialize then t
  else if w.protocol = CM_PROT_TCP ∨ w.protocol = CM_PROT_TLS then
    t.kSocketOpenWaitSocket o (w.tcpRecord o)
  else if w.protocol = CM_PROT_UDP then t.kSocketOpenWaitSocket o (w.udpRecord o)
  else if w.protocol = CM_PROT_ICMP then t.kSocketOpenRaw o (w.rawRecord o)
  else t.kSocketOpenWaitSocketInvalid o

def process_si_type_listen (handle : Int32) : SocketRecords :=
  match t.kSocketGetSIBySocketHandle handle with
  | none => t
  | some parent =>
      match parent.child o with
      | none => t
      | some si => t.kSocketRegist o si

/-- The first socket with the descriptor that is alive. -/
def process_si_type_udp (handle : Int32) : SocketRecords :=
  match t.sockets.findIdx? fun si => si.si_sockethandle == handle && si.alive with
  | none => t
  | some i => { t with sockets := t.sockets.modify i (SocketRecord.receives o) }

/-- The sockets that a call of it closes may be any, and nothing but their status changes. -/
def kSocketClose (socketids : List Int16) : SocketRecords :=
  { t with sockets := t.sockets.map fun si =>
      if si.si_socketid ∈ socketids then si.closed else si }

end Requests

/-- What the daemon does. -/
inductive Event where
  | process_command_connect_req (r : ConnecReq) (o : SocketMade)
  | process_command_wait_req (w : WaitReq) (o : SocketMade)
  | process_si_type_listen (handle : Int32) (o : SocketMade)
  | process_si_type_udp (handle : Int32) (o : SocketMade)
  | process_si_type_unixd (o : SocketMade)
  | kSocketClose (socketids : List Int16)
deriving DecidableEq, Repr

def process (t : SocketRecords) : Event → Option SocketRecords
  | .process_command_connect_req r o => t.process_command_connect_req o r
  | .process_command_wait_req w o => some (t.process_command_wait_req o w)
  | .process_si_type_listen handle o => some (t.process_si_type_listen o handle)
  | .process_si_type_udp handle o => some (t.process_si_type_udp o handle)
  | .process_si_type_unixd o => some (t.kSocketRegist o (.new .unixData {} [] 0 0))
  | .kSocketClose socketids => some (t.kSocketClose socketids)

def step (t : SocketRecords) (event : Event) : Option (SocketRecords × Unit) :=
  (t.process event).map (·, ())

/-- `koid` opens the socket for the commands before it waits for anything. -/
def start : SocketRecords where
  sockets := [{ SocketRecord.new .unix {} [] 0 0 with si_socketid := 1 }]
  g_socket_socketid := 1

end SocketRecords

/-! ## What the ack is to say -/

namespace SocketRecord

/-- The part of the socket that is filled, as that of a socket that has both ends. -/
def info (si : SocketRecord) : DatasocketInfo :=
  match si.si_uniq_info with
  | .udp info | .data info | .listenUdp info | .raw info => info
  | .listenTcp info =>
      { di_s_port := si.li_s_port, di_s_addr := si.li_s_addr, di_family := info.li_family }
  | .unix | .unixData => {}

def isUnix (si : SocketRecord) : Prop := si.si_uniq_info = .unix ∨ si.si_uniq_info = .unixData

/-- The ack that goes with the socket and the request that it goes back to. -/
def own (request_num : Int16) (si : SocketRecord) : SockinfoAck where
  request_num := request_num
  result := CM_RESULT_OK
  protocol := si.openedFor.protocol
  connection_status := si.connection_status
  ipver := ipverOf si.info.di_family
  s_port := si.info.di_s_port
  d_port := si.info.di_d_port
  s_addr := si.info.di_s_addr
  d_addr := si.info.di_d_addr
  frameid := si.si_peyload_type
  interfaceid := si.openedFor.interfaceid
  tlsmode := si.si_tls_mode.toInt16

/-- What holds of a socket from the time it is opened. -/
structure Kept (si : SocketRecord) : Prop where
  linkname : si.si_linkname = linknameOf si.openedFor.interfaceid
  protocol : si.protocol = some si.openedFor.protocol
  source : ∀ info, si.si_uniq_info = .listenUdp info → info.di_d_port = 0 ∧ info.di_d_addr = 0
  ports : ∀ info, si.si_uniq_info = .raw info → info.di_s_port = 0
  family : ∀ info, si.si_uniq_info = .listenTcp info → ipverOf info.li_family ≠ 0

end SocketRecord

/-- The sockets that the ack is right for. -/
def Told (si_type : SiType) (interfaceid : Int16) : Prop :=
  si_type ≠ .SI_TYPE_LISTEN_TCP ∧ 0 ≤ interfaceid.toInt ∧ interfaceid.toInt ≤ 9

namespace SocketRecords

def Reports (t : SocketRecords) (si : SocketRecord) : Prop :=
  ∀ request_num, t.process_command_sockinfo_req request_num si.si_socketid =
    some [si.own request_num]

end SocketRecords

/-- The number of the interface comes back if it has one digit. -/
theorem interfaceid_iff (interfaceid : Int16) :
    Int16.ofInt (Decimal.atoi ((linknameOf interfaceid).drop IF_KEYSIZE)) = interfaceid ↔
      0 ≤ interfaceid.toInt ∧ interfaceid.toInt ≤ 9 := by
  have behind : (linknameOf interfaceid).drop IF_KEYSIZE =
      (Decimal.print interfaceid.toInt).take 1 := rfl
  obtain ⟨d, lt, read, same⟩ := Decimal.atoi_take_print interfaceid.toInt
  rw [behind, read, ← same, ← Int16.toInt_inj]
  have small : (Int16.ofInt d).toInt = d := by
    rw [Int16.toInt_ofInt]
    apply Int.bmod_eq_of_le <;> grind
  rw [small]

namespace SocketRecords

variable {t : SocketRecords} {si : SocketRecord}

/-- The ack of a socket that is found. -/
theorem reports_iff (found : t.kSocketGetSIBySocketId si.si_socketid = some si) (kept : si.Kept)
    (other : ¬ si.isUnix) : t.Reports si ↔ Told si.si_type si.openedFor.interfaceid := by
  rw [Told, ← interfaceid_iff, ← kept.linkname]
  have ok : ¬ CM_RESULT_OK ≠ 0 := by decide
  unfold Reports process_command_sockinfo_req
  rw [found]
  cases uniq : si.si_uniq_info with
  | unix => exact absurd (.inl uniq) other
  | unixData => exact absurd (.inr uniq) other
  | udp info | data info =>
      simp [sockinfo_ack_return, if_neg ok, kept.protocol, SocketInfo.si_type, uniq,
        SocketRecord.own, SocketRecord.info]
  | listenUdp info =>
      simp [sockinfo_ack_return, if_neg ok, kept.protocol, SocketInfo.si_type, uniq,
        SocketRecord.own, SocketRecord.info, kept.source info uniq]
  | raw info =>
      simp [sockinfo_ack_return, if_neg ok, kept.protocol, SocketInfo.si_type, uniq,
        SocketRecord.own, SocketRecord.info, kept.ports info uniq]
  | listenTcp info =>
      have family := kept.family info uniq
      have none_ : ipverOf 0 = 0 := by decide
      simp [sockinfo_ack_return, if_neg ok, kept.protocol, SocketInfo.si_type, uniq,
        SocketRecord.own, SocketRecord.info, none_, family.symm]

/-! ## Searching the table -/

theorem searchFrom_eq (isMatch : SocketRecord → Bool) {loop : ℕ} {first : SocketRecord}
    {rest : List SocketRecord} (enough : (first :: rest).length ≤ loop) :
    searchFrom isMatch loop first rest = (first :: rest).find? isMatch := by
  induction loop generalizing first rest with
  | zero => simp at enough
  | succ loop ih =>
      rw [searchFrom.eq_def, List.find?_cons]
      dsimp only
      cases isMatch first with
      | true => rfl
      | false =>
          cases rest with
          | nil => rfl
          | cons next rest => exact ih (Nat.le_of_succ_le_succ enough)

def ids (sockets : List SocketRecord) : List Int16 := sockets.map fun si => si.si_socketid

/-- The ids increase, none is above the counter, and there are no more sockets than ids. -/
structure Numbered (t : SocketRecords) : Prop where
  some_ : t.sockets ≠ []
  counter : 0 ≤ t.g_socket_socketid
  increasing : (ids t.sockets).Pairwise (· < ·)
  positive : ∀ socketid ∈ ids t.sockets, 0 < socketid
  upto : ∀ socketid ∈ ids t.sockets, socketid ≤ t.g_socket_socketid
  enough : t.sockets.length ≤ t.g_socket_socketid.toNatClampNeg

theorem Numbered.search_eq (numbered : t.Numbered) (isMatch : SocketRecord → Bool) :
    t.search isMatch = t.sockets.find? isMatch := by
  have upper := t.g_socket_socketid.toNatClampNeg_lt
  have enough := numbered.enough
  have room : t.sockets.length ≤ SOCKET_MAXNUM := by
    simp only [SOCKET_MAXNUM]
    omega
  unfold search
  cases sockets : t.sockets with
  | nil => rfl
  | cons first rest => exact searchFrom_eq isMatch (by rwa [sockets] at room)

/-- An id stands for one socket. -/
theorem Numbered.found (numbered : t.Numbered) (here : si ∈ t.sockets) :
    t.kSocketGetSIBySocketId si.si_socketid = some si := by
  have positive := numbered.positive si.si_socketid (List.mem_map_of_mem here)
  have distinct : (t.sockets.map fun si => si.si_socketid).Nodup :=
    numbered.increasing.imp (fun less => Int16.ne_of_lt less)
  rw [kSocketGetSIBySocketId, if_neg (Int16.not_lt.mpr (Int16.le_of_lt positive)),
    numbered.search_eq]
  cases found : t.sockets.find? fun other => other.si_socketid == si.si_socketid with
  | none => exact absurd (List.find?_eq_none.mp found si here) (by simp)
  | some other =>
      have same : other.si_socketid = si.si_socketid := by simpa using List.find?_some found
      rw [List.inj_on_of_nodup_map distinct (List.mem_of_find?_eq_some found) here same]

end SocketRecords

end Tahi.Koi
