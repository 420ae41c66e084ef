import Mathlib
import Tahi.General.Decimal
import Tahi.General.PerlHex
import Tahi.Koi.KSocket

/-! # The acks that the client decodes

The server writes an ack for every command, with its numbers in network byte order. The client
knows how long an ack has to be, for two commands from a number in the ack itself, and takes it
apart into a hash.
-/

namespace Tahi.Koi.KCommon

open Perl

/-! ## The acks -/

/-- The commands that are sent, with the names of the client. -/
inductive Command where
  | CONNECT
  | SEND
  | READ
  | CLOSE
  | LISTEN
  | CONNINFO
  | DATAINFO
  | CLEARBUFFER
  | TLSSETUP
  | TLSCLEAR
  | PARSERATTACH
deriving DecidableEq, Repr

/-- `CONNEC_ACK`, which is written for `SEND` too. -/
structure ConnecAck where
  command : UInt16
  request_num : UInt16
  result : UInt16
  socketid : UInt16
  dataid : UInt32
  tv_sec : UInt32
  tv_usec : UInt32

/-- `RECV_ACK`, of whose data only what there is is written. -/
structure RecvAck where
  command : UInt16
  request_num : UInt16
  result : UInt16
  socketid : UInt16
  dataid : UInt32
  tv_sec : UInt32
  tv_usec : UInt32
  s_port : UInt16
  d_port : UInt16
  ipver : UInt8
  reserve1 : UInt8
  reserve2 : UInt16
  s_addr : In6Addr
  d_addr : In6Addr
  data : List UInt8
  short : data.length < 2 ^ 32

/-- `CLOSE_ACK`, which is written for `LISTEN` too. -/
structure CloseAck where
  command : UInt16
  request_num : UInt16
  result : UInt16
  socketid : UInt16

structure SockinfoAck where
  command : UInt16
  request_num : UInt16
  result : UInt16
  protocol : UInt8
  connection_status : UInt8
  ipver : UInt8
  reserve1 : UInt8
  reserve2 : UInt16
  s_port : UInt16
  d_port : UInt16
  s_addr : In6Addr
  d_addr : In6Addr
  frameid : UInt16
  interfaceid : UInt16
  tlsmode : UInt32
  tlsssl : UInt32
  tlssession : UInt32

structure DatainfoAck where
  command : UInt16
  request_num : UInt16
  result : UInt16
  socketid : UInt16
  tv_sec : UInt32
  tv_usec : UInt32
  data : List UInt8
  short : data.length < 2 ^ 32

/-- `FLUSH_ACK`, and those of TLS and of the parsers. -/
structure FlushAck where
  command : UInt16
  request_num : UInt16
  result : UInt16

/-- What the server writes for each command. -/
def Ack : Command → Type
  | .CONNECT | .SEND => ConnecAck
  | .READ => RecvAck
  | .CLOSE | .LISTEN => CloseAck
  | .CONNINFO => SockinfoAck
  | .DATAINFO => DatainfoAck
  | .CLEARBUFFER | .TLSSETUP | .TLSCLEAR | .PARSERATTACH => FlushAck

/-- A number of an ack, with its size. -/
abbrev Field := ℕ × ℕ

def n (x : UInt16) : Field := (2, x.toNat)
def N (x : UInt32) : Field := (4, x.toNat)
def C (x : UInt8) : Field := (1, x.toNat)

/-- The octets of an address. -/
def In6Addr.octets (addr : In6Addr) : List UInt8 := packInt 16 addr.toNat

def ConnecAck.octets (a : ConnecAck) : List UInt8 :=
  pack [n a.command, n a.request_num, n a.result, n a.socketid, N a.dataid, N a.tv_sec,
    N a.tv_usec]

def RecvAck.octets (a : RecvAck) : List UInt8 :=
  pack [n a.command, n a.request_num, n a.result, n a.socketid, N a.dataid, N a.tv_sec,
      N a.tv_usec, n a.s_port, n a.d_port, C a.ipver, C a.reserve1, n a.reserve2] ++
    (In6Addr.octets a.s_addr ++ (In6Addr.octets a.d_addr ++ (pack [(4, a.data.length)] ++ a.data)))

def CloseAck.octets (a : CloseAck) : List UInt8 :=
  pack [n a.command, n a.request_num, n a.result, n a.socketid]

def SockinfoAck.octets (a : SockinfoAck) : List UInt8 :=
  pack [n a.command, n a.request_num, n a.result, C a.protocol, C a.connection_status, C a.ipver,
      C a.reserve1, n a.reserve2, n a.s_port, n a.d_port] ++
    (In6Addr.octets a.s_addr ++ (In6Addr.octets a.d_addr ++
      pack [n a.frameid, n a.interfaceid, N a.tlsmode, N a.tlsssl, N a.tlssession]))

def DatainfoAck.octets (a : DatainfoAck) : List UInt8 :=
  pack [n a.command, n a.request_num, n a.result, n a.socketid, N a.tv_sec, N a.tv_usec,
    (4, a.data.length)] ++ a.data

def FlushAck.octets (a : FlushAck) : List UInt8 := pack [n a.command, n a.request_num, n a.result]

def Ack.octets : (cmd : Command) → Ack cmd → List UInt8
  | .CONNECT | .SEND => ConnecAck.octets
  | .READ => RecvAck.octets
  | .CLOSE | .LISTEN => CloseAck.octets
  | .CONNINFO => SockinfoAck.octets
  | .DATAINFO => DatainfoAck.octets
  | .CLEARBUFFER | .TLSSETUP | .TLSCLEAR | .PARSERATTACH => FlushAck.octets

/-! ## The lengths -/

/-- `%sockio_cmdlen` for the answer to a command. -/
def sockio_cmdlen (cmd : Command) (msg : List UInt8) : ℕ :=
  match cmd with
  | .CONNECT => 20
  | .SEND => 20
  | .READ => if msg.length < 64 then 64 else 64 + field msg 60 4
  | .CLOSE => 8
  | .LISTEN => 8
  | .CONNINFO => 64
  | .DATAINFO => if msg.length < 20 then 20 else 20 + field msg 16 4
  | .CLEARBUFFER => 6
  | .TLSSETUP => 6
  | .TLSCLEAR => 6
  | .PARSERATTACH => 6

def kCheckDataLength (cmd : Command) (data : List UInt8) : Bool :=
  sockio_cmdlen cmd data ≤ data.length

/-! ## The decoders -/

inductive Value where
  | num (x : ℕ)
  | str (s : List UInt8)
deriving DecidableEq, Repr

/-- A hash, in the order in which it is filled. -/
abbrev Hash := List (String × Value)

/-- `unpack` of numbers of these sizes, and `a*` behind them, where there are octets enough. -/
def unpackNums : List ℕ → List UInt8 → List ℕ × List UInt8
  | [], data => ([], data)
  | size :: sizes, data =>
      let (nums, rest) := unpackNums sizes (data.drop size)
      (be (data.take size) :: nums, rest)

/-- The assignment of numbers to keys. -/
def assign (keys : List String) (nums : List ℕ) : Hash := keys.zip (nums.map .num)

/-- What `kInetNtoP` has when it has come to an element. -/
structure Compression where
  abbr : ℕ := 0
  compress : ℕ := 0
  cont : ℕ := 0
  dst : List UInt8 := []

def colon : UInt8 := 0x3a

def Compression.next (s : Compression) (element : ℕ) : Compression :=
  let s := if s.abbr = 0 ∧ element = 0 then
    { s with abbr := s.abbr + 1, compress := s.compress + 1 } else s
  let s := if element ≠ 0 then { s with compress := 0, cont := 0 } else s
  if s.compress ≠ 0 then
    if s.cont = 0 then { s with dst := s.dst ++ [colon], cont := s.cont + 1 } else s
  else { s with dst := s.dst ++ colon :: sprintfHex element }

def kInetNtoP (af : ℕ) (src : List UInt8) : Option (List UInt8) :=
  if af = 4 then
    some ([0x2e].intercalate ((src.take 4).map fun o => Decimal.print o.toNat))
  else if af = 6 then
    if src.length ≠ 16 then none
    else
      let elements := (unpackNums (List.replicate 8 2) src).1
      let first := elements.getD 0 0
      let last := elements.getD 7 0
      let dst := (((elements.drop 1).take 6).foldl Compression.next {}).dst ++ [colon]
      let dst := if first = 0 ∧ [colon, colon] <+: dst then dst else sprintfHex first ++ dst
      some (if last = 0 ∧ [colon, colon] <:+ dst then dst else dst ++ sprintfHex last)
  else none

/-- What the decoders of acks without addresses and data have in common. -/
def kMakeFixedAck (size : ℕ) (sizes : List ℕ) (keys : List String) (data : List UInt8) :
    Option Hash :=
  if data.length ≠ size then none
  else
    let (nums, _) := unpackNums sizes data
    if nums.getD 2 0 ≠ 0 then none else some (assign keys nums)

def kMakeConnectSendAck : List UInt8 → Option Hash :=
  kMakeFixedAck 20 [2, 2, 2, 2, 4, 4, 4]
    ["Command", "RequestNum", "Result", "SocketID", "DataID", "TimeStamp", "TimeStamp2"]

def kMakeSendAck : List UInt8 → Option Hash :=
  kMakeFixedAck 20 [2, 2, 2, 2, 4, 4, 4]
    ["Command", "RequestNum", "Result", "SocketID", "DataID", "TimeStamp", "TimeStamp2"]

def kMakeCloseAck : List UInt8 → Option Hash :=
  kMakeFixedAck 8 [2, 2, 2, 2] ["Command", "RequestNum", "Result", "SocketID"]

def kMakeListenAck : List UInt8 → Option Hash :=
  kMakeFixedAck 8 [2, 2, 2, 2] ["Command", "RequestNum", "Result", "SocketID"]

def kMakeClearAck : List UInt8 → Option Hash :=
  kMakeFixedAck 6 [2, 2, 2] ["Command", "RequestNum", "Result"]

/-- The commands that are sent for the log when there is no packet are not part of it. -/
def kMakeRecvAck (data : List UInt8) : Option Hash :=
  let datalen := data.length
  if 64 > datalen then none
  else
    let (nums, data) := unpackNums [2, 2, 2, 2, 4, 4, 4, 2, 2, 1, 1, 2] data
    if nums.getD 2 0 ≠ 0 then none
    else do
      let SrcAddr ← kInetNtoP (nums.getD 9 0) (data.take 16)
      let data := data.drop 16
      let DstAddr ← kInetNtoP (nums.getD 9 0) (data.take 16)
      let data := data.drop 16
      let (length, data) := unpackNums [4] data
      if datalen - 64 ≠ length.getD 0 0 then none
      else some (assign ["Command", "RequestNum", "Result", "SocketID", "DataID", "TimeStamp",
          "TimeStamp2", "SrcPort", "DstPort", "AddrType", "Reserve1", "Reserve2"] nums ++
        [("SrcAddr", .str SrcAddr), ("DstAddr", .str DstAddr)] ++ assign ["DataLength"] length ++
        [("Data", .str data)])

def kMakeConnInfoAck (data : List UInt8) : Option Hash :=
  if data.length ≠ 64 then none
  else
    let (nums, data) := unpackNums [2, 2, 2, 1, 1, 1, 1, 2, 2, 2] data
    if nums.getD 2 0 ≠ 0 then none
    else do
      let SrcAddr ← kInetNtoP (nums.getD 5 0) (data.take 16)
      let data := data.drop 16
      let DstAddr ← kInetNtoP (nums.getD 5 0) (data.take 16)
      let data := data.drop 16
      let (more, _) := unpackNums [2, 2, 4, 4, 4] data
      some (assign ["Command", "RequestNum", "Result", "Protocol", "Connection", "AddrType",
          "Reserve1", "Reserve2", "SrcPort", "DstPort"] nums ++
        [("SrcAddr", .str SrcAddr), ("DstAddr", .str DstAddr)] ++
        assign ["FrameID", "Interface", "TLSmode", "TLSssl", "TLSsession"] more)

def kMakeDataInfoAck (data : List UInt8) : Option Hash :=
  let datalen := data.length
  if 20 > datalen then none
  else
    let (nums, data) := unpackNums [2, 2, 2, 2, 4, 4, 4] data
    if nums.getD 2 0 ≠ 0 then none
    else if datalen - 20 ≠ nums.getD 6 0 then none
    else some (assign ["Command", "RequestNum", "Result", "SocketID", "TimeStamp", "TimeStamp2",
      "DataLength"] nums ++ [("Data", .str data)])

def kMakeData (cmd : Command) (data : List UInt8) : Option Hash :=
  match cmd with
  | .CONNECT => kMakeConnectSendAck data
  | .SEND => kMakeSendAck data
  | .READ => kMakeRecvAck data
  | .CLOSE => kMakeCloseAck data
  | .LISTEN => kMakeListenAck data
  | .CONNINFO => kMakeConnInfoAck data
  | .DATAINFO => kMakeDataInfoAck data
  | .CLEARBUFFER => kMakeClearAck data
  | .TLSSETUP => kMakeClearAck data
  | .TLSCLEAR => kMakeClearAck data
  | .PARSERATTACH => kMakeClearAck data

/-! ## What an ack says -/

def ConnecAck.report (a : ConnecAck) : Option Hash :=
  if a.result ≠ 0 then none
  else some [("Command", .num a.command.toNat), ("RequestNum", .num a.request_num.toNat),
    ("Result", .num 0), ("SocketID", .num a.socketid.toNat), ("DataID", .num a.dataid.toNat),
    ("TimeStamp", .num a.tv_sec.toNat), ("TimeStamp2", .num a.tv_usec.toNat)]

def RecvAck.report (a : RecvAck) : Option Hash :=
  if a.result ≠ 0 then none
  else do
    let SrcAddr ← kInetNtoP a.ipver.toNat (In6Addr.octets a.s_addr)
    let DstAddr ← kInetNtoP a.ipver.toNat (In6Addr.octets a.d_addr)
    some [("Command", .num a.command.toNat), ("RequestNum", .num a.request_num.toNat),
      ("Result", .num 0), ("SocketID", .num a.socketid.toNat), ("DataID", .num a.dataid.toNat),
      ("TimeStamp", .num a.tv_sec.toNat), ("TimeStamp2", .num a.tv_usec.toNat),
      ("SrcPort", .num a.s_port.toNat), ("DstPort", .num a.d_port.toNat),
      ("AddrType", .num a.ipver.toNat), ("Reserve1", .num a.reserve1.toNat),
      ("Reserve2", .num a.reserve2.toNat), ("SrcAddr", .str SrcAddr), ("DstAddr", .str DstAddr),
      ("DataLength", .num a.data.length), ("Data", .str a.data)]

def CloseAck.report (a : CloseAck) : Option Hash :=
  if a.result ≠ 0 then none
  else some [("Command", .num a.command.toNat), ("RequestNum", .num a.request_num.toNat),
    ("Result", .num 0), ("SocketID", .num a.socketid.toNat)]

def SockinfoAck.report (a : SockinfoAck) : Option Hash :=
  if a.result ≠ 0 then none
  else do
    let SrcAddr ← kInetNtoP a.ipver.toNat (In6Addr.octets a.s_addr)
    let DstAddr ← kInetNtoP a.ipver.toNat (In6Addr.octets a.d_addr)
    some [("Command", .num a.command.toNat), ("RequestNum", .num a.request_num.toNat),
      ("Result", .num 0), ("Protocol", .num a.protocol.toNat),
      ("Connection", .num a.connection_status.toNat), ("AddrType", .num a.ipver.toNat),
      ("Reserve1", .num a.reserve1.toNat), ("Reserve2", .num a.reserve2.toNat),
      ("SrcPort", .num a.s_port.toNat), ("DstPort", .num a.d_port.toNat),
      ("SrcAddr", .str SrcAddr), ("DstAddr", .str DstAddr), ("FrameID", .num a.frameid.toNat),
      ("Interface", .num a.interfaceid.toNat), ("TLSmode", .num a.tlsmode.toNat),
      ("TLSssl", .num a.tlsssl.toNat), ("TLSsession", .num a.tlssession.toNat)]

def DatainfoAck.report (a : DatainfoAck) : Option Hash :=
  if a.result ≠ 0 then none
  else some [("Command", .num a.command.toNat), ("RequestNum", .num a.request_num.toNat),
    ("Result", .num 0), ("SocketID", .num a.socketid.toNat), ("TimeStamp", .num a.tv_sec.toNat),
    ("TimeStamp2", .num a.tv_usec.toNat), ("DataLength", .num a.data.length),
    ("Data", .str a.data)]

def FlushAck.report (a : FlushAck) : Option Hash :=
  if a.result ≠ 0 then none
  else some [("Command", .num a.command.toNat), ("RequestNum", .num a.request_num.toNat),
    ("Result", .num 0)]

/-- The hash that an ack stands for. An ack of a failure stands for none. -/
def Ack.report : (cmd : Command) → Ack cmd → Option Hash
  | .CONNECT | .SEND => ConnecAck.report
  | .READ => RecvAck.report
  | .CLOSE | .LISTEN => CloseAck.report
  | .CONNINFO => SockinfoAck.report
  | .DATAINFO => DatainfoAck.report
  | .CLEARBUFFER | .TLSSETUP | .TLSCLEAR | .PARSERATTACH => FlushAck.report

/-! ## The decoders read what was written -/

theorem unpackNums_pack (fields : List Field) (rest : List UInt8) :
    unpackNums (fields.map Prod.fst) (pack fields ++ rest) =
      (fields.map fun f => f.2 % 256 ^ f.1, rest) := by
  induction fields with
  | nil => rfl
  | cons f fields ih =>
      obtain ⟨size, x⟩ := f
      simp only [List.map_cons, pack_cons, List.append_assoc, unpackNums,
        List.take_left' (length_packInt size x), List.drop_left' (length_packInt size x), ih,
        be_packInt]

/-- A template on its own numbers, each of which is as large as its type. -/
theorem unpackNums_fits (fields : List Field) (fits : ∀ f ∈ fields, f.2 < 256 ^ f.1)
    (rest : List UInt8) :
    unpackNums (fields.map Prod.fst) (pack fields ++ rest) = (fields.map Prod.snd, rest) := by
  rw [unpackNums_pack]
  congr 1
  exact List.map_congr_left fun f member => Nat.mod_eq_of_lt (fits f member)

theorem n_fits (x : UInt16) : (n x).2 < 256 ^ (n x).1 := x.toNat_lt

theorem N_fits (x : UInt32) : (N x).2 < 256 ^ (N x).1 := x.toNat_lt

theorem C_fits (x : UInt8) : (C x).2 < 256 ^ (C x).1 := x.toNat_lt

theorem result_eq_zero_iff (x : UInt16) : x.toNat = 0 ↔ x = 0 := by
  rw [← UInt16.toNat_inj]
  rfl

theorem kMakeFixedAck_pack (fields : List Field) (fits : ∀ f ∈ fields, f.2 < 256 ^ f.1)
    (keys : List String) :
    kMakeFixedAck (fields.map Prod.fst).sum (fields.map Prod.fst) keys (pack fields) =
      if (fields.map Prod.snd).getD 2 0 ≠ 0 then none
      else some (assign keys (fields.map Prod.snd)) := by
  have nums := unpackNums_fits fields fits []
  rw [List.append_nil] at nums
  rw [kMakeFixedAck, if_neg (by rw [length_pack]; exact not_not_intro rfl), nums]

theorem ConnecAck.decoded (a : ConnecAck) : kMakeConnectSendAck a.octets = a.report := by
  have made := kMakeFixedAck_pack [n a.command, n a.request_num, n a.result,
    n a.socketid, N a.dataid, N a.tv_sec, N a.tv_usec] (by simp [n_fits, N_fits])
    ["Command", "RequestNum", "Result", "SocketID", "DataID", "TimeStamp", "TimeStamp2"]
  refine made.trans ?_
  by_cases zero : a.result = 0
  · simp [ConnecAck.report, n, N, assign, zero]
  · simp [ConnecAck.report, n, N, zero, result_eq_zero_iff]

theorem CloseAck.decoded (a : CloseAck) : kMakeCloseAck a.octets = a.report := by
  have made := kMakeFixedAck_pack [n a.command, n a.request_num, n a.result,
    n a.socketid] (by simp [n_fits]) ["Command", "RequestNum", "Result", "SocketID"]
  refine made.trans ?_
  by_cases zero : a.result = 0
  · simp [CloseAck.report, n, assign, zero]
  · simp [CloseAck.report, n, zero, result_eq_zero_iff]

theorem FlushAck.decoded (a : FlushAck) : kMakeClearAck a.octets = a.report := by
  have made := kMakeFixedAck_pack [n a.command, n a.request_num, n a.result]
    (by simp [n_fits]) ["Command", "RequestNum", "Result"]
  refine made.trans ?_
  by_cases zero : a.result = 0
  · simp [FlushAck.report, n, assign, zero]
  · simp [FlushAck.report, n, zero, result_eq_zero_iff]

@[simp] theorem length_in6Addr (addr : In6Addr) : (In6Addr.octets addr).length = 16 :=
  length_packInt _ _

theorem DatainfoAck.length_octets (a : DatainfoAck) : a.octets.length = 20 + a.data.length := by
  rw [DatainfoAck.octets, List.length_append, length_pack]
  rfl

theorem DatainfoAck.decoded (a : DatainfoAck) : kMakeDataInfoAck a.octets = a.report := by
  have nums := unpackNums_fits [n a.command, n a.request_num, n a.result, n a.socketid,
    N a.tv_sec, N a.tv_usec, (4, a.data.length)] (by simpa [n_fits, N_fits] using a.short) a.data
  have size := a.length_octets
  have enough : ¬ 20 > a.octets.length := by omega
  have taken : unpackNums [2, 2, 2, 2, 4, 4, 4] a.octets = _ := nums
  rw [kMakeDataInfoAck, if_neg enough, taken, size, Nat.add_sub_cancel_left]
  by_cases zero : a.result = 0
  · simp [DatainfoAck.report, n, N, assign, zero]
  · simp [DatainfoAck.report, n, N, zero, result_eq_zero_iff]

theorem take_octets (addr : In6Addr) (rest : List UInt8) :
    (In6Addr.octets addr ++ rest).take 16 = In6Addr.octets addr :=
  List.take_left' (length_packInt _ _)

theorem drop_octets (addr : In6Addr) (rest : List UInt8) :
    (In6Addr.octets addr ++ rest).drop 16 = rest :=
  List.drop_left' (length_packInt _ _)

theorem RecvAck.length_octets (a : RecvAck) : a.octets.length = 64 + a.data.length := by
  simp only [RecvAck.octets, List.length_append, length_pack, length_in6Addr]
  simp only [n, N, C, List.map_cons, List.map_nil, List.sum_cons, List.sum_nil]
  omega

theorem RecvAck.decoded (a : RecvAck) : kMakeRecvAck a.octets = a.report := by
  have nums := unpackNums_fits [n a.command, n a.request_num, n a.result, n a.socketid,
    N a.dataid, N a.tv_sec, N a.tv_usec, n a.s_port, n a.d_port, C a.ipver, C a.reserve1,
    n a.reserve2] (by simp [n_fits, N_fits, C_fits])
    (In6Addr.octets a.s_addr ++ (In6Addr.octets a.d_addr ++ (pack [(4, a.data.length)] ++ a.data)))
  have length := unpackNums_fits [(4, a.data.length)] (by simpa using a.short) a.data
  have enough : ¬ 64 > a.octets.length := by
    rw [a.length_octets]
    omega
  have taken : unpackNums [2, 2, 2, 2, 4, 4, 4, 2, 2, 1, 1, 2] a.octets = _ := nums
  have behind : unpackNums [4] (pack [(4, a.data.length)] ++ a.data) = _ := length
  rw [kMakeRecvAck, if_neg enough, taken, a.length_octets, Nat.add_sub_cancel_left]
  simp only [take_octets, drop_octets, behind]
  by_cases zero : a.result = 0
  · simp [RecvAck.report, n, N, C, assign, zero]
  · simp [RecvAck.report, n, N, C, zero, result_eq_zero_iff]

theorem SockinfoAck.length_octets (a : SockinfoAck) : a.octets.length = 64 := by
  simp only [SockinfoAck.octets, List.length_append, length_pack, length_in6Addr]
  rfl

theorem SockinfoAck.decoded (a : SockinfoAck) : kMakeConnInfoAck a.octets = a.report := by
  have nums := unpackNums_fits [n a.command, n a.request_num, n a.result, C a.protocol,
    C a.connection_status, C a.ipver, C a.reserve1, n a.reserve2, n a.s_port, n a.d_port]
    (by simp [n_fits, C_fits])
    (In6Addr.octets a.s_addr ++ (In6Addr.octets a.d_addr ++
      pack [n a.frameid, n a.interfaceid, N a.tlsmode, N a.tlsssl, N a.tlssession]))
  have more := unpackNums_fits [n a.frameid, n a.interfaceid, N a.tlsmode, N a.tlsssl,
    N a.tlssession] (by simp [n_fits, N_fits]) []
  rw [List.append_nil] at more
  have taken : unpackNums [2, 2, 2, 1, 1, 1, 1, 2, 2, 2] a.octets = _ := nums
  have behind : unpackNums [2, 2, 4, 4, 4]
      (pack [n a.frameid, n a.interfaceid, N a.tlsmode, N a.tlsssl, N a.tlssession]) = _ := more
  rw [kMakeConnInfoAck, if_neg (not_not_intro a.length_octets), taken]
  simp only [take_octets, drop_octets, behind]
  by_cases zero : a.result = 0
  · simp [SockinfoAck.report, n, N, C, assign, zero]
  · simp [SockinfoAck.report, n, C, zero, result_eq_zero_iff]

/-- A whole ack is decoded to the hash that it stands for. -/
theorem kMakeData_octets (cmd : Command) (ack : Ack cmd) :
    kMakeData cmd (Ack.octets cmd ack) = Ack.report cmd ack := by
  cases cmd with
  | CONNECT | SEND => exact ConnecAck.decoded ack
  | READ => exact RecvAck.decoded ack
  | CLOSE | LISTEN => exact CloseAck.decoded ack
  | CONNINFO => exact SockinfoAck.decoded ack
  | DATAINFO => exact DatainfoAck.decoded ack
  | CLEARBUFFER | TLSSETUP | TLSCLEAR | PARSERATTACH => exact FlushAck.decoded ack

/-! ## The lengths are those of the acks -/

/-- A number is read from what has come of the octets when it has come. -/
theorem field_begun {msg octets : List UInt8} (begun : msg <+: octets) {pos size : ℕ}
    (come : pos + size ≤ msg.length) : field msg pos size = field octets pos size := by
  obtain ⟨rest, rfl⟩ := begun
  rw [field, field, List.drop_append_of_le_length (by omega), List.take_append_of_le_length]
  rw [List.length_drop]
  omega

theorem RecvAck.sockio_cmdlen_iff (a : RecvAck) {msg following : List UInt8}
    (begun : msg <+: a.octets ++ following) :
    sockio_cmdlen .READ msg ≤ msg.length ↔ a.octets.length ≤ msg.length := by
  obtain ⟨before, numbers⟩ : ∃ before, before = [n a.command, n a.request_num, n a.result,
      n a.socketid, N a.dataid, N a.tv_sec, N a.tv_usec, n a.s_port, n a.d_port, C a.ipver,
      C a.reserve1, n a.reserve2] ++ [(16, a.s_addr.toNat), (16, a.d_addr.toNat)] := ⟨_, rfl⟩
  have octets : a.octets ++ following =
      pack (before ++ (4, a.data.length) :: []) ++ (a.data ++ following) := by
    rw [numbers, pack_append, pack_append]
    simp only [RecvAck.octets, In6Addr.octets, pack_cons, pack_nil, List.append_nil,
      List.append_assoc]
  have position : (before.map Prod.fst).sum = 60 := by
    rw [numbers]
    simp [n, N, C]
  have datalen : field (a.octets ++ following) 60 4 = a.data.length := by
    rw [octets, ← position, field_pack]
    exact Nat.mod_eq_of_lt a.short
  rw [sockio_cmdlen, a.length_octets]
  split
  · omega
  · rw [field_begun begun (by omega), datalen]

theorem DatainfoAck.sockio_cmdlen_iff (a : DatainfoAck) {msg following : List UInt8}
    (begun : msg <+: a.octets ++ following) :
    sockio_cmdlen .DATAINFO msg ≤ msg.length ↔ a.octets.length ≤ msg.length := by
  obtain ⟨before, numbers⟩ : ∃ before, before = [n a.command, n a.request_num, n a.result,
      n a.socketid, N a.tv_sec, N a.tv_usec] := ⟨_, rfl⟩
  have octets : a.octets ++ following =
      pack (before ++ (4, a.data.length) :: []) ++ (a.data ++ following) := by
    rw [numbers, DatainfoAck.octets, List.append_assoc]
    rfl
  have position : (before.map Prod.fst).sum = 16 := by
    rw [numbers]
    rfl
  have datalen : field (a.octets ++ following) 16 4 = a.data.length := by
    rw [octets, ← position, field_pack]
    exact Nat.mod_eq_of_lt a.short
  rw [sockio_cmdlen, a.length_octets]
  split
  · omega
  · rw [field_begun begun (by omega), datalen]

/-- As soon as it is whole, and not before, an ack is as long as it has to be. -/
theorem kCheckDataLength_iff (cmd : Command) (ack : Ack cmd) {msg following : List UInt8}
    (begun : msg <+: Ack.octets cmd ack ++ following) :
    kCheckDataLength cmd msg = true ↔ (Ack.octets cmd ack).length ≤ msg.length := by
  rw [kCheckDataLength, decide_eq_true_iff]
  cases cmd with
  | CONNECT | SEND =>
      rw [show (Ack.octets _ ack).length = 20 from length_pack _]
      exact Iff.rfl
  | READ => exact RecvAck.sockio_cmdlen_iff ack begun
  | CLOSE | LISTEN =>
      rw [show (Ack.octets _ ack).length = 8 from length_pack _]
      exact Iff.rfl
  | CONNINFO =>
      rw [show (Ack.octets .CONNINFO ack).length = 64 from SockinfoAck.length_octets ack]
      exact Iff.rfl
  | DATAINFO => exact DatainfoAck.sockio_cmdlen_iff ack begun
  | CLEARBUFFER | TLSSETUP | TLSCLEAR | PARSERATTACH =>
      rw [show (Ack.octets _ ack).length = 6 from length_pack _]
      exact Iff.rfl

theorem Ack.octets_pos (cmd : Command) (ack : Ack cmd) : 0 < (Ack.octets cmd ack).length := by
  by_contra none_
  have empty := (kCheckDataLength_iff cmd ack (List.nil_prefix : [] <+: _ ++ [])).mpr (by omega)
  cases cmd <;> cases empty

end Tahi.Koi.KCommon
