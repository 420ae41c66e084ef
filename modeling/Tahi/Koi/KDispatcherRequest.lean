import Tahi.General.RecordLayout
import Tahi.Koi.KDataLog
import Tahi.Koi.KPacket

/-! # The requests as the dispatcher decodes them

The octets of a request are copied to its structure, whose members have the layout of a
32-bit machine with the low octet first, and its numbers are converted to host byte order.
-/

namespace Tahi.Koi

open RecordLayout

inductive CType where
  | char
  | short
  | long
  | array (count : Nat)
  | in6_addr
deriving DecidableEq, Repr

def CType.member : CType → Member
  | .char => ⟨1, 1⟩
  | .short => ⟨2, 2⟩
  | .long => ⟨4, 4⟩
  | .array count => ⟨count, 1⟩
  | .in6_addr => ⟨16, 4⟩

def PASSWORD_LENGTH : Nat := 32
def CERTFILE_PATH : Nat := 128
def MODULE_PATH : Nat := 128
def PARSER_NAME : Nat := 64

/-! ## The structures

Behind `command` and `request_num`.
-/

/-- `s_port`, `d_port`, `ipver`, `protocol`, `interfaceid`, `s_addr`, `d_addr`, `flags`,
    `frameid`, `datalen`, `data`. -/
def CONNEC_REQ : List CType :=
  [.short, .short, .char, .char, .short, .in6_addr, .in6_addr, .short, .short, .long,
    .array MSG_MAXDATALEN]

/-- `socketid`, `reserve`, `datalen`, `data`. -/
def SEND_REQ : List CType := [.short, .short, .long, .array MSG_MAXDATALEN]

/-- `socketid`, `timeout_timer`. -/
def RECV_REQ : List CType := [.short, .short]

/-- `socketid`, `waittime`. -/
def CLOSE_REQ : List CType := [.short, .short]

/-- `interfaceid`, `frameid`, `ipver`, `protocol`, `s_port`, `s_addr`, `flags`. -/
def WAIT_REQ : List CType := [.short, .short, .char, .char, .short, .in6_addr, .short]

/-- `socketid`. -/
def SOCKINFO_REQ : List CType := [.short]

/-- `dataid`. -/
def DATAINFO_REQ : List CType := [.long]

/-- `socketid_flag`, `dataid_flag`, `socketid`, `dataid`. -/
def FLUSH_REQ : List CType := [.short, .short, .short, .long]

/-- `sessionmode`, `initialmode`, `ssltimeout`, `sslversion`, `passwd`, `rootpem`, `mypem`,
    `dhpem`, `nagle`, `clientveri`, `tmprsa`, `encsuit`. -/
def TLS_SETUP_REQ : List CType :=
  [.short, .short, .short, .short, .array PASSWORD_LENGTH, .array CERTFILE_PATH,
    .array CERTFILE_PATH, .array CERTFILE_PATH, .short, .short, .short, .array CERTFILE_PATH]

/-- `socketid`. -/
def TLS_CLEAR_REQ : List CType := [.short]

/-- `parserid`, `mode`, `parsernname`, `modulepath`. -/
def PARSER_ATTACH_REQ : List CType := [.short, .short, .array PARSER_NAME, .array MODULE_PATH]

/-! ## The functions for the commands -/

/-- How a member is converted when it has been copied. -/
inductive Conversion where
  | asIs
  | ntohs
  | ntohl
deriving DecidableEq, Repr

def Conversion.convert : Conversion → Nat → Nat
  | .asIs => id
  | .ntohs => Koi.ntohs
  | .ntohl => Koi.ntohl

inductive Value where
  | int (i : Int)
  | octets (s : List UInt8)
deriving DecidableEq, Repr

/-- What a member holds when its octets have been converted. `char`, `short` and `long` are
    signed. -/
def CType.assign : CType → Conversion → List UInt8 → Value
  | .char, c, octets => .int (Int8.ofNat (c.convert (load octets))).toInt
  | .short, c, octets => .int (Int16.ofNat (c.convert (load octets))).toInt
  | .long, c, octets => .int (Int32.ofNat (c.convert (load octets))).toInt
  | .array _, _, octets => .octets octets
  | .in6_addr, _, octets => .octets octets

/-- The structure of a command and the conversions in its function. -/
structure Request where
  members : List CType
  conversions : List Conversion

def process_command_connect_req : Request :=
  ⟨CONNEC_REQ, [.ntohs, .ntohs, .asIs, .asIs, .ntohs, .asIs, .asIs, .ntohs, .ntohs, .ntohl, .asIs]⟩

def process_command_send_req : Request := ⟨SEND_REQ, [.ntohs, .asIs, .ntohl, .asIs]⟩

def process_command_recv_req : Request := ⟨RECV_REQ, [.ntohs, .ntohs]⟩

def process_command_close_req : Request := ⟨CLOSE_REQ, [.ntohs, .ntohs]⟩

def process_command_wait_req : Request :=
  ⟨WAIT_REQ, [.ntohs, .ntohs, .asIs, .asIs, .ntohs, .asIs, .ntohs]⟩

def process_command_sockinfo_req : Request := ⟨SOCKINFO_REQ, [.ntohs]⟩

def process_command_datainfo_req : Request := ⟨DATAINFO_REQ, [.ntohl]⟩

def process_command_flush_req : Request := ⟨FLUSH_REQ, [.ntohs, .ntohs, .ntohs, .ntohs]⟩

def process_command_tls_setup_req : Request :=
  ⟨TLS_SETUP_REQ,
    [.ntohs, .ntohs, .ntohs, .ntohs, .asIs, .asIs, .asIs, .asIs, .ntohs, .ntohs, .ntohs, .asIs]⟩

def process_command_tls_clear_req : Request := ⟨TLS_CLEAR_REQ, [.ntohs]⟩

def process_command_parser_attach_req : Request :=
  ⟨PARSER_ATTACH_REQ, [.ntohs, .ntohs, .asIs, .asIs]⟩

/-- The members of the structure. `command` and `request_num` are there too, but not
    converted. -/
def Request.layout (r : Request) : List Member :=
  CType.short.member :: CType.short.member :: r.members.map CType.member

/-- The values that a function works on. `none` is a `memcpy` behind the structure. -/
def Request.values (r : Request) (databuf : List UInt8) : Option (List Value) :=
  (copy 0 (sizeof r.layout) databuf).map fun record =>
    List.zipWith (fun (m : CType × Conversion) octets => m.1.assign m.2 octets)
      (r.members.zip r.conversions) ((split record 0 r.layout).drop 2)

/-- The `switch` of `process_si_type_unixd_data`. -/
def request (command : Int16) : Option Request :=
  if command.toInt = CM_CM_SIG_CONNEC_REQ then some process_command_connect_req
  else if command.toInt = CM_CM_SIG_SEND_REQ then some process_command_send_req
  else if command.toInt = CM_CM_SIG_RECV_REQ then some process_command_recv_req
  else if command.toInt = CM_CM_SIG_CLOSE_REQ then some process_command_close_req
  else if command.toInt = CM_CM_SIG_WAIT_REQ then some process_command_wait_req
  else if command.toInt = CM_CM_SIG_SOCKINFO_REQ then some process_command_sockinfo_req
  else if command.toInt = CM_CM_SIG_DATAINFO_REQ then some process_command_datainfo_req
  else if command.toInt = CM_CM_SIG_FLUSH_REQ then some process_command_flush_req
  else if command.toInt = CM_CM_SIG_TLS_SETUP_REQ then some process_command_tls_setup_req
  else if command.toInt = CM_CM_SIG_TLS_CLEAR_REQ then some process_command_tls_clear_req
  else if command.toInt = CM_CM_SIG_PARSER_ATTACH_REQ then some process_command_parser_attach_req
  else none

/-- `command`, `request_num` and what the function for the command decodes. -/
def decode (databuf : List UInt8) : Option (List Value) :=
  let command := Int16.ofNat (ntohs (load (databuf.take 2)))
  let request_num := Int16.ofNat (ntohs (load ((databuf.drop 2).take 2)))
  match request command with
  | none => none
  | some r =>
      (r.values databuf).map fun values => .int command.toInt :: .int request_num.toInt :: values

/-- What `process_command_flush_req` does to the messages. -/
def flush (t : MsgTable) (databuf : List UInt8) : Option (MsgTable × Bool) :=
  match process_command_flush_req.values databuf with
  | some [.int socketid_flag, .int dataid_flag, .int socketid, .int dataid] =>
      t.kDataClear (Int16.ofInt socketid_flag) (Int16.ofInt dataid_flag) (Int16.ofInt socketid)
        dataid
  | _ => none

end Tahi.Koi
