import Mathlib.Algebra.Order.Ring.Int
import Tahi.Koi.UnixdStream

/-! # The requests as the client packs them

Each `kPacket_` function of the client packs its values with templates of Perl and writes the
octets one behind the other.
-/

namespace Tahi.Koi

/-- A value with its letter in the template, or a string that is appended as it is. -/
inductive Item where
  | C (v : Int)
  | n (v : Int)
  | N (v : Int)
  | a (count : Nat) (s : List UInt8)
  | octets (s : List UInt8)
deriving DecidableEq, Repr

/-- A number loses the bits that do not fit, and a string is cut or filled with zeros. -/
def Item.pack : Item → List UInt8
  | .C v => [UInt8.ofInt v]
  | .n v => [UInt8.ofInt (v / 256), UInt8.ofInt v]
  | .N v =>
      [UInt8.ofInt (v / 16777216), UInt8.ofInt (v / 65536), UInt8.ofInt (v / 256), UInt8.ofInt v]
  | .a count s => s.take count ++ List.replicate (count - s.length) 0
  | .octets s => s

/-- `%sockio_proto`. -/
inductive Protocol where
  | TCP
  | UDP
  | ICMP
  | TLS
deriving DecidableEq, Repr

def Protocol.number : Protocol → Int
  | .TCP => 1
  | .UDP => 2
  | .ICMP => 3
  | .TLS => 4

/-- `%sockio_af`. -/
inductive AddrFamily where
  | INET
  | INET6
deriving DecidableEq, Repr

def AddrFamily.number : AddrFamily → Int
  | .INET => 4
  | .INET6 => 6

/-- What `kInetPtoN` returns. It packs an address with `C16` or `n8`. -/
structure Address where
  octets : List UInt8
  sixteen : octets.length = 16

/-- The calls, with the values that are packed: after the defaults, and with a name replaced
    by its number. -/
inductive Command where
  | kPacket_ConnectSend (protocol : Protocol) (frameid : Int) (addrfamily : AddrFamily)
      (srcaddr dstaddr : Address) (srcport dstport datalen : Int) (data : List UInt8)
      (interface flags : Int)
  | kPacket_Send (socketid datalen : Int) (data : List UInt8)
  | kPacket_Recv (socketid sec : Int)
  | kPacket_Close (socketid sec : Int)
  | kPacket_StartRecv (protocol : Protocol) (frameid : Int) (addrfamily : AddrFamily)
      (srcaddr : Address) (srcport interface flags : Int)
  | kPacket_ConnectInfo (socketid : Int)
  | kPacket_DataInfo (dataid : Int)
  | kPacket_Clear (socketid_flag dataid_flag socketid dataid : Int)
  | kPacket_TlsSetup (sessionmode initialmode ssltimeout sslversion : Int)
      (passwd rootpem mypem dhpem : List UInt8) (nagle clientveri tmprsa : Int)
      (encsuit : List UInt8)
  | kPacket_TlsClear (socketid : Int)
  | kPacket_ParserAttach (parserid : Int) (parsername modulepath : List UInt8)
      (enough : 100 ≤ parserid)
  | kPacket_ParserDetach (parserid : Int) (enough : 100 ≤ parserid)

namespace Command

/-- What is packed behind `$sockio_cmd` and `$SOCKIO_SEQ`. -/
def fields : Command → List Item
  | .kPacket_ConnectSend protocol frameid addrfamily srcaddr dstaddr srcport dstport datalen data
      interface flags =>
      [.n srcport, .n dstport, .C addrfamily.number, .C protocol.number, .n interface,
        .octets srcaddr.octets, .octets dstaddr.octets, .n flags, .n frameid, .N datalen,
        .octets data]
  | .kPacket_Send socketid datalen data => [.n socketid, .n 0, .N datalen, .octets data]
  | .kPacket_Recv socketid sec => [.n socketid, .n sec]
  | .kPacket_Close socketid sec => [.n socketid, .n sec]
  | .kPacket_StartRecv protocol frameid addrfamily srcaddr srcport interface flags =>
      [.n interface, .n frameid, .C addrfamily.number, .C protocol.number, .n srcport,
        .octets srcaddr.octets, .n flags]
  | .kPacket_ConnectInfo socketid => [.n socketid]
  | .kPacket_DataInfo dataid => [.N dataid]
  | .kPacket_Clear socketid_flag dataid_flag socketid dataid =>
      [.n socketid_flag, .n dataid_flag, .n socketid, .N dataid]
  | .kPacket_TlsSetup sessionmode initialmode ssltimeout sslversion passwd rootpem mypem dhpem
      nagle clientveri tmprsa encsuit =>
      [.n sessionmode, .n initialmode, .n ssltimeout, .n sslversion, .a 32 passwd, .a 128 rootpem,
        .a 128 mypem, .a 128 dhpem, .n nagle, .n clientveri, .n tmprsa, .a 128 encsuit]
  | .kPacket_TlsClear socketid => [.n socketid]
  | .kPacket_ParserAttach parserid parsername modulepath _ =>
      [.n parserid, .n 0, .a 64 parsername, .a 128 modulepath]
  | .kPacket_ParserDetach parserid _ => [.n parserid, .n 1, .a 64 [], .a 128 []]

/-- `%sockio_cmd`. -/
def sockio_cmd : Command → Int
  | .kPacket_ConnectSend .. => 0x0101
  | .kPacket_Send .. => 0x0102
  | .kPacket_Recv .. => 0x0103
  | .kPacket_Close .. => 0x0104
  | .kPacket_StartRecv .. => 0x0105
  | .kPacket_ConnectInfo .. => 0x0106
  | .kPacket_DataInfo .. => 0x0107
  | .kPacket_Clear .. => 0x0108
  | .kPacket_TlsSetup .. => 0x0109
  | .kPacket_TlsClear .. => 0x010A
  | .kPacket_ParserAttach .. => 0x010B
  | .kPacket_ParserDetach .. => 0x010B

/-- With the `seq`th request number. -/
def message (seq : Int) (c : Command) : List Item := .n c.sockio_cmd :: .n seq :: c.fields

/-- The octets that `PKTSendCMD` writes. -/
def packed (seq : Int) (c : Command) : List UInt8 := ((c.message seq).map Item.pack).flatten

end Command

end Tahi.Koi
