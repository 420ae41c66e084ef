import Tahi.Kink.ISAKMP
import Tahi.Kink.Kerberos

/-! # Decoding KINK messages

A message is a header and payloads up to the first without a next type. The payloads of an
encrypted one are decoded from its plaintext by the same loop.
-/

namespace Tahi.Kink

open Perl FuelLoop

mutual

structure KINKPayload where
  common : Common
  body : KINKBody

/-- The keys that only the payloads of one type have. -/
inductive KINKBody where
  | AP_REQ (epoch : Option Nat) (ap_req : Str)
  | AP_REP (epoch : Option Nat) (ap_rep : Str)
  | KRB_ERROR (krb_error : TLV)
  | TGT_REQ (princ_len : List Digit) (princ_name : Str)
  | TGT_REP (tgt : Str)
  | ISAKMP (inner_next_payload : Option Nat) (qmmaj qmmin : Nat) (reserved2 : Option Nat)
      (payloads : List QuickModePayload)
  | ENCRYPT (encrypted : Str) (inner_next_payload reserved2 : Option Nat)
      (payloads : List KINKPayload)
  | ERROR (error_code : Option Nat)

end

/-- `unpack('C C n N')`. -/
def numberFields (data : Str) : List Item :=
  unpack [.int 1, .int 1, .int 2, .int 4] data.octets

def isakmpFields (data : Str) : List Item :=
  unpack [.int 1, .int 1, .int 2, .int 1, .int 1, .int 2] data.octets

def kDecKINK_AP_REQ_Payload (data : Str) : KINKPayload :=
  let v := numberFields data
  let c := common data v
  ⟨c, .AP_REQ (Item.num? v[3]?) (substr c.self 8 (some (c.length - 8)))⟩

def kDecKINK_AP_REP_Payload (data : Str) : KINKPayload :=
  let v := numberFields data
  let c := common data v
  ⟨c, .AP_REP (Item.num? v[3]?) (substr c.self 8 (some (c.length - 8)))⟩

/-- The octets of the error in its payload. -/
def krbError (data : Str) : Str :=
  let c := common data (genericFields data)
  substr c.self 4 (some (c.length - 4))

def kDecKINK_KRB_ERROR_Payload (data : Str) : Except Exit KINKPayload :=
  match decode_Kerberos_KRB_ERROR (krbError data) with
  | .error exit => .error (.asn1 exit)
  | .ok krb_error => .ok ⟨common data (genericFields data), .KRB_ERROR krb_error⟩

def kDecKINK_TGT_REQ_Payload (data : Str) : KINKPayload :=
  let v := genericFields data
  let c := common data v
  let princ_name := substr c.self 4 none
  ⟨c, .TGT_REQ (hex (substr princ_name 0 (some 2)).octets) (substr princ_name 2 none)⟩

def kDecKINK_TGT_REP_Payload (data : Str) : KINKPayload :=
  let v := genericFields data
  let c := common data v
  ⟨c, .TGT_REP (substr c.self 4 none)⟩

/-- The data and the first type of the quick mode payloads inside a payload. -/
def quickModeStart (data : Str) : PayloadsState QuickModePayload :=
  let v := isakmpFields data
  let c := common data v
  ⟨substr c.self 8 (some (c.length - 8)), Item.num? v[3]?, []⟩

def kDecKINK_ISAKMP_Payload (fuel : Nat) (data : Str) : Option (Except Exit KINKPayload) :=
  let v := isakmpFields data
  let version := (Item.num? v[4]?).getD 0
  let start := quickModeStart data
  (decode_ISAKMP_Payload fuel start.data start.next_payload).map fun decoded =>
    decoded.map fun quick_mode_payload =>
      ⟨common data v, .ISAKMP start.next_payload (0xf &&& (version >>> 4)) (0xf &&& version)
        (Item.num? v[5]?) quick_mode_payload⟩

/-- `kDecKINK_ENCRYPT_Payload` without `$plain`. -/
def kDecKINK_ENCRYPT (data : Str) : KINKPayload :=
  let v := genericFields data
  let c := common data v
  ⟨c, .ENCRYPT (substr c.self 4 none) none none []⟩

def kDecKINK_ERROR_Payload (data : Str) : KINKPayload :=
  let v := numberFields data
  ⟨common data v, .ERROR (Item.num? v[3]?)⟩

def decode_functions : Nat → Option (Nat → Str → Option (Except Exit KINKPayload))
  | 1 => some fun _ data => some (.ok (kDecKINK_AP_REQ_Payload data))
  | 2 => some fun _ data => some (.ok (kDecKINK_AP_REP_Payload data))
  | 3 => some fun _ data => some (kDecKINK_KRB_ERROR_Payload data)
  | 4 => some fun _ data => some (.ok (kDecKINK_TGT_REQ_Payload data))
  | 5 => some fun _ data => some (.ok (kDecKINK_TGT_REP_Payload data))
  | 6 => some kDecKINK_ISAKMP_Payload
  | 7 => some fun _ data => some (.ok (kDecKINK_ENCRYPT data))
  | 8 => some fun _ data => some (.ok (kDecKINK_ERROR_Payload data))
  | _ => none

/-- What the loop does when a payload was decoded, or when its decoder ended the process. -/
def PayloadsState.behind (s : PayloadsState KINKPayload) :
    Except Exit KINKPayload → Turn (PayloadsState KINKPayload) (Except Exit (List KINKPayload))
  | .error exit => .done (.error exit)
  | .ok payload =>
      .next ⟨payload.common.remain, payload.common.nextPayload, s.payloads ++ [payload]⟩

/-- The loops over the payloads, in the function `sub`. -/
def payloadsTurn (sub : String) : Nat → PayloadsState KINKPayload →
    Option (Turn (PayloadsState KINKPayload) (Except Exit (List KINKPayload))) :=
  typeTurn sub decode_functions PayloadsState.behind

structure Header where
  self : Str
  remain : Str
  type : Option Nat
  mjVer : Nat
  reserved : Nat
  length : Option Nat
  doi : Option Nat
  xid : Option Nat
  nextPayload : Option Nat
  ackreq : Nat
  reserved2 : Nat
  cksumLen : Option Nat
  payloads : List KINKPayload := []
  cksum : List Digit
  garbage : Option (List Digit)

def kDecKINKHeader (data : Str) : Header :=
  let self := substr data 0 (some 16)
  let v := unpack [.int 1, .int 1, .int 2, .int 4, .int 4, .int 1, .int 1, .int 2] self.octets
  let version := (Item.num? v[1]?).getD 0
  let length := (Item.num? v[2]?).getD 0
  let reserved2 := (Item.num? v[6]?).getD 0
  let cksumlen := (Item.num? v[7]?).getD 0
  let remain := substr data 16 (some (length - 16))
  { self
    remain := if cksumlen ≠ 0 then substr remain 0 (some (-cksumlen)) else remain
    type := Item.num? v[0]?
    mjVer := version >>> 4
    reserved := version &&& 0x0f
    length := Item.num? v[2]?
    doi := Item.num? v[3]?
    xid := Item.num? v[4]?
    nextPayload := Item.num? v[5]?
    ackreq := reserved2 >>> 7
    reserved2 := reserved2 &&& 0x7f
    cksumLen := Item.num? v[7]?
    cksum := if cksumlen ≠ 0 then hex (substr remain (-cksumlen) none).octets else []
    garbage := (substr data length none).map hex }

/-- Where the loop over the payloads of a message begins. -/
def packetStart (data : Str) : PayloadsState KINKPayload :=
  let header := kDecKINKHeader data
  ⟨header.remain, header.nextPayload, []⟩

def kDecKINKPacket (fuel : Nat) (data : Str) : Option (Except Exit Header) :=
  (run (payloadsTurn "kDecKINKPacket") fuel (packetStart data)).map fun decoded =>
    decoded.map fun payloads => { kDecKINKHeader data with payloads }

/-- The encrypted payload in its plaintext, which is 28 octets shorter. -/
def plainCommon (data : Str) : Common :=
  let v := isakmpFields data
  cut data (Item.num? v[0]?) (Item.num? v[1]?) (some ((Item.num? v[2]?).getD 0 - 28))

/-- Where the loop over the payloads inside an encrypted one begins. -/
def plainStart (data : Str) : PayloadsState KINKPayload :=
  let v := isakmpFields data
  let c := plainCommon data
  ⟨substr c.self 8 (some (c.length - 8)), Item.num? v[3]?, []⟩

def kDecKINK_ENCRYPT_Payload (fuel : Nat) (data : Str) (plain : Bool) :
    Option (Except Exit KINKPayload) :=
  if plain then
    let v := isakmpFields data
    let reserved2 := (Item.num? v[4]?).getD 0 <<< 16 + (Item.num? v[5]?).getD 0
    (run (payloadsTurn "kDecKINK_ENCRYPT_Payload") fuel (plainStart data)).map fun decoded =>
      decoded.map fun payloads =>
        ⟨plainCommon data, .ENCRYPT none (plainStart data).next_payload (some reserved2) payloads⟩
  else some (.ok (kDecKINK_ENCRYPT data))

end Tahi.Kink
