import Tahi.Dns.KDnsName

/-! # The data of DNS records

For each type of record there is a function that generates its data and one that decodes it
in its message. Data that is generated is a record when it is put behind a name.
-/

namespace Tahi.Dns

open Perl

/-- What a decoder leaves in `@strerror` and what it returns. Where there is no outcome it dies,
    or names lead through more pointers than calls are allowed. -/
abbrev Outcome (α : Type) := List StrError × Option α

/-- A call of another decoder. If it fails, this is registered and the caller fails, too. -/
def callUnless {α β : Type} (called : Option (Outcome α)) (line : Nat) (function string : String)
    (next : List StrError → α → Option (Outcome β)) : Option (Outcome β) :=
  match called with
  | none => none
  | some (strerror, none) => some (kReg_DNS_Error strerror line function string, none)
  | some (strerror, some result) => next strerror result

/-- `unpack` of numbers at an offset, which may not be behind the end. -/
def numbers (data : List UInt8) (offset : Nat) (sizes : List Nat) : Option (List Nat) :=
  if data.length < offset then none
  else some ((unpack (sizes.map .int) (data.drop offset)).filterMap fun item =>
    Item.num? (some item))

/-- `unpack` of so many octets at an offset. There is no template for less than none. -/
def octets (data : List UInt8) (offset : Nat) (length : Int) : Option (List UInt8) :=
  if data.length < offset ∨ length < 0 then none
  else some ((data.drop offset).take length.toNat)

/-! ## Strings and records -/

/-- The hash `kDec_DNS_String` returns. An octet is taken at least. -/
structure DNSString where
  _size_ : Nat
  length : Nat
  string : Str
  positive : 0 < _size_
deriving DecidableEq, Repr

def kGen_DNS_String (length : Option Nat) (string : Str) : List UInt8 :=
  let _string_ := string.getD []
  let _length_ := length.getD _string_.length
  packInt 1 _length_ ++ _string_

def kDec_DNS_String (data : List UInt8) (offset : Nat) : Outcome DNSString :=
  let strerror := kInit_DNS_Error
  match data[offset]? with
  | none =>
      (kReg_DNS_Error strerror 534 "kDec_DNS_String"
        s!"$datalen: {data.length} -- requires {offset + 1} bytes.", none)
  | some octet =>
      let strlen := octet.toNat
      if strlen = 0 then (strerror, some ⟨1, strlen, none, Nat.one_pos⟩)
      else if data.length < offset + 1 + strlen then
        (kReg_DNS_Error strerror 548 "kDec_DNS_String"
          s!"$datalen: {data.length} -- requires {offset + 1 + strlen} bytes.", none)
      else
        (strerror, some ⟨1 + strlen, strlen, some ((data.drop (offset + 1)).take strlen),
          Nat.lt_add_right _ Nat.one_pos⟩)

def kGen_DNS_RR (name : Str) (type class_ ttl rdlength : Option Nat) (rdata : Str) :
    List UInt8 :=
  name.getD (kGen_DNS_Name none none) ++
    pack [(2, type.getD 0), (2, class_.getD 0), (4, ttl.getD 0), (2, rdlength.getD rdata.len)] ++
      rdata.octets

/-! ## MX -/

def kGen_DNS_RDATA_MX (preference : Nat) (exchange : List UInt8) : List UInt8 :=
  pack [(2, preference)] ++ exchange

structure MX where
  _size_ : Int
  preference : Option Nat
  exchange : Name
deriving DecidableEq, Repr

def kDec_DNS_RDATA_MX (data : List UInt8) (depth offset : Nat) : Option (Outcome MX) := do
  let members ← numbers data offset [2]
  callUnless (kDec_DNS_Name data depth (some (offset + 2))) 1640 "kDec_DNS_RDATA_MX"
    "EXCHANGE: decode failure." fun strerror _exchange_ =>
      some (strerror, some ⟨_exchange_._size_ + 2, members[0]?, _exchange_⟩)

/-! ## TXT -/

def kGen_DNS_RDATA_TXT (texts : List (List UInt8)) : List UInt8 :=
  texts.flatMap fun txt => if 0 < txt.length then packInt 1 txt.length ++ txt else []

structure TXT where
  _size_ : Int
  texts : List DNSString
deriving DecidableEq, Repr

/-- The loop over the strings. -/
def decTexts (data : List UInt8) (rdlength _offset_ _size_ : Nat) (strerror : List StrError)
    (_texts_ : List DNSString) : Outcome TXT :=
  if _size_ < rdlength then
    match kDec_DNS_String data _offset_ with
    | (strerror, none) =>
        (kReg_DNS_Error strerror 1699 "kDec_DNS_RDATA_TXT" "TXT-DATA: decode failure.", none)
    | (strerror, some _text_) =>
        decTexts data rdlength (_offset_ + _text_._size_) (_size_ + _text_._size_) strerror
          (_texts_ ++ [_text_])
  else (strerror, some ⟨_size_, _texts_⟩)
termination_by rdlength - _size_
decreasing_by
  have positive := _text_.positive
  omega

def kDec_DNS_RDATA_TXT (data : List UInt8) (rdlength offset : Nat) : Option (Outcome TXT) :=
  some (decTexts data rdlength offset 0 kInit_DNS_Error [])

/-! ## SIG -/

def kGen_DNS_RDATA_SIG (type algorithm labels ttl expiration inception tag : Nat)
    (name signature : List UInt8) : List UInt8 :=
  pack [(2, type), (1, algorithm), (1, labels), (4, ttl), (4, expiration), (4, inception),
    (2, tag)] ++ name ++ signature

structure SIG where
  _size_ : Int
  type : Option Nat
  algorithm : Option Nat
  labels : Option Nat
  ttl : Option Nat
  expiration : Option Nat
  inception : Option Nat
  tag : Option Nat
  name : Name
  signature : List UInt8
deriving DecidableEq, Repr

def kDec_DNS_RDATA_SIG (data : List UInt8) (depth rdlength offset : Nat) : Option (Outcome SIG) := do
  let members ← numbers data offset [2, 1, 1, 4, 4, 4, 2]
  let _offset_ := offset + 18
  callUnless (kDec_DNS_Name data depth (some _offset_)) 1774 "kDec_DNS_RDATA_SIG"
    "NAME: decode failure." fun strerror _name_ => do
      let _siglength_ := rdlength - 18 - _name_._size_
      let _signature_ ← octets data (_offset_ + _name_._size_).toNat _siglength_
      some (strerror, some ⟨18 + _name_._size_ + _siglength_, members[0]?, members[1]?,
        members[2]?, members[3]?, members[4]?, members[5]?, members[6]?, _name_, _signature_⟩)

/-! ## KEY -/

def kGen_DNS_RDATA_KEY (keytype reserved1 extension reserved2 nametype reserved3 signatory
    protocol algorithm : Nat) (pubkey : List UInt8) : List UInt8 :=
  let byte0 := keytype <<< 6 ||| reserved1 <<< 5 ||| extension <<< 4 ||| reserved2 <<< 2 |||
    nametype
  let byte1 := reserved3 <<< 4 ||| signatory
  pack [(1, byte0), (1, byte1), (1, protocol), (1, algorithm)] ++ pubkey

structure KEY where
  _size_ : Int
  keytype : Nat
  reserved1 : Nat
  extension : Nat
  reserved2 : Nat
  nametype : Nat
  reserved3 : Nat
  signatory : Nat
  protocol : Option Nat
  algorithm : Option Nat
  pubkey : List UInt8
deriving DecidableEq, Repr

/-- What is left of the template when the data is too short is `undef`, which counts as 0 in
    the flags. -/
def kDec_DNS_RDATA_KEY (data : List UInt8) (lentgh offset : Nat) : Option (Outcome KEY) := do
  let strerror := kInit_DNS_Error
  let _pubkeylen_ : Int := lentgh - 4
  let members ← numbers data offset [2, 1, 1]
  let _pubkey_ ← octets data (min (offset + 4) data.length) _pubkeylen_
  let _flags_ := members[0]?.getD 0
  some (strerror, some {
    _size_ := 4 + _pubkey_.length
    keytype := _flags_ >>> 14 &&& 0x3
    reserved1 := _flags_ >>> 13 &&& 0x1
    extension := _flags_ >>> 12 &&& 0x1
    reserved2 := _flags_ >>> 10 &&& 0x3
    nametype := _flags_ >>> 8 &&& 0x3
    reserved3 := _flags_ >>> 4 &&& 0xf
    signatory := _flags_ &&& 0xf
    protocol := members[1]?
    algorithm := members[2]?
    pubkey := _pubkey_ })

/-! ## NXT -/

def kGen_DNS_RDATA_NXT (next bitmap : List UInt8) : List UInt8 := next ++ bitmap

structure NXT where
  _size_ : Int
  next : Name
  bitmap : List UInt8
deriving DecidableEq, Repr

def kDec_DNS_RDATA_NXT (data : List UInt8) (depth rdlength offset : Nat) : Option (Outcome NXT) :=
  callUnless (kDec_DNS_Name data depth (some offset)) 2039 "kDec_DNS_RDATA_NXT"
    "NEXT: decode failure." fun strerror _next_ => do
      let _bitmaplength_ := rdlength - _next_._size_
      let _bitmap_ ← octets data (offset + _next_._size_).toNat _bitmaplength_
      some (strerror, some ⟨_next_._size_ + _bitmaplength_, _next_, _bitmap_⟩)

/-! ## SRV -/

def kGen_DNS_RDATA_SRV (priority weight port : Nat) (target : List UInt8) : List UInt8 :=
  pack [(2, priority), (2, weight), (2, port)] ++ target

structure SRV where
  _size_ : Int
  priority : Option Nat
  weight : Option Nat
  port : Option Nat
  target : Name
deriving DecidableEq, Repr

def kDec_DNS_RDATA_SRV (data : List UInt8) (depth offset : Nat) : Option (Outcome SRV) := do
  let members ← numbers data offset [2, 2, 2]
  callUnless (kDec_DNS_Name data depth (some (offset + 6))) 2097 "kDec_DNS_RDATA_SRV"
    "TARGET: decode failure." fun strerror _target_ =>
      some (strerror, some ⟨6 + _target_._size_, members[0]?, members[1]?, members[2]?,
        _target_⟩)

/-! ## NAPTR -/

def kGen_DNS_RDATA_NAPTR (order preference : Nat) (flags services regexp replacement : List UInt8) :
    List UInt8 :=
  pack [(2, order), (2, preference)] ++ packInt 1 flags.length ++ flags ++
    packInt 1 services.length ++ services ++ packInt 1 regexp.length ++ regexp ++ replacement

structure NAPTR where
  _size_ : Int
  order : Option Nat
  preference : Option Nat
  flags : DNSString
  services : DNSString
  regexp : DNSString
  replacement : Name
deriving DecidableEq, Repr

def kDec_DNS_RDATA_NAPTR (data : List UInt8) (depth offset : Nat) : Option (Outcome NAPTR) := do
  let function := "kDec_DNS_RDATA_NAPTR"
  let members ← numbers data offset [2, 2]
  let _offset_ := offset + 4
  callUnless (some (kDec_DNS_String data _offset_)) 2162 function
    "FLAGS: decode failure." fun _ _flags_ =>
  let _offset_ := _offset_ + _flags_._size_
  callUnless (some (kDec_DNS_String data _offset_)) 2170 function
    "SERVICES: decode failure." fun _ _services_ =>
  let _offset_ := _offset_ + _services_._size_
  callUnless (some (kDec_DNS_String data _offset_)) 2178 function
    "REGEXP: decode failure." fun _ _regexp_ =>
  let _offset_ := _offset_ + _regexp_._size_
  callUnless (kDec_DNS_Name data depth (some _offset_)) 2186 function
    "REPLACEMENT: decode failure." fun strerror _replacement_ =>
  some (strerror, some ⟨4 + _flags_._size_ + _services_._size_ + _regexp_._size_ +
    _replacement_._size_, members[0]?, members[1]?, _flags_, _services_, _regexp_, _replacement_⟩)

/-! ## OPT -/

def kGen_DNS_RDATA_OPT (options : List (List UInt8)) : List UInt8 := options.flatten

def kGen_DNS_RDATA_OPT_OPTION (code : Nat) (length : Option Nat) (data : List UInt8) :
    List UInt8 :=
  pack [(2, code), (2, length.getD data.length)] ++ data

structure OPTION where
  _size_ : Nat
  code : Nat
  length : Nat
  data : List UInt8
deriving DecidableEq, Repr

structure OPT where
  _size_ : Int
  options : List OPTION
deriving DecidableEq, Repr

/-- The loop over the options. The length in the first text is a variable that is not set. -/
def decOptions (data : List UInt8) (rdlength _offset_ _size_ : Nat) (_options_ : List OPTION) :
    Outcome OPT :=
  let strerror := kInit_DNS_Error
  let function := "kDec_DNS_RDATA_OPT"
  if _size_ < rdlength then
    if data.length < _offset_ + 4 then
      (kReg_DNS_Error strerror 2249 function
        s!"$data -- requires more {_offset_} bytes for attribute.", none)
    else
      let _optcode_ := Perl.be ((data.drop _offset_).take 2)
      let _optlength_ := Perl.be ((data.drop (_offset_ + 2)).take 2)
      let _size_' := _size_ + 4
      let _offset_ := _offset_ + 4
      if data.length < _offset_ + _optlength_ then
        (kReg_DNS_Error strerror 2265 function
          s!"$data -- requires more {_offset_ + _optlength_} bytes for value.", none)
      else
        decOptions data rdlength (_offset_ + _optlength_) (_size_' + _optlength_)
          (_options_ ++ [⟨4 + _optlength_, _optcode_, _optlength_,
            (data.drop _offset_).take _optlength_⟩])
  -- `$#_options_` is the last index and not the number of options.
  else if (_options_.length : Int) - 1 = 0 then
    (kReg_DNS_Error strerror 2288 function "OPTION: decode failure.", none)
  else (strerror, some ⟨_size_, _options_⟩)
termination_by rdlength - _size_
decreasing_by omega

def kDec_DNS_RDATA_OPT (data : List UInt8) (rdlength offset : Nat) : Option (Outcome OPT) :=
  some (decOptions data rdlength offset 0 [])

end Tahi.Dns
