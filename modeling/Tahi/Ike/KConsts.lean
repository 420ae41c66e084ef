/-! # The constants of IKEv2

Most constants have a name and a number, and one table gives either for the other.
-/

namespace Tahi.Ike

/-- A constant as a definition or a decoded message has it. -/
inductive Constant (Name : Type) where
  | num (n : Nat)
  | name (x : Name)
deriving DecidableEq, Repr

namespace Constant

/-- What the condition of a loop makes of it. -/
def truth {Name : Type} : Constant Name → Bool
  | .num n => n != 0
  | .name _ => true

/-- What `pack` makes of it: a name is no number. -/
def packed {Name : Type} : Constant Name → Nat
  | .num n => n
  | .name _ => 0

end Constant

/-- A hash with the numbers of the names and the names of the numbers. -/
structure Table (Name : Type) where
  numbers : Name → Option Nat
  names : Nat → Option Name

/-- `$table{$x} or $x`. The number 0 counts as no entry. -/
def Table.get {Name : Type} (table : Table Name) : Constant Name → Constant Name
  | .num n =>
      match table.names n with
      | some x => .name x
      | none => .num n
  | .name x =>
      match table.numbers x with
      | some (n + 1) => .num (n + 1)
      | _ => .name x

theorem Table.get_num {Name : Type} (table : Table Name) (n : Nat) :
    table.get (.num n) = ((table.names n).map .name).getD (.num n) := by
  simp only [Table.get]
  cases table.names n <;> rfl

/-- Numbers with different names, and those without one, stay apart. -/
theorem Table.get_num_injective {Name : Type} {table : Table Name}
    (inverse : ∀ {n x}, table.names n = some x → table.numbers x = some n) {m n : Nat}
    (same : table.get (.num m) = table.get (.num n)) : m = n := by
  rw [Table.get_num, Table.get_num] at same
  cases first : table.names m with
  | none =>
      cases second : table.names n with
      | none =>
          rw [first, second] at same
          exact Constant.num.inj same
      | some y =>
          rw [first, second] at same
          cases same
  | some x =>
      cases second : table.names n with
      | none =>
          rw [first, second] at same
          cases same
      | some y =>
          rw [first, second] at same
          cases Constant.name.inj same
          exact Option.some.inj ((inverse first).symm.trans (inverse second))

inductive ExchangeType where
  | IKE_SA_INIT | IKE_AUTH | CREATE_CHILD_SA | INFORMATIONAL
deriving DecidableEq, Repr

def exchangeTypes : Table ExchangeType where
  numbers
    | .IKE_SA_INIT => some 34
    | .IKE_AUTH => some 35
    | .CREATE_CHILD_SA => some 36
    | .INFORMATIONAL => some 37
  names
    | 34 => some .IKE_SA_INIT
    | 35 => some .IKE_AUTH
    | 36 => some .CREATE_CHILD_SA
    | 37 => some .INFORMATIONAL
    | _ => none

def kExchangeType : Constant ExchangeType → Constant ExchangeType := exchangeTypes.get

/-- `NiNr` is `'Ni, Nr'`. -/
inductive PayloadType where
  | SA | KE | IDi | IDr | CERT | CERTREQ | AUTH | Ni | Nr | NiNr | N | D | V | TSi | TSr | E | CP
  | EAP
deriving DecidableEq, Repr

def payloadTypes : Table PayloadType where
  numbers
    | .SA => some 33
    | .KE => some 34
    | .IDi => some 35
    | .IDr => some 36
    | .CERT => some 37
    | .CERTREQ => some 38
    | .AUTH => some 39
    | .Ni => some 40
    | .Nr => some 40
    | .NiNr => some 40
    | .N => some 41
    | .D => some 42
    | .V => some 43
    | .TSi => some 44
    | .TSr => some 45
    | .E => some 46
    | .CP => some 47
    | .EAP => some 48
  names
    | 33 => some .SA
    | 34 => some .KE
    | 35 => some .IDi
    | 36 => some .IDr
    | 37 => some .CERT
    | 38 => some .CERTREQ
    | 39 => some .AUTH
    | 40 => some .NiNr
    | 41 => some .N
    | 42 => some .D
    | 43 => some .V
    | 44 => some .TSi
    | 45 => some .TSr
    | 46 => some .E
    | 47 => some .CP
    | 48 => some .EAP
    | _ => none

def kPayloadType : Constant PayloadType → Constant PayloadType := payloadTypes.get

inductive ProtocolID where
  | IKE | AH | ESP
deriving DecidableEq, Repr

def protocolIDs : Table ProtocolID where
  numbers
    | .IKE => some 1
    | .AH => some 2
    | .ESP => some 3
  names
    | 1 => some .IKE
    | 2 => some .AH
    | 3 => some .ESP
    | _ => none

def kProtocolID : Constant ProtocolID → Constant ProtocolID := protocolIDs.get

theorem kProtocolID_injective {m n : Nat} (same : kProtocolID (.num m) = kProtocolID (.num n)) :
    m = n := by
  refine Table.get_num_injective (fun {n x} named => ?_) same
  simp only [protocolIDs] at named
  split at named <;> cases named <;> rfl

inductive TransformType where
  | ENCR | PRF | INTEG | «D-H» | ESN
deriving DecidableEq, Repr

def transformTypes : Table TransformType where
  numbers
    | .ENCR => some 1
    | .PRF => some 2
    | .INTEG => some 3
    | .«D-H» => some 4
    | .ESN => some 5
  names
    | 1 => some .ENCR
    | 2 => some .PRF
    | 3 => some .INTEG
    | 4 => some .«D-H»
    | 5 => some .ESN
    | _ => none

def kTransformType : Constant TransformType → Constant TransformType := transformTypes.get

theorem kTransformType_injective {m n : Nat}
    (same : kTransformType (.num m) = kTransformType (.num n)) : m = n := by
  refine Table.get_num_injective (fun {n x} named => ?_) same
  simp only [transformTypes] at named
  split at named <;> cases named <;> rfl

/-- The transforms of all types. -/
inductive TransformID where
  | RESERVED | DES_IV64 | DES | «3DES» | RC5 | IDEA | CAST | BLOWFISH | «3IDEA» | DES_IV32 | NULL
  | AES_CBC | AES_CTR | «AES-CCM_8» | «AES-CCM_12» | «AES-CCM_16» | «AES-GCM_8» | «AES-GCM_12»
  | «AES-GCM_16» | NULL_AUTH_AES_GMAC | HMAC_MD5 | HMAC_SHA1 | HMAC_TIGER | AES128_XCBC
  | HMAC_SHA2_256 | HMAC_SHA2_384 | HMAC_SHA2_512 | AES128_CMAC | NONE | HMAC_MD5_96
  | HMAC_SHA1_96 | DES_MAC | KPDK_MD5 | AES_XCBC_96 | HMAC_MD5_128 | HMAC_SHA1_160 | AES_CMAC_96
  | AES_128_GMAC | AES_192_GMAC | AES_256_GMAC | HMAC_SHA2_256_128 | HMAC_SHA2_384_192
  | HMAC_SHA2_512_256 | HMAC_DES_MAC | HMAC_KPDK_MD5 | «768 MODP Group» | «1024 MODP Group»
  | «1536 MODP Group» | «2048 MODP Group» | «3072 MODP Group» | «4096 MODP Group»
  | «6144 MODP Group» | «8192 MODP Group» | «256-bit random ECP group»
  | «384-bit random ECP group» | «512-bit random ECP group»
  | «1024-bit MODP group with 160-bit prime Order Subgroup»
  | «2048-bit MODP group with 224-bit prime Order Subgroup»
  | «2048-bit MODP group with 256-bit prime Order Subgroup» | «192-bit Random ECP Group»
  | «224-bit Random ECP Group» | «No ESN» | ESN
deriving DecidableEq, Repr

def encrIDs : Table TransformID where
  numbers
    | .RESERVED => some 0
    | .DES_IV64 => some 1
    | .DES => some 2
    | .«3DES» => some 3
    | .RC5 => some 4
    | .IDEA => some 5
    | .CAST => some 6
    | .BLOWFISH => some 7
    | .«3IDEA» => some 8
    | .DES_IV32 => some 9
    | .NULL => some 11
    | .AES_CBC => some 12
    | .AES_CTR => some 13
    | .«AES-CCM_8» => some 14
    | .«AES-CCM_12» => some 15
    | .«AES-CCM_16» => some 16
    | .«AES-GCM_8» => some 18
    | .«AES-GCM_12» => some 19
    | .«AES-GCM_16» => some 20
    | .NULL_AUTH_AES_GMAC => some 21
    | _ => none
  names
    | 0 => some .RESERVED
    | 1 => some .DES_IV64
    | 2 => some .DES
    | 3 => some .«3DES»
    | 4 => some .RC5
    | 5 => some .IDEA
    | 6 => some .CAST
    | 7 => some .BLOWFISH
    | 8 => some .«3IDEA»
    | 9 => some .DES_IV32
    | 10 => some .RESERVED
    | 11 => some .NULL
    | 12 => some .AES_CBC
    | 13 => some .AES_CTR
    | 14 => some .«AES-CCM_8»
    | 15 => some .«AES-CCM_12»
    | 16 => some .«AES-CCM_16»
    | 18 => some .«AES-GCM_8»
    | 19 => some .«AES-GCM_12»
    | 20 => some .«AES-GCM_16»
    | 21 => some .NULL_AUTH_AES_GMAC
    | _ => none

def prfIDs : Table TransformID where
  numbers
    | .RESERVED => some 0
    | .HMAC_MD5 => some 1
    | .HMAC_SHA1 => some 2
    | .HMAC_TIGER => some 3
    | .AES128_XCBC => some 4
    | .HMAC_SHA2_256 => some 5
    | .HMAC_SHA2_384 => some 6
    | .HMAC_SHA2_512 => some 7
    | .AES128_CMAC => some 8
    | _ => none
  names
    | 0 => some .RESERVED
    | 1 => some .HMAC_MD5
    | 2 => some .HMAC_SHA1
    | 3 => some .HMAC_TIGER
    | 4 => some .AES128_XCBC
    | 5 => some .HMAC_SHA2_256
    | 6 => some .HMAC_SHA2_384
    | 7 => some .HMAC_SHA2_512
    | 8 => some .AES128_CMAC
    | _ => none

def integIDs : Table TransformID where
  numbers
    | .NONE => some 0
    | .HMAC_MD5_96 => some 1
    | .HMAC_SHA1_96 => some 2
    | .AES_XCBC_96 => some 5
    | .HMAC_MD5_128 => some 6
    | .HMAC_SHA1_160 => some 7
    | .AES_CMAC_96 => some 8
    | .AES_128_GMAC => some 9
    | .AES_192_GMAC => some 10
    | .AES_256_GMAC => some 11
    | .HMAC_SHA2_256_128 => some 12
    | .HMAC_SHA2_384_192 => some 13
    | .HMAC_SHA2_512_256 => some 14
    | .HMAC_DES_MAC => some 3
    | .HMAC_KPDK_MD5 => some 4
    | _ => none
  names
    | 0 => some .NONE
    | 1 => some .HMAC_MD5_96
    | 2 => some .HMAC_SHA1_96
    | 3 => some .DES_MAC
    | 4 => some .KPDK_MD5
    | 5 => some .AES_XCBC_96
    | 6 => some .HMAC_MD5_128
    | 7 => some .HMAC_SHA1_160
    | 8 => some .AES_CMAC_96
    | 9 => some .AES_128_GMAC
    | 10 => some .AES_192_GMAC
    | 11 => some .AES_256_GMAC
    | 12 => some .HMAC_SHA2_256_128
    | 13 => some .HMAC_SHA2_384_192
    | 14 => some .HMAC_SHA2_512_256
    | _ => none

def dhIDs : Table TransformID where
  numbers
    | .NONE => some 0
    | .«1024 MODP Group» => some 2
    | .«1536 MODP Group» => some 5
    | .«2048 MODP Group» => some 14
    | .«3072 MODP Group» => some 15
    | .«4096 MODP Group» => some 16
    | .«6144 MODP Group» => some 17
    | .«8192 MODP Group» => some 18
    | .«256-bit random ECP group» => some 19
    | .«384-bit random ECP group» => some 20
    | .«512-bit random ECP group» => some 21
    | .«1024-bit MODP group with 160-bit prime Order Subgroup» => some 22
    | .«2048-bit MODP group with 224-bit prime Order Subgroup» => some 23
    | .«2048-bit MODP group with 256-bit prime Order Subgroup» => some 24
    | .«192-bit Random ECP Group» => some 25
    | .«224-bit Random ECP Group» => some 26
    | _ => none
  names
    | 0 => some .NONE
    | 1 => some .«768 MODP Group»
    | 2 => some .«1024 MODP Group»
    | 5 => some .«1536 MODP Group»
    | 14 => some .«2048 MODP Group»
    | 15 => some .«3072 MODP Group»
    | 16 => some .«4096 MODP Group»
    | 17 => some .«6144 MODP Group»
    | 18 => some .«8192 MODP Group»
    | 19 => some .«256-bit random ECP group»
    | 20 => some .«384-bit random ECP group»
    | 21 => some .«512-bit random ECP group»
    | 22 => some .«1024-bit MODP group with 160-bit prime Order Subgroup»
    | 23 => some .«2048-bit MODP group with 224-bit prime Order Subgroup»
    | 24 => some .«2048-bit MODP group with 256-bit prime Order Subgroup»
    | 25 => some .«192-bit Random ECP Group»
    | 26 => some .«224-bit Random ECP Group»
    | _ => none

def esnIDs : Table TransformID where
  numbers
    | .«No ESN» => some 0
    | .ESN => some 1
    | _ => none
  names
    | 0 => some .«No ESN»
    | 1 => some .ESN
    | _ => none

def transformTypesIDs : Constant TransformType → Option (Table TransformID)
  | .num 1 => some encrIDs
  | .num 2 => some prfIDs
  | .num 3 => some integIDs
  | .num 4 => some dhIDs
  | .num 5 => some esnIDs
  | _ => none

/-- Other than in the other tables, what has no entry is `undef`. -/
def kTransformTypeID (type : Constant TransformType) (id : Constant TransformID) :
    Option (Constant TransformID) :=
  match transformTypesIDs type with
  | none => none
  | some IDs =>
      match id with
      -- `'768'` stands where `'768 MODP Group'` was meant.
      | .num 768 => if type = .num 4 then some (.num 1) else none
      | .num n => (IDs.names n).map .name
      | .name x => (IDs.numbers x).map .num

/-- The tables have no large numbers, and what has the number 0 has it in both directions. -/
theorem transformTypesIDs_bounds {type : Constant TransformType} {IDs : Table TransformID}
    (found : transformTypesIDs type = some IDs) :
    (∀ {n x}, IDs.names n = some x → n < 256) ∧ (∀ {x n}, IDs.numbers x = some n → n < 256) ∧
      ∀ {x}, IDs.names 0 = some x → IDs.numbers x = some 0 := by
  unfold transformTypesIDs at found
  split at found <;> cases found
  all_goals
    refine ⟨fun {n x} named => ?_, fun {x n} numbered => ?_, fun {x} named => ?_⟩
    · simp only [encrIDs, prfIDs, integIDs, dhIDs, esnIDs] at named
      split at named <;> first | decide | cases named
    · simp only [encrIDs, prfIDs, integIDs, dhIDs, esnIDs] at numbered
      split at numbered <;> cases numbered <;> decide
    · cases named
      rfl

theorem transformTypesIDs_lt {n : Nat} {IDs : Table TransformID}
    (found : transformTypesIDs (.num n) = some IDs) : n < 256 := by
  unfold transformTypesIDs at found
  split at found
  case h_6 => cases found
  all_goals
    next same =>
      cases same
      decide

section TransformTypeID

variable {type : Constant TransformType} {IDs : Table TransformID}
  (found : transformTypesIDs type = some IDs)

include found

theorem kTransformTypeID_num {n : Nat} (other : n ≠ 768) :
    kTransformTypeID type (.num n) = (IDs.names n).map .name := by
  unfold kTransformTypeID
  rw [found]
  dsimp only
  split
  next same => exact absurd (Constant.num.inj same) other
  next same => cases same; rfl
  next same => cases same

theorem kTransformTypeID_name (x : TransformID) :
    kTransformTypeID type (.name x) = (IDs.numbers x).map .num := by
  unfold kTransformTypeID
  rw [found]

end TransformTypeID

/-- A name as a number is what the digits at its start say. -/
def TransformID.number : TransformID → Nat
  | .«3DES» | .«3IDEA» => 3
  | .«768 MODP Group» => 768
  | .«1024 MODP Group» | .«1024-bit MODP group with 160-bit prime Order Subgroup» => 1024
  | .«1536 MODP Group» => 1536
  | .«2048 MODP Group» | .«2048-bit MODP group with 224-bit prime Order Subgroup»
  | .«2048-bit MODP group with 256-bit prime Order Subgroup» => 2048
  | .«3072 MODP Group» => 3072
  | .«4096 MODP Group» => 4096
  | .«6144 MODP Group» => 6144
  | .«8192 MODP Group» => 8192
  | .«192-bit Random ECP Group» => 192
  | .«224-bit Random ECP Group» => 224
  | .«256-bit random ECP group» => 256
  | .«384-bit random ECP group» => 384
  | .«512-bit random ECP group» => 512
  | _ => 0

/-- What `pack` makes of what `kTransformTypeID` returns. -/
def packedID : Option (Constant TransformID) → Nat
  | none => 0
  | some (.num n) => n
  | some (.name x) => x.number

/-- One key size, or those that an algorithm leaves to its attributes. -/
inductive KeySize where
  | one (bits : Nat)
  | several (bits : List Nat)

/-- In bits, and 0 for an algorithm without a key. -/
def kKeySize : TransformID → KeySize
  | .«3DES» => .one 192
  | .AES_CBC => .several [128, 192, 256]
  | .AES_CTR => .several [128, 192, 256]
  | .HMAC_SHA1 => .one 160
  | .AES128_XCBC => .one 128
  | .HMAC_SHA1_96 => .one 160
  | .AES_XCBC_96 => .one 128
  | _ => .one 0

/-- What is not in the table counts as 0. -/
def kBlockSize : TransformID → Nat
  | .«3DES» => 8
  | .AES_CTR => 16
  | .AES_CBC => 16
  | .HMAC_SHA1_96 => 12
  | .AES_XCBC_96 => 12
  | _ => 0

inductive NotifyType where
  | UNSUPPORTED_CRITICAL_PAYLOAD | INVALID_IKE_SPI | INVALID_MAJOR_VERSION | INVALID_SYNTAX
  | INVALID_MESSAGE_ID | INVALID_SPI | NO_PROPOSAL_CHOSEN | INVALID_KE_PAYLOAD
  | AUTHENTICATION_FAILED | SINGLE_PAIR_REQUIRED | NO_ADDITIONAL_SAS | INTERNAL_ADDRESS_FAILURE
  | FAILED_CP_REQUIRED | TS_UNACCEPTABLE | INVALID_SELECTORS | INITIAL_CONTACT | SET_WINDOW_SIZE
  | ADDITIONAL_TS_POSSIBLE | IPCOMP_SUPPORTED | NAT_DETECTION_SOURCE_IP
  | NAT_DETECTION_DESTINATION_IP | COOKIE | USE_TRANSPORT_MODE | HTTP_CERT_LOOKUP_SUPPORTED
  | REKEY_SA | ESP_TFC_PADDING_NOT_SUPPORTED | NON_FIRST_FRAGMENTS_ALSO
deriving DecidableEq, Repr

def notificationTypes : Table NotifyType where
  numbers
    | .UNSUPPORTED_CRITICAL_PAYLOAD => some 1
    | .INVALID_IKE_SPI => some 4
    | .INVALID_MAJOR_VERSION => some 5
    | .INVALID_SYNTAX => some 7
    | .INVALID_MESSAGE_ID => some 9
    | .INVALID_SPI => some 11
    | .NO_PROPOSAL_CHOSEN => some 14
    | .INVALID_KE_PAYLOAD => some 17
    | .AUTHENTICATION_FAILED => some 24
    | .SINGLE_PAIR_REQUIRED => some 34
    | .NO_ADDITIONAL_SAS => some 35
    | .INTERNAL_ADDRESS_FAILURE => some 36
    | .FAILED_CP_REQUIRED => some 37
    | .TS_UNACCEPTABLE => some 38
    | .INVALID_SELECTORS => some 39
    | .INITIAL_CONTACT => some 16384
    | .SET_WINDOW_SIZE => some 16385
    | .ADDITIONAL_TS_POSSIBLE => some 16386
    | .IPCOMP_SUPPORTED => some 16387
    | .NAT_DETECTION_SOURCE_IP => some 16388
    | .NAT_DETECTION_DESTINATION_IP => some 16389
    | .COOKIE => some 16390
    | .USE_TRANSPORT_MODE => some 16391
    | .HTTP_CERT_LOOKUP_SUPPORTED => some 16392
    | .REKEY_SA => some 16393
    | .ESP_TFC_PADDING_NOT_SUPPORTED => some 16394
    | .NON_FIRST_FRAGMENTS_ALSO => some 16395
  names
    | 1 => some .UNSUPPORTED_CRITICAL_PAYLOAD
    | 4 => some .INVALID_IKE_SPI
    | 5 => some .INVALID_MAJOR_VERSION
    | 7 => some .INVALID_SYNTAX
    | 9 => some .INVALID_MESSAGE_ID
    | 11 => some .INVALID_SPI
    | 14 => some .NO_PROPOSAL_CHOSEN
    | 17 => some .INVALID_KE_PAYLOAD
    | 24 => some .AUTHENTICATION_FAILED
    | 34 => some .SINGLE_PAIR_REQUIRED
    | 35 => some .NO_ADDITIONAL_SAS
    | 36 => some .INTERNAL_ADDRESS_FAILURE
    | 37 => some .FAILED_CP_REQUIRED
    | 38 => some .TS_UNACCEPTABLE
    | 39 => some .INVALID_SELECTORS
    | 16384 => some .INITIAL_CONTACT
    | 16385 => some .SET_WINDOW_SIZE
    | 16386 => some .ADDITIONAL_TS_POSSIBLE
    | 16387 => some .IPCOMP_SUPPORTED
    | 16388 => some .NAT_DETECTION_SOURCE_IP
    | 16389 => some .NAT_DETECTION_DESTINATION_IP
    | 16390 => some .COOKIE
    | 16391 => some .USE_TRANSPORT_MODE
    | 16392 => some .HTTP_CERT_LOOKUP_SUPPORTED
    | 16393 => some .REKEY_SA
    | 16394 => some .ESP_TFC_PADDING_NOT_SUPPORTED
    | 16395 => some .NON_FIRST_FRAGMENTS_ALSO
    | _ => none

def kNotifyType : Constant NotifyType → Constant NotifyType := notificationTypes.get

inductive AttributeType where
  | «Key Length»
deriving DecidableEq, Repr

def attributeTypes : Table AttributeType where
  numbers
    | .«Key Length» => some 14
  names
    | 14 => some .«Key Length»
    | _ => none

def kAttributeType : Constant AttributeType → Constant AttributeType := attributeTypes.get

theorem kAttributeType_injective {m n : Nat}
    (same : kAttributeType (.num m) = kAttributeType (.num n)) : m = n := by
  refine Table.get_num_injective (fun {n x} named => ?_) same
  simp only [attributeTypes] at named
  split at named <;> cases named
  rfl

inductive IdentificationType where
  | IPV4_ADDR | FQDN | RFC822_ADDR | IPV6_ADDR | DER_ASN1_DN | DER_ASN1_GN | KEY_ID
deriving DecidableEq, Repr

def identificationTypes : Table IdentificationType where
  numbers
    | .IPV4_ADDR => some 1
    | .FQDN => some 2
    | .RFC822_ADDR => some 3
    | .IPV6_ADDR => some 5
    | .DER_ASN1_DN => some 9
    | .DER_ASN1_GN => some 10
    | .KEY_ID => some 11
  names
    | 1 => some .IPV4_ADDR
    | 2 => some .FQDN
    | 3 => some .RFC822_ADDR
    | 5 => some .IPV6_ADDR
    | 9 => some .DER_ASN1_DN
    | 10 => some .DER_ASN1_GN
    | 11 => some .KEY_ID
    | _ => none

def kIdentificationType : Constant IdentificationType → Constant IdentificationType :=
  identificationTypes.get

inductive TrafficSelectorType where
  | IPV4_ADDR_RANGE | IPV6_ADDR_RANGE
deriving DecidableEq, Repr

def trafficSelectorTypes : Table TrafficSelectorType where
  numbers
    | .IPV4_ADDR_RANGE => some 7
    | .IPV6_ADDR_RANGE => some 8
  names
    | 7 => some .IPV4_ADDR_RANGE
    | 8 => some .IPV6_ADDR_RANGE
    | _ => none

def kTrafficSelectorType : Constant TrafficSelectorType → Constant TrafficSelectorType :=
  trafficSelectorTypes.get

inductive AuthenticationMethod where
  | «RSA Digital Signature» | RSA_DS | RSA | «Shared Key Message Integrity Code» | SK_MIC | SK
  | «DSS Digital Signature» | DSS_DS | DSS | DSS_DSS
deriving DecidableEq, Repr

def authenticationMethods : Table AuthenticationMethod where
  numbers
    | .«RSA Digital Signature» => some 1
    | .RSA_DS => some 1
    | .RSA => some 1
    | .«Shared Key Message Integrity Code» => some 2
    | .SK_MIC => some 2
    | .SK => some 2
    | .«DSS Digital Signature» => some 3
    | .DSS_DS => some 3
    | .DSS => some 3
    | _ => none
  names
    | 1 => some .RSA_DS
    | 2 => some .SK_MIC
    | 3 => some .DSS_DSS
    | _ => none

def kAuthenticationMethod : Constant AuthenticationMethod → Constant AuthenticationMethod :=
  authenticationMethods.get

inductive CertificateEncoding where
  | RESERVED | «PKCS #7 wrapped X.509 certificate» | «PGP Certificate» | «DNS Signed Key»
  | «X.509 Certificate - Signature» | «Kerberos Token» | «Certificate Revocation List (CRL)»
  | «Authority Revocation List (ARL)» | «SPKI Certificate» | «X.509 Certificate - Attribute»
  | «Raw RSA Key» | «Hash and URL of X.509 certificate» | «Hash and URL of X.509 bundle»
deriving DecidableEq, Repr

def certificateEncodings : Table CertificateEncoding where
  numbers
    | .RESERVED => some 0
    | .«PKCS #7 wrapped X.509 certificate» => some 1
    | .«PGP Certificate» => some 2
    | .«DNS Signed Key» => some 3
    | .«X.509 Certificate - Signature» => some 4
    | .«Kerberos Token» => some 6
    | .«Certificate Revocation List (CRL)» => some 7
    | .«Authority Revocation List (ARL)» => some 8
    | .«SPKI Certificate» => some 9
    | .«X.509 Certificate - Attribute» => some 10
    | .«Raw RSA Key» => some 11
    | .«Hash and URL of X.509 certificate» => some 12
    | .«Hash and URL of X.509 bundle» => some 13
  names
    | 0 => some .RESERVED
    | 1 => some .«PKCS #7 wrapped X.509 certificate»
    | 2 => some .«PGP Certificate»
    | 3 => some .«DNS Signed Key»
    | 4 => some .«X.509 Certificate - Signature»
    | 6 => some .«Kerberos Token»
    | 7 => some .«Certificate Revocation List (CRL)»
    | 8 => some .«Authority Revocation List (ARL)»
    | 9 => some .«SPKI Certificate»
    | 10 => some .«X.509 Certificate - Attribute»
    | 11 => some .«Raw RSA Key»
    | 12 => some .«Hash and URL of X.509 certificate»
    | 13 => some .«Hash and URL of X.509 bundle»
    | _ => none

def kCertificateEncoding : Constant CertificateEncoding → Constant CertificateEncoding :=
  certificateEncodings.get

inductive ConfigurationType where
  | RESERVED | CFG_REQUEST | CFG_REPLY | CFG_SET | CFG_ACK
deriving DecidableEq, Repr

def configurationTypes : Table ConfigurationType where
  numbers
    | .RESERVED => some 0
    | .CFG_REQUEST => some 1
    | .CFG_REPLY => some 2
    | .CFG_SET => some 3
    | .CFG_ACK => some 4
  names
    | 0 => some .RESERVED
    | 1 => some .CFG_REQUEST
    | 2 => some .CFG_REPLY
    | 3 => some .CFG_SET
    | 4 => some .CFG_ACK
    | _ => none

def kConfigurationType : Constant ConfigurationType → Constant ConfigurationType :=
  configurationTypes.get

inductive ConfAttributeType where
  | RESERVED | INTERNAL_IP4_ADDRESS | INTERNAL_IP4_NETMASK | INTERNAL_IP4_DNS | INTERNAL_IP4_NBNS
  | INTERNAL_ADDRESS_EXPIRY | INTERNAL_IP4_DHCP | APPLICATION_VERSION | INTERNAL_IP6_ADDRESS
  | INTERNAL_IP6_DNS | INTERNAL_IP6_NBNS | INTERNAL_IP6_DHCP | INTERNAL_IP4_SUBNET
  | SUPPORTED_ATRIBUTES | INTERNAL_IP6_SUBNET
deriving DecidableEq, Repr

def configurationAttibuteTypes : Table ConfAttributeType where
  numbers
    | .RESERVED => some 9
    | .INTERNAL_IP4_ADDRESS => some 1
    | .INTERNAL_IP4_NETMASK => some 2
    | .INTERNAL_IP4_DNS => some 3
    | .INTERNAL_IP4_NBNS => some 4
    | .INTERNAL_ADDRESS_EXPIRY => some 5
    | .INTERNAL_IP4_DHCP => some 6
    | .APPLICATION_VERSION => some 7
    | .INTERNAL_IP6_ADDRESS => some 8
    | .INTERNAL_IP6_DNS => some 10
    | .INTERNAL_IP6_NBNS => some 11
    | .INTERNAL_IP6_DHCP => some 12
    | .INTERNAL_IP4_SUBNET => some 13
    | .SUPPORTED_ATRIBUTES => some 14
    | .INTERNAL_IP6_SUBNET => some 15
  names
    | 0 => some .RESERVED
    | 1 => some .INTERNAL_IP4_ADDRESS
    | 2 => some .INTERNAL_IP4_NETMASK
    | 3 => some .INTERNAL_IP4_DNS
    | 4 => some .INTERNAL_IP4_NBNS
    | 5 => some .INTERNAL_ADDRESS_EXPIRY
    | 6 => some .INTERNAL_IP4_DHCP
    | 7 => some .APPLICATION_VERSION
    | 8 => some .INTERNAL_IP6_ADDRESS
    | 9 => some .RESERVED
    | 10 => some .INTERNAL_IP6_DNS
    | 11 => some .INTERNAL_IP6_NBNS
    | 12 => some .INTERNAL_IP6_DHCP
    | 13 => some .INTERNAL_IP4_SUBNET
    | 14 => some .SUPPORTED_ATRIBUTES
    | 15 => some .INTERNAL_IP6_SUBNET
    | _ => none

def kConfAttributeType : Constant ConfAttributeType → Constant ConfAttributeType :=
  configurationAttibuteTypes.get

end Tahi.Ike
