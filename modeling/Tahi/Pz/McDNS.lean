import Tahi.General.BitField

/-! # The decoder of DNS messages

A DNS message says in its header how many entries each of its sections has. The
decoder goes over everything twice, once to find out where a section or an entry
ends and once more to decode it in a window of that size. Counts, indexes and
lengths are kept in objects that live as long as the process.

Positions and sizes are counted in bits, as the header has fields of single bits.
No position lies behind the end of its buffer, and the numbers stay far below the
32 bits of the source's words.
-/

namespace Tahi.Pz.McDNS

open BitField

/-- A window over the memory. Nothing but the checks of the decoder keeps a read
    inside it. -/
structure Octbuf where
  mem : Memory
  start : Nat
  length : Nat

namespace Octbuf

/-- `buffer()[i] & 0xff`. -/
def octet (buf : Octbuf) (i : Nat) : Nat := (buf.mem (buf.start + i : Nat)).toNat

def remainLength (buf : Octbuf) (n : Nat) : Nat := buf.length - n

def substr (buf : Octbuf) (n l : Nat) : Octbuf := ⟨buf.mem, buf.start + n, l⟩

def string (buf : Octbuf) (offset length : Nat) : List Octet :=
  (List.range length).map fun i => buf.mem (buf.start + offset + i : Nat)

def decodeUint (buf : Octbuf) (at_ w : Nat) : Nat := value buf.mem (8 * buf.start + at_ : Nat) w

end Octbuf

/-- The sections behind the header. -/
inductive Section where
  | Question
  | Answer
  | Authority
  | Additional
deriving DecidableEq, Repr

/-- The compounds `McDNS_RR_*` of resource records. -/
inductive RR where
  | ANY | A | NS | MD | MF | CNAME | SOA | MB | MG | MR | NULL | WKS | PTR | HINFO | MINFO | MX
  | TXT | RP | AFSDB | X25 | ISDN | RT | PX | AAAA | SRV | NAPTR
deriving DecidableEq, Repr

inductive Mc where
  | Udp_DNS
  | Section (s : Section)
  | QuestionEntry
  | RR (rr : RR)
  | Needless
deriving DecidableEq, Repr

/-- The names of the members. -/
inductive Mm where
  | Identifier | QR | Opcode | AA | TC | RD | RA | Reserved | RCode
  | QDCount | ANCount | NSCount | ARCount
  | Name | Type_ | Class | TTL | Length | data
  | Address | NSDName | MADName | CName | MName | RName | Serial | Refresh | Retry | Expire
  | Minimum | MGMName | NewName | Protocol | BitMap | PTRDName | CPU | OS | RMailbox | EMailbox
  | Preference | Exchange | TXT | MailBox | TXTDName | Subtype | Hostname | SubAddress
  | Intermediate | Map822 | MapX400 | Priority | Weight | Port | Target | Order | Flags
  | Service | Regexp | Replacement
deriving DecidableEq, Repr

/-- `meta()`: a compound, or a member of one. -/
inductive Meta where
  | mc (c : Mc)
  | mm (c : Mc) (m : Mm)
deriving DecidableEq, Repr

inductive PvObject where
  | number (n : Nat)
  | octets (o : List Octet)
deriving DecidableEq, Repr

def PvObject.value : PvObject → Nat
  | number n => n
  | octets _ => 0

/-- A decoded object with its place in the object above it. -/
inductive RObject where
  | mk (meta_ : Meta) (offset size : Nat) (pvalue : PvObject) (children : List RObject)

namespace RObject

def meta_ : RObject → Meta
  | mk m _ _ _ _ => m

def size : RObject → Nat
  | mk _ _ size _ _ => size

def pvalue : RObject → PvObject
  | mk _ _ _ pvalue _ => pvalue

def children : RObject → List RObject
  | mk _ _ _ _ children => children

mutual

/-- The first object of the tree with the meta, an object before its children. -/
def corresponding (c : Meta) : RObject → Option RObject
  | mk m offset size pvalue children =>
      if c = m then some (mk m offset size pvalue children)
      else correspondingChild c children

def correspondingChild (c : Meta) : List RObject → Option RObject
  | [] => none
  | r :: rest =>
      match corresponding c r with
      | some f => some f
      | none => correspondingChild c rest

end

/-- What the octets that a compound has no use for become is disused. -/
def evaluateObject (r : RObject) : Bool := r.meta_ != .mc .Needless

/-- The octets of some objects. -/
def octetsOf (rs : List RObject) : Nat := (rs.map fun r => r.size / 8).sum

end RObject

/-! ## Members -/

/-- The members that stand for one field. -/
inductive Element where
  | MmUint (m : Mm) (width : Nat)
  | MmOctets (m : Mm) (length : Nat)
  | MmDNSName (m : Mm)
  | MmDNSStr (m : Mm)
  | MmVarOctets (m : Mm)
  | MmData (m : Mm)
deriving DecidableEq, Repr

inductive Member where
  | element (e : Element)
  | MmMultiple (body : Element)
deriving DecidableEq, Repr

/-- The walk over the labels of a name, which ends at the root, at a pointer or at the end
    of the buffer. Each turn goes on by an octet at least. -/
def labels (buf : Octbuf) (at_ length : Nat) : Nat → Nat → Nat → Nat
  | 0, _, reallength => reallength
  | fuel + 1, d, reallength =>
      if d < length then
        let octet := buf.octet (at_ + d)
        if octet = 0 then reallength + 1
        else if octet &&& 0xc0 ≠ 0 then reallength + 2
        else labels buf at_ length fuel (d + octet + 1) (reallength + 1 + octet)
      else reallength

/-- The strings that fill `rdlength` octets. -/
def strings (buf : Octbuf) (at_ rdlength : Nat) : Nat → Nat → Nat
  | 0, _ => 0
  | fuel + 1, d =>
      if d < rdlength then 1 + strings buf at_ rdlength fuel (d + buf.octet (at_ + d) + 1) else 0

/-- `McDNS_RR_TXT::HC_MLC(TXT)`: how many strings the record has. Nothing bounds the reads. -/
def HC_MLC_TXT (buf : Octbuf) : Nat :=
  let length := buf.remainLength 0
  let offset := labels buf 0 length length 0 0 + 8
  let rdlength := 0x100 * buf.octet offset + buf.octet (offset + 1)
  strings buf (offset + 2) rdlength rdlength 0

namespace Element

def mm : Element → Mm
  | MmUint m _ | MmOctets m _ | MmDNSName m | MmDNSStr m | MmVarOctets m | MmData m => m

/-- `length_for_reverse`. What `reverse` of a name or a string puts into its own `LengthCtl`
    is taken out here, and a length of zero stands for everything that remains. -/
def length_for_reverse (e : Element) (at_ : Nat) (buf : Octbuf) : Nat :=
  let remain := 8 * buf.remainLength (at_ / 8)
  match e with
  | MmUint _ width => width
  | MmOctets _ length => 8 * length
  | MmDNSName _ =>
      let length := buf.length - at_ / 8
      let reallength := labels buf (at_ / 8) length length 0 0
      if reallength ≠ 0 then 8 * reallength else remain
  | MmDNSStr _ => 8 * (buf.octet (at_ / 8) + 1)
  | MmVarOctets _ | MmData _ => remain

def reversePv (e : Element) (at_ size : Nat) (buf : Octbuf) : PvObject :=
  match e with
  | MmUint _ _ => .number (buf.decodeUint at_ size)
  | _ => .octets (buf.string (at_ / 8) (size / 8))

/-- The object that stands for a field. -/
def leaf (c : Mc) (e : Element) (at_ size : Nat) (buf : Octbuf) : RObject :=
  .mk (.mm c e.mm) at_ size (e.reversePv at_ size buf) []

end Element

/-- What members leave behind: the error of the control, the position, and the objects
    that the compound has been given. -/
structure Members where
  failed : Bool
  at_ : Nat
  made : List RObject

/-- `MmElement::reverse` and `MmData::reverse`. -/
def Element.reverse (c : Mc) (e : Element) (failed : Bool) (at_ : Nat) (buf : Octbuf) : Members :=
  let size := e.length_for_reverse at_ buf
  if at_ + size ≤ 8 * buf.length then ⟨failed, at_ + size, [e.leaf c at_ size buf]⟩
  else ⟨true, at_, []⟩

/-- The loop of `MmMultiple::reverse`, which an error does not end. -/
def multiple (c : Mc) (body : Element) : Nat → Bool → Nat → Octbuf → Members
  | 0, failed, at_, _ => ⟨failed, at_, []⟩
  | cou + 1, failed, at_, buf =>
      let r := body.reverse c failed at_ buf
      let rest := multiple c body cou r.failed r.at_ buf
      { rest with made := r.made ++ rest.made }

def Member.reverse (c : Mc) (m : Member) (failed : Bool) (at_ : Nat) (buf : Octbuf) : Members :=
  match m with
  | .element e => e.reverse c failed at_ buf
  | .MmMultiple body => multiple c body (HC_MLC_TXT buf) failed at_ buf

/-- The loop of `members_reverse`. An error ends it. -/
def membersLoop (c : Mc) : List Member → Bool → Nat → Octbuf → Members
  | [], failed, at_, _ => ⟨failed, at_, []⟩
  | m :: ms, failed, at_, buf =>
      let r := m.reverse c failed at_ buf
      if r.failed then r
      else
        let rest := membersLoop c ms r.failed r.at_ buf
        { rest with made := r.made ++ rest.made }

/-- `McNeedless::reverse`: what the members have left over. -/
def needless (failed : Bool) (at_ : Nat) (buf : Octbuf) : Members :=
  let remain := buf.remainLength (at_ / 8)
  if remain = 0 then ⟨failed, at_, []⟩
  else if at_ + 8 * remain ≤ 8 * buf.length then
    let self := buf.substr (at_ / 8) remain
    let r := (Element.MmData .data).reverse .Needless failed 0 self
    ⟨r.failed, at_ + 8 * remain,
      [.mk (.mc .Needless) at_ (8 * remain) (.octets (self.string 0 remain)) r.made]⟩
  else ⟨true, at_, []⟩

/-! ## Compounds -/

namespace RR

/-- `rrType()`. The compound that takes every other type has none. -/
def rrType : RR → Option Nat
  | ANY => none
  | A => some 1 | NS => some 2 | MD => some 3 | MF => some 4 | CNAME => some 5 | SOA => some 6
  | MB => some 7 | MG => some 8 | MR => some 9 | NULL => some 10 | WKS => some 11
  | PTR => some 12 | HINFO => some 13 | MINFO => some 14 | MX => some 15 | TXT => some 16
  | RP => some 17 | AFSDB => some 18 | X25 => some 19 | ISDN => some 20 | RT => some 21
  | PX => some 26 | AAAA => some 28 | SRV => some 33 | NAPTR => some 35

/-- The compounds of the dictionary by type, which the three sections of records share. -/
def dict : List RR :=
  [A, NS, MD, MF, CNAME, SOA, MB, MG, MR, NULL, WKS, PTR, HINFO, MINFO, MX, TXT, RP, AFSDB, X25,
    ISDN, RT, PX, AAAA, SRV, NAPTR]

/-- `TypevsMcDict::find`. -/
def find (type : Nat) : RR := (dict.find? fun rr => rr.rrType == some type).getD ANY

/-- `McDNS_RR::common_member`. -/
def common_member : List Member :=
  [.element (.MmDNSName .Name), .element (.MmUint .Type_ 16), .element (.MmUint .Class 16),
    .element (.MmUint .TTL 32), .element (.MmUint .Length 16)]

/-- The members behind the common ones. -/
def rdata : RR → List Member
  | ANY => [.element (.MmData .data)]
  | A => [.element (.MmOctets .Address 4)]
  | NS => [.element (.MmDNSName .NSDName)]
  | MD => [.element (.MmDNSName .MADName)]
  | MF => [.element (.MmDNSName .MADName)]
  | CNAME => [.element (.MmDNSName .CName)]
  | SOA =>
      [.element (.MmDNSName .MName), .element (.MmDNSName .RName), .element (.MmUint .Serial 32),
        .element (.MmUint .Refresh 32), .element (.MmUint .Retry 32),
        .element (.MmUint .Expire 32), .element (.MmUint .Minimum 32)]
  | MB => [.element (.MmDNSName .MADName)]
  | MG => [.element (.MmDNSName .MGMName)]
  | MR => [.element (.MmDNSName .NewName)]
  | NULL => [.element (.MmVarOctets .data)]
  | WKS =>
      [.element (.MmOctets .Address 4), .element (.MmUint .Protocol 8),
        .element (.MmVarOctets .BitMap)]
  | PTR => [.element (.MmDNSName .PTRDName)]
  | HINFO => [.element (.MmDNSStr .CPU), .element (.MmDNSStr .OS)]
  | MINFO => [.element (.MmDNSName .RMailbox), .element (.MmDNSName .EMailbox)]
  | MX => [.element (.MmUint .Preference 16), .element (.MmDNSName .Exchange)]
  | TXT => [.MmMultiple (.MmDNSStr .TXT)]
  | RP => [.element (.MmDNSName .MailBox), .element (.MmDNSName .TXTDName)]
  | AFSDB => [.element (.MmUint .Subtype 16), .element (.MmDNSName .Hostname)]
  | X25 => [.element (.MmDNSStr .Address)]
  | ISDN => [.element (.MmDNSStr .Address), .element (.MmDNSStr .SubAddress)]
  | RT => [.element (.MmUint .Preference 16), .element (.MmDNSName .Intermediate)]
  | PX =>
      [.element (.MmUint .Preference 16), .element (.MmDNSName .Map822),
        .element (.MmDNSName .MapX400)]
  | AAAA => [.element (.MmOctets .Address 16)]
  | SRV =>
      [.element (.MmUint .Priority 16), .element (.MmUint .Weight 16), .element (.MmUint .Port 16),
        .element (.MmDNSName .Target)]
  | NAPTR =>
      [.element (.MmUint .Order 16), .element (.MmUint .Preference 16), .element (.MmDNSStr .Flags),
        .element (.MmDNSStr .Service), .element (.MmDNSStr .Regexp),
        .element (.MmDNSName .Replacement)]

def members (rr : RR) : List Member := common_member ++ rr.rdata

end RR

def entryMembers : List Member :=
  [.element (.MmDNSName .Name), .element (.MmUint .Type_ 16), .element (.MmUint .Class 16)]

def headerMembers : List Member :=
  [.element (.MmUint .Identifier 16), .element (.MmUint .QR 1), .element (.MmUint .Opcode 4),
    .element (.MmUint .AA 1), .element (.MmUint .TC 1), .element (.MmUint .RD 1),
    .element (.MmUint .RA 1), .element (.MmUint .Reserved 3), .element (.MmUint .RCode 4),
    .element (.MmUint .QDCount 16), .element (.MmUint .ANCount 16),
    .element (.MmUint .NSCount 16), .element (.MmUint .ARCount 16)]

/-! ## What is kept -/

structure LengthCtl where
  length : Nat := 0
  rrlength : Nat := 0
deriving DecidableEq, Repr

/-- The objects that live across messages: the `CountMgr` of the header, and the `LengthCtl`
    of the compounds of entries. Zero stands for a value that is not set. -/
structure Kept where
  reverse_ : Section → Nat
  current_ : Section → Nat
  length_ : Section → Nat
  entry : LengthCtl
  rr : RR → LengthCtl

/-- As the process starts. -/
def Kept.fresh : Kept := ⟨fun _ => 0, fun _ => 0, fun _ => 0, {}, fun _ => {}⟩

namespace Kept

def set_reverse (k : Kept) (s : Section) (n : Nat) : Kept :=
  { k with reverse_ := Function.update k.reverse_ s n }

def increase_current (k : Kept) (s : Section) : Kept :=
  { k with current_ := Function.update k.current_ s (k.current_ s + 1) }

def init_current (k : Kept) (s : Section) : Kept :=
  { k with current_ := Function.update k.current_ s 0 }

def set_length (k : Kept) (s : Section) (n : Nat) : Kept :=
  { k with length_ := Function.update k.length_ s n }

def setRR (k : Kept) (rr : RR) (l : LengthCtl) : Kept := { k with rr := Function.update k.rr rr l }

end Kept

/-- What `reverse` of a compound leaves behind, with the object it returns. -/
structure Outcome where
  kept : Kept
  failed : Bool
  at_ : Nat
  rc : Option RObject

/-- `McObject::reverse` of a compound of fields, whose length has been found. -/
def McObject_reverse (c : Mc) (ms : List Member) (length : Nat) (k : Kept) (failed : Bool)
    (at_ : Nat) (buf : Octbuf) : Outcome :=
  if at_ + 8 * length ≤ 8 * buf.length then
    let self := buf.substr (at_ / 8) length
    let r := membersLoop c ms failed 0 self
    let less := needless r.failed r.at_ self
    ⟨k, less.failed, at_ + 8 * length,
      some (.mk (.mc c) at_ (8 * length) (.octets (self.string 0 length)) (r.made ++ less.made))⟩
  else ⟨k, true, at_, none⟩

namespace McDNS_QuestionEntry

def length_for_reverse (k : Kept) (at_ : Nat) (buf : Octbuf) : Nat × Kept :=
  if k.entry.length ≠ 0 then (k.entry.length, { k with entry := { k.entry with length := 0 } })
  else (buf.remainLength (at_ / 8), k)

/-- `McOption::reverse`. -/
def option (k : Kept) (failed : Bool) (at_ : Nat) (buf : Octbuf) : Outcome :=
  let (length, k) := length_for_reverse k at_ buf
  McObject_reverse .QuestionEntry entryMembers length k failed at_ buf

def reverse (k : Kept) (failed : Bool) (at_ : Nat) (buf : Octbuf) : Outcome :=
  let probe := option k failed at_ buf
  let k :=
    match probe.rc with
    | some r_self =>
        let len := RObject.octetsOf (r_self.children.filter RObject.evaluateObject)
        { probe.kept with entry := { probe.kept.entry with length := len } }
    | none => probe.kept
  option k probe.failed at_ buf

end McDNS_QuestionEntry

namespace McDNS_RR

def length_for_reverse (rr : RR) (k : Kept) (at_ : Nat) (buf : Octbuf) : Nat × Kept :=
  let ctl := k.rr rr
  if ctl.length ≠ 0 then
    if ctl.rrlength ≠ 0 then (ctl.length + ctl.rrlength, k.setRR rr ⟨0, 0⟩)
    else (ctl.length, k.setRR rr { ctl with length := 0 })
  else (buf.remainLength (at_ / 8), k)

/-- `McOption::reverse`. -/
def option (rr : RR) (k : Kept) (failed : Bool) (at_ : Nat) (buf : Octbuf) : Outcome :=
  let (length, k) := length_for_reverse rr k at_ buf
  McObject_reverse (.RR rr) rr.members length k failed at_ buf

/-- The octets of the members up to the length of the data. -/
def baseLength (rr : RR) : List RObject → Nat
  | [] => 0
  | r :: rest =>
      if r.meta_ = .mm (.RR rr) .Length then r.size / 8 else r.size / 8 + baseLength rr rest

def reverse (rr : RR) (k : Kept) (failed : Bool) (at_ : Nat) (buf : Octbuf) : Outcome :=
  let probe := option rr k failed at_ buf
  let k :=
    match probe.rc with
    | some r_self =>
        let ctl := probe.kept.rr rr
        let rrlength :=
          match r_self.corresponding (.mm (.RR rr) .Length) with
          | some r => r.pvalue.value
          | none => ctl.rrlength
        let len := baseLength rr (r_self.children.filter RObject.evaluateObject)
        probe.kept.setRR rr ⟨len, rrlength⟩
    | none => probe.kept
  option rr k probe.failed at_ buf

/-- `overwrite_DictType` of the compound for every type: the record is decoded for its type
    only. -/
def overwrite_DictType (k : Kept) (failed : Bool) (at_ : Nat) (buf : Octbuf) :
    Kept × Bool × Option Nat :=
  if buf.remainLength (at_ / 8) ≠ 0 then
    let r := option .ANY k failed at_ buf
    let type := r.rc.bind fun r_self => r_self.corresponding (.mm (.RR .ANY) .Type_)
    (r.kept, r.failed, type.map fun rtype => rtype.pvalue.value)
  else (k, failed, none)

end McDNS_RR

/-! ## Sections -/

/-- What a sequence of compounds leaves behind. -/
structure Entries where
  kept : Kept
  failed : Bool
  at_ : Nat
  made : List RObject

/-- `reverse` of a compound. -/
abbrev Reverse := Kept → Bool → Nat → Octbuf → Outcome

/-- The loop of `MmReference_More0::reverse`, with the `overwrite_DictType` that the four
    sections share: the index is counted up before an entry, and starts again when there is
    no entry left. -/
def entriesLoop (s : Section) (forward : Reverse) : Nat → Kept → Bool → Nat → Octbuf → Entries
  | 0, k, failed, at_, _ => ⟨k, failed, at_, []⟩
  | fuel + 1, k, failed, at_, buf =>
      if buf.remainLength (at_ / 8) ≠ 0 ∧ k.current_ s < k.reverse_ s then
        let r := forward (k.increase_current s) failed at_ buf
        match r.rc with
        | none => ⟨r.kept, r.failed, r.at_, []⟩
        | some rc =>
            if r.failed then ⟨r.kept, r.failed, r.at_, [rc]⟩
            else
              let rest := entriesLoop s forward fuel r.kept r.failed r.at_ buf
              { rest with made := rc :: rest.made }
      else ⟨k.init_current s, failed, at_, []⟩

/-- The index can be counted up no further than to the count. -/
def entries (s : Section) (forward : Reverse) (k : Kept) (failed : Bool) (at_ : Nat)
    (buf : Octbuf) : Entries :=
  entriesLoop s forward (k.reverse_ s - k.current_ s + 1) k failed at_ buf

/-- A turn of the loop of a section of records: the type of the record is found first. -/
def record (k : Kept) (failed : Bool) (at_ : Nat) (buf : Octbuf) : Outcome :=
  match McDNS_RR.overwrite_DictType k failed at_ buf with
  | (k, failed, none) => ⟨k, failed, at_, none⟩
  | (k, failed, some type) => McDNS_RR.reverse (RR.find type) k failed at_ buf

def MmEntry_onQuestion := entries .Question McDNS_QuestionEntry.reverse
def MmRR_onAnswer := entries .Answer record
def MmRR_onAuthority := entries .Authority record
def MmRR_onAdditional := entries .Additional record

/-- The member of a section. -/
def Section.member : Section → Kept → Bool → Nat → Octbuf → Entries
  | .Question => MmEntry_onQuestion
  | .Answer => MmRR_onAnswer
  | .Authority => MmRR_onAuthority
  | .Additional => MmRR_onAdditional

namespace Section

/-- `length_for_reverse`. -/
def length_for_reverse (s : Section) (k : Kept) (at_ : Nat) (buf : Octbuf) : Nat × Kept :=
  if k.length_ s ≠ 0 then (k.length_ s, k.set_length s 0)
  else (buf.remainLength (at_ / 8), k)

/-- `McOption::reverse`. -/
def option (s : Section) (k : Kept) (failed : Bool) (at_ : Nat) (buf : Octbuf) : Outcome :=
  let (length, k) := s.length_for_reverse k at_ buf
  if at_ + 8 * length ≤ 8 * buf.length then
    let self := buf.substr (at_ / 8) length
    let r := s.member k failed 0 self
    let less := needless r.failed r.at_ self
    ⟨r.kept, less.failed, at_ + 8 * length,
      some (.mk (.mc (.Section s)) at_ (8 * length) (.octets (self.string 0 length))
        (r.made ++ less.made))⟩
  else ⟨k, true, at_, none⟩

/-- `reverse`, once more than `McOption::reverse`: the first pass finds the length of as many
    objects as the count says. -/
def reverse (s : Section) (k : Kept) (failed : Bool) (at_ : Nat) (buf : Octbuf) : Outcome :=
  let probe := s.option k failed at_ buf
  let k :=
    match probe.rc with
    | some r_self =>
        let len := RObject.octetsOf (r_self.children.take (probe.kept.reverse_ s))
        probe.kept.set_length s len
    | none => probe.kept
  s.option k probe.failed at_ buf

/-- `MmReference_Must1::reverse` of the member of the header: a section is there when octets
    are left and its count is positive. -/
def onDNS (s : Section) (k : Kept) (failed : Bool) (at_ : Nat) (buf : Octbuf) : Outcome :=
  if buf.remainLength (at_ / 8) ≠ 0 ∧ 0 < k.reverse_ s then s.reverse k failed at_ buf
  else ⟨k, failed, at_, none⟩

end Section

def McDNS_Question := Section.reverse .Question
def McDNS_Answer := Section.reverse .Answer
def McDNS_Authority := Section.reverse .Authority
def McDNS_Additional := Section.reverse .Additional

/-- The sections as the header has them. -/
def sections : List Section := [.Question, .Answer, .Authority, .Additional]

/-- The last members of the header. An error ends them. -/
def sectionsLoop : List Section → Kept → Bool → Nat → Octbuf → Entries
  | [], k, failed, at_, _ => ⟨k, failed, at_, []⟩
  | s :: ss, k, failed, at_, buf =>
      let r := s.onDNS k failed at_ buf
      if r.failed then ⟨r.kept, r.failed, r.at_, r.rc.toList⟩
      else
        let rest := sectionsLoop ss r.kept r.failed r.at_ buf
        { rest with made := r.rc.toList ++ rest.made }

namespace McUdp_DNS

/-- `McHeader::reverse`. -/
def header (k : Kept) (failed : Bool) (at_ : Nat) (buf : Octbuf) : Outcome :=
  let length := buf.remainLength (at_ / 8)
  if at_ + 8 * length ≤ 8 * buf.length then
    let self := buf.substr (at_ / 8) length
    let h := membersLoop .Udp_DNS headerMembers failed 0 self
    let r : Entries :=
      if h.failed then ⟨k, h.failed, h.at_, []⟩
      else sectionsLoop sections k h.failed h.at_ self
    let less := needless r.failed r.at_ self
    ⟨r.kept, less.failed, at_ + 8 * length,
      some (.mk (.mc .Udp_DNS) at_ (8 * length) (.octets (self.string 0 length))
        (h.made ++ r.made ++ less.made))⟩
  else ⟨k, true, at_, none⟩

/-- The count of a section in the header. -/
def countOf : Section → Mm
  | .Question => .QDCount
  | .Answer => .ANCount
  | .Authority => .NSCount
  | .Additional => .ARCount

def set_CountMgr (r_self : RObject) (k : Kept) : Kept :=
  sections.foldl (fun k s =>
    match r_self.corresponding (.mm .Udp_DNS (countOf s)) with
    | some count => k.set_reverse s count.pvalue.value
    | none => k) k

/-- The first pass still has the counts of the message before. -/
def reverse (k : Kept) (failed : Bool) (at_ : Nat) (buf : Octbuf) : Outcome :=
  let probe := header k failed at_ buf
  let k :=
    match probe.rc with
    | some r_self => set_CountMgr r_self probe.kept
    | none => probe.kept
  header k probe.failed at_ buf

end McUdp_DNS

/-- A buffer with a DNS message in it, which starts `offset` octets behind the start of the
    buffer and ends with the buffer. -/
structure Datagram where
  buf : Octbuf
  offset : Nat

/-- The decoding of a message, with a control of its own. -/
def Datagram.decode (d : Datagram) (k : Kept) : Outcome :=
  McUdp_DNS.reverse k false (8 * d.offset) d.buf

/-- What is kept after a process has decoded some messages. -/
def after (history : List Datagram) : Kept :=
  history.foldl (fun k d => (d.decode k).kept) Kept.fresh

end Tahi.Pz.McDNS
