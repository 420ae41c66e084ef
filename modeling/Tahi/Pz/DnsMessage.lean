import Tahi.Pz.McDNS

/-! # Well-formed DNS messages

A message is given here by what it says, and from that follow its octets and the tree
that a decoder should make of it. A record is well formed for the compound of its type:
its data is a row of pieces, one for each field.
-/

namespace Tahi.Pz.McDNS

open BitField

/-- The octets of a number, the most significant first. -/
def word : Nat → Nat → List Octet
  | 0, _ => []
  | l + 1, n => word l (n / 256) ++ [BitVec.ofNat 8 n]

@[simp] theorem word_length (l n : Nat) : (word l n).length = l := by
  induction l generalizing n with
  | zero => rfl
  | succ l ih => simp [word, ih]

structure Label where
  octets : List Octet
  nonempty : 0 < octets.length
  short : octets.length < 64

namespace Label

def wire (l : Label) : List Octet := BitVec.ofNat 8 l.octets.length :: l.octets

end Label

/-- Labels up to the root, or up to a pointer to the rest of the name. -/
structure DomainName where
  labels : List Label
  pointer : Option (BitVec 14)

namespace DomainName

/-- What stands behind the labels. -/
def tail : Option (BitVec 14) → List Octet
  | none => [0]
  | some p => word 2 (0xc000 + p.toNat)

def wire (n : DomainName) : List Octet := n.labels.flatMap Label.wire ++ tail n.pointer

theorem tail_pos (p : Option (BitVec 14)) : 0 < (tail p).length := by
  cases p <;> simp [tail]

theorem wire_pos (n : DomainName) : 0 < n.wire.length := by
  have := tail_pos n.pointer
  simp only [wire, List.length_append]
  omega

end DomainName

/-- The octets that a field can have. -/
inductive Element.Wire : Element → List Octet → Prop where
  | uint {m : Mm} (xs : List Octet) : Wire (.MmUint m (8 * xs.length)) xs
  | octets {m : Mm} (xs : List Octet) : Wire (.MmOctets m xs.length) xs
  | name {m : Mm} (n : DomainName) : Wire (.MmDNSName m) n.wire
  | str {m : Mm} {xs : List Octet} (short : xs.length < 256) :
      Wire (.MmDNSStr m) (BitVec.ofNat 8 xs.length :: xs)
  | varOctets {m : Mm} {xs : List Octet} : Wire (.MmVarOctets m) xs
  | data {m : Mm} {xs : List Octet} : Wire (.MmData m) xs

/-- A field with the octets it has in a message. -/
structure Piece where
  element : Element
  wire : List Octet
  fits : element.Wire wire

namespace Piece

def name (m : Mm) (n : DomainName) : Piece := ⟨.MmDNSName m, n.wire, .name n⟩

def uint (m : Mm) (l n : Nat) : Piece :=
  ⟨.MmUint m (8 * l), word l n, by simpa using Element.Wire.uint (m := m) (word l n)⟩

/-- The octets of a row of pieces. -/
def wires (ps : List Piece) : List Octet := ps.flatMap wire

@[simp] theorem wires_nil : wires [] = [] := rfl

@[simp] theorem wires_cons (p : Piece) (ps : List Piece) : wires (p :: ps) = p.wire ++ wires ps :=
  rfl

@[simp] theorem wires_append (ps qs : List Piece) : wires (ps ++ qs) = wires ps ++ wires qs :=
  List.flatMap_append

end Piece

/-- The fields of a member. A repeated member stands for as many as there are. -/
def Member.elements (times : Nat) : Member → List Element
  | .element e => [e]
  | .MmMultiple body => List.replicate times body

structure Question where
  name : DomainName
  type : BitVec 16
  cls : BitVec 16

def Question.pieces (q : Question) : List Piece :=
  [.name .Name q.name, .uint .Type_ 2 q.type.toNat, .uint .Class 2 q.cls.toNat]

/-- A record whose data has the fields of the compound for its type. -/
structure Record where
  name : DomainName
  type : BitVec 16
  cls : BitVec 16
  ttl : BitVec 32
  data : List Piece
  times : Nat
  shape : data.map Piece.element = (RR.find type.toNat).rdata.flatMap (Member.elements times)
  short : (Piece.wires data).length < 2 ^ 16

namespace Record

def rr (r : Record) : RR := .find r.type.toNat

/-- The fields that every record has. The last one is the length of the data. -/
def common (r : Record) : List Piece :=
  [.name .Name r.name, .uint .Type_ 2 r.type.toNat, .uint .Class 2 r.cls.toNat,
    .uint .TTL 4 r.ttl.toNat, .uint .Length 2 (Piece.wires r.data).length]

def pieces (r : Record) : List Piece := r.common ++ r.data

end Record

inductive Entry where
  | question (q : Question)
  | record (r : Record)

namespace Entry

def mc : Entry → Mc
  | question _ => .QuestionEntry
  | record r => .RR r.rr

def pieces : Entry → List Piece
  | question q => q.pieces
  | record r => r.pieces

def wire (e : Entry) : List Octet := Piece.wires e.pieces

theorem wire_pos (e : Entry) : 0 < e.wire.length := by
  cases e with
  | question q =>
      have := q.name.wire_pos
      simp only [wire, pieces, Question.pieces, Piece.wires_cons, List.length_append, Piece.name]
      omega
  | record r =>
      have := r.name.wire_pos
      simp only [wire, pieces, Record.pieces, Record.common, List.cons_append, Piece.wires_cons,
        List.length_append, Piece.name]
      omega

/-- Which entries stand in which section. -/
def Fits (s : Section) : Entry → Prop
  | question _ => s = .Question
  | record _ => s ≠ .Question

instance (s : Section) : DecidablePred (Fits s) := fun e =>
  match e with
  | question _ => inferInstanceAs (Decidable (s = .Question))
  | record _ => inferInstanceAs (Decidable (s ≠ .Question))

def wires (es : List Entry) : List Octet := es.flatMap wire

@[simp] theorem wires_nil : wires [] = [] := rfl

@[simp] theorem wires_cons (e : Entry) (es : List Entry) : wires (e :: es) = e.wire ++ wires es :=
  rfl

@[simp] theorem wires_append (es fs : List Entry) : wires (es ++ fs) = wires es ++ wires fs :=
  List.flatMap_append

end Entry

structure Message where
  id : BitVec 16
  flags : BitVec 16
  questions : List Question
  answers : List Record
  authority : List Record
  additional : List Record
  short : questions.length < 2 ^ 16 ∧ answers.length < 2 ^ 16 ∧ authority.length < 2 ^ 16 ∧
    additional.length < 2 ^ 16

namespace Message

/-- The entries of a section. -/
def entries (m : Message) : Section → List Entry
  | .Question => m.questions.map .question
  | .Answer => m.answers.map .record
  | .Authority => m.authority.map .record
  | .Additional => m.additional.map .record

/-- What the header counts. -/
def count (m : Message) (s : Section) : Nat := (m.entries s).length

theorem count_lt (m : Message) (s : Section) : m.count s < 2 ^ 16 := by
  obtain ⟨q, a, n, r⟩ := m.short
  cases s <;> simpa [count, entries]

theorem fits (m : Message) {s : Section} {e : Entry} (member : e ∈ m.entries s) : e.Fits s := by
  cases s <;> obtain ⟨x, -, rfl⟩ := List.mem_map.mp member <;> simp [Entry.Fits]

def header (m : Message) : List Octet :=
  word 2 m.id.toNat ++ word 2 m.flags.toNat ++ sections.flatMap fun s => word 2 (m.count s)

/-- All entries, section by section. -/
def all (m : Message) : List Entry := sections.flatMap m.entries

def wire (m : Message) : List Octet := m.header ++ Entry.wires m.all

@[simp] theorem header_length (m : Message) : m.header.length = 12 := by simp [header, sections]

end Message

/-! ## The tree of a message -/

/-- The fields that stand one behind the other from an octet on. -/
def layout (c : Mc) : List Piece → Nat → Octbuf → List RObject
  | [], _, _ => []
  | p :: ps, a, buf =>
      p.element.leaf c (8 * a) (8 * p.wire.length) buf :: layout c ps (a + p.wire.length) buf

/-- A compound of this many octets, with the objects in it. -/
def compound (c : Mc) (a length : Nat) (buf : Octbuf) (children : Octbuf → List RObject) :
    RObject :=
  .mk (.mc c) (8 * a) (8 * length) (.octets ((buf.substr a length).string 0 length))
    (children (buf.substr a length))

def Entry.tree (e : Entry) (a : Nat) (buf : Octbuf) : RObject :=
  compound e.mc a e.wire.length buf (layout e.mc e.pieces 0)

/-- Entries one behind the other. -/
def trees : List Entry → Nat → Octbuf → List RObject
  | [], _, _ => []
  | e :: es, a, buf => e.tree a buf :: trees es (a + e.wire.length) buf

def Section.tree (s : Section) (es : List Entry) (a : Nat) (buf : Octbuf) : RObject :=
  compound (.Section s) a (Entry.wires es).length buf (trees es 0)

/-- The sections that have entries. -/
def sectionTrees (entries : Section → List Entry) : List Section → Nat → Octbuf → List RObject
  | [], _, _ => []
  | s :: ss, a, buf =>
      if entries s = [] then sectionTrees entries ss a buf
      else s.tree (entries s) a buf ::
        sectionTrees entries ss (a + (Entry.wires (entries s)).length) buf

/-- The fields of the header, by bits. -/
def fields (c : Mc) : List (Mm × Nat) → Nat → Octbuf → List RObject
  | [], _, _ => []
  | (m, w) :: fs, at_, buf => (Element.MmUint m w).leaf c at_ w buf :: fields c fs (at_ + w) buf

def headerFields : List (Mm × Nat) :=
  [(.Identifier, 16), (.QR, 1), (.Opcode, 4), (.AA, 1), (.TC, 1), (.RD, 1), (.RA, 1),
    (.Reserved, 3), (.RCode, 4), (.QDCount, 16), (.ANCount, 16), (.NSCount, 16), (.ARCount, 16)]

def Message.tree (m : Message) (a : Nat) (buf : Octbuf) : RObject :=
  compound .Udp_DNS a m.wire.length buf fun self =>
    fields .Udp_DNS headerFields 0 self ++ sectionTrees m.entries sections 12 self

/-! ## Messages in a buffer -/

/-- The octets stand in the memory from an octet of the buffer on. -/
def Octbuf.Reads (buf : Octbuf) (a : Nat) (xs : List Octet) : Prop :=
  ∀ i x, xs[i]? = some x → buf.mem (buf.start + (a + i) : Nat) = x

/-- The datagram is this message. -/
structure Datagram.Holds (d : Datagram) (m : Message) : Prop where
  reads : d.buf.Reads d.offset m.wire
  length : d.buf.length = d.offset + m.wire.length

/-- The message is decoded without an error, to its own tree and to the tree that it has as
    the first message of the process. -/
structure Datagram.Decoded (d : Datagram) (m : Message) (k : Kept) : Prop where
  ok : (d.decode k).failed = false
  tree : (d.decode k).rc = some (m.tree d.offset d.buf)
  first : (d.decode k).rc = (d.decode Kept.fresh).rc

end Tahi.Pz.McDNS
