import Tahi.Pz.McDNSFields

/-! # Decoding the entries of a DNS message

An entry is decoded twice. The first pass has all that remains as its window and finds
the length, the second one has a window of that length. Between the messages no length
is kept, so that the first pass is never cut short.
-/

namespace Tahi.Pz.McDNS

open BitField

/-- No length is kept. -/
structure Kept.Quiet (k : Kept) : Prop where
  length_ : ∀ s, k.length_ s = 0
  entry : k.entry = {}
  rr : ∀ rr, k.rr rr = {}

namespace RObject

@[simp] theorem octetsOf_nil : octetsOf [] = 0 := rfl

@[simp] theorem octetsOf_cons (r : RObject) (rs : List RObject) :
    octetsOf (r :: rs) = r.size / 8 + octetsOf rs := rfl

@[simp] theorem octetsOf_append (rs qs : List RObject) :
    octetsOf (rs ++ qs) = octetsOf rs + octetsOf qs := by
  simp [octetsOf]

end RObject

/-! ## Windows -/

/-- What a window of octets is left with behind an octet. -/
def Leftover (b : Nat) (buf : Octbuf) (less : List RObject) : Prop :=
  b = buf.length ∧ less = [] ∨
    b < buf.length ∧
      ∃ pvalue children,
        less = [.mk (.mc .Needless) (8 * b) (8 * (buf.length - b)) pvalue children]

theorem needless_room (buf : Octbuf) {b : Nat} (room : b ≤ buf.length) :
    ∃ less, needless false (8 * b) buf = ⟨false, 8 * buf.length, less⟩ ∧ Leftover b buf less := by
  by_cases ends : b = buf.length
  · subst ends
    refine ⟨[], ?_, .inl ⟨rfl, rfl⟩⟩
    simp [needless, Octbuf.remainLength]
  · have some_left : buf.length - b ≠ 0 := by omega
    have whole : 8 * b + 8 * (buf.length - b) = 8 * buf.length := by omega
    have data := Element.reverse_open .Needless false (buf.substr b (buf.length - b))
      (e := .MmData .data) (a := 0) (Nat.zero_le _) rfl
    simp only [Nat.mul_zero] at data
    simp only [needless, Octbuf.remainLength, mul_div_octet, some_left, if_false, whole,
      Nat.le_refl, if_true, data]
    exact ⟨_, rfl, .inr ⟨by omega, _, _, rfl⟩⟩

/-- A compound of fields, once its members have been decoded in its window. -/
theorem McObject_reverse_room {c : Mc} {ms : List Member} {k : Kept} {buf : Octbuf} {a l b : Nat}
    {made : List RObject} (inside : a + l ≤ buf.length)
    (loop : membersLoop c ms false 0 (buf.substr a l) = ⟨false, 8 * b, made⟩) (room : b ≤ l) :
    ∃ less, Leftover b (buf.substr a l) less ∧
      McObject_reverse c ms l k false (8 * a) buf =
        ⟨k, false, 8 * (a + l), some (compound c a l buf fun _ => made ++ less)⟩ := by
  obtain ⟨less, rest, shape⟩ := needless_room (buf.substr a l) room
  refine ⟨less, shape, ?_⟩
  have fits : 8 * a + 8 * l ≤ 8 * buf.length := by omega
  simp only [McObject_reverse, fits, if_true, mul_div_octet, loop, rest, Nat.mul_add, compound]

/-- A compound of fields whose window ends with its last piece. -/
theorem McObject_reverse_snug {c : Mc} {ms : List Member} {k : Kept} {buf : Octbuf} {a l : Nat}
    {made : List RObject} (inside : a + l ≤ buf.length)
    (loop : membersLoop c ms false 0 (buf.substr a l) = ⟨false, 8 * l, made⟩) :
    McObject_reverse c ms l k false (8 * a) buf =
      ⟨k, false, 8 * (a + l), some (compound c a l buf fun _ => made)⟩ := by
  obtain ⟨less, shape, result⟩ := McObject_reverse_room (k := k) inside loop (Nat.le_refl l)
  cases shape with
  | inl ends => rw [result, ends.2, List.append_nil]
  | inr more =>
      simp only [Octbuf.substr_length] at more
      omega

namespace Leftover

variable {b : Nat} {buf : Octbuf} {less : List RObject}

theorem evaluated (shape : Leftover b buf less) : less.filter RObject.evaluateObject = [] := by
  obtain ⟨-, rfl⟩ | ⟨-, pvalue, children, rfl⟩ := shape
  · rfl
  · simp [RObject.evaluateObject, RObject.meta_]

theorem octetsOf (shape : Leftover b buf less) : RObject.octetsOf less = buf.length - b := by
  obtain ⟨rfl, rfl⟩ | ⟨-, pvalue, children, rfl⟩ := shape
  · simp
  · simp [RObject.size]

theorem short (shape : Leftover b buf less) : less.length ≤ 1 := by
  obtain ⟨-, rfl⟩ | ⟨-, pvalue, children, rfl⟩ := shape <;> simp

end Leftover

theorem layout_evaluated {c : Mc} {ps : List Piece} {a : Nat} {buf : Octbuf} :
    (layout c ps a buf).filter RObject.evaluateObject = layout c ps a buf := by
  induction ps generalizing a with
  | nil => rfl
  | cons p ps ih =>
      have own : (p.element.leaf c (8 * a) (8 * p.wire.length) buf).evaluateObject = true := by
        simp [RObject.evaluateObject, RObject.meta_, Element.leaf]
      simp only [layout, List.filter_cons, own, if_true, ih]

theorem octetsOf_layout {c : Mc} {ps : List Piece} {a : Nat} {buf : Octbuf} :
    RObject.octetsOf (layout c ps a buf) = (Piece.wires ps).length := by
  induction ps generalizing a with
  | nil => rfl
  | cons p ps ih => simp [layout, RObject.size, Element.leaf, ih]

/-! ## Questions -/

namespace McDNS_QuestionEntry

variable {k : Kept} {buf : Octbuf} {a : Nat}

theorem option_quiet (silent : k.entry = {}) :
    option k false (8 * a) buf =
      McObject_reverse .QuestionEntry entryMembers (buf.length - a) k false (8 * a) buf := by
  simp [option, length_for_reverse, silent, Octbuf.remainLength]

theorem option_length (buf : Octbuf) (a : Nat) {l : Nat} (pos : l ≠ 0) (silent : k.entry = {}) :
    option { k with entry := ⟨l, 0⟩ } false (8 * a) buf =
      McObject_reverse .QuestionEntry entryMembers l k false (8 * a) buf := by
  have back : { k with entry := (⟨0, 0⟩ : LengthCtl) } = k := by
    cases k
    simp only at silent
    rw [silent]
  simp only [option, length_for_reverse, pos, ne_eq, not_false_eq_true, if_true, back]

/-- A question is decoded to its own tree. -/
theorem reverse_question (silent : k.entry = {}) (q : Question)
    (reads : buf.Reads a (Entry.question q).wire)
    (room : a + (Entry.question q).wire.length ≤ buf.length) :
    reverse k false (8 * a) buf =
      ⟨k, false, 8 * (a + (Entry.question q).wire.length),
        some ((Entry.question q).tree a buf)⟩ := by
  have pos := (Entry.question q).wire_pos
  have loop : ∀ l, (Entry.question q).wire.length ≤ l →
      membersLoop .QuestionEntry entryMembers false 0 (buf.substr a l) =
        ⟨false, 8 * (Entry.question q).wire.length,
          layout .QuestionEntry q.pieces 0 (buf.substr a l)⟩ := by
    intro l fits
    have here : (buf.substr a l).Reads 0 (Piece.wires q.pieces) := by
      rw [Octbuf.reads_substr]
      exact reads
    have := membersLoop_pieces (c := .QuestionEntry) 0 entryMembers q.pieces 0 rfl
      (.inl rfl) rfl here (by simpa [Entry.wire, Entry.pieces] using fits)
      (.inl rfl)
    simpa [Entry.wire, Entry.pieces] using this
  obtain ⟨less, shape, probe⟩ := McObject_reverse_room (k := k) (l := buf.length - a) (by omega)
    (loop _ (by omega)) (by omega)
  have len : RObject.octetsOf ((layout .QuestionEntry q.pieces 0 (buf.substr a (buf.length - a)) ++
      less).filter RObject.evaluateObject) = (Entry.question q).wire.length := by
    rw [List.filter_append, shape.evaluated, List.append_nil, layout_evaluated, octetsOf_layout]
    rfl
  have real := McObject_reverse_snug (k := k) room (loop _ (Nat.le_refl _))
  have done := option_length buf a (Nat.ne_of_gt pos) silent
  simp only [reverse, option_quiet silent, probe, compound, RObject.children, len, silent]
  rw [done, real]
  rfl

end McDNS_QuestionEntry

/-! ## Records -/

namespace Record

variable {r : Record} {self : Octbuf}

theorem shape_common : r.common.map Piece.element = RR.common_member.flatMap (Member.elements 0) :=
  rfl

theorem wires_common : (Piece.wires r.common).length = r.name.wire.length + 10 := by
  simp [common, Piece.name, Piece.uint]

theorem wire_eq : (Entry.record r).wire = Piece.wires r.common ++ Piece.wires r.data :=
  Piece.wires_append r.common r.data

/-- Behind the common fields stands the data. -/
theorem reads_data (reads : self.Reads 0 (Entry.record r).wire) :
    self.Reads 0 (Piece.wires r.common) ∧
      self.Reads (r.name.wire.length + 10) (Piece.wires r.data) := by
  rw [wire_eq] at reads
  obtain ⟨common, data⟩ := Octbuf.reads_append.mp reads
  rw [wires_common, Nat.zero_add] at data
  exact ⟨common, data⟩

/-- The length of the data stands in front of the data. -/
theorem reads_length (reads : self.Reads 0 (Piece.wires r.common)) :
    self.Reads (r.name.wire.length + 8) (word 2 (Piece.wires r.data).length) := by
  simp only [common, Piece.name, Piece.uint, Piece.wires_cons, Piece.wires_nil, List.append_nil,
    ← List.append_assoc] at reads
  have := (Octbuf.reads_append.mp reads).2
  simpa [Nat.add_assoc] using this

theorem reads_type (reads : self.Reads 0 (Piece.wires r.common)) :
    self.Reads r.name.wire.length (word 2 r.type.toNat) := by
  simp only [common, Piece.name, Piece.uint, Piece.wires_cons] at reads
  have := (Octbuf.reads_append.mp (Octbuf.reads_append.mp reads).2).1
  simpa using this

theorem reads_name (reads : self.Reads 0 (Piece.wires r.common)) :
    self.Reads 0 r.name.wire := by
  simp only [common, Piece.name, Piece.wires_cons] at reads
  exact (Octbuf.reads_append.mp reads).1

/-- A text record says by its length how many strings it has. -/
theorem counted (reads : self.Reads 0 (Entry.record r).wire)
    (room : (Entry.record r).wire.length ≤ self.length) :
    r.rr.rdata.all Member.single = true ∨ HC_MLC_TXT self = r.times := by
  obtain ⟨common, data⟩ := reads_data reads
  have short := r.short
  have whole : r.name.wire.length + 10 + (Piece.wires r.data).length ≤ self.length := by
    rw [wire_eq, List.length_append, wires_common] at room
    exact room
  by_cases text : r.rr = .TXT
  · right
    have shape := r.shape
    rw [show RR.find r.type.toNat = .TXT from text] at shape
    simp only [RR.rdata, List.flatMap_cons, List.flatMap_nil, List.append_nil,
      Member.elements] at shape
    have long : r.data.length = r.times := by simpa using congrArg List.length shape
    have strs : ∀ p ∈ r.data, p.element = .MmDNSStr .TXT := by
      intro p member
      have := List.mem_map_of_mem (f := Piece.element) member
      rw [shape] at this
      exact (List.mem_replicate.mp this).2
    have walk := labels_name self.length r.name (reads_name common) (by omega)
    have field := reads_length common
    simp only [word, List.nil_append, List.singleton_append] at field
    have high := field.head
    have low := field.tail.head
    simp only [BitVec.toNat_ofNat] at high low
    have rdlength : 0x100 * self.octet (r.name.wire.length + 8) +
        self.octet (r.name.wire.length + 8 + 1) = (Piece.wires r.data).length := by
      omega
    simp only [HC_MLC_TXT, Octbuf.remainLength, Nat.sub_zero, walk, rdlength]
    rw [strings_pieces r.data strs 0 _ (by simpa [Nat.add_assoc] using data) (by omega)
      (Nat.le_refl _), long]
  · exact .inl (single_rdata text)

/-- The fields of a record, in a window that has room for it. -/
theorem membersLoop_record (reads : self.Reads 0 (Entry.record r).wire)
    (room : (Entry.record r).wire.length ≤ self.length) (rr : RR) (data : List Piece) (times : Nat)
    (shape : data.map Piece.element = rr.rdata.flatMap (Member.elements times))
    (count : rr.rdata.all Member.single = true ∨ HC_MLC_TXT self = times)
    (same : Piece.wires data = Piece.wires r.data) (c : Mc) :
    ∃ b made, membersLoop c rr.members false 0 self =
      ⟨false, 8 * b, layout c r.common 0 self ++ made⟩ ∧ b ≤ self.length := by
  obtain ⟨common, behind⟩ := reads_data reads
  rw [wire_eq, List.length_append, wires_common] at room
  have first := membersLoop_pieces (c := c) 0 RR.common_member r.common 0 shape_common
    (.inl rfl) rfl common (by rw [wires_common]; omega) (.inl rfl)
  rw [Nat.zero_add, wires_common] at first
  obtain ⟨b, made, second, inside⟩ := membersLoop_room (c := c) rr.rdata data _ shape count
    (closed_rdata rr) (same ▸ behind) (by rw [same]; exact room)
  refine ⟨b, made, ?_, inside⟩
  rw [RR.members, membersLoop_append first rfl]
  simp only [second]

variable {c : Mc} {a l : Nat} (buf : Octbuf) (rest : List RObject)

/-- The decoded object says how long the data is. -/
theorem corresponding_length (reads : self.Reads 0 (Piece.wires r.common)) :
    ∃ found,
      (compound c a l buf fun _ => layout c r.common 0 self ++ rest).corresponding
        (.mm c .Length) = some found ∧
      found.pvalue.value = (Piece.wires r.data).length := by
  have field := (reads_length reads).decodeUint
  have short := r.short
  refine ⟨(Element.MmUint .Length 16).leaf c (8 * (r.name.wire.length + 8)) 16 self, ?_, ?_⟩
  · simp [compound, RObject.corresponding, RObject.correspondingChild, layout, common, Piece.name,
      Piece.uint, Element.leaf, Element.mm, Element.reversePv, Nat.add_assoc]
  · simp only [Element.leaf, RObject.pvalue, Element.reversePv, PvObject.value]
    have read : self.decodeUint (8 * (r.name.wire.length + 8)) 16 = _ := field
    rw [read]
    omega

theorem corresponding_type (reads : self.Reads 0 (Piece.wires r.common)) :
    ∃ found,
      (compound c a l buf fun _ => layout c r.common 0 self ++ rest).corresponding
        (.mm c .Type_) = some found ∧
      found.pvalue.value = r.type.toNat := by
  have field := (reads_type reads).decodeUint
  have bound := r.type.isLt
  refine ⟨(Element.MmUint .Type_ 16).leaf c (8 * r.name.wire.length) 16 self, ?_, ?_⟩
  · simp [compound, RObject.corresponding, RObject.correspondingChild, layout, common, Piece.name,
      Piece.uint, Element.leaf, Element.mm, Element.reversePv]
  · simp only [Element.leaf, RObject.pvalue, Element.reversePv, PvObject.value]
    have read : self.decodeUint (8 * r.name.wire.length) 16 = _ := field
    rw [read]
    omega

/-- The fields up to the length are counted, whatever stands behind them. -/
theorem baseLength_common (rr : RR) :
    McDNS_RR.baseLength rr ((layout (.RR rr) r.common 0 self ++ rest).filter
      RObject.evaluateObject) = r.name.wire.length + 10 := by
  rw [List.filter_append, layout_evaluated]
  simp [McDNS_RR.baseLength, layout, common, Piece.name, Piece.uint, Element.leaf, Element.mm,
    RObject.meta_, RObject.size]

end Record

namespace McDNS_RR

variable {k : Kept} {buf : Octbuf} {a : Nat}

theorem option_quiet {rr : RR} (silent : k.rr rr = {}) :
    option rr k false (8 * a) buf =
      McObject_reverse (.RR rr) rr.members (buf.length - a) k false (8 * a) buf := by
  simp [option, length_for_reverse, silent, Octbuf.remainLength]

theorem option_length (rr : RR) (buf : Octbuf) (a : Nat) {l n : Nat} (pos : l ≠ 0)
    (silent : k.rr rr = {}) :
    option rr (k.setRR rr ⟨l, n⟩) false (8 * a) buf =
      McObject_reverse (.RR rr) rr.members (l + n) k false (8 * a) buf := by
  have back : (k.setRR rr ⟨l, n⟩).setRR rr ⟨0, 0⟩ = k := by
    simp only [Kept.setRR, Function.update_idem]
    rw [show (⟨0, 0⟩ : LengthCtl) = k.rr rr from silent.symm, Function.update_eq_self]
  have kept : (k.setRR rr ⟨l, n⟩).rr rr = ⟨l, n⟩ := by simp [Kept.setRR]
  by_cases zero : n = 0
  · subst zero
    simp only [option, length_for_reverse, kept, pos, ne_eq, not_false_eq_true, if_true,
      not_true_eq_false, if_false, back, Nat.add_zero]
  · simp only [option, length_for_reverse, kept, pos, zero, ne_eq, not_false_eq_true, if_true, back]

/-- The type of a record is found, and nothing else is left behind. -/
theorem overwrite_DictType_record (silent : k.rr .ANY = {}) (r : Record)
    (reads : buf.Reads a (Entry.record r).wire)
    (room : a + (Entry.record r).wire.length ≤ buf.length) :
    overwrite_DictType k false (8 * a) buf = (k, false, some r.type.toNat) := by
  have pos := (Entry.record r).wire_pos
  have here : (buf.substr a (buf.length - a)).Reads 0 (Entry.record r).wire := by
    rw [Octbuf.reads_substr]
    exact reads
  obtain ⟨b, made, loop, inside⟩ := Record.membersLoop_record here
    (by simp only [Octbuf.substr_length]; omega) .ANY
    [⟨.MmData .data, Piece.wires r.data, .data⟩] 0 rfl (.inl rfl) (by simp) (.RR .ANY)
  obtain ⟨less, -, probe⟩ := McObject_reverse_room (k := k) (by omega) loop inside
  simp only [List.append_assoc] at probe
  obtain ⟨found, seen, value⟩ := Record.corresponding_type (c := .RR .ANY) (a := a)
    (l := buf.length - a) buf (made ++ less) (Record.reads_data here).1
  have some_left : buf.length - a ≠ 0 := by omega
  simp only [overwrite_DictType, Octbuf.remainLength, mul_div_octet, some_left, ne_eq,
    not_false_eq_true, if_true, option_quiet silent, probe, Option.bind_some, seen,
    Option.map_some, value]

/-- A record is decoded to its own tree. -/
theorem reverse_record (r : Record) (silent : k.rr r.rr = {})
    (reads : buf.Reads a (Entry.record r).wire)
    (room : a + (Entry.record r).wire.length ≤ buf.length) :
    reverse r.rr k false (8 * a) buf =
      ⟨k, false, 8 * (a + (Entry.record r).wire.length),
        some ((Entry.record r).tree a buf)⟩ := by
  have here : ∀ l, (buf.substr a l).Reads 0 (Entry.record r).wire := by
    intro l
    rw [Octbuf.reads_substr]
    exact reads
  have fits : (Entry.record r).wire.length ≤ (buf.substr a (buf.length - a)).length := by
    simp only [Octbuf.substr_length]
    omega
  have shape : r.data.map Piece.element = r.rr.rdata.flatMap (Member.elements r.times) := r.shape
  obtain ⟨b, made, loop, inside⟩ := Record.membersLoop_record (here (buf.length - a)) fits _ _ _ shape
    (Record.counted (here _) fits) rfl (.RR r.rr)
  obtain ⟨less, -, probe⟩ := McObject_reverse_room (k := k) (by omega) loop inside
  simp only [List.append_assoc] at probe
  obtain ⟨found, seen, value⟩ := Record.corresponding_length (c := .RR r.rr) (a := a)
    (l := buf.length - a) buf (made ++ less)
    (Record.reads_data (here (buf.length - a))).1
  have whole : r.name.wire.length + 10 + (Piece.wires r.data).length =
      (Entry.record r).wire.length := by
    rw [Record.wire_eq, List.length_append, Record.wires_common]
  have again := membersLoop_pieces (c := .RR r.rr) r.times r.rr.members r.pieces 0
    (by
      rw [Record.pieces, RR.members, List.map_append, List.flatMap_append, r.shape]
      rfl)
    (by
      have count := Record.counted (here (Entry.record r).wire.length) (Nat.le_refl _)
      simp only [RR.members, List.all_append, Bool.and_eq_true]
      exact count.imp_left fun single => ⟨rfl, single⟩)
    (by simpa [RR.members, RR.common_member, closed, Element.fixed] using closed_rdata r.rr)
    (here (Entry.record r).wire.length) (by simp [Entry.wire, Entry.pieces])
    (.inr (by simp [Entry.wire, Entry.pieces]))
  rw [Nat.zero_add] at again
  have real := McObject_reverse_snug (k := k) room again
  have done := option_length r.rr buf a
    (l := r.name.wire.length + 10) (n := (Piece.wires r.data).length) (by omega) silent
  rw [whole] at done
  simp only [reverse, option_quiet silent, probe, seen, value]
  simp only [compound, RObject.children, Record.baseLength_common]
  rw [done, real]
  rfl

end McDNS_RR

/-! ## Entries -/

/-- What the loop of a section does with an entry. -/
def Section.forward : Section → Reverse
  | .Question => McDNS_QuestionEntry.reverse
  | .Answer | .Authority | .Additional => record

theorem Section.member_eq (s : Section) : s.member = entries s s.forward := by cases s <;> rfl

/-- An entry of the right kind is decoded to its own tree, and nothing is left behind. -/
theorem forward_entry {s : Section} {e : Entry} {k : Kept} {buf : Octbuf} {a : Nat}
    (quiet : k.Quiet) (fits : e.Fits s) (reads : buf.Reads a e.wire)
    (room : a + e.wire.length ≤ buf.length) :
    s.forward k false (8 * a) buf =
      ⟨k, false, 8 * (a + e.wire.length), some (e.tree a buf)⟩ := by
  cases e with
  | question q =>
      cases fits
      exact McDNS_QuestionEntry.reverse_question quiet.entry q reads room
  | record r =>
      have same : s.forward = record := by
        cases s with
        | Question => exact absurd rfl fits
        | _ => rfl
      rw [same]
      simp only [record,
        McDNS_RR.overwrite_DictType_record (quiet.rr .ANY) r reads room]
      exact McDNS_RR.reverse_record r (quiet.rr _) reads room

end Tahi.Pz.McDNS
