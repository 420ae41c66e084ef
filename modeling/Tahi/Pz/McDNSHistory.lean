import Tahi.Pz.McDNSQuiet

/-! # Messages after other messages

The first pass over a message has the counts and the indexes that the messages before
have left. It does no harm when it reads every entry as what it is. Otherwise its error,
or an index that is still there for the second pass, spoils the message.
-/

namespace Tahi.Pz.McDNS

open BitField

/-! ## The header -/

theorem membersLoop_fields {c : Mc} (buf : Octbuf) (fs : List (Mm × Nat)) (at_ : Nat)
    (room : at_ + (fs.map Prod.snd).sum ≤ 8 * buf.length) :
    membersLoop c (fs.map fun f => .element (.MmUint f.1 f.2)) false at_ buf =
      ⟨false, at_ + (fs.map Prod.snd).sum, fields c fs at_ buf⟩ := by
  induction fs generalizing at_ with
  | nil => rfl
  | cons f fs ih =>
      simp only [List.map_cons, List.sum_cons] at room
      have fit : at_ + f.2 ≤ 8 * buf.length := by omega
      have next := ih (at_ + f.2) (by omega)
      simp only [List.map_cons, membersLoop, Member.reverse, Element.reverse,
        Element.length_for_reverse, fit, if_true, Bool.false_eq_true, if_false, next, fields,
        List.sum_cons, Nat.add_assoc, List.singleton_append]

namespace McUdp_DNS

variable {k k' : Kept} {buf : Octbuf} {a l b : Nat} {made less : List RObject} {m : Message}

/-- A pass over a message, once its sections have been decoded. -/
theorem header_room (whole : a + l = buf.length) (header_fits : 12 ≤ l)
    (loop : sectionsLoop sections k false (8 * 12) (buf.substr a l) = ⟨k', false, 8 * b, made⟩)
    (room : b ≤ l) :
    ∃ less, Leftover b (buf.substr a l) less ∧
      header k false (8 * a) buf =
        ⟨k', false, 8 * (a + l),
          some (compound .Udp_DNS a l buf fun self =>
            fields .Udp_DNS headerFields 0 self ++ made ++ less)⟩ := by
  obtain ⟨less, rest, shape⟩ := needless_room (buf.substr a l) room
  refine ⟨less, shape, ?_⟩
  have first := membersLoop_fields (c := .Udp_DNS) (buf.substr a l) headerFields 0
    (by
      have bits : (headerFields.map Prod.snd).sum = 8 * 12 := rfl
      simp only [bits, Octbuf.substr_length]
      omega)
  have bits : 0 + (headerFields.map Prod.snd).sum = 8 * 12 := rfl
  have same : headerFields.map (fun f => Member.element (.MmUint f.1 f.2)) = headerMembers := rfl
  rw [bits, same] at first
  have remain : buf.remainLength a = l := by
    simp only [Octbuf.remainLength]
    omega
  have fit : 8 * a + 8 * l ≤ 8 * buf.length := by omega
  simp only [header, mul_div_octet, remain, fit, if_true, first, Bool.false_eq_true, if_false, loop,
    rest, Nat.mul_add, compound]

/-- The counts in the header of a message. -/
theorem reads_count {self : Octbuf} (reads : self.Reads 0 m.wire) :
    self.decodeUint 32 16 = m.count .Question ∧ self.decodeUint 48 16 = m.count .Answer ∧
      self.decodeUint 64 16 = m.count .Authority ∧
      self.decodeUint 80 16 = m.count .Additional := by
  have header := (Octbuf.reads_append.mp reads).1
  simp only [Message.header, sections, List.flatMap_cons, List.flatMap_nil, List.append_nil]
    at header
  have counts := (Octbuf.reads_append.mp header).2
  obtain ⟨q, counts⟩ := Octbuf.reads_append.mp counts
  obtain ⟨an, counts⟩ := Octbuf.reads_append.mp counts
  obtain ⟨ns, ar⟩ := Octbuf.reads_append.mp counts
  simp only [List.length_append, word_length, Nat.zero_add, Nat.reduceAdd] at q an ns ar
  have bound := m.count_lt
  have value : ∀ {a n : Nat}, self.Reads a (word 2 n) → n < 2 ^ 16 →
      self.decodeUint (8 * a) 16 = n := by
    intro a n field small
    have read : self.decodeUint (8 * a) 16 = n % 256 ^ 2 := field.decodeUint
    rw [read]
    omega
  exact ⟨value (a := 4) q (bound _), value (a := 6) an (bound _), value (a := 8) ns (bound _),
    value (a := 10) ar (bound _)⟩

/-- The counts of the message replace those that have been kept. -/
theorem set_CountMgr_message (k : Kept) (made less : List RObject)
    (reads : (buf.substr a l).Reads 0 m.wire) :
    set_CountMgr (compound .Udp_DNS a l buf fun self =>
      fields .Udp_DNS headerFields 0 self ++ made ++ less) k = { k with reverse_ := m.count } := by
  obtain ⟨q, an, ns, ar⟩ := reads_count reads
  have all : ∀ f : Section → Nat,
      Function.update (Function.update (Function.update (Function.update f .Question
        (m.count .Question)) .Answer (m.count .Answer)) .Authority (m.count .Authority)) .Additional
          (m.count .Additional) = m.count := by
    intro f
    funext s
    cases s <;> simp [Function.update]
  simp [set_CountMgr, sections, countOf, compound, fields, headerFields, RObject.corresponding,
    RObject.correspondingChild, Element.leaf, Element.mm, Element.reversePv, RObject.pvalue,
    PvObject.value, Kept.set_reverse, q, an, ns, ar, all]

end McUdp_DNS

/-! ## What may be kept -/

/-- What the messages before have left does no harm to a message: every section that the first
    pass goes into finds entries of its own kind, and no index is left for a section that has
    another one behind it. -/
structure Kept.Suits (k : Kept) (m : Message) : Prop where
  aligned : ∀ s ∈ sections, k.Enters sections m.all.length s →
    ∀ e ∈ (m.all.drop (k.passed sections s)).take (k.reverse_ s), e.Fits s
  settled : sections.Pairwise fun s t =>
    k.current_ s = 0 ∨ k.Enters sections m.all.length s ∨ m.count s = 0 ∨ m.count t = 0

instance (k : Kept) (m : Message) : Decidable (k.Suits m) :=
  decidable_of_iff
    ((∀ s ∈ sections, k.Enters sections m.all.length s →
      ∀ e ∈ (m.all.drop (k.passed sections s)).take (k.reverse_ s), e.Fits s) ∧
      sections.Pairwise fun s t =>
        k.current_ s = 0 ∨ k.Enters sections m.all.length s ∨ m.count s = 0 ∨ m.count t = 0)
    ⟨fun h => ⟨h.1, h.2⟩, fun h => ⟨h.aligned, h.settled⟩⟩

/-- A process that starts suits every message. -/
theorem suits_fresh (m : Message) : Kept.fresh.Suits m := by
  refine ⟨?_, ?_⟩
  · intro s _ enters
    exact absurd enters.1 (Nat.lt_irrefl 0)
  · simp [sections, Kept.fresh]

theorem decode_suits {k : Kept} {d : Datagram} {m : Message} (quiet : k.Quiet) (suits : k.Suits m)
    (holds : d.Holds m) :
    (d.decode k).failed = false ∧ (d.decode k).rc = some (m.tree d.offset d.buf) := by
  obtain ⟨buf, a⟩ := d
  have whole : a + m.wire.length = buf.length := holds.length.symm
  have long : m.wire.length = 12 + (Entry.wires m.all).length := by
    rw [Message.wire, List.length_append, Message.header_length]
  have here : (buf.substr a m.wire.length).Reads 0 m.wire := by
    rw [Octbuf.reads_substr]
    exact holds.reads
  have body : (buf.substr a m.wire.length).Reads 12 (Entry.wires m.all) := by
    have := (Octbuf.reads_append.mp here).2
    rwa [Message.header_length] at this
  have distinct : sections.Nodup := by decide
  obtain ⟨k', b, made, loop, room, still, index⟩ := sectionsLoop_probe distinct quiet m.all body
    long.symm suits.aligned
  obtain ⟨less, -, probe⟩ := McUdp_DNS.header_room whole (by omega) loop room
  obtain ⟨k'', again⟩ := sectionsLoop_real (k := { k' with reverse_ := m.count })
    m.entries distinct ⟨still.length_, still.entry, still.rr⟩ (fun _ _ => rfl)
    (fun _ _ _ member => m.fits member) body long.symm (by
      apply suits.settled.imp_of_mem
      intro s t member _ clear
      simp only [index s, member, true_and]
      by_cases enters : k.Enters sections m.all.length s
      · simp [enters]
      · simpa [enters, Message.count] using clear)
  obtain ⟨rest, shape, real⟩ := McUdp_DNS.header_room whole (by omega) again (Nat.le_refl _)
  have snug : rest = [] := by
    obtain ⟨-, empty⟩ | ⟨more, -⟩ := shape
    · exact empty
    · simp at more
  have counts := McUdp_DNS.set_CountMgr_message k' made less here
  simp only [Datagram.decode, McUdp_DNS.reverse, probe, counts, real, snug, List.append_nil]
  exact ⟨trivial, rfl⟩

/-- After any history of messages, a message is decoded as it should be if what is kept does it
    no harm. -/
theorem decoded_after (history : List Datagram) {d : Datagram} {m : Message} (holds : d.Holds m)
    (suits : (after history).Suits m) : d.Decoded m (after history) := by
  obtain ⟨ok, tree⟩ := decode_suits (after_quiet history) suits holds
  refine ⟨ok, tree, ?_⟩
  rw [tree, (decode_suits Kept.quiet_fresh (suits_fresh m) holds).2]

/-! ## Two messages -/

/-- A buffer with these octets and nothing else. -/
def datagram (xs : List Octet) : Datagram :=
  ⟨⟨fun i => xs.getD i.toNat 0, 0, xs.length⟩, 0⟩

theorem holds_datagram (m : Message) : (datagram m.wire).Holds m := by
  refine ⟨?_, ?_⟩
  · intro i x at_i
    simp [datagram, at_i]
  · simp [datagram]

def root : DomainName := ⟨[], none⟩

def address : Piece :=
  ⟨.MmOctets .Address 4, [1, 2, 3, 4], Element.Wire.octets (m := .Address) [1, 2, 3, 4]⟩

/-- Questions for the address of the root, and the address. -/
def answer (questions : Nat) (few : questions < 2 ^ 16) : Message where
  id := 1
  flags := 0x8000
  questions := List.replicate questions ⟨root, 1, 1⟩
  answers := [⟨root, 1, 1, 3600, [address], 0, rfl, by decide⟩]
  authority := []
  additional := []
  short := by simpa using few

/-- The header of a message that announces two questions and an answer. -/
def announced : List Octet := [0, 1, 0, 0, 0, 2, 0, 1, 0, 0, 0, 0]

/-- The same with an octet behind it, so that an index is left behind too. -/
def truncated : Datagram := datagram (announced ++ [0])

/-- The index that is left for the questions is gone before the second pass. -/
theorem truncated_answer :
    (datagram (answer 2 (by decide)).wire).Decoded (answer 2 (by decide)) (after [truncated]) :=
  decoded_after [truncated] (holds_datagram _) (by decide +kernel)

/-- With two questions kept, the record of a message with one question is taken for the second
    question, and the rest of it for a record that does not fit. -/
theorem not_decoded_after :
    ¬ ∀ (history : List Datagram) (d : Datagram) (m : Message), d.Holds m →
      d.Decoded m (after history) := by
  intro claim
  have good := claim [datagram announced] _ _ (holds_datagram (answer 1 (by decide)))
  have bad : ((datagram (answer 1 (by decide)).wire).decode
      (after [datagram announced])).failed = true := by
    decide +kernel
  exact absurd (good.ok.symm.trans bad) (by decide)

end Tahi.Pz.McDNS
