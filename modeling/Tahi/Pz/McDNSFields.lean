import Tahi.Pz.DnsMessage

/-! # Decoding the fields of a DNS message

The pieces of an entry are decoded to their own objects wherever they stand. Only a
field that takes all that remains needs the window to end where it ends.
-/

namespace Tahi.Pz.McDNS

open BitField

namespace Octbuf

variable {buf : Octbuf} {a : Nat} {xs ys : List Octet}

theorem reads_append :
    buf.Reads a (xs ++ ys) ↔ buf.Reads a xs ∧ buf.Reads (a + xs.length) ys := by
  constructor
  · intro reads
    constructor
    · intro i x at_i
      apply reads i x
      rw [List.getElem?_append_left (List.getElem?_eq_some_iff.mp at_i).1]
      exact at_i
    · intro i x at_i
      rw [Nat.add_assoc]
      apply reads (xs.length + i) x
      rw [List.getElem?_append_right (by omega), Nat.add_sub_cancel_left]
      exact at_i
  · rintro ⟨left, right⟩ i x at_i
    by_cases inside : i < xs.length
    · rw [List.getElem?_append_left inside] at at_i
      exact left i x at_i
    · rw [List.getElem?_append_right (by omega)] at at_i
      have := right _ x at_i
      rwa [show a + xs.length + (i - xs.length) = a + i by omega] at this

theorem reads_nil : buf.Reads a [] := by
  intro i x at_i
  cases at_i

theorem Reads.head {x : Octet} (reads : buf.Reads a (x :: xs)) : buf.octet a = x.toNat := by
  have := reads 0 x rfl
  simp only [octet, Nat.add_zero] at this ⊢
  rw [this]

theorem Reads.tail {x : Octet} (reads : buf.Reads a (x :: xs)) : buf.Reads (a + 1) xs := by
  have split : buf.Reads a ([x] ++ xs) := reads
  exact (reads_append.mp split).2

@[simp] theorem reads_substr {n l : Nat} : (buf.substr n l).Reads a xs ↔ buf.Reads (n + a) xs := by
  simp only [Reads, substr, Nat.add_assoc]

@[simp] theorem substr_length {n l : Nat} : (buf.substr n l).length = l := rfl

/-- A number is read as it has been written. -/
theorem Reads.decodeUint {l n : Nat} (reads : buf.Reads a (word l n)) :
    buf.decodeUint (8 * a) (8 * l) = n % 256 ^ l := by
  induction l generalizing n with
  | zero => simp [Octbuf.decodeUint, Nat.mod_one]
  | succ l ih =>
      obtain ⟨high, low⟩ := reads_append.mp reads
      have last := low.head
      simp only [word_length, octet, BitVec.toNat_ofNat] at last
      have upper := ih high
      simp only [Octbuf.decodeUint] at upper ⊢
      have place : ((8 * buf.start + 8 * a : Nat) : Int) + (8 * l : Nat) =
          8 * ((buf.start + (a + l) : Nat) : Int) := by
        omega
      have whole : n % 256 ^ (l + 1) = n % 256 + 256 * (n / 256 % 256 ^ l) := by
        rw [Nat.pow_succ', Nat.mod_mul]
      rw [Nat.mul_succ, value_append, upper, place, value_octet, last, whole]
      omega

end Octbuf

/-! ## Names and strings -/

theorem octet_label {n : Nat} (short : n < 64) : n &&& 0xc0 = 0 := by
  have all : ∀ i : Fin 64, (i : Nat) &&& 0xc0 = 0 := by decide
  exact all ⟨n, short⟩

theorem octet_pointer {n : Nat} (high : 192 ≤ n) (octet : n < 256) : n &&& 0xc0 ≠ 0 := by
  have all : ∀ i : Fin 256, 192 ≤ (i : Nat) → (i : Nat) &&& 0xc0 ≠ 0 := by decide +kernel
  exact all ⟨n, octet⟩ high

/-- The first octet of a pointer is neither the root nor the length of a label. -/
theorem pointer_octet (p : BitVec 14) :
    (BitVec.ofNat 8 ((0xc000 + p.toNat) / 256)).toNat ≠ 0 ∧
      (BitVec.ofNat 8 ((0xc000 + p.toNat) / 256)).toNat &&& 0xc0 ≠ 0 := by
  have bound := p.isLt
  have high : (BitVec.ofNat 8 ((0xc000 + p.toNat) / 256)).toNat = 192 + p.toNat / 256 := by
    simp only [BitVec.toNat_ofNat]
    omega
  rw [high]
  exact ⟨by omega, octet_pointer (by omega) (by omega)⟩

section Walk

variable {buf : Octbuf} {a d fuel : Nat} {xs : List Octet}

/-- One label, of which the length at least is in the buffer. -/
theorem labels_label {length : Nat} (l : Label) (first : buf.octet (a + d) = l.octets.length)
    (inside : d < length) :
    labels buf a length (fuel + 1) d d =
      labels buf a length fuel (d + l.wire.length) (d + l.wire.length) := by
  have nonempty : l.octets.length ≠ 0 := Nat.ne_of_gt l.nonempty
  have plain := octet_label l.short
  have whole : l.wire.length = l.octets.length + 1 := rfl
  rw [labels, if_pos inside]
  simp only [first, nonempty, plain, if_false, ne_eq, not_true_eq_false, whole]
  rw [show d + 1 + l.octets.length = d + (l.octets.length + 1) by omega,
    show d + l.octets.length + 1 = d + (l.octets.length + 1) by omega]

/-- The first octet of a label is its length. -/
theorem Octbuf.Reads.label {l : Label} {ys : List Octet} (reads : buf.Reads a xs)
    (cut : xs <+: l.wire ++ ys) (some_ : xs ≠ []) : buf.octet a = l.octets.length := by
  have short := l.short
  cases xs with
  | nil => exact absurd rfl some_
  | cons x xs =>
      obtain ⟨rfl, -⟩ := List.cons_prefix_cons.mp cut
      have first := reads.head
      rw [first, BitVec.toNat_ofNat]
      omega

/-- The walk over a name ends behind the name. By induction on the labels. -/
theorem labels_wire (length : Nat) (ls : List Label) (p : Option (BitVec 14)) (d fuel : Nat)
    (reads : buf.Reads (a + d) (ls.flatMap Label.wire ++ DomainName.tail p))
    (room : d + (ls.flatMap Label.wire ++ DomainName.tail p).length ≤ length)
    (enough : (ls.flatMap Label.wire ++ DomainName.tail p).length ≤ fuel) :
    labels buf a length fuel d d = d + (ls.flatMap Label.wire ++ DomainName.tail p).length := by
  induction ls generalizing d fuel with
  | nil =>
      have pos := DomainName.tail_pos p
      simp only [List.flatMap_nil, List.nil_append] at reads room enough ⊢
      cases fuel with
      | zero => omega
      | succ fuel =>
          have inside : d < length := by omega
          cases p with
          | none =>
              have root := reads.head
              simp [labels, inside, root, DomainName.tail]
          | some p =>
              have marked := pointer_octet p
              rw [← reads.head] at marked
              simp [labels, inside, marked.1, marked.2, DomainName.tail]
  | cons l ls ih =>
      rw [List.flatMap_cons, List.append_assoc] at reads room enough ⊢
      have size : l.wire.length = l.octets.length + 1 := rfl
      rw [List.length_append] at room enough ⊢
      cases fuel with
      | zero => omega
      | succ fuel =>
          have first := reads.label (List.prefix_refl _) (by simp [Label.wire])
          have behind := (Octbuf.reads_append.mp reads).2
          rw [Nat.add_assoc] at behind
          rw [labels_label l first (by omega), ← Nat.add_assoc]
          exact ih _ fuel behind (by omega) (by omega)

end Walk

theorem labels_name {buf : Octbuf} {a : Nat} (length : Nat) (n : DomainName) (reads : buf.Reads a n.wire)
    (room : n.wire.length ≤ length) : labels buf a length length 0 0 = n.wire.length := by
  have := labels_wire length n.labels n.pointer 0 length reads
    (by simpa [DomainName.wire] using room) (by simpa [DomainName.wire] using room)
  simpa [DomainName.wire] using this

/-- Strings one behind the other, as pieces. -/
theorem strings_pieces {buf : Octbuf} {at_ rdlength : Nat} {m : Mm} (ps : List Piece)
    (strs : ∀ p ∈ ps, p.element = .MmDNSStr m) (d fuel : Nat)
    (reads : buf.Reads (at_ + d) (Piece.wires ps)) (ends : d + (Piece.wires ps).length = rdlength)
    (enough : (Piece.wires ps).length ≤ fuel) :
    strings buf at_ rdlength fuel d = ps.length := by
  induction ps generalizing d fuel with
  | nil =>
      cases fuel with
      | zero => rfl
      | succ fuel =>
          have outside : ¬ d < rdlength := by
            simp only [Piece.wires_nil, List.length_nil] at ends
            omega
          simp [strings, outside]
  | cons p ps ih =>
      obtain ⟨element, wire, fits⟩ := p
      have is_str := strs _ (List.mem_cons_self ..)
      simp only at is_str
      subst is_str
      cases fits with
      | str short =>
          rename_i xs
          simp only [Piece.wires_cons, List.length_append, List.length_cons, List.cons_append]
            at reads ends enough
          cases fuel with
          | zero => omega
          | succ fuel =>
              have first := reads.head
              have number : (BitVec.ofNat 8 xs.length).toNat = xs.length := by
                simp only [BitVec.toNat_ofNat]
                omega
              rw [number] at first
              have rest := (Octbuf.reads_append.mp reads.tail).2
              have inside : d < rdlength := by omega
              have next := ih (fun q member => strs q (List.mem_cons_of_mem _ member))
                (d + xs.length + 1) fuel
                (by rwa [show at_ + d + 1 + xs.length = at_ + (d + xs.length + 1) by omega] at rest)
                (by omega) (by omega)
              simp only [strings, inside, if_true, first, next, List.length_cons]
              omega

/-! The bounds on the two walks are never reached: a turn goes on by an octet at least. -/

theorem labels_fuel {buf : Octbuf} {at_ length : Nat} (fuel d reallength : Nat)
    (enough : length - d ≤ fuel) :
    labels buf at_ length (fuel + 1) d reallength = labels buf at_ length fuel d reallength := by
  induction fuel generalizing d reallength with
  | zero =>
      have outside : ¬ d < length := by omega
      simp [labels, outside]
  | succ fuel ih =>
      rw [labels, labels]
      by_cases inside : d < length
      · simp only [inside, if_true]
        rw [ih _ _ (by omega)]
      · simp only [inside, if_false]

theorem strings_fuel {buf : Octbuf} {at_ rdlength : Nat} (fuel d : Nat)
    (enough : rdlength - d ≤ fuel) :
    strings buf at_ rdlength (fuel + 1) d = strings buf at_ rdlength fuel d := by
  induction fuel generalizing d with
  | zero =>
      have outside : ¬ d < rdlength := by omega
      simp [strings, outside]
  | succ fuel ih =>
      conv_lhs => rw [strings]
      conv_rhs => rw [strings]
      by_cases inside : d < rdlength
      · simp only [inside, if_true]
        rw [ih _ (by omega)]
      · simp only [inside, if_false]

/-! ## Pieces -/

/-- Whether a field knows its own size. -/
def Element.fixed : Element → Bool
  | MmVarOctets _ | MmData _ => false
  | _ => true

theorem mul_div_octet (a : Nat) : 8 * a / 8 = a := by omega

namespace Piece

variable {c : Mc} {failed : Bool} {buf : Octbuf} {a : Nat}

theorem length_for_reverse (p : Piece) (reads : buf.Reads a p.wire)
    (room : a + p.wire.length ≤ buf.length)
    (snug : p.element.fixed = true ∨ a + p.wire.length = buf.length) :
    p.element.length_for_reverse (8 * a) buf = 8 * p.wire.length := by
  obtain ⟨element, wire, fits⟩ := p
  simp only [Element.length_for_reverse, mul_div_octet, Octbuf.remainLength]
  cases fits with
  | uint | octets => rfl
  | name n =>
      have pos := n.wire_pos
      simp only at reads room
      have walk := labels_name (buf.length - a) n reads (by omega)
      simp only [walk]
      rw [if_pos (by omega)]
  | str short =>
      have first := reads.head
      simp only [first, BitVec.toNat_ofNat, List.length_cons]
      omega
  | varOctets | data =>
      cases snug with
      | inl fixed => cases fixed
      | inr ends =>
          simp only at ends
          simp only
          omega

/-- A piece is decoded to its own object. -/
theorem reverse (p : Piece) (reads : buf.Reads a p.wire) (room : a + p.wire.length ≤ buf.length)
    (snug : p.element.fixed = true ∨ a + p.wire.length = buf.length) :
    p.element.reverse c failed (8 * a) buf =
      ⟨failed, 8 * (a + p.wire.length), [p.element.leaf c (8 * a) (8 * p.wire.length) buf]⟩ := by
  have inside : 8 * a + 8 * p.wire.length ≤ 8 * buf.length := by omega
  simp only [Element.reverse, p.length_for_reverse reads room snug, inside, if_true, Nat.mul_add]

end Piece

/-- A field that takes all that remains can be decoded everywhere. -/
theorem Element.reverse_open (c : Mc) (failed : Bool) (buf : Octbuf) {e : Element} {a : Nat}
    (room : a ≤ buf.length) (takes : e.fixed = false) :
    e.reverse c failed (8 * a) buf =
      ⟨failed, 8 * buf.length, [e.leaf c (8 * a) (8 * (buf.length - a)) buf]⟩ := by
  have size : e.length_for_reverse (8 * a) buf = 8 * (buf.length - a) := by
    cases e <;> simp_all [Element.fixed, Element.length_for_reverse, Octbuf.remainLength]
  have ends : 8 * a + 8 * (buf.length - a) = 8 * buf.length := by omega
  simp only [Element.reverse, size, ends, Nat.le_refl, if_true]

/-! ## Members -/

theorem layout_append {c : Mc} {buf : Octbuf} {a : Nat} (ps qs : List Piece) :
    layout c (ps ++ qs) a buf =
      layout c ps a buf ++ layout c qs (a + (Piece.wires ps).length) buf := by
  induction ps generalizing a with
  | nil => simp [layout]
  | cons p ps ih => simp [layout, ih, Nat.add_assoc]

theorem membersLoop_append {c : Mc} {ms ns : List Member} {at_ : Nat} {buf : Octbuf} {r : Members}
    (first : membersLoop c ms false at_ buf = r) (ok : r.failed = false) :
    membersLoop c (ms ++ ns) false at_ buf =
      { membersLoop c ns false r.at_ buf with
        made := r.made ++ (membersLoop c ns false r.at_ buf).made } := by
  induction ms generalizing at_ r with
  | nil =>
      subst first
      simp [membersLoop]
  | cons m ms ih =>
      simp only [membersLoop] at first
      simp only [List.cons_append, membersLoop]
      cases bad : (m.reverse c false at_ buf).failed with
      | true =>
          simp only [bad, if_true] at first
          subst first
          simp [bad] at ok
      | false =>
          simp only [bad, Bool.false_eq_true, if_false] at first ⊢
          subst first
          simp only at ok
          rw [ih rfl ok]
          simp

/-- Only the last member takes all that remains. -/
def closed : List Member → Bool
  | [] => true
  | .element e :: ms => (e.fixed || ms.isEmpty) && closed ms
  | .MmMultiple body :: ms => body.fixed && closed ms

theorem closed_rdata (rr : RR) : closed rr.rdata = true := by cases rr <;> rfl

/-- Whether a member stands for one field. -/
def Member.single : Member → Bool
  | .element _ => true
  | .MmMultiple _ => false

theorem single_rdata {rr : RR} (plain : rr ≠ .TXT) : rr.rdata.all Member.single = true := by
  cases rr with
  | TXT => contradiction
  | _ => rfl

def Member.fixed : Member → Bool
  | .element e => e.fixed
  | .MmMultiple body => body.fixed

section

variable {c : Mc} {buf : Octbuf} {times : Nat}

/-- As many pieces as the loop has turns. -/
theorem multiple_pieces {body : Element} {a : Nat} (fixed : body.fixed = true) (ps : List Piece)
    (all : ps.map Piece.element = List.replicate ps.length body)
    (reads : buf.Reads a (Piece.wires ps)) (room : a + (Piece.wires ps).length ≤ buf.length) :
    multiple c body ps.length false (8 * a) buf =
      ⟨false, 8 * (a + (Piece.wires ps).length), layout c ps a buf⟩ := by
  induction ps generalizing a with
  | nil => rfl
  | cons p ps ih =>
      simp only [List.map_cons, List.length_cons, List.replicate_succ, List.cons.injEq] at all
      obtain ⟨same, all⟩ := all
      subst same
      simp only [Piece.wires_cons, List.length_append] at reads room
      obtain ⟨here, behind⟩ := Octbuf.reads_append.mp reads
      have next := ih all behind (by omega)
      simp only [List.length_cons, multiple, p.reverse here (by omega) (.inl fixed), next, layout,
        Piece.wires_cons, List.length_append, Nat.add_assoc, List.singleton_append]

theorem all_tail {q : Member → Bool} {m : Member} {ms : List Member}
    (all : (m :: ms).all q = true) : ms.all q = true := by
  rw [List.all_cons, Bool.and_eq_true] at all
  exact all.2

/-- The members are decoded to the objects of their pieces, when the last one has no more than
    its own octets or knows its size. -/
theorem membersLoop_pieces (times : Nat) (ms : List Member) (ps : List Piece) (a : Nat)
    (shape : ps.map Piece.element = ms.flatMap (Member.elements times))
    (count : ms.all Member.single = true ∨ HC_MLC_TXT buf = times)
    (shut : closed ms = true) (reads : buf.Reads a (Piece.wires ps))
    (room : a + (Piece.wires ps).length ≤ buf.length)
    (snug : ms.all Member.fixed = true ∨ a + (Piece.wires ps).length = buf.length) :
    membersLoop c ms false (8 * a) buf =
      ⟨false, 8 * (a + (Piece.wires ps).length), layout c ps a buf⟩ := by
  induction ms generalizing ps a with
  | nil =>
      cases ps with
      | nil => rfl
      | cons p ps => cases shape
  | cons m ms ih =>
      have counts : ms.all Member.single = true ∨ HC_MLC_TXT buf = times := count.imp_left all_tail
      cases m with
      | element e =>
          simp only [List.flatMap_cons, Member.elements, List.singleton_append] at shape
          cases ps with
          | nil => cases shape
          | cons p ps =>
              simp only [List.map_cons, List.cons.injEq] at shape
              obtain ⟨same, shape⟩ := shape
              subst same
              simp only [closed, Bool.and_eq_true, Bool.or_eq_true, List.isEmpty_iff] at shut
              obtain ⟨here, behind⟩ := Octbuf.reads_append.mp reads
              simp only [Piece.wires_cons, List.length_append] at room snug
              have own : p.element.fixed = true ∨ a + p.wire.length = buf.length := by
                cases shut.1 with
                | inl fixed => exact .inl fixed
                | inr last =>
                    subst last
                    simp only [List.flatMap_nil, List.map_eq_nil_iff] at shape
                    subst shape
                    simpa [Member.fixed] using snug
              have next := ih ps (a + p.wire.length) shape counts shut.2 behind (by omega)
                (snug.imp all_tail fun ends => by omega)
              simp only [membersLoop, Member.reverse, p.reverse here (by omega) own,
                Bool.false_eq_true, if_false, next, layout, Piece.wires_cons, List.length_append,
                Nat.add_assoc, List.singleton_append]
      | MmMultiple body =>
          have number : HC_MLC_TXT buf = times := by
            cases count with
            | inl single => cases single
            | inr number => exact number
          simp only [List.flatMap_cons, Member.elements] at shape
          obtain ⟨qs, rest, rfl, left, right⟩ := List.map_eq_append_iff.mp shape
          have long : qs.length = times := by simpa using congrArg List.length left
          subst long
          simp only [closed, Bool.and_eq_true] at shut
          simp only [Piece.wires_append, List.length_append] at reads room snug ⊢
          obtain ⟨here, behind⟩ := Octbuf.reads_append.mp reads
          have strs := multiple_pieces (c := c) shut.1 qs left here (by omega)
          have next := ih rest (a + (Piece.wires qs).length) right counts shut.2 behind (by omega)
            (snug.imp all_tail fun ends => by omega)
          simp only [membersLoop, Member.reverse, number, strs, Bool.false_eq_true, if_false, next,
            layout_append, Nat.add_assoc]

/-- In a larger window the members are decoded without an error too. -/
theorem membersLoop_room (ms : List Member) (ps : List Piece) (a : Nat)
    (shape : ps.map Piece.element = ms.flatMap (Member.elements times))
    (count : ms.all Member.single = true ∨ HC_MLC_TXT buf = times)
    (shut : closed ms = true) (reads : buf.Reads a (Piece.wires ps))
    (room : a + (Piece.wires ps).length ≤ buf.length) :
    ∃ b made, membersLoop c ms false (8 * a) buf = ⟨false, 8 * b, made⟩ ∧ b ≤ buf.length := by
  induction ms generalizing ps a with
  | nil =>
      refine ⟨a, [], rfl, ?_⟩
      omega
  | cons m ms ih =>
      have counts : ms.all Member.single = true ∨ HC_MLC_TXT buf = times := count.imp_left all_tail
      cases m with
      | element e =>
          simp only [List.flatMap_cons, Member.elements, List.singleton_append] at shape
          cases ps with
          | nil => cases shape
          | cons p ps =>
              simp only [List.map_cons, List.cons.injEq] at shape
              obtain ⟨same, shape⟩ := shape
              subst same
              simp only [closed, Bool.and_eq_true, Bool.or_eq_true, List.isEmpty_iff] at shut
              obtain ⟨here, behind⟩ := Octbuf.reads_append.mp reads
              simp only [Piece.wires_cons, List.length_append] at room
              cases fixed : p.element.fixed with
              | true =>
                  obtain ⟨b, made, next, inside⟩ :=
                    ih ps (a + p.wire.length) shape counts shut.2 behind (by omega)
                  simp only [membersLoop, Member.reverse, p.reverse here (by omega) (.inl fixed),
                    Bool.false_eq_true, if_false, next]
                  exact ⟨b, _, rfl, inside⟩
              | false =>
                  have last : ms = [] := by simpa [fixed] using shut.1
                  subst last
                  simp only [membersLoop, Member.reverse,
                    Element.reverse_open c false buf (show a ≤ buf.length by omega) fixed,
                    Bool.false_eq_true, if_false]
                  exact ⟨buf.length, _, rfl, Nat.le_refl _⟩
      | MmMultiple body =>
          have number : HC_MLC_TXT buf = times := by
            cases count with
            | inl single => cases single
            | inr number => exact number
          simp only [List.flatMap_cons, Member.elements] at shape
          obtain ⟨qs, rest, rfl, left, right⟩ := List.map_eq_append_iff.mp shape
          have long : qs.length = times := by simpa using congrArg List.length left
          subst long
          simp only [closed, Bool.and_eq_true] at shut
          simp only [Piece.wires_append, List.length_append] at reads room
          obtain ⟨here, behind⟩ := Octbuf.reads_append.mp reads
          have strs := multiple_pieces (c := c) shut.1 qs left here (by omega)
          obtain ⟨b, made, next, inside⟩ :=
            ih rest (a + (Piece.wires qs).length) right counts shut.2 behind (by omega)
          simp only [membersLoop, Member.reverse, number, strs, Bool.false_eq_true, if_false, next]
          exact ⟨b, _, rfl, inside⟩

end

end Tahi.Pz.McDNS
