import Tahi.General.Fields
import Tahi.General.TracedOctets
import Tahi.Pz.McDNSName

/-! # Names as octets

`MvDnsName` writes a name into the octets that it has allocated. A character goes one place
behind its own, since the length of its label stands in front of it, and the length is written
when the dot that ends the label is found. The last label needs no dot.
-/

namespace Tahi.Pz.MvDnsName

open BitField Fields TracedMemory McDNS

def dot : Octet := 0x2e

/-- Two dots side by side. -/
def dots : List Octet → Bool
  | x :: y :: buf => (x = dot && y = dot) || dots (y :: buf)
  | _ => false

def isDnsName (buf : List Octet) : Bool :=
  let buflen := buf.length
  if 1 < buflen ∧ dots buf then false
  else if buflen ≠ 1 ∧ buf.head? = some dot then false
  else true

/-- `offset` is the second argument, when there is one. -/
def functionLength (str : List Octet) (offset : Option Nat) : Nat :=
  let len := str.length
  let len :=
    if 0 < len then
      -- remove last dot
      let len := if str.getLast? = some dot then len - 1 else len
      -- add first length field
      if 0 < len then len + 1 else len
    else len
  if offset.isNone then len + 1 else len + 2

/-- The loop over the characters from `d` on, of which the last `l` are of one label. -/
def label (dst : Int) : List Octet → Nat → Nat → Access Nat
  | [], _, l => pure l
  | c :: str, d, l =>
      if c ≠ dot then do
        store (dst + d + 1) c
        label dst str (d + 1) (l + 1)
      else do
        store (dst + d - l) (BitVec.ofNat 8 l)
        label dst str (d + 1) 0

/-- The length of a last label that no dot ends. -/
def lastLabel (str : List Octet) (dst : Int) (l : Nat) : Access Unit :=
  if 0 < str.length then
    if str.getLast? ≠ some dot then store (dst + str.length - l) (BitVec.ofNat 8 l) else pure ()
  else pure ()

/-- What stands behind the labels. -/
def ending (funclen : Nat) (offset : Option Nat) (dst : Int) : Access Unit :=
  match offset with
  | none => store (dst + funclen - 1) 0
  | some offset => do
      let quotient := offset / 0x100
      let remnants := offset % 0x100
      store (dst + funclen - 2) (BitVec.ofNat 8 (quotient ||| 0xc0))
      store (dst + funclen - 1) (BitVec.ofNat 8 remnants)

/-- `dst` is where the octets have been allocated, and their number is returned. -/
def generateOctetsWith (str : List Octet) (offset : Option Nat) (dst : Int) : Access Nat := do
  let funclen := str.length
  let funclen :=
    if 0 < str.length then
      let funclen := if str.getLast? = some dot then funclen - 1 else funclen
      if 0 < funclen then funclen + 1 else funclen
    else funclen
  let funclen := if offset.isNone then funclen + 1 else funclen + 2
  let l ← label dst str 0 0
  lastLabel str dst l
  ending funclen offset dst
  pure funclen

/-- What `MmDNSName::length_for_reverse` says of a name when `reverse` has gone over it. -/
def reverseLength (at_ : Nat) (buf : Octbuf) : Access Nat := do
  let length := buf.length - at_ / 8
  let reallength ← MmDNSName.walk (buf.start + at_ / 8 : Nat) length length 0 0
  pure (MmDNSName.length_for_reverse reallength at_ buf).1

/-! ## The names that are meant -/

/-- A string that is accepted as a name, with labels that are not too long. -/
structure NameString where
  str : List Octet
  accepted : isDnsName str = true
  short : ∀ x ∈ fields dot str, x.length < 64

def NameString.labels (n : NameString) : List Label :=
  (fields dot n.str).pmap
    (fun x (bounds : 0 < x.length ∧ x.length < 64) => ⟨x, bounds.1, bounds.2⟩)
    fun x member => ⟨List.length_pos_iff.mpr (fields_nonempty member), n.short x member⟩

/-- The name as a message has it. -/
def NameString.name (n : NameString) (pointer : Option (BitVec 14)) : DomainName :=
  ⟨n.labels, pointer⟩

/-- What the generator of names is for. It fills the octets that it has allocated, and only
    those, with the name, and the decoder finds its length again. -/
structure Generates (n : NameString) (pointer : Option (BitVec 14)) : Prop where
  fills : ∀ (dst : Nat) (m : Memory), ∃ m' touched,
    generateOctetsWith n.str (pointer.map BitVec.toNat) dst ⟨m, []⟩ =
        some (functionLength n.str (pointer.map BitVec.toNat), ⟨m', touched⟩) ∧
      (∀ x, x ∈ touched ↔
        (dst : Int) ≤ x ∧ x < dst + functionLength n.str (pointer.map BitVec.toNat)) ∧
      (∀ x, x ∉ touched → m' x = m x) ∧
      Octbuf.Reads ⟨m', dst, functionLength n.str (pointer.map BitVec.toNat)⟩ 0
        (n.name pointer).wire
  size : (n.name pointer).wire.length = functionLength n.str (pointer.map BitVec.toNat)
  measured : ∀ (buf : Octbuf) (a : Nat), buf.Reads a (n.name pointer).wire →
    a + functionLength n.str (pointer.map BitVec.toNat) ≤ buf.length →
    ∃ touched, reverseLength (8 * a) buf ⟨buf.mem, []⟩ =
      some (functionLength n.str (pointer.map BitVec.toNat), ⟨buf.mem, touched⟩)

/-! ## How accepted strings are made -/

/-- A string of labels with a dot behind each, which the last label can do without. -/
inductive Spelled : List Octet → List (List Octet) → Prop where
  | last {x : List Octet} (plain : dot ∉ x) (some_ : x ≠ []) : Spelled x [x]
  | dotted {x : List Octet} (plain : dot ∉ x) (some_ : x ≠ []) : Spelled (x ++ [dot]) [x]
  | cons {x str : List Octet} {xs : List (List Octet)} (plain : dot ∉ x) (some_ : x ≠ [])
      (behind : Spelled str xs) : Spelled (x ++ dot :: str) (x :: xs)

theorem dots_append {x str : List Octet} (clean : dots (x ++ str) = false) : dots str = false := by
  induction x with
  | nil => exact clean
  | cons c x ih =>
      apply ih
      cases rest : x ++ str with
      | nil => rfl
      | cons y buf =>
          rw [List.cons_append, rest, dots, Bool.or_eq_false_iff] at clean
          exact clean.2

/-- A string without empty labels. By induction on its labels. -/
theorem spelled_of_clean (str : List Octet) (clean : dots str = false) (some_ : str ≠ [])
    (first : str.head? ≠ some dot) : ∃ xs, Spelled str xs := by
  induction str using Fields.induction dot with
  | empty => exact absurd rfl some_
  | separator str => exact absurd rfl first
  | last x plain label_ => exact ⟨_, .last plain label_⟩
  | cons x str plain label_ ih =>
      cases str with
      | nil => exact ⟨_, .dotted plain label_⟩
      | cons y more =>
          have neighbours := dots_append clean
          rw [dots, Bool.or_eq_false_iff] at neighbours
          have second : (y :: more).head? ≠ some dot := by
            intro same
            have y_dot : y = dot := Option.some.inj same
            simp [y_dot] at neighbours
          obtain ⟨xs, spelled⟩ := ih neighbours.2 (List.cons_ne_nil _ _) second
          exact ⟨_, .cons plain label_ spelled⟩

/-- Apart from the empty string and the root, the accepted strings are made of labels. -/
theorem isDnsName_cases {str : List Octet} (accepted : isDnsName str = true) :
    str = [] ∨ str = [dot] ∨ ∃ xs, Spelled str xs := by
  simp only [isDnsName, Bool.if_false_left, Bool.and_eq_true, Bool.not_eq_true',
    decide_eq_false_iff_not, Bool.and_true] at accepted
  obtain ⟨pairs, front⟩ := accepted
  match str, pairs, front with
  | [], _, _ => exact .inl rfl
  | [c], _, _ =>
      by_cases root : c = dot
      · exact .inr (.inl (by rw [root]))
      · refine .inr (.inr ⟨[[c]], .last ?_ (List.cons_ne_nil _ _)⟩)
        simpa using Ne.symm root
  | c :: y :: more, pairs, front =>
      refine .inr (.inr (spelled_of_clean _ ?_ (List.cons_ne_nil _ _) ?_))
      · simpa using pairs
      · simpa using front

theorem Spelled.fields {str : List Octet} {xs : List (List Octet)} (spelled : Spelled str xs) :
    fields dot str = xs := by
  induction spelled with
  | last plain some_ => exact fields_plain plain some_
  | dotted plain some_ => rw [fields_cons plain some_, fields_nil]
  | cons plain some_ behind ih => rw [fields_cons plain some_, ih]

/-- A label with its length in front. -/
def fieldWire (x : List Octet) : List Octet := BitVec.ofNat 8 x.length :: x

theorem NameString.labels_wire (n : NameString) :
    n.labels.flatMap Label.wire = (fields dot n.str).flatMap fieldWire := by
  have octets : n.labels.map Label.octets = fields dot n.str := by
    rw [labels, List.map_pmap, List.pmap_eq_map, List.map_id']
  rw [← octets, List.flatMap_map]
  rfl

/-! ## Writing the labels -/

section Write

variable {dst : Int} {str x : List Octet} {xs : List (List Octet)}

theorem label_append (rest : List Octet) (d l : Nat) :
    label dst (x ++ rest) d l =
      label dst x d l >>= fun l => label dst rest (d + x.length) l := by
  induction x generalizing d l with
  | nil => rfl
  | cons c x ih =>
      have place : d + (c :: x).length = d + 1 + x.length := by
        rw [List.length_cons]
        omega
      rw [List.cons_append, label, label, place]
      split
      · rw [bind_assoc]
        simp only [ih]
      · rw [bind_assoc]
        simp only [ih]

/-- The characters of a label go one place further. -/
theorem label_plain (plain : dot ∉ x) (d l : Nat) :
    Lays (label dst x d l) (l + x.length) (dst + d + 1) x := by
  induction x generalizing d l with
  | nil => exact Lays.nothing _ _
  | cons c x ih =>
      rw [List.mem_cons, not_or] at plain
      have rest := ih plain.2 (d + 1) (l + 1)
      rw [show l + 1 + x.length = l + (c :: x).length by rw [List.length_cons]; omega,
        show dst + (d + 1 : Nat) + 1 = dst + d + 1 + [c].length by simp; omega] at rest
      rw [label, if_pos (Ne.symm plain.1)]
      exact (store_lays (dst + d + 1) c).behind rest

/-- A label with the length that is written when its end is found. -/
theorem label_named (plain : dot ∉ x) (d : Nat) :
    Lays (label dst x d 0 >>= fun l => store (dst + (d + x.length : Nat) - l) (BitVec.ofNat 8 l))
      () (dst + d) (fieldWire x) := by
  have chars := @label_plain dst x plain d 0
  rw [Nat.zero_add] at chars
  have place : dst + d + 1 = dst + d + [BitVec.ofNat 8 x.length].length := by simp
  rw [place] at chars
  apply chars.front
  rw [show dst + (d + x.length : Nat) - x.length = dst + d by omega]
  exact store_lays _ _

theorem label_dot (str : List Octet) (d : Nat) :
    label dst (x ++ dot :: str) d 0 =
      (label dst x d 0 >>= fun l => store (dst + (d + x.length : Nat) - l) (BitVec.ofNat 8 l)) >>=
        fun _ => label dst str (d + x.length + 1) 0 := by
  have turn : ∀ l, label dst (dot :: str) (d + x.length) l =
      store (dst + (d + x.length : Nat) - l) (BitVec.ofNat 8 l) >>=
        fun _ => label dst str (d + x.length + 1) 0 := by
    intro l
    rw [label, if_neg (not_not_intro rfl)]
  simp only [label_append, bind_assoc, turn]

theorem Spelled.some_ (spelled : Spelled str xs) : str ≠ [] := by
  cases spelled with
  | last plain some_ => exact some_
  | dotted plain some_ => simp
  | cons plain some_ behind => simp

theorem Spelled.getLast (spelled : Spelled str xs) (x : List Octet) :
    (x ++ dot :: str).getLast? = str.getLast? := by
  have some_ := spelled.some_
  cases last : str.getLast? with
  | none => exact absurd (List.getLast?_eq_none_iff.mp last) some_
  | some c => simp [List.getLast?_append, List.getLast?_cons, last]

/-- The labels of a string, the last one included, from the character `d` on. -/
theorem Spelled.lays (spelled : Spelled str xs) (d : Nat) :
    Lays (label dst str d 0 >>= fun l =>
        if str.getLast? ≠ some dot then store (dst + (d + str.length : Nat) - l) (BitVec.ofNat 8 l)
        else pure ())
      () (dst + d) (xs.flatMap fieldWire) := by
  induction spelled generalizing d with
  | @last x plain some_ =>
      have other : x.getLast? ≠ some dot := fun ends => plain (List.mem_of_getLast? ends)
      simp only [other, ne_eq, not_false_eq_true, if_true, List.flatMap_cons, List.flatMap_nil,
        List.append_nil]
      exact label_named plain d
  | @dotted x plain some_ =>
      have ends : (x ++ [dot]).getLast? = some dot := List.getLast?_concat
      simp only [ends, ne_eq, not_true_eq_false, if_false, List.flatMap_cons, List.flatMap_nil,
        List.append_nil]
      rw [label_dot, bind_assoc]
      exact (label_named plain d).yield ()
  | @cons x str xs plain some_ behind ih =>
      have ends := behind.getLast x
      have rest := ih (d + x.length + 1)
      have place : dst + (d + x.length + 1 : Nat) = dst + d + (fieldWire x).length := by
        rw [fieldWire, List.length_cons]
        omega
      have size : d + (x ++ dot :: str).length = d + x.length + 1 + str.length := by
        rw [List.length_append, List.length_cons]
        omega
      rw [place] at rest
      rw [label_dot, bind_assoc, ends, size, List.flatMap_cons]
      exact (label_named plain d).behind rest

/-- The first length comes on top of the characters, and a last dot counts for nothing. -/
theorem Spelled.length (spelled : Spelled str xs) :
    (xs.flatMap fieldWire).length =
      (if str.getLast? = some dot then str.length - 1 else str.length) + 1 := by
  induction spelled with
  | @last x plain some_ =>
      have other : x.getLast? ≠ some dot := fun ends => plain (List.mem_of_getLast? ends)
      simp [other, fieldWire]
  | @dotted x plain some_ => simp [fieldWire]
  | @cons x str xs plain some_ behind ih =>
      have ends := behind.getLast x
      have pos := List.length_pos_iff.mpr behind.some_
      rw [List.flatMap_cons, List.length_append, ih, ends, fieldWire]
      split <;> simp only [List.length_append, List.length_cons] <;> omega

theorem marked_octet {n : Nat} (low : n < 64) : n ||| 0xc0 = 0xc0 + n := by
  have all : ∀ i : Fin 64, (i : Nat) ||| 0xc0 = 0xc0 + i := by decide
  exact all ⟨n, low⟩

theorem measures (buf : Octbuf) (a : Nat) (name : DomainName) (reads : buf.Reads a name.wire)
    (room : a + name.wire.length ≤ buf.length) :
    ∃ touched, reverseLength (8 * a) buf ⟨buf.mem, []⟩ =
      some (name.wire.length, ⟨buf.mem, touched⟩) := by
  obtain ⟨touched, walked, -⟩ :=
    @MmDNSName.walk_labels buf a (buf.length - a) (buf.length - a) 0 0 []
  rw [labels_name _ name reads (by omega)] at walked
  have some_ := Nat.ne_of_gt name.wire_pos
  have size : (MmDNSName.length_for_reverse name.wire.length (8 * a) buf).1 = name.wire.length := by
    rw [MmDNSName.length_for_reverse, if_pos some_]
  refine ⟨touched, ?_⟩
  simp only [reverseLength, mul_div_octet]
  change (MmDNSName.walk _ _ _ _ _ _).bind _ = _
  rw [walked]
  exact congrArg (fun n => some (n, State.mk buf.mem touched)) size

/-- Two octets of a pointer, or the one that ends a name. -/
theorem ending_lays (funclen : Nat) (p : Option (BitVec 14)) (a : Int)
    (place : a + (DomainName.tail p).length = dst + funclen) :
    Lays (ending funclen (p.map BitVec.toNat) dst) () a (DomainName.tail p) := by
  cases p with
  | none =>
      have single : (dst : Int) + funclen - 1 = a := by
        simp only [DomainName.tail, List.length_singleton] at place
        omega
      simp only [Option.map_none, ending, single]
      exact store_lays a 0
  | some p =>
      have bound := p.isLt
      simp only [DomainName.tail, word_length] at place
      have first : dst + funclen - 2 = a := by omega
      have second : dst + funclen - 1 = a + [BitVec.ofNat 8 (0xc0 + p.toNat / 256)].length := by
        simp only [List.length_singleton]
        omega
      have marked : p.toNat / 0x100 ||| 0xc0 = 0xc0 + p.toNat / 256 := marked_octet (by omega)
      have high : (0xc000 + p.toNat) / 256 = 0xc0 + p.toNat / 256 := by omega
      have low : BitVec.ofNat 8 (0xc000 + p.toNat) = BitVec.ofNat 8 (p.toNat % 0x100) := by
        apply BitVec.eq_of_toNat_eq
        simp only [BitVec.toNat_ofNat]
        omega
      simp only [Option.map_some, ending, DomainName.tail, word, first, second, marked, high, low]
      exact (store_lays a _).behind (store_lays _ _)

end Write

/-! ## The whole name -/

theorem generateOctetsWith_eq (str : List Octet) (offset : Option Nat) (dst : Int) :
    generateOctetsWith str offset dst =
      ((label dst str 0 0 >>= fun l => lastLabel str dst l) >>= fun _ =>
        ending (functionLength str offset) offset dst) >>= fun _ =>
          pure (functionLength str offset) := by
  simp only [bind_assoc]
  rfl

theorem fields_root : fields dot [dot] = [] := by rw [fields_separator, fields_nil]

theorem Spelled.two {str : List Octet} {xs : List (List Octet)} (spelled : Spelled str xs) :
    1 < (xs.flatMap fieldWire).length := by
  have label_ {x : List Octet} (some_ : x ≠ []) : 1 < (fieldWire x).length := by
    have := List.length_pos_iff.mpr some_
    rw [fieldWire, List.length_cons]
    omega
  cases spelled with
  | last plain some_ | dotted plain some_ | cons plain some_ behind =>
      have := label_ some_
      rw [List.flatMap_cons, List.length_append]
      omega

theorem NameString.wire_eq (n : NameString) (p : Option (BitVec 14)) :
    (n.name p).wire = (fields dot n.str).flatMap fieldWire ++ DomainName.tail p := by
  rw [DomainName.wire, name, n.labels_wire]

theorem NameString.size (n : NameString) (p : Option (BitVec 14)) :
    (n.name p).wire.length = functionLength n.str (p.map BitVec.toNat) := by
  have tail : (DomainName.tail p).length = if (p.map BitVec.toNat).isNone then 1 else 2 := by
    cases p <;> rfl
  rw [n.wire_eq, List.length_append, tail, functionLength]
  obtain same | same | ⟨xs, spelled⟩ := isDnsName_cases n.accepted
  · rw [same, fields_nil]
    split <;> rfl
  · rw [same, fields_root]
    split <;> rfl
  · have whole := spelled.length
    have two := spelled.two
    have pos := List.length_pos_iff.mpr spelled.some_
    rw [spelled.fields]
    simp only [pos, if_true]
    rw [if_pos (show 0 < if n.str.getLast? = some dot then _ else _ by omega), ← whole]
    split <;> rfl

theorem NameString.lays (n : NameString) (p : Option (BitVec 14)) (dst : Int) :
    Lays (generateOctetsWith n.str (p.map BitVec.toNat) dst)
      (functionLength n.str (p.map BitVec.toNat)) dst (n.name p).wire := by
  have size := n.size p
  rw [n.wire_eq, List.length_append] at size
  have tail := DomainName.tail_pos p
  rw [generateOctetsWith_eq, n.wire_eq]
  apply Lays.yield
  obtain same | same | ⟨xs, spelled⟩ := isDnsName_cases n.accepted
  · rw [same, fields_nil] at size ⊢
    apply (Lays.nothing () dst).behind
    apply ending_lays
    simp only [List.flatMap_nil, List.length_nil] at size ⊢
    omega
  · -- The octet of the root is written by the loop, and by what follows on it again.
    rw [same, fields_root] at size ⊢
    have root : Lays (label dst [dot] 0 0 >>= fun l => lastLabel [dot] dst l) () dst [0] := by
      have turn : label dst [dot] 0 0 = store dst 0 >>= fun _ => pure 0 := by
        rw [label, if_neg (not_not_intro rfl), show dst + (0 : Nat) - (0 : Nat) = dst by omega]
        rfl
      have skipped : lastLabel [dot] dst 0 = pure () := by
        rw [lastLabel, if_pos (by decide), if_neg (by decide)]
      rw [turn, bind_assoc]
      simp only [pure_bind, skipped]
      exact (store_lays dst 0).yield ()
    apply root.again _ tail
    apply ending_lays
    simp only [List.flatMap_nil, List.length_nil] at size
    omega
  · have labels_ := @Spelled.lays dst n.str xs spelled 0
    have pos := List.length_pos_iff.mpr spelled.some_
    have last : ∀ l, lastLabel n.str dst l =
        if n.str.getLast? ≠ some dot then
          store (dst + (0 + n.str.length : Nat) - l) (BitVec.ofNat 8 l)
        else pure () := by
      intro l
      rw [lastLabel, if_pos pos, Nat.zero_add]
    rw [spelled.fields] at size ⊢
    simp only [← last] at labels_
    rw [show dst + (0 : Nat) = dst by omega] at labels_
    apply labels_.behind
    apply ending_lays
    omega

/-- Every accepted string is written as the name it stands for, with a pointer or without. -/
theorem generateOctetsWith_generates (n : NameString) (pointer : Option (BitVec 14)) :
    Generates n pointer := by
  have size := n.size pointer
  refine ⟨?_, size, ?_⟩
  · intro dst m
    obtain ⟨touched, ran, reach⟩ := n.lays pointer dst ⟨m, []⟩
    rw [List.nil_append] at ran
    rw [size] at reach
    refine ⟨_, touched, ran, reach, ?_, ?_⟩
    · intro x away
      apply lay_outside
      rw [size]
      rw [reach] at away
      omega
    · intro i x at_i
      have found := lay_at m dst _ at_i
      rwa [Nat.zero_add, Nat.cast_add]
  · intro buf a reads room
    rw [← size] at room ⊢
    exact measures buf a _ reads room

end Tahi.Pz.MvDnsName
