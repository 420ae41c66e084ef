import Tahi.Pz.McDNSName

/-! # The strings of a TXT record

`HC_MLC(TXT)` goes over the owner name to the length of the data, and over the data to count its
strings. The end of the buffer is looked at for the name only.
-/

namespace Tahi.Pz.McDNS

open BitField TracedMemory

namespace McDNS_RR_TXT

/-- The loop over the labels of the owner. -/
def owner (str : Int) (length : Nat) : Nat → Nat → Nat → Access Nat
  | 0, _, offset => pure offset
  | fuel + 1, d, offset =>
      if d < length then do
        let o ← load (str + d)
        let offset := offset + 1
        if o.toNat = 0 then pure offset
        else if o.toNat &&& 0xc0 ≠ 0 then pure (offset + 1)
        else owner str length fuel (d + o.toNat + 1) (offset + o.toNat)
      else pure offset

/-- The loop over the strings. -/
def txts (str : Int) (rdlength : Nat) : Nat → Nat → Nat → Access Nat
  | 0, _, count => pure count
  | fuel + 1, d, count =>
      if d < rdlength then do
        let o ← load (str + d)
        txts str rdlength fuel (d + o.toNat + 1) (count + 1)
      else pure count

def RDLENGTHOFFSET : Nat := 8

def HC_MLC_TXT (at_ : Nat) (buf : Octbuf) : Access Nat := do
  let str : Int := (buf.start + at_ / 8 : Nat)
  let length := buf.remainLength (at_ / 8)
  let offset ← owner str length length 0 0
  let offset := offset + RDLENGTHOFFSET
  let high ← load (str + offset)
  let low ← load (str + offset + 1)
  let rdlength := 0x100 * high.toNat + low.toNat
  let offset := offset + 2
  txts (str + offset) rdlength rdlength 0 0

/-- On the memory of the buffer, with the addresses that were read. -/
def run (at_ : Nat) (buf : Octbuf) : Option (Nat × List Int) :=
  (HC_MLC_TXT at_ buf ⟨buf.mem, []⟩).map fun r => (r.1, r.2.touched)

end McDNS_RR_TXT

/-- A string with its length. -/
structure CharacterString where
  octets : List Octet
  short : octets.length < 256

namespace CharacterString

def piece (s : CharacterString) : Piece :=
  ⟨.MmDNSStr .TXT, BitVec.ofNat 8 s.octets.length :: s.octets, .str s.short⟩

/-- The octets of strings, one behind the other. -/
def wires (ss : List CharacterString) : List Octet := Piece.wires (ss.map piece)

end CharacterString

/-- What counting is for. Nothing is read outside of the buffer, whatever it holds, and strings
    that are all of the data are counted. -/
structure CountsStrings (buf : Octbuf) (a : Nat) : Prop where
  inside : ∃ count touched, McDNS_RR_TXT.run (8 * a) buf = some (count, touched) ∧
    ∀ x ∈ touched, (buf.start : Int) ≤ x ∧ x < buf.start + buf.length
  counts : ∀ (n : DomainName) (fixed : List Octet) (ss : List CharacterString),
    fixed.length = 8 → (CharacterString.wires ss).length < 2 ^ 16 →
    let record := n.wire ++ fixed ++ word 2 (CharacterString.wires ss).length ++
      CharacterString.wires ss
    buf.Reads a record → a + record.length ≤ buf.length →
    ∃ touched, McDNS_RR_TXT.run (8 * a) buf = some (ss.length, touched)

/-! ## What must be in the buffer -/

namespace Octbuf

/-- Where the data of the record begins, by the labels of its owner. -/
def rdata (buf : Octbuf) (a : Nat) : Nat :=
  a + labels buf a (buf.length - a) (buf.length - a) 0 0 + 10

def rdlength (buf : Octbuf) (a : Nat) : Nat :=
  0x100 * buf.octet (buf.rdata a - 2) + buf.octet (buf.rdata a - 1)

/-- From `d` on, a string begins at an octet of the data. -/
inductive StringAt (buf : Octbuf) (data : Nat) : Nat → Nat → Prop where
  | here {d : Nat} : StringAt buf data d d
  | behind {d e : Nat} (rest : StringAt buf data (d + buf.octet (data + d) + 1) e) :
      StringAt buf data d e

/-- The fields in front of the data are in the buffer, and so is the first octet of each string that
    begins in the data. -/
structure TxtReadable (buf : Octbuf) (a : Nat) : Prop where
  fields : buf.rdata a ≤ buf.length
  strings : ∀ d, StringAt buf (buf.rdata a) 0 d → d < buf.rdlength a → buf.rdata a + d < buf.length

theorem StringAt.le {buf : Octbuf} {data d e : Nat} (string : StringAt buf data d e) : d ≤ e := by
  induction string with
  | here => exact Nat.le_refl _
  | behind _ ih => omega

/-- A record that is all there. -/
theorem TxtReadable.of_whole {buf : Octbuf} {a : Nat}
    (whole : buf.rdata a + buf.rdlength a ≤ buf.length) : buf.TxtReadable a where
  fields := by omega
  strings d _ inside := by omega

end Octbuf

namespace McDNS_RR_TXT

variable {buf : Octbuf} {a : Nat}

/-- It is the loop of the decoder of names. -/
theorem owner_eq (str : Int) (length fuel d offset : Nat) :
    owner str length fuel d offset = MmDNSName.walk str length fuel d offset := by
  induction fuel generalizing d offset with
  | zero => rfl
  | succ fuel ih =>
      simp only [owner, MmDNSName.walk, ih]

/-- The loop counts what the decoder of messages counts, and reads where strings begin. -/
theorem txts_strings (data rdlength fuel d count : Nat) (ts : List Int)
    (enough : rdlength - d ≤ fuel) :
    ∃ more, txts (buf.start + data : Nat) rdlength fuel d count ⟨buf.mem, ts⟩ =
        some (count + strings buf data rdlength fuel d, ⟨buf.mem, ts ++ more⟩) ∧
      ∀ x, x ∈ more ↔ ∃ e, buf.StringAt data d e ∧ e < rdlength ∧
        x = (buf.start + data + e : Nat) := by
  induction fuel generalizing d count ts with
  | zero =>
      refine ⟨[], by rw [List.append_nil]; rfl, fun x => ⟨by simp, ?_⟩⟩
      rintro ⟨e, string, inside, -⟩
      have := string.le
      omega
  | succ fuel ih =>
      by_cases inside : d < rdlength
      · have place : ((buf.start + data : Nat) : Int) + d = (buf.start + data + d : Nat) := by omega
        have loaded : (buf.mem (((buf.start + data : Nat) : Int) + d)).toNat =
            buf.octet (data + d) := by
          rw [place, Nat.add_assoc]
          rfl
        have step : txts (buf.start + data : Nat) rdlength (fuel + 1) d count ⟨buf.mem, ts⟩ =
            txts (buf.start + data : Nat) rdlength fuel (d + buf.octet (data + d) + 1) (count + 1)
              ⟨buf.mem, ts ++ [((buf.start + data : Nat) : Int) + d]⟩ := by
          rw [txts, if_pos inside, ← loaded]
          rfl
        obtain ⟨more, counted, reads⟩ := ih (d + buf.octet (data + d) + 1) (count + 1)
          (ts ++ [((buf.start + data : Nat) : Int) + d]) (by omega)
        refine ⟨(((buf.start + data : Nat) : Int) + d) :: more, ?_, ?_⟩
        · rw [step, counted, List.append_assoc, strings, if_pos inside, Nat.add_assoc]
          rfl
        · intro x
          rw [List.mem_cons, reads]
          constructor
          · rintro (rfl | ⟨e, string, below, rfl⟩)
            · exact ⟨d, .here, inside, place⟩
            · exact ⟨e, .behind string, below, rfl⟩
          · rintro ⟨e, string, below, rfl⟩
            cases string with
            | here => exact .inl place.symm
            | behind string => exact .inr ⟨e, string, below, rfl⟩
      · refine ⟨[], ?_, fun x => ⟨by simp, ?_⟩⟩
        · rw [txts, if_neg inside, strings, if_neg inside, List.append_nil]
          rfl
        · rintro ⟨e, string, below, -⟩
          have := string.le
          omega

/-- What is counted, and the reads of the three parts. -/
theorem run_strings (buf : Octbuf) (a : Nat) :
    ∃ walked counted, run (8 * a) buf =
        some (strings buf (buf.rdata a) (buf.rdlength a) (buf.rdlength a) 0,
          walked ++ [((buf.start + (buf.rdata a - 2) : Nat) : Int),
            ((buf.start + (buf.rdata a - 1) : Nat) : Int)] ++ counted) ∧
      (∀ x ∈ walked, (buf.start + a : Nat) ≤ x ∧ x < (buf.start + a + (buf.length - a) : Nat)) ∧
      ∀ x, x ∈ counted ↔ ∃ d, buf.StringAt (buf.rdata a) 0 d ∧ d < buf.rdlength a ∧
        x = (buf.start + buf.rdata a + d : Nat) := by
  obtain ⟨walked, walk, within⟩ :=
    @MmDNSName.walk_labels buf a (buf.length - a) (buf.length - a) 0 0 []
  have highPlace : ((buf.start + a : Nat) : Int) +
      (labels buf a (buf.length - a) (buf.length - a) 0 0 + RDLENGTHOFFSET : Nat) =
        (buf.start + (buf.rdata a - 2) : Nat) := by
    simp only [Octbuf.rdata, RDLENGTHOFFSET]
    omega
  have dataPlace : ((buf.start + a : Nat) : Int) +
      (labels buf a (buf.length - a) (buf.length - a) 0 0 + RDLENGTHOFFSET + 2 : Nat) =
        (buf.start + buf.rdata a : Nat) := by
    simp only [Octbuf.rdata, RDLENGTHOFFSET]
    omega
  obtain ⟨counted, count, reads⟩ := @txts_strings buf (buf.rdata a) (buf.rdlength a)
    (buf.rdlength a) 0 0 (walked ++ [((buf.start + (buf.rdata a - 2) : Nat) : Int)] ++
      [((buf.start + (buf.rdata a - 1) : Nat) : Int)]) (Nat.le_refl _)
  refine ⟨walked, counted, ?_, within, reads⟩
  have ran : HC_MLC_TXT (8 * a) buf ⟨buf.mem, []⟩ =
      txts (buf.start + buf.rdata a : Nat) (buf.rdlength a) (buf.rdlength a) 0 0
        ⟨buf.mem, walked ++ [((buf.start + (buf.rdata a - 2) : Nat) : Int)] ++
          [((buf.start + (buf.rdata a - 1) : Nat) : Int)]⟩ := by
    rw [HC_MLC_TXT, mul_div_octet, Octbuf.remainLength]
    simp only [owner_eq]
    change (MmDNSName.walk _ _ _ _ _ _).bind _ = _
    rw [walk]
    change txts _ (0x100 * (buf.mem _).toNat + (buf.mem _).toNat)
      (0x100 * (buf.mem _).toNat + (buf.mem _).toNat) 0 0 ⟨buf.mem, _⟩ = _
    simp only [List.nil_append, highPlace, dataPlace]
    rfl
  rw [run, ran, count]
  simp

/-- The fields are read at the places where a record has them. -/
theorem run_record (n : DomainName) (fixed : List Octet) (ss : List CharacterString)
    (eight : fixed.length = 8) (short : (CharacterString.wires ss).length < 2 ^ 16)
    (reads : buf.Reads a (n.wire ++ fixed ++ word 2 (CharacterString.wires ss).length ++
      CharacterString.wires ss))
    (room : a + (n.wire ++ fixed ++ word 2 (CharacterString.wires ss).length ++
      CharacterString.wires ss).length ≤ buf.length) :
    ∃ touched, run (8 * a) buf = some (ss.length, touched) := by
  obtain ⟨walked, counted, ran, -, -⟩ := run_strings buf a
  obtain ⟨front, strs⟩ := Octbuf.reads_append.mp reads
  obtain ⟨front, size⟩ := Octbuf.reads_append.mp front
  obtain ⟨name, -⟩ := Octbuf.reads_append.mp front
  simp only [List.length_append, word_length, eight] at strs size room
  have end_ := labels_name (buf.length - a) n name (by omega)
  have data : buf.rdata a = a + (n.wire.length + 8 + 2) := by
    rw [Octbuf.rdata, end_]
    omega
  have length : buf.rdlength a = (CharacterString.wires ss).length := by
    obtain ⟨high, low⟩ := Octbuf.reads_append.mp size
    have first := high.head
    have second := low.head
    simp only [word, List.nil_append, List.length_singleton, BitVec.toNat_ofNat] at first second
    rw [Octbuf.rdlength, data,
      show a + (n.wire.length + 8 + 2) - 2 = a + (n.wire.length + 8) by omega,
      show a + (n.wire.length + 8 + 2) - 1 = a + (n.wire.length + 8) + 1 by omega, first, second]
    omega
  rw [← data] at strs
  have number : strings buf (buf.rdata a) (buf.rdlength a) (buf.rdlength a) 0 =
      (ss.map CharacterString.piece).length :=
    strings_pieces (m := .TXT) _ (by simp [CharacterString.piece]) 0 _ strs
      ((Nat.zero_add _).trans length.symm) (Nat.le_of_eq length.symm)
  rw [List.length_map] at number
  rw [ran, number]
  exact ⟨_, rfl⟩

theorem inside_iff (room : a ≤ buf.length) :
    (∃ count touched, run (8 * a) buf = some (count, touched) ∧
      ∀ x ∈ touched, (buf.start : Int) ≤ x ∧ x < buf.start + buf.length) ↔ buf.TxtReadable a := by
  obtain ⟨walked, counted, ran, within, reads⟩ := run_strings buf a
  have behind : 2 ≤ buf.rdata a := by
    rw [Octbuf.rdata]
    omega
  rw [ran]
  constructor
  · rintro ⟨count, touched, same, inside⟩
    cases same
    constructor
    · have last := inside ((buf.start + (buf.rdata a - 1) : Nat) : Int) (by simp)
      omega
    · intro d string below
      have read := (reads _).mpr ⟨d, string, below, rfl⟩
      have place := inside _ (List.mem_append_right _ read)
      omega
  · rintro ⟨fields, strs⟩
    refine ⟨_, _, rfl, fun x mem => ?_⟩
    rcases List.mem_append.mp mem with front | read
    · rcases List.mem_append.mp front with walk | size
      · have place := within x walk
        omega
      · have place : x = (buf.start + (buf.rdata a - 2) : Nat) ∨
            x = (buf.start + (buf.rdata a - 1) : Nat) := by
          simpa using size
        omega
    · obtain ⟨d, string, below, rfl⟩ := (reads x).mp read
      have place := strs d string below
      omega

end McDNS_RR_TXT

/-- Strings are counted as they should be when what is read is in the buffer: the fields in front of
    the data, and the first octet of each string that begins in the data. -/
theorem counts_strings_iff (buf : Octbuf) (a : Nat) (room : a ≤ buf.length) :
    CountsStrings buf a ↔ buf.TxtReadable a := by
  rw [← McDNS_RR_TXT.inside_iff room]
  constructor
  · exact fun counts => counts.inside
  · intro inside
    exact ⟨inside, fun n fixed ss eight short reads fits =>
      McDNS_RR_TXT.run_record n fixed ss eight short reads fits⟩

/-- The record of the root with one string of one octet. -/
theorem counts_strings_one :
    CountsStrings (octets [0, 0, 16, 0, 1, 0, 0, 0, 0, 0, 2, 1, 0x61]) 0 :=
  (counts_strings_iff _ 0 (Nat.zero_le _)).mpr (.of_whole (by decide))

/-- The data is said to have two octets, and the buffer ends in front of it. -/
theorem not_counts_strings : ¬ ∀ (buf : Octbuf) (a : Nat), a ≤ buf.length → CountsStrings buf a := by
  intro claim
  have counts := claim (octets [0, 0, 16, 0, 1, 0, 0, 0, 0, 0, 2]) 0 (Nat.zero_le _)
  have readable := (McDNS_RR_TXT.inside_iff (Nat.zero_le _)).mp counts.inside
  exact absurd (readable.strings 0 .here (by decide)) (by decide)

end Tahi.Pz.McDNS
