import Tahi.General.TracedMemory
import Tahi.Pz.McDNSFields

/-! # One domain name

`MmDNSName::reverse` goes over the labels, and hands the length that it has found to
`MmElement::reverse` through a `LengthCtl` whose zero means that no length has been set. The
octets that it reads are kept here, and what it makes is that of the decoder of messages.
-/

namespace Tahi.Pz.McDNS

open BitField TracedMemory

namespace MmDNSName

/-- The loop over the labels. `d` is the index into `str`. -/
def walk (str : Int) (length : Nat) : Nat → Nat → Nat → Access Nat
  | 0, _, reallength => pure reallength
  | fuel + 1, d, reallength =>
      if d < length then do
        let o ← load (str + d)
        if o.toNat = 0 then pure (reallength + 1)
        else if o.toNat &&& 0xc0 ≠ 0 then pure (reallength + 2)
        else walk str length fuel (d + o.toNat + 1) (reallength + 1 + o.toNat)
      else pure reallength

/-- What `LengthCtl_` holds is taken out of it. -/
def length_for_reverse (ctl at_ : Nat) (buf : Octbuf) : Nat × Nat :=
  let length := buf.remainLength (at_ / 8)
  if ctl ≠ 0 then (ctl, 0) else (length, ctl)

/-- The value of the member is a part of the buffer, which is not read here. -/
def MmElement_reverse (c : Mc) (m : Mm) (ctl : Nat) (failed : Bool) (at_ : Nat) (buf : Octbuf) :
    Members × Nat :=
  let (length, ctl) := length_for_reverse ctl at_ buf
  let size := 8 * length
  if at_ + size ≤ 8 * buf.length then
    (⟨failed, at_ + size, [(Element.MmDNSName m).leaf c at_ size buf]⟩, ctl)
  else (⟨true, at_, []⟩, ctl)

/-- What the member leaves behind, and what `LengthCtl_` holds then. -/
def reverse (c : Mc) (m : Mm) (failed : Bool) (at_ : Nat) (buf : Octbuf) :
    Access (Members × Nat) := do
  let length := buf.length - at_ / 8
  let reallength ← walk (buf.start + at_ / 8 : Nat) length length 0 0
  pure (MmElement_reverse c m reallength failed at_ buf)

/-- On the memory of the buffer, with the addresses that were read. -/
def run (c : Mc) (m : Mm) (failed : Bool) (at_ : Nat) (buf : Octbuf) :
    Option (Members × List Int) :=
  (reverse c m failed at_ buf ⟨buf.mem, []⟩).map fun r => (r.1.1, r.2.touched)

end MmDNSName

/-! ## Names that are cut off -/

/-- The octets from `a` to the end of the buffer. -/
def Octbuf.rest (buf : Octbuf) (a : Nat) : List Octet := buf.string a (buf.length - a)

/-- Labels, each with all of its octets, and nothing behind them. -/
def LabelRow (xs : List Octet) : Prop := ∃ ls : List Label, xs = ls.flatMap Label.wire

/-- The beginning of a name, and not all of it. -/
def Truncated (xs : List Octet) : Prop := ∃ n : DomainName, xs <+: n.wire ∧ xs ≠ n.wire

/-- What the decoder of a name is for. A name in the buffer becomes a member of just its
    octets. One that the end of the buffer cuts off becomes an error, and nothing is read
    behind the end. -/
structure NameDecodes (buf : Octbuf) (a : Nat) : Prop where
  formed : ∀ n : DomainName, buf.Reads a n.wire → a + n.wire.length ≤ buf.length →
    ∀ c m failed, ∃ touched, MmDNSName.run c m failed (8 * a) buf =
      some (⟨failed, 8 * (a + n.wire.length),
        [(Element.MmDNSName m).leaf c (8 * a) (8 * n.wire.length) buf]⟩, touched)
  cut : Truncated (buf.rest a) → ∀ c m, ∃ r touched,
    MmDNSName.run c m false (8 * a) buf = some (r, touched) ∧ r.failed = true ∧ r.made = [] ∧
      ∀ x ∈ touched, (buf.start : Int) ≤ x ∧ x < buf.start + buf.length

/-! ## What is read -/

namespace MmDNSName

variable {buf : Octbuf} {a : Nat}

/-- The loop finds what the decoder of messages finds, and reads inside of its length only. -/
theorem walk_labels (length fuel d reallength : Nat) (ts : List Int) :
    ∃ more, walk (buf.start + a : Nat) length fuel d reallength ⟨buf.mem, ts⟩ =
        some (labels buf a length fuel d reallength, ⟨buf.mem, ts ++ more⟩) ∧
      ∀ x ∈ more, (buf.start + a : Nat) ≤ x ∧ x < (buf.start + a + length : Nat) := by
  induction fuel generalizing d reallength ts with
  | zero => exact ⟨[], by rw [List.append_nil]; rfl, by simp⟩
  | succ fuel ih =>
      by_cases inside : d < length
      · have place : ((buf.start + a : Nat) : Int) + d = (buf.start + (a + d) : Nat) := by omega
        have bounds : (buf.start + a : Nat) ≤ ((buf.start + a : Nat) : Int) + d ∧
            ((buf.start + a : Nat) : Int) + d < (buf.start + a + length : Nat) := by
          omega
        have loaded : (buf.mem (((buf.start + a : Nat) : Int) + d)).toNat = buf.octet (a + d) := by
          rw [place]
          rfl
        have step : walk (buf.start + a : Nat) length (fuel + 1) d reallength ⟨buf.mem, ts⟩ =
            (if buf.octet (a + d) = 0 then pure (reallength + 1)
              else if buf.octet (a + d) &&& 0xc0 ≠ 0 then pure (reallength + 2)
              else walk (buf.start + a : Nat) length fuel (d + buf.octet (a + d) + 1)
                (reallength + 1 + buf.octet (a + d)) : Access Nat)
              ⟨buf.mem, ts ++ [((buf.start + a : Nat) : Int) + d]⟩ := by
          rw [walk, if_pos inside, ← loaded]
          rfl
        rw [step]
        simp only [labels, inside, if_true]
        split
        · exact ⟨_, rfl, by simpa using bounds⟩
        · split
          · exact ⟨_, rfl, by simpa using bounds⟩
          · obtain ⟨more, walked, within⟩ := ih (d + buf.octet (a + d) + 1)
              (reallength + 1 + buf.octet (a + d)) (ts ++ [((buf.start + a : Nat) : Int) + d])
            refine ⟨(((buf.start + a : Nat) : Int) + d) :: more, ?_, ?_⟩
            · rw [walked, List.append_assoc]
              rfl
            · exact List.forall_mem_cons.mpr ⟨bounds, within⟩
      · refine ⟨[], ?_, by simp⟩
        rw [walk, if_neg inside, labels, if_neg inside, List.append_nil]
        rfl

/-- The member is that of the decoder of messages, and the reads are inside of the buffer. -/
theorem run_element (c : Mc) (m : Mm) (failed : Bool) (room : a ≤ buf.length) :
    ∃ touched, run c m failed (8 * a) buf =
        some ((Element.MmDNSName m).reverse c failed (8 * a) buf, touched) ∧
      ∀ x ∈ touched, (buf.start : Int) ≤ x ∧ x < buf.start + buf.length := by
  obtain ⟨touched, walked, within⟩ :=
    @walk_labels buf a (buf.length - a) (buf.length - a) 0 0 []
  refine ⟨touched, ?_, ?_⟩
  · have ran : reverse c m failed (8 * a) buf ⟨buf.mem, []⟩ =
        some (MmElement_reverse c m (labels buf a (buf.length - a) (buf.length - a) 0 0) failed
          (8 * a) buf, ⟨buf.mem, touched⟩) := by
      simp only [reverse, mul_div_octet]
      change (walk _ _ _ _ _ _).bind _ = _
      rw [walked]
      rfl
    rw [run, ran]
    simp only [MmElement_reverse, length_for_reverse, Element.reverse, Element.length_for_reverse,
      mul_div_octet, Option.map_some]
    by_cases none_ : labels buf a (buf.length - a) (buf.length - a) 0 0 = 0
    · simp only [none_, ne_eq, not_true_eq_false, if_false]
      split <;> rfl
    · simp only [none_, ne_eq, not_false_eq_true, if_true]
      split <;> rfl
  · intro x mem
    have := within x mem
    omega

/-- The next name finds no length that this one has left. -/
theorem length_taken (c : Mc) (m : Mm) (ctl : Nat) (failed : Bool) (at_ : Nat) (buf : Octbuf) :
    (MmElement_reverse c m ctl failed at_ buf).2 = 0 := by
  have taken : (length_for_reverse ctl at_ buf).2 = 0 := by
    by_cases none_ : ctl = 0 <;> simp [length_for_reverse, none_]
  simp only [MmElement_reverse]
  split <;> exact taken

end MmDNSName

/-! ## Where a name is cut off -/

section Cut

variable {buf : Octbuf} {a d fuel : Nat} {xs : List Octet}

theorem Octbuf.reads_rest (buf : Octbuf) (a : Nat) : buf.Reads a (buf.rest a) := by
  intro i x at_i
  simp only [rest, string, List.getElem?_map, Option.map_eq_some_iff] at at_i
  obtain ⟨j, found, rfl⟩ := at_i
  obtain ⟨inside, rfl⟩ := List.getElem?_eq_some_iff.mp found
  rw [List.getElem_range, Nat.add_assoc]

theorem Octbuf.rest_length (buf : Octbuf) (a : Nat) : (buf.rest a).length = buf.length - a := by
  simp [rest, string]

theorem LabelRow.cons (l : Label) (row : LabelRow xs) : LabelRow (l.wire ++ xs) := by
  obtain ⟨ls, rfl⟩ := row
  exact ⟨l :: ls, rfl⟩

/-- Behind complete labels the loop ends with their length. -/
theorem labels_row (ls : List Label) (reads : buf.Reads (a + d) (ls.flatMap Label.wire))
    (enough : (ls.flatMap Label.wire).length ≤ fuel) :
    labels buf a (d + (ls.flatMap Label.wire).length) fuel d d =
      d + (ls.flatMap Label.wire).length := by
  induction ls generalizing d fuel with
  | nil => cases fuel <;> simp [labels]
  | cons l ls ih =>
      rw [List.flatMap_cons] at reads enough ⊢
      have size : l.wire.length = l.octets.length + 1 := rfl
      rw [List.length_append] at enough ⊢
      cases fuel with
      | zero => omega
      | succ fuel =>
          have behind := (Octbuf.reads_append.mp reads).2
          rw [Nat.add_assoc] at behind
          have first := reads.label (List.prefix_refl _) (by simp [Label.wire])
          rw [labels_label l first (by omega), ← Nat.add_assoc]
          exact ih behind (by omega)

theorem labels_outside {length : Nat} (outside : length ≤ d) (reallength : Nat) :
    labels buf a length fuel d reallength = reallength := by
  cases fuel with
  | zero => rfl
  | succ fuel => rw [labels, if_neg (Nat.not_lt.mpr outside)]

/-- All that can be left of what is behind the labels is the first octet of a pointer. -/
theorem labels_tail (p : Option (BitVec 14)) (cut : xs <+: DomainName.tail p)
    (strict : xs ≠ DomainName.tail p) (some_ : xs ≠ []) (reads : buf.Reads (a + d) xs)
    (enough : xs.length ≤ fuel) :
    d + xs.length < labels buf a (d + xs.length) fuel d d := by
  cases xs with
  | nil => exact absurd rfl some_
  | cons x xs =>
      cases p with
      | none =>
          obtain ⟨rfl, ends⟩ := List.cons_prefix_cons.mp cut
          cases List.prefix_nil.mp ends
          exact absurd rfl strict
      | some p =>
          obtain ⟨same, behind⟩ := List.cons_prefix_cons.mp cut
          cases xs with
          | cons y ys =>
              obtain ⟨second, ends⟩ := List.cons_prefix_cons.mp behind
              cases List.prefix_nil.mp ends
              rw [same, second] at strict
              exact absurd rfl strict
          | nil =>
              have marked := pointer_octet p
              rw [← same, ← reads.head] at marked
              cases fuel with
              | zero => cases enough
              | succ fuel => simp [labels, marked.1, marked.2]

/-- Where the end of the buffer cuts a label or a pointer, the length leads out of it. -/
theorem labels_cut (ls : List Label) (p : Option (BitVec 14))
    (cut : xs <+: ls.flatMap Label.wire ++ DomainName.tail p)
    (strict : xs ≠ ls.flatMap Label.wire ++ DomainName.tail p) (noRow : ¬ LabelRow xs)
    (reads : buf.Reads (a + d) xs) (enough : xs.length ≤ fuel) :
    d + xs.length < labels buf a (d + xs.length) fuel d d := by
  have some_ : xs ≠ [] := by
    rintro rfl
    exact noRow ⟨[], rfl⟩
  induction ls generalizing d fuel xs with
  | nil => exact labels_tail p cut strict some_ reads enough
  | cons l ls ih =>
      rw [List.flatMap_cons, List.append_assoc] at cut strict
      have size : l.wire.length = l.octets.length + 1 := rfl
      have pos := List.length_pos_iff.mpr some_
      have first := reads.label cut some_
      cases fuel with
      | zero => omega
      | succ fuel =>
          by_cases whole : l.wire.length ≤ xs.length
          · -- The label is complete, and the cut is behind it.
            obtain ⟨ys, rfl⟩ := List.prefix_of_prefix_length_le (List.prefix_append _ _) cut whole
            have behind := (Octbuf.reads_append.mp reads).2
            have noRow' : ¬ LabelRow ys := fun row => noRow (row.cons l)
            rw [Nat.add_assoc] at behind
            rw [List.length_append] at enough pos ⊢
            rw [labels_label l first (by omega), ← Nat.add_assoc]
            apply ih _ _ noRow' behind (by omega) _
            · exact (List.prefix_append_right_inj _).mp cut
            · rintro rfl
              exact strict rfl
            · rintro rfl
              exact noRow' ⟨[], rfl⟩
          · -- The label leads out of the buffer, where the loop ends.
            rw [labels_label l first (by omega), labels_outside (by omega)]
            omega

/-- Labels up to the end of the buffer are taken for a name. -/
theorem reverse_row (c : Mc) (m : Mm) (failed : Bool) (room : a ≤ buf.length)
    (row : LabelRow (buf.rest a)) :
    (Element.MmDNSName m).reverse c failed (8 * a) buf =
      ⟨failed, 8 * buf.length,
        [(Element.MmDNSName m).leaf c (8 * a) (8 * (buf.length - a)) buf]⟩ := by
  obtain ⟨ls, same⟩ := row
  have reads := buf.reads_rest a
  have length := buf.rest_length a
  rw [same] at reads length
  have walked := @labels_row buf a 0 (buf.length - a) ls reads (by omega)
  rw [Nat.zero_add, length] at walked
  have size : (Element.MmDNSName m).length_for_reverse (8 * a) buf = 8 * (buf.length - a) := by
    simp only [Element.length_for_reverse, mul_div_octet, walked, Octbuf.remainLength]
    split <;> rfl
  have ends : 8 * a + 8 * (buf.length - a) = 8 * buf.length := by omega
  simp only [Element.reverse, size, ends, Nat.le_refl, if_true]

/-- A label or a pointer that is cut off does not fit into the buffer. -/
theorem reverse_cut (c : Mc) (m : Mm) (failed : Bool) (truncated : Truncated (buf.rest a))
    (noRow : ¬ LabelRow (buf.rest a)) :
    (Element.MmDNSName m).reverse c failed (8 * a) buf = ⟨true, 8 * a, []⟩ := by
  obtain ⟨n, cut, strict⟩ := truncated
  have reads := buf.reads_rest a
  have length := buf.rest_length a
  have outside := @labels_cut buf a 0 (buf.length - a) _ n.labels n.pointer cut strict noRow reads
    (Nat.le_of_eq length)
  rw [Nat.zero_add, length] at outside
  have size : (Element.MmDNSName m).length_for_reverse (8 * a) buf =
      8 * labels buf a (buf.length - a) (buf.length - a) 0 0 := by
    simp only [Element.length_for_reverse, mul_div_octet]
    exact if_pos (by omega)
  simp only [Element.reverse, size]
  exact if_neg (by omega)

end Cut

/-- A row of labels without the octet that ends a name. -/
theorem LabelRow.truncated {xs : List Octet} (row : LabelRow xs) : Truncated xs := by
  obtain ⟨ls, rfl⟩ := row
  refine ⟨⟨ls, none⟩, List.prefix_append _ _, ?_⟩
  intro same
  simp [DomainName.wire, DomainName.tail] at same

/-- Nothing tells of the missing end. -/
theorem LabelRow.not_decodes {buf : Octbuf} {a : Nat} (row : LabelRow (buf.rest a))
    (room : a ≤ buf.length) : ¬ NameDecodes buf a := by
  intro decodes
  obtain ⟨r, touched, ran, failed, -⟩ := decodes.cut row.truncated .QuestionEntry .Name
  obtain ⟨touched', element, -⟩ := MmDNSName.run_element .QuestionEntry .Name false room
  rw [element, reverse_row .QuestionEntry .Name false room row] at ran
  cases ran
  cases failed

/-- A name is decoded as it should be unless the end of the buffer cuts it off behind a
    complete label, or in front of the first one. -/
theorem name_decodes_iff (buf : Octbuf) (a : Nat) (room : a ≤ buf.length) :
    NameDecodes buf a ↔ ¬ LabelRow (buf.rest a) := by
  constructor
  · intro decodes row
    exact row.not_decodes room decodes
  · intro noRow
    refine ⟨?_, ?_⟩
    · intro n stands inside c m failed
      obtain ⟨touched, element, -⟩ := MmDNSName.run_element c m failed room
      have member := @Piece.reverse c failed buf a (Piece.name m n) stands inside (.inl rfl)
      exact ⟨touched, element.trans (congrArg (fun r => some (r, touched)) member)⟩
    · intro truncated c m
      obtain ⟨touched, element, within⟩ := MmDNSName.run_element c m false room
      rw [reverse_cut c m false truncated noRow] at element
      exact ⟨_, touched, element, rfl, rfl, within⟩

/-- A buffer with these octets and nothing else. -/
def octets (xs : List Octet) : Octbuf := ⟨fun i => xs.getD i.toNat 0, 0, xs.length⟩

/-- One of three octets of a label. -/
theorem name_decodes_label : NameDecodes (octets [3, 0x61]) 0 := by
  apply (name_decodes_iff _ 0 (Nat.zero_le _)).mpr
  rintro ⟨ls, same⟩
  have rest : (octets [3, 0x61]).rest 0 = [3, 0x61] := rfl
  rw [rest] at same
  cases ls with
  | nil => cases same
  | cons l ls =>
      obtain ⟨first, behind⟩ := List.cons.inj same
      have short := l.short
      have three : 3 = l.octets.length % 256 := congrArg BitVec.toNat first
      have one : 1 = (l.octets ++ ls.flatMap Label.wire).length := congrArg List.length behind
      rw [List.length_append] at one
      omega

/-- A label without the octet that ends the name becomes a member, and no error. -/
theorem not_name_decodes : ¬ ∀ (buf : Octbuf) (a : Nat), a ≤ buf.length → NameDecodes buf a := by
  intro claim
  have row : LabelRow ((octets [1, 0x61]).rest 0) := ⟨[⟨[0x61], by decide, by decide⟩], rfl⟩
  exact row.not_decodes (Nat.zero_le _) (claim _ 0 (Nat.zero_le _))

end Tahi.Pz.McDNS
