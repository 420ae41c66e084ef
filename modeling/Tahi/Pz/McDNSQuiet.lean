import Tahi.Pz.McDNSSections

/-! # Lengths between messages

Whatever octets are decoded, every length that is kept has been taken out again when
the decoder comes back: a compound sets its length for the pass that follows at once.
-/

namespace Tahi.Pz.McDNS

namespace Kept

variable {k : Kept}

theorem quiet_fresh : Kept.fresh.Quiet := ⟨fun _ => rfl, rfl, fun _ => rfl⟩

/-- Only the lengths of a record count for the rest of the lengths. -/
theorem Quiet.setRR (quiet : k.Quiet) (rr : RR) : (k.setRR rr {}).Quiet := by
  refine ⟨quiet.length_, quiet.entry, ?_⟩
  intro other
  by_cases same : other = rr
  · subst same
    simp [Kept.setRR]
  · simpa [Kept.setRR, same] using quiet.rr other

theorem Quiet.set_length (quiet : k.Quiet) (s : Section) : (k.set_length s 0).Quiet := by
  refine ⟨?_, quiet.entry, quiet.rr⟩
  intro other
  by_cases same : other = s
  · subst same
    simp [Kept.set_length]
  · simpa [Kept.set_length, same] using quiet.length_ other

end Kept

@[simp] theorem McObject_reverse_kept (c : Mc) (ms : List Member) (length : Nat) (k : Kept)
    (failed : Bool) (at_ : Nat) (buf : Octbuf) :
    (McObject_reverse c ms length k failed at_ buf).kept = k := by
  unfold McObject_reverse
  split <;> rfl

namespace McDNS_QuestionEntry

variable {k : Kept} {failed : Bool} {at_ : Nat} {buf : Octbuf}

/-- A pass takes the length out, if there is one. -/
theorem option_kept (silent : k.entry.rrlength = 0) :
    (option k failed at_ buf).kept = { k with entry := {} } := by
  unfold option length_for_reverse
  cases k with
  | mk reverse_ current_ length_ entry rr =>
      cases entry with
      | mk length rrlength =>
          simp only at silent
          subst silent
          by_cases zero : length = 0
          · subst zero
            simp
          · simp [zero]

theorem reverse_quiet (quiet : k.Quiet) : (reverse k failed at_ buf).kept = k := by
  have back : { k with entry := {} } = k := by
    rw [← quiet.entry]
  have probe : (option k failed at_ buf).kept = k := by
    rw [option_kept (by rw [quiet.entry]), back]
  unfold reverse
  simp only [probe]
  cases (option k failed at_ buf).rc with
  | none => rw [option_kept (by rw [quiet.entry]), back]
  | some r_self => rw [option_kept (by rw [quiet.entry]), back]

end McDNS_QuestionEntry

/-! ## What a record is made of -/

namespace Member

def body : Member → Element
  | element e => e
  | MmMultiple e => e

end Member

theorem Element.reverse_made {c : Mc} {e : Element} {failed : Bool} {at_ : Nat} {buf : Octbuf}
    {r : RObject} (made : r ∈ (e.reverse c failed at_ buf).made) :
    ∃ at_, r = e.leaf c at_ (e.length_for_reverse at_ buf) buf := by
  simp only [Element.reverse] at made
  split at made
  · exact ⟨at_, List.mem_singleton.mp made⟩
  · cases made

theorem multiple_made {c : Mc} {body : Element} {cou : Nat} {failed : Bool} {at_ : Nat}
    {buf : Octbuf} {r : RObject} (made : r ∈ (multiple c body cou failed at_ buf).made) :
    ∃ at_, r = body.leaf c at_ (body.length_for_reverse at_ buf) buf := by
  induction cou generalizing failed at_ with
  | zero => cases made
  | succ cou ih =>
      simp only [multiple, List.mem_append] at made
      cases made with
      | inl own => exact Element.reverse_made own
      | inr later => exact ih later

/-- Every object that the members have made stands for a field of one of them. -/
theorem membersLoop_made {c : Mc} {ms : List Member} {failed : Bool} {at_ : Nat} {buf : Octbuf}
    {r : RObject} (made : r ∈ (membersLoop c ms failed at_ buf).made) :
    ∃ m ∈ ms, ∃ at_, r = m.body.leaf c at_ (m.body.length_for_reverse at_ buf) buf := by
  induction ms generalizing failed at_ with
  | nil => cases made
  | cons m ms ih =>
      have own : ∀ r, r ∈ (m.reverse c failed at_ buf).made →
          ∃ at_, r = m.body.leaf c at_ (m.body.length_for_reverse at_ buf) buf := by
        intro r made
        cases m with
        | element e => exact Element.reverse_made made
        | MmMultiple body => exact multiple_made made
      simp only [membersLoop] at made
      cases bad : (m.reverse c failed at_ buf).failed with
      | true =>
          simp only [bad, if_true] at made
          exact ⟨m, List.mem_cons_self .., own r made⟩
      | false =>
          simp only [bad, Bool.false_eq_true, if_false, List.mem_append] at made
          cases made with
          | inl here => exact ⟨m, List.mem_cons_self .., own r here⟩
          | inr later =>
              obtain ⟨n, member, leaf⟩ := ih later
              exact ⟨n, List.mem_cons_of_mem _ member, leaf⟩

/-- No field of a record is found among the octets that are left over. -/
theorem needless_made {failed : Bool} {at_ : Nat} {buf : Octbuf} (rr : RR) (m : Mm) {r : RObject}
    (made : r ∈ (needless failed at_ buf).made) : r.corresponding (.mm (.RR rr) m) = none := by
  unfold needless at made
  simp only at made
  split at made
  · cases made
  · split at made
    · obtain rfl := List.mem_singleton.mp made
      simp only [RObject.corresponding, reduceCtorEq, if_false]
      simp only [Element.reverse]
      split <;> simp [RObject.correspondingChild, Element.leaf, RObject.corresponding]
    · cases made

theorem corresponding_mem {c : Meta} {rs : List RObject} {found : RObject}
    (seen : RObject.correspondingChild c rs = some found) :
    ∃ r ∈ rs, r.corresponding c = some found := by
  induction rs with
  | nil => cases seen
  | cons r rs ih =>
      simp only [RObject.correspondingChild] at seen
      cases own : r.corresponding c with
      | some f =>
          simp only [own] at seen
          exact ⟨r, List.mem_cons_self .., seen ▸ own⟩
      | none =>
          simp only [own] at seen
          obtain ⟨q, member, yes⟩ := ih seen
          exact ⟨q, List.mem_cons_of_mem _ member, yes⟩

theorem length_member (rr : RR) :
    ∀ m ∈ rr.members, m.body.mm = .Length → m.body = .MmUint .Length 16 := by
  cases rr <;> decide

namespace McDNS_RR

variable {k : Kept} {failed : Bool} {at_ : Nat} {buf : Octbuf} {rr : RR}

/-- The length of the data has octets of its own, so that the octets up to it are never none. -/
theorem baseLength_pos {rs : List RObject}
    (size : ∀ r ∈ rs, r.meta_ = .mm (.RR rr) .Length → r.size = 16)
    (has : ∃ r ∈ rs, r.meta_ = .mm (.RR rr) .Length) : baseLength rr rs ≠ 0 := by
  induction rs with
  | nil =>
      obtain ⟨r, member, -⟩ := has
      cases member
  | cons r rs ih =>
      simp only [baseLength]
      by_cases here : r.meta_ = .mm (.RR rr) .Length
      · rw [if_pos here, size r (List.mem_cons_self ..) here]
        decide
      · rw [if_neg here]
        have later := ih (fun q member => size q (List.mem_cons_of_mem _ member)) (by
          obtain ⟨q, member, yes⟩ := has
          cases member with
          | head => exact absurd yes here
          | tail _ member => exact ⟨q, member, yes⟩)
        omega

/-- A record that says how long its data is has octets up to there. -/
theorem baseLength_found {length : Nat} {r_self found : RObject}
    (probe : (McObject_reverse (.RR rr) rr.members length k failed at_ buf).rc = some r_self)
    (seen : r_self.corresponding (.mm (.RR rr) .Length) = some found) :
    baseLength rr (r_self.children.filter RObject.evaluateObject) ≠ 0 := by
  unfold McObject_reverse at probe
  split at probe
  case isFalse => cases probe
  case isTrue =>
    simp only [Option.some.injEq] at probe
    subst probe
    simp only [RObject.corresponding, reduceCtorEq, if_false] at seen
    simp only [RObject.children]
    obtain ⟨r, member, yes⟩ := corresponding_mem seen
    cases List.mem_append.mp member with
    | inr less => cases (needless_made _ _ less).symm.trans yes
    | inl made =>
        obtain ⟨m, -, place, leaf⟩ := membersLoop_made made
        have named : r.meta_ = .mm (.RR rr) .Length := by
          subst leaf
          simp only [Element.leaf, RObject.corresponding, RObject.correspondingChild] at yes
          split at yes
          · rename_i same
            exact same.symm
          · cases yes
        apply baseLength_pos
        · intro q listed called
          cases List.mem_append.mp (List.mem_filter.mp listed).1 with
          | inr less =>
              have none := needless_made rr .Length less
              cases q with
              | mk m offset size pvalue children =>
                  simp only [RObject.meta_] at called
                  subst called
                  simp [RObject.corresponding] at none
          | inl made =>
              obtain ⟨m, member, place, leaf⟩ := membersLoop_made made
              subst leaf
              simp only [Element.leaf, RObject.meta_, Meta.mm.injEq, true_and] at called
              rw [length_member rr m member called]
              rfl
        · refine ⟨r, List.mem_filter.mpr ⟨member, ?_⟩, named⟩
          simp [RObject.evaluateObject, named]

/-- A pass takes the lengths out, if there are any. -/
theorem option_kept (both : (k.rr rr).length = 0 → (k.rr rr).rrlength = 0) :
    (option rr k failed at_ buf).kept = k.setRR rr {} := by
  have unchanged : k.rr rr = {} → k = k.setRR rr {} := by
    intro silent
    rw [← silent]
    simp [Kept.setRR]
  unfold option length_for_reverse
  cases ctl : k.rr rr with
  | mk length rrlength =>
      rw [ctl] at both
      simp only at both
      by_cases zero : length = 0
      · have zero' := both zero
        subst zero zero'
        simpa using unchanged ctl
      · by_cases zero' : rrlength = 0
        · subst zero'
          simp [zero]
        · simp [zero, zero']

theorem reverse_quiet (quiet : k.Quiet) : (reverse rr k failed at_ buf).kept = k := by
  have back : k.setRR rr {} = k := by
    rw [← quiet.rr rr]
    simp [Kept.setRR]
  have ended : ∀ ctl, (k.setRR rr ctl).setRR rr {} = k := by
    intro ctl
    rw [← back]
    simp [Kept.setRR]
  have probe : (option rr k failed at_ buf).kept = k := by
    rw [option_kept (by rw [quiet.rr]; exact fun _ => rfl), back]
  unfold reverse
  simp only [probe]
  cases result : (option rr k failed at_ buf).rc with
  | none => rw [option_kept (by rw [quiet.rr]; exact fun _ => rfl), back]
  | some r_self =>
      simp only
      rw [option_kept, ended]
      intro none
      simp only [Kept.setRR, Function.update_self] at none ⊢
      cases seen : r_self.corresponding (.mm (.RR rr) .Length) with
      | none => rw [quiet.rr]
      | some found => exact absurd none (baseLength_found result seen)

end McDNS_RR

/-- Decoding an entry leaves everything as it was. -/
theorem forward_kept (s : Section) {k : Kept} (failed : Bool) (at_ : Nat) (buf : Octbuf)
    (quiet : k.Quiet) : (s.forward k failed at_ buf).kept = k := by
  have records : (record k failed at_ buf).kept = k := by
    have type : (McDNS_RR.overwrite_DictType k failed at_ buf).1 = k := by
      unfold McDNS_RR.overwrite_DictType
      split
      · simp only
        rw [McDNS_RR.option_kept (by rw [quiet.rr]; exact fun _ => rfl), ← quiet.rr .ANY]
        simp [Kept.setRR]
      · rfl
    unfold record
    cases ended : McDNS_RR.overwrite_DictType k failed at_ buf with
    | mk kept rest =>
        rw [ended] at type
        simp only at type
        subst type
        cases rest with
        | mk bad found =>
            cases found with
            | none => rfl
            | some type => exact McDNS_RR.reverse_quiet quiet
  cases s with
  | Question => exact McDNS_QuestionEntry.reverse_quiet quiet
  | _ => exact records

theorem entriesLoop_quiet {s : Section} {fuel : Nat} {k : Kept} {failed : Bool} {at_ : Nat}
    {buf : Octbuf} (quiet : k.Quiet) :
    (entriesLoop s s.forward fuel k failed at_ buf).kept.Quiet := by
  induction fuel generalizing k failed at_ with
  | zero => exact quiet
  | succ fuel ih =>
      have one := forward_kept s failed at_ buf
        (quiet.increase_current (s := s))
      simp only [entriesLoop]
      split
      · cases (s.forward (k.increase_current s) failed at_ buf).rc with
        | none =>
            simp only [one]
            exact quiet.increase_current
        | some rc =>
            simp only [one]
            split
            · exact quiet.increase_current
            · exact ih quiet.increase_current
      · exact quiet.init_current

/-- The bound on the loop is never reached: every turn counts the index up. -/
theorem entriesLoop_fuel {s : Section} {fuel : Nat} {k : Kept} (failed : Bool) (at_ : Nat)
    {buf : Octbuf} (quiet : k.Quiet) (enough : k.reverse_ s - k.current_ s < fuel) :
    entriesLoop s s.forward (fuel + 1) k failed at_ buf =
      entriesLoop s s.forward fuel k failed at_ buf := by
  induction fuel generalizing k failed at_ with
  | zero => cases enough
  | succ fuel ih =>
      rw [entriesLoop, entriesLoop]
      by_cases go : buf.remainLength (at_ / 8) ≠ 0 ∧ k.current_ s < k.reverse_ s
      · have one := forward_kept s failed at_ buf
          (quiet.increase_current (s := s))
        have next := ih (k := k.increase_current s)
          (s.forward (k.increase_current s) failed at_ buf).failed
          (s.forward (k.increase_current s) failed at_ buf).at_ quiet.increase_current
          (by
            have same : (k.increase_current s).reverse_ = k.reverse_ := rfl
            rw [Kept.current_increase, same]
            omega)
        simp only [if_pos go, one, next]
      · simp only [if_neg go]

namespace Section

variable {s : Section} {k : Kept} {failed : Bool} {at_ : Nat} {buf : Octbuf}

/-- A pass over a section takes its length out, if there is one. -/
theorem option_kept (quiet : (k.set_length s 0).Quiet) :
    (s.option k failed at_ buf).kept.Quiet := by
  have found : (s.length_for_reverse k at_ buf).2 = k.set_length s 0 := by
    unfold length_for_reverse
    by_cases zero : k.length_ s = 0
    · simp only [zero, ne_eq, not_true_eq_false, if_false]
      rw [← zero]
      simp [Kept.set_length]
    · simp only [ne_eq, zero, not_false_eq_true, if_true]
  unfold option
  cases ended : s.length_for_reverse k at_ buf with
  | mk length kept =>
      rw [ended] at found
      simp only at found
      subst found
      simp only
      split
      · rw [member_eq]
        exact entriesLoop_quiet quiet
      · exact quiet

theorem reverse_quiet (quiet : k.Quiet) : (s.reverse k failed at_ buf).kept.Quiet := by
  have probe : (s.option k failed at_ buf).kept.Quiet := option_kept (quiet.set_length s)
  unfold reverse
  simp only
  apply option_kept
  cases (s.option k failed at_ buf).rc with
  | none => exact probe.set_length s
  | some r_self =>
      have again := probe.set_length s
      simpa [Kept.set_length] using again

theorem onDNS_quiet (quiet : k.Quiet) : (s.onDNS k failed at_ buf).kept.Quiet := by
  unfold onDNS
  split
  · exact reverse_quiet quiet
  · exact quiet

end Section

theorem sectionsLoop_quiet {ss : List Section} {k : Kept} {failed : Bool} {at_ : Nat}
    {buf : Octbuf} (quiet : k.Quiet) : (sectionsLoop ss k failed at_ buf).kept.Quiet := by
  induction ss generalizing k failed at_ with
  | nil => exact quiet
  | cons s ss ih =>
      have one : (s.onDNS k failed at_ buf).kept.Quiet := Section.onDNS_quiet quiet
      simp only [sectionsLoop]
      split
      · exact one
      · exact ih one

namespace McUdp_DNS

variable {k : Kept} {failed : Bool} {at_ : Nat} {buf : Octbuf}

theorem header_quiet (quiet : k.Quiet) : (header k failed at_ buf).kept.Quiet := by
  unfold header
  simp only
  split
  · split
    · exact quiet
    · exact sectionsLoop_quiet quiet
  · exact quiet

theorem set_CountMgr_quiet (quiet : k.Quiet) (r_self : RObject) :
    (set_CountMgr r_self k).Quiet := by
  unfold set_CountMgr
  induction sections generalizing k with
  | nil => exact quiet
  | cons s ss ih =>
      simp only [List.foldl_cons]
      apply ih
      cases r_self.corresponding (.mm .Udp_DNS (countOf s)) with
      | none => exact quiet
      | some count => exact ⟨quiet.length_, quiet.entry, quiet.rr⟩

theorem reverse_quiet (quiet : k.Quiet) : (reverse k failed at_ buf).kept.Quiet := by
  unfold reverse
  simp only
  apply header_quiet
  have probe : (header k failed at_ buf).kept.Quiet := header_quiet quiet
  cases (header k failed at_ buf).rc with
  | none => exact probe
  | some r_self => exact set_CountMgr_quiet probe r_self

end McUdp_DNS

/-- No history leaves a length behind. -/
theorem after_quiet (history : List Datagram) : (after history).Quiet := by
  have run : ∀ k : Kept, k.Quiet → (history.foldl (fun k d => (d.decode k).kept) k).Quiet := by
    induction history with
    | nil => exact fun _ quiet => quiet
    | cons d history ih =>
        intro k quiet
        exact ih _ (McUdp_DNS.reverse_quiet quiet)
  exact run _ Kept.quiet_fresh

end Tahi.Pz.McDNS
