import Tahi.Pz.OptionProgress

/-! # Termination of the decode loops

A loop whose compounds move forward is over after as many turns as the buffer has octets.
Loops are nested: an extension header has a loop over its options, and the plain text of an
ESP header has a loop over its own extension headers. The plain text is only there with a
security association, which the header takes from the list.
-/

namespace Tahi.Pz

open MObject

/-- A call comes back, with what `Q` says, or the program aborts. -/
def Ends {α : Type} (Q : α → Prop) : Except Halt α → Prop
  | .error h => h ≠ .unfinished
  | .ok a => Q a

/-- A decoder that is started in `P` comes back in `Q`. -/
def Leads (P : RControl → Prop) (rev : Reverse) (Q : RControl → Prop) : Prop :=
  ∀ c at_ buf, P c → Ends (fun r => Q r.c) (rev c at_ buf)

/-- The members of a compound lead from `P` to `Q`. -/
def LeadAll (P : RControl → Prop) (members : List Member) (Q : RControl → Prop) : Prop :=
  ∀ c memat buf, P c → Ends (fun r => Q r.1) (McObject.membersLoop members c memat buf)

/-- At most `n` security associations are left. -/
def Within (n : Nat) (c : RControl) : Prop := c.algorithms.length ≤ n

/-- The same, and one less where one has been taken. -/
def Taken (n : Nat) (c : RControl) : Prop :=
  c.algorithms.length ≤ n ∧ (c.poping_SA.isSome → c.algorithms.length < n)

/-- The member comes back. -/
def Member.Ends (n : Nat) (mem : Member) : Prop := Leads (Within n) mem.reverse (Within n)

/-- The reference comes to know which type is next. -/
def Overwrite.Ends (n : Nat) (overwrite_DictType : Overwrite) : Prop :=
  ∀ c at_ buf, Within n c → Pz.Ends (fun x => Within n x.2) (overwrite_DictType c at_ buf)

/-- Every compound of the dictionary comes back. -/
structure TypevsMcDict.Ends (n : Nat) (d : TypevsMcDict) : Prop where
  list_ : ∀ rec_ ∈ d.list_, Leads (Within n) rec_.2 (Within n)
  other_ : ∀ mc ∈ d.other_, Leads (Within n) mc (Within n)

variable {n : Nat}

/-! ## Members -/

namespace MmElement

theorem leads {length_for_reverse : RControl → ItPosition → PvOctets → ItPosition}
    {reversePv : ItPosition → ItPosition → PvOctets → PvObject}
    {reverseRm : RControl → ItPosition → ItPosition → PvObject → Except Halt (RControl × Decoded)}
    {ForIPinfo : Option (Con_IPinfo → Decoded → PvOctets → Con_IPinfo)} {P : RControl → Prop}
    (made : ∀ c at_ size pv, P c → Ends (fun x => Within n x.1) (reverseRm c at_ size pv))
    (within : ∀ c, P c → Within n c) :
    Leads P (reverseWith length_for_reverse reversePv reverseRm ForIPinfo) (Within n) := by
  intro c at_ buf start
  unfold reverseWith
  simp only
  split
  · have object := made c at_ (length_for_reverse c at_ buf)
      (reversePv at_ (length_for_reverse c at_ buf) buf) start
    cases result : reverseRm c at_ (length_for_reverse c at_ buf)
        (reversePv at_ (length_for_reverse c at_ buf) buf) with
    | error h =>
        rw [result] at object
        exact object
    | ok x =>
        rw [result] at object
        obtain ⟨c', r_self⟩ := x
        change Within n _
        simp only
        split <;> exact object
  · exact within c start

theorem leaf_leads {length_for_reverse : RControl → ItPosition → PvOctets → ItPosition}
    {reversePv : ItPosition → ItPosition → PvOctets → PvObject} (string : String)
    {ForIPinfo : Option (Con_IPinfo → Decoded → PvOctets → Con_IPinfo)} :
    Leads (Within n) (reverseWith length_for_reverse reversePv (leaf string) ForIPinfo) (Within n) :=
  leads (fun _ _ _ _ within => within) fun _ within => within

end MmElement

@[simp] theorem MmUint.member_ends (m : MmUint) (string : String)
    (ForIPinfo : Option (Con_IPinfo → Decoded → PvOctets → Con_IPinfo)) :
    (m.member string ForIPinfo).Ends n := MmElement.leaf_leads string

@[simp] theorem MmOctets.member_ends (m : MmOctets) (string : String)
    (ForIPinfo : Option (Con_IPinfo → Decoded → PvOctets → Con_IPinfo)) :
    (m.member string ForIPinfo).Ends n := MmElement.leaf_leads string

@[simp] theorem MmData.member_ends (string : String) (evalskip : Bool) :
    (MmData.member string evalskip).Ends n := by
  intro c at_ buf within
  change Pz.Ends _ (MmData.reverse string evalskip c at_ buf)
  unfold MmData.reverse
  simp only
  split
  · exact within
  · split
    · split
      · exact fun h => by cases h
      · exact within
    · exact within

@[simp] theorem MmMultiple.member_ends {body : Member} (ends : body.Ends n)
    (HC_MLC : ItPosition → PvOctets → UInt32) : (MmMultiple.member body HC_MLC).Ends n := by
  have loop_ends (cou : Nat) (r : Option Decoded) :
      Leads (Within n) (MmMultiple.loop body.reverse cou r) (Within n) := by
    induction cou generalizing r with
    | zero => exact fun c at_ buf within => within
    | succ cou ih =>
        intro c at_ buf within
        have first := ends c at_ buf within
        rw [MmMultiple.loop]
        cases decoded : body.reverse c at_ buf with
        | error h =>
            rw [decoded] at first
            exact first
        | ok r =>
            rw [decoded] at first
            have others := ih r.rc r.c r.at_ buf first
            simp only
            cases rest : MmMultiple.loop body.reverse cou r.rc r.c r.at_ buf with
            | error h =>
                rw [rest] at others
                exact others
            | ok s =>
                rw [rest] at others
                exact others
  exact fun c at_ buf within => loop_ends _ none c at_ buf within

/-! ## Compounds -/

namespace LeadAll

variable {P Q R : RControl → Prop} {mem : Member} {members : List Member}

theorem nil : LeadAll P [] P := fun _ _ _ start => start

/-- An error ends the loop behind the first member already. -/
theorem cons (first : Leads P mem.reverse R) (others : LeadAll R members Q)
    (early : ∀ c, R c → Q c) : LeadAll P (mem :: members) Q := by
  intro c memat buf start
  have one := first c memat buf start
  rw [McObject.membersLoop]
  cases decoded : mem.reverse c memat buf with
  | error h =>
      rw [decoded] at one
      exact one
  | ok r =>
      rw [decoded] at one
      simp only
      split
      · have rest := others r.c r.at_ buf one
        cases loop : McObject.membersLoop members r.c r.at_ buf with
        | error h =>
            rw [loop] at rest
            exact rest
        | ok x =>
            rw [loop] at rest
            exact rest
      · exact early _ one

theorem of_ends (ends : ∀ mem ∈ members, mem.Ends n) : LeadAll (Within n) members (Within n) := by
  induction members with
  | nil => exact nil
  | cons mem members ih =>
      rw [List.forall_mem_cons] at ends
      exact cons ends.1 (ih ends.2) fun _ within => within

end LeadAll

theorem McNeedless.leads : Leads (Within n) reverse (Within n) := by
  intro c at_ buf within
  rw [reverse_eq]
  split
  · exact within
  · split
    · cases buf.substr at_.bytes.toUInt32 (buf.length - at_.bytes.toUInt32) with
      | none => exact fun h => by cases h
      | some w => exact within
    · exact within

namespace McObject

theorem members_reverse_ends {members : List Member} {P : RControl → Prop}
    (lead : LeadAll P members (Within n)) {c : RControl} (start : P c) (memat : ItPosition)
    (buf : PvOctets) :
    Ends (fun x => Within n x.1) (members_reverse McNeedless.reverse members c memat buf) := by
  have all := lead c memat buf start
  rw [members_reverse]
  cases loop : membersLoop members c memat buf with
  | error h =>
      rw [loop] at all
      exact all
  | ok x =>
      rw [loop] at all
      simp only
      split
      · have rest := McNeedless.leads x.1 x.2.1 buf all
        cases needless : McNeedless.reverse x.1 x.2.1 buf with
        | error h =>
            rw [needless] at rest
            exact rest
        | ok r =>
            rw [needless] at rest
            exact rest
      · exact all

theorem leads {mc : McObject} {P : RControl → Prop} (lead : LeadAll P mc.members_ (Within n))
    (warned : ∀ c, P c → P (c.setWarning 3)) (within : ∀ c, P c → Within n c) :
    Leads P mc.reverse (Within n) := by
  intro c at_ buf start
  rw [reverse, reverseWith]
  simp only
  split
  · split
    · exact fun h => by cases h
    · rename_i buf_self _
      have same : P (if check_decode_alignment_requirement at_
          ⟨(mc.length_for_reverse c at_ buf).toInt32, 0⟩ mc.alignment_requirement then c
          else c.setWarning 3) := by
        split
        · exact start
        · exact warned c start
      have all := members_reverse_ends lead same ⟨0, 0⟩ buf_self
      cases children : members_reverse McNeedless.reverse mc.members_ _ ⟨0, 0⟩ buf_self with
      | error h =>
          rw [children] at all
          exact all
      | ok x =>
          rw [children] at all
          exact all
  · exact within c start

theorem leads_of_ends {mc : McObject} (ends : ∀ mem ∈ mc.members_, mem.Ends n) :
    Leads (Within n) mc.reverse (Within n) :=
  leads (LeadAll.of_ends ends) (fun _ within => within) fun _ within => within

end McObject

/-- The type of what comes next is all that a header adds. -/
theorem McHeader.leads {nextType_meta_ : Option String} {mc : McObject} {P : RControl → Prop}
    (compound : Leads P mc.reverse (Within n)) :
    Leads P (reverse nextType_meta_ mc) (Within n) := by
  intro c at_ buf start
  have object := compound c at_ buf start
  rw [reverse]
  cases decoded : mc.reverse c at_ buf with
  | error h =>
      rw [decoded] at object
      exact object
  | ok r =>
      rw [decoded] at object
      cases self : r.rc with
      | none =>
          simp only [self]
          exact object
      | some r_self =>
          simp only [self]
          change Within n (nextType_set_Control nextType_meta_ r.c r_self)
          unfold nextType_set_Control
          split
          · exact object
          · split <;> exact object

/-! ## References -/

theorem TypevsMcDict.Ends.find {d : TypevsMcDict} (ends : d.Ends n) {t : Con_DictType}
    {mc : Reverse} (found : d.find t = some mc) : Leads (Within n) mc (Within n) := by
  rcases find_cases found with rfl | other_ | ⟨type, mem⟩
  · exact McNeedless.leads
  · exact ends.other_ mc other_
  · exact ends.list_ _ mem

section

variable {overwrite_DictType : Overwrite} {d : TypevsMcDict}

theorem MmReference_Must1.leads (keepType_ : Bool) (overwrite : overwrite_DictType.Ends n)
    (dict : d.Ends n) : Leads (Within n) (reverse keepType_ overwrite_DictType d) (Within n) := by
  intro c at_ buf within
  have result := overwrite c at_ buf within
  rw [reverse]
  cases type_ : overwrite_DictType c at_ buf with
  | error h =>
      rw [type_] at result
      exact result
  | ok x =>
      rw [type_] at result
      obtain ⟨goes, c'⟩ := x
      cases goes with
      | false =>
          change Within n _
          cases keepType_ <;> exact result
      | true =>
          cases found : d.find c'.DictType with
          | none =>
              simp only [found]
              change Within n _
              cases keepType_ <;> exact result
          | some mc =>
              have object := dict.find found c' at_ buf result
              cases decoded : mc c' at_ buf with
              | error h =>
                  rw [decoded] at object
                  simp only [found, decoded]
                  exact object
              | ok r =>
                  rw [decoded] at object
                  simp only [found, decoded]
                  change Within n _
                  cases keepType_ <;> exact object

namespace MmReference_More0

theorem turn_leads (overwrite : overwrite_DictType.Ends n) (dict : d.Ends n) :
    Leads (Within n) (turn overwrite_DictType d) (Within n) := by
  intro c at_ buf within
  have result := overwrite c at_ buf within
  rw [turn]
  cases type_ : overwrite_DictType c at_ buf with
  | error h =>
      rw [type_] at result
      exact result
  | ok x =>
      rw [type_] at result
      obtain ⟨goes, c'⟩ := x
      cases goes with
      | false => exact result
      | true =>
          cases found : d.find c'.DictType with
          | none =>
              simp only [found]
              exact result
          | some mc =>
              simp only [found]
              exact dict.find found c' at_ buf result

/-- The octets behind a turn that another one follows are fewer than before it. -/
theorem turn_goesOn (advances : d.Advances) {turns : Nat} {c : RControl} {at_ : ItPosition}
    {buf : PvOctets} {r : Reversed} (decoded : turn overwrite_DictType d c at_ buf = .ok r)
    (goesOn : (r.rc.isSome && r.c.ok) = true)
    (left_ : buf.length.toNat - at_.octets < turns + 1) :
    buf.length.toNat - r.at_.octets < turns := by
  rw [Bool.and_eq_true, PControl.ok, Bool.not_eq_true'] at goesOn
  have moved := turn_advances advances decoded goesOn.1 goesOn.2
  omega

/-- With more turns left than octets the loop is never given up. -/
theorem loop_ends (overwrite : overwrite_DictType.Ends n) (dict : d.Ends n)
    (advances : d.Advances) {turns : Nat} {c : RControl} {at_ : ItPosition} {buf : PvOctets}
    (within : Within n c) (left_ : buf.length.toNat - at_.octets < turns) :
    Ends (fun r => Within n r.c) (loop overwrite_DictType d turns c at_ buf) := by
  induction turns generalizing c at_ with
  | zero => omega
  | succ turns ih =>
      have object := turn_leads overwrite dict c at_ buf within
      rw [loop]
      cases decoded : turn overwrite_DictType d c at_ buf with
      | error h =>
          rw [decoded] at object
          exact object
      | ok r =>
          rw [decoded] at object
          simp only
          split
          · rename_i goesOn
            have rest := ih object (turn_goesOn advances decoded goesOn left_)
            cases others : loop overwrite_DictType d turns r.c r.at_ buf with
            | error h =>
                rw [others] at rest
                exact rest
            | ok s =>
                rw [others] at rest
                exact rest
          · exact object

/-- Then it is only given up where a turn of it is. -/
theorem turn_of_loop_unfinished (advances : d.Advances) {turns : Nat} {c : RControl}
    {at_ : ItPosition} {buf : PvOctets} (left_ : buf.length.toNat - at_.octets < turns)
    (run : loop overwrite_DictType d turns c at_ buf = .error .unfinished) :
    ∃ c' at', turn overwrite_DictType d c' at' buf = .error .unfinished := by
  induction turns generalizing c at_ with
  | zero => omega
  | succ turns ih =>
      rw [loop] at run
      cases decoded : turn overwrite_DictType d c at_ buf with
      | error h =>
          simp only [decoded] at run
          cases run
          exact ⟨c, at_, decoded⟩
      | ok r =>
          simp only [decoded] at run
          split at run
          · rename_i goesOn
            cases others : loop overwrite_DictType d turns r.c r.at_ buf with
            | error h =>
                simp only [others] at run
                cases run
                exact ih (turn_goesOn advances decoded goesOn left_) others
            | ok s => simp [others] at run
          · cases run

theorem leads (keepType_ : Bool) (overwrite : overwrite_DictType.Ends n) (dict : d.Ends n)
    (advances : d.Advances) {fuel : Nat} (enough : 2 ^ 32 ≤ fuel) :
    Leads (Within n) (reverse keepType_ overwrite_DictType d fuel) (Within n) := by
  intro c at_ buf within
  have octets := buf.length.toNat_lt
  have turns := loop_ends overwrite dict advances within
    (show buf.length.toNat - at_.octets < fuel by omega)
  rw [reverse]
  cases run : loop overwrite_DictType d fuel c at_ buf with
  | error h =>
      rw [run] at turns
      exact turns
  | ok r =>
      rw [run] at turns
      simp only
      change Within n _
      cases keepType_ <;> exact turns

end MmReference_More0

end

theorem Overwrite.none_ends : Overwrite.none_.Ends n := fun _ _ _ within => within

/-! ## The options -/

namespace McOption

theorem overwrite_ends (type_ : String) : (overwrite_DictType type_).Ends n := by
  intro c at_ buf within
  have object := MmUint.member_ends (n := n) octet type_ none c at_.copy buf within
  rw [overwrite_DictType]
  simp only
  split
  · exact within
  · change Pz.Ends _ (octet.reverse type_ none c at_.copy buf) at object
    cases decoded : octet.reverse type_ none c at_.copy buf with
    | error h =>
        rw [decoded] at object
        exact object
    | ok r =>
        rw [decoded] at object
        simp only
        split <;> exact object

theorem onList_ends (type_ : String) : (overwrite_DictType_onList type_).Ends n := by
  intro c at_ buf within
  rw [overwrite_DictType_onList]
  split
  · exact within
  · exact overwrite_ends type_ c at_ buf within

/-- An option comes back if its own members do. -/
theorem leads {mc : McObject} {first second : String} {members : List Member}
    (common : mc.members_ = [octet.member first, octet.member second] ++ members)
    (ends : ∀ mem ∈ members, mem.Ends n) : Leads (Within n) mc.reverse (Within n) := by
  apply McObject.leads_of_ends
  rw [common]
  simpa using ends

theorem fixed_leads (string first : String) :
    Leads (Within n) (fixed string [octet.member first]).reverse (Within n) :=
  McObject.leads_of_ends (by simp [fixed])

theorem endofOptionList_leads (string type_ : String) :
    Leads (Within n) (endofOptionList string type_) (Within n) := by
  intro c at_ buf within
  have object := fixed_leads (n := n) string type_ c at_ buf within
  rw [endofOptionList]
  cases decoded : (fixed string [octet.member type_]).reverse c at_ buf with
  | error h =>
      rw [decoded] at object
      exact object
  | ok r =>
      rw [decoded] at object
      exact object

end McOption

theorem MmOption_onExt.dict_ends : dict_.Ends n where
  list_ := by
    simp only [dict_, List.forall_mem_cons]
    exact ⟨McOption.fixed_leads _ _, McOption.leads rfl (by simp), McOption.leads rfl (by simp),
      McOption.leads rfl (by simp), McOption.leads rfl (by simp), McOption.leads rfl (by simp),
      fun _ mem => by cases mem⟩
  other_ := by
    rintro mc ⟨⟩
    exact McOption.leads rfl (by simp)

/-- The payload of a redirected packet. -/
@[simp] theorem MmPayload.member_ends : member.Ends n := by
  have overwrite : Overwrite.Ends n fun c _ _ => .ok (true, c.setDictType .other) :=
    fun _ _ _ within => within
  have dict : TypevsMcDict.Ends n ⟨[], some McPayload.compound.reverse⟩ :=
    { list_ := fun _ mem => by cases mem
      other_ := by
        rintro mc ⟨⟩
        exact McObject.leads_of_ends (by simp [McPayload.compound]) }
  exact MmReference_Must1.leads true overwrite dict

theorem MmOption_onICMPv6.dict_ends : dict_.Ends n where
  list_ := by
    simp only [dict_, List.forall_mem_cons]
    exact ⟨McOption.leads rfl (by simp), McOption.leads rfl (by simp),
      McOption.leads rfl (by simp), McOption.leads rfl (by simp), McOption.leads rfl (by simp),
      McOption.leads rfl (by simp), McOption.leads rfl (by simp), McOption.leads rfl (by simp),
      fun _ mem => by cases mem⟩
  other_ := by
    rintro mc ⟨⟩
    exact McOption.leads rfl (by simp)

theorem MmOption_onIPv4.dict_ends : dict_.Ends n where
  list_ := by
    simp only [dict_, List.forall_mem_cons]
    exact ⟨McOption.endofOptionList_leads _ _, McOption.fixed_leads _ _, McOption.leads rfl (by simp),
      McOption.leads rfl (by simp), McOption.leads rfl (by simp), McOption.leads rfl (by simp),
      McOption.leads rfl (by simp), fun _ mem => by cases mem⟩
  other_ := by
    rintro mc ⟨⟩
    exact McOption.leads rfl (by simp)

theorem MmOption_onTCP.dict_ends : dict_.Ends n where
  list_ := by
    simp only [dict_, List.forall_mem_cons]
    exact ⟨McOption.endofOptionList_leads _ _, McOption.fixed_leads _ _,
      McOption.leads rfl (by simp), fun _ mem => by cases mem⟩
  other_ := by
    rintro mc ⟨⟩
    exact McOption.leads rfl (by simp)

theorem MmOption_onMH.dict_ends : dict_.Ends n where
  list_ := by
    simp only [dict_, List.forall_mem_cons]
    exact ⟨McOption.fixed_leads _ _, McOption.leads rfl (by simp), McOption.leads rfl (by simp),
      McOption.leads rfl (by simp), McOption.leads rfl (by simp), McOption.leads rfl (by simp),
      McOption.leads rfl (by simp), fun _ mem => by cases mem⟩
  other_ := by
    rintro mc ⟨⟩
    exact McOption.leads rfl (by simp)

end Tahi.Pz
