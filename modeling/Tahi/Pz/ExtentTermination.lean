import Tahi.Pz.OptionTermination

/-! # Termination of the loop over extension headers

An ESP header takes a security association from the list, if there is one, and only with
an association is there a plain text with extension headers of its own. So no more ESP
headers than there are associations hold one another.
-/

namespace Tahi.Pz

variable {n : Nat}

/-! ## Headers with options -/

section

variable {fuel : Nat} (enough : 2 ^ 32 ≤ fuel)
include enough

theorem MmOption_onExt.leads : Leads (Within n) (reverse fuel) (Within n) :=
  MmReference_More0.leads true (McOption.overwrite_ends _) dict_ends dict_advances enough

theorem MmOption_onICMPv6.leads : Leads (Within n) (reverse fuel) (Within n) :=
  MmReference_More0.leads true (McOption.overwrite_ends _) dict_ends dict_advances enough

theorem MmOption_onIPv4.leads : Leads (Within n) (reverse fuel) (Within n) :=
  MmReference_More0.leads true (McOption.onList_ends _) dict_ends dict_advances enough

theorem MmOption_onTCP.leads : Leads (Within n) (reverse fuel) (Within n) :=
  MmReference_More0.leads true (McOption.onList_ends _) dict_ends dict_advances enough

theorem MmOption_onMH.member_ends : (member fuel).Ends n :=
  MmReference_More0.leads true (McOption.overwrite_ends _) dict_ends dict_advances enough

theorem McHdr_Ext_HopByHop.leads : Leads (Within n) (reverse fuel) (Within n) :=
  McHeader.leads (McOption.leads rfl fun _ mem => by
    cases List.mem_singleton.mp mem
    exact MmOption_onExt.leads enough)

theorem McHdr_Ext_Destination.leads : Leads (Within n) (reverse fuel) (Within n) :=
  McHeader.leads (McOption.leads rfl fun _ mem => by
    cases List.mem_singleton.mp mem
    exact MmOption_onExt.leads enough)

end

theorem McHdr_Ext_Routing.leads : Leads (Within n) reverse (Within n) :=
  McHeader.leads (McOption.leads rfl (by simp))

theorem McHdr_Ext_Fragment.leads : Leads (Within n) reverse (Within n) := by
  have header : Leads (Within n) (McHeader.reverse (some "NextHeader") compound) (Within n) :=
    McHeader.leads (McObject.leads_of_ends (by simp [compound, McOption.fixed]))
  intro c at_ buf within
  have object := header c at_ buf within
  rw [reverse]
  cases decoded : McHeader.reverse (some "NextHeader") compound c at_ buf with
  | error h =>
      rw [decoded] at object
      exact object
  | ok r =>
      rw [decoded] at object
      exact object

/-! ## Mobility headers -/

namespace McHdr_Ext_MH

theorem header_leads {string : String} {members : List Member}
    (ends : ∀ mem ∈ members, mem.Ends n) : Leads (Within n) (header string members) (Within n) := by
  have all : ∀ mem ∈ common_member ++ members, mem.Ends n := by
    simpa [common_member] using ends
  exact McHeader.leads (McObject.leads_of_ends all)

theorem ANY_leads : Leads (Within n) ANY (Within n) := header_leads (by simp)

theorem overwrite_ends : overwrite_DictType.Ends n := by
  intro c at_ buf within
  have object := ANY_leads c at_.copy buf within
  rw [overwrite_DictType]
  simp only
  split
  · exact within
  · cases decoded : ANY c at_.copy buf with
    | error h =>
        rw [decoded] at object
        exact object
    | ok r =>
        rw [decoded] at object
        simp only
        split
        · exact object
        · split <;> exact object

end McHdr_Ext_MH

section

variable {fuel : Nat} (enough : 2 ^ 32 ≤ fuel)
include enough

theorem MmHeader_onMH.dict_ends : (dict_ fuel).Ends n where
  list_ := by
    have options := MmOption_onMH.member_ends (n := n) enough
    simp only [dict_, List.forall_mem_cons]
    exact ⟨McHdr_Ext_MH.header_leads (by simp [options]),
      McHdr_Ext_MH.header_leads (by simp [options]), McHdr_Ext_MH.header_leads (by simp [options]),
      McHdr_Ext_MH.header_leads (by simp [options]), McHdr_Ext_MH.header_leads (by simp [options]),
      McHdr_Ext_MH.header_leads (by simp [options]), McHdr_Ext_MH.header_leads (by simp [options]),
      McHdr_Ext_MH.header_leads (by simp [options]), fun _ mem => by cases mem⟩
  other_ := by
    rintro mc ⟨⟩
    exact McHdr_Ext_MH.ANY_leads

theorem McHdr_Ext_MH_ONE.leads : Leads (Within n) (reverse fuel) (Within n) :=
  MmReference_Must1.leads false McHdr_Ext_MH.overwrite_ends (MmHeader_onMH.dict_ends enough)

end

/-! ## Security associations -/

@[simp] theorem MmSPI.ends (m : MmUint) (string : String) :
    (Member.mk id (reverse m string)).Ends n := by
  intro c at_ buf within
  have number := m.member_ends (n := n) string none c at_ buf within
  change Ends _ (m.reverse string none c at_ buf) at number
  change Ends _ (reverse m string c at_ buf)
  rw [reverse]
  cases decoded : m.reverse string none c at_ buf with
  | error h =>
      rw [decoded] at number
      exact number
  | ok r =>
      rw [decoded] at number
      simp only
      split <;> exact number

/-- An association that is found is taken from the list. -/
theorem MmAlgorithm_onESP.leads : Leads (Within n) reverse (Taken n) := by
  intro c at_ buf within
  have taken : Taken n c.set_pop_SA := by
    unfold Within at within
    cases sas : c.algorithms with
    | nil => simp [RControl.set_pop_SA, RControl.pop_SA, Taken, RControl.setWarning, sas]
    | cons sa rest =>
        rw [sas, List.length_cons] at within
        simp [RControl.set_pop_SA, RControl.pop_SA, Taken, sas]
        omega
  rw [reverse]
  cases sa : c.set_pop_SA.poping_SA with
  | none => exact taken
  | some _ => exact taken

theorem MmAlgorithm_onESP.ends : (Member.mk id reverse).Ends n := by
  intro c at_ buf within
  have taken := leads c at_ buf within
  change Ends _ (reverse c at_ buf)
  cases decoded : reverse c at_ buf with
  | error h =>
      rw [decoded] at taken
      exact taken
  | ok r =>
      rw [decoded] at taken
      exact taken.1

theorem McHdr_Ext_AH.leads (V : Bool) (provisional_AH_alignment_v4_v6_ : UInt32) :
    Leads (Within n) (reverse V provisional_AH_alignment_v4_v6_) (Within n) := by
  have icv : Leads (Within n) (MmAH_ICV.reverse V) (Within n) := MmElement.leaf_leads "ICV"
  have icv_ends : (Member.mk id (MmAH_ICV.reverse V)).Ends n := icv
  have algorithm_ends := MmAlgorithm_onESP.ends (n := n)
  have header : Leads (Within n) (McHeader.reverse (some "NextHeader")
      (compound V provisional_AH_alignment_v4_v6_)) (Within n) :=
    McHeader.leads (McObject.leads_of_ends (by simp [compound, icv_ends, algorithm_ends]))
  intro c at_ buf within
  have object := header { c with poping_SA := none } at_ buf within
  rw [reverse]
  simp only
  cases decoded : McHeader.reverse (some "NextHeader") (compound V provisional_AH_alignment_v4_v6_)
      { c with poping_SA := none } at_ buf with
  | error h =>
      rw [decoded] at object
      exact object
  | ok r =>
      rw [decoded] at object
      exact object

namespace MmESP_ICV

variable {ICV_Calculate : PaObject → PvOctets → Option PvOctets}

theorem post_reverse_within {c : RControl} (within : Within n c) (espbuf : PvOctets)
    (r_self : Decoded) : Within n (post_reverse ICV_Calculate c espbuf r_self) := by
  unfold post_reverse
  simp only
  split
  · split <;> exact within
  · exact within

theorem leads (ICV_Calculate : PaObject → PvOctets → Option PvOctets) :
    Leads (Within n) (reverse ICV_Calculate) (Within n) := by
  intro c at_ buf within
  have value : Leads (Within n) (MmElement.reverseWith length_for_reverse MmVarOctets.reversePv
    (MmElement.leaf "ICV") none) (Within n) := MmElement.leaf_leads "ICV"
  have object := value c at_ buf within
  rw [reverse]
  cases decoded : MmElement.reverseWith length_for_reverse MmVarOctets.reversePv
      (MmElement.leaf "ICV") none c at_ buf with
  | error h =>
      rw [decoded] at object
      exact object
  | ok r =>
      rw [decoded] at object
      simp only
      split
      · exact object
      · split
        · exact object
        · exact post_reverse_within object buf _

end MmESP_ICV

/-! ## Plain texts -/

section

variable {payload : List Member} (below : ∀ m < n, ∀ mem ∈ payload, mem.Ends m)

theorem McESP_Decrypted.Self_reverse_ends {m : Nat} (ends : ∀ mem ∈ payload, mem.Ends m)
    {c : RControl} (within : Within m c) (selfdecrypted : PvOctets) :
    Ends (fun x => Within m x.1) (Self_reverse payload c selfdecrypted) := by
  have inner : Leads (Within m) (McESP_Payload.compound payload).reverse (Within m) :=
    McObject.leads_of_ends ends
  have inner_ends : (Member.mk id (McESP_Payload.compound payload).reverse).Ends m := inner
  have padding : Leads (Within m) MmESP_Padding.reverse (Within m) := MmElement.leaf_leads "Padding"
  have padding_ends : (Member.mk id MmESP_Padding.reverse).Ends m := padding
  have lead : LeadAll (Within m) (members_ payload) (Within m) :=
    LeadAll.of_ends (by simp [members_, inner_ends, padding_ends])
  rw [Self_reverse]
  cases trailer selfdecrypted with
  | error h => exact within
  | ok t =>
      have start : Within m { c with
          DictType := .effect t.nexttype.toInt32, ESPinfo := ⟨t.padlen, t.paylen⟩ } := within
      have object := McObject.members_reverse_ends lead start ⟨0, 0⟩ selfdecrypted
      simp only
      cases decoded : McObject.members_reverse McNeedless.reverse (members_ payload)
          { c with DictType := .effect t.nexttype.toInt32, ESPinfo := ⟨t.padlen, t.paylen⟩ }
          ⟨0, 0⟩ selfdecrypted with
      | error h =>
          rw [decoded] at object
          exact object
      | ok x =>
          rw [decoded] at object
          exact object

include below

theorem MmESP_Crypted.leads : Leads (Taken n) (reverse payload) (Within n) := by
  refine MmElement.leads (fun c at_ size pv taken => ?_) fun c taken => taken.1
  unfold reverseRm
  simp only
  split
  · rename_i sa cryptedbuf found
    split
    · exact taken.1
    · split
      · exact taken.1
      · rename_i decryptedbuf ivecbuf _
        have fewer : c.algorithms.length < n := taken.2 (by rw [found]; rfl)
        have plain := McESP_Decrypted.Self_reverse_ends (below _ fewer) le_rfl
          (c := c) decryptedbuf
        cases decoded : McESP_Decrypted.Self_reverse payload c decryptedbuf with
        | error h =>
            rw [decoded] at plain
            exact plain
        | ok x =>
            rw [decoded] at plain
            exact Nat.le_trans plain fewer.le
  · exact taken.1

theorem McHdr_Ext_ESP.leads (ICV_Calculate : PaObject → PvOctets → Option PvOctets) :
    Leads (Within n) (reverse payload ICV_Calculate) (Within n) := by
  have icv : Leads (Within n) (MmESP_ICV.reverse ICV_Calculate) (Within n) := MmESP_ICV.leads _
  have crypted := MmESP_Crypted.leads below
  have rest : LeadAll (Taken n) [{ reverse := MmESP_Crypted.reverse payload },
      { reverse := MmESP_ICV.reverse ICV_Calculate }] (Within n) :=
    LeadAll.cons crypted (LeadAll.cons icv LeadAll.nil fun _ within => within) fun _ within => within
  have members : LeadAll (Within n) (compound payload ICV_Calculate).members_ (Within n) :=
    LeadAll.cons (MmSPI.ends SPI_ "SPI")
      (LeadAll.cons (SequenceNumber_.member_ends "SequenceNumber" none)
        (LeadAll.cons MmAlgorithm_onESP.leads rest fun _ taken => taken.1) fun _ within => within)
      fun _ within => within
  have header : Leads (Within n) (McHeader.reverse none (compound payload ICV_Calculate))
      (Within n) :=
    McHeader.leads (McObject.leads members (fun _ within => within) fun _ within => within)
  intro c at_ buf within
  have object := header { c with poping_SA := none, ESPinfo := {} } at_ buf within
  rw [reverse]
  simp only
  cases decoded : McHeader.reverse none (compound payload ICV_Calculate)
      { c with poping_SA := none, ESPinfo := {} } at_ buf with
  | error h =>
      rw [decoded] at object
      exact object
  | ok r =>
      rw [decoded] at object
      exact object

end

namespace MmExtent_onIP

variable {k : ExtentContext} {fuel : Nat}

theorem dict_ends (enough : 2 ^ 32 ≤ fuel) {payload : List Member}
    (below : ∀ m < n, ∀ mem ∈ payload, mem.Ends m) : (dict_ k payload fuel).Ends n where
  list_ := by
    simp only [dict_, List.forall_mem_cons]
    exact ⟨McHdr_Ext_HopByHop.leads enough, McHdr_Ext_Destination.leads enough,
      McHdr_Ext_Routing.leads, McHdr_Ext_Fragment.leads, McHdr_Ext_AH.leads _ _,
      McHdr_Ext_ESP.leads below _, McHdr_Ext_MH_ONE.leads enough, fun _ mem => by cases mem⟩
  other_ := by
    rintro mc ⟨⟩

/-- With more levels than security associations the sequence is never given up. -/
theorem leads (enough : 2 ^ 32 ≤ fuel) {depth : Nat} (upper : ∀ m < n, k.upper.Ends m)
    (deep : n < depth) : Leads (Within n) (reverse k fuel depth) (Within n) := by
  induction depth generalizing n with
  | zero => omega
  | succ depth ih =>
      have below : ∀ m < n, ∀ mem ∈ payload k fuel depth, mem.Ends m := by
        intro m less mem mem_payload
        simp only [payload, List.mem_cons, List.not_mem_nil, or_false] at mem_payload
        rcases mem_payload with rfl | rfl
        · exact ih (fun m' less' => upper m' (by omega)) (by omega)
        · exact upper m less
      exact MmReference_More0.leads false Overwrite.none_ends (dict_ends enough below)
        (dict_advances k _ fuel) enough

end MmExtent_onIP

/-! ## The sequences -/

/-- The classes of `MmReference_More0` for options and extension headers. A sequence of
    headers is followed into `depth` plain texts. -/
inductive Sequence where
  | onIP (k : ExtentContext) (depth : Nat)
  | onExt
  | onICMPv6
  | onIPv4
  | onTCP
  | onMH

namespace Sequence

open MmReference_More0

def reverse (fuel : Nat) : Sequence → Reverse
  | onIP k depth => MmExtent_onIP.reverse k fuel (depth + 1)
  | onExt => MmOption_onExt.reverse fuel
  | onICMPv6 => MmOption_onICMPv6.reverse fuel
  | onIPv4 => MmOption_onIPv4.reverse fuel
  | onTCP => MmOption_onTCP.reverse fuel
  | onMH => (MmOption_onMH.member fuel).reverse

def overwrite_DictType : Sequence → Overwrite
  | onIP _ _ => .none_
  | onExt => MmOption_onExt.overwrite_DictType
  | onICMPv6 => MmOption_onICMPv6.overwrite_DictType
  | onIPv4 => MmOption_onIPv4.overwrite_DictType
  | onTCP => MmOption_onTCP.overwrite_DictType
  | onMH => MmOption_onMH.overwrite_DictType

def dict_ (fuel : Nat) : Sequence → TypevsMcDict
  | onIP k depth => MmExtent_onIP.dict_ k (MmExtent_onIP.payload k fuel depth) fuel
  | onExt => MmOption_onExt.dict_
  | onICMPv6 => MmOption_onICMPv6.dict_
  | onIPv4 => MmOption_onIPv4.dict_
  | onTCP => MmOption_onTCP.dict_
  | onMH => MmOption_onMH.dict_

/-- Only the options keep the type of what comes next. -/
def keepType_ : Sequence → Bool
  | onIP _ _ => false
  | _ => true

theorem reverse_eq (fuel : Nat) (s : Sequence) : s.reverse fuel =
    MmReference_More0.reverse s.keepType_ s.overwrite_DictType (s.dict_ fuel) fuel := by
  cases s <;> rfl

/-- The plain texts do not lie deeper than the sequence is followed, and what they hold
    behind their own headers comes back. Without associations there are none. -/
def Bounded : Sequence → RControl → Prop
  | onIP k depth, c => c.algorithms.length ≤ depth ∧ ∀ n < c.algorithms.length, k.upper.Ends n
  | _, _ => True

theorem dict_advances (fuel : Nat) (s : Sequence) : (s.dict_ fuel).Advances := by
  cases s with
  | onIP k depth => exact MmExtent_onIP.dict_advances k _ fuel
  | onExt => exact MmOption_onExt.dict_advances
  | onICMPv6 => exact MmOption_onICMPv6.dict_advances
  | onIPv4 => exact MmOption_onIPv4.dict_advances
  | onTCP => exact MmOption_onTCP.dict_advances
  | onMH => exact MmOption_onMH.dict_advances

theorem leads {fuel : Nat} (enough : 2 ^ 32 ≤ fuel) {s : Sequence} {c : RControl}
    (bounded : s.Bounded c) :
    Leads (Within c.algorithms.length) (s.reverse fuel) (Within c.algorithms.length) := by
  cases s with
  | onIP k depth => exact MmExtent_onIP.leads enough bounded.2 (Nat.lt_succ_of_le bounded.1)
  | onExt => exact MmOption_onExt.leads enough
  | onICMPv6 => exact MmOption_onICMPv6.leads enough
  | onIPv4 => exact MmOption_onIPv4.leads enough
  | onTCP => exact MmOption_onTCP.leads enough
  | onMH => exact MmOption_onMH.member_ends enough

/-- A turn that returns an object has set the error or has moved forward. So the loop by
    itself is over after one turn more than there are octets left, whatever the octets say,
    and a call comes back. -/
theorem reverse_terminates (s : Sequence) (fuel : Nat) (buf : PvOctets) :
    (∀ c at_ r, turn s.overwrite_DictType (s.dict_ fuel) c at_ buf = .ok r → r.rc.isSome →
      r.c.error = true ∨ at_.octets + 1 ≤ r.at_.octets ∧ r.at_.octets ≤ buf.length.toNat) ∧
    (∀ c at_ turns, buf.length.toNat - at_.octets < turns →
      loop s.overwrite_DictType (s.dict_ fuel) turns c at_ buf = .error .unfinished →
        ∃ c' at', turn s.overwrite_DictType (s.dict_ fuel) c' at' buf = .error .unfinished) ∧
    (2 ^ 32 ≤ fuel → ∀ c at_, s.Bounded c → s.reverse fuel c at_ buf ≠ .error .unfinished) := by
  refine ⟨fun c at_ r run some_ => ?_, fun c at_ turns left_ run => ?_,
    fun enough c at_ bounded => ?_⟩
  · cases error : r.c.error with
    | true => exact .inl rfl
    | false => exact .inr (turn_advances (s.dict_advances fuel) run some_ error)
  · exact turn_of_loop_unfinished (s.dict_advances fuel) left_ run
  · have object := leads enough bounded c at_ buf le_rfl
    intro unfinished
    rw [unfinished] at object
    exact object rfl

/-- An option of length zero ends the sequence, with an error. -/
example : (onICMPv6.reverse 2 {} ⟨0, 0⟩ ⟨8, fun _ => 0⟩).map (fun r => r.c.error) = .ok true := by
  decide +kernel

end Sequence

end Tahi.Pz
