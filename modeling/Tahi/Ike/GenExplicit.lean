import Tahi.Ike.KGen

/-! # The numbers that a definition sets

A test can set any number in the header of a payload, to build messages that are malformed. Each
encoding function chooses between such a number and the one it computes, and some of them add the
size of the data to the one that was chosen.
-/

namespace Tahi.Ike

open Perl

/-- A number that is set is in the octets, as far as it fits. -/
def Carries (octets : List UInt8) (pos size : ℕ) (key : Option ℕ) : Prop :=
  ∀ n ∈ key, pos + size ≤ octets.length ∧ field octets pos size = n % 256 ^ size

/-- The number that a type of a payload stands for. -/
def PayloadType.value : Constant PayloadType → ℕ
  | .num n => n
  | .name x => (payloadTypes.numbers x).getD 0

namespace Def

/-! ## Numbers that are emitted as they are set -/

/-- The four octets that all payloads start with. A bit is critical, the others of its octet are
    reserved. -/
structure Generic.Explicit (generic : Generic) (octets : List UInt8) : Prop where
  nexttype : Carries octets 0 1 (generic.nexttype.map PayloadType.value)
  critical : ∀ n ∈ generic.critical, 2 ≤ octets.length ∧ field octets 1 1 / 128 = n % 2
  reserved : ∀ n ∈ generic.reserved, 2 ≤ octets.length ∧ field octets 1 1 % 128 = n % 128
  length : Carries octets 2 2 generic.length

def SAAttribute.Explicit (self : SAAttribute) (octets : List UInt8) : Prop :=
  match self with
  | .tv _ _ => True
  | .tlv _ length _ => Carries octets 2 2 length

structure SATransform.Explicit (transform : SATransform) (octets : List UInt8) : Prop where
  nexttype : Carries octets 0 1 transform.nexttype
  reserved1 : Carries octets 1 1 transform.reserved1
  transformLen : Carries octets 2 2 transform.transformLen
  reserved2 : Carries octets 5 1 transform.reserved2
  attributes : ∀ x ∈ transform.attributes.getD [], x.Explicit (kEncAttributeSubstructure x)

structure SAProposal.Explicit (proposal : SAProposal) (octets : List UInt8) : Prop where
  nexttype : Carries octets 0 1 proposal.nexttype
  reserved : Carries octets 1 1 proposal.reserved
  proposalLen : Carries octets 2 2 proposal.proposalLen
  number : Carries octets 4 1 proposal.number
  spiSize : Carries octets 6 1 proposal.spiSize
  transformCount : Carries octets 7 1 proposal.transformCount
  transforms : ∀ before transform after,
    proposal.transforms.getD [] = before ++ transform :: after →
      transform.Explicit (kEncTransformSubstructure transform (if after.isEmpty then 0 else 3))

structure TSSelector.Explicit (selector : TSSelector) (octets : List UInt8) : Prop where
  protocol : Carries octets 1 1 selector.protocol
  selectorLen : Carries octets 2 2 selector.selectorLen
  sport : Carries octets 4 2 selector.sport
  eport : Carries octets 6 2 selector.eport

/-- A bit is reserved. -/
def ConfigurationAttribute.Explicit (self : ConfigurationAttribute) (octets : List UInt8) : Prop :=
  ∀ n ∈ self.reserved, 2 ≤ octets.length ∧ field octets 0 2 / 32768 = n % 2

section

variable (getaddrinfo : List UInt8 → List SockAddr)

def Payload.Explicit (self : Payload) (octets : List UInt8) : Prop :=
  match self with
  | .SA self => self.toGeneric.Explicit octets ∧ ∀ before proposal after,
      self.proposals.getD [] = before ++ proposal :: after →
        proposal.Explicit (kEncProposalSubstructure proposal (if after.isEmpty then 0 else 2)
          (before.length + 1))
  | .KE self => self.toGeneric.Explicit octets ∧ Carries octets 6 2 self.reserved1
  | .IDi self | .IDr self => self.toGeneric.Explicit octets ∧ Carries octets 5 3 self.reserved1
  | .CERT self => self.toGeneric.Explicit octets
  | .CERTREQ self => self.toGeneric.Explicit octets
  | .AUTH self => self.toGeneric.Explicit octets ∧ Carries octets 5 3 self.reserved1
  | .NiNr self => self.toGeneric.Explicit octets
  | .N self => self.toGeneric.Explicit octets ∧ Carries octets 5 1 self.spiSize
  | .D self => self.toGeneric.Explicit octets ∧ Carries octets 5 1 self.spiSize ∧
      Carries octets 6 2 self.spiCount
  | .TSi self | .TSr self => self.toGeneric.Explicit octets ∧ Carries octets 4 1 self.count ∧
      Carries octets 5 3 self.reserved1 ∧
      ∀ selector ∈ self.selectors.getD [],
        selector.Explicit (kEncTrafficSelector getaddrinfo selector)
  | .CP self => self.toGeneric.Explicit octets ∧ Carries octets 5 3 self.reserved1 ∧
      ∀ x ∈ self.attributes.getD [], x.Explicit (kEncConfigurationAttribute x)
  | .UNDEFINED self => self.toGeneric.Explicit octets
  | .E self => self.toGeneric.Explicit octets
  | .V | .EAP => True

/-- The octets of a payload. Those of an encrypted one are not in the table. -/
def Payload.emitted (material : EncryptionMaterial) (is_initiator : Bool) (random : Random)
    (plaintext : Str) (next : ℕ) : Payload → List UInt8
  | .E self => kEncEncryptedPayload self next material is_initiator random plaintext
  | payload => ((encodingFunctions getaddrinfo next payload).getD none).octets

end

/-! ## When they are -/

/-- A type is emitted as 0 if it is the number of a type that has a name, an octet is critical if a
    reserved bit is, and to a length the size of the data is added. -/
structure Generic.Kept (generic : Generic) (size : ℕ) : Prop where
  nexttype : ∀ n, generic.nexttype = some (.num n) → payloadTypes.names n = none
  critical : ∀ n ∈ generic.critical, n % 2 = 1 ∨ generic.reserved.getD 0 % 256 < 128
  length : generic.length ≠ none → 65536 ∣ size

/-- The other key that is read has no number. -/
def SATransform.Kept (self : SATransform) : Prop := ∀ n ∈ self.transformLen, 65536 ∣ n

def TSSelector.Kept (self : TSSelector) : Prop :=
  let type := packed kTrafficSelectorType self.type
  let size (addr : Option (List UInt8)) : ℕ :=
    let addr : Str := addr.map fun addr => unhex (addr.map hexDigit)
    if addr.truth then addr.len else 0
  self.selectorLen ≠ none → type ≠ 7 → type ≠ 8 → 65536 ∣ size self.saddr + size self.eaddr

/-- The type has fifteen bits. -/
def ConfigurationAttribute.Kept (self : ConfigurationAttribute) : Prop :=
  ∀ n ∈ self.reserved, n % 2 = 1 ∨ packed kConfAttributeType self.attr_type % 65536 < 32768

def Payload.Kept : Payload → Prop
  | .SA self => self.toGeneric.Kept 0 ∧ ∀ proposal ∈ self.proposals.getD [],
      ∀ transform ∈ proposal.transforms.getD [], transform.Kept
  | .KE self => self.toGeneric.Kept ((self.publicKey.getD []).length / 2)
  | .IDi self | .IDr self =>
      let type := packed kIdentificationType self.type
      self.toGeneric.Kept (if type = 1 ∨ type = 5 then 0 else (self.value.getD []).length)
  | .CERT self => self.toGeneric.Kept (unhex (self.cert_data.getD [])).length
  | .CERTREQ self => self.toGeneric.Kept (self.cert_authority.getD []).length
  | .AUTH self => self.toGeneric.Kept (self.data.getD []).length
  | .NiNr self => self.toGeneric.Kept ((self.nonce.getD []).length / 2)
  | .N self =>
      self.toGeneric.Kept ((unhex (self.spi.getD [])).length + (unhex (self.data.getD [])).length)
  | .D self => self.toGeneric.Kept (Str.len (self.spis.bind SPIs.pack))
  | .TSi self | .TSr self => self.toGeneric.Kept 0 ∧
      ∀ selector ∈ self.selectors.getD [], selector.Kept
  | .CP self =>
      match self.attributes with
      -- Nothing is emitted.
      | none => self.toGeneric = {} ∧ self.reserved1 = none
      | some attributes => self.toGeneric.Kept 0 ∧ ∀ x ∈ attributes, x.Kept
  | .UNDEFINED self => self.toGeneric.Kept 0
  | .E self => self.toGeneric.Kept 0
  | .V | .EAP => True

end Def

/-! ## The octets of a header -/

theorem carries_pack (before : List (ℕ × ℕ)) (size : ℕ) (key : Option ℕ) (default : ℕ)
    (behind : List (ℕ × ℕ)) (rest : List UInt8) :
    Carries (pack (before ++ (size, key.getD default) :: behind) ++ rest)
      (before.map Prod.fst).sum size key := by
  rintro n rfl
  refine ⟨?_, field_pack before size n behind rest⟩
  simp only [List.length_append, length_pack, List.map_append, List.map_cons, List.sum_append,
    List.sum_cons]
  omega

theorem ofNat_congr {m n : ℕ} (same : m % 256 = n % 256) : UInt8.ofNat m = UInt8.ofNat n := by
  apply UInt8.toNat_inj.mp
  rw [UInt8.toNat_ofNat', UInt8.toNat_ofNat']
  exact same

/-- Three octets are packed as one and two. -/
theorem packInt_three (n : ℕ) :
    packInt 1 (n >>> 16 &&& 0xffff) ++ packInt 2 (n &&& 0xffff) = packInt 3 n := by
  have low : n &&& 0xffff = n % 65536 := Nat.and_two_pow_sub_one_eq_mod n 16
  have high : n >>> 16 &&& 0xffff = n / 65536 % 65536 := by
    rw [Nat.shiftRight_eq_div_pow]
    exact Nat.and_two_pow_sub_one_eq_mod _ 16
  rw [low, high]
  simp only [packInt, List.nil_append, List.cons_append]
  rw [ofNat_congr (m := n / 65536 % 65536) (n := n / 256 / 256) (by omega),
    ofNat_congr (m := n % 65536 / 256) (n := n / 256) (by omega),
    ofNat_congr (m := n % 65536) (n := n) (by omega)]

theorem carries_reserved1 (before : List (ℕ × ℕ)) (key : Option ℕ) (rest : List UInt8) :
    Carries (pack (before ++ [(1, key.getD 0 >>> 16 &&& 0xffff), (2, key.getD 0 &&& 0xffff)]) ++
      rest) (before.map Prod.fst).sum 3 key := by
  have same : pack (before ++ [(1, key.getD 0 >>> 16 &&& 0xffff), (2, key.getD 0 &&& 0xffff)]) =
      pack (before ++ [(3, key.getD 0)]) := by
    rw [pack_append, pack_append]
    simp only [pack_cons, pack_nil, List.append_nil, packInt_three]
  rw [same]
  exact carries_pack before 3 key 0 [] rest

section Bits

variable (w high low : ℕ)

/-- A bit above others has its own value if it is set, or none of the others comes up to it. -/
theorem top_bit_iff :
    (high <<< w ||| low) % 2 ^ (w + 1) / 2 ^ w = high % 2 ↔
      high % 2 = 1 ∨ low % 2 ^ (w + 1) < 2 ^ w := by
  have place : 0 < 2 ^ w := Nat.two_pow_pos w
  have bit : ∀ n, n % 2 ^ (w + 1) / 2 ^ w = n >>> w % 2 := by
    intro n
    rw [pow_succ, Nat.mod_mul_right_div_self, Nat.shiftRight_eq_div_pow]
  have joined : (high ||| low >>> w) % 2 = (high % 2 ||| low >>> w % 2) :=
    Nat.or_mod_two_pow (n := 1)
  have below : low % 2 ^ (w + 1) < 2 ^ w ↔ low >>> w % 2 = 0 := by
    rw [← bit low, Nat.div_eq_zero_iff_lt place]
  rw [bit, Nat.shiftRight_or_distrib, Nat.shiftLeft_shiftRight, joined, below]
  rcases Nat.mod_two_eq_zero_or_one high with h | h <;>
    rcases Nat.mod_two_eq_zero_or_one (low >>> w) with l | l <;> simp [h, l]

theorem low_bits : (high <<< w ||| low) % 2 ^ w = low % 2 ^ w := by
  rw [Nat.or_mod_two_pow, Nat.shiftLeft_eq, Nat.mul_mod_left, Nat.zero_or]

end Bits

theorem nexttype_iff (type : Constant PayloadType) :
    (kPayloadType type).packed % 256 = PayloadType.value type % 256 ↔
      ∀ n, type = .num n → payloadTypes.names n = none := by
  cases type with
  | name x => cases x <;> simp [PayloadType.value] <;> rfl
  | num n =>
      have found : ∀ x, payloadTypes.names n = some x → n % 256 ≠ 0 := by
        intro x found zero
        simp only [payloadTypes] at found
        split at found <;> first | omega | cases found
      simp only [Constant.num.injEq, forall_eq', kPayloadType, Table.get, PayloadType.value]
      cases named : payloadTypes.names n with
      | none => simp [Constant.packed]
      | some x => simp [Constant.packed, Ne.symm (found x named)]

/-- The four octets carry what is set where the condition holds. -/
theorem generic_iff (self : Def.Generic) (next default size : ℕ) (more : List (ℕ × ℕ))
    (rest : List UInt8) :
    self.Explicit (pack (self.fields next (self.length.getD default + size) ++ more) ++ rest) ↔
      self.Kept size := by
  have long : 4 ≤ (pack (self.fields next (self.length.getD default + size) ++ more) ++
      rest).length := by
    simp only [Def.Generic.fields, List.length_append, length_pack, List.map_append, List.sum_append,
      List.map_cons, List.sum_cons]
    omega
  have type : field (pack (self.fields next (self.length.getD default + size) ++ more) ++ rest) 0 1 =
      ((self.nexttype.map fun type => (kPayloadType type).packed).getD next) % 256 :=
    field_pack [] 1 _ (_ :: _ :: more) rest
  have bits : field (pack (self.fields next (self.length.getD default + size) ++ more) ++ rest) 1 1 =
      (self.critical.getD 0 <<< 7 ||| self.reserved.getD 0) % 256 :=
    field_pack [(1, _)] 1 _ (_ :: more) rest
  have length : field (pack (self.fields next (self.length.getD default + size) ++ more) ++ rest) 2 2 =
      (self.length.getD default + size) % 65536 :=
    field_pack [(1, _), (1, _)] 2 _ more rest
  generalize pack (self.fields next (self.length.getD default + size) ++ more) ++ rest = octets at *
  constructor
  · rintro ⟨nexttype, critical, -, said⟩
    refine ⟨?_, ?_, ?_⟩
    · intro n set_
      have carried := (nexttype _ (by rw [set_]; rfl)).2
      rw [type, set_] at carried
      exact (nexttype_iff (.num n)).mp carried n rfl
    · intro n set_
      have carried := (critical n set_).2
      rw [bits, Option.mem_def.mp set_] at carried
      exact (top_bit_iff 7 n _).mp carried
    · intro set_
      obtain ⟨n, set_⟩ := Option.ne_none_iff_exists'.mp set_
      have carried := (said n set_).2
      rw [length, set_, Option.getD_some] at carried
      omega
  · rintro ⟨nexttype, critical, said⟩
    refine ⟨?_, ?_, ?_, ?_⟩
    · intro n set_
      obtain ⟨x, given, rfl⟩ := Option.map_eq_some_iff.mp set_
      refine ⟨by omega, ?_⟩
      rw [type, given]
      refine (nexttype_iff x).mpr fun n same => nexttype n ?_
      rw [given, same]
    · intro n set_
      refine ⟨by omega, ?_⟩
      rw [bits, Option.mem_def.mp set_]
      exact (top_bit_iff 7 n _).mpr (critical n set_)
    · intro n set_
      refine ⟨by omega, ?_⟩
      rw [bits, Option.mem_def.mp set_, Nat.mod_mod_of_dvd _ (by decide)]
      exact low_bits 7 _ n
    · intro n set_
      refine ⟨by omega, ?_⟩
      have size := said (by rw [Option.mem_def.mp set_]; exact Option.some_ne_none n)
      rw [length, Option.mem_def.mp set_, Option.getD_some]
      omega

/-! ## The encoding functions -/

theorem forall_split_iff {α : Type} {l : List α} {P : List α → α → List α → Prop} {Q : α → Prop}
    (each : ∀ before x after, P before x after ↔ Q x) :
    (∀ before x after, l = before ++ x :: after → P before x after) ↔ ∀ x ∈ l, Q x := by
  constructor
  · intro all x mem
    obtain ⟨before, after, split⟩ := List.append_of_mem mem
    exact (each before x after).mp (all before x after split)
  · intro all before x after split
    exact (each before x after).mpr (all x (by simp [split]))

theorem attribute_explicit (self : Def.SAAttribute) :
    self.Explicit (kEncAttributeSubstructure self) := by
  cases self with
  | tv => trivial
  | tlv type length value => exact carries_pack [(2, _)] 2 length 0 [] _

theorem transform_explicit (self : Def.SATransform) (next : ℕ) :
    self.Explicit (kEncTransformSubstructure self next) ↔ self.Kept := by
  -- a length that is set is not packed
  have said {n : ℕ} (set_ : n ∈ self.transformLen) :
      field (kEncTransformSubstructure self next) 2 2 = 0 := by
    unfold kEncTransformSubstructure
    rw [Option.mem_def.mp set_]
    exact field_pack [(1, _), (1, _)] 2 _ [(1, _), (1, _), (2, _)] _
  constructor
  · intro explicit n set_
    have carried := (explicit.transformLen n set_).2
    rw [said set_] at carried
    exact Nat.dvd_of_mod_eq_zero carried.symm
  · intro kept
    refine ⟨?_, ?_, ?_, ?_, fun x _ => attribute_explicit x⟩
    · exact carries_pack [] 1 self.nexttype next [(1, _), (2, _), (1, _), (1, _), (2, _)] _
    · exact carries_pack [(1, _)] 1 self.reserved1 0 [(2, _), (1, _), (1, _), (2, _)] _
    · intro n set_
      refine ⟨?_, ?_⟩
      · simp only [kEncTransformSubstructure, List.length_append, length_pack, List.map_cons,
          List.sum_cons]
        omega
      · rw [said set_]
        exact (Nat.mod_eq_zero_of_dvd (kept n set_)).symm
    · exact carries_pack [(1, _), (1, _), (2, _), (1, _)] 1 self.reserved2 0 [(2, _)] _

theorem proposal_explicit (self : Def.SAProposal) (next index : ℕ) :
    self.Explicit (kEncProposalSubstructure self next index) ↔
      ∀ transform ∈ self.transforms.getD [], transform.Kept := by
  have transforms := forall_split_iff (l := self.transforms.getD [])
    fun _ transform after => transform_explicit transform (if after.isEmpty then 0 else 3)
  constructor
  · intro explicit
    exact transforms.mp explicit.transforms
  · intro kept
    refine ⟨?_, ?_, ?_, ?_, ?_, ?_, transforms.mpr kept⟩ <;>
      rw [kEncProposalSubstructure, List.append_assoc]
    · exact carries_pack [] 1 self.nexttype next [(1, _), (2, _), (1, _), (1, _), (1, _), (1, _)] _
    · exact carries_pack [(1, _)] 1 self.reserved 0 [(2, _), (1, _), (1, _), (1, _), (1, _)] _
    · exact carries_pack [(1, _), (1, _)] 2 self.proposalLen _ [(1, _), (1, _), (1, _), (1, _)] _
    · exact carries_pack [(1, _), (1, _), (2, _)] 1 self.number index [(1, _), (1, _), (1, _)] _
    · exact carries_pack [(1, _), (1, _), (2, _), (1, _), (1, _)] 1 self.spiSize _ [(1, _)] _
    · exact carries_pack [(1, _), (1, _), (2, _), (1, _), (1, _), (1, _)] 1 self.transformCount _
        [] _

/-- The fields that all selectors start with. -/
theorem selector_iff (self : Def.TSSelector) (type default size : ℕ) (rest : List UInt8) :
    self.Explicit (pack [(1, type), (1, self.protocol.getD 0),
      (2, self.selectorLen.getD default + size), (2, self.sport.getD 0),
      (2, self.eport.getD 0)] ++ rest) ↔ (self.selectorLen ≠ none → 65536 ∣ size) := by
  have said : field (pack [(1, type), (1, self.protocol.getD 0),
      (2, self.selectorLen.getD default + size), (2, self.sport.getD 0),
      (2, self.eport.getD 0)] ++ rest) 2 2 = (self.selectorLen.getD default + size) % 65536 :=
    field_pack [(1, _), (1, _)] 2 _ [(2, _), (2, _)] rest
  constructor
  · intro explicit set_
    obtain ⟨n, set_⟩ := Option.ne_none_iff_exists'.mp set_
    have carried := (explicit.selectorLen n set_).2
    rw [said, set_, Option.getD_some] at carried
    omega
  · intro kept
    refine ⟨?_, ?_, ?_, ?_⟩
    · exact carries_pack [(1, _)] 1 self.protocol 0 [(2, _), (2, _), (2, _)] rest
    · intro n set_
      refine ⟨?_, ?_⟩
      · simp only [List.length_append, length_pack, List.map_cons, List.sum_cons]
        omega
      · have fits := kept (by rw [Option.mem_def.mp set_]; exact Option.some_ne_none n)
        rw [said, Option.mem_def.mp set_, Option.getD_some]
        omega
    · exact carries_pack [(1, _), (1, _), (2, _)] 2 self.sport 0 [(2, _)] rest
    · exact carries_pack [(1, _), (1, _), (2, _), (2, _)] 2 self.eport 0 [] rest

theorem selector_any_iff (self : Def.TSSelector) (type : ℕ)
    (other : packed kTrafficSelectorType self.type ≠ 7)
    (other' : packed kTrafficSelectorType self.type ≠ 8) :
    self.Explicit (kEncTrafficSelector_ANY self type) ↔ self.Kept := by
  have adds : ∀ (s : Str) (n : ℕ),
      (if s.truth then n + s.len else n) = n + if s.truth then s.len else 0 := by
    intro s n
    split <;> rfl
  unfold kEncTrafficSelector_ANY Def.TSSelector.Kept
  dsimp only
  rw [adds, adds, Nat.add_assoc, List.append_assoc, selector_iff]
  exact ⟨fun kept set_ _ _ => kept set_, fun kept set_ => kept set_ other other'⟩

section

variable (getaddrinfo : List UInt8 → List SockAddr)

theorem selector_explicit (self : Def.TSSelector) :
    self.Explicit (kEncTrafficSelector getaddrinfo self) ↔ self.Kept := by
  unfold kEncTrafficSelector
  dsimp only
  by_cases v4 : packed kTrafficSelectorType self.type = 7
  · rw [if_pos v4]
    refine iff_of_true ?_ fun _ other => absurd v4 other
    rw [kEncTrafficSelector_TS_IPV4_ADDR_RANGE, List.append_assoc]
    exact (selector_iff self 7 16 0 _).mpr fun _ => Nat.dvd_zero _
  · by_cases v6 : packed kTrafficSelectorType self.type = 8
    · rw [if_neg v4, if_pos v6]
      refine iff_of_true ?_ fun _ _ other => absurd v6 other
      rw [kEncTrafficSelector_TS_IPV6_ADDR_RANGE, List.append_assoc]
      exact (selector_iff self 8 40 0 _).mpr fun _ => Nat.dvd_zero _
    · rw [if_neg v4, if_neg v6]
      exact selector_any_iff self _ v4 v6

theorem configurationAttribute_explicit (self : Def.ConfigurationAttribute) :
    self.Explicit (kEncConfigurationAttribute self) ↔ self.Kept := by
  have bits : field (kEncConfigurationAttribute self) 0 2 =
      (self.reserved.getD 0 <<< 15 ||| packed kConfAttributeType self.attr_type) % 65536 :=
    field_pack [] 2 _ [(2, _)] _
  constructor
  · intro explicit n set_
    have carried := (explicit n set_).2
    rw [bits, Option.mem_def.mp set_] at carried
    exact (top_bit_iff 15 n _).mp carried
  · intro kept n set_
    refine ⟨?_, ?_⟩
    · simp only [kEncConfigurationAttribute, List.length_append, length_pack, List.map_cons,
        List.sum_cons]
      omega
    · rw [bits, Option.mem_def.mp set_]
      exact (top_bit_iff 15 n _).mpr (kept n set_)

theorem SA_explicit (self : Def.SecurityAssociation) (next : ℕ) :
    (Def.Payload.SA self).Explicit getaddrinfo (kEncSecurityAssociationPayload self next) ↔
      (Def.Payload.SA self).Kept :=
  and_congr (generic_iff self.toGeneric next _ 0 [] _)
    (forall_split_iff fun before proposal after =>
      proposal_explicit proposal (if after.isEmpty then 0 else 2) (before.length + 1))

theorem KE_explicit (self : Def.KeyExchange) (next : ℕ) :
    (Def.Payload.KE self).Explicit getaddrinfo (kEncKeyExchangePayload self next) ↔
      (Def.Payload.KE self).Kept :=
  (and_iff_left (carries_pack [(1, _), (1, _), (2, _), (2, _)] 2 self.reserved1 0 [] _)).trans
    (generic_iff self.toGeneric next 8 _ [_, _] _)

theorem identification_explicit (self : Def.Identification) (next : ℕ) :
    (Def.Payload.IDi self).Explicit getaddrinfo (kEncIdentificationPayloads getaddrinfo self next) ↔
      (Def.Payload.IDi self).Kept := by
  unfold kEncIdentificationPayloads Def.Payload.Kept
  dsimp only
  by_cases v4 : packed kIdentificationType self.type = 1
  · rw [if_pos v4, if_pos (Or.inl v4)]
    exact (and_iff_left (carries_reserved1 [(1, _), (1, _), (2, _), (1, _)] self.reserved1 _)).trans
      (generic_iff self.toGeneric next 12 0 [_, _, _] _)
  · by_cases v6 : packed kIdentificationType self.type = 5
    · rw [if_neg v4, if_pos v6, if_pos (Or.inr v6)]
      exact (and_iff_left (carries_reserved1 [(1, _), (1, _), (2, _), (1, _)] self.reserved1 _)).trans
        (generic_iff self.toGeneric next 24 0 [_, _, _] _)
    · rw [if_neg v4, if_neg v6, if_neg (not_or.mpr ⟨v4, v6⟩)]
      exact (and_iff_left (carries_reserved1 [(1, _), (1, _), (2, _), (1, _)] self.reserved1 _)).trans
        (generic_iff self.toGeneric next 8 _ [_, _, _] _)

theorem AUTH_explicit (self : Def.Authentication) (next : ℕ) :
    (Def.Payload.AUTH self).Explicit getaddrinfo (kEncAuthenticationPayload self next) ↔
      (Def.Payload.AUTH self).Kept :=
  (and_iff_left (carries_reserved1 [(1, _), (1, _), (2, _), (1, _)] self.reserved1 _)).trans
    (generic_iff self.toGeneric next 8 _ [_, _, _] _)

theorem N_explicit (self : Def.Notify) (next : ℕ) :
    (Def.Payload.N self).Explicit getaddrinfo (kEncNotifyPayload self next) ↔
      (Def.Payload.N self).Kept := by
  rw [kEncNotifyPayload, List.append_assoc, Nat.add_assoc]
  exact (and_iff_left (carries_pack [(1, _), (1, _), (2, _), (1, _)] 1 self.spiSize _ [_] _)).trans
    (generic_iff self.toGeneric next 8 _ [_, _, _] _)

theorem D_explicit (self : Def.Delete) (next : ℕ) :
    (Def.Payload.D self).Explicit getaddrinfo (kEncDeletePayload self next) ↔
      (Def.Payload.D self).Kept :=
  (and_iff_left ⟨carries_pack [(1, _), (1, _), (2, _), (1, _)] 1 self.spiSize _ [_] _,
    carries_pack [(1, _), (1, _), (2, _), (1, _), (1, _)] 2 self.spiCount _ [] _⟩).trans
    (generic_iff self.toGeneric next 8 _ [_, _, _] _)

theorem TS_explicit (self : Def.TrafficSelector) (next : ℕ) :
    (Def.Payload.TSi self).Explicit getaddrinfo (kEncTrafficSelectorPayload getaddrinfo self next) ↔
      (Def.Payload.TSi self).Kept :=
  and_congr (generic_iff self.toGeneric next _ 0 [_, _, _] _)
    ((and_iff_right (carries_pack [(1, _), (1, _), (2, _)] 1 self.count _ [_, _] _)).trans
      ((and_iff_right (carries_reserved1 [(1, _), (1, _), (2, _), (1, _)] self.reserved1 _)).trans
        (forall₂_congr fun selector _ => selector_explicit getaddrinfo selector)))

/-- No octets carry a number. -/
theorem carries_nil {pos size : ℕ} (some_ : size ≠ 0) (key : Option ℕ) :
    Carries [] pos size key ↔ key = none := by
  cases key with
  | none => simp [Carries]
  | some n => simp [Carries, some_]

theorem generic_nil (self : Def.Generic) : self.Explicit [] ↔ self = {} := by
  constructor
  · intro explicit
    obtain ⟨nexttype, critical, reserved, length⟩ := self
    have type := (carries_nil (by decide) _).mp explicit.nexttype
    cases Option.map_eq_none_iff.mp type
    cases (carries_nil (by decide) _).mp explicit.length
    cases critical with
    | some n => exact absurd (explicit.critical n rfl).1 (by decide)
    | none =>
        cases reserved with
        | some n => exact absurd (explicit.reserved n rfl).1 (by decide)
        | none => rfl
  · rintro rfl
    refine ⟨?_, ?_, ?_, ?_⟩ <;> simp [Carries]

theorem CP_explicit (self : Def.Configuration) (next : ℕ) :
    (Def.Payload.CP self).Explicit getaddrinfo
      (Str.octets (kEncConfigurationPayload self next)) ↔ (Def.Payload.CP self).Kept := by
  obtain ⟨generic, cfg_type, reserved1, attributes⟩ := self
  cases attributes with
  | none =>
      exact and_congr (generic_nil generic) ((and_iff_left fun x mem => by cases mem).trans
        (carries_nil (by decide) reserved1))
  | some attributes =>
      exact and_congr (generic_iff generic next _ 0 [_, _, _] _)
        ((and_iff_right (carries_reserved1 [(1, _), (1, _), (2, _), (1, _)] reserved1 _)).trans
          (forall₂_congr fun x _ => configurationAttribute_explicit x))

/-- A definition has its numbers emitted as they are set if the condition holds for it, and only
    then. -/
theorem explicit_iff (material : EncryptionMaterial) (is_initiator : Bool) (random : Random)
    (plaintext : Str) (next : ℕ) (payload : Def.Payload) :
    payload.Explicit getaddrinfo
      (payload.emitted getaddrinfo material is_initiator random plaintext next) ↔ payload.Kept := by
  cases payload with
  | SA self => exact SA_explicit getaddrinfo self next
  | KE self => exact KE_explicit getaddrinfo self next
  | IDi self | IDr self => exact identification_explicit getaddrinfo self next
  | CERT self => exact generic_iff self.toGeneric next 5 _ [_] _
  | CERTREQ self => exact generic_iff self.toGeneric next 5 _ [_] _
  | AUTH self => exact AUTH_explicit getaddrinfo self next
  | NiNr self => exact generic_iff self.toGeneric next 4 _ [] _
  | N self => exact N_explicit getaddrinfo self next
  | D self => exact D_explicit getaddrinfo self next
  | TSi self | TSr self => exact TS_explicit getaddrinfo self next
  | CP self => exact CP_explicit getaddrinfo self next
  | UNDEFINED self => exact generic_iff self.toGeneric next _ 0 [] _
  | E self =>
      change self.toGeneric.Explicit (kEncEncryptedPayload self next material is_initiator random
        plaintext) ↔ _
      rw [kEncEncryptedPayload, List.append_assoc, List.append_assoc]
      exact generic_iff self.toGeneric next _ 0 [] _
  | V | EAP => exact Iff.rfl

end

/-- The length of a key exchange is larger than the one that is set by the size of the key. -/
theorem not_explicit : ¬ ∀ getaddrinfo material is_initiator random plaintext next
    (payload : Def.Payload), payload.Explicit getaddrinfo
      (payload.emitted getaddrinfo material is_initiator random plaintext next) := by
  intro claim
  have material : EncryptionMaterial :=
    { encr_alg := .«3DES»
      integ_alg := .HMAC_SHA1_96
      encr := fun _ plaintext _ => plaintext
      integ := fun _ _ => List.replicate (kBlockSize .HMAC_SHA1_96) 0
      length_integ := fun _ _ => List.length_replicate }
  have explicit := claim (fun _ => []) material true (fun n => Vector.replicate n 0) none 0
    (.KE { length := some 8, publicKey := some [0, 1, 0, 2] })
  have length := ((KE_explicit (fun _ => []) _ 0).mp explicit).length (by simp)
  exact absurd length (by decide)

end Tahi.Ike
