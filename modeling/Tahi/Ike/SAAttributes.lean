import Mathlib.Data.Nat.Bitwise
import Tahi.General.MarkedLists
import Tahi.Ike.KGenSA
import Tahi.Ike.KIKE

/-! # Proposals that are built and parsed again

The parser returns more than a list of proposals has: lengths, marks for what follows and
reserved octets. It has the same proposals when each of these is that of what was built.

The attributes decide the most. Their generator takes its form from a bit of the type that the
parser does not read, and for the other form it packs the digits of the type, not the value.
-/

namespace Tahi.Ike

open Perl

/-! ## The same proposals -/

namespace Given

def Attribute.number (a : Attribute) : ℕ := numberOf kAttributeType a.type

/-- The attribute in the form it is parsed to. -/
def Attribute.same (a : Attribute) : SAAttribute :=
  match a.value with
  | .fixed v =>
      ⟨1, kAttributeType (.num a.number), none, .number (some (hexNumber v.text)), none⟩
  | .varying v =>
      ⟨0, kAttributeType (.num a.number), some v.length, .octets (some v), none⟩

namespace Transform

variable (t : Transform)

def number : ℕ := numberOf kTransformType t.type

/-- What the transform is called: by the name that there is for its number, if there is one. -/
def called : Constant TransformID :=
  match t.id with
  | .num n => (((transformTypesIDs (.num t.number)).bind (·.names n)).map .name).getD (.num n)
  | .name x => .name x

def attributesLen : ℕ := (buildAttributes t.attributes).len

def same (more : Bool) : SATransform (List SAAttribute) where
  type := some (kTransformType (.num t.number))
  id := some t.called
  attributes := t.attributes.map Attribute.same
  attributesLen := t.attributesLen
  transformLen := some (t.attributesLen + 8)
  nexttype := some (if more then 3 else 0)
  nextdata := none
  reserved1 := some 0
  reserved2 := some 0

end Transform

namespace Proposal

variable (p : Proposal)

def spiOctets : List UInt8 := p.spi.getD []

def transformsLen : ℕ := (buildTransforms p.transforms).length

/-- A proposal without a number has that of its place. -/
def same (propIndex : ℕ) (more : Bool) : Ike.Proposal where
  number := some (p.number.getD (propIndex + 1))
  id := some (kProtocolID (.num (numberOf kProtocolID p.id)))
  spiSize := some p.spiOctets.length
  spi := some (hex p.spiOctets)
  transformCount := some p.transforms.length
  transforms := Marked.map Transform.same p.transforms
  transformsLen := p.transformsLen
  proposalLen := some (p.transformsLen + 8 + p.spiOctets.length)
  nexttype := some (if more then 2 else 0)
  nextdata := none
  reserved := some 0

end Proposal

/-- The parser returns the proposals that the payload was built of. -/
def ParsesBack (proposals : List Proposal) (paytype : Option (Constant PayloadType))
    (paydata : Str) : Prop :=
  ∃ fuel payload parsed,
    kParseSecurityAssociationPayload fuel
      (some (kBuildSecurityAssociationPayload proposals paytype paydata).1) = some payload ∧
    payload.body = .SA (buildProposals proposals.zipIdx).length parsed ∧
    parsed.getD [] = Marked.map (fun p => p.1.same p.2) proposals.zipIdx

/-! ## Where they are the same -/

/-- The value has any length and is not a single `'0'`, and the type has the bit that makes
    the generator write it. -/
def Attribute.Kept (a : Attribute) : Prop :=
  match a.value with
  | .fixed _ => False
  | .varying v =>
      (a.number < 2 ^ 15 ∧ a.number &&& 128 ≠ 0 ∧ v ≠ [0x30]) ∨ (a.number = 0 ∧ v = [])

/-- The identifier has a name, and a name has the number that it is the name of. -/
structure Transform.Kept (t : Transform) : Prop where
  identified : ∃ IDs, transformTypesIDs (.num t.number) = some IDs ∧
    match t.id with
    | .num n => (IDs.names n).isSome
    | .name x => ∃ n, IDs.numbers x = some n ∧ IDs.names n = some x
  attributes : ∀ a ∈ t.attributes, a.Kept

structure Proposal.Kept (p : Proposal) (propIndex : ℕ) : Prop where
  number : p.number.getD (propIndex + 1) < 256
  id : numberOf kProtocolID p.id < 256
  spi : p.spiOctets.length < 256
  count : p.transforms.length < 256
  transforms : ∀ t ∈ p.transforms, t.Kept

/-- The octets that an attribute takes, which are those of its value and four before it. -/
def Attribute.size (a : Attribute) : ℕ := 4 + a.value.text.length

def Transform.size (t : Transform) : ℕ := 8 + (t.attributes.map Attribute.size).sum

def Proposal.size (p : Proposal) : ℕ :=
  8 + p.spiOctets.length + (p.transforms.map Transform.size).sum

structure Kept (proposals : List Proposal) : Prop where
  fits : 4 + (proposals.map Proposal.size).sum < 256 ^ 2
  proposals : ∀ p ∈ proposals.zipIdx, p.1.Kept p.2

end Given

/-! ## The octets of the elements -/

namespace Given

/-- An attribute with nothing behind it. -/
def Attribute.octets (a : Attribute) : List UInt8 :=
  kGenSAAttribute a.type (some a.value.text) none

def Transform.attributeOctets (t : Transform) : List UInt8 :=
  t.attributes.flatMap Attribute.octets

/-- The number that is packed for the identifier of a transform. -/
def Transform.packed (t : Transform) : ℕ :=
  match t.id with
  | .num n => n
  | .name x => packedID (kTransformTypeID (.num t.number) (.name x))

def Transform.header (t : Transform) (more : Bool) : List (ℕ × ℕ) :=
  [(1, if more then 3 else 0), (1, 0), (2, t.attributesLen + 8), (1, t.number), (1, 0),
    (2, t.packed)]

def Transform.element (t : Transform) (more : Bool) : List UInt8 :=
  pack (t.header more) ++ t.attributeOctets

def Proposal.header (p : Proposal) (propIndex : ℕ) (more : Bool) : List (ℕ × ℕ) :=
  [(1, if more then 2 else 0), (1, 0), (2, p.transformsLen + 8 + p.spiOctets.length),
    (1, p.number.getD (propIndex + 1)), (1, numberOf kProtocolID p.id),
    (1, p.spiOctets.length), (1, p.transforms.length)]

def Proposal.element (p : Proposal) (propIndex : ℕ) (more : Bool) : List UInt8 :=
  pack (p.header propIndex more) ++ (p.spiOctets ++ buildTransforms p.transforms)

end Given

section Octets

open Given

theorem generated_eq (a : Given.Attribute) (behind : Str) :
    kGenSAAttribute a.type (some a.value.text) behind = a.octets ++ behind.orEmpty := by
  unfold Attribute.octets kGenSAAttribute
  simp only
  split
  · simp [Str.orEmpty]
  · simp [Str.orEmpty]

theorem four_le_length (a : Given.Attribute) : 4 ≤ a.octets.length := by
  unfold Attribute.octets kGenSAAttribute
  simp only
  split
  · simp only [List.length_append, length_pack, List.map_cons, List.map_nil, List.sum_cons,
      List.sum_nil]
    omega
  · simp only [List.length_append, length_pack, List.map_cons, List.map_nil, List.sum_cons,
      List.sum_nil, length_packH 2]
    omega

theorem buildAttributes_cons (a : Given.Attribute) (as : List Given.Attribute) :
    buildAttributes (a :: as) = some (a.octets ++ (buildAttributes as).orEmpty) := by
  rw [← generated_eq]
  rfl

theorem buildAttributes_orEmpty (as : List Given.Attribute) :
    (buildAttributes as).orEmpty = as.flatMap Attribute.octets := by
  induction as with
  | nil => rfl
  | cons a as ih =>
      have long := four_le_length a
      rw [buildAttributes_cons, ih, Str.orEmpty_of_len, Str.octets_some, List.flatMap_cons]
      rw [Str.len_some, List.length_append]
      omega

theorem attributesLen_eq (t : Given.Transform) : t.attributesLen = t.attributeOctets.length := by
  unfold Transform.attributesLen Transform.attributeOctets
  cases t.attributes with
  | nil => rfl
  | cons a as => rw [buildAttributes_cons, buildAttributes_orEmpty, Str.len_some, List.flatMap_cons]

/-- Rows of elements that have headers are never false but for those without elements. -/
theorem orEmpty_write {α : Type} {element : α → Bool → List UInt8}
    (long : ∀ x more, 8 ≤ (element x more).length) (xs : List α) :
    Str.orEmpty (some (Marked.write element xs)) = Marked.write element xs := by
  apply Str.orEmpty_of_len
  cases xs with
  | nil => exact Nat.zero_ne_one
  | cons x xs =>
      have := Marked.le_length_write long (List.cons_ne_nil x xs)
      rw [Str.len_some]
      omega

theorem eight_le_transform (t : Given.Transform) (more : Bool) : 8 ≤ (t.element more).length := by
  rw [Transform.element, List.length_append, length_pack]
  exact Nat.le_add_right 8 _

theorem eight_le_proposal (p : Given.Proposal × ℕ) (more : Bool) :
    8 ≤ (p.1.element p.2 more).length := by
  rw [Proposal.element, List.length_append, length_pack]
  exact Nat.le_add_right 8 _

theorem buildTransforms_eq (ts : List Given.Transform) :
    buildTransforms ts = Marked.write Transform.element ts := by
  refine Marked.foldr_eq_write (fun t more => ?_) (fun t us => ?_) ts
  · exact Nat.le_trans (by decide) (eight_le_transform t more)
  · rw [Transform.element, Transform.header, attributesLen_eq, Transform.attributeOctets,
      ← buildAttributes_orEmpty]
    simp only [kGenSATransform, orEmpty_write eight_le_transform us, decide_eq_true_eq]
    rfl

theorem buildProposals_eq (ps : List (Given.Proposal × ℕ)) :
    buildProposals ps = Marked.write (fun p => p.1.element p.2) ps := by
  refine Marked.foldr_eq_write (fun p more => ?_) (fun p qs => ?_) ps
  · exact Nat.le_trans (by decide) (eight_le_proposal p more)
  · have digits : (p.1.spi.map hex).getD [] = hex p.1.spiOctets := by
      unfold Proposal.spiOctets
      cases p.1.spi <;> rfl
    have size : (hex p.1.spiOctets).length / 2 = p.1.spiOctets.length := by
      rw [length_hex, Nat.mul_div_cancel_left _ (by decide)]
    have spi : (if 0 < p.1.spiOctets.length then
        packH (p.1.spiOctets.length * 2) (hex p.1.spiOctets) else []) = p.1.spiOctets := by
      split
      · exact packH_hex _
      next empty => exact (List.length_eq_zero_iff.mp (by omega)).symm
    rw [buildProposal, Proposal.element, Proposal.header, Proposal.transformsLen,
      buildTransforms_eq]
    simp only [kGenSAProposal, digits, size, spi, orEmpty_write eight_le_transform,
      orEmpty_write eight_le_proposal qs, decide_eq_true_eq, List.append_assoc]

end Octets

/-! ## Attributes -/

section Attributes

open Given

/-- The digits that are packed begin with that of the highest place. -/
theorem be_typeDigits {n : ℕ} (zero : be (packH 4 ((Decimal.print n).map hexDigit)) = 0) :
    n = 0 := by
  by_contra positive
  obtain ⟨d, rest, above, below, digits⟩ :=
    Decimal.digitsFrom_pos (Nat.pos_of_ne_zero positive) (Nat.le_refl n)
  have first : (hexDigit (Decimal.digit d)).val = d := by
    interval_cases d <;> rfl
  obtain ⟨e, f, g, behind, more⟩ : ∃ e f g behind,
      rest.map hexDigit ++ List.replicate 4 0 = e :: f :: g :: behind := by
    cases rest.map hexDigit with
    | nil => exact ⟨0, 0, 0, [0], rfl⟩
    | cons e l =>
        cases l with
        | nil => exact ⟨e, 0, 0, [0, 0], rfl⟩
        | cons f l =>
            cases l with
            | nil => exact ⟨e, f, 0, [0, 0, 0], rfl⟩
            | cons g l => exact ⟨e, f, g, l ++ List.replicate 4 0, rfl⟩
  rw [Decimal.print_natural, digits, List.map_cons, packH, List.cons_append, more] at zero
  simp only [List.take_succ_cons, List.take_zero, unhex, be, List.foldl_cons, List.foldl_nil,
    UInt8.toNat_ofNat', first] at zero
  have second := e.isLt
  omega

section Decode

variable {d : List UInt8}

/-- There are the octets for the type and for what is behind it. -/
theorem kDecSAAttribute_long (long : 4 ≤ d.length) :
    let word := be (d.take 2)
    let second := be ((d.drop 2).take 2)
    kDecSAAttribute (some d) =
      if 2 ^ 15 ≤ word then
        ⟨1, kAttributeType (.num (word - 2 ^ 15)), none, .number (some second),
          some (d.drop 4)⟩
      else
        ⟨0, kAttributeType (.num word), some second,
          .octets (some ((d.drop 4).take second)),
          if d.length < 4 + second then none else some (d.drop (4 + second))⟩ := by
  intro word second
  have fits : word < 256 ^ 2 := by
    have bound := be_lt (d.take 2)
    rwa [List.length_take, Nat.min_eq_left (by omega)] at bound
  have type : unpackInt 2 (substr (some d) 0 (some 2)) = some word := by
    have first : substr (some d) 0 (some 2) = some (d.take 2) := substr_first (some d) 2
    rw [first, unpackInt_take (by omega)]
  have behind : unpackInt 2 (substr (some d) 2 (some 2)) = some second := by
    have part : substr (some d) 2 (some 2) = some ((d.drop 2).take 2) :=
      (substr_part (some d) 2 2).trans (if_neg (by rw [Str.len_some]; omega))
    rw [part, unpackInt_take (by rw [List.length_drop]; omega)]
  have value : substr (some d) 4 (some second) = some ((d.drop 4).take second) :=
    (substr_part (some d) 4 second).trans (if_neg (by rw [Str.len_some]; omega))
  have all : substr (some d) 4 none = some (d.drop 4) :=
    (substr_from (some d) 4).trans (if_neg (by rw [Str.len_some]; omega))
  have rest : substr (some d) (4 + second : ℕ) none =
      if d.length < 4 + second then none else some (d.drop (4 + second)) := substr_from _ _
  simp only [kDecSAAttribute, type, behind, Option.getD_some, word_high, word_low, value, all]
  by_cases above : 2 ^ 15 ≤ word
  · have set : word / 2 ^ 15 % 2 = 1 := by omega
    have low : word % 2 ^ 15 = word - 2 ^ 15 := by omega
    simp only [above, if_true, set, low, ne_eq, Nat.one_ne_zero, not_false_iff]
  · have clear : word / 2 ^ 15 % 2 = 0 := by omega
    have low : word % 2 ^ 15 = word := by omega
    simp only [above, if_false, clear, low, ne_eq, not_true_eq_false]
    rw [← rest]
    rfl

/-- With fewer octets there is no number behind the type. -/
theorem long_of_same {a : Given.Attribute}
    (same : { kDecSAAttribute (some d) with nextdata := none } = a.same) : 4 ≤ d.length := by
  by_contra short
  have behind : unpackInt 2 (substr (some d) 2 (some 2)) = none := by
    have part : substr (some d) 2 (some 2) =
        if d.length < 2 then none else some ((d.drop 2).take 2) := substr_part (some d) 2 2
    rw [unpackInt_eq, if_pos]
    rw [part]
    split
    · exact Nat.two_pos
    · rw [Str.len_some, List.length_take, List.length_drop]
      omega
  simp only [kDecSAAttribute, behind] at same
  unfold Attribute.same at same
  split at same
  · split at same <;> simp at same
  · split at same <;> simp at same

/-- An attribute that is parsed to one of a fixed length has the bit for that. -/
theorem fixed_of_same {a : Given.Attribute} {v : HexPair} (fixed : a.value = .fixed v)
    (same : { kDecSAAttribute (some d) with nextdata := none } = a.same) :
    be (d.take 2) = 2 ^ 15 + a.number ∧ (kDecSAAttribute (some d)).nextdata = some (d.drop 4) := by
  have decoded := kDecSAAttribute_long (long_of_same same)
  have form : a.same = ⟨1, kAttributeType (.num a.number), none,
      .number (some (hexNumber v.text)), none⟩ := by
    rw [Attribute.same, fixed]
  rw [form] at same
  rw [decoded] at same ⊢
  split at same
  next above =>
    rw [if_pos above]
    simp only [SAAttribute.mk.injEq] at same
    have type := kAttributeType_injective same.2.1
    exact ⟨by omega, rfl⟩
  · cases congrArg SAAttribute.af same

/-- One that is parsed to one of any length has its value behind the length. -/
theorem varying_of_same {a : Given.Attribute} {v : List UInt8} (varying : a.value = .varying v)
    (same : { kDecSAAttribute (some d) with nextdata := none } = a.same) :
    be (d.take 2) = a.number ∧ a.number < 2 ^ 15 ∧ be ((d.drop 2).take 2) = v.length ∧
      4 + v.length ≤ d.length ∧
      (kDecSAAttribute (some d)).nextdata = some (d.drop (4 + v.length)) := by
  have long := long_of_same same
  have decoded := kDecSAAttribute_long long
  have form : a.same = ⟨0, kAttributeType (.num a.number), some v.length,
      .octets (some v), none⟩ := by
    rw [Attribute.same, varying]
  rw [form] at same
  rw [decoded] at same ⊢
  split at same
  · cases congrArg SAAttribute.af same
  next below =>
    rw [if_neg below]
    simp only [SAAttribute.mk.injEq, AttributeValue.octets.injEq, Option.some.injEq] at same
    obtain ⟨-, named, length, value, -⟩ := same
    have type := kAttributeType_injective named
    have whole : 4 + v.length ≤ d.length := by
      have shorter := congrArg List.length value
      rw [List.length_take, List.length_drop] at shorter
      omega
    have next_ : (if d.length < 4 + be ((d.drop 2).take 2) then none
        else some (d.drop (4 + be ((d.drop 2).take 2)))) = some (d.drop (4 + v.length)) := by
      rw [length, if_neg (by omega)]
    exact ⟨type, by omega, length, whole, next_⟩

end Decode

/-- The loop takes one attribute after the other. -/
theorem parseAttributes_eq_cons {data : Str} {x : SAAttribute} {xs : List SAAttribute}
    (parsed : parseAttributes data = x :: xs) :
    { kDecSAAttribute data with nextdata := none } = x ∧
      parseAttributes (kDecSAAttribute data).nextdata = xs := by
  rw [parseAttributes] at parsed
  split at parsed
  · exact List.cons.inj parsed
  · cases parsed

section Generated

variable {a : Given.Attribute}

theorem low_of_bit {n : ℕ} (bit : n &&& 128 ≠ 0) : 128 ≤ n % 256 := by
  rw [show 128 = 2 ^ 7 from rfl, Nat.and_two_pow, Nat.testBit_eq_decide_div_mod_eq] at bit
  by_contra low
  rw [decide_eq_false (by omega)] at bit
  exact bit (Nat.zero_mul _)

theorem octets_of_bit (bit : a.number &&& 128 ≠ 0) :
    a.octets = packInt 2 a.number ++
      (packInt 2 (Str.orEmpty (some a.value.text)).length ++ Str.orEmpty (some a.value.text)) := by
  show (if a.number &&& 128 ≠ 0 then _ else _) = _
  rw [if_pos bit]
  simp [Str.orEmpty, Attribute.number]

theorem octets_of_clear (clear : a.number &&& 128 = 0) :
    a.octets = packInt 2 a.number ++ packH 4 ((Decimal.print a.number).map hexDigit) := by
  show (if a.number &&& 128 ≠ 0 then _ else _) = _
  rw [if_neg (not_not_intro clear)]
  simp [Str.orEmpty, Attribute.number]

theorem length_of_varying {v : List UInt8} (varying : a.value = .varying v) :
    a.octets.length ≤ 4 + v.length := by
  by_cases bit : a.number &&& 128 ≠ 0
  · rw [octets_of_bit bit, varying, Given.Value.text, Str.orEmpty_eq]
    simp only [List.length_append, length_packInt]
    split
    · rw [List.length_nil]
      omega
    · rw [Str.octets_some]
      omega
  · rw [octets_of_clear (not_not.mp bit), List.length_append, length_packInt, length_packH 2]
    omega

/-- What is generated for a value has its length and its octets behind the type just for the
    types with the bit, and for the type 0 without a value. -/
theorem kept_of_varying {v rest : List UInt8} (varying : a.value = .varying v)
    (below : a.number < 2 ^ 15) (filled : a.octets.length = 4 + v.length)
    (second : be (((a.octets ++ rest).drop 2).take 2) = v.length) : a.Kept := by
  rw [Attribute.Kept, varying]
  by_cases bit : a.number &&& 128 ≠ 0
  · refine .inl ⟨below, bit, fun zero => ?_⟩
    rw [octets_of_bit bit, varying, Given.Value.text, Str.orEmpty_eq, Str.octets_some,
      if_pos zero, zero] at filled
    simp at filled
  · have octets := octets_of_clear (not_not.mp bit)
    rw [octets, List.length_append, length_packInt, length_packH 2] at filled
    have empty : v = [] := List.length_eq_zero_iff.mp (by omega)
    rw [octets, List.append_assoc, List.drop_left' (length_packInt _ _),
      List.take_left' (length_packH 2 _), empty] at second
    exact .inr ⟨be_typeDigits second, empty⟩

theorem octets_of_fixed {v : HexPair} (fixed : a.value = .fixed v) (bit : a.number &&& 128 ≠ 0) :
    a.octets = packInt 2 a.number ++ (packInt 2 4 ++ v.text) := by
  have text : Str.orEmpty (some v.text) = v.text := by
    apply Str.orEmpty_of_len
    rw [Str.len_some, v.length_text]
    decide
  rw [octets_of_bit bit, fixed, Given.Value.text, text, v.length_text]

/-- The octets for a value of a fixed length have the bit for that nowhere where an attribute
    could be read. -/
theorem not_fixed {v : HexPair} {rest : List UInt8} (fixed : a.value = .fixed v)
    (bit : a.number &&& 128 ≠ 0) {s : ℕ} (start : s ≤ 4) :
    be (((a.octets ++ rest).drop s).take 2) ≠ 2 ^ 15 + a.number := by
  intro word
  have low := low_of_bit bit
  obtain ⟨c, e, more, first⟩ : ∃ c e more, v.text = c :: e :: more := by
    have four := v.length_text
    rcases text : v.text with _ | ⟨c, _ | ⟨e, more⟩⟩
    · cases text ▸ four
    · cases text ▸ four
    · exact ⟨c, e, more, rfl⟩
  have digit : c.toNat < 128 := by
    have hexadecimal := v.digits c (by rw [first]; exact List.mem_cons_self)
    simp only [IsHexChar, UInt8.le_iff_toNat_le] at hexadecimal
    have : (0x39 : UInt8).toNat = 57 := rfl
    have : (0x46 : UInt8).toNat = 70 := rfl
    have : (0x66 : UInt8).toNat = 102 := rfl
    omega
  have spelled : a.octets ++ rest = UInt8.ofNat (a.number / 256) :: UInt8.ofNat a.number :: 0 ::
      4 :: c :: e :: (more ++ rest) := by
    rw [octets_of_fixed fixed bit, first]
    rfl
  have fits := be_lt (((a.octets ++ rest).drop s).take 2)
  rw [word, List.length_take] at fits
  have bound : a.number < 2 ^ 15 := by
    have two : 256 ^ min 2 ((a.octets ++ rest).drop s).length ≤ 256 ^ 2 :=
      Nat.pow_le_pow_right (by decide) (Nat.min_le_left _ _)
    omega
  have second := e.toNat_lt
  rw [spelled] at word
  interval_cases s <;>
    simp only [List.drop_zero, List.drop_succ_cons, List.take_succ_cons, List.take_zero, be,
      List.foldl_cons, List.foldl_nil, UInt8.toNat_ofNat', UInt8.toNat_ofNat] at word <;>
    omega

end Generated

/-- Wherever in the octets the loop is started, it returns the attributes only from their
    beginning. By induction on the attributes: the one in front moves the place where the
    loop goes on to the right. -/
theorem kept_of_parsed (as : List Given.Attribute) (s : ℕ)
    (inside : s ≤ (as.flatMap Attribute.octets).length)
    (parsed : parseAttributes (some ((as.flatMap Attribute.octets).drop s)) =
      as.map Attribute.same) : s = 0 ∧ ∀ a ∈ as, a.Kept := by
  induction as generalizing s with
  | nil => exact ⟨Nat.le_zero.mp inside, by simp⟩
  | cons a as ih =>
      obtain ⟨same, behind⟩ := parseAttributes_eq_cons parsed
      rw [List.flatMap_cons] at same behind inside
      rw [List.length_append] at inside
      have further (n : ℕ) (past : a.octets.length ≤ n) :
          (a.octets ++ as.flatMap Attribute.octets).drop n =
            (as.flatMap Attribute.octets).drop (n - a.octets.length) := by
        rw [List.drop_append, List.drop_eq_nil_of_le past, List.nil_append]
      have long := long_of_same same
      rw [List.length_drop, List.length_append] at long
      cases value : a.value with
      | fixed v =>
          exfalso
          obtain ⟨word, next_⟩ := fixed_of_same value same
          rw [next_, List.drop_drop] at behind
          by_cases bit : a.number &&& 128 ≠ 0
          · have eight : a.octets.length = 8 := by
              rw [octets_of_fixed value bit]
              simp only [List.length_append, length_packInt, v.length_text]
            by_cases start : s ≤ 4
            · exact not_fixed value bit start word
            · rw [further _ (by omega)] at behind
              have place := (ih _ (by omega) behind).1
              omega
          · have octets := octets_of_clear (not_not.mp bit)
            have four : a.octets.length = 4 := by
              rw [octets, List.length_append, length_packInt, length_packH 2]
            rw [further _ (by omega)] at behind
            have place := (ih _ (by omega) behind).1
            rw [show s = 0 by omega, List.drop_zero, octets, List.append_assoc,
              List.take_left' (length_packInt _ _), be_packInt] at word
            omega
      | varying v =>
          obtain ⟨word, below, second, whole, next_⟩ := varying_of_same value same
          rw [List.length_drop, List.length_append] at whole
          have most := length_of_varying value
          rw [next_, List.drop_drop, further _ (by omega)] at behind
          obtain ⟨place, good⟩ := ih _ (by omega) behind
          have start : s = 0 := by omega
          rw [start, List.drop_zero] at second
          refine ⟨start, fun b mem => ?_⟩
          obtain rfl | mem := List.mem_cons.mp mem
          · exact kept_of_varying value below (by omega) second
          · exact good b mem

theorem octets_of_kept {a : Given.Attribute} (kept : a.Kept) :
    ∃ v, a.value = .varying v ∧ a.number < 2 ^ 15 ∧
      a.octets = packInt 2 a.number ++ (packInt 2 v.length ++ v) := by
  unfold Attribute.Kept at kept
  split at kept
  · exact kept.elim
  next v value =>
    refine ⟨v, value, ?_⟩
    obtain ⟨below, bit, other⟩ | ⟨zero, rfl⟩ := kept
    · have text : Str.orEmpty (some a.value.text) = v := by
        rw [value, Str.orEmpty_eq]
        exact if_neg other
      exact ⟨below, by rw [octets_of_bit bit, text]⟩
    · have octets : a.octets = _ := octets_of_clear (by rw [zero]; rfl)
      rw [zero] at octets ⊢
      exact ⟨by decide, octets⟩

theorem attributesLen_of_kept {t : Given.Transform} (kept : ∀ a ∈ t.attributes, a.Kept) :
    t.attributesLen + 8 = t.size := by
  have sizes : ∀ a ∈ t.attributes, a.octets.length = a.size := by
    intro a mem
    obtain ⟨v, value, -, octets⟩ := octets_of_kept (kept a mem)
    rw [octets, Attribute.size, value]
    simp only [List.length_append, length_packInt, Given.Value.text]
    omega
  rw [attributesLen_eq, Transform.attributeOctets, List.length_flatMap, Transform.size,
    List.map_congr_left sizes, Nat.add_comm]

/-- The value is read behind its length, and what is behind the value is left. -/
theorem kDecSAAttribute_kept {a : Given.Attribute} (kept : a.Kept) (rest : List UInt8)
    (fits : a.octets.length < 256 ^ 2) :
    kDecSAAttribute (some (a.octets ++ rest)) = { a.same with nextdata := some rest } := by
  obtain ⟨v, value, below, octets⟩ := octets_of_kept kept
  rw [octets] at fits ⊢
  simp only [List.length_append, length_packInt] at fits
  have long : 4 ≤ (packInt 2 a.number ++ (packInt 2 v.length ++ v) ++ rest).length := by
    simp only [List.length_append, length_packInt]
    omega
  have word : be ((packInt 2 a.number ++ (packInt 2 v.length ++ v) ++ rest).take 2) =
      a.number := by
    rw [List.append_assoc, List.take_left' (length_packInt _ _), be_packInt]
    omega
  have front : (packInt 2 a.number ++ packInt 2 v.length).length = 4 := by
    rw [List.length_append, length_packInt, length_packInt]
  have second : be (((packInt 2 a.number ++ (packInt 2 v.length ++ v) ++ rest).drop 2).take 2) =
      v.length := by
    rw [List.append_assoc, List.drop_left' (length_packInt _ _), List.append_assoc,
      List.take_left' (length_packInt _ _), be_packInt]
    omega
  have behind : (packInt 2 a.number ++ (packInt 2 v.length ++ v) ++ rest).drop 4 = v ++ rest := by
    rw [← List.append_assoc, List.append_assoc _ v, List.drop_left' front]
  have same : a.same = ⟨0, kAttributeType (.num a.number), some v.length, .octets (some v),
      none⟩ := by
    rw [Attribute.same, value]
  have enough : ¬ (packInt 2 a.number ++ (packInt 2 v.length ++ v) ++ rest).length <
      4 + v.length := by
    simp only [List.length_append, length_packInt]
    omega
  rw [kDecSAAttribute_long long, same]
  simp only [word, second, behind, if_neg enough, if_neg (Nat.not_le.mpr below), List.take_left]
  rw [← List.drop_drop, behind, List.drop_left]

theorem parsed_of_kept (as : List Given.Attribute) (kept : ∀ a ∈ as, a.Kept)
    (fits : (as.flatMap Attribute.octets).length < 256 ^ 2) :
    parseAttributes (some (as.flatMap Attribute.octets)) = as.map Attribute.same := by
  induction as with
  | nil =>
      rw [parseAttributes]
      rfl
  | cons a as ih =>
      have long := four_le_length a
      rw [List.flatMap_cons] at fits ⊢
      rw [List.length_append] at fits
      have head := kDecSAAttribute_kept (kept a List.mem_cons_self)
        (as.flatMap Attribute.octets) (by omega)
      have tail := ih (fun b mem => kept b (List.mem_cons_of_mem a mem)) (by omega)
      have bare : { a.same with nextdata := none } = a.same := by
        unfold Attribute.same
        split <;> rfl
      rw [parseAttributes, if_pos (by rw [Str.len_some, List.length_append]; omega), head]
      exact congrArg₂ List.cons bare tail

end Attributes

end Tahi.Ike
