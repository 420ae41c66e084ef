import Tahi.Ike.KIKE

/-! # Where the parser comes to an end

The loops of the parser are followed from turn to turn and into one another. A turn that is
announced by a structure without a length begins at the same octets again.
-/

namespace Tahi.Ike

open Perl PointerChase

/-- The beginning of a turn of one of the loops, with the data that is left. -/
inductive Point where
  | payloads (data : Str) (nexttype : Option (Constant PayloadType))
  | proposals (data : Str)
  | transforms (data : Str)
deriving DecidableEq

namespace Point

def left : Point → Str
  | payloads data _ => data
  | proposals data => data
  | transforms data => data

/-- How many loops can be inside the loop. -/
def rank : Point → Nat
  | payloads _ _ => 2
  | proposals _ => 1
  | transforms _ => 0

variable (material : Option Material) (isInit : Bool)

/-- The turn that follows in the same loop. Behind an encrypted payload there is none. -/
def turn : Point → Option Point
  | payloads data nexttype =>
      let info := kDecGenericPayloadHeader data
      if nexttype.any Constant.truth ∧ nexttype ≠ some (.name .E) ∧
          info.nexttype.any Constant.truth then
        some (payloads info.payloads info.nexttype)
      else none
  | proposals data =>
      let proposal := kDecSAProposal data
      if proposal.nexttype.getD 0 ≠ 0 then some (proposals proposal.nextdata) else none
  | transforms data =>
      let transform := kDecSATransform data
      if transform.nexttype.getD 0 ≠ 0 then some (transforms transform.nextdata) else none

/-- The loop the turn has inside. -/
def enters : Point → Option Point
  | payloads data nexttype =>
      let info := kDecGenericPayloadHeader data
      if nexttype = some (.name .SA) ∧ ¬ info.paylen < 4 then some (proposals info.payload)
      else none
  | proposals data =>
      let proposal := kDecSAProposal data
      if 0 < proposal.transformCount.getD 0 then some (transforms proposal.transforms) else none
  | transforms _ => none

/-- The loop over what an encrypted payload decrypts to. -/
def decrypts : Point → Option Point
  | payloads data nexttype =>
      if nexttype = some (.name .E) then
        material.map fun material =>
          let (info, _, _, plain) := kDecEncryptedPayload data material isInit
          payloads plain info.nexttype
      else none
  | _ => none

def calls (p : Point) : List Point :=
  p.enters.toList ++ (p.decrypts material isInit).toList ++ p.turn.toList

/-- Whether so many turns are enough to get to the end of the loop. -/
def ends (fuel : Nat) : Point → Bool
  | payloads data nexttype => (parsePayloads material isInit fuel data nexttype 0).isSome
  | proposals data => (parseProposals fuel data).isSome
  | transforms data => (parseTransforms fuel data).isSome

/-- The structure announces a next one and has a length of 0, or none at all. -/
def Repeats : Point → Prop
  | payloads data nexttype =>
      let info := kDecGenericPayloadHeader data
      nexttype.any Constant.truth ∧ nexttype ≠ some (.name .E) ∧
        info.nexttype.any Constant.truth ∧ info.paylen = -4
  | proposals data =>
      let proposal := kDecSAProposal data
      proposal.nexttype.getD 0 ≠ 0 ∧ proposal.proposalLen.getD 0 = 0
  | transforms data =>
      let transform := kDecSATransform data
      transform.nexttype.getD 0 ≠ 0 ∧ transform.transformLen.getD 0 = 0

end Point

theorem parsePayloads_isSome (material : Option Material) (isInit : Bool) (fuel : Nat)
    (data : Str) (nexttype : Option (Constant PayloadType)) (offset : Int) :
    (parsePayloads material isInit fuel data nexttype offset).isSome =
      (parsePayloads material isInit fuel data nexttype 0).isSome := by
  induction fuel generalizing data nexttype offset with
  | zero => rfl
  | succ fuel ih =>
      cases nexttype with
      | none => rfl
      | some nexttype =>
          simp only [parsePayloads]
          split
          · split
            · rfl
            · simp only [Option.isSome_map]
              rw [ih, ih _ _ (0 + _)]
          · rfl

/-- All other payloads are decoded without a loop, and leave what is behind their length. -/
theorem kParseAnyPayload_plain (material : Option Material) (isInit : Bool) (fuel : Nat)
    (inner : Str → Option (Constant PayloadType) → Option (List Payload)) (data : Str)
    {type : Constant PayloadType} (noSA : type ≠ .name .SA) (noE : type ≠ .name .E) :
    ∃ body, kParseAnyPayload material isInit fuel inner data type =
      some ⟨(kDecGenericPayloadHeader data).common, body⟩ := by
  cases type with
  | num n => exact ⟨_, rfl⟩
  | name x =>
      cases x with
      | SA => exact absurd rfl noSA
      | E => exact absurd rfl noE
      | _ => exact ⟨_, rfl⟩

theorem kParseSecurityAssociationPayload_eq (fuel : Nat) (data : Str) :
    let info := kDecGenericPayloadHeader data
    (info.paylen < 4 ∧ ∃ body,
      kParseSecurityAssociationPayload fuel data = some ⟨info.common, body⟩) ∨
    (¬ info.paylen < 4 ∧ parseProposals fuel info.payload = none ∧
      kParseSecurityAssociationPayload fuel data = none) ∨
    (¬ info.paylen < 4 ∧ (parseProposals fuel info.payload).isSome ∧ ∃ body,
      kParseSecurityAssociationPayload fuel data = some ⟨info.common, body⟩) := by
  intro info
  by_cases short : info.paylen < 4
  · exact .inl ⟨short, _, if_pos short⟩
  · apply Or.inr
    have whole : kParseSecurityAssociationPayload fuel data =
        (parseProposals fuel info.payload).map fun propList =>
          ⟨info.common, .SA info.paylen (some propList)⟩ := if_neg short
    cases run : parseProposals fuel info.payload with
    | none => exact .inl ⟨short, rfl, by rw [whole, run]; rfl⟩
    | some propList => exact .inr ⟨short, rfl, _, by rw [whole, run]; rfl⟩

namespace Point

variable (material : Option Material) (isInit : Bool)

theorem calls_of_ends_zero (p : Point) (returns : p.ends material isInit 0) :
    p.calls material isInit = [] := by
  cases p with
  | payloads data nexttype =>
      cases nexttype with
      | none => rfl
      | some type =>
          have falsity : type.truth = false := by
            cases truth : type.truth with
            | false => rfl
            | true => simp [ends, parsePayloads, truth] at returns
          have noSA : type ≠ .name .SA := by
            rintro rfl
            cases falsity
          have noE : type ≠ .name .E := by
            rintro rfl
            cases falsity
          simp [calls, enters, decrypts, turn, falsity, noSA, noE]
  | proposals data => cases returns
  | transforms data => cases returns

theorem ends_of_false (fuel : Nat) (data : Str) {nexttype : Option (Constant PayloadType)}
    (last : nexttype.any Constant.truth = false) :
    (payloads data nexttype).ends material isInit fuel := by
  cases nexttype with
  | none => cases fuel <;> rfl
  | some type =>
      have falsity : type.truth = false := last
      cases fuel <;> simp [ends, parsePayloads, falsity]

/-- What is behind a payload that was parsed. -/
theorem ends_of_parsed {fuel : Nat} {data : Str} {type : Constant PayloadType}
    (truth : type.truth) {payload : Payload}
    (parsed : kParseAnyPayload material isInit fuel
      (fun data type => parsePayloads material isInit fuel data type 0) data type =
        some payload) :
    (payloads data (some type)).ends material isInit (fuel + 1) =
      (payloads payload.common.payloads payload.common.nexttype).ends material isInit fuel := by
  simp only [ends, parsePayloads, truth, if_true, parsed, Option.isSome_map]
  exact parsePayloads_isSome material isInit fuel _ _ _

theorem ends_of_not_parsed {fuel : Nat} {data : Str} {type : Constant PayloadType}
    (truth : type.truth)
    (fails : kParseAnyPayload material isInit fuel
      (fun data type => parsePayloads material isInit fuel data type 0) data type = none) :
    (payloads data (some type)).ends material isInit (fuel + 1) = false := by
  simp [ends, parsePayloads, truth, fails]

/-- The rest of the loop is its next turn, if there is one. -/
theorem all_turn (fuel : Nat) (data : Str) {type : Constant PayloadType} (truth : type.truth)
    (noE : type ≠ .name .E) :
    (payloads data (some type)).turn.toList.all (ends material isInit fuel) =
      (payloads (kDecGenericPayloadHeader data).payloads
        (kDecGenericPayloadHeader data).nexttype).ends material isInit fuel := by
  let info := kDecGenericPayloadHeader data
  cases more : info.nexttype.any Constant.truth with
  | false =>
      rw [ends_of_false material isInit fuel info.payloads more]
      simp [turn, info, more]
  | true => simp [turn, truth, noE, info, more]

/-- Behind an encrypted payload the loop ends, when the one over its content does. -/
theorem ends_encrypted (fuel : Nat) (data : Str) (material : Material) :
    let p := payloads data (some (.name .E))
    p.ends (some material) isInit (fuel + 1) =
      (p.enters.toList.all (ends (some material) isInit fuel) &&
        (p.decrypts (some material) isInit).toList.all (ends (some material) isInit fuel) &&
        p.turn.toList.all (ends (some material) isInit fuel)) := by
  intro p
  let plain := (kDecEncryptedPayload data material isInit).2.2.2
  let inner := (kDecGenericPayloadHeader data).nexttype
  have noTurn : p.turn = none := by simp [p, turn]
  have noSA : p.enters = none := by simp [p, enters]
  have content : p.decrypts (some material) isInit = some (payloads plain inner) := rfl
  rw [noTurn, noSA, content]
  have parse : kParseAnyPayload (some material) isInit fuel
      (fun data type => parsePayloads (some material) isInit fuel data type 0) data (.name .E) =
      (parsePayloads (some material) isInit fuel plain inner 0).map fun innerPayloads =>
        (⟨{ (kDecGenericPayloadHeader data).common with
            nexttype := some (.num 0), payloads := plain },
          .E (kDecEncryptedPayload data material isInit).2.1
            (kDecEncryptedPayload data material isInit).2.2.1
            ((kDecGenericPayloadHeader data).paylen + 4) inner innerPayloads⟩ : Payload) := rfl
  cases run : parsePayloads (some material) isInit fuel plain inner 0 with
  | none =>
      rw [run] at parse
      rw [ends_of_not_parsed (some material) isInit rfl parse]
      simp [ends, run]
  | some innerPayloads =>
      rw [run] at parse
      rw [ends_of_parsed (some material) isInit rfl parse,
        ends_of_false (some material) isInit fuel _ rfl]
      simp [ends, run]

/-- A turn of the loop over the payloads ends when the loops inside it and the rest of the
    loop do. -/
theorem ends_payloads (fuel : Nat) (data : Str) (nexttype : Option (Constant PayloadType)) :
    (payloads data nexttype).ends material isInit (fuel + 1) =
      ((payloads data nexttype).calls material isInit).all (ends material isInit fuel) := by
  cases more : nexttype.any Constant.truth with
  | false =>
      have none := calls_of_ends_zero material isInit (payloads data nexttype)
        (ends_of_false material isInit 0 data more)
      rw [ends_of_false material isInit (fuel + 1) data more, none]
      rfl
  | true =>
      cases nexttype with
      | none => cases more
      | some type =>
          have truth : type.truth = true := more
          simp only [calls, List.all_append]
          by_cases isE : type = .name .E
          · subst isE
            cases material with
            | none =>
                rw [ends_of_parsed none isInit truth rfl]
                exact ends_of_false none isInit fuel _ rfl
            | some material => exact ends_encrypted isInit fuel data material
          · rw [all_turn material isInit fuel data truth isE]
            have noDecryption : (payloads data (some type)).decrypts material isInit = none := by
              simp [decrypts, isE]
            by_cases isSA : type = .name .SA
            · subst isSA
              rcases kParseSecurityAssociationPayload_eq fuel data with
                ⟨short, body, parsed⟩ | ⟨whole, run, fails⟩ | ⟨whole, run, body, parsed⟩
              · rw [ends_of_parsed material isInit truth parsed]
                simp [enters, short, noDecryption]
              · rw [ends_of_not_parsed material isInit truth fails]
                simp [enters, whole, ends, run]
              · rw [ends_of_parsed material isInit truth parsed]
                simp [enters, whole, noDecryption, ends, run]
            · obtain ⟨body, parsed⟩ := kParseAnyPayload_plain material isInit fuel
                (fun data type => parsePayloads material isInit fuel data type 0) data isSA isE
              rw [ends_of_parsed material isInit truth parsed]
              simp [enters, isSA, noDecryption]

theorem ends_proposals (fuel : Nat) (data : Str) :
    (proposals data).ends material isInit (fuel + 1) =
      ((proposals data).calls material isInit).all (ends material isInit fuel) := by
  by_cases inside : 0 < (kDecSAProposal data).transformCount.getD 0 <;>
    by_cases more : (kDecSAProposal data).nexttype.getD 0 ≠ 0
  · cases run : parseTransforms fuel (kDecSAProposal data).transforms <;>
      simp [ends, parseProposals, calls, enters, decrypts, turn, inside, more, run]
  · cases run : parseTransforms fuel (kDecSAProposal data).transforms <;>
      simp [ends, parseProposals, calls, enters, decrypts, turn, inside, more, run]
  · simp [ends, parseProposals, calls, enters, decrypts, turn, inside, more]
  · simp [ends, parseProposals, calls, enters, decrypts, turn, inside, more]

theorem ends_transforms (fuel : Nat) (data : Str) :
    (transforms data).ends material isInit (fuel + 1) =
      ((transforms data).calls material isInit).all (ends material isInit fuel) := by
  by_cases more : (kDecSATransform data).nexttype.getD 0 ≠ 0 <;>
    simp [ends, parseTransforms, calls, enters, decrypts, turn, more]

/-- The turn that follows begins behind the length of the structure. -/
theorem left_of_turn {p q : Point} (follows : p.turn = some q) :
    q.rank = p.rank ∧
      ∃ length : Nat, q.left = substr p.left length none ∧ (p.Repeats ↔ length = 0) := by
  cases p with
  | payloads data nexttype =>
      simp only [turn] at follows
      split at follows
      · rename_i more
        cases follows
        refine ⟨rfl, _, rfl, ?_⟩
        have zero : (payloads data nexttype).Repeats ↔
            (kDecGenericPayloadHeader data).paylen = -4 :=
          ⟨fun repeats => repeats.2.2.2, fun zero => ⟨more.1, more.2.1, more.2.2, zero⟩⟩
        rw [zero]
        simp only [kDecGenericPayloadHeader]
        omega
      · cases follows
  | proposals data =>
      simp only [turn] at follows
      split at follows
      · rename_i more
        cases follows
        refine ⟨rfl, _, rfl, ?_⟩
        simp only [Repeats, more, ne_eq, not_false_eq_true, true_and]
        rfl
      · cases follows
  | transforms data =>
      simp only [turn] at follows
      split at follows
      · rename_i more
        cases follows
        refine ⟨rfl, _, rfl, ?_⟩
        simp only [Repeats, more, ne_eq, not_false_eq_true, true_and]
        rfl
      · cases follows

/-- What announces a next turn is not empty. -/
theorem left_pos_of_turn {p q : Point} (follows : p.turn = some q) : 0 < p.left.len := by
  by_contra empty
  have none : p.left.octets = [] := List.length_eq_zero_iff.mp (Nat.eq_zero_of_not_pos empty)
  have header (n : Int) : (substr p.left 0 (some n)).octets = [] := by
    apply List.length_eq_zero_iff.mp
    have le := substr_len_le p.left 0 (some n)
    unfold Str.len at le
    simpa [none] using le
  cases p with
  | payloads data nexttype =>
      have header := header 4
      simp only [left] at header
      simp [turn, kDecGenericPayloadHeader, header, unpack, Item.num?, constant] at follows
  | proposals data =>
      simp only [left] at none
      simp [turn, kDecSAProposal, none, unpack, Item.num?] at follows
  | transforms data =>
      have header := header 8
      simp only [left] at header
      simp [turn, kDecSATransform, header, unpack, Item.num?] at follows

/-- A turn of a loop that goes on leaves less than there was. -/
def Consumes (p : Point) : Prop := ∀ q, p.turn = some q → q.left.len < p.left.len

theorem consumes_iff (p : Point) : p.Consumes ↔ ¬ p.Repeats := by
  constructor
  · intro consumes repeats
    obtain ⟨q, follows⟩ : ∃ q, p.turn = some q := by
      cases p with
      | payloads data nexttype => exact ⟨_, if_pos ⟨repeats.1, repeats.2.1, repeats.2.2.1⟩⟩
      | proposals data => exact ⟨_, if_pos repeats.1⟩
      | transforms data => exact ⟨_, if_pos repeats.1⟩
    obtain ⟨-, length, rest, same⟩ := left_of_turn follows
    have less := consumes q follows
    rw [rest, same.mp repeats, substr_from, if_neg (Nat.not_lt_zero _)] at less
    exact Nat.lt_irrefl _ less
  · intro once q follows
    obtain ⟨-, length, rest, same⟩ := left_of_turn follows
    rw [rest]
    apply substr_from_lt
    · have : length ≠ 0 := fun zero => once (same.mpr zero)
      omega
    · exact left_pos_of_turn follows

theorem payload_len_le (data : Str) : (kDecGenericPayloadHeader data).payload.len ≤ data.len := by
  simp only [kDecGenericPayloadHeader]
  apply substr_len_le

theorem transforms_len_le (data : Str) : (kDecSAProposal data).transforms.len ≤ data.len := by
  simp only [kDecSAProposal]
  apply substr_len_le

theorem enters_smaller {p q : Point} (inside : p.enters = some q) :
    q.rank < p.rank ∧ q.left.len ≤ p.left.len := by
  cases p with
  | payloads data nexttype =>
      simp only [enters] at inside
      split at inside
      · cases inside
        exact ⟨Nat.lt_succ_self 1, payload_len_le data⟩
      · cases inside
  | proposals data =>
      simp only [enters] at inside
      split at inside
      · cases inside
        exact ⟨Nat.lt_succ_self 0, transforms_len_le data⟩
      · cases inside
  | transforms data => cases inside

/-- A turn of the same loop, or the first one of a loop inside it. -/
def Ordinary (p q : Point) : Prop := p.enters = some q ∨ p.turn = some q

theorem mem_calls {p q : Point} :
    q ∈ p.calls material isInit ↔ p.Ordinary q ∨ p.decrypts material isInit = some q := by
  simp only [calls, List.mem_append, Option.mem_toList, Ordinary]
  tauto

theorem ends_succ (fuel : Nat) (p : Point) :
    p.ends material isInit (fuel + 1) =
      (p.calls material isInit).all (ends material isInit fuel) := by
  cases p with
  | payloads data nexttype => exact ends_payloads material isInit fuel data nexttype
  | proposals data => exact ends_proposals material isInit fuel data
  | transforms data => exact ends_transforms material isInit fuel data

/-- A loop is left when the turns it comes to come to an end. -/
theorem exists_ends_iff (p : Point) :
    (∃ fuel, p.ends material isInit fuel) ↔
      Ends (fun p q => p.Ordinary q ∨ p.decrypts material isInit = some q) p := by
  have iff := PointerChase.returns_iff_ends (calls_of_ends_zero material isInit)
    (ends_succ material isInit) p
  simp only [mem_calls] at iff
  exact iff

/-- Each loop inside another has less to do than the turn it is in. -/
def size (p : Point) : Nat := p.rank + p.left.len

theorem size_lt {p q : Point} (consumes : p.Consumes) (ordinary : p.Ordinary q) :
    q.size < p.size := by
  rcases ordinary with inside | follows
  · obtain ⟨deeper, le⟩ := enters_smaller inside
    exact Nat.add_lt_add_of_lt_of_le deeper le
  · obtain ⟨same, -⟩ := left_of_turn follows
    unfold size
    rw [same]
    exact Nat.add_lt_add_left (consumes q follows) _

end Point

section Message

variable (data : List UInt8) (material : Option Material)

/-- Where the parser of a message begins, and whose keys it uses. -/
def start : Point :=
  .payloads (kDecIKEHeader (some data)).payloads (kDecIKEHeader (some data)).nexttype

def initiator : Bool := (kDecIKEHeader (some data)).initiator

/-- The turns the parser of a message comes to. -/
def Comes (p : Point) : Prop :=
  Relation.ReflTransGen
    (fun p q => p.Ordinary q ∨ p.decrypts material (initiator data) = some q) (start data) p

/-- Encrypted payloads inside one another come to an end. -/
def NestingEnds : Prop :=
  Ends (fun p q => ∃ e, Relation.ReflTransGen Point.Ordinary p e ∧
    e.decrypts material (initiator data) = some q) (start data)

/-- The parser returns, and each turn of its loops that another one follows takes away octets
    of the data. -/
def Terminates : Prop :=
  (∃ fuel, (kParseIKEMessage fuel data material).isSome) ∧
    ∀ p, Comes data material p → p.Consumes

theorem kParseIKEMessage_isSome (fuel : Nat) :
    (kParseIKEMessage fuel data material).isSome =
      (start data).ends material (initiator data) fuel := by
  simp only [kParseIKEMessage, Option.isSome_map]
  rfl

theorem Terminates.holds_iff :
    Terminates data material ↔
      (∀ p, Comes data material p → ¬ p.Repeats) ∧ NestingEnds data material := by
  have returns : (∃ fuel, (kParseIKEMessage fuel data material).isSome) ↔
      Ends (fun p q => p.Ordinary q ∨ p.decrypts material (initiator data) = some q)
        (start data) := by
    simp only [kParseIKEMessage_isSome]
    exact Point.exists_ends_iff material (initiator data) (start data)
  unfold Terminates
  rw [returns]
  simp only [Point.consumes_iff]
  constructor
  · intro ⟨ends, once⟩
    exact ⟨once, ends.restarts⟩
  · intro ⟨once, few⟩
    refine ⟨ends_of_restarts Point.size ?_ few, once⟩
    intro p q comes ordinary
    exact Point.size_lt ((Point.consumes_iff p).mpr (once p comes)) ordinary

end Message

/-- Without keys nothing is decrypted. -/
theorem nestingEnds_none (data : List UInt8) : NestingEnds data none := by
  apply Acc.intro
  rintro q ⟨e, -, decrypted⟩
  cases e with
  | payloads data nexttype => simp [Point.decrypts] at decrypted
  | proposals data => cases decrypted
  | transforms data => cases decrypted

/-- A header that announces a payload of type 1, and such a payload that announces another
    one with a length of 0. -/
def noLength : List UInt8 := List.replicate 16 0 ++ [1] ++ List.replicate 11 0 ++ [1, 0, 0, 0]

theorem Terminates.not_noLength :
    ¬ ∀ (data : List UInt8) (material : Option Material), Terminates data material := by
  intro all
  obtain ⟨returns, -⟩ := all noLength none
  simp only [kParseIKEMessage_isSome] at returns
  have ends := (Point.exists_ends_iff none (initiator noLength) (start noLength)).mp returns
  have again : (start noLength).turn = some (start noLength) := by decide
  exact ends.not_back (.single (.inl (.inr again)))

end Tahi.Ike
