import Tahi.Kink.KDec

/-! # The turns of the loops in the decoder

What each turn of a loop needs to return, and where it leaves the data for the next one.
-/

namespace Tahi.Kink

open Perl FuelLoop RoundUp

section Rest

variable {α ρ : Type} {decode : Nat → Str → Option α} {remain : α → Str} {push : ρ → α → ρ}

theorem restTurn_grows (grows : Grows decode) : Grows (restTurn decode remain push) := by
  intro n s x gives
  unfold restTurn at gives ⊢
  split
  · rename_i more
    rw [if_pos more] at gives
    obtain ⟨a, enough, rfl⟩ := Option.map_eq_some_iff.mp gives
    rw [grows n s.1 a enough]
    rfl
  · rename_i ended
    rwa [if_neg ended] at gives

theorem leads_restTurn {s t : Str × ρ} :
    Leads (restTurn decode remain push) s t ↔
      s.1.truth ∧ ∃ x, Gives decode s.1 x ∧ t = (remain x, push s.2 x) := by
  unfold Leads Gives restTurn
  cases more : s.1.truth with
  | false => simp
  | true =>
      simp only [if_true, Option.map_eq_some_iff, Turn.next.injEq, true_and]
      constructor
      · rintro ⟨n, x, enough, rfl⟩
        exact ⟨x, ⟨n, enough⟩, rfl⟩
      · rintro ⟨x, ⟨n, enough⟩, rfl⟩
        exact ⟨n, x, enough, rfl⟩

theorem returns_restTurn {s : Str × ρ} (returns : s.1.truth → Returns decode s.1) :
    Returns (restTurn decode remain push) s := by
  cases more : s.1.truth with
  | false => exact ⟨.done s.2, 0, by simp [restTurn, more]⟩
  | true =>
      obtain ⟨x, gives⟩ := returns more
      exact ⟨_, leads_restTurn.mpr ⟨more, x, gives, rfl⟩⟩

theorem truth_of_octets {s : Str} (truth : s.truth) : 0 < s.len := by
  unfold Str.len
  cases data : s.octets with
  | nil => simp [Str.truth, data] at truth
  | cons _ _ => simp

end Rest

section Types

variable {α ξ : Type} {sub : String} {functions : Nat → Option (Nat → Str → Option ξ)}
  {behind : PayloadsState α → ξ → Turn (PayloadsState α) (Except Exit (List α))}

theorem typeTurn_grows (grows : ∀ type decode, functions type = some decode → Grows decode) :
    Grows (typeTurn sub functions behind) := by
  intro n s x gives
  unfold typeTurn at gives ⊢
  split
  · rename_i ended
    rwa [if_pos ended] at gives
  · rename_i more
    rw [if_neg more] at gives
    cases known : functions (s.next_payload.getD 0) with
    | none =>
        rw [known] at gives
        exact gives
    | some decode =>
        rw [known] at gives
        obtain ⟨payload, enough, rfl⟩ := Option.map_eq_some_iff.mp gives
        simp only [grows _ _ known n s.data payload enough, Option.map_some]

/-- A turn that another one follows decodes a payload of a known type. -/
theorem leads_typeTurn {s t : PayloadsState α} :
    Leads (typeTurn sub functions behind) s t ↔
      s.next_payload.getD 0 ≠ 0 ∧ ∃ decode, functions (s.next_payload.getD 0) = some decode ∧
        ∃ x, Gives decode s.data x ∧ behind s x = .next t := by
  unfold Leads Gives typeTurn
  by_cases ended : s.next_payload.getD 0 = 0
  · simp [ended]
  · cases known : functions (s.next_payload.getD 0) with
    | none => simp [ended]
    | some decode =>
        simp only [ended, if_false, ne_eq, not_false_eq_true, true_and, Option.some.injEq,
          exists_eq_left', Option.map_eq_some_iff]
        constructor
        · rintro ⟨n, x, enough, next⟩
          exact ⟨x, ⟨n, enough⟩, next⟩
        · rintro ⟨x, ⟨n, enough⟩, next⟩
          exact ⟨n, x, enough, next⟩

theorem gives_typeTurn {s : PayloadsState α} {decode : Nat → Str → Option ξ} {x : ξ}
    (more : s.next_payload.getD 0 ≠ 0) (known : functions (s.next_payload.getD 0) = some decode)
    (gives : Gives decode s.data x) : Gives (typeTurn sub functions behind) s (behind s x) := by
  obtain ⟨n, enough⟩ := gives
  exact ⟨n, by simp [typeTurn, more, known, enough]⟩

/-- The last turn of the loop finds nothing more, or a type without a decoder, or the process is
    ended by one. -/
theorem done_typeTurn {s : PayloadsState α} {r : Except Exit (List α)}
    (gives : Gives (typeTurn sub functions behind) s (.done r)) :
    r = .ok s.payloads ∨ (∃ type, r = .error (.unknownNextPayload sub type)) ∨
      ∃ decode x, functions (s.next_payload.getD 0) = some decode ∧ Gives decode s.data x ∧
        behind s x = .done r := by
  obtain ⟨n, gives⟩ := gives
  unfold typeTurn at gives
  split at gives
  · cases gives
    exact .inl rfl
  · split at gives
    · cases gives
      exact .inr (.inl ⟨_, rfl⟩)
    · rename_i decode known
      obtain ⟨x, enough, ended⟩ := Option.map_eq_some_iff.mp gives
      exact .inr (.inr ⟨decode, x, known, ⟨n, enough⟩, ended⟩)

theorem returns_typeTurn {s : PayloadsState α}
    (returns : ∀ decode, functions (s.next_payload.getD 0) = some decode →
      Returns decode s.data) :
    Returns (typeTurn sub functions behind) s := by
  unfold Returns Gives typeTurn
  by_cases ended : s.next_payload.getD 0 = 0
  · simp [ended]
  · cases known : functions (s.next_payload.getD 0) with
    | none => simp [ended]
    | some decode =>
        obtain ⟨x, n, enough⟩ := returns decode known
        exact ⟨behind s x, n, by simp [ended, enough]⟩

end Types

section Lengths

/-- The length field as a number, with 0 for one that is cut off. -/
def lengthField (v : List Item) : Nat := (Item.num? v[2]?).getD 0

@[simp] theorem common_length (data : Str) (v : List Item) :
    (common data v).length = lengthField v := by
  unfold common cut Common.length lengthField
  cases Item.num? v[2]? <;> rfl

/-- Templates with `C`, `n` and `N` only. -/
def Numbers (template : List Template) : Prop :=
  ∀ t ∈ template, ∃ n, (0 < n ∧ n ≤ 4) ∧ t = .int n

theorem Numbers.lengthField_lt {template : List Template} (numbers : Numbers template)
    (data : List UInt8) : lengthField (unpack template data) < 2 ^ 32 := by
  unfold lengthField
  cases field : (unpack template data)[2]? with
  | none => decide
  | some item =>
      have sizes : ∀ t ∈ template, ∃ n ≤ 4, t = .int n := by
        intro t mem
        obtain ⟨n, range, same⟩ := numbers t mem
        exact ⟨n, range.2, same⟩
      obtain ⟨n, lt, rfl⟩ := unpack_lt sizes data item (List.mem_of_getElem? field)
      exact lt

theorem Numbers.unpack_nil {template : List Template} (numbers : Numbers template) :
    unpack template [] = [] := by
  induction template with
  | nil => rfl
  | cons t template ih =>
      obtain ⟨n, range, rfl⟩ := numbers t (by simp)
      rw [unpack, List.length_nil, if_pos range.1]
      exact ih fun t mem => numbers t (by simp [mem])

/-- The rest of the data is behind the length, rounded up to four octets. -/
theorem common_remain (data : Str) {v : List Item} (fits : lengthField v < 2 ^ 32) :
    (common data v).remain = substr data (roundUp (lengthField v) 4 : Nat) none := by
  have length : ((Item.num? v[2]?).map Nat.cast : Option Int).getD 0 = lengthField v := by
    unfold lengthField
    cases Item.num? v[2]? <;> rfl
  simp only [common, cut, length, align_four fits, add_sub_cancel]

theorem common_remain_lt_iff {data : Str} {v : List Item} (fits : lengthField v < 2 ^ 32)
    (nonempty : 0 < data.len) : (common data v).remain.len < data.len ↔ lengthField v ≠ 0 := by
  rw [common_remain data fits]
  constructor
  · intro shorter zero
    rw [zero, substr_from] at shorter
    simp [roundUp, Str.len] at shorter
  · intro positive
    have up := le_roundUp (lengthField v) (show 0 < 4 by decide)
    exact substr_from_lt data _ (by omega) nonempty

end Lengths

section Decoders

theorem decode_SA_Attribute_remain {data : Str} (truth : data.truth) :
    (decode_SA_Attribute data).remain.len < data.len := by
  unfold decode_SA_Attribute
  simp only
  split
  · exact substr_from_lt data 4 (by decide) (truth_of_octets truth)
  · exact substr_from_lt data _ (by omega) (truth_of_octets truth)

theorem attributesTurn_grows : Grows attributesTurn := restTurn_grows (grows_pure _)

theorem decode_SA_Attributes_grows : Grows decode_SA_Attributes :=
  fun n data => attributesTurn_grows.run n (data, [])

theorem decode_Transform_Payload_grows : Grows decode_Transform_Payload :=
  Grows.map (fun n data => decode_SA_Attributes_grows n (transformRest data)) _

theorem transformsTurn_grows : Grows transformsTurn := restTurn_grows decode_Transform_Payload_grows

theorem decode_Transforms_grows : Grows decode_Transforms :=
  fun n data => transformsTurn_grows.run n (data, [])

theorem decode_Proposal_Payload_grows : Grows decode_Proposal_Payload :=
  Grows.map (fun n data => decode_Transforms_grows n (proposalRest data)) _

theorem proposalsTurn_grows : Grows proposalsTurn := restTurn_grows decode_Proposal_Payload_grows

theorem decode_Proposals_grows : Grows decode_Proposals :=
  fun n data => proposalsTurn_grows.run n (data, [])

theorem decode_SA_Payload_grows : Grows decode_SA_Payload :=
  Grows.map (fun n data => decode_Proposals_grows n (saRest data)) _

theorem isakmp_decode_functions_grows {type : Nat} {decode : Nat → Str → Option QuickModePayload}
    (known : isakmp_decode_functions type = some decode) : Grows decode := by
  unfold isakmp_decode_functions at known
  split at known <;> cases known
  · exact decode_SA_Payload_grows
  all_goals exact grows_pure _

theorem quickModeTurn_grows : Grows quickModeTurn :=
  typeTurn_grows fun _ _ => isakmp_decode_functions_grows

theorem decode_ISAKMP_Payload_grows (inner_next_payload : Option Nat) :
    Grows fun n data => decode_ISAKMP_Payload n data inner_next_payload :=
  fun n data => quickModeTurn_grows.run n ⟨data, inner_next_payload, []⟩

theorem kDecKINK_ISAKMP_Payload_grows : Grows kDecKINK_ISAKMP_Payload :=
  Grows.map (fun n data => quickModeTurn_grows.run n (quickModeStart data)) _

theorem decode_functions_grows {type : Nat}
    {decode : Nat → Str → Option (Except Exit KINKPayload)}
    (known : decode_functions type = some decode) : Grows decode := by
  unfold decode_functions at known
  split at known <;> cases known
  case h_6 => exact kDecKINK_ISAKMP_Payload_grows
  all_goals exact grows_pure _

theorem payloadsTurn_grows (sub : String) : Grows (payloadsTurn sub) :=
  typeTurn_grows fun _ _ => decode_functions_grows

end Decoders

section Fields

/-- What each decoder of a quick mode payload unpacks. -/
def quickModeTemplate : Nat → List Template
  | 1 => [.int 1, .int 1, .int 2, .int 4, .int 4]
  | 5 => [.int 1, .int 1, .int 2, .int 1, .int 1, .int 2]
  | 11 => [.int 1, .int 1, .int 2, .int 4, .int 1, .int 1, .int 2, .int 4]
  | 12 => [.int 1, .int 1, .int 2, .int 4, .int 1, .int 1, .int 2]
  | _ => [.int 1, .int 1, .int 2]

/-- What each decoder of a payload of a message unpacks. -/
def payloadTemplate : Nat → List Template
  | 1 => [.int 1, .int 1, .int 2, .int 4]
  | 2 => [.int 1, .int 1, .int 2, .int 4]
  | 6 => [.int 1, .int 1, .int 2, .int 1, .int 1, .int 2]
  | 8 => [.int 1, .int 1, .int 2, .int 4]
  | _ => [.int 1, .int 1, .int 2]

def proposalTemplate : List Template :=
  [.int 1, .int 1, .int 2, .int 1, .int 1, .int 1, .int 1, .int 4]

def transformTemplate : List Template := [.int 1, .int 1, .int 2, .int 1, .int 1, .int 2]

theorem numbers_quickMode (type : Nat) : Numbers (quickModeTemplate type) := by
  unfold Numbers quickModeTemplate
  split <;> simp

theorem numbers_payload (type : Nat) : Numbers (payloadTemplate type) := by
  unfold Numbers payloadTemplate
  split <;> simp

theorem numbers_proposal : Numbers proposalTemplate := by simp [Numbers, proposalTemplate]

theorem numbers_transform : Numbers transformTemplate := by simp [Numbers, transformTemplate]

variable {data : Str} {fuel : Nat}

theorem decode_Transform_Payload_common {transform : Transform}
    (gives : Gives decode_Transform_Payload data transform) :
    transform.common = common data (unpack transformTemplate data.octets) := by
  obtain ⟨attributes, -, rfl⟩ := gives_map.mp gives
  rfl

theorem decode_Proposal_Payload_common {proposal : Proposal}
    (gives : Gives decode_Proposal_Payload data proposal) :
    proposal.common = common data (unpack proposalTemplate data.octets) := by
  obtain ⟨transforms, -, rfl⟩ := gives_map.mp gives
  rfl

theorem quickMode_common {type : Nat} {decode : Nat → Str → Option QuickModePayload}
    (known : isakmp_decode_functions type = some decode) {payload : QuickModePayload}
    (gives : Gives decode data payload) :
    payload.common = common data (unpack (quickModeTemplate type) data.octets) := by
  unfold isakmp_decode_functions at known
  split at known <;> cases known
  · obtain ⟨proposals, -, rfl⟩ := gives_map.mp gives
    rfl
  all_goals
    cases (gives_pure _ data).mp gives
    rfl

theorem kDecKINK_KRB_ERROR_Payload_error {exit : ASN1Exit}
    (krb : decode_Kerberos_KRB_ERROR (krbError data) = .error exit) :
    kDecKINK_KRB_ERROR_Payload data = .error (.asn1 exit) := by
  unfold kDecKINK_KRB_ERROR_Payload
  rw [krb]

theorem kDecKINK_KRB_ERROR_Payload_ok {krb_error : TLV}
    (krb : decode_Kerberos_KRB_ERROR (krbError data) = .ok krb_error) :
    kDecKINK_KRB_ERROR_Payload data =
      .ok ⟨common data (genericFields data), .KRB_ERROR krb_error⟩ := by
  unfold kDecKINK_KRB_ERROR_Payload
  rw [krb]

theorem payload_common {type : Nat} {decode : Nat → Str → Option (Except Exit KINKPayload)}
    (known : decode_functions type = some decode) {payload : KINKPayload}
    (gives : Gives decode data (.ok payload)) :
    payload.common = common data (unpack (payloadTemplate type) data.octets) := by
  unfold decode_functions at known
  split at known <;> cases known
  case h_3 =>
    have decoded := (gives_pure kDecKINK_KRB_ERROR_Payload data).mp gives
    cases krb : decode_Kerberos_KRB_ERROR (krbError data) with
    | error exit =>
        rw [kDecKINK_KRB_ERROR_Payload_error krb] at decoded
        cases decoded
    | ok krb_error =>
        rw [kDecKINK_KRB_ERROR_Payload_ok krb] at decoded
        cases decoded
        rfl
  case h_6 =>
    obtain ⟨decoded, -, whole⟩ := gives_map.mp gives
    cases decoded with
    | error exit => cases whole
    | ok payloads =>
        cases whole
        rfl
  all_goals
    cases (gives_pure _ data).mp gives
    rfl

end Fields

end Tahi.Kink
