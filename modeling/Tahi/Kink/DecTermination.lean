import Tahi.Kink.DecTurns

/-! # Where the KINK decoder comes to an end

The loops of the decoder are followed from turn to turn and into one another. A turn over a
payload without a length leaves the data as it is for the next one.
-/

namespace Tahi.Kink

open Perl FuelLoop Relation RoundUp

/-- The beginning of a turn of one of the loops. -/
inductive Point where
  | payloads (sub : String) (s : PayloadsState KINKPayload)
  | quickMode (s : PayloadsState QuickModePayload)
  | proposals (s : Str × List (List Proposal))
  | transforms (s : Str × List Transform)
  | attributes (s : Str × List SAAttribute)

namespace Point

/-- The data that is left. -/
def left : Point → Str
  | payloads _ s => s.data
  | quickMode s => s.data
  | proposals s => s.1
  | transforms s => s.1
  | attributes s => s.1

/-- Whether the loop takes a turn there, rather than end. -/
def continues : Point → Bool
  | payloads _ s => s.next_payload.getD 0 != 0
  | quickMode s => s.next_payload.getD 0 != 0
  | proposals s => s.1.truth
  | transforms s => s.1.truth
  | attributes s => s.1.truth

/-- The fields of the payload there. An attribute has none for its whole length. -/
def template : Point → Option (List Template)
  | payloads _ s => some (payloadTemplate (s.next_payload.getD 0))
  | quickMode s => some (quickModeTemplate (s.next_payload.getD 0))
  | proposals _ => some proposalTemplate
  | transforms _ => some transformTemplate
  | attributes _ => none

/-- The length field of the payload there. -/
def length (p : Point) : Option Nat :=
  p.template.map fun template => lengthField (unpack template p.left.octets)

/-- The turn leads to another place in the same loop. -/
inductive Follows : Point → Point → Prop
  | payloads {sub s t} (leads : Leads (payloadsTurn sub) s t) :
      Follows (payloads sub s) (payloads sub t)
  | quickMode {s t} (leads : Leads quickModeTurn s t) : Follows (quickMode s) (quickMode t)
  | proposals {s t} (leads : Leads proposalsTurn s t) : Follows (proposals s) (proposals t)
  | transforms {s t} (leads : Leads transformsTurn s t) : Follows (transforms s) (transforms t)
  | attributes {s t} (leads : Leads attributesTurn s t) : Follows (attributes s) (attributes t)

/-- The loop the turn has inside. -/
inductive Enters : Point → Point → Prop
  | isakmp {sub s} (type : s.next_payload.getD 0 = 6) :
      Enters (payloads sub s) (quickMode (quickModeStart s.data))
  | sa {s} (type : s.next_payload.getD 0 = 1) :
      Enters (quickMode s) (proposals (saRest s.data, []))
  | proposal {s} (more : s.1.truth) : Enters (proposals s) (transforms (proposalRest s.1, []))
  | transform {s} (more : s.1.truth) :
      Enters (transforms s) (attributes (transformRest s.1, []))

/-- The turns the loop comes to, with those of the loops inside. -/
abbrev Comes : Point → Point → Prop := ReflTransGen fun p q => p.Follows q ∨ p.Enters q

/-- A turn that another one follows leaves less data for it. -/
def Consumes (p : Point) : Prop := ∀ q, p.Follows q → q.continues → q.left.len < p.left.len

/-- Another turn follows, but the payload has no length. -/
def Stalls (p : Point) : Prop := p.length = some 0 ∧ ∃ q, p.Follows q ∧ q.continues

/-- A Kerberos error can be decoded, if the payload is one. -/
def Decodes : Point → Prop
  | payloads _ s =>
      s.next_payload.getD 0 = 3 →
        ∃ krb_error, decode_Kerberos_KRB_ERROR (krbError s.data) = .ok krb_error
  | _ => True

end Point

/-- A decoder gave a result, or ended the process at a payload of an unknown type. -/
def Ended {α : Type} : Except Exit α → Prop
  | .ok _ => True
  | .error (.unknownNextPayload _ _) => True
  | .error (.asn1 _) => False

/-- The decoder of a whole message comes to an end, and all loops on the way take something off
    the data in each turn. -/
def PacketTerminates (data : Str) : Prop :=
  (∃ r, Gives kDecKINKPacket data r ∧ Ended r) ∧
    ∀ p, (Point.payloads "kDecKINKPacket" (packetStart data)).Comes p → p.Consumes

/-- The same for the payloads inside a decrypted one. -/
def PlainTerminates (data : Str) : Prop :=
  (∃ r, Gives (fun fuel data => kDecKINK_ENCRYPT_Payload fuel data true) data r ∧ Ended r) ∧
    ∀ p, (Point.payloads "kDecKINK_ENCRYPT_Payload" (plainStart data)).Comes p → p.Consumes

/-- The same for quick mode payloads. -/
def QuickModeTerminates (data : Str) (inner_next_payload : Option Nat) : Prop :=
  (∃ r, Gives (fun fuel data => decode_ISAKMP_Payload fuel data inner_next_payload) data r ∧
      Ended r) ∧
    ∀ p, (Point.quickMode ⟨data, inner_next_payload, []⟩).Comes p → p.Consumes

namespace Point

/-- A type that announces another payload is an octet of the data. -/
theorem pos_of_nextPayload {template : List Template} (numbers : Numbers template) {data : Str}
    (more : (common data (unpack template data.octets)).nextPayload.getD 0 ≠ 0) :
    0 < data.len := by
  unfold Str.len
  cases octets : data.octets with
  | nil =>
      rw [octets, numbers.unpack_nil] at more
      exact absurd rfl more
  | cons _ _ => simp

/-- The next turn begins behind the length of the payload. Where it takes one, there are octets
    left for it to be behind. -/
theorem Follows.left_eq {p q : Point} (follows : p.Follows q) :
    (∃ template, p.template = some template ∧ Numbers template ∧
      q.left = (common p.left (unpack template p.left.octets)).remain ∧
      (q.continues → 0 < p.left.len)) ∨
    (p.template = none ∧ q.left.len < p.left.len) := by
  cases follows with
  | @payloads sub s t leads =>
      obtain ⟨-, decode, known, decoded, gives, next⟩ := leads_typeTurn.mp leads
      cases decoded with
      | error exit => cases next
      | ok payload =>
          cases next
          have fields := payload_common known gives
          refine .inl ⟨_, rfl, numbers_payload _, congrArg Common.remain fields, ?_⟩
          intro continues
          have more : payload.common.nextPayload.getD 0 ≠ 0 := by
            simpa [Point.continues] using continues
          rw [fields] at more
          exact pos_of_nextPayload (numbers_payload _) more
  | @quickMode s t leads =>
      obtain ⟨-, decode, known, payload, gives, next⟩ := leads_typeTurn.mp leads
      cases next
      have fields := quickMode_common known gives
      refine .inl ⟨_, rfl, numbers_quickMode _, congrArg Common.remain fields, ?_⟩
      intro continues
      have more : payload.common.nextPayload.getD 0 ≠ 0 := by
        simpa [Point.continues] using continues
      rw [fields] at more
      exact pos_of_nextPayload (numbers_quickMode _) more
  | proposals leads =>
      obtain ⟨more, proposal, gives, rfl⟩ := leads_restTurn.mp leads
      have fields := decode_Proposal_Payload_common gives
      exact .inl ⟨_, rfl, numbers_proposal, congrArg Common.remain fields,
        fun _ => truth_of_octets more⟩
  | transforms leads =>
      obtain ⟨more, transform, gives, rfl⟩ := leads_restTurn.mp leads
      have fields := decode_Transform_Payload_common gives
      exact .inl ⟨_, rfl, numbers_transform, congrArg Common.remain fields,
        fun _ => truth_of_octets more⟩
  | attributes leads =>
      obtain ⟨more, attr, gives, rfl⟩ := leads_restTurn.mp leads
      cases (gives_pure _ _).mp gives
      exact .inr ⟨rfl, decode_SA_Attribute_remain more⟩

/-- A turn takes something off the data exactly when the payload has a length. -/
theorem consumes_iff (p : Point) : p.Consumes ↔ ¬ p.Stalls := by
  have shorter_iff {q : Point} (follows : p.Follows q) (continues : q.continues) :
      q.left.len < p.left.len ↔ p.length ≠ some 0 := by
    rcases follows.left_eq with ⟨template, fields, numbers, left, nonempty⟩ | ⟨none, shorter⟩
    · have fits := numbers.lengthField_lt p.left.octets
      rw [left, common_remain_lt_iff fits (nonempty continues), length, fields]
      simp
    · simp [shorter, length, none]
  constructor
  · intro consumes ⟨zero, q, follows, continues⟩
    exact (shorter_iff follows continues).mp (consumes q follows continues) zero
  · intro moves q follows continues
    apply (shorter_iff follows continues).mpr
    intro zero
    exact moves ⟨zero, q, follows, continues⟩

section Returning

variable {σ ρ : Type} {turn : Nat → σ → Option (Turn σ ρ)} {s : σ}

/-- A loop returns if its turns do and take something off the data. -/
theorem returns_of_consumes (place : σ → Point) (grows : Grows turn)
    (follows : ∀ {s t}, Leads turn s t → (place s).Follows (place t))
    (continues : ∀ {s t}, Leads turn s t → (place s).continues)
    (turns : ∀ t, FuelLoop.Comes turn s t → Returns turn t)
    (consumes : ∀ t, FuelLoop.Comes turn s t → (place t).Consumes) : Returns (run turn) s := by
  apply returns_of_smaller grows
    (fun t => if (place t).continues then (place t).left.len + 1 else 0) turns
  intro t u comes leads
  simp only [continues leads, if_true]
  split
  · rename_i more
    exact Nat.succ_lt_succ (consumes t comes _ (follows leads) more)
  · exact Nat.succ_pos _

/-- The turns of one loop are among those it comes to with the loops inside. -/
theorem comes_of_comes {place : σ → Point}
    (follows : ∀ {s t}, Leads turn s t → (place s).Follows (place t)) {t : σ}
    (comes : FuelLoop.Comes turn s t) : (place s).Comes (place t) :=
  ReflTransGen.lift place (fun _ _ leads => Or.inl (follows leads)) _ _ comes

end Returning

theorem returns_attributes (data : Str) : Returns decode_SA_Attributes data := by
  apply returns_of_consumes attributes (s := (data, [])) attributesTurn_grows .attributes
  · intro s t leads
    exact (leads_restTurn.mp leads).1
  · intro t _
    exact returns_restTurn fun _ => returns_pure _ _
  · intro t _ q follows _
    cases follows with
    | attributes leads =>
        obtain ⟨more, attr, gives, rfl⟩ := leads_restTurn.mp leads
        cases (gives_pure _ _).mp gives
        exact decode_SA_Attribute_remain more

/-- Where every turn takes something off the data, the loops return. -/
def Onward (p : Point) : Prop := ∀ q, p.Comes q → q.Consumes

theorem Onward.of_comes {p q : Point} (onward : p.Onward) (comes : p.Comes q) : q.Onward :=
  fun r behind => onward r (comes.trans behind)

theorem Onward.of_enters {p q : Point} (onward : p.Onward) (enters : p.Enters q) : q.Onward :=
  onward.of_comes (.single (.inr enters))

theorem Onward.transforms {data : Str} (onward : (transforms (data, [])).Onward) :
    Returns decode_Transforms data := by
  apply returns_of_consumes Point.transforms (s := (data, [])) transformsTurn_grows
    .transforms
  · intro s t leads
    exact (leads_restTurn.mp leads).1
  · intro t _
    apply returns_restTurn
    intro _
    exact returns_map.mpr (returns_attributes (transformRest t.1))
  · intro t comes
    exact onward _ (comes_of_comes .transforms comes)

theorem Onward.proposals {data : Str} (onward : (proposals (data, [])).Onward) :
    Returns decode_Proposals data := by
  apply returns_of_consumes Point.proposals (s := (data, [])) proposalsTurn_grows
    .proposals
  · intro s t leads
    exact (leads_restTurn.mp leads).1
  · intro t comes
    apply returns_restTurn
    intro more
    have inside := (onward.of_comes (comes_of_comes .proposals comes)).of_enters (.proposal more)
    exact returns_map.mpr inside.transforms
  · intro t comes
    exact onward _ (comes_of_comes .proposals comes)

theorem Onward.quickMode {s : PayloadsState QuickModePayload} (onward : (quickMode s).Onward) :
    Returns (run quickModeTurn) s := by
  apply returns_of_consumes Point.quickMode quickModeTurn_grows .quickMode
  · intro s t leads
    have more := (leads_typeTurn.mp leads).1
    simpa [Point.continues] using more
  · intro t comes
    apply returns_typeTurn
    intro decode known
    have here := onward.of_comes (comes_of_comes .quickMode comes)
    unfold isakmp_decode_functions at known
    split at known <;> cases known
    · rename_i type
      have inside := here.of_enters (.sa type)
      exact returns_map.mpr inside.proposals
    all_goals exact returns_pure _ _
  · intro t comes
    exact onward _ (comes_of_comes .quickMode comes)

theorem Onward.payloads {sub : String} {s : PayloadsState KINKPayload}
    (onward : (payloads sub s).Onward) : Returns (run (payloadsTurn sub)) s := by
  apply returns_of_consumes (Point.payloads sub) (payloadsTurn_grows sub) .payloads
  · intro s t leads
    have more := (leads_typeTurn.mp leads).1
    simpa [Point.continues] using more
  · intro t comes
    apply returns_typeTurn
    intro decode known
    have here := onward.of_comes (comes_of_comes .payloads comes)
    unfold decode_functions at known
    split at known <;> cases known
    case h_6 type =>
      have inside := here.of_enters (.isakmp type)
      exact returns_map.mpr inside.quickMode
    all_goals exact returns_pure _ _
  · intro t comes
    exact onward _ (comes_of_comes .payloads comes)

/-- No other loop has the one over the payloads of a message inside. -/
theorem comes_payloads {p : Point} {sub : String} {t : PayloadsState KINKPayload}
    (comes : p.Comes (payloads sub t)) :
    ∃ s, p = payloads sub s ∧ FuelLoop.Comes (payloadsTurn sub) s t := by
  generalize same : payloads sub t = q at comes
  induction comes generalizing t with
  | refl => exact ⟨t, same.symm, .refl⟩
  | tail _ leads ih =>
      rcases leads with follows | enters
      · cases follows with
        | payloads leads =>
            cases same
            obtain ⟨s, start, on⟩ := ih rfl
            exact ⟨s, start, on.tail leads⟩
        | _ => cases same
      · cases enters <;> cases same

theorem ended_quickMode {s : PayloadsState QuickModePayload}
    {r : Except Exit (List QuickModePayload)} (gives : Gives (run quickModeTurn) s r) :
    Ended r := by
  obtain ⟨t, -, last⟩ := run_last gives
  rcases done_typeTurn last with rfl | ⟨type, rfl⟩ | ⟨decode, x, -, -, ended⟩
  · trivial
  · trivial
  · cases ended

/-- A message ends as announced unless there is a Kerberos error among its payloads that cannot be
    decoded. -/
theorem ended_payloads {sub : String} {s : PayloadsState KINKPayload}
    {r : Except Exit (List KINKPayload)} (gives : Gives (run (payloadsTurn sub)) s r) :
    Ended r ↔ ∀ q, (payloads sub s).Comes q → q.Decodes := by
  constructor
  · intro ended q comes
    cases q with
    | payloads sub' t =>
        intro type
        obtain ⟨s', same, comes⟩ := comes_payloads comes
        cases same
        cases krb : decode_Kerberos_KRB_ERROR (krbError t.data) with
        | ok krb_error => exact ⟨krb_error, rfl⟩
        | error exit =>
            have known : decode_functions (t.next_payload.getD 0) =
                some fun _ data => some (kDecKINK_KRB_ERROR_Payload data) := by
              rw [type]
              rfl
            have decoded : Gives (fun _ data => some (kDecKINK_KRB_ERROR_Payload data)) t.data
                (.error (.asn1 exit)) :=
              (gives_pure _ _).mpr (kDecKINK_KRB_ERROR_Payload_error krb).symm
            have last : Gives (payloadsTurn sub) t (.done (.error (.asn1 exit))) :=
              gives_typeTurn (by omega) known decoded
            have fails := (run_of_comes (payloadsTurn_grows sub) comes).mpr (run_done last)
            cases Gives.unique (payloadsTurn_grows sub).run gives fails
            exact absurd ended id
    | _ => trivial
  · intro decodes
    obtain ⟨t, comes, last⟩ := run_last gives
    rcases done_typeTurn last with rfl | ⟨type, rfl⟩ | ⟨decode, x, known, decoded, ended⟩
    · trivial
    · trivial
    · have here := decodes _ (comes_of_comes .payloads comes)
      have onlyUnknown : ∀ exit, x = .error exit → Ended (.error exit : Except Exit Unit) := by
        rintro exit rfl
        unfold decode_functions at known
        split at known <;> cases known
        case h_3 type =>
          obtain ⟨krb_error, krb⟩ := here type
          have decoded := (gives_pure kDecKINK_KRB_ERROR_Payload _).mp decoded
          rw [kDecKINK_KRB_ERROR_Payload_ok krb] at decoded
          cases decoded
        case h_6 =>
          obtain ⟨inside, run, whole⟩ := gives_map.mp decoded
          have ended := ended_quickMode run
          cases inside with
          | ok payloads => cases whole
          | error exit =>
              cases whole
              cases exit with
              | unknownNextPayload _ _ => trivial
              | asn1 _ => exact ended
        all_goals
          cases (gives_pure _ _).mp decoded
      cases x with
      | ok payload => cases ended
      | error exit =>
          cases ended
          have ended := onlyUnknown exit rfl
          cases exit with
          | unknownNextPayload _ _ => trivial
          | asn1 _ => exact ended

/-- What a turn needs for the loops to come to an end. -/
def Sound (p : Point) : Prop := ¬ p.Stalls ∧ p.Decodes

theorem terminates_payloads (sub : String) (s : PayloadsState KINKPayload) :
    ((∃ r, Gives (run (payloadsTurn sub)) s r ∧ Ended r) ∧
      ∀ p, (payloads sub s).Comes p → p.Consumes) ↔
    ∀ p, (payloads sub s).Comes p → p.Sound := by
  constructor
  · intro ⟨⟨r, gives, ended⟩, onward⟩ p comes
    exact ⟨(consumes_iff p).mp (onward p comes), (ended_payloads gives).mp ended p comes⟩
  · intro sound
    have onward : (payloads sub s).Onward :=
      fun p comes => (consumes_iff p).mpr (sound p comes).1
    obtain ⟨r, gives⟩ := onward.payloads
    have ended := (ended_payloads gives).mpr fun p comes => (sound p comes).2
    exact ⟨⟨r, gives, ended⟩, onward⟩

/-- The loop over the quick mode payloads does not come to any Kerberos error. -/
theorem decodes_of_comes_quickMode {s : PayloadsState QuickModePayload} {p : Point}
    (comes : (quickMode s).Comes p) : p.Decodes := by
  cases p with
  | payloads sub t =>
      obtain ⟨s', same, -⟩ := comes_payloads comes
      cases same
  | _ => trivial

theorem terminates_quickMode (s : PayloadsState QuickModePayload) :
    ((∃ r, Gives (run quickModeTurn) s r ∧ Ended r) ∧
      ∀ p, (quickMode s).Comes p → p.Consumes) ↔
    ∀ p, (quickMode s).Comes p → p.Sound := by
  constructor
  · rintro ⟨-, onward⟩ p comes
    exact ⟨(consumes_iff p).mp (onward p comes), decodes_of_comes_quickMode comes⟩
  · intro sound
    have onward : (quickMode s).Onward :=
      fun p comes => (consumes_iff p).mpr (sound p comes).1
    obtain ⟨r, gives⟩ := onward.quickMode
    exact ⟨⟨r, gives, ended_quickMode gives⟩, onward⟩

end Point

theorem ended_map {α β : Type} (f : α → β) (r : Except Exit α) : Ended (r.map f) ↔ Ended r := by
  cases r with
  | ok x => rfl
  | error exit => cases exit <;> rfl

/-- A decoder ends when the loop in it does. -/
theorem ended_gives_map {σ α β : Type} {run : Nat → σ → Option (Except Exit α)} {start : Str → σ}
    {result : Str → α → β} {data : Str} :
    (∃ r, Gives (fun fuel data => (run fuel (start data)).map fun decoded =>
      decoded.map (result data)) data r ∧ Ended r) ↔
    ∃ r, Gives run (start data) r ∧ Ended r := by
  constructor
  · rintro ⟨r, gives, ended⟩
    obtain ⟨decoded, inside, rfl⟩ := gives_map.mp gives
    exact ⟨decoded, inside, (ended_map _ _).mp ended⟩
  · rintro ⟨decoded, gives, ended⟩
    exact ⟨_, gives_map.mpr ⟨decoded, gives, rfl⟩, (ended_map _ _).mpr ended⟩

/-- The decoders come to an end, with a result or at an unknown type, exactly when no payload on the
    way that another one follows is without a length, and every Kerberos error can be decoded. -/
theorem terminates_iff_sound (data : Str) (inner_next_payload : Option Nat) :
    (PacketTerminates data ↔
      ∀ p, (Point.payloads "kDecKINKPacket" (packetStart data)).Comes p → p.Sound) ∧
    (PlainTerminates data ↔
      ∀ p, (Point.payloads "kDecKINK_ENCRYPT_Payload" (plainStart data)).Comes p → p.Sound) ∧
    (QuickModeTerminates data inner_next_payload ↔
      ∀ p, (Point.quickMode ⟨data, inner_next_payload, []⟩).Comes p → p.Sound) := by
  refine ⟨?_, ?_, Point.terminates_quickMode ⟨data, inner_next_payload, []⟩⟩
  · rw [← Point.terminates_payloads]
    exact and_congr_left' ended_gives_map
  · rw [← Point.terminates_payloads]
    exact and_congr_left' ended_gives_map

/-- A header that announces an `AP_REQ` payload, and such a payload that announces another one but
    has no length. -/
def noLength : List UInt8 := [1, 0x10, 0, 20, 0, 0, 0, 1, 0, 0, 0, 1, 1, 0, 0, 0] ++ [1, 0, 0, 0]

/-- Each turn finds the same payload again. -/
theorem run_noLength (fuel : Nat) (payloads : List KINKPayload) :
    run (payloadsTurn "kDecKINKPacket") fuel ⟨some [1, 0, 0, 0], some 1, payloads⟩ = none := by
  induction fuel generalizing payloads with
  | zero => rfl
  | succ fuel ih =>
      let payload := kDecKINK_AP_REQ_Payload (some [1, 0, 0, 0])
      have remain : payload.common.remain = some [1, 0, 0, 0] := by decide
      have next_payload : payload.common.nextPayload = some 1 := by decide
      have again : payloadsTurn "kDecKINKPacket" fuel ⟨some [1, 0, 0, 0], some 1, payloads⟩ =
          some (.next ⟨payload.common.remain, payload.common.nextPayload,
            payloads ++ [payload]⟩) := rfl
      rw [remain, next_payload] at again
      rw [run, again]
      exact ih _

theorem not_terminates :
    ¬ ((∀ data, PacketTerminates (some data)) ∧ (∀ data, PlainTerminates (some data)) ∧
      ∀ data type, QuickModeTerminates (some data) type) := by
  rintro ⟨all, -, -⟩
  obtain ⟨⟨r, ⟨fuel, gives⟩, -⟩, -⟩ := all noLength
  have start : packetStart (some noLength) = ⟨some [1, 0, 0, 0], some 1, []⟩ := rfl
  rw [kDecKINKPacket, start, run_noLength] at gives
  cases gives

end Tahi.Kink
