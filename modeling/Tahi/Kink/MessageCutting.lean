import Tahi.Kink.KerberosRoundTrip
import Tahi.Kink.Message
import Tahi.Kink.QuickModeRoundTrip

/-! # Where a KINK message is cut

The decoder cuts a message by the length fields of its payloads. These are right except for
`TGT_REP`, whose encoder counts two octets more than it puts there.
-/

namespace Tahi.Kink

open Perl FuelLoop RoundUp

section Padding

theorem length_pad {x : List UInt8} (fits : x.length < 2 ^ 32) :
    x.length + (pad x).length = roundUp x.length 4 := by
  have up := le_roundUp x.length (show 0 < 4 by decide)
  rw [pad, List.length_replicate, align_four fits]
  omega

variable {x rest : List UInt8} {v : List Item}

/-- The padding and what is left, where the length field is right. -/
theorem common_padded (field : v[2]? = some (.num x.length)) (fits : x.length < 2 ^ 32) :
    (common (some (x ++ (pad x ++ rest))) v).pad = some (pad x) ∧
      (common (some (x ++ (pad x ++ rest))) v).remain = some rest := by
  have whole := length_pad fits
  have length : lengthField v = x.length := by
    rw [lengthField, field]
    rfl
  constructor
  · have size : (roundUp x.length 4 : Int) - x.length = (pad x).length := by omega
    simp only [common, cut, field, Item.num?, Option.map_some, Option.getD_some]
    rw [align_four fits, size, substr_middle, List.take_left]
  · rw [common_remain _ (by rwa [length]), length, ← whole, ← List.length_append,
      ← List.append_assoc]
    exact substr_behind _ _

end Padding

namespace Message

/-- What comes back of the data that the decoder does not look into. -/
def Opaque : Body → KINKBody → Prop
  | .AP_REQ _ _ ap_req, body => ∃ epoch, body = .AP_REQ epoch (some ap_req)
  | .AP_REP _ _ ap_rep, body => ∃ epoch, body = .AP_REP epoch (some ap_rep)
  | .TGT_REP _ tgt, body => body = .TGT_REP (some tgt)
  | _, _ => True

/-- A payload is cut out where it was put. -/
structure Cut (p : Payload) (payload : KINKPayload) : Prop where
  self : payload.common.self = some p.octets
  length : payload.common.payloadLength = some (p.octets.length : Int)
  pad : ∃ n < 4, payload.common.pad = some (List.replicate n 0)
  data : Opaque p.body payload.body

/-- A message is decoded from what it is encoded to, cut where its payloads were put. -/
def Cuts (m : Message) : Prop :=
  ∃ octets header, m.encode = .ok octets ∧ Gives kDecKINKPacket (some octets) (.ok header) ∧
    List.Forall₂ Cut m.payloads header.payloads

/-- The quick mode payloads inside a payload, if it has any, can be decoded themselves. The length
    of a `TGT_REP` is wrong. -/
def Body.Sound : Body → Prop
  | .TGT_REP .. => False
  | .ISAKMP _ innerNextPayload _ _ _ payloads =>
      ∃ decoded, Gives
        (fun fuel data => decode_ISAKMP_Payload fuel data (some innerNextPayload.toNat))
        (some payloads.octets) (.ok decoded)
  | _ => True

theorem Body.type_ne_zero (body : Body) : body.type ≠ 0 := by
  cases body <;> simp [Body.type]

variable (p : Payload)

theorem Payload.length_octets : p.octets.length = p.body.width + p.body.rest.length := by
  simp [Payload.octets, Payload.fields, Body.width]
  omega

theorem template_eq : payloadTemplate p.body.type = p.fields.map fun f => .int f.1 := by
  obtain ⟨nextPayload, body⟩ := p
  cases body <;> rfl

/-- The first fields are unpacked as they were packed. -/
theorem Payload.unpack_octets (rest : List UInt8) (fits : p.length < 2 ^ 16) :
    unpack (payloadTemplate p.body.type) (p.octets ++ rest) = p.fields.map fun f => .num f.2 := by
  have nibbles (high low : Fin 16) : high.val <<< 4 ||| low.val < 256 := by
    have shifted : high.val <<< 4 < 2 ^ 8 := by
      rw [Nat.shiftLeft_eq]
      omega
    exact Nat.or_lt_two_pow shifted (by omega)
  have inRange : ∀ f ∈ p.body.fields, f.2 < 256 ^ f.1 := by
    cases p.body with
    | AP_REQ _ epoch _ => simp [Body.fields, epoch.toNat_lt]
    | AP_REP _ epoch _ => simp [Body.fields, epoch.toNat_lt]
    | ISAKMP _ innerNextPayload qmmaj qmmin reserved2 _ =>
        simp [Body.fields, innerNextPayload.toNat_lt, nibbles, (reserved2.getD 0).toNat_lt]
    | ERROR _ errorCode => simp [Body.fields, errorCode.toNat_lt]
    | KRB_ERROR | TGT_REQ | TGT_REP => simp [Body.fields]
  have all : ∀ f ∈ p.fields, f.2 < 256 ^ f.1 := by
    simp only [Payload.fields, List.cons_append, List.nil_append, List.forall_mem_cons]
    exact ⟨p.nextPayload.toNat_lt, p.body.reserved.toNat_lt, fits, inRange⟩
  rw [template_eq, Payload.octets, List.append_assoc]
  exact unpack_pack p.fields all _

/-- Where the decoders find what is behind the fixed part. -/
theorem Payload.rest_eq {p : Payload} (rest : List UInt8) {v : List Item} (pos : Nat)
    (fields : v = p.fields.map fun f => .num f.2) (start : (pack p.fields).length = pos)
    (right : p.length = p.octets.length) :
    substr (common (some (p.octets ++ rest)) v).self pos
      (some ((common (some (p.octets ++ rest)) v).length - pos)) = some p.body.rest := by
  have field : v[2]? = some (.num p.octets.length) := by
    rw [fields, ← right]
    rfl
  have self : (common (some (p.octets ++ rest)) v).self = some (pack p.fields ++ p.body.rest) :=
    common_self field
  rw [self, common_length_eq _ field, ← start]
  apply substr_behind_length
  rw [Payload.octets, List.length_append]
  omega

variable {p} (rest : List UInt8) (fits : p.length < 2 ^ 16)

theorem length_of_sound {p : Payload} (sound : p.body.Sound) : p.length = p.octets.length := by
  rw [p.length_octets, Payload.length]
  cases body : p.body with
  | TGT_REP _ _ =>
      rw [body] at sound
      exact sound.elim
  | AP_REQ | AP_REP | KRB_ERROR | TGT_REQ | ISAKMP | ERROR => rfl

/-- The quick mode payloads inside a payload are found. -/
theorem quickModeStart_octets {nextPayload : UInt8} {reserved : Option UInt8}
    {innerNextPayload : UInt8} {qmmaj qmmin : Option (Fin 16)} {reserved2 : Option UInt16}
    {payloads : Encodable encode_ISAKMP_Payload} (rest : List UInt8) :
    let p : Payload :=
      ⟨nextPayload, .ISAKMP reserved innerNextPayload qmmaj qmmin reserved2 payloads⟩
    p.length < 2 ^ 16 → quickModeStart (some (p.octets ++ rest)) =
      ⟨some payloads.octets, some innerNextPayload.toNat, []⟩ := by
  intro p fits
  have fields := p.unpack_octets rest fits
  have right : p.length = p.octets.length := p.length_octets.symm
  have behind := Payload.rest_eq rest 8 fields rfl right
  have first : Item.num? (isakmpFields (some (p.octets ++ rest)))[3]? =
      some innerNextPayload.toNat := congrArg (fun v : List Item => Item.num? v[3]?) fields
  rw [quickModeStart, first]
  exact congrArg (fun s => PayloadsState.mk s (some innerNextPayload.toNat) []) behind

include fits

/-- The decoder of the type can do with a payload as far as it does not look into its data. -/
theorem decode_sound (sound : p.body.Sound) :
    ∃ decode x, decode_functions p.body.type = some decode ∧
      Gives decode (some (p.octets ++ rest)) (.ok x) ∧ Opaque p.body x.body := by
  have fields := p.unpack_octets rest fits
  have right := length_of_sound sound
  have inside : p.body.rest.length < 2 ^ 16 := by
    rw [Payload.length] at fits
    omega
  obtain ⟨nextPayload, body⟩ := p
  cases body with
  | AP_REQ reserved epoch ap_req =>
      have behind := Payload.rest_eq rest 8 fields rfl right
      exact ⟨_, _, rfl, ⟨0, rfl⟩, _, congrArg (KINKBody.AP_REQ _) behind⟩
  | AP_REP reserved epoch ap_rep =>
      have behind := Payload.rest_eq rest 8 fields rfl right
      exact ⟨_, _, rfl, ⟨0, rfl⟩, _, congrArg (KINKBody.AP_REP _) behind⟩
  | KRB_ERROR reserved krb_error =>
      have behind := Payload.rest_eq rest 4 fields rfl right
      obtain ⟨decoded, krb⟩ := decode_Kerberos_KRB_ERROR_encode krb_error.encoded
        (Nat.lt_trans inside (by decide))
      have whole := (congrArg decode_Kerberos_KRB_ERROR behind).trans krb
      have ok := kDecKINK_KRB_ERROR_Payload_ok whole
      exact ⟨_, _, rfl, ⟨0, congrArg some ok⟩, trivial⟩
  | ISAKMP reserved innerNextPayload qmmaj qmmin reserved2 payloads =>
      obtain ⟨decoded, n, gives⟩ := sound
      have start := quickModeStart_octets rest fits
      refine ⟨_, _, rfl, gives_map.mpr ⟨.ok decoded, ⟨n, ?_⟩, rfl⟩, trivial⟩
      simp only [start]
      exact gives
  | TGT_REQ | ERROR => exact ⟨_, _, rfl, ⟨0, rfl⟩, trivial⟩
  | TGT_REP reserved tgt => exact sound.elim

/-- What a decoder makes of a payload that it cuts out where it was put. -/
theorem sound_of_cut {decode : Nat → Str → Option (Except Exit KINKPayload)}
    (known : decode_functions p.body.type = some decode) {x : KINKPayload}
    (gives : Gives decode (some (p.octets ++ rest)) (.ok x)) (cut : Cut p x) : p.body.Sound := by
  have fields := p.unpack_octets rest fits
  have length : x.common.payloadLength = some (p.length : Int) := by
    rw [payload_common known gives]
    exact congrArg (fun v : List Item => (Item.num? v[2]?).map Nat.cast) fields
  obtain ⟨nextPayload, body⟩ := p
  cases body with
  | TGT_REP reserved tgt =>
      let p : Payload := ⟨nextPayload, .TGT_REP reserved tgt⟩
      have right : p.octets.length = p.length :=
        Nat.cast_inj.mp (Option.some.inj (cut.length.symm.trans length))
      have short := p.length_octets
      have excess : p.length = p.body.width + p.body.rest.length + 2 := rfl
      omega
  | ISAKMP reserved innerNextPayload qmmaj qmmin reserved2 payloads =>
      have start := quickModeStart_octets rest fits
      cases known
      obtain ⟨decoded, ⟨n, gives⟩, whole⟩ := gives_map.mp gives
      simp only [start] at gives
      cases decoded with
      | error exit => cases whole
      | ok decoded => exact ⟨decoded, n, gives⟩
  | AP_REQ | AP_REP | KRB_ERROR | TGT_REQ | ERROR => trivial

/-- A sound payload is cut out where it was put, and the next one is behind its padding. -/
theorem cut_of_sound (sound : p.body.Sound) :
    ∃ decode x, decode_functions p.body.type = some decode ∧
      Gives decode (some (p.padded ++ rest)) (.ok x) ∧ Cut p x ∧
      x.common.remain = some rest ∧ x.common.nextPayload = some p.nextPayload.toNat := by
  obtain ⟨decode, x, known, gives, data⟩ := decode_sound (pad p.octets ++ rest) fits sound
  have fields := p.unpack_octets (pad p.octets ++ rest) fits
  have right := length_of_sound sound
  have short : p.octets.length < 2 ^ 32 := by omega
  have common := payload_common known gives
  have field : (unpack (payloadTemplate p.body.type) (p.octets ++ (pad p.octets ++ rest)))[2]? =
      some (.num p.octets.length) := by
    rw [fields, ← right]
    rfl
  obtain ⟨padding, left⟩ := common_padded field short
  have few : (pad p.octets).length < 4 := by
    have whole := length_pad short
    have up := roundUp_lt p.octets.length (show 0 < 4 by decide)
    omega
  refine ⟨decode, x, known, ?_, ⟨?_, ?_, ⟨_, few, ?_⟩, data⟩, ?_, ?_⟩
  · rwa [Payload.padded, List.append_assoc]
  · rw [common]
    exact common_self field
  · rw [common, ← right]
    exact congrArg (fun v : List Item => (Item.num? v[2]?).map Nat.cast) fields
  · rw [common]
    exact padding.trans (congrArg some (by simp [pad]))
  · rw [common]
    exact left
  · rw [common]
    exact congrArg (fun v : List Item => Item.num? v[0]?) fields

end Message

section Loop

open Message

variable {sub : String} {s : PayloadsState KINKPayload}

theorem leads_payloadsTurn {t : PayloadsState KINKPayload} :
    Leads (payloadsTurn sub) s t ↔
      s.next_payload.getD 0 ≠ 0 ∧ ∃ decode x,
        decode_functions (s.next_payload.getD 0) = some decode ∧ Gives decode s.data (.ok x) ∧
          t = ⟨x.common.remain, x.common.nextPayload, s.payloads ++ [x]⟩ := by
  constructor
  · intro leads
    obtain ⟨more, decode, known, decoded, gives, behind⟩ := leads_typeTurn.mp leads
    cases decoded with
    | error exit => cases behind
    | ok x =>
        cases behind
        exact ⟨more, decode, x, known, gives, rfl⟩
  · rintro ⟨more, decode, x, known, gives, rfl⟩
    exact leads_typeTurn.mpr ⟨more, decode, known, .ok x, gives, rfl⟩

theorem done_payloadsTurn {payloads : List KINKPayload}
    (gives : Gives (payloadsTurn sub) s (.done (.ok payloads))) : payloads = s.payloads := by
  rcases done_typeTurn gives with same | ⟨type, failed⟩ | ⟨decode, decoded, -, -, behind⟩
  · exact Except.ok.inj same
  · cases failed
  · cases decoded <;> cases behind

/-- The loop keeps what is decoded so far. -/
theorem payloads_kept {payloads : List KINKPayload}
    (gives : Gives (run (payloadsTurn sub)) s (.ok payloads)) :
    ∃ decoded, payloads = s.payloads ++ decoded := by
  obtain ⟨t, comes, ends⟩ := run_last gives
  cases done_payloadsTurn ends
  clear gives ends
  induction comes with
  | refl => exact ⟨[], (List.append_nil _).symm⟩
  | tail _ leads ih =>
      obtain ⟨-, decode, x, -, -, rfl⟩ := leads_payloadsTurn.mp leads
      obtain ⟨decoded, before⟩ := ih
      exact ⟨decoded ++ [x], by rw [← List.append_assoc, ← before]⟩

/-- The loop cuts out payloads that are all sound. -/
theorem run_of_sound (ps : List Payload) (fits : ∀ p ∈ ps, p.length < 2 ^ 16) (linked : Linked ps)
    (octets : s.data = some (ps.flatMap Payload.padded))
    (type : s.next_payload.getD 0 = firstType ps) (sound : ∀ p ∈ ps, p.body.Sound) :
    ∃ decoded, Gives (run (payloadsTurn sub)) s (.ok (s.payloads ++ decoded)) ∧
      List.Forall₂ Cut ps decoded := by
  induction ps generalizing s with
  | nil =>
      refine ⟨[], run_done ⟨0, ?_⟩, .nil⟩
      have ended : s.next_payload.getD 0 = 0 := type
      simp [payloadsTurn, typeTurn, ended]
  | cons p ps ih =>
      obtain ⟨decode, x, known, gives, cut, left, next⟩ :=
        cut_of_sound (ps.flatMap Payload.padded) (fits p (by simp)) (sound p (by simp))
      let t : PayloadsState KINKPayload :=
        ⟨x.common.remain, x.common.nextPayload, s.payloads ++ [x]⟩
      have leads : Leads (payloadsTurn sub) s t := by
        apply leads_payloadsTurn.mpr
        rw [type, octets]
        exact ⟨p.body.type_ne_zero, decode, x, known, gives, rfl⟩
      obtain ⟨decoded, rest, cuts⟩ := ih (fun q mem => fits q (by simp [mem])) linked.2
        (s := t) left (by rw [← linked.1, show t.next_payload = _ from next]; rfl)
        fun q mem => sound q (by simp [mem])
      refine ⟨x :: decoded, run_next (payloadsTurn_grows sub) leads ?_, .cons cut cuts⟩
      rwa [List.append_cons]

/-- Where the loop cuts out all payloads, they are sound. -/
theorem sound_of_run (ps : List Payload) (fits : ∀ p ∈ ps, p.length < 2 ^ 16) (linked : Linked ps)
    (octets : s.data = some (ps.flatMap Payload.padded))
    (type : s.next_payload.getD 0 = firstType ps) {decoded : List KINKPayload}
    (gives : Gives (run (payloadsTurn sub)) s (.ok (s.payloads ++ decoded)))
    (cuts : List.Forall₂ Cut ps decoded) : ∀ p ∈ ps, p.body.Sound := by
  induction ps generalizing s decoded with
  | nil => simp
  | cons p ps ih =>
      cases cuts with
      | @cons _ x _ decoded cut cuts =>
          rcases run_cases gives with ends | ⟨t, leads, gives⟩
          · have nothing := done_payloadsTurn ends
            simp at nothing
          · obtain ⟨-, decode, y, known, once, here⟩ := leads_payloadsTurn.mp leads
            obtain ⟨others, same⟩ := payloads_kept gives
            have parts : y = x ∧ others = decoded := by simpa [here] using same.symm
            obtain ⟨rfl, rfl⟩ := parts
            rw [type] at known
            rw [octets, List.flatMap_cons] at once
            have sound : p.body.Sound := by
              rw [Payload.padded, List.append_assoc] at once
              exact sound_of_cut _ (fits p (by simp)) known once cut
            obtain ⟨decode', x', known', once', -, left, next⟩ :=
              cut_of_sound (ps.flatMap Payload.padded) (fits p (by simp)) sound
            cases known.symm.trans known'
            cases once.unique (decode_functions_grows known') once'
            rw [same] at gives
            have rest := ih (fun q mem => fits q (by simp [mem])) linked.2 (s := t)
              (by rw [here]; exact left) (by rw [here, ← linked.1]; exact congrArg (·.getD 0) next)
              gives cuts
            exact List.forall_mem_cons.mpr ⟨sound, rest⟩

end Loop
namespace Message

variable (m : Message)

theorem firstType_lt (ps : List Payload) : firstType ps < 256 := by
  cases ps with
  | nil => decide
  | cons p ps =>
      obtain ⟨nextPayload, body⟩ := p
      cases body <;> simp [firstType, Body.type]

theorem unpack_headerFields (fits : m.length < 2 ^ 16) :
    unpack [.int 1, .int 1, .int 2, .int 4, .int 4, .int 1, .int 1, .int 2] (pack m.headerFields) =
      m.headerFields.map fun f => .num f.2 := by
  have version : m.mjVer.val <<< 4 ||| m.reserved.val < 256 := by
    have shifted : m.mjVer.val <<< 4 < 2 ^ 8 := by
      rw [Nat.shiftLeft_eq]
      omega
    exact Nat.or_lt_two_pow shifted (by omega)
  have flags : m.ackreq.val <<< 7 ||| m.reserved2.val < 256 := by
    have shifted : m.ackreq.val <<< 7 < 2 ^ 8 := by
      rw [Nat.shiftLeft_eq]
      omega
    exact Nat.or_lt_two_pow shifted (by omega)
  have cksum : m.cksum.length < 2 ^ 16 := by
    unfold length at fits
    omega
  have inRange : ∀ f ∈ m.headerFields, f.2 < 256 ^ f.1 := by
    simp only [headerFields, List.forall_mem_cons]
    exact ⟨m.type.toNat_lt, version, fits, m.doi.toNat_lt, m.xid.toNat_lt, firstType_lt _, flags,
      cksum, by simp⟩
  have unpacked := unpack_pack m.headerFields inRange []
  rwa [List.append_nil] at unpacked

/-- The checksum and the header are cut off. -/
theorem packetStart_octets (fits : m.length < 2 ^ 16) :
    (packetStart (some m.octets)).data = some m.body ∧
      (packetStart (some m.octets)).next_payload.getD 0 = firstType m.payloads ∧
        (packetStart (some m.octets)).payloads = [] := by
  have sixteen : (pack m.headerFields).length = 16 := length_pack _
  have self : substr (some m.octets) 0 (some 16) = some (pack m.headerFields) := by
    have first := substr_first (some m.octets) 16
    rwa [Str.octets_some, octets, List.append_assoc, List.take_left' sixteen] at first
  have behind : substr (some m.octets) 16 (some (m.length - 16)) = some (m.body ++ m.cksum) := by
    have length : (m.length - 16 : Int) = (m.body ++ m.cksum).length := by
      rw [Message.length, List.length_append]
      omega
    have rest := substr_behind_length (pack m.headerFields) (m.body ++ m.cksum) length
    rwa [sixteen, ← List.append_assoc] at rest
  have fields := m.unpack_headerFields fits
  have next : (kDecKINKHeader (some m.octets)).nextPayload = some (firstType m.payloads) := by
    simp only [kDecKINKHeader, self, Str.octets_some, fields]
    rfl
  have left : (kDecKINKHeader (some m.octets)).remain = some m.body := by
    let v : List Item := m.headerFields.map fun f => .num f.2
    have size : (Item.num? v[2]?).getD 0 = m.length := rfl
    have cksum : (Item.num? v[7]?).getD 0 = m.cksum.length := rfl
    simp only [kDecKINKHeader, self, Str.octets_some, fields]
    rw [size, cksum, behind]
    by_cases none : m.cksum = []
    · simp [none]
    · have some : m.cksum.length ≠ 0 := by simpa using none
      rw [if_pos some]
      exact substr_before m.body none
  rw [packetStart, next, left]
  exact ⟨rfl, rfl, rfl⟩

/-- Quick mode payloads whose lengths are left to the encoders. -/
def quickMode (ps : List Quick.Payload) : Encodable encode_ISAKMP_Payload :=
  ⟨ps.map Quick.Payload.define, ps.flatMap Quick.Payload.octets,
    Quick.encode_ISAKMP_Payload_define ps⟩

/-- They can be decoded inside a message if they end where the decoders look for the next ones. -/
theorem isakmp_sound (reserved : Option UInt8) (qmmaj qmmin : Option (Fin 16))
    (reserved2 : Option UInt16) (ps : List Quick.Payload) (fits : Quick.Fits ps)
    (linked : Quick.Linked ps) (aligned : Quick.Aligned ps) :
    (Body.ISAKMP reserved (UInt8.ofNat (Quick.firstType ps)) qmmaj qmmin reserved2
      (quickMode ps)).Sound := by
  have type : (UInt8.ofNat (Quick.firstType ps)).toNat = Quick.firstType ps := by
    apply UInt8.toNat_ofNat_of_lt
    cases ps with
    | nil => decide
    | cons p ps =>
        obtain ⟨nextPayload, reserved, body⟩ := p
        cases body <;> exact of_decide_eq_true rfl
  obtain ⟨decoded, gives, -⟩ := Quick.decode_encode ps fits linked aligned
  exact ⟨decoded, by rwa [type]⟩

theorem length_lt {p : Payload} (mem : p ∈ m.payloads) (fits : m.length < 2 ^ 16) :
    p.length < 2 ^ 16 := by
  have part := length_le_flatMap Payload.padded mem
  have short : p.body.excess ≤ 2 := by
    cases p.body <;> simp [Body.excess]
  have octets := p.length_octets
  rw [Payload.padded, List.length_append] at part
  unfold Message.length Message.body at fits
  unfold Payload.length
  omega

section

variable (fits : m.length < 2 ^ 16) (linked : Linked m.payloads)
include fits linked

theorem sound_of_cuts (cuts : Cuts m) : ∀ p ∈ m.payloads, p.body.Sound := by
  obtain ⟨data, type, none⟩ := m.packetStart_octets fits
  have short : ∀ p ∈ m.payloads, p.length < 2 ^ 16 := fun p mem => m.length_lt mem fits
  obtain ⟨octets, header, encoded, gives, cuts⟩ := cuts
  rw [encode_eq] at encoded
  cases encoded
  obtain ⟨decoded, gives, whole⟩ := gives_map.mp gives
  cases decoded with
  | error exit => cases whole
  | ok payloads =>
      cases whole
      exact sound_of_run m.payloads short linked data type (by rwa [none]) cuts

theorem cuts_of_sound (sound : ∀ p ∈ m.payloads, p.body.Sound) : Cuts m := by
  obtain ⟨data, type, none⟩ := m.packetStart_octets fits
  have short : ∀ p ∈ m.payloads, p.length < 2 ^ 16 := fun p mem => m.length_lt mem fits
  obtain ⟨decoded, gives, cuts⟩ := run_of_sound m.payloads short linked data type sound
  rw [none] at gives
  exact ⟨_, _, m.encode_eq, gives_map.mpr ⟨.ok decoded, gives, rfl⟩, cuts⟩

/-- A message is cut where its payloads were put if these are all sound. -/
theorem cuts_iff_sound : Cuts m ↔ ∀ p ∈ m.payloads, p.body.Sound :=
  ⟨sound_of_cuts m fits linked, cuts_of_sound m fits linked⟩

end

/-- Three octets of data, quick mode payloads inside the second payload and a checksum. -/
def request : Message :=
  let quick : List Quick.Payload := [⟨10, 0, .KE [1, 2, 3, 4]⟩, ⟨0, 0, .Nonce [5]⟩]
  let payloads : List Payload := [⟨6, .AP_REQ 0 7 [1, 2, 3]⟩,
    ⟨8, .ISAKMP none 4 none none none (quickMode quick)⟩, ⟨0, .ERROR none 3⟩]
  ⟨1, 1, 0, 1, 1, 1, 0, payloads, [1, 2]⟩

theorem request_cuts : Cuts request := by
  have linked : Linked request.payloads := by simp [request, Linked, firstType, Body.type]
  have inner : Quick.Linked [⟨10, 0, .KE [1, 2, 3, 4]⟩, ⟨0, 0, .Nonce [5]⟩] := by
    simp [Quick.Linked, Quick.firstType, Quick.Body.type]
  have quick := isakmp_sound none none none none _ (by decide) inner (by decide)
  apply (cuts_iff_sound request (by decide) linked).mpr
  simp only [request, List.forall_mem_cons]
  exact ⟨trivial, quick, trivial, by simp⟩

/-- The length of a ticket says two octets too many. -/
theorem ticket_not_cuts : ¬ ∀ m, m.length < 2 ^ 16 → Linked m.payloads → Cuts m := by
  intro all
  let m : Message := ⟨1, 1, 0, 1, 1, 0, 0, [⟨0, .TGT_REP none [1, 2, 3, 4]⟩], []⟩
  have fits : m.length < 2 ^ 16 := by decide
  have linked : Linked m.payloads := ⟨rfl, trivial⟩
  exact sound_of_cuts m fits linked (all m fits linked) _ (List.mem_cons_self ..)

end Message

end Tahi.Kink
