import Tahi.General.Slices
import Tahi.Ike.ParseTermination

/-! # Where the payloads of a message stand

The parser takes the length of a payload from what its decoder leaves of the data. What the
decoder of an encrypted payload leaves, when it has the keys, is what the payload decrypts to.
-/

namespace Tahi.Ike

open Perl

/-- A payload with its generic header, and what it announces behind it. -/
def genericOctets (next flags : UInt8) (body : List UInt8) : List UInt8 :=
  next :: flags :: packInt 2 (4 + body.length) ++ body

/-- A payload that is not an encrypted one. -/
structure RawPayload where
  type : UInt8
  flags : UInt8
  body : List UInt8
  announced : type ≠ 0
  clear : type ≠ 46
  fits : 4 + body.length < 256 ^ 2

/-- An encrypted payload, which announces the first of those that are in it. -/
structure RawEncrypted where
  inner : UInt8
  flags : UInt8
  body : List UInt8
  fits : 4 + body.length < 256 ^ 2

def RawEncrypted.octets (e : RawEncrypted) : List UInt8 := genericOctets e.inner e.flags e.body

/-- What the payload decrypts to: behind a block there is the cipher text, up to the checksum. -/
def RawEncrypted.content (e : RawEncrypted) (material : Material) (isInit : Bool) : Str :=
  material.decr isInit (substr (some e.body) material.bencr (some (-material.binteg)))
    (substr (some e.body) 0 (some material.bencr))

/-- What stands in front of the payloads for the type of the first one. -/
def firstType : List RawPayload → Option RawEncrypted → UInt8
  | p :: _, _ => p.type
  | [], some _ => 46
  | [], none => 0

/-- The octets of each payload. -/
@[grind =]
def pieces : List RawPayload → Option RawEncrypted → List (List UInt8)
  | p :: ps, e => genericOctets (firstType ps e) p.flags p.body :: pieces ps e
  | [], some e => [e.octets]
  | [], none => []

/-- A message of which the payloads have the lengths that they state. One that is encrypted
    is the last one. -/
structure WireMessage where
  spis : List UInt8
  version : UInt8
  exchange : UInt8
  flags : UInt8
  messID : List UInt8
  payloads : List RawPayload
  encrypted : Option RawEncrypted
  spis_length : spis.length = 16
  messID_length : messID.length = 4

namespace WireMessage

variable (m : WireMessage)

def pieces : List (List UInt8) := Ike.pieces m.payloads m.encrypted

@[grind =]
def header : List UInt8 :=
  m.spis ++ [firstType m.payloads m.encrypted, m.version, m.exchange, m.flags] ++ m.messID ++
    packInt 4 (28 + m.pieces.flatten.length)

def octets : List UInt8 := m.header ++ m.pieces.flatten

/-- The structures inside of the payloads have lengths, and nothing is encrypted twice. -/
structure WellFormed (material : Option Material) : Prop where
  lengths : ∀ p, Comes m.octets material p → ¬ p.Repeats
  single : ∀ p q r, Comes m.octets material p →
    p.decrypts material (initiator m.octets) = some q →
    Relation.ReflTransGen Point.Ordinary q r → r.decrypts material (initiator m.octets) = none

/-- The entries say where the payloads are, and where they say so the payloads are found. -/
structure Placed (entries : List Payload) : Prop where
  places : entries.map (fun entry => (entry.common.offset, entry.common.length)) =
    (places 28 m.pieces).map fun place => ((place.1 : Int), (place.2 : Int))
  cut : entries.map (fun entry =>
    (m.octets.drop entry.common.offset.toNat).take entry.common.length.toNat) = m.pieces

def fromInitiator : Bool := m.flags.toNat &&& 8 != 0

/-- The parser gets to the end of the message, with an entry for each payload at its place. -/
def Parses (material : Option Material) : Prop :=
  ∃ fuel header entries,
    kParseIKEMessage fuel m.octets material = some (header, entries) ∧ m.Placed entries

end WireMessage

/-! ## One payload -/

section Generic

variable (next flags : UInt8) {body : List UInt8} (rest : List UInt8)

def genericHeader (next flags : UInt8) (length : Nat) : List UInt8 :=
  pack [(1, next.toNat), (1, flags.toNat), (2, length)]

theorem genericOctets_eq :
    genericOctets next flags body = genericHeader next flags (4 + body.length) ++ body := by
  simp [genericOctets, genericHeader, packInt]

theorem length_generic (body : List UInt8) : (genericOctets next flags body).length = 4 + body.length := by
  rw [genericOctets_eq, genericHeader, List.length_append, length_pack]
  rfl

/-- The header is read as it stands, and what is behind the payload is left. -/
theorem kDecGenericPayloadHeader_octets (fits : 4 + body.length < 256 ^ 2) :
    kDecGenericPayloadHeader (some (genericOctets next flags body ++ rest)) =
      { nexttype := some (kPayloadType (.num next.toNat))
        critical := flags.toNat &&& 0x80 != 0
        payload := some body
        payloads := some rest
        paylen := body.length
        reserved := flags.toNat &&& 0x7f } := by
  have four : (genericHeader next flags (4 + body.length)).length = 4 := length_pack _
  have size := length_generic next flags body
  have header : substr (some (genericOctets next flags body ++ rest)) 0 (some 4) =
      some (genericHeader next flags (4 + body.length)) := by
    have first := substr_first (some (genericOctets next flags body ++ rest)) 4
    rw [Str.octets_some, genericOctets_eq, List.append_assoc, List.take_left' four] at first
    rwa [genericOctets_eq, List.append_assoc]
  have items : unpack [.int 1, .int 1, .int 2] (genericHeader next flags (4 + body.length)) =
      [.num next.toNat, .num flags.toNat, .num (4 + body.length)] := by
    have sizes : ∀ f ∈ [(1, next.toNat), (1, flags.toNat), (2, 4 + body.length)],
        f.2 < 256 ^ f.1 := by
      have one := next.toNat_lt
      have two := flags.toNat_lt
      simp only [List.mem_cons, List.not_mem_nil, or_false, forall_eq_or_imp, forall_eq]
      omega
    have packed := unpack_pack _ sizes []
    rwa [List.append_nil] at packed
  have inside : substr (some (genericOctets next flags body ++ rest)) 4 (some (body.length : Nat)) =
      some body := by
    have middle := substr_middle (genericHeader next flags (4 + body.length)) (body ++ rest)
      body.length
    rw [four, ← List.append_assoc, ← genericOctets_eq, List.take_left] at middle
    exact middle
  have behind : substr (some (genericOctets next flags body ++ rest)) (4 + body.length : Nat) none =
      some rest := by
    rw [← size]
    exact substr_behind _ _
  have less : ((4 + body.length : Nat) : Int) - 4 = body.length := by omega
  simp only [kDecGenericPayloadHeader, header, Str.octets_some, items, constant]
  simp only [List.getElem?_cons_zero, List.getElem?_cons_succ, Item.num?, Option.getD_some, less,
    inside, behind, Option.map_some]

end Generic

/-! ## The loop over the payloads -/

/-- What the decoder of the encrypted payload leaves. -/
def RawEncrypted.left (e : RawEncrypted) (material : Option Material) (isInit : Bool) : Nat :=
  (material.map fun keys => (e.content keys isInit).len).getD 0

/-- The offsets and lengths that the parser finds. -/
@[grind =]
def found (material : Option Material) (isInit : Bool) :
    Nat → List RawPayload → Option RawEncrypted → List (Int × Int)
  | offset, p :: ps, e =>
      ((offset : Int), ((4 + p.body.length : Nat) : Int)) ::
        found material isInit (offset + (4 + p.body.length)) ps e
  | offset, [], some e =>
      [((offset : Int), ((4 + e.body.length : Nat) : Int) - e.left material isInit)]
  | _, [], none => []

section Loop

variable {material : Option Material} {isInit : Bool} {fuel : Nat}

theorem type_of_octet (t : UInt8) :
    (t ≠ 0 → (kPayloadType (.num t.toNat)).truth) ∧
      (t ≠ 46 → kPayloadType (.num t.toNat) ≠ .name .E) := by
  have all : ∀ i : Fin 256,
      (i.val ≠ 0 → (kPayloadType (.num i.val)).truth) ∧
        (i.val ≠ 46 → kPayloadType (.num i.val) ≠ .name .E) := by
    decide +kernel
  have both := all ⟨t.toNat, t.toNat_lt⟩
  refine ⟨fun other => both.1 ?_, fun other => both.2 ?_⟩
  · exact fun same => other (UInt8.toNat_inj.mp same)
  · exact fun same => other (UInt8.toNat_inj.mp same)

/-- A payload that is not encrypted leaves what is behind its length. -/
theorem common_of_parsed {inner : Str → Option (Constant PayloadType) → Option (List Payload)}
    {data : Str} {type : Constant PayloadType} (clear : type ≠ .name .E) {payload : Payload}
    (parsed : kParseAnyPayload material isInit fuel inner data type = some payload) :
    payload.common = (kDecGenericPayloadHeader data).common := by
  by_cases isSA : type = .name .SA
  · subst isSA
    rcases kParseSecurityAssociationPayload_eq fuel data with
      ⟨-, body, same⟩ | ⟨-, -, fails⟩ | ⟨-, -, body, same⟩
    · cases same.symm.trans parsed
      rfl
    · cases fails.symm.trans parsed
    · cases same.symm.trans parsed
      rfl
  · obtain ⟨body, same⟩ := kParseAnyPayload_plain material isInit fuel inner data isSA clear
    cases same.symm.trans parsed
    rfl

/-- A turn of the loop, which has a payload parsed and goes on behind it. -/
theorem parsePayloads_turn {data : Str} {type : Constant PayloadType} {offset : Int}
    {entries : List Payload} (truth : type.truth)
    (returned : parsePayloads material isInit (fuel + 1) data (some type) offset = some entries) :
    ∃ payload rest,
      kParseAnyPayload material isInit fuel
        (fun data type => parsePayloads material isInit fuel data type 0) data type =
          some payload ∧
      parsePayloads material isInit fuel payload.common.payloads payload.common.nexttype
        (offset + (data.len - payload.common.payloads.len)) = some rest ∧
      entries.map (fun entry => (entry.common.offset, entry.common.length)) =
        (offset, (data.len - payload.common.payloads.len : Int)) ::
          rest.map fun entry => (entry.common.offset, entry.common.length) := by
  simp only [parsePayloads, truth, if_true] at returned
  split at returned
  · cases returned
  next payload parsed =>
    obtain ⟨rest, behind, rfl⟩ := Option.map_eq_some_iff.mp returned
    exact ⟨payload, rest, parsed, behind, rfl⟩

/-- An encrypted payload leaves what it decrypts to, and is the last one. -/
theorem encrypted_of_parsed {e : RawEncrypted}
    {inner : Str → Option (Constant PayloadType) → Option (List Payload)} {payload : Payload}
    (parsed : kParseAnyPayload material isInit fuel inner (some e.octets) (.name .E) =
      some payload) :
    payload.common.nexttype = some (.num 0) ∧
      payload.common.payloads.len = e.left material isInit := by
  have header := kDecGenericPayloadHeader_octets e.inner e.flags [] e.fits
  rw [List.append_nil] at header
  cases material with
  | none =>
      obtain rfl := Option.some.inj parsed
      have nothing : (kDecGenericPayloadHeader (some e.octets)).payloads = some [] := by
        rw [RawEncrypted.octets, header]
      have left : e.left none isInit = Str.len (some []) := rfl
      refine ⟨rfl, ?_⟩
      rw [left, ← nothing]
      rfl
  | some keys =>
      obtain ⟨innerPayloads, -, rfl⟩ := Option.map_eq_some_iff.mp parsed
      refine ⟨rfl, ?_⟩
      have content : (kDecEncryptedPayload (some e.octets) keys isInit).2.2.2 =
          e.content keys isInit := by
        simp only [kDecEncryptedPayload, RawEncrypted.octets, header]
        rfl
      exact congrArg Str.len content

/-- The entries that the parser makes, from any payload on. By induction on the payloads. -/
theorem parsePayloads_found (ps : List RawPayload) (e : Option RawEncrypted) (offset : Nat)
    {entries : List Payload}
    (returned : parsePayloads material isInit fuel (some (pieces ps e).flatten)
      (some (kPayloadType (.num (firstType ps e).toNat))) offset = some entries) :
    entries.map (fun entry => (entry.common.offset, entry.common.length)) =
      found material isInit offset ps e := by
  induction ps generalizing fuel offset entries with
  | nil =>
      cases e with
      | none =>
          cases fuel <;> (cases returned; rfl)
      | some e =>
          cases fuel with
          | zero => cases returned
          | succ fuel =>
              obtain ⟨payload, rest, parsed, behind, same⟩ := parsePayloads_turn rfl returned
              rw [show pieces [] (some e) = [e.octets] from rfl, List.flatten_singleton] at *
              obtain ⟨last, left⟩ := encrypted_of_parsed parsed
              rw [last] at behind
              have none_ : rest = [] := by
                cases fuel <;> (cases behind; rfl)
              have size := length_generic e.inner e.flags e.body
              rw [same, none_, left, found, Str.len_some, RawEncrypted.octets, size]
              rfl
  | cons p ps ih =>
      obtain ⟨truth, clear⟩ := type_of_octet p.type
      cases fuel with
      | zero =>
          have stops : parsePayloads material isInit 0 (some (pieces (p :: ps) e).flatten)
              (some (kPayloadType (.num p.type.toNat))) offset = none :=
            if_pos (truth p.announced)
          cases stops.symm.trans returned
      | succ fuel =>
          obtain ⟨payload, rest, parsed, behind, same⟩ :=
            parsePayloads_turn (truth p.announced) returned
          have common := common_of_parsed (clear p.clear) parsed
          have header := kDecGenericPayloadHeader_octets (firstType ps e) p.flags
            (pieces ps e).flatten p.fits
          have size := length_generic (firstType ps e) p.flags p.body
          rw [show (pieces (p :: ps) e).flatten = genericOctets (firstType ps e) p.flags p.body ++
            (pieces ps e).flatten from rfl] at *
          rw [common, GenericPayload.common_payloads, header] at behind same
          have length : (Str.len (some (genericOctets (firstType ps e) p.flags p.body ++
              (pieces ps e).flatten)) : Int) - Str.len (some (pieces ps e).flatten) =
              ((4 + p.body.length : Nat) : Int) := by
            rw [Str.len_some, Str.len_some, List.length_append, size]
            omega
          rw [length] at behind same
          rw [same, found]
          congr 1
          apply ih (offset + (4 + p.body.length))
          exact behind

end Loop

/-! ## The whole message -/

section Places

variable (material : Option Material) (isInit : Bool)

theorem found_shift (offset : Nat) (ps : List RawPayload) (e : Option RawEncrypted) :
    (found material isInit offset ps e).map (fun place => (place.1 + 28, place.2)) =
      found material isInit (offset + 28) ps e := by
  induction ps generalizing offset with
  | nil => cases e <;> rfl
  | cons p ps ih =>
      rw [found, found, List.map_cons, ih, Nat.add_right_comm]
      rfl

/-- What is found is right but for what the decoder of the encrypted payload leaves. -/
theorem found_iff (offset : Nat) (ps : List RawPayload) (e : Option RawEncrypted) :
    found material isInit offset ps e =
        (places offset (pieces ps e)).map (fun place => ((place.1 : Int), (place.2 : Int))) ↔
      ∀ x, e = some x → x.left material isInit = 0 := by
  induction ps generalizing offset with
  | nil =>
      cases e with
      | none => simp [found, pieces, places]
      | some x =>
          have size := length_generic x.inner x.flags x.body
          simp only [found, pieces, places, RawEncrypted.octets, size, List.map_cons, List.map_nil,
            List.cons.injEq, Prod.mk.injEq, true_and, and_true, Option.some.injEq, forall_eq']
          omega
  | cons p ps ih =>
      have size := length_generic (firstType ps e) p.flags p.body
      simp only [found, pieces, places, size, List.map_cons, List.cons.injEq, true_and]
      exact ih _

end Places

namespace WireMessage

variable (m : WireMessage)

theorem header_length : m.header.length = 28 := by
  simp [header, m.spis_length, m.messID_length]

theorem unpack_octet (template : List Template) (x : UInt8) (rest : List UInt8) :
    unpack (.int 1 :: template) (x :: rest) = .num x.toNat :: unpack template rest := by
  have enough : ¬ (x :: rest).length < 1 := by simp
  rw [unpack, if_neg enough]
  simp [be]

/-- The octets of the header that the parser needs. -/
theorem unpack_header : ∃ items,
    unpack [.H (some 16), .H (some 16), .int 1, .int 1, .int 1, .int 1, .int 4, .int 4] m.header =
      items ∧
    items[2]? = some (.num (firstType m.payloads m.encrypted).toNat) ∧
    items[5]? = some (.num m.flags.toNat) := by
  have eight : (16 + 1) / 2 = 8 := rfl
  have spis : (m.header.drop 8).drop 8 =
      firstType m.payloads m.encrypted :: m.version :: m.exchange :: m.flags ::
        (m.messID ++ packInt 4 (28 + m.pieces.flatten.length)) := by
    rw [List.drop_drop, header, List.append_assoc, List.append_assoc,
      List.drop_left' m.spis_length]
    rfl
  refine ⟨_, rfl, ?_, ?_⟩
  · rw [unpack, unpack, eight, spis, unpack_octet]
    rfl
  · rw [unpack, unpack, eight, spis, unpack_octet, unpack_octet, unpack_octet, unpack_octet]
    rfl

theorem kDecIKEHeader_octets :
    (kDecIKEHeader (some m.octets)).payloads = some m.pieces.flatten ∧
      (kDecIKEHeader (some m.octets)).nexttype =
        some (kPayloadType (.num (firstType m.payloads m.encrypted).toNat)) ∧
      (kDecIKEHeader (some m.octets)).initiator = m.fromInitiator := by
  have first : substr (some m.octets) 0 (some 28) = some m.header := by
    have cut := substr_first (some m.octets) 28
    rwa [Str.octets_some, octets, List.take_left' m.header_length] at cut
  have behind : substr (some m.octets) 28 none = some m.pieces.flatten := by
    have rest := substr_behind m.header m.pieces.flatten
    rwa [m.header_length] at rest
  obtain ⟨items, unpacked, type, flags⟩ := m.unpack_header
  refine ⟨behind, ?_, ?_⟩
  · simp only [kDecIKEHeader, first, Str.octets_some, unpacked, type]
    rfl
  · simp only [kDecIKEHeader, first, Str.octets_some, unpacked, flags]
    rfl

/-- The parser gets to the end of the message. -/
theorem WellFormed.returns {material : Option Material} (wellFormed : m.WellFormed material) :
    ∃ fuel, (kParseIKEMessage fuel m.octets material).isSome := by
  have nesting : NestingEnds m.octets material := by
    apply Acc.intro
    rintro q ⟨p, leads, decrypted⟩
    apply Acc.intro
    rintro r ⟨p', leads', decrypted'⟩
    have comes : Comes m.octets material p := Relation.ReflTransGen.mono (fun _ _ => .inl) _ _ leads
    have none_ := wellFormed.single p q p' comes decrypted leads'
    cases none_.symm.trans decrypted'
  exact ((Terminates.holds_iff m.octets material).mpr ⟨wellFormed.lengths, nesting⟩).1

/-- Where the entries are said to be, whenever the parser returns. -/
theorem places_found {material : Option Material} {fuel : Nat} {header : Header}
    {entries : List Payload}
    (returned : kParseIKEMessage fuel m.octets material = some (header, entries)) :
    entries.map (fun entry => (entry.common.offset, entry.common.length)) =
      found material m.fromInitiator 28 m.payloads m.encrypted := by
  obtain ⟨payloads, type, init⟩ := m.kDecIKEHeader_octets
  obtain ⟨found_, parsed, same⟩ := Option.map_eq_some_iff.mp returned
  obtain ⟨-, rfl⟩ := Prod.mk.inj same
  rw [payloads, type, init] at parsed
  have loop := parsePayloads_found m.payloads m.encrypted 0 parsed
  rw [← found_shift material m.fromInitiator 0, ← loop, List.map_map, List.map_map]
  rfl

theorem Placed.of_places {entries : List Payload}
    (right : entries.map (fun entry => (entry.common.offset, entry.common.length)) =
      (Tahi.places 28 m.pieces).map fun place => ((place.1 : Int), (place.2 : Int))) :
    m.Placed entries := by
  refine ⟨right, ?_⟩
  have cut := cut_places m.header m.pieces
  rw [m.header_length] at cut
  have taken := congrArg
    (List.map fun place : Int × Int => (m.octets.drop place.1.toNat).take place.2.toNat) right
  rw [List.map_map, List.map_map] at taken
  exact taken.trans cut

/-- Each entry says where its payload is, unless an encrypted payload with something in it is
    decrypted. -/
theorem parses_iff {material : Option Material} (wellFormed : m.WellFormed material) :
    m.Parses material ↔
      ∀ keys e, material = some keys → m.encrypted = some e →
        (e.content keys m.fromInitiator).len = 0 := by
  have left : (∀ e, m.encrypted = some e → e.left material m.fromInitiator = 0) ↔
      ∀ keys e, material = some keys → m.encrypted = some e →
        (e.content keys m.fromInitiator).len = 0 := by
    cases material with
    | none => simp [RawEncrypted.left]
    | some keys =>
        constructor
        · intro empty _ e same
          cases same
          exact empty e
        · intro empty e
          exact empty keys e rfl
  rw [← left, ← found_iff material m.fromInitiator 28]
  constructor
  · rintro ⟨fuel, header, entries, returned, placed⟩
    rw [← m.places_found returned]
    exact placed.places
  · intro right
    obtain ⟨fuel, returned⟩ := wellFormed.returns
    obtain ⟨⟨header, entries⟩, returned⟩ := Option.isSome_iff_exists.mp returned
    exact ⟨fuel, header, entries, returned, .of_places m ((m.places_found returned).trans right)⟩

/-- A message of nothing but an encrypted payload, in which no other payload follows on the
    first one. -/
theorem wellFormed_encrypted {e : RawEncrypted} {keys : Material} {q : Point}
    (none_ : m.payloads = []) (some_ : m.encrypted = some e)
    (decrypted : (start m.octets).decrypts (some keys) (initiator m.octets) = some q)
    (ends : q.calls (some keys) (initiator m.octets) = []) (second : ¬ q.Repeats) :
    m.WellFormed (some keys) := by
  have type : (kDecIKEHeader (some m.octets)).nexttype = some (.name .E) := by
    rw [m.kDecIKEHeader_octets.2.1, none_, some_]
    rfl
  have first : ¬ (start m.octets).Repeats := fun repeats => repeats.2.1 type
  have ordinary (r : Point) : ¬ (start m.octets).Ordinary r := by
    simp [Point.Ordinary, Point.enters, Point.turn, start, type]
  have last (r : Point) :
      ¬ (q.Ordinary r ∨ q.decrypts (some keys) (initiator m.octets) = some r) := by
    rw [← Point.mem_calls, ends]
    exact List.not_mem_nil
  have comes {p : Point} (leads : Comes m.octets (some keys) p) : p = start m.octets ∨ p = q := by
    induction leads with
    | refl => exact .inl rfl
    | tail _ step ih =>
        obtain rfl | rfl := ih
        · obtain inside | same := step
          · exact absurd inside (ordinary _)
          · exact .inr (Option.some.inj (same.symm.trans decrypted))
        · exact absurd step (last _)
  constructor
  · intro p leads
    obtain rfl | rfl := comes leads
    · exact first
    · exact second
  · intro p r t leads same inside
    obtain rfl | rfl := comes leads
    · cases decrypted.symm.trans same
      cases Relation.ReflTransGen.cases_head inside with
      | inl same =>
          subst same
          cases none_ : q.decrypts (some keys) (initiator m.octets) with
          | none => rfl
          | some r => exact absurd (.inr none_) (last r)
      | inr step =>
          obtain ⟨r, step, -⟩ := step
          exact absurd (.inl step) (last r)
    · exact absurd (.inr same) (last _)

end WireMessage

/-- Keys with blocks and checksums of one octet, which leave a cipher text as it is. -/
def plainKeys : Material := ⟨1, 1, fun _ cypher _ => cypher⟩

/-- A message with an encrypted payload that has these octets in it. -/
def encryptedMessage (inner : UInt8) (plain : List UInt8)
    (fits : 4 + (0 :: plain ++ [0]).length < 256 ^ 2) : WireMessage where
  spis := List.replicate 16 0
  version := 0x20
  exchange := 37
  flags := 8
  messID := [0, 0, 0, 1]
  payloads := []
  encrypted := some ⟨inner, 0, 0 :: plain ++ [0], fits⟩
  spis_length := rfl
  messID_length := rfl

/-- Nothing in it, and a nonce without any octets in it. -/
def emptyMessage : WireMessage := encryptedMessage 0 [] (by decide)

def nonceMessage : WireMessage := encryptedMessage 40 [0, 0, 0, 4] (by decide)

theorem wellFormed_emptyMessage : emptyMessage.WellFormed (some plainKeys) := by
  apply emptyMessage.wellFormed_encrypted (q := .payloads (some []) (some (.num 0))) rfl rfl
  · decide +kernel
  · decide +kernel
  · intro repeats
    cases repeats.1

theorem wellFormed_nonceMessage : nonceMessage.WellFormed (some plainKeys) := by
  apply nonceMessage.wellFormed_encrypted
    (q := .payloads (some [0, 0, 0, 4]) (some (.name .NiNr))) rfl rfl
  · decide +kernel
  · decide +kernel
  · intro repeats
    have announces : ((kDecGenericPayloadHeader (some [0, 0, 0, 4])).nexttype.any
        Constant.truth) = false := by
      decide +kernel
    exact Bool.false_ne_true (announces.symm.trans repeats.2.2.1)

/-- The payload with nothing in it is found where it is. -/
theorem parses_emptyMessage : emptyMessage.Parses (some plainKeys) := by
  apply (emptyMessage.parses_iff wellFormed_emptyMessage).mpr
  intro keys e same encrypted
  cases same
  cases encrypted
  decide +kernel

/-- Four octets are missing at the end of the message with the nonce in it. -/
theorem not_parses : ¬ ∀ (m : WireMessage) (material : Option Material),
    m.WellFormed material → m.Parses material := by
  intro claim
  obtain ⟨fuel, header, entries, returned, placed⟩ := claim _ _ wellFormed_nonceMessage
  have places := placed.places
  rw [nonceMessage.places_found returned] at places
  have wrong : found (some plainKeys) nonceMessage.fromInitiator 28 nonceMessage.payloads
      nonceMessage.encrypted ≠
        (Tahi.places 28 nonceMessage.pieces).map
          (fun place => ((place.1 : Int), (place.2 : Int))) := by
    decide +kernel
  exact wrong places

end Tahi.Ike
