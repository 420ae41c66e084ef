import Tahi.General.Assignment

/-! # Judging IKEv2 messages

Each payload that is expected is looked for in the message that was received, and the two
are given to the function of their kind. Nothing is remembered of what was found before.
-/

namespace Tahi.Ike

namespace Judge

/-- The kinds of payloads there are functions for. -/
inductive Kind where
  | HDR | SA | KE | IDi | IDr | CERT | CERTREQ | AUTH | NiNr | N | D | V | TSi | TSr | E | CP | EAP
deriving DecidableEq, Repr

/-- The value of the key `self`. -/
def Kind.self : Kind → String
  | HDR => "HDR"
  | SA => "SA"
  | KE => "KE"
  | IDi => "IDi"
  | IDr => "IDr"
  | CERT => "CERT"
  | CERTREQ => "CERTREQ"
  | AUTH => "AUTH"
  | NiNr => "Ni, Nr"
  | N => "N"
  | D => "D"
  | V => "V"
  | TSi => "TSi"
  | TSr => "TSr"
  | E => "E"
  | CP => "CP"
  | EAP => "EAP"

/-- A payload that holds no others. The key `type` is only looked at in notify payloads, and
    `fields` is all the rest. -/
structure Clear (C : Type) where
  kind : Kind
  clear : kind ≠ .E
  type : String := ""
  fields : C

inductive Payload (C : Type) where
  | clear (payload : Clear C)
  | encrypted (fields : C) (innerPayloads : List (Clear C))

namespace Payload

variable {C : Type}

def kind : Payload C → Kind
  | clear payload => payload.kind
  | encrypted _ _ => .E

def fields : Payload C → C
  | clear payload => payload.fields
  | encrypted fields _ => fields

/-- The notify type of a notify payload. -/
def notifyType : Payload C → Option String
  | clear payload => if payload.kind = .N then some payload.type else none
  | encrypted _ _ => none

/-- What payloads are told apart by. -/
def target (payload : Payload C) : String :=
  match payload.notifyType with
  | some type => payload.kind.self ++ "(" ++ type ++ ")"
  | none => payload.kind.self

/-- A payload and the ones it holds. -/
@[grind =]
def all : Payload C → List (Payload C)
  | clear payload => [.clear payload]
  | encrypted fields innerPayloads =>
      .encrypted fields innerPayloads :: innerPayloads.map .clear

def map {D : Type} (f : C → D) : Payload C → Payload D
  | clear payload => .clear { payload with fields := f payload.fields }
  | encrypted fields innerPayloads =>
      .encrypted (f fields) (innerPayloads.map fun payload =>
        { payload with fields := f payload.fields })

end Payload

/-- The keys of a hash other than `result` and `log`. -/
abbrev Flags := List (String × Option String)

/-- What the function of a kind returns. -/
structure Verdict where
  result : Bool
  log : List (List String) := []
  flags : Flags := []

/-- All the keys of `dst`, unless they are in `src`. -/
def store_flags (src dst : Flags) : Flags :=
  src ++ dst.filter fun flag => !src.any fun flag' => flag'.1 == flag.1

section

variable {C : Type} (judge : Kind → Payload C → Payload C → Verdict)

def find_payload : List (Payload C) → Payload C → Option (Payload C)
  | [], _ => none
  | p :: packet, payload =>
      if p.target == payload.target then some p
      else match p with
        | .clear _ => find_payload packet payload
        | .encrypted _ innerPayloads =>
            -- The payloads behind the encrypted one are not looked at any more.
            (innerPayloads.map .clear).find? fun p => p.target == payload.target

/-- The functions of the kinds. `judge_stub` returns a list and no hash, and its caller dies of
    reading the result. -/
def judge_func : Kind → Option (Payload C → Payload C → Verdict)
  | .EAP => none
  | kind => some (judge kind)

def judge_payload (rcv : Option (Payload C)) (exp : Payload C) : Option Verdict :=
  match rcv with
  | some rcv => (judge_func judge exp.kind).map fun f =>
      { result := (f rcv exp).result, log := (f rcv exp).log
        flags := store_flags (f rcv exp).flags [] }
  | none => some { result := false, log :=
      [["<font color='#ff0000'><b>NG</b></font>\t" ++ exp.target ++ " is expected."]] }

/-- One turn of the loops over the expected payloads. -/
def judge_expected (received : List (Payload C)) (ret : Verdict) (exp_payload : Payload C) :
    Option Verdict :=
  (judge_payload judge (find_payload received exp_payload) exp_payload).map fun tmp =>
    { ret with result := ret.result && tmp.result, flags := store_flags tmp.flags ret.flags }

def judge_inner (received : List (Payload C)) (ret : Verdict) (exp_payload : Payload C) :
    Option Verdict := do
  let ret ← judge_expected judge received ret exp_payload
  match exp_payload with
  | .clear _ => some ret
  | .encrypted _ innerPayloads =>
      (innerPayloads.map .clear).foldlM (judge_expected judge received) ret

variable (exchType : C → Option String) (response : C → Bool)

/-- The verdict starts out as `TRUE`, with what the header says. -/
def initial (received : List (Payload C)) : Verdict :=
  let header := received.find? fun payload0 => payload0.kind == .HDR
  { result := true
    flags := [("is_request", header.map fun hdr => if response hdr.fields then "0" else "1"),
      ("exchange_type", header.bind fun hdr => exchType hdr.fields)] }

/-- `none` when it dies. -/
def kJudgeIKEMessage (received expected : List (Payload C)) : Option Verdict :=
  expected.foldlM (judge_inner judge received) (initial exchType response received)

/-- It returns `TRUE`. -/
def Accepts (received expected : List (Payload C)) : Prop :=
  ∃ ret, kJudgeIKEMessage judge exchType response received expected = some ret ∧
    ret.result = true

/-! ## What it is to say -/

def Passes (rcv exp : Payload C) : Prop :=
  ∃ f, judge_func judge exp.kind = some f ∧ (f rcv exp).result = true

/-- Notify payloads are of the same kind when their notify types are the same, too. -/
def Payload.key (payload : Payload C) : Kind × Option String :=
  (payload.kind, payload.notifyType)

/-- The expected payloads have pairwise different received ones that pass. -/
def Assigned (received expected : List (Payload C)) : Prop :=
  Assignment.Assignable Payload.key Payload.key (Passes judge)
    (received.flatMap Payload.all) (expected.flatMap Payload.all)

end

/-! ## What it finds -/

variable {C : Type} {judge : Kind → Payload C → Payload C → Verdict}
  {exchType : C → Option String} {response : C → Bool} {received expected : List (Payload C)}

/-- The payloads that are looked at: no others than these from the first encrypted one on. -/
@[grind =]
def visible : List (Payload C) → List (Payload C)
  | [] => []
  | .clear payload :: packet => .clear payload :: visible packet
  | .encrypted fields innerPayloads :: _ => Payload.all (.encrypted fields innerPayloads)

theorem visible_initial (received : List (Payload C)) :
    visible received <+: received.flatMap Payload.all := by
  induction received with
  | nil => exact List.nil_prefix
  | cons p packet ih =>
      cases p with
      | clear payload =>
          simp only [visible, List.flatMap_cons, Payload.all, List.singleton_append]
          exact List.cons_prefix_cons.mpr ⟨rfl, ih⟩
      | encrypted fields innerPayloads =>
          simp only [visible, List.flatMap_cons]
          exact List.prefix_append _ _

theorem find_payload_eq (received : List (Payload C)) (payload : Payload C) :
    find_payload received payload =
      (visible received).find? fun p => p.target == payload.target := by
  induction received with
  | nil => rfl
  | cons p packet ih =>
      cases p with
      | clear p =>
          simp only [find_payload, visible, List.find?_cons, ih]
          cases (Payload.clear p).target == payload.target <;> rfl
      | encrypted fields innerPayloads =>
          simp only [find_payload, visible, Payload.all, List.find?_cons]
          cases (Payload.encrypted fields innerPayloads).target == payload.target <;> rfl

/-- The texts of the kinds are different, and none of them has a parenthesis. -/
theorem Kind.self_injective {k k' : Kind} (same : k.self = k'.self) : k = k' := by
  cases k <;> cases k' <;> first | rfl | simp [Kind.self] at same

theorem Kind.self_ne_notify (k : Kind) (type : String) : k.self ≠ "N" ++ "(" ++ type ++ ")" := by
  intro same
  have chars := congrArg String.toList same
  simp only [String.toList_append] at chars
  cases k <;> simp [Kind.self] at chars

theorem target_eq_iff (p q : Payload C) : p.target = q.target ↔ p.key = q.key := by
  have notify : ∀ p : Payload C, p.notifyType ≠ none → p.kind = .N := by
    intro p some_
    cases p with
    | clear payload => simpa [Payload.notifyType, Payload.kind] using some_
    | encrypted => exact absurd rfl some_
  simp only [Payload.target, Payload.key, Prod.mk.injEq]
  cases hp : p.notifyType with
  | none =>
      cases hq : q.notifyType with
      | none => exact ⟨fun same => ⟨Kind.self_injective same, rfl⟩, fun same => by rw [same.1]⟩
      | some type =>
          rw [notify q (by simp [hq])]
          exact iff_of_false (Kind.self_ne_notify _ type) (by simp)
  | some type =>
      rw [notify p (by simp [hp])]
      cases hq : q.notifyType with
      | none => exact iff_of_false (Kind.self_ne_notify _ type).symm (by simp)
      | some type' =>
          rw [notify q (by simp [hq])]
          constructor
          · intro same
            have chars := congrArg String.toList same
            simp only [String.toList_append, List.append_cancel_left_eq,
              List.append_cancel_right_eq, String.toList_inj] at chars
            exact ⟨rfl, congrArg some chars⟩
          · rintro ⟨-, same⟩
            cases same
            rfl

/-- The first payload of the kind that is looked at passes. -/
def Fits (judge : Kind → Payload C → Payload C → Verdict) (received : List (Payload C))
    (exp : Payload C) : Prop :=
  ∃ rcv, (visible received).find? (fun p => decide (p.key = exp.key)) = some rcv ∧
    Passes judge rcv exp

theorem find_payload_key (received : List (Payload C)) (payload : Payload C) :
    find_payload received payload = (visible received).find? fun p => decide (p.key = payload.key) := by
  rw [find_payload_eq]
  congr 1
  funext p
  rw [Bool.eq_iff_iff, beq_iff_eq, decide_eq_true_iff, target_eq_iff]

variable (judge received) in
theorem judge_expected_iff (ret : Verdict) (exp : Payload C) :
    (∃ ret', judge_expected judge received ret exp = some ret' ∧ ret'.result = true) ↔
      ret.result = true ∧ Fits judge received exp := by
  simp only [judge_expected, find_payload_key, Fits]
  cases (visible received).find? fun p => decide (p.key = exp.key) with
  | none => simp [judge_payload]
  | some rcv =>
      simp only [judge_payload, Passes]
      cases judge_func judge exp.kind with
      | none => simp
      | some f => simp

/-- The verdict of a loop, whatever each turn looks for. -/
theorem foldlM_iff {α : Type} {step : Verdict → α → Option Verdict} {good : α → Prop}
    (turn : ∀ ret x, (∃ ret', step ret x = some ret' ∧ ret'.result = true) ↔
      ret.result = true ∧ good x) (ret : Verdict) (l : List α) :
    (∃ ret', l.foldlM step ret = some ret' ∧ ret'.result = true) ↔
      ret.result = true ∧ ∀ x ∈ l, good x := by
  induction l generalizing ret with
  | nil => simp [pure]
  | cons x l ih =>
      have first := turn ret x
      simp only [List.foldlM_cons, Option.bind_eq_bind]
      cases found : step ret x with
      | none =>
          have bad : ¬ (ret.result = true ∧ good x) := by simpa [found] using first
          simp only [Option.bind_none, List.forall_mem_cons]
          exact iff_of_false (by simp) fun all => bad ⟨all.1, all.2.1⟩
      | some ret' =>
          have first' : ret'.result = true ↔ ret.result = true ∧ good x := by
            simpa [found] using first
          rw [Option.bind_some, ih, first', List.forall_mem_cons, and_assoc]

variable (judge received) in
theorem judge_inner_iff (ret : Verdict) (exp : Payload C) :
    (∃ ret', judge_inner judge received ret exp = some ret' ∧ ret'.result = true) ↔
      ret.result = true ∧ ∀ e ∈ exp.all, Fits judge received e := by
  have run := foldlM_iff (judge_expected_iff judge received) ret exp.all
  rw [← run]
  cases exp with
  | clear payload =>
      simp only [judge_inner, Payload.all, List.foldlM_cons, List.foldlM_nil]
      rfl
  | encrypted fields innerPayloads =>
      simp only [judge_inner, Payload.all, List.foldlM_cons]

theorem accepts_iff :
    Accepts judge exchType response received expected ↔
      Assignment.FirstFits Payload.key Payload.key (Passes judge) (visible received)
        (expected.flatMap Payload.all) := by
  have run := foldlM_iff (judge_inner_iff judge received)
    (initial exchType response received) expected
  simp only [Accepts, kJudgeIKEMessage, run, Assignment.FirstFits, Fits, List.mem_flatMap]
  constructor
  · rintro ⟨-, all⟩ e ⟨exp, mem, mem'⟩
    exact all exp mem e mem'
  · intro all
    exact ⟨rfl, fun exp mem e mem' => all e ⟨exp, mem, mem'⟩⟩

/-! ## Messages with the same payloads -/

/-- What kinds of payloads a message has, and where. -/
def Payload.shape (payload : Payload C) : Payload Unit := payload.map fun _ => ()

/-- The kinds alone decide that there is an assignment if and only if each of the expected
    payloads passes with the first that is found. -/
def Decided (received expected : List (Payload C)) : Prop :=
  .EAP ∈ (expected.flatMap Payload.all).map Payload.kind ∨
    Assignment.Decided ((visible received).map Payload.key)
      ((received.flatMap Payload.all).map Payload.key)
      ((expected.flatMap Payload.all).map Payload.key)

@[simp] theorem Payload.kind_shape (payload : Payload C) : payload.shape.kind = payload.kind := by
  cases payload <;> rfl

@[simp] theorem Payload.key_shape (payload : Payload C) : payload.shape.key = payload.key := by
  cases payload <;> rfl

theorem Payload.all_shape (payload : Payload C) :
    payload.shape.all = payload.all.map Payload.shape := by
  cases payload with
  | clear payload => rfl
  | encrypted fields innerPayloads =>
      simp only [Payload.shape, Payload.map, Payload.all, List.map_cons, List.map_map]
      rfl

theorem all_shapes (packet : List (Payload C)) :
    (packet.map Payload.shape).flatMap Payload.all =
      (packet.flatMap Payload.all).map Payload.shape := by
  rw [List.flatMap_map, List.map_flatMap]
  congr 1
  funext payload
  exact payload.all_shape

theorem visible_shapes (packet : List (Payload C)) :
    visible (packet.map Payload.shape) = (visible packet).map Payload.shape := by
  induction packet with
  | nil => rfl
  | cons p packet ih =>
      cases p with
      | clear payload => exact congrArg _ ih
      | encrypted fields innerPayloads =>
          exact Payload.all_shape (.encrypted fields innerPayloads)

theorem decided_shapes (received expected : List (Payload C)) :
    Decided (received.map Payload.shape) (expected.map Payload.shape) ↔
      Decided received expected := by
  have kinds : Payload.kind ∘ @Payload.shape C = Payload.kind := funext Payload.kind_shape
  have keys : Payload.key ∘ @Payload.shape C = Payload.key := funext Payload.key_shape
  simp only [Decided, all_shapes, visible_shapes, List.map_map, kinds, keys]

/-- An EAP payload passes with none. -/
theorem kind_of_passes {rcv exp : Payload C} (passes : Passes judge rcv exp) :
    exp.kind ≠ .EAP := by
  intro eap
  obtain ⟨f, found, -⟩ := passes
  rw [eap, judge_func] at found
  cases found

theorem passes_iff {rcv exp : Payload C} (other : exp.kind ≠ .EAP) :
    Passes judge rcv exp ↔ (judge exp.kind rcv exp).result = true := by
  have func : judge_func judge exp.kind = some (judge exp.kind) := by
    cases kind : exp.kind <;> first | rfl | exact absurd kind other
  simp [Passes, func]

theorem not_assigned_of_eap (eap : .EAP ∈ (expected.flatMap Payload.all).map Payload.kind) :
    ¬ Assigned judge received expected := by
  rintro ⟨chosen, -, all⟩
  obtain ⟨exp, mem, kind⟩ := List.mem_map.mp eap
  obtain ⟨rcv, -, -, passes⟩ := Assignment.exists_chosen all mem
  exact kind_of_passes passes kind

theorem Decided.accepts_iff_assigned (decided : Decided received expected) :
    Accepts judge exchType response received expected ↔ Assigned judge received expected := by
  rw [accepts_iff]
  rcases decided with eap | decided
  · refine iff_of_false (fun fits => ?_) (not_assigned_of_eap eap)
    obtain ⟨exp, mem, kind⟩ := List.mem_map.mp eap
    obtain ⟨rcv, -, passes⟩ := fits exp mem
    exact kind_of_passes passes kind
  · exact decided.firstFits_iff (visible_initial received)

/-- The payloads with numbers for what is in them. -/
@[grind =]
def number : Nat → List (Payload Unit) → List (Payload Nat)
  | _, [] => []
  | n, .clear payload :: packet => .clear { payload with fields := n } :: number (n + 1) packet
  | n, .encrypted _ innerPayloads :: packet =>
      .encrypted n (innerPayloads.zipIdx (n + 1) |>.map fun numbered =>
        { numbered.1 with fields := numbered.2 }) :: number (n + 1 + innerPayloads.length) packet

theorem number_shapes (n : Nat) (packet : List (Payload Unit)) :
    (number n packet).map Payload.shape = packet := by
  induction packet generalizing n with
  | nil => rfl
  | cons p packet ih =>
      cases p with
      | clear payload => simp only [number, List.map_cons, ih, Payload.shape, Payload.map]
      | encrypted fields innerPayloads =>
          simp only [number, List.map_cons, ih, Payload.shape, Payload.map, List.map_map]
          congr 2
          exact List.zipIdx_map_fst (n + 1) innerPayloads

theorem number_fields (n : Nat) (packet : List (Payload Unit)) :
    ((number n packet).flatMap Payload.all).map Payload.fields =
      List.range' n (packet.flatMap Payload.all).length := by
  induction packet generalizing n with
  | nil => rfl
  | cons p packet ih =>
      cases p with
      | clear payload =>
          simp [number, Payload.all, Payload.fields, ih, List.range'_succ]
      | encrypted fields innerPayloads =>
          have inner : (innerPayloads.zipIdx (n + 1)).map Prod.snd =
              List.range' (n + 1) innerPayloads.length := List.zipIdx_map_snd _ _
          simp only [number, List.flatMap_cons, Payload.all, List.map_append, List.map_cons, ih,
            List.map_map, List.length_append, List.length_cons, List.length_map,
            Payload.fields, List.cons_append]
          rw [List.range'_succ, ← List.range'_append_1, ← inner]
          rfl

/-- Any message can be filled in such a way that its payloads are told apart. -/
theorem number_nodup (packet : List (Payload Unit)) :
    ((number 0 packet).flatMap Payload.all).Nodup := by
  apply List.Nodup.of_map Payload.fields
  rw [number_fields]
  exact List.nodup_range'

end Judge

end Tahi.Ike
