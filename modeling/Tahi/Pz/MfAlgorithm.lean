import Tahi.Pz.PAlgorithm

/-! # Ciphering octets

The text is ciphered behind its initial vector. A text whose length does not fit the unit
of the cipher is only copied, on both sides. The block ciphers themselves belong to
libraries and are a parameter.
-/

namespace Tahi.Pz

open BitField

/-- A class of ciphers. `encrypt` and `decrypt` read the octets, the key and the working
    copy of the initial vector, and leave something in the working copy. -/
structure MfCryptClass where
  keyed : Bool
  keyLength : UInt8
  ivecLength : UInt8
  alignUnit : UInt8
  encrypt : List Octet → Option (List Octet) → List Octet → List Octet × List Octet
  decrypt : List Octet → Option (List Octet) → List Octet → List Octet × List Octet
  unit_pos : 0 < alignUnit.toNat

/-- An argument of a function: what `intValue` and `octetsValue` make of it. -/
structure Argument where
  intValue : Option Int32
  octetsValue : Option (List Octet)

/-- A buffer whose length is a word. -/
abbrev OCTBUF := {l : List Octet // l.length < 2 ^ 32}

def OCTBUF.length (o : OCTBUF) : UInt32 := UInt32.ofNat o.1.length

theorem OCTBUF.length_toNat (o : OCTBUF) : o.length.toNat = o.1.length := by
  rw [OCTBUF.length, UInt32.toNat_ofNat']
  exact Nat.mod_eq_of_lt o.2

/-- The buffer for the initial vector: its length, and its octets once it has some. -/
structure Ivec where
  length : UInt32
  octets : Option (List Octet)
deriving DecidableEq

/-- `set(l, s)`. Without `s` only the length changes. -/
def Ivec.set (o : Ivec) (l : UInt32) (s : Option (List Octet)) : Ivec :=
  match s with
  | some s => ⟨l, some (s.take l.toNat)⟩
  | none => { o with length := l }

namespace MfCryptClass

def null_crypt : MfCryptClass :=
  ⟨false, 0, 0, 1, fun is _ iv => (is, iv), fun is _ iv => (is, iv), MfCrypt.null_crypt.unit_pos⟩

/-- What the lengths of a security association are made of. -/
def lengths (m : MfCryptClass) : MfCrypt :=
  ⟨m.keyed, m.ivecLength, m.alignUnit, fun _ is => is, m.unit_pos⟩

def alignment (m : MfCryptClass) (args : List Argument) : UInt32 :=
  m.lengths.alignment (args.map Argument.intValue)

/-- `MfCrypt::checkArgument` and, for a keyed cipher, `MfCryptKey::checkArgument`. The
    product of the alignment and the unit is a word. -/
def checkArgument (m : MfCryptClass) (a : List Argument) : Bool :=
  if m.keyed then
    match a with
    | key :: rest =>
        key.octetsValue.any (fun o => o.length == m.keyLength.toNat) &&
          match rest with
          | [] => true
          | ivec :: rest =>
              ivec.octetsValue.any (fun o => o.length == m.ivecLength.toNat) &&
                match rest with
                | [] => true
                | [t] => t.intValue.any fun t => t.toUInt32 * m.alignUnit.toUInt32 ≤ 256
                | _ => false
    | [] => false
  else
    match a with
    | [] => true
    | [t] => t.intValue.isSome
    | _ => false

def key (m : MfCryptClass) (args : List Argument) : Option (List Octet) :=
  if m.keyed then args[0]?.bind Argument.octetsValue else none

/-- Whether the length fits the unit. The alignment of the function is only logged about,
    but it is divided by: `none` is the trap of a division by zero. -/
def alignmentCheck (m : MfCryptClass) (l : UInt32) (args : List Argument) : Option Bool :=
  if l % m.alignUnit.toUInt32 ≠ 0 then some false
  else if m.alignment args = 0 then none
  else some true

/-- The initial vector among the arguments. -/
def ivp (a : List Argument) : Option (List Octet) := a[1]?.bind Argument.octetsValue

/-- The octets in front of the ciphered text. Without an initial vector they are what the
    memory holds. -/
def ivwork (m : MfCryptClass) (memory : Nat → Octet) (a : List Argument) : List Octet :=
  match ivp a with
  | some iv => iv.take m.ivecLength.toNat
  | none => (List.range m.ivecLength.toNat).map memory

/-- The ciphered text behind its initial vector. The length of the buffer is a sum of words,
    and the copies leave a buffer that is too short, which is `none`. -/
def encryptOctets (m : MfCryptClass) (memory : Nat → Octet) (text : OCTBUF) (a : List Argument)
    (ivec : Option Ivec) : Option (OCTBUF × Option Ivec) :=
  let lenc := text.length
  let ivlen := m.ivecLength.toUInt32
  let ivec := ivec.map fun ivec => ivec.set ivlen (ivp a)
  let wp := m.ivwork memory a
  match m.alignmentCheck lenc a with
  | none => none
  | some ok =>
      let enc := wp ++ if ok then (m.encrypt text.1 (m.key a) wp).1 else text.1
      if fits : enc.length < 2 ^ 32 then some (⟨enc, fits⟩, ivec) else none

/-- The plain text and the initial vector, which stays as it is for a cipher that has none.
    A buffer that is shorter than the initial vector is read beyond its end. -/
def decryptOctets (m : MfCryptClass) (cipher : OCTBUF) (a : List Argument)
    (ivec : Option Ivec) : Option (List Octet × Option Ivec) :=
  let lcipher := cipher.length
  let ivlen := m.ivecLength.toUInt32
  let ldec := lcipher - ivlen
  if lcipher < ivlen then none
  else
    let ivec :=
      if ivlen > 0 then some ((ivec.getD ⟨0, none⟩).set ivlen (some cipher.1)) else ivec
    let wp := cipher.1.take ivlen.toNat
    let is := cipher.1.drop ivlen.toNat
    match m.alignmentCheck ldec a with
    | none => none
    | some ok => some (if ok then (m.decrypt is (m.key a) wp).1 else is, ivec)

/-- What is relied on of a cipher, for a key and an initial vector of its lengths: whole
    blocks are ciphered to as many octets, which deciphering makes the blocks of again. -/
structure Inverts (m : MfCryptClass) : Prop where
  length : ∀ (is iv : List Octet) (key : Option (List Octet)),
    m.alignUnit.toNat ∣ is.length → iv.length = m.ivecLength.toNat →
      (∀ k ∈ key, k.length = m.keyLength.toNat) → (m.encrypt is key iv).1.length = is.length
  inverse : ∀ (is iv : List Octet) (key : Option (List Octet)),
    m.alignUnit.toNat ∣ is.length → iv.length = m.ivecLength.toNat →
      (∀ k ∈ key, k.length = m.keyLength.toNat) →
        (m.decrypt (m.encrypt is key iv).1 key iv).1 = is

/-- The initial vector as `decryptOctets` has to report it. -/
def reported (m : MfCryptClass) (memory : Nat → Octet) (a : List Argument) (ivec : Option Ivec) :
    Option Ivec :=
  if 0 < m.ivecLength.toNat then some ⟨m.ivecLength.toUInt32, some (m.ivwork memory a)⟩ else ivec

/-- The text comes back, with the initial vector that it was ciphered behind. -/
def ComesBack (m : MfCryptClass) (memory : Nat → Octet) (text : OCTBUF) (a : List Argument)
    (given ivec : Option Ivec) : Prop :=
  ∃ enc iv, m.encryptOctets memory text a given = some (enc, iv) ∧
    m.decryptOctets enc a ivec = some (text.1, m.reported memory a ivec)

variable {m : MfCryptClass} {a : List Argument} {text : OCTBUF} {memory : Nat → Octet}

theorem ivp_length (keyed : m.checkArgument a) : ∀ iv ∈ ivp a, iv.length = m.ivecLength.toNat := by
  intro iv given
  unfold checkArgument at keyed
  match a with
  | [] => simp [ivp] at given
  | [key] => simp [ivp] at given
  | key :: ivec :: rest =>
      simp only [ivp, List.getElem?_cons_succ, List.getElem?_cons_zero, Option.bind_some,
        Option.mem_def] at given
      split at keyed
      · simp only [given, Option.any_some, Bool.and_eq_true, beq_iff_eq] at keyed
        exact keyed.2.1
      · cases rest <;> cases keyed

theorem ivwork_length (accepted : m.checkArgument a) (memory : Nat → Octet) :
    (m.ivwork memory a).length = m.ivecLength.toNat := by
  unfold ivwork
  cases given : ivp a with
  | none => simp
  | some iv => simp [ivp_length accepted iv given]

theorem key_length (accepted : m.checkArgument a) :
    ∀ k ∈ m.key a, k.length = m.keyLength.toNat := by
  intro k given
  unfold key at given
  split at given
  · rename_i keyed
    unfold checkArgument at accepted
    rw [if_pos keyed] at accepted
    match a with
    | [] => simp at given
    | key :: rest =>
        simp only [List.getElem?_cons_zero, Option.bind_some, Option.mem_def] at given
        simp only [given, Option.any_some, Bool.and_eq_true, beq_iff_eq] at accepted
        exact accepted.1
  · cases given

theorem alignmentCheck_eq (m : MfCryptClass) (l : UInt32) (a : List Argument) :
    m.alignmentCheck l a =
      if m.alignUnit.toNat ∣ l.toNat then
        if m.alignment a = 0 then none else some true
      else some false := by
  have unit : l % m.alignUnit.toUInt32 = 0 ↔ m.alignUnit.toNat ∣ l.toNat := by
    rw [← UInt32.toNat_inj, UInt32.toNat_mod, UInt8.toNat_toUInt32, Nat.dvd_iff_mod_eq_zero]
    rfl
  unfold alignmentCheck
  simp only [ne_eq, unit]
  split <;> simp_all

/-- The octets that `encryptOctets` puts behind the initial vector. -/
def body (m : MfCryptClass) (memory : Nat → Octet) (text : OCTBUF) (a : List Argument) :
    List Octet :=
  if m.alignUnit.toNat ∣ text.1.length then
    (m.encrypt text.1 (m.key a) (m.ivwork memory a)).1
  else text.1

theorem body_length (inverts : m.Inverts) (accepted : m.checkArgument a) (memory : Nat → Octet)
    (text : OCTBUF) : (m.body memory text a).length = text.1.length := by
  unfold body
  split
  · rename_i whole
    exact inverts.length _ _ _ whole (ivwork_length accepted memory) (key_length accepted)
  · rfl

theorem encryptOctets_eq (m : MfCryptClass) (memory : Nat → Octet) (text : OCTBUF)
    (a : List Argument) (ivec : Option Ivec) :
    m.encryptOctets memory text a ivec =
      if m.alignUnit.toNat ∣ text.1.length ∧ m.alignment a = 0 then none
      else if fits : (m.ivwork memory a ++ m.body memory text a).length < 2 ^ 32 then
        some (⟨_, fits⟩, ivec.map fun ivec => ivec.set m.ivecLength.toUInt32 (ivp a))
      else none := by
  unfold encryptOctets
  simp only [alignmentCheck_eq, OCTBUF.length_toNat]
  by_cases whole : m.alignUnit.toNat ∣ text.1.length
  · by_cases zero : m.alignment a = 0
    · simp only [whole, zero, and_self, if_true]
    · simp only [body, whole, zero, and_false, if_true, if_false]
  · simp only [body, whole, false_and, if_false, Bool.false_eq_true]

theorem decryptOctets_eq (inverts : m.Inverts) (accepted : m.checkArgument a)
    (memory : Nat → Octet) (text : OCTBUF) (ivec : Option Ivec)
    (fits : (m.ivwork memory a ++ m.body memory text a).length < 2 ^ 32)
    (divides : m.alignUnit.toNat ∣ text.1.length → m.alignment a ≠ 0) :
    m.decryptOctets ⟨_, fits⟩ a ivec = some (text.1, m.reported memory a ivec) := by
  have front := ivwork_length accepted memory
  have rear := body_length inverts accepted memory text
  have ivlen : m.ivecLength.toUInt32.toNat = m.ivecLength.toNat := UInt8.toNat_toUInt32 _
  have total : (OCTBUF.length ⟨_, fits⟩).toNat = m.ivecLength.toNat + text.1.length := by
    rw [OCTBUF.length_toNat, List.length_append, front, rear]
  have enough : m.ivecLength.toUInt32 ≤ OCTBUF.length ⟨_, fits⟩ := by
    rw [UInt32.le_iff_toNat_le, ivlen, total]
    exact Nat.le_add_right _ _
  have ldec : (OCTBUF.length ⟨_, fits⟩ - m.ivecLength.toUInt32).toNat = text.1.length := by
    rw [UInt32.toNat_sub_of_le _ _ enough, total, ivlen, Nat.add_sub_cancel_left]
  have left : (m.ivwork memory a ++ m.body memory text a).take m.ivecLength.toNat =
      m.ivwork memory a := List.take_left' front
  have right : (m.ivwork memory a ++ m.body memory text a).drop m.ivecLength.toNat =
      m.body memory text a := List.drop_left' front
  have plain : (if m.alignUnit.toNat ∣ text.1.length then
      (m.decrypt (m.body memory text a) (m.key a) (m.ivwork memory a)).1
      else m.body memory text a) = text.1 := by
    unfold body
    split
    · rename_i whole
      exact inverts.inverse _ _ _ whole front (key_length accepted)
    · rfl
  have vector : m.ivecLength.toUInt32 > 0 ↔ 0 < m.ivecLength.toNat := by
    rw [gt_iff_lt, UInt32.lt_iff_toNat_lt, ivlen]
    rfl
  unfold decryptOctets
  simp only [alignmentCheck_eq, ldec, ivlen, left, right, vector, Ivec.set, reported]
  rw [if_neg (UInt32.not_lt.mpr enough)]
  by_cases whole : m.alignUnit.toNat ∣ text.1.length
  · simp only [whole, divides whole, if_true, if_false] at plain ⊢
    rw [plain]
  · simp only [whole, if_false, Bool.false_eq_true] at plain ⊢
    rw [plain]

/-- A text comes back through the cipher with the initial vector that it was ciphered
    behind, unless a zero alignment is divided by or the length of the ciphered text is no
    word. -/
theorem comesBack_iff (inverts : m.Inverts) (accepted : m.checkArgument a)
    (memory : Nat → Octet) (text : OCTBUF) (given ivec : Option Ivec) :
    m.ComesBack memory text a given ivec ↔
      (m.alignUnit.toNat ∣ text.1.length → m.alignment a ≠ 0) ∧
        m.ivecLength.toNat + text.1.length < 2 ^ 32 := by
  have total : (m.ivwork memory a ++ m.body memory text a).length =
      m.ivecLength.toNat + text.1.length := by
    rw [List.length_append, ivwork_length accepted, body_length inverts accepted]
  unfold ComesBack
  rw [encryptOctets_eq]
  by_cases trap : m.alignUnit.toNat ∣ text.1.length ∧ m.alignment a = 0
  · simp [trap]
  · rw [if_neg trap]
    have divides : m.alignUnit.toNat ∣ text.1.length → m.alignment a ≠ 0 := fun whole zero =>
      trap ⟨whole, zero⟩
    by_cases fits : (m.ivwork memory a ++ m.body memory text a).length < 2 ^ 32
    · rw [dif_pos fits]
      have back := decryptOctets_eq inverts accepted memory text ivec fits divides
      exact iff_of_true ⟨_, _, rfl, back⟩ ⟨divides, total ▸ fits⟩
    · rw [dif_neg fits]
      apply iff_of_false
      · rintro ⟨enc, iv, none, -⟩
        cases none
      · rintro ⟨-, short⟩
        exact fits (total ▸ short)

theorem null_crypt_inverts : null_crypt.Inverts :=
  ⟨fun _ _ _ _ _ _ => rfl, fun _ _ _ _ _ _ => rfl⟩

/-- Three octets come back through the null cipher. -/
theorem comesBack_three :
    null_crypt.ComesBack (fun _ => 0) ⟨[1, 2, 3], by decide⟩ [] none none :=
  (comesBack_iff null_crypt_inverts rfl _ _ none none).mpr ⟨by decide, by decide⟩

/-- `descbc`, around a cipher that leaves the blocks as they are. -/
def descbc : MfCryptClass :=
  ⟨true, 8, 8, 8, fun is _ iv => (is, iv), fun is _ iv => (is, iv), by decide⟩

/-- A key, an initial vector and the alignment 2 ^ 29, which times 8 is no word but zero. -/
def wrapped : List Argument :=
  [⟨none, some (List.replicate 8 1)⟩, ⟨none, some (List.replicate 8 2)⟩, ⟨some 536870912, none⟩]

/-- Eight octets do not come back through `descbc` with the alignment 2 ^ 29. -/
theorem not_comesBack :
    ¬ ∀ m : MfCryptClass, m.Inverts → ∀ a, m.checkArgument a → ∀ memory text given ivec,
      m.ComesBack memory text a given ivec := by
  intro all
  have inverts : descbc.Inverts := ⟨fun _ _ _ _ _ _ => rfl, fun _ _ _ _ _ _ => rfl⟩
  obtain ⟨enc, iv, ciphered, -⟩ := all descbc inverts wrapped (by decide) (fun _ => 0)
    ⟨List.replicate 8 3, by decide⟩ none none
  have trap : descbc.encryptOctets (fun _ => 0) ⟨List.replicate 8 3, by decide⟩ wrapped none =
      none := by decide
  rw [trap] at ciphered
  cases ciphered

end MfCryptClass

end Tahi.Pz
