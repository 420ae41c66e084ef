import Tahi.General.PerlString
import Tahi.Ike.KKeyStream

/-! # The keying material of an IKE SA

The keys are read one behind the other from a key stream, once for a new SA and once more, by a
second copy of the function, for a rekeyed one.
-/

namespace Tahi.Ike

open Perl

/-- The object, without the functions of its algorithms. -/
structure KEncryptionMaterial where
  encr_alg : TransformID
  integ_alg : TransformID
  prf_alg : TransformID
  d : Str := none
  ai : Str := none
  ar : Str := none
  ei : Str := none
  er : Str := none
  pi : Str := none
  pr : Str := none
  ni_ctr : Str := none
  nr_ctr : Str := none
  bencr : ℕ := 0
  binteg : ℕ := 0
deriving DecidableEq, Repr

/-- `$em->{$meth} || undef`, which an accessor returns. -/
def accessor (value : Str) : Str :=
  if value = some [] ∨ value = some [0x30] then none else value

theorem accessor_of_two_le {key : List UInt8} (two : 2 ≤ key.length) :
    accessor (some key) = some key := by
  rw [accessor, if_neg]
  rintro (eq | eq) <;> rw [Option.some_inj.mp eq] at two <;> simp at two

namespace KEncryptionMaterial

/-- The attributes of the algorithms. -/
abbrev Association := TransformID → Option (List KeyAttribute)

/-- What `generateIKEMaterial` does with the first key of the cipher. -/
def splitInitiator (em : KEncryptionMaterial) : KEncryptionMaterial :=
  if em.encr_alg = .AES_CTR then
    { em with
      ni_ctr := substr (accessor em.ei) 16 (some 4)
      ei := substr (accessor em.ei) 0 (some 16) }
  else em

/-- What it does with the second one. -/
def splitResponder (em : KEncryptionMaterial) : KEncryptionMaterial :=
  if em.encr_alg = .AES_CTR then
    { em with
      nr_ctr := substr (accessor em.er) 16 (some 4)
      er := substr (accessor em.er) 0 (some 16) }
  else em

def generateIKEMaterial (em : KEncryptionMaterial) (stream : KeyStream)
    (encr prf integ : TransformID) (association : Association) : Option KEncryptionMaterial := do
  let (d, stream) ← stream.readKey prf (association prf)
  let em := { em with d := some d }
  let (ai, stream) ← stream.readKey integ (association integ)
  let em := { em with ai := some ai }
  let (ar, stream) ← stream.readKey integ (association integ)
  let em := { em with ar := some ar }
  let (ei, stream) ← stream.readKey encr (association encr)
  let em := { em with ei := some ei }
  let em := em.splitInitiator
  let (er, stream) ← stream.readKey encr (association encr)
  let em := { em with er := some er }
  let em := em.splitResponder
  let (pi, stream) ← stream.readKey prf (association prf)
  let em := { em with pi := some pi }
  let (pr, _) ← stream.readKey prf (association prf)
  let em := { em with pr := some pr }
  return { em with bencr := kBlockSize encr, binteg := kBlockSize integ }

def generateRekeyedIKEMaterial (em : KEncryptionMaterial) (stream : KeyStream)
    (encr prf integ : TransformID) (association : Association) : Option KEncryptionMaterial := do
  let (d, stream) ← stream.readKey prf (association prf)
  let em := { em with d := some d }
  let (ai, stream) ← stream.readKey integ (association integ)
  let em := { em with ai := some ai }
  let (ar, stream) ← stream.readKey integ (association integ)
  let em := { em with ar := some ar }
  let (ei, stream) ← stream.readKey encr (association encr)
  let em := { em with ei := some ei }
  let (er, _) ← stream.readKey encr (association encr)
  let em := { em with er := some er }
  return { em with bencr := kBlockSize encr, binteg := kBlockSize integ }

end KEncryptionMaterial

/-! ## Negotiated suites -/

/-- The value of the last key length. -/
def lastKeyLength (ref : List KeyAttribute) : Option ℕ :=
  (ref.filter fun elm => elm.type = .name .«Key Length»).getLast?.map KeyAttribute.value

/-- A cipher, with one of its key lengths where it has several, an algorithm for integrity and a
    pseudo-random function. -/
structure Suite where
  encr : TransformID
  encrAttrs : List KeyAttribute
  integ : TransformID
  integAttrs : List KeyAttribute
  prf : TransformID
  prfAttrs : List KeyAttribute
  encr_sized : ∀ sizes, kKeySize encr = .several sizes →
    ∃ bits ∈ sizes, lastKeyLength encrAttrs = some bits
  integ_sized : ∃ bits, kKeySize integ = .one bits
  prf_sized : ∃ bits, kKeySize prf = .one bits

/-- In bits, and without the nonce of a counter. -/
@[grind =]
def keySize (alg : TransformID) (ref : List KeyAttribute) : ℕ :=
  match kKeySize alg with
  | .one bits => bits
  | .several _ => (lastKeyLength ref).getD 0

/-- The hash of `kPrepareIKEEncryption`, in which the later entries count. -/
def Suite.association (suite : Suite) : KEncryptionMaterial.Association := fun alg =>
  if alg = suite.prf then some suite.prfAttrs
  else if alg = suite.integ then some suite.integAttrs
  else if alg = suite.encr then some suite.encrAttrs
  else none

/-- The object that `kPrepareIKEEncryption` has filled. -/
def Suite.material (suite : Suite) : KEncryptionMaterial where
  encr_alg := suite.encr
  integ_alg := suite.integ
  prf_alg := suite.prf

/-- `SK_d`, `SK_ai`, `SK_ar`, `SK_ei` and `SK_er` with the nonces of the counters. -/
structure IKEKeys where
  d : Str
  ai : Str
  ar : Str
  ei : Str
  er : Str
  ni_ctr : Str
  nr_ctr : Str
deriving DecidableEq, Repr

def KEncryptionMaterial.keys (em : KEncryptionMaterial) : IKEKeys :=
  ⟨em.d, em.ai, em.ar, em.ei, em.er, em.ni_ctr, em.nr_ctr⟩

namespace Suite

/-- In octets. -/
def prfLength (suite : Suite) : ℕ := keySize suite.prf suite.prfAttrs / 8

def integLength (suite : Suite) : ℕ := keySize suite.integ suite.integAttrs / 8

/-- With the nonce of a counter. -/
@[grind =]
def encrLength (suite : Suite) : ℕ :=
  keySize suite.encr suite.encrAttrs / 8 + if suite.encr = .AES_CTR then 4 else 0

/-- The key of a cipher and, for a counter, the last four octets as its nonce. -/
@[grind =]
def split (suite : Suite) (key : List UInt8) : Str × Str :=
  if suite.encr = .AES_CTR then
    (some (key.take (key.length - 4)), some (key.drop (key.length - 4)))
  else (some key, none)

/-- The slices of the key stream in their order, with the keys of the cipher split. -/
def keys (suite : Suite) (octets : List UInt8) (split : List UInt8 → Str × Str) : IKEKeys :=
  let p := suite.prfLength
  let i := suite.integLength
  let e := suite.encrLength
  let ei := split ((octets.drop (p + i + i)).take e)
  let er := split ((octets.drop (p + i + i + e)).take e)
  { d := some (octets.take p)
    ai := some ((octets.drop p).take i)
    ar := some ((octets.drop (p + i)).take i)
    ei := ei.1
    er := er.1
    ni_ctr := ei.2
    nr_ctr := er.2 }

theorem keys_congr (suite : Suite) {octets : List UInt8} {f g : List UInt8 → Str × Str}
    (ei : f ((octets.drop (suite.prfLength + suite.integLength + suite.integLength)).take
        suite.encrLength) =
      g ((octets.drop (suite.prfLength + suite.integLength + suite.integLength)).take
        suite.encrLength))
    (er : f ((octets.drop (suite.prfLength + suite.integLength + suite.integLength +
        suite.encrLength)).take suite.encrLength) =
      g ((octets.drop (suite.prfLength + suite.integLength + suite.integLength +
        suite.encrLength)).take suite.encrLength)) :
    suite.keys octets f = suite.keys octets g := by
  simp only [keys, ei, er]

def prescribed (suite : Suite) (octets : List UInt8) : IKEKeys := suite.keys octets suite.split

/-- Both functions return what is prescribed. -/
def Derives (suite : Suite) (prf : Prf) (K S : List UInt8) : Prop :=
  let stream := KeyStream.new prf K S
  let octets := KeyStream.blocks prf K S 255
  (suite.material.generateIKEMaterial stream suite.encr suite.prf suite.integ
      suite.association).map KEncryptionMaterial.keys = some (suite.prescribed octets) ∧
    (suite.material.generateRekeyedIKEMaterial stream suite.encr suite.prf suite.integ
      suite.association).map KEncryptionMaterial.keys = some (suite.prescribed octets)

end Suite

/-! ## The sizes of the keys -/

theorem proposal_keylen_eq (alg : TransformID) (ref : List KeyAttribute) :
    proposal_keylen alg ref =
      match lastKeyLength ref with
      | some bits => if alg = .AES_CTR then bits + 32 else bits
      | none => 0 := by
  induction ref using List.reverseRecOn with
  | nil => rfl
  | append_singleton ref elm ih =>
      rw [proposal_keylen, List.foldl_append, List.foldl_cons, List.foldl_nil, lastKeyLength,
        List.filter_append, List.filter_singleton]
      by_cases length : elm.type = .name .«Key Length»
      · simp [length]
      · simp only [length, if_false, decide_false, cond_false, List.append_nil]
        exact ih

theorem kKeySize_one {alg : TransformID} {bits : ℕ} (one : kKeySize alg = .one bits) :
    8 ∣ bits ∧ bits ≤ 192 ∧ alg ≠ .AES_CTR := by
  cases alg <;> simp_all [kKeySize] <;> omega

theorem kKeySize_several {alg : TransformID} {sizes : List ℕ} {bits : ℕ}
    (several : kKeySize alg = .several sizes) (mem : bits ∈ sizes) : 8 ∣ bits ∧ bits ≤ 256 := by
  have eq : sizes = [128, 192, 256] := by cases alg <;> simp_all [kKeySize]
  subst eq
  simp only [List.mem_cons, List.not_mem_nil, or_false] at mem
  obtain rfl | rfl | rfl := mem <;> decide

namespace Suite

variable (suite : Suite)

theorem keylen_prf : keylen suite.prf (suite.association suite.prf) = some (8 * suite.prfLength) := by
  obtain ⟨bits, one⟩ := suite.prf_sized
  obtain ⟨octets, rfl⟩ := (kKeySize_one one).1
  simp [keylen, prfLength, keySize, one]

theorem keylen_integ :
    keylen suite.integ (suite.association suite.integ) = some (8 * suite.integLength) := by
  obtain ⟨bits, one⟩ := suite.integ_sized
  obtain ⟨octets, rfl⟩ := (kKeySize_one one).1
  simp [keylen, integLength, keySize, one]

theorem keylen_encr :
    keylen suite.encr (suite.association suite.encr) = some (8 * suite.encrLength) := by
  cases size : kKeySize suite.encr with
  | one bits =>
      obtain ⟨⟨octets, rfl⟩, -, block⟩ := kKeySize_one size
      simp [keylen, encrLength, keySize, size, block]
  | several sizes =>
      obtain ⟨bits, mem, last⟩ := suite.encr_sized sizes size
      have prf : suite.encr ≠ suite.prf := by
        intro eq
        obtain ⟨bits, one⟩ := suite.prf_sized
        rw [eq, one] at size
        cases size
      have integ : suite.encr ≠ suite.integ := by
        intro eq
        obtain ⟨bits, one⟩ := suite.integ_sized
        rw [eq, one] at size
        cases size
      obtain ⟨octets, rfl⟩ := (kKeySize_several size mem).1
      simp only [keylen, encrLength, keySize, size, association, prf, integ, if_false, if_true,
        Option.map_some, proposal_keylen_eq, last, Option.getD_some, Option.some_inj]
      rw [Nat.mul_div_cancel_left _ (by decide)]
      split
      · show 8 * octets + 32 = 8 * (octets + 4)
        omega
      · rfl

theorem length_le : suite.prfLength + suite.integLength + suite.integLength + suite.encrLength +
    suite.encrLength + suite.prfLength + suite.prfLength ≤ 255 := by
  have prf : suite.prfLength ≤ 24 := by
    obtain ⟨bits, one⟩ := suite.prf_sized
    have most := (kKeySize_one one).2.1
    simp only [prfLength, keySize, one]
    omega
  have integ : suite.integLength ≤ 24 := by
    obtain ⟨bits, one⟩ := suite.integ_sized
    have most := (kKeySize_one one).2.1
    simp only [integLength, keySize, one]
    omega
  have nonce : (if suite.encr = .AES_CTR then 4 else 0) ≤ 4 := by split <;> decide
  have encr : suite.encrLength ≤ 36 := by
    cases size : kKeySize suite.encr with
    | one bits =>
        have most := (kKeySize_one size).2.1
        simp only [encrLength, keySize, size]
        omega
    | several sizes =>
        obtain ⟨bits, mem, last⟩ := suite.encr_sized sizes size
        have most := (kKeySize_several size mem).2
        simp only [encrLength, keySize, size, last, Option.getD_some]
        omega
  omega

/-- The first function splits the keys of a counter at 16. -/
@[grind =]
def splitAt16 (key : List UInt8) : Str × Str :=
  if suite.encr = .AES_CTR then (some (key.take 16), some ((key.drop 16).take 4))
  else (some key, none)

theorem le_encrLength (counter : suite.encr = .AES_CTR) : 20 ≤ suite.encrLength := by
  have several : kKeySize suite.encr = .several [128, 192, 256] := by rw [counter]; rfl
  obtain ⟨bits, mem, last⟩ := suite.encr_sized _ several
  have least : 128 ≤ bits := by
    simp only [List.mem_cons, List.not_mem_nil, or_false] at mem
    omega
  have size : keySize suite.encr suite.encrAttrs = bits := by
    simp only [keySize, several, last, Option.getD_some]
  rw [encrLength, size, if_pos counter]
  omega

/-- The octets of a long enough key are the key. -/
theorem splitAt16_eq {key : List UInt8} (counter : suite.encr = .AES_CTR)
    (long : 20 ≤ key.length) :
    suite.splitAt16 key =
      (substr (accessor (some key)) 0 (some 16), substr (accessor (some key)) 16 (some 4)) := by
  have first := substr_first (some key) 16
  have part := substr_part (some key) 16 4
  rw [if_neg (by rw [Str.len_some]; omega)] at part
  rw [splitAt16, if_pos counter, accessor_of_two_le (by omega)]
  exact Prod.ext first.symm part.symm

theorem splitInitiator_eq {em : KEncryptionMaterial} (key : List UInt8)
    (alg : em.encr_alg = suite.encr) (ei : em.ei = some key) (ni_ctr : em.ni_ctr = none)
    (long : suite.encr = .AES_CTR → 20 ≤ key.length) :
    em.splitInitiator =
      { em with ei := (suite.splitAt16 key).1, ni_ctr := (suite.splitAt16 key).2 } := by
  by_cases counter : suite.encr = .AES_CTR
  · rw [KEncryptionMaterial.splitInitiator, if_pos (alg.trans counter),
      suite.splitAt16_eq counter (long counter), ei]
  · rw [KEncryptionMaterial.splitInitiator, if_neg (alg.symm ▸ counter), splitAt16, if_neg counter,
      ← ei, ← ni_ctr]

theorem splitResponder_eq {em : KEncryptionMaterial} (key : List UInt8)
    (alg : em.encr_alg = suite.encr) (er : em.er = some key) (nr_ctr : em.nr_ctr = none)
    (long : suite.encr = .AES_CTR → 20 ≤ key.length) :
    em.splitResponder =
      { em with er := (suite.splitAt16 key).1, nr_ctr := (suite.splitAt16 key).2 } := by
  by_cases counter : suite.encr = .AES_CTR
  · rw [KEncryptionMaterial.splitResponder, if_pos (alg.trans counter),
      suite.splitAt16_eq counter (long counter), er]
  · rw [KEncryptionMaterial.splitResponder, if_neg (alg.symm ▸ counter), splitAt16, if_neg counter,
      ← er, ← nr_ctr]

variable (prf : Prf) (K S : List UInt8)

/-- The keys of the cipher are as long as they are to be. -/
theorem length_slice {pos : ℕ} (le : pos + suite.encrLength ≤ 255) :
    (((KeyStream.blocks prf K S 255).drop pos).take suite.encrLength).length =
      suite.encrLength := by
  have enough := KeyStream.le_length_blocks prf K S 255
  rw [List.length_take_of_le]
  rw [List.length_drop]
  omega

theorem generateIKEMaterial_keys :
    (suite.material.generateIKEMaterial (KeyStream.new prf K S) suite.encr suite.prf suite.integ
      suite.association).map KEncryptionMaterial.keys =
      some (suite.keys (KeyStream.blocks prf K S 255) suite.splitAt16) := by
  have total := suite.length_le
  have read := KeyStream.readBlocks_slices prf K S [suite.prfLength, suite.integLength,
    suite.integLength, suite.encrLength, suite.encrLength, suite.prfLength, suite.prfLength] 255
    (by simpa [Nat.add_assoc] using total)
  simp only [List.map_cons, List.map_nil, KeyStream.readBlocks, slices_cons, slices_nil,
    List.cons.injEq, List.drop_drop] at read
  obtain ⟨d, ai, ar, ei, er, -⟩ := read
  have long (pos : ℕ) (le : pos + suite.encrLength ≤ 255) (counter : suite.encr = .AES_CTR) :
      20 ≤ (((KeyStream.blocks prf K S 255).drop pos).take suite.encrLength).length := by
    rw [suite.length_slice prf K S le]
    exact suite.le_encrLength counter
  simp only [KEncryptionMaterial.generateIKEMaterial, KeyStream.readKey, keylen_prf, keylen_integ,
    keylen_encr, Option.map_some, Option.bind_eq_bind, Option.bind_some]
  rw [d, ai, ar, ei, er, suite.splitInitiator_eq _ rfl rfl rfl (long _ (by omega)),
    suite.splitResponder_eq _ rfl rfl rfl (long _ (by omega))]
  rfl

theorem generateRekeyedIKEMaterial_keys :
    (suite.material.generateRekeyedIKEMaterial (KeyStream.new prf K S) suite.encr suite.prf
      suite.integ suite.association).map KEncryptionMaterial.keys =
      some (suite.keys (KeyStream.blocks prf K S 255) fun key => (some key, none)) := by
  have read := KeyStream.readBlocks_slices prf K S [suite.prfLength, suite.integLength,
    suite.integLength, suite.encrLength, suite.encrLength] 255
    (by have total := suite.length_le; simp; omega)
  simp only [List.map_cons, List.map_nil, KeyStream.readBlocks, slices_cons, slices_nil,
    List.cons.injEq, List.drop_drop] at read
  obtain ⟨d, ai, ar, ei, er, -⟩ := read
  simp only [KEncryptionMaterial.generateRekeyedIKEMaterial, KeyStream.readKey, keylen_prf,
    keylen_integ, keylen_encr, Option.map_some, Option.bind_eq_bind, Option.bind_some]
  rw [d, ai, ar, ei, er]
  rfl

/-- The first function is right but for the longer keys of a counter. -/
theorem generateIKEMaterial_prescribed_iff :
    (suite.material.generateIKEMaterial (KeyStream.new prf K S) suite.encr suite.prf suite.integ
        suite.association).map KEncryptionMaterial.keys =
        some (suite.prescribed (KeyStream.blocks prf K S 255)) ↔
      (suite.encr = .AES_CTR → suite.encrLength = 20) := by
  rw [generateIKEMaterial_keys, Option.some_inj, prescribed]
  have total := suite.length_le
  have length (pos : ℕ) (le : pos + suite.encrLength ≤ 255) :=
    suite.length_slice prf K S le
  constructor
  · intro eq counter
    have key := congrArg (fun keys => (IKEKeys.ei keys).len) eq
    simp only [keys, splitAt16, split, counter, if_true, Str.len_some, List.length_take] at key
    rw [← List.length_take, length _ (by omega)] at key
    have long := suite.le_encrLength counter
    omega
  · intro right
    have same (key : List UInt8) (eq : key.length = suite.encrLength) :
        suite.splitAt16 key = suite.split key := by
      by_cases counter : suite.encr = .AES_CTR
      · have nonce : ((key.drop 16).take 4) = key.drop 16 :=
          List.take_of_length_le (by rw [List.length_drop, eq, right counter])
        rw [splitAt16, split, if_pos counter, if_pos counter, eq, right counter, nonce]
      · rw [splitAt16, split, if_neg counter, if_neg counter]
    exact suite.keys_congr (same _ (length _ (by omega))) (same _ (length _ (by omega)))

/-- The two functions agree on what is prescribed for every cipher but the one with a counter. -/
theorem derives_iff : suite.Derives prf K S ↔ suite.encr ≠ .AES_CTR := by
  rw [Derives, generateIKEMaterial_prescribed_iff, generateRekeyedIKEMaterial_keys,
    Option.some_inj, prescribed]
  constructor
  · intro ⟨_, rekeyed⟩ counter
    have nonce := congrArg IKEKeys.ni_ctr rekeyed
    simp [keys, split, counter] at nonce
  · intro other
    refine ⟨fun counter => absurd counter other, ?_⟩
    congr 1
    funext key
    rw [split, if_neg other]

/-- A counter with keys of 128 bits. -/
def counter128 : Suite where
  encr := .AES_CTR
  encrAttrs := [⟨.name .«Key Length», 128⟩]
  integ := .HMAC_SHA1_96
  integAttrs := []
  prf := .HMAC_SHA1
  prfAttrs := []
  encr_sized := by
    intro sizes size
    cases size
    exact ⟨128, by decide, rfl⟩
  integ_sized := ⟨160, rfl⟩
  prf_sized := ⟨160, rfl⟩

/-- When it is rekeyed, it has no nonces. -/
theorem not_derives_counter128 :
    ¬ ∀ (suite : Suite) (prf : Prf) (K S : List UInt8), suite.Derives prf K S := by
  intro all
  have rekeyed := (all counter128 KeyStream.sum20 [1] [2]).2
  rw [generateRekeyedIKEMaterial_keys, Option.some_inj] at rekeyed
  cases congrArg IKEKeys.ni_ctr rekeyed

end Suite

end Tahi.Ike
