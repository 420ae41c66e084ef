import Tahi.General.Cbc
import Tahi.Ike.KGen

/-! # The padding of encrypted payloads

The ciphers that chain blocks pad a text with random octets and a last octet that counts them.
When a text is decrypted, the padding is taken off the last block by a callback. It tells its
caller through a reference how much there is in the blocks before.
-/

namespace Tahi.Ike

open Perl

/-- What `ref` returns. -/
inductive RefType where
  | SCALAR | CODE
deriving DecidableEq, Repr

inductive Direction where
  | e | d
deriving DecidableEq, Repr

/-- The block, and what is stored where the reference points to. -/
def cbcPadding (random : Random) (block : List UInt8) (blockSize : ℕ) (direction : Direction)
    (refRemainingPad : Option RefType) : List UInt8 × Option ℕ :=
  match direction with
  | .e =>
      let padLen := blockSize - block.length - 1
      (block ++ (random padLen).toList ++ [UInt8.ofNat padLen], none)
  | .d =>
      let padLen := (unpackInt 1 (substr (some block) (-1) none)).getD 0 + 1
      if refRemainingPad = some .SCALAR then
        if padLen > blockSize then
          ((substr (some block) 0 (some (blockSize - blockSize))).octets, some (padLen - blockSize))
        else ((substr (some block) 0 (some (blockSize - padLen))).octets, some 0)
      else
        let padLen := if padLen > blockSize then blockSize else padLen
        ((substr (some block) 0 (some (blockSize - padLen))).octets, none)

/-- The ciphers for which `getEncrSub` uses `Crypt::CBC`. -/
inductive CbcCipher where
  | «3DES» | AES_CBC
deriving DecidableEq, Repr

namespace CbcCipher

def alg : CbcCipher → TransformID
  | «3DES» => .«3DES»
  | AES_CBC => .AES_CBC

abbrev blockSize (encr : CbcCipher) : ℕ := kBlockSize encr.alg

theorem blockSize_pos (encr : CbcCipher) : 0 < encr.blockSize := by cases encr <;> decide

/-- `\$remainPad` and `\&remainPad`. -/
def refRemainingPad : CbcCipher → RefType
  | «3DES» => .SCALAR
  | AES_CBC => .CODE

variable (encr : CbcCipher) (cipher : List UInt8 → Cbc.Cipher encr.blockSize) (random : Random)

def encrSub (K S IV : List UInt8) : List UInt8 :=
  (cipher K).encryptText (fun block => (cbcPadding random block encr.blockSize .e none).1)
    (Cbc.block encr.blockSize IV) S

def decrSub (K S IV : List UInt8) : Str :=
  let (ret, stored) := (cipher K).decryptText
    (fun block => cbcPadding random block encr.blockSize .d (some encr.refRemainingPad))
    (Cbc.block encr.blockSize IV) S
  let remainPad := stored.join.getD 0
  if remainPad ≠ 0 then substr (some ret) 0 (some (-remainPad)) else some ret

end CbcCipher

/-- A text whose blocks the padding and its length fill up. -/
structure Padded (n : ℕ) where
  plaintext : List UInt8
  padding : List UInt8
  le : padding.length ≤ 255
  whole : n ∣ plaintext.length + padding.length + 1

def Padded.text {n : ℕ} (m : Padded n) : List UInt8 :=
  m.plaintext ++ m.padding ++ [UInt8.ofNat m.padding.length]

/-- The encryption of all its blocks. -/
def Padded.encrypt {n : ℕ} (m : Padded n) (cipher : Cbc.Cipher n) (iv : Cbc.Block n) :
    List UInt8 :=
  Cbc.octets (cipher.chain iv (Cbc.blocks n m.text))

/-! ## Decryption -/

/-- A negative length leaves octets off the end. -/
theorem substr_but (octets : List UInt8) {k : ℕ} (some : 0 < k) :
    substr (.some octets) 0 (.some (-(k : ℤ))) = .some (octets.take (octets.length - k)) := by
  have negative : (-(k : ℤ)) < 0 := by omega
  simp only [substr, negative, if_true]
  simp
  omega

section

variable (random : Random) (body : List UInt8) (o : UInt8)

/-- The last octet of a block says how much of it goes. -/
theorem cbcPadding_d {blockSize : ℕ} (length : body.length + 1 = blockSize) (ref : RefType) :
    cbcPadding random (body ++ [o]) blockSize .d (some ref) =
      (body.take (blockSize - (o.toNat + 1)),
        if ref = .SCALAR then some (o.toNat + 1 - blockSize) else none) := by
  have last : (unpackInt 1 (substr (some (body ++ [o])) (-1) none)).getD 0 = o.toNat := by
    have one : substr (some (body ++ [o])) (-1) none = some [o] := by
      simp [substr, List.drop_left']
    rw [one, unpackInt_eq]
    simp [be]
  have front (padLen : ℕ) (some : 0 < padLen) (le : padLen ≤ blockSize) :
      (substr (.some (body ++ [o])) 0 (.some (blockSize - padLen))).octets =
        body.take (blockSize - padLen) := by
    rw [← Int.ofNat_sub le, substr_first, Str.octets_some, Str.octets_some,
      List.take_append_of_le_length (by omega)]
  have all := front blockSize (by omega) (Nat.le_refl _)
  by_cases long : o.toNat + 1 > blockSize
  · rw [Nat.sub_eq_zero_of_le long.le]
    rw [Nat.sub_self] at all
    cases ref with
    | SCALAR => simp only [cbcPadding, last, long, if_true, all]
    | CODE =>
        simp only [cbcPadding, last, Option.some.injEq, reduceCtorEq, if_false, long, if_true, all]
  · have kept := front (o.toNat + 1) (by omega) (by omega)
    cases ref with
    | SCALAR =>
        simp only [cbcPadding, last, long, if_true, if_false, kept]
        rw [Nat.sub_eq_zero_of_le (Nat.le_of_not_lt long)]
    | CODE =>
        simp only [cbcPadding, last, Option.some.injEq, reduceCtorEq, if_false, long, kept]

end

namespace CbcCipher

variable (encr : CbcCipher) (cipher : List UInt8 → Cbc.Cipher encr.blockSize) (random : Random)

/-- Behind the blocks in front, the last one loses its padding. Only 3DES takes off more. -/
theorem decrSub_chain (K IV : List UInt8) (front : List (Cbc.Block encr.blockSize))
    (last : Cbc.Block encr.blockSize) {body : List UInt8} {o : UInt8}
    (octets : last.toList = body ++ [o]) :
    encr.decrSub cipher random K
        (Cbc.octets ((cipher K).chain (Cbc.block encr.blockSize IV) (front ++ [last]))) IV =
      some (if encr = «3DES» then
        (Cbc.octets front ++ body).take ((Cbc.octets front).length + body.length - o.toNat)
      else Cbc.octets front ++ body.take (body.length - o.toNat)) := by
  have length : body.length + 1 = encr.blockSize := by
    have both := congrArg List.length octets
    rwa [Vector.length_toList, List.length_append, List.length_singleton, eq_comm] at both
  rw [decrSub, Cbc.Cipher.decryptText_chain _ encr.blockSize_pos, octets,
    cbcPadding_d random body o length]
  have size : encr.blockSize - (o.toNat + 1) = body.length - o.toNat := by omega
  cases encr with
  | AES_CBC => simp [refRemainingPad, size]
  | «3DES» =>
      simp only [refRemainingPad, if_true, Option.join_some, Option.getD_some, size]
      by_cases long : o.toNat ≤ body.length
      · rw [Nat.sub_eq_zero_of_le (by omega), if_neg (by simp), ← List.take_length_add_append,
          Nat.add_sub_assoc long]
      · rw [if_pos (by omega), Nat.sub_eq_zero_of_le (Nat.le_of_not_le long), List.take_zero,
          List.append_nil, substr_but _ (by omega), List.take_append_of_le_length (by omega)]
        congr 2
        omega

end CbcCipher

/-- The last block ends with the length of the padding. -/
theorem Padded.exists_last {n : ℕ} (positive : 0 < n) (m : Padded n) :
    ∃ front : List (Cbc.Block n), ∃ last body, Cbc.blocks n m.text = front ++ [last] ∧
      last.toList = body ++ [UInt8.ofNat m.padding.length] ∧
      m.plaintext ++ m.padding = Cbc.octets front ++ body := by
  obtain ⟨l, rest, short, text⟩ := Cbc.exists_blocks positive m.text
  have length : m.text.length = m.plaintext.length + m.padding.length + 1 := by
    simp [Padded.text, Nat.add_assoc]
  have all : rest = [] := by
    have whole := m.whole
    rw [← length, text, List.length_append, Cbc.length_octets,
      Nat.dvd_add_right (Nat.dvd_mul_right n _)] at whole
    exact List.length_eq_zero_iff.mp (Nat.eq_zero_of_dvd_of_lt whole short)
  subst all
  obtain rfl | ⟨front, last, rfl⟩ := List.eq_nil_or_concat' l
  · rw [text] at length
    cases length
  · have blocks : Cbc.blocks n m.text = front ++ [last] := by
      rw [text, Cbc.blocks_octets _ positive]
    rw [List.append_nil, Cbc.octets_append, Cbc.octets_singleton, Padded.text] at text
    have some : last.toList ≠ [] := by
      intro none
      have length := congrArg List.length none
      rw [Vector.length_toList] at length
      omega
    have body := List.dropLast_append_getLast some
    rw [← body, ← List.append_assoc] at text
    obtain ⟨same, o⟩ := List.append_inj' text rfl
    refine ⟨front, last, last.toList.dropLast, blocks, ?_, same⟩
    rw [o, body]

namespace CbcCipher

variable (encr : CbcCipher) (cipher : List UInt8 → Cbc.Cipher encr.blockSize) (random : Random)

/-- What 3DES decrypts is the text. What AES decrypts is the text if the padding begins in the last
    block. -/
theorem decrSub_encrypt_iff (K IV : List UInt8) (m : Padded encr.blockSize) :
    encr.decrSub cipher random K (m.encrypt (cipher K) (Cbc.block encr.blockSize IV)) IV =
        some m.plaintext ↔
      encr = «3DES» ∨ m.padding.length ≤ 15 := by
  obtain ⟨front, last, body, blocks, octets, same⟩ := m.exists_last encr.blockSize_pos
  rw [Padded.encrypt, blocks, decrSub_chain encr cipher random K IV front last octets,
    Option.some_inj, UInt8.toNat_ofNat_of_lt' (Nat.lt_succ_of_le m.le)]
  have lengths : m.plaintext.length + m.padding.length = (Cbc.octets front).length + body.length := by
    rw [← List.length_append, same, List.length_append]
  have size : body.length + 1 = encr.blockSize := by
    have both := congrArg List.length octets
    rwa [Vector.length_toList, List.length_append, List.length_singleton, eq_comm] at both
  have plaintext : (Cbc.octets front ++ body).take m.plaintext.length = m.plaintext := by
    rw [← same, List.take_left]
  cases encr with
  | «3DES» =>
      refine iff_of_true ?_ (.inl rfl)
      rwa [if_pos rfl, ← lengths, Nat.add_sub_cancel]
  | AES_CBC =>
      have fifteen : body.length = 15 := Nat.succ_injective size
      simp only [reduceCtorEq, if_false, false_or]
      constructor
      · intro eq
        have length := congrArg List.length eq
        rw [List.length_append, List.length_take] at length
        omega
      · intro short
        rw [← List.take_length_add_append, ← Nat.add_sub_assoc (by omega), ← lengths,
          Nat.add_sub_cancel]
        exact plaintext

/-- The padding of the own encryption is never longer. -/
theorem decrSub_encrSub (K S IV : List UInt8) :
    encr.decrSub cipher random K (encr.encrSub cipher random K S IV) IV = some S := by
  obtain ⟨l, rest, short, rfl⟩ := Cbc.exists_blocks encr.blockSize_pos S
  rw [encrSub, Cbc.Cipher.encryptText_eq _ _ _ _ short]
  let padLen := encr.blockSize - rest.length - 1
  have octets : (Cbc.block encr.blockSize (cbcPadding random rest encr.blockSize .e none).1).toList =
      rest ++ (random padLen).toList ++ [UInt8.ofNat padLen] :=
    Cbc.toList_block (by simp [cbcPadding]; omega)
  have few : encr.blockSize ≤ 16 := by cases encr <;> decide
  have size : padLen < 256 := by omega
  rw [decrSub_chain encr cipher random K IV l _ octets, UInt8.toNat_ofNat_of_lt' size]
  have length : (rest ++ (random padLen).toList).length - padLen = rest.length := by
    rw [List.length_append, Vector.length_toList, Nat.add_sub_cancel]
  split
  · rw [Nat.add_sub_assoc (by simp), length, List.take_length_add_append, List.take_left]
  · rw [length, List.take_left]

/-- AES with padding that begins in the block before the last. -/
theorem not_decrSub_encrypt :
    ¬ ∀ (encr : CbcCipher) (cipher : List UInt8 → Cbc.Cipher encr.blockSize) (random : Random)
      (K IV : List UInt8) (m : Padded encr.blockSize),
      encr.decrSub cipher random K (m.encrypt (cipher K) (Cbc.block encr.blockSize IV)) IV =
        some m.plaintext := by
  intro all
  let m : Padded AES_CBC.blockSize := ⟨[], List.replicate 31 0, by decide, by decide⟩
  have eq := all AES_CBC (fun _ => ⟨id, id, fun _ => rfl⟩) (fun n => Vector.replicate n 0) [] [] m
  revert eq
  decide +kernel

end CbcCipher

end Tahi.Ike
