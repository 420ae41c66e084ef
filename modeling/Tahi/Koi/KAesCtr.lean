import Tahi.General.CounterMode

/-! # The counter mode of the test scripts

An object numbers the blocks that it has masked, from one call to the next. `Rijndael` is what the
library makes of a key and a string that is one block.
-/

namespace Tahi.Koi

open Perl CounterMode

/-- `^` of strings, where the shorter one is filled up with zeros. -/
def strxor (a b : List UInt8) : List UInt8 :=
  (List.range (max a.length b.length)).map fun i => a.getD i 0 ^^^ b.getD i 0

theorem strxor_eq {a b : List UInt8} (length : a.length = b.length) :
    strxor a b = List.zipWith (· ^^^ ·) a b := by
  apply List.ext_getElem
  · simp [strxor, length]
  · intro i left _
    have inside : i < b.length := by simpa [strxor, length] using left
    simp [strxor, List.getD_eq_getElem?_getD, length, inside]

structure AES_CTR where
  algo : List UInt8 → List UInt8
  key : List UInt8
  blocksize : ℕ
  nonce : List UInt8
  iv : List UInt8
  counter : List UInt8
  positive : 0 < blocksize

namespace AES_CTR

def BLOCKSIZE : ℕ := 128

def init_counter : List UInt8 := packInt 4 1

def new (Rijndael : List UInt8 → List UInt8 → List UInt8) (key nonce iv : List UInt8) : AES_CTR where
  algo := Rijndael key
  key
  blocksize := BLOCKSIZE / 8
  nonce := unhex ((hex nonce).take 8)
  iv := unhex ((hex iv).take 16)
  counter := init_counter
  positive := by decide

def increment_counter (self : AES_CTR) : AES_CTR :=
  let c := (unpackInt 4 (some self.counter)).getD 0
  { self with counter := packInt 4 (c + 1) }

def make_ctrblk (self : AES_CTR) : List UInt8 := self.nonce ++ self.iv ++ self.counter

def bencrypt (self : AES_CTR) (block : List UInt8) : List UInt8 × AES_CTR :=
  let ctrblk := self.make_ctrblk
  let aes_ctrblk := self.algo ctrblk
  let aes_ctrblk :=
    if block.length < aes_ctrblk.length then (substr (some aes_ctrblk) 0 (some block.length)).octets
    else aes_ctrblk
  let out := strxor block aes_ctrblk
  (out, self.increment_counter)

/-- The loop of `_encrypt`. -/
def bencrypts (self : AES_CTR) (string : List UInt8) (i : ℕ) (out : Str) : Str × AES_CTR :=
  if i < string.length then
    let (block, next) := self.bencrypt (substr (some string) i (some self.blocksize)).octets
    bencrypts next string (i + self.blocksize) (out.append block)
  else (out, self)
termination_by string.length - i
decreasing_by
  have positive := self.positive
  omega

/-- Of an empty string nothing is returned. -/
def _encrypt (self : AES_CTR) (string : List UInt8) : Str × AES_CTR := self.bencrypts string 0 none

def encrypt (self : AES_CTR) (string : List UInt8) : Str × AES_CTR := self._encrypt string

def decrypt (self : AES_CTR) (string : List UInt8) : Str × AES_CTR := self._encrypt string

/-- What successive calls return, joined. -/
def joined (call : AES_CTR → List UInt8 → Str × AES_CTR) (self : AES_CTR) :
    List (List UInt8) → List UInt8
  | [] => []
  | string :: strings =>
      let (out, self) := call self string
      out.octets ++ joined call self strings

theorem joined_cons (call : AES_CTR → List UInt8 → Str × AES_CTR) (self : AES_CTR)
    (string : List UInt8) (strings : List (List UInt8)) :
    joined call self (string :: strings) =
      (call self string).1.octets ++ joined call (call self string).2 strings := rfl

end AES_CTR

/-- A key of one of the sizes that there are. -/
structure AESKey where
  octets : List UInt8
  size : octets.length = 16 ∨ octets.length = 24 ∨ octets.length = 32

/-- A text in pieces, all of which but the last are whole blocks. -/
structure Pieces (text : List UInt8) where
  pieces : List (List UInt8)
  joined : pieces.flatten = text
  whole : ∀ piece ∈ pieces.dropLast, piece ≠ [] ∧ 16 ∣ piece.length

namespace AES_CTR

/-! ## The numbers of the blocks -/

variable {Rijndael : List UInt8 → List UInt8 → List UInt8}
  {AES : AESKey → Cbc.Block 16 → Cbc.Block 16} (key : AESKey) (nonce : Vector UInt8 4)
  (iv : Vector UInt8 8)

/-- `CTRBLK := NONCE || IV || ONE` -/
def ctrblk : Cbc.Block 16 := Cbc.block 16 (nonce.toList ++ iv.toList ++ packInt 4 1)

variable (Rijndael) in
/-- The object, so many blocks on. -/
def numbered (k : ℕ) : AES_CTR :=
  { new Rijndael key.octets nonce.toList iv.toList with counter := packInt 4 (1 + k) }

theorem numbered_zero :
    numbered Rijndael key nonce iv 0 = new Rijndael key.octets nonce.toList iv.toList := rfl

@[simp] theorem blocksize_numbered (k : ℕ) : (numbered Rijndael key nonce iv k).blocksize = 16 := rfl

@[simp] theorem algo_numbered (k : ℕ) :
    (numbered Rijndael key nonce iv k).algo = Rijndael key.octets := rfl

theorem increment_numbered (k : ℕ) :
    (numbered Rijndael key nonce iv k).increment_counter =
      numbered Rijndael key nonce iv (k + 1) := by
  have read : unpackInt 4 (some (packInt 4 (1 + k))) = some ((1 + k) % 256 ^ 4) := by
    rw [← packInt_mod, ← List.append_nil (packInt _ _)]
    exact unpackInt_packInt (Nat.mod_lt _ (by decide)) []
  have next : packInt 4 ((1 + k) % 256 ^ 4 + 1) = packInt 4 (1 + (k + 1)) := by
    rw [← packInt_mod, Nat.mod_add_mod, packInt_mod, Nat.add_assoc]
  simp only [increment_counter, numbered, read, Option.getD_some, next]

theorem make_ctrblk_numbered {k : ℕ} (fits : 1 + k < 2 ^ 32) :
    (numbered Rijndael key nonce iv k).make_ctrblk = (advance (ctrblk nonce iv) k).toList := by
  have cut (n : ℕ) (v : Vector UInt8 n) : unhex ((hex v.toList).take (2 * n)) = v.toList := by
    rw [List.take_of_length_le (by simp), unhex_hex]
  have number := @advance_counter 16 (nonce.toList ++ iv.toList) 4 1 k (by simp) fits
  rw [ctrblk, number, Cbc.toList_block (by simp)]
  simp only [make_ctrblk, numbered, new, cut 4 nonce, cut 8 iv]

/-- The first block of a text, and the rest of it under the next numbers. -/
theorem crypt_block (cipher : Cbc.Block 16 → Cbc.Block 16) (first : Cbc.Block 16)
    (text : List UInt8) :
    crypt cipher first text =
      crypt cipher first (text.take 16) ++ crypt cipher (advance first 1) (text.drop 16) := by
  by_cases full : 16 ≤ text.length
  · have length : (text.take 16).length = 16 * 1 := by
      rw [List.length_take]
      omega
    rw [← crypt_append _ _ (by decide) length, List.take_append_drop]
  · rw [List.take_of_length_le (by omega), List.drop_of_length_le (by omega), crypt_nil,
      List.append_nil]

/-- A mask is cut to the text, which is no longer than it is. -/
theorem strxor_cut {block mask : List UInt8} (short : block.length ≤ mask.length) :
    strxor block (if block.length < mask.length then
        (substr (some mask) 0 (some block.length)).octets
      else mask) = List.zipWith (· ^^^ ·) block mask := by
  by_cases shorter : block.length < mask.length
  · have cut : (mask.take block.length).length = block.length := List.length_take_of_le short
    have both := @List.zipWith_eq_zipWith_take_min _ _ _ (fun a b : UInt8 => a ^^^ b) block mask
    rw [if_pos shorter, substr_first, Str.octets_some, Str.octets_some, strxor_eq cut.symm, both,
      Nat.min_eq_left short, List.take_length]
  · rw [if_neg shorter]
    exact strxor_eq (by omega)

variable (rijndael : ∀ key b, Rijndael key.octets (Vector.toList b) = (AES key b).toList)

include rijndael

/-- A block is masked with its number, and a shorter one with the first octets of the mask. -/
theorem bencrypt_numbered {k : ℕ} (fits : 1 + k < 2 ^ 32) {block : List UInt8}
    (short : block.length ≤ 16) :
    (numbered Rijndael key nonce iv k).bencrypt block =
      (crypt (AES key) (advance (ctrblk nonce iv) k) block,
        numbered Rijndael key nonce iv (k + 1)) := by
  have room : block.length ≤ (AES key (advance (ctrblk nonce iv) k)).toList.length := by
    rw [Vector.length_toList]
    exact short
  rw [bencrypt, make_ctrblk_numbered key nonce iv fits, increment_numbered, algo_numbered,
    rijndael, strxor_cut room, crypt_of_le _ _ short]

/-- From `i` on the octets of the string are masked, and all their blocks are numbered. -/
theorem bencrypts_numbered (string : List UInt8) (i k : ℕ) (out : Str)
    (fits : k + (string.length - i + 15) / 16 < 2 ^ 32) :
    ((numbered Rijndael key nonce iv k).bencrypts string i out).1.octets =
        out.octets ++ crypt (AES key) (advance (ctrblk nonce iv) k) (string.drop i) ∧
      ((numbered Rijndael key nonce iv k).bencrypts string i out).2 =
        numbered Rijndael key nonce iv (k + (string.length - i + 15) / 16) := by
  rw [bencrypts]
  by_cases more : i < string.length
  · have block : substr (some string) i (some (16 : ℕ)) = some ((string.drop i).take 16) := by
      rw [substr_part, if_neg (by rw [Str.len_some]; omega), Str.octets_some]
    have count : (string.length - i + 15) / 16 = 1 + (string.length - (i + 16) + 15) / 16 := by
      omega
    rw [if_pos more, blocksize_numbered, block, Str.octets_some,
      bencrypt_numbered key nonce iv rijndael (by omega) (List.length_take_le _ _)]
    obtain ⟨octets, next⟩ := bencrypts_numbered string (i + 16) (k + 1)
      (out.append (crypt (AES key) (advance (ctrblk nonce iv) k) ((string.drop i).take 16)))
      (by omega)
    constructor
    · rw [octets, Str.octets_append, Str.octets_some, List.append_assoc, ← advance_advance,
        ← List.drop_drop, ← crypt_block]
    · rw [next, count, Nat.add_assoc]
  · rw [if_neg more, List.drop_of_length_le (by omega), Nat.sub_eq_zero_of_le (by omega)]
    exact ⟨(List.append_nil _).symm, rfl⟩
termination_by string.length - i

/-- Successive calls mask the text that they are given, whatever the pieces are. -/
theorem joined_numbered (pieces : List (List UInt8))
    (whole : ∀ piece ∈ pieces.dropLast, piece ≠ [] ∧ 16 ∣ piece.length) (k : ℕ)
    (fits : k + (pieces.flatten.length + 15) / 16 < 2 ^ 32) :
    joined _encrypt (numbered Rijndael key nonce iv k) pieces =
      crypt (AES key) (advance (ctrblk nonce iv) k) pieces.flatten := by
  induction pieces generalizing k with
  | nil => rfl
  | cons piece pieces ih =>
      rw [List.flatten_cons, List.length_append] at fits
      obtain ⟨octets, next⟩ := bencrypts_numbered key nonce iv rijndael piece 0 k none (by omega)
      rw [joined_cons, _encrypt, octets, next, Str.octets_none, List.nil_append, List.drop_zero,
        List.flatten_cons]
      cases pieces with
      | nil => rw [joined, List.flatten_nil, List.append_nil, List.append_nil]
      | cons second pieces =>
          rw [List.dropLast_cons_cons] at whole
          obtain ⟨n, length⟩ := (whole piece (by simp)).2
          have count : (piece.length - 0 + 15) / 16 = n := by omega
          rw [count, ih (fun piece mem => whole piece (List.mem_cons_of_mem _ mem)) _ (by omega),
            ← advance_advance, ← crypt_append _ _ (by decide) length]

/-- A new object masks the text from the first number on. -/
theorem joined_new {text : List UInt8} (cut : Pieces text)
    (few : (text.length + 15) / 16 < 2 ^ 32 - 1) :
    joined _encrypt (new Rijndael key.octets nonce.toList iv.toList) cut.pieces =
      crypt (AES key) (ctrblk nonce iv) text := by
  have all := joined_numbered key nonce iv rijndael cut.pieces cut.whole 0
    (by rw [cut.joined]; omega)
  rwa [cut.joined, numbered_zero, advance_zero] at all

end AES_CTR

end Tahi.Koi
