import Tahi.Koi.KAesCtr
import Tahi.Pz.MfAesXcbc

/-! # The counter mode of the packet generator

The nonce is the end of the key. The library masks the text under numbers that fill a whole block.
The length of the text is a word.
-/

namespace Tahi.Pz

open Koi CounterMode

namespace MfAES_CTR

def AES_CTR_NONCE_SIZE : ℕ := 4

def AES_CTR_IV_SIZE : ℕ := 8

/-- The key that the schedule is made of, as far as `bits` goes. -/
def AES_set_encrypt_key (userKey : List UInt8) (bits : ℕ) : Option (List UInt8) :=
  if bits = 128 ∨ bits = 192 ∨ bits = 256 then some (userKey.take (bits / 8)) else none

variable (AES_ctr128_encrypt : List UInt8 → List UInt8 → Cbc.Block 16 → Cbc.Block 16 → ℕ → List UInt8)

/-- Reading beyond the end of an argument is `none`, and so is a schedule that stays zero because
    the key has a wrong size. -/
def encrypt (is : List UInt8) (l : UInt32) (key iv : List UInt8) : Option (List UInt8) :=
  if key.length < AES_CTR_NONCE_SIZE ∨ iv.length < AES_CTR_IV_SIZE ∨ is.length < l.toNat then none
  else do
    let bits := (key.length - AES_CTR_NONCE_SIZE) <<< 3
    let num := 0
    let ecount_buf := Cbc.block 16 []
    let nonce := (key.drop (key.length - AES_CTR_NONCE_SIZE)).take 4
    let block_counter := (htonl 1).map UInt8.ofBitVec
    let ctrblk := Cbc.block 16 (nonce ++ iv.take AES_CTR_IV_SIZE ++ block_counter)
    let k ← AES_set_encrypt_key key bits
    some (AES_ctr128_encrypt (is.take l.toNat) k ctrblk ecount_buf num)

def decrypt (is : List UInt8) (l : UInt32) (key iv : List UInt8) : Option (List UInt8) :=
  encrypt AES_ctr128_encrypt is l key iv

variable {AES_ctr128_encrypt} {AES : AESKey → Cbc.Block 16 → Cbc.Block 16}
  (ctr128 : ∀ (is : List UInt8) (key : AESKey) (ctrblk ecount_buf : Cbc.Block 16),
    AES_ctr128_encrypt is key.octets ctrblk ecount_buf 0 = crypt (AES key) ctrblk is)

include ctr128

theorem encrypt_eq (key : AESKey) (nonce : Vector UInt8 4) (iv : Vector UInt8 8)
    {text : List UInt8} {l : UInt32} (inside : l.toNat ≤ text.length) :
    encrypt AES_ctr128_encrypt text l (key.octets ++ nonce.toList) iv.toList =
      some (crypt (AES key) (AES_CTR.ctrblk nonce iv) (text.take l.toNat)) := by
  have room : ¬ ((key.octets ++ nonce.toList).length < AES_CTR_NONCE_SIZE ∨
      iv.toList.length < AES_CTR_IV_SIZE ∨ text.length < l.toNat) := by
    simp only [List.length_append, Vector.length_toList, AES_CTR_NONCE_SIZE, AES_CTR_IV_SIZE]
    omega
  have own : (key.octets ++ nonce.toList).length - AES_CTR_NONCE_SIZE = key.octets.length := by
    rw [List.length_append, Vector.length_toList]
    rfl
  have schedule : AES_set_encrypt_key (key.octets ++ nonce.toList) (key.octets.length <<< 3) =
      some key.octets := by
    have size := key.size
    rw [AES_set_encrypt_key, Nat.shiftLeft_eq, if_pos (by omega)]
    exact congrArg some (List.take_left' (by omega))
  have last : nonce.toList.take 4 = nonce.toList := List.take_of_length_le (by simp)
  have all : iv.toList.take AES_CTR_IV_SIZE = iv.toList := List.take_of_length_le (by simp; decide)
  have one : (htonl 1).map UInt8.ofBitVec = Perl.packInt 4 1 := by decide
  simp only [encrypt, if_neg room, own, schedule, List.drop_left, last, all, one, ctr128,
    Option.bind_eq_bind, Option.bind_some]
  rfl

/-! ## Both sides -/

variable {Rijndael : List UInt8 → List UInt8 → List UInt8}
  (rijndael : ∀ key b, Rijndael key.octets (Vector.toList b) = (AES key b).toList)

include rijndael

/-- Whatever the pieces are, the test scripts make the text that the packet generator makes as far
    as the length can tell it, and under any other pieces the message again. -/
theorem encrypt_joined (key : AESKey) (nonce : Vector UInt8 4) (iv : Vector UInt8 8)
    {message : List UInt8} (few : (message.length + 15) / 16 < 2 ^ 32 - 1) (cut : Pieces message) :
    let object := AES_CTR.new Rijndael key.octets nonce.toList iv.toList
    let joined := object.joined AES_CTR.encrypt cut.pieces
    (message.length < 2 ^ 32 →
      encrypt AES_ctr128_encrypt message (UInt32.ofNat message.length)
        (key.octets ++ nonce.toList) iv.toList = some joined) ∧
    (∀ l : UInt32, l.toNat ≤ message.length →
      encrypt AES_ctr128_encrypt message l (key.octets ++ nonce.toList) iv.toList =
        some (joined.take l.toNat)) ∧
    ∀ again : Pieces joined, object.joined AES_CTR.decrypt again.pieces = message := by
  intro object joined
  have masked : joined = crypt (AES key) (AES_CTR.ctrblk nonce iv) message :=
    AES_CTR.joined_new key nonce iv rijndael cut few
  have front (l : UInt32) (inside : l.toNat ≤ message.length) :
      encrypt AES_ctr128_encrypt message l (key.octets ++ nonce.toList) iv.toList =
        some (joined.take l.toNat) := by
    rw [encrypt_eq ctr128 key nonce iv inside, crypt_take, ← masked]
  refine ⟨fun fits => ?_, front, fun again => ?_⟩
  · have length : (UInt32.ofNat message.length).toNat = message.length := by
      rw [UInt32.toNat_ofNat', Nat.mod_eq_of_lt fits]
    rw [front _ length.le, length, List.take_of_length_le (by rw [masked, length_crypt])]
  · have unmasked : object.joined AES_CTR.decrypt again.pieces =
        crypt (AES key) (AES_CTR.ctrblk nonce iv) joined :=
      AES_CTR.joined_new key nonce iv rijndael again (by rwa [masked, length_crypt])
    rw [unmasked, masked, crypt_crypt]

omit ctr128 rijndael

/-- Two blocks, with what AES makes of their numbers under this key. -/
theorem encrypt_joined_two_blocks :
    let key : AESKey := ⟨[0x7e, 0x24, 0x06, 0x78, 0x17, 0xfa, 0xe0, 0xd7, 0x43, 0xd6, 0xce, 0x1f,
      0x32, 0x53, 0x91, 0x63], by decide⟩
    let nonce : Vector UInt8 4 := #v[0x00, 0x6c, 0xb6, 0xdb]
    let iv : Vector UInt8 8 := #v[0xc0, 0x54, 0x3b, 0x59, 0xda, 0x48, 0xd9, 0x0b]
    let AES : Cbc.Block 16 → Cbc.Block 16 := fun b =>
      if b = AES_CTR.ctrblk nonce iv then
        #v[0x51, 0x05, 0xa3, 0x05, 0x12, 0x8f, 0x74, 0xde, 0x71, 0x04, 0x4b, 0xe5, 0x82, 0xd7, 0xdd,
          0x87]
      else
        #v[0xfb, 0x3f, 0x0c, 0xef, 0x52, 0xcf, 0x41, 0xdf, 0xe4, 0xff, 0x2a, 0xc4, 0x8d, 0x5c, 0xa0,
          0x37]
    let object := AES_CTR.new (fun _ b => (AES (Cbc.block 16 b)).toList) key.octets nonce.toList
      iv.toList
    let message := (List.range 32).map UInt8.ofNat
    let joined := object.joined AES_CTR.encrypt [message.take 16, message.drop 16]
    encrypt (fun is _ ctrblk _ _ => crypt AES ctrblk is) message 32 (key.octets ++ nonce.toList)
        iv.toList = some joined ∧
      object.joined AES_CTR.decrypt [joined] = message := by
  intro key nonce iv AES object message joined
  let cut : Pieces message := ⟨[message.take 16, message.drop 16], rfl, by decide⟩
  have same := @encrypt_joined (fun is _ ctrblk _ _ => crypt AES ctrblk is) (fun _ => AES)
    (fun _ _ _ _ => rfl) (fun _ b => (AES (Cbc.block 16 b)).toList)
    (fun _ b => by rw [Cbc.block_toList]) key nonce iv message (by decide) cut
  exact ⟨same.1 (by decide), same.2.2 ⟨[joined], List.flatten_singleton, by simp⟩⟩

/-- A message of `2 ^ 32` octets is longer than any length that there is. -/
theorem not_encrypt_joined :
    ¬ ∀ (AES : AESKey → Cbc.Block 16 → Cbc.Block 16) (Rijndael : List UInt8 → List UInt8 → List UInt8)
      (AES_ctr128_encrypt :
        List UInt8 → List UInt8 → Cbc.Block 16 → Cbc.Block 16 → ℕ → List UInt8),
      (∀ key b, Rijndael key.octets (Vector.toList b) = (AES key b).toList) →
      (∀ (is : List UInt8) (key : AESKey) (ctrblk ecount_buf : Cbc.Block 16),
        AES_ctr128_encrypt is key.octets ctrblk ecount_buf 0 = crypt (AES key) ctrblk is) →
      ∀ (key : AESKey) (nonce : Vector UInt8 4) (iv : Vector UInt8 8) (message : List UInt8),
        message ≠ [] → (message.length + 15) / 16 < 2 ^ 32 - 1 → ∀ cut : Pieces message,
          ∃ l, encrypt AES_ctr128_encrypt message l (key.octets ++ nonce.toList) iv.toList =
            some ((AES_CTR.new Rijndael key.octets nonce.toList iv.toList).joined AES_CTR.encrypt
              cut.pieces) := by
  intro all
  obtain ⟨message, length⟩ : ∃ message : List UInt8, message.length = 2 ^ 32 :=
    ⟨List.replicate (2 ^ 32) 0, List.length_replicate⟩
  have rijndael (key : AESKey) (b : Cbc.Block 16) :
      (fun _ b => b : List UInt8 → List UInt8 → List UInt8) key.octets b.toList = b.toList := rfl
  let key : AESKey := ⟨List.replicate 16 0, .inl rfl⟩
  let nonce : Vector UInt8 4 := Vector.replicate 4 0
  let iv : Vector UInt8 8 := Vector.replicate 8 0
  let cut : Pieces message := ⟨[message], List.flatten_singleton, by simp⟩
  have few : (message.length + 15) / 16 < 2 ^ 32 - 1 := by omega
  have some_ : message ≠ [] := by
    rintro rfl
    cases length
  obtain ⟨l, same⟩ := all (fun _ b => b) (fun _ b => b) (fun is _ ctrblk _ _ => crypt id ctrblk is)
    rijndael (fun _ _ _ _ => rfl) key nonce iv message some_ few cut
  have short := l.toNat_lt
  have masked : (AES_CTR.new (fun _ b => b) key.octets nonce.toList iv.toList).joined
      AES_CTR.encrypt cut.pieces = crypt id (AES_CTR.ctrblk nonce iv) message :=
    @AES_CTR.joined_new _ (fun _ => id) key nonce iv rijndael message cut few
  rw [masked, @encrypt_eq _ (fun _ => id) (fun _ _ _ _ => rfl) key nonce iv message l (by omega),
    Option.some_inj] at same
  have lengths := congrArg List.length same
  rw [length_crypt, length_crypt, List.length_take] at lengths
  omega

end MfAES_CTR

end Tahi.Pz
