import Tahi.General.Cbc
import Tahi.General.PerlString

/-! # Counter mode

A text is masked with what a cipher makes of successive blocks, each of which is the number behind
the one before it, with the most significant octet first. A text that ends within a block leaves
the rest of the mask out.
-/

namespace CounterMode

open Cbc Perl

variable {n : ℕ}

/-- The block so many numbers behind. All ones are followed by zeros. -/
def advance (b : Block n) (i : ℕ) : Block n := block n (packInt n (be b.toList + i))

/-- The mask of the octet at `i`. -/
def mask (cipher : Block n → Block n) (first : Block n) (i : ℕ) : UInt8 :=
  (cipher (advance first (i / n))).toList.getD (i % n) 0

def crypt (cipher : Block n → Block n) (first : Block n) (text : List UInt8) : List UInt8 :=
  text.mapIdx fun i o => o ^^^ mask cipher first i

/-! ## Blocks in their order -/

@[simp] theorem advance_zero (b : Block n) : advance b 0 = b := by
  have number := packInt_be b.toList
  rw [Vector.length_toList] at number
  rw [advance, Nat.add_zero, number, block_toList]

theorem advance_advance (b : Block n) (i j : ℕ) : advance (advance b i) j = advance b (i + j) := by
  rw [advance, advance, advance, toList_block (length_packInt _ _), be_packInt, ← packInt_mod,
    Nat.mod_add_mod, packInt_mod, Nat.add_assoc]

/-- As long as its last octets do not overflow, the others stay as they are. -/
theorem advance_counter {front : List UInt8} {size c i : ℕ} (length : front.length + size = n)
    (fits : c + i < 256 ^ size) :
    advance (block n (front ++ packInt size c)) i = block n (front ++ packInt size (c + i)) := by
  have whole : (front ++ packInt size c).length = n := by
    rw [List.length_append, length_packInt, length]
  have sum : be (front ++ packInt size c) + i = 256 ^ size * be front + (c + i) := by
    rw [be_append, length_packInt, be_packInt, Nat.mod_eq_of_lt (by omega), Nat.mul_comm,
      Nat.add_assoc]
  have high : (256 ^ size * be front + (c + i)) / 256 ^ size = be front := by
    rw [Nat.mul_add_div (by positivity), Nat.div_eq_of_lt fits, Nat.add_zero]
  rw [advance, toList_block whole, sum, ← length, packInt_append, high, packInt_be,
    ← packInt_mod size, Nat.mul_add_mod, packInt_mod]

/-! ## Texts in pieces -/

variable (cipher : Block n → Block n) (first : Block n)

@[simp] theorem crypt_nil : crypt cipher first [] = [] := rfl

@[simp] theorem length_crypt (text : List UInt8) :
    (crypt cipher first text).length = text.length := List.length_mapIdx

/-- The same mask takes itself off again. -/
theorem crypt_crypt (text : List UInt8) :
    crypt cipher first (crypt cipher first text) = text := by
  rw [crypt, crypt, List.mapIdx_mapIdx]
  apply List.ext_getElem
  · exact List.length_mapIdx
  · intro i _ _
    simp

theorem crypt_take (text : List UInt8) (k : ℕ) :
    crypt cipher first (text.take k) = (crypt cipher first text).take k := by
  apply List.ext_getElem
  · simp
  · intro i _ _
    simp [crypt]

/-- Behind whole blocks the mask goes on with the next block. -/
theorem crypt_append (positive : 0 < n) {front : List UInt8} {k : ℕ} (length : front.length = n * k)
    (behind : List UInt8) :
    crypt cipher first (front ++ behind) =
      crypt cipher first front ++ crypt cipher (advance first k) behind := by
  have shifted (i : ℕ) : mask cipher first (i + front.length) = mask cipher (advance first k) i := by
    rw [mask, mask, length, Nat.add_mul_div_left _ _ positive, Nat.add_mul_mod_self_left,
      advance_advance, Nat.add_comm k]
  simp only [crypt, List.mapIdx_append, shifted]

/-- Within a block the mask is what is made of the first number. -/
theorem crypt_of_le {text : List UInt8} (short : text.length ≤ n) :
    crypt cipher first text = List.zipWith (· ^^^ ·) text (cipher first).toList := by
  apply List.ext_getElem
  · simp [short]
  · intro i left _
    rw [length_crypt] at left
    have inside : i < n := by omega
    simp [crypt, mask, Nat.div_eq_of_lt inside, Nat.mod_eq_of_lt inside, List.getD_eq_getElem?_getD,
      inside]

end CounterMode
