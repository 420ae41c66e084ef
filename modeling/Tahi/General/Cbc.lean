import Mathlib.Data.List.Induction
import Mathlib.Data.List.TakeDrop
import Mathlib.Data.Vector.Basic
import Tahi.General.Slices

/-! # Cipher block chaining

A cipher encrypts blocks of `n` octets. Texts are cut into blocks, each of which is masked with
the one before it, and a function of the caller pads the last block of a text and takes the padding
off again.
-/

namespace Cbc

open Tahi

abbrev Block (n : ℕ) := Vector UInt8 n

variable {n : ℕ}

def xor (a b : Block n) : Block n := Vector.zipWith (· ^^^ ·) a b

theorem xor_xor (a b : Block n) : xor (xor a b) b = a := by
  ext i bound
  simp [xor]

/-- The first octets, filled up with zeros. -/
def block (n : ℕ) (octets : List UInt8) : Block n := Vector.ofFn fun i => octets.getD i 0

theorem block_toList (b : Block n) : block n b.toList = b := by
  ext i bound
  simp [block, List.getD_eq_getElem?_getD]

theorem toList_block {octets : List UInt8} (length : octets.length = n) :
    (block n octets).toList = octets := by
  subst length
  apply List.ext_getElem
  · simp
  · intro i _ bound
    simp [block, List.getD_eq_getElem?_getD]

/-- The blocks that a text fills. -/
def blocks (n : ℕ) (octets : List UInt8) : List (Block n) :=
  (slices (List.replicate (octets.length / n) n) octets).map (block n)

def octets (l : List (Block n)) : List UInt8 := l.flatMap Vector.toList

theorem length_octets (l : List (Block n)) : (octets l).length = n * l.length := by
  simp [octets, List.length_flatMap, Nat.mul_comm]

theorem octets_append (l l' : List (Block n)) : octets (l ++ l') = octets l ++ octets l' :=
  List.flatMap_append

@[simp] theorem octets_singleton (b : Block n) : octets [b] = b.toList := List.flatMap_singleton ..

theorem blocks_of_lt {rest : List UInt8} (short : rest.length < n) : blocks n rest = [] := by
  rw [blocks, Nat.div_eq_of_lt short]
  rfl

/-- Octets that fill no block are not in any. -/
theorem blocks_octets (l : List (Block n)) {rest : List UInt8} (short : rest.length < n) :
    blocks n (octets l ++ rest) = l := by
  induction l with
  | nil => exact blocks_of_lt short
  | cons b l ih =>
      have text : octets (b :: l) ++ rest = b.toList ++ (octets l ++ rest) := by
        rw [octets, List.flatMap_cons, List.append_assoc]
        rfl
      have length : (octets (b :: l) ++ rest).length / n = (octets l ++ rest).length / n + 1 := by
        rw [text, List.length_append, Vector.length_toList, Nat.add_comm,
          Nat.add_div_right _ (Nat.zero_lt_of_lt short)]
      rw [blocks, length, List.replicate_succ, slices_cons, List.map_cons, text,
        List.take_left' (Vector.length_toList), List.drop_left' (Vector.length_toList),
        block_toList]
      exact congrArg (b :: ·) ih

/-- A text is its blocks and what fills none. -/
theorem exists_blocks (positive : 0 < n) (text : List UInt8) :
    ∃ l : List (Block n), ∃ rest, rest.length < n ∧ text = octets l ++ rest := by
  induction text using List.reverseRecOn with
  | nil => exact ⟨[], [], positive, rfl⟩
  | append_singleton text o ih =>
      obtain ⟨l, rest, short, rfl⟩ := ih
      have length : (rest ++ [o]).length = rest.length + 1 := List.length_append
      by_cases full : rest.length + 1 = n
      · refine ⟨l ++ [block n (rest ++ [o])], [], positive, ?_⟩
        rw [octets_append, octets_singleton, toList_block (length.trans full), List.append_nil,
          List.append_assoc]
      · exact ⟨l, rest ++ [o], by omega, List.append_assoc ..⟩

/-- A cipher under some key. -/
structure Cipher (n : ℕ) where
  encrypt : Block n → Block n
  decrypt : Block n → Block n
  inverse : ∀ b, decrypt (encrypt b) = b

namespace Cipher

variable (cipher : Cipher n)

def chain (iv : Block n) : List (Block n) → List (Block n)
  | [] => []
  | plain :: rest =>
      let block := cipher.encrypt (xor plain iv)
      block :: chain block rest

def unchain (iv : Block n) : List (Block n) → List (Block n)
  | [] => []
  | block :: rest => xor (cipher.decrypt block) iv :: unchain block rest

theorem unchain_chain (iv : Block n) (l : List (Block n)) :
    cipher.unchain iv (cipher.chain iv l) = l := by
  induction l generalizing iv with
  | nil => rfl
  | cons plain rest ih => rw [chain, unchain, cipher.inverse, xor_xor, ih]

/-- What is left when the text fills no more blocks is padded. -/
def encryptText (pad : List UInt8 → List UInt8) (iv : Block n) (text : List UInt8) : List UInt8 :=
  let full := blocks n text
  let last := block n (pad (text.drop (n * full.length)))
  octets (cipher.chain iv (full ++ [last]))

/-- The padding is taken off the last block. What else the function says about it is returned as
    well. -/
def decryptText {Note : Type} (unpad : List UInt8 → List UInt8 × Note) (iv : Block n)
    (text : List UInt8) : List UInt8 × Option Note :=
  let plain := cipher.unchain iv (blocks n text)
  match plain.getLast? with
  | none => ([], none)
  | some last =>
      let (rest, note) := unpad last.toList
      (octets plain.dropLast ++ rest, some note)

theorem decryptText_chain {Note : Type} (positive : 0 < n)
    (unpad : List UInt8 → List UInt8 × Note) (iv : Block n) (l : List (Block n)) (last : Block n) :
    cipher.decryptText unpad iv (octets (cipher.chain iv (l ++ [last]))) =
      (octets l ++ (unpad last.toList).1, some (unpad last.toList).2) := by
  have none : ([] : List UInt8).length < n := positive
  have cut := blocks_octets (cipher.chain iv (l ++ [last])) none
  rw [List.append_nil] at cut
  simp only [decryptText, cut, unchain_chain, List.getLast?_concat, List.dropLast_concat]

theorem encryptText_eq (pad : List UInt8 → List UInt8) (iv : Block n) (l : List (Block n))
    {rest : List UInt8} (short : rest.length < n) :
    cipher.encryptText pad iv (octets l ++ rest) =
      octets (cipher.chain iv (l ++ [block n (pad rest)])) := by
  rw [encryptText, blocks_octets l short, List.drop_left' (length_octets l)]

end Cipher

end Cbc
