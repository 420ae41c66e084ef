import Mathlib.Data.List.TakeDrop

/-! # XCBC

The blocks of a message are chained through a cipher, and the last one is finished with one
of two further keys: with the second if it is full, else it is padded and finished with the
third. What encrypts is any function of a key and a block.
-/

namespace Xcbc

abbrev Block := Fin 16 → BitVec 8

def xor (a b : Block) : Block := fun i => a i ^^^ b i

theorem xor_swap (a b : Block) : xor a b = xor b a := by
  funext i
  exact BitVec.xor_comm _ _

/-- The first octets, filled up with zeros. -/
def block (octets : List (BitVec 8)) : Block := fun i => octets.getD i 0

/-- The same octet all over. -/
def all (o : BitVec 8) : Block := fun _ => o

variable (cipher : Block → Block) (octets : List (BitVec 8))

/-- The `i`-th block of the message. -/
def part (i : Nat) : List (BitVec 8) := (octets.drop (16 * i)).take 16

/-- How many blocks come before the last one. The empty message has a last block, too. -/
def before : Nat := (octets.length - 1) / 16

/-- What comes out of the first `i` blocks. -/
def chain : Nat → Block
  | 0 => all 0
  | i + 1 => cipher (xor (block (part octets i)) (chain i))

/-- A single one and as many zeros as it takes. -/
def pad (last : List (BitVec 8)) : Block := block (last ++ [0x80])

/-- The last block is masked with one of the two further keys. -/
def finish (k2 k3 : Block) (last : List (BitVec 8)) (e : Block) : Block :=
  if last.length = 16 then cipher (xor (xor (block last) e) k2)
  else cipher (xor (xor (pad last) e) k3)

/-- The value of a message. All keys come from the one that is given. -/
def value (encrypt : List (BitVec 8) → Block → Block) (key : List (BitVec 8)) : Block :=
  let cipher := encrypt (List.ofFn (encrypt key (all 1)))
  finish cipher (encrypt key (all 2)) (encrypt key (all 3)) (part octets (before octets))
    (chain cipher octets (before octets))

variable {cipher octets}

theorem block_take (octets : List (BitVec 8)) : block (octets.take 16) = block octets := by
  funext i
  simp only [block, List.getD_eq_getElem?_getD, List.getElem?_take_of_lt i.isLt]

/-- Zeros at the end make no difference. -/
theorem block_zeros (octets : List (BitVec 8)) (n : Nat) :
    block (octets ++ List.replicate n 0) = block octets := by
  funext i
  simp only [block, List.getD_eq_getElem?_getD]
  by_cases inside : i.1 < octets.length
  · rw [List.getElem?_append_left inside]
  · have outside := Nat.le_of_not_lt inside
    rw [List.getElem?_append_right outside, List.getElem?_replicate,
      List.getElem?_eq_none outside]
    split <;> rfl

/-! ## Chaining what is longer than a block -/

/-- All blocks but the last one are chained, and the last one is left over. -/
def hold (cipher : Block → Block) (e : Block) (rest : List (BitVec 8)) : Block × List (BitVec 8) :=
  if 16 < rest.length then hold cipher (cipher (xor (block (rest.take 16)) e)) (rest.drop 16)
  else (e, rest)
termination_by rest.length
decreasing_by
  rw [List.length_drop]
  omega

variable {e : Block} {rest more : List (BitVec 8)}

theorem hold_long (long : 16 < rest.length) :
    hold cipher e rest = hold cipher (cipher (xor (block (rest.take 16)) e)) (rest.drop 16) := by
  rw [hold, if_pos long]

theorem hold_short (short : rest.length ≤ 16) : hold cipher e rest = (e, rest) := by
  rw [hold, if_neg (by omega)]

/-- A step, unless there is nothing left. -/
theorem hold_block {whole : Block} (long : 16 < (rest ++ more).length)
    (filled : ∀ i : Fin 16, whole i = (rest ++ more).getD i 0) :
    hold cipher e (rest ++ more) = hold cipher (cipher (xor e whole)) ((rest ++ more).drop 16) := by
  rw [hold_long long, xor_swap, block_take, show whole = block (rest ++ more) from funext filled]

theorem length_hold (e : Block) (rest : List (BitVec 8)) : (hold cipher e rest).2.length ≤ 16 := by
  by_cases long : 16 < rest.length
  · rw [hold_long long]
    exact length_hold _ _
  · rw [hold_short (by omega)]
    exact Nat.le_of_not_lt long
termination_by rest.length
decreasing_by
  rw [List.length_drop]
  omega

/-- What is left over is chained with the octets that come next. -/
theorem hold_append (e : Block) (rest more : List (BitVec 8)) :
    hold cipher e (rest ++ more) = hold cipher (hold cipher e rest).1
      ((hold cipher e rest).2 ++ more) := by
  by_cases long : 16 < rest.length
  · have longer : 16 < (rest ++ more).length := by
      rw [List.length_append]
      omega
    rw [hold_long longer, hold_long long, List.take_append_of_le_length (by omega),
      List.drop_append_of_le_length (by omega)]
    exact hold_append _ _ _
  · rw [@hold_short _ e rest (Nat.le_of_not_lt long)]
termination_by rest.length
decreasing_by
  rw [List.length_drop]
  omega

theorem hold_chain {i : Nat} (within : i ≤ before octets) :
    hold cipher (chain cipher octets i) (octets.drop (16 * i)) =
      (chain cipher octets (before octets), part octets (before octets)) := by
  by_cases more : i = before octets
  · subst more
    have short : (octets.drop (16 * before octets)).length ≤ 16 := by
      rw [List.length_drop, before]
      omega
    rw [hold_short short, part, List.take_of_length_le short]
  · have long : 16 < (octets.drop (16 * i)).length := by
      rw [List.length_drop]
      unfold before at within more
      omega
    rw [hold_long long, List.drop_drop, show 16 * i + 16 = 16 * (i + 1) by omega]
    exact hold_chain (Nat.lt_of_le_of_ne within more)
termination_by before octets - i

/-- Of the whole message the last block is left over. -/
theorem hold_all : hold cipher (all 0) octets =
    (chain cipher octets (before octets), part octets (before octets)) := by
  have whole := @hold_chain cipher octets 0 (Nat.zero_le (before octets))
  rwa [Nat.mul_zero, List.drop_zero] at whole

/-- The octets that are left over of so many. -/
def held (n : Nat) : Nat := if n = 0 then 0 else (n - 1) % 16 + 1

theorem length_held : (hold cipher (all 0) octets).2.length = held octets.length := by
  rw [hold_all, part, List.length_take, List.length_drop, before, held]
  split <;> omega

end Xcbc
