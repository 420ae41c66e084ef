import Mathlib
import Tahi.General.Slices
import Tahi.Ike.KConsts

/-! # Key streams

Keys are cut out of the stream that a pseudo-random function makes block by block, each from the
block before.
-/

namespace Tahi.Ike

/-- What decides on the size of a key: an attribute with the number that it has as a value. -/
structure KeyAttribute where
  type : Constant AttributeType
  value : ℕ
deriving DecidableEq, Repr

/-- The loop of `readKey`. The last key length counts, and none at all counts as 0. -/
def proposal_keylen (alg : TransformID) (ref : List KeyAttribute) : ℕ :=
  ref.foldl (fun proposal_keylen elm =>
    if elm.type = .name .«Key Length» then
      -- nonce for counter block
      if alg = .AES_CTR then elm.value + 32 else elm.value
    else proposal_keylen) 0

/-- The size of the key that `readKey` reads. Where there is a choice, the attributes must be a
    list, and not the empty hash that stands for none. -/
def keylen (alg : TransformID) (ref : Option (List KeyAttribute)) : Option ℕ :=
  match kKeySize alg with
  | .one exp_keylen => some exp_keylen
  | .several _ => ref.map (proposal_keylen alg)

/-- A pseudo-random function of a key and data. -/
structure Prf where
  sub : List UInt8 → List UInt8 → List UInt8
  nonempty : ∀ K data, sub K data ≠ []

/-- `chr`, for numbers of one octet. -/
def chr (n : ℕ) : UInt8 := UInt8.ofNat n

/-- `block` is what has been made and not been read. -/
structure KeyStream where
  prf : Prf
  K : List UInt8
  S : List UInt8
  block : List UInt8
  number : ℕ
  last : List UInt8

namespace KeyStream

def new (prf : Prf) (K S : List UInt8) : KeyStream := ⟨prf, K, S, [], 0, []⟩

/-- The next block is made. -/
def generate (stream : KeyStream) : KeyStream :=
  let number := stream.number + 1
  let newblock := stream.prf.sub stream.K (stream.last ++ stream.S ++ [chr number])
  { stream with number, last := newblock, block := stream.block ++ newblock }

theorem length_generate (stream : KeyStream) :
    stream.block.length < stream.generate.block.length := by
  rw [generate, List.length_append]
  have some := List.length_pos_iff.mpr
    (stream.prf.nonempty stream.K (stream.last ++ stream.S ++ [chr (stream.number + 1)]))
  omega

/-- The loop of `_readBlock`. -/
def fill (bits : ℕ) (stream : KeyStream) : KeyStream :=
  if bits ≤ 8 * stream.block.length then stream else fill bits stream.generate
termination_by bits - 8 * stream.block.length
decreasing_by
  have grows := stream.length_generate
  omega

/-- The size is an eighth of `bits`. It is compared as it is, and `substr` rounds it down. -/
def _readBlock (stream : KeyStream) (bits : ℕ) : List UInt8 × KeyStream :=
  let stream := stream.fill bits
  (stream.block.take (bits / 8), { stream with block := stream.block.drop (bits / 8) })

def readKey (stream : KeyStream) (alg : TransformID) (ref : Option (List KeyAttribute)) :
    Option (List UInt8 × KeyStream) :=
  (keylen alg ref).map stream._readBlock

/-- Blocks read one behind the other. -/
def readBlocks (stream : KeyStream) : List ℕ → List (List UInt8) × KeyStream
  | [] => ([], stream)
  | bits :: sizes =>
      let (read, stream) := stream._readBlock bits
      let (rest, stream) := stream.readBlocks sizes
      (read :: rest, stream)

/-- Keys read one behind the other. -/
def readKeys (stream : KeyStream) :
    List (TransformID × Option (List KeyAttribute)) → Option (List (List UInt8) × KeyStream)
  | [] => some ([], stream)
  | (alg, ref) :: requests => do
      let (read, stream) ← stream.readKey alg ref
      let (rest, stream) ← stream.readKeys requests
      return (read :: rest, stream)

/-- With the sizes of the keys, their reads are reads of blocks. -/
theorem readKeys_eq {requests : List (TransformID × Option (List KeyAttribute))} {sizes : List ℕ}
    (stream : KeyStream) (sized : requests.mapM (fun r => keylen r.1 r.2) = some sizes) :
    stream.readKeys requests = some (stream.readBlocks sizes) := by
  induction requests generalizing stream sizes with
  | nil =>
      obtain rfl : [] = sizes := by simpa using sized
      rfl
  | cons request requests ih =>
      rw [List.mapM_cons] at sized
      obtain ⟨bits, first, others⟩ := Option.bind_eq_some_iff.mp sized
      obtain ⟨rest, restSized, eq⟩ := Option.bind_eq_some_iff.mp others
      obtain rfl : bits :: rest = sizes := by simpa using eq
      have read : stream.readKey request.1 request.2 = some (stream._readBlock bits) := by
        rw [readKey, first, Option.map_some]
      simp only [readKeys, read, Option.bind_eq_bind, Option.bind_some, ih _ restSized, readBlocks]
      rfl

/-! ## The stream -/

/-- `T<n>`, from `T<n - 1>`. In front of the first one there is nothing. -/
def T (prf : Prf) (K S : List UInt8) : ℕ → List UInt8
  | 0 => []
  | n + 1 => prf.sub K (T prf K S n ++ S ++ [chr (n + 1)])

/-- `T1 | T2 | ... | T<n>` -/
def blocks (prf : Prf) (K S : List UInt8) (n : ℕ) : List UInt8 :=
  (List.range n).flatMap fun i => T prf K S (i + 1)

theorem blocks_succ (prf : Prf) (K S : List UInt8) (n : ℕ) :
    blocks prf K S (n + 1) = blocks prf K S n ++ T prf K S (n + 1) := by
  rw [blocks, blocks, List.range_succ, List.flatMap_append, List.flatMap_singleton]

theorem blocks_prefix_of_le (prf : Prf) (K S : List UInt8) {n m : ℕ} (le : n ≤ m) :
    blocks prf K S n <+: blocks prf K S m := by
  induction le with
  | refl => exact List.prefix_rfl
  | step _ ih => exact ih.trans (blocks_succ prf K S _ ▸ List.prefix_append _ _)

theorem le_length_blocks (prf : Prf) (K S : List UInt8) (n : ℕ) :
    n ≤ (blocks prf K S n).length := by
  induction n with
  | zero => exact Nat.zero_le _
  | succ n ih =>
      have some : 0 < (T prf K S (n + 1)).length := List.length_pos_iff.mpr (prf.nonempty _ _)
      rw [blocks_succ, List.length_append]
      omega

/-- What has been read and what is left are the blocks so far. -/
structure After (prf : Prf) (K S read : List UInt8) (stream : KeyStream) : Prop where
  sub : stream.prf = prf
  key : stream.K = K
  seed : stream.S = S
  last : stream.last = T prf K S stream.number
  made : read ++ stream.block = blocks prf K S stream.number

variable {prf : Prf} {K S read : List UInt8} {stream : KeyStream} {n : ℕ}

theorem after_new (prf : Prf) (K S : List UInt8) : After prf K S [] (new prf K S) :=
  ⟨rfl, rfl, rfl, rfl, rfl⟩

theorem After.generate (after : After prf K S read stream) :
    After prf K S read stream.generate := by
  have next : stream.generate.last = T prf K S (stream.number + 1) := by
    rw [KeyStream.generate, T, ← after.last, after.sub, after.key, after.seed]
  refine ⟨after.sub, after.key, after.seed, next, ?_⟩
  calc read ++ stream.generate.block = read ++ stream.block ++ stream.generate.last :=
        (List.append_assoc _ _ _).symm
    _ = blocks prf K S (stream.number + 1) := by rw [after.made, next, blocks_succ]

/-- While octets of the first `n` blocks are missing, not all of these have been made. -/
theorem After.number_lt (after : After prf K S read stream)
    (more : read.length + stream.block.length < (blocks prf K S n).length) :
    stream.number < n := by
  by_contra ge
  have shorter := (blocks_prefix_of_le prf K S (Nat.le_of_not_lt ge)).length_le
  rw [← after.made, List.length_append] at shorter
  omega

/-- The loop makes no block that is not needed. -/
theorem After.fill {bits : ℕ} (after : After prf K S read stream) (few : stream.number ≤ n)
    (total : 8 * read.length + bits ≤ 8 * (blocks prf K S n).length) :
    After prf K S read (stream.fill bits) ∧ (stream.fill bits).number ≤ n ∧
      bits ≤ 8 * (stream.fill bits).block.length := by
  induction stream using fill.induct bits with
  | case1 stream enough =>
      rw [KeyStream.fill, if_pos enough]
      exact ⟨after, few, enough⟩
  | case2 stream more ih =>
      rw [KeyStream.fill, if_neg more]
      exact ih after.generate (after.number_lt (by omega))

theorem After.readBlock (after : After prf K S read stream) (bits : ℕ) (few : stream.number ≤ n)
    (total : 8 * read.length + bits ≤ 8 * (blocks prf K S n).length) :
    (stream._readBlock bits).1 = ((blocks prf K S n).drop read.length).take (bits / 8) ∧
      After prf K S (read ++ (stream._readBlock bits).1) (stream._readBlock bits).2 ∧
      (stream._readBlock bits).2.number ≤ n := by
  obtain ⟨filled, few, enough⟩ := after.fill few total
  refine ⟨?_, ⟨filled.sub, filled.key, filled.seed, filled.last, ?_⟩, few⟩
  · obtain ⟨later, eq⟩ := blocks_prefix_of_le prf K S few
    rw [← eq, ← filled.made, List.append_assoc, List.drop_left,
      List.take_append_of_le_length (by omega)]
    rfl
  · rw [_readBlock, List.append_assoc, List.take_append_drop]
    exact filled.made

/-- Reading goes on where it stopped. -/
theorem After.readBlocks {sizes : List ℕ} (after : After prf K S read stream)
    (few : stream.number ≤ n)
    (total : 8 * read.length + sizes.sum ≤ 8 * (blocks prf K S n).length) :
    (stream.readBlocks sizes).1 =
        slices (sizes.map (· / 8)) ((blocks prf K S n).drop read.length) ∧
      (stream.readBlocks sizes).2.number ≤ n := by
  induction sizes generalizing read stream with
  | nil => exact ⟨rfl, few⟩
  | cons bits sizes ih =>
      rw [List.sum_cons] at total
      obtain ⟨first, after, few⟩ := after.readBlock bits few (by omega)
      have length : (stream._readBlock bits).1.length = bits / 8 := by
        rw [first, List.length_take_of_le]
        rw [List.length_drop]
        omega
      obtain ⟨rest, few⟩ := ih after few (by rw [List.length_append, length]; omega)
      refine ⟨?_, few⟩
      rw [List.length_append, length] at rest
      rw [List.map_cons, slices_cons, List.drop_drop, ← first, ← rest]
      rfl

/-- Blocks of whole octets, of which there are no more than blocks. -/
theorem readBlocks_slices (prf : Prf) (K S : List UInt8) (sizes : List ℕ) (n : ℕ)
    (total : sizes.sum ≤ n) :
    ((new prf K S).readBlocks (sizes.map (8 * ·))).1 = slices sizes (blocks prf K S n) := by
  have enough := le_length_blocks prf K S n
  have sum : (sizes.map (8 * ·)).sum = 8 * sizes.sum := by
    rw [List.sum_map_mul_left, List.map_id']
  have whole : (sizes.map (8 * ·)).map (· / 8) = sizes := by
    rw [List.map_map]
    refine (List.map_congr_left fun size _ => ?_).trans (List.map_id _)
    exact Nat.mul_div_cancel_left size (by decide)
  have read := (after_new prf K S).readBlocks (Nat.zero_le n)
    (by rw [sum, List.length_nil]; omega)
  rw [read.1, whole, List.length_nil, List.drop_zero]

/-- Put together again, they are the beginning of the stream. -/
theorem readBlocks_flatten (prf : Prf) (K S : List UInt8) (sizes : List ℕ) (n : ℕ)
    (total : sizes.sum ≤ n) :
    ((new prf K S).readBlocks (sizes.map (8 * ·))).1.flatten =
      (blocks prf K S n).take sizes.sum := by
  rw [readBlocks_slices prf K S sizes n total, flatten_slices]

/-- The keys are consecutive slices of the stream. -/
theorem readKeys_slices (prf : Prf) (K S : List UInt8)
    (requests : List (TransformID × Option (List KeyAttribute))) (sizes : List ℕ)
    (sized : requests.mapM (fun r => keylen r.1 r.2) = some sizes)
    (total : sizes.sum ≤ 8 * (blocks prf K S 255).length) :
    ((new prf K S).readKeys requests).map Prod.fst =
      some (slices (sizes.map (· / 8)) (blocks prf K S 255)) := by
  rw [readKeys_eq _ sized, Option.map_some]
  have read := (after_new prf K S).readBlocks (Nat.zero_le 255) (by simpa using total)
  rw [read.1, List.length_nil, List.drop_zero]

/-- A function of 20 octets. -/
def sum20 : Prf where
  sub K data := List.replicate 20 (K ++ data).sum
  nonempty _ _ := by simp

/-- The second key begins where the first block ends, and takes two more. -/
theorem readKeys_slices_sum20 :
    ((new sum20 [1] [2]).readKeys
        [(.HMAC_SHA1, none), (.AES_CTR, some [⟨.name .«Key Length», 256⟩])]).map Prod.fst =
      some (slices [20, 36] (blocks sum20 [1] [2] 255)) := by
  refine readKeys_slices sum20 [1] [2] _ [160, 288] (by decide) ?_
  have most := (blocks_prefix_of_le sum20 [1] [2] (show 3 ≤ 255 by decide)).length_le
  have three : (blocks sum20 [1] [2] 3).length = 60 := by decide
  rw [three] at most
  calc [160, 288].sum ≤ 8 * 60 := by decide
    _ ≤ _ := Nat.mul_le_mul_left 8 most

end KeyStream

end Tahi.Ike
