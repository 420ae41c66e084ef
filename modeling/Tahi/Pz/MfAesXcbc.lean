import Tahi.General.Xcbc
import Tahi.Pz.MfAlgorithm

/-! # AES-XCBC at once and in chunks

The test scripts have the whole message. `encrypt` is what `Crypt::Rijndael` makes of a single block
in CBC mode, whose initial vector is zero. Where the message comes in chunks, the last block is
always held back, since only the end decides how it is finished. Lengths are words, and memory that
is too short for what is copied into it is `none`.
-/

namespace Tahi.Koi

open Xcbc

variable (encrypt : List (BitVec 8) → Block → Block)

/-- The loop over the blocks: `e` and what is left of the message. -/
def _aes_xcbc_blocks (cipher_k1 : Block → Block) (m : List (BitVec 8)) (e : Block) :
    Block × List (BitVec 8) :=
  if m.length < 16 + 1 then (e, m)
  else _aes_xcbc_blocks cipher_k1 (m.drop 16) (cipher_k1 (xor (block (m.take 16)) e))
termination_by m.length
decreasing_by
  rw [List.length_drop]
  omega

def _aes_xcbc (key message : List (BitVec 8)) : Block :=
  let k1 := encrypt key (all 0x01)
  let k2 := encrypt key (all 0x02)
  let k3 := encrypt key (all 0x03)
  let cipher_k1 := encrypt (List.ofFn k1)
  let (e, m) := _aes_xcbc_blocks cipher_k1 message (all 0x00)
  if m.length = 16 then cipher_k1 (xor (xor (block m) e) k2)
  else
    let m := m ++ [0x80]
    cipher_k1 (xor (xor (block (m ++ List.replicate (16 - m.length) 0x00)) e) k3)

/-- The leftmost 96 bits. -/
def aes_xcbc_mac_96 (key message : List (BitVec 8)) : List (BitVec 8) :=
  (List.ofFn (_aes_xcbc encrypt key message)).take 12

theorem _aes_xcbc_blocks_eq (cipher : Block → Block) (m : List (BitVec 8)) (e : Block) :
    _aes_xcbc_blocks cipher m e = hold cipher e m := by
  by_cases long : 16 < m.length
  · rw [_aes_xcbc_blocks, if_neg (by omega), hold_long long]
    exact _aes_xcbc_blocks_eq _ _ _
  · rw [_aes_xcbc_blocks, if_pos (by omega), hold_short (Nat.le_of_not_lt long)]
termination_by m.length
decreasing_by
  rw [List.length_drop]
  omega

/-- It is the value of the message, without and with padding. -/
theorem _aes_xcbc_eq (key message : List (BitVec 8)) :
    _aes_xcbc encrypt key message = value message encrypt key := by
  simp only [_aes_xcbc, _aes_xcbc_blocks_eq, hold_all, value, finish]
  congr 3
  rw [block_zeros, pad]

end Tahi.Koi

/-! ## In chunks -/

namespace Tahi.Pz

open Xcbc

structure xcbc_ops where
  len : UInt32
  prev : Block

/-- `key` is the key that the schedule was made of. -/
structure aes_ctx where
  key : List (BitVec 8)
  iv : Block
  ops : xcbc_ops

/-- The class, with the length of its values. They are copied out of one block. -/
structure MfAES_XCBC where
  icvLength : UInt8
  fits : icvLength.toNat ≤ 16

def MfAES_XCBC.aesxcbc : MfAES_XCBC := ⟨12, by decide⟩

def AES_set_encrypt_key (key : List (BitVec 8)) : Option (List (BitVec 8)) :=
  if key.length = 16 ∨ key.length = 24 ∨ key.length = 32 then some key else none

/-- `memcpy` into a block. -/
def memcpy (b : Block) (at_ : Nat) (src : List (BitVec 8)) : Option Block :=
  if at_ + src.length ≤ 16 then
    some fun i => if at_ ≤ i.1 ∧ i.1 < at_ + src.length then src.getD (i.1 - at_) 0 else b i
  else none

def htonl (n : UInt32) : List (BitVec 8) :=
  [n.toBitVec.extractLsb' 24 8, n.toBitVec.extractLsb' 16 8, n.toBitVec.extractLsb' 8 8,
    n.toBitVec.extractLsb' 0 8]

namespace MfAES_XCBC

/-- `a[0]->octetsValue(ok)`, no octets without an argument. -/
def key (a : List Argument) : List (BitVec 8) :=
  match a with
  | [] => []
  | arg :: _ => arg.octetsValue.getD []

variable (AES_encrypt : List (BitVec 8) → Block → Block)

/-- The schedule stays when the key has a wrong length. -/
def _crypto_xcbc_init (ctx : aes_ctx) (key : List (BitVec 8)) : aes_ctx :=
  match AES_set_encrypt_key key with
  | none => ctx
  | some schedule => { ctx with key := List.ofFn (AES_encrypt schedule (all 0x01)) }

/-- `memory` is what is in the context when it is allocated. -/
def init (memory : aes_ctx) (a : List Argument) : aes_ctx :=
  let ctx := { memory with ops := { memory.ops with len := 0 } }
  let ctx := _crypto_xcbc_init AES_encrypt ctx (key a)
  { ctx with iv := all 0 }

/-- The loop over whole blocks, with something left for the last one. -/
def encryptBlocks (schedule : List (BitVec 8)) (iv : Block) (tmp : List (BitVec 8)) :
    Block × List (BitVec 8) :=
  if 16 < tmp.length then
    encryptBlocks schedule (AES_encrypt schedule (xor iv (block (tmp.take 16)))) (tmp.drop 16)
  else (iv, tmp)
termination_by tmp.length
decreasing_by
  rw [List.length_drop]
  omega

def update (ctx : aes_ctx) (a : List Argument) (s : OCTBUF) : Option aes_ctx :=
  let high : List (BitVec 8) := match a with
    | _ :: arg :: _ => htonl (arg.intValue.getD 0).toUInt32
    | _ => []
  let tmp := s.1 ++ high
  let len : UInt32 := OCTBUF.length s + UInt32.ofNat high.length
  -- The memory for `tmp` is too short when its length does not fit a word.
  if len.toNat ≠ tmp.length then none
  else if ctx.ops.len + len ≤ 16 then do
    let prev ← memcpy ctx.ops.prev ctx.ops.len.toNat tmp
    some { ctx with ops := ⟨ctx.ops.len + len, prev⟩ }
  else do
    let fill := (16 - ctx.ops.len).toNat
    let prev ← memcpy ctx.ops.prev ctx.ops.len.toNat (tmp.take fill)
    let iv := AES_encrypt ctx.key (xor ctx.iv prev)
    let (iv, tmp) := encryptBlocks AES_encrypt ctx.key iv (tmp.drop fill)
    let prev ← memcpy prev 0 tmp
    some { ctx with iv := iv, ops := ⟨UInt32.ofNat tmp.length, prev⟩ }

/-- `none` also stands for the null pointer that is returned when there is no key. -/
def result (m : MfAES_XCBC) (ctx : aes_ctx) (a : List Argument) : Option (List (BitVec 8)) :=
  if ctx.ops.len = 16 then do
    let schedule ← AES_set_encrypt_key (key a)
    let key2 := AES_encrypt schedule (all 0x02)
    let iv := xor (xor ctx.iv ctx.ops.prev) key2
    let ctx := _crypto_xcbc_init AES_encrypt { ctx with key := schedule, iv := iv } (key a)
    let out := AES_encrypt ctx.key ctx.iv
    some ((List.ofFn out).take m.icvLength.toNat)
  else do
    let prev ← memcpy ctx.ops.prev ctx.ops.len.toNat [0x80]
    let rlen := (16 - ctx.ops.len - 1).toNat
    let prev ← memcpy prev (ctx.ops.len.toNat + 1) (List.replicate rlen 0)
    let schedule ← AES_set_encrypt_key (key a)
    let key3 := AES_encrypt schedule (all 0x03)
    let iv := xor (xor ctx.iv prev) key3
    let ctx := _crypto_xcbc_init AES_encrypt { ctx with key := schedule, iv := iv } (key a)
    let out := AES_encrypt ctx.key ctx.iv
    some ((List.ofFn out).take m.icvLength.toNat)

/-- `init`, `update` on each chunk and `result`. -/
def digest (m : MfAES_XCBC) (memory : aes_ctx) (a : List Argument) (chunks : List OCTBUF) :
    Option (List (BitVec 8)) := do
  let ctx ← chunks.foldlM (fun ctx s => update AES_encrypt ctx a s) (init AES_encrypt memory a)
  result AES_encrypt m ctx a

/-! ## What is held back -/

variable {AES_encrypt} {m : MfAES_XCBC} {key : Block} {message : List (BitVec 8)} {ctx : aes_ctx}
  {a : Argument}

variable (AES_encrypt key) in
/-- The cipher that the blocks are chained with. -/
def chained : Block → Block :=
  AES_encrypt (List.ofFn (AES_encrypt (List.ofFn key) (all 1)))

variable (AES_encrypt key) in
/-- The context after a message. -/
structure Holds (message : List (BitVec 8)) (ctx : aes_ctx) : Prop where
  schedule : AES_encrypt ctx.key = chained AES_encrypt key
  iv : ctx.iv = (hold (chained AES_encrypt key) (all 0) message).1
  len : ctx.ops.len.toNat = (hold (chained AES_encrypt key) (all 0) message).2.length
  prev : ∀ i : Fin 16, i.1 < ctx.ops.len.toNat →
    ctx.ops.prev i = (hold (chained AES_encrypt key) (all 0) message).2.getD i 0

theorem encryptBlocks_eq (schedule : List (BitVec 8)) (iv : Block) (tmp : List (BitVec 8)) :
    encryptBlocks AES_encrypt schedule iv tmp = hold (AES_encrypt schedule) iv tmp := by
  by_cases long : 16 < tmp.length
  · rw [encryptBlocks, if_pos long, hold_long long, block_take, xor_swap]
    exact encryptBlocks_eq _ _ _
  · rw [encryptBlocks, if_neg long, hold_short (Nat.le_of_not_lt long)]
termination_by tmp.length
decreasing_by
  rw [List.length_drop]
  omega

theorem memcpy_of_le {b : Block} {at_ : Nat} {src : List (BitVec 8)} (room : at_ + src.length ≤ 16) :
    memcpy b at_ src = some fun i =>
      if at_ ≤ i.1 ∧ i.1 < at_ + src.length then src.getD (i.1 - at_) 0 else b i :=
  if_pos room

/-- The octets up to `len`, the one behind them and zeros. -/
theorem memcpy_padded {b : Block} {last : List (BitVec 8)} {len : Nat} (size : len = last.length)
    (short : len < 16) (octets : ∀ i : Fin 16, i.1 < len → b i = last.getD i 0) :
    ∃ prev, memcpy b len [0x80] = some prev ∧
      memcpy prev (len + 1) (List.replicate (15 - len) 0) = some (pad last) := by
  refine ⟨_, memcpy_of_le short, ?_⟩
  rw [memcpy_of_le (by rw [List.length_replicate]; omega)]
  congr 1
  funext i
  have inside := i.isLt
  simp only [List.length_replicate, List.length_singleton, pad, block]
  rcases Nat.lt_trichotomy i.1 len with before | at_ | behind
  · rw [if_neg (by omega), if_neg (by omega), octets i before,
      List.getD_append _ _ _ _ (by omega)]
  · rw [if_neg (by omega), if_pos (by omega), List.getD_append_right _ _ _ _ (by omega), size]
  · rw [if_pos (by omega), List.getD_replicate _ (by omega), List.getD_eq_default]
    rw [List.length_append, List.length_singleton, ← size]
    exact behind

theorem set_key (key : Block) : AES_set_encrypt_key (List.ofFn key) = some (List.ofFn key) :=
  if_pos (.inl List.length_ofFn)

variable (AES_encrypt key) in
theorem _crypto_xcbc_init_key (ctx : aes_ctx) :
    AES_encrypt (_crypto_xcbc_init AES_encrypt ctx (List.ofFn key)).key =
      chained AES_encrypt key := by
  rw [_crypto_xcbc_init, set_key]
  rfl

theorem _crypto_xcbc_init_iv (ctx : aes_ctx) (key : List (BitVec 8)) :
    (_crypto_xcbc_init AES_encrypt ctx key).iv = ctx.iv := by
  rw [_crypto_xcbc_init]
  split <;> rfl

theorem key_eq (given : a.octetsValue = some (List.ofFn key)) :
    MfAES_XCBC.key [a] = List.ofFn key := by
  rw [MfAES_XCBC.key, given, Option.getD_some]

theorem Holds.init (given : a.octetsValue = some (List.ofFn key)) (memory : aes_ctx) :
    Holds AES_encrypt key [] (init AES_encrypt memory [a]) := by
  have ops : ∀ ctx, (_crypto_xcbc_init AES_encrypt ctx (List.ofFn key)).ops = ctx.ops := by
    intro ctx
    rw [_crypto_xcbc_init, set_key]
  have empty : hold (chained AES_encrypt key) (all 0) [] = (all 0, []) := hold_short (by simp)
  simp only [MfAES_XCBC.init, key_eq given, ops]
  exact {
    schedule := _crypto_xcbc_init_key AES_encrypt key
      { memory with ops := { memory.ops with len := 0 } }
    iv := by rw [empty]
    len := by rw [empty]; rfl
    prev := fun i short => absurd short (Nat.not_lt_zero _) }

variable (holds : Holds AES_encrypt key message ctx)

include holds

theorem Holds.len_eq : ctx.ops.len.toNat = held message.length := by
  rw [holds.len, length_held]

theorem Holds.len_le : ctx.ops.len.toNat ≤ 16 := by
  rw [holds.len]
  exact length_hold _ _

/-- What is copied behind the octets that are held back. -/
theorem Holds.copied (src : List (BitVec 8)) (room : ctx.ops.len.toNat + src.length ≤ 16) :
    ∃ prev, memcpy ctx.ops.prev ctx.ops.len.toNat src = some prev ∧
      ∀ i : Fin 16, i.1 < ctx.ops.len.toNat + src.length →
        prev i = ((hold (chained AES_encrypt key) (all 0) message).2 ++ src).getD i 0 := by
  refine ⟨_, memcpy_of_le room, fun i inside => ?_⟩
  have len := holds.len
  by_cases old : i.1 < ctx.ops.len.toNat
  · rw [if_neg (by omega), holds.prev i old, List.getD_append _ _ _ _ (by omega)]
  · rw [if_pos (by omega), List.getD_append_right _ _ _ _ (by omega), len]

/-- A chunk that fits is held back with the other octets. -/
theorem Holds.update_short {s : OCTBUF} (room : ctx.ops.len.toNat + s.1.length ≤ 16) :
    ∃ ctx', update AES_encrypt ctx [a] s = some ctx' ∧
      Holds AES_encrypt key (message ++ s.1) ctx' := by
  obtain ⟨prev, copied, octets⟩ := holds.copied s.1 room
  have sum : (ctx.ops.len + OCTBUF.length s).toNat = ctx.ops.len.toNat + s.1.length := by
    rw [UInt32.toNat_add, OCTBUF.length_toNat, Nat.mod_eq_of_lt (by omega)]
  have short : ctx.ops.len + OCTBUF.length s ≤ 16 := by
    rw [UInt32.le_iff_toNat_le, sum]
    exact room
  refine ⟨{ ctx with ops := ⟨ctx.ops.len + OCTBUF.length s, prev⟩ }, ?_, ?_⟩
  · simp [MfAES_XCBC.update, OCTBUF.length_toNat, short, copied]
  · have next : hold (chained AES_encrypt key) (all 0) (message ++ s.1) =
        (ctx.iv, (hold (chained AES_encrypt key) (all 0) message).2 ++ s.1) := by
      rw [hold_append, hold_short, holds.iv]
      rw [List.length_append, ← holds.len]
      exact room
    exact {
      schedule := holds.schedule
      iv := by rw [next]
      len := by rw [sum, next, List.length_append, holds.len]
      prev := fun i inside => by
        rw [next]
        exact octets i (sum ▸ inside) }

/-- Of a longer chunk a first part fills the block, and the last block is left over. -/
theorem Holds.update_long {s : OCTBUF} (long : 16 < ctx.ops.len.toNat + s.1.length)
    (fits : ctx.ops.len.toNat + s.1.length < 2 ^ 32) :
    ∃ ctx', update AES_encrypt ctx [a] s = some ctx' ∧
      Holds AES_encrypt key (message ++ s.1) ctx' := by
  have le := holds.len_le
  have sum : (ctx.ops.len + OCTBUF.length s).toNat = ctx.ops.len.toNat + s.1.length := by
    rw [UInt32.toNat_add, OCTBUF.length_toNat, Nat.mod_eq_of_lt fits]
  have longer : ¬ ctx.ops.len + OCTBUF.length s ≤ 16 := by
    rw [UInt32.le_iff_toNat_le, sum]
    exact Nat.not_le_of_lt long
  have fill : (16 - ctx.ops.len).toNat = 16 - ctx.ops.len.toNat :=
    UInt32.toNat_sub_of_le 16 ctx.ops.len (UInt32.le_iff_toNat_le.mpr le)
  generalize room : 16 - ctx.ops.len.toNat = n at fill
  have first : (s.1.take n).length = n := by
    rw [List.length_take]
    omega
  obtain ⟨prev, copied, octets⟩ := holds.copied (s.1.take n) (by omega)
  have last : (hold (AES_encrypt ctx.key) (AES_encrypt ctx.key (xor ctx.iv prev))
      (s.1.drop n)).2.length ≤ 16 := length_hold _ _
  have next : hold (chained AES_encrypt key) (all 0) (message ++ s.1) =
      hold (AES_encrypt ctx.key) (AES_encrypt ctx.key (xor ctx.iv prev)) (s.1.drop n) := by
    have len := holds.len
    have rest : ((hold (chained AES_encrypt key) (all 0) message).2 ++ s.1).drop 16 =
        s.1.drop n := by
      rw [List.drop_append, List.drop_eq_nil_of_le (by omega), List.nil_append]
      congr 1
      omega
    rw [hold_append, ← holds.iv, holds.schedule, @hold_block _ _ _ _ prev, rest]
    · rw [List.length_append]
      omega
    · intro i
      rw [octets i (by omega)]
      simp only [List.getD_eq_getElem?_getD, List.getElem?_append]
      split
      · rfl
      · rw [List.getElem?_take_of_lt (by omega)]
  generalize held : hold (AES_encrypt ctx.key) (AES_encrypt ctx.key (xor ctx.iv prev))
    (s.1.drop n) = left at last next
  refine ⟨{ ctx with
    iv := left.1
    ops := ⟨UInt32.ofNat left.2.length, fun i => if i.1 < left.2.length then left.2.getD i 0
      else prev i⟩ }, ?_, ?_⟩
  · have copied' : memcpy prev 0 left.2 = some fun i : Fin 16 =>
        if i.1 < left.2.length then left.2.getD i 0 else prev i := by
      rw [memcpy_of_le (by rw [Nat.zero_add]; exact last)]
      simp only [Nat.zero_le, true_and, Nat.zero_add, Nat.sub_zero]
    simp only [MfAES_XCBC.update, List.append_nil, List.length_nil, copied,
      encryptBlocks_eq, fill, held, copied', Option.bind_eq_bind, Option.bind_some]
    simp [OCTBUF.length_toNat, longer]
  · have size : (UInt32.ofNat left.2.length).toNat = left.2.length := by
      rw [UInt32.toNat_ofNat', Nat.mod_eq_of_lt (by omega)]
    exact {
      schedule := holds.schedule
      iv := by rw [next]
      len := by rw [next]; exact size
      prev := fun i inside => by
        rw [next]
        exact if_pos (size ▸ inside) }

/-- A chunk that is chained to what is held back. -/
theorem Holds.update {s : OCTBUF} (fits : held message.length + s.1.length < 2 ^ 32) :
    ∃ ctx', update AES_encrypt ctx [a] s = some ctx' ∧
      Holds AES_encrypt key (message ++ s.1) ctx' := by
  rw [← holds.len_eq] at fits
  by_cases room : ctx.ops.len.toNat + s.1.length ≤ 16
  · exact holds.update_short room
  · exact holds.update_long (Nat.lt_of_not_le room) fits

/-- The sum of the lengths is too long for a word, and what is left of it fits a block. -/
theorem Holds.update_overruns {s : OCTBUF} (long : ¬ held message.length + s.1.length < 2 ^ 32) :
    MfAES_XCBC.update AES_encrypt ctx [a] s = none := by
  have len := holds.len_eq
  have le := holds.len_le
  have short : ctx.ops.len + OCTBUF.length s ≤ 16 := by
    have size := s.2
    rw [UInt32.le_iff_toNat_le, UInt32.toNat_add, OCTBUF.length_toNat,
      show (16 : UInt32).toNat = 16 by rfl]
    omega
  have room : ¬ ctx.ops.len.toNat + s.1.length ≤ 16 := by omega
  simp only [MfAES_XCBC.update, List.append_nil]
  split
  · rfl
  · simp [short, memcpy, room]

/-- The value of the message is copied out. -/
theorem Holds.result (given : a.octetsValue = some (List.ofFn key)) :
    result AES_encrypt m ctx [a] =
      some ((List.ofFn (value message AES_encrypt (List.ofFn key))).take m.icvLength.toNat) := by
  have len := holds.len
  have iv := holds.iv
  have prev := holds.prev
  simp only [hold_all] at len iv prev
  have le := holds.len_le
  by_cases full : ctx.ops.len = 16
  · have block_eq : ctx.ops.prev = block (part message (before message)) :=
      funext fun i => prev i (by rw [full]; exact i.isLt)
    have whole : (part message (before message)).length = 16 := by rw [← len, full]; rfl
    simp only [MfAES_XCBC.result, full, if_true, key_eq given, set_key, Option.bind_eq_bind,
      Option.bind_some, _crypto_xcbc_init_iv, value, finish, whole]
    rw [xor_swap ctx.iv, block_eq, iv]
    rfl
  · have short : ctx.ops.len.toNat < 16 := by
      have differ : ctx.ops.len.toNat ≠ 16 := fun same => full (UInt32.toNat_inj.mp same)
      omega
    have rlen : (16 - ctx.ops.len - 1).toNat = 15 - ctx.ops.len.toNat := by
      have sub := UInt32.toNat_sub_of_le 16 ctx.ops.len (UInt32.le_iff_toNat_le.mpr le)
      rw [UInt32.toNat_sub_of_le _ 1, sub]
      · change 16 - ctx.ops.len.toNat - 1 = _
        omega
      · rw [UInt32.le_iff_toNat_le, sub]
        change 1 ≤ 16 - ctx.ops.len.toNat
        omega
    obtain ⟨prev', first, second⟩ := memcpy_padded len short prev
    have partial_ : (part message (before message)).length ≠ 16 := by omega
    simp only [MfAES_XCBC.result, if_neg full, rlen, first, second,
      key_eq given, set_key, Option.bind_eq_bind, Option.bind_some, _crypto_xcbc_init_iv, value,
      finish, if_neg partial_]
    rw [xor_swap ctx.iv, iv]
    rfl

omit holds

/-! ## Whole messages -/

/-- The sums of what is held back and what comes fit a word, from so many octets on. -/
def Fits : Nat → List OCTBUF → Prop
  | _, [] => True
  | n, s :: chunks => held n + s.1.length < 2 ^ 32 ∧ Fits (n + s.1.length) chunks

theorem Holds.run (given : a.octetsValue = some (List.ofFn key)) {chunks : List OCTBUF}
    (holds : Holds AES_encrypt key message ctx) (fits : Fits message.length chunks) :
    (do let ctx ← chunks.foldlM (fun ctx s => MfAES_XCBC.update AES_encrypt ctx [a] s) ctx
        MfAES_XCBC.result AES_encrypt m ctx [a]) =
      some ((List.ofFn (value (message ++ chunks.flatMap Subtype.val) AES_encrypt
        (List.ofFn key))).take m.icvLength.toNat) := by
  induction chunks generalizing message ctx with
  | nil => simpa using holds.result given
  | cons s chunks ih =>
      obtain ⟨ctx', updated, holds'⟩ := holds.update (a := a) fits.1
      have later := ih holds' (by rw [List.length_append]; exact fits.2)
      rw [List.flatMap_cons, ← List.append_assoc, ← later, List.foldlM_cons, updated]
      rfl

theorem Holds.run_overruns {chunks : List OCTBUF} (holds : Holds AES_encrypt key message ctx)
    (long : ¬ Fits message.length chunks) :
    (do let ctx ← chunks.foldlM (fun ctx s => MfAES_XCBC.update AES_encrypt ctx [a] s) ctx
        MfAES_XCBC.result AES_encrypt m ctx [a]) = none := by
  induction chunks generalizing message ctx with
  | nil => exact absurd trivial long
  | cons s chunks ih =>
      by_cases first : held message.length + s.1.length < 2 ^ 32
      · obtain ⟨ctx', updated, holds'⟩ := holds.update (a := a) first
        have later := ih holds' fun fits => long ⟨first, by rwa [List.length_append] at fits⟩
        rw [List.foldlM_cons, updated]
        exact later
      · rw [List.foldlM_cons, holds.update_overruns first]
        rfl

theorem Holds.two_chunks_overrun (given : a.octetsValue = some (List.ofFn key))
    (memory : aes_ctx) (first second : OCTBUF) (one : first.1.length = 1)
    (longest : second.1.length = 2 ^ 32 - 1) :
    digest AES_encrypt m memory [a] [first, second] = none := by
  have start : Holds AES_encrypt key [] (MfAES_XCBC.init AES_encrypt memory [a]) :=
    Holds.init given memory
  apply start.run_overruns
  rintro ⟨-, fits, -⟩
  rw [List.length_nil, one, longest] at fits
  exact absurd fits (by decide)

/-- In chunks there comes out what comes out in one piece, here and from the test scripts, as
    long as no chunk makes the sum of lengths overflow. -/
theorem digest_iff (AES_encrypt : List (BitVec 8) → Block → Block) (m : MfAES_XCBC)
    (memory : aes_ctx) (key : Block) (intValue : Option Int32) (chunks : List OCTBUF) :
    (digest AES_encrypt m memory [⟨intValue, some (List.ofFn key)⟩] chunks =
        some ((List.ofFn (value (chunks.flatMap Subtype.val) AES_encrypt (List.ofFn key))).take
          m.icvLength.toNat) ∧
      digest AES_encrypt m memory [⟨intValue, some (List.ofFn key)⟩] chunks =
        some ((List.ofFn (Koi._aes_xcbc AES_encrypt (List.ofFn key)
          (chunks.flatMap Subtype.val))).take m.icvLength.toNat)) ↔
      Fits 0 chunks := by
  have start := @Holds.init AES_encrypt key ⟨intValue, some (List.ofFn key)⟩ rfl memory
  rw [Koi._aes_xcbc_eq, and_self, digest]
  constructor
  · intro computed
    by_contra long
    rw [start.run_overruns long] at computed
    cases computed
  · intro fits
    rw [start.run rfl fits, List.nil_append]

/-- A single octet is held back when a chunk of the greatest length comes. -/
theorem not_digest :
    digest (fun _ b => b) aesxcbc ⟨[], all 0, ⟨0, all 0⟩⟩ [⟨none, some (List.ofFn (all 0))⟩]
        [⟨[0], by decide⟩,
          ⟨List.replicate (2 ^ 32 - 1) 0, by rw [List.length_replicate]; decide⟩] ≠
      some ((List.ofFn (value ([0] ++ List.replicate (2 ^ 32 - 1) 0) (fun _ b => b)
        (List.ofFn (all 0)))).take 12) := by
  have none_ := @Holds.two_chunks_overrun (fun _ b => b) aesxcbc (all 0)
    ⟨none, some (List.ofFn (all 0))⟩ rfl ⟨[], all 0, ⟨0, all 0⟩⟩ ⟨[0], by decide⟩
    ⟨List.replicate (2 ^ 32 - 1) 0, by rw [List.length_replicate]; decide⟩ rfl
    List.length_replicate
  rw [none_]
  intro some_
  cases some_

/-- Twelve octets are what the test scripts take, too. -/
theorem aesxcbc_mac_96 (AES_encrypt : List (BitVec 8) → Block → Block) (memory : aes_ctx)
    (key : Block) (intValue : Option Int32) {chunks : List OCTBUF} (fits : Fits 0 chunks) :
    digest AES_encrypt aesxcbc memory [⟨intValue, some (List.ofFn key)⟩] chunks =
      some (Koi.aes_xcbc_mac_96 AES_encrypt (List.ofFn key) (chunks.flatMap Subtype.val)) := by
  have start := @Holds.init AES_encrypt key ⟨intValue, some (List.ofFn key)⟩ rfl memory
  rw [digest, start.run rfl fits, Koi.aes_xcbc_mac_96, Koi._aes_xcbc_eq]
  rfl

end MfAES_XCBC

end Tahi.Pz
