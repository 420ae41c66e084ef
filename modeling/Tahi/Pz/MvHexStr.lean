import Tahi.General.Nibbles
import Tahi.General.TracedOctets

/-! # Octets from a string of hexadecimal digits

`hexstr` fills the octets that it has allocated from the left, or, when its third argument says
so, from the right. Two loops go over digits and octets at once, and each of them stops when
either has come to its end.
-/

namespace Tahi.Pz.MvHexStr

open BitField TracedMemory Nibbles

/-! ## The function -/

def xdigits_l : List Octet :=
  [0x30, 0x31, 0x32, 0x33, 0x34, 0x35, 0x36, 0x37, 0x38, 0x39, 0x61, 0x62, 0x63, 0x64, 0x65, 0x66]

def xdigits_u : List Octet :=
  [0x30, 0x31, 0x32, 0x33, 0x34, 0x35, 0x36, 0x37, 0x38, 0x39, 0x41, 0x42, 0x43, 0x44, 0x45, 0x46]

/-- `strchr` of a string, less the string. The null character that ends it is found too. -/
def strchr (s : List Octet) (c : Octet) : Option Nat := (s ++ [0]).idxOf? c

/-- `cptr - xdigits` -/
def xdigit (c : Octet) : Option Nat := (strchr xdigits_l c).or (strchr xdigits_u c)

def memset (dst : Int) (o : Octet) : Nat → Access Unit
  | 0 => pure ()
  | n + 1 => do
      memset dst o n
      store (dst + n) o

/-- The loop that is not `reverse`, over the characters from `x` on. -/
def forward (dst : Int) (dstlen : Nat) : List Octet → Nat → Bool → Access Bool
  | [], _, _ => pure true
  | c :: src, y, upper =>
      if y < dstlen then
        match xdigit c with
        | none => pure false
        | some d =>
            if upper then do
              store (dst + y) (BitVec.ofNat 8 (d <<< 4))
              forward dst dstlen src y false
            else do
              let o ← load (dst + y)
              store (dst + y) (o ||| BitVec.ofNat 8 d)
              forward dst dstlen src (y + 1) true
      else pure true

/-- The loop that is `reverse`, over the characters before `x`, the last one first. -/
def backward (dst : Int) : List Octet → Nat → Bool → Access Bool
  | [], _, _ => pure true
  | _ :: _, 0, _ => pure true
  | c :: src, y + 1, upper =>
      match xdigit c with
      | none => pure false
      | some d =>
          if upper then do
            let o ← load (dst + y)
            store (dst + y) (o ||| BitVec.ofNat 8 (d <<< 4))
            backward dst src y false
          else do
            store (dst + y) (BitVec.ofNat 8 d)
            backward dst src (y + 1) true

/-- The length of the source is that of the list. -/
def hex_pton (dst : Int) (dstlen : Nat) (src : List Octet) (reverse : Bool) : Access Bool := do
  memset dst 0 dstlen
  if reverse then backward dst src.reverse dstlen false
  else forward dst dstlen src 0 true

def isHexStr (buf : List Octet) : Bool :=
  buf.all fun c =>
    !(decide (c < 0x30) || decide (c > 0x39) && decide (c < 0x41) ||
      decide (c > 0x46) && decide (c < 0x61) || decide (c > 0x66))

/-- The second argument is the length, when there is one. -/
def functionLength (str : List Octet) (second : Option UInt32) : UInt32 :=
  match second with
  | none => (UInt32.ofNat str.length + 1) / 2
  | some len => len

/-- The second argument and the third one, which there is only behind a second. `dst` is where the
    octets have been allocated. -/
def generateOctetsWith (str : List Octet) (more : Option (UInt32 × Option Int32)) (dst : Int) :
    Access Bool :=
  let len := functionLength str (more.map Prod.fst)
  let reverse := match more.bind Prod.snd with
    | some third => third != 0
    | none => false
  hex_pton dst len.toNat str reverse

/-! ## The digits that are meant -/

/-- A string that passes for one of hexadecimal digits. Lengths are of 32 bits. -/
structure HexString where
  str : List Octet
  accepted : isHexStr str = true
  short : str.length < 2 ^ 32

/-- The digit that a letter or a figure stands for. -/
def digit (c : Octet) : Digit :=
  if c ≤ 0x39 then Fin.ofNat 16 (c.toNat - 0x30)
  else if c ≤ 0x46 then Fin.ofNat 16 (c.toNat - 0x41 + 10)
  else Fin.ofNat 16 (c.toNat - 0x61 + 10)

def HexString.digits (s : HexString) : List Digit := s.str.map digit

/-- Characters in either case are found as the digits that they stand for. -/
theorem xdigit_of_isHexStr {str : List Octet} (accepted : isHexStr str = true) :
    ∀ c ∈ str, xdigit c = some (digit c).val := by
  have all : ∀ c : Octet, isHexStr [c] = true → xdigit c = some (digit c).val := by
    decide +kernel
  intro c member
  apply all
  rw [isHexStr, List.all_eq_true] at accepted
  simpa [isHexStr] using accepted c member

/-! ## Writing the octets -/

section Write

variable (dst : Int)

theorem memset_lays (o : Octet) (n : Nat) :
    Lays (memset dst o n) () dst (List.replicate n o) := by
  induction n with
  | zero => exact Lays.nothing () dst
  | succ n ih =>
      rw [memset, List.replicate_succ']
      apply ih.behind
      rw [List.length_replicate]
      exact store_lays _ o

/-- The halves of an octet, whichever of them is stored first. -/
theorem octet_halves (high low : Digit) :
    BitVec.ofNat 8 (high.val <<< 4) ||| BitVec.ofNat 8 low.val = octet high low ∧
      BitVec.ofNat 8 low.val ||| BitVec.ofNat 8 (high.val <<< 4) = octet high low := by
  revert high low
  decide +kernel

variable {src : List Octet}

/-- Two characters from the left make an octet, and a last one without a second its upper
    half. -/
theorem forward_lays (hex : ∀ c ∈ src, xdigit c = some (digit c).val) (dstlen y : Nat) :
    Lays (forward dst dstlen src y true) true (dst + y)
      (aligned (min (dstlen - y) ((src.length + 1) / 2)) (src.map digit)) := by
  induction src using List.twoStepInduction generalizing y with
  | nil =>
      rw [show min (dstlen - y) ((([] : List Octet).length + 1) / 2) = 0 from Nat.min_zero _]
      exact Lays.nothing true _
  | singleton c =>
      have read := hex c List.mem_cons_self
      by_cases room : y < dstlen
      · have one : min (dstlen - y) (([c].length + 1) / 2) = 0 + 1 := by simp; omega
        have upper : BitVec.ofNat 8 ((digit c).val <<< 4) = octet (digit c) 0 := by
          rw [← (octet_halves _ _).1]
          exact (BitVec.or_zero).symm
        simp only [forward, if_pos room, read, if_true, one, aligned_succ]
        rw [upper]
        exact (store_lays _ _).yield true
      · have none_ : min (dstlen - y) (([c].length + 1) / 2) = 0 := by omega
        rw [forward, if_neg room, none_]
        exact Lays.nothing true _
  | cons_cons c e src ih _ =>
      have first := hex c List.mem_cons_self
      have second := hex e (List.mem_cons_of_mem c List.mem_cons_self)
      by_cases room : y < dstlen
      · have more : min (dstlen - y) (((c :: e :: src).length + 1) / 2) =
            min (dstlen - (y + 1)) ((src.length + 1) / 2) + 1 := by
          simp only [List.length_cons]
          omega
        have rest := ih (fun d mem => hex d (by simp [mem])) (y + 1)
        have octet_ := store_change_lays (dst + y) (BitVec.ofNat 8 ((digit c).val <<< 4))
          (· ||| BitVec.ofNat 8 (digit e).val)
        rw [(octet_halves _ _).1] at octet_
        have run : forward dst dstlen (c :: e :: src) y true =
            (store (dst + y) (BitVec.ofNat 8 ((digit c).val <<< 4)) >>= fun _ =>
              load (dst + y) >>= fun o =>
                store (dst + y) (o ||| BitVec.ofNat 8 (digit e).val)) >>= fun _ =>
              forward dst dstlen src (y + 1) true := by
          simp only [forward, if_pos room, first, second, if_true, Bool.false_eq_true, if_false,
            bind_assoc]
        rw [run, more, aligned_succ]
        apply octet_.behind
        rw [List.length_singleton, Int.add_assoc]
        exact rest
      · have none_ : min (dstlen - y) (((c :: e :: src).length + 1) / 2) = 0 := by omega
        rw [forward, if_neg room, none_]
        exact Lays.nothing true _

/-- Two characters from the right make an octet, and a last one without a second its lower
    half. `src` is read from its end. -/
theorem backward_lays (hex : ∀ c ∈ src, xdigit c = some (digit c).val) (y : Nat) :
    Lays (backward dst src y false) true (dst + y - min y ((src.length + 1) / 2) : Int)
      (bigEndian (min y ((src.length + 1) / 2)) (number (src.map digit).reverse)) := by
  induction src using List.twoStepInduction generalizing y with
  | nil =>
      rw [show min y ((([] : List Octet).length + 1) / 2) = 0 from Nat.min_zero _]
      exact Lays.nothing true _
  | singleton c =>
      have read := hex c List.mem_cons_self
      cases y with
      | zero => exact Lays.nothing true _
      | succ y =>
          have one : min (y + 1) (([c].length + 1) / 2) = 0 + 1 := by simp
          have place : dst + (y + 1 : Nat) - (0 + 1 : Nat) = dst + y := by omega
          have single : number ([c].map digit).reverse = (digit c).val := by simp [number]
          simp only [backward, read, Bool.false_eq_true, if_false, one, place, single]
          exact (store_lays _ _).yield true
  | cons_cons c e src ih _ =>
      have first := hex c List.mem_cons_self
      have second := hex e (List.mem_cons_of_mem c List.mem_cons_self)
      cases y with
      | zero =>
          rw [Nat.zero_min]
          exact Lays.nothing true _
      | succ y =>
          have more : min (y + 1) (((c :: e :: src).length + 1) / 2) =
              min y ((src.length + 1) / 2) + 1 := by
            simp only [List.length_cons]
            omega
          have rest := ih (fun d mem => hex d (by simp [mem])) y
          have octet_ := store_change_lays (dst + y) (BitVec.ofNat 8 (digit c).val)
            (· ||| BitVec.ofNat 8 ((digit e).val <<< 4))
          rw [(octet_halves _ _).2] at octet_
          have run : backward dst (c :: e :: src) (y + 1) false =
              (store (dst + y) (BitVec.ofNat 8 (digit c).val) >>= fun _ =>
                load (dst + y) >>= fun o =>
                  store (dst + y) (o ||| BitVec.ofNat 8 ((digit e).val <<< 4))) >>= fun _ =>
                backward dst src y false := by
            simp only [backward, first, second, if_true, Bool.false_eq_true, if_false, bind_assoc]
          have digits : ((c :: e :: src).map digit).reverse =
              (src.map digit).reverse ++ [digit e, digit c] := by
            simp
          have place : dst + (y + 1 : Nat) - (min y ((src.length + 1) / 2) + 1 : Nat) =
              dst + y - (min y ((src.length + 1) / 2) : Nat) := by
            omega
          rw [run, more, digits, bigEndian_pair, place]
          exact Lays.front (by rw [length_bigEndian, Int.sub_add_cancel]; exact octet_) rest
/-- The whole destination is filled, and nothing else, in either direction. -/
theorem hex_pton_lays (hex : ∀ c ∈ src, xdigit c = some (digit c).val) (dstlen : Nat) :
    Lays (hex_pton dst dstlen src false) true dst (aligned dstlen (src.map digit)) ∧
      Lays (hex_pton dst dstlen src true) true dst
        (bigEndian dstlen (number (src.map digit))) := by
  have zeros := memset_lays dst 0 dstlen
  have size : (src.map digit).length = src.length := List.length_map _
  obtain ⟨k, count⟩ : ∃ k, k = min dstlen ((src.length + 1) / 2) := ⟨_, rfl⟩
  have room : k ≤ dstlen := by omega
  obtain ⟨rest, split_⟩ := Nat.exists_eq_add_of_le room
  constructor
  · have octets := forward_lays dst hex dstlen 0
    rw [Nat.sub_zero, ← count] at octets
    have row : aligned dstlen (src.map digit) =
        [] ++ aligned k (src.map digit) ++ List.replicate rest 0 := by
      by_cases cut_ : k = dstlen
      · rw [cut_, show rest = 0 by omega, List.replicate_zero, List.append_nil, List.nil_append]
      · rw [aligned_filled (by omega) room, List.nil_append, split_, Nat.add_sub_cancel_left]
    have filled : List.replicate dstlen (0 : Octet) =
        [] ++ List.replicate k 0 ++ List.replicate rest 0 := by
      rw [split_, List.replicate_add, List.nil_append]
    rw [filled] at zeros
    rw [row]
    show Lays (memset dst 0 dstlen >>= fun _ => forward dst dstlen src 0 true) _ _ _
    exact zeros.within octets (by simp)
  · have fromEnd : ∀ c ∈ src.reverse, xdigit c = some (digit c).val := by simpa using hex
    have octets := backward_lays dst fromEnd dstlen
    rw [List.map_reverse, List.reverse_reverse, List.length_reverse, ← count] at octets
    have row : bigEndian dstlen (number (src.map digit)) =
        List.replicate rest 0 ++ bigEndian k (number (src.map digit)) ++ [] := by
      by_cases cut_ : k = dstlen
      · rw [cut_, show rest = 0 by omega, List.replicate_zero, List.append_nil, List.nil_append]
      · have covered : number (src.map digit) < 256 ^ k := by
          refine (number_lt _).trans_le ?_
          rw [show 256 = 16 ^ 2 from rfl, ← Nat.pow_mul]
          exact Nat.pow_le_pow_right (by decide) (by omega)
        rw [bigEndian_filled covered room, List.append_nil, split_, Nat.add_sub_cancel_left]
    have place : dst + dstlen - k = dst + (List.replicate rest (0 : Octet)).length := by
      rw [List.length_replicate]
      omega
    have filled : List.replicate dstlen (0 : Octet) =
        List.replicate rest 0 ++ List.replicate k 0 ++ [] := by
      rw [split_, Nat.add_comm, List.replicate_add, List.append_nil]
    rw [filled] at zeros
    rw [place] at octets
    rw [row]
    show Lays (memset dst 0 dstlen >>= fun _ => backward dst src.reverse dstlen false) _ _ _
    exact zeros.within octets (by simp)

end Write

/-! ## The two directions -/

/-- From the left the digits are cut at the end or filled with zeros. From the right they are the
    last octets of the number. Just the octets of the destination are touched, and at the length
    that `hexstr` takes by itself an even number of digits makes the same octets either way. -/
theorem hex_pton_fills (s : HexString) (dst : Int) :
    (∀ dstlen : UInt32,
      Lays (hex_pton dst dstlen.toNat s.str false) true dst
          (aligned dstlen.toNat s.digits) ∧
        Lays (hex_pton dst dstlen.toNat s.str true) true dst
          (bigEndian dstlen.toNat (number s.digits % 256 ^ dstlen.toNat))) ∧
      (s.str.length % 2 = 0 → ∃ octets, Lays (generateOctetsWith s.str none dst) true dst octets ∧
        Lays (hex_pton dst (functionLength s.str none).toNat s.str true) true dst octets) := by
  have hex := xdigit_of_isHexStr s.accepted
  refine ⟨fun dstlen => ?_, fun even => ?_⟩
  · rw [bigEndian_mod]
    exact hex_pton_lays dst hex _
  · have half : 2 * (functionLength s.str none).toNat = s.str.length := by
      have size : (UInt32.ofNat s.str.length + 1).toNat = s.str.length + 1 := by
        have := s.short
        rw [UInt32.toNat_add, UInt32.toNat_ofNat_of_lt' s.short]
        exact Nat.mod_eq_of_lt (show s.str.length + 1 < 2 ^ 32 by omega)
      rw [functionLength, UInt32.toNat_div, size]
      show 2 * ((s.str.length + 1) / 2) = s.str.length
      omega
    obtain ⟨left, right⟩ := hex_pton_lays dst hex (functionLength s.str none).toNat
    rw [← aligned_eq_bigEndian (by rw [List.length_map, half])] at right
    exact ⟨_, left, right⟩

theorem hex_pton_fills_pair :
    ∃ octets, Lays (generateOctetsWith [0x61, 0x42] none 0) true 0 octets ∧
      Lays (hex_pton 0 (functionLength [0x61, 0x42] none).toNat [0x61, 0x42] true) true 0 octets :=
  (hex_pton_fills ⟨[0x61, 0x42], by decide, by decide⟩ 0).2 rfl

end Tahi.Pz.MvHexStr
