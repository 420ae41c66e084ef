import Tahi.Pz.PvOctetsField

/-! # Numbers of up to 32 bits

`encodeUint` stores the low bits of a number and `decodeUint` fetches them back,
whatever order the host keeps the octets of a word in.
-/

namespace Tahi.Pz.PvOctets

open BitField TracedMemory

private theorem octet_of_word {a b c d : Nat} (hb : b < 256) (hc : c < 256) (hd : d < 256)
    (ha : a < 256) (x : UInt32) (word : x = UInt32.ofNat (((a * 256 + b) * 256 + c) * 256 + d)) :
    x.toNat / 2 ^ 24 % 256 = a ∧ x.toNat / 2 ^ 16 % 256 = b ∧ x.toNat / 2 ^ 8 % 256 = c ∧
      x.toNat / 2 ^ 0 % 256 = d := by
  subst word
  rw [UInt32.toNat_ofNat_of_lt' (by rw [UInt32.size]; omega)]
  omega

/-- The octets of a word are the octets it was put together from. -/
theorem wordOctet_octetsWord (host : ByteOrder) (o : Nat → Octet) {i : Nat} (inside : i < 4) :
    wordOctet host (octetsWord host o) i = o i := by
  have size (j : Nat) : (o j).toNat < 256 := (o j).isLt
  apply BitVec.eq_of_toNat_eq
  cases host with
  | big =>
      obtain ⟨h0, h1, h2, h3⟩ := octet_of_word (size 1) (size 2) (size 3) (size 0) _ rfl
      rw [wordOctet, BitVec.toNat_ofNat]
      match i, inside with
      | 0, _ => exact h0
      | 1, _ => exact h1
      | 2, _ => exact h2
      | 3, _ => exact h3
  | little =>
      obtain ⟨h3, h2, h1, h0⟩ := octet_of_word (size 2) (size 1) (size 0) (size 3) _ rfl
      rw [wordOctet, BitVec.toNat_ofNat]
      match i, inside with
      | 0, _ => exact h0
      | 1, _ => exact h1
      | 2, _ => exact h2
      | 3, _ => exact h3

theorem octetsWord_congr (host : ByteOrder) {o o' : Nat → Octet} (same : ∀ i < 4, o i = o' i) :
    octetsWord host o = octetsWord host o' := by
  cases host with
  | big => simp only [octetsWord, same 0, same 1, same 2, same 3, Nat.reduceLT]
  | little => simp only [octetsWord, same 0, same 1, same 2, same 3, Nat.reduceLT]

theorem octetsWord_wordOctet (host : ByteOrder) (n : UInt32) :
    octetsWord host (wordOctet host n) = n := by
  have size : n.toNat < 2 ^ 32 := n.toNat_lt
  apply UInt32.toNat_inj.mp
  cases host with
  | big =>
      simp only [octetsWord, wordOctet, BitVec.toNat_ofNat]
      rw [UInt32.toNat_ofNat_of_lt' (by rw [UInt32.size]; omega)]
      omega
  | little =>
      simp only [octetsWord, wordOctet, BitVec.toNat_ofNat]
      rw [UInt32.toNat_ofNat_of_lt' (by rw [UInt32.size]; omega)]
      omega

/-- The network order word of an octet string is read back as its number. -/
theorem ntohl_octetsWord (host : ByteOrder) (o : Nat → Octet) :
    ntohl host (octetsWord host o) = octetsWord .big o :=
  octetsWord_congr .big fun _ inside => wordOctet_octetsWord host o inside

@[simp] theorem ntohl_htonl (host : ByteOrder) (h : UInt32) : ntohl host (htonl host h) = h := by
  rw [htonl, ntohl_octetsWord, octetsWord_wordOctet]

private theorem value_four (m : Memory) : value m 0 32 =
    (((m 0).toNat * 256 + (m 1).toNat) * 256 + (m 2).toNat) * 256 + (m 3).toNat := by
  have first : value m 0 8 = (m 0).toNat := value_octet m 0
  have second : value m 0 16 = value m 0 8 * 256 + value m (8 * 1) 8 := value_append m 0 8 8
  have third : value m 0 24 = value m 0 16 * 256 + value m (8 * 2) 8 := value_append m 0 16 8
  have fourth : value m 0 32 = value m 0 24 * 256 + value m (8 * 3) 8 := value_append m 0 24 8
  rw [fourth, third, second, first, value_octet, value_octet, value_octet]

/-- The four octets of a word in memory, as a field of 32 bits. -/
theorem value_word (host : ByteOrder) (n : UInt32) :
    value (fun i => wordOctet host n i.toNat) 0 32 = (ntohl host n).toNat := by
  have size (j : Nat) : (wordOctet host n j).toNat < 256 := (wordOctet host n j).isLt
  have s0 := size 0
  have s1 := size 1
  have s2 := size 2
  have s3 := size 3
  rw [value_four, ntohl, octetsWord, UInt32.toNat_ofNat_of_lt' (by rw [UInt32.size]; omega)]
  rfl

/-- The pointer `np` into a word: the field it leads to is the word's low end. -/
private theorem value_np (host : ByteOrder) (n : UInt32) {w : Nat} (pos : 0 < w) (word : w ≤ 32) :
    value (fun i => wordOctet host n ((32 - w) / 8 + i.toNat)) ((7 - (w - 1) % 8 : Nat) : Int) w =
      (ntohl host n).toNat % 2 ^ w := by
  have pointer : value (fun i => wordOctet host n ((32 - w) / 8 + i.toNat))
      ((7 - (w - 1) % 8 : Nat) : Int) w =
        value (fun i => wordOctet host n (i + ((32 - w) / 8 : Nat)).toNat)
          ((7 - (w - 1) % 8 : Nat) : Int) w := by
    apply value_congr
    intro k start _
    have forward : (k / 8 + (((32 - w) / 8 : Nat) : Int)).toNat = (32 - w) / 8 + (k / 8).toNat := by
      omega
    rw [bit, bit, forward]
  have shifted := value_shift (fun i => wordOctet host n i.toNat) ((32 - w) / 8 : Nat)
    ((7 - (w - 1) % 8 : Nat) : Int) w
  have start : ((7 - (w - 1) % 8 : Nat) : Int) + 8 * ((32 - w) / 8 : Nat) =
      0 + ((32 - w : Nat) : Int) := by omega
  have whole : 32 = 32 - w + w := by omega
  have low := value_low (fun i => wordOctet host n i.toNat) 0 (32 - w) w
  rw [← whole, value_word] at low
  rw [pointer, shifted, start, low]

variable {at_ : ItPosition} {w : UInt16} {n : Nat}

theorem encodeNUint_stores (host : ByteOrder) (x : UInt32) (inside : Inside at_ w.toNat n)
    (pos : 0 < w.toNat) (word : w.toNat ≤ 32) :
    Stores (encodeNUint host x at_ w) at_.toBits w.toNat (ntohl host x).toNat
      (fieldReach at_.toBits w.toNat (min w.toNat 8)) := by
  have narrow : ¬32 < w := fun h => absurd (UInt16.lt_iff_toNat_lt.mp h) (Nat.not_lt.mpr word)
  rw [encodeNUint, if_neg narrow]
  refine (encodeRAs_stores _ inside).congr rfl ?_ fun _ => Iff.rfl
  rw [value_np host x pos word, Nat.mod_mod]

theorem encodeUint_stores (host : ByteOrder) (h : UInt32) (inside : Inside at_ w.toNat n)
    (pos : 0 < w.toNat) (word : w.toNat ≤ 32) :
    Stores (encodeUint host h at_ w) at_.toBits w.toNat h.toNat
      (fieldReach at_.toBits w.toNat (min w.toNat 8)) := by
  have stored := encodeNUint_stores host (htonl host h) inside pos word
  rwa [ntohl_htonl] at stored

/-- The octets before `np` are zero, so the word is the number of the string. -/
private theorem word_number {uo : Nat} {ds : List Octet} (size : uo + ds.length = 4) :
    octetsWord .big (fun i => if i < uo then 0 else ds.getD (i - uo) 0) =
      UInt32.ofNat (number ds) := by
  have before : uo = 4 - ds.length := by omega
  subst before
  refine congrArg UInt32.ofNat ?_
  match ds with
  | [] => rfl
  | [a] => simp [number]
  | [a, b] => simp [number]
  | [a, b, c] =>
      simp only [List.length_cons, List.length_nil, number]
      simp
      omega
  | [a, b, c, d] =>
      simp only [List.length_cons, List.length_nil, number]
      simp
      omega
  | _ :: _ :: _ :: _ :: _ :: _ =>
      simp only [List.length_cons] at size
      omega

theorem decodeNUint_loads (host : ByteOrder) (inside : Inside at_ w.toNat n) (pos : 0 < w.toNat)
    (word : w.toNat ≤ 32) :
    ∃ net, Loads (decodeNUint host at_ w) net (fieldReach at_.toBits w.toNat (min w.toNat 8)) ∧
      ∀ m, ntohl host (net m) = UInt32.ofNat (value m at_.toBits w.toNat) := by
  have narrow : ¬32 < w := fun h => absurd (UInt16.lt_iff_toNat_lt.mp h) (Nat.not_lt.mpr word)
  obtain ⟨octets, fetched, holds⟩ := decodeRAs_loads inside
  rw [decodeNUint, if_neg narrow]
  refine ⟨_, (fetched.bind fun ds => Loads.pure _).congr (fun _ => rfl) fun x => ?_, fun m => ?_⟩
  · rw [or_false]
  · have size := (holds m).size (by omega)
    rw [ntohl_octetsWord, word_number (by omega), (holds m).number_eq, Nat.pow_zero, Nat.mul_one]

theorem decodeUint_loads (host : ByteOrder) (inside : Inside at_ w.toNat n) (pos : 0 < w.toNat)
    (word : w.toNat ≤ 32) :
    Loads (decodeUint host at_ w) (fun m => UInt32.ofNat (value m at_.toBits w.toNat))
      (fieldReach at_.toBits w.toNat (min w.toNat 8)) := by
  obtain ⟨net, fetched, number⟩ := decodeNUint_loads host inside pos word
  refine (fetched.bind fun x => Loads.pure (ntohl host x)).congr number fun x => ?_
  rw [or_false]

/-- What is stored is fetched back, in host order and in network order alike, and
    no bit beside the field changes. -/
theorem decodeUint_encodeUint (host : ByteOrder) (h : UInt32) (inside : Inside at_ w.toNat n)
    (pos : 0 < w.toNat) (word : w.toNat ≤ 32) (s : State) :
    (∃ s₁ s₂, encodeUint host h at_ w s = some ((), s₁) ∧
      decodeUint host at_ w s₁ = some (UInt32.ofNat (h.toNat % 2 ^ w.toNat), s₂) ∧
      s₂.cell = s₁.cell ∧
      ∀ k, k < at_.toBits ∨ at_.toBits + w.toNat ≤ k → bit s₁.cell k = bit s.cell k) ∧
    (∃ s₁ s₂ net, encodeNUint host h at_ w s = some ((), s₁) ∧
      decodeNUint host at_ w s₁ = some (net, s₂) ∧
      ntohl host net = UInt32.ofNat ((ntohl host h).toNat % 2 ^ w.toNat) ∧
      s₂.cell = s₁.cell ∧
      ∀ k, k < at_.toBits ∨ at_.toBits + w.toNat ≤ k → bit s₁.cell k = bit s.cell k) := by
  constructor
  · obtain ⟨m, ts, encoded, writes, -⟩ := encodeUint_stores host h inside pos word s
    obtain ⟨us, decoded, -⟩ := decodeUint_loads host inside pos word ⟨m, s.touched ++ ts⟩
    simp only [writes.value_eq] at decoded
    exact ⟨_, _, encoded, decoded, rfl, fun k away => writes.outside away⟩
  · obtain ⟨m, ts, encoded, writes, -⟩ := encodeNUint_stores host h inside pos word s
    obtain ⟨net, fetched, number⟩ := decodeNUint_loads host inside pos word
    obtain ⟨us, decoded, -⟩ := fetched ⟨m, s.touched ++ ts⟩
    refine ⟨_, _, _, encoded, decoded, ?_, rfl, fun k away => writes.outside away⟩
    rw [number, writes.value_eq]

/-- A flow label, 20 bits that start in the middle of an octet. -/
theorem decodeUint_encodeUint_flowLabel :
    ∃ s₁ s₂, encodeUint .little 0xfedcba98 ⟨1, 4⟩ 20 ⟨fun _ => 0xff, []⟩ = some ((), s₁) ∧
      decodeUint .little ⟨1, 4⟩ 20 s₁ = some (0xcba98, s₂) ∧ bit s₁.cell 11 = true := by
  have inside : Inside ⟨1, 4⟩ (20 : UInt16).toNat 4 := ⟨by decide, by decide, by decide⟩
  obtain ⟨⟨s₁, s₂, encoded, decoded, -, beside⟩, -⟩ :=
    decodeUint_encodeUint .little 0xfedcba98 inside (by decide) (by decide) ⟨fun _ => 0xff, []⟩
  exact ⟨s₁, s₂, encoded, decoded, (beside 11 (.inl (by decide))).trans (by decide)⟩

end Tahi.Pz.PvOctets

/-! ## The buffer as the decoder sees it

The decoder never stores into the buffer it decodes, so it reads fields as values
of the buffer. A buffer may be a window into a longer one. -/

namespace Tahi.Pz

open BitField TracedMemory

/-- `PvOctets`: a pointer and a length. -/
structure PvOctets where
  length : UInt32
  cell : Memory

namespace PvOctets

def remainLength (o : PvOctets) (n : UInt32) : Int32 := (o.length - n).toInt32

/-- A window. `buffer(n)` aborts when the window would start behind the buffer;
    nothing is checked about its end. -/
def substr (o : PvOctets) (n l : UInt32) : Option PvOctets :=
  if n > o.length then none else some ⟨l, fun i => o.cell (i + n.toNat)⟩

/-- What `decodeUint` returns for the buffer. -/
def uintAt (o : PvOctets) (at_ : ItPosition) (w : UInt16) : UInt32 :=
  UInt32.ofNat (value o.cell at_.toBits w.toNat)

theorem decodeUint_uintAt (host : ByteOrder) (o : PvOctets) {at_ : ItPosition} {w : UInt16}
    (inside : Inside at_ w.toNat o.length.toNat) (pos : 0 < w.toNat) (word : w.toNat ≤ 32) :
    ∃ s, decodeUint host at_ w ⟨o.cell, []⟩ = some (o.uintAt at_ w, s) := by
  obtain ⟨ts, run, -⟩ := decodeUint_loads host inside pos word ⟨o.cell, []⟩
  exact ⟨_, run⟩

/-- A buffer with the given octets. -/
def ofList (l : List Octet) : PvOctets :=
  ⟨UInt32.ofNat l.length, fun i => if 0 ≤ i then l.getD i.toNat 0 else 0⟩

/-- An aligned field of eight bits is an octet of the buffer. -/
theorem uintAt_octet (o : PvOctets) {at_ : ItPosition} {a : Int} (place : at_.toBits = 8 * a) :
    o.uintAt at_ 8 = UInt32.ofNat (o.cell a).toNat := by
  rw [uintAt, place]
  exact congrArg UInt32.ofNat (value_octet o.cell a)

end PvOctets

/-- A member that is an unsigned number. The constructor's width is at most 32,
    the width at which `decode` and `encode` abort beyond. -/
structure MmUint where
  width : UInt16
  pos : 0 < width.toNat
  fits : width.toNat ≤ 32

namespace MmUint

theorem octet_pos : 0 < (8 : UInt16).toNat := by decide

theorem octet_fits : (8 : UInt16).toNat ≤ 32 := by decide

/-- Decodes the number that ends at `at`, and moves `at` to its start. `none` is
    `ok=false`. -/
def rdecode (m : MmUint) (at_ : ItPosition) (src : PvOctets) : Option (UInt32 × ItPosition) :=
  let ml : ItPosition := ⟨0, m.width⟩
  if at_.lt ml then none
  else
    let at_ := at_.subtract ml
    some (src.uintAt at_ m.width, at_)

end MmUint

end Tahi.Pz
