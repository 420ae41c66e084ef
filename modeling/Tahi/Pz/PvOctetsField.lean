import Tahi.Pz.PvOctetsChunk

/-! # What a whole field does

The loops cut a field into chunks. Every chunk but the last ends where its octet
of `np` ends, so the chunks are consecutive fields on both sides and the loop
stores, or fetches, the field as one number.
-/

namespace Tahi.Pz.PvOctets

open BitField TracedMemory

/-- Where the chunks of a field of `w` bits stand in the octets of `np`: `lead`
    bits before the first, `tail` bits after the last, which is `last` bits wide. -/
structure Chunking (cut : Cut) where
  lead : UInt16 → Nat
  tail : UInt16 → Nat
  last : UInt16 → Nat
  next : ∀ w, w ≠ 0 → (cut.cw w).toNat < w.toNat →
    lead w + (cut.cw w).toNat = 8 ∧ lead (w - cut.cw w) = 0 ∧
      tail (w - cut.cw w) = tail w ∧ last (w - cut.cw w) = last w
  ends : ∀ w, w ≠ 0 → (cut.cw w).toNat = w.toNat →
    lead w + w.toNat + tail w = 8 ∧ last w = w.toNat

/-- The addresses of a field of `w` bits at bit `p`: the octet after its last bit
    too, where the last chunk is short and ends at the top of that octet. -/
def fieldReach (p : Int) (w last : Nat) (x : Int) : Prop :=
  0 < w ∧ p / 8 ≤ x ∧ (8 * x < p + w ∨ (8 * x = p + w ∧ last < 8))

private theorem pos_of_ne {w : UInt16} (more : w ≠ 0) : 0 < w.toNat :=
  Nat.pos_of_ne_zero fun zero => more (UInt16.toNat_inj.mp zero)

theorem leftCut_toNat (w : UInt16) : (leftCut.cw w).toNat = min w.toNat 8 := by
  change (if 8 < w then 8 else w).toNat = _
  by_cases wide : 8 < w
  · have wider : 8 < w.toNat := UInt16.lt_iff_toNat_lt.mp wide
    rw [if_pos wide]
    change 8 = min w.toNat 8
    omega
  · have narrower : ¬8 < w.toNat := fun h => wide (UInt16.lt_iff_toNat_lt.mpr h)
    rw [if_neg wide]
    omega

def leftChunking : Chunking leftCut where
  lead _ := 0
  tail w := 7 - (w.toNat - 1) % 8
  last w := (w.toNat - 1) % 8 + 1
  next := by
    intro w more longer
    have positive := pos_of_ne more
    have rest := leftCut.rest more
    rw [leftCut_toNat] at longer rest ⊢
    omega
  ends := by
    intro w more same
    have positive := pos_of_ne more
    rw [leftCut_toNat] at same
    omega

def rightChunking : Chunking rightCut where
  lead w := 7 - (w.toNat - 1) % 8
  tail _ := 0
  last w := min w.toNat 8
  next := by
    intro w more longer
    have positive := pos_of_ne more
    have rest := rightCut.rest more
    have chunk : (rightCut.cw w).toNat = _ := rightCut_toNat more
    omega
  ends := by
    intro w more same
    have positive := pos_of_ne more
    have chunk : (rightCut.cw w).toNat = _ := rightCut_toNat more
    omega

variable {cut : Cut} (layout : Chunking cut)

theorem Chunking.fits {w : UInt16} (more : w ≠ 0) :
    layout.lead w + (cut.cw w).toNat ≤ 8 := by
  have bounded := cut.le w more
  by_cases longer : (cut.cw w).toNat < w.toNat
  · have := (layout.next w more longer).1
    omega
  · have := (layout.ends w more (by omega)).1
    omega

/-- The position after a chunk, unless the chunk was the last one. -/
private theorem moved {it : ItPosition} {c w : UInt16} (normal : it.bits_.toNat < 8)
    (nonneg : 0 ≤ it.bytes.toInt) (small : c.toNat ≤ 8)
    (countable : it.toBits + w.toNat ≤ 8 * 2 ^ 31) (longer : c.toNat < w.toNat) :
    (it.addBits c).bits_.toNat < 8 ∧ 0 ≤ (it.addBits c).bytes.toInt ∧
      (it.addBits c).toBits = it.toBits + c.toNat :=
  ItPosition.toBits_addBits normal (by omega) nonneg (by omega)

/-- The addresses of one turn of the loop. -/
def turnReach (it : ItPosition) (c : Nat) (x : Int) : Prop :=
  x = it.bytes.toInt ∨
    (8 ≤ it.bits.toNat + c ∧ ¬(c = 8 ∧ it.bits.toNat = 0) ∧ x = it.bytes.toInt + 1)

private theorem reach_next {it : ItPosition} {c w last : Nat} (positive : 0 < c) (small : c ≤ 8)
    (longer : c < w) (x : Int) :
    turnReach it c x ∨ fieldReach (it.toBits + c) (w - c) last x ↔
      fieldReach it.toBits w last x := by
  have remainder := it.bits_lt
  simp only [fieldReach, turnReach, ItPosition.toBits]
  omega

private theorem reach_last {it : ItPosition} {c : Nat} (positive : 0 < c) (small : c ≤ 8)
    (x : Int) : turnReach it c x ∨ False ↔ fieldReach it.toBits c c x := by
  have remainder := it.bits_lt
  simp only [fieldReach, turnReach, ItPosition.toBits, or_false]
  omega

/-- Whether a turn of the loop takes the direct path. -/
private theorem direct_iff {it : ItPosition} {c : UInt16} :
    (c = 8 ∧ it.bits = 0) ↔ (c.toNat = 8 ∧ it.bits.toNat = 0) :=
  and_congr UInt16.toNat_inj.symm UInt16.toNat_inj.symm

/-- One turn of an encoding loop stores its share of `np`. -/
private theorem turn_stores {it : ItPosition} {c : UInt16} {n : Octet} {v : Nat}
    {chunk : Octet → ItPosition → UInt16 → Access Unit} (whole : c.toNat = 8 → v = n.toNat)
    (slow : Stores (chunk n it c) it.toBits c.toNat v (chunkReach it c.toNat)) :
    Stores (encodeTurn chunk n it c) it.toBits c.toNat v (turnReach it c.toNat) := by
  by_cases direct : c.toNat = 8 ∧ it.bits.toNat = 0
  · obtain ⟨width, aligned⟩ := direct
    rw [encodeTurn, if_pos (direct_iff.mpr ⟨width, aligned⟩), whole width, width]
    refine (store_stores it.bytes.toInt n).congr ?_ rfl fun x => ?_
    · rw [ItPosition.toBits]
      omega
    · rw [turnReach]
      omega
  · rw [encodeTurn, if_neg (direct_iff.not.mpr direct)]
    refine slow.congr rfl rfl fun x => ?_
    rw [chunkReach, turnReach]
    tauto

/-- One turn of a decoding loop fetches an octet that holds the chunk, with
    `tail` bits below it. -/
private theorem turn_loads {it : ItPosition} {c : UInt16} {tail : Nat}
    {chunk : ItPosition → UInt16 → Access Octet} (whole : c.toNat = 8 → tail = 0)
    (slow : Loads (chunk it c) (fun m => BitVec.ofNat 8 (value m it.toBits c.toNat * 2 ^ tail))
      (chunkReach it c.toNat)) :
    Loads (decodeTurn chunk it c)
      (fun m => BitVec.ofNat 8 (value m it.toBits c.toNat * 2 ^ tail)) (turnReach it c.toNat) := by
  by_cases direct : c.toNat = 8 ∧ it.bits.toNat = 0
  · obtain ⟨width, aligned⟩ := direct
    have place : it.toBits = 8 * it.bytes.toInt := by
      rw [ItPosition.toBits]
      omega
    rw [decodeTurn, if_pos (direct_iff.mpr ⟨width, aligned⟩), whole width, width, place]
    refine (load_loads it.bytes.toInt).congr (fun m => ?_) fun x => ?_
    · rw [value_octet, Nat.pow_zero, Nat.mul_one, BitVec.ofNat_toNat, BitVec.setWidth_eq]
    · rw [turnReach]
      omega
  · rw [decodeTurn, if_neg (direct_iff.not.mpr direct)]
    refine slow.congr (fun _ => rfl) fun x => ?_
    rw [chunkReach, turnReach]
    tauto

/-- The share of one turn is the high part of what the loop still has to store. -/
private theorem share_eq (np : Memory) {lead c : Nat} (rest : Nat) (fits : lead + c ≤ 8) :
    (np 0).toNat / 2 ^ (8 - lead - c) % 2 ^ c = value np lead (c + rest) / 2 ^ rest % 2 ^ c := by
  have chunk := value_inOctet np 0 fits
  rw [Int.mul_zero, Int.zero_add] at chunk
  rw [value_high, Nat.mod_eq_of_lt (value_lt np lead c), ← chunk]

/-- What is left after a turn is the low part. -/
private theorem remainder_eq (np : Memory) {lead c : Nat} (rest : Nat) (ends : lead + c = 8) :
    value (fun i => np (i + 1)) 0 rest % 2 ^ rest = value np lead (c + rest) % 2 ^ rest := by
  have octet : 0 + 8 * (1 : Int) = (lead : Int) + (c : Int) := by omega
  rw [value_shift, octet, value_low, Nat.mod_eq_of_lt (value_lt _ _ _)]

theorem encodeChunks_zero {chunk : Octet → ItPosition → UInt16 → Access Unit} (np : Memory)
    (it : ItPosition) : encodeChunks cut chunk np it 0 = pure () := by
  unfold encodeChunks
  exact if_neg fun h => h rfl

theorem decodeChunks_zero {chunk : ItPosition → UInt16 → Access Octet} (it : ItPosition) :
    decodeChunks cut chunk it 0 = pure [] := by
  unfold decodeChunks
  exact if_neg fun h => h rfl

theorem encodeChunks_step {chunk : Octet → ItPosition → UInt16 → Access Unit} (np : Memory)
    (it : ItPosition) {w : UInt16} (more : w ≠ 0) :
    encodeChunks cut chunk np it w = (encodeTurn chunk (np 0) it (cut.cw w) >>= fun _ =>
      encodeChunks cut chunk (fun i => np (i + 1)) (it.addBits (cut.cw w)) (w - cut.cw w)) := by
  rw [encodeChunks, if_pos more]

theorem decodeChunks_step {chunk : ItPosition → UInt16 → Access Octet} (it : ItPosition)
    {w : UInt16} (more : w ≠ 0) :
    decodeChunks cut chunk it w = (decodeTurn chunk it (cut.cw w) >>= fun d =>
      decodeChunks cut chunk (it.addBits (cut.cw w)) (w - cut.cw w) >>= fun ds =>
        pure (d :: ds)) := by
  rw [decodeChunks, if_pos more]

/-- What a chunk codec stores, for the place its chunk has in the field. -/
def ChunkStores (chunk : Octet → ItPosition → UInt16 → Access Unit) : Prop :=
  ∀ (n : Octet) (it : ItPosition) (w : UInt16), w ≠ 0 → 0 ≤ it.bytes.toInt →
    Stores (chunk n it (cut.cw w)) it.toBits (cut.cw w).toNat
      (n.toNat / 2 ^ (8 - layout.lead w - (cut.cw w).toNat)) (chunkReach it (cut.cw w).toNat)

theorem encodeChunks_stores {chunk : Octet → ItPosition → UInt16 → Access Unit}
    (stores : ChunkStores layout chunk) (np : Memory) (it : ItPosition) (w : UInt16)
    (normal : it.bits_.toNat < 8) (nonneg : 0 ≤ it.bytes.toInt)
    (countable : it.toBits + w.toNat ≤ 8 * 2 ^ 31) :
    Stores (encodeChunks cut chunk np it w) it.toBits w.toNat
      (value np (layout.lead w) w.toNat) (fieldReach it.toBits w.toNat (layout.last w)) := by
  induction remaining : w.toNat using Nat.strong_induction_on generalizing np it w with
  | _ k ih =>
      subst remaining
      by_cases more : w ≠ 0
      · have positive := cut.pos w more
        have bounded := cut.le w more
        have inOctet := layout.fits more
        have whole : (cut.cw w).toNat = 8 →
            (np 0).toNat / 2 ^ (8 - layout.lead w - (cut.cw w).toNat) = (np 0).toNat := by
          intro width
          have none : 8 - layout.lead w - (cut.cw w).toNat = 0 := by omega
          rw [none, Nat.pow_zero, Nat.div_one]
        have turn := turn_stores whole (stores (np 0) it w more nonneg)
        have share := share_eq np (w.toNat - (cut.cw w).toNat) inOctet
        have sum : (cut.cw w).toNat + (w.toNat - (cut.cw w).toNat) = w.toNat := by omega
        rw [sum] at share
        have high := turn.congr rfl share fun _ => Iff.rfl
        rw [encodeChunks_step np it more]
        by_cases longer : (cut.cw w).toNat < w.toNat
        · obtain ⟨adjacent, noLead, -, sameLast⟩ := layout.next w more longer
          obtain ⟨normal', nonneg', place⟩ := moved normal nonneg (by omega) countable longer
          have rest := ih _ (by rw [cut.rest more]; omega) (fun i => np (i + 1))
            (it.addBits (cut.cw w)) (w - cut.cw w) normal' nonneg'
            (by rw [place, cut.rest more]; omega) rfl
          rw [place, noLead, sameLast, cut.rest more] at rest
          have remainder := remainder_eq np (w.toNat - (cut.cw w).toNat) adjacent
          rw [sum] at remainder
          have low := rest.congr rfl remainder fun _ => Iff.rfl
          have both := high.seq low
          rw [sum] at both
          exact both.congr rfl rfl (reach_next positive (by omega) longer)
        · have same : (cut.cw w).toNat = w.toNat := by omega
          have done : w - cut.cw w = 0 := by
            apply UInt16.toNat_inj.mp
            rw [cut.rest more, same, Nat.sub_self]
            rfl
          have zero : w.toNat - (cut.cw w).toNat = 0 := by omega
          rw [done, encodeChunks_zero]
          have low : Stores (pure ()) (it.toBits + (cut.cw w).toNat)
              (w.toNat - (cut.cw w).toNat) (value np (layout.lead w) w.toNat) (fun _ => False) := by
            rw [zero]
            exact Stores.nothing _ _
          have both := high.seq low
          rw [sum] at both
          refine both.congr rfl rfl fun x => ?_
          rw [(layout.ends w more same).2, reach_last positive (by omega), same]
      · have zero : w = 0 := not_not.mp more
        subst zero
        rw [encodeChunks_zero]
        refine (Stores.nothing it.toBits _).congr rfl rfl fun x => ?_
        rw [fieldReach]
        exact ⟨False.elim, fun h => absurd h.1 (by decide)⟩

/-- What a chunk codec fetches, for the place its chunk has in the field. -/
def ChunkLoads (chunk : ItPosition → UInt16 → Access Octet) : Prop :=
  ∀ (it : ItPosition) (w : UInt16), w ≠ 0 → 0 ≤ it.bytes.toInt →
    Loads (chunk it (cut.cw w))
      (fun m => BitVec.ofNat 8 (value m it.toBits (cut.cw w).toNat *
        2 ^ (8 - layout.lead w - (cut.cw w).toNat)))
      (chunkReach it (cut.cw w).toNat)

/-- The number that a string of octets is in network order. -/
def number : List Octet → Nat
  | [] => 0
  | d :: ds => d.toNat * 256 ^ ds.length + number ds

/-- A fetched octet as a number: nothing was cut off at its top. -/
private theorem fetched_toNat {m : Memory} {p : Int} {c tail : Nat} (fits : c + tail ≤ 8) :
    (BitVec.ofNat 8 (value m p c * 2 ^ tail)).toNat = value m p c * 2 ^ tail := by
  rw [BitVec.toNat_ofNat]
  apply Nat.mod_eq_of_lt
  calc value m p c * 2 ^ tail < 2 ^ c * 2 ^ tail :=
        Nat.mul_lt_mul_of_pos_right (value_lt m p c) (Nat.two_pow_pos tail)
    _ = 2 ^ (c + tail) := (Nat.pow_add 2 c tail).symm
    _ ≤ 2 ^ 8 := Nat.pow_le_pow_right (by decide) fits

/-- The octets a decoding loop stores through `np` hold the field, `tail` bits
    above their end. -/
structure Holds (m : Memory) (p : Int) (w lead tail : Nat) (ds : List Octet) : Prop where
  size : w ≠ 0 → 8 * ds.length = lead + w + tail
  number_eq : number ds = value m p w * 2 ^ tail

private theorem Holds.cons {m : Memory} {p : Int} {c w lead tail : Nat} {ds : List Octet}
    (adjacent : lead + c = 8) (longer : c < w) (rest : Holds m (p + c) (w - c) 0 tail ds) :
    Holds m p w lead tail (BitVec.ofNat 8 (value m p c * 2 ^ 0) :: ds) where
  size := by
    intro _
    have size := rest.size (by omega)
    rw [List.length_cons]
    omega
  number_eq := by
    have size := rest.size (by omega)
    have width : w = c + (w - c) := by omega
    have scale : 256 ^ ds.length = 2 ^ (w - c) * 2 ^ tail := by
      rw [← Nat.pow_add, show (256 : Nat) = 2 ^ 8 from rfl, ← Nat.pow_mul, size, Nat.zero_add]
    rw [number, rest.number_eq, fetched_toNat (by omega), scale]
    conv_rhs => rw [width, value_append]
    ring

theorem decodeChunks_loads {chunk : ItPosition → UInt16 → Access Octet}
    (loads : ChunkLoads layout chunk) (it : ItPosition) (w : UInt16)
    (normal : it.bits_.toNat < 8) (nonneg : 0 ≤ it.bytes.toInt)
    (countable : it.toBits + w.toNat ≤ 8 * 2 ^ 31) :
    ∃ octets, Loads (decodeChunks cut chunk it w) octets
        (fieldReach it.toBits w.toNat (layout.last w)) ∧
      ∀ m, Holds m it.toBits w.toNat (layout.lead w) (layout.tail w) (octets m) := by
  induction remaining : w.toNat using Nat.strong_induction_on generalizing it w with
  | _ k ih =>
      subst remaining
      by_cases more : w ≠ 0
      · have positive := cut.pos w more
        have bounded := cut.le w more
        have inOctet := layout.fits more
        have turn := turn_loads (by omega) (loads it w more nonneg)
        rw [decodeChunks_step it more]
        by_cases longer : (cut.cw w).toNat < w.toNat
        · obtain ⟨adjacent, noLead, sameTail, sameLast⟩ := layout.next w more longer
          obtain ⟨normal', nonneg', place⟩ := moved normal nonneg (by omega) countable longer
          obtain ⟨octets, rest, holds⟩ := ih _ (by rw [cut.rest more]; omega)
            (it.addBits (cut.cw w)) (w - cut.cw w) normal' nonneg'
            (by rw [place, cut.rest more]; omega) rfl
          rw [place, sameLast, cut.rest more] at rest
          refine ⟨_, (turn.bind fun d => rest.bind fun ds => Loads.pure (d :: ds)).congr
            (fun m => rfl) fun x => ?_, fun m => ?_⟩
          · rw [or_false, reach_next positive (by omega) longer]
          · have held := holds m
            rw [place, cut.rest more, noLead, sameTail] at held
            have none : 8 - layout.lead w - (cut.cw w).toNat = 0 := by omega
            rw [none]
            exact held.cons adjacent longer
        · have same : (cut.cw w).toNat = w.toNat := by omega
          obtain ⟨whole, width⟩ := layout.ends w more same
          have done : w - cut.cw w = 0 := by
            apply UInt16.toNat_inj.mp
            rw [cut.rest more, same, Nat.sub_self]
            rfl
          rw [done, decodeChunks_zero]
          refine ⟨_, (turn.bind fun d => (Loads.pure []).bind fun ds => Loads.pure (d :: ds)).congr
            (fun m => rfl) fun x => ?_, fun m => ?_⟩
          · rw [or_false, width, reach_last positive (by omega), same]
          · have tail : 8 - layout.lead w - (cut.cw w).toNat = layout.tail w := by omega
            refine ⟨fun _ => ?_, ?_⟩
            · simp only [List.length_cons, List.length_nil]
              omega
            · rw [number, number, fetched_toNat (by omega), tail, same]
              simp
      · have zero : w = 0 := not_not.mp more
        subst zero
        rw [decodeChunks_zero]
        refine ⟨_, (Loads.pure []).congr (fun m => rfl) fun x => ?_, fun m => ⟨fun h => ?_, ?_⟩⟩
        · rw [fieldReach]
          exact ⟨False.elim, fun h => absurd h.1 (by decide)⟩
        · exact absurd rfl h
        · simp [number]

/-! ## The four codecs -/

variable {at_ : ItPosition} {w : UInt16} {n : Nat}

private theorem left_small (w : UInt16) : (leftCut.cw w).toNat ≤ 8 := by
  rw [leftCut_toNat]
  exact Nat.min_le_right _ _

private theorem right_fills {w : UInt16} (more : w ≠ 0) :
    8 - rightChunking.lead w - (rightCut.cw w).toNat = 0 := by
  have chunk : (rightCut.cw w).toNat = _ := rightCut_toNat more
  have lead : rightChunking.lead w = 7 - (w.toNat - 1) % 8 := rfl
  omega

private theorem right_small {w : UInt16} (more : w ≠ 0) : (rightCut.cw w).toNat ≤ 8 := by
  have inOctet := rightChunking.fits more
  omega

theorem encodeLAs_stores (np : Memory) (inside : Inside at_ w.toNat n) :
    Stores (encodeLAs np at_ w) at_.toBits w.toNat (value np 0 w.toNat)
      (fieldReach at_.toBits w.toNat ((w.toNat - 1) % 8 + 1)) := by
  have chunks : ChunkStores leftChunking encodeLA := fun n it w _ nonneg =>
    encodeLA_stores n nonneg (left_small w)
  have stored := encodeChunks_stores leftChunking chunks np at_.copy w at_.bits_lt
    (by rw [ItPosition.bytes_copy]; exact inside.nonneg)
    (by rw [ItPosition.toBits_copy]; exact inside.countable)
  rw [ItPosition.toBits_copy] at stored
  exact stored

theorem encodeRAs_stores (np : Memory) (inside : Inside at_ w.toNat n) :
    Stores (encodeRAs np at_ w) at_.toBits w.toNat
      (value np ((7 - (w.toNat - 1) % 8 : Nat) : Int) w.toNat)
      (fieldReach at_.toBits w.toNat (min w.toNat 8)) := by
  have chunks : ChunkStores rightChunking encodeRA := by
    intro n it w more nonneg
    rw [right_fills more, Nat.pow_zero, Nat.div_one]
    exact encodeRA_stores n nonneg (right_small more)
  have stored := encodeChunks_stores rightChunking chunks np at_.copy w at_.bits_lt
    (by rw [ItPosition.bytes_copy]; exact inside.nonneg)
    (by rw [ItPosition.toBits_copy]; exact inside.countable)
  rw [ItPosition.toBits_copy] at stored
  exact stored

theorem decodeLAs_loads (inside : Inside at_ w.toNat n) :
    ∃ octets, Loads (decodeLAs at_ w) octets
        (fieldReach at_.toBits w.toNat ((w.toNat - 1) % 8 + 1)) ∧
      ∀ m, Holds m at_.toBits w.toNat 0 (7 - (w.toNat - 1) % 8) (octets m) := by
  have chunks : ChunkLoads leftChunking decodeLA := fun it w _ nonneg =>
    decodeLA_loads nonneg (left_small w)
  have fetched := decodeChunks_loads leftChunking chunks at_.copy w at_.bits_lt
    (by rw [ItPosition.bytes_copy]; exact inside.nonneg)
    (by rw [ItPosition.toBits_copy]; exact inside.countable)
  rw [ItPosition.toBits_copy] at fetched
  exact fetched

theorem decodeRAs_loads (inside : Inside at_ w.toNat n) :
    ∃ octets, Loads (decodeRAs at_ w) octets (fieldReach at_.toBits w.toNat (min w.toNat 8)) ∧
      ∀ m, Holds m at_.toBits w.toNat (7 - (w.toNat - 1) % 8) 0 (octets m) := by
  have chunks : ChunkLoads rightChunking decodeRA := by
    intro it w more nonneg
    rw [right_fills more]
    exact decodeRA_loads nonneg (right_small more)
  have fetched := decodeChunks_loads rightChunking chunks at_.copy w at_.bits_lt
    (by rw [ItPosition.bytes_copy]; exact inside.nonneg)
    (by rw [ItPosition.toBits_copy]; exact inside.countable)
  rw [ItPosition.toBits_copy] at fetched
  exact fetched

/-! ## Which octets are touched -/

theorem fieldReach_confined_iff {last : Nat} (inside : Inside at_ w.toNat n) :
    (∀ x, fieldReach at_.toBits w.toNat last x → 0 ≤ x ∧ x < n) ↔
      ¬(at_.toBits + w.toNat = 8 * n ∧ 0 < w.toNat ∧ last < 8) := by
  have start : 0 ≤ at_.toBits := by
    have := inside.nonneg
    rw [ItPosition.toBits]
    omega
  have ending := inside.fits
  constructor
  · rintro confined ⟨exact_, positive, short⟩
    have beyond := confined n ⟨positive, by omega, .inr ⟨by omega, short⟩⟩
    omega
  · rintro whole x ⟨positive, low, high⟩
    omega

/-- A codec stays inside the buffer unless the field ends with the buffer's last
    bit and its last chunk is shorter than an octet. Then the chunk codec finds
    `e` equal to eight, takes the chunk for one that straddles two octets, and
    touches the octet behind the buffer. -/
theorem codecs_confined_iff (np : Memory) (inside : Inside at_ w.toNat n) :
    (Confined (encodeRAs np at_ w) n ↔
      ¬(at_.toBits + w.toNat = 8 * n ∧ 0 < w.toNat ∧ w.toNat < 8)) ∧
    (Confined (decodeRAs at_ w) n ↔
      ¬(at_.toBits + w.toNat = 8 * n ∧ 0 < w.toNat ∧ w.toNat < 8)) ∧
    (Confined (encodeLAs np at_ w) n ↔
      ¬(at_.toBits + w.toNat = 8 * n ∧ w.toNat % 8 ≠ 0)) ∧
    (Confined (decodeLAs at_ w) n ↔
      ¬(at_.toBits + w.toNat = 8 * n ∧ w.toNat % 8 ≠ 0)) := by
  obtain ⟨_, fetchedR, -⟩ := decodeRAs_loads inside
  obtain ⟨_, fetchedL, -⟩ := decodeLAs_loads inside
  rw [(encodeRAs_stores np inside).confined_iff, (encodeLAs_stores np inside).confined_iff,
    fetchedR.confined_iff, fetchedL.confined_iff, fieldReach_confined_iff inside,
    fieldReach_confined_iff inside]
  omega

theorem codecs_confined_inner : Confined (encodeRAs (fun _ => 0) ⟨0, 3⟩ 4) 1 :=
  (codecs_confined_iff (fun _ => 0)
    (⟨by decide, by decide, by decide⟩ : Inside ⟨0, 3⟩ (4 : UInt16).toNat 1)).1.mpr (by decide)

/-- Four bits in the low half of the only octet of a buffer. -/
theorem not_confined_nibble : Inside ⟨0, 4⟩ (4 : UInt16).toNat 1 ∧
    ¬Confined (encodeRAs (fun _ => 0) ⟨0, 4⟩ 4) 1 ∧ ¬Confined (decodeRAs ⟨0, 4⟩ 4) 1 ∧
    ¬Confined (encodeLAs (fun _ => 0) ⟨0, 4⟩ 4) 1 ∧ ¬Confined (decodeLAs ⟨0, 4⟩ 4) 1 := by
  have inside : Inside ⟨0, 4⟩ (4 : UInt16).toNat 1 := ⟨by decide, by decide, by decide⟩
  obtain ⟨_, fetchedR, -⟩ := decodeRAs_loads inside
  obtain ⟨_, fetchedL, -⟩ := decodeLAs_loads inside
  refine ⟨inside, ?_, ?_, ?_, ?_⟩
  · rw [(encodeRAs_stores _ inside).confined_iff, fieldReach_confined_iff inside]
    decide
  · rw [fetchedR.confined_iff, fieldReach_confined_iff inside]
    decide
  · rw [(encodeLAs_stores _ inside).confined_iff, fieldReach_confined_iff inside]
    decide
  · rw [fetchedL.confined_iff, fieldReach_confined_iff inside]
    decide

end Tahi.Pz.PvOctets
