import Tahi.Pz.TObject

/-! # What an overwriting object may touch

An object that is not a routing header leaves the destinations of the control
alone and changes no bit of the packet outside its own place.
-/

namespace Tahi.Pz

open BitField TracedMemory PvOctets

/-- The sizes of a list of objects, as one number of bits. -/
def totalBits (ts : List TObject) : Int := (ts.map fun t => t.size.toBits).sum

/-- Objects that frame: none of the members of the IPv6 header and of the routing
    header that exchange addresses, and every member as large as what is stored
    into it. `stops` says whether a fragment header, which refuses, is among them. -/
inductive Framed (stops : Bool) : TObject → Prop where
  | const {size} (start : 0 ≤ size.bytes.toInt) : Framed stops (.leaf .const size)
  | zero {size} (start : 0 ≤ size.bytes.toInt) (narrow : 8 * size.bytes.toInt < 2 ^ 16) :
      Framed stops (.leaf .zero size)
  | optExtData {size} (start : 0 ≤ size.bytes.toInt) (narrow : 8 * size.bytes.toInt < 2 ^ 16) :
      Framed stops (.leaf .optExtData size)
  | homeAddress {size pvalue} (start : 0 ≤ size.bytes.toInt) (width : size.toBits = 128)
      (octets : pvalue.length = 16) : Framed stops (.leaf (.homeAddress pvalue) size)
  | useless {size children} (start : 0 ≤ size.bytes.toInt) :
      Framed stops (.compound .useless size children)
  | fragment {size children} (start : 0 ≤ size.bytes.toInt) (refuses : stops = true) :
      Framed stops (.compound .fragment size children)
  | children {size children} (start : 0 ≤ size.bytes.toInt)
      (inside : ∀ t ∈ children, Framed stops t) (fits : totalBits children ≤ size.toBits) :
      Framed stops (.compound .children size children)
  | option {size children} (start : 0 ≤ size.bytes.toInt) (type : 8 ≤ size.toBits)
      (inside : ∀ t ∈ children, Framed stops t) (fits : totalBits children ≤ size.toBits) :
      Framed stops (.compound .option size children)

theorem Framed.start {stops : Bool} {t : TObject} (framed : Framed stops t) :
    0 ≤ t.size.bytes.toInt := by
  cases framed <;> assumption

theorem toBits_nonneg {i : ItPosition} (start : 0 ≤ i.bytes.toInt) : 0 ≤ i.toBits := by
  rw [ItPosition.toBits]
  omega

theorem totalBits_cons (t : TObject) (ts : List TObject) :
    totalBits (t :: ts) = t.size.toBits + totalBits ts := by
  rw [totalBits, List.map_cons, List.sum_cons]
  rfl

theorem totalBits_nonneg {ts : List TObject} (start : ∀ t ∈ ts, 0 ≤ t.size.bytes.toInt) :
    0 ≤ totalBits ts := by
  induction ts with
  | nil => exact Int.le_refl 0
  | cons t ts ih =>
      have first := toBits_nonneg (start t List.mem_cons_self)
      have rest := ih fun u mem => start u (List.mem_cons_of_mem t mem)
      rw [totalBits_cons]
      exact Int.add_nonneg first rest

/-- There is room for `w` bits at a position of a buffer of `n` octets. -/
structure Room (at_ : ItPosition) (w : Int) (n : Nat) : Prop where
  normal : at_.bits_.toNat < 8
  nonneg : 0 ≤ at_.bytes.toInt
  fits : at_.toBits + w ≤ 8 * (n : Int)

namespace Room

variable {at_ : ItPosition} {w : Int} {n : Nat}

theorem copy (room : Room at_ w n) : Room at_.copy w n := by
  obtain ⟨normal, nonneg, fits⟩ := room
  refine ⟨at_.bits_lt, ?_, ?_⟩
  · rwa [ItPosition.bytes_copy]
  · rwa [ItPosition.toBits_copy]

theorem inside (room : Room at_ w n) (bounded : n < 2 ^ 31) {u : Nat} (small : u ≤ w) :
    Inside at_ u n :=
  ⟨room.nonneg, by have := room.fits; omega, by have := room.fits; omega⟩

/-- Behind an object there is room for what follows it. -/
theorem add (room : Room at_ w n) (bounded : n < 2 ^ 31) {size : ItPosition}
    (start : 0 ≤ size.bytes.toInt) (rest : 0 ≤ w - size.toBits) :
    Room (at_.add size) (w - size.toBits) n ∧
      (at_.add size).toBits = at_.toBits + size.toBits := by
  have fits := room.fits
  obtain ⟨normal, nonneg, moved⟩ :=
    ItPosition.toBits_add room.normal room.nonneg start (by omega)
  exact ⟨⟨normal, nonneg, by omega⟩, moved⟩

theorem le (room : Room at_ w n) {v : Int} (smaller : v ≤ w) : Room at_ v n :=
  ⟨room.normal, room.nonneg, by have := room.fits; omega⟩

end Room

section

variable (host : ByteOrder) {length : UInt32} (bounded : length.toNat < 2 ^ 31)

include bounded in
/-- An address stored where there is room for it. -/
theorem encodeAddr_runs {at_ : ItPosition} {w : Int} (room : Room at_ w length.toNat)
    (wide : 128 ≤ w) {addr : PvOctets} (octets : addr.length = 16) (m : Memory) :
    Runs (encodeAddr length at_ (some addr)) m ()
      (put m at_.toBits 128 (value addr.cell 0 128)) := by
  have width : 8 * addr.length.toNat = 128 := by
    rw [octets]
    rfl
  have inside : Inside at_ (8 * addr.length.toNat) length.toNat :=
    room.inside bounded (by omega)
  have stored := encode_puts inside (.inr (by omega))
  rw [width] at stored
  exact stored.runs m

include bounded in
/-- The same for an address that need not be there, without saying what is stored. -/
theorem encodeAddr_frames {at_ : ItPosition} (room : Room at_ 128 length.toNat)
    {addr : Option PvOctets} (octets : ∀ a ∈ addr, a.length = 16) (m : Memory) :
    ∃ m', Runs (encodeAddr length at_ addr) m () m' ∧
      ∀ k, k < at_.toBits ∨ at_.toBits + 128 ≤ k → bit m' k = bit m k := by
  cases addr with
  | none => exact ⟨m, Runs.pure () m, fun _ _ => rfl⟩
  | some a =>
      exact ⟨_, encodeAddr_runs bounded room (Int.le_refl 128) (octets a rfl) m,
        fun k away => (writes_put _ _ _ _).outside away⟩

include bounded in
theorem zero_runs {at_ size : ItPosition} (room : Room at_ size.toBits length.toNat)
    (start : 0 ≤ size.bytes.toInt) (narrow : 8 * size.bytes.toInt < 2 ^ 16) (m : Memory) :
    Runs (encodeZero host length at_ size) m () (put m at_.toBits size.toBits.toNat 0) := by
  have positive := toBits_nonneg start
  have split : 8 * size.bytes.toInt.toNat + size.bits.toNat = size.toBits.toNat := by
    rw [ItPosition.toBits]
    omega
  have inside : Inside at_ (8 * size.bytes.toInt.toNat + size.bits.toNat) length.toNat :=
    room.inside bounded (by omega)
  have stored := encodeZero_puts host (by omega) rfl inside (.inr (by omega))
  rw [split] at stored
  exact stored.runs m

include bounded in
/-- Reading an octet of the packet. -/
theorem octet_runs {at_ : ItPosition} {w : Int} (room : Room at_ w length.toNat) (wide : 8 ≤ w)
    (m : Memory) :
    Runs (decodeUint host at_ 8) m (UInt32.ofNat (value m at_.toBits 8)) m :=
  (decodeUint_loads (w := 8) host (room.inside bounded wide) (by decide) (by decide)).runs m

end

/-- A part of the packet whose overwriting keeps to `w` bits. -/
def Frames (length : UInt32) (stops : Bool) (w : Int)
    (run : ICVControl → ItPosition → Access (Bool × ICVControl)) : Prop :=
  ∀ (c : ICVControl) (at_ : ItPosition) (m : Memory), Room at_ w length.toNat →
    (∀ a ∈ c.CareOfAddr, a.length = 16) →
    ∃ b c' m', Runs (run c at_) m (b, c') m' ∧
      (stops = false → b = true) ∧
      c'.LastDstAddr = c.LastDstAddr ∧ c'.ShiftRoutAddr = c.ShiftRoutAddr ∧
      c'.CareOfAddr = c.CareOfAddr ∧
      ∀ k, k < at_.toBits ∨ at_.toBits + w ≤ k → bit m' k = bit m k

section

variable (host : ByteOrder) {length : UInt32} (bounded : length.toNat < 2 ^ 31)

/-- Objects one behind the other, by induction on the list. -/
theorem children_frames {stops : Bool} {ts : List TObject} (bounded : length.toNat < 2 ^ 31)
    (start : ∀ t ∈ ts, 0 ≤ t.size.bytes.toInt)
    (frames : ∀ t ∈ ts, Frames length stops t.size.toBits (t.overwrite_ICV host length · ·)) :
    Frames length stops (totalBits ts) (overwrite_ICV_child host length · · ts) := by
  induction ts with
  | nil =>
      intro c at_ m room coa
      refine ⟨true, c, m, ?_, fun _ => rfl, rfl, rfl, rfl, fun k _ => rfl⟩
      simp only [overwrite_ICV_child]
      exact Runs.pure _ _
  | cons t ts ih =>
      intro c at_ m room coa
      have startRest : ∀ u ∈ ts, 0 ≤ u.size.bytes.toInt := fun u mem =>
        start u (List.mem_cons_of_mem t mem)
      have first := toBits_nonneg (start t List.mem_cons_self)
      have rest := totalBits_nonneg startRest
      rw [totalBits_cons] at room ⊢
      obtain ⟨b, c₁, m₁, run, goes, last, shift, coaSame, outside⟩ :=
        frames t List.mem_cons_self c at_ m (room.le (by omega)) coa
      cases b with
      | false =>
          refine ⟨false, c₁, m₁, ?_, goes, last, shift, coaSame, fun k away => ?_⟩
          · simp only [overwrite_ICV_child]
            exact run.bind (Runs.pure _ _)
          · exact outside k (by omega)
      | true =>
          obtain ⟨behind, place⟩ :=
            room.add bounded (start t List.mem_cons_self) (by omega)
          obtain ⟨b, c₂, m₂, run', goes', last', shift', coaSame', outside'⟩ :=
            ih startRest (fun u mem => frames u (List.mem_cons_of_mem t mem)) c₁ (at_.add t.size) m₁
              (behind.le (by omega)) (by rwa [coaSame])
          refine ⟨b, c₂, m₂, ?_, goes', last'.trans last, shift'.trans shift,
            coaSame'.trans coaSame, fun k away => ?_⟩
          · simp only [overwrite_ICV_child]
            exact run.bind run'
          · rw [outside' k (by omega), outside k (by omega)]

variable {host}

theorem leaf_runs {ow : ICVoverwriter} {c c' : ICVControl} {at_ size : ItPosition}
    {m m' : Memory} (h : Runs (ow.overwrite host length c at_ size) m c' m') :
    Runs ((TObject.leaf ow size).overwrite_ICV host length c at_) m (true, c') m' := by
  rw [TObject.overwrite_ICV]
  exact h.bind (Runs.pure (true, c') m')

variable (host)

include bounded in
/-- A framing object keeps to its own size, by induction on the object. -/
theorem Framed.frames {stops : Bool} {t : TObject} (framed : Framed stops t) :
    Frames length stops t.size.toBits (t.overwrite_ICV host length · ·) := by
  induction framed with
  | const start =>
      intro c at_ m room coa
      exact ⟨true, c, m, leaf_runs (Runs.pure c m), fun _ => rfl, rfl, rfl, rfl,
        fun k _ => rfl⟩
  | @zero size start narrow =>
      intro c at_ m room coa
      have positive := toBits_nonneg start
      have cleared := zero_runs host bounded room start narrow m
      refine ⟨true, c, put m at_.toBits size.toBits.toNat 0, leaf_runs (cleared.yield c),
        fun _ => rfl, rfl, rfl, rfl, fun k away => ?_⟩
      simp only [TObject.size] at away
      exact (writes_put _ _ _ _).outside (by omega)
  | @optExtData size start narrow =>
      intro c at_ m room coa
      have positive := toBits_nonneg start
      cases zeroes : c.isZero_ExtOptData with
      | false =>
          refine ⟨true, c, m, leaf_runs ?_, fun _ => rfl, rfl, rfl, rfl, fun k _ => rfl⟩
          simp only [ICVoverwriter.overwrite, zeroes, Bool.false_eq_true, if_false]
          exact (Runs.pure () m).yield c
      | true =>
          have cleared := zero_runs host bounded room start narrow m
          refine ⟨true, c, put m at_.toBits size.toBits.toNat 0, leaf_runs ?_,
            fun _ => rfl, rfl, rfl, rfl, fun k away => ?_⟩
          · simp only [ICVoverwriter.overwrite, zeroes, if_true]
            exact cleared.yield c
          · simp only [TObject.size] at away
            exact (writes_put _ _ _ _).outside (by omega)
  | @homeAddress size pvalue start width octets =>
      intro c at_ m room coa
      simp only [TObject.size, width] at room
      obtain ⟨m', run, outside⟩ := encodeAddr_frames bounded room coa m
      refine ⟨true, { c with HomeAddr := some pvalue }, m', leaf_runs (run.yield _),
        fun _ => rfl, rfl, rfl, rfl, fun k away => outside k ?_⟩
      simp only [TObject.size, width] at away
      exact away
  | useless start =>
      intro c at_ m room coa
      refine ⟨true, c, m, ?_, fun _ => rfl, rfl, rfl, rfl, fun k _ => rfl⟩
      simp only [TObject.overwrite_ICV]
      exact Runs.pure (true, c) m
  | fragment start refuses =>
      intro c at_ m room coa
      refine ⟨false, c, m, ?_, fun goes => ?_, rfl, rfl, rfl, fun k _ => rfl⟩
      · simp only [TObject.overwrite_ICV]
        exact Runs.pure (false, c) m
      · rw [refuses] at goes
        cases goes
  | @children size children start inside fits ih =>
      intro c at_ m room coa
      have framed := children_frames host bounded (fun t mem => (inside t mem).start) ih
      obtain ⟨b, c', m', run, goes, last, shift, coaSame, outside⟩ :=
        framed c at_.copy m (room.le fits).copy coa
      refine ⟨b, c', m', ?_, goes, last, shift, coaSame, fun k away => outside k ?_⟩
      · simp only [TObject.overwrite_ICV]
        exact run
      · rw [ItPosition.toBits_copy]
        simp only [TObject.size] at away
        omega
  | @option size children start type inside fits ih =>
      intro c at_ m room coa
      have framed := children_frames host bounded (fun t mem => (inside t mem).start) ih
      have typeval := octet_runs host bounded room type m
      generalize UInt32.ofNat (value m at_.toBits 8) = read at typeval
      obtain ⟨b, c', m', run, goes, last, shift, coaSame, outside⟩ :=
        framed { c with isZero_ExtOptData := read &&& 0x20 != 0 } at_.copy m
          (room.le fits).copy coa
      refine ⟨b, { c' with isZero_ExtOptData := false }, m', ?_, goes, last, shift, coaSame,
        fun k away => outside k ?_⟩
      · simp only [TObject.overwrite_ICV]
        refine typeval.bind (Runs.bind run ?_)
        exact Runs.pure (b, { c' with isZero_ExtOptData := false }) m'
      · rw [ItPosition.toBits_copy]
        simp only [TObject.size] at away
        omega

end

end Tahi.Pz
