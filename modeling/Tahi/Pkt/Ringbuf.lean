import Mathlib.Algebra.Order.Ring.Int
import Tahi.General.CircularQueue
import Tahi.General.Refinement

/-! # The receive ring

`Ringbuf` keeps packets in a circle of slots, one of which is always spare. A full ring
refuses a packet, or drops its oldest one, as its mode tells. The constructor computes
the number of slots in 32 bits, and `write` copies a packet of any size.
-/

namespace Tahi.Pkt

open CircularQueue Refinement

inductive Mode where
  | eNOWRAP
  | eWRAP
deriving DecidableEq, Repr

/-- The slots, and the pointers as places in them. -/
structure Ringbuf where
  start : List (List UInt8)
  wp : Nat
  rp : Nat
  mode_ : Mode
  size_ : UInt32
  len_ : UInt32
deriving DecidableEq, Repr

namespace Ringbuf

/-- The constructor. Neither the octets of new slots nor the mode are initialized. -/
def new (size len : UInt32) (mode_ : Mode) (fresh : Nat → Nat → UInt8) : Ringbuf :=
  let len_ := len + 1
  ⟨(List.range len_.toNat).map fun i => (List.range size.toNat).map (fresh i),
    0, 0, mode_, size, len_⟩

def isEmpty (rb : Ringbuf) : Bool := rb.wp == rb.rp

def isFull (rb : Ringbuf) : Bool :=
  (rb.rp - rb.wp : Int) == 1 || (rb.wp : Int) == rb.rp + rb.len_.toNat - 1

def nextPoint (rb : Ringbuf) (p : Nat) : Nat :=
  if (p : Int) = rb.len_.toNat - 1 then 0 else p + 1

def datanum (rb : Ringbuf) : UInt32 :=
  if rb.rp ≤ rb.wp then UInt32.ofNat (rb.wp - rb.rp)
  else UInt32.ofNat (rb.wp + rb.len_.toNat - rb.rp)

/-- `memcpy(*wp,data,size)`, and the slot it leaves. `none` is a store outside the slots. -/
def copy (rb : Ringbuf) (data : List UInt8) : Option (Ringbuf × List UInt8) :=
  match rb.start[rb.wp]? with
  | none => none
  | some slot =>
      if data.length ≤ slot.length then
        let slot := data ++ slot.drop data.length
        some ({ rb with start := rb.start.set rb.wp slot }, slot)
      else none

/-- The reply is the slot that the returned pointer points to. -/
def write (rb : Ringbuf) (data : List UInt8) : Option (Ringbuf × Option (List UInt8)) :=
  if !rb.isFull then
    (rb.copy data).map fun (rb, ret) => ({ rb with wp := rb.nextPoint rb.wp }, some ret)
  else if rb.mode_ = .eWRAP then
    (rb.copy data).map fun (rb, ret) =>
      ({ rb with wp := rb.nextPoint rb.wp, rp := rb.nextPoint rb.rp }, some ret)
  else some (rb, none)

def read (rb : Ringbuf) : Option (Ringbuf × Option (List UInt8)) :=
  if rb.isEmpty then some (rb, none)
  else rb.start[rb.rp]?.map fun ret => ({ rb with rp := rb.nextPoint rb.rp }, some ret)

def readn (rb : Ringbuf) (n : UInt32) : Option (Option (List UInt8)) :=
  if rb.isEmpty then some none
  else rb.start[(rb.rp + n.toNat) % rb.len_.toNat]?.map some

def clear (rb : Ringbuf) : Ringbuf := { rb with wp := 0, rp := 0 }

inductive Op where
  | write (data : List UInt8)
  | read
  | readn (n : UInt32)
  | clear
  | setNowrapMode
  | setWrapMode
deriving DecidableEq, Repr

def step (rb : Ringbuf) : Op → Option (Ringbuf × Option (List UInt8))
  | .write data => rb.write data
  | .read => rb.read
  | .readn n => (rb.readn n).map fun ret => (rb, ret)
  | .clear => some (rb.clear, none)
  | .setNowrapMode => some ({ rb with mode_ := .eNOWRAP }, none)
  | .setWrapMode => some ({ rb with mode_ := .eWRAP }, none)

end Ringbuf

/-! ## The bounded queue -/

/-- A queue of at most `len` packets. -/
structure Fifo where
  len : Nat
  mode_ : Mode
  packets : List (List UInt8)
deriving DecidableEq, Repr

namespace Fifo

open Ringbuf (Op)

def write (t : Fifo) (data : List UInt8) : Fifo × Option (List UInt8) :=
  if t.packets.length < t.len then ({ t with packets := t.packets ++ [data] }, some data)
  else if t.mode_ = .eWRAP then ({ t with packets := t.packets.tail ++ [data] }, some data)
  else (t, none)

def step (t : Fifo) : Op → Fifo × Option (List UInt8)
  | .write data => t.write data
  | .read => ({ t with packets := t.packets.tail }, t.packets.head?)
  | .readn n => (t, t.packets[n.toNat]?)
  | .clear => ({ t with packets := [] }, none)
  | .setNowrapMode => ({ t with mode_ := .eNOWRAP }, none)
  | .setWrapMode => ({ t with mode_ := .eWRAP }, none)

/-- `readn` is called for a packet that is there. -/
def Valid (t : Fifo) : Op → Prop
  | .readn n => n.toNat < t.packets.length
  | _ => True

/-- A packet that is not refused fits a slot, and there are slots. -/
def Fits (size : UInt32) (t : Fifo) : Op → Prop
  | .write data =>
      (t.packets.length < t.len ∨ t.mode_ = .eWRAP) → t.len + 1 < 2 ^ 32 ∧ data.length ≤ size.toNat
  | _ => True

instance (t : Fifo) (op : Op) : Decidable (t.Valid op) := by
  cases op <;> unfold Valid <;> infer_instance

instance (size : UInt32) (t : Fifo) (op : Op) : Decidable (t.Fits size op) := by
  cases op <;> unfold Fits <;> infer_instance

end Fifo

namespace Ringbuf

/-- The slot starts with the packet. -/
def Delivers (slot packet : Option (List UInt8)) : Prop :=
  Option.Rel (fun s p => p <+: s) slot packet

/-- The observers agree with the queue. -/
structure Agrees (rb : Ringbuf) (t : Fifo) : Prop where
  empty : rb.isEmpty ↔ t.packets = []
  full : rb.isFull ↔ t.packets.length = t.len
  datanum : rb.datanum.toNat = t.packets.length

/-- The ring holds the packets of the queue. -/
structure Holds (size : UInt32) (rb : Ringbuf) (t : Fifo) : Prop where
  mode : rb.mode_ = t.mode_
  some_ : 0 < t.len
  len : rb.len_.toNat = t.len + 1
  slots : rb.start.length = t.len + 1
  sizes : ∀ slot ∈ rb.start, slot.length = size.toNat
  queue : CircularQueue.Holds (fun slot packet => packet <+: slot) rb.start rb.rp rb.wp t.packets

namespace Holds

variable {size : UInt32} {rb : Ringbuf} {t : Fifo}

theorem nextPoint (holds : rb.Holds size t) (p : Nat) :
    rb.nextPoint p = next rb.start.length p := by
  simp only [Ringbuf.nextPoint, next, holds.len, holds.slots]
  grind

theorem agrees (holds : rb.Holds size t) : rb.Agrees t := by
  have queue := holds.queue
  have len := holds.len
  have slots := holds.slots
  constructor
  · simpa [isEmpty] using queue.empty_iff
  · have full := queue.full_iff
    have before := queue.read_lt
    have before' := queue.write_lt
    rw [slots] at full before before'
    have spare : t.packets.length + 1 = t.len + 1 ↔ t.packets.length = t.len := Nat.succ_inj
    rw [← spare, ← full, isFull, len]
    unfold next
    simp only [Bool.or_eq_true, beq_iff_eq]
    grind
  · have count := queue.count
    have spare := queue.spare
    have before := queue.write_lt
    have word := rb.len_.toNat_lt
    rw [Ringbuf.datanum, len, ← slots]
    split
    · rw [if_pos ‹_›] at count
      rw [UInt32.toNat_ofNat_of_lt' (by rw [UInt32.size]; omega), count]
    · rw [if_neg ‹_›] at count
      rw [UInt32.toNat_ofNat_of_lt' (by rw [UInt32.size]; omega), count]

/-- A packet that fits is stored in the slot of the writing place. -/
theorem copy (holds : rb.Holds size t) {data : List UInt8} (fits : data.length ≤ size.toNat) :
    ∃ slot, rb.copy data = some ({ rb with start := rb.start.set rb.wp slot }, slot) ∧
      data <+: slot ∧ slot.length = size.toNat := by
  have inside := holds.queue.write_lt
  have whole := holds.sizes _ (List.getElem_mem inside)
  refine ⟨data ++ rb.start[rb.wp].drop data.length, ?_, List.prefix_append _ _, ?_⟩
  · simp only [Ringbuf.copy, List.getElem?_eq_getElem inside, whole, fits, if_true]
  · rw [List.length_append, List.length_drop, whole]
    omega

theorem not_copy (holds : rb.Holds size t) {data : List UInt8} (fits : ¬data.length ≤ size.toNat) :
    rb.copy data = none := by
  have inside := holds.queue.write_lt
  have whole := holds.sizes _ (List.getElem_mem inside)
  simp only [Ringbuf.copy, List.getElem?_eq_getElem inside, whole, fits, if_false]

theorem isFull_eq (holds : rb.Holds size t) :
    rb.isFull = !decide (t.packets.length < t.len) := by
  have full := holds.agrees.full
  have spare := holds.queue.spare
  rw [holds.slots] at spare
  rw [Bool.eq_iff_iff, full]
  simp
  omega

/-- Storing a packet in the spare slot of a ring that is not full. -/
theorem push (holds : rb.Holds size t) {data slot : List UInt8} (room : t.packets.length < t.len)
    (stored : data <+: slot) (whole : slot.length = size.toNat) :
    ({ rb with start := rb.start.set rb.wp slot, wp := rb.nextPoint rb.wp } : Ringbuf).Holds size
      { t with packets := t.packets ++ [data] } := by
  have queue := holds.queue.push (a := slot) (by rw [holds.slots]; omega) stored
  rw [← holds.nextPoint] at queue
  refine { holds with slots := by simpa using holds.slots, sizes := ?_, queue := queue }
  intro other mem
  rcases List.mem_or_eq_of_mem_set mem with old | rfl
  · exact holds.sizes other old
  · exact whole

theorem pop (holds : rb.Holds size t) {packet : List UInt8} {packets : List (List UInt8)}
    (first : t.packets = packet :: packets) :
    ({ rb with rp := rb.nextPoint rb.rp } : Ringbuf).Holds size { t with packets := packets } := by
  have queue := holds.queue
  rw [first] at queue
  have popped := queue.pop
  rw [← holds.nextPoint] at popped
  exact { holds with queue := popped }

theorem write (holds : rb.Holds size t) {data : List UInt8} (fits : t.Fits size (.write data)) :
    ∃ rb' r, rb.write data = some (rb', r) ∧ Delivers r (t.write data).2 ∧
      rb'.Holds size (t.write data).1 := by
  unfold Ringbuf.write Fifo.write
  rw [holds.isFull_eq]
  by_cases room : t.packets.length < t.len
  · obtain ⟨slot, copied, stored, whole⟩ := holds.copy (fits (.inl room)).2
    simp only [room, decide_true, Bool.not_true, Bool.not_false, if_true, copied, Option.map_some]
    exact ⟨_, _, rfl, .some stored, holds.push room stored whole⟩
  · simp only [room, decide_false, Bool.not_false, Bool.not_true, Bool.false_eq_true, if_false]
    rw [holds.mode]
    by_cases mode : t.mode_ = .eWRAP
    · obtain ⟨slot, copied, stored, whole⟩ := holds.copy (fits (.inr mode)).2
      rw [if_pos mode, if_pos mode, copied]
      have spare := holds.queue.spare
      have some_ := holds.some_
      rw [holds.slots] at spare
      -- The oldest packet goes first, which leaves room for the new one.
      cases packets : t.packets with
      | nil =>
          rw [packets, List.length_nil] at room
          omega
      | cons packet packets' =>
          rw [packets, List.length_cons] at spare
          have room' : packets'.length < t.len := Nat.lt_of_succ_lt_succ spare
          exact ⟨_, _, rfl, .some stored, (holds.pop packets).push room' stored whole⟩
    · rw [if_neg mode, if_neg mode]
      exact ⟨rb, none, rfl, .none, holds⟩

theorem read (holds : rb.Holds size t) :
    ∃ rb' r, rb.read = some (rb', r) ∧ Delivers r t.packets.head? ∧
      rb'.Holds size { t with packets := t.packets.tail } := by
  have empty := holds.agrees.empty
  unfold Ringbuf.read
  cases packets : t.packets with
  | nil =>
      rw [if_pos (empty.mpr packets)]
      refine ⟨rb, none, rfl, .none, ?_⟩
      rwa [List.tail_nil, ← packets]
  | cons packet packets' =>
      have some_ : ¬rb.isEmpty := by simp [empty, packets]
      obtain ⟨slot, there, stored⟩ := holds.queue.cell 0 packet (by simp [packets])
      rw [place, Nat.add_zero, if_pos holds.queue.read_lt] at there
      rw [if_neg some_, there]
      exact ⟨_, _, rfl, .some stored, holds.pop packets⟩

theorem readn (holds : rb.Holds size t) {n : UInt32} (valid : n.toNat < t.packets.length) :
    ∃ r, rb.readn n = some r ∧ Delivers r t.packets[n.toNat]? := by
  have some_ : ¬rb.isEmpty := by
    rw [holds.agrees.empty]
    rintro none_
    simp [none_] at valid
  obtain ⟨slot, there, stored⟩ := holds.queue.get valid
  have spare := holds.queue.spare
  have before := holds.queue.read_lt
  have around : (rb.rp + n.toNat) % rb.len_.toNat = place rb.start.length rb.rp n.toNat := by
    rw [holds.len, ← holds.slots, place]
    split
    · exact Nat.mod_eq_of_lt ‹_›
    · rw [Nat.mod_eq_sub_mod (Nat.le_of_not_lt ‹_›)]
      exact Nat.mod_eq_of_lt (by omega)
  rw [Ringbuf.readn, if_neg some_, around, there, List.getElem?_eq_getElem valid]
  exact ⟨_, rfl, .some stored⟩

end Holds

/-- The ring of `2 ^ 32 - 1` packets has no slot, since the number of its slots wraps. -/
structure NoSlots (rb : Ringbuf) (t : Fifo) : Prop where
  mode : rb.mode_ = t.mode_
  start : rb.start = []
  len : rb.len_ = 0
  places : rb.wp = 0 ∧ rb.rp = 0
  wraps : t.len + 1 = 2 ^ 32
  packets : t.packets = []

namespace NoSlots

variable {rb : Ringbuf} {t : Fifo}

theorem agrees (none_ : rb.NoSlots t) : rb.Agrees t := by
  obtain ⟨-, start, len, ⟨wp, rp⟩, wraps, packets⟩ := none_
  constructor
  · simp [isEmpty, wp, rp, packets]
  · simp [isFull, wp, rp, len, packets]
    omega
  · simp [Ringbuf.datanum, wp, rp, packets]

theorem write (none_ : rb.NoSlots t) (data : List UInt8) : rb.write data = none := by
  obtain ⟨-, start, len, ⟨wp, rp⟩, -, -⟩ := none_
  simp [Ringbuf.write, isFull, copy, wp, rp, len, start]

end NoSlots

/-- A ring and the queue it stands for. -/
def Represents (size : UInt32) (rb : Ringbuf) (t : Fifo) : Prop :=
  rb.Holds size t ∨ rb.NoSlots t

theorem Represents.new (size len : UInt32) (some_ : 1 ≤ len) (mode_ : Mode)
    (fresh : Nat → Nat → UInt8) :
    (new size len mode_ fresh).Represents size ⟨len.toNat, mode_, []⟩ := by
  have pos : 1 ≤ len.toNat := UInt32.le_iff_toNat_le.mp some_
  have slots : (Ringbuf.new size len mode_ fresh).start.length = (len + 1).toNat := by
    simp [Ringbuf.new]
  have sum : (len + 1).toNat = (len.toNat + 1) % 2 ^ 32 := UInt32.toNat_add len 1
  by_cases wraps : len.toNat + 1 = 2 ^ 32
  · right
    rw [wraps, Nat.mod_self] at sum
    refine ⟨rfl, List.length_eq_zero_iff.mp (slots.trans sum), UInt32.toNat_inj.mp sum,
      ⟨rfl, rfl⟩, wraps, rfl⟩
  · left
    have word := len.toNat_lt
    rw [Nat.mod_eq_of_lt (by omega)] at sum
    refine ⟨rfl, pos, sum, slots.trans sum, ?_, .empty _ ?_⟩
    · intro slot mem
      simp only [Ringbuf.new, List.mem_map, List.mem_range] at mem
      obtain ⟨i, -, rfl⟩ := mem
      simp
    · rw [slots, sum]
      exact Nat.succ_pos _

theorem Represents.agrees {size : UInt32} {rb : Ringbuf} {t : Fifo}
    (represents : rb.Represents size t) : rb.Agrees t := by
  rcases represents with holds | none_
  · exact holds.agrees
  · exact none_.agrees

/-- Every operation of a packet that fits is the one of the bounded queue. -/
theorem simulates (size : UInt32) :
    Simulates step Fifo.step (fun t op => t.Valid op ∧ t.Fits size op) Delivers
      (Represents size) := by
  rintro rb t op represents ⟨valid, fits⟩
  cases op with
  | write data =>
      rcases represents with holds | none_
      · obtain ⟨rb', r, written, delivered, holds'⟩ := holds.write fits
        exact ⟨rb', r, written, delivered, .inl holds'⟩
      · have wraps := none_.wraps
        have room : t.packets.length < t.len := by
          rw [none_.packets, List.length_nil]
          omega
        exact absurd (fits (.inl room)).1 (by omega)
  | read =>
      rcases represents with holds | none_
      · obtain ⟨rb', r, got, delivered, holds'⟩ := holds.read
        exact ⟨rb', r, got, delivered, .inl holds'⟩
      · refine ⟨rb, none, ?_, ?_, .inr ?_⟩
        · simp [step, read, none_.agrees.empty.mpr none_.packets]
        · simp [Fifo.step, none_.packets, Delivers]
        · simpa [Fifo.step, none_.packets] using { none_ with packets := rfl }
  | readn n =>
      rcases represents with holds | none_
      · obtain ⟨r, got, delivered⟩ := holds.readn valid
        exact ⟨rb, r, by rw [step, got, Option.map_some], delivered, .inl holds⟩
      · have inside : n.toNat < t.packets.length := valid
        simp [none_.packets] at inside
  | clear =>
      refine ⟨_, none, rfl, .none, ?_⟩
      rcases represents with holds | none_
      · left
        exact { holds with queue := .empty _ (Nat.lt_of_lt_of_eq (Nat.succ_pos _) holds.slots.symm) }
      · exact .inr { none_ with places := ⟨rfl, rfl⟩, packets := rfl }
  | setNowrapMode =>
      refine ⟨_, none, rfl, .none, ?_⟩
      rcases represents with holds | none_
      · exact .inl { holds with mode := rfl }
      · exact .inr { none_ with mode := rfl }
  | setWrapMode =>
      refine ⟨_, none, rfl, .none, ?_⟩
      rcases represents with holds | none_
      · exact .inl { holds with mode := rfl }
      · exact .inr { none_ with mode := rfl }

/-- A packet that does not fit is stored outside the slots. -/
theorem stops (size : UInt32) (rb : Ringbuf) (t : Fifo) (op : Op)
    (represents : rb.Represents size t) (_ : t.Valid op) (fits : ¬t.Fits size op) :
    step rb op = none := by
  cases op with
  | write data =>
      simp only [Fifo.Fits, Classical.not_imp] at fits
      obtain ⟨accepted, misfit⟩ := fits
      rcases represents with holds | none_
      · have word := rb.len_.toNat_lt
        rw [holds.len] at word
        have large : ¬data.length ≤ size.toNat := fun small => misfit ⟨word, small⟩
        have faults := holds.not_copy large
        simp only [step, write, faults, Option.map_none, holds.isFull_eq, holds.mode]
        rcases accepted with room | mode
        · simp [room]
        · simp [mode]
      · exact none_.write data
  | read | readn n | clear | setNowrapMode | setWrapMode => exact absurd trivial fits

/-- A run of a new ring is one of a queue of at most `len` packets: it stores in its slots
    only, delivers the packets of the queue, and ends in a ring that agrees with it. -/
def Behaves (size len : UInt32) (mode_ : Mode) (fresh : Nat → Nat → UInt8) (ops : List Op) : Prop :=
  ∃ rb rs, run step (new size len mode_ fresh) ops = some (rb, rs) ∧
    List.Forall₂ Delivers rs (specRun Fifo.step ⟨len.toNat, mode_, []⟩ ops).2 ∧
    rb.Agrees (specRun Fifo.step ⟨len.toNat, mode_, []⟩ ops).1

/-- The ring is the bounded queue exactly on the runs whose packets fit. -/
theorem behaves_iff (size len : UInt32) (some_ : 1 ≤ len) (mode_ : Mode)
    (fresh : Nat → Nat → UInt8) (ops : List Op)
    (valid : Allowed Fifo.step Fifo.Valid ⟨len.toNat, mode_, []⟩ ops) :
    Behaves size len mode_ fresh ops ↔
      Allowed Fifo.step (Fifo.Fits size) ⟨len.toNat, mode_, []⟩ ops := by
  have represents := Represents.new size len some_ mode_ fresh
  constructor
  · rintro ⟨rb, rs, ran, -, -⟩
    exact (simulates size).allowed_of_run (stops size) represents valid (by simp [ran])
  · intro fits
    obtain ⟨rb, rs, ran, delivered, represents'⟩ :=
      (simulates size).run represents (valid.and fits)
    exact ⟨rb, rs, ran, delivered, represents'.agrees⟩

theorem behaves_wrapping :
    Behaves 4 1 .eWRAP (fun _ _ => 0)
        [.write [1], .write [2, 3], .readn 0, .setNowrapMode, .write [4, 5, 6, 7, 8], .read] ↔
      Allowed Fifo.step (Fifo.Fits 4) ⟨1, .eWRAP, []⟩
        [.write [1], .write [2, 3], .readn 0, .setNowrapMode, .write [4, 5, 6, 7, 8], .read] :=
  behaves_iff 4 1 (by decide) .eWRAP (fun _ _ => 0)
    [.write [1], .write [2, 3], .readn 0, .setNowrapMode, .write [4, 5, 6, 7, 8], .read] (by decide)

/-- A ring without slots, and a packet that is larger than the slots. -/
theorem not_behaves :
    ¬Behaves 2048 0xffffffff .eWRAP (fun _ _ => 0) [.write [1]] ∧
      ¬Behaves 1 1 .eWRAP (fun _ _ => 0) [.write [1, 2]] := by
  constructor
  · rintro ⟨rb, rs, ran, -⟩
    cases ran
  · rintro ⟨rb, rs, ran, -⟩
    cases ran

end Ringbuf

end Tahi.Pkt
