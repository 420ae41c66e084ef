import Tahi.General.BitField

/-! # Parts of generated objects

`substr`, `left` and `right` generate an object and keep a part of its octets. Whether the part is
inside the object is asked in the arithmetic of 32 bits.
-/

namespace Tahi.Pz

open BitField (Octet)

/-- `PvOctets` with what stands at `buffer_`, `none` for the null pointer. An octet that nothing
    was written to is `none`. -/
structure OctetBuffer where
  allocated_ : UInt32
  length_ : UInt32
  buffer_ : Option (List (Option Octet))
deriving DecidableEq, Repr

namespace OctetBuffer

/-- `new octet[l]` -/
def fresh (l : UInt32) : List (Option Octet) := List.replicate l.toNat none

/-- `PvOctets(l)` -/
def new (l : UInt32) : OctetBuffer :=
  if 0 < l then ⟨l, l, some (fresh l)⟩ else ⟨0, l, none⟩

/-- `memcpy(dst,src,l)`, which gives nothing when it would leave one of the two. -/
def memcpy (dst src : List (Option Octet)) (l : UInt32) : Option (List (Option Octet)) :=
  if l.toNat ≤ dst.length ∧ l.toNat ≤ src.length then
    some (src.take l.toNat ++ dst.drop l.toNat)
  else none

/-- A buffer that is too small is made anew; its old octets are copied as many as the new one has
    when there is nothing else to be copied. -/
def set (o : OctetBuffer) (l : UInt32) (s : Option (List (Option Octet))) : Option OctetBuffer :=
  if o.allocated_ = 0 then some { o with length_ := l, buffer_ := s.or o.buffer_ }
  else do
    let o ←
      if o.allocated_ < l then
        match s, o.buffer_ with
        | none, some old => do
            let buffer ← memcpy (fresh l) old l
            pure { o with allocated_ := l, buffer_ := some buffer }
        | _, _ => pure { o with allocated_ := l, buffer_ := some (fresh l) }
      else pure o
    match s with
    | none => pure { o with length_ := l }
    | some s => do
        let buffer ← memcpy (o.buffer_.getD []) s l
        pure { o with length_ := l, buffer_ := some buffer }

/-- `buffer(n)`, which aborts behind the end. -/
def buffer (o : OctetBuffer) (n : UInt32) : Option (Option (List (Option Octet))) :=
  if o.length_ < n then none else some (o.buffer_.map (·.drop n.toNat))

def substr (o : OctetBuffer) (n l : UInt32) (into : OctetBuffer) : Option OctetBuffer := do
  into.set l (← o.buffer n)

/-- The octets of the value. -/
def string (o : OctetBuffer) : List (Option Octet) := (o.buffer_.getD []).take o.length_.toNat

end OctetBuffer

/-- An object to take a part of: its length, and its octets when it can be generated. -/
structure SubstrObject where
  length : UInt32
  generate : Option (List Octet)
  whole : ∀ g ∈ generate, g.length = length.toNat

/-- What comes of `generateSubstr`: the error that the part exceeds the object, an object that
    cannot be generated, or the value. -/
inductive SubstrResult where
  | exceeded
  | failed
  | generated (oct : OctetBuffer)
deriving DecidableEq, Repr

/-- `none` is an abort, or a copy that leaves its buffer. -/
def generateSubstr (w : SubstrObject) (o l : Option UInt32) (oct : OctetBuffer) :
    Option SubstrResult :=
  let tl := w.length
  let ol := o.getD 0
  let ll := l.getD (tl - ol)
  if tl < ol + ll then some .exceeded
  else
    match w.generate with
    | none => some .failed
    | some g => do
        let ref := { OctetBuffer.new tl with
          buffer_ := (OctetBuffer.new tl).buffer_.map fun _ => g.map some }
        let oct ← oct.set ll none
        let oct ← ref.substr ol ll oct
        pure (.generated oct)

/-- The three functions with their arguments behind the object. -/
inductive SubstrCall where
  | substr (offset length : Option UInt32)
  | left (length : Option UInt32)
  | right (offset : Option UInt32)
deriving DecidableEq, Repr

variable {w : SubstrObject} {o l : Option UInt32}

theorem generateSubstr_exceeded (oct : OctetBuffer) :
    generateSubstr w o l oct = some .exceeded ↔
      w.length < o.getD 0 + l.getD (w.length - o.getD 0) := by
  unfold generateSubstr
  simp only
  by_cases exceeds : w.length < o.getD 0 + l.getD (w.length - o.getD 0)
  · rw [if_pos exceeds]
    exact iff_of_true rfl exceeds
  · rw [if_neg exceeds, iff_false_right exceeds]
    cases w.generate with
    | none => simp
    | some g => simp [Option.bind_eq_some_iff]

namespace OctetBuffer

theorem set_new_length {tl l : UInt32} (le : l ≤ tl) :
    (new tl).set l none = some { new tl with length_ := l } := by
  unfold new
  by_cases some : 0 < tl
  · have le' : ¬ tl < l := UInt32.not_lt.mpr le
    have ne : tl ≠ 0 := (UInt32.ne_of_lt some).symm
    simp [if_pos some, set, ne, le']
  · simp [if_neg some, set]

/-- A part of the octets is copied into a buffer of their size. -/
theorem substr_string {tl n l : UInt32} {g : List Octet} (whole : g.length = tl.toNat)
    (inside : n.toNat + l.toNat ≤ tl.toNat) :
    ∃ oct, ({ new tl with buffer_ := (new tl).buffer_.map fun _ => g.map some }).substr n l
        { new tl with length_ := l } = some oct ∧
      oct.string = ((g.drop n.toNat).take l.toNat).map some := by
  have start : ¬ tl < n := by
    rw [UInt32.lt_iff_toNat_lt]
    omega
  have length : (new tl).length_ = tl := by
    unfold new
    split <;> rfl
  simp only [substr, buffer, length, if_neg start, Option.bind_eq_bind, Option.bind_some]
  unfold new
  by_cases filled : 0 < tl
  · have ne : tl ≠ 0 := (UInt32.ne_of_lt filled).symm
    have small : ¬ tl < l := by
      rw [UInt32.lt_iff_toNat_lt]
      omega
    have dst : l.toNat ≤ (fresh tl).length := by
      rw [fresh, List.length_replicate]
      omega
    have src : l.toNat ≤ ((g.map some).drop n.toNat).length := by
      rw [List.length_drop, List.length_map, whole]
      omega
    simp only [if_pos filled, set, if_neg ne, if_neg small, Option.map_some, Option.getD_some,
      memcpy, dst, src, and_self, if_true, Option.bind_eq_bind, Option.bind_some, Option.pure_def]
    refine ⟨_, rfl, ?_⟩
    rw [string, Option.getD_some, List.take_left' (List.length_take_of_le src), List.map_take,
      List.map_drop]
  · have zero : tl.toNat = 0 := by
      rw [UInt32.lt_iff_toNat_lt] at filled
      exact Nat.eq_zero_of_not_pos filled
    have none : l.toNat = 0 := by omega
    simp only [if_neg filled, set, if_true, Option.map_none, Option.or_none]
    refine ⟨_, rfl, ?_⟩
    rw [string, none, List.take_zero, List.take_zero, List.map_nil]

end OctetBuffer

theorem generateSubstr_generated {g : List Octet} (generates : w.generate = some g)
    (inside : (o.getD 0).toNat + (l.getD (w.length - o.getD 0)).toNat ≤ w.length.toNat) :
    ∃ oct, generateSubstr w o l (.new w.length) = some (.generated oct) ∧
      oct.string = ((g.drop (o.getD 0).toNat).take (l.getD (w.length - o.getD 0)).toNat).map
        some := by
  have size := w.length.toNat_lt
  have fits : ¬ w.length < o.getD 0 + l.getD (w.length - o.getD 0) := by
    rw [UInt32.lt_iff_toNat_lt, UInt32.toNat_add]
    omega
  have le : l.getD (w.length - o.getD 0) ≤ w.length := by
    rw [UInt32.le_iff_toNat_le]
    omega
  obtain ⟨oct, run, string⟩ := OctetBuffer.substr_string (w.whole g generates) inside
  refine ⟨oct, ?_, string⟩
  simp only [generateSubstr, if_neg fits, generates, OctetBuffer.set_new_length le, run,
    Option.bind_eq_bind, Option.bind_some, Option.pure_def]

namespace SubstrCall

def offset : SubstrCall → Option UInt32
  | substr offset _ => offset
  | left _ => none
  | right offset => offset

def length : SubstrCall → Option UInt32
  | substr _ length => length
  | left length => length
  | right _ => none

/-- The value is generated into a buffer of the size of the object. -/
def generateOctetsWith (f : SubstrCall) (w : SubstrObject) : Option SubstrResult :=
  match f with
  | substr offset length => generateSubstr w offset length (.new w.length)
  | left length => generateSubstr w none length (.new w.length)
  | right offset => generateSubstr w offset none (.new w.length)

/-- `ol` and `ll` as integers, with the default for the length. -/
def range (f : SubstrCall) (w : SubstrObject) : Nat × Nat :=
  let ol := (f.offset.getD 0).toNat
  (ol, (f.length.map UInt32.toNat).getD (w.length.toNat - ol))

/-- The error is reported when the part does not lie inside the object, and only then; otherwise
    the value is the part. -/
structure Cuts (f : SubstrCall) (w : SubstrObject) : Prop where
  exceeded : f.generateOctetsWith w = some .exceeded ↔
    w.length.toNat < (f.range w).1 + (f.range w).2 ∨ w.length.toNat < (f.range w).1
  part : (f.range w).1 + (f.range w).2 ≤ w.length.toNat → ∀ g, w.generate = some g →
    ∃ oct, f.generateOctetsWith w = some (.generated oct) ∧
      oct.string = ((g.drop (f.range w).1).take (f.range w).2).map some

/-- The sum of offset and length is one of 32 bits, or exceeds the object also in 32 bits. -/
def Sums (f : SubstrCall) (w : SubstrObject) : Prop :=
  let ol := f.offset.getD 0
  let ll := f.length.getD (w.length - ol)
  ol.toNat + ll.toNat < 2 ^ 32 ∨ w.length.toNat + 2 ^ 32 < ol.toNat + ll.toNat

variable {f : SubstrCall} {w : SubstrObject}

theorem generateOctetsWith_eq (f : SubstrCall) (w : SubstrObject) :
    f.generateOctetsWith w = generateSubstr w f.offset f.length (.new w.length) := by
  cases f <;> rfl

/-- The length as the code has it is the one of the range, but for an offset behind the object. -/
theorem range_snd (inside : (f.range w).1 ≤ w.length.toNat) :
    (f.length.getD (w.length - f.offset.getD 0)).toNat = (f.range w).2 := by
  unfold range at inside ⊢
  cases f.length with
  | some l => rfl
  | none => exact UInt32.toNat_sub_of_le _ _ (UInt32.le_iff_toNat_le.mpr inside)

/-- The part is the one that was asked for exactly when the sum of offset and length is right or
    exceeds the object as it is. -/
theorem cuts_iff (f : SubstrCall) (w : SubstrObject) : f.Cuts w ↔ f.Sums w := by
  have size := w.length.toNat_lt
  have low := (f.offset.getD 0).toNat_lt
  have low' := (f.length.getD (w.length - f.offset.getD 0)).toNat_lt
  have exceeds : f.generateOctetsWith w = some .exceeded ↔ w.length.toNat <
      ((f.offset.getD 0).toNat + (f.length.getD (w.length - f.offset.getD 0)).toNat) % 2 ^ 32 := by
    rw [generateOctetsWith_eq, generateSubstr_exceeded, UInt32.lt_iff_toNat_lt, UInt32.toNat_add]
  have start : (f.range w).1 = (f.offset.getD 0).toNat := rfl
  constructor
  · intro cuts
    by_contra wraps
    have exceeded := cuts.exceeded
    rw [exceeds] at exceeded
    simp only [Sums, not_or, Nat.not_lt] at wraps
    by_cases inside : (f.range w).1 ≤ w.length.toNat
    · have length := range_snd inside
      omega
    · omega
  · intro sums
    simp only [Sums] at sums
    refine ⟨?_, fun inside g generates => ?_⟩
    · rw [exceeds]
      by_cases inside : (f.range w).1 ≤ w.length.toNat
      · have length := range_snd inside
        omega
      · omega
    · have length := range_snd (f := f) (w := w) (by omega)
      rw [← length] at inside ⊢
      rw [generateOctetsWith_eq]
      exact generateSubstr_generated generates inside

/-- An object of two octets. -/
def pair : SubstrObject := ⟨2, some [10, 11], by decide⟩

/-- Three octets from the end of an object of two, where the length is left out. -/
theorem not_cuts_right : ¬ (right (some 3)).Cuts pair := by
  intro cuts
  have exceeded := cuts.exceeded
  rw [generateOctetsWith_eq, generateSubstr_exceeded] at exceeded
  revert exceeded
  decide

end SubstrCall

end Tahi.Pz
