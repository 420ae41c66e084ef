import Tahi.Dns.KDnsRdata

/-! # The bounds of what is decoded

A decoder returns how many octets it has read, and its callers add these sizes up to get from one
record to the next.
-/

namespace Tahi.Dns

open Perl

/-- The hash `kDec_DNS_Question` returns. -/
structure Question where
  _size_ : Int
  qname : Name
  qtype : Nat
  qclass : Nat
deriving DecidableEq, Repr

def kDec_DNS_Question (data : List UInt8) (depth : Nat) (offset : Option Nat) :
    Option (Outcome Question) :=
  callUnless (kDec_DNS_Name data depth (some (offset.getD 0))) 722 "kDec_DNS_Question"
    "QNAME: decode failure." fun strerror _qname_ =>
      let _offset_ := offset.getD 0 + _qname_._size_
      let _size_ := _qname_._size_ + 4
      if data.length - _offset_ < 4 then
        some (kReg_DNS_Error strerror 734 "kDec_DNS_Question"
          s!"$datalen: {data.length} -- requires {_size_} bytes.", none)
      else
        let member (i : Nat) := be ((data.drop (_offset_.toNat + i)).take 2)
        some (strerror, some ⟨_size_, _qname_, member 0, member 2⟩)

/-! ## Names -/

/-- The name at `a` can be read, with the names that it points to, and its own octets end
    before `b`. -/
inductive NameAt (data : List UInt8) : Nat → Nat → Prop
  | empty {a : Nat} (octet : data[a]? = some 0) : NameAt data a (a + 1)
  | label {a b : Nat} {len : UInt8} (octet : data[a]? = some len) (nonempty : len ≠ 0)
      (plain : len &&& 0xc0 ≠ 0xc0) (whole : a + 1 + len.toNat ≤ data.length)
      (rest : NameAt data (a + 1 + len.toNat) b) : NameAt data a b
  | pointer {a b : Nat} {hi lo : UInt8} (octet : data[a]? = some hi)
      (marked : hi &&& 0xc0 = 0xc0) (second : data[a + 1]? = some lo)
      (rest : NameAt data (unpackN hi lo &&& 0x3fff) b) : NameAt data a (a + 2)

variable {data : List UInt8}

theorem lt_of_octet {a : Nat} {o : UInt8} (octet : data[a]? = some o) : a < data.length :=
  (List.getElem?_eq_some_iff.mp octet).1

theorem NameAt.le {a b : Nat} (name : NameAt data a b) : b ≤ data.length := by
  induction name with
  | empty octet => exact lt_of_octet octet
  | label _ _ _ _ _ ih => exact ih
  | pointer _ _ second _ => exact lt_of_octet second

theorem nameAt_of_empty {a o : Nat} {c c' : Option (List UInt8)}
    (run : labels data a c = .empty o c') : NameAt data a o := by
  fun_induction labels data a c with
  | case1 => cases run
  | case2 a c octet =>
      cases run
      exact .empty octet
  | case3 => cases run
  | case4 => cases run
  | case5 => cases run
  | case6 a c len octet nonempty plain whole ih =>
      exact .label octet nonempty plain (Nat.le_of_not_lt whole) (ih run)

theorem nameAt_of_pointer {a o p b : Nat} {c c' : Option (List UInt8)}
    (run : labels data a c = .pointer o p c') (rest : NameAt data p b) : NameAt data a o := by
  fun_induction labels data a c with
  | case1 => cases run
  | case2 => cases run
  | case3 => cases run
  | case4 a c hi octet _ marked lo second =>
      cases run
      exact .pointer octet marked second rest
  | case5 => cases run
  | case6 a c len octet nonempty plain whole ih =>
      exact .label octet nonempty plain (Nat.le_of_not_lt whole) (ih run)

/-- A name that is decoded is one that can be read. -/
theorem nameAt_of_decoded {depth a : Nat} {strerror : List StrError} {name : Name}
    (decoded : kDec_DNS_Name data depth (some a) = some (strerror, some name)) :
    ∃ b, NameAt data a b ∧ name._size_ = b - (a : Int) := by
  induction depth generalizing a strerror name with
  | zero => cases decoded
  | succ depth ih =>
      rw [kDec_DNS_Name] at decoded
      cases run : labels data a none with
      | requires => simp [run] at decoded
      | empty o c =>
          simp only [Option.getD_some, run, Option.some.injEq, Prod.mk.injEq] at decoded
          obtain ⟨-, rfl⟩ := decoded
          exact ⟨o, nameAt_of_empty run, rfl⟩
      | pointer o p c =>
          simp only [Option.getD_some, run] at decoded
          cases inner : kDec_DNS_Name data depth (some p) with
          | none => simp [inner] at decoded
          | some outcome =>
              obtain ⟨strerror', _ | name'⟩ := outcome
              · simp [inner] at decoded
              · simp only [inner, Option.some.injEq, Prod.mk.injEq] at decoded
                obtain ⟨-, rfl⟩ := decoded
                obtain ⟨b, rest, -⟩ := ih inner
                exact ⟨o, nameAt_of_pointer run rest, rfl⟩

/-- How the loop over the labels of a name that is decoded is left. -/
def Left (data : List UInt8) (a b : Nat) (c : Option (List UInt8)) : Prop :=
  (∃ c', labels data a c = .empty b c') ∨
    ∃ p c' depth strerror rest, labels data a c = .pointer b p c' ∧
      kDec_DNS_Name data depth (some p) = some (strerror, some rest)

theorem Left.decoded {a b : Nat} (left : Left data a b none) :
    ∃ depth strerror name, kDec_DNS_Name data depth (some a) = some (strerror, some name) ∧
      name._size_ = b - (a : Int) := by
  obtain ⟨c, run⟩ | ⟨p, c, depth, strerror, rest, run, inner⟩ := left
  · refine ⟨1, kInit_DNS_Error, ⟨b - a, c, none, none⟩, ?_, rfl⟩
    simp only [kDec_DNS_Name, Option.getD_some, run]
  · let behind := if rest.offset.isSome then rest.decompressed else rest.compressed
    refine ⟨depth + 1, strerror, ⟨b - a, c, some p, some (c.getD [] ++ behind.getD [])⟩, ?_, rfl⟩
    simp only [kDec_DNS_Name, Option.getD_some, run, inner, behind]

theorem NameAt.left {a b : Nat} (name : NameAt data a b) (c : Option (List UInt8)) :
    Left data a b c := by
  induction name generalizing c with
  | @empty a octet =>
      have run : labels data a c = .empty (a + 1) c := by
        unfold labels
        simp only [octet, if_true]
      exact .inl ⟨c, run⟩
  | @label a b len octet nonempty plain whole _ ih =>
      unfold Left labels
      simp only [octet, nonempty, plain, Nat.not_lt.mpr whole, if_false]
      exact ih _
  | @pointer a b hi lo octet marked second _ ih =>
      have nonempty : hi ≠ 0 := by
        rintro rfl
        cases marked
      have run : labels data a c = .pointer (a + 2) (unpackN hi lo &&& 0x3fff) c := by
        unfold labels
        simp only [octet, nonempty, marked, second, if_true, if_false]
      obtain ⟨depth, strerror, rest, decoded, -⟩ := (ih none).decoded
      exact .inr ⟨_, c, depth, strerror, rest, run, decoded⟩

/-! ## Strings -/

theorem string_decoded {a : Nat} {strerror : List StrError} {s : DNSString}
    (decoded : kDec_DNS_String data a = (strerror, some s)) :
    ∃ len : UInt8, data[a]? = some len ∧ a + 1 + len.toNat ≤ data.length ∧
      s._size_ = 1 + len.toNat := by
  unfold kDec_DNS_String at decoded
  cases octet : data[a]? with
  | none => simp [octet] at decoded
  | some len =>
      simp only [octet] at decoded
      refine ⟨len, rfl, ?_⟩
      split_ifs at decoded with nothing long
      · simp only [Prod.mk.injEq, Option.some.injEq] at decoded
        obtain ⟨-, rfl⟩ := decoded
        have inside := lt_of_octet octet
        exact ⟨by omega, by rw [nothing]⟩
      · simp only [Prod.mk.injEq, reduceCtorEq, and_false] at decoded
      · simp only [Prod.mk.injEq, Option.some.injEq] at decoded
        obtain ⟨-, rfl⟩ := decoded
        exact ⟨by omega, rfl⟩

theorem decoded_string {a : Nat} {len : UInt8} (octet : data[a]? = some len)
    (inside : a + 1 + len.toNat ≤ data.length) :
    ∃ strerror s, kDec_DNS_String data a = (strerror, some s) ∧ s._size_ = 1 + len.toNat := by
  unfold kDec_DNS_String
  simp only [octet, Nat.not_lt.mpr inside, if_false]
  by_cases nothing : len.toNat = 0
  · simp [nothing]
  · simp [nothing]

/-- A string that lies in the data goes past the `n` octets that are given to the strings
    from `a` on. -/
inductive Crosses (data : List UInt8) : Nat → Nat → Prop
  | here {a n : Nat} {len : UInt8} (octet : data[a]? = some len)
      (inside : a + 1 + len.toNat ≤ data.length) (some : 0 < n) (past : n < 1 + len.toNat) :
      Crosses data a n
  | next {a n : Nat} {len : UInt8} (octet : data[a]? = some len)
      (inside : a + 1 + len.toNat ≤ data.length)
      (rest : Crosses data (a + (1 + len.toNat)) n) : Crosses data a (n + (1 + len.toNat))

/-- The strings end in the data. They end where they should or one of them crosses that. -/
theorem texts_decoded {rdlength a size : Nat} {strerror strerror' : List StrError}
    {texts : List DNSString} {txt : TXT} (le : size ≤ rdlength)
    (decoded : decTexts data rdlength a size strerror texts = (strerror', some txt)) :
    (txt._size_ = rdlength ∨ Crosses data a (rdlength - size)) ∧
      (size < rdlength → a + (txt._size_ - size) ≤ data.length) := by
  fun_induction decTexts data rdlength a size strerror texts with
  | case1 a size strerror texts more strerror'' failed => cases decoded
  | case2 a size strerror texts more strerror'' text string ih =>
      obtain ⟨len, octet, inside, taken⟩ := string_decoded string
      by_cases past : rdlength < size + text._size_
      · refine ⟨.inr (.here octet inside (by omega) (by omega)), fun _ => ?_⟩
        rw [decTexts, if_neg (by omega)] at decoded
        simp only [Prod.mk.injEq, Option.some.injEq] at decoded
        obtain ⟨-, rfl⟩ := decoded
        simp only
        omega
      · obtain ⟨ends, bound⟩ := ih (by omega) decoded
        refine ⟨ends.imp_right fun crosses => ?_, fun _ => ?_⟩
        · have left : rdlength - size = rdlength - (size + text._size_) + (1 + len.toNat) := by
            omega
          rw [taken] at crosses
          rw [left, taken]
          exact .next octet inside crosses
        · obtain more | all := Nat.lt_or_ge (size + text._size_) rdlength
          · have bound := bound more
            push_cast at bound
            omega
          · rw [decTexts, if_neg (by omega)] at decoded
            simp only [Prod.mk.injEq, Option.some.injEq] at decoded
            obtain ⟨-, rfl⟩ := decoded
            simp only
            omega
  | case3 a size strerror texts enough =>
      simp only [Prod.mk.injEq, Option.some.injEq] at decoded
      obtain ⟨-, rfl⟩ := decoded
      exact ⟨.inl (by simp only; omega), fun more => absurd more enough⟩

/-- When a string crosses the end, the strings are decoded up to its end. -/
theorem Crosses.decoded {a n : Nat} (crosses : Crosses data a n) {rdlength size : Nat}
    (left : n = rdlength - size) (strerror : List StrError) (texts : List DNSString) :
    ∃ strerror' txt, decTexts data rdlength a size strerror texts = (strerror', some txt) ∧
      (rdlength : Int) < txt._size_ := by
  induction crosses generalizing size strerror texts with
  | @here a n len octet inside some past =>
      obtain ⟨strerror', s, string, taken⟩ := decoded_string octet inside
      refine ⟨strerror', ⟨(size + s._size_ : Nat), texts ++ [s]⟩, ?_, by simp only; omega⟩
      rw [decTexts, if_pos (by omega), string]
      simp only
      rw [decTexts, if_neg (by omega)]
  | @next a n len octet inside rest ih =>
      obtain ⟨strerror', s, string, taken⟩ := decoded_string octet inside
      have more : size < rdlength := by omega
      obtain ⟨strerror'', txt, decoded, past⟩ :=
        ih (show n = rdlength - (size + s._size_) by omega) strerror' (texts ++ [s])
      refine ⟨strerror'', txt, ?_, past⟩
      rw [decTexts, if_pos more, string]
      simp only
      rw [taken] at decoded ⊢
      exact decoded

/-! ## The decoders -/

inductive Decoder where
  | name | string | question | rr
  | txt (rdlength : Nat)
deriving DecidableEq, Repr

/-- What is decoded lies in the data. The data of a record are the octets behind its fixed part,
    and the texts take as many octets as they were given. -/
def Decoder.Bounded (data : List UInt8) (offset : Option Nat) : Decoder → Prop
  | name => ∀ depth strerror result,
      kDec_DNS_Name data depth offset = some (strerror, some result) →
        offset.getD 0 + result._size_ ≤ data.length
  | string => ∀ strerror result,
      kDec_DNS_String data (offset.getD 0) = (strerror, some result) →
        offset.getD 0 + result._size_ ≤ data.length
  | question => ∀ depth strerror result,
      kDec_DNS_Question data depth offset = some (strerror, some result) →
        offset.getD 0 + result._size_ ≤ data.length
  | rr => ∀ depth strerror result,
      kDec_DNS_RR data depth offset = some (strerror, some result) →
        offset.getD 0 + result._size_ ≤ data.length ∧
          result.rdata.length = result.rdlength ∧
          result.rdata = (data.drop (offset.getD 0 + result.name._size_ + 10).toNat).take
            result.rdlength
  | txt rdlength => ∀ strerror result,
      kDec_DNS_RDATA_TXT data rdlength (offset.getD 0) = some (strerror, some result) →
        offset.getD 0 + result._size_ ≤ data.length ∧ result._size_ = rdlength

/-- `rdlength` of the record whose name ends before `b`. -/
def rdlengthAt (data : List UInt8) (b : Nat) : Nat := be ((data.drop (b + 8)).take 2)

/-- The inputs for which that holds. -/
def Decoder.Right (data : List UInt8) (offset : Option Nat) : Decoder → Prop
  | name | string | question => True
  | rr => ∀ b, NameAt data (offset.getD 0) b → b + 10 ≤ data.length →
      0 < rdlengthAt data b ∧ b + 10 + rdlengthAt data b ≤ data.length
  | txt rdlength =>
      ¬ Crosses data (offset.getD 0) rdlength ∧ (rdlength = 0 → offset.getD 0 ≤ data.length)

/-! ## Records -/

/-- What is decoded of a record whose name ends before `b`. -/
structure RR.At (rr : RR) (data : List UInt8) (a b : Nat) : Prop where
  name : rr.name._size_ = b - (a : Int)
  size : rr._size_ = b - (a : Int) + 10 + rdlengthAt data b
  rdlength : rr.rdlength = rdlengthAt data b
  rdata : rr.rdata = if rdlengthAt data b = 0 then ['0'.toUInt8]
    else (data.drop (b + 10)).take (rdlengthAt data b)

/-- A record is decoded when its name is and its fixed part lies in the data. -/
theorem rr_of_name {depth b : Nat} {offset : Option Nat} {strerror : List StrError} {name : Name}
    (decoded : kDec_DNS_Name data depth (some (offset.getD 0)) = some (strerror, some name))
    (size : name._size_ = b - (offset.getD 0 : Int)) :
    (data.length < b + 10 →
        ∃ strerror, kDec_DNS_RR data depth offset = some (strerror, none)) ∧
      (b + 10 ≤ data.length → ∃ rr, kDec_DNS_RR data depth offset = some (strerror, some rr) ∧
        rr.At data (offset.getD 0) b) := by
  have start : (offset.getD 0 : Int) + name._size_ = b := by omega
  simp only [kDec_DNS_RR, decoded, start, Int.toNat_natCast]
  constructor
  · intro short
    rw [if_pos (by omega)]
    exact ⟨_, rfl⟩
  · intro fixed
    rw [if_neg (by omega)]
    exact ⟨_, rfl, size, by rw [← size]; rfl, rfl, rfl⟩

theorem rr_decoded {depth : Nat} {offset : Option Nat} {strerror : List StrError} {rr : RR}
    (decoded : kDec_DNS_RR data depth offset = some (strerror, some rr)) :
    ∃ b, NameAt data (offset.getD 0) b ∧ b + 10 ≤ data.length ∧ rr.At data (offset.getD 0) b := by
  cases called : kDec_DNS_Name data depth (some (offset.getD 0)) with
  | none => simp [kDec_DNS_RR, called] at decoded
  | some outcome =>
      obtain ⟨strerror', _ | name⟩ := outcome
      · simp [kDec_DNS_RR, called] at decoded
      · obtain ⟨b, at_b, size⟩ := nameAt_of_decoded called
        obtain ⟨short, whole⟩ := rr_of_name called size
        obtain less | fixed := Nat.lt_or_ge data.length (b + 10)
        · obtain ⟨_, failed⟩ := short less
          simp [failed] at decoded
        · obtain ⟨rr', eq, fields⟩ := whole fixed
          simp only [eq, Option.some.injEq, Prod.mk.injEq] at decoded
          obtain ⟨-, rfl⟩ := decoded
          exact ⟨b, at_b, fixed, fields⟩

/-- The octets behind the fixed part are there, and there is one at least. -/
theorem RR.At.fits_iff {rr : RR} {a b : Nat} (fields : rr.At data a b) :
    (a + rr._size_ ≤ data.length ∧ rr.rdata.length = rr.rdlength ∧
        rr.rdata = (data.drop (a + rr.name._size_ + 10).toNat).take rr.rdlength) ↔
      0 < rdlengthAt data b ∧ b + 10 + rdlengthAt data b ≤ data.length := by
  have behind : (a + rr.name._size_ + 10).toNat = b + 10 := by rw [fields.name]; omega
  rw [behind, fields.size, fields.rdlength, fields.rdata]
  split
  next none => simp [none]
  next some =>
    constructor
    · intro ⟨bound, _⟩
      omega
    · intro ⟨_, bound⟩
      exact ⟨by omega, List.length_take_of_le (by rw [List.length_drop]; omega), rfl⟩

namespace Decoder

variable (data : List UInt8) (offset : Option Nat)

theorem bounded_rr_iff : rr.Bounded data offset ↔ rr.Right data offset := by
  constructor
  · intro bounded b name fixed
    obtain ⟨depth, strerror, result, decoded, size⟩ := (name.left none).decoded
    obtain ⟨rr, eq, fields⟩ := (rr_of_name decoded size).2 fixed
    exact fields.fits_iff.mp (bounded depth strerror rr eq)
  · intro right depth strerror rr decoded
    obtain ⟨b, name, fixed, fields⟩ := rr_decoded decoded
    exact fields.fits_iff.mpr (right b name fixed)

theorem bounded_txt_iff (rdlength : Nat) :
    (txt rdlength).Bounded data offset ↔ (txt rdlength).Right data offset := by
  constructor
  · intro bounded
    refine ⟨fun crosses => ?_, fun nothing => ?_⟩
    · obtain ⟨strerror, result, decoded, past⟩ :=
        crosses.decoded (Nat.sub_zero rdlength).symm kInit_DNS_Error []
      have size := (bounded strerror result (by rw [kDec_DNS_RDATA_TXT, decoded])).2
      omega
    · have decoded : kDec_DNS_RDATA_TXT data rdlength (offset.getD 0) =
          some (kInit_DNS_Error, some ⟨0, []⟩) := by
        rw [kDec_DNS_RDATA_TXT, decTexts, if_neg (by omega)]
        rfl
      have bound := (bounded _ _ decoded).1
      simp only at bound
      omega
  · intro ⟨tiled, inside⟩ strerror result decoded
    simp only [kDec_DNS_RDATA_TXT, Option.some.injEq] at decoded
    obtain ⟨ends, bound⟩ := texts_decoded (Nat.zero_le _) decoded
    have size := ends.resolve_right tiled
    refine ⟨?_, size⟩
    obtain nothing | some := Nat.eq_zero_or_pos rdlength
    · have inside := inside nothing
      omega
    · have bound := bound some
      omega

/-- Names, strings and questions are bounded whatever the data are. Records are when they have
    octets of data and have as many as they say, texts when they end where they should. -/
theorem bounded_iff (decoder : Decoder) :
    decoder.Bounded data offset ↔ decoder.Right data offset := by
  cases decoder with
  | name =>
      refine iff_of_true (fun depth strerror result decoded => ?_) trivial
      have defaulted : kDec_DNS_Name data depth (some (offset.getD 0)) =
          kDec_DNS_Name data depth offset := by cases depth <;> rfl
      obtain ⟨b, name, size⟩ := nameAt_of_decoded (defaulted.trans decoded)
      have le := name.le
      omega
  | string =>
      refine iff_of_true (fun strerror result decoded => ?_) trivial
      obtain ⟨len, _, inside, size⟩ := string_decoded decoded
      omega
  | question =>
      refine iff_of_true (fun depth strerror result decoded => ?_) trivial
      unfold kDec_DNS_Question callUnless at decoded
      split at decoded
      · cases decoded
      · cases decoded
      next strerror' name called =>
        simp only at decoded
        split_ifs at decoded with short
        · cases decoded
        · simp only [Option.some.injEq, Prod.mk.injEq] at decoded
          obtain ⟨-, rfl⟩ := decoded
          simp only
          omega
  | rr => exact bounded_rr_iff data offset
  | txt rdlength => exact bounded_txt_iff data offset rdlength

/-- A record of the root that says that it has five octets of data and ends. -/
theorem not_bounded :
    ¬ ∀ (data : List UInt8) (offset : Option Nat) (decoder : Decoder),
      decoder.Bounded data offset := by
  intro all
  have right := (bounded_rr_iff [0, 0, 1, 0, 1, 0, 0, 0, 0, 0, 5] none).mp (all _ _ .rr)
  exact absurd (right 1 (.empty rfl) (by decide)).2 (by decide)

end Decoder

end Tahi.Dns
