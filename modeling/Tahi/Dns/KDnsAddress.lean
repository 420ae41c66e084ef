import Mathlib
import Tahi.Dns.KDnsRdata
import Tahi.General.PerlHex

/-! # The data of AAAA records

An address is written in groups of hexadecimal digits. Two colons stand for a run of groups that
are zero.
-/

namespace Tahi.Dns

open Perl

def colon : UInt8 := 0x3a

/-- The variables of the loop over the groups between the first and the last one. -/
structure Abbreviation where
  _address_ : List UInt8 := []
  abbr : ℕ := 0
  compress : ℕ := 0
  cont : ℕ := 0
deriving DecidableEq, Repr

def Abbreviation.step (s : Abbreviation) (element : ℕ) : Abbreviation :=
  let s := if s.abbr = 0 ∧ element = 0 then
    { s with abbr := s.abbr + 1, compress := s.compress + 1 } else s
  let s := if element ≠ 0 then { s with compress := 0, cont := 0 } else s
  if s.compress ≠ 0 then
    if s.cont = 0 then { s with _address_ := s._address_ ++ [colon], cont := s.cont + 1 } else s
  else { s with _address_ := s._address_ ++ colon :: sprintfHex element }

def address (elements : List ℕ) : List UInt8 :=
  let _address_ := (elements.tail.dropLast.foldl Abbreviation.step {})._address_ ++ [colon]
  let first := elements.headD 0
  let last := elements.getLastD 0
  let _address_ := if first = 0 ∧ [colon, colon] <+: _address_ then _address_
    else sprintfHex first ++ _address_
  if last = 0 ∧ [colon, colon] <:+ _address_ then _address_ else _address_ ++ sprintfHex last

/-- The hash `kDec_DNS_RDATA_AAAA` returns. -/
structure AAAA where
  _size_ : ℕ
  address : List UInt8
deriving DecidableEq, Repr

def kDec_DNS_RDATA_AAAA (data : List UInt8) (offset : Option ℕ) : Outcome AAAA :=
  let strerror := kInit_DNS_Error
  let _offset_ := offset.getD 0
  if data.length < _offset_ + 16 then
    (kReg_DNS_Error strerror 1956 "kDec_DNS_RDATA_AAAA" "$data -- requires 16 bytes.", none)
  else
    let elements := (List.range 8).map fun i => field data (_offset_ + 2 * i) 2
    (strerror, some ⟨16, address elements⟩)

/-! ## Reading an address -/

/-- `\s` -/
def IsSpace (c : UInt8) : Prop := c ∈ [0x20, 0x09, 0x0a, 0x0c, 0x0d]

instance decidableIsSpace : DecidablePred IsSpace := fun c => by
  unfold IsSpace
  infer_instance

/-- `[0-9A-Za-z:]` -/
def IsAddressChar (c : UInt8) : Prop :=
  0x30 ≤ c ∧ c ≤ 0x39 ∨ 0x41 ≤ c ∧ c ≤ 0x5a ∨ 0x61 ≤ c ∧ c ≤ 0x7a ∨ c = colon

instance decidableIsAddressChar : DecidablePred IsAddressChar := fun c => by
  unfold IsAddressChar
  infer_instance

/-- What the parentheses of the pattern match. -/
def trimmed (s : List UInt8) : Option (List UInt8) :=
  let s := (s.dropWhile (IsSpace ·)).rdropWhile (IsSpace ·)
  if s ≠ [] ∧ ∀ c ∈ s, IsAddressChar c then some s else none

/-- What is in front of the first two colons, and what is behind them. -/
@[grind =]
def cut : List UInt8 → List UInt8 × Option (List UInt8)
  | [] => ([], none)
  | c :: s =>
      if c = colon ∧ s.head? = some colon then ([], some s.tail)
      else (c :: (cut s).1, (cut s).2)

def kGen_DNS_RDATA_AAAA (address : Option (List UInt8)) : Option (List UInt8) :=
  (trimmed (address.getD [colon, colon])).map fun s =>
    let upper := (cut s).1
    -- A third field is not used.
    let lower := (cut s).2.map fun s => (cut s).1
    let up := split colon (some upper)
    let low := split colon lower
    let zeros := List.replicate (8 - low.length - up.length) ['0'.toUInt8]
    let elements := (up ++ zeros ++ low).map hexNumber
    ((elements ++ List.replicate 8 0).take 8).flatMap (packInt 2)

/-! ## Groups and texts -/

/-- Groups with a colon before each. -/
def behindColons (l : List ℕ) : List UInt8 := l.flatMap fun n => colon :: sprintfHex n

/-- Groups with a colon between them. -/
@[grind =]
def joined : List ℕ → List UInt8
  | [] => []
  | n :: l => sprintfHex n ++ behindColons l

@[simp] theorem behindColons_nil : behindColons [] = [] := rfl

@[simp] theorem behindColons_cons (n : ℕ) (l : List ℕ) :
    behindColons (n :: l) = colon :: joined (n :: l) := by
  rw [behindColons, List.flatMap_cons]
  rfl

theorem behindColons_append (l l' : List ℕ) :
    behindColons (l ++ l') = behindColons l ++ behindColons l' := List.flatMap_append

theorem joined_cons (n : ℕ) (l : List ℕ) : joined (n :: l) = sprintfHex n ++ behindColons l := rfl

theorem joined_eq_intercalate (l : List ℕ) :
    joined l = [colon].intercalate (l.map sprintfHex) := by
  induction l with
  | nil => rfl
  | cons n l ih =>
      cases l with
      | nil => simp [joined]
      | cons m l =>
          rw [joined_cons, behindColons_cons, ih]
          simp [List.intercalate]

/-- The texts of addresses: all groups, or those before a run of zeros and those behind it. -/
inductive Written : List ℕ → List UInt8 → Prop
  | whole (n : ℕ) (l : List ℕ) : Written (n :: l) (joined (n :: l))
  | short (up low : List ℕ) (k : ℕ) :
      Written (up ++ List.replicate k 0 ++ low) (joined up ++ colon :: colon :: joined low)

/-! ## What the loop writes -/

namespace Abbreviation

/-- Before the first zero every group is written. -/
theorem run_before {l : List ℕ} (nonzero : ∀ n ∈ l, n ≠ 0) (text : List UInt8) :
    l.foldl step ⟨text, 0, 0, 0⟩ = ⟨text ++ behindColons l, 0, 0, 0⟩ := by
  induction l generalizing text with
  | nil => simp
  | cons n l ih =>
      have positive := nonzero n List.mem_cons_self
      have step : step ⟨text, 0, 0, 0⟩ n = ⟨text ++ colon :: sprintfHex n, 0, 0, 0⟩ := by
        simp [step, positive]
      rw [List.foldl_cons, step, ih fun m mem => nonzero m (List.mem_cons_of_mem n mem),
        behindColons_cons, joined_cons, List.append_assoc, List.cons_append]

/-- In the run it is one colon. -/
theorem run_zeros (k : ℕ) (text : List UInt8) :
    (List.replicate (k + 1) 0).foldl step ⟨text, 0, 0, 0⟩ = ⟨text ++ [colon], 1, 1, 1⟩ := by
  have more : (List.replicate k 0).foldl step ⟨text ++ [colon], 1, 1, 1⟩ =
      ⟨text ++ [colon], 1, 1, 1⟩ := by
    induction k with
    | zero => rfl
    | succ k ih =>
        rw [List.replicate_succ, List.foldl_cons]
        exact ih
  rw [List.replicate_succ, List.foldl_cons]
  exact more

/-- Once there has been a run, later groups are written, whether they are zero or not. -/
theorem run_behind (l : List ℕ) {s : Abbreviation} (abbr : s.abbr ≠ 0) (compress : s.compress = 0) :
    (l.foldl step s)._address_ = s._address_ ++ behindColons l := by
  induction l generalizing s with
  | nil => simp
  | cons n l ih =>
      have address : (s.step n)._address_ = s._address_ ++ colon :: sprintfHex n := by
        unfold step
        by_cases zero : n = 0 <;> simp [abbr, compress, zero]
      have abbr' : (s.step n).abbr ≠ 0 := by
        unfold step
        by_cases zero : n = 0 <;> simp [abbr, compress, zero]
      have compress' : (s.step n).compress = 0 := by
        unfold step
        by_cases zero : n = 0 <;> simp [abbr, compress, zero]
      rw [List.foldl_cons, ih abbr' compress', address, behindColons_cons, joined_cons,
        List.append_assoc, List.cons_append]

theorem run_short {before behind : List ℕ} (k : ℕ) (nonzero : ∀ n ∈ before, n ≠ 0)
    (ends : behind.head? ≠ some 0) :
    ((before ++ List.replicate (k + 1) 0 ++ behind).foldl step {})._address_ =
      behindColons before ++ colon :: behindColons behind := by
  rw [List.foldl_append, List.foldl_append, run_before nonzero, run_zeros, List.nil_append]
  cases behind with
  | nil => simp
  | cons n behind =>
      have positive : n ≠ 0 := by
        rintro rfl
        exact ends rfl
      have step : step ⟨behindColons before ++ [colon], 1, 1, 1⟩ n =
          ⟨behindColons before ++ [colon] ++ colon :: sprintfHex n, 1, 0, 0⟩ := by
        simp [step, positive]
      rw [List.foldl_cons, step, run_behind _ (by simp) rfl]
      simp [joined_cons]

end Abbreviation

theorem exists_zeros (l : List ℕ) :
    ∃ k behind, l = List.replicate k 0 ++ behind ∧ behind.head? ≠ some 0 := by
  induction l with
  | nil => exact ⟨0, [], rfl, by simp⟩
  | cons n l ih =>
      by_cases zero : n = 0
      · obtain ⟨k, behind, rfl, ends⟩ := ih
        exact ⟨k + 1, behind, by rw [zero]; rfl, ends⟩
      · exact ⟨0, n :: l, rfl, by simpa using zero⟩

/-- The first run of zeros. -/
theorem exists_run (l : List ℕ) :
    (∀ n ∈ l, n ≠ 0) ∨ ∃ before k behind, l = before ++ List.replicate (k + 1) 0 ++ behind ∧
      (∀ n ∈ before, n ≠ 0) ∧ behind.head? ≠ some 0 := by
  induction l with
  | nil => exact .inl (by simp)
  | cons n l ih =>
      by_cases zero : n = 0
      · obtain ⟨k, behind, rfl, ends⟩ := exists_zeros l
        exact .inr ⟨[], k, behind, by rw [zero]; rfl, by simp, ends⟩
      · obtain none | ⟨before, k, behind, rfl, nonzero, ends⟩ := ih
        · exact .inl (by simpa [zero] using none)
        · exact .inr ⟨n :: before, k, behind, rfl, by simpa [zero] using nonzero, ends⟩

/-! ## Colons -/

theorem colon_not_mem (n : ℕ) : colon ∉ sprintfHex n := fun mem =>
  absurd (isHexChar_sprintfHex n colon mem) (by decide)

theorem head_sprintfHex (n : ℕ) (s : List UInt8) : (sprintfHex n ++ s).head? ≠ some colon := by
  rw [List.head?_append_of_ne_nil _ (sprintfHex_ne_nil n)]
  exact fun head => colon_not_mem n (List.mem_of_head? head)

theorem last_behindColons (s : List UInt8) {l : List ℕ} (some : l ≠ []) :
    (s ++ behindColons l).getLast? ≠ .some colon := by
  obtain ⟨front, n, rfl⟩ := List.eq_nil_or_concat' l |>.resolve_left some
  have last : behindColons [n] = [colon] ++ sprintfHex n := by simp [joined]
  rw [behindColons_append, last, ← List.append_assoc, ← List.append_assoc,
    List.getLast?_append_of_ne_nil _ (sprintfHex_ne_nil n)]
  exact fun last => colon_not_mem n (List.mem_of_getLast? last)

/-- There are not two colons in front of a group. -/
theorem not_two_colons_first (n : ℕ) (l : List ℕ) (s : List UInt8) :
    ¬ [colon, colon] <+: behindColons (n :: l) ++ s := by
  rw [behindColons_cons, joined_cons, List.cons_append, List.append_assoc]
  rintro ⟨rest, eq⟩
  have head := head_sprintfHex n (behindColons l ++ s)
  rw [← List.tail_eq_of_cons_eq eq] at head
  exact head rfl

/-- Nor are there two behind a group. -/
theorem not_two_colons_last (s : List UInt8) {l : List ℕ} (some : l ≠ []) :
    ¬ [colon, colon] <:+ s ++ behindColons l ++ [colon] := by
  rintro ⟨front, eq⟩
  have same : (front ++ [colon]) ++ [colon] = (s ++ behindColons l) ++ [colon] := by
    simpa using eq
  have last := last_behindColons s some
  rw [← List.append_cancel_right same] at last
  exact last (by simp)

theorem two_colons_first (before behind : List ℕ) :
    [colon, colon] <+: behindColons before ++ colon :: (behindColons behind ++ [colon]) ↔
      before = [] := by
  cases before with
  | nil => cases behind <;> simp
  | cons n before => exact iff_of_false (not_two_colons_first n before _) (by simp)

theorem two_colons_last (s : List UInt8) (behind : List ℕ) :
    [colon, colon] <:+ s ++ colon :: (behindColons behind ++ [colon]) ↔ behind = [] := by
  constructor
  · intro suffix
    by_contra some
    refine not_two_colons_last (s ++ [colon]) some ?_
    simpa using suffix
  · rintro rfl
    exact ⟨s, by simp⟩

/-! ## What is written -/

theorem address_eq (first last : ℕ) (middle : List ℕ) :
    address (first :: (middle ++ [last])) =
      let text := (middle.foldl Abbreviation.step {})._address_ ++ [colon]
      let text := if first = 0 ∧ [colon, colon] <+: text then text else sprintfHex first ++ text
      if last = 0 ∧ [colon, colon] <:+ text then text else text ++ sprintfHex last := by
  have final : (first :: (middle ++ [last])).getLastD 0 = last := by
    rw [← List.cons_append, List.getLastD_concat]
  simp only [address, List.tail_cons, List.dropLast_concat, List.headD_cons, final]

/-- The text of the groups without a zero between the first and the last. -/
theorem address_whole (first last : ℕ) {middle : List ℕ} (some : middle ≠ [])
    (nonzero : ∀ n ∈ middle, n ≠ 0) :
    address (first :: (middle ++ [last])) = joined (first :: (middle ++ [last])) := by
  have run : (middle.foldl Abbreviation.step {})._address_ = behindColons middle := by
    rw [show ({} : Abbreviation) = ⟨[], 0, 0, 0⟩ from rfl, Abbreviation.run_before nonzero,
      List.nil_append]
  have start : ¬ [colon, colon] <+: behindColons middle ++ [colon] := by
    obtain ⟨n, l, rfl⟩ := List.exists_cons_of_ne_nil some
    exact not_two_colons_first n l [colon]
  have finish := not_two_colons_last (sprintfHex first) some
  rw [address_eq]
  simp only [run, start, and_false, if_false, ← List.append_assoc, finish]
  simp [behindColons_append, joined]

/-- The text of the groups with a run of zeros between the first and the last. -/
theorem address_short (first last k : ℕ) {before behind : List ℕ}
    (nonzero : ∀ n ∈ before, n ≠ 0) (ends : behind.head? ≠ some 0) :
    address (first :: (before ++ List.replicate (k + 1) 0 ++ behind ++ [last])) =
      joined (if first = 0 ∧ before = [] then [] else first :: before) ++
        colon :: colon :: joined (if last = 0 ∧ behind = [] then [] else behind ++ [last]) := by
  rw [address_eq]
  simp only [Abbreviation.run_short k nonzero ends]
  simp only [List.append_assoc, List.cons_append, two_colons_first]
  have front : (if first = 0 ∧ before = [] then
        behindColons before ++ colon :: (behindColons behind ++ [colon])
      else sprintfHex first ++ (behindColons before ++ colon :: (behindColons behind ++ [colon]))) =
      joined (if first = 0 ∧ before = [] then [] else first :: before) ++
        colon :: (behindColons behind ++ [colon]) := by
    split
    next zero => rw [zero.2]; rfl
    next => rw [joined_cons, List.append_assoc]
  rw [front]
  simp only [two_colons_last]
  split
  next zero => rw [zero.2]; rfl
  next =>
    obtain ⟨n, l, low⟩ := List.exists_cons_of_ne_nil (List.concat_ne_nil last behind)
    have text : behindColons behind ++ colon :: sprintfHex last =
        colon :: joined (behind ++ [last]) := by
      rw [low, ← behindColons_cons, ← low, behindColons_append]
      simp [joined]
    rw [List.append_assoc, List.cons_append, List.append_assoc, List.singleton_append, text]

theorem written_address (first last : ℕ) {middle : List ℕ} (some : middle ≠ []) :
    Written (first :: (middle ++ [last])) (address (first :: (middle ++ [last]))) := by
  obtain nonzero | ⟨before, k, behind, rfl, nonzero, ends⟩ := exists_run middle
  · rw [address_whole first last some nonzero]
    exact .whole first (middle ++ [last])
  · rw [address_short first last k nonzero ends]
    -- A zero before the run and a zero behind it belong to the run.
    have front : ∃ k', first :: (before ++ List.replicate (k + 1) 0) =
        (if first = 0 ∧ before = [] then [] else first :: before) ++ List.replicate k' 0 := by
      split
      next zero => exact ⟨k + 2, by rw [zero.1, zero.2]; rfl⟩
      next => exact ⟨k + 1, rfl⟩
    obtain ⟨k', front⟩ := front
    have back : ∃ k'', List.replicate k' 0 ++ behind ++ [last] = List.replicate k'' 0 ++
        (if last = 0 ∧ behind = [] then [] else behind ++ [last]) := by
      split
      next zero =>
        refine ⟨k' + 1, ?_⟩
        rw [zero.1, zero.2, List.append_nil, List.append_nil, List.replicate_succ']
      next => exact ⟨k', List.append_assoc ..⟩
    obtain ⟨k'', back⟩ := back
    have groups : first :: (before ++ List.replicate (k + 1) 0 ++ behind ++ [last]) =
        (if first = 0 ∧ before = [] then [] else first :: before) ++ List.replicate k'' 0 ++
          (if last = 0 ∧ behind = [] then [] else behind ++ [last]) := by
      rw [List.append_assoc _ behind, ← List.cons_append, front, List.append_assoc,
        ← List.append_assoc (List.replicate k' 0), back, List.append_assoc]
    rw [groups]
    exact .short _ _ k''

/-! ## Reading what is written -/

/-- Two colons stand at `i`. -/
def TwoColonsAt (s : List UInt8) (i : ℕ) : Prop := s[i]? = some colon ∧ s[i + 1]? = some colon

theorem not_twoColonsAt_cons {c : UInt8} {s : List UInt8} (none : ∀ i, ¬ TwoColonsAt s i)
    (apart : c ≠ colon ∨ s.head? ≠ some colon) (i : ℕ) : ¬ TwoColonsAt (c :: s) i := by
  intro ⟨first, second⟩
  cases i with
  | zero =>
      have same : c = colon := by simpa using first
      rw [List.getElem?_cons_succ, ← List.head?_eq_getElem?] at second
      exact apart.elim (· same) (· second)
  | succ i => exact none i ⟨by simpa using first, by simpa using second⟩

theorem not_twoColonsAt_word (n : ℕ) {s : List UInt8} (none : ∀ i, ¬ TwoColonsAt s i) (i : ℕ) :
    ¬ TwoColonsAt (sprintfHex n ++ s) i := by
  have digits := colon_not_mem n
  generalize sprintfHex n = word at digits ⊢
  induction word generalizing i with
  | nil => exact none i
  | cons c word ih =>
      simp only [List.mem_cons, not_or] at digits
      exact not_twoColonsAt_cons (ih · digits.2) (.inl (Ne.symm digits.1)) i

theorem not_twoColonsAt_behindColons (l : List ℕ) (i : ℕ) :
    ¬ TwoColonsAt (behindColons l ++ [colon]) i := by
  induction l generalizing i with
  | nil => exact not_twoColonsAt_cons (by simp [TwoColonsAt]) (.inr (by simp)) i
  | cons n l ih =>
      rw [behindColons_cons, joined_cons, List.cons_append, List.append_assoc]
      exact not_twoColonsAt_cons (not_twoColonsAt_word n ih) (.inr (head_sprintfHex n _)) i

theorem not_twoColonsAt_joined (l : List ℕ) (i : ℕ) : ¬ TwoColonsAt (joined l ++ [colon]) i := by
  cases l with
  | nil => exact not_twoColonsAt_behindColons [] i
  | cons n l =>
      rw [joined_cons, List.append_assoc]
      exact not_twoColonsAt_word n (not_twoColonsAt_behindColons l) i

theorem cut_one {s : List UInt8} (none : ∀ i, ¬ TwoColonsAt s i) : cut s = (s, .none) := by
  induction s with
  | nil => rfl
  | cons c s ih =>
      have rest : ∀ i, ¬ TwoColonsAt s i := fun i two =>
        none (i + 1) ⟨by simpa using two.1, by simpa using two.2⟩
      have apart : ¬ (c = colon ∧ s.head? = some colon) := fun ⟨first, second⟩ =>
        none 0 ⟨by simpa using first, by simpa [List.head?_eq_getElem?] using second⟩
      rw [cut, if_neg apart, ih rest]

theorem cut_two {s : List UInt8} (none : ∀ i, ¬ TwoColonsAt (s ++ [colon]) i) (t : List UInt8) :
    cut (s ++ colon :: colon :: t) = (s, some t) := by
  induction s with
  | nil => simp [cut]
  | cons c s ih =>
      have rest : ∀ i, ¬ TwoColonsAt (s ++ [colon]) i := fun i two =>
        none (i + 1) ⟨by simpa using two.1, by simpa using two.2⟩
      have head : (s ++ colon :: colon :: t).head? = (s ++ [colon])[0]? := by cases s <;> simp
      have apart : ¬ (c = colon ∧ (s ++ colon :: colon :: t).head? = some colon) :=
        fun ⟨first, second⟩ => none 0 ⟨by simpa using first, by simpa [head] using second⟩
      rw [List.cons_append, cut, if_neg apart, ih rest]

theorem TwoColonsAt.append {s : List UInt8} {i : ℕ} (two : TwoColonsAt s i) (t : List UInt8) :
    TwoColonsAt (s ++ t) i := by
  refine ⟨?_, ?_⟩
  · rw [List.getElem?_append_left (List.getElem?_eq_some_iff.mp two.1).1]
    exact two.1
  · rw [List.getElem?_append_left (List.getElem?_eq_some_iff.mp two.2).1]
    exact two.2

theorem cut_joined (l : List ℕ) : cut (joined l) = (joined l, none) :=
  cut_one fun i two => not_twoColonsAt_joined l i (two.append [colon])

theorem split_joined (l : List ℕ) : split colon (some (joined l)) = l.map sprintfHex := by
  rw [joined_eq_intercalate]
  refine (split_intercalate colon ?_ ?_).1
  · intro field mem
    obtain ⟨n, -, rfl⟩ := List.mem_map.mp mem
    exact colon_not_mem n
  · intro field mem
    obtain ⟨n, -, rfl⟩ := List.mem_map.mp mem
    exact sprintfHex_ne_nil n

theorem isAddressChar_joined (l : List ℕ) : ∀ c ∈ joined l, IsAddressChar c := by
  have char (c : UInt8) (hex : IsHexChar c) : IsAddressChar c := by
    obtain ⟨least, most⟩ | ⟨least, most⟩ | ⟨least, most⟩ := hex
    · exact .inl ⟨least, most⟩
    · exact .inr (.inl ⟨least, UInt8.le_trans most (by decide)⟩)
    · exact .inr (.inr (.inl ⟨least, UInt8.le_trans most (by decide)⟩))
  have behind : ∀ l : List ℕ, ∀ c ∈ behindColons l, IsAddressChar c := by
    intro l c mem
    obtain ⟨n, -, mem⟩ := List.mem_flatMap.mp mem
    obtain rfl | mem := List.mem_cons.mp mem
    · decide
    · exact char c (isHexChar_sprintfHex n c mem)
  intro c mem
  cases l with
  | nil => cases mem
  | cons n l =>
      obtain mem | mem := List.mem_append.mp mem
      · exact char c (isHexChar_sprintfHex n c mem)
      · exact behind l c mem

theorem trimmed_of_isAddressChar {s : List UInt8} (some : s ≠ [])
    (chars : ∀ c ∈ s, IsAddressChar c) : trimmed s = .some s := by
  have space (c : UInt8) (mem : c ∈ s) : ¬ IsSpace c := by
    intro space
    have char := chars c mem
    simp only [IsSpace, List.mem_cons, List.not_mem_nil, or_false] at space
    obtain rfl | rfl | rfl | rfl | rfl := space <;> exact absurd char (by decide)
  have left : s.dropWhile (IsSpace ·) = s := by
    rw [List.dropWhile_eq_self_iff]
    intro some
    simpa using space _ (List.getElem_mem some)
  have right : s.rdropWhile (IsSpace ·) = s := by
    rw [List.rdropWhile_eq_self_iff]
    intro some
    simpa using space _ (List.getLast_mem some)
  simp only [trimmed, left, right]
  rw [if_pos ⟨some, chars⟩]

theorem twoColonsAt_short {up low : List ℕ} {i : ℕ}
    (two : TwoColonsAt (joined up ++ colon :: colon :: joined low) i) : i = (joined up).length := by
  have cut : joined up ++ colon :: colon :: joined low =
      (joined up ++ [colon]) ++ colon :: joined low := by simp
  have length : (joined up ++ [colon]).length = (joined up).length + 1 := by simp
  rw [cut] at two
  obtain less | equal | greater := Nat.lt_trichotomy i (joined up).length
  · refine absurd ⟨?_, ?_⟩ (not_twoColonsAt_joined up i)
    · exact (List.getElem?_append_left (by omega)).symm.trans two.1
    · exact (List.getElem?_append_left (by omega)).symm.trans two.2
  · exact equal
  · have behind : TwoColonsAt (colon :: joined low) (i - (joined up ++ [colon]).length) := by
      refine ⟨?_, ?_⟩
      · rw [← two.1, List.getElem?_append_right (by omega)]
      · rw [← two.2, List.getElem?_append_right (by omega), Nat.sub_add_comm (by omega)]
    cases low with
    | nil => exact absurd behind (not_twoColonsAt_behindColons [] _)
    | cons n low =>
        rw [← behindColons_cons] at behind
        exact absurd (behind.append [colon]) (not_twoColonsAt_behindColons _ _)

/-- Whatever groups a text is written of, two colons stand in it once at most. -/
theorem Written.twoColonsAt {elements : List ℕ} {text : List UInt8} (written : Written elements text)
    {i j : ℕ} (first : TwoColonsAt text i) (second : TwoColonsAt text j) : i = j := by
  cases written with
  | whole n l => exact absurd (first.append [colon]) (not_twoColonsAt_joined _ i)
  | short up low k => rw [twoColonsAt_short first, twoColonsAt_short second]

theorem hexNumbers (l : List ℕ) : (l.map sprintfHex).map hexNumber = l := by
  rw [List.map_map]
  exact (List.map_congr_left fun n _ => hexNumber_sprintfHex n).trans (List.map_id _)

/-- Eight groups are read as they were written. -/
theorem Written.generated {elements : List ℕ} {text : List UInt8} (written : Written elements text)
    (eight : elements.length = 8) :
    kGen_DNS_RDATA_AAAA (some text) = some (elements.flatMap (packInt 2)) := by
  have filled : (elements ++ List.replicate 8 0).take 8 = elements := List.take_left' eight
  have zero : hexNumber ['0'.toUInt8] = 0 := by decide
  cases written with
  | whole n l =>
      have some : joined (n :: l) ≠ [] := by simp [joined_cons, sprintfHex_ne_nil]
      rw [kGen_DNS_RDATA_AAAA, Option.getD_some,
        trimmed_of_isAddressChar some (isAddressChar_joined _), Option.map_some]
      simp only [cut_joined, Option.map_none, split_joined, List.length_map, eight]
      have none : split colon .none = [] := by simp [split]
      simp only [none, List.length_nil, Nat.sub_zero, Nat.sub_self, List.replicate_zero,
        List.append_nil, hexNumbers, filled]
  | short up low k =>
      have chars : ∀ c ∈ joined up ++ colon :: colon :: joined low, IsAddressChar c := by
        simp only [List.mem_append, List.mem_cons]
        rintro c (mem | rfl | rfl | mem)
        · exact isAddressChar_joined up c mem
        · decide
        · decide
        · exact isAddressChar_joined low c mem
      rw [kGen_DNS_RDATA_AAAA, Option.getD_some, trimmed_of_isAddressChar (by simp) chars,
        Option.map_some]
      simp only [cut_two (not_twoColonsAt_joined up), Option.map_some, cut_joined, split_joined,
        List.length_map]
      have length : 8 - low.length - up.length = k := by
        simp only [List.length_append, List.length_replicate] at eight
        omega
      simp only [length, List.map_append, hexNumbers, List.map_replicate, zero, filled]

/-! ## Records -/

/-- Two octets are the number that is made of them. -/
theorem packInt_field {data : List UInt8} {pos : ℕ} (inside : pos + 2 ≤ data.length) :
    packInt 2 (field data pos 2) = (data.drop pos).take 2 := by
  have length : 2 ≤ (data.drop pos).length := by rw [List.length_drop]; omega
  obtain ⟨a, behind, eq⟩ := List.exists_cons_of_length_pos (Nat.lt_of_lt_of_le Nat.two_pos length)
  rw [eq, List.length_cons] at length
  obtain ⟨b, rest, rfl⟩ := List.exists_cons_of_length_pos (Nat.le_of_succ_le_succ length)
  have number : field data pos 2 = 256 * a.toNat + b.toNat := by
    rw [field, eq]
    simp [Perl.be]
  have low := b.toNat_lt
  have first : UInt8.ofNat ((256 * a.toNat + b.toNat) / 256) = a := by
    rw [show (256 * a.toNat + b.toNat) / 256 = a.toNat by omega]
    exact UInt8.ofNat_toNat
  have second : UInt8.ofNat (256 * a.toNat + b.toNat) = b := by
    apply UInt8.toNat_inj.mp
    rw [UInt8.toNat_ofNat']
    omega
  rw [number, eq]
  simp [packInt, first, second]

theorem packInt_fields {data : List UInt8} {pos n : ℕ} (inside : pos + 2 * n ≤ data.length) :
    ((List.range n).map fun i => field data (pos + 2 * i) 2).flatMap (packInt 2) =
      (data.drop pos).take (2 * n) := by
  induction n with
  | zero => rfl
  | succ n ih =>
      rw [List.range_succ, List.map_append, List.flatMap_append, ih (by omega), List.map_singleton,
        List.flatMap_singleton, packInt_field (by omega), ← List.drop_drop, ← List.take_add]
      rfl

/-- The text of an address has two colons once at most and is read as the same octets. -/
theorem kGen_kDec_DNS_RDATA_AAAA (data : List UInt8) (offset : Option ℕ)
    (inside : offset.getD 0 + 16 ≤ data.length) :
    ∃ text, kDec_DNS_RDATA_AAAA data offset = (kInit_DNS_Error, some ⟨16, text⟩) ∧
      (∀ i j, TwoColonsAt text i → TwoColonsAt text j → i = j) ∧
      kGen_DNS_RDATA_AAAA (some text) = some ((data.drop (offset.getD 0)).take 16) := by
  let elements := (List.range 8).map fun i => field data (offset.getD 0 + 2 * i) 2
  have written : Written elements (address elements) := by
    have middle : (elements.drop 1).take 6 ≠ [] := List.cons_ne_nil _ _
    exact written_address (field data (offset.getD 0) 2) (field data (offset.getD 0 + 14) 2) middle
  refine ⟨address elements, ?_, fun i j => written.twoColonsAt, ?_⟩
  · rw [kDec_DNS_RDATA_AAAA, if_neg (Nat.not_lt.mpr inside)]
  · rw [written.generated (by simp [elements]), packInt_fields inside]

/-- `2001:db8::1:0:0:1`, whose second run of zeros is written out, behind another octet. -/
theorem kGen_kDec_DNS_RDATA_AAAA_two_runs :
    ∃ text, kDec_DNS_RDATA_AAAA
        [7, 0x20, 0x01, 0x0d, 0xb8, 0, 0, 0, 0, 0, 1, 0, 0, 0, 0, 0, 1] (some 1) =
          (kInit_DNS_Error, some ⟨16, text⟩) ∧
      (∀ i j, TwoColonsAt text i → TwoColonsAt text j → i = j) ∧
      kGen_DNS_RDATA_AAAA (some text) =
        some [0x20, 0x01, 0x0d, 0xb8, 0, 0, 0, 0, 0, 1, 0, 0, 0, 0, 0, 1] :=
  kGen_kDec_DNS_RDATA_AAAA [7, 0x20, 0x01, 0x0d, 0xb8, 0, 0, 0, 0, 0, 1, 0, 0, 0, 0, 0, 1] (some 1)
    (by decide)

end Tahi.Dns
