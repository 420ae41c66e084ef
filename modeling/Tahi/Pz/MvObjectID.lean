import Tahi.General.Base128
import Tahi.General.Decimal
import Tahi.General.Fields

/-! # Object identifiers as octets

`MvObjectID::asn1encode` goes over the arcs of a string. It copies each of them to a buffer of
32 characters, and writes those that need several groups of seven bits by shifts of the number.
What it writes into is a buffer of 128 octets. `none` stands for a run that leaves a buffer.
-/

namespace Tahi.Pz.MvObjectID

open Fields

def dot : UInt8 := 0x2e

def isOidStr (buf : List UInt8) : Bool :=
  if buf.head? = some dot ∨ buf.getLast? = some dot then false
  else buf.all fun c => !((c < 0x30 || 0x39 < c) && c ≠ dot)

/-- `>>` of an `int` that is not negative. The language leaves it open what comes of a count
    that is not below the width, if anything does. -/
structure Shift where
  shr : ℕ → ℕ → Option ℕ
  narrow : ∀ n count, count < 32 → shr n count = some (n >>> count)

/-- Nothing comes of it. -/
def Shift.trap : Shift where
  shr n count := if count < 32 then some (n >>> count) else none
  narrow _ _ below := if_pos below

/-- The count is taken modulo the width. -/
def Shift.masked : Shift where
  shr n count := some (n >>> (count % 32))
  narrow n count below := by rw [Nat.mod_eq_of_lt below]

/-- `dst[k] = o; k++`. -/
def put (dst : List UInt8) (o : UInt8) : Option (List UInt8) :=
  if dst.length < 128 then some (dst ++ [o]) else none

/-- The loop to the next dot, with `j` characters behind it. -/
def untilDot : List UInt8 → ℕ → ℕ
  | [], j => j
  | c :: src, j => if c = dot then j else untilDot src (j + 1)

/-- The loop that looks for the number of groups, with `rest` turns left. -/
def groups (s : Shift) (n : ℕ) : ℕ → ℕ → Option ℕ
  | 0, j => some j
  | rest + 1, j => do
      let shifted ← s.shr n (7 * j)
      if shifted = 0 then some j else groups s n rest (j + 1)

/-- The groups below `l`. -/
def putGroups (s : Shift) (n : ℕ) : ℕ → List UInt8 → Option (List UInt8)
  | 0, dst => some dst
  | l + 1, dst => do
      let shifted ← s.shr n (7 * l)
      let o := UInt8.ofNat (shifted &&& 0x7f)
      let o := if l ≠ 0 then o ||| 0x80 else o
      let dst ← put dst o
      putGroups s n l dst

/-- One arc, with `left` characters from its first one to the end of the string. `first_digit`
    is `none` as long as it is `-1`. -/
@[grind =]
def putArc (s : Shift) (left : ℕ) (buf0 : List UInt8) (first_digit : Option ℕ)
    (dst : List UInt8) : Option (Option ℕ × List UInt8) :=
  let n := (Decimal.atoi buf0).toNat
  if buf0.length < 32 then
    match first_digit with
    | none => some (some n, dst)
    | some first =>
        if dst.length = 0 then
          (put dst (UInt8.ofNat (first * 40 + n))).map fun dst => (some first, dst)
        else if 127 < n then do
          let j ← groups s n left 0
          let dst ← putGroups s n j dst
          pure (some first, dst)
        else (put dst (UInt8.ofNat n)).map fun dst => (some first, dst)
  else none

/-- The loop over the string, of which `src` is left. A turn goes on by a character at least. -/
def putArcs (s : Shift) : ℕ → List UInt8 → Option ℕ → List UInt8 → Option (List UInt8)
  | _, [], _, dst => some dst
  | 0, _ :: _, _, _ => none
  | fuel + 1, c :: src, first_digit, dst =>
      if c ≠ dot then do
        let buflen := untilDot src 1
        let (first_digit, dst) ←
          putArc s (c :: src).length ((c :: src).take buflen) first_digit dst
        putArcs s fuel (src.drop buflen) first_digit dst
      else putArcs s fuel src first_digit dst

/-- What is written, of which `*dstlen` is the length. -/
def asn1encode (s : Shift) (src : List UInt8) : Option (List UInt8) :=
  putArcs s src.length src none []

/-! ## Identifiers -/

/-- The numbers between the dots. -/
@[grind =]
def arcs (src : List UInt8) : List ℕ := (fields dot src).map Decimal.value

/-- The octets of an identifier: the first two arcs share one. -/
@[grind =]
def oidOctets : List ℕ → List UInt8
  | a :: b :: cs => UInt8.ofNat (40 * a + b) :: cs.flatMap Base128.octets
  | _ => []

example : oidOctets [1, 3, 6, 311] = [0x2b, 0x06, 0x82, 0x37] := by decide +kernel

/-! ## The groups of one arc -/

section Groups

variable {s : Shift} {n : ℕ}

theorem shiftRight_group (n l : ℕ) : n >>> (7 * l) = n / 128 ^ l := by
  rw [Nat.shiftRight_eq_div_pow, Nat.pow_mul]

theorem four_groups {g : ℕ} (below : n < 2 ^ 28) (left : ∀ r < g, n / 128 ^ r ≠ 0) : g ≤ 4 := by
  by_contra more
  apply left 4 (by omega)
  exact Nat.div_eq_of_lt below

/-- The number of groups is found while the count is below the width. -/
theorem groups_eq (below : n < 2 ^ 28) (rest j : ℕ) (left : ∀ r < j, n / 128 ^ r ≠ 0)
    (enough : n < 128 ^ (j + rest)) :
    ∃ g, groups s n rest j = some g ∧ n / 128 ^ g = 0 ∧ ∀ r < g, n / 128 ^ r ≠ 0 := by
  induction rest generalizing j with
  | zero => exact ⟨j, rfl, Nat.div_eq_of_lt enough, left⟩
  | succ rest ih =>
      have four := four_groups below left
      have shifted : s.shr n (7 * j) = some (n / 128 ^ j) := by
        rw [s.narrow n _ (by omega), shiftRight_group]
      by_cases gone : n / 128 ^ j = 0
      · exact ⟨j, by simp [groups, shifted, gone], gone, left⟩
      · have more : ∀ r < j + 1, n / 128 ^ r ≠ 0 := by
          intro r lt
          obtain lower | rfl := Nat.lt_succ_iff_lt_or_eq.mp lt
          · exact left r lower
          · exact gone
        obtain ⟨g, found, rest_⟩ := ih (j + 1) more (by rwa [Nat.add_right_comm])
        exact ⟨g, by simp [groups, shifted, gone, found], rest_⟩

/-- From 28 bits on a count of 35 is tried. -/
theorem groups_trap (large : 2 ^ 28 ≤ n) (rest : ℕ) : groups .trap n (rest + 6) 0 = none := by
  have left : ∀ r ≤ 4, n >>> (7 * r) ≠ 0 := by
    intro r le
    rw [Nat.shiftRight_eq_div_pow]
    apply Nat.ne_of_gt
    apply Nat.div_pos _ (Nat.two_pow_pos _)
    exact Nat.le_trans (Nat.pow_le_pow_right (by decide) (by omega)) large
  have zero : n ≠ 0 := by omega
  have one := left 1 (by decide)
  have two := left 2 (by decide)
  have three := left 3 (by decide)
  have four := left 4 (by decide)
  simp only [Nat.mul_one, Nat.reduceMul] at one two three four
  simp [groups, Shift.trap, zero, one, two, three, four]

theorem put_eq {dst : List UInt8} (room : dst.length < 128) (o : UInt8) :
    put dst o = some (dst ++ [o]) := if_pos room

theorem continued_octet {o : ℕ} (low : o < 128) :
    UInt8.ofNat o ||| 0x80 = UInt8.ofNat (o + 128) := by
  have all : ∀ i : Fin 128, UInt8.ofNat i ||| 0x80 = UInt8.ofNat (i + 128) := by decide +kernel
  exact all ⟨o, low⟩

theorem putGroups_step {l : ℕ} {dst : List UInt8} (small : l ≤ 4) (room : dst.length < 128) :
    putGroups s n (l + 1) dst = putGroups s n l (dst ++
      [if l ≠ 0 then UInt8.ofNat (n / 128 ^ l % 128 + 128) else UInt8.ofNat (n / 128 ^ l % 128)]) := by
  have shifted : s.shr n (7 * l) = some (n / 128 ^ l) := by
    rw [s.narrow n _ (by omega), shiftRight_group]
  have low : n / 128 ^ l &&& 0x7f = n / 128 ^ l % 128 := Nat.and_two_pow_sub_one_eq_mod _ 7
  rw [putGroups, shifted]
  simp only [Option.bind_eq_bind, Option.bind_some, low, put_eq room,
    continued_octet (Nat.mod_lt (n / 128 ^ l) (by decide : 0 < 128))]

/-- What has been written is the groups in front, down to the last one. -/
theorem putGroups_high (below : n < 2 ^ 28) (dst : List UInt8) {l : ℕ}
    (left : ∀ r < l + 1, n / 128 ^ r ≠ 0)
    (room : dst.length + (Base128.high (n / 128 ^ (l + 1))).length + (l + 1) ≤ 128) :
    putGroups s n (l + 1) (dst ++ Base128.high (n / 128 ^ (l + 1))) =
      some (dst ++ Base128.octets n) := by
  have four := four_groups below left
  have inside : (dst ++ Base128.high (n / 128 ^ (l + 1))).length < 128 := by
    rw [List.length_append]
    omega
  rw [putGroups_step (by omega) inside, List.append_assoc]
  induction l with
  | zero =>
      simp only [ne_eq, not_true_eq_false, if_false, Nat.pow_zero, Nat.div_one, Nat.zero_add,
        Nat.pow_one]
      rfl
  | succ l ih =>
      have more := Base128.high_step (left (l + 1) (by omega))
      rw [if_pos (Nat.succ_ne_zero l), ← more]
      have shorter := congrArg List.length more
      rw [List.length_append, List.length_singleton] at shorter
      have inside' : (dst ++ Base128.high (n / 128 ^ (l + 1))).length < 128 := by
        rw [List.length_append]
        omega
      rw [putGroups_step (by omega) inside', List.append_assoc]
      exact ih (fun r lt => left r (by omega)) (by omega) (by omega) inside'

/-- The octets of an arc that is too large for one of them. -/
theorem arc_groups (large : 127 < n) (below : n < 2 ^ 28) {rest : ℕ} (enough : n < 128 ^ rest)
    {dst : List UInt8} (room : (dst ++ Base128.octets n).length ≤ 128) :
    ((groups s n rest 0).bind fun j => putGroups s n j dst) =
      some (dst ++ Base128.octets n) := by
  obtain ⟨g, found, gone, left⟩ := groups_eq (s := s) below rest 0 (by simp) (by simpa using enough)
  rw [found, Option.bind_some]
  cases g with
  | zero =>
      rw [Nat.pow_zero, Nat.div_one] at gone
      omega
  | succ g =>
      have size := Base128.length_high gone left
      have first := Base128.high_step (n := n) (l := 0) (by simpa using (by omega : n ≠ 0))
      have written := putGroups_high (s := s) below dst left
      rw [gone, Base128.high_zero, List.append_nil, List.length_nil] at written
      apply written
      rw [Nat.pow_zero, Nat.div_one] at first
      have sizes := congrArg List.length first
      simp only [Base128.octets, List.length_append, List.length_singleton, Nat.zero_add,
        Nat.pow_one] at sizes room ⊢
      omega

end Groups

/-! ## One arc -/

/-- An arc of which the buffers and the shifts are large enough: a text of digits that fits into
    its buffer, and behind two others a number of 28 bits at most. -/
structure Small (before : ℕ) (x : List UInt8) : Prop where
  short : x.length < 32
  below : 2 ≤ before → Decimal.value x < 2 ^ 28

section Arc

variable {pre : List ℕ} {x : List UInt8} {left : ℕ}

theorem oidOctets_append {as : List ℕ} (two : 2 ≤ as.length) (n : ℕ) :
    oidOctets (as ++ [n]) = oidOctets as ++ Base128.octets n := by
  match as, two with
  | a :: b :: cs, _ => simp [oidOctets]

theorem oidOctets_pos {as : List ℕ} (two : 2 ≤ as.length) : 0 < (oidOctets as).length := by
  match as, two with
  | a :: b :: cs, _ => simp [oidOctets]

theorem head_append {as : List ℕ} (two : 2 ≤ as.length) (n : ℕ) : (as ++ [n]).head? = as.head? := by
  match as, two with
  | a :: b :: cs, _ => rfl

theorem arc_number (digits : Decimal.Digits x) (some_ : x ≠ []) :
    (Decimal.atoi x).toNat = Decimal.value x := by
  rw [digits.atoi_eq some_, Int.toNat_natCast]

theorem arc_enough (digits : Decimal.Digits x) (inside : x.length ≤ left) :
    Decimal.value x < 128 ^ left :=
  calc Decimal.value x < 10 ^ x.length := digits.value_lt
    _ ≤ 128 ^ x.length := Nat.pow_le_pow_left (by decide) _
    _ ≤ 128 ^ left := Nat.pow_le_pow_right (by decide) inside

/-- From the third arc on. -/
theorem putArc_more (s : Shift) {dst : List UInt8} (begun : 0 < dst.length) (first : ℕ)
    (short : x.length < 32) (digits : Decimal.Digits x) (some_ : x ≠ []) :
    putArc s left x (some first) dst =
      (if 127 < Decimal.value x then
        (groups s (Decimal.value x) left 0).bind fun j => putGroups s (Decimal.value x) j dst
      else put dst (UInt8.ofNat (Decimal.value x))).map fun dst => (some first, dst) := by
  simp only [putArc, arc_number digits some_, short, Nat.ne_of_gt begun, if_true, if_false]
  split
  · cases groups s (Decimal.value x) left 0 with
    | none => rfl
    | some j =>
        rw [Option.bind_some]
        exact (Option.map_eq_bind ..).symm
  · rfl

theorem head_of_two (two : 2 ≤ pre.length) : ∃ first, pre.head? = some first := by
  match pre, two with
  | a :: as, _ => exact ⟨a, rfl⟩

/-- An arc that is small enough adds its octets, on every machine. -/
theorem putArc_eq (s : Shift) (digits : Decimal.Digits x) (some_ : x ≠ [])
    (inside : x.length ≤ left) (small : Small pre.length x)
    (room : (oidOctets (pre ++ [Decimal.value x])).length ≤ 128) :
    putArc s left x pre.head? (oidOctets pre) =
      some ((pre ++ [Decimal.value x]).head?, oidOctets (pre ++ [Decimal.value x])) := by
  by_cases two : 2 ≤ pre.length
  · obtain ⟨first, head⟩ := head_of_two two
    rw [oidOctets_append two] at room ⊢
    rw [head_append two, head, putArc_more s (oidOctets_pos two) first small.short digits some_]
    by_cases large : 127 < Decimal.value x
    · rw [if_pos large, arc_groups large (small.below two) (arc_enough digits inside) room]
      rfl
    · have one := Base128.octets_small (n := Decimal.value x) (by omega)
      rw [one, List.length_append, List.length_singleton] at room
      rw [if_neg large, put_eq (by omega), one]
      rfl
  · match pre, two with
    | [], _ =>
        simp only [putArc, arc_number digits some_, small.short, if_true]
        rfl
    | [a], _ =>
        have empty : oidOctets [a] = [] := rfl
        simp only [putArc, arc_number digits some_, small.short, if_true, List.head?_cons, empty,
          List.length_nil, Nat.mul_comm a 40]
        rfl
    | a :: b :: cs, two => exact absurd (by simp) two

/-- An arc that is not stops a machine that has nothing to give for a wide count. -/
theorem small_of_putArc (digits : Decimal.Digits x) (some_ : x ≠ []) (inside : x.length ≤ left)
    (ends : putArc .trap left x pre.head? (oidOctets pre) ≠ none) : Small pre.length x := by
  have short : x.length < 32 := by
    by_contra long
    apply ends
    simp only [putArc, long, if_false]
  refine ⟨short, ?_⟩
  intro two
  by_contra large
  obtain ⟨first, head⟩ := head_of_two two
  apply ends
  have bits : 2 ^ 28 ≤ Decimal.value x := Nat.le_of_not_lt large
  -- A number of more than 28 bits has nine digits at least.
  have nine : 9 ≤ x.length := by
    have bound := digits.value_lt
    by_contra few
    have power : 10 ^ x.length ≤ 10 ^ 8 := Nat.pow_le_pow_right (by decide) (by omega)
    omega
  have turns : left = left - 6 + 6 := by omega
  rw [head, putArc_more .trap (oidOctets_pos two) first short digits some_, if_pos (by omega),
    turns, groups_trap bits]
  rfl

end Arc

/-! ## The whole string -/

section Arcs

variable {s : Shift} {x src : List UInt8} {pre : List ℕ} {fuel : ℕ}

theorem untilDot_plain (plain : dot ∉ x) (src : List UInt8) (j : ℕ) :
    untilDot (x ++ src) j = untilDot src (j + x.length) := by
  induction x generalizing j with
  | nil => rfl
  | cons c x ih =>
      rw [List.mem_cons, not_or] at plain
      rw [List.cons_append, untilDot, if_neg (Ne.symm plain.1), ih plain.2, List.length_cons,
        Nat.add_right_comm, Nat.add_assoc]

theorem untilDot_ends (src : List UInt8) (ends : src = [] ∨ ∃ more, src = dot :: more) (j : ℕ) :
    untilDot src j = j := by
  obtain rfl | ⟨more, rfl⟩ := ends
  · rfl
  · rw [untilDot, if_pos rfl]

/-- The turn for an arc. -/
theorem putArcs_arc (plain : dot ∉ x) (some_ : x ≠ [])
    (ends : src = [] ∨ ∃ more, src = dot :: more) (first_digit : Option ℕ) (dst : List UInt8) :
    putArcs s (fuel + 1) (x ++ src) first_digit dst =
      (putArc s (x ++ src).length x first_digit dst).bind fun r =>
        putArcs s fuel (src.drop 1) r.1 r.2 := by
  cases x with
  | nil => exact absurd rfl some_
  | cons c x =>
      rw [List.mem_cons, not_or] at plain
      have buflen : untilDot (x ++ src) 1 = x.length + 1 := by
        rw [untilDot_plain plain.2, untilDot_ends src ends, Nat.add_comm]
      have taken : (c :: (x ++ src)).take (x.length + 1) = c :: x := by
        rw [List.take_succ_cons, List.take_left]
      have rest : (x ++ src).drop (x.length + 1) = src.drop 1 := by
        rw [List.drop_append, List.drop_of_length_le (by omega), List.nil_append]
        congr 1
        omega
      rw [List.cons_append, putArcs, if_pos (Ne.symm plain.1)]
      simp only [buflen, taken, rest]
      rfl

theorem putArcs_dot (first_digit : Option ℕ) (dst : List UInt8) :
    putArcs s (fuel + 1) (dot :: src) first_digit dst = putArcs s fuel src first_digit dst := by
  rw [putArcs, if_neg (not_not_intro rfl)]

theorem putArcs_nil (first_digit : Option ℕ) (dst : List UInt8) :
    putArcs s fuel [] first_digit dst = some dst := by
  cases fuel <;> rfl

/-- The turn for the last one. -/
theorem putArcs_last (plain : dot ∉ x) (some_ : x ≠ []) (first_digit : Option ℕ)
    (dst : List UInt8) :
    putArcs s (fuel + 1) x first_digit dst =
      (putArc s x.length x first_digit dst).map fun r => r.2 := by
  have turn := @putArcs_arc s x [] fuel plain some_ (.inl rfl) first_digit dst
  simp only [List.append_nil, List.drop_nil, putArcs_nil] at turn
  rw [turn, Option.map_eq_bind]
  rfl

theorem arcs_cons (plain : dot ∉ x) (some_ : x ≠ []) (str : List UInt8) :
    arcs (x ++ dot :: str) = Decimal.value x :: arcs str := by
  rw [arcs, fields_cons plain some_, List.map_cons, arcs]

theorem arcs_plain (plain : dot ∉ x) (some_ : x ≠ []) : arcs x = [Decimal.value x] := by
  rw [arcs, fields_plain plain some_, List.map_cons, List.map_nil]

theorem arcs_dot (str : List UInt8) : arcs (dot :: str) = arcs str := by
  rw [arcs, fields_separator, arcs]

/-- What has been written of an identifier is not longer than all of it. -/
theorem oidOctets_le (as bs : List ℕ) : (oidOctets as).length ≤ (oidOctets (as ++ bs)).length := by
  match as with
  | [] | [_] => simp [oidOctets]
  | a :: b :: cs => simp [oidOctets]

/-- The arcs are small enough, wherever they stand. -/
def AllSmall : ℕ → List (List UInt8) → Prop
  | _, [] => True
  | before, x :: xs => Small before x ∧ AllSmall (before + 1) xs

/-- Digits and dots only. -/
def OidChars (src : List UInt8) : Prop := ∀ c ∈ src, Decimal.isdigit c = true ∨ c = dot

theorem OidChars.alone (chars : OidChars x) (plain : dot ∉ x) : Decimal.Digits x := by
  intro c mem
  exact (chars c mem).resolve_right fun same => plain (same ▸ mem)

theorem OidChars.front (chars : OidChars (x ++ dot :: src)) : OidChars x :=
  fun c mem => chars c (List.mem_append_left _ mem)

theorem OidChars.behind (chars : OidChars (x ++ dot :: src)) : OidChars src :=
  fun c mem => chars c (List.mem_append_right _ (List.mem_cons_of_mem _ mem))

/-- From any arc on, arcs that are small enough are written. By induction on the arcs. -/
theorem putArcs_eq (s : Shift) (enough : src.length ≤ fuel) (chars : OidChars src)
    (small : AllSmall pre.length (fields dot src))
    (room : (oidOctets (pre ++ arcs src)).length ≤ 128) :
    putArcs s fuel src pre.head? (oidOctets pre) = some (oidOctets (pre ++ arcs src)) := by
  induction src using Fields.induction dot generalizing pre fuel with
  | empty => rw [putArcs_nil, arcs, fields_nil, List.map_nil, List.append_nil]
  | separator str ih =>
      cases fuel with
      | zero => cases enough
      | succ fuel =>
          rw [fields_separator] at small
          rw [arcs_dot] at room ⊢
          rw [putArcs_dot]
          exact ih (Nat.le_of_succ_le_succ enough)
            (fun c mem => chars c (List.mem_cons_of_mem _ mem)) small room
  | last x plain some_ =>
      cases fuel with
      | zero => exact absurd (List.length_eq_zero_iff.mp (Nat.le_zero.mp enough)) some_
      | succ fuel =>
          rw [fields_plain plain some_] at small
          rw [arcs_plain plain some_] at room ⊢
          have digits := chars.alone plain
          rw [putArcs_last plain some_, putArc_eq s digits some_ (Nat.le_refl _) small.1 room,
            Option.map_some]
  | cons x str plain some_ ih =>
      cases fuel with
      | zero => simp at enough
      | succ fuel =>
          rw [fields_cons plain some_] at small
          rw [arcs_cons plain some_, List.append_cons pre] at room ⊢
          have before := Nat.le_trans (oidOctets_le (pre ++ [Decimal.value x]) (arcs str)) room
          have inside : x.length ≤ (x ++ dot :: str).length := by
            rw [List.length_append]
            omega
          rw [List.length_append, List.length_cons] at enough
          rw [putArcs_arc plain some_ (.inr ⟨str, rfl⟩),
            putArc_eq s (chars.front.alone plain) some_ inside small.1 before, Option.bind_some]
          have next := small.2
          rw [show pre.length + 1 = (pre ++ [Decimal.value x]).length by simp] at next
          exact ih (by omega) chars.behind next room

/-- An arc that is not small enough stops a machine without wide counts. -/
theorem allSmall_of_putArcs (enough : src.length ≤ fuel) (chars : OidChars src)
    (room : (oidOctets (pre ++ arcs src)).length ≤ 128)
    (ends : putArcs .trap fuel src pre.head? (oidOctets pre) ≠ none) :
    AllSmall pre.length (fields dot src) := by
  induction src using Fields.induction dot generalizing pre fuel with
  | empty =>
      rw [fields_nil]
      trivial
  | separator str ih =>
      cases fuel with
      | zero => cases enough
      | succ fuel =>
          rw [fields_separator]
          rw [arcs_dot] at room
          rw [putArcs_dot] at ends
          exact ih (Nat.le_of_succ_le_succ enough)
            (fun c mem => chars c (List.mem_cons_of_mem _ mem)) room ends
  | last x plain some_ =>
      cases fuel with
      | zero => exact absurd (List.length_eq_zero_iff.mp (Nat.le_zero.mp enough)) some_
      | succ fuel =>
          have digits := chars.alone plain
          rw [putArcs_last plain some_] at ends
          rw [fields_plain plain some_]
          refine ⟨small_of_putArc digits some_ (Nat.le_refl x.length) ?_, trivial⟩
          intro stops
          rw [stops] at ends
          exact ends rfl
  | cons x str plain some_ ih =>
      cases fuel with
      | zero => simp at enough
      | succ fuel =>
          rw [arcs_cons plain some_, List.append_cons pre] at room
          have before := Nat.le_trans (oidOctets_le (pre ++ [Decimal.value x]) (arcs str)) room
          have inside : x.length ≤ (x ++ dot :: str).length := by
            rw [List.length_append]
            omega
          have digits := chars.front.alone plain
          rw [putArcs_arc plain some_ (.inr ⟨str, rfl⟩)] at ends
          have small : Small pre.length x := by
            apply small_of_putArc digits some_ inside
            intro stops
            rw [stops] at ends
            exact ends rfl
          rw [putArc_eq .trap digits some_ inside small before, Option.bind_some] at ends
          rw [List.length_append, List.length_cons] at enough
          have rest := ih (by omega) chars.behind room ends
          rw [show (pre ++ [Decimal.value x]).length = pre.length + 1 by simp] at rest
          rw [fields_cons plain some_]
          exact ⟨small, rest⟩

end Arcs

/-- A string that is accepted, and whose identifier has octets to be written. -/
structure OidString where
  src : List UInt8
  accepted : isOidStr src = true
  two : 2 ≤ (arcs src).length
  first : ∀ n ∈ (arcs src)[0]?, n ≤ 2
  second : ∀ n ∈ (arcs src)[1]?, n ≤ 39
  bits : ∀ n ∈ arcs src, n < 2 ^ 31
  fits : (oidOctets (arcs src)).length ≤ 128

theorem OidString.chars (o : OidString) : OidChars o.src := by
  have accepted := o.accepted
  rw [isOidStr] at accepted
  split at accepted
  · cases accepted
  · intro c mem
    have allowed := List.all_eq_true.mp accepted c mem
    by_cases same : c = dot
    · exact .inr same
    · left
      simp [same] at allowed
      simp [Decimal.isdigit, allowed]

theorem asn1encode_eq (s : Shift) (o : OidString) (small : AllSmall 0 (fields dot o.src)) :
    asn1encode s o.src = some (oidOctets (arcs o.src)) :=
  @putArcs_eq o.src [] o.src.length s (Nat.le_refl _) o.chars small o.fits

theorem allSmall_of_asn1encode (o : OidString) (ends : asn1encode .trap o.src ≠ none) :
    AllSmall 0 (fields dot o.src) :=
  @allSmall_of_putArcs o.src [] o.src.length (Nat.le_refl _) o.chars o.fits ends

end Tahi.Pz.MvObjectID
