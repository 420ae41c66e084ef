import Tahi.Pz.MvObjectID

/-! # Printing object identifiers

`PvObjectID::dump` prints the arcs that it finds in the octets of an identifier. It collects
their text in a buffer of 256 characters. `none` stands for a run that leaves this buffer or
the octets.
-/

namespace Tahi.Pz.PvObjectID

open Fields MvObjectID

/-- The loop to an octet that ends an arc, with `j` octets behind it. -/
def arcEnd : List UInt8 → ℕ → ℕ
  | [], j => j
  | o :: s, j => if o < 0x80 then j else arcEnd s (j + 1)

/-- The sum of the groups. -/
def sum : List UInt8 → ℕ → ℕ
  | [], a => a
  | o :: s, a => sum s (a + (o &&& 0x7f).toNat <<< (7 * s.length))

/-- The loop over the octets, of which `o` and those in `s` are left. -/
def dumpArcs : ℕ → List UInt8 → List UInt8 → Option (List UInt8)
  | _, [], tmp => some tmp
  | 0, _ :: _, _ => none
  | fuel + 1, o :: s, tmp =>
      let j := if 0x7f < o then arcEnd s 1 else 0
      -- The last group stands `j` octets behind the first one.
      if j ≤ s.length then
        let a := if j ≠ 0 then sum ((o :: s).take (j + 1)) 0 else o.toNat
        let tmp2 := if j < s.length then Decimal.print a ++ [dot] else Decimal.print a
        if (tmp ++ tmp2).length < 256 then dumpArcs fuel (s.drop j) (tmp ++ tmp2) else none
      else none

/-- The text that stands in parentheses behind the octets. -/
def dump : List UInt8 → Option (List UInt8)
  | [] => none
  | o :: s =>
      let a := o.toNat
      dumpArcs s.length s
        (Decimal.print (a / 40 : ℕ) ++ [dot] ++ (Decimal.print (a % 40 : ℕ) ++ [dot]))

/-- The octets of a string are those of its identifier, and its arcs are printed again. -/
structure RoundTrips (s : Shift) (o : OidString) : Prop where
  encoded : asn1encode s o.src = some (oidOctets (arcs o.src))
  printed : ∃ text, dump (oidOctets (arcs o.src)) = some text ∧ arcs text = arcs o.src

/-! ## One arc -/

section Arc

theorem sum_value (s : List UInt8) (a : ℕ) : sum s a = a + Base128.value s := by
  induction s generalizing a with
  | nil => rfl
  | cons o s ih =>
      have low : (o &&& 0x7f).toNat = o.toNat % 128 := by
        rw [UInt8.toNat_and]
        exact Nat.and_two_pow_sub_one_eq_mod _ 7
      rw [sum, ih, low, Nat.shiftLeft_eq, Nat.pow_mul, Base128.value_cons, Nat.add_assoc]

/-- The loop passes the octets that say that there are more. -/
theorem arcEnd_passes {hs : List UInt8} (more : ∀ o ∈ hs, 128 ≤ o.toNat) {last : UInt8}
    (ends : last.toNat < 128) (rest : List UInt8) (j : ℕ) :
    arcEnd (hs ++ last :: rest) j = j + hs.length := by
  induction hs generalizing j with
  | nil =>
      have below : last < 0x80 := UInt8.lt_iff_toNat_lt.mpr ends
      rw [List.nil_append, arcEnd, if_pos below]
      rfl
  | cons o hs ih =>
      have above : ¬ o < 0x80 := by
        have := more o List.mem_cons_self
        rw [UInt8.lt_iff_toNat_lt]
        exact Nat.not_lt.mpr this
      rw [List.cons_append, arcEnd, if_neg above, ih fun p mem => more p (List.mem_cons_of_mem _ mem),
        List.length_cons]
      omega

/-- The text of an arc, with a dot when there are others behind it. -/
def arcText (n : ℕ) (more : Prop) [Decidable more] : List UInt8 :=
  if more then Decimal.print n ++ [dot] else Decimal.print n

/-- The turn for an arc of the octets `o` and `s`. -/
theorem dumpArcs_turn {fuel n : ℕ} {o : UInt8} {s : List UInt8} (rest tmp : List UInt8)
    (ends : (if 0x7f < o then arcEnd (s ++ rest) 1 else 0) = s.length)
    (number : (if s.length ≠ 0 then sum (o :: s) 0 else o.toNat) = n) :
    dumpArcs (fuel + 1) (o :: (s ++ rest)) tmp =
      if (tmp ++ arcText n (rest ≠ [])).length < 256 then
        dumpArcs fuel rest (tmp ++ arcText n (rest ≠ []))
      else none := by
  have inside : s.length ≤ (s ++ rest).length := by simp
  have more : s.length < (s ++ rest).length ↔ rest ≠ [] := by
    rw [List.length_append, ← List.length_pos_iff]
    omega
  have text : (if s.length < (s ++ rest).length then Decimal.print n ++ [dot]
      else Decimal.print n) = arcText n (rest ≠ []) := if_congr more rfl rfl
  have taken : (o :: (s ++ rest)).take (s.length + 1) = o :: s := by
    rw [List.take_succ_cons, List.take_left]
  have left : (s ++ rest).drop s.length = rest := List.drop_left
  rw [dumpArcs]
  simp only [ends, inside, if_true, taken, number, left, text]

/-- An arc is printed, and its octets are left behind. -/
theorem dumpArcs_arc (fuel n : ℕ) (rest tmp : List UInt8) :
    dumpArcs (fuel + 1) (Base128.octets n ++ rest) tmp =
      if (tmp ++ arcText n (rest ≠ [])).length < 256 then
        dumpArcs fuel rest (tmp ++ arcText n (rest ≠ []))
      else none := by
  obtain ⟨small, single⟩ | ⟨o, os, last, row, more, ends⟩ := Base128.octets_cases n
  · have number : (UInt8.ofNat n).toNat = n := by
      rw [UInt8.toNat_ofNat']
      omega
    have below : ¬ 0x7f < UInt8.ofNat n := by
      rw [UInt8.lt_iff_toNat_lt, number]
      exact Nat.not_lt.mpr (Nat.lt_succ_iff.mp small)
    rw [single]
    exact dumpArcs_turn (s := []) rest tmp (if_neg below) number
  · have above : 0x7f < o := by
      rw [UInt8.lt_iff_toNat_lt]
      exact more o List.mem_cons_self
    have value := Base128.value_octets n
    rw [row] at value ⊢
    apply dumpArcs_turn
    · rw [if_pos above, List.append_assoc, List.singleton_append,
        arcEnd_passes (fun p mem => more p (List.mem_cons_of_mem _ mem)) ends, List.length_append,
        List.length_singleton, Nat.add_comm]
    · rw [if_pos (by simp), sum_value, value, Nat.zero_add]

end Arc

/-! ## The whole text -/

/-- The arcs behind the first two, with dots between them. -/
def row : List ℕ → List UInt8
  | [] => []
  | n :: ns => arcText n (ns ≠ []) ++ row ns

section Text

theorem octets_ne_nil (n : ℕ) : Base128.octets n ≠ [] := by simp [Base128.octets]

theorem flatMap_octets (ns : List ℕ) : ns.flatMap Base128.octets ≠ [] ↔ ns ≠ [] := by
  cases ns with
  | nil => simp
  | cons n ns => simp [octets_ne_nil]

/-- The text of all the arcs, if there is room for it. -/
theorem dumpArcs_eq (ns : List ℕ) (fuel : ℕ) (tmp : List UInt8)
    (enough : (ns.flatMap Base128.octets).length ≤ fuel) (room : tmp.length < 256) :
    dumpArcs fuel (ns.flatMap Base128.octets) tmp =
      if (tmp ++ row ns).length < 256 then some (tmp ++ row ns) else none := by
  induction ns generalizing fuel tmp with
  | nil =>
      rw [row, List.append_nil, if_pos room]
      cases fuel <;> rfl
  | cons n ns ih =>
      have pos := List.length_pos_iff.mpr (octets_ne_nil n)
      rw [List.flatMap_cons, List.length_append] at enough
      cases fuel with
      | zero => omega
      | succ fuel =>
          have same : arcText n (ns.flatMap Base128.octets ≠ []) = arcText n (ns ≠ []) := by
            simp only [arcText, flatMap_octets]
          rw [List.flatMap_cons, dumpArcs_arc, same, row, ← List.append_assoc]
          split
          next fits => exact ih fuel _ (by omega) fits
          next full =>
            rw [if_neg]
            rw [List.length_append]
            omega

/-- The text of an identifier. -/
def text (a b : ℕ) (ns : List ℕ) : List UInt8 :=
  Decimal.print a ++ [dot] ++ (Decimal.print b ++ [dot]) ++ row ns

theorem plain_print (n : ℕ) : dot ∉ Decimal.print n := by
  intro mem
  have digit := Decimal.digits_print n dot mem
  cases digit

theorem arcs_row (ns : List ℕ) : arcs (row ns) = ns := by
  induction ns with
  | nil => rw [row, arcs, fields_nil, List.map_nil]
  | cons n ns ih =>
      have plain := plain_print n
      have some_ := Decimal.print_ne_nil n
      rw [row, arcText]
      split
      next more =>
        rw [List.append_assoc, List.singleton_append, arcs_cons plain some_, ih,
          Decimal.value_print]
      next none_ =>
        cases Decidable.not_not.mp none_
        rw [row, List.append_nil, arcs_plain plain some_, Decimal.value_print]

/-- What is printed has the arcs that it is printed for. -/
theorem arcs_text (a b : ℕ) (ns : List ℕ) : arcs (text a b ns) = a :: b :: ns := by
  rw [text, List.append_assoc, List.append_assoc, List.append_assoc, List.singleton_append,
    List.singleton_append, arcs_cons (plain_print a) (Decimal.print_ne_nil a),
    arcs_cons (plain_print b) (Decimal.print_ne_nil b), arcs_row, Decimal.value_print,
    Decimal.value_print]

/-- The room that arcs take with a dot behind each. -/
def room (ns : List ℕ) : ℕ := (ns.map fun n : ℕ => (Decimal.print n).length + 1).sum

theorem row_room (ns : List ℕ) : (row ns).length + (if ns = [] then 0 else 1) = room ns := by
  induction ns with
  | nil => rfl
  | cons n ns ih =>
      have step : room (n :: ns) = (Decimal.print n).length + 1 + room ns := rfl
      rw [step, ← ih, row, arcText, if_neg (List.cons_ne_nil _ _), List.length_append]
      by_cases none_ : ns = []
      · subst none_
        simp [row]
      · rw [if_pos none_, if_neg none_, List.length_append, List.length_singleton]
        omega

theorem first_short {a b : ℕ} (first : a ≤ 2) (second : b ≤ 39) :
    (Decimal.print a).length + (Decimal.print b).length ≤ 3 := by
  have all : ∀ (i : Fin 3) (j : Fin 40),
      (Decimal.print (i : ℕ)).length + (Decimal.print (j : ℕ)).length ≤ 3 := by
    decide +kernel
  exact all ⟨a, by omega⟩ ⟨b, by omega⟩

theorem text_fits {a b : ℕ} (first : a ≤ 2) (second : b ≤ 39) (ns : List ℕ) :
    (text a b ns).length < 256 ↔ room (a :: b :: ns) ≤ 256 := by
  have short := first_short first second
  have rest := row_room ns
  have whole : room (a :: b :: ns) =
      (Decimal.print a).length + 1 + ((Decimal.print b).length + 1 + room ns) := rfl
  have size : (text a b ns).length =
      (Decimal.print a).length + 1 + ((Decimal.print b).length + 1) + (row ns).length := by
    simp only [text, List.length_append, List.length_singleton]
  by_cases none_ : ns = []
  · rw [if_pos none_] at rest
    subst none_
    simp only [row, List.length_nil] at rest size
    omega
  · rw [if_neg none_] at rest
    omega

theorem dump_eq {a b : ℕ} (first : a ≤ 2) (second : b ≤ 39) (ns : List ℕ) :
    dump (oidOctets (a :: b :: ns)) =
      if room (a :: b :: ns) ≤ 256 then some (text a b ns) else none := by
  have short := first_short first second
  have joint : (UInt8.ofNat (40 * a + b)).toNat = 40 * a + b := by
    rw [UInt8.toNat_ofNat']
    omega
  have high : (40 * a + b) / 40 = a := by omega
  have low : (40 * a + b) % 40 = b := by omega
  simp only [oidOctets, dump, joint, high, low]
  rw [dumpArcs_eq ns _ _ (Nat.le_refl _)]
  · exact if_congr (text_fits first second ns) rfl rfl
  · simp only [List.length_append, List.length_singleton]
    omega

end Text

/-! ## Where the round trip holds -/

theorem allSmall_behind (xs : List (List UInt8)) (before : ℕ) (two : 2 ≤ before) :
    AllSmall before xs ↔
      (∀ x ∈ xs, x.length < 32) ∧ ∀ n ∈ xs.map Decimal.value, n < 2 ^ 28 := by
  induction xs generalizing before with
  | nil => simp [AllSmall]
  | cons x xs ih =>
      rw [AllSmall, ih (before + 1) (by omega), List.map_cons, List.forall_mem_cons,
        List.forall_mem_cons]
      constructor
      · rintro ⟨⟨short, below⟩, shorts, belows⟩
        exact ⟨⟨short, shorts⟩, below two, belows⟩
      · rintro ⟨⟨short, shorts⟩, below, belows⟩
        exact ⟨⟨short, fun _ => below⟩, shorts, belows⟩

theorem allSmall_iff (xs : List (List UInt8)) :
    AllSmall 0 xs ↔
      (∀ x ∈ xs, x.length < 32) ∧ ∀ n ∈ (xs.map Decimal.value).drop 2, n < 2 ^ 28 := by
  have early {before : ℕ} (one : before < 2) (x : List UInt8) : Small before x ↔ x.length < 32 :=
    ⟨Small.short, fun short => ⟨short, fun two => absurd two (Nat.not_le.mpr one)⟩⟩
  match xs with
  | [] => simp [AllSmall]
  | [x] => simp [AllSmall, early]
  | x :: y :: xs =>
      rw [AllSmall, AllSmall, early (by decide), early (by decide), allSmall_behind xs 2 (by decide),
        List.forall_mem_cons, List.forall_mem_cons, and_assoc, and_assoc]
      rfl

theorem OidString.shape (o : OidString) :
    ∃ a b ns, arcs o.src = a :: b :: ns ∧ a ≤ 2 ∧ b ≤ 39 := by
  have two := o.two
  have first := o.first
  have second := o.second
  match arcs o.src, two, first, second with
  | a :: b :: ns, _, first, second => exact ⟨a, b, ns, rfl, first a rfl, second b rfl⟩

/-- On every machine the round trip holds, if and only if each arc has 31 characters at most,
    those behind the first two are below 2²⁸, and the printed text fits. -/
theorem roundTrips_iff (o : OidString) :
    (∀ s, RoundTrips s o) ↔
      (∀ x ∈ fields dot o.src, x.length < 32) ∧ (∀ n ∈ (arcs o.src).drop 2, n < 2 ^ 28) ∧
        room (arcs o.src) ≤ 256 := by
  obtain ⟨a, b, ns, shape, first, second⟩ := OidString.shape o
  have printed := dump_eq first second ns
  have small := allSmall_iff (fields dot o.src)
  rw [← arcs] at small
  rw [← and_assoc, ← small]
  constructor
  · intro trips
    refine ⟨allSmall_of_asn1encode o ?_, ?_⟩
    · rw [(trips .trap).encoded]
      exact Option.some_ne_none _
    · obtain ⟨text, out, -⟩ := (trips .trap).printed
      by_contra full
      rw [shape] at out full
      rw [printed, if_neg full] at out
      cases out
  · rintro ⟨small, fits⟩ s
    refine ⟨asn1encode_eq s o small, text a b ns, ?_, ?_⟩
    · rw [shape] at fits ⊢
      rw [printed, if_pos fits]
    · rw [shape, arcs_text]

/-- `1.3.268435456`, of which the last arc is the first with five groups. -/
def fiveGroups : OidString where
  src := [0x31, 0x2e, 0x33, 0x2e, 0x32, 0x36, 0x38, 0x34, 0x33, 0x35, 0x34, 0x35, 0x36]
  accepted := by decide
  two := by decide +kernel
  first := by decide +kernel
  second := by decide +kernel
  bits := by decide +kernel
  fits := by decide +kernel

/-- Where counts are taken modulo the width, nine groups are written instead of five. -/
theorem not_roundTrips : ¬ ∀ s o, RoundTrips s o := by
  intro claim
  have encoded := (claim .masked fiveGroups).encoded
  have wrong : asn1encode .masked fiveGroups.src ≠ some (oidOctets (arcs fiveGroups.src)) := by
    decide +kernel
  exact wrong encoded

end Tahi.Pz.PvObjectID
