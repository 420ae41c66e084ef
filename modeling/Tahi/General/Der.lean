import Tahi.General.PerlString

/-! # Distinguished encoding

An element is a tag, the length of what it covers and its contents: octets, or elements one behind
the other. There is one way to write a length, and one to write an integer in two's complement.
-/

namespace Der

open Perl

/-- An element by its tag. -/
inductive Element where
  | primitive (tag : UInt8) (contents : List UInt8)
  | constructed (tag : UInt8) (elements : List Element)

/-- The octets of a length: it is the octet, or it is in as few octets behind as it takes. -/
inductive Length : ℕ → List UInt8 → Prop
  | short {n : ℕ} (lt : n < 128) : Length n [UInt8.ofNat n]
  | long {digits : List UInt8} (few : digits.length < 127) (first : digits.head? ≠ some 0)
      (needed : 128 ≤ be digits) :
      Length (be digits) (UInt8.ofNat (128 + digits.length) :: digits)

mutual

/-- The octets of an element. A bit of the tag says whether there are elements inside. -/
inductive Encodes : Element → List UInt8 → Prop
  | primitive {tag : UInt8} {contents length : List UInt8} (octets : tag &&& 0x20 = 0)
      (covers : Length contents.length length) :
      Encodes (.primitive tag contents) (tag :: (length ++ contents))
  | constructed {tag : UInt8} {elements : List Element} {contents length : List UInt8}
      (inside : tag &&& 0x20 ≠ 0) (all : EncodesAll elements contents)
      (covers : Length contents.length length) :
      Encodes (.constructed tag elements) (tag :: (length ++ contents))

inductive EncodesAll : List Element → List UInt8 → Prop
  | nil : EncodesAll [] []
  | cons {e : Element} {es : List Element} {a b : List UInt8} (first : Encodes e a)
      (rest : EncodesAll es b) : EncodesAll (e :: es) (a ++ b)

end

/-- Two's complement. -/
def signed (contents : List UInt8) : ℤ :=
  if 0x80 ≤ contents.headD 0 then be contents - 256 ^ contents.length else be contents

/-- The contents of an integer. The first nine bits are neither all zeros nor all ones. -/
structure Integer (contents : List UInt8) (value : ℤ) : Prop where
  some : contents ≠ []
  signed : signed contents = value
  shortest : ∀ a b rest, contents = a :: b :: rest →
    ¬ (a = 0x00 ∧ b < 0x80) ∧ ¬ (a = 0xff ∧ 0x80 ≤ b)

/-! ## What is encoded can be told from its octets -/

theorem Length.unique {n m : ℕ} {l l' r r' : List UInt8} (length : Length n l)
    (length' : Length m l') (same : l ++ r = l' ++ r') : n = m ∧ l = l' ∧ r = r' := by
  cases length with
  | short lt =>
      cases length' with
      | short lt' =>
          obtain ⟨head, rest⟩ := List.cons.inj same
          have numbers := congrArg UInt8.toNat head
          rw [UInt8.toNat_ofNat', UInt8.toNat_ofNat', Nat.mod_eq_of_lt (by omega),
            Nat.mod_eq_of_lt (by omega)] at numbers
          exact ⟨numbers, by rw [numbers], rest⟩
      | long few =>
          have numbers := congrArg UInt8.toNat (List.cons.inj same).1
          rw [UInt8.toNat_ofNat', UInt8.toNat_ofNat'] at numbers
          omega
  | long few =>
      cases length' with
      | short lt' =>
          have numbers := congrArg UInt8.toNat (List.cons.inj same).1
          rw [UInt8.toNat_ofNat', UInt8.toNat_ofNat'] at numbers
          omega
      | long few' =>
          obtain ⟨head, rest⟩ := List.cons.inj same
          have numbers := congrArg UInt8.toNat head
          rw [UInt8.toNat_ofNat', UInt8.toNat_ofNat', Nat.mod_eq_of_lt (by omega),
            Nat.mod_eq_of_lt (by omega)] at numbers
          obtain ⟨rfl, rfl⟩ := List.append_inj rest (by omega)
          exact ⟨rfl, rfl, rfl⟩

mutual

/-- The tag tells the form of an element and the length its end. -/
theorem Encodes.unique {e e' : Element} {a a' r r' : List UInt8} (encodes : Encodes e a)
    (encodes' : Encodes e' a') (same : a ++ r = a' ++ r') : e = e' ∧ a = a' := by
  cases encodes with
  | primitive octets covers =>
      cases encodes' with
      | primitive octets' covers' =>
          rw [List.cons_append, List.cons_append, List.append_assoc, List.append_assoc] at same
          obtain ⟨rfl, behind⟩ := List.cons.inj same
          obtain ⟨length, rfl, contents⟩ := covers.unique covers' behind
          obtain ⟨rfl, -⟩ := List.append_inj contents length
          exact ⟨rfl, rfl⟩
      | constructed inside =>
          rw [(List.cons.inj same).1] at octets
          exact absurd octets inside
  | constructed inside all covers =>
      cases encodes' with
      | primitive octets' =>
          rw [(List.cons.inj same).1] at inside
          exact absurd octets' inside
      | constructed inside' all' covers' =>
          rw [List.cons_append, List.cons_append, List.append_assoc, List.append_assoc] at same
          obtain ⟨rfl, behind⟩ := List.cons.inj same
          obtain ⟨length, rfl, contents⟩ := covers.unique covers' behind
          obtain ⟨rfl, -⟩ := List.append_inj contents length
          obtain rfl := all.unique all' rfl
          exact ⟨rfl, rfl⟩

theorem EncodesAll.unique {es es' : List Element} {a a' : List UInt8} (encodes : EncodesAll es a)
    (encodes' : EncodesAll es' a') (same : a = a') : es = es' := by
  cases encodes with
  | nil =>
      cases encodes' with
      | nil => rfl
      | cons first rest => cases first <;> cases same
  | cons first rest =>
      cases encodes' with
      | nil => cases first <;> cases same
      | cons first' rest' =>
          obtain ⟨rfl, rfl⟩ := first.unique first' same
          rw [rest.unique rest' (List.append_cancel_left same)]

end

theorem Encodes.eq {e e' : Element} {octets : List UInt8} (encodes : Encodes e octets)
    (encodes' : Encodes e' octets) : e = e' :=
  (@Encodes.unique _ _ _ _ [] [] encodes encodes' rfl).1

/-! ## Elements from what they are made of -/

theorem EncodesAll.flatMap {α : Type} {l : List α} {element : α → Element} {octets : α → List UInt8}
    (each : ∀ x ∈ l, Encodes (element x) (octets x)) :
    EncodesAll (l.map element) (l.flatMap octets) := by
  induction l with
  | nil => exact .nil
  | cons x l ih =>
      rw [List.map_cons, List.flatMap_cons]
      exact .cons (each x (by simp)) (ih fun y mem => each y (by simp [mem]))

theorem EncodesAll.single {e : Element} {a : List UInt8} (encodes : Encodes e a) :
    EncodesAll [e] a := by
  have all := EncodesAll.cons encodes .nil
  rwa [List.append_nil] at all

/-- The octets of a number, as few as it takes, are those of an integer if their first bit is not
    set. -/
theorem integer_be_iff {a : UInt8} {rest : List UInt8} (few : rest ≠ [] → a ≠ 0) :
    Integer (a :: rest) (be (a :: rest)) ↔ a < 0x80 := by
  constructor
  · intro integer
    by_contra set
    have sign := integer.signed
    have positive : (0 : ℤ) < 256 ^ (a :: rest).length := pow_pos (by decide) _
    rw [signed, List.headD_cons, if_pos (UInt8.not_lt.mp set)] at sign
    omega
  · intro unset
    refine ⟨List.cons_ne_nil _ _, ?_, ?_⟩
    · rw [signed, List.headD_cons, if_neg (UInt8.not_le.mpr unset)]
    · rintro b c behind eq
      obtain ⟨rfl, rfl⟩ := List.cons.inj eq
      refine ⟨fun zeros => few (List.cons_ne_nil _ _) zeros.1, fun ones => ?_⟩
      rw [ones.1] at unset
      exact absurd unset (by decide)

end Der
