import Tahi.Dns.KDns
import Tahi.General.PerlString

/-! # Names that are generated

A message is put together from names and other octets. A name is complete or ends in a
pointer to an earlier one, and comes back with all its labels.
-/

namespace Tahi.Dns

open Perl

/-- `pack('C a*', length($lavel), $lavel)`. -/
def packLabel (lavel : List UInt8) : List UInt8 := packInt 1 lavel.length ++ lavel

/-- The labels of a name, for which `'.'` stands when it is undefined. -/
def names (name : Str) : List (List UInt8) := split 0x2e (some (name.getD [0x2e]))

@[grind =]
def kGen_DNS_Name (name : Str) (offset : Option Nat) : List UInt8 :=
  (names name).flatMap packLabel ++
    match offset with
    | some offset => packInt 2 (0xc000 ||| offset)
    | none => packInt 1 0

/-- Labels as they are decoded, each followed by a dot. -/
def dotted (labels : List (List UInt8)) : List UInt8 :=
  labels.flatMap fun label => label ++ [0x2e]

/-- The name in what `kDec_DNS_Name` returns. -/
def Name.text (name : Name) : Option (List UInt8) :=
  if name.offset.isSome then name.decompressed else name.compressed

/-- The labels that can be generated. -/
abbrev Proper (labels : List (List UInt8)) : Prop :=
  ∀ label ∈ labels, 1 ≤ label.length ∧ label.length ≤ 63

/-- Any such labels without dots are the ones of a name, with and without a dot at its end. -/
theorem names_intercalate {labels : List (List UInt8)} (proper : Proper labels)
    (undotted : ∀ label ∈ labels, 0x2e ∉ label) :
    names (some ([0x2e].intercalate labels)) = labels ∧
      names (some ([0x2e].intercalate (labels ++ [[]]))) = labels := by
  apply split_intercalate 0x2e undotted
  rintro label mem rfl
  exact absurd (proper [] mem).1 (by decide)

/-! ## The loop over the labels -/

/-- What the loop makes of so many more labels. -/
@[grind =]
def extend (compressed : Option (List UInt8)) (labels : List (List UInt8)) :
    Option (List UInt8) :=
  if labels = [] then compressed else some (compressed.getD [] ++ dotted labels)

theorem plain_length {n : Nat} (least : 1 ≤ n) (most : n ≤ 63) :
    UInt8.ofNat n ≠ 0 ∧ UInt8.ofNat n &&& 0xc0 ≠ 0xc0 ∧ (UInt8.ofNat n).toNat = n := by
  have all : ∀ n ≤ 63, 1 ≤ n →
      UInt8.ofNat n ≠ 0 ∧ UInt8.ofNat n &&& 0xc0 ≠ 0xc0 ∧ (UInt8.ofNat n).toNat = n := by
    decide
  exact all n most least

theorem labels_plain {data before label rest : List UInt8}
    (shape : data = before ++ packLabel label ++ rest) (least : 1 ≤ label.length)
    (most : label.length ≤ 63) (compressed : Option (List UInt8)) :
    labels data before.length compressed = labels data (before ++ packLabel label).length
      (some (compressed.getD [] ++ label ++ [0x2e])) := by
  obtain ⟨nonzero, plain, size⟩ := plain_length least most
  have octet : data[before.length]? = some (UInt8.ofNat label.length) := by
    simp [shape, packLabel, packInt]
  have long : ¬ data.length < (before ++ packLabel label).length := by
    simp [shape]
  have read : (data.drop (before.length + 1)).take label.length = label := by
    rw [shape, List.append_assoc, packLabel, packInt, packInt, List.nil_append,
      List.singleton_append, ← List.drop_drop, List.drop_left, List.cons_append,
      List.drop_one, List.tail_cons, List.take_left]
  have next : before.length + 1 + label.length = (before ++ packLabel label).length := by
    simp [packLabel, packInt]
    omega
  rw [labels]
  simp only [octet, nonzero, plain, size, if_false, read, next, long]
  rfl

/-- Behind the labels the loop goes on with the octets there. -/
theorem labels_proper {data before rest : List UInt8} {own : List (List UInt8)}
    (shape : data = before ++ own.flatMap packLabel ++ rest) (proper : Proper own)
    (compressed : Option (List UInt8)) :
    labels data before.length compressed =
      labels data (before ++ own.flatMap packLabel).length (extend compressed own) := by
  induction own generalizing before compressed with
  | nil => simp [extend]
  | cons label own ih =>
      obtain ⟨least, most⟩ := proper label List.mem_cons_self
      rw [List.flatMap_cons, ← List.append_assoc] at shape ⊢
      rw [labels_plain (by rw [shape, List.append_assoc]) least most,
        ih shape (fun l mem => proper l (List.mem_cons_of_mem _ mem))]
      congr 1
      cases own with
      | nil => simp [extend, dotted]
      | cons label' own => simp [extend, dotted]

/-- The loop over the labels of a complete name. -/
theorem labels_complete {data before rest : List UInt8} {name : Str}
    (shape : data = before ++ kGen_DNS_Name name none ++ rest) (proper : Proper (names name)) :
    labels data before.length none =
      .empty (before ++ kGen_DNS_Name name none).length (extend none (names name)) := by
  have shape' : data = before ++ (names name).flatMap packLabel ++ ([0] ++ rest) := by
    rw [shape, kGen_DNS_Name]
    simp [packInt]
  have octet : data[(before ++ (names name).flatMap packLabel).length]? = some 0 := by
    rw [shape', List.getElem?_append_right (Nat.le_refl _), Nat.sub_self]
    rfl
  rw [labels_proper shape' proper, labels]
  simp only [octet, if_true, kGen_DNS_Name]
  congr 1
  simp [packInt]
  omega

theorem pointer_octets {offset : Nat} (small : offset ≤ 0x3fff) :
    ∃ hi lo : UInt8, packInt 2 (0xc000 ||| offset) = [hi, lo] ∧ hi ≠ 0 ∧
      hi &&& 0xc0 = 0xc0 ∧ unpackN hi lo &&& 0x3fff = offset := by
  have sum : 0xc000 ||| offset = 0xc000 + offset :=
    (Nat.two_pow_add_eq_or_of_lt (i := 14) (by omega) 3).symm
  have high : ∀ n ≤ 63, UInt8.ofNat (0xc0 + n) ≠ 0 ∧ UInt8.ofNat (0xc0 + n) &&& 0xc0 = 0xc0 := by
    decide
  obtain ⟨nonzero, marked⟩ := high (offset / 256) (by omega)
  have first : (0xc000 + offset) / 256 = 0xc0 + offset / 256 := by omega
  refine ⟨UInt8.ofNat (0xc0 + offset / 256), UInt8.ofNat (0xc000 + offset), ?_, nonzero, marked, ?_⟩
  · rw [sum]
    simp only [packInt, first, List.nil_append, List.singleton_append]
  · rw [unpackN, UInt8.toNat_ofNat', UInt8.toNat_ofNat', Nat.and_two_pow_sub_one_eq_mod _ 14]
    omega

/-- The loop over the labels of a name that ends in a pointer. -/
theorem labels_pointer {data before rest : List UInt8} {name : Str} {offset : Nat}
    (shape : data = before ++ kGen_DNS_Name name (some offset) ++ rest)
    (proper : Proper (names name)) (small : offset ≤ 0x3fff) :
    labels data before.length none =
      .pointer (before ++ kGen_DNS_Name name (some offset)).length offset
        (extend none (names name)) := by
  obtain ⟨hi, lo, octets, nonzero, marked, points⟩ := pointer_octets small
  have shape' : data = before ++ (names name).flatMap packLabel ++ ([hi, lo] ++ rest) := by
    rw [shape, kGen_DNS_Name]
    simp only [octets, List.append_assoc]
  have octet : data[(before ++ (names name).flatMap packLabel).length]? = some hi := by
    rw [shape', List.getElem?_append_right (Nat.le_refl _), Nat.sub_self]
    rfl
  have octet' : data[(before ++ (names name).flatMap packLabel).length + 1]? = some lo := by
    rw [shape', List.getElem?_append_right (Nat.le_succ _), Nat.succ_sub (Nat.le_refl _),
      Nat.sub_self]
    rfl
  rw [labels_proper shape' proper, labels]
  simp only [octet, octet', nonzero, marked, if_true, if_false, points, kGen_DNS_Name, octets]
  congr 1
  simp
  omega

/-! ## A name in its message -/

/-- What a generated name is decoded to, where `rest` is what the pointer leads to. -/
def decodedName (name : Str) (offset : Option Nat) (rest : List (List UInt8)) : Name where
  _size_ := (kGen_DNS_Name name offset).length
  compressed := extend none (names name)
  offset := offset
  decompressed := offset.map fun _ => dotted (names name ++ rest)

theorem text_decodedName (name : Str) (offset : Option Nat) {rest : List (List UInt8)}
    (complete : offset = none → rest = []) :
    (decodedName name offset rest).text =
      if offset = none ∧ names name = [] then none else some (dotted (names name ++ rest)) := by
  cases offset with
  | some offset => rfl
  | none =>
      rw [complete rfl, List.append_nil]
      by_cases root : names name = [] <;> simp [Name.text, decodedName, extend, root]

theorem dotted_append (own rest : List (List UInt8)) :
    dotted (own ++ rest) = dotted own ++ dotted rest := List.flatMap_append

theorem kDec_complete {data before rest : List UInt8} {name : Str}
    (shape : data = before ++ kGen_DNS_Name name none ++ rest) (proper : Proper (names name))
    (depth : Nat) :
    kDec_DNS_Name data (depth + 1) (some before.length) =
      some ([], some (decodedName name none [])) := by
  simp only [kDec_DNS_Name, Option.getD_some, labels_complete shape proper]
  simp [decodedName, kInit_DNS_Error]

/-- A pointer leads to a name that is decoded with the same octets. -/
theorem kDec_pointer {data before rest : List UInt8} {name : Str} {offset depth : Nat}
    (shape : data = before ++ kGen_DNS_Name name (some offset) ++ rest)
    (proper : Proper (names name)) (small : offset ≤ 0x3fff) {pointed : Name}
    {further : List (List UInt8)} (text : pointed.text.getD [] = dotted further)
    (decoded : kDec_DNS_Name data depth (some offset) = some ([], some pointed)) :
    kDec_DNS_Name data (depth + 1) (some before.length) =
      some ([], some (decodedName name (some offset) further)) := by
  have own : (extend none (names name)).getD [] = dotted (names name) := by
    by_cases root : names name = [] <;> simp [extend, root, dotted]
  have further_ : (if pointed.offset.isSome then pointed.decompressed
      else pointed.compressed).getD [] = dotted further := text
  simp only [kDec_DNS_Name, Option.getD_some, labels_pointer shape proper small, decoded, own,
    further_]
  simp [decodedName, dotted_append]

/-! ## Messages -/

/-- What a message is put together from. -/
inductive Part where
  | octets (octets : List UInt8)
  | name (name : Str) (offset : Option Nat)
deriving DecidableEq, Repr

/-- The octets so far, and the names in them with their offsets and all their labels. -/
structure Message where
  data : List UInt8 := []
  table : List (Nat × List (List UInt8)) := []
deriving DecidableEq, Repr

namespace Message

/-- The labels of the name at an offset. -/
def pointed (message : Message) (offset : Option Nat) : List (List UInt8) :=
  (offset.bind fun o => message.table.lookup o).getD []

def add (message : Message) : Part → Message
  | .octets octets => { message with data := message.data ++ octets }
  | .name name offset =>
      { data := message.data ++ kGen_DNS_Name name offset
        table := (message.data.length, names name ++ message.pointed offset) :: message.table }

/-- Names have proper labels, and pointers lead to earlier names. -/
def Allows (message : Message) : Part → Prop
  | .octets _ => True
  | .name name offset => Proper (names name) ∧
      ∀ o, offset = some o → o ≤ 0x3fff ∧ (message.table.lookup o).isSome

def Assembles : Message → List Part → Prop
  | _, [] => True
  | message, part :: parts => message.Allows part ∧ Assembles (message.add part) parts

/-- Each name is decoded, whatever comes behind it, in no more calls than there are names. -/
structure Decodes (message : Message) : Prop where
  within : ∀ o further, message.table.lookup o = some further → ∀ more depth,
    message.table.length ≤ depth → ∃ name : Name, name.text.getD [] = dotted further ∧
      kDec_DNS_Name (message.data ++ more) depth (some o) = some ([], some name)

theorem Decodes.name {message : Message} (decodes : message.Decodes) {name : Str}
    {offset : Option Nat} (allows : message.Allows (.name name offset)) (more : List UInt8)
    {depth : Nat} (deep : message.table.length ≤ depth) :
    kDec_DNS_Name ((message.add (.name name offset)).data ++ more) (depth + 1)
        (some message.data.length) =
      some ([], some (decodedName name offset (message.pointed offset))) := by
  obtain ⟨proper, points⟩ := allows
  cases offset with
  | none => exact kDec_complete rfl proper depth
  | some offset =>
      obtain ⟨small, found⟩ := points offset rfl
      obtain ⟨further, found⟩ := Option.isSome_iff_exists.mp found
      have pointed : message.pointed (some offset) = further := by
        rw [pointed, Option.bind_some, found, Option.getD_some]
      obtain ⟨earlier, text, decoded⟩ := decodes.within offset further found
        (kGen_DNS_Name name (some offset) ++ more) depth deep
      rw [← List.append_assoc] at decoded
      rw [pointed]
      exact kDec_pointer rfl proper small text decoded

theorem Decodes.add {message : Message} (decodes : message.Decodes) {part : Part}
    (allows : message.Allows part) : (message.add part).Decodes := by
  cases part with
  | octets octets =>
      refine ⟨fun o further found more depth deep => ?_⟩
      have decoded := decodes.within o further found (octets ++ more) depth deep
      rwa [← List.append_assoc] at decoded
  | name name offset =>
      refine ⟨fun o further found more depth deep => ?_⟩
      have positive : 0 < depth := Nat.lt_of_lt_of_le (Nat.succ_pos _) deep
      obtain ⟨depth, rfl⟩ := Nat.exists_eq_add_of_le' positive
      have deep' : message.table.length ≤ depth := Nat.le_of_succ_le_succ deep
      by_cases here : o = message.data.length
      · subst here
        have own : names name ++ message.pointed offset = further := by
          simpa [Message.add] using found
        refine ⟨_, ?_, decodes.name allows more deep'⟩
        rw [text_decodedName name offset (fun complete => by rw [complete]; rfl), ← own]
        split
        · rename_i root
          rw [root.1, root.2]
          rfl
        · rfl
      · have found' : message.table.lookup o = some further := by
          simpa [Message.add, List.lookup_cons, beq_false_of_ne here] using found
        have decoded := decodes.within o further found' (kGen_DNS_Name name offset ++ more)
          (depth + 1) (Nat.le_succ_of_le deep')
        rwa [← List.append_assoc] at decoded

theorem add_data (message : Message) (part : Part) :
    ∃ more, (message.add part).data = message.data ++ more := by
  cases part <;> exact ⟨_, rfl⟩

theorem foldl_data (message : Message) (parts : List Part) :
    ∃ more, (parts.foldl add message).data = message.data ++ more := by
  induction parts generalizing message with
  | nil => exact ⟨[], (List.append_nil _).symm⟩
  | cons part parts ih =>
      obtain ⟨more, first⟩ := message.add_data part
      obtain ⟨more', rest⟩ := ih (message.add part)
      exact ⟨more ++ more', by rw [List.foldl_cons, rest, first, List.append_assoc]⟩

theorem length_table (message : Message) (parts : List Part) :
    (parts.foldl add message).table.length ≤ message.table.length + parts.length := by
  induction parts generalizing message with
  | nil => exact Nat.le_refl _
  | cons part parts ih =>
      have first : (message.add part).table.length ≤ message.table.length + 1 := by
        cases part with
        | octets => exact Nat.le_succ _
        | name => exact Nat.le_refl _
      have rest := ih (message.add part)
      rw [List.foldl_cons, List.length_cons]
      omega

/-- What has been put together is decoded, and what comes next may come next. -/
theorem Decodes.run {message : Message} (decodes : message.Decodes) {before after : List Part}
    {part : Part} (assembles : message.Assembles (before ++ part :: after)) :
    (before.foldl Message.add message).Decodes ∧ (before.foldl Message.add message).Allows part := by
  induction before generalizing message with
  | nil => exact ⟨decodes, assembles.1⟩
  | cons first before ih => exact ih (decodes.add assembles.1) assembles.2

/-- In a message of names and other octets each name is decoded at its offset, with its own
    labels and those of the name it points to. The root, which has none, is left undefined. -/
theorem name_decoded {before after : List Part} {name : Str} {offset : Option Nat}
    (assembles : Assembles {} (before ++ .name name offset :: after)) {depth : Nat}
    (deep : before.length < depth) :
    ∃ decoded : Name,
      kDec_DNS_Name ((before ++ .name name offset :: after).foldl add {}).data depth
          (some (before.foldl add {}).data.length) = some ([], some decoded) ∧
        decoded._size_ = (kGen_DNS_Name name offset).length ∧
        decoded.offset = offset ∧
        decoded.text = if offset = none ∧ names name = [] then none
          else some (dotted (names name ++ (before.foldl add {}).pointed offset)) := by
  have start : Decodes {} := ⟨fun o further found => by cases found⟩
  obtain ⟨decodes, allows⟩ := start.run assembles
  have bound := length_table {} before
  obtain ⟨more, whole⟩ := ((before.foldl add {}).add (.name name offset)).foldl_data after
  obtain ⟨depth, rfl⟩ := Nat.exists_eq_add_of_le' (Nat.lt_of_le_of_lt (Nat.zero_le _) deep)
  have within : (before.foldl add {}).table.length ≤ depth := by
    change _ ≤ 0 + before.length at bound
    omega
  refine ⟨_, ?_, rfl, rfl, text_decodedName name offset fun complete => by rw [complete]; rfl⟩
  rw [List.foldl_append, List.foldl_cons, whole]
  exact decodes.name allows more within

/-- A name, one that points to it, and a pointer to the latter. -/
theorem name_decoded_twice : ∃ decoded : Name,
    kDec_DNS_Name [0, 1, 1, 0x77, 1, 0x74, 0, 9, 1, 0x6d, 0xc0, 2, 0xc0, 8, 7] 5 (some 12) =
        some ([], some decoded) ∧
      decoded._size_ = 2 ∧ decoded.offset = some 8 ∧
      decoded.text = some [0x6d, 0x2e, 0x77, 0x2e, 0x74, 0x2e] := by
  exact @name_decoded
    [.octets [0, 1], .name (some [0x77, 0x2e, 0x74]) none, .octets [9],
      .name (some [0x6d]) (some 2)] [.octets [7]] (some [0x2e]) (some 8)
    ⟨trivial, ⟨by decide, fun _ none_ => by cases none_⟩, trivial,
      ⟨by decide, fun o same => by cases same; decide⟩,
      ⟨by decide, fun o same => by cases same; decide⟩, trivial, trivial⟩ 5 (by decide)

/-- The root is decoded, but there is no text. -/
theorem not_name_decoded : ¬ ∃ depth,
    kDec_DNS_Name (kGen_DNS_Name (some [0x2e]) none) depth (some 0) =
      some ([], some ⟨1, some [], none, none⟩) := by
  rintro ⟨depth, empty⟩
  cases depth with
  | zero => simp [kDec_DNS_Name] at empty
  | succ depth =>
      have root := @kDec_complete _ [] [] (some [0x2e]) rfl (by decide) depth
      rw [List.nil_append, List.append_nil] at root
      exact absurd (root.symm.trans empty) (by decide)

end Message

end Tahi.Dns
