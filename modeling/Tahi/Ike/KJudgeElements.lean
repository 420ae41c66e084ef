import Tahi.General.FirstFit
import Tahi.Ike.KJudgeCompare

/-! # Judging lists of selectors and attributes

Each expected element is compared with all received ones that have no mark, and every match is
counted.
-/

namespace Tahi.Ike

namespace Judge

open FirstFit

/-- The fields of something received. -/
abbrev Received := String → Option (List UInt8)

/-- The fields of something expected, and what is found under their names with `_comparator`. -/
structure ExpectedFields where
  value : String → Option Expected
  comparator : String → Option String

section

variable (eval : List UInt8 → Option Bool) (number : List UInt8 → ℚ)

/-- What the functions of the substructures have in common. -/
def judge_fields (fields checked : List String) (received : Received) (expected : ExpectedFields) :
    Bool :=
  fields.foldl (fun result field =>
    if judge_field eval number field checked (received field) (expected.value field)
      (expected.comparator field) then result else false) true

def judge_TrafficSelector : Received → ExpectedFields → Bool :=
  judge_fields eval number
    ["type", "protocol", "selectorLen", "sport", "eport", "saddr", "eaddr"] ["selectorLen"]

def judge_ConfigurationAttribute : Received → ExpectedFields → Bool :=
  judge_fields eval number ["reserved", "attr_type", "length", "value"] ["length"]

end

/-- A field is what is expected of it, in a text that ends where its quote does. -/
theorem judge_field_equal {eval : List UInt8 → Option Bool} (obeys : Obeys eval)
    (number : List UInt8 → ℚ) (field : String) (checked : List String) {text : List UInt8}
    (readable : (Perl.body text).isSome) :
    judge_field eval number field checked (some text) (some (.scalar text)) none = true := by
  by_cases mem : field ∈ checked
  · exact judge_field_checked eval number field checked text mem _
  · cases any : mentionsAny text with
    | true => exact judge_field_mentions eval number field checked text text any none
    | false =>
        obtain ⟨u, body⟩ := Option.isSome_iff_exists.mp readable
        have legible : Legible .eq text text := .inl ⟨u, u, body, body, iff_of_true rfl rfl⟩
        have result := judge_field_asked eval number field checked text .default
          (fun both => mem both.2) text any
        have holds : Perl.Operator.eq.holds text text = true := beq_self_eq_true text
        exact result.trans (by
          rw [Asked.operator, obeys _ _ ((legible_iff .eq text text).mp legible), holds]
          rfl)

/-- Elements whose fields are the expected ones match. -/
theorem judge_fields_equal {eval : List UInt8 → Option Bool} (obeys : Obeys eval)
    (number : List UInt8 → ℚ) {fields : List String} (checked : List String) {received : Received}
    {expected : ExpectedFields}
    (equal : ∀ field ∈ fields, expected.comparator field = none ∧ ∃ text,
      received field = some text ∧ expected.value field = some (.scalar text) ∧
        (Perl.body text).isSome) :
    judge_fields eval number fields checked received expected = true := by
  unfold judge_fields
  induction fields with
  | nil => rfl
  | cons field fields ih =>
      obtain ⟨cmp, text, rcv, exp, readable⟩ := equal field List.mem_cons_self
      rw [List.foldl_cons, cmp, rcv, exp, if_pos (judge_field_equal obeys number field checked readable)]
      exact ih fun field mem => equal field (List.mem_cons_of_mem _ mem)

/-- A received element and its key `_checked`. -/
structure Marked (α : Type) where
  element : α
  checked : Option Nat

def unmarked {α : Type} (element : α) : Marked α := ⟨element, none⟩

section

variable {α β : Type} (judge : α → β → Bool)

/-- The inner loop. -/
def count_matches (i : Nat) (expected : β) : List (Marked α) → Nat → List (Marked α) × Nat
  | [], pass_num => ([], pass_num)
  | elm :: received, pass_num =>
      if elm.checked.isSome then
        let (received, pass_num) := count_matches i expected received pass_num
        (elm :: received, pass_num)
      else if judge elm.element expected then
        let (received, pass_num) := count_matches i expected received (pass_num + 1)
        ({ elm with checked := some i } :: received, pass_num)
      else
        let (received, pass_num) := count_matches i expected received pass_num
        (elm :: received, pass_num)

/-- The result, and the received elements with their marks removed. -/
def judge_elements (received : List (Marked α)) (expected : List β) : Bool × List (Marked α) :=
  let (received, pass_num) := expected.zipIdx.foldl
    (fun (received, pass_num) (exp, i) => count_matches judge i exp received pass_num) (received, 0)
  (decide (pass_num > 0 ∧ pass_num = expected.length),
    received.map fun elm => { elm with checked := none })

end

section

variable (eval : List UInt8 → Option Bool) (number : List UInt8 → ℚ)

def judge_TrafficSelectors :
    List (Marked Received) → List ExpectedFields → Bool × List (Marked Received) :=
  judge_elements (judge_TrafficSelector eval number)

def judge_ConfigurationAttributes :
    List (Marked Received) → List ExpectedFields → Bool × List (Marked Received) :=
  judge_elements (judge_ConfigurationAttribute eval number)

end

/-! ## What is counted -/

section

variable {α β : Type} {judge : α → β → Bool}

/-- The mark that an element has after its turn. -/
def Marked.after (judge : α → β → Bool) (i : Nat) (expected : β) (elm : Marked α) : Marked α :=
  if elm.checked.isSome then elm
  else if judge elm.element expected then { elm with checked := some i }
  else elm

variable (judge) in
/-- The marks that are set are counted. -/
theorem count_matches_eq (i : Nat) (expected : β) (received : List (Marked α)) (pass_num : Nat) :
    ∃ more, count_matches judge i expected received pass_num =
        (received.map (Marked.after judge i expected), pass_num + more) ∧
      (received.map (Marked.after judge i expected)).countP (fun elm => elm.checked.isSome) =
        received.countP (fun elm => elm.checked.isSome) + more := by
  induction received generalizing pass_num with
  | nil => exact ⟨0, rfl, rfl⟩
  | cons elm received ih =>
      rw [List.map_cons, List.countP_cons, List.countP_cons, count_matches, Marked.after]
      by_cases marked : elm.checked.isSome
      · obtain ⟨more, run, count⟩ := ih pass_num
        refine ⟨more, ?_, ?_⟩
        · rw [if_pos marked, run, if_pos marked]
        · rw [if_pos marked, count, if_pos marked]
          omega
      · by_cases found : judge elm.element expected
        · obtain ⟨more, run, count⟩ := ih (pass_num + 1)
          refine ⟨more + 1, ?_, ?_⟩
          · simp only [if_neg marked, if_pos found, run, Nat.add_right_comm pass_num 1 more]
            rfl
          · simp only [if_neg marked, if_pos found, count, Option.isSome_some, if_true]
            omega
        · obtain ⟨more, run, count⟩ := ih pass_num
          refine ⟨more, ?_, ?_⟩
          · simp only [if_neg marked, if_neg found, run]
          · simp only [if_neg marked, if_neg found, count]
            omega

theorem Marked.after_element (i : Nat) (expected : β) (elm : Marked α) :
    (elm.after judge i expected).element = elm.element := by
  unfold Marked.after
  split_ifs <;> rfl

theorem Marked.after_isSome (i : Nat) (expected : β) (elm : Marked α) :
    (elm.after judge i expected).checked.isSome =
      (elm.checked.isSome || judge elm.element expected) := by
  unfold Marked.after
  split_ifs with marked found
  · rw [marked, Bool.true_or]
  · rw [found, Bool.or_true, Option.isSome_some]
  · simp [marked, found]

variable (judge) in
/-- What the loops leave: the same elements, marked where something expected matches. -/
theorem count_all (expected : List (β × Nat)) (received : List (Marked α)) (pass_num : Nat) :
    ∃ received' pass_num', expected.foldl
        (fun (received, pass_num) (exp, i) => count_matches judge i exp received pass_num)
        (received, pass_num) = (received', pass_num') ∧
      pass_num' + received.countP (fun elm => elm.checked.isSome) =
        pass_num + received'.countP (fun elm => elm.checked.isSome) ∧
      List.Forall₂ (fun elm elm' => elm'.element = elm.element ∧ elm'.checked.isSome =
        (elm.checked.isSome || expected.any fun exp => judge elm.element exp.1)) received received' := by
  induction expected generalizing received pass_num with
  | nil =>
      refine ⟨received, pass_num, rfl, rfl, List.forall₂_same.mpr fun elm _ => ⟨rfl, ?_⟩⟩
      rw [List.any_nil, Bool.or_false]
  | cons exp expected ih =>
      obtain ⟨more, run, count⟩ := count_matches_eq judge exp.2 exp.1 received pass_num
      obtain ⟨received', pass_num', run', count', same⟩ :=
        ih (received.map (Marked.after judge exp.2 exp.1)) (pass_num + more)
      refine ⟨received', pass_num', ?_, by omega, ?_⟩
      · rw [List.foldl_cons, ← run']
        change List.foldl _ (count_matches judge exp.2 exp.1 received pass_num) expected = _
        rw [run]
      · rw [List.forall₂_map_left_iff] at same
        refine same.imp fun elm elm' ⟨element, marked⟩ => ⟨?_, ?_⟩
        · rw [element, Marked.after_element]
        · rw [marked, Marked.after_element, Marked.after_isSome, List.any_cons, Bool.or_assoc]

variable (judge) in
/-- The received elements that match something expected. -/
def matched (received : List α) (expected : List β) : Nat :=
  received.countP fun rcv => expected.any fun exp => judge rcv exp

/-- The result compares the numbers of elements only, and no mark is left. -/
theorem judge_elements_eq (received : List α) (expected : List β) :
    judge_elements judge (received.map unmarked) expected =
      (decide (0 < matched judge received expected ∧
        matched judge received expected = expected.length), received.map unmarked) := by
  obtain ⟨received', pass_num', run, count, same⟩ :=
    count_all judge expected.zipIdx (received.map unmarked) 0
  have fresh : (received.map unmarked).countP (fun elm => elm.checked.isSome) = 0 := by
    rw [List.countP_eq_zero]
    intro elm mem
    obtain ⟨rcv, -, rfl⟩ := List.mem_map.mp mem
    exact Bool.false_ne_true
  have any (rcv : α) : (expected.zipIdx.any fun exp => judge rcv exp.1) =
      expected.any fun exp => judge rcv exp := by
    conv_rhs => rw [← List.zipIdx_map_fst 0 expected, List.any_map]
    rfl
  rw [List.forall₂_map_left_iff] at same
  have number : received'.countP (fun elm => elm.checked.isSome) =
      matched judge received expected := by
    rw [matched]
    clear run count fresh
    induction same with
    | nil => rfl
    | @cons rcv elm received received' both _ ih =>
        have marked : elm.checked.isSome = expected.any fun exp => judge rcv exp := by
          rw [both.2, any]
          rfl
        rw [List.countP_cons, List.countP_cons, ih, marked]
  have left : received'.map (fun elm => { elm with checked := none }) = received.map unmarked := by
    clear run count fresh number
    induction same with
    | nil => rfl
    | @cons rcv elm received received' both _ ih =>
        rw [List.map_cons, List.map_cons, ih, both.1]
        rfl
  rw [judge_elements, run]
  simp only [left]
  rw [fresh, number] at count
  rw [show pass_num' = matched judge received expected by omega]

variable (judge) in
/-- Where the expected elements can be given different ones, no others match, and where as many
    match as are expected, any of the expected together match as many. -/
def Decisive (received : List α) (expected : List β) : Prop :=
  (Marriage (fun rcv exp => judge rcv exp = true) received expected →
    matched judge received expected ≤ expected.length) ∧
  (matched judge received expected = expected.length →
    Marriage (fun rcv exp => judge rcv exp = true) received expected)

theorem length_le_matched {received : List α} {expected : List β}
    (marriage : Marriage (fun rcv exp => judge rcv exp = true) received expected) :
    expected.length ≤ matched judge received expected := by
  have count := marriage.length_le
  simp only [Bool.decide_eq_true] at count
  exact count

theorem judge_elements_iff {received : List α} {expected : List β} (some_ : expected ≠ []) :
    ((judge_elements judge (received.map unmarked) expected).1 = true ↔
        Assignable (fun rcv exp => judge rcv exp = true) received expected) ↔
      Decisive judge received expected := by
  have positive : 0 < expected.length := List.length_pos_iff.mpr some_
  rw [judge_elements_eq, assignable_iff_marriage, decide_eq_true_iff]
  constructor
  · intro right
    exact ⟨fun marriage => Nat.le_of_eq (right.mpr marriage).2,
      fun same => right.mp ⟨same ▸ positive, same⟩⟩
  · intro decisive
    constructor
    · exact fun counts => decisive.2 counts.2
    · intro marriage
      have same := Nat.le_antisymm (decisive.1 marriage) (length_le_matched marriage)
      exact ⟨same ▸ positive, same⟩

/-- A list whose elements match those at the same places is accepted. -/
theorem judge_elements_same {received : List α} {expected : List β} (some_ : expected ≠ [])
    (same : List.Forall₂ (fun rcv exp => judge rcv exp = true) received expected) :
    (judge_elements judge (received.map unmarked) expected).1 = true := by
  have all : matched judge received expected = expected.length := by
    rw [matched, ← same.length_eq, List.countP_eq_length]
    intro rcv mem
    obtain ⟨p, there⟩ := List.mem_iff_getElem?.mp mem
    obtain ⟨inside, rfl⟩ := List.getElem?_eq_some_iff.mp there
    have inside' : p < expected.length := same.length_eq ▸ inside
    exact List.any_eq_true.mpr ⟨expected[p], List.getElem_mem inside', same.get inside inside'⟩
  rw [judge_elements_eq, all]
  simpa using List.length_pos_iff.mpr some_

end

/-! ## The two lists -/

/-- An element with the same text in all fields, as it is received and as it is expected. -/
def repeated (text : String) : Received × ExpectedFields :=
  (fun _ => some (octets text), ⟨fun _ => some (.scalar (octets text)), fun _ => none⟩)

end Judge

end Tahi.Ike
