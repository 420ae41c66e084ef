import Mathlib.Data.Rat.Defs
import Tahi.General.PerlQuote

/-! # Comparing the fields of IKEv2 payloads

The received and the expected value of a field are put between single quotes as they are, and
Perl evaluates the comparison that results.
-/

namespace Tahi.Ike

namespace Judge

/-- The octets of a text. -/
def octets (text : String) : List UInt8 := text.toList.map fun c => UInt8.ofNat c.toNat

/-- An expected value: a string, or a reference to an array, which as a string is its address. -/
inductive Expected where
  | scalar (text : List UInt8)
  | array (address : List UInt8) (values : List (List UInt8))

def Expected.text : Expected → List UInt8
  | scalar text => text
  | array address _ => octets "ARRAY(0x" ++ address ++ octets ")"

def lowercase (c : UInt8) : UInt8 := if 0x41 ≤ c ∧ c ≤ 0x5a then c + 0x20 else c

/-- The word `any`, in any case. -/
def isAny (text : List UInt8) : Bool := text.map lowercase == octets "any"

/-- `/[aA][nN][yY]/` -/
def mentionsAny : List UInt8 → Bool
  | [] => false
  | c :: text => isAny ((c :: text).take 3) || mentionsAny text

/-- `/^[a-z]{2}$/`, which lets a newline stand at the end. -/
def twoLetters (cmp : String) : Bool :=
  match cmp.toList with
  | [a, b] => a.isLower && b.isLower
  | [a, b, c] => a.isLower && b.isLower && c == '\n'
  | _ => false

def expression (rcv : List UInt8) (cmp : String) (exp : List UInt8) : List UInt8 :=
  octets "'" ++ rcv ++ octets "' " ++ octets cmp ++ octets " '" ++ exp ++ octets "'"

section

/- Whether the value of a source is true for Perl, unless it dies, and what number a string is
for it. -/
variable (eval : List UInt8 → Option Bool) (number : List UInt8 → ℚ)

/-- The lowest and the highest of the values. -/
def bounds (first : List UInt8) (exp : List (List UInt8)) : ℚ × ℚ :=
  exp.foldl (fun (min, max) v =>
    if min > number v then (number v, max)
    else if max < number v then (min, number v)
    else (min, max)) (number first, number first)

/-- `match` of the source. -/
@[grind =]
def match_ (rcv : List UInt8) (exp : Expected) (cmp : String) : Bool :=
  if cmp = "range" then
    match exp with
    | .array _ [v0, v1] =>
        let (min, max) := bounds number v0 [v0, v1]
        number rcv ≥ min && number rcv ≤ max
    | _ => false
  else if twoLetters cmp then (eval (expression rcv cmp exp.text)).getD false
  else if cmp = "already checked" then true
  else if cmp = "any" then true
  else false

@[grind =]
def set_comparator (field : String) (checked : List String) (exp : Option Expected)
    (cmp : Option String) : Expected × String :=
  let has_checked := checked.any fun elm => field == elm && cmp.isNone
  let exp := if has_checked then .scalar (octets "any") else exp.getD (.scalar (octets "any"))
  let cmp :=
    if has_checked then "already checked"
    else if mentionsAny exp.text then "any"
    else match cmp with
      | none => "eq"
      | some cmp => if cmp = "nop" then "eq" else cmp
  (exp, cmp)

/-- The result. The line of the report is left out. -/
@[grind =]
def compare (rcv : Option (List UInt8)) (exp : Expected) (cmp : String) : Bool :=
  match rcv with
  | none => false
  | some rcv => match_ eval number rcv exp cmp

/-- What the functions of the kinds do for each of their fields. -/
@[grind =]
def judge_field (field : String) (checked : List String) (rcv : Option (List UInt8))
    (exp : Option Expected) (cmp : Option String) : Bool :=
  let (exp, cmp) := set_comparator field checked exp cmp
  compare eval number rcv exp cmp

end

/-! ## What it is to say -/

/-- Perl gives the comparison of two strings in single quotes its truth value. -/
def Obeys (eval : List UInt8 → Option Bool) : Prop :=
  ∀ source b, Perl.comparison source = some b → eval source = some b

/-- The comparators that are asked for: none, none by name, or that the values differ. -/
inductive Asked where
  | default
  | nop
  | ne
deriving DecidableEq, Repr

namespace Asked

def cmp : Asked → Option String
  | default => none
  | nop => some "nop"
  | ne => some "ne"

def operator : Asked → Perl.Operator
  | default => .eq
  | nop => .eq
  | ne => .ne

end Asked

/-- The result that is due. -/
def due (asked : Asked) (rcv : List UInt8) : Option (List UInt8) → Bool
  | none => true
  | some exp => isAny exp || asked.operator.holds rcv exp

/-! ## When it says so -/

/-- The source that results from two strings is a comparison with the result that is due: no
    quote in them ends a string and no two backslashes are read as one in such a way that the
    result is another one. -/
def Legible (op : Perl.Operator) (rcv exp : List UInt8) : Prop :=
  (∃ u v, Perl.body rcv = some u ∧ Perl.body exp = some v ∧ (u = v ↔ rcv = exp)) ∨
    ∃ p u op' w v, rcv = p ++ [Perl.backslash] ∧ Perl.body p = some u ∧
      exp = Perl.Operator.between op' ++ w ∧ Perl.body w = some v ∧
        op'.holds (u ++ Perl.quote :: op.word) v = op.holds rcv exp

/-- A field that is not looked at, or an expected value with `any` in it, is to pass, and all
    other strings are to be legible. -/
def Faithful (field : String) (checked : List String) (asked : Asked) (rcv : List UInt8)
    (exp : Option (List UInt8)) : Prop :=
  if asked = .default ∧ field ∈ checked then due asked rcv exp = true
  else match exp with
    | none => True
    | some text =>
        if mentionsAny text then due asked rcv exp = true
        else Legible asked.operator rcv text

theorem expression_eq (rcv : List UInt8) (op : Perl.Operator) (cmp : String)
    (same : octets cmp = op.text) (exp : List UInt8) :
    expression rcv cmp exp = Perl.spliced rcv op exp := by
  simp only [expression, same]
  cases op <;> simp [Perl.spliced, Perl.Operator.between, Perl.Operator.word, octets]

theorem mentionsAny_of_isAny {text : List UInt8} (any : isAny text = true) :
    mentionsAny text = true := by
  have same : text.map lowercase = octets "any" := beq_iff_eq.mp any
  have three : text.length = 3 := by
    rw [← List.length_map lowercase, same]
    rfl
  cases text with
  | nil => cases three
  | cons c text =>
      rw [mentionsAny, List.take_of_length_le (Nat.le_of_eq three), any, Bool.true_or]

theorem holds_eq_holds_iff (op : Perl.Operator) (u v rcv exp : List UInt8) :
    op.holds u v = op.holds rcv exp ↔ (u = v ↔ rcv = exp) := by
  cases op with
  | eq => rw [Perl.Operator.holds, Perl.Operator.holds, Bool.eq_iff_iff, beq_iff_eq, beq_iff_eq]
  | ne =>
      rw [Perl.Operator.holds, Perl.Operator.holds, Bool.eq_iff_iff, bne_iff_ne, bne_iff_ne,
        ne_eq, ne_eq, not_iff_not]

theorem legible_iff (op : Perl.Operator) (rcv exp : List UInt8) :
    Legible op rcv exp ↔
      Perl.comparison (Perl.spliced rcv op exp) = some (op.holds rcv exp) := by
  simp only [Perl.comparison_spliced, Legible, holds_eq_holds_iff]

/-- Only a comparison of strings in single quotes is sure to have its result. -/
theorem result_iff (source : List UInt8) (b : Bool) :
    (∀ eval, Obeys eval → (eval source).getD false = b) ↔ Perl.comparison source = some b := by
  constructor
  · intro results
    have obeys : Obeys fun source => some ((Perl.comparison source).getD !b) := by
      intro source b' truth
      simp only [truth, Option.getD_some]
    have result := results _ obeys
    cases truth : Perl.comparison source with
    | none => simp [truth] at result
    | some b' => simpa [truth] using result
  · intro truth eval obeys
    rw [obeys source b truth, Option.getD_some]

section

variable (eval : List UInt8 → Option Bool) (number : List UInt8 → ℚ) (field : String)
  (checked : List String) (rcv : List UInt8)

theorem judge_field_checked (mem : field ∈ checked) (exp : Option Expected) :
    judge_field eval number field checked (some rcv) exp none = true := by
  have found : (checked.any fun elm => field == elm && (none : Option String).isNone) = true :=
    List.any_eq_true.mpr ⟨field, mem, by simp⟩
  simp only [judge_field, set_comparator, found, if_true, compare, match_]
  rfl

theorem judge_field_undefined (cmp : Option String) :
    judge_field eval number field checked (some rcv) none cmp = true := by
  cases found : checked.any fun elm => field == elm && cmp.isNone with
  | true =>
      simp only [judge_field, set_comparator, found, if_true, compare, match_]
      rfl
  | false =>
      have any : mentionsAny (octets "any") = true := by decide
      simp only [judge_field, set_comparator, found, Bool.false_eq_true, if_false,
        Option.getD_none, Expected.text, any, if_true, compare, match_]
      rfl

theorem judge_field_mentions (exp : List UInt8) (any : mentionsAny exp = true)
    (cmp : Option String) :
    judge_field eval number field checked (some rcv) (some (.scalar exp)) cmp = true := by
  cases found : checked.any fun elm => field == elm && cmp.isNone with
  | true =>
      simp only [judge_field, set_comparator, found, if_true, compare, match_]
      rfl
  | false =>
      simp only [judge_field, set_comparator, found, Bool.false_eq_true, if_false,
        Option.getD_some, Expected.text, any, if_true, compare, match_]
      rfl

/-- A field that is compared. -/
theorem judge_field_asked (asked : Asked) (look : ¬ (asked = .default ∧ field ∈ checked))
    (exp : List UInt8) (none_ : mentionsAny exp = false) :
    judge_field eval number field checked (some rcv) (some (.scalar exp)) asked.cmp =
      (eval (Perl.spliced rcv asked.operator exp)).getD false := by
  have found : (checked.any fun elm => field == elm && asked.cmp.isNone) = false := by
    rw [Bool.eq_false_iff]
    intro skip
    obtain ⟨elm, mem, same⟩ := List.any_eq_true.mp skip
    rw [Bool.and_eq_true, beq_iff_eq] at same
    apply look
    cases asked with
    | default => exact ⟨rfl, same.1 ▸ mem⟩
    | nop => cases same.2
    | ne => cases same.2
  simp only [judge_field, set_comparator, found, Bool.false_eq_true, if_false, Option.getD_some,
    Expected.text, none_, compare, match_]
  cases asked <;>
    simp [Asked.cmp, Asked.operator, twoLetters, expression_eq _ .eq "eq" rfl,
      expression_eq _ .ne "ne" rfl]

end

theorem obeys_comparison : Obeys Perl.comparison := by
  intro source b truth
  exact truth

/-- The result of a comparison is the one that is due, whatever Perl makes of other sources, if
    and only if the condition is met. -/
theorem compares_iff (field : String) (checked : List String) (asked : Asked) (rcv : List UInt8)
    (exp : Option (List UInt8)) :
    (∀ eval number, Obeys eval →
      judge_field eval number field checked (some rcv) (exp.map .scalar) asked.cmp =
        due asked rcv exp) ↔
      Faithful field checked asked rcv exp := by
  -- where no source is evaluated the result is `TRUE`
  have passing (passes : ∀ eval number, judge_field eval number field checked (some rcv)
      (exp.map .scalar) asked.cmp = true) :
      (∀ eval number, Obeys eval →
        judge_field eval number field checked (some rcv) (exp.map .scalar) asked.cmp =
          due asked rcv exp) ↔ due asked rcv exp = true := by
    simp only [passes]
    constructor
    · intro results
      exact (results Perl.comparison (fun _ => 0) obeys_comparison).symm
    · intro result _ _ _
      exact result.symm
  unfold Faithful
  by_cases skip : asked = .default ∧ field ∈ checked
  · rw [if_pos skip]
    apply passing
    intro eval number
    rw [skip.1]
    exact judge_field_checked eval number field checked rcv skip.2 _
  · rw [if_neg skip]
    cases exp with
    | none =>
        refine (passing fun eval number => ?_).trans (iff_of_true rfl trivial)
        exact judge_field_undefined eval number field checked rcv _
    | some text =>
        cases any : mentionsAny text with
        | true =>
            simp only [any, if_true]
            apply passing
            intro eval number
            exact judge_field_mentions eval number field checked rcv text any _
        | false =>
            have other : isAny text = false := by
              rw [Bool.eq_false_iff]
              intro same
              rw [mentionsAny_of_isAny same] at any
              cases any
            simp only [any, Bool.false_eq_true, if_false]
            rw [legible_iff, ← result_iff]
            simp only [Option.map_some, due, other, Bool.false_or,
              judge_field_asked _ _ field checked rcv asked skip text any]
            constructor
            · intro results eval obeys
              exact results eval (fun _ => 0) obeys
            · intro results eval _ obeys
              exact results eval obeys

/-- A backslash more is received than expected. -/
theorem not_compares :
    ¬ ∀ eval number, Obeys eval →
      judge_field eval number "vendorID" [] (some [0x5c, 0x5c, 0x61]) (some (.scalar [0x5c, 0x61]))
        Asked.default.cmp = due .default [0x5c, 0x5c, 0x61] (some [0x5c, 0x61]) := by
  intro results
  have result := results Perl.comparison (fun _ => 0) obeys_comparison
  revert result
  decide

end Judge

end Tahi.Ike
