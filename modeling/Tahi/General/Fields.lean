import Mathlib.Data.List.TakeWhile

/-! # Fields of a text

What stands between separators. Separators side by side, in front and at the end make no field
of their own. An induction over the fields of a text takes one of them at a time from its front.
-/

namespace Fields

variable {α : Type*} [DecidableEq α] {sep : α} {x str : List α}

@[grind =]
def fields (sep : α) (str : List α) : List (List α) := (str.splitOn sep).filter (· ≠ [])

theorem fields_nonempty (member : x ∈ fields sep str) : x ≠ [] :=
  of_decide_eq_true (List.mem_filter.mp member).2

@[simp] theorem fields_nil : fields sep [] = [] := by simp [fields]

@[simp] theorem fields_separator : fields sep (sep :: str) = fields sep str := by
  have split : ([] ++ sep :: str).splitOn sep = [] :: str.splitOn sep :=
    List.splitOn_append_cons_self_of_not_mem List.not_mem_nil str
  rw [List.nil_append] at split
  simp [fields, split]

theorem fields_plain (plain : sep ∉ x) (some_ : x ≠ []) : fields sep x = [x] := by
  simp [fields, List.splitOn_eq_singleton plain, some_]

theorem fields_cons (plain : sep ∉ x) (some_ : x ≠ []) :
    fields sep (x ++ sep :: str) = x :: fields sep str := by
  rw [fields, List.splitOn_append_cons_self_of_not_mem plain,
    List.filter_cons_of_pos (by simpa using some_)]
  rfl

/-- The first field, and what stands behind it. -/
theorem first_field (sep : α) (some_ : str ≠ []) (first : str.head? ≠ some sep) :
    ∃ x rest, str = x ++ rest ∧ sep ∉ x ∧ x ≠ [] ∧ (rest = [] ∨ ∃ more, rest = sep :: more) := by
  refine ⟨str.takeWhile (· ≠ sep), str.dropWhile (· ≠ sep),
    List.takeWhile_append_dropWhile.symm, ?_, ?_, ?_⟩
  · intro member
    have := List.mem_takeWhile_imp member
    simp at this
  · cases str with
    | nil => exact absurd rfl some_
    | cons c str =>
        have other : c ≠ sep := fun same => first (by rw [same]; rfl)
        simp [other]
  · cases rest : str.dropWhile (· ≠ sep) with
    | nil => exact .inl rfl
    | cons c more =>
        have at_sep := List.head?_dropWhile_not (· ≠ sep) str
        rw [rest] at at_sep
        have same : c = sep := by simpa using at_sep
        exact .inr ⟨more, by rw [same]⟩

/-- A text is empty, or it begins with a separator or with a field, which can be the last one. -/
theorem induction (sep : α) {P : List α → Prop} (empty : P []) (separator : ∀ str, P str → P (sep :: str))
    (last : ∀ x, sep ∉ x → x ≠ [] → P x)
    (cons : ∀ x str, sep ∉ x → x ≠ [] → P str → P (x ++ sep :: str)) (str : List α) : P str := by
  induction size : str.length using Nat.strong_induction_on generalizing str with
  | _ size_ ih =>
      cases str with
      | nil => exact empty
      | cons c str =>
          by_cases same : c = sep
          · subst same
            exact separator str (ih _ (by rw [← size, List.length_cons]; omega) str rfl)
          · obtain ⟨x, rest, parts, plain, some_, ends⟩ :=
              first_field sep (List.cons_ne_nil c str) (by simpa using same)
            rw [parts] at size ⊢
            obtain rfl | ⟨more, rfl⟩ := ends
            · rw [List.append_nil]
              exact last x plain some_
            · have shorter : more.length < size_ := by
                rw [← size, List.length_append, List.length_cons]
                omega
              exact cons x more plain some_ (ih _ shorter more rfl)

end Fields
