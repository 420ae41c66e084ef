import Mathlib.Data.List.Basic

/-! # Strings between single quotes

What the Perl lexer reads between single quotes: a backslash before a backslash or a quote
is left out, and all other octets stand for themselves. A source that compares two such
strings has their truth value.
-/

namespace Perl

/-- `'` -/
abbrev quote : UInt8 := 0x27

/-- `\` -/
abbrev backslash : UInt8 := 0x5c

/-- What two octets behind a backslash are read as. -/
@[grind =]
def escaped (d : UInt8) (v : List UInt8) : List UInt8 :=
  if d = backslash ∨ d = quote then d :: v else backslash :: d :: v

/-- Behind an opening quote: the string up to its closing quote, and what is left. -/
@[grind =]
def literal : List UInt8 → Option (List UInt8 × List UInt8)
  | [] => none
  | c :: s =>
      if c = quote then some ([], s)
      else if c = backslash then
        match s with
        | [] => none
        | d :: s => (literal s).map fun read => (escaped d read.1, read.2)
      else (literal s).map fun read => (c :: read.1, read.2)

/-- The string that is read when all of these octets are between the quotes: none of them
    closes the string, and none at the end takes the closing quote along. -/
@[grind =]
def body : List UInt8 → Option (List UInt8)
  | [] => some []
  | c :: s =>
      if c = quote then none
      else if c = backslash then
        match s with
        | [] => none
        | d :: s => (body s).map (escaped d)
      else (body s).map (c :: ·)

theorem literal_quote (s : List UInt8) : literal (quote :: s) = some ([], s) := by
  unfold literal
  rfl

theorem literal_escape (d : UInt8) (s : List UInt8) :
    literal (backslash :: d :: s) =
      (literal s).map fun read => (escaped d read.1, read.2) := by
  conv_lhs => unfold literal
  rfl

theorem literal_plain {c : UInt8} (plain : c ≠ quote) (plain' : c ≠ backslash) (s : List UInt8) :
    literal (c :: s) = (literal s).map fun read => (c :: read.1, read.2) := by
  conv_lhs => unfold literal
  rw [if_neg plain, if_neg plain']

theorem body_escape (d : UInt8) (s : List UInt8) :
    body (backslash :: d :: s) = (body s).map (escaped d) := by
  conv_lhs => unfold body
  rfl

theorem body_plain {c : UInt8} (plain : c ≠ quote) (plain' : c ≠ backslash) (s : List UInt8) :
    body (c :: s) = (body s).map (c :: ·) := by
  conv_lhs => unfold body
  rw [if_neg plain, if_neg plain']

theorem escaped_append (d : UInt8) (v l : List UInt8) : escaped d v ++ l = escaped d (v ++ l) := by
  unfold escaped
  split <;> rfl

/-- Octets between quotes are read before the ones behind them. -/
theorem literal_append {p v : List UInt8} (read : body p = some v) (t : List UInt8) :
    literal (p ++ t) = (literal t).map fun read => (v ++ read.1, read.2) := by
  fun_induction body p generalizing v with
  | case1 =>
      cases read
      simp
  | case2 => cases read
  | case3 => cases read
  | case4 d s _ ih =>
      obtain ⟨w, inner, rfl⟩ := Option.map_eq_some_iff.mp read
      simp only [List.cons_append, literal_escape, ih inner, Option.map_map]
      congr 1
      funext read
      simp only [Function.comp_apply, escaped_append]
  | case5 c s plain plain' ih =>
      obtain ⟨w, inner, rfl⟩ := Option.map_eq_some_iff.mp read
      simp only [List.cons_append, literal_plain plain plain', ih inner, Option.map_map]
      rfl

theorem body_append {p v : List UInt8} (read : body p = some v) (t : List UInt8) :
    body (p ++ t) = (body t).map (v ++ ·) := by
  fun_induction body p generalizing v with
  | case1 =>
      cases read
      simp
  | case2 => cases read
  | case3 => cases read
  | case4 d s _ ih =>
      obtain ⟨w, inner, rfl⟩ := Option.map_eq_some_iff.mp read
      simp only [List.cons_append, body_escape, ih inner, Option.map_map]
      congr 1
      funext read
      simp only [Function.comp_apply, escaped_append]
  | case5 c s plain plain' ih =>
      obtain ⟨w, inner, rfl⟩ := Option.map_eq_some_iff.mp read
      simp only [List.cons_append, body_plain plain plain', ih inner, Option.map_map]
      rfl

/-- All octets are read between the quotes, or one of them closes the string, or the last one
    takes the closing quote along. -/
theorem body_cases (s : List UInt8) :
    (∃ v, body s = some v) ∨
      (∃ p r v, s = p ++ quote :: r ∧ body p = some v) ∨
      ∃ p v, s = p ++ [backslash] ∧ body p = some v := by
  fun_induction body s with
  | case1 => exact .inl ⟨[], rfl⟩
  | case2 s => exact .inr (.inl ⟨[], s, [], rfl, rfl⟩)
  | case3 => exact .inr (.inr ⟨[], [], rfl, rfl⟩)
  | case4 d s _ ih =>
      rcases ih with ⟨v, read⟩ | ⟨p, r, v, rfl, read⟩ | ⟨p, v, rfl, read⟩
      · exact .inl ⟨_, by rw [read]; rfl⟩
      · refine .inr (.inl ⟨backslash :: d :: p, r, escaped d v, rfl, ?_⟩)
        rw [body_escape, read, Option.map_some]
      · refine .inr (.inr ⟨backslash :: d :: p, escaped d v, rfl, ?_⟩)
        rw [body_escape, read, Option.map_some]
  | case5 c s plain plain' ih =>
      have cons {p v : List UInt8} (read : body p = some v) : body (c :: p) = some (c :: v) := by
        rw [body_plain plain plain', read, Option.map_some]
      rcases ih with ⟨v, read⟩ | ⟨p, r, v, rfl, read⟩ | ⟨p, v, rfl, read⟩
      · exact .inl ⟨_, by rw [read]; rfl⟩
      · exact .inr (.inl ⟨c :: p, r, c :: v, rfl, cons read⟩)
      · exact .inr (.inr ⟨c :: p, c :: v, rfl, cons read⟩)

/-! ## Comparisons -/

inductive Operator where
  | eq
  | ne
deriving DecidableEq, Repr

namespace Operator

def text : Operator → List UInt8
  | eq => [0x65, 0x71]
  | ne => [0x6e, 0x65]

def holds (op : Operator) (u v : List UInt8) : Bool :=
  match op with
  | eq => u == v
  | ne => u != v

/-- The operator between blanks. -/
def word (op : Operator) : List UInt8 := 0x20 :: op.text ++ [0x20]

/-- The operator between blanks, and an opening quote. -/
def between (op : Operator) : List UInt8 := op.word ++ [quote]

/-- What is left behind an operator and an opening quote. -/
@[grind =]
def read (s : List UInt8) : Option (Operator × List UInt8) :=
  if s.take 5 = eq.between then some (eq, s.drop 5)
  else if s.take 5 = ne.between then some (ne, s.drop 5)
  else none

theorem read_between (op : Operator) (s : List UInt8) : read (op.between ++ s) = some (op, s) := by
  cases op <;> rfl

/-- The only quote is the last octet. -/
theorem between_ends {op : Operator} {r x : List UInt8} (splits : op.between = r ++ quote :: x) :
    x = [] := by
  by_contra more
  have inside : quote ∈ op.between.dropLast := by
    rw [splits, List.dropLast_append_of_ne_nil (List.cons_ne_nil _ _),
      List.dropLast_cons_of_ne_nil more]
    simp
  cases op <;> revert inside <;> decide

theorem eq_of_read {op : Operator} {s t : List UInt8} (reads : read s = some (op, t)) :
    s = op.between ++ t := by
  unfold read at reads
  split at reads
  · rename_i first
    cases reads
    rw [← first, List.take_append_drop]
  · split at reads
    · rename_i first
      cases reads
      rw [← first, List.take_append_drop]
    · cases reads

end Operator

/-- The truth value of a source that is a comparison of two strings in single quotes. -/
def comparison : List UInt8 → Option Bool
  | [] => none
  | c :: source =>
      if c = quote then do
        let (u, source) ← literal source
        let (op, source) ← Operator.read source
        let (v, source) ← literal source
        if source = [] then some (op.holds u v) else none
      else none

/-- Two strings are put between quotes as they are, with an operator between them. -/
def spliced (s : List UInt8) (op : Operator) (t : List UInt8) : List UInt8 :=
  quote :: (s ++ quote :: (op.between ++ (t ++ [quote])))

theorem literal_closed {s v : List UInt8} (read : body s = some v) (rest : List UInt8) :
    literal (s ++ quote :: rest) = some (v, rest) := by
  rw [literal_append read, literal_quote, Option.map_some, List.append_nil]

/-- The quote that was to close the string is a part of it. -/
theorem literal_taken {p v : List UInt8} (read : body p = some v) (rest : List UInt8) :
    literal (p ++ [backslash] ++ quote :: rest) =
      (literal rest).map fun read => (v ++ quote :: read.1, read.2) := by
  rw [List.append_assoc, literal_append read, List.singleton_append, literal_escape,
    Option.map_map]
  rfl

theorem body_word (op : Operator) : body op.word = some op.word := by
  cases op <;> rfl

theorem literal_between (op : Operator) (rest : List UInt8) :
    literal (op.between ++ rest) = some (op.word, rest) := by
  rw [Operator.between, List.append_assoc, List.singleton_append, literal_closed (body_word op)]

theorem not_body_quote (p r v : List UInt8) (read : body p = some v) :
    body (p ++ quote :: r) = none := by
  rw [body_append read]
  unfold body
  rfl

theorem not_body_backslash (p v : List UInt8) (read : body p = some v) :
    body (p ++ [backslash]) = none := by
  rw [body_append read]
  rfl

/-- A string with a quote and a string with an odd backslash at its end are not the same. -/
theorem quote_ne_backslash {p p' v v' : List UInt8} (read : body p = some v)
    (read' : body p' = some v') (r : List UInt8) : p ++ quote :: r ≠ p' ++ [backslash] := by
  intro same
  rw [List.append_eq_append_iff] at same
  rcases same with ⟨x, longer, left⟩ | ⟨x, -, left⟩
  · cases x with
    | nil => cases left
    | cons c x =>
        obtain ⟨isQuote, -⟩ := List.cons.inj left
        rw [longer, ← isQuote, not_body_quote p x v read] at read'
        cases read'
  · cases x with
    | nil => cases left
    | cons c x => simp at left

/-- Only a string that is read between the quotes ends the source. -/
theorem literal_last_iff (t v : List UInt8) :
    literal (t ++ [quote]) = some (v, []) ↔ body t = some v := by
  rcases body_cases t with ⟨w, read⟩ | ⟨p, r, w, rfl, read⟩ | ⟨p, w, rfl, read⟩
  · rw [literal_closed read, read]
    simp
  · rw [not_body_quote p r w read, List.append_assoc, List.cons_append, literal_closed read]
    simp
  · rw [not_body_backslash p w read, literal_taken read]
    simp [literal]

/-- A string that was opened too early does not end the source. -/
theorem literal_leaves (x t v : List UInt8) (op : Operator) :
    literal (x ++ quote :: (op.between ++ (t ++ [quote]))) ≠ some (v, []) := by
  rcases body_cases x with ⟨w, read⟩ | ⟨p, r, w, rfl, read⟩ | ⟨p, w, rfl, read⟩
  · rw [literal_closed read]
    simp
  · rw [List.append_assoc, List.cons_append, literal_closed read]
    simp
  · rw [literal_taken read, literal_between]
    simp

theorem comparison_iff (s : List UInt8) (b : Bool) :
    comparison (quote :: s) = some b ↔
      ∃ u rest op t v, literal s = some (u, rest) ∧ Operator.read rest = some (op, t) ∧
        literal t = some (v, []) ∧ op.holds u v = b := by
  simp only [comparison, if_true, Option.bind_eq_bind, Option.bind_eq_some_iff, Prod.exists]
  constructor
  · intro ⟨u, rest, first, op, t, reads, v, left, last, result⟩
    split at result
    · rename_i ended
      subst ended
      exact ⟨u, rest, op, t, v, first, reads, last, Option.some.inj result⟩
    · cases result
  · intro ⟨u, rest, op, t, v, first, reads, last, result⟩
    exact ⟨u, rest, first, op, t, reads, v, [], last, by rw [if_pos rfl, result]⟩

theorem comparison_closed {s u : List UInt8} (read : body s = some u) (op : Operator)
    (t : List UInt8) (b : Bool) :
    comparison (spliced s op t) = some b ↔ ∃ v, body t = some v ∧ op.holds u v = b := by
  rw [spliced, comparison_iff, literal_closed read]
  constructor
  · intro ⟨u', rest, op', t', v, first, reads, last, result⟩
    cases first
    rw [Operator.read_between] at reads
    cases reads
    exact ⟨v, (literal_last_iff t v).mp last, result⟩
  · intro ⟨v, last, result⟩
    exact ⟨u, _, op, _, v, rfl, Operator.read_between op _, (literal_last_iff t v).mpr last, result⟩

/-- Behind a quote in the first string there is no operator, or the second string is opened
    too early. -/
theorem comparison_quote {p u : List UInt8} (read : body p = some u) (r : List UInt8)
    (op : Operator) (t : List UInt8) : comparison (spliced (p ++ quote :: r) op t) = none := by
  rw [Option.eq_none_iff_forall_ne_some]
  intro b result
  rw [spliced, List.append_assoc, List.cons_append, comparison_iff, literal_closed read] at result
  obtain ⟨u', rest, op', t', v, first, reads, last, -⟩ := result
  cases first
  have split := Operator.eq_of_read reads
  rw [List.append_eq_append_iff] at split
  rcases split with ⟨x, early, left⟩ | ⟨x, -, left⟩
  · cases x with
    | nil =>
        rw [List.nil_append] at left
        rw [← left, literal_quote] at last
        simp at last
    | cons c x =>
        obtain ⟨isQuote, behind⟩ := List.cons.inj left
        rw [← isQuote] at early
        rw [Operator.between_ends early, List.append_eq, List.nil_append] at behind
        rw [← behind, literal_between] at last
        simp at last
  · rw [left] at last
    exact literal_leaves x t v op last

/-- Behind a backslash at the end of the first string, the string goes on up to where the
    second one was to be opened. -/
theorem comparison_backslash {p u : List UInt8} (read : body p = some u) (op : Operator)
    (t : List UInt8) (b : Bool) :
    comparison (spliced (p ++ [backslash]) op t) = some b ↔
      ∃ op' w v, t = Operator.between op' ++ w ∧ body w = some v ∧
        op'.holds (u ++ quote :: op.word) v = b := by
  rw [spliced, comparison_iff, literal_taken read, literal_between]
  constructor
  · intro ⟨u', rest, op', t', v, first, reads, last, result⟩
    cases first
    have split := Operator.eq_of_read reads
    rw [List.append_eq_append_iff] at split
    rcases split with ⟨x, early, left⟩ | ⟨w, late, left⟩
    · cases x with
      | nil =>
          rw [List.append_nil] at early
          rw [List.nil_append] at left
          rw [← left, literal_quote] at last
          cases last
          exact ⟨op', [], [], by rw [early, List.append_nil], rfl, result⟩
      | cons c x =>
          have none_left : t' = [] := by
            have := congrArg List.length left
            simp only [List.length_cons, List.length_nil, List.length_append] at this
            exact List.length_eq_zero_iff.mp (by omega)
          rw [none_left] at last
          cases last
    · rw [left] at last
      exact ⟨op', w, v, late, (literal_last_iff w v).mp last, result⟩
  · intro ⟨op', w, v, split, last, result⟩
    subst split
    refine ⟨_, _, op', w ++ [quote], v, rfl, ?_, (literal_last_iff w v).mpr last, result⟩
    rw [List.append_assoc, Operator.read_between]

/-- When a comparison of two strings put between quotes as they are has a truth value: both are
    read between their quotes, or the first takes its closing quote along and the second has an
    operator of its own. -/
theorem comparison_spliced (s : List UInt8) (op : Operator) (t : List UInt8) (b : Bool) :
    comparison (spliced s op t) = some b ↔
      (∃ u v, body s = some u ∧ body t = some v ∧ op.holds u v = b) ∨
        ∃ p u op' w v, s = p ++ [backslash] ∧ body p = some u ∧ t = Operator.between op' ++ w ∧
          body w = some v ∧ op'.holds (u ++ quote :: op.word) v = b := by
  rcases body_cases s with ⟨u, read⟩ | ⟨p, r, u, rfl, read⟩ | ⟨p, u, rfl, read⟩
  · rw [comparison_closed read]
    constructor
    · intro ⟨v, read', result⟩
      exact .inl ⟨u, v, read, read', result⟩
    · rintro (⟨u', v, read', last, result⟩ | ⟨p, u', op', w, v, rfl, early, -⟩)
      · rw [read] at read'
        cases read'
        exact ⟨v, last, result⟩
      · rw [not_body_backslash p u' early] at read
        cases read
  · rw [comparison_quote read]
    constructor
    · intro result
      cases result
    · rintro (⟨u', v, read', -⟩ | ⟨p', u', op', w, v, ends, early, -⟩)
      · rw [not_body_quote p r u read] at read'
        cases read'
      · exact absurd ends (quote_ne_backslash read early r)
  · rw [comparison_backslash read]
    constructor
    · intro ⟨op', w, v, split, last, result⟩
      exact .inr ⟨p, u, op', w, v, rfl, read, split, last, result⟩
    · rintro (⟨u', v, read', -⟩ | ⟨p', u', op', w, v, ends, early, split, last, result⟩)
      · rw [not_body_backslash p u read] at read'
        cases read'
      · obtain ⟨rfl, -⟩ := List.append_inj' ends rfl
        rw [read] at early
        cases early
        exact ⟨op', w, v, split, last, result⟩

end Perl
