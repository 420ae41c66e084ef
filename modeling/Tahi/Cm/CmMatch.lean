import Tahi.General.RadixTree

/-! # `CmMatch`

The dictionary of the lexer: a radix tree of sibling rings that is built in place as
tokens arrive, and the search for the token that a text starts with.
-/

namespace Tahi.Cm

/-- A `char` of a text, which the NUL at its end is not. -/
abbrev CChar := {c : Int8 // c ≠ 0}

/-- `*s`. -/
@[grind =]
def first : List CChar → Int8
  | [] => 0
  | c :: _ => c.1

structure CmToken where
  string : RadixTree.Label CChar
deriving DecidableEq

/-- A node: its token, the piece of text on the way in, and the ring of the nodes below. -/
abbrev CmMatch := RadixTree.Node CChar CmToken

namespace CmMatch

abbrev token (m : CmMatch) : Option CmToken := m.value
abbrev string (m : CmMatch) : List CChar := m.label.1
abbrev org (m : CmMatch) : List CmMatch := m.children

def initial (m : CmMatch) : Int8 := first m.string

/-- Aborts on a node that has a token. -/
def setToken (m : CmMatch) (t : CmToken) : Option CmMatch :=
  match m.token with
  | some _ => none
  | none => some (.mk (some t) m.label m.org)

/-- Cuts the text of `m` at `l`. The new node goes in front of the node before `m`,
    and to the end of the ring when `m` is its first: `prev()` is the ring then. -/
def split (before : List CmMatch) (m : CmMatch) (after : List CmMatch) (l : Nat)
    (inside : 0 < l ∧ l < m.string.length) : List CmMatch × CmMatch × List CmMatch :=
  let upper : RadixTree.Label CChar := ⟨m.string.take l, by
    simp only [ne_eq, List.take_eq_nil_iff, not_or]
    exact ⟨Nat.ne_of_gt inside.1, m.label.2⟩⟩
  let lower : RadixTree.Label CChar := ⟨m.string.drop l, by
    simp only [ne_eq, List.drop_eq_nil_iff]
    omega⟩
  let ulm : CmMatch := .mk none upper [.mk m.token lower m.org]
  match before.getLast? with
  | none => (after, ulm, [])
  | some p => (before.dropLast, ulm, p :: after)

/-- The place in the ring where the loop stops, and the last initial it looked at. -/
def greaterEqualInitial.loop (c : Int8) : List CmMatch → Int8 →
    (List CmMatch × List CmMatch) × Int8
  | [], mi => (([], []), mi)
  | m :: p, _ =>
      if c ≤ m.initial then (([], m :: p), m.initial)
      else
        let ((before, q), mi) := greaterEqualInitial.loop c p m.initial
        ((m :: before, q), mi)

def greaterEqualInitial (org : List CmMatch) (c : Int8) : (List CmMatch × List CmMatch) × Int8 :=
  greaterEqualInitial.loop c org 0

def equalInitial (org : List CmMatch) (c : Int8) : Option CmMatch :=
  org.find? fun m => c = m.initial

/-- How far the two texts go together. -/
def scan : List CChar → List CChar → Nat
  | m :: mp, t :: ts => if t ≠ m then 0 else scan mp ts + 1
  | _, _ => 0

theorem scan_le (ms ts : List CChar) : scan ms ts ≤ ms.length ∧ scan ms ts ≤ ts.length := by
  fun_induction scan ms ts with
  | case1 => simp
  | case2 m mp t ts same ih => simp only [List.length_cons]; omega
  | case3 => simp

theorem first_eq_zero {s : List CChar} : first s = 0 ↔ s = [] := by
  cases s with
  | nil => simp [first]
  | cons c s => simp [first, c.2]

theorem scan_eq_length {ms ts : List CChar} (whole : first (ms.drop (scan ms ts)) = 0) :
    scan ms ts = ms.length := by
  have := scan_le ms ts
  rw [first_eq_zero, List.drop_eq_nil_iff] at whole
  omega

theorem scan_lt {ms ts : List CChar} (cut : first (ms.drop (scan ms ts)) ≠ 0) :
    scan ms ts < ms.length := by
  rw [ne_eq, first_eq_zero, List.drop_eq_nil_iff] at cut
  omega

theorem scan_pos {ms ts : List CChar} (some : ms ≠ []) (same : first ts = first ms) :
    0 < scan ms ts := by
  cases ms with
  | nil => exact absurd rfl some
  | cons m ms =>
      cases ts with
      | nil => exact absurd same.symm m.2
      | cons t ts =>
          have same : t = m := Subtype.ext same
          simp [scan, same]

theorem greaterEqualInitial_loop {c : Int8} {p before after : List CmMatch} {m : CmMatch}
    {mi mi' : Int8} (found : greaterEqualInitial.loop c p mi = ((before, m :: after), mi')) :
    mi' = m.initial := by
  induction p generalizing mi before with
  | nil => simp [greaterEqualInitial.loop] at found
  | cons n p ih =>
      rw [greaterEqualInitial.loop] at found
      split at found
      · cases found
        rfl
      · simp only [Prod.mk.injEq] at found
        obtain ⟨⟨-, stop⟩, last⟩ := found
        exact ih (Prod.ext (Prod.ext rfl stop) last)

mutual
def matchTokenString (before : List CmMatch) (m : CmMatch) (after : List CmMatch) (t : CmToken)
    (ts : RadixTree.Label CChar) (same : first ts.1 = m.initial) : Option (List CmMatch) :=
  let ms := m.string
  let l := scan ms ts.1
  let mc := first (ms.drop l)
  let tc := first (ts.1.drop l)
  if mc = 0 ∧ tc = 0 then (m.setToken t).map fun lm => before ++ lm :: after
  else
    let (before, lm, after) :=
      if cut : mc = 0 then (before, m, after)
      else split before m after l ⟨scan_pos m.label.2 same,
        scan_lt cut⟩
    if rest : tc = 0 then (lm.setToken t).map fun lm => before ++ lm :: after
    else
      (addTokenString lm.org t ⟨ts.1.drop l, fun h => rest (first_eq_zero.mpr h)⟩).map fun org =>
        before ++ .mk lm.token lm.label org :: after
termination_by 2 * ts.1.length
decreasing_by
  have positive : 0 < scan m.string ts.1 := scan_pos m.label.2 same
  have le := (scan_le m.string ts.1).2
  simp only [List.length_drop]
  omega

def addTokenString (org : List CmMatch) (t : CmToken) (ts : RadixTree.Label CChar) :
    Option (List CmMatch) :=
  let ti := first ts.1
  match _found : greaterEqualInitial org ti with
  | ((before, q), mi) =>
      if _same : ti ≠ mi then some (before ++ .mk (some t) ts [] :: q)
      else
        match q with
        | [] => none
        | m :: after => matchTokenString before m after t ts (by
            rw [← greaterEqualInitial_loop _found]
            exact not_not.mp _same)
termination_by 2 * ts.1.length + 1
end

mutual
def findMatchString (m : CmMatch) (ts : List CChar) : Option CmMatch :=
  let l := scan m.string ts
  if _h : first (m.string.drop l) ≠ 0 then none
  else
    match findString m.org (ts.drop l) with
    | none => some m
    | some child =>
        match findMatchString child (ts.drop l) with
        | none => some m
        | some lm => some lm
termination_by 2 * ts.length
decreasing_by
  all_goals
    have whole := scan_eq_length (not_not.mp _h)
    have le := (scan_le m.string ts).2
    have positive : 0 < m.string.length := List.length_pos_of_ne_nil m.label.2
    simp only [List.length_drop]
    omega

def findString (org : List CmMatch) (ts : List CChar) : Option CmMatch :=
  match equalInitial org (first ts) with
  | none => none
  | some lm => findMatchString lm ts
termination_by 2 * ts.length + 1
end

def findToken (s : List CChar) (o : List CmMatch) : Option CmToken :=
  (findString o s).bind token

def addToken (t : CmToken) (o : List CmMatch) : Option (List CmMatch) :=
  addTokenString o t t.string

/-! ## Additions -/

/-- The search for the place of an addition ends at a node with the initial, when the ring
    has one. -/
def InOrder (org : List CmMatch) (c : Int8) : Prop :=
  (equalInitial org c).isSome → (greaterEqualInitial org c).2 = c

instance (org : List CmMatch) (c : Int8) : Decidable (InOrder org c) :=
  inferInstanceAs (Decidable (_ → _))

/-- So it is in every ring that the addition of `ts` comes through. -/
def Clear (org : List CmMatch) (ts : List CChar) : Prop :=
  InOrder org (first ts) ∧ ∀ x ∈ RadixTree.walk org ts, InOrder x.1.children (first x.2)

instance (org : List CmMatch) (ts : List CChar) : Decidable (Clear org ts) :=
  inferInstanceAs (Decidable (_ ∧ _))

variable {org org' before q after : List CmMatch} {m : CmMatch} {t : CmToken} {c mi : Int8}
variable {ts : RadixTree.Label CChar} {s : List CChar}

theorem initial_eq (m : CmMatch) : m.initial = m.letter.1 := by
  obtain ⟨value, ⟨label, some⟩, children⟩ := m
  cases label with
  | nil => exact absurd rfl some
  | cons c label => rfl

theorem initial_ne_zero (m : CmMatch) : m.initial ≠ 0 := by
  rw [initial_eq]
  exact m.letter.2

theorem equalInitial_eq (org : List CmMatch) (s : List CChar) :
    equalInitial org (first s) = org.find? fun m => s.head? = some m.letter := by
  unfold equalInitial
  congr 1
  funext m
  cases s with
  | nil => simp [first, Ne.symm (initial_ne_zero m)]
  | cons c s => simp [first, initial_eq, Subtype.ext_iff]

theorem greaterEqualInitial_loop_spec (found : greaterEqualInitial.loop c org mi = ((before, q), mi')) :
    org = before ++ q ∧ (∀ m ∈ before, m.initial ≠ c) ∧
      (q = [] → mi' = mi ∨ ∃ m ∈ before, m.initial = mi') := by
  induction org generalizing mi before with
  | nil =>
      cases found
      simp
  | cons n p ih =>
      rw [greaterEqualInitial.loop] at found
      split at found
      · cases found
        simp
      · rename_i less
        simp only [Prod.mk.injEq] at found
        obtain ⟨⟨rfl, stop⟩, last⟩ := found
        obtain ⟨whole, passed, ending⟩ := ih (Prod.ext (Prod.ext rfl stop) last)
        refine ⟨by rw [List.cons_append, ← whole], ?_, ?_⟩
        · intro m mem
          cases mem with
          | head =>
              intro same
              exact less (same ▸ Int8.le_refl _)
          | tail _ mem => exact passed m mem
        · intro none
          rcases ending none with rfl | ⟨m, mem, same⟩
          · exact Or.inr ⟨n, List.mem_cons_self, rfl⟩
          · exact Or.inr ⟨m, List.mem_cons_of_mem _ mem, same⟩

/-- The search stops at a node with the initial when that is the last it looked at. -/
theorem greaterEqualInitial_spec (org : List CmMatch) (nonzero : c ≠ 0) :
    org = (greaterEqualInitial org c).1.1 ++ (greaterEqualInitial org c).1.2 ∧
      (∀ m ∈ (greaterEqualInitial org c).1.1, m.initial ≠ c) ∧
      ((greaterEqualInitial org c).2 = c →
        ∃ m after, (greaterEqualInitial org c).1.2 = m :: after ∧ m.initial = c) := by
  cases found : greaterEqualInitial org c with
  | mk places mi =>
      obtain ⟨before, q⟩ := places
      obtain ⟨whole, passed, ending⟩ := greaterEqualInitial_loop_spec found
      refine ⟨whole, passed, ?_⟩
      rintro rfl
      cases q with
      | nil =>
          rcases ending rfl with rfl | ⟨m, mem, same⟩
          · exact absurd rfl nonzero
          · exact absurd same (passed m mem)
      | cons m after => exact ⟨m, after, rfl, (greaterEqualInitial_loop found).symm⟩

theorem take_scan (ms ts : List CChar) : ms.take (scan ms ts) = ts.take (scan ms ts) := by
  fun_induction scan ms ts with
  | case1 => simp
  | case2 m mp t ts same ih =>
      rw [not_not.mp same]
      simp [ih]
  | case3 => simp

theorem first_scan (ms ts : List CChar)
    (same : first (ms.drop (scan ms ts)) = first (ts.drop (scan ms ts))) :
    first (ms.drop (scan ms ts)) = 0 := by
  fun_induction scan ms ts with
  | case1 m mp t ts other => exact absurd (Subtype.ext same.symm) other
  | case2 m mp t ts _ ih => exact ih same
  | case3 ms ts other =>
      cases ms with
      | nil => rfl
      | cons m mp =>
          cases ts with
          | nil => exact absurd same m.2
          | cons t ts => exact absurd rfl (other m mp t ts rfl)

/-- What an addition makes of the node that the text goes on with, unless it aborts. -/
inductive Change (m : CmMatch) (t : CmToken) : List CChar → Option CmMatch → Prop where
  | refused (t' : CmToken) (own : m.token = some t') : Change m t m.string none
  | own (none : m.token = none) : Change m t m.string (some (.mk (some t) m.label m.org))
  | below (rest : RadixTree.Label CChar) (r : Option (List CmMatch))
      (added : addTokenString m.org t rest = r) :
      Change m t (m.string ++ rest.1) (r.map fun org => .mk m.token m.label org)
  | upper (upper lower : RadixTree.Label CChar) (whole : m.string = upper.1 ++ lower.1) :
      Change m t upper.1 (some (.mk (some t) upper [.mk m.token lower m.org]))
  | cut (upper lower rest : RadixTree.Label CChar) (r : Option (List CmMatch))
      (whole : m.string = upper.1 ++ lower.1) (apart : first rest.1 ≠ first lower.1)
      (added : addTokenString [.mk m.token lower m.org] t rest = r) :
      Change m t (upper.1 ++ rest.1) (r.map fun org => .mk none upper org)

theorem split_node {l : Nat} {inside : 0 < l ∧ l < m.string.length}
    {before' after' : List CmMatch} {ulm : CmMatch}
    (cut : split before m after l inside = (before', ulm, after')) :
    ∃ upper lower : RadixTree.Label CChar, upper.1 = m.string.take l ∧ lower.1 = m.string.drop l ∧
      ulm = .mk none upper [.mk m.token lower m.org] := by
  unfold split at cut
  simp only at cut
  split at cut <;> cases cut <;> exact ⟨_, _, rfl, rfl, rfl⟩

theorem split_perm {l : Nat} {inside : 0 < l ∧ l < m.string.length}
    {before' after' : List CmMatch} {ulm : CmMatch}
    (cut : split before m after l inside = (before', ulm, after')) :
    (before' ++ after').Perm (before ++ after) := by
  unfold split at cut
  simp only at cut
  split at cut
  · rename_i empty
    cases cut
    rw [List.getLast?_eq_none_iff.mp empty]
    simp
  · rename_i p last
    cases cut
    obtain ⟨bs, rfl⟩ := List.getLast?_eq_some_iff.mp last
    simp

theorem matchTokenString_change (before : List CmMatch) (m : CmMatch) (after : List CmMatch)
    (t : CmToken) (ts : RadixTree.Label CChar) (same : first ts.1 = m.initial) :
    ∃ r before' after', Change m t ts.1 r ∧ (before' ++ after').Perm (before ++ after) ∧
      matchTokenString before m after t ts same = r.map fun lm => before' ++ lm :: after' := by
  have common := take_scan m.string ts.1
  have msWhole := List.take_append_drop (scan m.string ts.1) m.string
  have tsWhole := List.take_append_drop (scan m.string ts.1) ts.1
  have apart := first_scan m.string ts.1
  rw [matchTokenString]
  simp only
  by_cases mc : first (m.string.drop (scan m.string ts.1)) = 0
  · rw [first_eq_zero.mp mc, List.append_nil] at msWhole
    by_cases tc : first (ts.1.drop (scan m.string ts.1)) = 0
    · simp only [mc, tc, and_self, if_true]
      rw [first_eq_zero.mp tc, List.append_nil, ← common, msWhole] at tsWhole
      rw [← tsWhole]
      cases own : m.token with
      | none =>
          refine ⟨_, before, after, Change.own own, List.Perm.refl _, ?_⟩
          simp only [setToken, own, Option.map_some]
      | some t' =>
          refine ⟨_, before, after, Change.refused t' own, List.Perm.refl _, ?_⟩
          simp only [setToken, own, Option.map_none]
    · simp only [mc, tc, and_false, if_false, dite_true, dite_false]
      rw [← common, msWhole] at tsWhole
      let rest : RadixTree.Label CChar :=
        ⟨ts.1.drop (scan m.string ts.1), fun h => tc (first_eq_zero.mpr h)⟩
      have change := Change.below (m := m) (t := t) rest _ rfl
      rw [tsWhole] at change
      refine ⟨_, before, after, change, List.Perm.refl _, ?_⟩
      rw [Option.map_map]
      rfl
  · simp only [mc, false_and, if_false, dite_false]
    cases cut : split before m after (scan m.string ts.1) ⟨scan_pos m.label.2 same, scan_lt mc⟩ with
    | mk before' places =>
        obtain ⟨ulm, after'⟩ := places
        obtain ⟨upper, lower, hupper, hlower, rfl⟩ := split_node cut
        rw [← hupper, ← hlower] at msWhole
        by_cases tc : first (ts.1.drop (scan m.string ts.1)) = 0
        · rw [first_eq_zero.mp tc, List.append_nil, ← common, ← hupper] at tsWhole
          have change := Change.upper (t := t) upper lower msWhole.symm
          rw [tsWhole] at change
          refine ⟨_, before', after', change, split_perm cut, ?_⟩
          simp only [tc, dite_true, setToken, token, RadixTree.Node.value_mk]
          rfl
        · have differ : first (ts.1.drop (scan m.string ts.1)) ≠ first lower.1 := by
            intro h
            rw [hlower] at h
            exact mc (apart h.symm)
          rw [← common, ← hupper] at tsWhole
          simp only [tc, dite_false]
          let rest : RadixTree.Label CChar :=
            ⟨ts.1.drop (scan m.string ts.1), fun h => tc (first_eq_zero.mpr h)⟩
          have change := Change.cut (t := t) upper lower rest _ msWhole.symm differ rfl
          rw [tsWhole] at change
          refine ⟨_, before', after', change, split_perm cut, ?_⟩
          rw [Option.map_map]
          rfl

/-- What an addition does to a ring, up to the order of the nodes. -/
inductive Addition (org : List CmMatch) (t : CmToken) (ts : RadixTree.Label CChar) :
    Option (List CmMatch) → Prop where
  | fresh (ring : List CmMatch) (stops : (greaterEqualInitial org (first ts.1)).2 ≠ first ts.1)
      (same : ring.Perm (.mk (some t) ts [] :: org)) : Addition org t ts (some ring)
  | change (before after before' after' : List CmMatch) (m : CmMatch) (r : Option CmMatch)
      (whole : org = before ++ m :: after)
      (stops : (greaterEqualInitial org (first ts.1)).2 = first ts.1)
      (passed : ∀ n ∈ before, n.initial ≠ first ts.1) (initial : m.initial = first ts.1)
      (change : Change m t ts.1 r) (others : (before' ++ after').Perm (before ++ after)) :
      Addition org t ts (r.map fun lm => before' ++ lm :: after')

theorem addTokenString_addition (org : List CmMatch) (t : CmToken) (ts : RadixTree.Label CChar) :
    Addition org t ts (addTokenString org t ts) := by
  have nonzero : first ts.1 ≠ 0 := by
    rw [ne_eq, first_eq_zero]
    exact ts.2
  obtain ⟨whole, passed, stops⟩ := greaterEqualInitial_spec org nonzero
  rw [addTokenString]
  simp only
  split
  · rename_i other
    refine Addition.fresh _ (Ne.symm other) ?_
    nth_rewrite 3 [whole]
    exact List.perm_middle
  · rename_i same
    obtain ⟨m, after, behind, initial⟩ := stops (not_not.mp same).symm
    split
    · rename_i empty _
      rw [behind] at empty
      cases empty
    · rename_i m' after' _ behind' _
      rw [behind] at behind' whole
      cases behind'
      obtain ⟨r, before', after', change, others, result⟩ :=
        matchTokenString_change (greaterEqualInitial org (first ts.1)).1.1 m after t ts initial.symm
      rw [result]
      exact Addition.change _ after before' after' m r whole (not_not.mp same).symm passed initial
        change others

/-- A property of additions holds when a new node has it and when a change has it from the
    additions of what is left of the text. The induction is on the length of the text. -/
theorem addTokenString_rule {motive : List CmMatch → RadixTree.Label CChar → List CmMatch → Prop}
    (fresh : ∀ org ts ring, (greaterEqualInitial org (first ts.1)).2 ≠ first ts.1 →
      ring.Perm (.mk (some t) ts [] :: org) → motive org ts ring)
    (change : ∀ ts before after before' after' m r lm,
      (greaterEqualInitial (before ++ m :: after) (first ts.1)).2 = first ts.1 →
      (∀ n ∈ before, n.initial ≠ first ts.1) → m.initial = first ts.1 → Change m t ts.1 r →
      r = some lm → (before' ++ after').Perm (before ++ after) →
      (∀ org (rest : RadixTree.Label CChar) org', rest.1.length < ts.1.length →
        addTokenString org t rest = some org' → motive org rest org') →
      motive (before ++ m :: after) ts (before' ++ lm :: after'))
    (added : addTokenString org t ts = some org') : motive org ts org' := by
  induction h : ts.1.length using Nat.strongRecOn generalizing org ts org' with
  | ind k ih =>
      subst h
      have addition := addTokenString_addition org t ts
      generalize addTokenString org t ts = result at addition added
      cases addition with
      | fresh ring stops same =>
          cases added
          exact fresh _ _ _ stops same
      | change before after before' after' m r whole stops passed initial changes others =>
          obtain ⟨lm, node, rfl⟩ := Option.map_eq_some_iff.mp added
          subst whole
          exact change ts before after before' after' m r lm stops passed initial changes node others
            fun _ _ _ shorter added => ih _ shorter added rfl

theorem Change.entries {r : Option CmMatch} {lm : CmMatch} (change : Change m t s r) (node : r = some lm)
    (below : ∀ org (rest : RadixTree.Label CChar) org', rest.1.length < s.length →
      addTokenString org t rest = some org' →
        (RadixTree.entriesOf org').Perm ((rest.1, t) :: RadixTree.entriesOf org)) :
    lm.entries.Perm ((s, t) :: m.entries) := by
  obtain ⟨token, label, org⟩ := m
  cases change with
  | refused t' own => cases node
  | own none =>
      cases node
      cases none
      exact List.Perm.of_eq (RadixTree.entries_own label org t)
  | below rest r added =>
      obtain ⟨org', rfl, rfl⟩ := Option.map_eq_some_iff.mp node
      apply RadixTree.entries_below
      apply below _ _ _ _ added
      have positive : 0 < label.1.length := List.length_pos_of_ne_nil label.2
      simp only [string, RadixTree.Node.label_mk, List.length_append]
      omega
  | upper upper lower whole =>
      cases node
      have same := RadixTree.entries_cut token label org whole
      rw [← same]
      exact List.Perm.of_eq (RadixTree.entries_own upper _ t)
  | cut upper lower rest r whole apart added =>
      obtain ⟨org', rfl, rfl⟩ := Option.map_eq_some_iff.mp node
      have same := RadixTree.entries_cut token label org whole
      rw [← same]
      apply RadixTree.entries_below
      apply below _ _ _ _ added
      have positive : 0 < upper.1.length := List.length_pos_of_ne_nil upper.2
      simp only [List.length_append]
      omega

/-- An addition adds its token, with its text, to what the dictionary holds. -/
theorem addTokenString_entries (added : addTokenString org t ts = some org') :
    (RadixTree.entriesOf org').Perm ((ts.1, t) :: RadixTree.entriesOf org) := by
  refine addTokenString_rule (motive := fun org ts org' =>
    (RadixTree.entriesOf org').Perm ((ts.1, t) :: RadixTree.entriesOf org)) ?_ ?_ added
  · intro org ts ring stops same
    have new := RadixTree.entriesOf_perm same
    rwa [RadixTree.entriesOf_cons, RadixTree.entries_leaf] at new
  · intro ts before after before' after' m r lm stops passed initial change node others shorter
    have entries := change.entries node shorter
    have others := RadixTree.entriesOf_perm others
    calc (RadixTree.entriesOf (before' ++ lm :: after')).Perm _ :=
          RadixTree.entriesOf_perm List.perm_middle
      _ = lm.entries ++ RadixTree.entriesOf (before' ++ after') := RadixTree.entriesOf_cons
      List.Perm _ ((ts.1, t) :: m.entries ++ RadixTree.entriesOf (before ++ after)) :=
          entries.append others
      _ = (ts.1, t) :: RadixTree.entriesOf (m :: (before ++ after)) := by simp
      List.Perm _ ((ts.1, t) :: RadixTree.entriesOf (before ++ m :: after)) :=
          (RadixTree.entriesOf_perm List.perm_middle.symm).cons _

/-- An addition aborts only on a text that the dictionary holds. -/
theorem held_of_addTokenString (aborts : addTokenString org t ts = none) :
    ∃ t', (ts.1, t') ∈ RadixTree.entriesOf org := by
  induction h : ts.1.length using Nat.strongRecOn generalizing org ts with
  | ind k ih =>
      subst h
      have addition := addTokenString_addition org t ts
      generalize addTokenString org t ts = result at addition aborts
      cases addition with
      | fresh ring stops same => cases aborts
      | change before after before' after' m r whole stops passed initial change others =>
          have node := Option.map_eq_none_iff.mp aborts
          have inRing : m ∈ org := by simp [whole]
          suffices held : ∃ t', (ts.1, t') ∈ m.entries by
            obtain ⟨t', held⟩ := held
            exact ⟨t', RadixTree.mem_entriesOf.mpr ⟨m, inRing, held⟩⟩
          clear whole passed initial stops others inRing aborts
          obtain ⟨s, some⟩ := ts
          simp only at change ih ⊢
          cases change with
          | refused t' own => exact ⟨t', RadixTree.Node.mem_entries.mpr (Or.inl ⟨own, rfl⟩)⟩
          | own none => cases node
          | below rest r added =>
              have positive : 0 < m.string.length := List.length_pos_of_ne_nil m.label.2
              have held := ih rest.1.length (by simp only [List.length_append]; omega)
                (added.trans (Option.map_eq_none_iff.mp node)) rfl
              obtain ⟨t', held⟩ := held
              exact ⟨t', RadixTree.Node.mem_entries.mpr (Or.inr ⟨rest.1, held, rfl⟩)⟩
          | upper upper lower whole => cases node
          | cut upper lower rest r whole apart added =>
              have positive : 0 < upper.1.length := List.length_pos_of_ne_nil upper.2
              have held := ih rest.1.length (by simp only [List.length_append]; omega)
                (added.trans (Option.map_eq_none_iff.mp node)) rfl
              obtain ⟨t', held⟩ := held
              obtain ⟨token, label, org⟩ := m
              refine ⟨t', ?_⟩
              have same := RadixTree.entries_cut token label org whole
              rw [← same]
              exact RadixTree.Node.mem_entries.mpr (Or.inr ⟨rest.1, held, rfl⟩)

theorem Change.full {lm : CmMatch} {r : Option CmMatch} (change : Change m t s r)
    (node : r = some lm) (holds : m.entries ≠ []) (full : RadixTree.Full m.org)
    (below : ∀ org (rest : RadixTree.Label CChar) org', rest.1.length < s.length →
      addTokenString org t rest = some org' → RadixTree.Full org → RadixTree.Full org') :
    RadixTree.Full lm.children := by
  obtain ⟨token, label, org⟩ := m
  have lower_full {upper lower : RadixTree.Label CChar} (whole : label.1 = upper.1 ++ lower.1) :
      RadixTree.Full [RadixTree.Node.mk token lower org] := by
    rw [RadixTree.full_cons]
    refine ⟨?_, full, RadixTree.full_nil⟩
    rintro none
    rw [← RadixTree.entries_cut token label org whole] at holds
    simp [RadixTree.Node.entries_eq (.mk _ _ [_]), none] at holds
  cases change with
  | refused t' own => cases node
  | own none =>
      cases node
      exact full
  | below rest r added =>
      obtain ⟨org', rfl, rfl⟩ := Option.map_eq_some_iff.mp node
      have positive : 0 < label.1.length := List.length_pos_of_ne_nil label.2
      exact below _ rest _ (by simp only [string, RadixTree.Node.label_mk, List.length_append]; omega)
        added full
  | upper upper lower whole =>
      cases node
      exact lower_full whole
  | cut upper lower rest r whole apart added =>
      obtain ⟨org', rfl, rfl⟩ := Option.map_eq_some_iff.mp node
      have positive : 0 < upper.1.length := List.length_pos_of_ne_nil upper.2
      exact below _ rest _ (by simp only [List.length_append]; omega) added (lower_full whole)

/-- Every node of the dictionary holds a token, itself or below. -/
theorem addTokenString_full (added : addTokenString org t ts = some org')
    (full : RadixTree.Full org) : RadixTree.Full org' := by
  refine addTokenString_rule (motive := fun org _ org' =>
    RadixTree.Full org → RadixTree.Full org') ?_ ?_ added full
  · intro org ts ring stops same full
    refine RadixTree.Full.perm ?_ same.symm
    rw [RadixTree.full_cons]
    exact ⟨by simp, RadixTree.full_nil, full⟩
  · intro ts before after before' after' m r lm stops passed initial change node others shorter full
    have full := full.perm List.perm_middle
    rw [RadixTree.full_cons] at full
    obtain ⟨holds, inner, rest⟩ := full
    have entries := change.entries node fun _ _ _ _ added => addTokenString_entries added
    refine RadixTree.Full.perm ?_ List.perm_middle.symm
    rw [RadixTree.full_cons]
    refine ⟨?_, ?_, rest.perm others.symm⟩
    · intro none
      rw [none] at entries
      exact List.cons_ne_nil _ _ entries.nil_eq.symm
    · exact change.full node holds inner shorter

theorem letter_eq_iff {n : CmMatch} : m.letter = n.letter ↔ m.initial = n.initial := by
  rw [initial_eq, initial_eq, Subtype.ext_iff]

theorem equalInitial_none : equalInitial org c = none ↔ ∀ m ∈ org, m.initial ≠ c := by
  simp only [equalInitial, List.find?_eq_none, decide_eq_true_eq]
  exact forall₂_congr fun m mem => ne_comm

theorem step_eq (org : List CmMatch) (s : List CChar) :
    RadixTree.step org s =
      match equalInitial org (first s) with
      | none => none
      | some n => if n.label.1 <+: s then some (n, s.drop n.label.1.length) else none := by
  rw [equalInitial_eq, RadixTree.step]
  cases org.find? fun m => s.head? = some m.letter <;> rfl

theorem clear_of_none (none : equalInitial org (first s) = none) : Clear org s := by
  constructor
  · intro found
    rw [none] at found
    cases found
  · intro x mem
    rw [RadixTree.walk_of_none (by rw [step_eq, none])] at mem
    cases mem

theorem clear_nil (org : List CmMatch) : Clear org [] :=
  clear_of_none (equalInitial_none.mpr fun m _ => initial_ne_zero m)

/-- What is left to check when the search of a ring stops at `m`. -/
theorem clear_iff (stops : (greaterEqualInitial org (first s)).2 = first s)
    (found : equalInitial org (first s) = some m) :
    Clear org s ↔ ∀ rest, s = m.string ++ rest → Clear m.org rest := by
  have next := step_eq org s
  simp only [found] at next
  constructor
  · rintro ⟨-, below⟩ rest rfl
    rw [if_pos (List.prefix_append _ _), List.drop_left] at next
    rw [RadixTree.walk_of_some next] at below
    exact ⟨below _ List.mem_cons_self, fun x mem => below x (List.mem_cons_of_mem _ mem)⟩
  · intro below
    refine ⟨fun _ => stops, ?_⟩
    intro x mem
    by_cases begins : m.string <+: s
    · obtain ⟨rest, rfl⟩ := begins
      rw [if_pos (List.prefix_append _ _), List.drop_left] at next
      rw [RadixTree.walk_of_some next] at mem
      obtain ⟨inOrder, clear⟩ := below rest rfl
      cases mem with
      | head => exact inOrder
      | tail _ mem => exact clear x mem
    · rw [if_neg begins] at next
      rw [RadixTree.walk_of_none next] at mem
      cases mem

theorem Change.letter {lm : CmMatch} {r : Option CmMatch} (change : Change m t s r)
    (node : r = some lm) : lm.letter = m.letter := by
  rw [letter_eq_iff]
  have of_upper {upper lower : RadixTree.Label CChar} (whole : m.string = upper.1 ++ lower.1) :
      first upper.1 = m.initial := by
    rw [initial, whole]
    cases h : upper.1 with
    | nil => exact absurd h upper.2
    | cons c s => rfl
  cases change with
  | refused t' own => cases node
  | own none =>
      cases node
      rfl
  | below rest r added =>
      obtain ⟨org', rfl, rfl⟩ := Option.map_eq_some_iff.mp node
      rfl
  | upper upper lower whole =>
      cases node
      exact of_upper whole
  | cut upper lower rest r whole apart added =>
      obtain ⟨org', rfl, rfl⟩ := Option.map_eq_some_iff.mp node
      exact of_upper whole

theorem Change.distinct {lm : CmMatch} {r : Option CmMatch} (change : Change m t s r)
    (node : r = some lm)
    (below : ∀ org (rest : RadixTree.Label CChar) org', rest.1.length < s.length →
      addTokenString org t rest = some org' →
        (RadixTree.Distinct org' ↔ RadixTree.Distinct org ∧ Clear org rest.1)) :
    RadixTree.Distinct lm.children ↔
      RadixTree.Distinct m.org ∧ ∀ rest, s = m.string ++ rest → Clear m.org rest := by
  cases change with
  | refused t' own => cases node
  | own none =>
      cases node
      have clear : ∀ rest, m.string = m.string ++ rest → Clear m.org rest := by
        intro rest whole
        rw [List.self_eq_append_right.mp whole]
        exact clear_nil _
      exact (and_iff_left clear).symm
  | below rest r added =>
      obtain ⟨org', rfl, rfl⟩ := Option.map_eq_some_iff.mp node
      have positive : 0 < m.string.length := List.length_pos_of_ne_nil m.label.2
      have inner := below _ _ _ (by simp only [List.length_append]; omega) added
      simp only [RadixTree.Node.children_mk, inner, List.append_cancel_left_eq, forall_eq']
  | upper upper lower whole =>
      cases node
      have clear : ∀ rest, upper.1 = m.string ++ rest → Clear m.org rest := by
        intro rest same
        have positive := List.length_pos_of_ne_nil lower.2
        have lengths := congrArg List.length same
        simp only [whole, List.length_append] at lengths
        omega
      rw [and_iff_left clear]
      simp [RadixTree.distinct_cons]
  | cut upper lower rest r whole apart added =>
      obtain ⟨org', rfl, rfl⟩ := Option.map_eq_some_iff.mp node
      have positive : 0 < upper.1.length := List.length_pos_of_ne_nil upper.2
      have inner := below _ _ _ (by simp only [List.length_append]; omega) added
      have clear : ∀ rest', upper.1 ++ rest.1 = m.string ++ rest' → Clear m.org rest' := by
        intro rest' same
        rw [whole, List.append_assoc, List.append_cancel_left_eq] at same
        exfalso
        apply apart
        rw [same]
        cases h : lower.1 with
        | nil => exact absurd h lower.2
        | cons c s => rfl
      have alone : Clear [RadixTree.Node.mk m.token lower m.org] rest.1 := by
        apply clear_of_none
        rw [equalInitial_none]
        intro n mem
        cases List.mem_singleton.mp mem
        exact Ne.symm apart
      rw [and_iff_left clear, RadixTree.Node.children_mk, inner, and_iff_left alone]
      simp [RadixTree.distinct_cons]

/-- An addition keeps the initials of each ring distinct exactly when its way is clear. -/
theorem addTokenString_distinct (added : addTokenString org t ts = some org') :
    RadixTree.Distinct org' ↔ RadixTree.Distinct org ∧ Clear org ts.1 := by
  refine addTokenString_rule (motive := fun org ts org' =>
    (RadixTree.Distinct org' ↔ RadixTree.Distinct org ∧ Clear org ts.1)) ?_ ?_ added
  · intro org ts ring stops same
    have none : Clear org ts.1 ↔ ∀ m ∈ org, m.initial ≠ first ts.1 := by
      rw [← equalInitial_none]
      constructor
      · rintro ⟨inOrder, -⟩
        exact Option.eq_none_iff_forall_ne_some.mpr fun m found =>
          stops (inOrder (by rw [found]; rfl))
      · exact clear_of_none
    rw [RadixTree.distinct_perm same, RadixTree.distinct_cons, none]
    simp only [letter_eq_iff, ne_eq, RadixTree.Node.children_mk, RadixTree.distinct_nil, true_and]
    exact and_comm
  · intro ts before after before' after' m r lm stops passed initial change node others shorter
    have inner := change.distinct node shorter
    have letter := change.letter node
    have found : equalInitial (before ++ m :: after) (first ts.1) = some m := by
      have skipped : before.find? (fun n => first ts.1 = n.initial) = none := by
        simpa using fun n mem => Ne.symm (passed n mem)
      simp [equalInitial, List.find?_append, skipped, initial]
    have old : RadixTree.Distinct (before ++ m :: after) ↔
        RadixTree.Distinct (m :: (before ++ after)) := RadixTree.distinct_perm List.perm_middle
    rw [clear_iff stops found, old, RadixTree.distinct_perm List.perm_middle,
      RadixTree.distinct_perm (others.cons lm), RadixTree.distinct_cons,
      RadixTree.distinct_cons, inner, letter]
    tauto

end CmMatch

end Tahi.Cm
