import Mathlib.Data.List.Nodup
import Mathlib.Data.List.Perm.Basic

/-! # Radix trees

Rings of nodes with texts on the way in. What a ring holds does not depend on the order
of its nodes, nor on where a text is cut into nodes. A walk passes the nodes whose texts
a given text begins with, and when the nodes of each ring differ in their first letters
it passes every entry that the text begins with.
-/

namespace RadixTree

/-- The text on the way into a node. -/
abbrev Label (α : Type) := {s : List α // s ≠ []}

inductive Node (α τ : Type) where
  | mk (value : Option τ) (label : Label α) (children : List (Node α τ))

variable {α τ : Type}

namespace Node

def value : Node α τ → Option τ
  | mk value _ _ => value

def label : Node α τ → Label α
  | mk _ label _ => label

def children : Node α τ → List (Node α τ)
  | mk _ _ children => children

/-- The first letter on the way in. -/
def letter (n : Node α τ) : α := n.label.1.head n.label.2

@[simp] theorem value_mk (value : Option τ) (label : Label α) (children : List (Node α τ)) :
    (mk value label children).value = value := rfl

@[simp] theorem label_mk (value : Option τ) (label : Label α) (children : List (Node α τ)) :
    (mk value label children).label = label := rfl

@[simp] theorem children_mk (value : Option τ) (label : Label α) (children : List (Node α τ)) :
    (mk value label children).children = children := rfl

end Node

mutual
/-- What a node holds: each value with its text. -/
@[grind =]
def Node.entries : Node α τ → List (List α × τ)
  | .mk value label children =>
      value.toList.map (fun t => (label.1, t)) ++
        (entriesOf children).map fun e => (label.1 ++ e.1, e.2)

@[grind =]
def entriesOf : List (Node α τ) → List (List α × τ)
  | [] => []
  | n :: ring => n.entries ++ entriesOf ring
end

/-- The nodes of each ring differ in their first letters. -/
inductive Distinct : List (Node α τ) → Prop where
  | mk {ring : List (Node α τ)} (initials : (ring.map Node.letter).Nodup)
      (below : ∀ n ∈ ring, Distinct n.children) : Distinct ring

/-- `r` is the longest entry that `s` begins with. -/
@[grind =]
def Longest (entries : List (List α × τ)) (s : List α) : Option τ → Prop
  | none => ∀ e ∈ entries, ¬ e.1 <+: s
  | some t => ∃ u, (u, t) ∈ entries ∧ u <+: s ∧ ∀ e ∈ entries, e.1 <+: s → e.1.length ≤ u.length

variable {ring ring' : List (Node α τ)} {n m k : Node α τ} {u s : List α} {t : τ}

theorem Node.entries_eq (n : Node α τ) :
    n.entries = n.value.toList.map (fun t => (n.label.1, t)) ++
      (entriesOf n.children).map fun e => (n.label.1 ++ e.1, e.2) := by
  cases n with
  | mk value label children => simp only [Node.entries, Node.value, Node.label, Node.children]

@[simp] theorem entriesOf_nil : entriesOf ([] : List (Node α τ)) = [] := by
  simp only [entriesOf]

@[simp] theorem entriesOf_cons : entriesOf (n :: ring) = n.entries ++ entriesOf ring := by
  simp only [entriesOf]

theorem entriesOf_eq_flatMap (ring : List (Node α τ)) :
    entriesOf ring = ring.flatMap Node.entries := by
  induction ring with
  | nil => simp
  | cons n ring ih => simp [ih]

theorem mem_entriesOf {e : List α × τ} : e ∈ entriesOf ring ↔ ∃ n ∈ ring, e ∈ n.entries := by
  simp [entriesOf_eq_flatMap]

theorem Node.mem_entries :
    (u, t) ∈ n.entries ↔
      (n.value = some t ∧ u = n.label.1) ∨ ∃ v, (v, t) ∈ entriesOf n.children ∧ u = n.label.1 ++ v := by
  rw [Node.entries_eq]
  constructor
  · intro h
    simp only [List.mem_append, List.mem_map, Option.mem_toList, Prod.mk.injEq] at h
    rcases h with ⟨t', own, rfl, rfl⟩ | ⟨e, inner, rfl, rfl⟩
    · exact Or.inl ⟨own, rfl⟩
    · exact Or.inr ⟨e.1, inner, rfl⟩
  · rintro (⟨own, rfl⟩ | ⟨v, inner, rfl⟩)
    · simp [own]
    · simp only [List.mem_append, List.mem_map]
      exact Or.inr ⟨(v, t), inner, rfl⟩

theorem Node.label_prefix_of_mem (held : (u, t) ∈ n.entries) : n.label.1 <+: u := by
  rcases Node.mem_entries.mp held with ⟨-, rfl⟩ | ⟨v, -, rfl⟩
  · exact List.prefix_rfl
  · exact List.prefix_append _ _

/-! ## Changes of a ring -/

theorem entriesOf_perm (same : ring.Perm ring') : (entriesOf ring).Perm (entriesOf ring') := by
  simp only [entriesOf_eq_flatMap]
  exact same.flatMap_right _

theorem Distinct.perm (distinct : Distinct ring) (same : ring.Perm ring') : Distinct ring' := by
  cases distinct with
  | mk initials below =>
      exact ⟨(same.map _).nodup_iff.mp initials, fun n mem => below n (same.mem_iff.mpr mem)⟩

theorem distinct_perm (same : ring.Perm ring') : Distinct ring ↔ Distinct ring' :=
  ⟨fun distinct => distinct.perm same, fun distinct => distinct.perm same.symm⟩

@[simp] theorem distinct_nil : Distinct ([] : List (Node α τ)) :=
  ⟨List.nodup_nil, fun _ mem => by cases mem⟩

theorem distinct_cons :
    Distinct (n :: ring) ↔
      (∀ m ∈ ring, m.letter ≠ n.letter) ∧ Distinct n.children ∧ Distinct ring := by
  constructor
  · intro distinct
    cases distinct with
    | mk initials below =>
        simp only [List.map_cons, List.nodup_cons, List.mem_map, not_exists, not_and] at initials
        exact ⟨initials.1, below n List.mem_cons_self, initials.2,
          fun m mem => below m (List.mem_cons_of_mem _ mem)⟩
  · rintro ⟨apart, inner, distinct⟩
    cases distinct with
    | mk initials below =>
        constructor
        · simp only [List.map_cons, List.nodup_cons, List.mem_map, not_exists, not_and]
          exact ⟨apart, initials⟩
        · intro m mem
          cases mem with
          | head => exact inner
          | tail _ mem => exact below m mem

@[simp] theorem entries_leaf (label : Label α) (t : τ) :
    (Node.mk (some t) label []).entries = [(label.1, t)] := by
  simp [Node.entries]

theorem entries_own (label : Label α) (ring : List (Node α τ)) (t : τ) :
    (Node.mk (some t) label ring).entries = (label.1, t) :: (Node.mk none label ring).entries := by
  simp [Node.entries]

theorem entries_below (value : Option τ) (label : Label α)
    (added : (entriesOf ring').Perm ((u, t) :: entriesOf ring)) :
    (Node.mk value label ring').entries.Perm ((label.1 ++ u, t) :: (Node.mk value label ring).entries) := by
  have inner := added.map fun e => (label.1 ++ e.1, e.2)
  rw [List.map_cons] at inner
  simp only [Node.entries]
  exact (inner.append_left _).trans List.perm_middle

/-- Where the text on the way in is cut makes no difference. -/
theorem entries_cut {upper lower : Label α} (value : Option τ) (label : Label α)
    (ring : List (Node α τ)) (whole : label.1 = upper.1 ++ lower.1) :
    (Node.mk none upper [.mk value lower ring]).entries = (Node.mk value label ring).entries := by
  simp [Node.entries, whole, Function.comp_def, List.append_assoc]

theorem head?_of_prefix_label (begins : n.label.1 <+: s) : s.head? = some n.letter := by
  obtain ⟨rest, rfl⟩ := begins
  rw [List.head?_append_of_ne_nil _ n.label.2, List.head?_eq_some_head n.label.2]
  rfl

theorem eq_of_initial (distinct : Distinct ring) (left : n ∈ ring) (right : m ∈ ring)
    (same : n.letter = m.letter) : n = m := by
  cases distinct with
  | mk initials below => exact List.inj_on_of_nodup_map initials left right same

theorem Longest.perm {entries entries' : List (List α × τ)} (same : entries.Perm entries')
    {r : Option τ} (longest : Longest entries s r) : Longest entries' s r := by
  cases r with
  | none => exact fun e mem => longest e (same.mem_iff.mpr mem)
  | some t =>
      obtain ⟨u, mem, begins, least⟩ := longest
      exact ⟨u, same.mem_iff.mp mem, begins, fun e mem => least e (same.mem_iff.mpr mem)⟩

theorem Longest.unique {entries : List (List α × τ)} {r r' : Option τ}
    (once : (entries.map Prod.fst).Nodup) (left : Longest entries s r) (right : Longest entries s r') :
    r = r' := by
  cases r with
  | none =>
      cases r' with
      | none => rfl
      | some t' =>
          obtain ⟨u, mem, begins, -⟩ := right
          exact absurd begins (left _ mem)
  | some t =>
      obtain ⟨u, mem, begins, longest⟩ := left
      cases r' with
      | none => exact absurd begins (right _ mem)
      | some t' =>
          obtain ⟨u', mem', begins', longest'⟩ := right
          have same : u = u' := by
            have le := longest _ mem' begins'
            have ge := longest' _ mem begins
            exact (List.prefix_of_prefix_length_le begins begins' ge).eq_of_length
              (Nat.le_antisymm ge le)
          subst same
          cases List.inj_on_of_nodup_map once mem mem' rfl
          rfl

/-- The last value of an ordered list stands behind all others. -/
theorem last_of_pairwise {β : Type} {R : β → β → Prop} {l : List β} {f : β → Option τ}
    (order : l.Pairwise R) (last : (l.filterMap f).getLast? = some t) :
    ∃ x ∈ l, f x = some t ∧ ∀ y ∈ l, f y ≠ none → y = x ∨ R y x := by
  obtain ⟨ts, found⟩ := List.getLast?_eq_some_iff.mp last
  obtain ⟨l₁, l₂, rfl, -, found⟩ := List.filterMap_eq_append_iff.mp found
  obtain ⟨l₂, x, l₃, rfl, skipped, own, nothing⟩ := List.filterMap_eq_cons_iff.mp found
  refine ⟨x, by simp, own, fun y mem some => ?_⟩
  simp only [List.mem_append, List.mem_cons] at mem
  rcases mem with before | between | rfl | behind
  · exact Or.inr (List.pairwise_append.mp order |>.2.2 y before x (by simp))
  · exact absurd (skipped y between) some
  · exact Or.inl rfl
  · exact absurd (List.filterMap_eq_nil_iff.mp nothing y behind) some

/-! ## Walks -/

section Walk

variable [DecidableEq α]

/-- The first node that `s` may go on with, and what follows it when `s` does. -/
@[grind =]
def step (ring : List (Node α τ)) (s : List α) : Option (Node α τ × List α) :=
  match ring.find? (fun n => s.head? = some n.letter) with
  | none => none
  | some n => if n.label.1 <+: s then some (n, s.drop n.label.1.length) else none

theorem append_of_step {rest : List α} (passed : step ring s = some (n, rest)) :
    n ∈ ring ∧ n.label.1 ++ rest = s := by
  unfold step at passed
  split at passed
  · cases passed
  · rename_i m found
    split at passed
    · rename_i begins
      cases passed
      exact ⟨List.mem_of_find?_eq_some found, (List.prefix_iff_eq_append.mp begins)⟩
    · cases passed

theorem step_length {rest : List α} (passed : step ring s = some (n, rest)) :
    rest.length < s.length := by
  have whole := (append_of_step passed).2
  have positive := List.length_pos_of_ne_nil n.label.2
  rw [← whole, List.length_append]
  omega

/-- The nodes that `s` passes, each with what follows it in `s`. -/
def walk (ring : List (Node α τ)) (s : List α) : List (Node α τ × List α) :=
  match _h : step ring s with
  | none => []
  | some (n, rest) => (n, rest) :: walk n.children rest
termination_by s.length
decreasing_by exact step_length _h

theorem walk_of_none (stops : step ring s = none) : walk ring s = [] := by
  rw [walk]
  split
  · rfl
  · simp_all

theorem walk_of_some {rest : List α} (passed : step ring s = some (n, rest)) :
    walk ring s = (n, rest) :: walk n.children rest := by
  rw [walk]
  split <;> simp_all

theorem walk_length {x : Node α τ × List α} (mem : x ∈ walk ring s) : x.2.length < s.length := by
  induction h : s.length using Nat.strongRecOn generalizing ring s with
  | ind k ih =>
      subst h
      cases passed : step ring s with
      | none => simp [walk_of_none passed] at mem
      | some next =>
          obtain ⟨n, rest⟩ := next
          have shorter := step_length passed
          rw [walk_of_some passed] at mem
          cases mem with
          | head => exact shorter
          | tail _ mem => exact Nat.lt_trans (ih _ shorter mem rfl) shorter

/-- The text gets used up on the way. -/
theorem walk_pairwise (ring : List (Node α τ)) (s : List α) :
    (walk ring s).Pairwise fun x y => y.2.length < x.2.length := by
  induction h : s.length using Nat.strongRecOn generalizing ring s with
  | ind k ih =>
      subst h
      cases passed : step ring s with
      | none => simp [walk_of_none passed]
      | some next =>
          obtain ⟨n, rest⟩ := next
          rw [walk_of_some passed]
          exact List.pairwise_cons.mpr
            ⟨fun y mem => walk_length mem, ih _ (step_length passed) _ _ rfl⟩

/-- What is left is an end of the text. -/
theorem walk_suffix {x : Node α τ × List α} (mem : x ∈ walk ring s) : x.2 <:+ s := by
  induction h : s.length using Nat.strongRecOn generalizing ring s with
  | ind k ih =>
      subst h
      cases passed : step ring s with
      | none => simp [walk_of_none passed] at mem
      | some next =>
          obtain ⟨n, rest⟩ := next
          have suffix : rest <:+ s := ⟨n.label.1, (append_of_step passed).2⟩
          rw [walk_of_some passed] at mem
          cases mem with
          | head => exact suffix
          | tail _ mem => exact (ih _ (step_length passed) mem rfl).trans suffix

/-- A node that the text begins with is the one that it passes. -/
theorem step_of_prefix (distinct : Distinct ring) (mem : n ∈ ring) (begins : n.label.1 <+: s) :
    step ring s = some (n, s.drop n.label.1.length) := by
  have first := head?_of_prefix_label begins
  have found : ring.find? (fun n => s.head? = some n.letter) = some n := by
    cases search : ring.find? (fun n => s.head? = some n.letter) with
    | none =>
        have := List.find?_eq_none.mp search n mem
        simp [first] at this
    | some m =>
        have initial := List.find?_some search
        simp only [first, Option.some.injEq, decide_eq_true_eq] at initial
        rw [eq_of_initial distinct mem (List.mem_of_find?_eq_some search) initial]
  simp only [step, found, begins, if_true]

theorem held_of_walk {rest : List α} (mem : (n, rest) ∈ walk ring (u ++ rest))
    (own : n.value = some t) : (u, t) ∈ entriesOf ring := by
  induction h : (u ++ rest).length using Nat.strongRecOn generalizing ring u with
  | ind k ih =>
      subst h
      cases passed : step ring (u ++ rest) with
      | none => simp [walk_of_none passed] at mem
      | some next =>
          obtain ⟨m, after⟩ := next
          obtain ⟨inRing, whole⟩ := append_of_step passed
          rw [walk_of_some passed] at mem
          apply mem_entriesOf.mpr
          cases mem with
          | head =>
              rw [List.append_left_inj] at whole
              exact ⟨_, inRing, Node.mem_entries.mpr (Or.inl ⟨own, whole.symm⟩)⟩
          | tail _ mem =>
              have shorter : rest.length < after.length := walk_length mem
              have lengths := congrArg List.length whole
              simp only [List.length_append] at lengths
              obtain ⟨v, rfl⟩ : m.label.1 <+: u := List.prefix_of_prefix_length_le
                ⟨after, whole⟩ (List.prefix_append u rest) (by omega)
              rw [List.append_assoc, List.append_cancel_left_eq] at whole
              subst whole
              have inner := ih _ (step_length passed) mem rfl
              exact ⟨m, inRing, Node.mem_entries.mpr (Or.inr ⟨v, inner, rfl⟩)⟩

theorem walk_of_held {rest : List α} (distinct : Distinct ring) (held : (u, t) ∈ entriesOf ring) :
    ∃ n, (n, rest) ∈ walk ring (u ++ rest) ∧ n.value = some t := by
  induction h : (u ++ rest).length using Nat.strongRecOn generalizing ring u with
  | ind k ih =>
      subst h
      obtain ⟨m, inRing, held⟩ := mem_entriesOf.mp held
      have begins : m.label.1 <+: u ++ rest :=
        (Node.label_prefix_of_mem held).trans (List.prefix_append _ _)
      have passed := step_of_prefix distinct inRing begins
      have shorter := step_length passed
      rw [walk_of_some passed]
      rcases Node.mem_entries.mp held with ⟨own, rfl⟩ | ⟨v, inner, rfl⟩
      · exact ⟨m, by simp, own⟩
      · cases distinct with
        | mk initials below =>
            simp only [List.append_assoc, List.drop_left] at shorter ⊢
            obtain ⟨n, mem, own⟩ := ih _ (by simpa using shorter) (below m inRing) inner rfl
            exact ⟨n, List.mem_cons_of_mem _ mem, own⟩

/-- A walk passes exactly the entries that the text begins with. -/
theorem mem_walk (distinct : Distinct ring) :
    (∃ n rest, (n, rest) ∈ walk ring s ∧ n.value = some t ∧ u ++ rest = s) ↔
      (u, t) ∈ entriesOf ring ∧ u <+: s := by
  constructor
  · rintro ⟨n, rest, mem, own, rfl⟩
    exact ⟨held_of_walk mem own, List.prefix_append u rest⟩
  · rintro ⟨held, rest, rfl⟩
    obtain ⟨n, mem, own⟩ := walk_of_held distinct held
    exact ⟨n, rest, mem, own, rfl⟩

/-- The longest entry that a text begins with is the last that its walk passes. -/
theorem longest_walk (distinct : Distinct ring) (s : List α) :
    Longest (entriesOf ring) s ((walk ring s).filterMap fun x => x.1.value).getLast? := by
  cases last : ((walk ring s).filterMap fun x => x.1.value).getLast? with
  | none =>
      intro e held begins
      obtain ⟨n, rest, mem, own, -⟩ := (mem_walk distinct).mpr ⟨held, begins⟩
      rw [List.getLast?_eq_none_iff, List.filterMap_eq_nil_iff] at last
      simpa [own] using last _ mem
  | some t =>
      obtain ⟨⟨n, rest⟩, mem, own, later⟩ := last_of_pairwise (walk_pairwise ring s) last
      obtain ⟨u, rfl⟩ := walk_suffix mem
      obtain ⟨held, begins⟩ := (mem_walk distinct).mp ⟨n, rest, mem, own, rfl⟩
      refine ⟨u, held, begins, ?_⟩
      rintro ⟨u', t'⟩ held' begins'
      obtain ⟨n', rest', mem', own', whole⟩ := (mem_walk distinct).mpr ⟨held', begins'⟩
      have lengths := congrArg List.length whole
      simp only [List.length_append] at lengths
      rcases later _ mem' (by simp [own']) with same | shorter
      · cases same
        simp only
        omega
      · simp only at shorter ⊢
        omega

end Walk

/-! ## Rings whose nodes are all found -/

/-- Every node holds an entry. -/
inductive Full : List (Node α τ) → Prop where
  | mk {ring : List (Node α τ)} (holds : ∀ n ∈ ring, n.entries ≠ [])
      (below : ∀ n ∈ ring, Full n.children) : Full ring

@[simp] theorem full_nil : Full ([] : List (Node α τ)) :=
  Full.mk (fun _ mem => by cases mem) (fun _ mem => by cases mem)

theorem full_cons : Full (n :: ring) ↔ n.entries ≠ [] ∧ Full n.children ∧ Full ring := by
  constructor
  · intro full
    cases full with
    | mk holds below =>
        exact ⟨holds n List.mem_cons_self, below n List.mem_cons_self,
          fun m mem => holds m (List.mem_cons_of_mem _ mem),
          fun m mem => below m (List.mem_cons_of_mem _ mem)⟩
  · rintro ⟨own, inner, full⟩
    cases full with
    | mk holds below =>
        constructor
        · intro m mem
          cases mem with
          | head => exact own
          | tail _ mem => exact holds m mem
        · intro m mem
          cases mem with
          | head => exact inner
          | tail _ mem => exact below m mem

theorem Full.perm (full : Full ring) (same : ring.Perm ring') : Full ring' := by
  cases full with
  | mk holds below =>
      exact ⟨fun n mem => holds n (same.mem_iff.mpr mem), fun n mem => below n (same.mem_iff.mpr mem)⟩

/-- Two nodes at different places of a ring hold no value in common. -/
theorem apart_of_once (once : ((entriesOf ring).map Prod.snd).Nodup)
    (whole : ring.Perm (n :: ring')) (mem : k ∈ ring') {v : List α}
    (left : (u, t) ∈ n.entries) (right : (v, t) ∈ k.entries) : False := by
  have split := (entriesOf_perm whole).map Prod.snd
  rw [split.nodup_iff, entriesOf_cons, List.map_append, List.nodup_append] at once
  have held : (v, t) ∈ entriesOf ring' := mem_entriesOf.mpr ⟨k, mem, right⟩
  exact once.2.2 t (List.mem_map.mpr ⟨_, left, rfl⟩) t (List.mem_map.mpr ⟨_, held, rfl⟩) rfl

section Seen

variable [DecidableEq α]

/-- The nodes that are the first with their letters, at every level. -/
inductive Seen : List (Node α τ) → Node α τ → Prop where
  | here {ring : List (Node α τ)} {n : Node α τ}
      (found : ring.find? (fun m => m.letter = n.letter) = some n) : Seen ring n
  | inside {ring : List (Node α τ)} {m n : Node α τ}
      (found : ring.find? (fun k => k.letter = m.letter) = some m) (seen : Seen m.children n) :
      Seen ring n

theorem held_of_seen (seen : Seen ring n) (own : n.value = some t) :
    ∃ u, (u, t) ∈ entriesOf ring := by
  induction seen with
  | here found =>
      exact ⟨_, mem_entriesOf.mpr ⟨_, List.mem_of_find?_eq_some found,
        Node.mem_entries.mpr (Or.inl ⟨own, rfl⟩)⟩⟩
  | inside found _ ih =>
      obtain ⟨u, held⟩ := ih own
      exact ⟨_, mem_entriesOf.mpr ⟨_, List.mem_of_find?_eq_some found,
        Node.mem_entries.mpr (Or.inr ⟨u, held, rfl⟩)⟩⟩

/-- A node that is seen is one of the ring, first with its letter, or below one. -/
theorem Seen.top (seen : Seen ring n) (own : n.value = some t) :
    ∃ k, ring.find? (fun m => m.letter = k.letter) = some k ∧ (∃ u, (u, t) ∈ k.entries) ∧
      (n = k ∨ Seen k.children n) := by
  cases seen with
  | here found => exact ⟨n, found, ⟨_, Node.mem_entries.mpr (Or.inl ⟨own, rfl⟩)⟩, Or.inl rfl⟩
  | inside found seen =>
      obtain ⟨u, held⟩ := held_of_seen seen own
      exact ⟨_, found, ⟨_, Node.mem_entries.mpr (Or.inr ⟨u, held, rfl⟩)⟩, Or.inr seen⟩

/-- Where every value is seen, the nodes of each ring differ in their first letters. -/
theorem distinct_of_seen (full : Full ring) (once : ((entriesOf ring).map Prod.snd).Nodup)
    (seen : ∀ u t, (u, t) ∈ entriesOf ring → ∃ n, Seen ring n ∧ n.value = some t) :
    Distinct ring := by
  induction full with
  | @mk ring holds below ih =>
      have initials : (ring.map Node.letter).Nodup := by
        rw [List.Nodup, List.pairwise_map, List.pairwise_iff_getElem]
        intro i j hi hj less same
        have whole : ring = ring.take j ++ ring[j] :: ring.drop (j + 1) := by simp
        have early : ring[i] ∈ ring.take j := by
          rw [List.mem_take_iff_getElem]
          exact ⟨i, by omega, rfl⟩
        obtain ⟨⟨u, t⟩, held⟩ := List.exists_mem_of_ne_nil _ (holds _ (List.getElem_mem hj))
        obtain ⟨n, found, own⟩ := seen u t (mem_entriesOf.mpr ⟨_, List.getElem_mem hj, held⟩)
        obtain ⟨k, first, ⟨v, right⟩, -⟩ := found.top own
        have place : k ∈ ring.take j ++ ring.drop (j + 1) := by
          by_cases letter : ring[j].letter = k.letter
          · rw [whole, List.find?_append] at first
            cases early' : (ring.take j).find? (fun m => m.letter = k.letter) with
            | none =>
                have := List.find?_eq_none.mp early' _ early
                simp [same, letter] at this
            | some m =>
                rw [early'] at first
                cases first
                exact List.mem_append_left _ (List.mem_of_find?_eq_some early')
          · have mem := List.mem_of_find?_eq_some first
            rw [whole, List.mem_append, List.mem_cons] at mem
            rcases mem with mem | rfl | mem
            · exact List.mem_append_left _ mem
            · exact absurd rfl letter
            · exact List.mem_append_right _ mem
        refine apart_of_once once ?_ place held right
        nth_rewrite 1 [whole]
        exact List.perm_middle
      have values {m : Node α τ} (mem : m ∈ ring) : (m.entries.map Prod.snd).Nodup := by
        refine once.sublist (List.Sublist.map _ ?_)
        rw [entriesOf_eq_flatMap, List.flatMap_def]
        exact List.sublist_flatten_of_mem (List.mem_map_of_mem mem)
      refine ⟨initials, fun m mem => ih m mem ?_ ?_⟩
      · have inner := values mem
        rw [Node.entries_eq, List.map_append, List.nodup_append, List.map_map] at inner
        simpa [Function.comp_def] using inner.2.1
      · intro u t held
        have inside : (m.label.1 ++ u, t) ∈ m.entries :=
          Node.mem_entries.mpr (Or.inr ⟨u, held, rfl⟩)
        obtain ⟨n, found, own⟩ := seen _ t (mem_entriesOf.mpr ⟨m, mem, inside⟩)
        obtain ⟨k, first, ⟨v, right⟩, place⟩ := found.top own
        have same : k = m := by
          by_contra other
          obtain ⟨l₁, l₂, cut⟩ := List.append_of_mem mem
          have whole : ring.Perm (m :: (l₁ ++ l₂)) := cut ▸ List.perm_middle
          have rest : k ∈ l₁ ++ l₂ := by
            have := whole.mem_iff.mp (List.mem_of_find?_eq_some first)
            simpa [other] using this
          exact apart_of_once once whole rest inside right
        subst same
        rcases place with rfl | deeper
        · have inner := values mem
          rw [Node.entries_eq, List.map_append, List.nodup_append, List.map_map] at inner
          exact absurd rfl (inner.2.2 t (by simp [own]) t (by simpa using ⟨u, held⟩))
        · exact ⟨n, deeper, own⟩

theorem Seen.trans (top : Seen ring n) (inner : Seen n.children m) : Seen ring m := by
  induction top with
  | here found => exact Seen.inside found inner
  | inside found _ ih => exact Seen.inside found (ih inner)

end Seen

end RadixTree
