import Tahi.Cm.CmMatch

/-! # The search of a `CmMatch` dictionary

A search for a node below the one that it has just passed is made twice, the second time
from that node itself. So it ends at the first or the second of the nodes that a text
passes, and a node that ends no token hides the tokens above it.
-/

namespace Tahi.Cm

namespace CmMatch

variable {org : List CmMatch} {m : CmMatch} {s : List CChar}

/-! ## Runs of additions -/

/-- The additions of a run. -/
def addTokens (o : List CmMatch) : List CmToken → Option (List CmMatch)
  | [] => some o
  | t :: tokens => (addToken t o).bind fun o => addTokens o tokens

/-- The way of each addition of a run is clear. -/
def WayClear (o : List CmMatch) : List CmToken → Prop
  | [] => True
  | t :: tokens =>
      Clear o t.string.1 ∧
        match addToken t o with
        | none => True
        | some o => WayClear o tokens

instance WayClear.decidable : (o : List CmMatch) → (tokens : List CmToken) →
    Decidable (WayClear o tokens)
  | _, [] => isTrue trivial
  | o, t :: tokens =>
      have : Decidable (match addToken t o with
          | none => True
          | some o => WayClear o tokens) :=
        match addToken t o with
        | none => isTrue trivial
        | some o => WayClear.decidable o tokens
      inferInstanceAs (Decidable (_ ∧ _))

/-- A token with its text. -/
def entry (t : CmToken) : List CChar × CmToken := (t.string.1, t)

theorem addTokens_spec (org : List CmMatch) {tokens : List CmToken} (distinct : tokens.Nodup)
    (new : ∀ t ∈ tokens, ∀ t', (t.string.1, t') ∉ RadixTree.entriesOf org) :
    ∃ org', addTokens org tokens = some org' ∧
      (RadixTree.entriesOf org').Perm (tokens.map entry ++ RadixTree.entriesOf org) ∧
      (RadixTree.Distinct org' ↔ RadixTree.Distinct org ∧ WayClear org tokens) ∧
      (RadixTree.Full org → RadixTree.Full org') := by
  induction tokens generalizing org with
  | nil => exact ⟨org, rfl, List.Perm.refl _, by simp [WayClear], id⟩
  | cons t tokens ih =>
      rw [List.nodup_cons] at distinct
      cases added : addToken t org with
      | none =>
          obtain ⟨t', held⟩ := held_of_addTokenString added
          exact absurd held (new t List.mem_cons_self t')
      | some o =>
          have entries := addTokenString_entries added
          have fresh : ∀ t' ∈ tokens, ∀ t'', (t'.string.1, t'') ∉ RadixTree.entriesOf o := by
            intro t' mem t'' held
            rw [entries.mem_iff, List.mem_cons, Prod.mk.injEq] at held
            rcases held with ⟨same, -⟩ | held
            · have same : t' = t := by
                cases t'
                cases t
                exact congrArg CmToken.mk (Subtype.ext same)
              exact distinct.1 (same ▸ mem)
            · exact new t' (List.mem_cons_of_mem _ mem) t'' held
          obtain ⟨org', run, entries', distinct', full'⟩ := ih o distinct.2 fresh
          refine ⟨org', by rw [addTokens, added, Option.bind_some, run], ?_, ?_, ?_⟩
          · calc (RadixTree.entriesOf org').Perm (tokens.map entry ++ RadixTree.entriesOf o) :=
                  entries'
              List.Perm _ (tokens.map entry ++ entry t :: RadixTree.entriesOf org) :=
                  entries.append_left _
              List.Perm _ (entry t :: tokens.map entry ++ RadixTree.entriesOf org) :=
                  List.perm_middle
          · rw [distinct', addTokenString_distinct added, WayClear, and_assoc, added]
          · exact fun full => full' (addTokenString_full added full)

/-! ## Lookups -/

/-- The node that the search ends at, of those that the text passes: the second of an even
    number, and the first of an odd one. -/
@[grind =]
def landed : List (CmMatch × List CChar) → Option CmMatch
  | [] => none
  | [x] => some x.1
  | x :: y :: l => if l.length % 2 = 0 then some y.1 else some x.1

/-- No node that a search is repeated at, two below the one it was made for, has a text that
    goes on there by chance. -/
def Fresh : List (CmMatch × List CChar) → Prop
  | x :: y :: z :: l => (l.length % 2 = 0 → ¬ z.1.string <+: x.2) ∧ Fresh (y :: z :: l)
  | _ => True

instance Fresh.decidable : (l : List (CmMatch × List CChar)) → Decidable (Fresh l)
  | x :: y :: z :: l =>
      have := Fresh.decidable (y :: z :: l)
      inferInstanceAs (Decidable ((l.length % 2 = 0 → ¬ z.1.string <+: x.2) ∧ Fresh (y :: z :: l)))
  | [] => isTrue trivial
  | [_] => isTrue trivial
  | [_, _] => isTrue trivial

theorem scan_all {ms ts : List CChar} :
    first (ms.drop (scan ms ts)) = 0 ↔ ms <+: ts := by
  have common := take_scan ms ts
  have whole := List.take_append_drop (scan ms ts) ms
  constructor
  · intro all
    rw [first_eq_zero.mp all, List.append_nil, common] at whole
    rw [← whole]
    exact List.take_prefix _ _
  · rintro ⟨rest, rfl⟩
    have full : scan ms (ms ++ rest) = ms.length := by
      clear common whole
      induction ms with
      | nil => simp [scan]
      | cons m ms ih => simp [scan, ih]
    rw [full, List.drop_length]
    rfl

theorem findMatchString_none (other : ¬ m.string <+: s) : findMatchString m s = none := by
  rw [findMatchString, dif_pos (fun all => other (scan_all.mp all))]

theorem findMatchString_append (m : CmMatch) (rest : List CChar) :
    findMatchString m (m.string ++ rest) =
      match findString m.org rest with
      | none => some m
      | some child => some ((findMatchString child rest).getD m) := by
  have all : first (m.string.drop (scan m.string (m.string ++ rest))) = 0 :=
    scan_all.mpr (List.prefix_append _ _)
  have full := scan_eq_length all
  rw [findMatchString, dif_neg (not_not.mpr all), full, List.drop_left]
  cases findString m.org rest with
  | none => rfl
  | some child =>
      simp only
      cases findMatchString child rest <;> rfl

theorem findString_none (stops : RadixTree.step org s = none) : findString org s = none := by
  rw [step_eq] at stops
  rw [findString]
  cases found : equalInitial org (first s) with
  | none => rfl
  | some n =>
      simp only [found] at stops
      split at stops
      · cases stops
      · exact findMatchString_none ‹_›

theorem findString_some {rest : List CChar} (passed : RadixTree.step org s = some (m, rest)) :
    findString org s = findMatchString m s := by
  rw [step_eq] at passed
  rw [findString]
  cases found : equalInitial org (first s) with
  | none => simp [found] at passed
  | some n =>
      simp only [found] at passed
      split at passed
      · cases passed
        rfl
      · cases passed

theorem findString_walk (fresh : Fresh (RadixTree.walk org s)) :
    findString org s = landed (RadixTree.walk org s) := by
  induction h : s.length using Nat.strongRecOn generalizing org s with
  | ind k ih =>
      subst h
      cases passed : RadixTree.step org s with
      | none =>
          rw [RadixTree.walk_of_none passed]
          exact findString_none passed
      | some next =>
          obtain ⟨m, rest⟩ := next
          have inner : Fresh (RadixTree.walk m.children rest) →
              findString m.children rest = landed (RadixTree.walk m.children rest) :=
            fun fresh => ih _ (RadixTree.step_length passed) fresh rfl
          rw [RadixTree.walk_of_some passed] at fresh ⊢
          rw [findString_some passed]
          obtain ⟨-, rfl⟩ := RadixTree.append_of_step passed
          rw [findMatchString_append]
          cases next : RadixTree.step m.children rest with
          | none =>
              rw [RadixTree.walk_of_none next] at inner ⊢
              rw [inner trivial]
              rfl
          | some y =>
              obtain ⟨y, rest'⟩ := y
              have again := findString_some next
              rw [RadixTree.walk_of_some next] at inner fresh ⊢
              cases below : RadixTree.walk y.children rest' with
              | nil =>
                  rw [below] at inner fresh
                  have child := inner trivial
                  rw [child, landed]
                  simp only
                  rw [← again, child]
                  rfl
              | cons z l =>
                  rw [below] at inner fresh
                  obtain ⟨other, fresh⟩ := fresh
                  have child := inner fresh
                  rw [child, landed]
                  by_cases parity : l.length % 2 = 0
                  · rw [if_pos parity]
                    simp only
                    rw [findMatchString_none (other parity), landed, List.length_cons, if_neg (by omega)]
                    rfl
                  · rw [landed, if_neg parity] at child
                    rw [if_neg parity]
                    simp only
                    rw [← again, child, landed, List.length_cons, if_pos (by omega)]
                    rfl

/-- The search ends at the last token on the way: behind the node it ends at there is none,
    and before it only when it has one itself. -/
def Lands : List (CmMatch × List CChar) → Prop
  | x :: y :: l =>
      if l.length % 2 = 0 then (y.1.value = none → x.1.value = none) ∧ ∀ z ∈ l, z.1.value = none
      else ∀ z ∈ y :: l, z.1.value = none
  | _ => True

instance : (l : List (CmMatch × List CChar)) → Decidable (Lands l)
  | x :: y :: l =>
      inferInstanceAs (Decidable (if l.length % 2 = 0 then
        (y.1.value = none → x.1.value = none) ∧ ∀ z ∈ l, z.1.value = none
        else ∀ z ∈ y :: l, z.1.value = none))
  | [] => isTrue trivial
  | [_] => isTrue trivial

theorem getLast?_filterMap_cons {β : Type} (f : β → Option CmToken) (x : β) (l : List β) :
    ((x :: l).filterMap f).getLast? = (l.filterMap f).getLast?.or (f x) := by
  cases own : f x with
  | none => simp [List.filterMap_cons_none own]
  | some t =>
      rw [List.filterMap_cons_some own, List.getLast?_cons]
      cases (l.filterMap f).getLast? <;> rfl

theorem landed_token {l : List (CmMatch × List CChar)}
    (apart : l.Pairwise fun x y => x.1.value = y.1.value → y.1.value = none) :
    (landed l).bind token = (l.filterMap fun x => x.1.value).getLast? ↔ Lands l := by
  cases l with
  | nil => simp [landed, Lands]
  | cons x l =>
      cases l with
      | nil => cases own : x.1.value <;> simp [landed, Lands, own, token]
      | cons y l =>
          simp only [List.pairwise_cons, List.mem_cons, forall_eq_or_imp] at apart
          obtain ⟨⟨xy, xl⟩, yl, -⟩ := apart
          have node : (landed (x :: y :: l)).bind token =
              if l.length % 2 = 0 then y.1.value else x.1.value := by
            rw [landed]
            split <;> rfl
          rw [node, Lands, getLast?_filterMap_cons, getLast?_filterMap_cons]
          cases last : (l.filterMap fun x => x.1.value).getLast? with
          | none =>
              have nothing : ∀ z ∈ l, z.1.value = none :=
                List.filterMap_eq_nil_iff.mp (List.getLast?_eq_none_iff.mp last)
              cases hx : x.1.value <;> cases hy : y.1.value <;>
                simp_all [-Prod.forall]
          | some t =>
              obtain ⟨z, mem, own⟩ := List.mem_filterMap.mp (List.mem_of_getLast? last)
              have xz := xl z mem
              have yz := yl z mem
              rw [own] at xz yz
              have later : ¬ ∀ z ∈ l, z.1.value = none := fun nothing => by
                simp [nothing z mem] at own
              simp only [Option.some_or, List.mem_cons, forall_eq_or_imp, later, and_false, ite_self,
                iff_false]
              intro same
              split at same
              · exact absurd (yz same) (by simp)
              · exact absurd (xz same) (by simp)

/-- The tokens on the way differ. -/
theorem walk_apart (initials : RadixTree.Distinct org)
    (text : ∀ {u t}, (u, t) ∈ RadixTree.entriesOf org → u = t.string.1) :
    (RadixTree.walk org s).Pairwise fun x y => x.1.value = y.1.value → y.1.value = none := by
  refine (RadixTree.walk_pairwise org s).imp_of_mem ?_
  intro x y memx memy shorter same
  cases own : y.1.value with
  | none => rfl
  | some t =>
      obtain ⟨u, whole⟩ := RadixTree.walk_suffix memx
      obtain ⟨v, whole'⟩ := RadixTree.walk_suffix memy
      have left := (RadixTree.mem_walk initials).mp ⟨_, _, memx, same.trans own, whole⟩
      have right := (RadixTree.mem_walk initials).mp ⟨_, _, memy, own, whole'⟩
      have texts : u = v := (text left.1).trans (text right.1).symm
      rw [← whole', texts, List.append_right_inj] at whole
      rw [whole] at shorter
      exact absurd shorter (Nat.lt_irrefl _)

theorem seen_of_equalInitial (found : equalInitial org (first s) = some m) :
    RadixTree.Seen org m := by
  rw [equalInitial_eq] at found
  have head := List.find?_some found
  rw [decide_eq_true_eq] at head
  apply RadixTree.Seen.here
  rw [head] at found
  simpa [eq_comm] using found

/-- The search never gets behind a node with the same initial. -/
theorem findMatchString_seen {r : CmMatch} (found : findMatchString m s = some r) :
    r = m ∨ RadixTree.Seen m.org r := by
  induction h : s.length using Nat.strongRecOn generalizing m s r with
  | ind k ih =>
      subst h
      by_cases begins : m.string <+: s
      · obtain ⟨rest, rfl⟩ := begins
        have shorter : rest.length < (m.string ++ rest).length := by
          have positive : 0 < m.string.length := List.length_pos_of_ne_nil m.label.2
          rw [List.length_append]
          omega
        rw [findMatchString_append] at found
        cases below : findString m.org rest with
        | none =>
            rw [below] at found
            cases found
            exact Or.inl rfl
        | some child =>
            simp only [below, Option.some.injEq] at found
            rw [findString] at below
            cases top : equalInitial m.org (first rest) with
            | none => simp [top] at below
            | some n =>
                simp only [top] at below
                have seen : RadixTree.Seen m.org child := by
                  rcases ih _ shorter below rfl with rfl | deeper
                  · exact seen_of_equalInitial top
                  · exact (seen_of_equalInitial top).trans deeper
                cases again : findMatchString child rest with
                | none =>
                    rw [again] at found
                    exact Or.inl found.symm
                | some lm =>
                    rw [again] at found
                    cases found
                    rcases ih _ shorter again rfl with rfl | deeper
                    · exact Or.inr seen
                    · exact Or.inr (seen.trans deeper)
      · rw [findMatchString_none begins] at found
        cases found

theorem findToken_seen {t : CmToken} (found : findToken s org = some t) :
    ∃ n, RadixTree.Seen org n ∧ n.value = some t := by
  obtain ⟨n, found, own⟩ := Option.bind_eq_some_iff.mp found
  rw [findString] at found
  cases top : equalInitial org (first s) with
  | none => simp [top] at found
  | some m =>
      simp only [top] at found
      rcases findMatchString_seen found with rfl | deeper
      · exact ⟨n, seen_of_equalInitial top, own⟩
      · exact ⟨n, (seen_of_equalInitial top).trans deeper, own⟩

/-- The dictionary finds its own tokens only when the way of every addition was clear. Then
    the search finds the longest token that a text begins with exactly when the nodes on
    the way let it. -/
theorem findToken_longest_iff {tokens : List CmToken} (distinct : tokens.Nodup) :
    ∃ org, addTokens [] tokens = some org ∧
      ((∀ t ∈ tokens, findToken t.string.1 org = some t) → WayClear [] tokens) ∧
      (WayClear [] tokens → ∀ s, Fresh (RadixTree.walk org s) →
        (RadixTree.Longest (tokens.map entry) s (findToken s org) ↔
          Lands (RadixTree.walk org s))) := by
  obtain ⟨org, run, entries, ring, full⟩ := addTokens_spec [] distinct (by simp)
  rw [RadixTree.entriesOf_nil, List.append_nil] at entries
  have text {u t} (held : (u, t) ∈ RadixTree.entriesOf org) : t ∈ tokens ∧ u = t.string.1 := by
    obtain ⟨t', mem, same⟩ := List.mem_map.mp (entries.mem_iff.mp held)
    cases same
    exact ⟨mem, rfl⟩
  refine ⟨org, run, ?_, ?_⟩
  · intro found
    refine (ring.mp (RadixTree.distinct_of_seen (full RadixTree.full_nil) ?_ ?_)).2
    · rw [(entries.map Prod.snd).nodup_iff, List.map_map]
      simpa [entry, Function.comp_def] using distinct
    · intro u t held
      exact findToken_seen (found t (text held).1)
  · intro clear s fresh
    have initials := ring.mpr ⟨RadixTree.distinct_nil, clear⟩
    have once : ((tokens.map entry).map Prod.fst).Nodup := by
      rw [List.map_map]
      exact distinct.map fun t t' same => by
        cases t
        cases t'
        exact congrArg CmToken.mk (Subtype.ext same)
    have longest := (RadixTree.longest_walk initials s).perm entries
    rw [← landed_token (walk_apart initials fun held => (text held).2), findToken,
      findString_walk fresh]
    constructor
    · intro right
      exact right.unique once longest
    · intro same
      rw [same]
      exact longest

def charA : CChar := ⟨97, by decide⟩
def charB : CChar := ⟨98, by decide⟩
def charC : CChar := ⟨99, by decide⟩

def tokenA : CmToken := ⟨[charA], by decide⟩
def tokenB : CmToken := ⟨[charB], by decide⟩
def tokenC : CmToken := ⟨[charC], by decide⟩
def tokenAB : CmToken := ⟨[charA, charB], by decide⟩
def tokenABC : CmToken := ⟨[charA, charB, charC], by decide⟩
def tokenBA : CmToken := ⟨[charB, charA], by decide⟩
def tokenBB : CmToken := ⟨[charB, charB], by decide⟩
def tokenBC : CmToken := ⟨[charB, charC], by decide⟩

/-- The dictionary of "a", "ab" and "b" finds "ab" in "abb". -/
theorem finds_ab : ∃ org, addTokens [] [tokenA, tokenAB, tokenB] = some org ∧
    RadixTree.Longest ([tokenA, tokenAB, tokenB].map entry) [charA, charB, charB]
      (findToken [charA, charB, charB] org) := by
  obtain ⟨org, run, -, right⟩ :=
    findToken_longest_iff (show [tokenA, tokenAB, tokenB].Nodup by decide)
  have way : ∀ o ∈ addTokens [] [tokenA, tokenAB, tokenB],
      Fresh (RadixTree.walk o [charA, charB, charB]) ∧
        Lands (RadixTree.walk o [charA, charB, charB]) := by decide +kernel
  obtain ⟨fresh, lands⟩ := way org run
  exact ⟨org, run, (right (by decide +kernel) _ fresh).mpr lands⟩

/-- With "a", "ab" and "abc" added, "abc" is taken for "a". -/
theorem not_longest :
    ¬ ∀ tokens : List CmToken, tokens.Nodup → ∃ org, addTokens [] tokens = some org ∧
      ∀ s, RadixTree.Longest (tokens.map entry) s (findToken s org) := by
  intro all
  obtain ⟨org, run, right⟩ := all [tokenA, tokenAB, tokenABC] (by decide)
  have found : ∀ o ∈ addTokens [] [tokenA, tokenAB, tokenABC],
      findToken [charA, charB, charC] o = some tokenA := by decide +kernel
  have longest := right [charA, charB, charC]
  rw [found org run] at longest
  obtain ⟨u, mem, -, longest⟩ := longest
  have short := longest (entry tokenABC) (by simp) (List.prefix_rfl)
  have text : u = [charA] := by
    simpa [entry, tokenA, tokenAB, tokenABC] using mem
  rw [text] at short
  exact absurd short (by decide)

/-- The way of "bc" is not clear: "bb" has cut the text of "ba", and the new node stands
    behind that of "c". -/
example : ¬ WayClear [] [tokenBA, tokenC, tokenBB, tokenBC] := by decide +kernel

end CmMatch

end Tahi.Cm
