import Tahi.General.FirstFit
import Tahi.Ike.KJudgeCompare

/-! # Comparing the proposals of SA payloads

The entries of a payload are put together by their numbers, and the transforms of an entry by
their types. An expected proposal takes the first received one that is left and does for it, and
of the entries of that one only the last counts.
-/

namespace Tahi.Ike

namespace Judge

open FirstFit

abbrev Text := List UInt8

structure AttributeFields where
  type : Text
  value : Text

/-- `nexttype` is what the field is as a number. -/
structure TransformFields where
  nexttype : Nat
  type : Text
  id : Text
  attributes : List AttributeFields

structure ProposalFields where
  nexttype : Nat
  number : Nat
  transforms : List TransformFields

/-- The types in their order in a converted entry. -/
inductive TransformType where
  | encr | prf | integ | dh | esn
deriving DecidableEq, Repr

namespace TransformType

def all : List TransformType := [encr, prf, integ, dh, esn]

theorem mem_all (k : TransformType) : k ∈ all := by
  cases k <;> decide

def text : TransformType → Text
  | encr => octets "ENCR"
  | prf => octets "PRF"
  | integ => octets "INTEG"
  | dh => octets "D-H"
  | esn => octets "ESN"

def named (type : Text) : Option TransformType := all.find? fun k => k.text == type

end TransformType

/-- A converted entry: for each type the type, id and key length of the transforms. -/
abbrev Entry := TransformType → List Text

def noTransforms : Entry := fun _ => []

@[grind =]
def Entry.push (entry : Entry) (k : TransformType) (str : Text) : Entry :=
  fun j => if j = k then entry j ++ [str] else entry j

/-- What a loop over substructures sees: up to the first that does not name another one. -/
def linked {α : Type} (nexttype : α → Nat) (another : Nat) : List α → List α
  | [] => []
  | x :: xs => x :: if nexttype x = another then linked nexttype another xs else []

/-- Type, id and key length. -/
def TransformFields.str (transform : TransformFields) : Text :=
  transform.attributes.foldl (fun str attr =>
    if attr.type = octets "Key Length" then str ++ octets "-" ++ attr.value else str)
    (transform.type ++ octets "_" ++ transform.id)

def convert_transforms (transforms : List TransformFields) : Entry :=
  (linked (·.nexttype) 3 transforms).foldl (fun entry transform =>
    match TransformType.named transform.type with
    | some k => entry.push k transform.str
    | none => entry) noTransforms

/-- Number 0 would be the last proposal for Perl. -/
def convert_proposals (proposals : List ProposalFields) : List (List Entry) :=
  let last_proposal_number := (proposals.getLast?.map (·.number)).getD 0
  (linked (·.nexttype) 2 proposals).foldl (fun conv proposal =>
    conv.modify (proposal.number - 1) (· ++ [convert_transforms proposal.transforms]))
    (List.replicate last_proposal_number [])

def INTEG_NONE : Text := octets "INTEG_NONE"

/-- The first entry without an integrity algorithm gets one. -/
def omit_integrity : List Entry → List Entry
  | [] => []
  | entry :: entries =>
      if entry .integ = [] then entry.push .integ INTEG_NONE :: entries
      else entry :: omit_integrity entries

/-- `join` and `sort`, which are done by octets. -/
def get_transforms_str (transforms : List Text) : Text :=
  (octets ", ").intercalate (transforms.mergeSort fun a b => decide (a ≤ b))

/-- How many pairs are equal. -/
def equalPairs (exp rcv : List Text) : Nat :=
  exp.foldl (fun n e => rcv.foldl (fun n r => if e = r then n + 1 else n) n) 0

def compare_transforms (rcv exp : Entry) : Bool :=
  TransformType.all.foldl (fun result k =>
    if (exp k).length < (rcv k).length then
      if equalPairs (exp k) (rcv k) ≠ (exp k).length then false else result
    else if get_transforms_str (exp k) ≠ get_transforms_str (rcv k) then false
    else result) true

/-- The loop over the expected entries, from number `i` on. The comparison with the last received
    entry is the one that counts. -/
def compare_entries (rcv : List Entry) (i : Nat) (result : Bool) : List Entry → Bool
  | [] => result
  | exp :: exps =>
      if i + 1 > rcv.length then false
      else
        let tmp_result := rcv.foldl (fun _ r => compare_transforms r exp) false
        compare_entries rcv (i + 1) (if tmp_result then result else false) exps

def compare_proposal (rcv exp : List Entry) : Bool := compare_entries rcv 0 true exp

/-- The first of the received proposals, counted from `j`, that has not been matched and does. -/
def find_proposal (matched : List Nat) (exp : List Entry) (j : Nat) :
    List (List Entry) → Option Nat
  | [] => none
  | rcv :: rcvs =>
      if j ∈ matched then find_proposal matched exp (j + 1) rcvs
      else if compare_proposal rcv exp then some j
      else find_proposal matched exp (j + 1) rcvs

def compare_proposals (rcv exp : List (List Entry)) : Bool :=
  let (_, match_count) := exp.foldl (fun (state : List Nat × Nat) e =>
    match find_proposal state.1 e 0 rcv with
    | some j => (state.1 ++ [j], state.2 + 1)
    | none => state) ([], 0)
  exp.length == match_count

/-- The result, and whether integrity was left out of what was received. -/
def judge_SA_Proposals (received expected : List ProposalFields) : Bool × Bool :=
  let exp := (convert_proposals expected).map omit_integrity
  let rcv := convert_proposals received
  let omit_integrity_alg := rcv.any fun entries => entries.any fun entry => entry .integ == []
  (compare_proposals (rcv.map omit_integrity) exp, omit_integrity_alg)

/-! ## What it is to say -/

/-- The transforms of an entry. A missing integrity algorithm counts as none. -/
def ProposalFields.full (entry : ProposalFields) : List (Text × Text) :=
  let transforms := (linked (·.nexttype) 3 entry.transforms).map fun t => (t.type, t.str)
  if (octets "INTEG") ∈ transforms.map Prod.fst then transforms
  else (octets "INTEG", INTEG_NONE) :: transforms

/-- The proposals of a payload, each with the entries of its number. -/
def proposalsOf (payload : List ProposalFields) : List (List ProposalFields) :=
  (List.range ((payload.getLast?.map (·.number)).getD 0)).map fun k =>
    (linked (·.nexttype) 2 payload).filter fun entry => entry.number = k + 1

/-- Every expected entry is met by one that has all its transforms. -/
def MeetsAll (rcv exp : List ProposalFields) : Prop :=
  ∀ e ∈ exp, ∃ r ∈ rcv, e.full ⊆ r.full

/-- The proposals are numbered from 1 on in order. -/
def Numbered (payload : List ProposalFields) : Prop :=
  payload.head?.map (·.number) = some 1 ∧
    List.IsChain (fun p q => q.number = p.number ∨ q.number = p.number + 1) payload

/-- No transform is repeated in an entry. -/
def Distinct (payload : List ProposalFields) : Prop :=
  ∀ entry ∈ payload, ((linked (·.nexttype) 3 entry.transforms).map fun t => (t.type, t.str)).Nodup

/-! ## What the comparison finds -/

theorem find_proposal_some {matched : List Nat} {exp : List Entry} {j : Nat}
    {rcvs : List (List Entry)} {p : Nat} (found : find_proposal matched exp j rcvs = some p) :
    j ≤ p ∧ p ∉ matched ∧ (∃ rcv, rcvs[p - j]? = some rcv ∧ compare_proposal rcv exp = true) ∧
      ∀ q, j ≤ q → q < p → ∀ rcv, rcvs[q - j]? = some rcv → compare_proposal rcv exp = true →
        q ∈ matched := by
  induction rcvs generalizing j with
  | nil => cases found
  | cons rcv rcvs ih =>
      have onward (passed : compare_proposal rcv exp = true → j ∈ matched)
          (found : find_proposal matched exp (j + 1) rcvs = some p) :
          j ≤ p ∧ p ∉ matched ∧
            (∃ rcv', (rcv :: rcvs)[p - j]? = some rcv' ∧ compare_proposal rcv' exp = true) ∧
            ∀ q, j ≤ q → q < p → ∀ rcv', (rcv :: rcvs)[q - j]? = some rcv' →
              compare_proposal rcv' exp = true → q ∈ matched := by
        obtain ⟨behind, free, ⟨rcv', there, fits⟩, first⟩ := ih found
        have step (q : Nat) (more : j + 1 ≤ q) : q - j = (q - (j + 1)) + 1 := by omega
        refine ⟨Nat.le_of_succ_le behind, free, ⟨rcv', ?_, fits⟩, fun q from_ less rcv'' there' => ?_⟩
        · rw [step p behind, List.getElem?_cons_succ, there]
        · rcases Nat.eq_or_lt_of_le from_ with rfl | more
          · rw [Nat.sub_self, List.getElem?_cons_zero, Option.some_inj] at there'
            exact there' ▸ passed
          · rw [step q more, List.getElem?_cons_succ] at there'
            exact first q more less rcv'' there'
      rw [find_proposal] at found
      split_ifs at found with mem fits
      · exact onward (fun _ => mem) found
      · obtain rfl := Option.some.inj found
        refine ⟨Nat.le_refl _, mem, ⟨rcv, by rw [Nat.sub_self]; rfl, fits⟩, fun q from_ less => ?_⟩
        exact absurd less (Nat.not_lt_of_le from_)
      · exact onward (fun fits' => absurd fits' fits) found

theorem find_proposal_none {matched : List Nat} {exp : List Entry} {j : Nat}
    {rcvs : List (List Entry)} (missed : find_proposal matched exp j rcvs = none) (q : Nat)
    (rcv : List Entry) (there : rcvs[q]? = some rcv) (fits : compare_proposal rcv exp = true) :
    j + q ∈ matched := by
  induction rcvs generalizing j q with
  | nil => cases there
  | cons rcv' rcvs ih =>
      rw [find_proposal] at missed
      split_ifs at missed with mem fits'
      · cases q with
        | zero => exact mem
        | succ q =>
            rw [Nat.add_comm q, ← Nat.add_assoc]
            exact ih missed q there
      · cases q with
        | zero =>
            obtain rfl := Option.some.inj there
            exact absurd fits fits'
        | succ q =>
            rw [Nat.add_comm q, ← Nat.add_assoc]
            exact ih missed q there

/-- One turn of the loop over the expected proposals. -/
def matchTurn (rcv : List (List Entry)) (state : List Nat × Nat) (e : List Entry) :
    List Nat × Nat :=
  match find_proposal state.1 e 0 rcv with
  | some j => (state.1 ++ [j], state.2 + 1)
  | none => state

theorem matchTurn_count_le (rcv exp : List (List Entry)) (state : List Nat × Nat) :
    (exp.foldl (matchTurn rcv) state).2 ≤ state.2 + exp.length := by
  induction exp generalizing state with
  | nil => exact Nat.le_refl _
  | cons e exp ih =>
      rw [List.foldl_cons, List.length_cons]
      have turn : (matchTurn rcv state e).2 ≤ state.2 + 1 := by
        unfold matchTurn
        split
        · exact Nat.le_refl _
        · exact Nat.le_succ _
      exact (ih _).trans (by omega)

/-- Everything is matched if and only if there are first fits. -/
theorem matchTurn_all_iff (rcv exp : List (List Entry)) (matched : List Nat) (n : Nat) :
    (exp.foldl (matchTurn rcv) (matched, n)).2 = n + exp.length ↔
      ∃ places, InTurn (fun r e => compare_proposal r e = true) rcv matched exp places := by
  induction exp generalizing matched n with
  | nil => exact iff_of_true rfl ⟨[], inTurn_nil matched⟩
  | cons e exp ih =>
      rw [List.foldl_cons, List.length_cons]
      cases found : find_proposal matched e 0 rcv with
      | none =>
          have turn : matchTurn rcv (matched, n) e = (matched, n) := by
            simp only [matchTurn, found]
          have count := matchTurn_count_le rcv exp (matched, n)
          rw [turn]
          refine iff_of_false (by omega) ?_
          rintro ⟨places, turns⟩
          obtain ⟨p, rest, -, ⟨⟨r, there, fits⟩, left, -⟩, -⟩ := turns.exists_cons
          have taken := find_proposal_none found p r there fits
          rw [Nat.zero_add] at taken
          exact left taken
      | some p =>
          have turn : matchTurn rcv (matched, n) e = (matched ++ [p], n + 1) := by
            simp only [matchTurn, found]
          obtain ⟨-, left, ⟨r, there, fits⟩, first⟩ := find_proposal_some found
          rw [Nat.sub_zero] at there
          have first' : ∀ q < p, FirstFit.Fits (fun r e => compare_proposal r e = true) rcv q e →
              q ∈ matched :=
            fun q less ⟨r', there', fits'⟩ => first q (Nat.zero_le q) less r' there' fits'
          have order (q : Nat) : q ∈ matched ++ [p] ↔ q ∈ p :: matched := by
            rw [List.mem_append, List.mem_singleton, List.mem_cons, or_comm]
          rw [turn, show n + (exp.length + 1) = n + 1 + exp.length by omega, ih]
          constructor
          · rintro ⟨places, turns⟩
            exact ⟨p :: places, inTurn_cons.mpr
              ⟨⟨⟨r, there, fits⟩, left, first'⟩, turns.congr (fun _ _ => Iff.rfl) order⟩⟩
          · rintro ⟨places, turns⟩
            obtain ⟨p', rest, -, ⟨fit, left', firstp⟩, turns'⟩ := turns.exists_cons
            have same : p' = p := by
              rcases Nat.lt_trichotomy p' p with less | equal | more
              · exact absurd (first' p' less fit) left'
              · exact equal
              · exact absurd (firstp p more ⟨r, there, fits⟩) left
            subst same
            exact ⟨rest, turns'.congr (fun _ _ => Iff.rfl) fun q => (order q).symm⟩

theorem compare_proposals_iff (rcv exp : List (List Entry)) :
    compare_proposals rcv exp = true ↔
      ∃ places, InTurn (fun r e => compare_proposal r e = true) rcv [] exp places := by
  have run := matchTurn_all_iff rcv exp [] 0
  rw [Nat.zero_add] at run
  change (exp.length == (exp.foldl (matchTurn rcv) ([], 0)).2) = true ↔ _
  rw [beq_iff_eq, eq_comm, run]

theorem foldl_last {β : Type} (f : Entry → β) (rcv : List Entry) (d : β) :
    rcv.foldl (fun _ r => f r) d = (rcv.getLast?.map f).getD d := by
  induction rcv using List.reverseRecOn with
  | nil => rfl
  | append_singleton rcv r _ =>
      rw [List.foldl_append, List.getLast?_append]
      rfl

theorem compare_entries_iff (rcv exp : List Entry) (i : Nat) (result : Bool) :
    compare_entries rcv i result exp = true ↔ result = true ∧
      (exp = [] ∨ i + exp.length ≤ rcv.length ∧ ∃ r, rcv.getLast? = some r ∧
        ∀ e ∈ exp, compare_transforms r e = true) := by
  induction exp generalizing i result with
  | nil => simp [compare_entries]
  | cons e exp ih =>
      rw [compare_entries]
      split_ifs with few
      · refine iff_of_false id ?_
        rintro ⟨-, none_ | ⟨enough, -⟩⟩
        · cases none_
        · rw [List.length_cons] at enough
          omega
      · simp only [ih, foldl_last]
        have some_ : rcv ≠ [] := by
          rintro rfl
          exact few (Nat.succ_pos i)
        rw [List.getLast?_eq_some_getLast some_]
        simp only [Option.map_some, Option.getD_some, Option.some.injEq, exists_eq_left',
          false_or, List.mem_cons, forall_eq_or_imp, List.length_cons]
        constructor
        · rintro ⟨result_, rest⟩
          split_ifs at result_ with last
          refine ⟨result_, ?_, last, ?_⟩
          · rcases rest with rfl | ⟨enough, -⟩
            · rw [List.length_nil]
              omega
            · omega
          · rcases rest with rfl | ⟨-, all⟩
            · exact fun e mem => absurd mem List.not_mem_nil
            · exact all
        · rintro ⟨result_, enough, last, all⟩
          rw [if_pos last]
          exact ⟨result_, .inr ⟨by omega, all⟩⟩

/-- The pairs that are equal, where nothing is received twice. -/
theorem equalPairs_eq {exp rcv : List Text} (distinct : rcv.Nodup) :
    equalPairs exp rcv = exp.countP (· ∈ rcv) := by
  have inner (e : Text) (n : Nat) :
      rcv.foldl (fun n r => if e = r then n + 1 else n) n = n + if e ∈ rcv then 1 else 0 := by
    induction rcv generalizing n with
    | nil => rfl
    | cons r rcv ih =>
        obtain ⟨new, distinct⟩ := List.nodup_cons.mp distinct
        rw [List.foldl_cons, ih distinct]
        by_cases here : e = r
        · subst here
          simp [new]
        · simp [here]
  have outer (n : Nat) : exp.foldl (fun n e => rcv.foldl
      (fun n r => if e = r then n + 1 else n) n) n = n + exp.countP (· ∈ rcv) := by
    induction exp generalizing n with
    | nil => rfl
    | cons e exp ih =>
        rw [List.foldl_cons, ih, inner, List.countP_cons]
        by_cases mem : e ∈ rcv
        · simp only [mem, if_true, decide_true]
          omega
        · simp [mem]
  exact (outer 0).trans (Nat.zero_add _)

/-- The transforms of a type: more are received and all the expected are among them, or the two
    lists look the same. -/
def Listed (rcv exp : List Text) : Prop :=
  if exp.length < rcv.length then exp ⊆ rcv else get_transforms_str exp = get_transforms_str rcv

theorem compare_transforms_iff {rcv exp : Entry} (distinct : ∀ k, (rcv k).Nodup) :
    compare_transforms rcv exp = true ↔ ∀ k, Listed (rcv k) (exp k) := by
  have turns (types : List TransformType) (result : Bool) :
      types.foldl (fun result k =>
        if (exp k).length < (rcv k).length then
          if equalPairs (exp k) (rcv k) ≠ (exp k).length then false else result
        else if get_transforms_str (exp k) ≠ get_transforms_str (rcv k) then false
        else result) result = true ↔ result = true ∧ ∀ k ∈ types, Listed (rcv k) (exp k) := by
    induction types generalizing result with
    | nil => simp
    | cons k types ih =>
        rw [List.foldl_cons, ih, List.forall_mem_cons, ← and_assoc]
        refine and_congr_left fun _ => ?_
        unfold Listed
        split_ifs with more differ differ
        · rw [equalPairs_eq (distinct k), ne_eq, List.countP_eq_length] at differ
          refine iff_of_false id fun both => differ fun e mem => ?_
          exact decide_eq_true (both.2 mem)
        · rw [equalPairs_eq (distinct k), ne_eq, not_not, List.countP_eq_length] at differ
          exact (and_iff_left fun e mem => of_decide_eq_true (differ e mem)).symm
        · exact iff_of_false id fun both => differ both.2
        · exact (and_iff_left (not_not.mp differ)).symm
  refine (turns _ true).trans ?_
  rw [and_iff_right rfl]
  exact ⟨fun all k => all k k.mem_all, fun all k _ => all k⟩

/-- There are as many received entries as expected ones at least, and the last of them has all of
    each. -/
def LastFits (rcv exp : List Entry) : Prop :=
  exp = [] ∨ exp.length ≤ rcv.length ∧ ∃ r, rcv.getLast? = some r ∧
    ∀ e ∈ exp, ∀ k, Listed (r k) (e k)

theorem compare_proposal_iff {rcv exp : List Entry} (distinct : ∀ r ∈ rcv, ∀ k, (r k).Nodup) :
    compare_proposal rcv exp = true ↔ LastFits rcv exp := by
  rw [compare_proposal, compare_entries_iff, and_iff_right rfl, Nat.zero_add]
  refine or_congr_right (and_congr_right fun _ => exists_congr fun r => ?_)
  refine and_congr_right fun last => forall₂_congr fun e _ => ?_
  exact compare_transforms_iff (distinct r (List.mem_of_getLast? last))

/-! ## What is converted -/

theorem mem_linked {α : Type} {nexttype : α → Nat} {another : Nat} {l : List α} {x : α}
    (mem : x ∈ linked nexttype another l) : x ∈ l := by
  induction l with
  | nil => exact mem
  | cons y l ih =>
      rw [linked, List.mem_cons] at mem
      rcases mem with rfl | mem
      · exact List.mem_cons_self
      · split_ifs at mem with more
        · exact List.mem_cons_of_mem y (ih mem)
        · cases mem

theorem Numbered.one_le {payload : List ProposalFields} (numbered : Numbered payload) :
    ∀ entry ∈ payload, 1 ≤ entry.number := by
  obtain ⟨head, chain⟩ := numbered
  cases payload with
  | nil => cases head
  | cons first others =>
      have start : first.number = 1 := Option.some.inj head
      intro entry mem
      rw [List.mem_cons] at mem
      rcases mem with rfl | mem
      · exact Nat.le_of_eq start.symm
      · have rises : List.IsChain (fun p q : ProposalFields => p.number ≤ q.number)
            (first :: others) := chain.imp fun p q next => by omega
        have order := (List.isChain_iff_pairwise.mp rises)
        exact start ▸ List.rel_of_pairwise_cons order mem

/-- The converted proposals are those of the payload. -/
theorem convert_proposals_eq {payload : List ProposalFields} (numbered : Numbered payload) :
    convert_proposals payload = (proposalsOf payload).map fun entries =>
      entries.map fun entry => convert_transforms entry.transforms := by
  have fold (entries : List ProposalFields) (positive : ∀ entry ∈ entries, 1 ≤ entry.number)
      (conv : List (List Entry)) (k : Nat) :
      (entries.foldl (fun conv proposal => conv.modify (proposal.number - 1)
        (· ++ [convert_transforms proposal.transforms])) conv)[k]? =
      conv[k]?.map (· ++ (entries.filter fun entry => entry.number = k + 1).map fun entry =>
        convert_transforms entry.transforms) := by
    induction entries generalizing conv with
    | nil => simp
    | cons entry entries ih =>
        have here := positive entry List.mem_cons_self
        rw [List.foldl_cons, ih fun entry mem => positive entry (List.mem_cons_of_mem _ mem),
          List.getElem?_modify, List.filter_cons]
        by_cases same : entry.number = k + 1
        · rw [if_pos (decide_eq_true same)]
          cases conv[k]? with
          | none => rfl
          | some entries' => simp [same]
        · rw [if_neg (by simpa using same)]
          have other : ¬entry.number - 1 = k := by omega
          cases conv[k]? with
          | none => rfl
          | some entries' => simp [other]
  apply List.ext_getElem?
  intro k
  unfold convert_proposals proposalsOf
  rw [fold _ fun entry mem => numbered.one_le entry (mem_linked mem)]
  rw [List.getElem?_map, List.getElem?_map, List.getElem?_replicate]
  by_cases inside : k < (payload.getLast?.map (·.number)).getD 0
  · rw [if_pos inside, List.getElem?_range inside]
    rfl
  · rw [if_neg inside, List.getElem?_eq_none (by rw [List.length_range]; omega)]
    rfl

/-- The transforms of a type. -/
theorem convert_transforms_eq (transforms : List TransformFields) (k : TransformType) :
    convert_transforms transforms k =
      ((linked (·.nexttype) 3 transforms).filter fun t => TransformType.named t.type = some k).map
        TransformFields.str := by
  have fold (l : List TransformFields) (entry : Entry) :
      l.foldl (fun entry transform =>
        match TransformType.named transform.type with
        | some k => entry.push k transform.str
        | none => entry) entry k =
      entry k ++ (l.filter fun t => TransformType.named t.type = some k).map
        TransformFields.str := by
    induction l generalizing entry with
    | nil => simp
    | cons t l ih =>
        rw [List.foldl_cons, ih, List.filter_cons]
        cases named : TransformType.named t.type with
        | none => simp
        | some j =>
            by_cases same : k = j
            · simp [same, Entry.push]
            · simp [same, Entry.push, eq_comm]
  exact (fold _ noTransforms).trans (List.nil_append _)

theorem named_text {type : Text} {k : TransformType}
    (named : TransformType.named type = some k) : type = k.text := by
  have same : (k.text == type) = true := 
    List.find?_some (p := fun k : TransformType => k.text == type) named
  exact (beq_iff_eq.mp same).symm

theorem Distinct.convert {payload : List ProposalFields} (distinct : Distinct payload)
    {entry : ProposalFields} (mem : entry ∈ payload) (k : TransformType) :
    (convert_transforms entry.transforms k).Nodup := by
  rw [convert_transforms_eq]
  have pairs : (((linked (·.nexttype) 3 entry.transforms).filter fun t =>
      TransformType.named t.type = some k).map fun t => (t.type, t.str)).Nodup :=
    (distinct entry mem).sublist (List.filter_sublist.map _)
  refine List.Nodup.of_map (fun str => (k.text, str)) ?_
  rw [List.map_map]
  rwa [List.map_congr_left fun t mem => ?_] at pairs
  have named := of_decide_eq_true (List.mem_filter.mp mem).2
  exact congrArg (·, t.str) (named_text named)

/-- The entries after the conversion: what a type has, or no integrity in place of nothing. -/
theorem mem_omit_integrity {entries : List Entry} {entry : Entry}
    (mem : entry ∈ omit_integrity entries) : ∃ before ∈ entries, entry = before ∨
      before .integ = [] ∧ entry = before.push .integ INTEG_NONE := by
  induction entries with
  | nil => cases mem
  | cons first entries ih =>
      rw [omit_integrity] at mem
      split_ifs at mem with missing
      · rcases List.mem_cons.mp mem with rfl | mem
        · exact ⟨first, List.mem_cons_self, .inr ⟨missing, rfl⟩⟩
        · exact ⟨entry, List.mem_cons_of_mem _ mem, .inl rfl⟩
      · rcases List.mem_cons.mp mem with rfl | mem
        · exact ⟨entry, List.mem_cons_self, .inl rfl⟩
        · obtain ⟨before, mem', same⟩ := ih mem
          exact ⟨before, List.mem_cons_of_mem _ mem', same⟩

/-- Every entry stays or gets no integrity, and where one is without integrity one gets it. -/
theorem omit_integrity_mem {entries : List Entry} {before : Entry} (mem : before ∈ entries) :
    (∃ entry ∈ omit_integrity entries, ∀ k, before k ⊆ entry k) ∧
      (before .integ = [] → ∃ entry ∈ omit_integrity entries, INTEG_NONE ∈ entry .integ) := by
  induction entries with
  | nil => cases mem
  | cons first entries ih =>
      rw [omit_integrity]
      by_cases missing : first .integ = []
      · rw [if_pos missing]
        refine ⟨?_, fun _ => ⟨_, List.mem_cons_self, by simp [Entry.push]⟩⟩
        rcases List.mem_cons.mp mem with rfl | mem
        · refine ⟨_, List.mem_cons_self, fun k => ?_⟩
          unfold Entry.push
          split
          · exact List.subset_append_left _ _
          · exact List.Subset.refl _
        · exact ⟨before, List.mem_cons_of_mem _ mem, fun k => List.Subset.refl _⟩
      · rw [if_neg missing]
        rcases List.mem_cons.mp mem with rfl | mem
        · exact ⟨⟨before, List.mem_cons_self, fun k => List.Subset.refl _⟩,
            fun missing' => absurd missing' missing⟩
        · obtain ⟨⟨entry, mem', kept⟩, none_⟩ := ih mem
          refine ⟨⟨entry, List.mem_cons_of_mem _ mem', kept⟩, fun missing' => ?_⟩
          obtain ⟨entry', mem'', has⟩ := none_ missing'
          exact ⟨entry', List.mem_cons_of_mem _ mem'', has⟩

/-! ## What is accepted -/

/-- A text without a comma. -/
def Plain (str : Text) : Prop := str ≠ [] ∧ (0x2c : UInt8) ∉ str

theorem intercalate_cons_cons (separator x y : Text) (l : List Text) :
    separator.intercalate (x :: y :: l) = x ++ separator ++ separator.intercalate (y :: l) := by
  simp [List.intercalate]

theorem intercalate_head (separator : Text) (c : UInt8) (x : Text) (l : List Text) :
    separator.intercalate ((c :: x) :: l) = c :: separator.intercalate (x :: l) := by
  cases l with
  | nil => rfl
  | cons y l => rw [intercalate_cons_cons, intercalate_cons_cons, List.cons_append, List.cons_append]

/-- Behind the first text each has a blank in front of it, and a comma in front of that. -/
theorem intercalate_blank (x : Text) (l : List Text) :
    (octets ", ").intercalate (x :: l) = [0x2c].intercalate (x :: l.map (0x20 :: ·)) := by
  induction l generalizing x with
  | nil => rfl
  | cons y l ih =>
      rw [intercalate_cons_cons, ih, List.map_cons, intercalate_cons_cons, intercalate_head]
      simp [octets]

theorem splitOn_texts {x : Text} {l : List Text} (plain : ∀ y ∈ x :: l, Plain y) :
    ((octets ", ").intercalate (x :: l)).splitOn 0x2c = x :: l.map (0x20 :: ·) := by
  rw [intercalate_blank]
  apply List.splitOn_intercalate
  · intro y mem
    rcases List.mem_cons.mp mem with rfl | mem
    · exact (plain y List.mem_cons_self).2
    · obtain ⟨z, mem', rfl⟩ := List.mem_map.mp mem
      rw [List.mem_cons, not_or]
      exact ⟨by decide, (plain z (List.mem_cons_of_mem x mem')).2⟩
  · exact List.cons_ne_nil _ _

theorem intercalate_ne_nil {x : Text} (plain : Plain x) (l : List Text) :
    (octets ", ").intercalate (x :: l) ≠ [] := by
  cases x with
  | nil => exact absurd rfl plain.1
  | cons c x =>
      rw [intercalate_head]
      exact List.cons_ne_nil _ _

theorem intercalate_inj {l l' : List Text} (plain : ∀ x ∈ l, Plain x) (plain' : ∀ x ∈ l', Plain x)
    (same : (octets ", ").intercalate l = (octets ", ").intercalate l') : l = l' := by
  cases l with
  | nil =>
      cases l' with
      | nil => rfl
      | cons x l' => exact absurd same.symm (intercalate_ne_nil (plain' x List.mem_cons_self) l')
  | cons x l =>
      cases l' with
      | nil => exact absurd same (intercalate_ne_nil (plain x List.mem_cons_self) l)
      | cons x' l' =>
          have pieces := congrArg (List.splitOn 0x2c) same
          rw [splitOn_texts plain, splitOn_texts plain', List.cons.injEq] at pieces
          obtain ⟨rfl, rest⟩ := pieces
          rw [(List.map_injective_iff.mpr (List.cons_injective (a := 0x20))) rest]

/-- Plain texts that look the same are the same but for their order. -/
theorem perm_of_str_eq {l l' : List Text} (plain : ∀ x ∈ l, Plain x) (plain' : ∀ x ∈ l', Plain x)
    (same : get_transforms_str l = get_transforms_str l') : l.Perm l' := by
  have sorted := intercalate_inj (fun x mem => plain x (List.mem_mergeSort.mp mem))
    (fun x mem => plain' x (List.mem_mergeSort.mp mem)) same
  exact (List.mergeSort_perm l _).symm.trans (sorted ▸ List.mergeSort_perm l' _)

theorem Listed.subset {rcv exp : List Text} (plain : ∀ x ∈ exp, Plain x)
    (plain' : ∀ x ∈ rcv, Plain x) (listed : Listed rcv exp) : exp ⊆ rcv := by
  unfold Listed at listed
  split_ifs at listed
  · exact listed
  · exact (perm_of_str_eq plain plain' listed).subset

/-- The types are the known ones, and nothing that is compared has a comma in it. -/
def PlainPayload (payload : List ProposalFields) : Prop :=
  ∀ entry ∈ payload, ∀ t ∈ entry.transforms,
    (TransformType.named t.type).isSome ∧ (0x2c : UInt8) ∉ t.str

/-- The converted proposals as they are compared. -/
def seen (payload : List ProposalFields) : List (List Entry) :=
  (proposalsOf payload).map fun entries =>
    omit_integrity (entries.map fun entry => convert_transforms entry.transforms)

/-- Every expected proposal is given one whose last entry has all of each of its entries, and in
    front of which no other such one is left by the earlier expected proposals. -/
def FirstFits (received expected : List ProposalFields) : Prop :=
  ∃ places, InTurn LastFits (seen received) [] (seen expected) places

theorem mem_proposalsOf {payload entries : List ProposalFields} (mem : entries ∈ proposalsOf payload)
    {entry : ProposalFields} (mem' : entry ∈ entries) : entry ∈ payload := by
  obtain ⟨k, -, rfl⟩ := List.mem_map.mp mem
  exact mem_linked (List.mem_filter.mp mem').1

theorem Distinct.seen {payload : List ProposalFields} (distinct : Distinct payload)
    {entries : List Entry} (mem : entries ∈ seen payload) :
    ∀ r ∈ entries, ∀ k, (r k).Nodup := by
  obtain ⟨group, inside, rfl⟩ := List.mem_map.mp mem
  intro r mem' k
  obtain ⟨before, inside', same⟩ := mem_omit_integrity mem'
  obtain ⟨entry, mem'', rfl⟩ := List.mem_map.mp inside'
  have nodup := distinct.convert (mem_proposalsOf inside mem'') k
  rcases same with rfl | ⟨missing, rfl⟩
  · exact nodup
  · unfold Entry.push
    split
    next here =>
      subst here
      rw [missing]
      exact List.nodup_singleton _
    · exact nodup

theorem judge_SA_Proposals_iff {received expected : List ProposalFields}
    (numbered : Numbered received) (numbered' : Numbered expected) (distinct : Distinct received) :
    (judge_SA_Proposals received expected).1 = true ↔ FirstFits received expected := by
  have rcv : (convert_proposals received).map omit_integrity = seen received := by
    rw [convert_proposals_eq numbered, List.map_map]
    rfl
  have exp : (convert_proposals expected).map omit_integrity = seen expected := by
    rw [convert_proposals_eq numbered', List.map_map]
    rfl
  have fits (p : Nat) (e : List Entry) :
      FirstFit.Fits (fun r e => compare_proposal r e = true) (seen received) p e ↔
        FirstFit.Fits LastFits (seen received) p e := by
    refine exists_congr fun r => and_congr_right fun there => ?_
    exact compare_proposal_iff (distinct.seen (List.mem_of_getElem? there))
  change compare_proposals ((convert_proposals received).map omit_integrity)
    ((convert_proposals expected).map omit_integrity) = true ↔ _
  rw [rcv, exp, compare_proposals_iff]
  constructor
  · rintro ⟨places, turns⟩
    exact ⟨places, turns.congr fits fun _ => Iff.rfl⟩
  · rintro ⟨places, turns⟩
    exact ⟨places, turns.congr (fun p e => (fits p e).symm) fun _ => Iff.rfl⟩

theorem str_ne_nil (transform : TransformFields) : transform.str ≠ [] := by
  have grows (attributes : List AttributeFields) (str : Text) (some_ : str ≠ []) :
      attributes.foldl (fun str attr =>
        if attr.type = octets "Key Length" then str ++ octets "-" ++ attr.value else str) str ≠ [] := by
    induction attributes generalizing str with
    | nil => exact some_
    | cons attr attributes ih =>
        apply ih
        by_cases key : attr.type = octets "Key Length"
        · simp [key, octets]
        · simpa [key] using some_
  exact grows _ _ (by simp [octets])

theorem mem_convert {entry : ProposalFields} {k : TransformType} {str : Text} :
    str ∈ convert_transforms entry.transforms k ↔ ∃ t ∈ linked (·.nexttype) 3 entry.transforms,
      TransformType.named t.type = some k ∧ t.str = str := by
  rw [convert_transforms_eq, List.mem_map]
  simp only [List.mem_filter, decide_eq_true_iff, and_assoc]

/-- An entry has no integrity algorithm when it is converted exactly where it has none before. -/
theorem convert_integ_eq_nil (entry : ProposalFields) :
    convert_transforms entry.transforms .integ = [] ↔
      octets "INTEG" ∉ ((linked (·.nexttype) 3 entry.transforms).map fun t => (t.type, t.str)).map
        Prod.fst := by
  rw [List.eq_nil_iff_forall_not_mem, List.map_map, List.mem_map, ← not_exists]
  refine not_congr ⟨?_, ?_⟩
  · rintro ⟨str, mem⟩
    obtain ⟨t, mem, named, -⟩ := mem_convert.mp mem
    exact ⟨t, mem, named_text named⟩
  · rintro ⟨t, mem, type⟩
    refine ⟨t.str, mem_convert.mpr ⟨t, mem, ?_, rfl⟩⟩
    rw [show t.type = octets "INTEG" from type]
    decide

theorem mem_full_of_transform {entry : ProposalFields} {t : TransformFields}
    (mem : t ∈ linked (·.nexttype) 3 entry.transforms) : (t.type, t.str) ∈ entry.full := by
  have here := List.mem_map_of_mem (f := fun t : TransformFields => (t.type, t.str)) mem
  simp only [ProposalFields.full]
  split_ifs
  · exact here
  · exact List.mem_cons_of_mem _ here

/-- What is seen of an entry belongs to it, the missing integrity as well. -/
theorem mem_full {entry : ProposalFields} {r : Entry}
    (same : r = convert_transforms entry.transforms ∨
      convert_transforms entry.transforms .integ = [] ∧
        r = (convert_transforms entry.transforms).push .integ INTEG_NONE)
    {k : TransformType} {str : Text} (mem : str ∈ r k) : (k.text, str) ∈ entry.full := by
  have converted {k : TransformType} {str : Text}
      (mem : str ∈ convert_transforms entry.transforms k) : (k.text, str) ∈ entry.full := by
    obtain ⟨t, there, named, rfl⟩ := mem_convert.mp mem
    exact named_text named ▸ mem_full_of_transform there
  rcases same with rfl | ⟨missing, rfl⟩
  · exact converted mem
  · unfold Entry.push at mem
    split_ifs at mem with here
    · rw [here, missing, List.nil_append, List.mem_singleton] at mem
      rw [here, mem, ProposalFields.full, if_neg ((convert_integ_eq_nil entry).mp missing)]
      exact List.mem_cons_self
    · exact converted mem

/-- What is compared of a plain payload is plain. -/
theorem PlainPayload.plain {payload group : List ProposalFields} (plain : PlainPayload payload)
    (mem : group ∈ proposalsOf payload) {r : Entry}
    (seen_ : r ∈ omit_integrity (group.map fun entry => convert_transforms entry.transforms))
    (k : TransformType) : ∀ str ∈ r k, Plain str := by
  obtain ⟨before, inside, same⟩ := mem_omit_integrity seen_
  obtain ⟨entry, mem', rfl⟩ := List.mem_map.mp inside
  have converted {str : Text} (mem'' : str ∈ convert_transforms entry.transforms k) : Plain str := by
    obtain ⟨t, there, -, rfl⟩ := mem_convert.mp mem''
    exact ⟨str_ne_nil t, (plain entry (mem_proposalsOf mem mem') t (mem_linked there)).2⟩
  intro str mem''
  rcases same with rfl | ⟨missing, rfl⟩
  · exact converted mem''
  · unfold Entry.push at mem''
    split_ifs at mem'' with here
    · rw [here, missing, List.nil_append, List.mem_singleton] at mem''
      rw [mem'']
      exact ⟨by decide, by decide⟩
    · exact converted mem''

/-- The last entry of a proposal that fits meets all the expected ones. -/
theorem meetsAll_of_lastFits {received expected rcv exp : List ProposalFields}
    (plain : PlainPayload received) (plain' : PlainPayload expected)
    (mem : rcv ∈ proposalsOf received) (mem' : exp ∈ proposalsOf expected)
    (fits : LastFits (omit_integrity (rcv.map fun entry => convert_transforms entry.transforms))
      (omit_integrity (exp.map fun entry => convert_transforms entry.transforms))) :
    MeetsAll rcv exp := by
  intro e wants
  have inside := List.mem_map_of_mem (f := fun entry : ProposalFields =>
    convert_transforms entry.transforms) wants
  obtain ⟨⟨e', seen_, kept⟩, none_⟩ := omit_integrity_mem inside
  obtain ⟨-, r', last, listed⟩ := fits.resolve_left (List.ne_nil_of_mem seen_)
  have seen' := List.mem_of_getLast? last
  obtain ⟨before, there, same⟩ := mem_omit_integrity seen'
  obtain ⟨r, offers, rfl⟩ := List.mem_map.mp there
  have subset {e' : Entry} (seen_ : e' ∈ omit_integrity
      (exp.map fun entry => convert_transforms entry.transforms)) (k : TransformType) :
      e' k ⊆ r' k :=
    (listed e' seen_ k).subset (plain'.plain mem' seen_ k) (plain.plain mem seen' k)
  refine ⟨r, offers, ?_⟩
  have known : ∀ t ∈ linked (·.nexttype) 3 e.transforms, (t.type, t.str) ∈ r.full := by
    intro t linked_
    obtain ⟨k, named⟩ := Option.isSome_iff_exists.mp
      (plain' e (mem_proposalsOf mem' wants) t (mem_linked linked_)).1
    rw [named_text named]
    exact mem_full same (subset seen_ k (kept k (mem_convert.mpr ⟨t, linked_, named, rfl⟩)))
  intro x mem''
  simp only [ProposalFields.full] at mem''
  split_ifs at mem'' with has
  · obtain ⟨t, linked_, rfl⟩ := List.mem_map.mp mem''
    exact known t linked_
  · rcases List.mem_cons.mp mem'' with rfl | mem''
    · obtain ⟨e'', seen'', omitted⟩ := none_ ((convert_integ_eq_nil e).mpr has)
      exact mem_full same (subset seen'' .integ omitted)
    · obtain ⟨t, linked_, rfl⟩ := List.mem_map.mp mem''
      exact known t linked_

theorem FirstFits.assignable {received expected : List ProposalFields}
    (plain : PlainPayload received) (plain' : PlainPayload expected)
    (fits : FirstFits received expected) :
    Assignable MeetsAll (proposalsOf received) (proposalsOf expected) := by
  obtain ⟨places, turns⟩ := fits
  apply turns.assignable.of_map
  intro rcv mem exp mem' fit
  exact meetsAll_of_lastFits plain plain' mem mem' fit

/-- An entry of proposal 1 with transforms of types and ids. -/
def entryOf (nexttype : Nat) (transforms : List (String × String)) : ProposalFields where
  nexttype := nexttype
  number := 1
  transforms := transforms.map fun t => ⟨3, octets t.1, octets t.2, []⟩

/-- A payload of one proposal meets itself. -/
theorem assignable_self {payload : List ProposalFields} (one : proposalsOf payload = [payload]) :
    Assignable MeetsAll (proposalsOf payload) (proposalsOf payload) := by
  rw [one]
  refine ⟨[0], by decide, .cons ⟨payload, rfl, fun e mem => ?_⟩ .nil⟩
  exact ⟨e, mem, List.Subset.refl _⟩

/-- An entry alone in its payload. -/
def oneEntry : List ProposalFields := [entryOf 0 [("ENCR", "3DES"), ("INTEG", "HMAC_SHA1_96")]]

/-- Two entries, with other transforms each. -/
def twoEntries : List ProposalFields :=
  [entryOf 2 [("ENCR", "3DES"), ("INTEG", "HMAC_SHA1_96")], entryOf 0 [("INTEG", "AES_XCBC_96")]]

end Judge

end Tahi.Ike
