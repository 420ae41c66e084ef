import Tahi.Ike.KJudgeElements

/-! # Judging proposals and their transforms

Each expected transform takes the first received one that matches it and has no mark. The marks
are keys of the transforms themselves.
-/

namespace Tahi.Ike

namespace Judge

open FirstFit

structure ReceivedTransform where
  fields : Received
  attributes : List Received

structure ExpectedTransform where
  fields : ExpectedFields
  attributes : List ExpectedFields

structure ReceivedProposal where
  fields : Received
  transforms : List (Marked ReceivedTransform)

structure ExpectedProposal where
  fields : ExpectedFields
  transforms : List (Marked ExpectedTransform)

section

variable (eval : List UInt8 → Option Bool) (number : List UInt8 → ℚ)

/-- The length of an attribute whose format says that it has none is left out. -/
def judge_TransformAttribute (received : Received) (expected : ExpectedFields) : Bool :=
  ["af", "type", "length", "value"].foldl (fun result field =>
    if field = "length" ∧ received "af" = some (octets "1") then result
    else if judge_field eval number field ["length"] (received field) (expected.value field)
      (expected.comparator field) then result else false) true

/-- The fields of a transform. -/
def judge_transform_fields : Received → ExpectedFields → Bool :=
  judge_fields eval number ["nexttype", "reserved1", "transformLen", "type", "reserved2", "id"]
    ["nexttype", "transformLen"]

def judge_TransformSubstructure (received : ReceivedTransform) (expected : ExpectedTransform) :
    Bool :=
  let result := judge_transform_fields eval number received.fields expected.fields
  match received.attributes, expected.attributes with
  | [], _ :: _ => false
  | [], [] => result
  | attr :: _, attributes =>
      attributes.foldl (fun result exp =>
        if judge_TransformAttribute eval number attr exp then result else false) result

end

section

variable {α β : Type} (judge : α → β → Bool)

/-- The inner loop: the received elements with the mark at the one that matches. -/
def find_match (i : Nat) (expected : β) : List (Marked α) → Option (List (Marked α))
  | [] => none
  | elm :: received =>
      if elm.checked.isSome then (find_match i expected received).map (elm :: ·)
      else if judge elm.element expected then some ({ elm with checked := some i } :: received)
      else (find_match i expected received).map (elm :: ·)

/-- One turn of the outer loop, with both lists and the result. -/
def match_expected (state : List (Marked α) × List (Marked β) × Bool) (i : Nat) (expected : β) :
    List (Marked α) × List (Marked β) × Bool :=
  let (received, marks, result) := state
  match find_match judge i expected received with
  | some received => (received, marks.modify i fun elm => { elm with checked := some i }, result)
  | none => (received, marks, false)

def match_all (received : List (Marked α)) (expected : List (Marked β)) (result : Bool) :
    List (Marked α) × List (Marked β) × Bool :=
  expected.zipIdx.foldl (fun state exp => match_expected judge state exp.2 exp.1.element)
    (received, expected, result)

end

/-- What stands in the block `cleanup`. -/
def cleanup {α : Type} (elms : List (Marked α)) : List (Marked α) :=
  elms.map fun elm => { elm with checked := none }

section

variable (eval : List UInt8 → Option Bool) (number : List UInt8 → ℚ)

def judge_proposal_fields : Received → ExpectedFields → Bool :=
  judge_fields eval number
    ["nexttype", "reserved", "proposalLen", "number", "id", "spiSize", "transformCount", "spi"]
    ["nexttype", "proposalLen"]

/-- The result, and what the two proposals are afterwards. -/
def judge_ProposalSubstructure (received : ReceivedProposal) (expected : ExpectedProposal) :
    Bool × ReceivedProposal × ExpectedProposal :=
  let result := judge_proposal_fields eval number received.fields expected.fields
  let (rcv, exp, result) := match_all (judge_TransformSubstructure eval number)
    received.transforms expected.transforms result
  (result, { received with transforms := cleanup rcv }, { expected with transforms := cleanup exp })

/-! ## What it is to say -/

/-- Some attribute is found for each that is expected. -/
def Meets (received : ReceivedTransform) (expected : ExpectedTransform) : Prop :=
  judge_transform_fields eval number received.fields expected.fields = true ∧
    ∀ exp ∈ expected.attributes, ∃ rcv ∈ received.attributes,
      judge_TransformAttribute eval number rcv exp = true

/-- The first attribute is found for all that are expected. -/
def MeetsFirst (received : ReceivedTransform) (expected : ExpectedTransform) : Prop :=
  judge_transform_fields eval number received.fields expected.fields = true ∧
    (expected.attributes = [] ∨ ∃ rcv, received.attributes.head? = some rcv ∧
      ∀ exp ∈ expected.attributes, judge_TransformAttribute eval number rcv exp = true)

end

/-! ## The loops -/

theorem foldl_all {β : Type} (p : β → Bool) (l : List β) (result : Bool) :
    l.foldl (fun result b => if p b then result else false) result = (result && l.all p) := by
  induction l generalizing result with
  | nil => rw [List.foldl_nil, List.all_nil, Bool.and_true]
  | cons b l ih =>
      rw [List.foldl_cons, ih, List.all_cons]
      cases p b <;> simp

theorem judge_TransformSubstructure_iff (eval : List UInt8 → Option Bool)
    (number : List UInt8 → ℚ) (received : ReceivedTransform) (expected : ExpectedTransform) :
    judge_TransformSubstructure eval number received expected = true ↔
      MeetsFirst eval number received expected := by
  unfold judge_TransformSubstructure MeetsFirst
  cases rcv : received.attributes with
  | nil =>
      cases exp : expected.attributes with
      | nil => simp
      | cons first others => simp
  | cons attr others =>
      simp only [foldl_all, Bool.and_eq_true, List.all_eq_true, List.head?_cons,
        Option.some.injEq, exists_eq_left']
      refine and_congr_right fun _ => ⟨.inr, ?_⟩
      rintro (none_ | all)
      · intro exp mem
        rw [none_] at mem
        cases mem
      · exact all

theorem MeetsFirst.meets {eval : List UInt8 → Option Bool} {number : List UInt8 → ℚ}
    {received : ReceivedTransform} {expected : ExpectedTransform}
    (first : MeetsFirst eval number received expected) : Meets eval number received expected := by
  refine ⟨first.1, fun exp mem => ?_⟩
  rcases first.2 with none_ | ⟨rcv, head, all⟩
  · rw [none_] at mem
    cases mem
  · exact ⟨rcv, List.mem_of_head? head, all exp mem⟩

section

variable {α β : Type} {judge : α → β → Bool}

/-- The places that are marked are the ones taken. -/
structure Holds (offered : List α) (taken : List Nat) (received : List (Marked α)) : Prop where
  elements : received.map Marked.element = offered
  marks : ∀ p elm, received[p]? = some elm → (elm.checked.isSome ↔ p ∈ taken)

theorem find_match_some {i : Nat} {expected : β} {received received' : List (Marked α)}
    (found : find_match judge i expected received = some received') :
    ∃ p elm, received[p]? = some elm ∧ elm.checked = none ∧ judge elm.element expected = true ∧
      (∀ q < p, ∀ other, received[q]? = some other → other.checked = none →
        judge other.element expected = false) ∧
      received' = received.set p { elm with checked := some i } := by
  induction received generalizing received' with
  | nil => cases found
  | cons elm received ih =>
      -- The loop goes on where the element is marked or does not match.
      have onward (passed : elm.checked = none → judge elm.element expected = false)
          (found : (find_match judge i expected received).map (elm :: ·) = some received') :
          ∃ p elm', (elm :: received)[p]? = some elm' ∧ elm'.checked = none ∧
            judge elm'.element expected = true ∧
            (∀ q < p, ∀ other, (elm :: received)[q]? = some other → other.checked = none →
              judge other.element expected = false) ∧
            received' = (elm :: received).set p { elm' with checked := some i } := by
        obtain ⟨rest, found', rfl⟩ := Option.map_eq_some_iff.mp found
        obtain ⟨p, elm', there, free, matches_, before, rfl⟩ := ih found'
        refine ⟨p + 1, elm', there, free, matches_, fun q less other there' free' => ?_, rfl⟩
        cases q with
        | zero =>
            obtain rfl : elm = other := by simpa using there'
            exact passed free'
        | succ q => exact before q (Nat.lt_of_succ_lt_succ less) other there' free'
      rw [find_match] at found
      split_ifs at found with marked matches_
      · exact onward (fun free => by simp [free] at marked) found
      · refine ⟨0, elm, rfl, by simpa using marked, matches_, fun q less => ?_, ?_⟩
        · exact absurd less (Nat.not_lt_zero q)
        · exact (Option.some.inj found).symm
      · exact onward (fun _ => by simpa using matches_) found

theorem find_match_none {i : Nat} {expected : β} {received : List (Marked α)}
    (missed : find_match judge i expected received = none) :
    ∀ elm ∈ received, elm.checked = none → judge elm.element expected = false := by
  induction received with
  | nil => exact fun elm mem => absurd mem List.not_mem_nil
  | cons elm received ih =>
      rw [find_match] at missed
      split_ifs at missed with marked matches_
      · rw [Option.map_eq_none_iff] at missed
        rintro other mem free
        rcases List.mem_cons.mp mem with rfl | mem
        · simp [free] at marked
        · exact ih missed other mem free
      · rw [Option.map_eq_none_iff] at missed
        rintro other mem free
        rcases List.mem_cons.mp mem with rfl | mem
        · simpa using matches_
        · exact ih missed other mem free

theorem Holds.fits_iff {offered : List α} {taken : List Nat} {received : List (Marked α)}
    (holds : Holds offered taken received) {p : Nat} {expected : β} :
    FirstFit.Fits (fun rcv exp => judge rcv exp = true) offered p expected ↔
      ∃ elm, received[p]? = some elm ∧ judge elm.element expected = true := by
  simp only [FirstFit.Fits, ← holds.elements, List.getElem?_map, Option.map_eq_some_iff]
  constructor
  · rintro ⟨rcv, ⟨elm, there, rfl⟩, fits⟩
    exact ⟨elm, there, fits⟩
  · rintro ⟨elm, there, fits⟩
    exact ⟨elm.element, ⟨elm, there, rfl⟩, fits⟩

theorem set_elements {received : List (Marked α)} {p : Nat} {elm : Marked α}
    (there : received[p]? = some elm) (i : Nat) :
    (received.set p { elm with checked := some i }).map Marked.element =
      received.map Marked.element := by
  obtain ⟨inside, -⟩ := List.getElem?_eq_some_iff.mp there
  apply List.ext_getElem?
  intro q
  rw [List.getElem?_map, List.getElem?_set, List.getElem?_map]
  by_cases here : p = q
  · rw [if_pos here, if_pos inside, ← here, there]
    rfl
  · rw [if_neg here]

theorem Holds.set {offered : List α} {taken : List Nat} {received : List (Marked α)}
    (holds : Holds offered taken received) {p : Nat} {elm : Marked α}
    (there : received[p]? = some elm) (i : Nat) :
    Holds offered (p :: taken) (received.set p { elm with checked := some i }) where
  elements := (set_elements there i).trans holds.elements
  marks q other there' := by
    rw [List.getElem?_set] at there'
    rw [List.mem_cons]
    by_cases same : p = q
    · subst same
      obtain ⟨inside, -⟩ := List.getElem?_eq_some_iff.mp there
      rw [if_pos rfl, if_pos inside, Option.some_inj] at there'
      exact iff_of_true (there' ▸ rfl) (.inl rfl)
    · rw [if_neg same] at there'
      rw [holds.marks q other there', or_iff_right fun equal => same equal.symm]

theorem match_expected_some {received received' : List (Marked α)} {i : Nat} {expected : β}
    (found : find_match judge i expected received = some received') (marks : List (Marked β))
    (result : Bool) :
    match_expected judge (received, marks, result) i expected =
      (received', marks.modify i fun elm => { elm with checked := some i }, result) := by
  simp only [match_expected, found]

theorem match_expected_none {received : List (Marked α)} {i : Nat} {expected : β}
    (missed : find_match judge i expected received = none) (marks : List (Marked β))
    (result : Bool) :
    match_expected judge (received, marks, result) i expected = (received, marks, false) := by
  simp only [match_expected, missed]

theorem match_all_failed (received : List (Marked α)) (marks : List (Marked β))
    (expected : List (Marked β × Nat)) :
    (expected.foldl (fun state exp => match_expected judge state exp.2 exp.1.element)
      (received, marks, false)).2.2 = false := by
  induction expected generalizing received marks with
  | nil => rfl
  | cons exp expected ih =>
      rw [List.foldl_cons]
      cases found : find_match judge exp.2 exp.1.element received with
      | none =>
          rw [match_expected_none found]
          exact ih _ _
      | some received' =>
          rw [match_expected_some found]
          exact ih _ _

/-- The loops succeed if and only if there are first fits for the elements that are left. -/
theorem match_all_iff {offered : List α} {taken : List Nat} {received : List (Marked α)}
    (holds : Holds offered taken received) (marks : List (Marked β))
    (expected : List (Marked β × Nat)) :
    (expected.foldl (fun state exp => match_expected judge state exp.2 exp.1.element)
      (received, marks, true)).2.2 = true ↔
      ∃ places, InTurn (fun rcv exp => judge rcv exp = true) offered taken
        (expected.map fun exp => exp.1.element) places := by
  induction expected generalizing taken received marks with
  | nil => exact iff_of_true rfl ⟨[], inTurn_nil taken⟩
  | cons exp expected ih =>
      rw [List.foldl_cons, List.map_cons]
      cases found : find_match judge exp.2 exp.1.element received with
      | none =>
          rw [match_expected_none found, match_all_failed]
          refine iff_of_false Bool.false_ne_true ?_
          rintro ⟨places, turns⟩
          obtain ⟨p, rest, -, ⟨fit, left, -⟩, -⟩ := turns.exists_cons
          obtain ⟨elm, there, matches_⟩ := holds.fits_iff.mp fit
          have free : elm.checked = none := by
            simpa using mt (holds.marks p elm there).mp left
          rw [find_match_none found elm (List.mem_of_getElem? there) free] at matches_
          cases matches_
      | some received' =>
          obtain ⟨p, elm, there, free, matches_, before, rfl⟩ := find_match_some found
          rw [match_expected_some found, ih (holds.set there exp.2)]
          have left : p ∉ taken := by
            rw [← holds.marks p elm there, free]
            exact Bool.false_ne_true
          have first : ∀ q < p, FirstFit.Fits (fun rcv exp => judge rcv exp = true) offered q
              exp.1.element → q ∈ taken := by
            intro q less fit
            obtain ⟨other, there', matches'⟩ := holds.fits_iff.mp fit
            rw [← holds.marks q other there', Option.isSome_iff_ne_none]
            intro free'
            rw [before q less other there' free'] at matches'
            cases matches'
          constructor
          · rintro ⟨places, turns⟩
            exact ⟨p :: places, inTurn_cons.mpr
              ⟨⟨holds.fits_iff.mpr ⟨elm, there, matches_⟩, left, first⟩, turns⟩⟩
          · rintro ⟨places, turns⟩
            obtain ⟨p', rest, -, ⟨fit, left', first'⟩, turns'⟩ := turns.exists_cons
            -- There is only one first place.
            have same : p' = p := by
              rcases Nat.lt_trichotomy p' p with less | equal | more
              · exact absurd (first p' less fit) left'
              · exact equal
              · exact absurd (first' p more (holds.fits_iff.mpr ⟨elm, there, matches_⟩)) left
            exact ⟨rest, same ▸ turns'⟩

theorem modify_elements (l : List (Marked β)) (i : Nat) :
    (l.modify i fun elm => { elm with checked := some i }).map Marked.element =
      l.map Marked.element := by
  apply List.ext_getElem?
  intro p
  rw [List.getElem?_map, List.getElem?_modify, List.getElem?_map]
  cases l[p]? with
  | none => rfl
  | some elm => by_cases here : i = p <;> simp [here]

variable (judge) in
/-- Only marks change. -/
theorem match_all_elements (received : List (Marked α)) (marks : List (Marked β)) (result : Bool)
    (expected : List (Marked β × Nat)) {state : List (Marked α) × List (Marked β) × Bool}
    (run : expected.foldl (fun state exp => match_expected judge state exp.2 exp.1.element)
      (received, marks, result) = state) :
    state.1.map Marked.element = received.map Marked.element ∧
      state.2.1.map Marked.element = marks.map Marked.element := by
  induction expected generalizing received marks result with
  | nil => exact run ▸ ⟨rfl, rfl⟩
  | cons exp expected ih =>
      rw [List.foldl_cons] at run
      cases found : find_match judge exp.2 exp.1.element received with
      | none =>
          rw [match_expected_none found] at run
          exact ih received marks false run
      | some received' =>
          rw [match_expected_some found] at run
          obtain ⟨p, elm, there, -, -, -, rfl⟩ := find_match_some found
          obtain ⟨same, same'⟩ := ih _ _ result run
          exact ⟨same.trans (set_elements there exp.2), same'.trans (modify_elements marks exp.2)⟩

end

theorem cleanup_eq {α : Type} {elms : List (Marked α)} {l : List α}
    (elements : elms.map Marked.element = l) : cleanup elms = l.map unmarked := by
  rw [← elements, List.map_map]
  rfl

theorem holds_unmarked {α : Type} (l : List α) : Holds l [] (l.map unmarked) where
  elements := by
    rw [List.map_map]
    exact List.map_id l
  marks p elm there := by
    rw [List.getElem?_map, Option.map_eq_some_iff] at there
    obtain ⟨a, -, rfl⟩ := there
    exact iff_of_false Bool.false_ne_true List.not_mem_nil

/-! ## The judgement -/

section

variable (eval : List UInt8 → Option Bool) (number : List UInt8 → ℚ) (received : Received)
  (transforms : List ReceivedTransform) (expected : ExpectedFields)
  (wanted : List ExpectedTransform)

theorem judge_ProposalSubstructure_iff :
    (judge_ProposalSubstructure eval number ⟨received, transforms.map unmarked⟩
        ⟨expected, wanted.map unmarked⟩).1 = true ↔
      judge_proposal_fields eval number received expected = true ∧
        ∃ places, InTurn (MeetsFirst eval number) transforms [] wanted places := by
  have turn : (fun rcv exp => judge_TransformSubstructure eval number rcv exp = true) =
      MeetsFirst eval number := by
    funext rcv exp
    exact propext (judge_TransformSubstructure_iff eval number rcv exp)
  have elements : (wanted.map unmarked).zipIdx.map (fun exp => exp.1.element) = wanted := by
    have first : (wanted.map unmarked).zipIdx.map Prod.fst = wanted.map unmarked :=
      List.zipIdx_map_fst 0 _
    have split_ : (wanted.map unmarked).zipIdx.map (fun exp => exp.1.element) =
        ((wanted.map unmarked).zipIdx.map Prod.fst).map Marked.element := List.map_map.symm
    rw [split_, first, List.map_map]
    exact List.map_id wanted
  change (match_all (judge_TransformSubstructure eval number) (transforms.map unmarked)
    (wanted.map unmarked) (judge_proposal_fields eval number received expected)).2.2 = true ↔ _
  unfold match_all
  cases judge_proposal_fields eval number received expected with
  | false =>
      rw [match_all_failed]
      exact iff_of_false Bool.false_ne_true fun both => Bool.false_ne_true both.1
  | true =>
      rw [match_all_iff (holds_unmarked transforms), elements, turn]
      exact (and_iff_right rfl).symm

theorem judge_ProposalSubstructure_marks :
    (judge_ProposalSubstructure eval number ⟨received, transforms.map unmarked⟩
        ⟨expected, wanted.map unmarked⟩).2 =
      (⟨received, transforms.map unmarked⟩, ⟨expected, wanted.map unmarked⟩) := by
  obtain ⟨same, same'⟩ := match_all_elements (judge_TransformSubstructure eval number)
    (transforms.map unmarked) (wanted.map unmarked)
    (judge_proposal_fields eval number received expected) (wanted.map unmarked).zipIdx rfl
  have cleaned := cleanup_eq (same.trans (holds_unmarked transforms).elements)
  have cleaned' := cleanup_eq (same'.trans (holds_unmarked wanted).elements)
  exact Prod.ext (congrArg (ReceivedProposal.mk received) cleaned)
    (congrArg (ExpectedProposal.mk expected) cleaned')

end

/-- A received transform with an `id` and attributes of a value each. -/
def transformOf (id : String) (values : List String) : ReceivedTransform where
  fields field := some (octets (if field = "id" then id else "0"))
  attributes := values.map fun value field => some (octets (if field = "value" then value else "0"))

/-- One that is expected with any `id` or a certain one. -/
def transformFor (id : Option String) (values : List String) : ExpectedTransform where
  fields := ⟨fun field => if field = "id" then id.map fun id => .scalar (octets id) else none,
    fun _ => none⟩
  attributes := values.map fun value =>
    ⟨fun field => if field = "value" then some (.scalar (octets value)) else none, fun _ => none⟩

/-- The proposals of the fields that are not looked at. -/
def judgeTransforms (transforms : List ReceivedTransform) (wanted : List ExpectedTransform) : Bool :=
  (judge_ProposalSubstructure Perl.comparison (fun _ => 0)
    ⟨fun _ => some (octets "0"), transforms.map unmarked⟩
    ⟨⟨fun _ => none, fun _ => none⟩, wanted.map unmarked⟩).1

end Judge

end Tahi.Ike
