import Mathlib.Data.List.Forall2

/-! # Runs of a machine and of its specification

A machine takes an operation to a next state and a reply, or it stops. A relation
between its states and those of a specification that every allowed operation
preserves, with replies that go together, is preserved by whole runs.
-/

namespace Refinement

variable {σ τ ι ρ υ : Type}

/-- One operation after the other. `none` is a machine that has stopped. -/
@[grind =]
def run (step : σ → ι → Option (σ × ρ)) (s : σ) : List ι → Option (σ × List ρ)
  | [] => some (s, [])
  | op :: ops =>
      match step s op with
      | none => none
      | some (s, r) =>
          match run step s ops with
          | none => none
          | some (s, rs) => some (s, r :: rs)

/-- The same of a specification, which never stops. -/
def specRun (spec : τ → ι → τ × υ) (t : τ) : List ι → τ × List υ
  | [] => (t, [])
  | op :: ops =>
      let (t, r) := spec t op
      let (t, rs) := specRun spec t ops
      (t, r :: rs)

/-- Each operation is allowed in the state of the specification that it comes to. -/
def Allowed (spec : τ → ι → τ × υ) (pre : τ → ι → Prop) (t : τ) : List ι → Prop
  | [] => True
  | op :: ops => pre t op ∧ Allowed spec pre (spec t op).1 ops

instance decidableAllowed (spec : τ → ι → τ × υ) (pre : τ → ι → Prop)
    [∀ t op, Decidable (pre t op)] (t : τ) (ops : List ι) : Decidable (Allowed spec pre t ops) :=
  match ops with
  | [] => inferInstanceAs (Decidable True)
  | op :: ops =>
      have := decidableAllowed spec pre (spec t op).1 ops
      inferInstanceAs (Decidable (pre t op ∧ Allowed spec pre (spec t op).1 ops))

theorem allowed_of_forall {spec : τ → ι → τ × υ} {pre : τ → ι → Prop} (every : ∀ t op, pre t op)
    (t : τ) (ops : List ι) : Allowed spec pre t ops := by
  induction ops generalizing t with
  | nil => trivial
  | cons op ops ih => exact ⟨every t op, ih _⟩

theorem allowed_of_mem {spec : τ → ι → τ × υ} {pre : ι → Prop} {ops : List ι}
    (every : ∀ op ∈ ops, pre op) (t : τ) : Allowed spec (fun _ op => pre op) t ops := by
  induction ops generalizing t with
  | nil => trivial
  | cons op ops ih =>
      exact ⟨every op (by simp), ih (fun op mem => every op (List.mem_cons_of_mem _ mem)) _⟩

/-- The step lemma of a refinement. -/
def Simulates (step : σ → ι → Option (σ × ρ)) (spec : τ → ι → τ × υ) (pre : τ → ι → Prop)
    (Q : ρ → υ → Prop) (R : σ → τ → Prop) : Prop :=
  ∀ s t op, R s t → pre t op →
    ∃ s' r, step s op = some (s', r) ∧ Q r (spec t op).2 ∧ R s' (spec t op).1

/-- The run lemma: an allowed run does not stop, its replies go with those of the
    specification, and it ends in related states. -/
theorem Simulates.run {step : σ → ι → Option (σ × ρ)} {spec : τ → ι → τ × υ}
    {pre : τ → ι → Prop} {Q : ρ → υ → Prop} {R : σ → τ → Prop}
    (simulates : Simulates step spec pre Q R) {s : σ} {t : τ} (related : R s t) {ops : List ι}
    (allowed : Allowed spec pre t ops) :
    ∃ s' rs, run step s ops = some (s', rs) ∧ List.Forall₂ Q rs (specRun spec t ops).2 ∧
      R s' (specRun spec t ops).1 := by
  induction ops generalizing s t with
  | nil => exact ⟨s, [], rfl, .nil, related⟩
  | cons op ops ih =>
      obtain ⟨first, rest⟩ := allowed
      obtain ⟨s₁, r, stepped, reply, related₁⟩ := simulates s t op related first
      obtain ⟨s₂, rs, ran, replies, related₂⟩ := ih related₁ rest
      refine ⟨s₂, r :: rs, ?_, .cons reply replies, related₂⟩
      simp only [Refinement.run, stepped, ran]

/-- With the same replies. -/
theorem Simulates.run_eq {step : σ → ι → Option (σ × ρ)} {spec : τ → ι → τ × ρ}
    {pre : τ → ι → Prop} {R : σ → τ → Prop} (simulates : Simulates step spec pre Eq R)
    {s : σ} {t : τ} (related : R s t) {ops : List ι} (allowed : Allowed spec pre t ops) :
    ∃ s', Refinement.run step s ops = some (s', (specRun spec t ops).2) ∧
      R s' (specRun spec t ops).1 := by
  obtain ⟨s', rs, ran, replies, related'⟩ := simulates.run related allowed
  rw [List.forall₂_eq_eq_eq] at replies
  exact ⟨s', replies ▸ ran, related'⟩

/-- Where the machine stops at every operation that is not allowed, a run that does not
    stop is an allowed one. -/
theorem Simulates.allowed_of_run {step : σ → ι → Option (σ × ρ)} {spec : τ → ι → τ × υ}
    {dom pre : τ → ι → Prop} {Q : ρ → υ → Prop} {R : σ → τ → Prop}
    (simulates : Simulates step spec (fun t op => dom t op ∧ pre t op) Q R)
    (stops : ∀ s t op, R s t → dom t op → ¬pre t op → step s op = none) {s : σ} {t : τ}
    (related : R s t) {ops : List ι} (valid : Allowed spec dom t ops)
    (ran : Refinement.run step s ops ≠ none) : Allowed spec pre t ops := by
  induction ops generalizing s t with
  | nil => trivial
  | cons op ops ih =>
      obtain ⟨first, rest⟩ := valid
      by_cases fine : pre t op
      · obtain ⟨s₁, r, stepped, -, related₁⟩ := simulates s t op related ⟨first, fine⟩
        refine ⟨fine, ih related₁ rest fun stopped => ran ?_⟩
        simp only [Refinement.run, stepped, stopped]
      · have stopped := stops s t op related first fine
        exact absurd (by simp only [Refinement.run, stopped]) ran

theorem Allowed.restrict {spec : τ → ι → τ × υ} {pre : τ → ι → Prop} {t : τ}
    {before ops : List ι} (allowed : Allowed spec pre t ops) (start : before <+: ops) :
    Allowed spec pre t before := by
  induction before generalizing t ops with
  | nil => trivial
  | cons op before ih =>
      obtain ⟨ops, rfl, rest⟩ := List.cons_prefix_iff.mp start
      exact ⟨allowed.1, ih allowed.2 rest⟩

/-- Where an operation that is not allowed never leaves the machine in a good state, a run
    whose states are all good is an allowed one. -/
theorem Simulates.allowed_of_good {step : σ → ι → Option (σ × ρ)} {spec : τ → ι → τ × υ}
    {dom pre : τ → ι → Prop} {Q : ρ → υ → Prop} {R : σ → τ → Prop} {Good : σ → Prop}
    (simulates : Simulates step spec (fun t op => dom t op ∧ pre t op) Q R)
    (breaks : ∀ s t op, R s t → dom t op → ¬pre t op →
      ∀ s' r, step s op = some (s', r) → ¬Good s') {s : σ} {t : τ}
    (related : R s t) {ops : List ι} (valid : Allowed spec dom t ops)
    (good : ∀ before, before <+: ops → ∃ s' rs, Refinement.run step s before = some (s', rs) ∧
      Good s') : Allowed spec pre t ops := by
  induction ops generalizing s t with
  | nil => trivial
  | cons op ops ih =>
      obtain ⟨first, rest⟩ := valid
      by_cases fine : pre t op
      · obtain ⟨s₁, r, stepped, -, related₁⟩ := simulates s t op related ⟨first, fine⟩
        refine ⟨fine, ih related₁ rest fun before start => ?_⟩
        obtain ⟨s', rs, ran, fits⟩ := good (op :: before) (List.cons_prefix_cons.mpr ⟨rfl, start⟩)
        cases ran' : Refinement.run step s₁ before with
        | none => simp [Refinement.run, stepped, ran'] at ran
        | some end_ =>
            simp only [Refinement.run, stepped, ran', Option.some_inj, Prod.mk.injEq] at ran
            exact ⟨end_.1, end_.2, rfl, ran.1 ▸ fits⟩
      · obtain ⟨s', rs, ran, fits⟩ := good [op] (List.cons_prefix_cons.mpr ⟨rfl, List.nil_prefix⟩)
        cases stepped : step s op with
        | none => simp [Refinement.run, stepped] at ran
        | some end_ =>
            simp only [Refinement.run, stepped, Option.some_inj, Prod.mk.injEq] at ran
            exact absurd (ran.1 ▸ fits) (breaks s t op related first fine end_.1 end_.2 stepped)

/-- Where the machine stops, or replies otherwise, at every operation that is not allowed, a
    run with the replies of the specification is an allowed one. -/
theorem Simulates.allowed_of_replies {step : σ → ι → Option (σ × ρ)} {spec : τ → ι → τ × υ}
    {pre : τ → ι → Prop} {Q : ρ → υ → Prop} {R : σ → τ → Prop}
    (simulates : Simulates step spec pre Q R)
    (differs : ∀ s t op, R s t → ¬pre t op →
      ∀ s' r, step s op = some (s', r) → ¬Q r (spec t op).2) {s s' : σ} {t : τ}
    (related : R s t) {ops : List ι} {rs : List ρ} (ran : Refinement.run step s ops = some (s', rs))
    (replies : List.Forall₂ Q rs (specRun spec t ops).2) : Allowed spec pre t ops := by
  induction ops generalizing s t rs with
  | nil => trivial
  | cons op ops ih =>
      cases stepped : step s op with
      | none => simp [Refinement.run, stepped] at ran
      | some next =>
          obtain ⟨s₁, r⟩ := next
          cases ran' : Refinement.run step s₁ ops with
          | none => simp [Refinement.run, stepped, ran'] at ran
          | some rest =>
              obtain ⟨s₂, rs'⟩ := rest
              simp only [Refinement.run, stepped, ran', Option.some_inj, Prod.mk.injEq] at ran
              obtain ⟨rfl, rfl⟩ := ran
              cases replies with
              | cons first rest =>
                  by_cases fine : pre t op
                  · obtain ⟨s₁', r', stepped', -, related₁⟩ := simulates s t op related fine
                    rw [stepped] at stepped'
                    cases stepped'
                    exact ⟨fine, ih related₁ ran' rest⟩
                  · exact absurd first (differs s t op related fine s₁ r stepped)

theorem Allowed.and {spec : τ → ι → τ × υ} {p q : τ → ι → Prop} {t : τ} {ops : List ι}
    (first : Allowed spec p t ops) (second : Allowed spec q t ops) :
    Allowed spec (fun t op => p t op ∧ q t op) t ops := by
  induction ops generalizing t with
  | nil => trivial
  | cons op ops ih => exact ⟨⟨first.1, second.1⟩, ih first.2 second.2⟩

/-! ## One machine -/

/-- The machine goes through the operations, and each step is as `P` says. -/
def Throughout (step : σ → ι → Option (σ × ρ)) (P : σ → ι → ρ → Prop) (s : σ) : List ι → Prop
  | [] => True
  | op :: ops => ∃ s' r, step s op = some (s', r) ∧ P s op r ∧ Throughout step P s' ops

/-- Each operation meets the condition in the state that it comes to. -/
def Meets (step : σ → ι → Option (σ × ρ)) (pre : σ → ι → Prop) (s : σ) : List ι → Prop
  | [] => True
  | op :: ops => pre s op ∧ ∀ s' r, step s op = some (s', r) → Meets step pre s' ops

/-- The rule of the invariant. -/
theorem Meets.throughout {step : σ → ι → Option (σ × ρ)} {pre : σ → ι → Prop}
    {P : σ → ι → ρ → Prop} {Inv : σ → Prop}
    (keeps : ∀ s op, Inv s → pre s op → ∃ s' r, step s op = some (s', r) ∧ P s op r ∧ Inv s')
    {s : σ} (inv : Inv s) {ops : List ι} (meets : Meets step pre s ops) :
    Throughout step P s ops := by
  induction ops generalizing s with
  | nil => trivial
  | cons op ops ih =>
      obtain ⟨first, rest⟩ := meets
      obtain ⟨s', r, stepped, good, inv'⟩ := keeps s op inv first
      exact ⟨s', r, stepped, good, ih inv' (rest s' r stepped)⟩

/-- The states of a run that meets the condition. -/
theorem Meets.reaches {step : σ → ι → Option (σ × ρ)} {pre : σ → ι → Prop} {Inv : σ → Prop}
    (keeps : ∀ s op, Inv s → pre s op → ∃ s' r, step s op = some (s', r) ∧ Inv s')
    {s : σ} (inv : Inv s) {ops : List ι} (meets : Meets step pre s ops) {before : List ι}
    (start : before <+: ops) : ∃ s' rs, Refinement.run step s before = some (s', rs) ∧ Inv s' := by
  induction before generalizing s ops with
  | nil => exact ⟨s, [], rfl, inv⟩
  | cons op before ih =>
      obtain ⟨ops, rfl, rest⟩ := List.cons_prefix_iff.mp start
      obtain ⟨s₁, r, stepped, inv₁⟩ := keeps s op inv meets.1
      obtain ⟨s₂, rs, ran, inv₂⟩ := ih inv₁ (meets.2 s₁ r stepped) rest
      exact ⟨s₂, r :: rs, by simp only [Refinement.run, stepped, ran], inv₂⟩

/-- Where an operation that does not meet the condition never leaves the machine in a good state, a
    run whose states are all good meets it. -/
theorem Meets.of_good {step : σ → ι → Option (σ × ρ)} {pre : σ → ι → Prop} {Inv Good : σ → Prop}
    (keeps : ∀ s op, Inv s → pre s op → ∃ s' r, step s op = some (s', r) ∧ Inv s')
    (breaks : ∀ s op, Inv s → ¬pre s op → ∀ s' r, step s op = some (s', r) → ¬Good s')
    {s : σ} (inv : Inv s) {ops : List ι}
    (good : ∀ before, before <+: ops → ∃ s' rs, Refinement.run step s before = some (s', rs) ∧
      Good s') : Meets step pre s ops := by
  induction ops generalizing s with
  | nil => trivial
  | cons op ops ih =>
      obtain ⟨s₁, rs, ran, fits⟩ := good [op] (List.cons_prefix_cons.mpr ⟨rfl, List.nil_prefix⟩)
      cases stepped : step s op with
      | none => simp [Refinement.run, stepped] at ran
      | some next =>
          obtain ⟨s₂, r⟩ := next
          simp only [Refinement.run, stepped, Option.some_inj, Prod.mk.injEq] at ran
          have fine : pre s op := by
            by_contra bad
            exact breaks s op inv bad s₂ r stepped (ran.1 ▸ fits)
          refine ⟨fine, ?_⟩
          intro s' r' stepped'
          cases stepped.symm.trans stepped'
          obtain ⟨s₃, r₃, stepped₃, inv₃⟩ := keeps s op inv fine
          cases stepped.symm.trans stepped₃
          refine ih inv₃ fun before start => ?_
          obtain ⟨s', rs', ran', fits'⟩ := good (op :: before) (List.cons_prefix_cons.mpr ⟨rfl, start⟩)
          cases later : Refinement.run step s₂ before with
          | none => simp [Refinement.run, stepped, later] at ran'
          | some end_ =>
              simp only [Refinement.run, stepped, later, Option.some_inj, Prod.mk.injEq] at ran'
              exact ⟨end_.1, end_.2, rfl, ran'.1 ▸ fits'⟩

/-- Where a condition is just what an operation needs to leave a good state behind, a run meets it when
    all states that the run comes to are good. -/
theorem Meets.iff_of_exact {step : σ → ι → Option (σ × ρ)} {pre : σ → ι → Prop} {Good : σ → Prop}
    (exact_ : ∀ s op, Good s → (pre s op ↔ ∀ s' r, step s op = some (s', r) → Good s')) {s : σ}
    (good : Good s) (ops : List ι) :
    Meets step pre s ops ↔ ∀ before, before <+: ops → ∀ s' rs,
      Refinement.run step s before = some (s', rs) → Good s' := by
  induction ops generalizing s with
  | nil =>
      refine iff_of_true trivial ?_
      intro before start s' rs ran
      cases List.prefix_nil.mp start
      cases ran
      exact good
  | cons op ops ih =>
      constructor
      · rintro ⟨first, rest⟩ before start s' rs ran
        cases before with
        | nil =>
            cases ran
            exact good
        | cons op' before =>
            obtain ⟨rfl, within⟩ := List.cons_prefix_cons.mp start
            rw [Refinement.run.eq_def] at ran
            cases stepped : step s op' with
            | none => simp [stepped] at ran
            | some next =>
                cases later : Refinement.run step next.1 before with
                | none => simp [stepped, later] at ran
                | some end_ =>
                    simp only [stepped, later, Option.some_inj, Prod.mk.injEq] at ran
                    have good' := (exact_ s op' good).mp first next.1 next.2 stepped
                    have ends := (ih good').mp (rest next.1 next.2 stepped) before within
                    exact ends s' end_.2 (ran.1 ▸ later)
      · intro every
        have first : ∀ s' r, step s op = some (s', r) → Good s' := by
          intro s' r stepped
          have ran : Refinement.run step s [op] = some (s', [r]) := by
            simp only [Refinement.run, stepped]
          exact every [op] (List.cons_prefix_cons.mpr ⟨rfl, List.nil_prefix⟩) s' [r] ran
        refine ⟨(exact_ s op good).mpr first, ?_⟩
        intro s' r stepped
        refine (ih (first s' r stepped)).mpr ?_
        intro before start s'' rs ran
        refine every (op :: before) (List.cons_prefix_cons.mpr ⟨rfl, start⟩) s'' (r :: rs) ?_
        simp only [Refinement.run, stepped, ran]

/-- What each operation preserves holds at the end of a run. -/
theorem run_keeps {step : σ → ι → Option (σ × ρ)} {Inv : σ → Prop}
    (keeps : ∀ s op s' r, Inv s → step s op = some (s', r) → Inv s') {s s' : σ} {ops : List ι}
    {rs : List ρ} (inv : Inv s) (ran : run step s ops = some (s', rs)) : Inv s' := by
  induction ops generalizing s rs with
  | nil =>
      cases ran
      exact inv
  | cons op ops ih =>
      cases stepped : step s op with
      | none => simp [run, stepped] at ran
      | some next =>
          cases later : run step next.1 ops with
          | none => simp [run, stepped, later] at ran
          | some end_ =>
              obtain ⟨s₂, rs₂⟩ := end_
              simp only [run, stepped, later, Option.some_inj, Prod.mk.injEq] at ran
              obtain ⟨rfl, -⟩ := ran
              exact ih (keeps s op next.1 next.2 inv stepped) later

/-- Where a condition is just what an operation needs to go as it should, a run meets it when all of
    its operations do. -/
theorem Meets.iff_throughout {step : σ → ι → Option (σ × ρ)} {pre : σ → ι → Prop}
    {P : σ → ι → ρ → Prop} {Inv : σ → Prop} {ops : List ι}
    (keeps : ∀ s op s' r, Inv s → step s op = some (s', r) → Inv s')
    (exact_ : ∀ op ∈ ops, ∀ s, Inv s →
      (pre s op ↔ ∃ s' r, step s op = some (s', r) ∧ P s op r))
    {s : σ} (inv : Inv s) : Meets step pre s ops ↔ Throughout step P s ops := by
  induction ops generalizing s with
  | nil => exact Iff.rfl
  | cons op ops ih =>
      have here := exact_ op (by simp) s inv
      have rest (s' : σ) (r : ρ) (stepped : step s op = some (s', r)) :
          Meets step pre s' ops ↔ Throughout step P s' ops :=
        ih (fun op mem => exact_ op (List.mem_cons_of_mem _ mem)) (keeps s op s' r inv stepped)
      constructor
      · rintro ⟨first, later⟩
        obtain ⟨s', r, stepped, good⟩ := here.mp first
        exact ⟨s', r, stepped, good, (rest s' r stepped).mp (later s' r stepped)⟩
      · rintro ⟨s', r, stepped, good, later⟩
        refine ⟨here.mpr ⟨s', r, stepped, good⟩, ?_⟩
        intro s₁ r₁ stepped₁
        cases stepped.symm.trans stepped₁
        exact (rest s' r stepped).mpr later

end Refinement
