import Tahi.Tg.TgSyncEvent

/-! # What a step of the manager can do

All steps are listed here once, with what is known of the state before them.
-/

namespace Tahi.Tg

variable {A T E : Type}

/-- A statement that is about an event. -/
def Kind.About (k : Kind E) (e : E) : Prop := k = .sync e ∨ k = .wait e

theorem Kind.not_about_traffic (ops : ℕ) (e : E) : ¬ (Kind.traffic ops).About e := by
  rintro (h | h) <;> cases h

theorem Kind.not_about_delay (e : E) : ¬ Kind.delay.About e := by
  rintro (h | h) <;> cases h

theorem Kind.not_about_print (e : E) : ¬ Kind.print.About e := by
  rintro (h | h) <;> cases h

theorem Kind.About.unique {k : Kind E} {e e' : E} (about : k.About e) (about' : k.About e') :
    e = e' := by
  rcases about with rfl | rfl <;> rcases about' with h | h <;> cases h <;> rfl

namespace Scenario

variable (sc : Scenario A T E)

/-- The statement of an action at a place. -/
def stmtAt (a : A) (p : ℕ) : Option (Kind E) := (sc.stmtList a)[p]?

/-- Only the step of a statement about traffic goes on by itself. -/
def Continues (k : Kind E) (stmt stmt' : TgStatement) : Prop :=
  stmt' = stmt ∨ (∃ ops, k = .traffic ops) ∧ ∃ n, stmt' = { stmt with step_ := n }

/-- The thread that goes on, and its statement. -/
structure Goes (s : State A T E) (t : T) (work : List (Work T E)) (p : ℕ) (k : Kind E) : Prop where
  work : s.work = .next t :: work
  pos : s.stmtPos_ t = some p
  stmt : sc.stmtAt (sc.action t) p = some k

theorem Continues.refl (k : Kind E) (stmt : TgStatement) : Continues k stmt stmt := .inl rfl

theorem operations_continues (op : ℕ → Outcome) (stmt : TgStatement) (ops left : ℕ) :
    Continues (.traffic ops : Kind E) stmt
      { stmt with step_ := (operations op stmt.step_ left).1 } :=
  .inr ⟨⟨ops, rfl⟩, _, rfl⟩

inductive Move [DecidableEq A] [DecidableEq T] [DecidableEq E] (s s' : State A T E) : Prop where
  | start {t work} (top : s.work = .start t :: work) (eq : s' = sc.start { s with work } t)
  | ended {t work p} (top : s.work = .next t :: work) (pos : s.stmtPos_ t = some p)
      (behind : sc.stmtAt (sc.action t) p = none) (eq : s' = { s with work })
  | forth {t work p k stmt n} (goes : sc.Goes s t work p k)
      (continues : Continues k (s.stmts (sc.action t) p) stmt)
      (passed : (∃ ops, k = .traffic ops) ∨ stmt.step_ ≠ 0)
      (eq : s' = (({ s with work, id_seed_ := n }.setStmt (sc.action t) p stmt).setPos t
        (some (p + 1))).push (.next t))
  | aborts {t work p k stmt n} (goes : sc.Goes s t work p k)
      (continues : Continues k (s.stmts (sc.action t) p) stmt)
      (eq : s' = ({ s with work, id_seed_ := n }.setStmt (sc.action t) p stmt).setPos t none)
  | waits {t work p ops stmt n} (goes : sc.Goes s t work p (.traffic ops))
      (continues : Continues (.traffic ops : Kind E) (s.stmts (sc.action t) p) stmt)
      (eq : s' = { s with work, id_seed_ := n, requests :=
        s.requests ++ [TgStmtCb.mk (sc.action t) p n] }.setStmt (sc.action t) p (stmt.lock n))
  | delayed {t work p} (goes : sc.Goes s t work p .delay)
      (fresh : (s.stmts (sc.action t) p).step_ = 0)
      (eq : s' = { s with work, delays := s.delays ++ [(sc.action t, p)] })
  | arrives {t work p k e ev n} (goes : sc.Goes s t work p k) (about : k.About e)
      (fresh : (s.stmts (sc.action t) p).step_ = 0) (event : s.list e = some ev)
      (member : sc.action t ∈ ev.waitfor_)
      (eq : s' = ({ s with
        work, id_seed_ := n
        list := Function.update s.list e (some (TgSyncEvent.mk (ev.waitfor_.erase (sc.action t))
          (ev.cblist_ ++ [TgStmtCb.mk (sc.action t) p n])))
        timers := if ev.waitfor_.erase (sc.action t) = [] then s.timers ++ [e] else s.timers }.note
          (.arrived (sc.action t) p e)).setStmt (sc.action t) p
            ((s.stmts (sc.action t) p).lock n))
  | prints {t work p} (goes : sc.Goes s t work p .print)
      (fresh : (s.stmts (sc.action t) p).step_ = 0)
      (eq : { s with work }.onComplete ⟨sc.action t, p, 0⟩ = some s')
  | callback {e i i9 work ev cb} (top : s.work = .expired e i i9 :: work)
      (event : s.list e = some ev) (inside : i < i9) (there : ev.cblist_[i]? = some cb)
      (eq : { s with work := .expired e (i + 1) i9 :: work }.onComplete cb = some s')
  | removed {e i i9 work ev} (top : s.work = .expired e i i9 :: work)
      (event : s.list e = some ev) (outside : ¬ i < i9)
      (eq : s' = { s with work, list := Function.update s.list e none })
  | answered {cb} (idle : s.work = []) (mem : cb ∈ s.requests)
      (eq : { s with requests := s.requests.erase cb }.onComplete cb = some s')
  | refused {cb} (idle : s.work = []) (mem : cb ∈ s.requests)
      (eq : sc.onError { s with requests := s.requests.erase cb } cb = some s')
  | delayOver {a p} (idle : s.work = []) (mem : (a, p) ∈ s.delays)
      (eq : { s with delays := s.delays.erase (a, p) }.onExpired a p = some s')
  | timer {e ev} (idle : s.work = []) (mem : e ∈ s.timers) (event : s.list e = some ev)
      (eq : s' = { s with
        timers := s.timers.erase e, work := [.expired e 0 ev.cblist_.length] })

end Scenario

namespace State

theorem setStmt_of_eq [DecidableEq A] {s : State A T E} {a : A} {p : ℕ} {stmt : TgStatement}
    (same : stmt = s.stmts a p) : s.setStmt a p stmt = s := by
  simp [setStmt, same]

/-- What comes of a thread at its event. -/
theorem join_eq_some [DecidableEq A] [DecidableEq E] {s s' : State A T E} {cb : TgStmtCb A} {e : E} {last : Bool}
    (joins : s.join cb e = some (s', last)) :
    ∃ ev, s.list e = some ev ∧ cb.action ∈ ev.waitfor_ ∧
      s' = { s with list := Function.update s.list e (some ⟨ev.waitfor_.erase cb.action,
        ev.cblist_ ++ [cb]⟩) }.note (.arrived cb.action cb.index e) ∧
      (last = true ↔ ev.waitfor_.erase cb.action = []) := by
  unfold join at joins
  split at joins
  · cases joins
  · rename_i ev found
    split at joins
    · rename_i member
      cases joins
      exact ⟨ev, found, member, rfl, List.isEmpty_iff⟩
    · cases joins

end State

namespace Scenario

section

variable [DecidableEq A] {s : State A T E}

theorem doStepEvent_fresh {a : A} {p : ℕ} (fresh : (s.stmts a p).step_ = 0)
    (operation : State A T E → TgStmtCb A → Option (Option (State A T E))) :
    doStepEvent s a p operation =
      (operation { s with id_seed_ := s.id_seed_ + 1 } ⟨a, p, s.id_seed_ + 1⟩).map fun
        | none => ({ s with id_seed_ := s.id_seed_ + 1 }, .aborts)
        | some s' => (s'.setStmt a p ((s'.stmts a p).lock (s.id_seed_ + 1)), .waiting) :=
  if_pos fresh

theorem doStepEvent_stepped {a : A} {p : ℕ} (stepped : (s.stmts a p).step_ ≠ 0)
    (operation : State A T E → TgStmtCb A → Option (Option (State A T E))) :
    doStepEvent s a p operation = some ({ s with id_seed_ := s.id_seed_ + 1 }, .done) :=
  if_neg stepped

end

variable [DecidableEq A] [DecidableEq T] [DecidableEq E] {sc : Scenario A T E}
  {s s' : State A T E}

/-- What an event does with a thread, for `sync` and for `wait`. -/
theorem Move.of_event {t : T} {work : List (Work T E)} {p : ℕ} {k : Kind E} {e : E}
    (goes : sc.Goes s t work p k) (about : k.About e) {rest : Rest}
    {operation : State A T E → TgStmtCb A → Option (Option (State A T E))}
    (joins : ∀ s cb r, operation s cb = some r →
      (r = none ∨ ∃ s' last, s.join cb e = some (s', last) ∧
        r = some (if last then s'.startTimer e else s')))
    (does : doStepEvent { s with work } (sc.action t) p operation = some (s', rest)) :
    sc.Move s (s'.behind t p rest) := by
  by_cases fresh : (s.stmts (sc.action t) p).step_ = 0
  · rw [doStepEvent_fresh (s := { s with work }) fresh] at does
    obtain ⟨r, operated, result⟩ := Option.map_eq_some_iff.mp does
    rcases joins _ _ _ operated with rfl | ⟨s₁, last, joined, rfl⟩
    · cases result
      refine .aborts goes (n := s.id_seed_ + 1) (.refl k (s.stmts (sc.action t) p)) ?_
      rw [State.setStmt_of_eq rfl]
      rfl
    · cases result
      obtain ⟨ev, event, member, rfl, isLast⟩ := State.join_eq_some joined
      refine .arrives goes about fresh event member (n := s.id_seed_ + 1) ?_
      by_cases end_ : ev.waitfor_.erase (sc.action t) = []
      · rw [if_pos end_, if_pos (isLast.mpr end_)]
        rfl
      · rw [if_neg end_, if_neg fun h => end_ (isLast.mp h)]
        rfl
  · rw [doStepEvent_stepped (s := { s with work }) fresh] at does
    cases does
    refine .forth goes (n := s.id_seed_ + 1) (.refl k (s.stmts (sc.action t) p))
      (.inr fresh) ?_
    rw [State.setStmt_of_eq rfl]
    rfl

theorem Move.of_doStep {c : Choice} {t : T} {work : List (Work T E)} {p : ℕ} {k : Kind E}
    (goes : sc.Goes s t work p k) {rest : Rest}
    (does : doStep c { s with work } (sc.action t) p k = some (s', rest)) :
    sc.Move s (s'.behind t p rest) := by
  cases k with
  | traffic ops =>
      simp only [doStep, State.getReqId] at does
      have continues := operations_continues (E := E) c.op (s.stmts (sc.action t) p) ops
        (ops - (s.stmts (sc.action t) p).step_)
      cases result : (operations c.op (s.stmts (sc.action t) p).step_
          (ops - (s.stmts (sc.action t) p).step_)).2 with
      | waiting =>
          rw [result] at does
          cases does
          exact .waits goes continues rfl
      | done =>
          rw [result] at does
          cases does
          exact .forth goes continues (.inl ⟨ops, rfl⟩) rfl
      | aborts =>
          rw [result] at does
          cases does
          exact .aborts goes continues rfl
  | sync e =>
      simp only [doStep] at does
      refine Move.of_event goes (.inl rfl) (fun s cb r operated => ?_) does
      cases operated
      cases joined : s.join cb e with
      | none => exact .inl (by simp [State.syncEvent, joined])
      | some next =>
          exact .inr ⟨next.1, next.2, rfl, by simp [State.syncEvent, joined]⟩
  | wait e =>
      simp only [doStep] at does
      refine Move.of_event goes (.inr rfl) (fun s cb r operated => ?_) does
      unfold State.waitEvent at operated
      split at operated
      · rename_i failed
        cases operated
        exact .inl rfl
      · rename_i s₁ last joined
        refine .inr ⟨s₁, last, joined, ?_⟩
        cases last with
        | false => simpa using operated.symm
        | true =>
            cases line : c.line with
            | false => simp [line] at operated
            | true => simpa [line] using operated.symm
  | delay =>
      simp only [doStep] at does
      split at does
      · rename_i fresh
        cases does
        exact .delayed goes fresh rfl
      · rename_i stepped
        cases does
        refine .forth goes (n := s.id_seed_) (.refl _ (s.stmts (sc.action t) p))
          (.inr stepped) ?_
        rw [State.setStmt_of_eq rfl]
        rfl
  | print =>
      simp only [doStep] at does
      split at does
      · rename_i fresh
        obtain ⟨s₁, completed, result⟩ := Option.map_eq_some_iff.mp does
        cases result
        exact .prints goes fresh completed
      · rename_i stepped
        cases does
        refine .forth goes (n := s.id_seed_) (.refl _ (s.stmts (sc.action t) p))
          (.inr stepped) ?_
        rw [State.setStmt_of_eq rfl]
        rfl

/-- Every step is one of the moves. -/
theorem Step.move (step : sc.Step s s') : sc.Move s s' := by
  cases step with
  | internal c does =>
      unfold Scenario.internal at does
      split at does
      · cases does
      · rename_i t work top
        cases does
        exact .start top rfl
      · rename_i t work top
        unfold Scenario.next at does
        split at does
        · cases does
        · rename_i p pos
          split at does
          · rename_i behind
            cases does
            exact .ended top pos behind rfl
          · rename_i k there
            obtain ⟨r, stepped, rfl⟩ := Option.map_eq_some_iff.mp does
            exact .of_doStep ⟨top, pos, there⟩ stepped
      · rename_i e i i9 work top
        unfold State.expired at does
        split at does
        · cases does
        · rename_i ev event
          split at does
          · rename_i inside
            split at does
            · cases does
            · rename_i cb there
              exact .callback top event inside there does
          · rename_i outside
            cases does
            exact .removed top event outside rfl
  | external call idle does =>
      cases call with
      | complete cb =>
          simp only [Scenario.external] at does
          split at does
          · rename_i mem
            exact .answered idle mem does
          · cases does
      | error cb =>
          simp only [Scenario.external] at does
          split at does
          · rename_i mem
            exact .refused idle mem does
          · cases does
      | delayExpired a p =>
          simp only [Scenario.external] at does
          split at does
          · rename_i mem
            exact .delayOver idle mem does
          · cases does
      | timerExpired e =>
          simp only [Scenario.external] at does
          split at does
          · rename_i mem
            obtain ⟨ev, event, result⟩ := Option.map_eq_some_iff.mp does
            exact .timer idle mem event result.symm
          · cases does

end Scenario

end Tahi.Tg
