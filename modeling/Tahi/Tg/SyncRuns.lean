import Tahi.Tg.SyncOnce

/-! # Runs of a scenario

What holds in all states that can be reached, and that the callbacks of an event are gone
through to the end.
-/

namespace Tahi.Tg

variable {A T E : Type}

namespace Scenario

/-- Threads that have been started are known to their actions, and an event is only gone when
    all members have come to it. -/
structure Started (sc : Scenario A T E) (s : State A T E) : Prop where
  named : Named sc s
  thread : ∀ {t p}, s.stmtPos_ t = some p → ∃ t', s.thread_ (sc.action t) = some t'
  arrived : ∀ {m p e}, .arrived m p e ∈ s.notes → ∃ t', s.thread_ m = some t'
  gone : ∀ {e}, s.list e = none → sc.AllArrived s e

variable {sc : Scenario A T E} {s s' : State A T E}

/-- A step that starts no thread and reaches and removes no event. -/
theorem Started.congr (started : sc.Started s) (thread : s'.thread_ = s.thread_)
    (pos : ∀ t p, s'.stmtPos_ t = some p → ∃ p', s.stmtPos_ t = some p')
    (list : s'.list = s.list)
    (notes : ∀ m p e, .arrived m p e ∈ s'.notes ↔ .arrived m p e ∈ s.notes) : sc.Started s' where
  named b t' known := started.named b t' (thread ▸ known)
  thread := by
    intro t p here
    obtain ⟨p', before⟩ := pos t p here
    rw [thread]
    exact started.thread before
  arrived := by
    intro m p e note
    rw [thread]
    exact started.arrived ((notes m p e).mp note)
  gone := by
    intro e none_ ms declared m mem
    rw [list] at none_
    obtain ⟨p, note⟩ := started.gone none_ ms declared m mem
    exact ⟨p, (notes m p e).mpr note⟩

theorem started_initial : sc.Started sc.initial where
  named b t' known := by cases known
  thread pos := by cases pos
  arrived note := by cases note
  gone := by
    intro e none_ ms declared
    rw [Option.map_eq_none_iff.mp none_] at declared
    cases declared

theorem pos_of_setPos [DecidableEq T] {t t' : T} {p : ℕ} (pos : (s.setPos t none).stmtPos_ t' = some p) :
    s.stmtPos_ t' = some p := by
  by_cases same : t' = t
  · subst same
    simp only [State.setPos, Function.update_self] at pos
    cases pos
  · simpa only [State.setPos, Function.update_of_ne same] using pos

section

variable [DecidableEq A]

theorem Started.onComplete (started : sc.Started s) {cb : TgStmtCb A}
    (does : s.onComplete cb = some s') : sc.Started s' := by
  rcases State.onComplete_cases does with ⟨t, -, rfl⟩ | rfl
  · refine started.congr rfl (fun t p pos => ⟨p, pos⟩) rfl fun m p e => ?_
    simp [State.note, State.push, State.setStmt]
  · exact started.congr rfl (fun t p pos => ⟨p, pos⟩) rfl fun m p e => Iff.rfl

variable [DecidableEq T]

theorem Started.onError (started : sc.Started s) {cb : TgStmtCb A}
    (does : sc.onError s cb = some s') : sc.Started s' := by
  obtain ⟨t, -, does⟩ := Option.bind_eq_some_iff.mp does
  split at does
  · cases does
    exact started.congr rfl (fun t p pos => ⟨p, pos⟩) rfl fun m p e => Iff.rfl
  · split at does
    · cases does
      exact started.congr rfl (fun t p pos => ⟨p, pos_of_setPos pos⟩) rfl fun m p e => Iff.rfl
    · cases does

theorem Started.start (started : sc.Started s) (t : T) : sc.Started (sc.start s t) where
  named := by
    intro b t' known
    by_cases same : b = sc.action t
    · subst same
      simp only [Scenario.start, Function.update_self] at known
      cases known
      rfl
    · simp only [Scenario.start, Function.update_of_ne same] at known
      exact started.named b t' known
  thread := by
    intro t' p pos
    by_cases same : sc.action t' = sc.action t
    · exact ⟨t, by simp only [Scenario.start, same, Function.update_self]⟩
    · have ne : t' ≠ t := fun h => same (h ▸ rfl)
      simp only [Scenario.start, Function.update_of_ne ne, Function.update_of_ne same] at pos ⊢
      exact started.thread pos
  arrived := by
    intro m p e note
    by_cases same : m = sc.action t
    · exact ⟨t, by simp only [Scenario.start, same, Function.update_self]⟩
    · simp only [Scenario.start, Function.update_of_ne same]
      exact started.arrived note
  gone := started.gone

variable [DecidableEq E]

/-- Every step keeps it. -/
theorem Started.move (started : sc.Started s) (sound : sc.Sound s) (move : sc.Move s s') :
    sc.Started s' := by
  have elsewhere {work : List (Work T E)} : sc.Started { s with work } :=
    started.congr rfl (fun t p pos => ⟨p, pos⟩) rfl fun m p e => Iff.rfl
  cases move with
  | @start t work top eq =>
      subst eq
      exact Started.start (s := { s with work }) elsewhere t
  | ended top pos behind eq =>
      subst eq
      exact elsewhere
  | @forth t work p k stmt n goes continues passed eq =>
      subst eq
      refine started.congr rfl (fun t' p' pos => ?_) rfl fun m p e => Iff.rfl
      by_cases same : t' = t
      · subst same
        exact ⟨p, goes.pos⟩
      · simp only [State.push, State.setPos, Function.update_of_ne same] at pos
        exact ⟨p', pos⟩
  | aborts goes continues eq =>
      subst eq
      exact started.congr rfl (fun t' p' pos => ⟨p', pos_of_setPos pos⟩) rfl fun m p e => Iff.rfl
  | waits goes continues eq =>
      subst eq
      exact started.congr rfl (fun t p pos => ⟨p, pos⟩) rfl fun m p e => Iff.rfl
  | delayed goes fresh eq =>
      subst eq
      exact started.congr rfl (fun t p pos => ⟨p, pos⟩) rfl fun m p e => Iff.rfl
  | @arrives t work p k e ev n goes about fresh event member eq =>
      subst eq
      refine ⟨started.named, started.thread, ?_, ?_⟩
      · intro m q e' note
        rcases List.mem_cons.mp note with new | old
        · cases new
          exact started.thread goes.pos
        · exact started.arrived old
      · intro e' none_
        have ne : e' ≠ e := by
          intro same
          subst same
          simp only [State.setStmt, State.note, Function.update_self] at none_
          cases none_
        simp only [State.setStmt, State.note, Function.update_of_ne ne] at none_
        exact (started.gone none_).mono (List.subset_cons_self _ _)
  | prints goes fresh eq => exact elsewhere.onComplete eq
  | callback top event inside there eq => exact elsewhere.onComplete eq
  | @removed e i i9 work ev top event outside eq =>
      subst eq
      refine ⟨started.named, started.thread, started.arrived, ?_⟩
      intro e' none_
      by_cases same : e' = e
      · subst same
        obtain ⟨-, ev', event', last, -⟩ := sound.walk top
        exact sound.allArrived event' last
      · simp only [Function.update_of_ne same] at none_
        exact started.gone none_
  | @answered cb idle mem eq =>
      have started' : sc.Started { s with requests := s.requests.erase cb } :=
        started.congr rfl (fun t p pos => ⟨p, pos⟩) rfl fun m p e => Iff.rfl
      exact started'.onComplete eq
  | @refused cb idle mem eq =>
      have started' : sc.Started { s with requests := s.requests.erase cb } :=
        started.congr rfl (fun t p pos => ⟨p, pos⟩) rfl fun m p e => Iff.rfl
      exact started'.onError eq
  | delayOver idle mem eq =>
      obtain ⟨t, -, rfl⟩ := State.onExpired_eq eq
      exact started.congr rfl (fun t p pos => ⟨p, pos⟩) rfl fun m p e => Iff.rfl
  | timer idle mem event eq =>
      subst eq
      exact started.congr rfl (fun t p pos => ⟨p, pos⟩) rfl fun m p e => Iff.rfl

end

/-! ## All reachable states -/

section

variable [DecidableEq A] [DecidableEq E]

theorem doStep_total {c : Choice} (line : c.line = true) {a : A} {p : ℕ} {t : T}
    (thread : s.thread_ a = some t) (k : Kind E) : ∃ r, doStep c s a p k = some r := by
  cases k with
  | traffic ops =>
      simp only [doStep, State.getReqId]
      cases (operations c.op (s.stmts a p).step_ (ops - (s.stmts a p).step_)).2 with
      | waiting => exact ⟨_, rfl⟩
      | done => exact ⟨_, rfl⟩
      | aborts => exact ⟨_, rfl⟩
  | sync e =>
      by_cases fresh : (s.stmts a p).step_ = 0
      · rw [doStep, doStepEvent_fresh fresh]
        exact ⟨_, rfl⟩
      · rw [doStep, doStepEvent_stepped fresh]
        exact ⟨_, rfl⟩
  | wait e =>
      by_cases fresh : (s.stmts a p).step_ = 0
      · rw [doStep, doStepEvent_fresh fresh]
        unfold State.waitEvent
        rw [line]
        split
        · exact ⟨_, rfl⟩
        · split
          · exact ⟨_, rfl⟩
          · exact ⟨_, rfl⟩
      · rw [doStep, doStepEvent_stepped fresh]
        exact ⟨_, rfl⟩
  | delay =>
      simp only [doStep]
      split
      · exact ⟨_, rfl⟩
      · exact ⟨_, rfl⟩
  | print =>
      simp only [doStep, State.onComplete, thread]
      split
      · split
        · exact ⟨_, rfl⟩
        · exact ⟨_, rfl⟩
      · exact ⟨_, rfl⟩

variable [DecidableEq T]

theorem orderly_initial {a : A} {t : T} : Orderly sc a t sc.initial where
  shows_ := by
    refine ⟨.unstarted, ?_, rfl, rfl, fun e => ?_, fun q => rfl⟩
    · have once : sc.threads.filter (fun t' => t' = t) = [t] := by
        rw [List.filter_eq, List.count_eq_one_of_mem sc.nodup (sc.mem_threads t)]
        rfl
      have own : (fun w : Work T E => decide (w.thread? = some t)) ∘ Work.start =
          fun t' => decide (t' = t) := by
        funext t'
        simp [Work.thread?]
      simp only [State.view, Scenario.initial]
      rw [List.filter_map, own, once]
      rfl
    · have none_ : sc.initial.pending e = [] := by
        unfold State.pending
        cases event : sc.initial.list e with
        | none => rfl
        | some ev =>
            obtain ⟨ms, -, rfl⟩ := Option.map_eq_some_iff.mp event
            exact List.drop_nil
      simp only [State.view, none_]
      rfl
  records := by
    refine ⟨fun there about => ⟨rfl, Nat.zero_le _⟩, fun note => ?_⟩
    cases note

theorem Reachable.sound (reachable : sc.Reachable s) : sc.Sound s := by
  induction reachable with
  | refl => exact sound_initial
  | tail _ step sound => exact sound.move step.move

theorem Reachable.passing (reachable : sc.Reachable s) : sc.Passing s := by
  induction reachable with
  | refl => exact passing_initial
  | tail before step passing => exact passing.move (Reachable.sound before) step.move

theorem Reachable.started (reachable : sc.Reachable s) : sc.Started s := by
  induction reachable with
  | refl => exact started_initial
  | tail before step started => exact started.move (Reachable.sound before) step.move

theorem Reachable.orderly {a : A} {t : T} (alone : Alone sc a t) (reachable : sc.Reachable s) :
    Orderly sc a t s := by
  induction reachable with
  | refl => exact orderly_initial
  | tail before step orderly =>
      exact orderly.move alone (Reachable.started before).named (Reachable.sound before) step.move

/-! ## Threads go on until they have to wait -/

/-- A number of steps without the dispatcher. -/
def internals (sc : Scenario A T E) (c : ℕ → Choice) : ℕ → State A T E → Option (State A T E)
  | 0, s => some s
  | n + 1, s => (sc.internal (c 0) s).bind (sc.internals (fun k => c (k + 1)) n)

theorem internals_add {c : ℕ → Choice} {n m : ℕ} {r : State A T E}
    (first : sc.internals c n s = some s')
    (rest : sc.internals (fun k => c (n + k)) m s' = some r) :
    sc.internals c (n + m) s = some r := by
  induction n generalizing c s with
  | zero =>
      cases first
      simpa using rest
  | succ n ih =>
      obtain ⟨s₁, step, first⟩ := Option.bind_eq_some_iff.mp first
      have shift : (fun k => c (n + 1 + k)) = fun k => c (n + k + 1) := by
        funext k
        rw [Nat.add_right_comm]
      rw [shift] at rest
      rw [Nat.add_right_comm, internals, step, Option.bind_some]
      exact ih first rest

theorem Reachable.internals {c : ℕ → Choice} {n : ℕ} (reachable : sc.Reachable s)
    (runs : sc.internals c n s = some s') : sc.Reachable s' := by
  induction n generalizing c s with
  | zero =>
      cases runs
      exact reachable
  | succ n ih =>
      obtain ⟨s₁, step, runs⟩ := Option.bind_eq_some_iff.mp runs
      exact ih (reachable.tail (.internal (c 0) step)) runs


/-- What is left of a thread: a step for each statement and one more for each that it may have
    to be called back for. -/
def left (sc : Scenario A T E) (s : State A T E) (t : T) : ℕ :=
  match s.stmtPos_ t with
  | none => 0
  | some p => 2 * ((sc.stmtList (sc.action t)).length - p) +
      if (s.stmts (sc.action t) p).step_ = 0 then 1 else 0

/-- A thread that goes on gives back control or has less left. -/
theorem Move.left {t : T} {work : List (Work T E)} (move : sc.Move s s')
    (top : s.work = .next t :: work) (thread : s.thread_ (sc.action t) = some t) :
    s'.work = work ∨ s'.work = .next t :: work ∧ sc.left s' t < sc.left s t := by
  cases move with
  | start top' eq => rw [top] at top'; cases top'
  | ended top' pos behind eq =>
      rw [top] at top'
      cases top'
      exact .inl (eq ▸ rfl)
  | @forth t' work' p k stmt n goes continues passed eq =>
      obtain ⟨top', pos, there⟩ := goes
      rw [top] at top'
      cases top'
      subst eq
      refine .inr ⟨rfl, ?_⟩
      have inside : p < (sc.stmtList (sc.action t)).length :=
        (List.getElem?_eq_some_iff.mp there).1
      have most (m : ℕ) : (if m = 0 then 1 else 0) ≤ 1 := by
        split
        · exact Nat.le_refl 1
        · exact Nat.zero_le 1
      simp only [Scenario.left, State.push, State.setPos, Function.update_self, pos]
      refine Nat.lt_of_le_of_lt (Nat.add_le_add_left (most _) _) (Nat.lt_of_lt_of_le ?_
        (Nat.le_add_right _ _))
      omega
  | aborts goes continues eq =>
      have top' := goes.work
      rw [top] at top'
      cases top'
      exact .inl (eq ▸ rfl)
  | waits goes continues eq =>
      have top' := goes.work
      rw [top] at top'
      cases top'
      exact .inl (eq ▸ rfl)
  | delayed goes fresh eq =>
      have top' := goes.work
      rw [top] at top'
      cases top'
      exact .inl (eq ▸ rfl)
  | arrives goes about fresh event member eq =>
      have top' := goes.work
      rw [top] at top'
      cases top'
      exact .inl (eq ▸ rfl)
  | @prints t' work' p goes fresh eq =>
      have top' := goes.work
      rw [top] at top'
      cases top'
      rcases State.onComplete_cases eq with ⟨t'', thread', rfl⟩ | rfl
      · have same : some t'' = some t := thread'.symm.trans thread
        cases same
        refine .inr ⟨rfl, ?_⟩
        simp [Scenario.left, State.push, State.note, State.setStmt, goes.pos, fresh]
      · exact .inl rfl
  | callback top' event inside there eq => rw [top] at top'; cases top'
  | removed top' event outside eq => rw [top] at top'; cases top'
  | answered idle mem eq => rw [top] at idle; cases idle
  | refused idle mem eq => rw [top] at idle; cases idle
  | delayOver idle mem eq => rw [top] at idle; cases idle
  | timer idle mem event eq => rw [top] at idle; cases idle

/-- A thread that is alone with its action gives back control, as long as there are lines to
    read. -/
theorem Reachable.next_ends {a : A} {t : T} {work : List (Work T E)} (alone : Alone sc a t)
    {c : ℕ → Choice} (lines : ∀ k, (c k).line = true) (reachable : sc.Reachable s)
    (top : s.work = .next t :: work) :
    ∃ n s', sc.internals c n s = some s' ∧ s'.work = work := by
  induction h : sc.left s t using Nat.strong_induction_on generalizing s c with
  | _ m ih =>
      subst h
      obtain ⟨⟨phase, shows_⟩, -⟩ := reachable.orderly alone
      have first : (s.view a t).work = .next t :: work.filter fun w => w.thread? = some t := by
        rw [State.view, top]
        exact filter_own work rfl
      obtain rfl := shows_.running_of_mem (by rw [first]; exact List.mem_cons_self)
      obtain ⟨p, at_, -⟩ := shows_.placed
      obtain rfl := alone.action
      have thread : s.thread_ (sc.action t) = some t := at_.thread
      have pos : s.stmtPos_ t = some p := at_.pos
      have step : ∃ s', sc.internal (c 0) s = some s' := by
        simp only [Scenario.internal, top, Scenario.next, pos]
        cases (sc.stmtList (sc.action t))[p]? with
        | none => exact ⟨_, rfl⟩
        | some k =>
            obtain ⟨r, does⟩ := doStep_total (s := { s with work }) (p := p) (lines 0) thread k
            simp only [does, Option.map_some]
            exact ⟨_, rfl⟩
      obtain ⟨s₁, step⟩ := step
      have move : sc.Move s s₁ := Step.move (.internal (c 0) step)
      rcases move.left top thread with ended | ⟨again, less⟩
      · exact ⟨1, s₁, by rw [Scenario.internals, step]; rfl, ended⟩
      · obtain ⟨n, s', runs, ended⟩ := ih _ less (c := fun k => c (1 + k)) (fun k => lines (1 + k))
          (reachable.tail (.internal (c 0) step)) again rfl
        refine ⟨1 + n, s', internals_add ?_ runs, ended⟩
        rw [Scenario.internals, step]
        rfl

/-- The callbacks of an event whose members are different threads are gone through to the end. -/
theorem Reachable.walk_ends {e : E} {ms : List A} {i i9 : ℕ} (declared : sc.members e = some ms)
    (different : ∀ t t', sc.action t ∈ ms → sc.action t' = sc.action t → t' = t) {c : ℕ → Choice}
    (lines : ∀ k, (c k).line = true) (reachable : sc.Reachable s)
    (top : s.work = [.expired e i i9]) :
    ∃ n s', sc.internals c n s = some s' ∧ s'.work = [] ∧ s'.list e = none := by
  induction left : i9 - i generalizing s i c with
  | zero =>
      obtain ⟨-, ev, event, -, rfl⟩ := reachable.sound.walk top
      refine ⟨1, { s with work := [], list := Function.update s.list e none }, ?_, rfl,
        Function.update_self _ _ _⟩
      have outside : ¬ i < ev.cblist_.length := by omega
      simp only [Scenario.internals, Scenario.internal, top, State.expired, event, if_neg outside]
      rfl
  | succ left ih =>
      obtain ⟨-, ev, event, -, rfl⟩ := reachable.sound.walk top
      have inside : i < ev.cblist_.length := by omega
      have there : ev.cblist_[i]? = some ev.cblist_[i] := List.getElem?_eq_getElem inside
      generalize ev.cblist_[i] = cb at there
      have mem : cb ∈ ev.cblist_ := List.mem_of_getElem? there
      obtain ⟨t, thread⟩ := reachable.started.arrived (reachable.sound.arrived event mem)
      have action : sc.action t = cb.action := reachable.started.named _ _ thread
      have member : cb.action ∈ ms := by
        obtain ⟨ms', declared', perm⟩ := reachable.sound.members event
        rw [declared] at declared'
        cases declared'
        exact perm.mem_iff.mp (List.mem_append_right _ (List.mem_map_of_mem mem))
      have alone : Alone sc cb.action t :=
        ⟨action, fun t' same => different t t' (action ▸ member) (same.trans action.symm)⟩
      have step : ∃ s₁, sc.internal (c 0) s = some s₁ ∧
          (s₁.work = [.expired e (i + 1) ev.cblist_.length] ∨
            s₁.work = .next t :: [.expired e (i + 1) ev.cblist_.length]) := by
        have does : sc.internal (c 0) s =
            { s with work := [.expired e (i + 1) ev.cblist_.length] }.onComplete cb := by
          simp only [Scenario.internal, top, State.expired, event, if_pos inside, there]
          rfl
        rw [does, State.onComplete]
        split
        · exact ⟨_, by rw [thread]; rfl, .inr rfl⟩
        · exact ⟨_, rfl, .inl rfl⟩
      obtain ⟨s₁, step, work⟩ := step
      have first : sc.internals c 1 s = some s₁ := by
        rw [Scenario.internals, step]
        rfl
      -- the thread runs up to where it has to wait, and the walk goes on
      have walked : ∃ n s₂, sc.internals c n s = some s₂ ∧
          s₂.work = [.expired e (i + 1) ev.cblist_.length] := by
        rcases work with walk | goes
        · exact ⟨1, s₁, first, walk⟩
        · obtain ⟨n, s₂, runs, walk⟩ := (reachable.internals first).next_ends alone
            (c := fun k => c (1 + k)) (fun k => lines (1 + k)) goes
          exact ⟨1 + n, s₂, internals_add first runs, walk⟩
      obtain ⟨n, s₂, runs, walk⟩ := walked
      obtain ⟨m, s', rest, quiet, gone⟩ := ih (c := fun k => c (n + k)) (fun k => lines (n + k))
        (reachable.internals runs) walk (by omega)
      exact ⟨n + m, s', internals_add runs rest, quiet, gone⟩

/-! ## Barriers -/

/-- A thread that its event does not wait for: it aborts, and the events stay as they are. -/
theorem internal_of_not_outstanding {t : T} {work : List (Work T E)} {p : ℕ} {k : Kind E} {e : E}
    (goes : sc.Goes s t work p k) (about : k.About e)
    (fresh : (s.stmts (sc.action t) p).step_ = 0)
    (out : ∀ ev, s.list e = some ev → sc.action t ∉ ev.waitfor_) (c : Choice) :
    ∃ s', sc.internal c s = some s' ∧ s'.stmtPos_ t = none ∧ s'.list = s.list ∧
      s'.timers = s.timers := by
  have refuses (id : ℕ) : ({ s with work, id_seed_ := id } : State A T E).join
      ⟨sc.action t, p, id⟩ e = none := by
    unfold State.join
    split
    · rfl
    · rename_i ev event
      exact if_neg (out ev event)
  have does : doStep c { s with work } (sc.action t) p k =
      some ({ s with work, id_seed_ := s.id_seed_ + 1 }, .aborts) := by
    rcases about with rfl | rfl
    · simp only [doStep, doStepEvent_fresh (s := { s with work }) fresh, State.syncEvent, refuses]
      rfl
    · simp only [doStep, doStepEvent_fresh (s := { s with work }) fresh, State.waitEvent, refuses]
      rfl
  have there : (sc.stmtList (sc.action t))[p]? = some k := goes.stmt
  refine ⟨{ s with work, id_seed_ := s.id_seed_ + 1 }.setPos t none, ?_,
    Function.update_self _ _ _, rfl, rfl⟩
  simp only [Scenario.internal, goes.work, Scenario.next, goes.pos, there, does]
  rfl

/-- An event is a barrier for its members. -/
structure Barrier (sc : Scenario A T E) (e : E) (ms : List A) (s : State A T E) : Prop where
  /-- No thread is behind its statement before all members have come. -/
  passed : ∀ t p i k, s.stmtPos_ t = some p → i < p → sc.stmtAt (sc.action t) i = some k →
    k.About e → sc.AllArrived s e
  once : ∀ m ∈ ms, ∀ p, .arrived m p e ∈ s.notes → s.notes.count (.completed m p) ≤ 1
  /-- The event is gone only when all have come and their statements have been completed. -/
  removed : s.list e = none →
    ∀ m ∈ ms, ∃ p, .arrived m p e ∈ s.notes ∧ s.notes.count (.completed m p) = 1
  /-- When all have come, the timer is running, and when it expires the event is removed before
      control is back at the dispatcher. -/
  completes : sc.AllArrived s e → s.work = [] → s.list e ≠ none →
    ∃ s₁, sc.external (.timerExpired e) s = some s₁ ∧
      ∀ c : ℕ → Choice, (∀ n, (c n).line = true) →
        ∃ n s₂, sc.internals c n s₁ = some s₂ ∧ s₂.work = [] ∧ s₂.list e = none
  refuses : ∀ t work p k, sc.Goes s t work p k → k.About e →
    (s.stmts (sc.action t) p).step_ = 0 →
    (∀ ev, s.list e = some ev → sc.action t ∉ ev.waitfor_) →
    ∀ c, ∃ s', sc.internal c s = some s' ∧ s'.stmtPos_ t = none ∧ s'.list = s.list ∧
      s'.timers = s.timers

end

/-- Two threads that come together once. -/
def meeting : Scenario Bool Bool Unit where
  stmtList _ := [.print, .sync ()]
  action t := t
  threads := [false, true]
  nodup := by decide
  mem_threads := by decide
  members _ := some [true, false]
  members_ne_nil _ same := by cases same
  members_nodup _ ms same := by
    cases same
    decide

end Scenario

end Tahi.Tg
