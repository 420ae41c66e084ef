import Tahi.Tg.SyncBarrier

/-! # Statements are completed once

A thread that is the only one of its action is at one place at a time: it is about to go on, or
exactly one request, delay or callback stands for it. What the others do does not change that.
-/

namespace Tahi.Tg

variable {A T E : Type}

def Work.thread? : Work T E → Option T
  | .start t => some t
  | .next t => some t
  | .expired _ _ _ => none

def Note.action : Note A E → A
  | .arrived a _ _ => a
  | .completed a _ => a

namespace State

section

variable [DecidableEq E]

/-- The callbacks of an event that have not been gone through. -/
@[grind =]
def pending (s : State A T E) (e : E) : List (TgStmtCb A) :=
  match s.list e with
  | none => []
  | some ev => ev.cblist_.drop ((s.walks.lookup e).elim 0 Prod.fst)

end

end State

/-- What of a state is about a thread and its action. -/
structure View (A T E : Type) where
  work : List (Work T E)
  requests : List (TgStmtCb A)
  delays : List (A × ℕ)
  callbacks : E → List (TgStmtCb A)
  stmts : ℕ → TgStatement
  thread : Option T
  pos : Option ℕ
  notes : List (Note A E)

section

variable [DecidableEq A] [DecidableEq T] [DecidableEq E]

@[grind =]
def State.view (s : State A T E) (a : A) (t : T) : View A T E where
  work := s.work.filter fun w => w.thread? = some t
  requests := s.requests.filter fun cb => cb.action = a
  delays := s.delays.filter fun d => d.1 = a
  callbacks e := (s.pending e).filter fun cb => cb.action = a
  stmts := s.stmts a
  thread := s.thread_ a
  pos := s.stmtPos_ t
  notes := s.notes.filter fun n => n.action = a

end

/-- Where a thread is. -/
inductive Phase (E : Type) where
  | unstarted
  | running
  | requested (p id : ℕ)
  | delayed (p : ℕ)
  | arrived (e : E) (p id : ℕ)
  | ended

namespace Phase

@[grind =]
def work (t : T) : Phase E → List (Work T E)
  | unstarted => [.start t]
  | running => [.next t]
  | _ => []

@[grind =]
def requests (a : A) : Phase E → List (TgStmtCb A)
  | requested p id => [⟨a, p, id⟩]
  | _ => []

@[grind =]
def delays (a : A) : Phase E → List (A × ℕ)
  | delayed p => [(a, p)]
  | _ => []

@[grind =]
def callbacks [DecidableEq E] (a : A) (e : E) : Phase E → List (TgStmtCb A)
  | arrived e' p id => if e = e' then [⟨a, p, id⟩] else []
  | _ => []

end Phase

/-- The thread is at a statement, and the ones behind it are as new. -/
structure View.At (v : View A T E) (t : T) (p : ℕ) : Prop where
  thread : v.thread = some t
  pos : v.pos = some p
  later : ∀ q, p < q → v.stmts q = .new

variable (sc : Scenario A T E) (a : A) (t : T)

/-- How the statements are in a phase. -/
def Phase.Placed (v : View A T E) : Phase E → Prop
  | unstarted => ∀ q, v.stmts q = .new
  | running => ∃ p, v.At t p ∧ (v.stmts p).Idle
  | requested p id => v.At t p ∧ (∃ ops, sc.stmtAt a p = some (.traffic ops)) ∧
      ∃ stmt, TgStatement.Idle stmt ∧ v.stmts p = stmt.lock id
  | delayed p => v.At t p ∧ sc.stmtAt a p = some .delay ∧ (v.stmts p).Idle
  | arrived e p id => v.At t p ∧ (∃ k, sc.stmtAt a p = some k ∧ k.About e) ∧
      v.stmts p = TgStatement.new.lock id
  | ended => True

/-- A phase and what stands for it. -/
structure Shows [DecidableEq E] (v : View A T E) (phase : Phase E) : Prop where
  work : v.work = phase.work t
  requests : v.requests = phase.requests a
  delays : v.delays = phase.delays a
  callbacks : ∀ e, v.callbacks e = phase.callbacks a e
  placed : phase.Placed sc a t v

/-- What is remembered of the statements about events: a step for each completion, one at most,
    and a completion or a callback for each arrival. -/
structure Records [DecidableEq A] [DecidableEq E] (v : View A T E) : Prop where
  counted : ∀ {p k e}, sc.stmtAt a p = some k → k.About e →
    v.notes.count (.completed a p) = (v.stmts p).step_ ∧ (v.stmts p).step_ ≤ 1
  arrived : ∀ {p e}, .arrived a p e ∈ v.notes → (∃ k, sc.stmtAt a p = some k ∧ k.About e) ∧
    (1 ≤ (v.stmts p).step_ ∨ ∃ id, ⟨a, p, id⟩ ∈ v.callbacks e)

variable {sc a t} {v v' : View A T E}

section

variable [DecidableEq E]

theorem Shows.running_of_mem {phase : Phase E} (shows_ : Shows sc a t v phase)
    (mem : .next t ∈ v.work) : phase = .running := by
  rw [shows_.work] at mem
  cases phase <;> simp [Phase.work] at mem
  rfl

theorem Shows.unstarted_of_mem {phase : Phase E} (shows_ : Shows sc a t v phase)
    (mem : .start t ∈ v.work) : phase = .unstarted := by
  rw [shows_.work] at mem
  cases phase <;> simp [Phase.work] at mem
  rfl

theorem Shows.requested_of_mem {phase : Phase E} (shows_ : Shows sc a t v phase)
    {cb : TgStmtCb A} (mem : cb ∈ v.requests) :
    phase = .requested cb.index cb.reqid_ ∧ cb.action = a := by
  rw [shows_.requests] at mem
  cases phase <;> simp [Phase.requests] at mem
  subst mem
  exact ⟨rfl, rfl⟩

theorem Shows.delayed_of_mem {phase : Phase E} (shows_ : Shows sc a t v phase) {d : A × ℕ}
    (mem : d ∈ v.delays) : phase = .delayed d.2 := by
  rw [shows_.delays] at mem
  cases phase <;> simp [Phase.delays] at mem
  subst mem
  rfl

theorem Shows.arrived_of_mem {phase : Phase E} (shows_ : Shows sc a t v phase) {e : E}
    {cb : TgStmtCb A} (mem : cb ∈ v.callbacks e) :
    phase = .arrived e cb.index cb.reqid_ ∧ cb.action = a := by
  rw [shows_.callbacks e] at mem
  cases phase with
  | arrived e' p id =>
      simp only [Phase.callbacks] at mem
      split at mem
      · rename_i same
        subst same
        cases List.mem_singleton.mp mem
        exact ⟨rfl, rfl⟩
      · cases mem
  | _ => cases mem

end


theorem Records.congr [DecidableEq A] [DecidableEq E] (records : Records sc a v)
    (steps : ∀ p k e, sc.stmtAt a p = some k → Kind.About k e →
      (v'.stmts p).step_ = (v.stmts p).step_)
    (notes : v'.notes = v.notes) (callbacks : ∀ e, v.callbacks e ⊆ v'.callbacks e) :
    Records sc a v' where
  counted there about := by
    rw [notes, steps _ _ _ there about]
    exact records.counted there about
  arrived := by
    intro p e note
    rw [notes] at note
    obtain ⟨⟨k, there, about⟩, done⟩ := records.arrived note
    rw [steps p k e there about]
    exact ⟨⟨k, there, about⟩, done.imp_right fun found => found.imp fun _ mem => callbacks e mem⟩

/-! ## What the others do -/

section

variable [DecidableEq T] {w : Work T E} (work : List (Work T E))

theorem filter_own (own : w.thread? = some t) :
    (w :: work).filter (fun w => w.thread? = some t) =
      w :: work.filter fun w => w.thread? = some t :=
  List.filter_cons_of_pos (by simpa using own)

theorem filter_other (other : w.thread? ≠ some t) :
    (w :: work).filter (fun w => w.thread? = some t) =
      work.filter fun w => w.thread? = some t :=
  List.filter_cons_of_neg (by simpa using other)

end

section

variable [DecidableEq E] {s s' : State A T E}

theorem pending_congr (list : s'.list = s.list) (walks : s'.walks = s.walks) :
    s'.pending = s.pending := by
  funext e
  rw [State.pending, State.pending, list, walks]

theorem pending_of_ne {r : State A T E} {e e' : E} (ne : e' ≠ e) {i j n m : ℕ}
    (list : r.list e' = s.list e')
    (walks : s.walks = [] ∨ s.walks = [(e, i, n)])
    (walks' : r.walks = [] ∨ r.walks = [(e, j, m)]) : r.pending e' = s.pending e' := by
  have away : (e' == e) = false := beq_false_of_ne ne
  have none_ : s.walks.lookup e' = none := by
    rcases walks with walks | walks <;> simp [walks, List.lookup_cons, away]
  have none_' : r.walks.lookup e' = none := by
    rcases walks' with walks' | walks' <;> simp [walks', List.lookup_cons, away]
  rw [State.pending, State.pending, list, none_, none_']

theorem pending_at {e : E} {ev : TgSyncEvent A} {i n : ℕ} (event : s.list e = some ev)
    (walks : s.walks = [(e, i, n)]) : s.pending e = ev.cblist_.drop i := by
  simp [State.pending, event, walks]

theorem pending_quiet {e : E} {ev : TgSyncEvent A} (event : s.list e = some ev)
    (quiet : e ∉ s.walks.map Prod.fst) : s.pending e = ev.cblist_ := by
  have none_ : s.walks.lookup e = none := by
    rw [List.lookup_eq_none_iff]
    intro w mem
    rw [bne_iff_ne]
    intro same
    exact quiet (List.mem_map.mpr ⟨w, mem, same.symm⟩)
  simp [State.pending, event, none_]

end

theorem callbacks_congr [DecidableEq A] [DecidableEq T] [DecidableEq E] {s r : State A T E}
    (list : r.list = s.list) (walks : r.walks = s.walks) :
    (r.view a t).callbacks = (s.view a t).callbacks := by
  simp only [State.view, pending_congr list walks]

theorem setStmt_stmts_of_ne [DecidableEq A] {s : State A T E} {b : A} (ne : a ≠ b) (p : ℕ) (stmt : TgStatement) :
    (s.setStmt b p stmt).stmts a = s.stmts a := by
  simp only [State.setStmt, Function.update_of_ne ne]

section

variable [DecidableEq A] [DecidableEq T] [DecidableEq E] {s s' : State A T E}

theorem view_eq (work : s'.work.filter (fun w => w.thread? = some t) =
      s.work.filter fun w => w.thread? = some t)
    (requests : s'.requests.filter (fun cb => cb.action = a) =
      s.requests.filter fun cb => cb.action = a)
    (delays : s'.delays.filter (fun d => d.1 = a) = s.delays.filter fun d => d.1 = a)
    (pending : ∀ e, (s'.pending e).filter (fun cb => cb.action = a) =
      (s.pending e).filter fun cb => cb.action = a)
    (stmts : s'.stmts a = s.stmts a) (thread : s'.thread_ a = s.thread_ a)
    (pos : s'.stmtPos_ t = s.stmtPos_ t)
    (notes : s'.notes.filter (fun n => n.action = a) = s.notes.filter fun n => n.action = a) :
    s'.view a t = s.view a t := by
  simp only [State.view, work, requests, delays, pending, stmts, thread, pos, notes]

/-- The completion of a statement of another action. -/
theorem view_onComplete {cb : TgStmtCb A} (ne : cb.action ≠ a)
    (other : ∀ t', s.thread_ cb.action = some t' → t' ≠ t) (does : s.onComplete cb = some s') :
    s'.view a t = s.view a t := by
  rcases State.onComplete_cases does with ⟨t', thread, rfl⟩ | rfl
  · refine view_eq ?_ rfl rfl (fun e => ?_) ?_ rfl rfl ?_
    · have away : (some t' : Option T) ≠ some t := fun same => other t' thread (Option.some.inj same)
      simp [State.push, State.note, State.setStmt, Work.thread?, other t' thread]
    · rw [pending_congr rfl rfl]
      rfl
    · exact setStmt_stmts_of_ne ne.symm _ _
    · simp [State.push, State.note, State.setStmt, Note.action, ne]
  · exact view_eq rfl rfl rfl (fun e => rfl) (setStmt_stmts_of_ne ne.symm _ _) rfl rfl rfl

end

/-! ## What the thread does -/

variable (sc a t) in
/-- No other thread has the action. -/
structure Alone : Prop where
  action : sc.action t = a
  only : ∀ t', sc.action t' = a → t' = t

variable (sc) in
/-- A statement belongs to a thread of its action. -/
def Named (s : State A T E) : Prop := ∀ b t', s.thread_ b = some t' → sc.action t' = b

section

variable [DecidableEq A] [DecidableEq T] [DecidableEq E]

variable (sc a t) in
structure Orderly (s : State A T E) : Prop where
  shows_ : ∃ phase, Shows sc a t (s.view a t) phase
  records : Records sc a (s.view a t)

variable {s s' : State A T E}

theorem Orderly.congr (orderly : Orderly sc a t s) (same : s'.view a t = s.view a t) :
    Orderly sc a t s' where
  shows_ := same ▸ orderly.shows_
  records := same ▸ orderly.records

/-- The statement that nothing else stands for is completed. -/
theorem Orderly.completed {p id : ℕ} {stmt : TgStatement} (at_ : (s.view a t).At t p)
    (idle : stmt.Idle) (unlocks : (s.stmts a p).unlock id = stmt)
    (work : (s.view a t).work = []) (requests : (s.view a t).requests = [])
    (delays : (s.view a t).delays = []) (callbacks : ∀ e, (s.view a t).callbacks e = [])
    (fresh : ∀ k e, sc.stmtAt a p = some k → Kind.About k e → stmt.step_ = 0)
    (counted : ∀ {q k e}, sc.stmtAt a q = some k → Kind.About k e →
      (s.view a t).notes.count (.completed a q) = (s.stmts a q).step_ ∧ (s.stmts a q).step_ ≤ 1)
    (arrived : ∀ {q e}, .arrived a q e ∈ (s.view a t).notes →
      (∃ k, sc.stmtAt a q = some k ∧ k.About e) ∧ (1 ≤ (s.stmts a q).step_ ∨ q = p))
    (does : s.onComplete ⟨a, p, id⟩ = some s') : Orderly sc a t s' := by
  have step : stmt.step_ = (s.stmts a p).step_ := by
    rw [← unlocks]
    unfold TgStatement.unlock
    split <;> rfl
  have result : s' = ((s.setStmt a p { stmt with step_ := stmt.step_ + 1 }).note
      (.completed a p)).push (.next t) := by
    have thread : s.thread_ a = some t := at_.thread
    rw [State.onComplete, unlocks, if_pos ⟨idle.numWaits, idle.errors⟩, thread] at does
    exact (Option.some.inj does).symm
  subst result
  have others (q : ℕ) (ne : q ≠ p) :
      (s.setStmt a p { stmt with step_ := stmt.step_ + 1 }).stmts a q = s.stmts a q :=
    State.setStmt_of_ne fun same => ne same.2
  have notes : ((((s.setStmt a p { stmt with step_ := stmt.step_ + 1 }).note
      (.completed a p)).push (.next t)).view a t).notes = .completed a p :: (s.view a t).notes := by
    simp [State.view, State.push, State.note, State.setStmt, Note.action]
  refine ⟨⟨.running, ?_, requests, delays, callbacks, p, ⟨at_.thread, at_.pos, ?_⟩, ?_⟩, ?_, ?_⟩
  · have rest : s.work.filter (fun w => w.thread? = some t) = [] := work
    simp only [State.view, State.push, State.note, State.setStmt]
    rw [filter_own _ rfl, rest]
    rfl
  · intro q lt
    exact (others q (Nat.ne_of_gt lt)).trans (at_.later q lt)
  · have now : (((s.setStmt a p { stmt with step_ := stmt.step_ + 1 }).note
        (.completed a p)).push (.next t)).stmts a p = { stmt with step_ := stmt.step_ + 1 } :=
      State.setStmt_same
    simp only [State.view, now]
    exact idle.step _
  · intro q k e there about
    rw [notes]
    by_cases same : q = p
    · subst same
      have zero := fresh k e there about
      have count := (counted there about).1
      rw [← step, zero, List.count_eq_zero] at count
      rw [List.count_cons_self, List.count_eq_zero_of_not_mem count]
      simp [State.view, State.push, State.note, zero]
    · have away : (Note.completed a p : Note A E) ≠ .completed a q := by
        intro h
        cases h
        exact same rfl
      rw [List.count_cons_of_ne away]
      have := counted there about
      simpa [State.view, State.push, State.note, others q same] using this
  · intro q e note
    rw [notes] at note
    obtain ⟨kind, done⟩ := arrived ((List.mem_cons.mp note).resolve_left (by simp))
    refine ⟨kind, .inl ?_⟩
    by_cases same : q = p
    · subst same
      simp [State.view, State.push, State.note]
    · have := done.resolve_right same
      simpa [State.view, State.push, State.note, others q same] using this

end

theorem Continues.idle {k : Kind E} {stmt stmt' : TgStatement} (continues : Scenario.Continues k stmt stmt')
    (idle : stmt.Idle) : stmt'.Idle := by
  rcases continues with rfl | ⟨-, n, rfl⟩
  · exact idle
  · exact idle.step n

theorem walks_of_top {s s' : State A T E} {w : Work T E} {work : List (Work T E)} (top : s.work = w :: work)
    (other : w.walk = none) (work' : s'.work.filterMap Work.walk = work.filterMap Work.walk) :
    s'.walks = s.walks := by
  rw [State.walks, State.walks, top, List.filterMap_cons, other, work']

theorem Alone.elsewhere (alone : Alone sc a t) {t' : T} (ne : t' ≠ t) : a ≠ sc.action t' :=
  fun same => ne (alone.only t' same.symm)

section

variable [DecidableEq A] [DecidableEq T] [DecidableEq E] {s s' : State A T E}

/-- A thread that goes on has nothing else that stands for it. -/
theorem Shows.of_goes {phase : Phase E} {work : List (Work T E)} {p : ℕ} {k : Kind E}
    (shows_ : Shows sc (sc.action t) t (s.view (sc.action t) t) phase)
    (goes : sc.Goes s t work p k) :
    phase = .running ∧ work.filter (fun w => w.thread? = some t) = [] ∧
      (s.view (sc.action t) t).At t p ∧ (s.stmts (sc.action t) p).Idle := by
  have top : (s.view (sc.action t) t).work = .next t :: work.filter fun w => w.thread? = some t := by
    rw [State.view, goes.work]
    exact filter_own work rfl
  have running : phase = .running :=
    shows_.running_of_mem (by rw [top]; exact List.mem_cons_self)
  subst running
  refine ⟨rfl, (List.cons.inj (top.symm.trans shows_.work)).2, ?_⟩
  obtain ⟨p', at_, idle⟩ := shows_.placed
  have same : some p = some p' := goes.pos.symm.trans at_.pos
  cases same
  exact ⟨at_, idle⟩

/-- A step of another thread. -/
theorem view_goes {t' : T} {work : List (Work T E)} {p : ℕ} {k : Kind E} (ne : t' ≠ t)
    (goes : sc.Goes s t' work p k) (work' : s'.work = work ∨ s'.work = .next t' :: work)
    (requests : s'.requests.filter (fun cb => cb.action = a) =
      s.requests.filter fun cb => cb.action = a)
    (delays : s'.delays.filter (fun d => d.1 = a) = s.delays.filter fun d => d.1 = a)
    (pending : ∀ e, (s'.pending e).filter (fun cb => cb.action = a) =
      (s.pending e).filter fun cb => cb.action = a)
    (stmts : s'.stmts a = s.stmts a) (thread : s'.thread_ a = s.thread_ a)
    (pos : s'.stmtPos_ t = s.stmtPos_ t)
    (notes : s'.notes.filter (fun n => n.action = a) = s.notes.filter fun n => n.action = a) :
    s'.view a t = s.view a t := by
  have other : (Work.next t' : Work T E).thread? ≠ some t := by simpa [Work.thread?] using ne
  refine view_eq ?_ requests delays pending stmts thread pos notes
  rw [goes.work, filter_other _ other]
  rcases work' with same | same
  · rw [same]
  · rw [same, filter_other _ other]

/-- The thread has come to its end. -/
theorem Orderly.idle (orderly : Orderly sc a t s) (work : (s'.view a t).work = [])
    (requests : (s'.view a t).requests = []) (delays : (s'.view a t).delays = [])
    (callbacks : (s'.view a t).callbacks = (s.view a t).callbacks)
    (none_ : ∀ e, (s.view a t).callbacks e = [])
    (steps : ∀ p k e, sc.stmtAt a p = some k → Kind.About k e →
      ((s'.view a t).stmts p).step_ = ((s.view a t).stmts p).step_)
    (notes : (s'.view a t).notes = (s.view a t).notes) : Orderly sc a t s' where
  shows_ := by
    refine ⟨.ended, work, requests, delays, ?_, trivial⟩
    rw [callbacks]
    exact none_
  records := by
    refine orderly.records.congr steps notes ?_
    rw [callbacks]
    exact fun e => List.Subset.refl _

theorem Orderly.start {work : List (Work T E)} {t' : T} (alone : Alone sc a t)
    (orderly : Orderly sc a t s) (top : s.work = .start t' :: work) :
    Orderly sc a t (sc.start { s with work } t') := by
  have walks : (sc.start { s with work } t').walks = s.walks := walks_of_top top rfl rfl
  have callbacks := callbacks_congr (a := a) (t := t)
    (r := sc.start { s with work } t') (s := s) rfl walks
  by_cases same : t' = t
  · subst same
    obtain rfl := alone.action
    obtain ⟨⟨phase, shows_⟩, records⟩ := orderly
    have first : (s.view (sc.action t') t').work =
        .start t' :: work.filter fun w => w.thread? = some t' := by
      rw [State.view, top]
      exact filter_own work rfl
    obtain rfl := shows_.unstarted_of_mem (by rw [first]; exact List.mem_cons_self)
    have rest := (List.cons.inj (first.symm.trans shows_.work)).2
    have new (q : ℕ) : ((sc.start { s with work } t').view (sc.action t') t').stmts q = .new := by
      have old : s.stmts (sc.action t') q = .new := shows_.placed q
      simp only [State.view, Scenario.start, Function.update_self, old]
      rfl
    refine ⟨⟨.running, ?_, shows_.requests, shows_.delays, ?_, 0, ⟨?_, ?_, ?_⟩, ?_⟩,
      records.congr ?_ rfl ?_⟩
    · simp only [State.view, Scenario.start]
      rw [filter_own _ rfl, rest]
      rfl
    · rw [callbacks]
      exact shows_.callbacks
    · simp [State.view, Scenario.start]
    · simp [State.view, Scenario.start]
    · intro q _
      exact new q
    · rw [new]
      exact TgStatement.idle_new
    · intro q k e _ _
      rw [new, shows_.placed q]
    · rw [callbacks]
      exact fun e => List.Subset.refl _
  · have away := alone.elsewhere same
    refine orderly.congr (view_eq ?_ rfl rfl (fun e => congrFun callbacks e) ?_ ?_ ?_ rfl)
    · rw [top, filter_other _ (by simpa [Work.thread?] using same), Scenario.start,
        filter_other _ (by simpa [Work.thread?] using same)]
    · simp only [Scenario.start, Function.update_of_ne away]
    · simp only [Scenario.start, Function.update_of_ne away]
    · simp only [Scenario.start, Function.update_of_ne (Ne.symm same)]

theorem Orderly.ended {work : List (Work T E)} {t' : T} (alone : Alone sc a t)
    (orderly : Orderly sc a t s) (top : s.work = .next t' :: work) :
    Orderly sc a t { s with work } := by
  have walks : ({ s with work } : State A T E).walks = s.walks := walks_of_top top rfl rfl
  have callbacks := callbacks_congr (a := a) (t := t) (r := { s with work }) (s := s) rfl walks
  by_cases same : t' = t
  · subst same
    obtain ⟨phase, shows_⟩ := orderly.shows_
    have first : (s.view a t').work = .next t' :: work.filter fun w => w.thread? = some t' := by
      rw [State.view, top]
      exact filter_own work rfl
    obtain rfl := shows_.running_of_mem (by rw [first]; exact List.mem_cons_self)
    have rest := (List.cons.inj (first.symm.trans shows_.work)).2
    exact orderly.idle rest shows_.requests shows_.delays callbacks shows_.callbacks
      (fun _ _ _ _ _ => rfl) rfl
  · refine orderly.congr (view_eq ?_ rfl rfl (fun e => congrFun callbacks e) rfl rfl rfl rfl)
    rw [top, filter_other _ (by simpa [Work.thread?] using same)]

section

variable {t' : T} {work : List (Work T E)} {p : ℕ} {k : Kind E} {stmt : TgStatement} {n : ℕ}

/-- The steps of statements about events stay when another statement goes on. -/
theorem steps_of_continues (goes : sc.Goes s t work p k)
    (continues : Scenario.Continues k (s.stmts (sc.action t) p) stmt)
    (stmts : s'.stmts = (s.setStmt (sc.action t) p stmt).stmts) (q : ℕ) (k' : Kind E) (e : E)
    (there : sc.stmtAt (sc.action t) q = some k') (about : k'.About e) :
    ((s'.view (sc.action t) t).stmts q).step_ = ((s.view (sc.action t) t).stmts q).step_ := by
  simp only [State.view, stmts]
  by_cases here : q = p
  · subst here
    rw [goes.stmt] at there
    cases there
    rw [State.setStmt_same, continues.about about]
  · rw [State.setStmt_of_ne fun h => here h.2]

theorem Orderly.forth (alone : Alone sc a t) (orderly : Orderly sc a t s)
    (goes : sc.Goes s t' work p k)
    (continues : Scenario.Continues k (s.stmts (sc.action t') p) stmt)
    (eq : s' = (({ s with work, id_seed_ := n }.setStmt (sc.action t') p stmt).setPos t'
      (some (p + 1))).push (.next t')) : Orderly sc a t s' := by
  have walks : s'.walks = s.walks := walks_of_top goes.work rfl (by rw [eq]; rfl)
  have callbacks := callbacks_congr (a := a) (t := t) (s := s) (by rw [eq]; rfl) walks
  by_cases same : t' = t
  · subst same
    obtain rfl := alone.action
    obtain ⟨⟨phase, shows_⟩, records⟩ := orderly
    obtain ⟨rfl, rest, at_, idle⟩ := shows_.of_goes goes
    have stmts (q : ℕ) (ne : q ≠ p) : s'.stmts (sc.action t') q = s.stmts (sc.action t') q := by
      rw [eq]
      exact State.setStmt_of_ne fun h => ne h.2
    refine ⟨⟨.running, ?_, ?_, ?_, ?_, p + 1, ⟨?_, ?_, ?_⟩, ?_⟩, records.congr ?_ ?_ ?_⟩
    · rw [eq]
      simp only [State.view, State.push, State.setPos, State.setStmt]
      rw [filter_own _ rfl, rest]
      rfl
    · rw [eq]
      exact shows_.requests
    · rw [eq]
      exact shows_.delays
    · rw [callbacks]
      exact shows_.callbacks
    · rw [eq]
      exact at_.thread
    · rw [eq]
      simp [State.view, State.push, State.setPos]
    · intro q lt
      exact (stmts q (by omega)).trans (at_.later q (by omega))
    · have now : (s'.view (sc.action t') t').stmts (p + 1) = .new :=
        (stmts (p + 1) (by omega)).trans (at_.later (p + 1) (by omega))
      rw [now]
      exact TgStatement.idle_new
    · exact steps_of_continues goes continues (by rw [eq]; rfl)
    · rw [eq]
      rfl
    · rw [callbacks]
      exact fun e => List.Subset.refl _
  · refine orderly.congr (view_goes same goes (by rw [eq]; exact .inr rfl) (by rw [eq]; rfl)
      (by rw [eq]; rfl) (fun e => congrFun callbacks e) ?_ (by rw [eq]; rfl) ?_ (by rw [eq]; rfl))
    · rw [eq]
      exact setStmt_stmts_of_ne (alone.elsewhere same) p stmt
    · rw [eq]
      simp only [State.push, State.setPos, Function.update_of_ne (Ne.symm same)]
      rfl

theorem Orderly.aborts (alone : Alone sc a t) (orderly : Orderly sc a t s)
    (goes : sc.Goes s t' work p k)
    (continues : Scenario.Continues k (s.stmts (sc.action t') p) stmt)
    (eq : s' = ({ s with work, id_seed_ := n }.setStmt (sc.action t') p stmt).setPos t' none) :
    Orderly sc a t s' := by
  have walks : s'.walks = s.walks := walks_of_top goes.work rfl (by rw [eq]; rfl)
  have callbacks := callbacks_congr (a := a) (t := t) (s := s) (by rw [eq]; rfl) walks
  by_cases same : t' = t
  · subst same
    obtain rfl := alone.action
    obtain ⟨phase, shows_⟩ := orderly.shows_
    obtain ⟨rfl, rest, at_, idle⟩ := shows_.of_goes goes
    refine orderly.idle ?_ ?_ ?_ callbacks shows_.callbacks ?_ ?_
    · rw [eq]
      exact rest
    · rw [eq]
      exact shows_.requests
    · rw [eq]
      exact shows_.delays
    · exact steps_of_continues goes continues (by rw [eq]; rfl)
    · rw [eq]
      rfl
  · refine orderly.congr (view_goes same goes (by rw [eq]; exact .inl rfl) (by rw [eq]; rfl)
      (by rw [eq]; rfl) (fun e => congrFun callbacks e) ?_ (by rw [eq]; rfl) ?_ (by rw [eq]; rfl))
    · rw [eq]
      exact setStmt_stmts_of_ne (alone.elsewhere same) p stmt
    · rw [eq]
      simp only [State.setPos, Function.update_of_ne (Ne.symm same)]
      rfl

theorem Orderly.waits {ops : ℕ} (alone : Alone sc a t) (orderly : Orderly sc a t s)
    (goes : sc.Goes s t' work p (.traffic ops))
    (continues : Scenario.Continues (.traffic ops : Kind E) (s.stmts (sc.action t') p) stmt)
    (eq : s' = { s with work, id_seed_ := n, requests :=
      s.requests ++ [TgStmtCb.mk (sc.action t') p n] }.setStmt (sc.action t') p (stmt.lock n)) :
    Orderly sc a t s' := by
  have walks : s'.walks = s.walks := walks_of_top goes.work rfl (by rw [eq]; rfl)
  have callbacks := callbacks_congr (a := a) (t := t) (s := s) (by rw [eq]; rfl) walks
  by_cases same : t' = t
  · subst same
    obtain rfl := alone.action
    obtain ⟨⟨phase, shows_⟩, records⟩ := orderly
    obtain ⟨rfl, rest, at_, idle⟩ := shows_.of_goes goes
    have stmts (q : ℕ) (ne : q ≠ p) : s'.stmts (sc.action t') q = s.stmts (sc.action t') q := by
      rw [eq]
      exact State.setStmt_of_ne fun h => ne h.2
    refine ⟨⟨.requested p n, ?_, ?_, ?_, ?_, ⟨?_, ?_, ?_⟩, ⟨ops, goes.stmt⟩, stmt,
      Continues.idle continues idle, ?_⟩, records.congr ?_ ?_ ?_⟩
    · rw [eq]
      exact rest
    · have before : s.requests.filter (fun cb => cb.action = sc.action t') = [] := shows_.requests
      rw [eq]
      simp only [State.view, State.setStmt]
      rw [List.filter_append, before]
      simp [Phase.requests]
    · rw [eq]
      exact shows_.delays
    · rw [callbacks]
      exact shows_.callbacks
    · rw [eq]
      exact at_.thread
    · rw [eq]
      exact at_.pos
    · intro q lt
      exact (stmts q (by omega)).trans (at_.later q lt)
    · rw [eq]
      exact State.setStmt_same
    · intro q k' e there about
      by_cases here : q = p
      · subst here
        rw [goes.stmt] at there
        cases there
        exact absurd about (Kind.not_about_traffic ops e)
      · exact congrArg _ (stmts q here)
    · rw [eq]
      rfl
    · rw [callbacks]
      exact fun e => List.Subset.refl _
  · have away := alone.elsewhere same
    refine orderly.congr (view_goes same goes (by rw [eq]; exact .inl rfl) ?_
      (by rw [eq]; rfl) (fun e => congrFun callbacks e) ?_ (by rw [eq]; rfl) (by rw [eq]; rfl)
      (by rw [eq]; rfl))
    · rw [eq]
      simp [State.setStmt, Ne.symm away]
    · rw [eq]
      exact setStmt_stmts_of_ne away p _

theorem Orderly.delayed (alone : Alone sc a t) (orderly : Orderly sc a t s)
    (goes : sc.Goes s t' work p .delay)
    (eq : s' = { s with work, delays := s.delays ++ [(sc.action t', p)] }) :
    Orderly sc a t s' := by
  have walks : s'.walks = s.walks := walks_of_top goes.work rfl (by rw [eq])
  have callbacks := callbacks_congr (a := a) (t := t) (s := s) (by rw [eq]) walks
  by_cases same : t' = t
  · subst same
    obtain rfl := alone.action
    obtain ⟨⟨phase, shows_⟩, records⟩ := orderly
    obtain ⟨rfl, rest, at_, idle⟩ := shows_.of_goes goes
    refine ⟨⟨.delayed p, ?_, ?_, ?_, ?_, ⟨?_, ?_, ?_⟩, goes.stmt, ?_⟩, records.congr ?_ ?_ ?_⟩
    · rw [eq]
      exact rest
    · rw [eq]
      exact shows_.requests
    · have before : s.delays.filter (fun d => d.1 = sc.action t') = [] := shows_.delays
      rw [eq]
      simp only [State.view]
      rw [List.filter_append, before]
      simp [Phase.delays]
    · rw [callbacks]
      exact shows_.callbacks
    · rw [eq]
      exact at_.thread
    · rw [eq]
      exact at_.pos
    · rw [eq]
      exact at_.later
    · rw [eq]
      exact idle
    · rw [eq]
      exact fun _ _ _ _ _ => rfl
    · rw [eq]
      rfl
    · rw [callbacks]
      exact fun e => List.Subset.refl _
  · refine orderly.congr (view_goes same goes (by rw [eq]; exact .inl rfl) (by rw [eq])
      ?_ (fun e => congrFun callbacks e) (by rw [eq]) (by rw [eq]) (by rw [eq]) (by rw [eq]))
    rw [eq]
    simp [Ne.symm (alone.elsewhere same)]

theorem Orderly.arrives {e : E} {ev : TgSyncEvent A} (alone : Alone sc a t) (sound : sc.Sound s)
    (orderly : Orderly sc a t s) (goes : sc.Goes s t' work p k) (about : k.About e)
    (fresh : (s.stmts (sc.action t') p).step_ = 0) (event : s.list e = some ev)
    (member : sc.action t' ∈ ev.waitfor_)
    (eq : s' = ({ s with
      work, id_seed_ := n
      list := Function.update s.list e (some (TgSyncEvent.mk (ev.waitfor_.erase (sc.action t'))
        (ev.cblist_ ++ [TgStmtCb.mk (sc.action t') p n])))
      timers := if ev.waitfor_.erase (sc.action t') = [] then s.timers ++ [e] else s.timers }.note
        (.arrived (sc.action t') p e)).setStmt (sc.action t') p
          ((s.stmts (sc.action t') p).lock n)) : Orderly sc a t s' := by
  have walks : s'.walks = s.walks := walks_of_top goes.work rfl (by rw [eq]; rfl)
  obtain ⟨-, quiet⟩ := sound.quiet event member
  have here : s'.list e = some ⟨ev.waitfor_.erase (sc.action t'),
      ev.cblist_ ++ [⟨sc.action t', p, n⟩]⟩ := by
    rw [eq]
    exact Function.update_self _ _ _
  have pending : s'.pending e = s.pending e ++ [⟨sc.action t', p, n⟩] := by
    rw [pending_quiet here (walks ▸ quiet), pending_quiet event quiet]
  have pending_ne (e' : E) (ne : e' ≠ e) : s'.pending e' = s.pending e' := by
    have list : s'.list e' = s.list e' := by
      rw [eq]
      exact Function.update_of_ne ne _ _
    rw [State.pending, State.pending, list, walks]
  by_cases same : t' = t
  · subst same
    obtain rfl := alone.action
    obtain ⟨⟨phase, shows_⟩, records⟩ := orderly
    obtain ⟨rfl, rest, at_, idle⟩ := shows_.of_goes goes
    have before (e' : E) : (s.pending e').filter (fun cb => cb.action = sc.action t') = [] :=
      shows_.callbacks e'
    have stmts (q : ℕ) (ne : q ≠ p) : s'.stmts (sc.action t') q = s.stmts (sc.action t') q := by
      rw [eq]
      exact State.setStmt_of_ne fun h => ne h.2
    have now : s'.stmts (sc.action t') p = (s.stmts (sc.action t') p).lock n := by
      rw [eq]
      exact State.setStmt_same
    have new : s.stmts (sc.action t') p = .new := by
      have errors := idle.errors
      have unlocked := idle.unlocked
      cases stmt : s.stmts (sc.action t') p with
      | mk step_ errors_ id_lock =>
          rw [stmt] at fresh errors unlocked
          simp only at fresh errors unlocked
          rw [fresh, errors, unlocked]
          rfl
    have steps (q : ℕ) : (s'.stmts (sc.action t') q).step_ = (s.stmts (sc.action t') q).step_ := by
      by_cases at_p : q = p
      · subst at_p
        rw [now]
        rfl
      · rw [stmts q at_p]
    have notes : (s'.view (sc.action t') t').notes =
        .arrived (sc.action t') p e :: (s.view (sc.action t') t').notes := by
      rw [eq]
      simp [State.view, State.note, State.setStmt, Note.action]
    refine ⟨⟨.arrived e p n, ?_, ?_, ?_, ?_, ⟨?_, ?_, ?_⟩, ⟨k, goes.stmt, about⟩, ?_⟩, ?_, ?_⟩
    · rw [eq]
      exact rest
    · rw [eq]
      exact shows_.requests
    · rw [eq]
      exact shows_.delays
    · intro e'
      simp only [State.view, Phase.callbacks]
      by_cases at_e : e' = e
      · subst at_e
        rw [pending, List.filter_append, before, if_pos rfl]
        simp
      · rw [pending_ne e' at_e, before, if_neg at_e]
    · rw [eq]
      exact at_.thread
    · rw [eq]
      exact at_.pos
    · intro q lt
      exact (stmts q (by omega)).trans (at_.later q lt)
    · exact now.trans (by rw [new])
    · intro q k' e' there about'
      rw [notes, List.count_cons_of_ne (by simp)]
      simp only [State.view, steps]
      exact records.counted there about'
    · intro q e' note
      rw [notes] at note
      simp only [State.view, steps]
      rcases List.mem_cons.mp note with first | old
      · cases first
        refine ⟨⟨k, goes.stmt, about⟩, .inr ⟨n, ?_⟩⟩
        rw [pending]
        simp
      · obtain ⟨kind, done⟩ := records.arrived old
        refine ⟨kind, .inl (done.resolve_right ?_)⟩
        rintro ⟨id, mem⟩
        rw [shows_.callbacks] at mem
        cases mem
  · have away := alone.elsewhere same
    refine orderly.congr (view_goes same goes (by rw [eq]; exact .inl rfl) (by rw [eq]; rfl)
      (by rw [eq]; rfl) ?_ ?_ (by rw [eq]; rfl) (by rw [eq]; rfl) ?_)
    · intro e'
      by_cases at_e : e' = e
      · subst at_e
        rw [pending, List.filter_append]
        simp [Ne.symm away]
      · rw [pending_ne e' at_e]
    · rw [eq]
      exact setStmt_stmts_of_ne away p _
    · rw [eq]
      simp [State.note, State.setStmt, Note.action, Ne.symm away]

theorem Orderly.prints (alone : Alone sc a t) (named : Named sc s) (orderly : Orderly sc a t s)
    (goes : sc.Goes s t' work p .print)
    (eq : { s with work }.onComplete ⟨sc.action t', p, 0⟩ = some s') : Orderly sc a t s' := by
  have walks : ({ s with work } : State A T E).walks = s.walks := walks_of_top goes.work rfl rfl
  have callbacks := callbacks_congr (a := a) (t := t) (s := s) (r := { s with work }) rfl walks
  by_cases same : t' = t
  · subst same
    obtain rfl := alone.action
    obtain ⟨⟨phase, shows_⟩, records⟩ := orderly
    obtain ⟨rfl, rest, at_, idle⟩ := shows_.of_goes goes
    refine Orderly.completed (s := { s with work }) ⟨at_.thread, at_.pos, at_.later⟩ idle
      (idle.unlock 0) rest shows_.requests shows_.delays ?_ ?_ records.counted ?_ eq
    · rw [callbacks]
      exact shows_.callbacks
    · intro k e there about
      rw [goes.stmt] at there
      cases there
      exact absurd about (Kind.not_about_print e)
    · intro q e note
      obtain ⟨kind, done⟩ := records.arrived note
      refine ⟨kind, .inl (done.resolve_right ?_)⟩
      rintro ⟨id, mem⟩
      rw [shows_.callbacks] at mem
      cases mem
  · have away := alone.elsewhere same
    have base : ({ s with work } : State A T E).view a t = s.view a t :=
      view_goes same goes (.inl rfl) rfl rfl (fun e => congrFun callbacks e) rfl rfl rfl rfl
    refine orderly.congr ((view_onComplete (s := { s with work }) away.symm ?_ eq).trans base)
    intro t'' thread same'
    exact away.symm ((named _ _ thread).symm.trans (same' ▸ alone.action))

end

/-- An answer to the only thread of an action that is completed, from the state without what stood
    for it. -/
theorem Orderly.callback {e : E} {i i9 : ℕ} {work : List (Work T E)} {ev : TgSyncEvent A}
    {cb : TgStmtCb A} (alone : Alone sc a t) (named : Named sc s) (sound : sc.Sound s)
    (orderly : Orderly sc a t s) (top : s.work = .expired e i i9 :: work)
    (event : s.list e = some ev) (there : ev.cblist_[i]? = some cb)
    (eq : { s with work := .expired e (i + 1) i9 :: work }.onComplete cb = some s') :
    Orderly sc a t s' := by
  obtain ⟨walks, -⟩ := sound.walk top
  obtain ⟨walks', -⟩ := (sound.walk_on top).walk
    (s := { s with work := .expired e (i + 1) i9 :: work }) rfl
  have pending : s.pending e =
      cb :: ({ s with work := .expired e (i + 1) i9 :: work } : State A T E).pending e := by
    obtain ⟨inside, here⟩ := List.getElem?_eq_some_iff.mp there
    rw [pending_at event walks, pending_at (s := { s with work := .expired e (i + 1) i9 :: work })
      event walks', List.drop_eq_getElem_cons inside, here]
  have pending_ne (e' : E) (ne : e' ≠ e) :
      ({ s with work := .expired e (i + 1) i9 :: work } : State A T E).pending e' = s.pending e' :=
    pending_of_ne ne rfl (.inr walks) (.inr walks')
  have rest : (Work.expired e (i + 1) i9 :: work).filter (fun w => w.thread? = some t) =
      s.work.filter fun w => w.thread? = some t := by
    rw [top, filter_other _ (by simp [Work.thread?]), filter_other _ (by simp [Work.thread?])]
  by_cases same : cb.action = a
  · obtain ⟨⟨phase, shows_⟩, records⟩ := orderly
    have mem : cb ∈ (s.view a t).callbacks e := by
      simp only [State.view]
      rw [pending]
      exact List.mem_filter.mpr ⟨List.mem_cons_self, by simpa using same⟩
    obtain ⟨rfl, -⟩ := shows_.arrived_of_mem mem
    obtain ⟨at_, ⟨k, kind, about⟩, locked⟩ := shows_.placed
    have none_ (e' : E) : (({ s with work := .expired e (i + 1) i9 :: work } : State A T E).pending
        e').filter (fun cb => cb.action = a) = [] := by
      have before : (s.pending e').filter (fun cb => cb.action = a) = _ := shows_.callbacks e'
      simp only [Phase.callbacks] at before
      by_cases at_e : e' = e
      · subst at_e
        rw [pending, List.filter_cons_of_pos (by simpa using same), if_pos rfl] at before
        exact (List.cons.inj before).2
      · rw [pending_ne e' at_e, before, if_neg at_e]
    subst same
    refine Orderly.completed (s := { s with work := .expired e (i + 1) i9 :: work })
      ⟨at_.thread, at_.pos, at_.later⟩ TgStatement.idle_new ?_
      (rest.trans shows_.work) shows_.requests shows_.delays none_ (fun _ _ _ _ => rfl)
      records.counted ?_ eq
    · have locked' : s.stmts cb.action cb.index = TgStatement.new.lock cb.reqid_ := locked
      simp only [locked']
      exact TgStatement.idle_new.unlock_lock cb.reqid_
    · intro q e' note
      obtain ⟨kind', done⟩ := records.arrived note
      refine ⟨kind', done.imp_right ?_⟩
      rintro ⟨id, mem'⟩
      obtain ⟨phase, -⟩ := shows_.arrived_of_mem mem'
      cases phase
      rfl
  · have base : ({ s with work := .expired e (i + 1) i9 :: work } : State A T E).view a t =
        s.view a t := by
      refine view_eq rest rfl rfl (fun e' => ?_) rfl rfl rfl rfl
      by_cases at_e : e' = e
      · subst at_e
        rw [pending, List.filter_cons_of_neg (by simpa using same)]
      · rw [pending_ne e' at_e]
    refine orderly.congr ((view_onComplete
      (s := { s with work := .expired e (i + 1) i9 :: work }) same ?_ eq).trans base)
    intro t' thread same'
    exact same ((named _ _ thread).symm.trans (same' ▸ alone.action))

theorem Orderly.removed {e : E} {i i9 : ℕ} {work : List (Work T E)} (sound : sc.Sound s)
    (orderly : Orderly sc a t s) (top : s.work = .expired e i i9 :: work) (outside : ¬ i < i9) :
    Orderly sc a t { s with work, list := Function.update s.list e none } := by
  obtain ⟨walks, ev, event, -, len⟩ := sound.walk top
  have rest : work.filterMap Work.walk = [] := by
    rw [State.walks, top, List.filterMap_cons] at walks
    exact (List.cons.inj walks).2
  refine orderly.congr (view_eq ?_ rfl rfl (fun e' => ?_) rfl rfl rfl rfl)
  · rw [top, filter_other _ (by simp [Work.thread?])]
  · by_cases at_e : e' = e
    · subst at_e
      have gone : s.pending e' = [] := by
        rw [pending_at event walks, List.drop_eq_nil_iff]
        omega
      rw [gone]
      simp [State.pending]
    · rw [pending_of_ne (j := i) (m := i9) at_e
        (r := { s with work, list := Function.update s.list e none })
        (Function.update_of_ne at_e _ _) (.inr walks) (.inl rest)]

theorem Orderly.timer {e : E} {ev : TgSyncEvent A} (orderly : Orderly sc a t s)
    (idle : s.work = []) (event : s.list e = some ev) :
    Orderly sc a t { s with
      timers := s.timers.erase e, work := [.expired e 0 ev.cblist_.length] } := by
  have walks : s.walks = [] := by
    rw [State.walks, idle]
    rfl
  refine orderly.congr (view_eq ?_ rfl rfl (fun e' => ?_) rfl rfl rfl rfl)
  · rw [idle, filter_other _ (by simp [Work.thread?])]
  · by_cases at_e : e' = e
    · subst at_e
      rw [pending_quiet event (by simp [walks]), pending_at (s := { s with
        timers := s.timers.erase e', work := [.expired e' 0 ev.cblist_.length] }) event rfl]
      rfl
    · rw [pending_of_ne at_e (s := s) (r := { s with
        timers := s.timers.erase e, work := [.expired e 0 ev.cblist_.length] })
        (i := 0) (n := 0) rfl (.inl walks) (.inr rfl)]

section

variable {cb : TgStmtCb A}

/-- An answer to a request. -/
theorem Shows.of_request {phase : Phase E} (shows_ : Shows sc cb.action t
    (s.view cb.action t) phase) (mem : cb ∈ s.requests) :
    phase = .requested cb.index cb.reqid_ ∧
      (s.requests.erase cb).filter (fun cb' => cb'.action = cb.action) = [] := by
  have mem' : cb ∈ (s.view cb.action t).requests := List.mem_filter.mpr ⟨mem, by simp⟩
  obtain ⟨rfl, -⟩ := shows_.requested_of_mem mem'
  refine ⟨rfl, ?_⟩
  have before : s.requests.filter (fun cb' => cb'.action = cb.action) = [cb] := shows_.requests
  rw [← List.erase_filter, before, List.erase_cons_head]

theorem filter_erase_of_ne {b : A} (ne : cb.action ≠ b) (requests : List (TgStmtCb A)) :
    (requests.erase cb).filter (fun cb' => cb'.action = b) =
      requests.filter fun cb' => cb'.action = b := by
  rw [← List.erase_filter, List.erase_of_not_mem]
  intro mem
  exact ne (by simpa using (List.mem_filter.mp mem).2)

theorem Orderly.answered (alone : Alone sc a t) (named : Named sc s)
    (orderly : Orderly sc a t s) (mem : cb ∈ s.requests)
    (eq : { s with requests := s.requests.erase cb }.onComplete cb = some s') :
    Orderly sc a t s' := by
  by_cases same : cb.action = a
  · subst same
    obtain ⟨⟨phase, shows_⟩, records⟩ := orderly
    obtain ⟨rfl, rest⟩ := shows_.of_request mem
    obtain ⟨at_, ⟨ops, kind⟩, stmt, idle, locked⟩ := shows_.placed
    refine Orderly.completed (s := { s with requests := s.requests.erase cb })
      ⟨at_.thread, at_.pos, at_.later⟩ idle ?_ shows_.work rest shows_.delays shows_.callbacks ?_
      records.counted ?_ eq
    · have locked' : s.stmts cb.action cb.index = stmt.lock cb.reqid_ := locked
      simp only [locked']
      exact idle.unlock_lock cb.reqid_
    · intro k e there about
      rw [kind] at there
      cases there
      exact absurd about (Kind.not_about_traffic ops e)
    · intro q e note
      obtain ⟨kind', done⟩ := records.arrived note
      refine ⟨kind', .inl (done.resolve_right ?_)⟩
      rintro ⟨id, mem'⟩
      rw [shows_.callbacks] at mem'
      cases mem'
  · have base : ({ s with requests := s.requests.erase cb } : State A T E).view a t =
        s.view a t :=
      view_eq rfl (filter_erase_of_ne same _) rfl (fun _ => rfl) rfl rfl rfl rfl
    refine orderly.congr ((view_onComplete (s := { s with requests := s.requests.erase cb })
      same ?_ eq).trans base)
    intro t' thread same'
    exact same ((named _ _ thread).symm.trans (same' ▸ alone.action))

theorem unlock_step (stmt : TgStatement) (id : ℕ) : (stmt.unlock id).step_ = stmt.step_ := by
  unfold TgStatement.unlock
  split <;> rfl

theorem Orderly.refused (alone : Alone sc a t) (named : Named sc s)
    (orderly : Orderly sc a t s) (mem : cb ∈ s.requests)
    (eq : sc.onError { s with requests := s.requests.erase cb } cb = some s') :
    Orderly sc a t s' := by
  obtain ⟨t', thread, result⟩ := Option.bind_eq_some_iff.mp eq
  by_cases same : cb.action = a
  · subst same
    obtain ⟨phase, shows_⟩ := orderly.shows_
    obtain ⟨rfl, rest⟩ := shows_.of_request mem
    have steps (q : ℕ) (stmts : s'.stmts = (s.setStmt cb.action cb.index
        { (s.stmts cb.action cb.index).unlock cb.reqid_ with
          errors_ := ((s.stmts cb.action cb.index).unlock cb.reqid_).errors_ + 1 }).stmts) :
        (s'.stmts cb.action q).step_ = (s.stmts cb.action q).step_ := by
      rw [stmts]
      by_cases here : q = cb.index
      · subst here
        rw [State.setStmt_same]
        exact unlock_step _ _
      · rw [State.setStmt_of_ne fun h => here h.2]
    split at result
    · cases result
      exact orderly.idle shows_.work rest shows_.delays rfl shows_.callbacks
        (fun q _ _ _ _ => steps q rfl) rfl
    · split at result
      · cases result
        exact orderly.idle shows_.work rest shows_.delays rfl shows_.callbacks
          (fun q _ _ _ _ => steps q rfl) rfl
      · cases result
  · have ne : t ≠ t' := by
      intro same'
      exact same ((named _ _ thread).symm.trans (same' ▸ alone.action))
    split at result
    · cases result
      exact orderly.congr (view_eq rfl (filter_erase_of_ne same _) rfl (fun _ => rfl)
        (setStmt_stmts_of_ne (Ne.symm same) _ _) rfl rfl rfl)
    · split at result
      · cases result
        exact orderly.congr (view_eq rfl (filter_erase_of_ne same _) rfl (fun _ => rfl)
          (setStmt_stmts_of_ne (Ne.symm same) _ _) rfl (Function.update_of_ne ne _ _) rfl)
      · cases result

end

theorem Orderly.delayOver {b : A} {p : ℕ} (alone : Alone sc a t) (named : Named sc s)
    (orderly : Orderly sc a t s) (mem : (b, p) ∈ s.delays)
    (eq : { s with delays := s.delays.erase (b, p) }.onExpired b p = some s') :
    Orderly sc a t s' := by
  obtain ⟨t', thread, rfl⟩ := State.onExpired_eq eq
  by_cases same : b = a
  · subst same
    obtain ⟨⟨phase, shows_⟩, records⟩ := orderly
    have mem' : (b, p) ∈ (s.view b t).delays := List.mem_filter.mpr ⟨mem, by simp⟩
    obtain rfl := shows_.delayed_of_mem mem'
    obtain ⟨at_, kind, idle⟩ := shows_.placed
    have thread' : s.thread_ b = some t := at_.thread
    obtain rfl : t' = t := Option.some.inj (thread.symm.trans thread')
    have before : s.delays.filter (fun d => d.1 = b) = [(b, p)] := shows_.delays
    have others (q : ℕ) (ne : q ≠ p) : (s.setStmt b p
        { s.stmts b p with step_ := (s.stmts b p).step_ + 1 }).stmts b q = s.stmts b q :=
      State.setStmt_of_ne fun h => ne h.2
    refine ⟨⟨.running, ?_, shows_.requests, ?_, shows_.callbacks, p,
      ⟨at_.thread, at_.pos, ?_⟩, ?_⟩, records.congr ?_ rfl fun e => List.Subset.refl _⟩
    · have rest : s.work.filter (fun w => w.thread? = some t') = [] := shows_.work
      simp only [State.view, State.push, State.setStmt]
      rw [filter_own _ rfl, rest]
      rfl
    · simp only [State.view, State.push, State.setStmt]
      rw [← List.erase_filter, before, List.erase_cons_head]
      rfl
    · intro q lt
      exact (others q (Nat.ne_of_gt lt)).trans (at_.later q lt)
    · simp only [State.view, State.push, State.setStmt_same]
      exact idle.step _
    · intro q k e there about
      by_cases here : q = p
      · subst here
        rw [kind] at there
        cases there
        exact absurd about (Kind.not_about_delay e)
      · exact congrArg _ (others q here)
  · have ne : t' ≠ t := by
      intro same'
      exact same ((named _ _ thread).symm.trans (same' ▸ alone.action))
    refine orderly.congr (view_eq ?_ rfl ?_ (fun _ => rfl) (setStmt_stmts_of_ne (Ne.symm same) _ _)
      rfl rfl rfl)
    · simp only [State.push, State.setStmt]
      rw [filter_other _ (by simpa [Work.thread?] using ne)]
    · simp only [State.push, State.setStmt]
      rw [← List.erase_filter, List.erase_of_not_mem]
      intro mem'
      exact same (by simpa using (List.mem_filter.mp mem').2)

/-- Every step keeps a thread in order that is alone with its action. -/
theorem Orderly.move (alone : Alone sc a t) (named : Named sc s) (sound : sc.Sound s)
    (orderly : Orderly sc a t s) (move : sc.Move s s') : Orderly sc a t s' := by
  cases move with
  | start top eq => exact eq ▸ orderly.start alone top
  | ended top pos behind eq => exact eq ▸ orderly.ended alone top
  | forth goes continues passed eq => exact orderly.forth alone goes continues eq
  | aborts goes continues eq => exact orderly.aborts alone goes continues eq
  | waits goes continues eq => exact orderly.waits alone goes continues eq
  | delayed goes fresh eq => exact orderly.delayed alone goes eq
  | arrives goes about fresh event member eq =>
      exact orderly.arrives alone sound goes about fresh event member eq
  | prints goes fresh eq => exact orderly.prints alone named goes eq
  | callback top event inside there eq =>
      exact orderly.callback alone named sound top event there eq
  | removed top event outside eq => exact eq ▸ orderly.removed sound top outside
  | answered idle mem eq => exact orderly.answered alone named mem eq
  | refused idle mem eq => exact orderly.refused alone named mem eq
  | delayOver idle mem eq => exact orderly.delayOver alone named mem eq
  | timer idle mem event eq => exact eq ▸ orderly.timer idle event

end

end Tahi.Tg
