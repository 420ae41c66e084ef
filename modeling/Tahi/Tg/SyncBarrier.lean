import Mathlib.Data.List.Perm.Basic
import Tahi.Tg.SyncMoves

/-! # Events are barriers

No statement about an event is passed before all members of the event have come to it, whatever
the threads do and in whatever order their requests are answered.
-/

namespace Tahi.Tg

variable {A T E : Type}

def Work.walk : Work T E → Option (E × ℕ × ℕ)
  | .expired e i i9 => some (e, i, i9)
  | _ => none

namespace State

/-- A thread with this name has come to the event. -/
def Arrived (s : State A T E) (a : A) (e : E) : Prop := ∃ p, .arrived a p e ∈ s.notes

/-- The callbacks that are gone through: the event, the next one, and their number. -/
def walks (s : State A T E) : List (E × ℕ × ℕ) := s.work.filterMap Work.walk

section

variable [DecidableEq A] {s s' : State A T E}

theorem setStmt_of_ne {a b : A} {p q : ℕ} {stmt : TgStatement} (ne : ¬ (b = a ∧ q = p)) :
    (s.setStmt a p stmt).stmts b q = s.stmts b q := by
  by_cases same : b = a
  · subst same
    simp only [setStmt, Function.update_self]
    exact Function.update_of_ne (fun h => ne ⟨rfl, h⟩) _ _
  · simp only [setStmt, Function.update_of_ne same]

@[simp] theorem setStmt_same {a : A} {p : ℕ} {stmt : TgStatement} :
    (s.setStmt a p stmt).stmts a p = stmt := by
  simp only [setStmt, Function.update_self]

theorem onComplete_cases {cb : TgStmtCb A} (does : s.onComplete cb = some s') :
    (∃ t, s.thread_ cb.action = some t ∧
      s' = ((s.setStmt cb.action cb.index
        { (s.stmts cb.action cb.index).unlock cb.reqid_ with
          step_ := (s.stmts cb.action cb.index).step_ + 1 }).note
        (.completed cb.action cb.index)).push (.next t)) ∨
      s' = s.setStmt cb.action cb.index ((s.stmts cb.action cb.index).unlock cb.reqid_) := by
  have step : ((s.stmts cb.action cb.index).unlock cb.reqid_).step_ =
      (s.stmts cb.action cb.index).step_ := by
    unfold TgStatement.unlock
    split <;> rfl
  simp only [onComplete] at does
  split at does
  · obtain ⟨t, thread, rfl⟩ := Option.map_eq_some_iff.mp does
    exact .inl ⟨t, thread, by rw [step]⟩
  · cases does
    exact .inr rfl

theorem onExpired_eq {a : A} {p : ℕ} (does : s.onExpired a p = some s') :
    ∃ t, s.thread_ a = some t ∧
      s' = (s.setStmt a p { s.stmts a p with step_ := (s.stmts a p).step_ + 1 }).push
        (.next t) := by
  obtain ⟨t, thread, rfl⟩ := Option.map_eq_some_iff.mp does
  exact ⟨t, thread, rfl⟩

end

end State

namespace Scenario

variable (sc : Scenario A T E)

/-- All members of the event have come to it. -/
def AllArrived (s : State A T E) (e : E) : Prop :=
  ∀ ms, sc.members e = some ms → ∀ m ∈ ms, s.Arrived m e

/-- What is always so of the events: each member is still waited for or has a callback, and a
    timer is running or its callbacks are gone through exactly when no member is waited for. -/
structure Sound (s : State A T E) : Prop where
  members : ∀ {e ev}, s.list e = some ev →
    ∃ ms, sc.members e = some ms ∧ (ev.waitfor_ ++ ev.cblist_.map (·.action)).Perm ms
  outstanding : ∀ {e ev m p}, s.list e = some ev → m ∈ ev.waitfor_ → .arrived m p e ∉ s.notes
  arrived : ∀ {e ev cb}, s.list e = some ev → cb ∈ ev.cblist_ →
    .arrived cb.action cb.index e ∈ s.notes
  timers_nodup : s.timers.Nodup
  timers : ∀ {e}, e ∈ s.timers →
    e ∉ s.walks.map Prod.fst ∧ ∃ ev, s.list e = some ev ∧ ev.waitfor_ = []
  complete : ∀ {e ev}, s.list e = some ev → ev.waitfor_ = [] →
    e ∈ s.timers ∨ e ∈ s.walks.map Prod.fst
  walks : s.walks = [] ∨ ∃ e i ev, s.walks = [(e, i, ev.cblist_.length)] ∧ s.list e = some ev ∧
    ev.waitfor_ = []

/-- What is always so of the statements: who may complete them, and that the ones about an event
    have only been completed, and passed, when all members had come. -/
structure Passing (s : State A T E) : Prop where
  requests : ∀ cb ∈ s.requests, ∃ ops, sc.stmtAt cb.action cb.index = some (.traffic ops)
  delays : ∀ d ∈ s.delays, sc.stmtAt d.1 d.2 = some .delay
  callbacks : ∀ {e ev}, s.list e = some ev → ∀ cb ∈ ev.cblist_,
    ∃ k, sc.stmtAt cb.action cb.index = some k ∧ k.About e
  stepped : ∀ {a p k e}, sc.stmtAt a p = some k → k.About e → (s.stmts a p).step_ ≠ 0 →
    sc.AllArrived s e
  passed : ∀ {t p i k e}, s.stmtPos_ t = some p → i < p → sc.stmtAt (sc.action t) i = some k →
    k.About e → sc.AllArrived s e

variable {sc} {s s' : State A T E}

theorem AllArrived.mono (notes : s.notes ⊆ s'.notes) {e : E} (all : sc.AllArrived s e) :
    sc.AllArrived s' e := by
  intro ms members m mem
  obtain ⟨p, note⟩ := all ms members m mem
  exact ⟨p, notes note⟩

/-- When no member is waited for all have come. -/
theorem Sound.allArrived (sound : sc.Sound s) {e : E} {ev : TgSyncEvent A}
    (event : s.list e = some ev) (last : ev.waitfor_ = []) : sc.AllArrived s e := by
  intro ms declared m mem
  obtain ⟨ms', declared', perm⟩ := sound.members event
  rw [declared] at declared'
  cases declared'
  rw [last, List.nil_append] at perm
  obtain ⟨cb, mem', rfl⟩ := List.mem_map.mp (perm.mem_iff.mpr mem)
  exact ⟨cb.index, sound.arrived event mem'⟩

/-- When all have come, no member is waited for. -/
theorem Sound.waitfor_nil (sound : sc.Sound s) {e : E} {ev : TgSyncEvent A}
    (event : s.list e = some ev) (all : sc.AllArrived s e) : ev.waitfor_ = [] := by
  rw [List.eq_nil_iff_forall_not_mem]
  intro m mem
  obtain ⟨ms, declared, perm⟩ := sound.members event
  obtain ⟨p, note⟩ := all ms declared m (perm.mem_iff.mp (List.mem_append_left _ mem))
  exact sound.outstanding event mem note

theorem Sound.nodup (sound : sc.Sound s) {e : E} {ev : TgSyncEvent A}
    (event : s.list e = some ev) : (ev.waitfor_ ++ ev.cblist_.map (·.action)).Nodup := by
  obtain ⟨ms, declared, perm⟩ := sound.members event
  exact perm.nodup_iff.mpr (sc.members_nodup e ms declared)

theorem Sound.walk (sound : sc.Sound s) {e : E} {i i9 : ℕ} {work : List (Work T E)}
    (top : s.work = .expired e i i9 :: work) :
    s.walks = [(e, i, i9)] ∧ ∃ ev, s.list e = some ev ∧ ev.waitfor_ = [] ∧
      i9 = ev.cblist_.length := by
  have first : s.walks = (e, i, i9) :: work.filterMap Work.walk := by
    rw [State.walks, top, List.filterMap_cons]
    rfl
  rcases sound.walks with none_ | ⟨e', i', ev, walks, event, last⟩
  · rw [first] at none_
    cases none_
  · obtain ⟨same, rest⟩ := List.cons.inj (first.symm.trans walks)
    cases same
    exact ⟨walks, ev, event, last, rfl⟩

/-- Only the list, the timers, the walks and the arrivals matter. -/
theorem Sound.congr (sound : sc.Sound s) (list : s'.list = s.list) (timers : s'.timers = s.timers)
    (walks : s'.walks = s.walks)
    (notes : ∀ m p e, .arrived m p e ∈ s'.notes ↔ .arrived m p e ∈ s.notes) : sc.Sound s' where
  members event := sound.members (list ▸ event)
  outstanding event mem note := sound.outstanding (list ▸ event) mem ((notes _ _ _).mp note)
  arrived event mem := (notes _ _ _).mpr (sound.arrived (list ▸ event) mem)
  timers_nodup := timers ▸ sound.timers_nodup
  timers := by
    rw [timers, walks, list]
    exact sound.timers
  complete := by
    rw [timers, walks, list]
    exact sound.complete
  walks := by
    rw [walks, list]
    exact sound.walks

/-- Nothing is under way for an event that still waits for a member. -/
theorem Sound.quiet (sound : sc.Sound s) {e : E} {ev : TgSyncEvent A} {a : A}
    (event : s.list e = some ev) (member : a ∈ ev.waitfor_) :
    e ∉ s.timers ∧ e ∉ s.walks.map Prod.fst := by
  have some_ : ev.waitfor_ ≠ [] := List.ne_nil_of_mem member
  constructor
  · intro timer
    obtain ⟨-, ev', event', last⟩ := sound.timers timer
    rw [event] at event'
    cases event'
    exact some_ last
  · intro walked
    rcases sound.walks with none_ | ⟨e', i, ev', walks, event', last⟩
    · rw [none_] at walked
      cases walked
    · rw [walks] at walked
      obtain rfl : e = e' := List.mem_singleton.mp walked
      rw [event] at event'
      cases event'
      exact some_ last

/-- A walk goes on to the next callback. -/
theorem Sound.walk_on (sound : sc.Sound s) {e : E} {i i9 : ℕ} {work : List (Work T E)}
    (top : s.work = .expired e i i9 :: work) :
    sc.Sound { s with work := .expired e (i + 1) i9 :: work } := by
  obtain ⟨walks, ev, event, last, len⟩ := sound.walk top
  have rest : work.filterMap Work.walk = [] := by
    rw [State.walks, top, List.filterMap_cons] at walks
    exact (List.cons.inj walks).2
  have now : ({ s with work := .expired e (i + 1) i9 :: work } : State A T E).walks =
      [(e, i + 1, i9)] := by
    rw [State.walks, List.filterMap_cons, rest]
    rfl
  have same : ({ s with work := .expired e (i + 1) i9 :: work } : State A T E).walks.map Prod.fst =
      s.walks.map Prod.fst := by
    rw [now, walks]
    rfl
  refine { sound with timers := ?_, complete := ?_, walks := .inr ⟨e, i + 1, ev, ?_, event, last⟩ }
  · rw [same]
    exact sound.timers
  · rw [same]
    exact sound.complete
  · rw [now, len]

/-- An event is removed behind its walk. -/
theorem Sound.removed [DecidableEq E] (sound : sc.Sound s) {e : E} {i i9 : ℕ} {work : List (Work T E)}
    (top : s.work = .expired e i i9 :: work) :
    sc.Sound { s with work, list := Function.update s.list e none } := by
  obtain ⟨walks, -⟩ := sound.walk top
  have rest : work.filterMap Work.walk = [] := by
    rw [State.walks, top, List.filterMap_cons] at walks
    exact (List.cons.inj walks).2
  have now : ({ s with work, list := Function.update s.list e none } : State A T E).walks = [] :=
    rest
  have list {e' : E} {ev : TgSyncEvent A} (event : Function.update s.list e none e' = some ev) :
      e' ≠ e ∧ s.list e' = some ev := by
    by_cases same : e' = e
    · subst same
      rw [Function.update_self] at event
      cases event
    · rw [Function.update_of_ne same] at event
      exact ⟨same, event⟩
  refine ⟨?_, ?_, ?_, sound.timers_nodup, ?_, ?_, .inl now⟩
  · intro e' ev event
    exact sound.members (list event).2
  · intro e' ev m p event
    exact sound.outstanding (list event).2
  · intro e' ev cb event
    exact sound.arrived (list event).2
  · intro e' timer
    obtain ⟨notWalk, ev, event, last⟩ := sound.timers timer
    have ne : e' ≠ e := by
      intro same
      apply notWalk
      rw [walks, same]
      exact List.mem_singleton_self _
    rw [now]
    exact ⟨List.not_mem_nil, ev, (Function.update_of_ne ne _ _).trans event, last⟩
  · intro e' ev event last
    obtain ⟨ne, event⟩ := list event
    refine .inl ((sound.complete event last).resolve_right fun walked => ?_)
    rw [walks] at walked
    exact ne (List.mem_singleton.mp walked)

/-- The timer of an event expires. -/
theorem Sound.timer [DecidableEq E] (sound : sc.Sound s) (idle : s.work = []) {e : E} {ev : TgSyncEvent A}
    (mem : e ∈ s.timers) (event : s.list e = some ev) :
    sc.Sound { s with
      timers := s.timers.erase e, work := [.expired e 0 ev.cblist_.length] } := by
  have none_ : s.walks = [] := by
    rw [State.walks, idle]
    rfl
  obtain ⟨-, ev', event', last⟩ := sound.timers mem
  rw [event] at event'
  cases event'
  refine { sound with
    timers_nodup := sound.timers_nodup.erase e, timers := ?_, complete := ?_
    walks := .inr ⟨e, 0, ev, rfl, event, last⟩ }
  · intro e' timer
    obtain ⟨ne, timer⟩ := (sound.timers_nodup.mem_erase_iff).mp timer
    exact ⟨fun walked => ne (List.mem_singleton.mp walked), (sound.timers timer).2⟩
  · intro e' ev' event' last'
    by_cases same : e' = e
    · exact .inr (List.mem_singleton.mpr same)
    · refine .inl ((sound.timers_nodup.mem_erase_iff).mpr ⟨same, ?_⟩)
      refine (sound.complete event' last').resolve_right fun walked => ?_
      rw [none_] at walked
      cases walked

section

variable [DecidableEq A]

theorem Sound.onComplete (sound : sc.Sound s) {cb : TgStmtCb A}
    (does : s.onComplete cb = some s') : sc.Sound s' := by
  rcases State.onComplete_cases does with ⟨t, -, rfl⟩ | rfl
  · refine sound.congr rfl rfl rfl fun m p e => ?_
    simp [State.note, State.push, State.setStmt]
  · exact sound.congr rfl rfl rfl fun m p e => Iff.rfl

theorem Sound.onError [DecidableEq T] (sound : sc.Sound s) {cb : TgStmtCb A}
    (does : sc.onError s cb = some s') : sc.Sound s' := by
  obtain ⟨t, -, does⟩ := Option.bind_eq_some_iff.mp does
  split at does
  · cases does
    exact sound.congr rfl rfl rfl fun m p e => Iff.rfl
  · split at does
    · cases does
      exact sound.congr rfl rfl rfl fun m p e => Iff.rfl
    · cases does

variable [DecidableEq E]

/-- A member comes to its event. -/
theorem Sound.arrives (sound : sc.Sound s) {a : A} {p id : ℕ} {e : E} {ev : TgSyncEvent A}
    (event : s.list e = some ev) (member : a ∈ ev.waitfor_)
    (list : s'.list = Function.update s.list e
      (some ⟨ev.waitfor_.erase a, ev.cblist_ ++ [⟨a, p, id⟩]⟩))
    (timers : s'.timers = if ev.waitfor_.erase a = [] then s.timers ++ [e] else s.timers)
    (walks : s'.walks = s.walks) (notes : s'.notes = .arrived a p e :: s.notes) :
    sc.Sound s' := by
  obtain ⟨notTimer, notWalk⟩ := sound.quiet event member
  have nodup : ev.waitfor_.Nodup := (sound.nodup event).of_append_left
  have here : s'.list e = some ⟨ev.waitfor_.erase a, ev.cblist_ ++ [⟨a, p, id⟩]⟩ := by
    rw [list, Function.update_self]
  have other {e' : E} (ne : e' ≠ e) : s'.list e' = s.list e' := by
    rw [list, Function.update_of_ne ne]
  have timers_sub : s.timers ⊆ s'.timers := by
    rw [timers]
    split
    · exact List.subset_append_left _ _
    · exact List.Subset.refl _
  have mem_timers {e' : E} (mem : e' ∈ s'.timers) :
      e' ∈ s.timers ∨ e' = e ∧ ev.waitfor_.erase a = [] := by
    rw [timers] at mem
    split at mem
    · rename_i last
      rcases List.mem_append.mp mem with mem | mem
      · exact .inl mem
      · exact .inr ⟨List.mem_singleton.mp mem, last⟩
    · exact .inl mem
  refine ⟨?_, ?_, ?_, ?_, ?_, ?_, ?_⟩
  · intro e' ev' event'
    by_cases same : e' = e
    · subst same
      rw [here] at event'
      cases event'
      obtain ⟨ms, declared, perm⟩ := sound.members event
      refine ⟨ms, declared, .trans ?_ perm⟩
      rw [List.map_append, List.map_singleton, ← List.append_assoc]
      refine (List.perm_append_singleton _ _).trans ?_
      rw [← List.cons_append]
      exact (List.perm_cons_erase member).symm.append_right _
    · rw [other same] at event'
      exact sound.members event'
  · intro e' ev' m p' event' mem note
    rw [notes] at note
    by_cases same : e' = e
    · subst same
      rw [here] at event'
      cases event'
      obtain ⟨ne, mem⟩ := (nodup.mem_erase_iff).mp mem
      rcases List.mem_cons.mp note with new | note
      · cases new
        exact ne rfl
      · exact sound.outstanding event mem note
    · rw [other same] at event'
      rcases List.mem_cons.mp note with new | note
      · cases new
        exact same rfl
      · exact sound.outstanding event' mem note
  · intro e' ev' cb event' mem
    rw [notes]
    by_cases same : e' = e
    · subst same
      rw [here] at event'
      cases event'
      rcases List.mem_append.mp mem with mem | mem
      · exact List.mem_cons_of_mem _ (sound.arrived event mem)
      · cases List.mem_singleton.mp mem
        exact List.mem_cons_self
    · rw [other same] at event'
      exact List.mem_cons_of_mem _ (sound.arrived event' mem)
  · rw [timers]
    split
    · exact sound.timers_nodup.append (List.nodup_singleton e)
        (List.disjoint_singleton.mpr notTimer)
    · exact sound.timers_nodup
  · intro e' mem
    rw [walks]
    rcases mem_timers mem with mem | ⟨rfl, last⟩
    · have ne : e' ≠ e := fun same => notTimer (same ▸ mem)
      rw [other ne]
      exact sound.timers mem
    · exact ⟨notWalk, _, here, last⟩
  · intro e' ev' event' last
    rw [walks]
    by_cases same : e' = e
    · subst same
      rw [here] at event'
      cases event'
      refine .inl ?_
      rw [timers, if_pos last]
      exact List.mem_append_right _ (List.mem_singleton_self _)
    · rw [other same] at event'
      exact (sound.complete event' last).imp_left (@timers_sub e')
  · rw [walks]
    rcases sound.walks with none_ | ⟨e', i, ev', walks', event', last⟩
    · exact .inl none_
    · have ne : e' ≠ e := by
        intro same
        apply notWalk
        rw [walks', ← same]
        exact List.mem_singleton_self _
      exact .inr ⟨e', i, ev', walks', (other ne).trans event', last⟩

variable [DecidableEq T]

/-- Every step keeps it. -/
theorem Sound.move (sound : sc.Sound s) (move : sc.Move s s') : sc.Sound s' := by
  have popped {w : Work T E} {work : List (Work T E)} (top : s.work = w :: work)
      (other : w.walk = none) : work.filterMap Work.walk = s.walks := by
    rw [State.walks, top, List.filterMap_cons, other]
  cases move with
  | start top eq =>
      have walks := popped top rfl
      subst eq
      exact sound.congr rfl rfl walks fun m p e => Iff.rfl
  | ended top pos behind eq =>
      have walks := popped top rfl
      subst eq
      exact sound.congr rfl rfl walks fun m p e => Iff.rfl
  | forth goes continues passed eq =>
      have walks := popped goes.work rfl
      subst eq
      exact sound.congr rfl rfl walks fun m p e => Iff.rfl
  | aborts goes continues eq =>
      have walks := popped goes.work rfl
      subst eq
      exact sound.congr rfl rfl walks fun m p e => Iff.rfl
  | waits goes continues eq =>
      have walks := popped goes.work rfl
      subst eq
      exact sound.congr rfl rfl walks fun m p e => Iff.rfl
  | delayed goes fresh eq =>
      have walks := popped goes.work rfl
      subst eq
      exact sound.congr rfl rfl walks fun m p e => Iff.rfl
  | arrives goes about fresh event member eq =>
      have walks := popped goes.work rfl
      subst eq
      exact sound.arrives event member rfl rfl walks rfl
  | @prints t work p goes fresh eq =>
      have walks := popped goes.work rfl
      have sound' : sc.Sound { s with work } := sound.congr rfl rfl walks fun m p e => Iff.rfl
      exact sound'.onComplete eq
  | callback top event inside there eq => exact (sound.walk_on top).onComplete eq
  | removed top event outside eq =>
      subst eq
      exact sound.removed top
  | @answered cb idle mem eq =>
      have sound' : sc.Sound { s with requests := s.requests.erase cb } :=
        sound.congr rfl rfl rfl fun m p e => Iff.rfl
      exact sound'.onComplete eq
  | @refused cb idle mem eq =>
      have sound' : sc.Sound { s with requests := s.requests.erase cb } :=
        sound.congr rfl rfl rfl fun m p e => Iff.rfl
      exact sound'.onError eq
  | delayOver idle mem eq =>
      obtain ⟨t, -, rfl⟩ := State.onExpired_eq eq
      exact sound.congr rfl rfl rfl fun m p e => Iff.rfl
  | timer idle mem event eq =>
      subst eq
      exact sound.timer idle mem event

end

theorem sound_initial : sc.Sound sc.initial where
  members := by
    intro e ev event
    obtain ⟨ms, declared, rfl⟩ := Option.map_eq_some_iff.mp event
    exact ⟨ms, declared, by simp⟩
  outstanding _ _ := List.not_mem_nil
  arrived := by
    intro e ev cb event mem
    obtain ⟨ms, -, rfl⟩ := Option.map_eq_some_iff.mp event
    cases mem
  timers_nodup := List.nodup_nil
  timers mem := by cases mem
  complete := by
    intro e ev event last
    obtain ⟨ms, declared, rfl⟩ := Option.map_eq_some_iff.mp event
    exact absurd (last ▸ declared) (sc.members_ne_nil e)
  walks := by
    refine .inl (List.filterMap_eq_nil_iff.mpr fun w mem => ?_)
    obtain ⟨t, -, rfl⟩ := List.mem_map.mp mem
    rfl

/-! ## Statements that are passed -/

theorem Passing.note (passing : sc.Passing s) (n : Note A E) : sc.Passing (s.note n) where
  requests := passing.requests
  delays := passing.delays
  callbacks := passing.callbacks
  stepped there about step := (passing.stepped there about step).mono (List.subset_cons_self _ _)
  passed pos lt there about := (passing.passed pos lt there about).mono (List.subset_cons_self _ _)

theorem Passing.setPos [DecidableEq T] (passing : sc.Passing s) (t : T) (pos : Option ℕ)
    (fine : ∀ p i k e, pos = some p → i < p → sc.stmtAt (sc.action t) i = some k → k.About e →
      sc.AllArrived s e) : sc.Passing (s.setPos t pos) where
  requests := passing.requests
  delays := passing.delays
  callbacks := passing.callbacks
  stepped := passing.stepped
  passed := by
    intro t' p i k e pos' lt there about
    by_cases same : t' = t
    · subst same
      simp only [State.setPos, Function.update_self] at pos'
      exact fine p i k e pos' lt there about
    · simp only [State.setPos, Function.update_of_ne same] at pos'
      exact passing.passed pos' lt there about

section

variable [DecidableEq A]

theorem Passing.setStmt (passing : sc.Passing s) (a : A) (p : ℕ) (stmt : TgStatement)
    (fine : ∀ k e, sc.stmtAt a p = some k → k.About e → stmt.step_ ≠ 0 → sc.AllArrived s e) :
    sc.Passing (s.setStmt a p stmt) where
  requests := passing.requests
  delays := passing.delays
  callbacks := passing.callbacks
  passed := passing.passed
  stepped := by
    intro b q k e there about step
    by_cases same : b = a ∧ q = p
    · obtain ⟨rfl, rfl⟩ := same
      rw [State.setStmt_same] at step
      exact fine k e there about step
    · refine passing.stepped there about fun zero => step ?_
      rw [State.setStmt_of_ne same, zero]

/-- Who completes a statement about an event has to know that all have come. -/
theorem Passing.onComplete (passing : sc.Passing s) {cb : TgStmtCb A}
    (fine : ∀ k e, sc.stmtAt cb.action cb.index = some k → k.About e → sc.AllArrived s e)
    (does : s.onComplete cb = some s') : sc.Passing s' := by
  rcases State.onComplete_cases does with ⟨t, -, rfl⟩ | rfl
  · have passing' := passing.setStmt cb.action cb.index
      { (s.stmts cb.action cb.index).unlock cb.reqid_ with
        step_ := (s.stmts cb.action cb.index).step_ + 1 }
      fun k e there about _ => fine k e there about
    have passing'' := passing'.note (.completed cb.action cb.index)
    exact ⟨passing''.requests, passing''.delays, passing''.callbacks, passing''.stepped,
      passing''.passed⟩
  · exact passing.setStmt _ _ _ fun k e there about _ => fine k e there about

theorem Passing.onError [DecidableEq T] (passing : sc.Passing s) {cb : TgStmtCb A}
    (traffic : ∃ ops, sc.stmtAt cb.action cb.index = some (.traffic ops))
    (does : sc.onError s cb = some s') : sc.Passing s' := by
  obtain ⟨ops, traffic⟩ := traffic
  obtain ⟨t, -, does⟩ := Option.bind_eq_some_iff.mp does
  have passing' := passing.setStmt cb.action cb.index
    { (s.stmts cb.action cb.index).unlock cb.reqid_ with
      errors_ := ((s.stmts cb.action cb.index).unlock cb.reqid_).errors_ + 1 }
    fun k e there about _ => by
      rw [traffic] at there
      cases there
      exact absurd about (Kind.not_about_traffic ops e)
  split at does
  · cases does
    exact passing'
  · split at does
    · cases does
      exact passing'.setPos _ _ fun p i k e pos => by cases pos
    · cases does

theorem Passing.start [DecidableEq T] (passing : sc.Passing s) (t : T) :
    sc.Passing (sc.start s t) where
  requests := passing.requests
  delays := passing.delays
  callbacks := passing.callbacks
  stepped := by
    intro a p k e there about step
    by_cases same : a = sc.action t
    · subst same
      simp only [Scenario.start, Function.update_self] at step
      exact absurd rfl step
    · simp only [Scenario.start, Function.update_of_ne same] at step
      exact passing.stepped there about step
  passed := by
    intro t' p i k e pos lt there about
    by_cases same : t' = t
    · subst same
      simp only [Scenario.start, Function.update_self] at pos
      cases pos
      cases lt
    · simp only [Scenario.start, Function.update_of_ne same] at pos
      exact passing.passed pos lt there about

/-- A statement about an event does not change by itself. -/
theorem Continues.about {k : Kind E} {stmt stmt' : TgStatement}
    (continues : Continues k stmt stmt') {e : E} (about : k.About e) : stmt' = stmt := by
  rcases continues with same | ⟨⟨ops, rfl⟩, -⟩
  · exact same
  · exact absurd about (Kind.not_about_traffic ops e)

variable [DecidableEq T] [DecidableEq E]

/-- Every step keeps it. -/
theorem Passing.move (passing : sc.Passing s) (sound : sc.Sound s) (move : sc.Move s s') :
    sc.Passing s' := by
  have elsewhere {work : List (Work T E)} {n : ℕ} : sc.Passing { s with work, id_seed_ := n } :=
    ⟨passing.requests, passing.delays, passing.callbacks, passing.stepped, passing.passed⟩
  -- the statement that a thread goes on with, after a step of it
  have continued {t : T} {work : List (Work T E)} {p : ℕ} {k : Kind E} {stmt : TgStatement}
      {n : ℕ} (goes : sc.Goes s t work p k)
      (continues : Continues k (s.stmts (sc.action t) p) stmt) :
      sc.Passing ({ s with work, id_seed_ := n }.setStmt (sc.action t) p stmt) := by
    refine elsewhere.setStmt _ _ _ fun k' e there about step => ?_
    rw [goes.stmt] at there
    cases there
    rw [continues.about about] at step
    exact passing.stepped goes.stmt about step
  cases move with
  | @start t work top eq =>
      subst eq
      exact Passing.start (s := { s with work }) elsewhere t
  | ended top pos behind eq =>
      subst eq
      exact elsewhere
  | @forth t work p k stmt n goes continues passed eq =>
      subst eq
      have passing' := (continued (n := n) goes continues).setPos t (some (p + 1))
        fun q i k' e pos lt there about => by
          cases pos
          rcases Nat.lt_succ_iff_lt_or_eq.mp lt with lt | rfl
          · exact passing.passed goes.pos lt there about
          · rw [goes.stmt] at there
            cases there
            rcases passed with ⟨ops, rfl⟩ | step
            · exact absurd about (Kind.not_about_traffic ops e)
            · rw [continues.about about] at step
              exact passing.stepped goes.stmt about step
      exact ⟨passing'.requests, passing'.delays, passing'.callbacks, passing'.stepped,
        passing'.passed⟩
  | @aborts t work p k stmt n goes continues eq =>
      subst eq
      exact (continued (n := n) goes continues).setPos _ _ fun q i k' e pos => by cases pos
  | @waits t work p ops stmt n goes continues eq =>
      subst eq
      apply Passing.setStmt
      · refine ⟨fun cb mem => ?_, passing.delays, passing.callbacks, passing.stepped,
          passing.passed⟩
        rcases List.mem_append.mp mem with mem | mem
        · exact passing.requests cb mem
        · cases List.mem_singleton.mp mem
          exact ⟨ops, goes.stmt⟩
      · intro k' e there about _
        rw [goes.stmt] at there
        cases there
        exact absurd about (Kind.not_about_traffic ops e)
  | @delayed t work p goes fresh eq =>
      subst eq
      refine ⟨passing.requests, fun d mem => ?_, passing.callbacks, passing.stepped,
        passing.passed⟩
      rcases List.mem_append.mp mem with mem | mem
      · exact passing.delays d mem
      · cases List.mem_singleton.mp mem
        exact goes.stmt
  | @arrives t work p k e ev n goes about fresh event member eq =>
      subst eq
      apply Passing.setStmt
      · apply Passing.note
        refine ⟨passing.requests, passing.delays, ?_, passing.stepped, passing.passed⟩
        intro e' ev' event' cb mem
        by_cases same : e' = e
        · subst same
          simp only [Function.update_self] at event'
          cases event'
          rcases List.mem_append.mp mem with mem | mem
          · exact passing.callbacks event cb mem
          · cases List.mem_singleton.mp mem
            exact ⟨k, goes.stmt, about⟩
        · simp only [Function.update_of_ne same] at event'
          exact passing.callbacks event' cb mem
      · intro k' e' there about' step
        exact absurd fresh step
  | @prints t work p goes fresh eq =>
      refine Passing.onComplete (s := { s with work }) elsewhere (fun k e there about => ?_) eq
      rw [goes.stmt] at there
      cases there
      exact absurd about (Kind.not_about_print e)
  | @callback e i i9 work ev cb top event inside there eq =>
      refine Passing.onComplete (s := { s with work := .expired e (i + 1) i9 :: work }) elsewhere
        (fun k e' there' about => ?_) eq
      obtain ⟨k', there'', about'⟩ := passing.callbacks event cb (List.mem_of_getElem? there)
      rw [there'] at there''
      cases there''
      obtain ⟨-, ev', event', last, -⟩ := sound.walk top
      rw [about.unique about']
      exact sound.allArrived event' last
  | @removed e i i9 work ev top event outside eq =>
      subst eq
      refine ⟨passing.requests, passing.delays, ?_, passing.stepped, passing.passed⟩
      intro e' ev' event' cb mem
      by_cases same : e' = e
      · subst same
        simp only [Function.update_self] at event'
        cases event'
      · simp only [Function.update_of_ne same] at event'
        exact passing.callbacks event' cb mem
  | @answered cb idle mem eq =>
      refine Passing.onComplete (s := { s with requests := s.requests.erase cb })
        ⟨fun cb' mem' => passing.requests cb' (List.mem_of_mem_erase mem'), passing.delays,
          passing.callbacks, passing.stepped, passing.passed⟩ (fun k e there about => ?_) eq
      obtain ⟨ops, there'⟩ := passing.requests cb mem
      rw [there] at there'
      cases there'
      exact absurd about (Kind.not_about_traffic ops e)
  | @refused cb idle mem eq =>
      exact Passing.onError (s := { s with requests := s.requests.erase cb })
        ⟨fun cb' mem' => passing.requests cb' (List.mem_of_mem_erase mem'), passing.delays,
          passing.callbacks, passing.stepped, passing.passed⟩ (passing.requests cb mem) eq
  | @delayOver a p idle mem eq =>
      obtain ⟨t, -, rfl⟩ := State.onExpired_eq eq
      have passing' : sc.Passing ({ s with delays := s.delays.erase (a, p) }.setStmt a p
          { s.stmts a p with step_ := (s.stmts a p).step_ + 1 }) := by
        apply Passing.setStmt
        · exact ⟨passing.requests, fun d mem' => passing.delays d (List.mem_of_mem_erase mem'),
            passing.callbacks, passing.stepped, passing.passed⟩
        · intro k e there about _
          rw [passing.delays (a, p) mem] at there
          cases there
          exact absurd about (Kind.not_about_delay e)
      exact ⟨passing'.requests, passing'.delays, passing'.callbacks, passing'.stepped,
        passing'.passed⟩
  | timer idle mem event eq =>
      subst eq
      exact ⟨passing.requests, passing.delays, passing.callbacks, passing.stepped,
        passing.passed⟩

end

theorem passing_initial : sc.Passing sc.initial where
  requests cb mem := by cases mem
  delays d mem := by cases mem
  callbacks := by
    intro e ev event cb mem
    obtain ⟨ms, -, rfl⟩ := Option.map_eq_some_iff.mp event
    cases mem
  stepped there about step := absurd rfl step
  passed pos := by cases pos

end Scenario

end Tahi.Tg
