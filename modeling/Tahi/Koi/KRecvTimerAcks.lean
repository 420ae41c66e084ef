import Tahi.Koi.KRecvTimeoutTimer

/-! # The acks of the receive requests

The list of `kRecvTimerSet` is the list of the requests that are pending until a sweep takes
a node out of it, from which it then reads the next one.
-/

namespace Tahi.Koi

open LinkedList

/-- The ack is the one that is expected. Which address family the data has is not the log's. -/
def RecvAck.Answers (ack expected : RecvAck) : Prop :=
  ∃ family : UInt8,
    ack = { expected with msgdata := expected.msgdata.map ({ · with msg_family := family }) }

namespace Timers

inductive Answers : Reply → Reply → Prop where
  | set (ok : Bool) : Answers (.set ok) (.set ok)
  | arrive (ok : Bool) : Answers (.arrive ok) (.arrive ok)
  | proc {acks expected : List RecvAck} (answers : List.Forall₂ RecvAck.Answers acks expected) :
      Answers (.proc acks) (.proc expected)

structure Represents (t : Timers) (p : Pending) (cells : List (Nat × RecvTimeout)) : Prop where
  linked : Linked t.heap t.g_rt_start_ptr cells
  timers : p.timers = cells.map Prod.snd
  tail : cells ≠ [] → t.g_rt_last_ptr = lastOf none cells
  num : t.g_rt_num = cells.length
  unique : (p.timers.map RecvTimeout.rt_socketid).Nodup
  positive : ∀ timer ∈ p.timers, ¬ timer.rt_socketid < 0
  related : MsgTable.Related t.msgs p.log
  kept : p.log.messages = [] ∨ p.log.Kept

namespace Represents

variable {t : Timers} {p : Pending} {cells before after : List (Nat × RecvTimeout)}
variable {a : Nat} {timer : RecvTimeout}

theorem empty : Represents {} {} [] where
  linked := ⟨rfl, List.nodup_nil⟩
  timers := rfl
  tail some_ := absurd rfl some_
  num := rfl
  unique := List.nodup_nil
  positive := by simp
  related := ⟨[], .empty⟩
  kept := .inl rfl

theorem link (rep : Represents t p cells) {new : RecvTimeout} (positive : ¬ new.rt_socketid < 0)
    (fresh : new.rt_socketid ∉ p.timers.map RecvTimeout.rt_socketid) :
    ∃ t', t.link new = some (t', true) ∧
      Represents t' { p with timers := p.timers ++ [new] } (cells ++ [(t.heap.length, new)]) := by
  obtain ⟨heap, start, appended, linked⟩ := rep.linked.push rep.tail new
  simp only [Timers.link, appended, Option.map_some]
  refine ⟨_, rfl, ?_⟩
  exact {
    linked := linked
    timers := by simp [rep.timers]
    tail := by simp
    num := by simp [rep.num]
    unique := by
      rw [List.map_append, List.nodup_append]
      refine ⟨rep.unique, List.nodup_singleton _, ?_⟩
      intro id mem id' mem' same
      cases List.mem_singleton.mp mem'
      exact fresh (same ▸ mem)
    positive := by
      intro timer mem
      cases List.mem_append.mp mem with
      | inl old => exact rep.positive timer old
      | inr last =>
          cases List.mem_singleton.mp last
          exact positive
    related := rep.related
    kept := rep.kept }

theorem find_new (rep : Represents t p cells) {start : Nat} {socketid : Int16}
    (started : t.g_rt_start_ptr = some start)
    (fresh : socketid ∉ p.timers.map RecvTimeout.rt_socketid) :
    t.heap.find (fun timer => timer.rt_socketid == socketid) start = some none := by
  have linked := rep.linked
  rw [started] at linked
  apply linked.find_none
  intro cell mem
  have here : cell.2 ∈ p.timers := by
    rw [rep.timers]
    exact List.mem_map_of_mem mem
  simp only [beq_eq_false_iff_ne, ne_eq]
  rintro rfl
  exact fresh (List.mem_map_of_mem here)

theorem find_old (rep : Represents t p (before ++ (a, timer) :: after)) {start : Nat}
    (started : t.g_rt_start_ptr = some start) :
    t.heap.find (fun timer' => timer'.rt_socketid == timer.rt_socketid) start =
      some (some (lastOf none before, a, ⟨timer, first after none⟩)) := by
  have linked := rep.linked
  rw [started] at linked
  apply linked.find_some
  · intro cell mem
    have unique := rep.unique
    rw [rep.timers, List.map_append, List.map_append, List.nodup_append] at unique
    simp only [beq_eq_false_iff_ne, ne_eq]
    intro same
    exact unique.2.2 _ (List.mem_map_of_mem (List.mem_map_of_mem mem)) _ (by simp) same
  · simp

theorem started (rep : Represents t p (before ++ (a, timer) :: after)) :
    ∃ start, t.g_rt_start_ptr = some start := by
  rw [rep.linked.start_eq]
  cases before with
  | nil => exact ⟨_, rfl⟩
  | cons cell before => exact ⟨_, rfl⟩

theorem kRecvTimerSet (rep : Represents t p cells) (g_socket_socketid : Int16) (handle : Int32)
    (socketid : Int16) (sec : Int) (request_num : Int16) (set_time : Timeval) :
    ∃ t' ok cells',
      t.kRecvTimerSet g_socket_socketid handle socketid sec request_num set_time = some (t', ok) ∧
      (p.step (.set g_socket_socketid handle socketid sec request_num set_time)).2 = .set ok ∧
      Represents t' (p.step (.set g_socket_socketid handle socketid sec request_num set_time)).1
        cells' := by
  have length : (p.timers.length : Int) = t.g_rt_num := by
    rw [rep.num, rep.timers, List.length_map]
  simp only [Timers.kRecvTimerSet, Pending.step, length]
  by_cases negative : socketid < 0
  · simp only [negative, true_or, if_true]
    exact ⟨t, false, cells, rfl, rfl, rep⟩
  · by_cases full : t.g_rt_num = g_socket_socketid.toInt
    · simp only [negative, full, true_or, or_true, if_true, if_false]
      exact ⟨t, false, cells, rfl, rfl, rep⟩
    · by_cases old : socketid ∈ p.timers.map RecvTimeout.rt_socketid
      · obtain ⟨timer, mem, rfl⟩ := List.mem_map.mp old
        rw [rep.timers] at mem
        obtain ⟨⟨a, timer⟩, here, rfl⟩ := List.mem_map.mp mem
        obtain ⟨before, after, rfl⟩ := List.append_of_mem here
        obtain ⟨start, started⟩ := rep.started
        simp only [negative, full, old, or_true, if_true, if_false, started,
          rep.find_old started]
        exact ⟨t, false, _, rfl, rfl, rep⟩
      · have positive : ¬ (RecvTimeout.build handle socketid sec request_num
            set_time).rt_socketid < 0 := negative
        obtain ⟨t', linked, rep'⟩ := rep.link positive old
        simp only [negative, full, old, or_false, if_false]
        cases started : t.g_rt_start_ptr with
        | none => exact ⟨t', true, _, linked, rfl, rep'⟩
        | some start =>
            simp only [rep.find_new started old]
            exact ⟨t', true, _, linked, rfl, rep'⟩

theorem arrive (rep : Represents t p cells) (table : SocketTable) (socketid : Int16)
    (data : List UInt8) (datatime : Timeval) :
    ∃ t' r, t.step (.arrive table socketid data datatime) = some (t', r) ∧
      r = (p.step (.arrive table socketid data datatime)).2 ∧ (∃ ok, r = .arrive ok) ∧
      Represents t' (p.step (.arrive table socketid data datatime)).1 cells := by
  obtain ⟨msg_cells, rep_msgs⟩ := rep.related
  have fine : p.log.Fine (.regist table socketid MSG_SOCKETMODE_RECV data datatime) :=
    .inr (.inr rep.kept)
  obtain ⟨msgs, ok, msg_cells', registered, reply, rep_msgs'⟩ := rep_msgs.regist fine
  have kept : (p.log.step (.regist table socketid MSG_SOCKETMODE_RECV data datatime)).1.messages
      = [] ∨ (p.log.step (.regist table socketid MSG_SOCKETMODE_RECV data datatime)).1.Kept := by
    simp only [Log.step]
    split
    · exact rep.kept
    · split
      · exact rep.kept
      · apply Or.inr
        exact ⟨_, List.mem_append_right _ (List.mem_singleton_self _), rfl⟩
  simp only [Timers.step, registered, Option.map_some, Pending.step]
  generalize p.log.step (.regist table socketid MSG_SOCKETMODE_RECV data datatime) = stepped at *
  obtain ⟨log, answer⟩ := stepped
  cases reply
  exact ⟨_, _, rfl, rfl, ⟨ok, rfl⟩, { rep with related := ⟨msg_cells', rep_msgs'⟩, kept := kept }⟩

end Represents

/-! ## The sweep -/

/-- A timer that a sweep lets stand. -/
def Quiet (table : SocketTable) (current_time : Timeval) (log : Log) (timer : RecvTimeout) : Prop :=
  (log.step (.getBySocketid table timer.rt_socketid)).2 = .noData ∧
    timer.expired current_time = false

/-- A read that finds nothing leaves the log as it is. -/
theorem step_noData {log : Log} {table : SocketTable} {socketid : Int16}
    (none_ : (log.step (.getBySocketid table socketid)).2 = .noData) :
    (log.step (.getBySocketid table socketid)).1 = log := by
  revert none_
  simp only [Log.step]
  split
  · exact fun _ => rfl
  · split
    · exact fun _ => rfl
    · split
      · exact fun _ => rfl
      · intro found
        cases found

section Sweep

variable {table : SocketTable} {current_time : Timeval} {t : Timers} {log : Log}
variable {cells done : List (Nat × RecvTimeout)} {current : Option Nat} {a : Nat}
variable {timer : RecvTimeout} {fuel : Nat}

theorem proc_quiet (related : MsgTable.Related t.msgs log)
    (quiet : Quiet table current_time log timer) :
    ∃ msgs, t.proc table current_time timer = some ({ t with msgs := msgs }, []) ∧
      MsgTable.Related msgs log := by
  obtain ⟨msg_cells, rep⟩ := related
  obtain ⟨msgs, reply, msg_cells', got, answers, rep'⟩ :=
    rep.getBySocketid table timer.rt_socketid
  obtain ⟨none_, waiting⟩ := quiet
  rw [step_noData none_] at rep'
  rw [none_] at answers
  cases answers
  refine ⟨msgs, ?_, msg_cells', rep'⟩
  simp only [proc, got, waiting, Bool.false_eq_true, if_false]

theorem procFrom_quiet (seg : Seg t.heap current cells none) (enough : cells.length ≤ fuel)
    (related : MsgTable.Related t.msgs log)
    (quiet : ∀ cell ∈ cells, Quiet table current_time log cell.2) :
    ∃ msgs, procFrom table current_time fuel current t = some ({ t with msgs := msgs }, []) ∧
      MsgTable.Related msgs log := by
  induction cells generalizing current t fuel with
  | nil =>
      cases seg
      exact ⟨t.msgs, by cases fuel <;> rfl, related⟩
  | cons cell cells ih =>
      obtain ⟨rfl, next, found, rest⟩ := seg
      cases fuel with
      | zero => simp at enough
      | succ fuel =>
          obtain ⟨msgs, passed, related'⟩ := proc_quiet related (quiet cell (List.mem_cons_self ..))
          have quiet' : ∀ cell ∈ cells, Quiet table current_time log cell.2 :=
            fun cell mem => quiet cell (List.mem_cons_of_mem _ mem)
          obtain ⟨msgs', swept, related''⟩ :=
            @ih { t with msgs := msgs } next fuel rest (Nat.le_of_succ_le_succ enough) related' quiet'
          refine ⟨msgs', ?_, related''⟩
          simp only [procFrom, found, passed, swept, Option.map_some, List.append_nil]

/-- What is taken out of the list is freed. -/
theorem kRecvTimerRemove_freed {start : Option Nat} (started : t.g_rt_start_ptr = start)
    (linked : Linked t.heap start (done ++ (a, timer) :: cells))
    (unique : ∀ cell ∈ done, cell.2.rt_socketid ≠ timer.rt_socketid)
    (positive : ¬ timer.rt_socketid < 0) {t' : Timers}
    (removed : t.kRecvTimerRemove timer.rt_socketid = some t') : Freed t'.heap a := by
  obtain ⟨h₁, start', h', unlinked, freed, -, gone, -⟩ := linked.remove
  have started' : ∃ first, start = some first := by
    rw [linked.start_eq]
    cases done with
    | nil => exact ⟨_, rfl⟩
    | cons cell done => exact ⟨_, rfl⟩
  obtain ⟨first, rfl⟩ := started'
  have found := linked.find_some (p := fun timer' => timer'.rt_socketid == timer.rt_socketid)
    (fun cell mem => by simpa using unique cell mem) (by simp)
  simp only [kRecvTimerRemove, positive, if_false, started, found, unlinked, freed,
    Option.map_some, Option.some.injEq] at removed
  subst removed
  exact gone

/-- A timer that is not let stand is taken out of the list. -/
theorem proc_due (related : MsgTable.Related t.msgs log)
    (due : ¬ Quiet table current_time log timer) {t' : Timers} {acks : List RecvAck}
    (passed : t.proc table current_time timer = some (t', acks)) :
    ∃ msgs, kRecvTimerRemove { t with msgs := msgs } timer.rt_socketid = some t' := by
  obtain ⟨msg_cells, rep⟩ := related
  obtain ⟨msgs, reply, msg_cells', got, answers, rep'⟩ :=
    rep.getBySocketid table timer.rt_socketid
  refine ⟨msgs, ?_⟩
  have removes {acks' : List RecvAck}
      (removed : (kRecvTimerRemove { t with msgs := msgs } timer.rt_socketid).map (·, acks') =
        some (t', acks)) :
      kRecvTimerRemove { t with msgs := msgs } timer.rt_socketid = some t' := by
    obtain ⟨t'', taken, same⟩ := Option.map_eq_some_iff.mp removed
    cases same
    exact taken
  simp only [proc, got] at passed
  cases reply with
  | noData =>
      have none_ : (log.step (.getBySocketid table timer.rt_socketid)).2 = .noData := by
        generalize (log.step (.getBySocketid table timer.rt_socketid)).2 = reply at answers
        cases answers
        rfl
      by_cases expired : timer.expired current_time
      · rw [if_pos expired] at passed
        exact removes passed
      · exact absurd ⟨none_, by simpa using expired⟩ due
  | delivered msg => exact removes passed
  | regist | clear | found | ng => exact removes passed

/-- A sweep that takes out a timer goes on at a node that has been freed. -/
theorem procFrom_due {start : Option Nat} (started : t.g_rt_start_ptr = start)
    (linked : Linked t.heap start (done ++ cells)) (seg : Seg t.heap current cells none)
    (unique : ((done ++ cells).map fun cell => cell.2.rt_socketid).Nodup)
    (positive : ∀ cell ∈ cells, ¬ cell.2.rt_socketid < 0) (related : MsgTable.Related t.msgs log)
    (due : ∃ cell ∈ cells, ¬ Quiet table current_time log cell.2) :
    procFrom table current_time fuel current t = none := by
  induction cells generalizing current t fuel done with
  | nil => simp at due
  | cons cell cells ih =>
      obtain ⟨rfl, next, found, rest⟩ := seg
      cases fuel with
      | zero => rfl
      | succ fuel =>
          simp only [procFrom, found]
          by_cases quiet : Quiet table current_time log cell.2
          · obtain ⟨msgs, passed, related'⟩ := proc_quiet related quiet
            have behind : ∃ cell ∈ cells, ¬ Quiet table current_time log cell.2 := by
              obtain ⟨cell', mem, due⟩ := due
              cases List.mem_cons.mp mem with
              | inl same => exact absurd (same ▸ quiet) due
              | inr mem => exact ⟨cell', mem, due⟩
            have stuck := @ih { t with msgs := msgs } (done ++ [cell]) next fuel started
              (by simpa using linked) rest (by simpa using unique)
              (fun cell mem => positive cell (List.mem_cons_of_mem _ mem)) related' behind
            simp only [passed, found, stuck, Option.map_none]
          · cases passed : t.proc table current_time cell.2 with
            | none => rfl
            | some passed_ =>
                obtain ⟨t', acks⟩ := passed_
                obtain ⟨msgs, removed⟩ := proc_due related quiet passed
                have apart : ∀ cell' ∈ done, cell'.2.rt_socketid ≠ cell.2.rt_socketid := by
                  intro cell' mem
                  rw [List.map_append, List.nodup_append] at unique
                  exact unique.2.2 _ (List.mem_map_of_mem mem) _ (by simp)
                have freed := kRecvTimerRemove_freed (t := { t with msgs := msgs }) started linked
                  apart (positive cell (List.mem_cons_self ..)) removed
                simp only [freed.read]

end Sweep

/-! ## Every run -/

theorem sweep_quiet {table : SocketTable} {current_time : Timeval} {timers : List RecvTimeout}
    {log : Log} (quiet : ∀ timer ∈ timers, Quiet table current_time log timer) :
    Pending.sweep table current_time timers log = (timers, log, []) := by
  induction timers with
  | nil => rfl
  | cons timer timers ih =>
      obtain ⟨none_, waiting⟩ := quiet timer (List.mem_cons_self ..)
      have same := step_noData none_
      have ih := ih fun timer mem => quiet timer (List.mem_cons_of_mem _ mem)
      rw [Pending.sweep]
      generalize log.step (.getBySocketid table timer.rt_socketid) = stepped at none_ same
      obtain ⟨log', reply⟩ := stepped
      cases none_
      cases same
      simp only [ih, waiting, Bool.false_eq_true, if_false]

def Related (t : Timers) (p : Pending) : Prop := ∃ cells, Represents t p cells

theorem Represents.quiet_cells {t : Timers} {p : Pending} {cells : List (Nat × RecvTimeout)}
    (rep : Represents t p cells) (P : RecvTimeout → Prop) :
    (∀ timer ∈ p.timers, P timer) ↔ ∀ cell ∈ cells, P cell.2 := by
  rw [rep.timers, List.forall_mem_map]

theorem Represents.num_zero {t : Timers} {p : Pending} {cells : List (Nat × RecvTimeout)}
    (rep : Represents t p cells) : t.g_rt_num = 0 ↔ cells = [] := by
  rw [rep.num]
  exact Int.natCast_eq_zero.trans List.length_eq_zero_iff

theorem simulates : Refinement.Simulates step Pending.step
    (fun p op => True ∧ Pending.NoneDue p op) Answers Related := by
  rintro t p op ⟨cells, rep⟩ ⟨-, quiet⟩
  cases op with
  | set g_socket_socketid handle socketid sec request_num set_time =>
      obtain ⟨t', ok, cells', set, reply, rep'⟩ :=
        rep.kRecvTimerSet g_socket_socketid handle socketid sec request_num set_time
      refine ⟨t', .set ok, ?_, reply ▸ .set ok, cells', rep'⟩
      simp only [step, set, Option.map_some]
  | arrive table socketid data datatime =>
      obtain ⟨t', r, arrived, reply, ⟨ok, rfl⟩, rep'⟩ := rep.arrive table socketid data datatime
      exact ⟨t', .arrive ok, arrived, reply ▸ .arrive ok, cells, rep'⟩
  | proc table current_time =>
      have swept : p.step (.proc table current_time) = (p, .proc []) := by
        simp only [Pending.step, sweep_quiet quiet]
      rw [swept]
      by_cases empty : t.g_rt_num = 0
      · refine ⟨t, .proc [], ?_, .proc .nil, cells, rep⟩
        simp only [step, kRecvTimerProc, empty, if_true, Option.map_some]
      · obtain ⟨msgs, passed, related⟩ := procFrom_quiet rep.linked.seg rep.linked.length_le
          rep.related ((rep.quiet_cells _).mp quiet)
        refine ⟨{ t with msgs := msgs }, .proc [], ?_, .proc .nil, cells, ?_⟩
        · simp only [step, kRecvTimerProc, empty, if_false, passed, Option.map_some]
        · exact { rep with related := related }

theorem stops (t : Timers) (p : Pending) (op : Op) (related : Related t p) (_ : True)
    (due : ¬ Pending.NoneDue p op) : step t op = none := by
  obtain ⟨cells, rep⟩ := related
  cases op with
  | set => exact absurd trivial due
  | arrive => exact absurd trivial due
  | proc table current_time =>
      have due : ∃ cell ∈ cells, ¬ Quiet table current_time p.log cell.2 := by
        by_contra none_
        apply due
        apply (rep.quiet_cells (Quiet table current_time p.log)).mpr
        intro cell mem
        by_contra here
        exact none_ ⟨cell, mem, here⟩
      have some_ : t.g_rt_num ≠ 0 := by
        rw [ne_eq, rep.num_zero]
        rintro rfl
        simp at due
      have unique := rep.unique
      rw [rep.timers, List.map_map] at unique
      have stuck := @procFrom_due table current_time t p.log cells [] t.g_rt_start_ptr
        t.heap.length _ rfl rep.linked rep.linked.seg unique ((rep.quiet_cells _).mp rep.positive)
        rep.related due
      simp only [step, kRecvTimerProc, some_, if_false, stuck, Option.map_none]

/-- Each request that is accepted is answered once, in the first sweep that finds data for it,
    else in the first one after its time, and no sweep uses a node that has been freed. -/
def AnswersOnce (ops : List Op) : Prop :=
  ∃ t rs, Refinement.run step {} ops = some (t, rs) ∧
    List.Forall₂ Answers rs (Refinement.specRun Pending.step .nothing ops).2

/-- The requests are answered as they should as long as there is none to be answered: the first
    sweep that takes a timer out goes on from the node that it has freed. -/
theorem answersOnce_iff (ops : List Op) :
    AnswersOnce ops ↔ Refinement.Allowed Pending.step Pending.NoneDue {} ops := by
  have related : Related {} {} := ⟨[], .empty⟩
  constructor
  · rintro ⟨t, rs, ran, -⟩
    apply simulates.allowed_of_run stops related (Refinement.allowed_of_forall (fun _ _ => trivial) _ _)
    rw [ran]
    exact Option.some_ne_none _
  · intro quiet
    have allowed := Refinement.Allowed.and
      (Refinement.allowed_of_forall (fun (_ : Pending) (_ : Op) => trivial) {} ops) quiet
    obtain ⟨t, rs, ran, answers, -⟩ := simulates.run related allowed
    exact ⟨t, rs, ran, answers⟩

/-- One request, and a sweep when its time has come. -/
theorem not_answersOnce :
    let table : SocketTable := ⟨[⟨1, .SI_STATUS_ALIVE, .udp {}⟩], by decide⟩
    ¬ AnswersOnce [.set 1 4 1 2 7 ⟨10, 0⟩, .proc table ⟨12, 0⟩] := by
  rintro table ⟨t, rs, ran, -⟩
  cases ran

end Timers

end Tahi.Koi
