import Mathlib.Data.Finset.Card
import Mathlib.Data.Fintype.Basic
import Tahi.Koi.KData

/-! # The timers that close sockets

A socket is closed when the time of its timer is over. The timers are in a table of fixed size, with
a count of those that are set. `kCloseTimerProc` goes through the table, and takes a timer out of it
by the id of its socket.
-/

namespace Tahi.Koi

structure SocketCloseTable where
  sct_socketid : Int16
  sct_expire : Timeval
deriving DecidableEq, Repr

def T_SCT_MAXNUM : ℕ := 16
def T_SCT_INIT : Int16 := -1

/-- The variables of the table. -/
structure CloseTimers where
  g_t_socket_close_table : Fin T_SCT_MAXNUM → SocketCloseTable
  g_t_current_socket_close_table_num : Int

/-- The time has come. -/
def SocketCloseTable.expired (slot : SocketCloseTable) (current_time : Timeval) : Bool :=
  if slot.sct_expire.tv_sec > current_time.tv_sec then false
  else if slot.sct_expire.tv_sec = current_time.tv_sec ∧
      slot.sct_expire.tv_usec > current_time.tv_usec then false
  else true

/-- The time of a timer is that of the call, and `sec` seconds. -/
def Timeval.expiry (sec : Int32) (set_time : Timeval) : Timeval :=
  { set_time with tv_sec := set_time.tv_sec + sec.toInt }

namespace Timeval

/-- The time comes before the other one, or is the same. -/
def NotAfter (time other : Timeval) : Prop :=
  time.tv_sec < other.tv_sec ∨ time.tv_sec = other.tv_sec ∧ time.tv_usec ≤ other.tv_usec

instance decidableNotAfter (time other : Timeval) : Decidable (time.NotAfter other) :=
  inferInstanceAs (Decidable (_ ∨ _))

end Timeval

namespace CloseTimers

/-- What was in the table before does not matter. -/
def kCloseTimerInit : CloseTimers where
  g_t_socket_close_table := fun _ => ⟨T_SCT_INIT, ⟨0, 0⟩⟩
  g_t_current_socket_close_table_num := 0

/-- The loop of `kCloseTimerSet`. It is `none` when the socket has a timer, else the first place that
    is free. -/
def searchFrom (t : CloseTimers) (socketid : Int16) :
    List (Fin T_SCT_MAXNUM) → Option (Fin T_SCT_MAXNUM) → Option (Option (Fin T_SCT_MAXNUM))
  | [], vacant_point => some vacant_point
  | loop :: loops, vacant_point =>
      if (t.g_t_socket_close_table loop).sct_socketid = socketid then none
      else
        t.searchFrom socketid loops
          (match vacant_point with
          | some vacant_point => some vacant_point
          | none =>
              if (t.g_t_socket_close_table loop).sct_socketid = T_SCT_INIT then some loop else none)

def put (t : CloseTimers) (loop : Fin T_SCT_MAXNUM) (slot : SocketCloseTable) : CloseTimers :=
  { t with g_t_socket_close_table := Function.update t.g_t_socket_close_table loop slot }

def kCloseTimerSet (t : CloseTimers) (socketid : Int16) (sec : Int32) (set_time : Timeval) :
    CloseTimers × Bool :=
  if socketid < 0 then (t, false)
  else if t.g_t_current_socket_close_table_num = T_SCT_MAXNUM then (t, false)
  else
    match t.searchFrom socketid (List.finRange T_SCT_MAXNUM) none with
    | some (some vacant_point) =>
        ({ t.put vacant_point ⟨socketid, .expiry sec set_time⟩ with
            g_t_current_socket_close_table_num := t.g_t_current_socket_close_table_num + 1 }, true)
    | _ => (t, false)

/-- The place is free again. -/
def clear (t : CloseTimers) (loop : Fin T_SCT_MAXNUM) : CloseTimers :=
  { t.put loop { t.g_t_socket_close_table loop with sct_socketid := T_SCT_INIT } with
    g_t_current_socket_close_table_num := t.g_t_current_socket_close_table_num - 1 }

def kCloseTimerRemove (t : CloseTimers) (socketid : Int16) : CloseTimers × Bool :=
  if socketid < 0 then (t, false)
  else if t.g_t_current_socket_close_table_num = 0 then (t, false)
  else
    match (List.finRange T_SCT_MAXNUM).find?
        fun loop => (t.g_t_socket_close_table loop).sct_socketid = socketid with
    | none => (t, false)
    | some loop => (t.clear loop, true)

/-- The loop of `kCloseTimerProc`, with the ids that `kSocketClose` is called for. What it returns
    is only written to the log. -/
def procFrom (current_time : Timeval) :
    List (Fin T_SCT_MAXNUM) → CloseTimers → CloseTimers × List Int16
  | [], t => (t, [])
  | loop :: loops, t =>
      let slot := t.g_t_socket_close_table loop
      if slot.sct_socketid = T_SCT_INIT then procFrom current_time loops t
      else if slot.expired current_time then
        let (t, closed) := procFrom current_time loops (t.kCloseTimerRemove slot.sct_socketid).1
        (t, slot.sct_socketid :: closed)
      else procFrom current_time loops t

def kCloseTimerProc (t : CloseTimers) (current_time : Timeval) : CloseTimers × List Int16 :=
  procFrom current_time (List.finRange T_SCT_MAXNUM) t

inductive Call where
  | kCloseTimerInit
  | kCloseTimerSet (socketid : Int16) (sec : Int32) (set_time : Timeval)
  | kCloseTimerProc (current_time : Timeval)
deriving DecidableEq, Repr

/-- The timers after a call, and the sockets that it closes. -/
def step (t : CloseTimers) : Call → CloseTimers × List Int16
  | .kCloseTimerInit => (kCloseTimerInit, [])
  | .kCloseTimerSet socketid sec set_time => ((t.kCloseTimerSet socketid sec set_time).1, [])
  | .kCloseTimerProc current_time => t.kCloseTimerProc current_time

def run (t : CloseTimers) : List Call → CloseTimers
  | [] => t
  | call :: calls => run (t.step call).1 calls

def closes (t : CloseTimers) : List Call → List Int16
  | [] => []
  | call :: calls => (t.step call).2 ++ closes (t.step call).1 calls

/-- `koid` calls it before it waits for anything. -/
def start : CloseTimers := kCloseTimerInit

/-! ## What is expected of the timers -/

def occupied (t : CloseTimers) (loop : Fin T_SCT_MAXNUM) : Prop :=
  (t.g_t_socket_close_table loop).sct_socketid ≠ T_SCT_INIT

instance decidableOccupied (t : CloseTimers) (loop : Fin T_SCT_MAXNUM) :
    Decidable (t.occupied loop) :=
  inferInstanceAs (Decidable (_ ≠ _))

/-- No socket has two timers. -/
def Distinct (t : CloseTimers) : Prop :=
  ∀ loop loop', t.occupied loop → (t.g_t_socket_close_table loop).sct_socketid =
    (t.g_t_socket_close_table loop').sct_socketid → loop = loop'

/-- The count is that of the timers that are set. -/
def Counts (t : CloseTimers) : Prop :=
  t.g_t_current_socket_close_table_num = (Finset.univ.filter t.occupied).card

/-- No timer is set for the socket. -/
def Unset (t : CloseTimers) (socketid : Int16) (calls : List Call) : Prop :=
  ∀ before sec set_time after, calls = before ++ .kCloseTimerSet socketid sec set_time :: after →
    ((t.run before).kCloseTimerSet socketid sec set_time).2 = false

/-- The socket is closed once: in the first sweep at the time or after it, as long as all calls before
    spare the timers. -/
def ClosesOnce (t : CloseTimers) (spares : Call → Prop) (socketid : Int16) (expire : Timeval)
    (calls : List Call) : Prop :=
  ∀ before current_time after, calls = before ++ .kCloseTimerProc current_time :: after →
    (∀ call ∈ before, spares call) →
    (∀ earlier, .kCloseTimerProc earlier ∈ before → ¬ expire.NotAfter earlier) →
    expire.NotAfter current_time →
      socketid ∉ t.closes before ∧
      ((t.run before).kCloseTimerProc current_time).2.count socketid = 1 ∧
      ∀ quiet, quiet <+: after → ((t.run before).kCloseTimerProc current_time).1.Unset socketid quiet →
        socketid ∉ ((t.run before).kCloseTimerProc current_time).1.closes quiet

structure Keeps (spares : Call → Prop) (calls : List Call) : Prop where
  distinct : (start.run calls).Distinct
  counts : (start.run calls).Counts
  /-- A timer that is refused changes nothing. -/
  refused : ∀ before socketid sec set_time after,
    calls = before ++ .kCloseTimerSet socketid sec set_time :: after →
    ((start.run before).kCloseTimerSet socketid sec set_time).2 = false →
      ((start.run before).kCloseTimerSet socketid sec set_time).1 = start.run before
  accepted : ∀ before socketid sec set_time after,
    calls = before ++ .kCloseTimerSet socketid sec set_time :: after →
    ((start.run before).kCloseTimerSet socketid sec set_time).2 = true →
      ((start.run before).kCloseTimerSet socketid sec set_time).1.ClosesOnce spares socketid
        (.expiry sec set_time) after

/-! ## The table -/

theorem expired_iff {slot : SocketCloseTable} {current_time : Timeval} :
    slot.expired current_time = true ↔ slot.sct_expire.NotAfter current_time := by
  unfold SocketCloseTable.expired Timeval.NotAfter
  split
  · simp
    omega
  · split
    · simp
      omega
    · simp
      omega

section Put

variable (t : CloseTimers) (slot : SocketCloseTable) {loop loop' : Fin T_SCT_MAXNUM}

@[simp] theorem put_self : (t.put loop slot).g_t_socket_close_table loop = slot :=
  Function.update_self ..

@[simp] theorem put_of_ne (other : loop' ≠ loop) :
    (t.put loop slot).g_t_socket_close_table loop' = t.g_t_socket_close_table loop' :=
  Function.update_of_ne other ..

theorem occupied_put_of_ne (other : loop' ≠ loop) :
    (t.put loop slot).occupied loop' ↔ t.occupied loop' := by
  rw [occupied, put_of_ne _ _ other, occupied]

end Put

/-- The ids in the table are all valid, and `T_SCT_INIT` is none. -/
structure Inv (t : CloseTimers) : Prop where
  distinct : t.Distinct
  counts : t.Counts
  valid : ∀ loop, t.occupied loop → 0 ≤ (t.g_t_socket_close_table loop).sct_socketid

section Table

variable {t : CloseTimers} {loop : Fin T_SCT_MAXNUM} {socketid : Int16} {expire : Timeval}

theorem init_inv : kCloseTimerInit.Inv where
  distinct := fun _ _ occupied => absurd rfl occupied
  counts := by
    have none_ : Finset.univ.filter kCloseTimerInit.occupied = ∅ :=
      Finset.filter_eq_empty_iff.mpr fun _ _ occupied => occupied rfl
    rw [Counts, none_]
    rfl
  valid := fun _ occupied => absurd rfl occupied

theorem Inv.put (inv : t.Inv) (vacant : ¬ t.occupied loop) (valid : 0 ≤ socketid)
    (fresh : ∀ loop, (t.g_t_socket_close_table loop).sct_socketid ≠ socketid) :
    { t.put loop ⟨socketid, expire⟩ with
      g_t_current_socket_close_table_num := t.g_t_current_socket_close_table_num + 1 }.Inv := by
  have some_ : socketid ≠ T_SCT_INIT := by
    rintro rfl
    exact absurd valid (by decide)
  refine ⟨?_, ?_, ?_⟩
  · intro p q occupied same
    by_cases first : p = loop
    · by_cases second : q = loop
      · rw [first, second]
      · subst first
        simp only [put_self, put_of_ne _ _ second] at same
        exact absurd same.symm (fresh q)
    · by_cases second : q = loop
      · subst second
        simp only [put_self, put_of_ne _ _ first] at same
        exact absurd same (fresh p)
      · simp only [put_of_ne _ _ first, put_of_ne _ _ second] at same
        exact inv.distinct p q ((occupied_put_of_ne t _ first).mp occupied) same
  · have added : Finset.univ.filter (t.put loop ⟨socketid, expire⟩).occupied =
        insert loop (Finset.univ.filter t.occupied) := by
      ext p
      by_cases here : p = loop
      · simp [here, occupied, some_]
      · simp [here, occupied_put_of_ne]
    change t.g_t_current_socket_close_table_num + 1 =
      (Finset.univ.filter (t.put loop ⟨socketid, expire⟩).occupied).card
    rw [added, Finset.card_insert_of_notMem (by simpa using vacant), inv.counts]
    rfl
  · intro p occupied
    by_cases here : p = loop
    · subst here
      simpa using valid
    · simp only [put_of_ne _ _ here]
      exact inv.valid p ((occupied_put_of_ne t _ here).mp occupied)

theorem Inv.clear (inv : t.Inv) (here : t.occupied loop) : (t.clear loop).Inv := by
  have gone : ¬ (t.clear loop).occupied loop := by simp [CloseTimers.clear, occupied]
  have others : ∀ p, (t.clear loop).occupied p → p ≠ loop := by
    rintro p occupied rfl
    exact gone occupied
  have same : ∀ p, p ≠ loop →
      (t.clear loop).g_t_socket_close_table p = t.g_t_socket_close_table p :=
    fun p other => put_of_ne _ _ other
  have stays : ∀ p, p ≠ loop → ((t.clear loop).occupied p ↔ t.occupied p) :=
    fun p other => occupied_put_of_ne _ _ other
  refine ⟨?_, ?_, ?_⟩
  · intro p q occupied equal
    have first := others p occupied
    have second : q ≠ loop := by
      refine others q ?_
      rw [CloseTimers.occupied, ← equal]
      exact occupied
    rw [same p first, same q second] at equal
    exact inv.distinct p q ((stays p first).mp occupied) equal
  · have removed : Finset.univ.filter (t.clear loop).occupied =
        (Finset.univ.filter t.occupied).erase loop := by
      ext p
      by_cases first : p = loop
      · simp [first, gone]
      · simp [first, stays]
    have some_ : loop ∈ Finset.univ.filter t.occupied := by simpa using here
    have counted := Finset.card_erase_add_one some_
    rw [Counts, removed]
    change t.g_t_current_socket_close_table_num - 1 = _
    rw [inv.counts]
    omega
  · intro p occupied
    have other := others p occupied
    rw [same p other]
    exact inv.valid p ((stays p other).mp occupied)

/-- It is the timer of the sweep that is removed. -/
theorem Inv.kCloseTimerRemove (inv : t.Inv) (here : t.occupied loop) :
    t.kCloseTimerRemove (t.g_t_socket_close_table loop).sct_socketid = (t.clear loop, true) := by
  have valid : ¬ (t.g_t_socket_close_table loop).sct_socketid < 0 :=
    Int16.not_lt.mpr (inv.valid loop here)
  have some_ : t.g_t_current_socket_close_table_num ≠ 0 := by
    have positive : 0 < (Finset.univ.filter t.occupied).card :=
      Finset.card_pos.mpr ⟨loop, by simpa using here⟩
    rw [inv.counts]
    omega
  rw [CloseTimers.kCloseTimerRemove, if_neg valid, if_neg some_]
  cases found : (List.finRange T_SCT_MAXNUM).find? fun p =>
      (t.g_t_socket_close_table p).sct_socketid = (t.g_t_socket_close_table loop).sct_socketid with
  | none =>
      have missing := List.find?_eq_none.mp found loop (List.mem_finRange loop)
      simp at missing
  | some p =>
      have same : (t.g_t_socket_close_table p).sct_socketid =
          (t.g_t_socket_close_table loop).sct_socketid := by simpa using List.find?_some found
      rw [inv.distinct loop p here same.symm]

end Table

/-! ## A timer that is set -/

section Search

variable {t : CloseTimers} {socketid : Int16}

theorem searchFrom_some {loops : List (Fin T_SCT_MAXNUM)}
    {vacant_point found : Option (Fin T_SCT_MAXNUM)}
    (searched : t.searchFrom socketid loops vacant_point = some found) :
    (∀ loop ∈ loops, (t.g_t_socket_close_table loop).sct_socketid ≠ socketid) ∧
      ∀ loop, found = some loop → vacant_point = some loop ∨ ¬ t.occupied loop := by
  induction loops generalizing vacant_point with
  | nil =>
      cases searched
      exact ⟨by simp, fun loop here => .inl here⟩
  | cons p loops ih =>
      unfold searchFrom at searched
      by_cases registered : (t.g_t_socket_close_table p).sct_socketid = socketid
      · rw [if_pos registered] at searched
        cases searched
      · rw [if_neg registered] at searched
        cases vacant_point with
        | some vacant_point =>
            obtain ⟨fresh, free⟩ := ih searched
            exact ⟨List.forall_mem_cons.mpr ⟨registered, fresh⟩, free⟩
        | none =>
            obtain ⟨fresh, free⟩ := ih searched
            refine ⟨List.forall_mem_cons.mpr ⟨registered, fresh⟩, fun loop here => ?_⟩
            cases free loop here with
            | inl first =>
                obtain ⟨vacant, this⟩ := Option.ite_none_right_eq_some.mp first
                cases this
                exact .inr fun occupied => occupied vacant
            | inr free => exact .inr free

/-- A timer that is accepted takes a place that was free. -/
theorem kCloseTimerSet_accepted {sec : Int32} {set_time : Timeval}
    (accepted : (t.kCloseTimerSet socketid sec set_time).2 = true) :
    0 ≤ socketid ∧ (∀ loop, (t.g_t_socket_close_table loop).sct_socketid ≠ socketid) ∧
      ∃ loop, ¬ t.occupied loop ∧ (t.kCloseTimerSet socketid sec set_time).1 =
        { t.put loop ⟨socketid, .expiry sec set_time⟩ with
          g_t_current_socket_close_table_num := t.g_t_current_socket_close_table_num + 1 } := by
  unfold kCloseTimerSet at accepted ⊢
  split at accepted
  · cases accepted
  next valid =>
    rw [if_neg valid]
    split at accepted
    · cases accepted
    next place =>
      rw [if_neg place]
      split at accepted
      next loop searched =>
        obtain ⟨fresh, free⟩ := searchFrom_some searched
        refine ⟨Int16.not_lt.mp valid, fun p => fresh p (List.mem_finRange p), loop, ?_, rfl⟩
        cases free loop rfl with
        | inl first => cases first
        | inr free => exact free
      · cases accepted

theorem kCloseTimerSet_refused {sec : Int32} {set_time : Timeval}
    (refused : (t.kCloseTimerSet socketid sec set_time).2 = false) :
    (t.kCloseTimerSet socketid sec set_time).1 = t := by
  unfold kCloseTimerSet at refused ⊢
  split at refused
  next invalid => rw [if_pos invalid]
  next valid =>
    rw [if_neg valid]
    split at refused
    next full => rw [if_pos full]
    next place =>
      rw [if_neg place]
      split at refused
      · cases refused
      · rfl

end Search

/-! ## A sweep -/

/-- The timer that is there is over. -/
def due (t : CloseTimers) (current_time : Timeval) (loop : Fin T_SCT_MAXNUM) : Prop :=
  t.occupied loop ∧ (t.g_t_socket_close_table loop).sct_expire.NotAfter current_time

instance decidableDue (t : CloseTimers) (current_time : Timeval) (loop : Fin T_SCT_MAXNUM) :
    Decidable (t.due current_time loop) :=
  inferInstanceAs (Decidable (_ ∧ _))

/-- What the table is after the sweep. -/
def swept (t : CloseTimers) (current_time : Timeval) (loops : List (Fin T_SCT_MAXNUM))
    (loop : Fin T_SCT_MAXNUM) : SocketCloseTable :=
  if loop ∈ loops ∧ t.due current_time loop then
    { t.g_t_socket_close_table loop with sct_socketid := T_SCT_INIT }
  else t.g_t_socket_close_table loop

theorem due_clear_of_ne (t : CloseTimers) (current_time : Timeval) {loop p : Fin T_SCT_MAXNUM}
    (other : p ≠ loop) : (t.clear loop).due current_time p ↔ t.due current_time p := by
  have same : (t.clear loop).g_t_socket_close_table p = t.g_t_socket_close_table p :=
    put_of_ne _ _ other
  rw [due, due, occupied, occupied, same]

/-! One turn of the loop, at a timer that is over and at any other place. -/

section Turn

variable {t : CloseTimers} {current_time : Timeval} {loop : Fin T_SCT_MAXNUM}
  {loops : List (Fin T_SCT_MAXNUM)}

theorem procFrom_due (inv : t.Inv) (here : t.due current_time loop) :
    procFrom current_time (loop :: loops) t =
      ((procFrom current_time loops (t.clear loop)).1,
        (t.g_t_socket_close_table loop).sct_socketid ::
          (procFrom current_time loops (t.clear loop)).2) := by
  simp only [procFrom, if_neg here.1, expired_iff.mpr here.2, if_true,
    inv.kCloseTimerRemove here.1]

theorem procFrom_early (here : ¬ t.due current_time loop) :
    procFrom current_time (loop :: loops) t = procFrom current_time loops t := by
  rw [procFrom]
  by_cases vacant : (t.g_t_socket_close_table loop).sct_socketid = T_SCT_INIT
  · simp only [if_pos vacant]
  · have early : (t.g_t_socket_close_table loop).expired current_time ≠ true :=
      fun expired => here ⟨vacant, expired_iff.mp expired⟩
    simp only [if_neg vacant, if_neg early]

theorem swept_due (new : loop ∉ loops) (here : t.due current_time loop) :
    (t.clear loop).swept current_time loops = t.swept current_time (loop :: loops) := by
  funext p
  rw [swept, swept]
  by_cases first : p = loop
  · subst first
    simp [new, here, clear]
  · have same : (t.clear loop).g_t_socket_close_table p = t.g_t_socket_close_table p :=
      put_of_ne _ _ first
    simp only [due_clear_of_ne t current_time first, List.mem_cons, first, false_or, same]

theorem swept_early (here : ¬ t.due current_time loop) :
    t.swept current_time loops = t.swept current_time (loop :: loops) := by
  funext p
  rw [swept, swept]
  by_cases first : p = loop
  · subst first
    simp [here]
  · simp only [List.mem_cons, first, false_or]

/-- The sockets of the other timers that are over. -/
theorem closed_clear (new : loop ∉ loops) :
    ((loops.filter ((t.clear loop).due current_time ·)).map
        fun p => ((t.clear loop).g_t_socket_close_table p).sct_socketid) =
      (loops.filter (t.due current_time ·)).map
        fun p => (t.g_t_socket_close_table p).sct_socketid := by
  have others : ∀ p ∈ loops, p ≠ loop := by
    rintro p there rfl
    exact new there
  have filtered : loops.filter ((t.clear loop).due current_time ·) =
      loops.filter (t.due current_time ·) := by
    apply List.filter_congr
    intro p there
    simp only [due_clear_of_ne t current_time (others p there)]
  rw [filtered]
  apply List.map_congr_left
  intro p there
  rw [clear, put_of_ne _ _ (others p (List.mem_of_mem_filter there))]

end Turn

theorem procFrom_spec (current_time : Timeval) {loops : List (Fin T_SCT_MAXNUM)} {t : CloseTimers}
    (inv : t.Inv) (nodup : loops.Nodup) :
    (procFrom current_time loops t).1.Inv ∧
      (procFrom current_time loops t).1.g_t_socket_close_table = t.swept current_time loops ∧
      (procFrom current_time loops t).2 = (loops.filter (t.due current_time ·)).map
        fun loop => (t.g_t_socket_close_table loop).sct_socketid := by
  induction loops generalizing t with
  | nil => exact ⟨inv, by funext p; simp [procFrom, swept], rfl⟩
  | cons loop loops ih =>
      obtain ⟨new, nodup⟩ := List.nodup_cons.mp nodup
      by_cases here : t.due current_time loop
      · obtain ⟨inv', table, closed⟩ := ih (inv.clear here.1) nodup
        rw [procFrom_due inv here]
        refine ⟨inv', table.trans (swept_due new here), ?_⟩
        rw [List.filter_cons_of_pos (by simpa using here), List.map_cons]
        exact congrArg (List.cons _) (closed.trans (closed_clear new))
      · obtain ⟨inv', table, closed⟩ := ih inv nodup
        rw [procFrom_early here]
        refine ⟨inv', table.trans (swept_early here), ?_⟩
        rw [closed, List.filter_cons_of_neg (by simpa using here)]

theorem Inv.kCloseTimerProc {t : CloseTimers} (inv : t.Inv) (current_time : Timeval) :
    (t.kCloseTimerProc current_time).1.Inv :=
  (procFrom_spec current_time inv (List.nodup_finRange _)).1

/-! ## The timers of a socket -/

/-- The socket has a timer. -/
def Waits (t : CloseTimers) (socketid : Int16) (expire : Timeval) : Prop :=
  socketid ≠ T_SCT_INIT ∧ ∃ loop, t.g_t_socket_close_table loop = ⟨socketid, expire⟩

section Waits

variable {t : CloseTimers} {socketid : Int16} {expire : Timeval}

theorem Waits.unique {other : Timeval} (inv : t.Inv) (waits : t.Waits socketid expire)
    (waits' : t.Waits socketid other) : expire = other := by
  obtain ⟨some_, loop, here⟩ := waits
  obtain ⟨-, loop', there⟩ := waits'
  have occupied : t.occupied loop := by
    rw [occupied, here]
    exact some_
  have same : loop = loop' := inv.distinct loop loop' occupied (by rw [here, there])
  subst same
  rw [here] at there
  cases there
  rfl

theorem not_waits_init : ¬ kCloseTimerInit.Waits socketid expire := by
  rintro ⟨some_, loop, here⟩
  cases here
  exact some_ rfl

/-- No other timer changes when one is set. -/
theorem waits_set {id : Int16} {sec : Int32} {set_time : Timeval}
    (accepted : (t.kCloseTimerSet id sec set_time).2 = true) :
    (∀ other, ¬ t.Waits id other) ∧
      ((t.kCloseTimerSet id sec set_time).1.Waits socketid expire ↔
        t.Waits socketid expire ∨ socketid = id ∧ expire = .expiry sec set_time) := by
  obtain ⟨valid, fresh, loop, vacant, set_⟩ := kCloseTimerSet_accepted accepted
  rw [set_]
  constructor
  · rintro other ⟨-, p, here⟩
    exact fresh p (by rw [here])
  · constructor
    · rintro ⟨some_, p, here⟩
      by_cases first : p = loop
      · subst first
        simp only [put_self] at here
        cases here
        exact .inr ⟨rfl, rfl⟩
      · simp only [put_of_ne _ _ first] at here
        exact .inl ⟨some_, p, here⟩
    · rintro (⟨some_, p, here⟩ | ⟨rfl, rfl⟩)
      · have other : p ≠ loop := by
          rintro rfl
          refine vacant fun free => some_ ?_
          rw [here] at free
          exact free
        exact ⟨some_, p, (put_of_ne _ _ other).trans here⟩
      · refine ⟨?_, loop, put_self ..⟩
        rintro rfl
        exact absurd valid (by decide)

/-- The timers that are over are gone after a sweep, and no others. -/
theorem Inv.waits_proc (inv : t.Inv) (current_time : Timeval) :
    (t.kCloseTimerProc current_time).1.Waits socketid expire ↔
      t.Waits socketid expire ∧ ¬ expire.NotAfter current_time := by
  have table := (procFrom_spec current_time inv (List.nodup_finRange _)).2.1
  rw [Waits, Waits, CloseTimers.kCloseTimerProc, table]
  constructor
  · rintro ⟨some_, loop, here⟩
    rw [swept] at here
    split at here
    next =>
      cases here
      exact absurd rfl some_
    next early =>
      refine ⟨⟨some_, loop, here⟩, fun over_ => early ⟨List.mem_finRange loop, ?_, ?_⟩⟩
      · rw [occupied, here]
        exact some_
      · rw [here]
        exact over_
  · rintro ⟨⟨some_, loop, here⟩, early⟩
    refine ⟨some_, loop, ?_⟩
    rw [swept, if_neg, here]
    rintro ⟨-, -, over_⟩
    rw [here] at over_
    exact early over_

/-- A sweep closes the sockets with timers that are over. -/
theorem Inv.mem_proc (inv : t.Inv) (current_time : Timeval) :
    socketid ∈ (t.kCloseTimerProc current_time).2 ↔
      ∃ expire, t.Waits socketid expire ∧ expire.NotAfter current_time := by
  have closed := (procFrom_spec current_time inv (List.nodup_finRange _)).2.2
  rw [CloseTimers.kCloseTimerProc, closed, List.mem_map]
  constructor
  · rintro ⟨loop, here, rfl⟩
    have due := of_decide_eq_true (List.mem_filter.mp here).2
    exact ⟨_, ⟨due.1, loop, rfl⟩, due.2⟩
  · rintro ⟨expire, ⟨some_, loop, here⟩, over_⟩
    refine ⟨loop, List.mem_filter.mpr ⟨List.mem_finRange loop, ?_⟩, by rw [here]⟩
    rw [decide_eq_true_iff, due, occupied, here]
    exact ⟨some_, over_⟩

/-- No socket is closed twice by a sweep. -/
theorem Inv.nodup_proc (inv : t.Inv) (current_time : Timeval) :
    (t.kCloseTimerProc current_time).2.Nodup := by
  have closed := (procFrom_spec current_time inv (List.nodup_finRange _)).2.2
  rw [CloseTimers.kCloseTimerProc, closed]
  refine List.Nodup.map_on ?_ ((List.nodup_finRange _).filter _)
  intro p first q _ same
  have due := of_decide_eq_true (List.mem_filter.mp first).2
  exact inv.distinct p q due.1 same

end Waits

/-! ## The runs -/

section Runs

variable {t : CloseTimers} {socketid : Int16} {expire : Timeval}

theorem Inv.kCloseTimerSet (inv : t.Inv) (sec : Int32) (set_time : Timeval) :
    (t.kCloseTimerSet socketid sec set_time).1.Inv := by
  cases answer : (t.kCloseTimerSet socketid sec set_time).2 with
  | false =>
      rw [kCloseTimerSet_refused answer]
      exact inv
  | true =>
      obtain ⟨valid, fresh, loop, vacant, set_⟩ := kCloseTimerSet_accepted answer
      rw [set_]
      exact inv.put vacant valid fresh

theorem Inv.step (inv : t.Inv) (call : Call) : (t.step call).1.Inv := by
  cases call with
  | kCloseTimerInit => exact init_inv
  | kCloseTimerSet socketid sec set_time => exact inv.kCloseTimerSet sec set_time
  | kCloseTimerProc current_time => exact inv.kCloseTimerProc current_time

theorem Inv.run (inv : t.Inv) (calls : List Call) : (t.run calls).Inv := by
  induction calls generalizing t with
  | nil => exact inv
  | cons call calls ih => exact ih (inv.step call)

/-- A timer stays where the table is not cleared and no sweep comes at its time. -/
theorem Waits.step (inv : t.Inv) (waits : t.Waits socketid expire) {call : Call}
    (kept : call ≠ .kCloseTimerInit)
    (early : ∀ current_time, call = .kCloseTimerProc current_time →
      ¬ expire.NotAfter current_time) :
    (t.step call).1.Waits socketid expire ∧ socketid ∉ (t.step call).2 := by
  cases call with
  | kCloseTimerInit => exact absurd rfl kept
  | kCloseTimerSet id sec set_time =>
      refine ⟨?_, by simp [CloseTimers.step]⟩
      rw [CloseTimers.step]
      cases answer : (t.kCloseTimerSet id sec set_time).2 with
      | false =>
          rw [kCloseTimerSet_refused answer]
          exact waits
      | true => exact (waits_set answer).2.mpr (.inl waits)
  | kCloseTimerProc current_time =>
      have early := early current_time rfl
      refine ⟨(inv.waits_proc current_time).mpr ⟨waits, early⟩, fun closed => ?_⟩
      obtain ⟨other, waits', over_⟩ := (inv.mem_proc current_time).mp closed
      rw [← waits.unique inv waits'] at over_
      exact early over_

theorem Waits.run (inv : t.Inv) (waits : t.Waits socketid expire) {calls : List Call}
    (kept : ∀ call ∈ calls, call ≠ .kCloseTimerInit)
    (early : ∀ current_time, .kCloseTimerProc current_time ∈ calls →
      ¬ expire.NotAfter current_time) :
    (t.run calls).Waits socketid expire ∧ socketid ∉ t.closes calls := by
  induction calls generalizing t with
  | nil => exact ⟨waits, List.not_mem_nil⟩
  | cons call calls ih =>
      obtain ⟨kept_call, kept⟩ := List.forall_mem_cons.mp kept
      obtain ⟨waits', quiet⟩ := waits.step inv kept_call fun current_time here =>
        early current_time (here ▸ List.mem_cons_self)
      obtain ⟨waits, quiets⟩ := ih (inv.step call) waits' kept fun current_time here =>
        early current_time (List.mem_cons_of_mem _ here)
      exact ⟨waits, fun closed => (List.mem_append.mp closed).elim quiet quiets⟩

theorem Unset.tail {call : Call} {calls : List Call} (unset : t.Unset socketid (call :: calls)) :
    (t.step call).1.Unset socketid calls := by
  intro before sec set_time after here
  exact unset (call :: before) sec set_time after (by rw [here, List.cons_append])

/-- A socket without a timer is not closed. -/
theorem Inv.quiet (inv : t.Inv) {calls : List Call} (unset : t.Unset socketid calls)
    (free : ∀ expire, ¬ t.Waits socketid expire) : socketid ∉ t.closes calls := by
  induction calls generalizing t with
  | nil => exact List.not_mem_nil
  | cons call calls ih =>
      have next : (∀ expire, ¬ (t.step call).1.Waits socketid expire) ∧
          socketid ∉ (t.step call).2 := by
        cases call with
        | kCloseTimerInit => exact ⟨fun _ => not_waits_init, List.not_mem_nil⟩
        | kCloseTimerSet id sec set_time =>
            refine ⟨fun expire => ?_, List.not_mem_nil⟩
            rw [CloseTimers.step]
            cases answer : (t.kCloseTimerSet id sec set_time).2 with
            | false =>
                rw [kCloseTimerSet_refused answer]
                exact free expire
            | true =>
                intro waits
                rcases (waits_set answer).2.mp waits with old | ⟨rfl, -⟩
                · exact free expire old
                · have refused := unset [] sec set_time calls rfl
                  cases refused.symm.trans answer
        | kCloseTimerProc current_time =>
            refine ⟨fun expire waits => ?_, fun closed => ?_⟩
            · exact free expire ((inv.waits_proc current_time).mp waits).1
            · obtain ⟨expire, waits, -⟩ := (inv.mem_proc current_time).mp closed
              exact free expire waits
      exact fun closed => (List.mem_append.mp closed).elim next.2
        (ih (inv.step call) unset.tail next.1)

/-- A timer that is set is over in the first sweep at its time or after it. -/
theorem Waits.closesOnce (inv : t.Inv) (waits : t.Waits socketid expire) (calls : List Call) :
    t.ClosesOnce (· ≠ .kCloseTimerInit) socketid expire calls := by
  intro before current_time after _ kept early over_
  obtain ⟨waits, quiet⟩ := waits.run inv kept early
  have inv := inv.run before
  have here := (inv.mem_proc current_time).mpr ⟨expire, waits, over_⟩
  refine ⟨quiet, List.count_eq_one_of_mem (inv.nodup_proc current_time) here, ?_⟩
  intro quiet _ unset
  refine (inv.kCloseTimerProc current_time).quiet unset fun other waits' => ?_
  obtain ⟨waits', late⟩ := (inv.waits_proc current_time).mp waits'
  rw [← waits.unique inv waits'] at late
  exact late over_

end Runs

/-- Every timer that is accepted closes its socket once, unless the table is cleared before. -/
theorem keepsTimers (calls : List Call) : Keeps (· ≠ .kCloseTimerInit) calls where
  distinct := (init_inv.run calls).distinct
  counts := (init_inv.run calls).counts
  refused := fun _ _ _ _ _ _ refused => kCloseTimerSet_refused refused
  accepted := by
    intro before socketid sec set_time after _ accepted
    have inv := init_inv.run before
    exact Waits.closesOnce (inv.kCloseTimerSet sec set_time)
      ((waits_set accepted).2.mpr (.inr ⟨rfl, rfl⟩)) after

/-! ## A table that is cleared -/

def Call.time : Call → Option Timeval
  | .kCloseTimerInit => none
  | .kCloseTimerSet _ _ set_time => some set_time
  | .kCloseTimerProc current_time => some current_time

def NonDecreasing (calls : List Call) : Prop :=
  (calls.filterMap Call.time).Pairwise Timeval.NotAfter

instance decidableNonDecreasing (calls : List Call) : Decidable (NonDecreasing calls) :=
  inferInstanceAs (Decidable (List.Pairwise _ _))

/-- The socket of a timer that is cleared is not closed by it. -/
theorem not_keepsTimers : ¬ ∀ calls, NonDecreasing calls → Keeps (fun _ => True) calls := by
  intro claim
  have keeps := claim [.kCloseTimerSet 1 10 ⟨0, 0⟩, .kCloseTimerInit, .kCloseTimerProc ⟨20, 0⟩]
    (by decide)
  have closes := keeps.accepted [] 1 10 ⟨0, 0⟩ _ rfl (by decide)
  have closed := (closes [.kCloseTimerInit] ⟨20, 0⟩ [] rfl (by simp) (by simp) (by decide)).2.1
  exact absurd closed (by decide)

end CloseTimers

end Tahi.Koi
