import Mathlib.Data.List.Perm.Subperm
import Tahi.Tg.TeServer

/-! # Commands are answered once

As long as no end of a process is lost, the table holds what is not answered, but for the command
that is being started, and the flag stands for that one.
-/

namespace Tahi.Tg

open Cm

/-- The command that is neither in the table nor answered. -/
def ExpandRun.waits : ExpandRun → Option TeCmd
  | forked v | counted v _ | reporting v | adding v => some v
  | idle | reported => none

/-- What is known of the flag. -/
def ExpandRun.Fits (failure : Bool) : ExpandRun → Prop
  | idle | adding _ => failure = false
  | reporting _ | reported => failure = true
  | _ => True

namespace TeState

variable {s s' : TeState} {e : TeEvent}

/-- The command that is still to be added. -/
def fresh (s : TeState) : Option TeCmd :=
  if s.server.is_find_reqno_failure then none else s.expandRun.waits

/-- The command whose process was waited for before it was added. -/
def early (s : TeState) : Option TeCmd :=
  if s.server.is_find_reqno_failure then s.expandRun.waits else none

structure Kept (s : TeState) : Prop where
  folded : s.ended.length = s.sigchld.toNat + s.handling.toNat
  fits : s.expandRun.Fits s.server.is_find_reqno_failure
  pids : ∀ v ∈ s.children, v.pid_ ≠ 0
  nodup : (s.children.map TeCmd.pid_).Nodup
  table : s.children.Perm (s.fresh.toList ++ s.server.cmdSet_)
  owed : s.requests.Perm
    (s.sent.map TeResponse.reqno ++ (s.children ++ s.early.toList).map TeCmd.reqno_)
  finished : s.requests.Perm (s.running.map TeCmd.reqno_ ++ s.finished)

theorem kept_initial : Kept initial :=
  ⟨rfl, rfl, by simp [children, initial], by simp [children, initial], .refl _, .refl _, .refl _⟩

/-! ## The table -/

theorem Kept.nodup_table (kept : Kept s) : (s.server.cmdSet_.map TeCmd.pid_).Nodup := by
  have nodup := (kept.table.map TeCmd.pid_).nodup_iff.mp kept.nodup
  rw [List.map_append] at nodup
  exact nodup.of_append_right

/-- A process that has not been waited for is in the table, or it is the one that is still to be
    added. -/
theorem Kept.find (kept : Kept s) {v : TeCmd} (mem : v ∈ s.children) :
    s.server.findReqno v.pid_ = some v ∨
      s.server.findReqno v.pid_ = none ∧ s.fresh = some v := by
  have pid := kept.pids v mem
  have there := kept.table.mem_iff.mp mem
  cases List.mem_append.mp there with
  | inl new =>
    have fresh := Option.mem_toList.mp new
    refine .inr ⟨?_, fresh⟩
    have nodup := (kept.table.map TeCmd.pid_).nodup_iff.mp kept.nodup
    rw [fresh, Option.toList_some, List.singleton_append, List.map_cons, List.nodup_cons] at nodup
    rw [TeServer.findReqno, if_pos pid, CmSet.find_eq_none]
    intro w mem same
    exact nodup.1 (List.mem_map.mpr ⟨w, mem, same⟩)
  | inr old =>
    apply Or.inl
    rw [TeServer.findReqno, if_pos pid]
    exact CmSet.find_of_mem kept.nodup_table old

/-! ## Steps -/

theorem Kept.fork (kept : Kept s) {pid : ℕ} {reqno : BitVec 16} (idle : s.expandRun = .idle)
    (new : pid ≠ 0 ∧ pid ∉ s.children.map TeCmd.pid_) :
    Kept { s with
      expandRun := .forked ⟨pid, reqno⟩
      running := ⟨pid, reqno⟩ :: s.running
      requests := s.requests ++ [reqno] } := by
  have unset : s.server.is_find_reqno_failure = false := by
    have fits := kept.fits
    rw [idle] at fits
    exact fits
  have before : s.fresh = none ∧ s.early = none := by
    rw [fresh, early, unset, idle]
    exact ⟨rfl, rfl⟩
  refine ⟨kept.folded, trivial, ?_, List.nodup_cons.mpr ⟨new.2, kept.nodup⟩, ?_, ?_, ?_⟩
  · intro v mem
    cases List.mem_cons.mp mem with
    | inl same => exact same ▸ new.1
    | inr old => exact kept.pids v old
  · have table := kept.table
    rw [before.1] at table
    rw [fresh, unset]
    exact table.cons _
  · have owed := kept.owed
    rw [before.2, Option.toList_none, List.append_nil] at owed
    rw [early, unset]
    change (s.requests ++ [reqno]).Perm
      (s.sent.map TeResponse.reqno ++ (reqno :: (s.children ++ []).map TeCmd.reqno_))
    rw [List.append_nil]
    exact (List.perm_append_singleton _ _).trans ((owed.cons _).trans List.perm_middle.symm)
  · exact (List.perm_append_singleton _ _).trans (kept.finished.cons _)

theorem Kept.forkFails (kept : Kept s) :
    Kept { s with
      sent := s.sent ++ [TeServer.report eCmdExec_ eCmdExec_ (-2)]
      requests := s.requests ++ [eCmdExec_]
      finished := s.finished ++ [eCmdExec_] } := by
  refine ⟨kept.folded, kept.fits, kept.pids, kept.nodup, kept.table, ?_, ?_⟩
  · rw [List.map_append, List.append_assoc]
    exact (List.perm_append_singleton _ _).trans
      ((kept.owed.cons _).trans List.perm_middle.symm)
  · rw [← List.append_assoc]
    exact kept.finished.append_right _

/-- A step that changes neither who is fresh nor who is early. -/
theorem Kept.advance (kept : Kept s) {expandRun : ExpandRun}
    (waits : expandRun.waits = s.expandRun.waits)
    (fits : expandRun.Fits s.server.is_find_reqno_failure) : Kept { s with expandRun } := by
  have same : ({ s with expandRun } : TeState).fresh = s.fresh ∧
      ({ s with expandRun } : TeState).early = s.early := by
    simp only [fresh, early, waits, and_self]
  refine ⟨kept.folded, fits, kept.pids, kept.nodup, ?_, ?_, kept.finished⟩
  · rw [same.1]
    exact kept.table
  · rw [same.2]
    exact kept.owed

theorem Kept.report (kept : Kept s) {v : TeCmd} (run : s.expandRun = .reporting v) :
    Kept { s with
      expandRun := .reported
      sent := s.sent ++ [TeServer.report eCmdCancel_ v.reqno_ (WEXITSTATUS 0)] } := by
  have failure : s.server.is_find_reqno_failure = true := by
    have fits := kept.fits
    rw [run] at fits
    exact fits
  refine ⟨kept.folded, failure, kept.pids, kept.nodup, ?_, ?_, kept.finished⟩
  · have table := kept.table
    rw [fresh, failure] at table
    rw [fresh, failure]
    exact table
  · have owed := kept.owed
    rw [early, failure, run] at owed
    rw [early, failure]
    change s.requests.Perm (s.sent.map TeResponse.reqno ++
      (s.children ++ [v]).map TeCmd.reqno_) at owed
    change s.requests.Perm ((s.sent ++ [_]).map TeResponse.reqno ++
      (s.children ++ []).map TeCmd.reqno_)
    rw [List.map_append, ← List.append_assoc] at owed
    rw [List.map_append, List.append_nil, List.append_assoc]
    exact owed.trans ((List.perm_append_singleton _ _).trans List.perm_middle.symm)

theorem Kept.reset (kept : Kept s) (run : s.expandRun = .reported) :
    Kept { s with expandRun := .idle, server := s.server.set_find_reqno_failure false } := by
  have table := kept.table
  have owed := kept.owed
  have none_ : s.fresh = none ∧ s.early = none := by
    rw [fresh, early, run]
    simp [ExpandRun.waits]
  rw [none_.1] at table
  rw [none_.2] at owed
  exact ⟨kept.folded, rfl, kept.pids, kept.nodup, table, owed, kept.finished⟩

theorem Kept.add (kept : Kept s) {v : TeCmd} (run : s.expandRun = .adding v) :
    Kept { s with expandRun := .idle, server := s.server.addCmd v } := by
  have unset : s.server.is_find_reqno_failure = false := by
    have fits := kept.fits
    rw [run] at fits
    exact fits
  have before : s.fresh = some v ∧ s.early = none := by
    rw [fresh, early, unset, run]
    exact ⟨rfl, rfl⟩
  have table := kept.table
  rw [before.1] at table
  have new : ∀ w ∈ s.server.cmdSet_, w.pid_ ≠ v.pid_ := by
    have nodup := (table.map TeCmd.pid_).nodup_iff.mp kept.nodup
    rw [Option.toList_some, List.singleton_append, List.map_cons, List.nodup_cons] at nodup
    intro w mem same
    exact nodup.1 (List.mem_map.mpr ⟨w, mem, same⟩)
  have added : (s.server.addCmd v).cmdSet_ = v :: s.server.cmdSet_ := CmSet.add_of_new new
  refine ⟨kept.folded, unset, kept.pids, kept.nodup, ?_, ?_, kept.finished⟩
  · rw [added]
    change s.children.Perm ((if s.server.is_find_reqno_failure then none else none).toList ++ _)
    rw [ite_self]
    exact table
  · have owed := kept.owed
    rw [before.2] at owed
    change s.requests.Perm (_ ++ (s.children ++
      (if s.server.is_find_reqno_failure then none else none : Option TeCmd).toList).map _)
    rw [ite_self]
    exact owed

/-- A process ends while no signal is pending. -/
theorem Kept.ends (kept : Kept s) {v : TeCmd} {status : BitVec 32} (mem : v ∈ s.running)
    (quiet : s.sigchld = false) :
    Kept { s with
      running := s.running.erase v
      ended := s.ended ++ [(v, status)]
      sigchld := true
      finished := s.finished ++ [v.reqno_] } := by
  have children : s.children.Perm
      (s.running.erase v ++ (s.ended ++ [(v, status)]).map Prod.fst) := by
    rw [List.map_append, ← List.append_assoc]
    exact ((List.perm_cons_erase mem).append_right _).trans (List.perm_append_singleton _ _).symm
  refine ⟨?_, kept.fits, ?_, ?_, children.symm.trans kept.table, ?_, ?_⟩
  · have folded := kept.folded
    rw [quiet] at folded
    change (s.ended ++ [(v, status)]).length = true.toNat + s.handling.toNat
    rw [List.length_append, folded, Bool.toNat_false, Bool.toNat_true, List.length_singleton]
    omega
  · intro w there
    exact kept.pids w (children.mem_iff.mpr there)
  · exact (children.map TeCmd.pid_).nodup_iff.mp kept.nodup
  · exact kept.owed.trans (((children.append_right _).map _).append_left _)
  · have gone : (s.running.map TeCmd.reqno_).Perm
        (v.reqno_ :: (s.running.erase v).map TeCmd.reqno_) := (List.perm_cons_erase mem).map _
    refine kept.finished.trans ((gone.append_right _).trans ?_)
    rw [← List.append_assoc]
    exact (List.perm_append_singleton _ _).symm

theorem Kept.signal (kept : Kept s) (pending : s.sigchld = true) (free : s.handling = false) :
    Kept { s with sigchld := false, handling := true } := by
  refine ⟨?_, kept.fits, kept.pids, kept.nodup, kept.table, kept.owed, kept.finished⟩
  have folded := kept.folded
  rw [pending, free] at folded
  exact folded

/-- The handler waits for a process whose command is in the table, or still to be added. -/
theorem Kept.wait (kept : Kept s) {v : TeCmd} {status : BitVec 32} (handling : s.handling = true)
    (mem : (v, status) ∈ s.ended) (before : ∀ w, s.expandRun = .adding w → w.pid_ ≠ v.pid_) :
    Kept { s with
      server := (s.server.childEnd v.pid_ status).1
      ended := s.ended.erase (v, status)
      handling := false
      sent := s.sent ++ (s.server.childEnd v.pid_ status).2.toList } := by
  have children : s.children.Perm (v :: (s.running ++ (s.ended.erase (v, status)).map Prod.fst)) :=
    (((List.perm_cons_erase mem).map Prod.fst).append_left _).trans List.perm_middle
  have there : v ∈ s.children := children.mem_iff.mpr List.mem_cons_self
  have folded : (s.ended.erase (v, status)).length = s.sigchld.toNat + false.toNat := by
    have folded := kept.folded
    rw [handling, Bool.toNat_true] at folded
    rw [List.length_erase_of_mem mem, folded]
    rfl
  have pids : ∀ w ∈ s.running ++ (s.ended.erase (v, status)).map Prod.fst, w.pid_ ≠ 0 :=
    fun w mem => kept.pids w (children.mem_iff.mpr (List.mem_cons_of_mem v mem))
  have nodup : ((s.running ++ (s.ended.erase (v, status)).map Prod.fst).map TeCmd.pid_).Nodup :=
    (List.nodup_cons.mp ((children.map TeCmd.pid_).nodup_iff.mp kept.nodup)).2
  cases kept.find there with
  | inl found =>
    have result : s.server.childEnd v.pid_ status = (s.server.removeCmd v, some (TeServer.report
        (if status ≠ 0 then eCmdCancel_ else eCmdExec_) v.reqno_ (WEXITSTATUS status))) := by
      simp only [TeServer.childEnd, found]
    rw [result]
    refine ⟨folded, kept.fits, pids, nodup, ?_, ?_, kept.finished⟩
    · have old : CmSet.find TeCmd.pid_ s.server.cmdSet_ v.pid_ = some v := by
        rw [TeServer.findReqno, if_pos (kept.pids v there)] at found
        exact found
      have removed := (CmSet.perm_remove old).append_left s.fresh.toList
      exact (children.symm.trans (kept.table.trans (removed.trans List.perm_middle))).cons_inv
    · have owed := kept.owed.trans (((children.append_right s.early.toList).map _).append_left _)
      have sent : (s.sent ++ [TeServer.report (if status ≠ 0 then eCmdCancel_ else eCmdExec_)
          v.reqno_ (WEXITSTATUS status)]).map TeResponse.reqno =
            s.sent.map TeResponse.reqno ++ [v.reqno_] := List.map_append
      change s.requests.Perm ((s.sent ++ [_]).map TeResponse.reqno ++ _)
      rw [sent, List.append_assoc]
      exact owed
  | inr new =>
    obtain ⟨found, new⟩ := new
    have unset : s.server.is_find_reqno_failure = false := by
      cases failure : s.server.is_find_reqno_failure with
      | false => rfl
      | true =>
        rw [fresh, failure] at new
        cases new
    have waits : s.expandRun.waits = some v := by
      rw [fresh, unset] at new
      exact new
    have none_ : s.early = none := by
      rw [early, unset]
      rfl
    have result : s.server.childEnd v.pid_ status =
        (s.server.set_find_reqno_failure true, none) := by
      simp only [TeServer.childEnd, found]
    rw [result]
    refine ⟨folded, ?_, pids, nodup, ?_, ?_, kept.finished⟩
    · cases run : s.expandRun with
      | adding w =>
        rw [run] at waits
        cases waits
        exact absurd rfl (before v run)
      | idle | reported =>
        rw [run] at waits
        cases waits
      | forked | counted => trivial
      | reporting => rfl
    · have table := kept.table
      rw [new] at table
      exact (children.symm.trans table).cons_inv
    · have owed := kept.owed
      rw [none_, Option.toList_none, List.append_nil] at owed
      change s.requests.Perm ((s.sent ++ []).map TeResponse.reqno ++
        (s.running ++ (s.ended.erase (v, status)).map Prod.fst ++
          s.expandRun.waits.toList).map TeCmd.reqno_)
      rw [List.append_nil, waits]
      exact owed.trans (((children.trans (List.perm_append_singleton v _).symm).map _).append_left _)

theorem of_expand {does : Option TeState} (expands : s.expand does = some s') :
    s.handling = false ∧ does = some s' := by
  cases handling : s.handling with
  | true =>
    rw [expand, handling] at expands
    cases expands
  | false =>
    rw [expand, handling] at expands
    exact ⟨rfl, expands⟩

/-- Each step that loses nothing keeps it. -/
theorem Kept.step (kept : Kept s) (fine : s.Fine e) (does : s.step e = some s') : Kept s' := by
  cases e with
  | vforkFails reqno =>
    obtain ⟨-, does⟩ := of_expand does
    unfold vforkFails at does
    cases run : s.expandRun with
    | idle =>
      rw [run] at does
      cases fine
      cases does
      have kept := kept.forkFails
      rw [run] at kept
      exact kept
    | forked | counted | reporting | reported | adding =>
      rw [run] at does
      cases does
  | vfork pid reqno =>
    obtain ⟨-, does⟩ := of_expand does
    unfold vfork at does
    cases run : s.expandRun with
    | idle =>
      rw [run] at does
      by_cases new : pid ≠ 0 ∧ pid ∉ s.children.map TeCmd.pid_
      · cases (if_pos new).symm.trans does
        exact kept.fork run new
      · cases (if_neg new).symm.trans does
    | forked | counted | reporting | reported | adding =>
      rw [run] at does
      cases does
  | count =>
    obtain ⟨-, does⟩ := of_expand does
    unfold count at does
    cases run : s.expandRun with
    | forked v =>
      rw [run] at does
      cases does
      exact kept.advance (by rw [run]; rfl) trivial
    | idle | counted | reporting | reported | adding =>
      rw [run] at does
      cases does
  | decide =>
    obtain ⟨-, does⟩ := of_expand does
    unfold TeState.decide at does
    cases run : s.expandRun with
    | counted v num =>
      rw [run] at does
      cases does
      cases failure : s.server.is_find_reqno_failure with
      | true =>
        rw [if_pos ⟨fine v num run failure, rfl⟩]
        exact kept.advance (by rw [run]; rfl) failure
      | false =>
        rw [if_neg fun both => Bool.false_ne_true both.2]
        exact kept.advance (by rw [run]; rfl) failure
    | idle | forked | reporting | reported | adding =>
      rw [run] at does
      cases does
  | report =>
    obtain ⟨-, does⟩ := of_expand does
    unfold TeState.report at does
    cases run : s.expandRun with
    | reporting v =>
      rw [run] at does
      cases does
      exact kept.report run
    | idle | forked | counted | reported | adding =>
      rw [run] at does
      cases does
  | reset =>
    obtain ⟨-, does⟩ := of_expand does
    unfold TeState.reset at does
    cases run : s.expandRun with
    | reported =>
      rw [run] at does
      cases does
      exact kept.reset run
    | idle | forked | counted | reporting | adding =>
      rw [run] at does
      cases does
  | add =>
    obtain ⟨-, does⟩ := of_expand does
    unfold TeState.add at does
    cases run : s.expandRun with
    | adding v =>
      rw [run] at does
      cases does
      exact kept.add run
    | idle | forked | counted | reporting | reported =>
      rw [run] at does
      cases does
  | ends v status =>
    change s.ends v status = some s' at does
    by_cases mem : v ∈ s.running
    · cases (if_pos mem).symm.trans does
      exact kept.ends mem fine
    · cases (if_neg mem).symm.trans does
  | signal =>
    change s.signal = some s' at does
    by_cases pending : s.sigchld ∧ ¬ s.handling
    · cases (if_pos pending).symm.trans does
      exact kept.signal pending.1 (Bool.eq_false_iff.mpr pending.2)
    · cases (if_neg pending).symm.trans does
  | wait v status =>
    change s.wait v status = some s' at does
    by_cases there : s.handling ∧ (v, status) ∈ s.ended
    · cases (if_pos there).symm.trans does
      exact kept.wait there.1 there.2 fine
    · cases (if_neg there).symm.trans does

theorem FineRun.kept (run : FineRun s) : Kept s := by
  induction run with
  | initial => exact kept_initial
  | step _ fine does ih => exact ih.step fine does

/-! ## Answers -/

theorem Kept.behind (kept : Kept s) (r : BitVec 16) :
    (s.sent.map TeResponse.reqno).count r ≤ s.finished.count r := by
  have owed := kept.owed.count_eq r
  have finished := kept.finished.count_eq r
  rw [List.count_append, List.map_append, List.count_append, children, List.map_append,
    List.count_append] at owed
  rw [List.count_append] at finished
  omega

theorem Kept.all (kept : Kept s) (quiet : s.Quiet) :
    (s.sent.map TeResponse.reqno).Perm s.requests := by
  have folded := kept.folded
  rw [quiet.sigchld, quiet.handling] at folded
  have ended : s.ended = [] := List.length_eq_zero_iff.mp folded
  have early : s.early = none := by
    rw [TeState.early, quiet.expandRun]
    exact ite_self _
  have owed := kept.owed
  rw [early, children, quiet.running, ended] at owed
  exact (owed.trans (by simp)).symm

theorem Kept.goes_on (kept : Kept s) (none_ : s.running = []) (busy : ¬ s.Quiet) :
    ∃ e, e.Own ∧ (s.step e).isSome := by
  cases handling : s.handling with
  | true =>
    have folded := kept.folded
    rw [handling, Bool.toNat_true] at folded
    obtain ⟨⟨v, status⟩, mem⟩ := List.exists_mem_of_length_pos (by omega : 0 < s.ended.length)
    refine ⟨.wait v status, trivial, ?_⟩
    change (s.wait v status).isSome
    rw [TeState.wait, if_pos ⟨handling, mem⟩]
    rfl
  | false =>
    have expands (does : Option TeState) : s.expand does = does := by
      rw [expand, handling]
      rfl
    cases run : s.expandRun with
    | idle =>
      cases pending : s.sigchld with
      | true =>
        refine ⟨.signal, trivial, ?_⟩
        change s.signal.isSome
        rw [TeState.signal, if_pos ⟨pending, by rw [handling]; exact Bool.false_ne_true⟩]
        rfl
      | false => exact absurd ⟨run, none_, pending, handling⟩ busy
    | forked v => exact ⟨.count, trivial, by simp [TeState.step, expands, TeState.count, run]⟩
    | counted v num =>
      exact ⟨.decide, trivial, by simp [TeState.step, expands, TeState.decide, run]⟩
    | reporting v => exact ⟨.report, trivial, by simp [TeState.step, expands, TeState.report, run]⟩
    | reported => exact ⟨.reset, trivial, by simp [TeState.step, expands, TeState.reset, run]⟩
    | adding v => exact ⟨.add, trivial, by simp [TeState.step, expands, TeState.add, run]⟩

theorem left_lt (own : e.Own) (does : s.step e = some s') : s'.left < s.left := by
  cases e with
  | vforkFails | vfork | ends => exact own.elim
  | count =>
    obtain ⟨-, does⟩ := of_expand does
    unfold TeState.count at does
    cases run : s.expandRun <;> rw [run] at does <;> cases does
    simp only [left, run]
    omega
  | decide =>
    obtain ⟨-, does⟩ := of_expand does
    unfold TeState.decide at does
    cases run : s.expandRun <;> rw [run] at does <;> cases does
    rename_i v num
    by_cases both : num = 0 ∧ s.server.is_find_reqno_failure = true
    · simp only [left, run, if_pos both]
      omega
    · simp only [left, run, if_neg both]
      omega
  | report =>
    obtain ⟨-, does⟩ := of_expand does
    unfold TeState.report at does
    cases run : s.expandRun <;> rw [run] at does <;> cases does
    simp only [left, run]
    omega
  | reset =>
    obtain ⟨-, does⟩ := of_expand does
    unfold TeState.reset at does
    cases run : s.expandRun <;> rw [run] at does <;> cases does
    simp only [left, run]
    omega
  | add =>
    obtain ⟨-, does⟩ := of_expand does
    unfold TeState.add at does
    cases run : s.expandRun <;> rw [run] at does <;> cases does
    simp only [left, run]
    omega
  | signal =>
    change s.signal = some s' at does
    by_cases pending : s.sigchld ∧ ¬ s.handling
    · cases (if_pos pending).symm.trans does
      have free := Bool.eq_false_iff.mpr pending.2
      simp only [left, pending.1, free, Bool.toNat_true, Bool.toNat_false]
      omega
    · cases (if_neg pending).symm.trans does
  | wait v status =>
    change s.wait v status = some s' at does
    by_cases there : s.handling ∧ (v, status) ∈ s.ended
    · cases (if_pos there).symm.trans does
      simp only [left, there.1, Bool.toNat_true, Bool.toNat_false]
      omega
    · cases (if_neg there).symm.trans does

/-- In a run that loses nothing, each request has one response, behind the end of its process. -/
theorem answers (run : FineRun s) : s.Answers :=
  ⟨run.kept.behind, run.kept.all, run.kept.goes_on, fun _ _ => left_lt⟩

/-! ## Runs -/

def steps : List TeEvent → TeState → Option TeState
  | [], s => some s
  | e :: events, s => (s.step e).bind (steps events)

theorem Reachable.steps {events : List TeEvent} (before : Reachable s)
    (does : TeState.steps events s = some s') : Reachable s' := by
  induction events generalizing s with
  | nil =>
    cases does
    exact before
  | cons e events ih =>
    obtain ⟨s₁, first, does⟩ := Option.bind_eq_some_iff.mp does
    exact ih (before.step first) does

/-- Two commands end one after the other, the second one before it is added. -/
theorem answers_early : ∃ s, FineRun s ∧ s.Answers ∧
    s.sent = [TeServer.report eCmdExec_ 1 0, TeServer.report eCmdCancel_ 2 0] := by
  have run := FineRun.initial
  have run := run.step (e := .vfork 10 1) trivial rfl
  have run := run.step (e := .count) trivial rfl
  have run := run.step (e := .decide) (by rintro v num ⟨⟩ failure; cases failure) rfl
  have run := run.step (e := .add) trivial rfl
  have run := run.step (e := .vfork 11 2) trivial rfl
  have run := run.step (e := .ends ⟨10, 1⟩ 0) rfl rfl
  have run := run.step (e := .signal) trivial rfl
  have run := run.step (e := .ends ⟨11, 2⟩ 0) rfl rfl
  have run := run.step (e := .wait ⟨10, 1⟩ 0) (by rintro w ⟨⟩) rfl
  have run := run.step (e := .signal) trivial rfl
  have run := run.step (e := .wait ⟨11, 2⟩ 0) (by rintro w ⟨⟩) rfl
  have run := run.step (e := .count) trivial rfl
  have run := run.step (e := .decide) (by rintro v num ⟨⟩ _; rfl) rfl
  have run := run.step (e := .report) trivial rfl
  have run := run.step (e := .reset) trivial rfl
  exact ⟨_, run, answers run, rfl⟩

/-- Two processes end before the handler runs. -/
theorem not_answered : ¬ ∀ s, Reachable s → s.Answers := by
  intro all
  have done : ((steps [.vfork 10 1, .count, .decide, .add, .vfork 11 2, .count, .decide, .add,
      .ends ⟨10, 1⟩ 0, .ends ⟨11, 2⟩ 0, .signal, .wait ⟨10, 1⟩ 0] initial).map fun s =>
        ((s.expandRun, s.running), (s.sigchld, s.handling), s.sent.length, s.requests.length)) =
          some ((.idle, []), (false, false), 1, 2) := by decide
  obtain ⟨s, does, result⟩ := Option.map_eq_some_iff.mp done
  simp only [Prod.mk.injEq] at result
  obtain ⟨⟨idle, none_⟩, ⟨pending, free⟩, sent, requests⟩ := result
  have same := ((all s (Reachable.steps .initial does)).all ⟨idle, none_, pending, free⟩).length_eq
  rw [List.length_map, sent, requests] at same
  omega

end TeState

end Tahi.Tg
