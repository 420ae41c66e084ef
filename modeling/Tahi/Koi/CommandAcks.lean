import Tahi.Koi.KDispatcherCommand
import Tahi.Koi.KRecvTimerAcks
import Tahi.Koi.KSocketSend

/-! # One ack for each request

The acks that are written over a run are those that its requests are to have, as long as no
task comes that is answered twice, otherwise or not at all.
-/

namespace Tahi.Koi

/-- A task whose acks are the expected ones. -/
def Pending.Sound (p : Pending) : Task → Prop
  | .request d =>
      match d.operation with
      | .connec_req c =>
          c.Known ∧
            (c.hasSocket → c.datalen ≠ 0 → c.kSocketSend.ret = 0 ∧ c.kSocketSend.Fine p.log)
      | .send_req kSocketSend => kSocketSend.Fine p.log
      | .recv_req socketid timeout_timer =>
          (p.log.step (.getBySocketid d.table socketid)).2 = .noData →
            (p.step (.set d.g_socket_socketid d.handle socketid timeout_timer.toInt d.request_num
              d.time)).2 = .set true
      | .tls_clear_req _ => False
      | _ => True
  | .arrive table socketid data datatime =>
      p.log.Fine (.regist table socketid MSG_SOCKETMODE_RECV data datatime)
  | .proc table current_time => p.NoneDue (.proc table current_time)

namespace Sending

variable {s : Sending} {msgs : MsgTable} {log : Log}

theorem regist_fine (related : MsgTable.Related msgs log) (fine : s.Fine log) :
    ∃ msgs', s.regist msgs = some msgs' ∧ MsgTable.Related msgs' (s.registLog log) := by
  unfold regist registLog
  unfold Fine at fine
  cases logged : s.logged with
  | none => exact ⟨msgs, rfl, related⟩
  | some message =>
      simp only [logged] at fine ⊢
      obtain ⟨msgs', ok, registered, related'⟩ := related.regist fine
      exact ⟨msgs', by rw [registered]; rfl, related'⟩

theorem regist_lost (related : MsgTable.Related msgs log) (bad : ¬s.Fine log) :
    s.regist msgs = none := by
  unfold regist
  unfold Fine at bad
  cases logged : s.logged with
  | none =>
      simp only [logged] at bad
      exact absurd trivial bad
  | some message =>
      simp only [logged] at bad ⊢
      rw [related.regist_lost bad, Option.map_none]

/-- What `kSocketSend` does with any sockets is a sending. -/
theorem of_kSocketSend {net : Net} {socketid : Int16} {data : List UInt8} {time_value : Timeval}
    {k k' : Koid} {sent : Sent}
    (returned : k.kSocketSend net socketid data time_value = some (k', sent)) :
    ∃ s : Sending, (s.ret = 0 ↔ sent.ok = true) ∧ s.regist k.msgs = some k'.msgs := by
  unfold Koid.kSocketSend at returned
  split at returned
  · cases returned
    exact ⟨⟨RETURN_NG, none⟩, by decide, rfl⟩
  · split at returned
    · cases returned
      exact ⟨⟨RETURN_NG, none⟩, by decide, rfl⟩
    · rename_i infos _
      split at returned
      · cases returned
        refine ⟨⟨RETURN_NG, none⟩, by simp [RETURN_NG], ?_⟩
        unfold Koid.afterFailure
        split <;> rfl
      · obtain ⟨⟨msgs, ok⟩, registered, same⟩ := Option.map_eq_some_iff.mp returned
        cases same
        refine ⟨⟨if ok then RETURN_OK else RETURN_NG,
          some (k.sockets.table, infos.si_socketid, data, time_value)⟩, ?_, ?_⟩
        · cases ok <;> simp [RETURN_OK, RETURN_NG]
        · simp only [regist, registered, Option.map_some]

end Sending

theorem Connec.hasSocket_iff {c : Connec} (known : c.Known)
    (ready : ¬(c.protocol = CM_PROT_TLS ∧ !c.kIsTLSInitialize))
    (checked : ¬c.kSocketCheckNewSocket < 0) :
    c.hasSocket ↔ ¬(c.checksocketid = 0 ∧ c.newconnec_type ≠ none ∧ c.kSocketOpen < 0) := by
  have known := known.resolve_left checked
  constructor
  · rintro ⟨-, -, socket⟩ ⟨none_, -, failed⟩
    cases socket with
    | inl reused => exact reused none_
    | inr opened => exact opened.2 failed
  · intro going
    refine ⟨ready, checked, ?_⟩
    by_cases reused : c.checksocketid = 0
    · have type := known.resolve_left fun other => other reused
      exact .inr ⟨type, fun failed => going ⟨reused, type, failed⟩⟩
    · exact .inl reused

namespace Timers

/-- The list of the timers is that of the pending requests. -/
structure Serves (t : Timers) (p : Pending) : Prop where
  timers : Related { t with msgs := {} } { p with log := {} }
  msgs : MsgTable.Related t.msgs p.log

variable {t : Timers} {p : Pending} {d : Dispatch}

theorem Serves.with (serves : Serves t p) {msgs : MsgTable} {log : Log}
    (related : MsgTable.Related msgs log) : Serves { t with msgs := msgs } { p with log := log } :=
  ⟨serves.timers, related⟩

/-- What a task is to do. -/
def Performs (t : Timers) (p : Pending) (task : Task) : Prop :=
  ∃ t' acks, t.perform task = some (t', acks) ∧
    List.Forall₂ Ack.Is acks (p.perform task).2 ∧ Serves t' (p.perform task).1

/-- Its acks are not the expected ones. -/
def Differs (t : Timers) (p : Pending) (task : Task) : Prop :=
  ∀ t' acks, t.perform task = some (t', acks) → ¬List.Forall₂ Ack.Is acks (p.perform task).2

theorem is_iff {command : Nat} {result : Int16} {ok : Bool} :
    List.Forall₂ Ack.Is [d.ack command result] [⟨d.handle, d.request_num, ok⟩] ↔
      (result = CM_RESULT_OK ↔ ok = true) := by
  simp [Ack.Is, Dispatch.ack]

/-- A request that is answered at once. -/
theorem performs_of {ok : Bool} {t' : Timers} {p' : Pending} {command : Nat} {result : Int16}
    (processed : d.process t = some (t', [d.ack command result]))
    (requested : p.request d = (p', some ok)) (same : result = CM_RESULT_OK ↔ ok = true)
    (serves : Serves t' p') : Performs t p (.request d) := by
  refine ⟨t', _, processed, ?_, ?_⟩
  · simp only [Pending.perform, requested]
    exact is_iff.mpr same
  · simp only [Pending.perform, requested]
    exact serves

theorem ng_ne : CM_RESULT_SIG_NG_OTHER ≠ CM_RESULT_OK := by decide

theorem noinit_ne : CM_RESULT_SIG_TLS_NOINIT ≠ CM_RESULT_OK := by decide

/-! ## Each request -/

section Connec

variable {c : Connec}

theorem Serves.connec (serves : Serves t p) (operation : d.operation = .connec_req c)
    (sound : p.Sound (.request d)) : Performs t p (.request d) := by
  simp only [Pending.Sound, operation] at sound
  obtain ⟨known, sends⟩ := sound
  have processed : d.process t = d.process_command_connect_req c t := by
    rw [Dispatch.process, operation]
  unfold Dispatch.process_command_connect_req at processed
  have refused (none_ : ¬c.hasSocket) : p.request d = (p, some false) := by
    simp only [Pending.request, operation, none_, if_false]
  by_cases noinit : c.protocol = CM_PROT_TLS ∧ !c.kIsTLSInitialize
  · rw [if_pos noinit] at processed
    exact performs_of processed (refused fun socket => socket.1 noinit) (by decide) serves
  rw [if_neg noinit] at processed
  by_cases failed : c.kSocketCheckNewSocket < 0
  · rw [if_pos failed] at processed
    exact performs_of processed (refused fun socket => socket.2.1 failed) (by decide) serves
  rw [if_neg failed] at processed
  have socket_iff := Connec.hasSocket_iff known noinit failed
  by_cases stuck : c.checksocketid = 0 ∧ c.newconnec_type ≠ none ∧ c.kSocketOpen < 0
  · rw [if_pos stuck] at processed
    exact performs_of processed (refused fun socket => socket_iff.mp socket stuck) (by decide) serves
  rw [if_neg stuck] at processed
  have socket := socket_iff.mpr stuck
  by_cases empty : c.datalen = 0
  · rw [if_pos empty] at processed
    have requested : p.request d = (p, some true) := by
      simp only [Pending.request, operation, socket, empty, if_true]
    exact performs_of processed requested (by decide) serves
  · obtain ⟨sent, fine⟩ := sends socket empty
    obtain ⟨msgs, registered, related⟩ := Sending.regist_fine serves.msgs fine
    rw [if_neg empty, registered, Option.map_some, if_pos sent] at processed
    have requested : p.request d =
        ({ p with log := c.kSocketSend.registLog p.log }, some true) := by
      simp only [Pending.request, operation, socket, empty, if_true, if_false, sent,
        beq_self_eq_true]
    exact performs_of processed requested (by decide) (serves.with related)

/-- The part behind the opening of a socket. When the data could not be sent there are two
    acks. -/
theorem connec_going (ready : ¬(c.protocol = CM_PROT_TLS ∧ !c.kIsTLSInitialize))
    (checked : ¬c.kSocketCheckNewSocket < 0)
    (going : ¬(c.checksocketid = 0 ∧ c.newconnec_type ≠ none ∧ c.kSocketOpen < 0)) {t' : Timers}
    {acks : List Ack} (processed : d.process_command_connect_req c t = some (t', acks)) :
    acks = [d.ack CM_CM_SIG_CONNEC_ACK CM_RESULT_OK] ∨
      acks.length = 2 ∧ c.datalen ≠ 0 ∧ c.kSocketSend.ret ≠ 0 := by
  rw [Dispatch.process_command_connect_req, if_neg ready, if_neg checked, if_neg going] at processed
  split at processed
  · cases processed
    exact .inl rfl
  · rename_i data
    obtain ⟨msgs, -, same⟩ := Option.map_eq_some_iff.mp processed
    cases same
    split
    · exact .inl rfl
    · rename_i failed
      exact .inr ⟨rfl, data, failed⟩

theorem connec_differs (serves : Serves t p) (operation : d.operation = .connec_req c)
    (unsound : ¬p.Sound (.request d)) : Differs t p (.request d) := by
  intro t' acks performed same
  simp only [Pending.Sound, operation] at unsound
  have processed : d.process_command_connect_req c t = some (t', acks) := by
    rw [← performed, perform, Dispatch.process, operation]
  have one {ok : Bool} {p' : Pending} (requested : p.request d = (p', some ok)) :
      List.Forall₂ Ack.Is acks [⟨d.handle, d.request_num, ok⟩] := by
    simpa only [Pending.perform, requested] using same
  by_cases known : c.Known
  · obtain ⟨socket, data, bad⟩ : c.hasSocket ∧ c.datalen ≠ 0 ∧
        ¬(c.kSocketSend.ret = 0 ∧ c.kSocketSend.Fine p.log) := by
      simpa [known, and_assoc] using unsound
    have going := (Connec.hasSocket_iff known socket.1 socket.2.1).mp socket
    have one := @one (c.kSocketSend.ret == 0) { p with log := c.kSocketSend.registLog p.log }
      (by simp only [Pending.request, operation, socket, data, if_true, if_false])
    by_cases fine : c.kSocketSend.Fine p.log
    · have failed : c.kSocketSend.ret ≠ 0 := fun sent => bad ⟨sent, fine⟩
      cases connec_going socket.1 socket.2.1 going processed with
      | inl ok =>
          rw [ok, is_iff] at one
          simp [failed] at one
      | inr two => simpa [two.1] using one.length_eq
    · rw [Dispatch.process_command_connect_req, if_neg socket.1, if_neg socket.2.1, if_neg going,
        if_neg data, Sending.regist_lost serves.msgs fine] at processed
      cases processed
  · simp only [Connec.Known, not_or] at known
    obtain ⟨checked, new, type⟩ := known
    have type : c.newconnec_type = none := by simpa using type
    have ready : ¬(c.protocol = CM_PROT_TLS ∧ !c.kIsTLSInitialize) := by
      rintro ⟨tls, -⟩
      rw [Connec.newconnec_type, tls] at type
      revert type
      decide
    have none_ : ¬c.hasSocket := by
      rintro ⟨-, -, reused | opened⟩
      · exact new reused
      · exact opened.1 type
    have one := @one false p (by simp only [Pending.request, operation, none_, if_false])
    cases connec_going ready checked (fun stuck => stuck.2.1 type) processed with
    | inl ok =>
        rw [ok, is_iff] at one
        simp at one
    | inr two => simpa [two.1] using one.length_eq

end Connec

section Requests

variable {s : Sending} {socketid timeout_timer : Int16}

theorem Serves.send (serves : Serves t p) (operation : d.operation = .send_req s)
    (sound : p.Sound (.request d)) : Performs t p (.request d) := by
  simp only [Pending.Sound, operation] at sound
  obtain ⟨msgs, registered, related⟩ := Sending.regist_fine serves.msgs sound
  have processed : d.process t = d.process_command_send_req s t := by
    rw [Dispatch.process, operation]
  rw [Dispatch.process_command_send_req, registered, Option.map_some] at processed
  have requested : p.request d = ({ p with log := s.registLog p.log }, some (s.ret == 0)) := by
    simp only [Pending.request, operation]
  by_cases sent : s.ret = 0
  · rw [if_pos sent] at processed
    exact performs_of processed requested (by simp [sent]) (serves.with related)
  · rw [if_neg sent] at processed
    exact performs_of processed requested (by simp [sent, ng_ne]) (serves.with related)

theorem send_differs (serves : Serves t p) (operation : d.operation = .send_req s)
    (unsound : ¬p.Sound (.request d)) : Differs t p (.request d) := by
  intro t' acks performed
  simp only [Pending.Sound, operation] at unsound
  rw [perform, Dispatch.process, operation] at performed
  simp [Dispatch.process_command_send_req, Sending.regist_lost serves.msgs unsound] at performed

/-- The timers do not look at the messages. -/
theorem kRecvTimerSet_msgs (t : Timers) (msgs : MsgTable) (g_socket_socketid : Int16)
    (handle : Int32) (socketid : Int16) (sec : Int) (request_num : Int16) (set_time : Timeval) :
    kRecvTimerSet { t with msgs := msgs } g_socket_socketid handle socketid sec request_num set_time =
      (t.kRecvTimerSet g_socket_socketid handle socketid sec request_num set_time).map
        fun (t', ok) => ({ t' with msgs := msgs }, ok) := by
  have linked (new : RecvTimeout) :
      link { t with msgs := msgs } new = (t.link new).map fun (t', ok) => ({ t' with msgs := msgs }, ok) := by
    simp only [link, Option.map_map, Function.comp_def]
  unfold kRecvTimerSet
  dsimp only
  split
  · rfl
  · split
    · rfl
    · split
      · exact linked _
      · split
        · rfl
        · rfl
        · exact linked _

theorem set_log (p : Pending) (log : Log) (g_socket_socketid : Int16) (handle : Int32)
    (socketid : Int16) (sec : Int) (request_num : Int16) (set_time : Timeval) :
    Pending.step { p with log := log }
        (.set g_socket_socketid handle socketid sec request_num set_time) =
      ({ (p.step (.set g_socket_socketid handle socketid sec request_num set_time)).1 with log := log },
        (p.step (.set g_socket_socketid handle socketid sec request_num set_time)).2) := by
  simp only [Pending.step]
  split <;> rfl

theorem Serves.set (serves : Serves t p) (g_socket_socketid : Int16) (handle : Int32)
    (socketid : Int16) (sec : Int) (request_num : Int16) (set_time : Timeval) :
    ∃ t' ok,
      t.kRecvTimerSet g_socket_socketid handle socketid sec request_num set_time = some (t', ok) ∧
      (p.step (.set g_socket_socketid handle socketid sec request_num set_time)).2 = .set ok ∧
      Serves t' (p.step (.set g_socket_socketid handle socketid sec request_num set_time)).1 := by
  obtain ⟨cells, rep⟩ := serves.timers
  obtain ⟨t', ok, cells', set, reply, rep'⟩ :=
    rep.kRecvTimerSet g_socket_socketid handle socketid sec request_num set_time
  have set' := kRecvTimerSet_msgs { t with msgs := {} } t.msgs g_socket_socketid handle socketid sec
    request_num set_time
  rw [set, Option.map_some] at set'
  rw [set_log] at reply rep'
  have log : (p.step (.set g_socket_socketid handle socketid sec request_num set_time)).1.log =
      p.log := by
    simp only [Pending.step]
    split <;> rfl
  refine ⟨{ t' with msgs := t.msgs }, ok, set', reply, ⟨cells', ?_⟩, ?_⟩
  · exact { rep' with related := ⟨[], .empty⟩ }
  · rw [log]
    exact serves.msgs

/-- What a receive request finds. -/
theorem Serves.get (serves : Serves t p) (table : SocketTable) (socketid : Int16) :
    ∃ msgs reply, t.msgs.kDataGetDataBySocketid table socketid = some (msgs, reply) ∧
      Koi.Answers reply (p.log.step (.getBySocketid table socketid)).2 ∧
      Serves { t with msgs := msgs }
        { p with log := (p.log.step (.getBySocketid table socketid)).1 } := by
  obtain ⟨cells, rep⟩ := serves.msgs
  obtain ⟨msgs, reply, cells', got, answers, rep'⟩ := rep.getBySocketid table socketid
  exact ⟨msgs, reply, got, answers, serves.with ⟨cells', rep'⟩⟩

theorem Serves.recv (serves : Serves t p)
    (operation : d.operation = .recv_req socketid timeout_timer)
    (sound : p.Sound (.request d)) : Performs t p (.request d) := by
  simp only [Pending.Sound, operation] at sound
  obtain ⟨msgs, reply, got, answers, serves'⟩ := serves.get d.table socketid
  have same := @step_noData p.log d.table socketid
  have processed : d.process t = d.process_command_recv_req socketid timeout_timer t := by
    rw [Dispatch.process, operation]
  simp only [Dispatch.process_command_recv_req, got] at processed
  have requested : p.request d = p.request d := rfl
  conv at requested => rhs; simp only [Pending.request, operation]
  generalize p.log.step (.getBySocketid d.table socketid) = stepped at *
  obtain ⟨log, reply'⟩ := stepped
  cases reply' with
  | delivered msg =>
      cases answers <;> exact performs_of processed requested (by decide) serves'
  | noData =>
      cases answers
      obtain ⟨t', ok, set, accepted, serves''⟩ := serves'.set d.g_socket_socketid d.handle socketid
        timeout_timer.toInt d.request_num d.time
      have taken := sound rfl
      have same := same rfl
      dsimp only at same
      subst same
      simp only [set, Option.map_some] at processed
      simp only at requested
      change Serves t' (p.step _).1 at serves''
      generalize p.step (.set d.g_socket_socketid d.handle socketid timeout_timer.toInt
        d.request_num d.time) = set_ at *
      obtain ⟨p', answer⟩ := set_
      cases taken
      refine ⟨t', [], processed, ?_, ?_⟩
      · simp only [Pending.perform, requested]
        exact .nil
      · simp only [Pending.perform, requested]
        exact serves''
  | regist | clear | found | ng =>
      cases answers
      exact performs_of processed requested (by decide) serves'

theorem recv_differs (serves : Serves t p)
    (operation : d.operation = .recv_req socketid timeout_timer)
    (unsound : ¬p.Sound (.request d)) : Differs t p (.request d) := by
  intro t' acks performed
  obtain ⟨msgs, reply, got, answers, serves'⟩ := serves.get d.table socketid
  simp only [Pending.Sound, operation, Classical.not_imp] at unsound
  obtain ⟨none_, refused⟩ := unsound
  have same := step_noData none_
  rw [none_] at answers
  cases answers
  obtain ⟨t'', ok, set, accepted, -⟩ := serves'.set d.g_socket_socketid d.handle socketid
    timeout_timer.toInt d.request_num d.time
  simp only [perform, Dispatch.process, operation, Dispatch.process_command_recv_req, got, set,
    Option.map_some, Option.some_inj, Prod.mk.injEq] at performed
  obtain ⟨-, rfl⟩ := performed
  have requested : (p.request d).2 = some false := by
    simp only [Pending.request, operation]
    generalize p.log.step (.getBySocketid d.table socketid) = stepped at none_
    obtain ⟨log, reply⟩ := stepped
    cases none_
    rfl
  have expected : (p.perform (.request d)).2 = [⟨d.handle, d.request_num, false⟩] := by
    simp only [Pending.perform]
    generalize p.request d = requested_ at requested
    obtain ⟨p', answer⟩ := requested_
    cases requested
    rfl
  rw [expected]
  simp

theorem Serves.close (serves : Serves t p) {waittime : Int16} {kCloseTimerSet : Int32}
    (operation : d.operation = .close_req socketid waittime kCloseTimerSet) :
    Performs t p (.request d) := by
  have processed : d.process t =
      some (t, d.process_command_close_req socketid waittime kCloseTimerSet) := by
    rw [Dispatch.process, operation]
  have requested : p.request d = (p, some (!decide (socketid < 0) && !decide (waittime < 0) &&
      kCloseTimerSet == 0)) := by
    simp only [Pending.request, operation]
  rw [Dispatch.process_command_close_req] at processed
  split at processed
  · rename_i negative
    refine performs_of processed requested ?_ serves
    cases negative with
    | inl negative => simp [negative, ng_ne]
    | inr negative => simp [negative, ng_ne]
  · rename_i valid
    rw [not_or] at valid
    split at processed
    · rename_i failed
      exact performs_of processed requested (by simp [failed, ng_ne]) serves
    · rename_i set
      exact performs_of processed requested (by simpa [valid] using set) serves

theorem Serves.wait (serves : Serves t p) {w : Wait} (operation : d.operation = .wait_req w) :
    Performs t p (.request d) := by
  have processed : d.process t = some (t, d.process_command_wait_req w) := by
    rw [Dispatch.process, operation]
  have requested : p.request d =
      (p, some ((w.protocol != CM_PROT_TLS || w.kIsTLSInitialize) && w.ret == 0)) := by
    simp only [Pending.request, operation]
  rw [Dispatch.process_command_wait_req] at processed
  split at processed
  · rename_i noinit
    have off : w.kIsTLSInitialize = false := by simpa using noinit.2
    exact performs_of processed requested (by simp [noinit.1, off, noinit_ne]) serves
  · rename_i ready
    split at processed
    · rename_i failed
      exact performs_of processed requested (by simp [failed, ng_ne]) serves
    · rename_i opened
      have opened : w.ret = 0 := Decidable.not_not.mp opened
      have ready : w.protocol ≠ CM_PROT_TLS ∨ w.kIsTLSInitialize := by
        by_contra other
        simp only [not_or, Decidable.not_not] at other
        exact ready ⟨other.1, by simpa using other.2⟩
      exact performs_of processed requested (by simp [opened, ready]) serves

theorem Serves.sockinfo (serves : Serves t p) (operation : d.operation = .sockinfo_req socketid) :
    Performs t p (.request d) := by
  have processed : d.process t = some (t, d.process_command_sockinfo_req socketid) := by
    rw [Dispatch.process, operation]
  have requested : p.request d = (p, some ((d.table.lookup socketid).any fun si =>
      si.si_type != .SI_TYPE_UNIX && si.si_type != .SI_TYPE_UNIX_DATA)) := by
    simp only [Pending.request, operation]
  rw [Dispatch.process_command_sockinfo_req] at processed
  cases found : d.table.lookup socketid with
  | none =>
      rw [MsgTable.kSocketGetSIBySocketId_none found] at processed
      rw [found] at requested
      exact performs_of processed requested (by decide) serves
  | some si =>
      rw [MsgTable.kSocketGetSIBySocketId_some found] at processed
      simp only [Infos.copy_si_type] at processed
      simp only [found, Option.any_some] at requested
      cases type : si.si_type with
      | SI_TYPE_UNIX | SI_TYPE_UNIX_DATA =>
          rw [type] at processed requested
          exact performs_of processed requested (by decide) serves
      | SI_TYPE_UDP | SI_TYPE_DATA | SI_TYPE_LISTEN_UDP | SI_TYPE_LISTEN_TCP | SI_TYPE_RAW =>
          rw [type] at processed requested
          exact performs_of processed requested (by decide) serves

theorem Serves.datainfo (serves : Serves t p) {dataid : Int}
    (operation : d.operation = .datainfo_req dataid) : Performs t p (.request d) := by
  obtain ⟨cells, rep⟩ := serves.msgs
  have processed : d.process t = d.process_command_datainfo_req dataid t := by
    rw [Dispatch.process, operation]
  have requested : p.request d =
      (p, some (p.log.messages.any fun msg => msg.msg_dataid == dataid)) := by
    simp only [Pending.request, operation]
  rw [Dispatch.process_command_datainfo_req, rep.kDataGetDataByDataid, Option.map_some] at processed
  have step : (p.log.step (.getByDataid dataid)).2 =
      (p.log.messages.find? fun msg => msg.msg_dataid == dataid).elim .noData .found := by
    cases found : p.log.messages.find? fun msg => msg.msg_dataid == dataid with
    | none => simp only [Log.step, found, Option.elim_none]
    | some msg => simp only [Log.step, found, Option.elim_some]
  have any : (p.log.messages.any fun msg => msg.msg_dataid == dataid) =
      (p.log.messages.find? fun msg => msg.msg_dataid == dataid).isSome := by
    rw [Bool.eq_iff_iff, List.find?_isSome, List.any_eq_true]
  cases found : p.log.messages.find? fun msg => msg.msg_dataid == dataid with
  | none =>
      simp only [step, found, Option.elim_none] at processed
      rw [any, found] at requested
      exact performs_of processed requested (by decide) serves
  | some msg =>
      simp only [step, found, Option.elim_some] at processed
      rw [any, found] at requested
      exact performs_of processed requested (iff_of_true rfl rfl) serves

theorem Serves.flush (serves : Serves t p) {socketid_flag dataid_flag : Int16} {dataid : Int}
    (operation : d.operation = .flush_req socketid_flag dataid_flag socketid dataid) :
    Performs t p (.request d) := by
  obtain ⟨cells, rep⟩ := serves.msgs
  obtain ⟨msgs, ok, cells', cleared, reply, rep'⟩ :=
    rep.clear socketid_flag dataid_flag socketid dataid
  have processed : d.process t =
      d.process_command_flush_req socketid_flag dataid_flag socketid dataid t := by
    rw [Dispatch.process, operation]
  rw [Dispatch.process_command_flush_req, cleared, Option.map_some] at processed
  have serves' := serves.with ⟨cells', rep'⟩
  have requested : p.request d = (⟨p.timers, (p.log.step (.clear socketid_flag dataid_flag socketid
      dataid)).1⟩, some ok) := by
    simp only [Pending.request, operation, ← reply]
    cases ok <;> rfl
  cases ok with
  | false => exact performs_of processed requested (by decide) serves'
  | true => exact performs_of processed requested (by decide) serves'

theorem Serves.tls_setup (serves : Serves t p) {kTLSInitialize : Int32}
    (operation : d.operation = .tls_setup_req kTLSInitialize) : Performs t p (.request d) := by
  have processed : d.process t = some (t, d.process_command_tls_setup_req kTLSInitialize) := by
    rw [Dispatch.process, operation]
  have requested : p.request d = (p, some (kTLSInitialize == RETURN_OK)) := by
    simp only [Pending.request, operation]
  rw [Dispatch.process_command_tls_setup_req] at processed
  split at processed
  · rename_i failed
    exact performs_of processed requested (by simpa [ng_ne, RETURN_OK] using failed) serves
  · rename_i done
    exact performs_of processed requested (by simpa [RETURN_OK] using done) serves

theorem tls_clear_differs (operation : d.operation = .tls_clear_req socketid) :
    Differs t p (.request d) := by
  intro t' acks performed same
  simp only [Pending.perform, Pending.request, operation] at same
  simp only [perform, Dispatch.process, operation, Option.some_inj, Prod.mk.injEq] at performed
  obtain ⟨-, rfl⟩ := performed
  exact ng_ne ((is_iff.mp same).mpr rfl)

theorem Serves.parser_attach (serves : Serves t p) {done : Bool}
    (operation : d.operation = .parser_attach_req done) : Performs t p (.request d) := by
  have processed : d.process t = some (t, d.process_command_parser_attach_req done) := by
    rw [Dispatch.process, operation]
  have requested : p.request d = (p, some done) := by
    simp only [Pending.request, operation]
  exact performs_of processed requested (by cases done <;> decide) serves

end Requests

/-! ## The other tasks -/

section Tasks

variable {table : SocketTable} {socketid : Int16} {data : List UInt8} {datatime : Timeval}
variable {current_time : Timeval}

theorem Serves.arrive (serves : Serves t p)
    (sound : p.Sound (.arrive table socketid data datatime)) :
    Performs t p (.arrive table socketid data datatime) := by
  obtain ⟨msgs, ok, registered, related⟩ := serves.msgs.regist sound
  refine ⟨{ t with msgs := msgs }, [], ?_, .nil, serves.with related⟩
  simp only [perform, registered, Option.map_some]

theorem arrive_differs (serves : Serves t p)
    (unsound : ¬p.Sound (.arrive table socketid data datatime)) :
    Differs t p (.arrive table socketid data datatime) := by
  intro t' acks performed
  simp only [perform, serves.msgs.regist_lost unsound, Option.map_none] at performed
  cases performed

/-- A sweep in which nothing is due. -/
theorem Serves.proc (serves : Serves t p) (sound : p.Sound (.proc table current_time)) :
    Performs t p (.proc table current_time) := by
  obtain ⟨cells, rep⟩ := serves.timers
  have swept := @sweep_quiet table current_time p.timers p.log sound
  have expected : p.perform (.proc table current_time) = (p, []) := by
    simp only [Pending.perform, swept, List.map_nil]
  rw [Performs, expected]
  by_cases empty : t.g_rt_num = 0
  · refine ⟨t, [], ?_, .nil, serves⟩
    simp only [perform, kRecvTimerProc, empty, if_true, Option.map_some, List.map_nil]
  · obtain ⟨msgs, passed, related⟩ := @procFrom_quiet table current_time t p.log cells
      t.g_rt_start_ptr t.heap.length rep.linked.seg rep.linked.length_le serves.msgs
      ((rep.quiet_cells _).mp sound)
    refine ⟨{ t with msgs := msgs }, [], ?_, .nil, serves.with related⟩
    simp only [perform, kRecvTimerProc, empty, if_false, passed, Option.map_some, List.map_nil]

/-- A sweep that finds a timer to answer goes on at a freed node. -/
theorem proc_differs (serves : Serves t p) (unsound : ¬p.Sound (.proc table current_time)) :
    Differs t p (.proc table current_time) := by
  intro t' acks performed
  obtain ⟨cells, rep⟩ := serves.timers
  have due : ∃ cell ∈ cells, ¬Quiet table current_time p.log cell.2 := by
    by_contra none_
    apply unsound
    apply (rep.quiet_cells (Quiet table current_time p.log)).mpr
    intro cell mem
    by_contra here
    exact none_ ⟨cell, mem, here⟩
  have some_ : t.g_rt_num ≠ 0 := by
    rw [ne_eq, rep.num_zero]
    rintro rfl
    simp at due
  have unique := rep.unique
  rw [rep.timers, List.map_map] at unique
  have stuck := @procFrom_due table current_time t p.log cells [] t.g_rt_start_ptr t.heap.length _
    rfl rep.linked rep.linked.seg unique ((rep.quiet_cells _).mp rep.positive) serves.msgs due
  simp only [perform, kRecvTimerProc, some_, if_false, stuck, Option.map_none] at performed
  cases performed

end Tasks

/-! ## Every run -/

theorem performs (serves : Serves t p) {task : Task} (sound : p.Sound task) : Performs t p task := by
  cases task with
  | request d =>
      cases operation : d.operation with
      | connec_req c => exact serves.connec operation sound
      | send_req s => exact serves.send operation sound
      | recv_req socketid timeout_timer => exact serves.recv operation sound
      | close_req socketid waittime kCloseTimerSet => exact serves.close operation
      | wait_req w => exact serves.wait operation
      | sockinfo_req socketid => exact serves.sockinfo operation
      | datainfo_req dataid => exact serves.datainfo operation
      | flush_req socketid_flag dataid_flag socketid dataid => exact serves.flush operation
      | tls_setup_req kTLSInitialize => exact serves.tls_setup operation
      | tls_clear_req socketid =>
          simp only [Pending.Sound, operation] at sound
      | parser_attach_req done => exact serves.parser_attach operation
  | arrive table socketid data datatime => exact serves.arrive sound
  | proc table current_time => exact serves.proc sound

theorem differs (serves : Serves t p) {task : Task} (unsound : ¬p.Sound task) :
    Differs t p task := by
  cases task with
  | request d =>
      cases operation : d.operation with
      | connec_req c => exact connec_differs serves operation unsound
      | send_req s => exact send_differs serves operation unsound
      | recv_req socketid timeout_timer => exact recv_differs serves operation unsound
      | tls_clear_req socketid => exact tls_clear_differs operation
      | close_req | wait_req | sockinfo_req | datainfo_req | flush_req | tls_setup_req
      | parser_attach_req =>
          simp [Pending.Sound, operation] at unsound
  | arrive table socketid data datatime => exact arrive_differs serves unsound
  | proc table current_time => exact proc_differs serves unsound

theorem simulates_perform : Refinement.Simulates perform Pending.perform Pending.Sound
    (List.Forall₂ Ack.Is) Serves :=
  fun _ _ _ serves sound => performs serves sound

end Timers

/-- The number of the request that comes with a task. -/
def Task.request_nums : Task → List Int16
  | .request d => [d.request_num]
  | _ => []

namespace Pending

def request_nums (p : Pending) : List Int16 := p.timers.map RecvTimeout.rt_request_num

theorem set_cases (p : Pending) (g_socket_socketid : Int16) (handle : Int32) (socketid : Int16)
    (sec : Int) (request_num : Int16) (set_time : Timeval) :
    p.step (.set g_socket_socketid handle socketid sec request_num set_time) = (p, .set false) ∨
      p.step (.set g_socket_socketid handle socketid sec request_num set_time) =
        ({ p with timers := p.timers ++ [.build handle socketid sec request_num set_time] },
          .set true) := by
  rw [step]
  split
  · exact .inl rfl
  · exact .inr rfl

/-- A request is answered, or waits behind the others. -/
theorem request_cases (p : Pending) (d : Dispatch) :
    (∃ ok, (p.request d).2 = some ok ∧ (p.request d).1.timers = p.timers) ∨
      (p.request d).2 = none ∧ (p.request d).1.request_nums = p.request_nums ++ [d.request_num] := by
  unfold request
  cases d.operation with
  | connec_req c =>
      dsimp only
      split
      · split <;> exact .inl ⟨_, rfl, rfl⟩
      · exact .inl ⟨_, rfl, rfl⟩
  | recv_req socketid timeout_timer =>
      dsimp only
      split
      · exact .inl ⟨_, rfl, rfl⟩
      · cases p.set_cases d.g_socket_socketid d.handle socketid timeout_timer.toInt d.request_num
            d.time with
        | inl refused =>
            rw [refused]
            exact .inl ⟨_, rfl, rfl⟩
        | inr accepted =>
            rw [accepted]
            exact .inr ⟨rfl, by simp [request_nums, RecvTimeout.build]⟩
      · exact .inl ⟨_, rfl, rfl⟩
  | send_req | close_req | wait_req | sockinfo_req | datainfo_req | flush_req | tls_setup_req
  | tls_clear_req | parser_attach_req => exact .inl ⟨_, rfl, rfl⟩

/-- A task turns the number of its request, and those that wait, into acks and those that wait
    then. -/
theorem perform_perm (p : Pending) (task : Task) :
    List.Perm ((p.perform task).2.map Expected.request_num ++ (p.perform task).1.request_nums)
      (task.request_nums ++ p.request_nums) := by
  cases task with
  | request d =>
      rw [perform]
      have cases_ := p.request_cases d
      generalize p.request d = requested at cases_
      obtain ⟨p', answer⟩ := requested
      cases cases_ with
      | inl answered =>
          obtain ⟨ok, some_, same⟩ := answered
          cases some_
          rw [request_nums, same]
          exact .refl _
      | inr waits =>
          obtain ⟨none_, behind⟩ := waits
          cases none_
          dsimp only at behind ⊢
          rw [behind]
          exact @List.perm_append_comm _ p.request_nums [d.request_num]
  | arrive table socketid data datatime => exact .refl _
  | proc table current_time =>
      have swept := sweep_perm table current_time p.timers p.log
      simp only [perform, request_nums, Task.request_nums, List.map_map, List.nil_append]
      exact swept

/-- Over a run, each request has been answered once, or waits. -/
theorem perform_run_perm (p : Pending) (tasks : List Task) :
    List.Perm
      ((Refinement.specRun perform p tasks).2.flatten.map Expected.request_num ++
        (Refinement.specRun perform p tasks).1.request_nums)
      (tasks.flatMap Task.request_nums ++ p.request_nums) := by
  induction tasks generalizing p with
  | nil => exact .refl _
  | cons task tasks ih =>
      have first := p.perform_perm task
      have rest := ih (p.perform task).1
      simp only [Refinement.specRun, List.flatten_cons, List.map_append, List.flatMap_cons,
        List.append_assoc]
      refine (rest.append_left _).trans ((List.perm_append_comm_assoc _ _ _).trans ?_)
      exact (first.append_left _).trans (List.perm_append_comm_assoc _ _ _)

end Pending

namespace Timers

/-- Each request has one ack with its number, whose result is OK if and only if its operation
    has succeeded, or it is a receive request that waits for its ack. -/
def AcksEach (tasks : List Task) : Prop :=
  ∃ t acks, Refinement.run perform {} tasks = some (t, acks) ∧
    List.Forall₂ (List.Forall₂ Ack.Is) acks (Refinement.specRun Pending.perform .nothing tasks).2 ∧
    List.Perm
      (acks.flatten.map Ack.request_num ++
        (Refinement.specRun Pending.perform .nothing tasks).1.request_nums)
      (tasks.flatMap Task.request_nums)

theorem request_nums_eq {acks : List (List Ack)} {expected : List (List Expected)}
    (each : List.Forall₂ (List.Forall₂ Ack.Is) acks expected) :
    acks.flatten.map Ack.request_num = expected.flatten.map Expected.request_num := by
  have one {acks : List Ack} {expected : List Expected} (each : List.Forall₂ Ack.Is acks expected) :
      acks.map Ack.request_num = expected.map Expected.request_num := by
    induction each with
    | nil => rfl
    | cons first _ ih => rw [List.map_cons, List.map_cons, ih, first.2.1]
  induction each with
  | nil => rfl
  | cons first _ ih =>
      rw [List.flatten_cons, List.flatten_cons, List.map_append, List.map_append, ih, one first]

/-- That is so if and only if every task of the run is a sound one. -/
theorem acksEach_iff (tasks : List Task) :
    AcksEach tasks ↔ Refinement.Allowed Pending.perform Pending.Sound {} tasks := by
  have serves : Serves {} {} := ⟨⟨[], .empty⟩, [], .empty⟩
  constructor
  · rintro ⟨t, acks, ran, each, -⟩
    apply simulates_perform.allowed_of_replies _ serves ran each
    intro t p task serves unsound t' acks performed
    exact differs serves unsound t' acks performed
  · intro sound
    obtain ⟨t, acks, ran, each, -⟩ := simulates_perform.run serves sound
    refine ⟨t, acks, ran, each, ?_⟩
    have perm := Pending.perform_run_perm {} tasks
    rw [request_nums_eq each]
    simpa [Pending.request_nums] using perm

/-- A connect request whose data can not be sent. -/
theorem not_acksEach :
    ¬AcksEach [.request
      { handle := 4
        request_num := 7
        table := ⟨[], by decide⟩
        g_socket_socketid := 1
        time := ⟨0, 0⟩
        operation := .connec_req
          { protocol := CM_PROT_TCP, datalen := 1, kSocketSend := ⟨RETURN_NG, none⟩ } }] := by
  rintro ⟨t, acks, ran, each, -⟩
  cases ran
  cases each with
  | cons first _ => exact absurd first.length_eq (by decide)

end Timers

end Tahi.Koi
