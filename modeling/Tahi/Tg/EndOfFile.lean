import Mathlib.Logic.Relation
import Tahi.Tg.TgSession

/-! # Requests for sockets that are gone

What the manager waits for about a socket is to be answered also when the socket is closed at an end
of file.
-/

namespace Tahi.Tg

open Cm
open BitField (Octet)

variable {T A C : Type}

namespace TgSession

/-- The manager waits for an answer. -/
def Pending (s : TgSession T A C) (id : Id) (stat : ReqStatus) : Prop :=
  s.ctrl.requests_.find id stat ≠ none

/-- A request has not reached the agent, or its answer has not reached the manager. -/
def UnderWay (s : TgSession T A C) (id : Id) (stat : ReqStatus) : Prop :=
  (∃ r ∈ s.requests, r.indication.asks = some (id, stat)) ∨
    ∃ r ∈ s.responses, r.answers = some (id, stat)

/-- Nothing is under way, and the manager waits for an answer about a socket that the agent does not
    have any more. -/
def Stuck (s : TgSession T A C) : Prop :=
  s.requests = [] ∧ s.responses = [] ∧
    ∃ id ∈ s.closed, s.server.findAgent id = none ∧
      ∃ stat : ReqStatus, stat.onSocket = true ∧ s.Pending id stat

/-- What is closed at an end of file is not at work: no request to send, to send and receive or to
    tell what is received has reached the agent and not been answered. -/
def Answered (s : TgSession T A C) : TgEvent T A C → Prop
  | .inputReady id received _ _ _ =>
      s.server.endOfFile id received = true →
        ∀ stat ∈ [ReqStatus.send, .sendRecv, .recvTerm], s.Pending id stat → s.UnderWay id stat
  | _ => True

section

variable [DecidableEq T] [DecidableEq A]

inductive Step (s s' : TgSession T A C) : Prop where
  | event (e : TgEvent T A C) (allowed : s.Allowed e) (eq : s' = s.next e)

inductive AnsweredStep (s s' : TgSession T A C) : Prop where
  | event (e : TgEvent T A C) (allowed : s.Allowed e) (answered : s.Answered e) (eq : s' = s.next e)

end

variable {s s' : TgSession T A C} {id : Id} {stat : ReqStatus} {r : TgResponse A}
  {rs : List (TgResponse A)}

/-- What the manager waits for is under way. -/
def Expected (s : TgSession T A C) (id : Id) (stat : ReqStatus) : Prop :=
  s.Pending id stat → s.UnderWay id stat

theorem Expected.serve (expected : s.Expected id stat) (res : TgServer.Result A)
    (closed : List Id) : (s.serve res closed).Expected id stat := by
  intro pending
  cases expected pending with
  | inl asked => exact .inl asked
  | inr told =>
      obtain ⟨r, mem, answers⟩ := told
      exact .inr ⟨r, List.mem_append_left _ mem, answers⟩

/-- What the manager waits for about a socket that is gone is under way, and so is always what is
    answered at once. -/
structure Inv (s : TgSession T A C) : Prop where
  nodup : (s.ctrl.requests_.map TgReqElm.key).Nodup
  atOnce : ∀ id {stat : ReqStatus}, stat.atOnce = true → s.Expected id stat
  gone : ∀ id ∈ s.closed, s.server.findAgent id = none
  closed : ∀ id ∈ s.closed, ∀ stat : ReqStatus, stat.onSocket = true → s.Expected id stat

theorem inv_new (rno_base : ℕ) : Inv (new rno_base : TgSession T A C) where
  nodup := List.nodup_nil
  atOnce _ _ _ pending := absurd rfl pending
  gone _ mem := by cases mem
  closed _ mem := by cases mem

theorem onSocket_of_atOnce (now : stat.atOnce = true) : stat.onSocket = true := by
  cases stat with
  | recv | recvSend | close => rfl
  | open_ | listen | accept | connect | send | sendRecv | recvTerm => cases now

theorem mem_of_onSocket (on : stat.onSocket = true) (later : ¬ stat.atOnce = true) :
    stat ∈ [ReqStatus.send, .sendRecv, .recvTerm] := by
  cases stat with
  | send | sendRecv | recvTerm => decide
  | recv | recvSend | close => exact absurd rfl later
  | open_ | listen | accept | connect => cases on

theorem mem_serve {res : TgServer.Result A} {closed : List Id}
    (mem : id ∈ (s.serve res closed).closed) :
    id ∈ closed ∧ (s.serve res closed).server.findAgent id = none := by
  obtain ⟨mem, gone⟩ := List.mem_filter.mp mem
  exact ⟨mem, Option.isNone_iff_eq_none.mp gone⟩

/-- A step of a socket or a listener, when nothing that is waited for is lost. -/
theorem Inv.serve (inv : Inv s) (res : TgServer.Result A) {closed : List Id}
    (expected : ∀ id ∈ closed, ∀ stat : ReqStatus, stat.onSocket = true → s.Expected id stat) :
    Inv (s.serve res closed) where
  nodup := inv.nodup
  atOnce id _ now := (inv.atOnce id now).serve res closed
  gone _ mem := (mem_serve mem).2
  closed id mem stat on := (expected id (mem_serve mem).1 stat on).serve res closed

theorem Inv.not_stuck (inv : Inv s) : ¬ s.Stuck := by
  rintro ⟨requests, responses, id, mem, _, stat, on, pending⟩
  cases inv.closed id mem stat on pending with
  | inl asked =>
      obtain ⟨r, mem, _⟩ := asked
      rw [requests] at mem
      cases mem
  | inr told =>
      obtain ⟨r, mem, _⟩ := told
      rw [responses] at mem
      cases mem

/-- The agent takes a request. -/
theorem Expected.request (expected : s.Expected id stat) {r : TgRequest A}
    {rs : List (TgRequest A)} (requests : s.requests = r :: rs)
    (now : s.server.findAgent id = none ∨ stat.atOnce = true) (calls : SystemCalls A)
    (closed : List Id) :
    ({ s with requests := rs }.serve (s.server.analizeRequest r calls) closed).Expected id stat := by
  intro pending
  cases expected pending with
  | inl asked =>
      obtain ⟨r', mem, asks⟩ := asked
      rw [requests] at mem
      cases List.mem_cons.mp mem with
      | inl head =>
          subst head
          obtain ⟨r, mem, answers⟩ := TgServer.analizeRequest_answers asks now calls
          exact .inr ⟨r, List.mem_append_right _ mem, answers⟩
      | inr mem => exact .inl ⟨r', mem, asks⟩
  | inr told =>
      obtain ⟨r, mem, answers⟩ := told
      exact .inr ⟨r, List.mem_append_left _ mem, answers⟩

theorem Inv.request (inv : Inv s) {r : TgRequest A} {rs : List (TgRequest A)}
    (requests : s.requests = r :: rs) (calls : SystemCalls A) :
    Inv ({ s with requests := rs }.serve (s.server.analizeRequest r calls) s.closed) where
  nodup := inv.nodup
  atOnce id _ now := (inv.atOnce id now).request requests (.inr now) calls s.closed
  gone _ mem := (mem_serve mem).2
  closed id mem stat on := by
    have mem := (mem_serve mem).1
    exact (inv.closed id mem stat on).request requests (.inl (inv.gone id mem)) calls s.closed

/-- Nothing answers the request any more. -/
structure Lost (s : TgSession T A C) (id : Id) (stat : ReqStatus) : Prop where
  mem : id ∈ s.closed
  absent : s.server.findAgent id = none
  on : stat.onSocket = true
  pending : s.Pending id stat
  unasked : ¬ s.UnderWay id stat

theorem Lost.request (lost : s.Lost id stat) {r : TgRequest A} {rs : List (TgRequest A)}
    (requests : s.requests = r :: rs) {calls : SystemCalls A} (fails : calls.made = none) :
    ({ s with requests := rs }.serve (s.server.analizeRequest r calls) s.closed).Lost id stat := by
  have other : r.indication.asks ≠ some (id, stat) := fun asks =>
    lost.unasked (.inl ⟨r, requests ▸ List.mem_cons_self, asks⟩)
  obtain ⟨absent, answers⟩ := TgServer.spares_analizeRequest lost.absent other fails
  refine ⟨List.mem_filter.mpr ⟨lost.mem, ?_⟩, absent, lost.on, lost.pending, ?_⟩
  · rw [absent]
    rfl
  · rintro (⟨r', mem, asks⟩ | ⟨r', mem, answers'⟩)
    · exact lost.unasked (.inl ⟨r', requests ▸ List.mem_cons_of_mem r mem, asks⟩)
    · cases List.mem_append.mp mem with
      | inl mem => exact lost.unasked (.inr ⟨r', mem, answers'⟩)
      | inr mem => exact answers r' mem answers'

variable [DecidableEq T] [DecidableEq A]

theorem Expected.operation (expected : s.Expected id stat) (on : stat.onSocket = true)
    {c : AgntCall T A C} (operation : c.Operation) (info : TrafficRequest) :
    (s.call c info).Expected id stat := by
  have before (pending : s.Pending id stat) : (s.call c info).UnderWay id stat := by
    cases expected pending with
    | inl asked =>
        obtain ⟨r, mem, asks⟩ := asked
        exact .inl ⟨r, List.mem_append_left _ mem, asks⟩
    | inr told => exact .inr told
  intro pending
  cases TgAgntCtrl.leaves_operation (s := s.ctrl) operation s.rno_base with
  | inl same =>
      apply before
      rw [Pending, TgSession.call, same] at pending
      exact pending
  | inr left =>
      obtain ⟨re, added, sends⟩ := left
      rw [Pending, TgSession.call, added] at pending
      cases TgAgntCtrl.find_add pending with
      | inl old => exact before old
      | inr key =>
          have stat' : re.stat_ = stat := congrArg Prod.snd key
          obtain ⟨i, sent, asks⟩ := sends (stat' ▸ on)
          refine .inl ⟨⟨i, info⟩, List.mem_append_right _ ?_, asks.trans (congrArg some key)⟩
          rw [sent]
          exact List.mem_singleton_self _

/-- The manager takes a response: of what is about connections, only the request that is answered
    goes. -/
structure Taken (s s' : TgSession T A C) (r : TgResponse A) (rs : List (TgResponse A)) : Prop where
  requests : s'.requests = s.requests
  server : s'.server = s.server
  responses : s'.responses = rs
  closed : s'.closed = s.closed
  nodup : (s.ctrl.requests_.map TgReqElm.key).Nodup → (s'.ctrl.requests_.map TgReqElm.key).Nodup
  answered : (s.ctrl.requests_.map TgReqElm.key).Nodup → ∀ {id stat},
    r.answers = some (id, stat) → ¬ s'.Pending id stat
  others : ∀ {id stat}, stat.onSocket = true → r.answers ≠ some (id, stat) →
    (s'.Pending id stat ↔ s.Pending id stat)

theorem taken (responses : s.responses = r :: rs) : Taken s (s.next .response) r rs := by
  rw [next, responses]
  simp only
  cases answers : r.answers with
  | some k =>
      obtain ⟨c, called, sent, requests⟩ :=
        TgAgntCtrl.requests_answers (s := s.ctrl) answers s.rno_base
      rw [called]
      refine ⟨?_, rfl, rfl, rfl, fun nodup => ?_, fun nodup id stat same => ?_,
        fun {id stat} _ ne => ?_⟩
      · simp only [TgSession.call, sent, Option.map_none, Option.toList_none, List.append_nil]
      · simp only [TgSession.call, requests]
        exact CmSet.nodup_remove nodup
      · cases answers.symm.trans same
        simp only [Pending, TgSession.call, requests, not_not]
        exact CmSet.find_remove_self nodup
      · simp only [Pending, TgSession.call, requests]
        rw [TgReqCltn.find, CmSet.find_remove_of_ne fun same => ne (answers.trans (congrArg some same.symm))]
        rfl
  | none =>
      cases called : r.call (T := T) (C := C) with
      | none =>
          refine ⟨rfl, rfl, rfl, rfl, fun nodup => nodup, fun _ _ _ same => ?_, fun _ _ => Iff.rfl⟩
          cases answers.symm.trans same
      | some c =>
          obtain ⟨sent, requests⟩ :=
            TgAgntCtrl.requests_others (s := s.ctrl) answers called s.rno_base
          refine ⟨?_, rfl, rfl, rfl, fun nodup => ?_, fun _ _ _ same => ?_, fun {id stat} on _ => ?_⟩
          · simp only [TgSession.call, sent, Option.map_none, Option.toList_none, List.append_nil]
          · cases requests with
            | inl same =>
                simp only [TgSession.call, same]
                exact nodup
            | inr other =>
                obtain ⟨k, _, removed⟩ := other
                simp only [TgSession.call, removed]
                exact CmSet.nodup_remove nodup
          · cases answers.symm.trans same
          · cases requests with
            | inl same => simp only [Pending, TgSession.call, same]
            | inr other =>
                obtain ⟨k, off, removed⟩ := other
                have ne : (id, stat) ≠ k := by
                  rintro rfl
                  exact Bool.false_ne_true (off.symm.trans on)
                simp only [Pending, TgSession.call, removed]
                rw [TgReqCltn.find, CmSet.find_remove_of_ne ne]
                rfl

theorem Expected.response (expected : s.Expected id stat) (on : stat.onSocket = true)
    (nodup : (s.ctrl.requests_.map TgReqElm.key).Nodup) (responses : s.responses = r :: rs) :
    (s.next .response).Expected id stat := by
  have taken := taken responses
  intro pending
  have ne : r.answers ≠ some (id, stat) := fun same => taken.answered nodup same pending
  cases expected ((taken.others on ne).mp pending) with
  | inl asked => exact .inl (taken.requests.symm ▸ asked)
  | inr told =>
      obtain ⟨r', mem, answers⟩ := told
      rw [responses] at mem
      cases List.mem_cons.mp mem with
      | inl head => exact absurd (head ▸ answers) ne
      | inr mem => exact .inr ⟨r', taken.responses.symm ▸ mem, answers⟩

/-! ## Runs -/

theorem Inv.operation (inv : Inv s) {c : AgntCall T A C} (operation : c.Operation)
    (info : TrafficRequest) : Inv (s.call c info) where
  nodup := by
    cases TgAgntCtrl.leaves_operation (s := s.ctrl) operation s.rno_base with
    | inl same =>
        simp only [TgSession.call, same]
        exact inv.nodup
    | inr left =>
        obtain ⟨re, added, _⟩ := left
        simp only [TgSession.call, added]
        exact CmSet.nodup_add inv.nodup
  atOnce id _ now := (inv.atOnce id now).operation (onSocket_of_atOnce now) operation info
  gone := inv.gone
  closed id mem stat on := (inv.closed id mem stat on).operation on operation info

theorem Inv.response (inv : Inv s) (responses : s.responses = r :: rs) :
    Inv (s.next .response) where
  nodup := (taken responses).nodup inv.nodup
  atOnce id _ now := (inv.atOnce id now).response (onSocket_of_atOnce now) inv.nodup responses
  gone id mem := by
    rw [(taken responses).server]
    exact inv.gone id ((taken responses).closed ▸ mem)
  closed id mem stat on :=
    (inv.closed id ((taken responses).closed ▸ mem) stat on).response on inv.nodup responses

theorem Inv.step (inv : Inv s) {e : TgEvent T A C} (allowed : s.Allowed e)
    (answered : s.Answered e) : Inv (s.next e) := by
  cases e with
  | operation c count length interval => exact inv.operation allowed _
  | request calls =>
      cases requests : s.requests with
      | nil => exact absurd requests allowed.1
      | cons r rs =>
          rw [next, requests]
          exact inv.request requests calls
  | response =>
      cases responses : s.responses with
      | nil => exact absurd responses allowed
      | cons r rs => exact inv.response responses
  | inputReady id received errno stack sendto =>
      apply inv.serve
      by_cases eof : s.server.endOfFile id received = true
      · rw [if_pos eof]
        intro id' mem stat on
        cases List.mem_cons.mp mem with
        | inl same =>
            subst same
            by_cases now : stat.atOnce = true
            · exact inv.atOnce id' now
            · exact answered eof stat (mem_of_onSocket on now)
        | inr old => exact inv.closed id' old stat on
      · rw [if_neg eof]
        exact inv.closed
  | timerExpired id stack sendto => exact inv.serve _ inv.closed
  | accept id fd peer => exact inv.serve _ inv.closed

theorem inv_of_run {rno_base : ℕ} (run : Relation.ReflTransGen AnsweredStep (new rno_base) s) :
    Inv s := by
  induction run with
  | refl => exact inv_new rno_base
  | tail _ step inv =>
      obtain ⟨e, allowed, answered, rfl⟩ := step
      exact inv.step allowed answered

theorem Lost.response (lost : s.Lost id stat) (responses : s.responses = r :: rs) :
    (s.next .response).Lost id stat := by
  have taken := taken responses
  have other : r.answers ≠ some (id, stat) := fun answers =>
    lost.unasked (.inr ⟨r, responses ▸ List.mem_cons_self, answers⟩)
  refine ⟨taken.closed.symm ▸ lost.mem, ?_, lost.on, (taken.others lost.on other).mpr lost.pending,
    ?_⟩
  · rw [taken.server]
    exact lost.absent
  · rintro (asked | ⟨r', mem, answers⟩)
    · exact lost.unasked (.inl (taken.requests ▸ asked))
    · rw [taken.responses] at mem
      exact lost.unasked (.inr ⟨r', responses ▸ List.mem_cons_of_mem r mem, answers⟩)

/-- The agent takes all requests, and can make no new socket. -/
theorem Lost.drained (lost : s.Lost id stat) (addr : A) :
    ∃ s', Relation.ReflTransGen AnsweredStep s s' ∧ s'.requests = [] ∧ s'.Lost id stat := by
  generalize left : s.requests = rs
  induction rs generalizing s with
  | nil => exact ⟨s, .refl, left, lost⟩
  | cons r rs ih =>
      let calls : SystemCalls A := ⟨none, 1, false, addr, none, fun _ => 0, .sent⟩
      have fails : calls.made = none := rfl
      obtain ⟨s', run, empty, lost'⟩ := ih (lost.request left fails) rfl
      refine ⟨s', .head ⟨.request calls, ⟨?_, fun _ made => by cases made⟩, trivial, ?_⟩ run, empty,
        lost'⟩
      · rw [left]
        exact List.cons_ne_nil r rs
      · rw [next, left]

theorem Lost.stuck (lost : s.Lost id stat) :
    ∃ s', Relation.ReflTransGen AnsweredStep s s' ∧ s'.Stuck := by
  obtain ⟨re, _⟩ := Option.ne_none_iff_exists'.mp lost.pending
  obtain ⟨s₁, run₁, requests, lost⟩ := lost.drained re.addr_
  generalize left : s₁.responses = rs at lost
  induction rs generalizing s₁ with
  | nil =>
      exact ⟨s₁, run₁, requests, left, id, lost.mem, lost.absent, stat, lost.on, lost.pending⟩
  | cons r rs ih =>
      have taken := taken left
      refine ih _ (run₁.tail ⟨.response, ?_, trivial, rfl⟩) (taken.requests.trans requests)
        (lost.response left) taken.responses
      change s₁.responses ≠ []
      rw [left]
      exact List.cons_ne_nil r rs

/-- What the closed socket had not answered is lost. -/
theorem lost_of_endOfFile {received : Option (List Octet)} (errno : BitVec 32)
    (stack : ℕ → Octet) (sendto : SendResult) (eof : s.server.endOfFile id received = true)
    (on : stat.onSocket = true) (pending : s.Pending id stat) (unasked : ¬ s.UnderWay id stat) :
    (s.next (.inputReady id received errno stack sendto)).Lost id stat := by
  have closes := TgServer.inputReady_of_endOfFile (A := A) eof errno stack sendto
  have absent : (s.server.removeAgent id).findAgent id = none := Function.update_self ..
  rw [next, closes, if_pos eof]
  refine ⟨List.mem_filter.mpr ⟨List.mem_cons_self, ?_⟩, absent, on, pending, ?_⟩
  · rw [absent]
    rfl
  · rintro (asked | ⟨r, mem, answers⟩)
    · exact unasked (.inl asked)
    · cases List.mem_append.mp mem with
      | inl mem => exact unasked (.inr ⟨r, mem, answers⟩)
      | inr mem =>
          rw [List.mem_singleton.mp mem] at answers
          cases answers

theorem lost_of_not_answered {e : TgEvent T A C} (unanswered : ¬ s.Answered e) :
    ∃ id stat, (s.next e).Lost id stat := by
  cases e with
  | inputReady id received errno stack sendto =>
      simp only [Answered, Classical.not_imp, not_forall] at unanswered
      obtain ⟨eof, stat, mem, pending, unasked⟩ := unanswered
      have on : stat.onSocket = true := by
        simp only [List.mem_cons, List.not_mem_nil, or_false] at mem
        obtain rfl | rfl | rfl := mem <;> rfl
      exact ⟨id, stat, lost_of_endOfFile errno stack sendto eof on pending unasked⟩
  | operation | request | response | timerExpired | accept => exact absurd trivial unanswered

/-- As long as every socket that is closed at an end of file has answered what it has been asked,
    no request about a socket that is gone waits for ever; and as soon as one has not, a request
    can come to wait for ever. -/
theorem not_stuck_of_answered {rno_base : ℕ}
    (run : Relation.ReflTransGen AnsweredStep (new rno_base) s) :
    ¬ s.Stuck ∧ ∀ e, s.Allowed e →
      (s.Answered e ↔ ∀ s', Relation.ReflTransGen AnsweredStep (s.next e) s' → ¬ s'.Stuck) := by
  refine ⟨(inv_of_run run).not_stuck, fun e allowed => ⟨fun answered s' run' => ?_, fun never => ?_⟩⟩
  · have step : AnsweredStep s (s.next e) := ⟨e, allowed, answered, rfl⟩
    exact (inv_of_run ((run.tail step).trans run')).not_stuck
  · by_contra unanswered
    obtain ⟨id, stat, lost⟩ := lost_of_not_answered unanswered
    obtain ⟨s', run', stuck⟩ := lost.stuck
    exact never s' run' stuck

/-! ## A peer that closes -/

/-- What happens in a run is allowed, and what is closed has answered. -/
def Follows (s : TgSession T A C) : List (TgEvent T A C) → Prop
  | [] => True
  | e :: es => s.Allowed e ∧ s.Answered e ∧ (s.next e).Follows es

theorem Follows.run {es : List (TgEvent T A C)} (follows : s.Follows es) :
    Relation.ReflTransGen AnsweredStep s (es.foldl next s) := by
  induction es generalizing s with
  | nil => exact .refl
  | cons e es ih =>
      obtain ⟨allowed, answered, rest⟩ := follows
      exact .head ⟨e, allowed, answered, rfl⟩ (ih rest)

theorem AnsweredStep.step (step : AnsweredStep s s') : Step s s' := by
  obtain ⟨e, allowed, _, eq⟩ := step
  exact ⟨e, allowed, eq⟩

/-- The descriptor of a socket, for a connect that is successful. -/
def made (fd : Id) : SystemCalls ℕ := ⟨some fd, 0, true, 1, none, fun _ => 0, .sent⟩

/-- A thread opens a socket and connects. -/
def connecting : List (TgEvent Unit ℕ Unit) :=
  [.operation (.opOpen () () 1 2 .tcp) 0 0 0, .request (made 5), .response,
    .operation (.opConnect () () 1 .tcp) 0 0 0, .request (made 6), .response]

/-- It sends a message of one octet, for which it is to receive one. -/
def exchanging : List (TgEvent Unit ℕ Unit) :=
  connecting ++ [.operation (.opTraffic .sendRecv () () 1 .tcp) 1 1 0, .request (made 6)]

theorem allowed_made {s : TgSession Unit ℕ Unit} {fd : Id} (some : s.requests.length = 1)
    (new : s.server.findAgent fd = none) : s.Allowed (.request (made fd)) := by
  constructor
  · intro empty
    rw [empty] at some
    cases some
  · intro fd' made
    cases made
    exact new

theorem allowed_response {s : TgSession Unit ℕ Unit} (some : s.responses.length = 1) :
    s.Allowed .response :=
  List.ne_nil_of_length_eq_add_one some

theorem allowed_inputReady {s : TgSession Unit ℕ Unit} {id : Id} {received : Option (List Octet)}
    {errno : BitVec 32} {stack : ℕ → Octet} {sendto : SendResult}
    (there : s.server.endOfFile id none = true) :
    s.Allowed (.inputReady id received errno stack sendto) := by
  unfold TgServer.endOfFile at there
  split at there
  · rename_i type sock found
    exact ⟨type, sock, found⟩
  · cases there

theorem follows_exchanging : (new 0).Follows exchanging :=
  ⟨trivial, trivial, allowed_made rfl rfl, trivial, allowed_response rfl, trivial, trivial, trivial,
    allowed_made rfl rfl, trivial, allowed_response rfl, trivial, trivial, trivial,
    allowed_made rfl rfl, trivial, trivial⟩

theorem Follows.append {es es' : List (TgEvent T A C)} (follows : s.Follows es)
    (rest : (es.foldl next s).Follows es') : s.Follows (es ++ es') := by
  induction es generalizing s with
  | nil => exact rest
  | cons e es ih => exact ⟨follows.1, follows.2.1, ih follows.2.2 rest⟩

/-- No request about a socket that is gone waits for ever. -/
def NeverStuck (T A C : Type) [DecidableEq T] [DecidableEq A] : Prop :=
  ∀ (rno_base : ℕ) (s : TgSession T A C), Relation.ReflTransGen Step (new rno_base) s → ¬ s.Stuck

/-- The peer closes in place of its message. -/
theorem not_neverStuck : ¬ NeverStuck Unit ℕ Unit := by
  intro never
  let s : TgSession Unit ℕ Unit := exchanging.foldl next (new 0)
  have run : Relation.ReflTransGen Step (new 0) s :=
    Relation.ReflTransGen.mono (fun _ _ => AnsweredStep.step) _ _ follows_exchanging.run
  let s₁ := s.next (.inputReady 5 none 0 (fun _ => 0) .sent)
  have closed : Step s s₁ :=
    ⟨.inputReady 5 none 0 (fun _ => 0) .sent, allowed_inputReady (by decide +kernel), rfl⟩
  have last : Step s₁ (s₁.next .response) := ⟨.response, allowed_response (by decide +kernel), rfl⟩
  have empty : (s₁.next .response).requests = [] ∧ (s₁.next .response).responses = [] := by
    decide +kernel
  have gone : 5 ∈ (s₁.next .response).closed ∧
      ((s₁.next .response).server.findAgent 5).isNone = true := by decide +kernel
  have waits : (s₁.next .response).Pending 5 .sendRecv := by
    rw [Pending]
    decide +kernel
  exact never 0 _ ((run.tail closed).tail last) ⟨empty.1, empty.2, 5, gone.1,
    Option.isNone_iff_eq_none.mp gone.2, .sendRecv, rfl, waits⟩

/-- The peer sends its message before it closes. -/
def answering : List (TgEvent Unit ℕ Unit) :=
  [.inputReady 5 (some [0]) 0 (fun _ => 0) .sent, .response,
    .inputReady 5 none 0 (fun _ => 0) .sent, .response]

theorem Follows.of_answering {s s₁ s₂ s₃ : TgSession Unit ℕ Unit}
    (eq₁ : s₁ = s.next (.inputReady 5 (some [0]) 0 (fun _ => 0) .sent))
    (eq₂ : s₂ = s₁.next .response)
    (eq₃ : s₃ = s₂.next (.inputReady 5 none 0 (fun _ => 0) .sent))
    (opened : s.server.endOfFile 5 none = true) (told : s₁.responses.length = 1)
    (opened' : s₂.server.endOfFile 5 none = true) (told' : s₃.responses.length = 1)
    (empty : s₂.ctrl.requests_ = []) : s.Follows answering := by
  subst eq₁ eq₂ eq₃
  have nothing (s : TgSession Unit ℕ Unit) (empty : s.ctrl.requests_ = []) (stat : ReqStatus) :
      ¬ s.Pending 5 stat := by
    rw [Pending, empty, not_not]
    rfl
  refine ⟨allowed_inputReady opened, fun eof => ?_, allowed_response told, trivial,
    allowed_inputReady opened', fun _ stat _ pending => absurd pending (nothing _ empty stat),
    allowed_response told', trivial, trivial⟩
  unfold TgServer.endOfFile at eof
  split at eof
  · rw [Option.isNone_some, Bool.and_false] at eof
    cases eof
  · cases eof

theorem follows_answering : (exchanging.foldl next (new 0)).Follows answering :=
  .of_answering rfl rfl rfl (by decide +kernel) (by decide +kernel) (by decide +kernel)
    (by decide +kernel) (by decide +kernel)

/-- Nothing is pending when the peer closes after its message. -/
theorem not_stuck_answering :
    ¬ ((exchanging ++ answering).foldl next (new 0)).Stuck ∧
      ∀ e, ((exchanging ++ answering).foldl next (new 0)).Allowed e →
        (((exchanging ++ answering).foldl next (new 0)).Answered e ↔
          ∀ s', Relation.ReflTransGen AnsweredStep
            (((exchanging ++ answering).foldl next (new 0)).next e) s' → ¬ s'.Stuck) :=
  not_stuck_of_answered (follows_exchanging.append follows_answering).run

end TgSession

end Tahi.Tg
