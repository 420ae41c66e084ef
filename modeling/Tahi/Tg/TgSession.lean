import Tahi.Tg.AgntAside
import Tahi.Tg.TgServer

/-! # A manager and an agent

They have one connection, which loses nothing and keeps the order. Threads of the manager ask for
what the sockets of the agent are to do, and a socket is closed when its peer is, at any moment.
-/

namespace Tahi.Tg

open Cm
open BitField (Octet)

variable {T A C : Type}

/-- The kinds of requests about a connection. -/
def ReqStatus.onSocket : ReqStatus → Bool
  | .send | .recv | .sendRecv | .recvSend | .recvTerm | .close => true
  | _ => false

/-- The kinds that the agent answers as soon as it takes them. -/
def ReqStatus.atOnce : ReqStatus → Bool
  | .recv | .recvSend | .close => true
  | _ => false

/-- The request about a connection that an indication is for. -/
def Indication.asks : Indication A → Option (Id × ReqStatus)
  | .send id => some (id, .send)
  | .recv id => some (id, .recv)
  | .sendRecv id => some (id, .sendRecv)
  | .recvSend id => some (id, .recvSend)
  | .recvEffect id => some (id, .recvTerm)
  | .close id => some (id, .close)
  | _ => none

/-- The request about a connection that a response answers. -/
def TgResponse.answers (r : TgResponse A) : Option (Id × ReqStatus) :=
  match r.request with
  | .snd => some (r.receipt, .send)
  | .recv => some (r.receipt, .recv)
  | .sndRecv => some (r.receipt, .sendRecv)
  | .recvSnd => some (r.receipt, .recvSend)
  | .recvEffect => some (r.receipt, .recvTerm)
  | .close => some (r.receipt, .close)
  | _ => none

/-- The counts of an operation with data. -/
def Traffic.info (count length interval : BitVec 32) : Traffic → TrafficRequest
  | send => ⟨⟨count, length, 0, length⟩, interval⟩
  | recv => ⟨⟨0, length, count, length⟩, 0⟩
  | sendRecv => ⟨⟨count, length, count, length⟩, interval⟩
  | recvSend => ⟨⟨count, length, count, length⟩, 0⟩
  | recvTerm => ⟨⟨0, 0, 0, 0⟩, 0⟩

namespace AgntCall

/-- What threads call. -/
def Operation : AgntCall T A C → Prop
  | opOpen .. | opListen .. | opConnect .. | opAccept .. | opTraffic .. | opClose .. => True
  | _ => False

def info (count length interval : BitVec 32) : AgntCall T A C → TrafficRequest
  | opTraffic op .. => op.info count length interval
  | _ => ⟨⟨0, 0, 0, 0⟩, 0⟩

end AgntCall

/-- Whether a socket that is ready is closed by what is received. -/
def TgServer.endOfFile (s : TgServer) (receipt : Id) (received : Option (List Octet)) : Bool :=
  match s.findAgent receipt with
  | some (.socket _ sock) => sock.reads && received.isNone
  | _ => false

/-- The manager and the agent, and what is under way between them. `closed` are the sockets that
    were closed at an end of file, as long as no other one has their number. -/
structure TgSession (T A C : Type) where
  ctrl : TgAgntCtrl T A C
  rno_base : ℕ
  requests : List (TgRequest A)
  server : TgServer
  responses : List (TgResponse A)
  closed : List Id

/-- A thread calls an operation, the agent takes a request, the manager takes a response, or
    something happens to a socket or a listener of the agent. -/
inductive TgEvent (T A C : Type) where
  | operation (call : AgntCall T A C) (count length interval : BitVec 32)
  | request (calls : SystemCalls A)
  | response
  | inputReady (id : Id) (received : Option (List Octet)) (errno : BitVec 32) (stack : ℕ → Octet)
      (sendto : SendResult)
  | timerExpired (id : Id) (stack : ℕ → Octet) (sendto : SendResult)
  | accept (id fd : Id) (peer : A)

namespace TgSession

def new (rno_base : ℕ) : TgSession T A C := ⟨.new, rno_base, [], .new, [], []⟩

/-- The agent has made a step, with what was closed before the descriptors that are in use now. -/
def serve (s : TgSession T A C) (r : TgServer.Result A) (closed : List Id) : TgSession T A C :=
  { s with
    server := r.1
    responses := s.responses ++ r.2
    closed := closed.filter fun id => (r.1.findAgent id).isNone }

/-- The descriptors of new sockets are not in use. -/
def Allowed (s : TgSession T A C) : TgEvent T A C → Prop
  | .operation call _ _ _ => call.Operation
  | .request calls => s.requests ≠ [] ∧ ∀ fd, calls.made = some fd → s.server.findAgent fd = none
  | .response => s.responses ≠ []
  | .inputReady id _ _ _ _ => ∃ type sock, s.server.findAgent id = some (.socket type sock)
  | .timerExpired id _ _ =>
      ∃ type sock, s.server.findAgent id = some (.socket type sock) ∧ sock.timer_ = true
  | .accept id fd _ =>
      (∃ request reqno, s.server.findAgent id = some (.accept request reqno)) ∧
        s.server.findAgent fd = none

variable [DecidableEq T] [DecidableEq A]

/-- The manager is called. -/
def call (s : TgSession T A C) (c : AgntCall T A C) (info : TrafficRequest) : TgSession T A C :=
  let turn := s.ctrl.call s.rno_base c
  { s with
    ctrl := turn.ctrl
    rno_base := turn.rno_base
    requests := s.requests ++ (turn.sent.map fun i => ⟨i, info⟩).toList }

def next (s : TgSession T A C) : TgEvent T A C → TgSession T A C
  | .operation c count length interval => s.call c (c.info count length interval)
  | .request calls =>
      match s.requests with
      | [] => s
      | r :: rs => { s with requests := rs }.serve (s.server.analizeRequest r calls) s.closed
  | .response =>
      match s.responses with
      | [] => s
      | r :: rs =>
          match r.call with
          | none => { s with responses := rs }
          | some c => { s with responses := rs }.call c (c.info 0 0 0)
  | .inputReady id received errno stack sendto =>
      s.serve (s.server.inputReady id received errno stack sendto)
        (if s.server.endOfFile id received then id :: s.closed else s.closed)
  | .timerExpired id stack sendto => s.serve (s.server.timerExpired id stack sendto) s.closed
  | .accept id fd peer => s.serve (s.server.accept id fd peer) s.closed

end TgSession

/-! ## What the manager waits for -/

namespace TgAgntCtrl

variable {s : TgAgntCtrl T A C} {id : Id} {stat : ReqStatus} {k : Id × ReqStatus}

theorem find_add {xs : TgReqCltn T A C} {re : TgReqElm T A C}
    (there : TgReqCltn.find (CmSet.add TgReqElm.key xs re) id stat ≠ none) :
    xs.find id stat ≠ none ∨ re.key = (id, stat) := by
  by_cases same : re.key = (id, stat)
  · exact .inr same
  · exact .inl fun gone => there ((CmSet.find_add_of_ne same).trans gone)

/-- A request that is not there is not removed. -/
theorem remove_of_find_none (none : s.requests_.find id stat = none) :
    CmSet.remove TgReqElm.key s.requests_ (id, stat) = s.requests_ :=
  CmSet.remove_of_ne (CmSet.find_eq_none.mp none)

theorem removeRequest_of_find {re : TgReqElm T A C} (found : s.requests_.find id stat = some re) :
    (s.removeRequest re).requests_ = CmSet.remove TgReqElm.key s.requests_ (id, stat) := by
  rw [removeRequest, (CmSet.find_eq_some found).2]

theorem requests_recvTrafficConfirm (res : BitVec 32) :
    (recvTrafficConfirm stat s id res).1.requests_ =
      CmSet.remove TgReqElm.key s.requests_ (id, stat) := by
  unfold recvTrafficConfirm
  cases found : s.requests_.find id stat with
  | none => exact (remove_of_find_none found).symm
  | some re => exact removeRequest_of_find found

variable [DecidableEq T] [DecidableEq A]

theorem requests_recvCloseConfirm (res : BitVec 32) :
    (s.recvCloseConfirm id res).1.requests_ =
      CmSet.remove TgReqElm.key s.requests_ (id, .close) := by
  unfold recvCloseConfirm
  cases found : s.requests_.find id .close with
  | none => exact (remove_of_find_none found).symm
  | some re =>
      simp only
      split <;> exact removeRequest_of_find found

/-- An operation leaves a request about a connection behind only with its indication. -/
def Leaves (s : TgAgntCtrl T A C) (turn : Turn T A C) : Prop :=
  turn.ctrl.requests_ = s.requests_ ∨ ∃ re : TgReqElm T A C,
    turn.ctrl.requests_ = CmSet.add TgReqElm.key s.requests_ re ∧
      (re.stat_.onSocket = true → ∃ i, turn.sent = some i ∧ i.asks = some re.key)

theorem leaves_opTraffic (op : Traffic) (rno : ℕ) (t : T) (cb : C) (src : A) (type : ConnType) :
    s.Leaves (s.call rno (.opTraffic op t cb src type)) := by
  have leaves (stat : ReqStatus) (indication : Id → Indication A)
      (asks : ∀ id, (indication id).asks = some (id, stat)) :
      s.Leaves (s.ofOp rno (opTraffic stat indication s t cb src type)) := by
    unfold opTraffic
    cases s.connects_.find src t .connected with
    | none => exact .inl rfl
    | some ce => exact .inr ⟨_, rfl, fun _ => ⟨_, rfl, asks _⟩⟩
  cases op with
  | send => exact leaves .send .send fun _ => rfl
  | recv => exact leaves .recv .recv fun _ => rfl
  | sendRecv => exact leaves .sendRecv .sendRecv fun _ => rfl
  | recvSend => exact leaves .recvSend .recvSend fun _ => rfl
  | recvTerm => exact leaves .recvTerm .recvEffect fun _ => rfl

theorem leaves_operation {c : AgntCall T A C} (operation : c.Operation) (rno : ℕ) :
    s.Leaves (s.call rno c) := by
  cases c with
  | opOpen t cb src dst type => exact .inr ⟨_, rfl, fun on => (Bool.false_ne_true on).elim⟩
  | opListen t cb src type =>
      simp only [call, opListen]
      split
      · exact .inl rfl
      · exact .inr ⟨_, rfl, fun on => (Bool.false_ne_true on).elim⟩
  | opConnect t cb src type =>
      simp only [call, opConnect]
      cases s.connects_.find src t .opened with
      | none => exact .inl rfl
      | some ce => exact .inr ⟨_, rfl, fun on => (Bool.false_ne_true on).elim⟩
  | opAccept t cb src dst type =>
      simp only [call, opAccept]
      split
      · exact .inl rfl
      · cases s.accepts_.find dst src with
        | some ae => exact .inl rfl
        | none =>
            cases s.listens_.find src with
            | none => exact .inl rfl
            | some le => exact .inr ⟨_, rfl, fun on => (Bool.false_ne_true on).elim⟩
  | opTraffic op t cb src type => exact leaves_opTraffic op rno t cb src type
  | opClose t cb src type =>
      simp only [call, opClose]
      cases s.connects_.find src t .connected with
      | none => exact .inl rfl
      | some ce => exact .inr ⟨_, rfl, fun _ => ⟨_, rfl, rfl⟩⟩
  | openConfirm | listenConfirm | acceptedReport | connectConfirm | trafficConfirm | closeConfirm
  | closedReport => exact operation.elim

/-- A response that answers a request about a connection removes it. -/
theorem requests_answers {r : TgResponse A} (answers : r.answers = some k) (rno : ℕ) :
    ∃ c : AgntCall T A C, r.call = some c ∧ (s.call rno c).sent = none ∧
      (s.call rno c).ctrl.requests_ = CmSet.remove TgReqElm.key s.requests_ k := by
  obtain ⟨request, reqno, receipt, result, addr⟩ := r
  cases request with
  | snd | recv | recvEffect | sndRecv | recvSnd =>
      cases answers
      exact ⟨_, rfl, rfl, requests_recvTrafficConfirm result⟩
  | close =>
      cases answers
      exact ⟨_, rfl, rfl, requests_recvCloseConfirm result⟩
  | open_ | listen | accepted | connect | connectSnd | connectSndRecv | listenRecv | listenRecvSnd
  | closed => cases answers

/-- The other responses do not remove a request about a connection. -/
theorem requests_others {r : TgResponse A} (answers : r.answers = none) {c : AgntCall T A C}
    (called : r.call = some c) (rno : ℕ) :
    (s.call rno c).sent = none ∧ ((s.call rno c).ctrl.requests_ = s.requests_ ∨
      ∃ k, k.2.onSocket = false ∧
        (s.call rno c).ctrl.requests_ = CmSet.remove TgReqElm.key s.requests_ k) := by
  obtain ⟨request, reqno, receipt, result, addr⟩ := r
  cases request with
  | open_ =>
      cases called
      refine ⟨rfl, ?_⟩
      simp only [call, ofReply, recvOpenConfirm]
      cases found : s.requests_.find reqno .open_ with
      | none => exact .inl rfl
      | some re =>
          refine .inr ⟨(reqno, .open_), rfl, ?_⟩
          simp only
          split <;> exact removeRequest_of_find found
  | listen =>
      cases called
      refine ⟨rfl, ?_⟩
      simp only [call, ofReply, recvListenConfirm]
      cases found : s.requests_.find reqno .listen with
      | none => exact .inl rfl
      | some re =>
          simp only
          cases s.listens_.find re.addr_ with
          | none => exact .inl rfl
          | some le =>
              simp only
              by_cases asked : le.stat_ = .reqListen
              · rw [if_pos asked]
                refine .inr ⟨(reqno, .listen), rfl, ?_⟩
                rw [← removeRequest_of_find found]
                simp only
                split
                · split <;> rfl
                · rfl
              · rw [if_neg asked]
                exact .inl rfl
  | accepted =>
      cases addr with
      | none => cases called
      | some caddr =>
          cases called
          refine ⟨rfl, ?_⟩
          simp only [call, ofReply, opAcceptedReport]
          cases s.listens_.findReq reqno with
          | none => exact .inl rfl
          | some le =>
              simp only
              by_cases good : result = 0
              · rw [if_pos good]
                cases found : s.requests_.find reqno .accept with
                | none => exact .inl rfl
                | some re =>
                    by_cases own : re.addr_ = caddr
                    · refine .inr ⟨(reqno, .accept), rfl, ?_⟩
                      rw [Option.filter_some_pos (by simpa using own)]
                      exact removeRequest_of_find found
                    · rw [Option.filter_some_neg (by simpa using own)]
                      exact .inl rfl
              · rw [if_neg good]
                exact .inl rfl
  | connect =>
      cases addr with
      | none => cases called
      | some raddr =>
          cases called
          refine ⟨rfl, ?_⟩
          simp only [call, ofReply, opConnectConfirm]
          cases found : s.requests_.find receipt .connect with
          | none => exact .inl rfl
          | some re =>
              refine .inr ⟨(receipt, .connect), rfl, ?_⟩
              simp only
              split <;> exact removeRequest_of_find found
  | closed =>
      cases called
      refine ⟨rfl, .inl ?_⟩
      simp only [call, ofReply, recvClosedReport]
      cases s.connects_.findSock receipt <;> rfl
  | connectSnd | connectSndRecv | listenRecv | listenRecvSnd => cases called
  | snd | recv | recvEffect | sndRecv | recvSnd | close => cases answers

end TgAgntCtrl

/-! ## What the agent answers -/

theorem TgResponse.receipt_of_answers {r : TgResponse A} {id : Id} {stat : ReqStatus}
    (answers : r.answers = some (id, stat)) : r.receipt = id := by
  unfold TgResponse.answers at answers
  split at answers <;> cases answers <;> rfl

namespace TgServer

variable {s : TgServer} {id id' : Id} {stat : ReqStatus} {r : TgRequest A}
  {calls : SystemCalls A}

theorem mem_tell {a : TcAgent × List Report} {r' : TgResponse A}
    (mem : r' ∈ (s.tell id a).2) : r'.receipt = id := by
  obtain ⟨_, _, rfl⟩ := List.mem_map.mp mem
  rfl

theorem findAgent_put (ne : id ≠ id') (a : TcAgent) : (s.put id' a).findAgent id = s.findAgent id :=
  Function.update_of_ne ne _ _

theorem findAgent_removeAgent (ne : id ≠ id') :
    (s.removeAgent id').findAgent id = s.findAgent id :=
  Function.update_of_ne ne _ _

/-- A request is answered when it is taken if the agent does not have the socket, or if it is one
    of those that are always answered at once. -/
theorem analizeRequest_answers (asks : r.indication.asks = some (id, stat))
    (now : s.findAgent id = none ∨ stat.atOnce = true) (calls : SystemCalls A) :
    ∃ r' ∈ (s.analizeRequest r calls).2, r'.answers = some (id, stat) := by
  obtain ⟨indication, info⟩ := r
  cases indication with
  | open_ | listen | connect => cases asks
  | send =>
      cases asks
      have absent := now.resolve_right Bool.false_ne_true
      simp only [analizeRequest, sndRequest, absent]
      exact ⟨_, List.mem_singleton_self _, rfl⟩
  | sendRecv =>
      cases asks
      have absent := now.resolve_right Bool.false_ne_true
      simp only [analizeRequest, sndrecvRequest, absent]
      exact ⟨_, List.mem_singleton_self _, rfl⟩
  | recvEffect =>
      cases asks
      have absent := now.resolve_right Bool.false_ne_true
      simp only [analizeRequest, recvEffectRequest, absent]
      exact ⟨_, List.mem_singleton_self _, rfl⟩
  | recv =>
      cases asks
      simp only [analizeRequest, recvRequest]
      cases s.findAgent id with
      | none => exact ⟨_, List.mem_singleton_self _, rfl⟩
      | some a => exact ⟨_, List.mem_append_right _ (List.mem_singleton_self _), rfl⟩
  | recvSend =>
      cases asks
      simp only [analizeRequest, recvsndRequest]
      cases s.findAgent id with
      | none => exact ⟨_, List.mem_singleton_self _, rfl⟩
      | some a => exact ⟨_, List.mem_append_right _ (List.mem_singleton_self _), rfl⟩
  | close =>
      cases asks
      simp only [analizeRequest, closeRequest]
      cases s.findAgent id with
      | none => exact ⟨_, List.mem_singleton_self _, rfl⟩
      | some a => exact ⟨_, List.mem_singleton_self _, rfl⟩

theorem receivePacket_of_reads {type : ConnType} {sock : TcSocket} (reads : sock.reads = true)
    (stack : ℕ → Octet) (sendto : SendResult) :
    receivePacket type sock none stack sendto = none := by
  cases type with
  | tcp => exact if_pos reads
  | udp => exact if_pos reads

theorem inputReady_of_endOfFile {received : Option (List Octet)}
    (eof : s.endOfFile id received = true) (errno : BitVec 32) (stack : ℕ → Octet)
    (sendto : SendResult) :
    s.inputReady (A := A) id received errno stack sendto =
      (s.removeAgent id, [⟨.closed, 0, id, errno, none⟩]) := by
  unfold endOfFile at eof
  split at eof
  · rename_i type sock found
    obtain ⟨reads, nothing⟩ := (Bool.and_eq_true _ _).mp eof
    rw [Option.isNone_iff_eq_none.mp nothing, inputReady, found]
    simp only [receivePacket_of_reads reads]
  · cases eof

/-- The agent still has no socket `id`, and does not answer the request about it. -/
def Spares (id : Id) (stat : ReqStatus) (res : Result A) : Prop :=
  res.1.findAgent id = none ∧ ∀ r' ∈ res.2, r'.answers ≠ some (id, stat)

theorem spares_singleton {r' : TgResponse A} (absent : s.findAgent id = none)
    (other : r'.answers ≠ some (id, stat)) : Spares id stat (s, [r']) :=
  ⟨absent, fun _ mem => List.mem_singleton.mp mem ▸ other⟩

theorem answers_ne_of_receipt {r' : TgResponse A} (ne : id ≠ r'.receipt) :
    r'.answers ≠ some (id, stat) := fun answers =>
  ne (TgResponse.receipt_of_answers answers).symm

theorem spares_tell (absent : s.findAgent id = none) (ne : id ≠ id')
    (a : TcAgent × List Report) : Spares (A := A) id stat (s.tell id' a) :=
  ⟨(findAgent_put ne a.1).trans absent, fun _ mem =>
    answers_ne_of_receipt (mem_tell mem ▸ ne)⟩

/-- An answer at once, behind what a socket reports. -/
theorem spares_tell_append (absent : s.findAgent id = none) (ne : id ≠ id')
    (a : TcAgent × List Report) {r' : TgResponse A} (receipt : r'.receipt = id') :
    Spares id stat ((s.tell (A := A) id' a).1, (s.tell id' a).2 ++ [r']) := by
  refine ⟨(findAgent_put ne a.1).trans absent, fun r'' mem => answers_ne_of_receipt ?_⟩
  cases List.mem_append.mp mem with
  | inl mem => exact mem_tell mem ▸ ne
  | inr mem => exact List.mem_singleton.mp mem ▸ receipt ▸ ne

theorem ne_of_findAgent {a : TcAgent} (absent : s.findAgent id = none)
    (found : s.findAgent id' = some a) : id ≠ id' := by
  rintro rfl
  cases absent.symm.trans found

/-- A request for something else leaves it so when no new socket is made. -/
theorem spares_analizeRequest (absent : s.findAgent id = none)
    (other : r.indication.asks ≠ some (id, stat)) (fails : calls.made = none) :
    Spares id stat (s.analizeRequest r calls) := by
  obtain ⟨indication, info⟩ := r
  cases indication with
  | open_ =>
      simp only [analizeRequest, openRequest, fails]
      exact spares_singleton absent (Option.some_ne_none _).symm
  | listen =>
      simp only [analizeRequest, listenRequest, fails]
      exact spares_singleton absent (Option.some_ne_none _).symm
  | connect id' =>
      simp only [analizeRequest, connectRequest]
      cases found : s.findAgent id' with
      | none => exact spares_singleton absent (Option.some_ne_none _).symm
      | some a =>
          have ne := ne_of_findAgent absent found
          refine ⟨(findAgent_put ne _).trans absent, fun r' mem => ?_⟩
          simp only at mem
          split at mem
          · cases mem
          · exact List.mem_singleton.mp mem ▸ (Option.some_ne_none _).symm
          · exact List.mem_singleton.mp mem ▸ (Option.some_ne_none _).symm
  | send id' =>
      simp only [analizeRequest, sndRequest]
      cases found : s.findAgent id' with
      | none => exact spares_singleton absent other
      | some a => exact spares_tell absent (ne_of_findAgent absent found) _
  | recv id' =>
      simp only [analizeRequest, recvRequest]
      cases found : s.findAgent id' with
      | none => exact spares_singleton absent other
      | some a => exact spares_tell_append absent (ne_of_findAgent absent found) _ rfl
  | sendRecv id' =>
      simp only [analizeRequest, sndrecvRequest]
      cases found : s.findAgent id' with
      | none => exact spares_singleton absent other
      | some a => exact spares_tell absent (ne_of_findAgent absent found) _
  | recvSend id' =>
      simp only [analizeRequest, recvsndRequest]
      cases found : s.findAgent id' with
      | none => exact spares_singleton absent other
      | some a => exact spares_tell_append absent (ne_of_findAgent absent found) _ rfl
  | recvEffect id' =>
      simp only [analizeRequest, recvEffectRequest]
      cases found : s.findAgent id' with
      | none => exact spares_singleton absent other
      | some a => exact spares_tell absent (ne_of_findAgent absent found) _
  | close id' =>
      simp only [analizeRequest, closeRequest]
      cases found : s.findAgent id' with
      | none => exact spares_singleton absent other
      | some a =>
          have ne := ne_of_findAgent absent found
          exact ⟨(findAgent_removeAgent ne).trans absent, fun r' mem =>
            List.mem_singleton.mp mem ▸ answers_ne_of_receipt ne⟩

end TgServer

end Tahi.Tg
