import Mathlib.Logic.Relation
import Tahi.Tg.AgntAside

/-! # Accepts and reports

Threads connect to one port of an agent. A thread that accepts before the report of its
connection has come waits for it, and a report that comes first is parked until its thread
accepts.
-/

namespace Tahi.Tg

open Cm

variable {T A C : Type}

/-- What a thread is given a connection with: whether it had waited, and the number of the
    socket that it has in `connects_` from then on. -/
structure Given (T A C : Type) where
  thread : T
  cb : C
  caddr : A
  id_sock : Id
  waited : Bool
  held : Option Id
deriving DecidableEq, Repr

def Given.ask (g : Given T A C) : T × C × A := (g.thread, g.cb, g.caddr)

def Given.report (g : Given T A C) : Id × A := (g.id_sock, g.caddr)

/-- The manager's side of the agent, and what is remembered of a run: the accepts that asked to
    wait, the reports, and what threads have been given. -/
structure Accepting (T A C : Type) where
  ctrl : TgAgntCtrl T A C
  rno_base : ℕ
  asked : List (T × C × A)
  reported : List (Id × A)
  given : List (Given T A C)
deriving DecidableEq, Repr

namespace Accepting

def new (rno_base : ℕ) : Accepting T A C := ⟨.new, rno_base, [], [], []⟩

/-- The threads that wait. -/
@[grind =]
def waiting (s : Accepting T A C) : List (T × C × A) :=
  (s.ctrl.asks .accept).map fun re => (re.thread_, re.cb, re.addr_)

/-- The reports that are parked. -/
@[grind =]
def parked (s : Accepting T A C) : List (Id × A) :=
  s.ctrl.accepts_.map fun ae => (ae.id_sock_, ae.caddr_)

variable [DecidableEq T] [DecidableEq A] (p : A)

/-- A thread is given a connection, with what the manager then has for it. -/
def give (s : Accepting T A C) (t : T) (cb : C) (caddr : A) (id_sock : Id) (waited : Bool) :
    Accepting T A C :=
  { s with given :=
      ⟨t, cb, caddr, id_sock, waited, (s.ctrl.connects_.find p t .connected).map (·.id_sock_)⟩ ::
        s.given }

@[grind =]
def next (s : Accepting T A C) (call : AgntCall T A C) : Accepting T A C :=
  let turn := s.ctrl.call s.rno_base call
  let s' := { s with ctrl := turn.ctrl, rno_base := turn.rno_base }
  match call with
  | .opAccept t cb src dst _ =>
      match turn.waitf, s.ctrl.accepts_.find dst src with
      | some true, _ => { s' with asked := (t, cb, dst) :: s.asked }
      | some false, some ae => s'.give p t cb dst ae.id_sock_ false
      | _, _ => s'
  | .acceptedReport id_req id_sock _ caddr =>
      let s' := { s' with reported := (id_sock, caddr) :: s.reported }
      match turn.answer, s.ctrl.requests_.find id_req .accept with
      | some (.complete cb), some re => s'.give p re.thread_ cb caddr id_sock true
      | _, _ => s'
  | _ => s'

/-- The statements use one port, over TCP, and the agent reports what it has accepted for a
    listener. -/
def Proper (s : Accepting T A C) : AgntCall T A C → Prop
  | .opListen _ _ src type => src = p ∧ type = .tcp
  | .opAccept _ _ src _ type => src = p ∧ type = .tcp
  | .acceptedReport id_req _ res _ => res = 0 ∧ s.ctrl.listens_.findReq id_req ≠ none
  | _ => True

/-- No accept has to wait while another one waits, nothing is parked or added that the sets
    refuse, and no listen fails that a thread waits on. -/
def Fine (s : Accepting T A C) : AgntCall T A C → Prop
  | .opAccept t _ src dst _ =>
      match s.ctrl.accepts_.find dst src with
      | some _ => s.ctrl.connects_.find src t .connected = none
      | none => ∀ le, s.ctrl.listens_.find src = some le →
          s.ctrl.requests_.find le.id_req_ .accept = none
  | .acceptedReport id_req _ _ caddr =>
      match (s.ctrl.requests_.find id_req .accept).filter fun re => re.addr_ = caddr with
      | some re => s.ctrl.connects_.find p re.thread_ .connected = none
      | none => s.ctrl.accepts_.find caddr p = none
  | .listenConfirm id_req _ res => res ≠ 0 → s.ctrl.requests_.find id_req .accept = none
  | _ => True

inductive Step (s s' : Accepting T A C) : Prop where
  | call (call : AgntCall T A C) (proper : s.Proper p call) (eq : s' = s.next p call)

inductive FineStep (s s' : Accepting T A C) : Prop where
  | call (call : AgntCall T A C) (proper : s.Proper p call) (fine : s.Fine p call)
      (eq : s' = s.next p call)

/-- No report and no thread that waits is lost. -/
structure Ledger (s : Accepting T A C) : Prop where
  /-- A thread that asked to wait has been completed by a report from its client, or waits. -/
  asked : s.asked.Perm ((s.given.filter (·.waited)).map Given.ask ++ s.waiting)
  /-- A report has been given to a thread, or is parked. -/
  reported : s.reported.Perm (s.given.map Given.report ++ s.parked)
  /-- What a thread waits for is not parked. -/
  apart : ∀ w ∈ s.waiting, ∀ r ∈ s.parked, w.2.2 ≠ r.2
  held : ∀ g ∈ s.given, g.held = some g.id_sock

/-- The next report from the client of a thread that waits also completes it. -/
structure Served (s : Accepting T A C) : Prop extends Ledger s where
  completes : ∀ re ∈ s.ctrl.asks .accept, ∀ id_req id_sock,
    s.ctrl.listens_.findReq id_req ≠ none →
    (s.ctrl.opAcceptedReport id_req id_sock 0 re.addr_).2 = some (.complete re.cb)

end Accepting

/-! ## What a step does -/

/-- What is always so at a port: there is one listener at most, and all requests for listening and
    accepting have its number. -/
structure Consistent (p : A) (s : TgAgntCtrl T A C) : Prop where
  nodup : (s.requests_.map TgReqElm.key).Nodup
  one : s.listens_ = [] ∨ ∃ le, s.listens_ = [le] ∧ le.addr_ = p
  asks : ∀ {stat re}, stat = .listen ∨ stat = .accept → re ∈ s.asks stat →
    ∃ le, s.listens_ = [le] ∧ re.id_ = le.id_req_
  pending : ∀ re ∈ s.asks .listen, re.addr_ = p ∧ re.type_ = .tcp
  accepts : ∀ ae ∈ s.accepts_, ae.saddr_ = p

section

variable {p : A} {s s' : TgAgntCtrl T A C}

theorem Consistent.aside (consistent : Consistent p s) (aside : s.Aside s') : Consistent p s' where
  nodup := aside.nodup consistent.nodup
  one := by
    rw [aside.listens]
    exact consistent.one
  asks := by
    intro stat re kind mem
    rw [aside.asks stat kind] at mem
    rw [aside.listens]
    exact consistent.asks kind mem
  pending := by
    rw [aside.asks .listen (.inl rfl)]
    exact consistent.pending
  accepts := by
    rw [aside.accepts]
    exact consistent.accepts

/-- A request is found by its number. -/
theorem Consistent.find (consistent : Consistent p s) {stat : ReqStatus} {re : TgReqElm T A C}
    (mem : re ∈ s.asks stat) : s.requests_.find re.id_ stat = some re := by
  obtain ⟨there, rfl⟩ := TgAgntCtrl.mem_asks.mp mem
  exact CmSet.find_of_mem consistent.nodup there

/-- One request of a kind at most. -/
theorem Consistent.unique (consistent : Consistent p s) {stat : ReqStatus}
    (kind : stat = .listen ∨ stat = .accept) {re re' : TgReqElm T A C} (mem : re ∈ s.asks stat)
    (mem' : re' ∈ s.asks stat) : re = re' := by
  obtain ⟨le, single, same⟩ := consistent.asks kind mem
  obtain ⟨le', single', same'⟩ := consistent.asks kind mem'
  rw [single] at single'
  cases single'
  have found := consistent.find mem
  rw [same, ← same', consistent.find mem'] at found
  exact (Option.some.inj found).symm

theorem findReq_singleton {le : TgListenElm A} {id : Id} (single : s.listens_ = [le])
    (found : s.listens_.findReq id ≠ none) : s.listens_.findReq id = some le ∧ le.id_req_ = id := by
  rw [TgListenCltn.findReq, single] at found ⊢
  by_cases same : le.id_req_ = id
  · exact ⟨List.find?_cons_of_pos (by simpa using same), same⟩
  · exact absurd (List.find?_cons_of_neg (by simpa using same)) found

theorem Consistent.completes [DecidableEq T] [DecidableEq A] (consistent : Consistent p s)
    {re : TgReqElm T A C} (mem : re ∈ s.asks .accept) {id_req : Id} (id_sock : Id)
    (listens : s.listens_.findReq id_req ≠ none) :
    (s.opAcceptedReport id_req id_sock 0 re.addr_).2 = some (.complete re.cb) := by
  obtain ⟨le, single, same⟩ := consistent.asks (.inr rfl) mem
  obtain ⟨found, rfl⟩ := findReq_singleton single listens
  have here := consistent.find mem
  rw [same] at here
  simp only [TgAgntCtrl.opAcceptedReport, found, here, Option.filter_some, decide_true, if_true]

variable [DecidableEq T] [DecidableEq A]

omit [DecidableEq T] in
theorem Consistent.find_port (consistent : Consistent p s) :
    (s.listens_ = [] ∧ s.listens_.find p = none) ∨
      ∃ le, s.listens_ = [le] ∧ s.listens_.find p = some le := by
  rcases consistent.one with empty | ⟨le, single, rfl⟩
  · exact .inl ⟨empty, by rw [empty]; rfl⟩
  · exact .inr ⟨le, single, by simp [TgListenCltn.find, CmSet.find, single, TgListenElm.key]⟩

/-- Only the first thread listens. -/
theorem Consistent.opListen (consistent : Consistent p s) (rno : ℕ) (t : T) (cb : C) :
    Consistent p (s.call rno (.opListen t cb p .tcp)).ctrl ∧
      (s.call rno (.opListen t cb p .tcp)).ctrl.asks .accept = s.asks .accept ∧
      (s.call rno (.opListen t cb p .tcp)).ctrl.accepts_ = s.accepts_ := by
  rcases consistent.find_port with ⟨empty, absent⟩ | ⟨le, single, found⟩
  · have none_ {stat : ReqStatus} (kind : stat = .listen ∨ stat = .accept) : s.asks stat = [] := by
      refine List.eq_nil_iff_forall_not_mem.mpr fun re mem => ?_
      obtain ⟨le, single, -⟩ := consistent.asks kind mem
      rw [empty] at single
      cases single
    have turn : (s.call rno (.opListen t cb p .tcp)).ctrl =
        { s.addRequest ⟨.listen, BitVec.ofNat 16 rno, t, cb, p, .tcp⟩ with
          listens_ := [⟨.reqListen, BitVec.ofNat 16 rno, 0, p⟩] } := by
      simp only [TgAgntCtrl.call, TgAgntCtrl.opListen, absent]
      simp [TgAgntCtrl.ofOp, TgAgntCtrl.addRequest, CmSet.add, empty]
    have accepts : (s.addRequest ⟨.listen, BitVec.ofNat 16 rno, t, cb, p, .tcp⟩).asks .accept =
        s.asks .accept := CmSet.filter_add (by simp)
    rw [turn]
    refine ⟨⟨CmSet.nodup_add consistent.nodup, .inr ⟨_, rfl, rfl⟩, ?_, ?_, consistent.accepts⟩,
      accepts, rfl⟩
    · intro stat re kind mem
      obtain ⟨there, rfl⟩ := TgAgntCtrl.mem_asks.mp mem
      rcases CmSet.mem_of_mem_add there with rfl | old
      · exact ⟨_, rfl, rfl⟩
      · have := none_ kind ▸ TgAgntCtrl.mem_asks.mpr ⟨old, rfl⟩
        cases this
    · intro re mem
      obtain ⟨there, kind⟩ := TgAgntCtrl.mem_asks.mp mem
      rcases CmSet.mem_of_mem_add there with rfl | old
      · exact ⟨rfl, rfl⟩
      · exact consistent.pending re (TgAgntCtrl.mem_asks.mpr ⟨old, kind⟩)
  · have turn : (s.call rno (.opListen t cb p .tcp)).ctrl = s := by
      simp only [TgAgntCtrl.call, TgAgntCtrl.opListen, found]
      rfl
    rw [turn]
    exact ⟨consistent, rfl, rfl⟩

/-- A listen is confirmed, or it fails when no thread waits. -/
theorem Consistent.listenConfirm (consistent : Consistent p s) {id_req : Id} (id_sock : Id)
    {res : BitVec 32} (fine : res ≠ 0 → s.requests_.find id_req .accept = none) :
    Consistent p (s.recvListenConfirm id_req id_sock res).1 ∧
      (s.recvListenConfirm id_req id_sock res).1.asks .accept = s.asks .accept ∧
      (s.recvListenConfirm id_req id_sock res).1.accepts_ = s.accepts_ := by
  unfold TgAgntCtrl.recvListenConfirm
  cases found : s.requests_.find id_req .listen with
  | none => exact ⟨consistent, rfl, rfl⟩
  | some re =>
      obtain ⟨there, rfl, kind⟩ := TgAgntCtrl.other_of_find found
      have asked : re ∈ s.asks .listen := TgAgntCtrl.mem_asks.mpr ⟨there, kind⟩
      obtain ⟨addr, type⟩ := consistent.pending re asked
      obtain ⟨le, single, same⟩ := consistent.asks (.inl rfl) asked
      obtain ⟨le', single', port⟩ : ∃ le, s.listens_ = [le] ∧ s.listens_.find p = some le :=
        consistent.find_port.resolve_left fun ⟨empty, _⟩ => by rw [empty] at single; cases single
      rw [single] at single'
      cases single'
      have accepts : (s.removeRequest re).asks .accept = s.asks .accept := by
        refine CmSet.filter_remove fun re' _ same => ?_
        have stat : re'.stat_ = re.stat_ := congrArg Prod.snd same
        simp [stat, kind]
      have gone : CmSet.remove TgListenElm.key s.listens_ le.key = [] := by
        rw [single]
        exact List.eraseP_cons_of_pos (by simp)
      -- nothing is left that waits for the confirm
      have rest {stat : ReqStatus} {re' : TgReqElm T A C} (kind' : stat = .listen ∨ stat = .accept)
          (mem : re' ∈ (s.removeRequest re).asks stat) :
          stat = .accept ∧ re' ∈ s.asks .accept := by
        obtain ⟨mem', stat'⟩ := TgAgntCtrl.mem_asks.mp mem
        rcases kind' with rfl | rfl
        · have old := TgAgntCtrl.mem_asks.mpr ⟨CmSet.mem_of_mem_remove mem', stat'⟩
          obtain rfl := consistent.unique (.inl rfl) old asked
          rw [TgAgntCtrl.removeRequest, CmSet.remove_eq_filter consistent.nodup] at mem'
          simp at mem'
        · exact ⟨rfl, accepts ▸ mem⟩
      simp only [addr, port, type]
      split
      · by_cases good : res = 0
        · rw [if_pos good]
          refine ⟨⟨CmSet.nodup_remove consistent.nodup, .inr ⟨⟨.listen, re.id_, id_sock, p⟩, ?_,
            rfl⟩, ?_, ?_, consistent.accepts⟩, accepts, rfl⟩
          · simp only [TgAgntCtrl.removeRequest, gone]
            rfl
          · intro stat re' kind' mem
            obtain ⟨rfl, old⟩ := rest kind' mem
            refine ⟨⟨.listen, re.id_, id_sock, p⟩, ?_, ?_⟩
            · simp only [TgAgntCtrl.removeRequest, gone]
              rfl
            · obtain ⟨le', single', same'⟩ := consistent.asks (.inr rfl) old
              rw [single] at single'
              cases single'
              exact same'.trans same.symm
          · intro re' mem
            cases (rest (.inl rfl) mem).1
        · rw [if_neg good]
          refine ⟨⟨CmSet.nodup_remove consistent.nodup, .inl gone, ?_, ?_, consistent.accepts⟩,
            accepts, rfl⟩
          · intro stat re' kind' mem
            obtain ⟨rfl, old⟩ := rest kind' mem
            obtain ⟨le', single', same'⟩ := consistent.asks (.inr rfl) old
            rw [single] at single'
            cases single'
            have here := consistent.find old
            rw [same', ← same, fine good] at here
            cases here
          · intro re' mem
            cases (rest (.inl rfl) mem).1
      · exact ⟨consistent, rfl, rfl⟩

/-- An accept at the port takes a parked connection, waits under the number of the listener, or
    fails. -/
theorem Consistent.opAccept_cases (consistent : Consistent p s) (t : T) (cb : C) (dst : A) :
    (∃ ae, s.accepts_.find dst p = some ae ∧ ae.caddr_ = dst ∧
      s.opAccept t cb p dst .tcp = some ({ s.addConnect ⟨.connected, ae.id_sock_, p, t⟩ with
        accepts_ := CmSet.remove TgAcceptElm.key s.accepts_ ae.key }, none, false)) ∨
    (s.accepts_.find dst p = none ∧ ∃ le, s.listens_ = [le] ∧ s.listens_.find p = some le ∧
      s.opAccept t cb p dst .tcp =
        some (s.addRequest ⟨.accept, le.id_req_, t, cb, dst, .tcp⟩, none, true)) ∨
    (s.accepts_.find dst p = none ∧ s.opAccept t cb p dst .tcp = none) := by
  unfold TgAgntCtrl.opAccept
  cases found : s.accepts_.find dst p with
  | some ae =>
      obtain ⟨mem, same⟩ := CmSet.find_eq_some found
      have caddr : ae.caddr_ = dst := congrArg Prod.fst same
      have saddr : ae.saddr_ = p := congrArg Prod.snd same
      refine .inl ⟨ae, rfl, caddr, ?_⟩
      simp only [saddr]
      rfl
  | none =>
      rcases consistent.find_port with ⟨-, absent⟩ | ⟨le, single, port⟩
      · refine .inr (.inr ⟨rfl, ?_⟩)
        simp only [absent]
        rfl
      · refine .inr (.inl ⟨rfl, le, single, port, ?_⟩)
        simp only [port]
        rfl

/-- A report at the port completes the thread that waits for it, or is parked. -/
theorem Consistent.opAcceptedReport_cases (consistent : Consistent p s) {id_req : Id}
    (id_sock : Id) (caddr : A) (listens : s.listens_.findReq id_req ≠ none) :
    (∃ re ∈ s.asks .accept, s.requests_.find id_req .accept = some re ∧ re.addr_ = caddr ∧
      s.opAcceptedReport id_req id_sock 0 caddr =
        ((s.removeRequest re).addConnect ⟨.connected, id_sock, p, re.thread_⟩,
          some (.complete re.cb))) ∨
    ((∀ re ∈ s.asks .accept, re.addr_ ≠ caddr) ∧
      ((s.requests_.find id_req .accept).filter fun re => re.addr_ = caddr) = none ∧
      s.opAcceptedReport id_req id_sock 0 caddr =
        ({ s with accepts_ := CmSet.add TgAcceptElm.key s.accepts_ ⟨id_sock, caddr, p⟩ },
          none)) := by
  obtain ⟨le, single, addr⟩ : ∃ le, s.listens_ = [le] ∧ le.addr_ = p :=
    consistent.one.resolve_left fun empty => listens (by rw [empty]; rfl)
  obtain ⟨found, rfl⟩ := findReq_singleton single listens
  have own {re : TgReqElm T A C} (mem : re ∈ s.asks .accept) :
      s.requests_.find le.id_req_ .accept = some re := by
    obtain ⟨le', single', same⟩ := consistent.asks (.inr rfl) mem
    rw [single] at single'
    cases single'
    exact same ▸ consistent.find mem
  unfold TgAgntCtrl.opAcceptedReport
  simp only [found, addr]
  cases asked : (s.requests_.find le.id_req_ .accept).filter fun re => re.addr_ = caddr with
  | some re =>
      obtain ⟨here, same⟩ := Option.filter_eq_some_iff.mp asked
      obtain ⟨mem, -, kind⟩ := TgAgntCtrl.other_of_find here
      exact .inl ⟨re, TgAgntCtrl.mem_asks.mpr ⟨mem, kind⟩, here, of_decide_eq_true same, rfl⟩
  | none =>
      refine .inr ⟨fun re mem same => ?_, rfl, rfl⟩
      rw [own mem, Option.filter_some, if_pos (by simpa using same)] at asked
      cases asked

end

section

variable {s s' : Accepting T A C}

theorem Accepting.Ledger.congr (ledger : Accepting.Ledger s)
    (asks : s'.ctrl.asks .accept = s.ctrl.asks .accept)
    (accepts : s'.ctrl.accepts_ = s.ctrl.accepts_) (asked : s'.asked = s.asked)
    (reported : s'.reported = s.reported) (given : s'.given = s.given) : Accepting.Ledger s' where
  asked := by
    rw [asked, given, Accepting.waiting, asks]
    exact ledger.asked
  reported := by
    rw [reported, given, Accepting.parked, accepts]
    exact ledger.reported
  apart := by
    rw [Accepting.waiting, Accepting.parked, asks, accepts]
    exact ledger.apart
  held := by
    rw [given]
    exact ledger.held

variable [DecidableEq T] [DecidableEq A] {p : A}

/-- What a thread is given is held for it when it had no other connection. -/
theorem held_addConnect {s : TgAgntCtrl T A C} {id_sock : Id} {t : T}
    (fine : s.connects_.find p t .connected = none) :
    ((s.addConnect ⟨.connected, id_sock, p, t⟩).connects_.find p t .connected).map
      (·.id_sock_) = some id_sock := by
  have new : ∀ ce ∈ s.connects_, ce.key ≠ (p, t, .connected) := CmSet.find_eq_none.mp fine
  have adds : (s.addConnect ⟨.connected, id_sock, p, t⟩).connects_ =
      ⟨.connected, id_sock, p, t⟩ :: s.connects_ := CmSet.add_of_new new
  rw [adds, TgConnCltn.find, CmSet.find, List.find?_cons_of_pos (by simp [TgConnElm.key])]
  rfl

theorem Consistent.acceptStep (consistent : Consistent p s.ctrl) (ledger : Accepting.Ledger s)
    {t : T} {cb : C} {dst : A} (fine : s.Fine p (.opAccept t cb p dst .tcp)) :
    Consistent p (s.next p (.opAccept t cb p dst .tcp)).ctrl ∧
      Accepting.Ledger (s.next p (.opAccept t cb p dst .tcp)) := by
  rcases consistent.opAccept_cases t cb dst with
    ⟨ae, parked, rfl, result⟩ | ⟨absent, le, single, port, result⟩ | ⟨absent, result⟩
  · have next : s.next p (.opAccept t cb p ae.caddr_ .tcp) =
        ({ s with ctrl := { s.ctrl.addConnect ⟨.connected, ae.id_sock_, p, t⟩ with
          accepts_ := CmSet.remove TgAcceptElm.key s.ctrl.accepts_ ae.key } }).give p t cb
            ae.caddr_ ae.id_sock_ false := by
      simp only [Accepting.next, TgAgntCtrl.call, result, parked, TgAgntCtrl.ofOp]
    simp only [Accepting.Fine, parked] at fine
    have left := CmSet.perm_remove parked
    have same : ae.key = (ae.caddr_, p) := (CmSet.find_eq_some parked).2
    rw [next]
    refine ⟨⟨consistent.nodup, consistent.one, consistent.asks, consistent.pending, ?_⟩,
      ?_, ?_, ?_, ?_⟩
    · exact fun ae' mem => consistent.accepts ae' (CmSet.mem_of_mem_remove mem)
    · exact ledger.asked
    · refine ledger.reported.trans ?_
      simp only [Accepting.give, Accepting.parked, same, List.map_cons, List.cons_append]
      exact ((left.map _).append_left _).trans List.perm_middle
    · intro w waits r mem
      obtain ⟨ae', mem', rfl⟩ := List.mem_map.mp mem
      exact ledger.apart w waits _ (List.mem_map.mpr ⟨ae', CmSet.mem_of_mem_remove mem', rfl⟩)
    · intro g mem
      rcases List.mem_cons.mp mem with rfl | old
      · exact held_addConnect fine
      · exact ledger.held g old
  · have next : s.next p (.opAccept t cb p dst .tcp) = { s with
        ctrl := s.ctrl.addRequest ⟨.accept, le.id_req_, t, cb, dst, .tcp⟩
        asked := (t, cb, dst) :: s.asked } := by
      simp only [Accepting.next, TgAgntCtrl.call, result, TgAgntCtrl.ofOp]
    simp only [Accepting.Fine, absent] at fine
    have new := CmSet.find_eq_none.mp (fine le port)
    have accepts : (s.ctrl.addRequest ⟨.accept, le.id_req_, t, cb, dst, .tcp⟩).asks .accept =
        ⟨.accept, le.id_req_, t, cb, dst, .tcp⟩ :: s.ctrl.asks .accept := by
      simp only [TgAgntCtrl.asks, TgAgntCtrl.addRequest]
      rw [CmSet.add_of_new new]
      exact List.filter_cons_of_pos (by simp)
    rw [next]
    refine ⟨⟨CmSet.nodup_add consistent.nodup, consistent.one, ?_, ?_, consistent.accepts⟩,
      ?_, ledger.reported, ?_, ledger.held⟩
    · intro stat re kind mem
      obtain ⟨there, rfl⟩ := TgAgntCtrl.mem_asks.mp mem
      rcases CmSet.mem_of_mem_add there with rfl | old
      · exact ⟨le, single, rfl⟩
      · exact consistent.asks kind (TgAgntCtrl.mem_asks.mpr ⟨old, rfl⟩)
    · intro re mem
      obtain ⟨there, kind⟩ := TgAgntCtrl.mem_asks.mp mem
      rcases CmSet.mem_of_mem_add there with rfl | old
      · cases kind
      · exact consistent.pending re (TgAgntCtrl.mem_asks.mpr ⟨old, kind⟩)
    · simp only [Accepting.waiting, accepts, List.map_cons]
      exact (ledger.asked.cons _).trans List.perm_middle.symm
    · intro w waits r mem
      simp only [Accepting.waiting, accepts, List.map_cons] at waits
      rcases List.mem_cons.mp waits with rfl | old
      · obtain ⟨ae, mem', rfl⟩ := List.mem_map.mp mem
        intro (same : dst = ae.caddr_)
        refine CmSet.find_eq_none.mp absent ae mem' ?_
        rw [TgAcceptElm.key, consistent.accepts ae mem', same]
      · exact ledger.apart w old r mem
  · have next : s.next p (.opAccept t cb p dst .tcp) = s := by
      simp only [Accepting.next, TgAgntCtrl.call, result, TgAgntCtrl.ofOp]
    rw [next]
    exact ⟨consistent, ledger⟩

theorem Consistent.reportStep (consistent : Consistent p s.ctrl) (ledger : Accepting.Ledger s)
    {id_req id_sock : Id} {caddr : A} (listens : s.ctrl.listens_.findReq id_req ≠ none)
    (fine : s.Fine p (.acceptedReport id_req id_sock 0 caddr)) :
    Consistent p (s.next p (.acceptedReport id_req id_sock 0 caddr)).ctrl ∧
      Accepting.Ledger (s.next p (.acceptedReport id_req id_sock 0 caddr)) := by
  rcases consistent.opAcceptedReport_cases id_sock caddr listens with
    ⟨re, mem, found, rfl, result⟩ | ⟨away, asked, result⟩
  · have next : s.next p (.acceptedReport id_req id_sock 0 re.addr_) =
        ({ s with
          ctrl := (s.ctrl.removeRequest re).addConnect ⟨.connected, id_sock, p, re.thread_⟩
          reported := (id_sock, re.addr_) :: s.reported }).give p re.thread_ re.cb re.addr_
            id_sock true := by
      simp only [Accepting.next, TgAgntCtrl.call, result, TgAgntCtrl.ofReply, found]
    simp only [Accepting.Fine, found, Option.filter_some, decide_true, if_true] at fine
    have gone : (s.ctrl.asks .accept).Perm (re :: (s.ctrl.removeRequest re).asks .accept) := by
      have stat := (TgAgntCtrl.mem_asks.mp mem).2
      have same : re.key = (id_req, .accept) := (CmSet.find_eq_some found).2
      have left := (CmSet.perm_remove found).filter fun re => re.stat_ = .accept
      rw [List.filter_cons_of_pos (by simpa using stat)] at left
      rw [TgAgntCtrl.removeRequest, same]
      exact left
    rw [next]
    refine ⟨⟨CmSet.nodup_remove consistent.nodup, consistent.one, ?_, ?_, consistent.accepts⟩,
      ?_, ?_, ?_, ?_⟩
    · intro stat re' kind mem'
      obtain ⟨there, stat'⟩ := TgAgntCtrl.mem_asks.mp mem'
      exact consistent.asks kind (TgAgntCtrl.mem_asks.mpr ⟨CmSet.mem_of_mem_remove there, stat'⟩)
    · intro re' mem'
      obtain ⟨there, stat'⟩ := TgAgntCtrl.mem_asks.mp mem'
      exact consistent.pending re' (TgAgntCtrl.mem_asks.mpr ⟨CmSet.mem_of_mem_remove there, stat'⟩)
    · refine ledger.asked.trans ?_
      simp only [Accepting.give, Accepting.waiting, List.filter_cons, if_true, List.map_cons,
        List.cons_append]
      exact ((gone.map _).append_left _).trans List.perm_middle
    · simp only [Accepting.give, Accepting.parked, List.map_cons, List.cons_append]
      exact ledger.reported.cons _
    · intro w waits r mem'
      refine ledger.apart w ?_ r mem'
      obtain ⟨re', there, rfl⟩ := List.mem_map.mp waits
      exact List.mem_map.mpr ⟨re', gone.symm.subset (List.mem_cons_of_mem _ there), rfl⟩
    · intro g mem'
      rcases List.mem_cons.mp mem' with rfl | old
      · exact held_addConnect fine
      · exact ledger.held g old
  · have next : s.next p (.acceptedReport id_req id_sock 0 caddr) = { s with
        ctrl := { s.ctrl with
          accepts_ := CmSet.add TgAcceptElm.key s.ctrl.accepts_ ⟨id_sock, caddr, p⟩ }
        reported := (id_sock, caddr) :: s.reported } := by
      simp only [Accepting.next, TgAgntCtrl.call, result, TgAgntCtrl.ofReply]
    simp only [Accepting.Fine, asked] at fine
    have parks : CmSet.add TgAcceptElm.key s.ctrl.accepts_ ⟨id_sock, caddr, p⟩ =
        ⟨id_sock, caddr, p⟩ :: s.ctrl.accepts_ := CmSet.add_of_new (CmSet.find_eq_none.mp fine)
    rw [next, parks]
    refine ⟨⟨consistent.nodup, consistent.one, consistent.asks, consistent.pending, ?_⟩,
      ledger.asked, ?_, ?_, ledger.held⟩
    · intro ae mem
      rcases List.mem_cons.mp mem with rfl | old
      · rfl
      · exact consistent.accepts ae old
    · simp only [Accepting.parked, List.map_cons]
      exact (ledger.reported.cons _).trans List.perm_middle.symm
    · intro w waits r mem
      simp only [Accepting.parked, List.map_cons] at mem
      rcases List.mem_cons.mp mem with rfl | old
      · obtain ⟨re, there, rfl⟩ := List.mem_map.mp waits
        exact away re there
      · exact ledger.apart w waits r old

theorem Accepting.next_beside {call : AgntCall T A C} (beside : call.Beside) :
    s.next p call = { s with
      ctrl := (s.ctrl.call s.rno_base call).ctrl
      rno_base := (s.ctrl.call s.rno_base call).rno_base } := by
  cases call with
  | opAccept t cb src dst type => exact beside.elim
  | acceptedReport id_req id_sock res caddr => exact beside.elim
  | _ => rfl

/-- Every step that meets the conditions keeps what is always so at the port, and loses nothing. -/
theorem Accepting.FineStep.keeps (step : Accepting.FineStep p s s')
    (consistent : Consistent p s.ctrl) (ledger : Accepting.Ledger s) :
    Consistent p s'.ctrl ∧ Accepting.Ledger s' := by
  obtain ⟨call, proper, fine, rfl⟩ := step
  have beside (other : call.Beside) :
      Consistent p (s.next p call).ctrl ∧ Accepting.Ledger (s.next p call) := by
    have aside := s.ctrl.aside_call other s.rno_base
    rw [Accepting.next_beside other]
    exact ⟨consistent.aside aside,
      ledger.congr (aside.asks .accept (.inr rfl)) aside.accepts rfl rfl rfl⟩
  cases call with
  | opListen t cb src type =>
      obtain ⟨rfl, rfl⟩ := proper
      obtain ⟨consistent', asks, accepts⟩ := consistent.opListen s.rno_base t cb
      exact ⟨consistent', ledger.congr asks accepts rfl rfl rfl⟩
  | listenConfirm id_req id_sock res =>
      obtain ⟨consistent', asks, accepts⟩ := consistent.listenConfirm id_sock fine
      exact ⟨consistent', ledger.congr asks accepts rfl rfl rfl⟩
  | opAccept t cb src dst type =>
      obtain ⟨rfl, rfl⟩ := proper
      exact consistent.acceptStep ledger fine
  | acceptedReport id_req id_sock res caddr =>
      obtain ⟨rfl, listens⟩ := proper
      exact consistent.reportStep ledger listens fine
  | _ => exact beside trivial

/-- In a run whose steps all meet the conditions no report and no thread that waits is lost. -/
theorem accepts_served {rno_base : ℕ}
    (run : Relation.ReflTransGen (Accepting.FineStep p) (.new rno_base) s) :
    Accepting.Served s := by
  have keeps : Consistent p s.ctrl ∧ Accepting.Ledger s := by
    induction run with
    | refl =>
        refine ⟨⟨List.nodup_nil, .inl rfl, ?_, ?_, ?_⟩, .refl _, .refl _, ?_, ?_⟩
        · intro stat re _ mem
          cases mem
        · intro re mem
          cases mem
        · intro ae mem
          cases mem
        · intro w mem
          cases mem
        · intro g mem
          cases mem
    | tail _ step ih => exact step.keeps ih.1 ih.2
  exact ⟨keeps.2, fun re mem id_req id_sock => keeps.1.completes mem id_sock⟩

end

/-- A thread that waits for the client 1, and the report of its connection. -/
theorem accepts_served_one : Accepting.Served (T := Bool) (A := ℕ) (C := Unit)
    (((((Accepting.new 1).next 0 (.opListen true () 0 .tcp)).next 0 (.listenConfirm 1 5 0)).next 0
      (.opAccept true () 0 1 .tcp)).next 0 (.acceptedReport 1 6 0 1)) := by
  have listened : Relation.ReflTransGen (Accepting.FineStep 0) (Accepting.new 1)
      (((Accepting.new 1).next 0 (.opListen true () 0 .tcp)).next 0 (.listenConfirm 1 5 0)) :=
    (Relation.ReflTransGen.refl.tail (.call (.opListen true () 0 .tcp) ⟨rfl, rfl⟩ trivial rfl)).tail
      (.call (.listenConfirm 1 5 0) trivial (fun failed => absurd rfl failed) rfl)
  have waited := listened.tail (.call (.opAccept true () 0 1 .tcp) ⟨rfl, rfl⟩
    (fun le _ => by cases le; rfl) rfl)
  exact accepts_served (waited.tail (.call (.acceptedReport 1 6 0 1) ⟨rfl, by decide⟩ rfl rfl))

/-- The second of two threads that wait at a port is lost, and so is the report of its client. -/
theorem not_accepts_served : ¬ ∀ s : Accepting Bool ℕ Unit,
    Relation.ReflTransGen (Accepting.Step 0) (.new 1) s → Accepting.Served s := by
  intro all
  have listened : Relation.ReflTransGen (Accepting.Step 0) (Accepting.new 1)
      (((Accepting.new 1).next 0 (.opListen true () 0 .tcp)).next 0 (.listenConfirm 1 5 0)) :=
    (Relation.ReflTransGen.refl.tail (.call (.opListen true () 0 .tcp) ⟨rfl, rfl⟩ rfl)).tail
      (.call (.listenConfirm 1 5 0) trivial rfl)
  have waited := (listened.tail (.call (.opAccept true () 0 1 .tcp) ⟨rfl, rfl⟩ rfl)).tail
    (.call (.opAccept false () 0 2 .tcp) ⟨rfl, rfl⟩ rfl)
  have reported := (waited.tail (.call (.acceptedReport 1 6 0 1) ⟨rfl, by decide⟩ rfl)).tail
    (.call (.acceptedReport 1 7 0 2) ⟨rfl, by decide⟩ rfl)
  have counts := (all _ reported).asked.length_eq
  revert counts
  decide

end Tahi.Tg
