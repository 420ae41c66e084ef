import Tahi.Tg.AgntAside

/-! # One thread on one port

A thread has one operation at a time. It opens the port, connects, sends and receives, closes, and
may open the port again. What it tells the agent is to be about the socket of the latest open, and
of a socket that is closed nothing is to stay behind. `connects_` has an element from the open on,
and another one from the connect on.
-/

namespace Tahi.Tg

open Cm

variable {T A C : Type}

/-- The socket that an indication is about. -/
def Indication.sock : Indication A → Option Id
  | open_ .. | listen .. => none
  | connect id | send id | recv id | sendRecv id | recvSend id | recvEffect id | close id => some id

/-- The socket that is closed by a call of the agent. -/
def AgntCall.closes : AgntCall T A C → Option Id
  | closeConfirm id_sock _ | closedReport id_sock => some id_sock
  | _ => none

/-- The manager's side of the agent, and the socket of the latest open that was confirmed. -/
structure Port (T A C : Type) where
  ctrl : TgAgntCtrl T A C
  rno_base : ℕ
  latest : Option Id

namespace Port

def new (rno_base : ℕ) : Port T A C := ⟨.new, rno_base, none⟩

/-- The socket of the latest open, after a call. -/
def latestAfter (s : Port T A C) : AgntCall T A C → Option Id
  | .openConfirm id_req id_sock res =>
      if res = 0 ∧ (s.ctrl.requests_.find id_req .open_).isSome then some id_sock else s.latest
  | _ => s.latest

variable [DecidableEq T] [DecidableEq A]

def next (s : Port T A C) (c : AgntCall T A C) : Port T A C :=
  ⟨(s.ctrl.call s.rno_base c).ctrl, (s.ctrl.call s.rno_base c).rno_base, s.latestAfter c⟩

/-- What the thread does on its port `a` when it waits for nothing, the confirms of what it has
    asked for, and the reports of the agent. -/
def Allowed (t : T) (a : A) (s : Port T A C) : AgntCall T A C → Prop
  | .opOpen thread _ srcSock _ _ | .opConnect thread _ srcSock _
  | .opTraffic _ thread _ srcSock _ | .opClose thread _ srcSock _ =>
      thread = t ∧ srcSock = a ∧ s.ctrl.requests_ = []
  | .openConfirm id_req _ _ => (s.ctrl.requests_.find id_req .open_).isSome
  | .connectConfirm id_sock _ => (s.ctrl.requests_.find id_sock .connect).isSome
  | .trafficConfirm op id_sock _ => (s.ctrl.requests_.find id_sock op.stat).isSome
  | .closeConfirm id_sock _ => (s.ctrl.requests_.find id_sock .close).isSome
  | .closedReport _ => True
  | _ => False

/-- An indication is about the socket of the latest open, and of a closed socket no element is
    left. -/
structure Current (s : Port T A C) (c : AgntCall T A C) : Prop where
  carries : ∀ i id, (s.ctrl.call s.rno_base c).sent = some i → i.sock = some id →
    s.latest = some id
  forgets : ∀ id, c.closes = some id → ∀ e ∈ (s.next c).ctrl.connects_, e.id_sock_ ≠ id

/-- An open is confirmed when no element of another socket is left, a close when there is no
    element of the socket but the one that is closing, and a close is reported when there is one
    element of the socket at most. -/
def Alone (s : Port T A C) : AgntCall T A C → Prop
  | .openConfirm _ id_sock res => res = 0 → ∀ e ∈ s.ctrl.connects_, e.id_sock_ = id_sock
  | .closeConfirm id_sock _ => ∀ e ∈ s.ctrl.connects_, e.id_sock_ = id_sock → e.stat_ = .closing
  | .closedReport id_sock => ∀ e ∈ s.ctrl.connects_, ∀ e' ∈ s.ctrl.connects_,
      e.id_sock_ = id_sock → e'.id_sock_ = id_sock → e = e'
  | _ => True

instance decidableAlone (s : Port T A C) : (c : AgntCall T A C) → Decidable (s.Alone c)
  | .openConfirm _ id_sock res =>
      inferInstanceAs (Decidable (res = 0 → ∀ e ∈ s.ctrl.connects_, e.id_sock_ = id_sock))
  | .closeConfirm id_sock _ => inferInstanceAs
      (Decidable (∀ e ∈ s.ctrl.connects_, e.id_sock_ = id_sock → e.stat_ = .closing))
  | .closedReport id_sock => inferInstanceAs
      (Decidable (∀ e ∈ s.ctrl.connects_, ∀ e' ∈ s.ctrl.connects_,
        e.id_sock_ = id_sock → e'.id_sock_ = id_sock → e = e'))
  | .opOpen .. | .opListen .. | .opConnect .. | .opAccept .. | .opTraffic .. | .opClose ..
  | .listenConfirm .. | .acceptedReport .. | .connectConfirm .. | .trafficConfirm .. =>
      .isTrue trivial

/-- Something is so before each call of a run. -/
def Always (P : Port T A C → AgntCall T A C → Prop) (s : Port T A C) :
    List (AgntCall T A C) → Prop
  | [] => True
  | c :: calls => P s c ∧ Always P (s.next c) calls

end Port

/-! ## What is always so -/

/-- Elements that are not closing are of the latest open, and an element that is closing waits for
    its confirm. -/
structure OfLatest (t : T) (a : A) (ctrl : TgAgntCtrl T A C) (latest : Option Id) : Prop where
  own : ∀ e ∈ ctrl.connects_, e.addr_ = a ∧ e.thread_ = t
  keys : (ctrl.connects_.map TgConnElm.key).Nodup
  fresh : ∀ e ∈ ctrl.connects_, e.stat_ ≠ .closing → latest = some e.id_sock_
  closing : ∀ e ∈ ctrl.connects_, e.stat_ = .closing → ∃ re ∈ ctrl.requests_, re.stat_ = .close
  few : ctrl.requests_.length ≤ 1
  asked : ∀ re ∈ ctrl.requests_, re.addr_ = a ∧ re.thread_ = t ∧
    (re.stat_ = .connect → latest = some re.id_)

namespace OfLatest

variable {t : T} {a : A} {ctrl : TgAgntCtrl T A C} {latest : Option Id}

theorem new : OfLatest t a (.new : TgAgntCtrl T A C) latest := by
  constructor <;> simp [TgAgntCtrl.new]

/-- Nothing is closing when the thread waits for nothing. -/
theorem open_of_idle (inv : OfLatest t a ctrl latest) (idle : ctrl.requests_ = []) :
    ∀ e ∈ ctrl.connects_, e.stat_ ≠ .closing := by
  intro e mem closing
  obtain ⟨re, mem', _⟩ := inv.closing e mem closing
  rw [idle] at mem'
  cases mem'

/-- What is answered is all that the thread waits for. -/
theorem only (inv : OfLatest t a ctrl latest) {re : TgReqElm T A C} (mem : re ∈ ctrl.requests_) :
    ctrl.requests_ = [re] := by
  match found : ctrl.requests_, mem, inv.few with
  | [re'], mem, _ => rw [List.mem_singleton.mp mem]

theorem ask (inv : OfLatest t a ctrl latest) (idle : ctrl.requests_ = []) {re : TgReqElm T A C}
    (addr : re.addr_ = a) (thread : re.thread_ = t)
    (connect : re.stat_ = .connect → latest = some re.id_) :
    OfLatest t a (ctrl.addRequest re) latest := by
  have one : (ctrl.addRequest re).requests_ = [re] := by
    rw [TgAgntCtrl.addRequest, idle]
    rfl
  refine ⟨inv.own, inv.keys, inv.fresh, ?_, ?_, ?_⟩
  · intro e mem closing
    exact absurd closing (inv.open_of_idle idle e mem)
  · rw [one]
    exact Nat.le_refl 1
  · intro re' mem
    rw [one, List.mem_singleton] at mem
    subst mem
    exact ⟨addr, thread, connect⟩

/-- The request of the thread is answered, and no element is left that waits for it. -/
theorem answered (inv : OfLatest t a ctrl latest) {re : TgReqElm T A C}
    (mem : re ∈ ctrl.requests_) (open_ : ∀ e ∈ ctrl.connects_, e.stat_ ≠ .closing) :
    (ctrl.removeRequest re).requests_ = [] ∧ OfLatest t a (ctrl.removeRequest re) latest := by
  have none_left : (ctrl.removeRequest re).requests_ = [] := by
    rw [TgAgntCtrl.removeRequest, inv.only mem]
    simp [CmSet.remove]
  refine ⟨none_left, inv.own, inv.keys, inv.fresh, ?_, ?_, ?_⟩
  · exact fun e mem closing => absurd closing (open_ e mem)
  · simp [none_left]
  · simp [none_left]

/-- A request that is not for a close leaves nothing that is closing. -/
theorem open_of_request (inv : OfLatest t a ctrl latest) {re : TgReqElm T A C}
    (mem : re ∈ ctrl.requests_) (other : re.stat_ ≠ .close) :
    ∀ e ∈ ctrl.connects_, e.stat_ ≠ .closing := by
  intro e mem' closing
  obtain ⟨re', there, close⟩ := inv.closing e mem' closing
  rw [inv.only mem, List.mem_singleton] at there
  exact other (there ▸ close)

theorem remove [DecidableEq T] [DecidableEq A] (inv : OfLatest t a ctrl latest)
    (ce : TgConnElm T A) : OfLatest t a (ctrl.removeConnect ce) latest where
  own e mem := inv.own e (CmSet.mem_of_mem_remove mem)
  keys := CmSet.nodup_remove inv.keys
  fresh e mem := inv.fresh e (CmSet.mem_of_mem_remove mem)
  closing e mem := inv.closing e (CmSet.mem_of_mem_remove mem)
  few := inv.few
  asked := inv.asked

/-- A connection is added next to others with its socket. -/
theorem add [DecidableEq T] [DecidableEq A] (inv : OfLatest t a ctrl latest)
    (idle : ctrl.requests_ = []) {ce : TgConnElm T A} (addr : ce.addr_ = a)
    (thread : ce.thread_ = t) (open_ : ce.stat_ ≠ .closing)
    (same : ∀ e ∈ ctrl.connects_, e.id_sock_ = ce.id_sock_) :
    OfLatest t a (ctrl.addConnect ce) (some ce.id_sock_) where
  own e mem := by
    obtain rfl | mem := CmSet.mem_of_mem_add mem
    · exact ⟨addr, thread⟩
    · exact inv.own e mem
  keys := CmSet.nodup_add inv.keys
  fresh e mem _ := by
    obtain rfl | mem := CmSet.mem_of_mem_add mem
    · rfl
    · rw [same e mem]
  closing e mem closing := by
    obtain rfl | mem := CmSet.mem_of_mem_add mem
    · exact absurd closing open_
    · exact absurd closing (inv.open_of_idle idle e mem)
  few := inv.few
  asked re mem := by
    simp [TgAgntCtrl.addConnect, idle] at mem

/-- The only connection of the thread that may be closing. -/
theorem find_closing [DecidableEq T] [DecidableEq A] (inv : OfLatest t a ctrl latest)
    {e : TgConnElm T A} (mem : e ∈ ctrl.connects_) (closing : e.stat_ = .closing) :
    ctrl.connects_.find a t .closing = some e := by
  obtain ⟨rfl, rfl⟩ := inv.own e mem
  rw [← closing]
  exact CmSet.find_of_mem inv.keys mem

theorem mem_setStatus [DecidableEq T] [DecidableEq A] {ce e : TgConnElm T A} {stat : ConnStatus}
    (mem : e ∈ (ctrl.setStatus ce stat).connects_) :
    ∃ e' ∈ ctrl.connects_, e = if e' = ce then { e' with stat_ := stat } else e' := by
  obtain ⟨e', mem', rfl⟩ := List.mem_map.mp mem
  exact ⟨e', mem', rfl⟩

/-- Nothing else is closing, so that the new key is not there yet. -/
theorem keys_close [DecidableEq T] [DecidableEq A] (inv : OfLatest t a ctrl latest)
    (idle : ctrl.requests_ = []) (ce : TgConnElm T A) :
    ((ctrl.setStatus ce .closing).connects_.map TgConnElm.key).Nodup := by
  have open_ := inv.open_of_idle idle
  rw [TgAgntCtrl.setStatus, List.map_map]
  refine List.Nodup.map_on ?_ (List.Nodup.of_map _ inv.keys)
  intro e mem e' mem' same
  simp only [Function.comp_apply] at same
  split at same
  · rename_i here
    split at same
    · rename_i here'
      rw [here, here']
    · exact absurd (congrArg (fun k => k.2.2) same).symm (open_ e' mem')
  · split at same
    · exact absurd (congrArg (fun k => k.2.2) same) (open_ e mem)
    · exact List.inj_on_of_nodup_map inv.keys mem mem' same

/-- A connection that the thread closes keeps its place. -/
theorem close [DecidableEq T] [DecidableEq A] (inv : OfLatest t a ctrl latest)
    (idle : ctrl.requests_ = []) (ce : TgConnElm T A) {re : TgReqElm T A C} (addr : re.addr_ = a)
    (thread : re.thread_ = t) (close : re.stat_ = .close) :
    OfLatest t a ((ctrl.setStatus ce .closing).addRequest re) latest := by
  have one : ((ctrl.setStatus ce .closing).addRequest re).requests_ = [re] := by
    rw [TgAgntCtrl.addRequest, TgAgntCtrl.setStatus, idle]
    rfl
  refine ⟨?_, inv.keys_close idle ce, ?_, ?_, ?_, ?_⟩
  · intro e mem
    obtain ⟨e', mem', rfl⟩ := mem_setStatus mem
    have own := inv.own e' mem'
    split
    · exact own
    · exact own
  · intro e mem stat
    obtain ⟨e', mem', rfl⟩ := mem_setStatus mem
    split at stat
    · exact absurd rfl stat
    · rename_i other
      rw [if_neg other]
      exact inv.fresh e' mem' stat
  · intro e _ _
    exact ⟨re, by simp [one], close⟩
  · rw [one]
    exact Nat.le_refl 1
  · intro re' mem
    rw [one, List.mem_singleton] at mem
    subst mem
    exact ⟨addr, thread, fun connect => by simp [close] at connect⟩

theorem latest_of_find [DecidableEq T] [DecidableEq A] (inv : OfLatest t a ctrl latest) {src : A}
    {thread : T} {stat : ConnStatus} {ce : TgConnElm T A}
    (found : ctrl.connects_.find src thread stat = some ce) (open_ : stat ≠ .closing) :
    latest = some ce.id_sock_ := by
  obtain ⟨mem, same⟩ := CmSet.find_eq_some found
  have is : ce.stat_ = stat := congrArg (fun k => k.2.2) same
  exact inv.fresh ce mem (is ▸ open_)

end OfLatest

/-! ## Steps and runs -/

section

variable [DecidableEq T] [DecidableEq A] {ctrl : TgAgntCtrl T A C} {thread : T} {src : A}

theorem Traffic.operation_none (op : Traffic)
    (missing : ctrl.connects_.find src thread .connected = none) (cb : C) (type : ConnType) :
    op.operation ctrl thread cb src type = none := by
  cases op <;> exact congrArg (Option.map _) missing

theorem Traffic.operation_some (op : Traffic) {ce : TgConnElm T A}
    (found : ctrl.connects_.find src thread .connected = some ce) (cb : C) (type : ConnType) :
    ∃ i : Indication A, i.sock = some ce.id_sock_ ∧ op.operation ctrl thread cb src type =
      some (ctrl.addRequest ⟨op.stat, ce.id_sock_, thread, cb, src, type⟩, some i, true) := by
  cases op <;> exact ⟨_, rfl, congrArg (Option.map _) found⟩

end

namespace Port

variable [DecidableEq T] [DecidableEq A] {t : T} {a : A} {s : Port T A C} {c : AgntCall T A C}

theorem carries (inv : OfLatest t a s.ctrl s.latest) (allowed : s.Allowed t a c) {i : Indication A}
    {id : Id} (sent : (s.ctrl.call s.rno_base c).sent = some i) (sock : i.sock = some id) :
    s.latest = some id := by
  cases c with
  | opOpen thread cb src dst type =>
      cases sent
      cases sock
  | opConnect thread cb src type =>
      simp only [TgAgntCtrl.call, TgAgntCtrl.opConnect] at sent
      cases found : s.ctrl.connects_.find src thread .opened with
      | none =>
          rw [found] at sent
          cases sent
      | some ce =>
          rw [found] at sent
          cases sent
          cases sock
          exact inv.latest_of_find found (by simp)
  | opTraffic op thread cb src type =>
      simp only [TgAgntCtrl.call] at sent
      cases found : s.ctrl.connects_.find src thread .connected with
      | none =>
          rw [op.operation_none found] at sent
          cases sent
      | some ce =>
          obtain ⟨i', sock', eq⟩ := op.operation_some found cb type
          rw [eq] at sent
          cases sent
          rw [← sock, sock']
          exact inv.latest_of_find found (by simp)
  | opClose thread cb src type =>
      simp only [TgAgntCtrl.call, TgAgntCtrl.opClose] at sent
      cases found : s.ctrl.connects_.find src thread .connected with
      | none =>
          rw [found] at sent
          cases sent
      | some ce =>
          rw [found] at sent
          cases sent
          cases sock
          exact inv.latest_of_find found (by simp)
  | opListen | opAccept => exact allowed.elim
  | openConfirm | listenConfirm | acceptedReport | connectConfirm | trafficConfirm | closeConfirm
  | closedReport => cases sent

theorem forgets (inv : OfLatest t a s.ctrl s.latest) (allowed : s.Allowed t a c)
    (alone : s.Alone c) {id : Id} (closes : c.closes = some id) :
    ∀ e ∈ (s.next c).ctrl.connects_, e.id_sock_ ≠ id := by
  cases c with
  | closeConfirm id_sock res =>
      cases closes
      intro e mem same
      obtain ⟨re, asks⟩ := Option.isSome_iff_exists.mp allowed
      obtain ⟨mem', -, -⟩ := TgAgntCtrl.other_of_find asks
      obtain ⟨addr, thread, -⟩ := inv.asked re mem'
      simp only [next, TgAgntCtrl.call, TgAgntCtrl.recvCloseConfirm, asks, addr, thread] at mem
      cases found : s.ctrl.connects_.find a t .closing with
      | none =>
          simp only [TgAgntCtrl.removeRequest, found, TgAgntCtrl.ofReply] at mem
          have closing := alone e mem same
          rw [inv.find_closing mem closing] at found
          cases found
      | some ce =>
          simp only [TgAgntCtrl.removeRequest, found, TgAgntCtrl.ofReply,
            TgAgntCtrl.removeConnect] at mem
          have there := CmSet.mem_of_mem_remove mem
          rw [inv.find_closing there (alone e there same)] at found
          cases found
          rw [CmSet.remove_eq_filter inv.keys] at mem
          simpa using (List.mem_filter.mp mem).2
  | closedReport id_sock =>
      cases closes
      intro e mem same
      simp only [next, TgAgntCtrl.call, TgAgntCtrl.recvClosedReport] at mem
      cases found : s.ctrl.connects_.findSock id with
      | none =>
          simp only [found, TgAgntCtrl.ofReply] at mem
          simpa [same] using List.find?_eq_none.mp found e mem
      | some ce =>
          simp only [found, TgAgntCtrl.ofReply, TgAgntCtrl.removeConnect] at mem
          have same' : ce.id_sock_ = id := by simpa using List.find?_some found
          have here := List.mem_of_find?_eq_some found
          rw [alone ce here e (CmSet.mem_of_mem_remove mem) same' same,
            CmSet.remove_eq_filter inv.keys] at mem
          simpa using (List.mem_filter.mp mem).2
  | opOpen | opListen | opConnect | opAccept | opTraffic | opClose | openConfirm | listenConfirm
  | acceptedReport | connectConfirm | trafficConfirm => cases closes

theorem ofLatest_next (inv : OfLatest t a s.ctrl s.latest) (allowed : s.Allowed t a c)
    (alone : s.Alone c) : OfLatest t a (s.next c).ctrl (s.next c).latest := by
  cases c with
  | opOpen thread cb src dst type =>
      obtain ⟨rfl, rfl, idle⟩ := allowed
      exact inv.ask idle rfl rfl (by simp)
  | opConnect thread cb src type =>
      obtain ⟨rfl, rfl, idle⟩ := allowed
      simp only [next, latestAfter, TgAgntCtrl.call, TgAgntCtrl.opConnect]
      cases found : s.ctrl.connects_.find src thread .opened with
      | none => exact inv
      | some ce => exact inv.ask idle rfl rfl fun _ => inv.latest_of_find found (by simp)
  | opTraffic op thread cb src type =>
      obtain ⟨rfl, rfl, idle⟩ := allowed
      simp only [next, latestAfter, TgAgntCtrl.call]
      cases found : s.ctrl.connects_.find src thread .connected with
      | none =>
          rw [op.operation_none found]
          exact inv
      | some ce =>
          obtain ⟨i, -, eq⟩ := op.operation_some found cb type
          rw [eq]
          exact inv.ask idle rfl rfl fun _ => inv.latest_of_find found (by simp)
  | opClose thread cb src type =>
      obtain ⟨rfl, rfl, idle⟩ := allowed
      simp only [next, latestAfter, TgAgntCtrl.call, TgAgntCtrl.opClose]
      cases found : s.ctrl.connects_.find src thread .connected with
      | none => exact inv
      | some ce => exact inv.close idle ce rfl rfl rfl
  | openConfirm id_req id_sock res =>
      obtain ⟨re, asks⟩ := Option.isSome_iff_exists.mp allowed
      obtain ⟨mem, -, stat⟩ := TgAgntCtrl.other_of_find asks
      obtain ⟨addr, thread, -⟩ := inv.asked re mem
      obtain ⟨idle, inv'⟩ := inv.answered mem (inv.open_of_request mem (by simp [stat]))
      simp only [next, latestAfter, TgAgntCtrl.call, TgAgntCtrl.recvOpenConfirm, asks,
        TgAgntCtrl.ofReply, Option.isSome_some, and_true]
      by_cases good : res = 0
      · simp only [if_pos good]
        exact inv'.add idle addr thread (by simp) (alone good)
      · simp only [if_neg good]
        exact inv'
  | connectConfirm id_sock res =>
      obtain ⟨re, asks⟩ := Option.isSome_iff_exists.mp allowed
      obtain ⟨mem, id, stat⟩ := TgAgntCtrl.other_of_find asks
      obtain ⟨addr, thread, connect⟩ := inv.asked re mem
      have open_ := inv.open_of_request mem (by simp [stat])
      obtain ⟨idle, inv'⟩ := inv.answered mem open_
      have latest : s.latest = some id_sock := id ▸ connect stat
      simp only [next, latestAfter, TgAgntCtrl.call, TgAgntCtrl.opConnectConfirm, asks,
        TgAgntCtrl.ofReply]
      split
      · rw [latest]
        refine inv'.add idle addr thread (by simp) fun e mem => ?_
        have fresh := inv.fresh e mem (open_ e mem)
        rw [latest] at fresh
        exact (Option.some.inj fresh).symm
      · exact inv'
  | trafficConfirm op id_sock res =>
      obtain ⟨re, asks⟩ := Option.isSome_iff_exists.mp allowed
      obtain ⟨mem, -, stat⟩ := TgAgntCtrl.other_of_find asks
      have other : re.stat_ ≠ .close := by
        rw [stat]
        cases op <;> simp [Traffic.stat]
      have inv' := (inv.answered mem (inv.open_of_request mem other)).2
      have eq : (s.next (.trafficConfirm op id_sock res)).ctrl = s.ctrl.removeRequest re := by
        cases op <;>
          simp only [Traffic.stat] at asks <;>
          simp only [next, TgAgntCtrl.call, Traffic.confirm, TgAgntCtrl.recvSndConfirm,
            TgAgntCtrl.recvRecvConfirm, TgAgntCtrl.recvSndrecvConfirm,
            TgAgntCtrl.recvRecvsndConfirm, TgAgntCtrl.recvRecvEffectConfirm,
            TgAgntCtrl.recvTrafficConfirm, asks, TgAgntCtrl.ofReply]
      rw [eq]
      exact inv'
  | closeConfirm id_sock res =>
      obtain ⟨re, asks⟩ := Option.isSome_iff_exists.mp allowed
      obtain ⟨mem, -, -⟩ := TgAgntCtrl.other_of_find asks
      obtain ⟨addr, thread, -⟩ := inv.asked re mem
      simp only [next, latestAfter, TgAgntCtrl.call, TgAgntCtrl.recvCloseConfirm, asks, addr,
        thread]
      cases found : s.ctrl.connects_.find a t .closing with
      | none =>
          have open_ : ∀ e ∈ s.ctrl.connects_, e.stat_ ≠ .closing := fun e mem closing => by
            rw [inv.find_closing mem closing] at found
            cases found
          simp only [TgAgntCtrl.removeRequest, found, TgAgntCtrl.ofReply]
          exact (inv.answered mem open_).2
      | some ce =>
          have open_ : ∀ e ∈ (s.ctrl.removeConnect ce).connects_, e.stat_ ≠ .closing := by
            intro e mem closing
            rw [inv.find_closing (CmSet.mem_of_mem_remove mem) closing] at found
            cases found
            rw [TgAgntCtrl.removeConnect, CmSet.remove_eq_filter inv.keys] at mem
            simpa using (List.mem_filter.mp mem).2
          simp only [TgAgntCtrl.removeRequest, found, TgAgntCtrl.ofReply]
          exact ((inv.remove ce).answered mem open_).2
  | closedReport id_sock =>
      simp only [next, latestAfter, TgAgntCtrl.call, TgAgntCtrl.recvClosedReport]
      cases s.ctrl.connects_.findSock id_sock with
      | none => exact inv
      | some ce => exact inv.remove ce
  | opListen | opAccept | listenConfirm | acceptedReport => exact allowed.elim

theorem current (inv : OfLatest t a s.ctrl s.latest) (allowed : s.Allowed t a c)
    (alone : s.Alone c) : s.Current c :=
  ⟨fun _ _ sent sock => carries inv allowed sent sock,
    fun _ closes => forgets inv allowed alone closes⟩

/-- The invariant carries every run. -/
theorem always_current : ∀ (calls : List (AgntCall T A C)) {s : Port T A C},
    OfLatest t a s.ctrl s.latest → Always (Allowed t a) s calls → Always Alone s calls →
      Always Current s calls
  | [], _, _, _, _ => trivial
  | _ :: calls, _, inv, ⟨allowed, allowed'⟩, ⟨alone, alone'⟩ =>
      ⟨current inv allowed alone,
        always_current calls (ofLatest_next inv allowed alone) allowed' alone'⟩

/-- What the thread tells the agent is about the socket of its latest open, and of a closed socket
    nothing stays behind. -/
theorem latest_carried (t : T) (a : A) (rno_base : ℕ) (calls : List (AgntCall T A C))
    (allowed : Always (Allowed t a) (.new rno_base) calls)
    (alone : Always Alone (.new rno_base) calls) : Always Current (.new rno_base) calls :=
  always_current calls .new allowed alone

/-- For a close the condition is exact. -/
theorem alone_of_forgets (inv : OfLatest t a s.ctrl s.latest) (allowed : s.Allowed t a c) {id : Id}
    (closes : c.closes = some id) (gone : ∀ e ∈ (s.next c).ctrl.connects_, e.id_sock_ ≠ id) :
    s.Alone c := by
  cases c with
  | closeConfirm id_sock res =>
      cases closes
      intro e mem same
      by_contra open_
      obtain ⟨re, asks⟩ := Option.isSome_iff_exists.mp allowed
      refine gone e ?_ same
      simp only [next, TgAgntCtrl.call, TgAgntCtrl.recvCloseConfirm, asks]
      cases found : s.ctrl.connects_.find re.addr_ re.thread_ .closing with
      | none =>
          simp only [TgAgntCtrl.removeRequest, found, TgAgntCtrl.ofReply]
          exact mem
      | some ce =>
          simp only [TgAgntCtrl.removeRequest, found, TgAgntCtrl.ofReply, TgAgntCtrl.removeConnect]
          have closing : ce.stat_ = .closing :=
            congrArg (fun k => k.2.2) (CmSet.find_eq_some found).2
          rw [CmSet.remove_eq_filter inv.keys]
          refine List.mem_filter.mpr ⟨mem, decide_eq_true fun key => open_ ?_⟩
          exact (congrArg (fun k => k.2.2) key).trans closing
  | closedReport id_sock =>
      cases closes
      cases found : s.ctrl.connects_.findSock id with
      | none =>
          intro e mem e' _ same _
          exact absurd same (by simpa using List.find?_eq_none.mp found e mem)
      | some ce =>
          simp only [next, TgAgntCtrl.call, TgAgntCtrl.recvClosedReport, found,
            TgAgntCtrl.ofReply, TgAgntCtrl.removeConnect] at gone
          rw [CmSet.remove_eq_filter inv.keys] at gone
          have here := List.mem_of_find?_eq_some found
          -- what is not the element that was found is still there
          have only : ∀ e ∈ s.ctrl.connects_, e.id_sock_ = id → e = ce := by
            intro e mem same
            by_contra other
            have key : e.key ≠ ce.key := fun key =>
              other (List.inj_on_of_nodup_map inv.keys mem here key)
            exact gone e (List.mem_filter.mpr ⟨mem, decide_eq_true key⟩) same
          intro e mem e' mem' same same'
          rw [only e mem same, only e' mem' same']
  | opOpen | opListen | opConnect | opAccept | opTraffic | opClose | openConfirm | listenConfirm
  | acceptedReport | connectConfirm | trafficConfirm => cases closes

/-- The peer closes before the thread connects, and the port is opened again. -/
def again : List (AgntCall Unit Unit Unit) :=
  [.opOpen () () () () .tcp, .openConfirm 0 1 0, .closedReport 1, .opOpen () () () () .tcp,
    .openConfirm 1 2 0, .opConnect () () () .tcp, .connectConfirm 2 0,
    .opTraffic .send () () () .tcp]

theorem latest_carried_again : Always (Allowed () ()) (.new 0) again ∧
    Always Alone (.new 0) again ∧ Always Current (.new 0) again := by
  have allowed : Always (Allowed () ()) (.new 0) again :=
    ⟨⟨rfl, rfl, rfl⟩, rfl, trivial, ⟨rfl, rfl, rfl⟩, rfl, ⟨rfl, rfl, rfl⟩, rfl, ⟨rfl, rfl, rfl⟩,
      trivial⟩
  have alone : Always Alone (.new 0) again := by
    refine ⟨trivial, ?_, ?_, trivial, ?_, trivial, trivial, trivial, trivial⟩ <;> decide
  exact ⟨allowed, alone, latest_carried () () 0 again allowed alone⟩

/-- A thread closes what it has connected, opens the port again, and connects. -/
def reopens : List (AgntCall Unit Unit Unit) :=
  [.opOpen () () () () .tcp, .openConfirm 0 1 0, .opConnect () () () .tcp, .connectConfirm 1 0,
    .opClose () () () .tcp, .closeConfirm 1 0, .opOpen () () () () .tcp, .openConfirm 1 2 0,
    .opConnect () () () .tcp]

/-- The element of the open is left, and the second connect is for the first socket. -/
theorem not_latest_carried : ¬ ∀ (t : Unit) (a : Unit) (rno_base : ℕ)
    (calls : List (AgntCall Unit Unit Unit)), Always (Allowed t a) (.new rno_base) calls →
      Always Current (.new rno_base) calls := by
  intro carried
  have allowed : Always (Allowed () ()) (.new 0) reopens :=
    ⟨⟨rfl, rfl, rfl⟩, rfl, ⟨rfl, rfl, rfl⟩, rfl, ⟨rfl, rfl, rfl⟩, rfl, ⟨rfl, rfl, rfl⟩, rfl,
      ⟨rfl, rfl, rfl⟩, trivial⟩
  obtain ⟨-, -, -, -, -, -, -, -, connects, -⟩ := carried () () 0 reopens allowed
  have stale := connects.carries (.connect 1) 1 rfl rfl
  exact absurd stale (by decide)

end Port

end Tahi.Tg
