import Tahi.Tg.TcSocket

/-! # UDP sockets of an agent

A UDP socket counts messages and not octets, and a message that its timer stands for counts as
received. What is not here is the same for all sockets.
-/

namespace Tahi.Tg.TcUDPSocket

open BitField (Octet)

def postSend (s : TcSocket) : TcSocket :=
  match s.request_ with
  | .snd | .connectSnd =>
      if s.sentcnt_ < s.sendcnt_ then { s with timer_ := true } else s.report s.request_ 0
  | .sndRecv | .connectSndRecv => { s with timer_ := true }
  | _ => s

/-- `sendPacket` of all sockets, with `postSend` of this one. -/
def sendPacket (s : TcSocket) (stack : ℕ → Octet) (sendto : SendResult) : TcSocket :=
  let (s, buf) := { s with timer_ := false }.number stack
  if s.sendcnt_ * s.sendlen_ ≠ 0 then
    if s.sendcnt_ ≤ s.sentcnt_ then s
    else
      match sendto with
      | .sent =>
          postSend { s with
            sentcnt_ := s.sentcnt_ + 1
            sentlen_ := s.sentlen_ + s.sendlen_.setWidth 64
            outgoing := s.outgoing ++ (List.range s.sendlen_.toNat).map buf }
      | .retry => postSend s
      | .error errno => s.report s.request_ errno
  else postSend s

/-- What is reported when every message is received, or stood for by the timer. -/
def complete (s : TcSocket) : TcSocket :=
  match s.request_ with
  | .sndRecv | .connectSndRecv => s.report s.request_ 0
  | _ => s

def postReceive (s : TcSocket) (stack : ℕ → Octet) (sendto : SendResult) : TcSocket :=
  let s := if s.recvcnt_ = s.recvdcnt_ + s.regard_ then complete s else s
  if s.sendcnt_ ≤ s.sentcnt_ then s
  else
    match s.request_ with
    | .sndRecv | .connectSndRecv =>
        -- A message was sent before by the timer.
        if s.recvdcnt_ + s.regard_ < s.sentcnt_ then s else sendPacket s stack sendto
    | .snd | .connectSnd | .recvSnd | .listenRecvSnd => sendPacket s stack sendto
    | _ => s

/-- The socket is closed, `none`, also by a message that is empty. -/
def receivePacket (s : TcSocket) (received : Option (List Octet)) (stack : ℕ → Octet)
    (sendto : SendResult) : Option TcSocket :=
  let s := { s with timer_ := false }
  if s.reads then received.map fun buf => postReceive (s.countReceived buf) stack sendto
  else some (postReceive s stack sendto)

def timeup (s : TcSocket) (stack : ℕ → Octet) (sendto : SendResult) : TcSocket :=
  postReceive { s with timer_ := false, regard_ := s.regard_ + 1 } stack sendto

def sndIndication (s : TcSocket) (c l t : BitVec 32) (stack : ℕ → Octet) (sendto : SendResult) :
    TcSocket :=
  sendPacket { s with
    seqno_ := 0
    sentcnt_ := 0
    recvdcnt_ := 0
    sentlen_ := 0
    recvdlen_ := 0
    regard_ := 0
    sendcnt_ := c
    sendlen_ := l
    sinterval_ := t } stack sendto

def sndrecvIndication (s : TcSocket) (c sl rl t : BitVec 32) (stack : ℕ → Octet)
    (sendto : SendResult) : TcSocket :=
  sndIndication (s.recvIndication c rl) c sl t stack sendto

/-- The answer does not wait for what is still to come. -/
def recvEffectIndication (s : TcSocket) : TcSocket :=
  { s with effectreq_ := true }.report .recvEffect 0

/-! ## What a client does -/

/-- `postReceive` up to the answer. -/
def answered (s : TcSocket) : TcSocket :=
  if s.recvcnt_ = s.recvdcnt_ + s.regard_ then complete s else s

/-- `postReceive` after it. -/
def sendNext (s : TcSocket) (stack : ℕ → Octet) (sendto : SendResult) : TcSocket :=
  if s.sendcnt_ ≤ s.sentcnt_ then s
  else
    match s.request_ with
    | .sndRecv | .connectSndRecv =>
        if s.recvdcnt_ + s.regard_ < s.sentcnt_ then s else sendPacket s stack sendto
    | .snd | .connectSnd | .recvSnd | .listenRecvSnd => sendPacket s stack sendto
    | _ => s

theorem postReceive_eq (s : TcSocket) (stack : ℕ → Octet) (sendto : SendResult) :
    postReceive s stack sendto = sendNext (answered s) stack sendto :=
  rfl

inductive Action where
  | receive
  | report (r : Report)
  | send
deriving DecidableEq

/-- Whether the client reports that it has sent and received. -/
def Action.reports : Action → Bool
  | .report r => r.request = .sndRecv
  | _ => false

/-- A reply that is there, or the timer. Writing succeeds, or fails with an error that is retried
    (`EINTR`, `ENOBUFS`). -/
inductive Event where
  | reply (first : Octet) (rest : List Octet) (stack : ℕ → Octet) (sent : Bool)
  | timeup (stack : ℕ → Octet) (sent : Bool)

def result (sent : Bool) : SendResult :=
  if sent then .sent else .retry

/-- What is new from one socket to the next: reports, and a datagram. -/
def newActions (s s' : TcSocket) : List Action :=
  (s'.reports.drop s.reports.length).map .report ++
    if s.outgoing.length < s'.outgoing.length then [.send] else []

def postActions (s : TcSocket) (stack : ℕ → Octet) (sendto : SendResult) : List Action :=
  newActions s (answered s) ++ newActions (answered s) (sendNext (answered s) stack sendto)

namespace Event

def sent : Event → Bool
  | reply _ _ _ sent => sent
  | timeup _ sent => sent

/-- The timer expires only while it runs. -/
def handle (s : TcSocket) : Event → Option TcSocket
  | reply first rest stack sent => receivePacket s (some (first :: rest)) stack (result sent)
  | timeup stack sent =>
      if s.timer_ then some (TcUDPSocket.timeup s stack (result sent)) else none

def actions (s : TcSocket) : Event → List Action
  | reply first rest stack sent =>
      let s := { s with timer_ := false }
      if s.reads then
        .receive :: postActions (s.countReceived (first :: rest)) stack (result sent)
      else postActions s stack (result sent)
  | timeup stack sent =>
      postActions { s with timer_ := false, regard_ := s.regard_ + 1 } stack (result sent)

end Event

/-- A client that is told to send and receive `c` messages of length `l`, and what it has done. -/
inductive Runs (c l t : BitVec 32) (first : Bool) : List Event → TcSocket → List Action → Prop where
  | start (s : TcSocket) (stack : ℕ → Octet) (request : s.request_ = .sndRecv) :
      Runs c l t first [] (sndrecvIndication s c l l t stack (result first))
        (newActions s (sndrecvIndication s c l l t stack (result first)))
  | event {es : List Event} {s s' : TcSocket} {log : List Action} (e : Event)
      (before : Runs c l t first es s log) (handles : e.handle s = some s') :
      Runs c l t first (es ++ [e]) s' (log ++ e.actions s)

/-- One report, with the counts of what was sent and received up to it, and nothing is sent behind
    it. -/
structure Reported (c : BitVec 32) (log : List Action) : Prop where
  once : log.countP Action.reports ≤ 1
  sends : log.count .send ≤ c.toNat
  last : ∀ a r b, log = a ++ .report r :: b → r.request = .sndRecv → Action.send ∉ b ∧
    r.info.scount_.toNat = a.count .send ∧ r.info.rcount_.toNat = a.count .receive

/-- How many datagrams are written before the event of the report, when `results` says of each
    event whether writing succeeds in it, the indication first. -/
def early (c : ℕ) (results : List Bool) : ℕ :=
  (results.take c).count true

/-- From the event of the report on, writing would succeed only when everything is sent, or when
    the counter of the events has begun again and is behind what is sent. -/
def Quiet (c : ℕ) (results : List Bool) : Prop :=
  ∀ k, c ≤ k → results[k]? = some true → early c results = c ∨ k % 2 ^ 32 < early c results

/-! ## The counters of a client -/

/-- `n` messages are received or stood for. -/
structure Counts (c l : BitVec 32) (n : ℕ) (log : List Action) (s : TcSocket) : Prop where
  request : s.request_ = .sndRecv
  sendcnt : s.sendcnt_ = c
  recvcnt : s.recvcnt_ = c
  sendlen : s.sendlen_ = l
  recvlen : s.recvlen_ = l
  stands : s.recvdcnt_ + s.regard_ = BitVec.ofNat 32 n
  received : s.recvdcnt_ = BitVec.ofNat 32 (log.count .receive)
  sent : s.sentcnt_.toNat = log.count .send
  few : log.count .send ≤ c.toNat
  receipts : log.count .receive ≤ n

/-- The report of a client that has done what is in `log`. -/
structure Tells (log : List Action) (r : Report) : Prop where
  request : r.request = .sndRecv
  scount : r.info.scount_.toNat = log.count .send
  rcount : r.info.rcount_ = BitVec.ofNat 32 (log.count .receive)

variable {c l t : BitVec 32} {n : ℕ} {log : List Action} {s : TcSocket}

theorem newActions_self (s : TcSocket) : newActions s s = [] := by
  rw [newActions, List.drop_length, if_neg (Nat.lt_irrefl _)]
  rfl

theorem newActions_report (s : TcSocket) (req : ERequest) (ret : BitVec 32) :
    ∃ r, newActions s (s.report req ret) = [.report r] ∧ r = ⟨req, ret, {
      scount_ := if TcSocket.counted req then s.sentcnt_ else 0
      slen_ := s.sentlen_.setWidth 32
      rcount_ := if TcSocket.counted req then s.recvdcnt_ else 0
      rlen_ := s.recvdlen_.setWidth 32 }⟩ := by
  refine ⟨_, ?_, rfl⟩
  have quiet : (s.report req ret).outgoing = s.outgoing := rfl
  rw [newActions, quiet, if_neg (Nat.lt_irrefl _), List.append_nil]
  simp only [TcSocket.report, List.drop_left, List.map_cons, List.map_nil]

/-- What is done besides is neither receiving nor sending. -/
theorem Counts.besides (counts : Counts c l n log s) {acts : List Action}
    (receives : acts.count .receive = 0) (sends : acts.count .send = 0) :
    Counts c l n (log ++ acts) s where
  request := counts.request
  sendcnt := counts.sendcnt
  recvcnt := counts.recvcnt
  sendlen := counts.sendlen
  recvlen := counts.recvlen
  stands := counts.stands
  received := by
    rw [List.count_append, receives]
    exact counts.received
  sent := by
    rw [List.count_append, sends]
    exact counts.sent
  few := by
    rw [List.count_append, sends]
    exact counts.few
  receipts := by
    rw [List.count_append, receives]
    exact counts.receipts

theorem Counts.report (counts : Counts c l n log s) (req : ERequest) (ret : BitVec 32) :
    Counts c l n log (s.report req ret) :=
  ⟨counts.request, counts.sendcnt, counts.recvcnt, counts.sendlen, counts.recvlen, counts.stands,
    counts.received, counts.sent, counts.few, counts.receipts⟩

/-- The report comes when the counters, which wrap around, are equal. -/
theorem Counts.answered (counts : Counts c l n log s) :
    ∃ r, Tells log r ∧
      newActions s (answered s) = (if n % 2 ^ 32 = c.toNat then [.report r] else []) ∧
      Counts c l n (log ++ newActions s (answered s)) (answered s) := by
  have equal : s.recvcnt_ = s.recvdcnt_ + s.regard_ ↔ n % 2 ^ 32 = c.toNat := by
    rw [counts.recvcnt, counts.stands, ← BitVec.toNat_inj, BitVec.toNat_ofNat]
    exact eq_comm
  obtain ⟨r, told, r_eq⟩ := newActions_report s .sndRecv 0
  have tells : Tells log r := by
    rw [r_eq]
    exact ⟨rfl, counts.sent, counts.received⟩
  refine ⟨r, tells, ?_⟩
  by_cases here : n % 2 ^ 32 = c.toNat
  · have reports : TcUDPSocket.answered s = s.report .sndRecv 0 := by
      rw [TcUDPSocket.answered, if_pos (equal.mpr here)]
      simp only [complete, counts.request]
    rw [reports, told, if_pos here]
    exact ⟨rfl, (counts.report _ _).besides rfl rfl⟩
  · have same : TcUDPSocket.answered s = s := by
      rw [TcUDPSocket.answered, if_neg (mt equal.mp here)]
    rw [same, newActions_self, if_neg here, List.append_nil]
    exact ⟨rfl, counts⟩

theorem sendPacket_sent (request : s.request_ = .sndRecv) (product : s.sendcnt_ * s.sendlen_ ≠ 0)
    (more : ¬ s.sendcnt_ ≤ s.sentcnt_) (stack : ℕ → Octet) :
    ∃ buf, sendPacket s stack .sent =
      { s with
        timer_ := true
        seqno_ := s.seqno_ + 1
        sentcnt_ := s.sentcnt_ + 1
        sentlen_ := s.sentlen_ + s.sendlen_.setWidth 64
        outgoing := s.outgoing ++ (List.range s.sendlen_.toNat).map buf } := by
  refine ⟨Function.update stack 0 ((s.seqno_ + 1).setWidth 8), ?_⟩
  simp only [sendPacket, TcSocket.number, postSend, request, ne_eq, product, not_false_eq_true,
    if_true, more, if_false]

theorem sendPacket_retry (request : s.request_ = .sndRecv)
    (product : s.sendcnt_ * s.sendlen_ ≠ 0) (more : ¬ s.sendcnt_ ≤ s.sentcnt_)
    (stack : ℕ → Octet) :
    sendPacket s stack .retry = { s with timer_ := true, seqno_ := s.seqno_ + 1 } := by
  simp only [sendPacket, TcSocket.number, postSend, request, ne_eq, product, not_false_eq_true,
    if_true, more, if_false]

/-- The socket has not sent enough: it writes. -/
theorem Counts.sendPacket (counts : Counts c l n log s) (low : 1 ≤ l.toNat) (product : c * l ≠ 0)
    (more : log.count .send < c.toNat) (stack : ℕ → Octet) (b : Bool) :
    newActions s (sendPacket s stack (result b)) = (if b then [.send] else []) ∧
      Counts c l n (log ++ if b then [.send] else []) (sendPacket s stack (result b)) := by
  have product' : s.sendcnt_ * s.sendlen_ ≠ 0 := by
    rw [counts.sendcnt, counts.sendlen]
    exact product
  have more' : ¬ s.sendcnt_ ≤ s.sentcnt_ := by
    rw [counts.sendcnt, BitVec.le_def, counts.sent]
    omega
  cases b with
  | true =>
    change newActions s (TcUDPSocket.sendPacket s stack .sent) = [.send] ∧
      Counts c l n (log ++ [.send]) (TcUDPSocket.sendPacket s stack .sent)
    obtain ⟨buf, eq⟩ := sendPacket_sent counts.request product' more' stack
    rw [eq]
    refine ⟨?_, counts.request, counts.sendcnt, counts.recvcnt, counts.sendlen, counts.recvlen,
      counts.stands, ?_, ?_, ?_, ?_⟩
    · have longer : s.outgoing.length <
          (s.outgoing ++ (List.range s.sendlen_.toNat).map buf).length := by
        rw [List.length_append, List.length_map, List.length_range, counts.sendlen]
        omega
      simp only [newActions, if_pos longer, List.drop_length, List.map_nil, List.nil_append]
    · rw [List.count_append, List.count_singleton]
      exact counts.received
    · have bound : log.count .send + 1 < 2 ^ 32 := Nat.lt_of_le_of_lt more c.isLt
      have number : (s.sentcnt_ + 1).toNat = log.count .send + 1 := by
        rw [BitVec.toNat_add, counts.sent]
        exact Nat.mod_eq_of_lt bound
      rw [List.count_append, List.count_singleton]
      exact number
    · rw [List.count_append, List.count_singleton]
      exact more
    · rw [List.count_append, List.count_singleton]
      exact counts.receipts
  | false =>
    change newActions s (TcUDPSocket.sendPacket s stack .retry) = [] ∧
      Counts c l n (log ++ []) (TcUDPSocket.sendPacket s stack .retry)
    rw [sendPacket_retry counts.request product' more' stack, List.append_nil]
    refine ⟨?_, counts.request, counts.sendcnt, counts.recvcnt, counts.sendlen, counts.recvlen,
      counts.stands, counts.received, counts.sent, counts.few, counts.receipts⟩
    exact newActions_self s

/-- It writes when it has not sent enough, and has not sent more than it has received. -/
theorem Counts.sendNext (counts : Counts c l n log s) (low : 1 ≤ l.toNat) (product : c * l ≠ 0)
    (stack : ℕ → Octet) (b : Bool) :
    ∃ acts, newActions s (sendNext s stack (result b)) = acts ∧
      Counts c l n (log ++ acts) (sendNext s stack (result b)) ∧
      acts = if b = true ∧ log.count .send < c.toNat ∧ log.count .send ≤ n % 2 ^ 32 then [.send]
        else [] := by
  refine ⟨_, rfl, ?_⟩
  have stays : TcUDPSocket.sendNext s stack (result b) = s →
      Counts c l n (log ++ newActions s (TcUDPSocket.sendNext s stack (result b)))
        (TcUDPSocket.sendNext s stack (result b)) ∧
      newActions s (TcUDPSocket.sendNext s stack (result b)) = [] := by
    intro same
    rw [same, newActions_self, List.append_nil]
    exact ⟨counts, rfl⟩
  have enough : s.sendcnt_ ≤ s.sentcnt_ ↔ ¬ log.count .send < c.toNat := by
    rw [counts.sendcnt, BitVec.le_def, counts.sent, Nat.not_lt]
  have ahead : s.recvdcnt_ + s.regard_ < s.sentcnt_ ↔ ¬ log.count .send ≤ n % 2 ^ 32 := by
    rw [counts.stands, BitVec.lt_def, counts.sent, BitVec.toNat_ofNat, Nat.not_le]
  by_cases more : log.count .send < c.toNat
  · by_cases behind : log.count .send ≤ n % 2 ^ 32
    · have sends : TcUDPSocket.sendNext s stack (result b) =
          TcUDPSocket.sendPacket s stack (result b) := by
        rw [TcUDPSocket.sendNext, if_neg (mt enough.mp (not_not_intro more))]
        simp only [counts.request, if_neg (mt ahead.mp (not_not_intro behind))]
      obtain ⟨acts, kept⟩ := counts.sendPacket low product more stack b
      rw [sends, acts]
      refine ⟨kept, ?_⟩
      simp only [more, behind, and_self, and_true]
    · rw [if_neg (by intro goes; exact behind goes.2.2)]
      apply stays
      rw [TcUDPSocket.sendNext, if_neg (mt enough.mp (not_not_intro more))]
      simp only [counts.request, if_pos (ahead.mpr behind)]
  · rw [if_neg (by intro goes; exact more goes.2.1)]
    apply stays
    rw [TcUDPSocket.sendNext, if_pos (enough.mpr more)]

/-- What is received in an event. -/
def Event.received : Event → List Action
  | .reply _ _ _ _ => [.receive]
  | .timeup _ _ => []

theorem Counts.post (counts : Counts c l n log s) (low : 1 ≤ l.toNat) (product : c * l ≠ 0)
    (stack : ℕ → Octet) (b : Bool) :
    Counts c l n (log ++ postActions s stack (result b)) (postReceive s stack (result b)) ∧
      ∃ r, Tells log r ∧ postActions s stack (result b) =
        (if n % 2 ^ 32 = c.toNat then [.report r] else []) ++
          if b = true ∧ log.count .send < c.toNat ∧ log.count .send ≤ n % 2 ^ 32 then [.send]
          else [] := by
  obtain ⟨r, tells, reports, counts'⟩ := counts.answered
  obtain ⟨acts, news, counts'', acts_eq⟩ := counts'.sendNext low product stack b
  have sends : (log ++ newActions s (TcUDPSocket.answered s)).count .send = log.count .send := by
    rw [reports]
    split_ifs
    · rw [List.count_append, List.count_singleton]
      rfl
    · rw [List.append_nil]
  rw [sends] at acts_eq
  rw [List.append_assoc] at counts''
  rw [postReceive_eq, postActions, news]
  refine ⟨counts'', r, tells, ?_⟩
  rw [reports, acts_eq]

/-- Each event counts one more. -/
theorem Counts.event {s' : TcSocket} (counts : Counts c l n log s) (low : 1 ≤ l.toNat)
    (product : c * l ≠ 0) {e : Event} (handles : e.handle s = some s') :
    Counts c l (n + 1) (log ++ e.actions s) s' ∧
      ∃ r, Tells (log ++ e.received) r ∧ e.actions s = e.received ++
        ((if (n + 1) % 2 ^ 32 = c.toNat then [.report r] else []) ++
          if e.sent = true ∧ log.count .send < c.toNat ∧ log.count .send ≤ (n + 1) % 2 ^ 32 then
            [.send]
          else []) := by
  cases e with
  | reply head rest stack sent =>
    have reads : ({ s with timer_ := false } : TcSocket).reads = true := by
      rw [TcSocket.reads, decide_eq_true_iff, counts.recvcnt, counts.recvlen]
      exact product
    have counts' : Counts c l (n + 1) (log ++ [.receive])
        ({ s with timer_ := false }.countReceived (head :: rest)) := by
      refine ⟨counts.request, counts.sendcnt, counts.recvcnt, counts.sendlen, counts.recvlen,
        ?_, ?_, ?_, ?_, ?_⟩
      · have next : s.recvdcnt_ + 1 + s.regard_ = s.recvdcnt_ + s.regard_ + 1 := by
          rw [BitVec.add_assoc, BitVec.add_comm 1, ← BitVec.add_assoc]
        rw [BitVec.ofNat_add, ← counts.stands]
        exact next
      · rw [List.count_append, List.count_singleton, BitVec.ofNat_add, ← counts.received]
        rfl
      · rw [List.count_append, List.count_singleton]
        exact counts.sent
      · rw [List.count_append, List.count_singleton]
        exact counts.few
      · rw [List.count_append, List.count_singleton]
        exact Nat.succ_le_succ counts.receipts
    simp only [Event.handle, receivePacket, if_pos reads, Option.map_some, Option.some.injEq]
      at handles
    obtain ⟨counts'', r, tells, acts⟩ := counts'.post low product stack sent
    rw [handles] at counts''
    have same : (log ++ [Action.receive]).count .send = log.count .send := by
      rw [List.count_append, List.count_singleton]
      rfl
    rw [same] at acts
    simp only [Event.actions, if_pos reads, Event.received, Event.sent]
    rw [List.append_cons]
    refine ⟨counts'', r, tells, ?_⟩
    rw [acts]
    rfl
  | timeup stack sent =>
    simp only [Event.handle] at handles
    split_ifs at handles
    rw [Option.some.injEq] at handles
    have counts' : Counts c l (n + 1) log
        { s with timer_ := false, regard_ := s.regard_ + 1 } := by
      refine ⟨counts.request, counts.sendcnt, counts.recvcnt, counts.sendlen, counts.recvlen,
        ?_, counts.received, counts.sent, counts.few, Nat.le_succ_of_le counts.receipts⟩
      have next : s.recvdcnt_ + (s.regard_ + 1) = s.recvdcnt_ + s.regard_ + 1 :=
        (BitVec.add_assoc _ _ _).symm
      rw [BitVec.ofNat_add, ← counts.stands]
      exact next
    obtain ⟨counts'', r, tells, acts⟩ := counts'.post low product stack sent
    rw [← handles]
    simp only [Event.actions, Event.received, Event.sent, List.append_nil]
    exact ⟨counts'', r, tells, acts⟩

/-! ## The report of a client -/

theorem early_snoc {m : ℕ} {results : List Bool} (enough : m ≤ results.length) (b : Bool) :
    early m (results ++ [b]) = early m results := by
  rw [early, List.take_append_of_le_length enough, early]

theorem quiet_snoc {m : ℕ} {results : List Bool} (enough : m ≤ results.length) (b : Bool) :
    Quiet m (results ++ [b]) ↔ Quiet m results ∧
      (b = true → early m results = m ∨ results.length % 2 ^ 32 < early m results) := by
  simp only [Quiet, early_snoc enough]
  constructor
  · intro quiet
    refine ⟨?_, ?_⟩
    · intro k low at_k
      apply quiet k low
      have inside := (List.getElem?_eq_some_iff.mp at_k).1
      rw [List.getElem?_append_left inside]
      exact at_k
    · intro succeeds
      apply quiet results.length enough
      rw [List.getElem?_concat_length, succeeds]
  · intro both k low at_k
    rcases Nat.lt_trichotomy k results.length with inside | last | outside
    · rw [List.getElem?_append_left inside] at at_k
      exact both.1 k low at_k
    · rw [last, List.getElem?_concat_length, Option.some.injEq] at at_k
      rw [last]
      exact both.2 at_k
    · have beyond : (results ++ [b])[k]? = none := by
        rw [List.getElem?_eq_none_iff, List.length_append, List.length_singleton]
        exact outside
      rw [beyond] at at_k
      cases at_k

theorem received_reports (e : Event) : e.received.countP Action.reports = 0 := by
  cases e <;> rfl

theorem received_sends (e : Event) : e.received.count .send = 0 := by
  cases e <;> rfl

/-- The actions before the report and those behind it. -/
structure Split (c : ℕ) (results : List Bool) (log a : List Action) (r : Report)
    (b : List Action) : Prop where
  eq : log = a ++ .report r :: b
  before : a.countP Action.reports = 0
  request : r.request = .sndRecv
  scount : r.info.scount_.toNat = a.count .send
  rcount : r.info.rcount_.toNat = a.count .receive
  early : a.count .send = TcUDPSocket.early c results
  again : b.countP Action.reports = 0 ↔ results.length ≤ c + 2 ^ 32
  quiet : Action.send ∉ b ↔ Quiet c results

/-- Up to the report, each write that succeeds is one. -/
structure Before (results : List Bool) (log : List Action) : Prop where
  reports : log.countP Action.reports = 0
  sends : log.count .send = results.count true

theorem early_le (m : ℕ) (results : List Bool) : early m results ≤ m :=
  Nat.le_trans List.count_le_length (List.length_take_le m results)

theorem send_not_mem {p : Prop} [Decidable p] :
    Action.send ∉ (if p then [Action.send] else []) ↔ ¬ p := by
  split_ifs with here
  · exact iff_of_false (not_not_intro List.mem_cons_self) (not_not_intro here)
  · exact iff_of_true List.not_mem_nil here

/-- What is done in an event that `m` events come before. -/
def doing (m c : ℕ) (log : List Action) (e : Event) (r : Report) : List Action :=
  e.received ++ ((if m % 2 ^ 32 = c then [.report r] else []) ++
    if e.sent = true ∧ log.count .send < c ∧ log.count .send ≤ m % 2 ^ 32 then [.send] else [])

theorem doing_reports {m c : ℕ} {r : Report} (request : r.request = .sndRecv) (e : Event) :
    (doing m c log e r).countP Action.reports = if m % 2 ^ 32 = c then 1 else 0 := by
  have told : (Action.report r).reports = true := decide_eq_true request
  have silent (p : Prop) [Decidable p] :
      (if p then [Action.send] else []).countP Action.reports = 0 := by
    split_ifs <;> rfl
  rw [doing, List.countP_append, List.countP_append, received_reports, silent, Nat.zero_add,
    Nat.add_zero]
  split_ifs
  · rw [List.countP_singleton, if_pos told]
  · rfl

theorem doing_quiet {m c : ℕ} {e : Event} {r : Report} : Action.send ∉ doing m c log e r ↔
    ¬ (e.sent = true ∧ log.count .send < c ∧ log.count .send ≤ m % 2 ^ 32) := by
  have receives : Action.send ∉ e.received := List.count_eq_zero.mp (received_sends e)
  have reports : Action.send ∉ (if m % 2 ^ 32 = c then [Action.report r] else []) := by
    split_ifs
    · rw [List.mem_singleton]
      intro same
      cases same
    · exact List.not_mem_nil
  rw [doing, List.mem_append, List.mem_append, not_or, not_or]
  constructor
  · intro all
    exact send_not_mem.mp all.2.2
  · intro quiet
    exact ⟨receives, reports, send_not_mem.mpr quiet⟩

section

variable {m : ℕ} {results : List Bool} {e : Event} {r : Report} (small : m < 2 ^ 32)

include small

theorem Before.event (before : Before results log) (soon : results.length < m)
    (request : r.request = .sndRecv) :
    Before (results ++ [e.sent]) (log ++ doing results.length m log e r) := by
  have few : log.count .send ≤ results.length := by
    rw [before.sends]
    exact List.count_le_length
  have number : results.length % 2 ^ 32 = results.length := Nat.mod_eq_of_lt (soon.trans small)
  have goes : (e.sent = true ∧ log.count .send < m ∧
      log.count .send ≤ results.length % 2 ^ 32) ↔ e.sent = true := by
    rw [number]
    exact and_iff_left ⟨Nat.lt_of_le_of_lt few soon, few⟩
  refine ⟨?_, ?_⟩
  · rw [List.countP_append, before.reports, doing_reports request, number,
      if_neg (Nat.ne_of_lt soon)]
  · have sends : (if e.sent = true then [Action.send] else []).count .send =
        List.count true [e.sent] := by
      cases e.sent <;> rfl
    have writes : (doing results.length m log e r).count .send = List.count true [e.sent] := by
      rw [doing, if_neg (number.trans_ne (Nat.ne_of_lt soon)), List.nil_append, List.count_append,
        received_sends, Nat.zero_add, ← sends]
      simp only [goes]
    rw [List.count_append, List.count_append, before.sends, writes]

theorem Before.split (before : Before results log) (now : results.length = m)
    (tells : Tells (log ++ e.received) r) (few : (log ++ e.received).count .receive < 2 ^ 32) :
    ∃ b, Split m (results ++ [e.sent]) (log ++ doing results.length m log e r)
      (log ++ e.received) r b := by
  have number : results.length % 2 ^ 32 = m := by
    rw [now]
    exact Nat.mod_eq_of_lt small
  have sends : (log ++ e.received).count .send = results.count true := by
    rw [List.count_append, received_sends, before.sends, Nat.add_zero]
  have earlier : early m (results ++ [e.sent]) = results.count true := by
    rw [early_snoc (Nat.le_of_eq now.symm), early, ← now, List.take_length]
  refine ⟨if e.sent = true ∧ log.count .send < m ∧ log.count .send ≤ results.length % 2 ^ 32 then
    [.send] else [], ?_, ?_, tells.request, tells.scount, ?_, ?_, ?_, ?_⟩
  · rw [doing, if_pos number, List.append_assoc]
    rfl
  · rw [List.countP_append, before.reports, received_reports]
  · rw [tells.rcount, BitVec.toNat_ofNat, Nat.mod_eq_of_lt few]
  · rw [sends, earlier]
  · refine iff_of_true ?_ ?_
    · split_ifs <;> rfl
    · rw [List.length_append, List.length_singleton, now]
      omega
  · have nothing : Quiet m results := by
      intro k low at_k
      rw [List.getElem?_eq_none (now ▸ low)] at at_k
      cases at_k
    have least := early_le m results
    rw [send_not_mem, quiet_snoc (Nat.le_of_eq now.symm), number, before.sends,
      ← early_snoc (Nat.le_of_eq now.symm) e.sent, earlier]
    rw [← early_snoc (Nat.le_of_eq now.symm) e.sent, earlier] at least
    constructor
    · intro quiet
      refine ⟨nothing, ?_⟩
      intro succeeds
      left
      by_contra behind
      exact quiet ⟨succeeds, by omega, least⟩
    · intro quiet goes
      have late := quiet.2 goes.1
      omega

theorem Split.event {a b : List Action} {r' : Report} (split : Split m results log a r' b)
    (late : m < results.length) (request : r.request = .sndRecv) :
    ∃ b', Split m (results ++ [e.sent]) (log ++ doing results.length m log e r) a r' b' := by
  have enough : m ≤ results.length := Nat.le_of_lt late
  refine ⟨b ++ doing results.length m log e r, ?_, split.before, split.request, split.scount,
    split.rcount, ?_, ?_, ?_⟩
  · rw [split.eq, List.append_assoc]
    rfl
  · rw [early_snoc enough, split.early]
  · rw [List.countP_append, Nat.add_eq_zero_iff, split.again, doing_reports request,
      List.length_append, List.length_singleton]
    split_ifs with here
    · apply iff_of_false
      · intro both
        exact both.2
      · omega
    · omega
  · rw [List.mem_append, not_or, quiet_snoc enough, split.quiet]
    apply and_congr_right
    intro quiet
    have none : b.count .send = 0 := List.count_eq_zero.mpr (split.quiet.mpr quiet)
    have sends : log.count .send = TcUDPSocket.early m results := by
      rw [split.eq, List.count_append, List.count_cons, none, split.early]
      rfl
    have least := early_le m results
    rw [doing_quiet, sends]
    constructor
    · intro stops succeeds
      by_contra ahead
      exact stops ⟨succeeds, by omega, by omega⟩
    · intro stops goes
      have late := stops goes.1
      omega

end

/-- The indication writes the first message. -/
theorem start_counts (low : 1 ≤ l.toNat) (many : 1 ≤ c.toNat) (product : c * l ≠ 0)
    (request : s.request_ = .sndRecv) (t : BitVec 32) (stack : ℕ → Octet) (first : Bool) :
    newActions s (sndrecvIndication s c l l t stack (result first)) =
        (if first then [.send] else []) ∧
      Counts c l 0 (if first then [.send] else [])
        (sndrecvIndication s c l l t stack (result first)) := by
  have counts : Counts c l 0 [] { s.recvIndication c l with
      seqno_ := 0
      sentcnt_ := 0
      recvdcnt_ := 0
      sentlen_ := 0
      recvdlen_ := 0
      regard_ := 0
      sendcnt_ := c
      sendlen_ := l
      sinterval_ := t } :=
    ⟨request, rfl, rfl, rfl, rfl, rfl, rfl, rfl, Nat.zero_le _, Nat.le_refl _⟩
  exact counts.sendPacket low product many stack first

variable {first : Bool} {es : List Event}

theorem Runs.counts (runs : Runs c l t first es s log) (low : 1 ≤ l.toNat) (many : 1 ≤ c.toNat)
    (product : c * l ≠ 0) : Counts c l es.length log s := by
  induction runs with
  | start s stack request =>
    obtain ⟨news, counts⟩ := start_counts low many product request t stack first
    rw [news]
    exact counts
  | event e before handles ih =>
    rw [List.length_append]
    exact (ih.event low product handles).1

/-- A run before the event of the report, and from it on. -/
theorem Runs.shape (runs : Runs c l t first es s log) (low : 1 ≤ l.toNat) (many : 1 ≤ c.toNat)
    (product : c * l ≠ 0) :
    (es.length < c.toNat → Before (first :: es.map Event.sent) log) ∧
      (c.toNat ≤ es.length → ∃ a r b, Split c.toNat (first :: es.map Event.sent) log a r b) := by
  induction runs with
  | start s stack request =>
    refine ⟨?_, ?_⟩
    · intro _
      rw [(start_counts low many product request t stack first).1]
      cases first
      · exact ⟨rfl, rfl⟩
      · exact ⟨rfl, rfl⟩
    · intro none
      exact absurd many (Nat.not_le_of_lt (Nat.lt_succ_of_le none))
  | @event es s s' log e before handles ih =>
    have counts := before.counts low many product
    obtain ⟨r, tells, does⟩ := (counts.event low product handles).2
    have length : (first :: es.map Event.sent).length = es.length + 1 := by
      rw [List.length_cons, List.length_map]
    have acts : e.actions s = doing (first :: es.map Event.sent).length c.toNat log e r := by
      rw [length]
      exact does
    rw [List.length_append, List.length_singleton, List.map_append, ← List.cons_append, acts]
    refine ⟨?_, ?_⟩
    · intro soon
      exact (ih.1 (Nat.lt_of_succ_lt soon)).event c.isLt (length ▸ soon) tells.request
    · intro late
      rcases Nat.eq_or_lt_of_le late with now | later
      · have few : (log ++ e.received).count .receive < 2 ^ 32 := by
          have one : e.received.count .receive ≤ 1 := by
            cases e
            · exact Nat.le_refl 1
            · exact Nat.zero_le 1
          have bound := c.isLt
          have receipts := counts.receipts
          rw [List.count_append]
          omega
        have soon : es.length < c.toNat := Nat.lt_of_succ_le (Nat.le_of_eq now.symm)
        obtain ⟨b, split⟩ := (ih.1 soon).split c.isLt (length.trans now.symm) tells few
        exact ⟨_, r, b, split⟩
      · obtain ⟨a, r', b, split⟩ := ih.2 (Nat.le_of_lt_succ later)
        obtain ⟨b', split'⟩ := split.event (e := e) c.isLt (length ▸ later) tells.request
        exact ⟨a, r', b', split'⟩

/-- A report that no other stands before or behind stands in one place. -/
theorem place_unique {a b a' b' : List Action} {r r' : Report}
    (before : a.countP Action.reports = 0) (behind : b.countP Action.reports = 0)
    (request : r'.request = .sndRecv)
    (same : a ++ Action.report r :: b = a' ++ Action.report r' :: b') : a = a' ∧ r = r' ∧ b = b' := by
  have told : (Action.report r').reports = true := decide_eq_true request
  rw [List.countP_eq_zero] at before behind
  rw [List.append_eq_append_iff] at same
  rcases same with ⟨as, eq, rest⟩ | ⟨as, eq, rest⟩
  · cases as with
    | nil =>
      rw [List.nil_append, List.cons.injEq, Action.report.injEq] at rest
      rw [eq, List.append_nil]
      exact ⟨rfl, rest⟩
    | cons x as =>
      rw [List.cons_append, List.cons.injEq] at rest
      have inside : Action.report r' ∈ b := by
        rw [rest.2]
        exact List.mem_append_right _ List.mem_cons_self
      exact absurd told (behind _ inside)
  · cases as with
    | nil =>
      rw [List.nil_append, List.cons.injEq, Action.report.injEq] at rest
      rw [eq, List.append_nil]
      exact ⟨rfl, rest.1.symm, rest.2.symm⟩
    | cons x as =>
      rw [List.cons_append, List.cons.injEq] at rest
      have inside : Action.report r' ∈ a := by
        rw [eq, rest.1]
        exact List.mem_append_right _ List.mem_cons_self
      exact absurd told (before _ inside)

/-- A client does what it is for just while its counters do not come round to a second report, and
    nothing that it failed to write before its report is written behind it. -/
theorem Runs.reported_iff (runs : Runs c l t first es s log) (many : 1 ≤ c.toNat)
    (low : 1 ≤ l.toNat) (bound : c.toNat * l.toNat < 2 ^ 32) :
    Reported c log ↔
      es.length < c.toNat + 2 ^ 32 ∧ Quiet c.toNat (first :: es.map Event.sent) := by
  have product : c * l ≠ 0 := by
    have number : (c * l).toNat = c.toNat * l.toNat := by
      rw [BitVec.toNat_mul, Nat.mod_eq_of_lt bound]
    intro zero
    have positive : 0 < c.toNat * l.toNat := Nat.mul_pos many low
    rw [zero] at number
    exact absurd number (Nat.ne_of_lt positive)
  have sends : log.count .send ≤ c.toNat := (runs.counts low many product).few
  have length : (first :: es.map Event.sent).length = es.length + 1 := by
    rw [List.length_cons, List.length_map]
  obtain ⟨soon, late⟩ := runs.shape low many product
  rcases Nat.lt_or_ge es.length c.toNat with under | reached
  · have before := soon under
    refine iff_of_true ⟨?_, sends, ?_⟩ ⟨?_, ?_⟩
    · rw [before.reports]
      exact Nat.zero_le 1
    · intro a r b eq request
      have inside : Action.report r ∈ log := by
        rw [eq]
        exact List.mem_append_right _ List.mem_cons_self
      exact absurd (decide_eq_true request) (List.countP_eq_zero.mp before.reports _ inside)
    · omega
    · intro k low at_k
      have outside : (first :: es.map Event.sent).length ≤ k := by omega
      rw [List.getElem?_eq_none outside] at at_k
      cases at_k
  · obtain ⟨a, r, b, split⟩ := late reached
    have told : (Action.report r).reports = true := decide_eq_true split.request
    have reports : log.countP Action.reports = b.countP Action.reports + 1 := by
      rw [split.eq, List.countP_append, List.countP_cons, if_pos told, split.before, Nat.zero_add]
    have again := split.again
    rw [length] at again
    constructor
    · intro reported
      refine ⟨?_, ?_⟩
      · have once := reported.once
        exact again.mp (by omega)
      · exact split.quiet.mp (reported.last a r b split.eq split.request).1
    · intro both
      have behind : b.countP Action.reports = 0 := again.mpr both.1
      refine ⟨?_, sends, ?_⟩
      · rw [reports, behind]
      · intro a' r' b' eq request
        obtain ⟨same_a, same_r, same_b⟩ :=
          place_unique split.before behind request (split.eq.symm.trans eq)
        rw [← same_a, ← same_r, ← same_b]
        exact ⟨split.quiet.mpr both.2, split.scount, split.rcount⟩

/-- A message that the timer stands for and that is then written. -/
def failsFirst : List Event :=
  [.timeup (fun _ => 0) true]

theorem reported_iff_one :
    Reported 1 [.send] ↔ ([] : List Event).length < 1 + 2 ^ 32 ∧ Quiet 1 [true] :=
  (Runs.start (TcSocket.new .sndRecv) (fun _ => 0) rfl :
    Runs 1 1 0 true [] _ [.send]).reported_iff (by decide) (by decide) (by decide)

/-- Nothing could be written before the report, and the message is written behind it. -/
theorem not_reported : ¬ ∀ (c l t : BitVec 32) (first : Bool) (es : List Event) (s : TcSocket)
    (log : List Action), Runs c l t first es s log → 1 ≤ c.toNat → 1 ≤ l.toNat →
      c.toNat * l.toNat < 2 ^ 32 → Reported c log := by
  intro all
  have start : Runs 1 1 0 false [] _ [] :=
    Runs.start (TcSocket.new .sndRecv) (fun _ => 0) rfl
  have late : Runs 1 1 0 false ([] ++ failsFirst) _ ([] ++ [_, .send]) :=
    start.event (.timeup (fun _ => 0) true) rfl
  have reported := all 1 1 0 false _ _ _ late (by decide) (by decide) (by decide)
  exact (reported.last [] _ [.send] rfl rfl).1 List.mem_cons_self

end Tahi.Tg.TcUDPSocket
