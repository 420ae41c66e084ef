import Mathlib.Data.BitVec
import Mathlib.Logic.Relation
import Tahi.Tg.TcSocket

/-! # Turnarounds

A client that sends and receives and a server that receives and sends answer each other message by
message.
-/

namespace Tahi.Tg

open BitField (Octet)

/-- Two sockets that are connected. -/
structure Session where
  client : TcSocket
  server : TcSocket

namespace Session

/-- The read events. -/
inductive Step (s s' : Session) : Prop where
  | client (stack : ℕ → Octet) (client : TcSocket) (rest : List Octet)
      (reads : s.client.receive s.server.outgoing stack = some (client, rest))
      (eq : s' = ⟨client, { s.server with outgoing := rest }⟩)
  | server (stack : ℕ → Octet) (server : TcSocket) (rest : List Octet)
      (reads : s.server.receive s.client.outgoing stack = some (server, rest))
      (eq : s' = ⟨{ s.client with outgoing := rest }, server⟩)

/-- A turnaround begins, on sockets whose streams are empty. -/
def turnaround (client server : TcSocket) (c l t : BitVec 32) (stack : ℕ → Octet) : Session where
  client := { client with request_ := .sndRecv, outgoing := [], reports := [] }.sndrecvIndication
    c l l t stack .sent
  server := { server with request_ := .recvSnd, outgoing := [], reports := [] }.recvsndIndication
    c l l

/-- Each event receives a message, until both have sent and received `c`, and the client reports
    when it has received the last one. -/
structure Turns (c : BitVec 32) (start : Session) : Prop where
  reports : ∀ s, Relation.ReflTransGen Step start s →
    s.client.reports.map (fun r => (r.request, r.info.scount_, r.info.rcount_)) =
      if s.client.recvdcnt_ = c then [(.sndRecv, c, c)] else []
  moves : ∀ s s', Relation.ReflTransGen Step start s → Step s s' →
    s'.client.recvdcnt_.toNat + s'.server.recvdcnt_.toNat =
      s.client.recvdcnt_.toNat + s.server.recvdcnt_.toNat + 1
  bounded : ∀ s, Relation.ReflTransGen Step start s →
    s.client.sentcnt_ ≤ c ∧ s.client.recvdcnt_ ≤ c ∧ s.server.sentcnt_ ≤ c ∧ s.server.recvdcnt_ ≤ c
  ends : ∀ s, Relation.ReflTransGen Step start s → (¬ ∃ s', Step s s') →
    s.client.sentcnt_ = c ∧ s.client.recvdcnt_ = c ∧ s.server.sentcnt_ = c ∧ s.server.recvdcnt_ = c

end Session

/-! ## One side -/

namespace TcSocket

/-- A socket that has received `n` messages and sent `k`. -/
structure Side (req : ERequest) (c l : BitVec 32) (n k : ℕ) (s : TcSocket) : Prop where
  request : s.request_ = req
  sendcnt : s.sendcnt_ = c
  recvcnt : s.recvcnt_ = c
  sendlen : s.sendlen_ = l
  recvlen : s.recvlen_ = l
  recvdcnt : s.recvdcnt_ = BitVec.ofNat 32 n
  recvdlen : s.recvdlen_ = BitVec.ofNat 64 (n * l.toNat)
  sentcnt : s.sentcnt_ = BitVec.ofNat 32 k

variable {req : ERequest} {c l : BitVec 32} {n k : ℕ} {s : TcSocket}

theorem Side.congr {s' : TcSocket} (side : Side req c l n k s) (request : s'.request_ = s.request_)
    (sendcnt : s'.sendcnt_ = s.sendcnt_) (recvcnt : s'.recvcnt_ = s.recvcnt_)
    (sendlen : s'.sendlen_ = s.sendlen_) (recvlen : s'.recvlen_ = s.recvlen_)
    (recvdcnt : s'.recvdcnt_ = s.recvdcnt_) (recvdlen : s'.recvdlen_ = s.recvdlen_)
    (sentcnt : s'.sentcnt_ = s.sentcnt_) : Side req c l n k s' where
  request := request.trans side.request
  sendcnt := sendcnt.trans side.sendcnt
  recvcnt := recvcnt.trans side.recvcnt
  sendlen := sendlen.trans side.sendlen
  recvlen := recvlen.trans side.recvlen
  recvdcnt := recvdcnt.trans side.recvdcnt
  recvdlen := recvdlen.trans side.recvdlen
  sentcnt := sentcnt.trans side.sentcnt

theorem Side.full_iff (side : Side req c l n k s) (small : n * l.toNat < 2 ^ 64) :
    s.full = true ↔ (c * l).toNat = n * l.toNat := by
  rw [← side.recvcnt]
  have full := TcSocket.full_iff side.recvdlen small
  rw [side.recvlen] at full
  exact full

/-- A message that is sent, by one of the two sides of a turnaround. -/
theorem sendPacket_eq (turns : s.request_ = .sndRecv ∨ s.request_ = .recvSnd)
    (product : s.sendcnt_ * s.sendlen_ ≠ 0) (more : ¬ s.sendcnt_ ≤ s.sentcnt_)
    (stack : ℕ → Octet) :
    ∃ seqno buf, s.sendPacket stack .sent =
      { s with
        timer_ := false
        seqno_ := seqno
        sentcnt_ := s.sentcnt_ + 1
        sentlen_ := s.sentlen_ + s.sendlen_.setWidth 64
        outgoing := s.outgoing ++ (List.range s.sendlen_.toNat).map buf } := by
  rcases turns with request | request
  · refine ⟨s.seqno_ + 1, Function.update stack 0 ((s.seqno_ + 1).setWidth 8), ?_⟩
    simp only [sendPacket, number, postSend, request, ne_eq, product, not_false_eq_true, if_true,
      more, if_false]
  · refine ⟨s.seqno_, Function.update stack 0 s.recvseq_, ?_⟩
    simp only [sendPacket, number, postSend, request, ne_eq, product, not_false_eq_true, if_true,
      more, if_false]

theorem Side.not_le (side : Side req c l n k s) (more : k < c.toNat) :
    ¬ s.sendcnt_ ≤ s.sentcnt_ := by
  have bound := c.isLt
  rw [side.sendcnt, side.sentcnt, BitVec.le_def, BitVec.toNat_ofNat, Nat.mod_eq_of_lt (by omega)]
  omega

theorem Side.sendPacket (side : Side req c l n k s) (turns : req = .sndRecv ∨ req = .recvSnd)
    (product : c * l ≠ 0) (more : k < c.toNat) (stack : ℕ → Octet) :
    Side req c l n (k + 1) (s.sendPacket stack .sent) ∧
      (s.sendPacket stack .sent).outgoing.length = s.outgoing.length + l.toNat ∧
      (s.sendPacket stack .sent).reports = s.reports := by
  rw [← side.request] at turns
  rw [← side.sendcnt, ← side.sendlen] at product
  obtain ⟨seqno, buf, sends⟩ := sendPacket_eq turns product (side.not_le more) stack
  rw [sends]
  refine ⟨⟨side.request, side.sendcnt, side.recvcnt, side.sendlen, side.recvlen, side.recvdcnt,
    side.recvdlen, ?_⟩, ?_, rfl⟩
  · rw [side.sentcnt]
    exact (BitVec.ofNat_add k 1).symm
  · rw [List.length_append, List.length_map, List.length_range, side.sendlen]

theorem Side.countReceived (side : Side req c l n k s) {buf : List Octet}
    (whole : buf.length = l.toNat) :
    Side req c l (n + 1) k ({ s with timer_ := false }.countReceived buf) where
  request := side.request
  sendcnt := side.sendcnt
  recvcnt := side.recvcnt
  sendlen := side.sendlen
  recvlen := side.recvlen
  recvdcnt := by
    simp only [TcSocket.countReceived, side.recvdcnt, BitVec.ofNat_add]
    rfl
  recvdlen := by
    simp only [TcSocket.countReceived, side.recvdlen, whole, Nat.succ_mul, BitVec.ofNat_add]
  sentcnt := side.sentcnt

/-- A message is read. -/
theorem Side.receive (side : Side req c l n k s) {stream : List Octet} (low : 1 ≤ l.toNat)
    (whole : l.toNat ≤ stream.length) (product : c * l ≠ 0) (stack : ℕ → Octet) :
    ∃ s₁, Side req c l (n + 1) k s₁ ∧ s₁.outgoing = s.outgoing ∧ s₁.reports = s.reports ∧
      s.receive stream stack = some (s₁.postReceive stack .sent, stream.drop l.toNat) := by
  rw [← side.recvcnt, ← side.recvlen] at product
  have len : s.recvlen_.toNat = l.toNat := congrArg BitVec.toNat side.recvlen
  refine ⟨{ s with timer_ := false }.countReceived (stream.take l.toNat),
    side.countReceived (List.length_take_of_le whole), rfl, rfl, ?_⟩
  exact receive_eq len low whole product stack

/-- What is told of a report. -/
def told (r : Report) : ERequest × BitVec 32 × BitVec 32 :=
  (r.request, r.info.scount_, r.info.rcount_)

theorem Side.client (side : Side .sndRecv c l n n s) (inside : n ≤ c.toNat)
    (small : n * l.toNat < 2 ^ 64) (product : c * l ≠ 0) (stack : ℕ → Octet) :
    Side .sndRecv c l n (min c.toNat (n + 1)) (s.postReceive stack .sent) ∧
      (s.postReceive stack .sent).outgoing.length =
        s.outgoing.length + (min c.toNat (n + 1) - n) * l.toNat ∧
      (s.postReceive stack .sent).reports.map told = s.reports.map told ++
        if (c * l).toNat = n * l.toNat then [(.sndRecv, BitVec.ofNat 32 n, BitVec.ofNat 32 n)]
        else [] := by
  -- The report comes first.
  obtain ⟨s₁, first, side₁, out₁, told₁⟩ : ∃ s₁ : TcSocket,
      (if s.full then s.complete else s) = s₁ ∧ Side .sndRecv c l n n s₁ ∧
      s₁.outgoing = s.outgoing ∧ s₁.reports.map told = s.reports.map told ++
        if (c * l).toNat = n * l.toNat then [(.sndRecv, BitVec.ofNat 32 n, BitVec.ofNat 32 n)]
        else [] := by
    by_cases full : s.full = true
    · have total := (side.full_iff small).mp full
      refine ⟨s.complete, if_pos full, ?_, ?_, ?_⟩
      · simp only [complete, side.request]
        exact side.congr rfl rfl rfl rfl rfl rfl rfl rfl
      · simp only [complete, side.request, report]
      · simp only [complete, side.request, report, List.map_append, List.map_cons, List.map_nil,
          told, counted, if_true, side.sentcnt, side.recvdcnt, if_pos total]
    · have total := mt (side.full_iff small).mpr full
      refine ⟨s, if_neg full, side, rfl, ?_⟩
      rw [if_neg total, List.append_nil]
  simp only [postReceive, first]
  by_cases more : n < c.toNat
  · have behind : ¬ s₁.recvdcnt_ < s₁.sentcnt_ := by
      rw [side₁.recvdcnt, side₁.sentcnt]
      exact BitVec.lt_irrefl _
    obtain ⟨sends, out, reports⟩ := side₁.sendPacket (.inl rfl) product more stack
    rw [if_neg (side₁.not_le more), Nat.min_eq_right more]
    simp only [side₁.request, if_neg behind, reports]
    refine ⟨sends, ?_, told₁⟩
    rw [out, out₁, Nat.succ_sub (Nat.le_refl n), Nat.sub_self, Nat.one_mul]
  · have done : s₁.sendcnt_ ≤ s₁.sentcnt_ := by
      have bound := c.isLt
      rw [side₁.sendcnt, side₁.sentcnt, BitVec.le_def, BitVec.toNat_ofNat,
        Nat.mod_eq_of_lt (by omega)]
      omega
    have last : n = c.toNat := by omega
    subst last
    rw [if_pos done, Nat.min_eq_left (Nat.le_succ _), Nat.sub_self, Nat.zero_mul, out₁]
    exact ⟨side₁, rfl, told₁⟩

theorem Side.server (side : Side .recvSnd c l n k s) (more : k < c.toNat) (product : c * l ≠ 0)
    (stack : ℕ → Octet) :
    Side .recvSnd c l n (k + 1) (s.postReceive stack .sent) ∧
      (s.postReceive stack .sent).outgoing.length = s.outgoing.length + l.toNat := by
  have quiet : s.complete = s := by
    simp only [complete, side.request]
  obtain ⟨sends, out, -⟩ := side.sendPacket (.inr rfl) product more stack
  simp only [postReceive, quiet, ite_self, if_neg (side.not_le more), side.request]
  exact ⟨sends, out⟩

end TcSocket

/-! ## Both sides -/

namespace Session

open TcSocket

variable {c l : BitVec 32} {n k : ℕ} {s s' start : Session}

/-- What the client has told behind `n` messages. -/
def told (c l : BitVec 32) : ℕ → List (ERequest × BitVec 32 × BitVec 32)
  | 0 => []
  | n + 1 => told c l n ++ if (c * l).toNat = (n + 1) * l.toNat then
      [(.sndRecv, BitVec.ofNat 32 (n + 1), BitVec.ofNat 32 (n + 1))] else []

/-- The client has received `n` messages and the server `k`. -/
structure Inv (c l : BitVec 32) (n k : ℕ) (s : Session) : Prop where
  client : Side .sndRecv c l n (min c.toNat (n + 1)) s.client
  server : Side .recvSnd c l k k s.server
  behind : n ≤ k
  ahead : k ≤ min c.toNat (n + 1)
  toServer : s.client.outgoing.length = (min c.toNat (n + 1) - k) * l.toNat
  toClient : s.server.outgoing.length = (k - n) * l.toNat
  reports : s.client.reports.map TcSocket.told = told c l n

theorem Inv.counts (inv : Inv c l n k s) :
    s.client.sentcnt_.toNat = min c.toNat (n + 1) ∧ s.client.recvdcnt_.toNat = n ∧
      s.server.sentcnt_.toNat = k ∧ s.server.recvdcnt_.toNat = k := by
  have bound := c.isLt
  have behind := inv.behind
  have ahead := inv.ahead
  rw [inv.client.sentcnt, inv.client.recvdcnt, inv.server.sentcnt, inv.server.recvdcnt]
  simp only [BitVec.toNat_ofNat]
  rw [Nat.mod_eq_of_lt (by omega), Nat.mod_eq_of_lt (by omega), Nat.mod_eq_of_lt (by omega)]
  exact ⟨rfl, rfl, rfl, rfl⟩

theorem Inv.small (inv : Inv c l n k s) (length : l.toNat ≤ 65535) :
    (n + 1) * l.toNat < 2 ^ 64 := by
  have bound := c.isLt
  have behind := inv.behind
  have ahead := inv.ahead
  calc (n + 1) * l.toNat ≤ 2 ^ 32 * 65535 := Nat.mul_le_mul (by omega) length
    _ < 2 ^ 64 := by decide

theorem Inv.step (inv : Inv c l n k s) (low : 1 ≤ l.toNat) (length : l.toNat ≤ 65535) (product : c * l ≠ 0)
    (step : Step s s') :
    (n < k ∧ Inv c l (n + 1) k s') ∨ (k < min c.toNat (n + 1) ∧ Inv c l n (k + 1) s') := by
  have ahead := inv.ahead
  rcases step with ⟨stack, client', rest, reads, rfl⟩ | ⟨stack, server', rest, reads, rfl⟩
  · left
    have waiting : n < k := by
      by_contra none
      apply receive_ready reads
      apply List.eq_nil_of_length_eq_zero
      rw [inv.toClient, Nat.sub_eq_zero_of_le (by omega), Nat.zero_mul]
    have both : k = n + 1 := by omega
    have counted : min c.toNat (n + 1) = n + 1 := by omega
    have client := inv.client
    rw [counted] at client
    have whole : l.toNat ≤ s.server.outgoing.length := by
      rw [inv.toClient, both, Nat.add_sub_cancel_left, Nat.one_mul]
    obtain ⟨s₁, side, out, reports, received⟩ := client.receive low whole product stack
    obtain ⟨side', out', told'⟩ := side.client (by omega) (inv.small length) product stack
    obtain ⟨rfl, rfl⟩ := Prod.mk.inj (Option.some.inj (received.symm.trans reads))
    refine ⟨waiting, side', ?_, by omega, by omega, ?_, ?_, ?_⟩
    · exact inv.server.congr rfl rfl rfl rfl rfl rfl rfl rfl
    · rw [out', out, inv.toServer, counted, both, Nat.sub_self, Nat.zero_mul, Nat.zero_add]
    · rw [List.length_drop, inv.toClient, both, Nat.add_sub_cancel_left, Nat.one_mul,
        Nat.sub_self, Nat.sub_self, Nat.zero_mul]
    · rw [told', reports, inv.reports]
      rfl
  · right
    have waiting : k < min c.toNat (n + 1) := by
      by_contra none
      apply receive_ready reads
      apply List.eq_nil_of_length_eq_zero
      rw [inv.toServer, Nat.sub_eq_zero_of_le (by omega), Nat.zero_mul]
    have behind := inv.behind
    have both : k = n := by omega
    have counted : min c.toNat (n + 1) = n + 1 := by omega
    have whole : l.toNat ≤ s.client.outgoing.length := by
      rw [inv.toServer, counted, both, Nat.add_sub_cancel_left, Nat.one_mul]
    obtain ⟨s₁, side, out, -, received⟩ := inv.server.receive low whole product stack
    obtain ⟨side', out'⟩ := side.server (by omega) product stack
    obtain ⟨rfl, rfl⟩ := Prod.mk.inj (Option.some.inj (received.symm.trans reads))
    refine ⟨waiting, ?_, side', by omega, by omega, ?_, ?_, inv.reports⟩
    · exact inv.client.congr rfl rfl rfl rfl rfl rfl rfl rfl
    · rw [List.length_drop, inv.toServer, counted, both, Nat.add_sub_cancel_left, Nat.one_mul,
        Nat.sub_self, Nat.sub_self, Nat.zero_mul]
    · rw [out', out, inv.toClient, both, Nat.sub_self, Nat.zero_mul, Nat.zero_add,
        Nat.add_sub_cancel_left, Nat.one_mul]

/-- As long as the client has not received all, somebody can read. -/
theorem Inv.goes (inv : Inv c l n k s) (low : 1 ≤ l.toNat) (product : c * l ≠ 0)
    (more : n < c.toNat) : ∃ s', Step s s' := by
  have ahead := inv.ahead
  have behind := inv.behind
  rcases Nat.lt_or_eq_of_le behind with waiting | both
  · have whole : l.toNat ≤ s.server.outgoing.length := by
      rw [inv.toClient]
      exact Nat.le_mul_of_pos_left _ (by omega)
    obtain ⟨s₁, -, -, -, received⟩ := inv.client.receive low whole product 0
    exact ⟨_, .client 0 _ _ received rfl⟩
  · have whole : l.toNat ≤ s.client.outgoing.length := by
      rw [inv.toServer]
      exact Nat.le_mul_of_pos_left _ (by omega)
    obtain ⟨s₁, -, -, -, received⟩ := inv.server.receive low whole product 0
    exact ⟨_, .server 0 _ _ received rfl⟩

theorem inv_turnaround (client server : TcSocket) (c l t : BitVec 32) (stack : ℕ → Octet)
    (some_ : 1 ≤ c.toNat) (product : c * l ≠ 0) :
    Inv c l 0 0 (turnaround client server c l t stack) := by
  have first : min c.toNat (0 + 1) = 0 + 1 := by omega
  have side : Side .sndRecv c l 0 0 { client with
      request_ := .sndRecv, outgoing := [], reports := [], effectreq_ := false, recvcnt_ := c,
      recvlen_ := l, seqno_ := 0, sentcnt_ := 0, recvdcnt_ := 0, sentlen_ := 0, recvdlen_ := 0,
      regard_ := 0, sendcnt_ := c, sendlen_ := l, sinterval_ := t } :=
    ⟨rfl, rfl, rfl, rfl, rfl, rfl, by rw [Nat.zero_mul]; rfl, rfl⟩
  obtain ⟨sends, out, reports⟩ := side.sendPacket (.inl rfl) product some_ stack
  refine ⟨?_, ?_, Nat.le_refl 0, Nat.zero_le _, ?_, ?_, ?_⟩
  · rw [first]
    exact sends
  · exact ⟨rfl, rfl, rfl, rfl, rfl, rfl, by rw [Nat.zero_mul]; rfl, rfl⟩
  · rw [first, Nat.sub_zero, Nat.zero_add, Nat.one_mul]
    exact out.trans (Nat.zero_add _)
  · rw [Nat.sub_self, Nat.zero_mul]
    rfl
  · exact congrArg (List.map TcSocket.told) reports

theorem Inv.run (inv : Inv c l n k start) (low : 1 ≤ l.toNat) (length : l.toNat ≤ 65535) (product : c * l ≠ 0)
    (run : Relation.ReflTransGen Step start s) : ∃ n k, Inv c l n k s := by
  induction run with
  | refl => exact ⟨n, k, inv⟩
  | tail _ step ih =>
      obtain ⟨n, k, inv⟩ := ih
      rcases inv.step low length product step with ⟨-, inv⟩ | ⟨-, inv⟩
      · exact ⟨n + 1, k, inv⟩
      · exact ⟨n, k + 1, inv⟩

/-- A session can be brought to its end. -/
theorem Inv.finishes (inv : Inv c l n k s) (low : 1 ≤ l.toNat) (length : l.toNat ≤ 65535)
    (product : c * l ≠ 0) :
    ∃ s' k', Relation.ReflTransGen Step s s' ∧ Inv c l c.toNat k' s' := by
  obtain ⟨left, bound⟩ : ∃ left, 2 * c.toNat ≤ left + (n + k) := ⟨2 * c.toNat, by omega⟩
  induction left generalizing n k s with
  | zero =>
      have behind := inv.behind
      have ahead := inv.ahead
      obtain rfl : n = c.toNat := by omega
      exact ⟨s, k, .refl, inv⟩
  | succ left ih =>
      have behind := inv.behind
      have ahead := inv.ahead
      rcases Nat.lt_or_ge n c.toNat with more | done
      · obtain ⟨s₁, step⟩ := inv.goes low product more
        rcases inv.step low length product step with ⟨-, inv₁⟩ | ⟨-, inv₁⟩
        · obtain ⟨s', k', run, end_⟩ := ih inv₁ (by omega)
          exact ⟨s', k', run.head step, end_⟩
        · obtain ⟨s', k', run, end_⟩ := ih inv₁ (by omega)
          exact ⟨s', k', run.head step, end_⟩
      · obtain rfl : n = c.toNat := by omega
        exact ⟨s, k, .refl, inv⟩

theorem mem_told {x : ERequest × BitVec 32 × BitVec 32} (mem : x ∈ told c l n) :
    ∃ j, j ≤ n ∧ (c * l).toNat = j * l.toNat ∧ x = (.sndRecv, BitVec.ofNat 32 j, BitVec.ofNat 32 j) := by
  induction n with
  | zero => cases mem
  | succ n ih =>
      rw [told, List.mem_append] at mem
      rcases mem with before | now
      · obtain ⟨j, le, total, rfl⟩ := ih before
        exact ⟨j, Nat.le_succ_of_le le, total, rfl⟩
      · by_cases total : (c * l).toNat = (n + 1) * l.toNat
        · rw [if_pos total, List.mem_singleton] at now
          exact ⟨n + 1, Nat.le_refl _, total, now⟩
        · rw [if_neg total] at now
          cases now

theorem told_small (low : 1 ≤ l.toNat) (some_ : 1 ≤ c.toNat) (total : (c * l).toNat = c.toNat * l.toNat)
    (inside : n ≤ c.toNat) :
    told c l n = if n = c.toNat then [(.sndRecv, c, c)] else [] := by
  induction n with
  | zero => rw [if_neg (by omega), told]
  | succ n ih =>
      rw [told, ih (by omega), if_neg (by omega), List.nil_append, total]
      by_cases last : n + 1 = c.toNat
      · rw [if_pos last, if_pos (by rw [last]), last, BitVec.ofNat_toNat, BitVec.setWidth_eq]
      · rw [if_neg last, if_neg]
        intro same
        exact last (Nat.eq_of_mul_eq_mul_right (by omega) same).symm

theorem toNat_product (small : c.toNat * l.toNat < 2 ^ 32) :
    (c * l).toNat = c.toNat * l.toNat := by
  rw [BitVec.toNat_mul, Nat.mod_eq_of_lt small]

/-- A turnaround goes as it should if and only if the number of octets is one of 32 bits. -/
theorem turns_iff (client server : TcSocket) (c l t : BitVec 32) (stack : ℕ → Octet)
    (some_ : 1 ≤ c) (low : 1 ≤ l) (length : l ≤ 65535) :
    Turns c (turnaround client server c l t stack) ↔ c.toNat * l.toNat < 2 ^ 32 := by
  have some' : 1 ≤ c.toNat := some_
  have low' : 1 ≤ l.toNat := low
  have length' : l.toNat ≤ 65535 := length
  constructor
  · intro turns
    by_cases product : c * l = 0
    · -- Nothing is sent, and nobody can read.
      exfalso
      have quiet : (turnaround client server c l t stack).client.outgoing = [] ∧
          (turnaround client server c l t stack).client.sentcnt_ = 0 := by
        simp only [turnaround, sndrecvIndication, sndIndication, recvIndication, sendPacket, number,
          postSend, product, ne_eq, not_true_eq_false, if_false, and_self]
      have stuck : ¬ ∃ s', Step (turnaround client server c l t stack) s' := by
        intro goes
        obtain ⟨s', step⟩ := goes
        cases step with
        | client stack client rest reads eq => exact receive_ready reads rfl
        | server stack server rest reads eq => exact receive_ready reads quiet.1
      have sent := (turns.ends _ .refl stuck).1
      rw [quiet.2] at sent
      rw [← sent] at some'
      exact absurd some' (by decide)
    · have inv := inv_turnaround client server c l t stack some' product
      obtain ⟨s, k, run, end_⟩ := inv.finishes low' length' product
      have all : s.client.recvdcnt_ = c := by
        rw [end_.client.recvdcnt, BitVec.ofNat_toNat, BitVec.setWidth_eq]
      have reports := turns.reports s run
      rw [if_pos all] at reports
      have mem : ((.sndRecv, c, c) : ERequest × BitVec 32 × BitVec 32) ∈ told c l c.toNat := by
        rw [← end_.reports]
        exact reports.symm ▸ List.mem_singleton_self _
      obtain ⟨j, le, total, same⟩ := mem_told mem
      have counted : c = BitVec.ofNat 32 j := (Prod.mk.inj (Prod.mk.inj same).2).1
      have bound := c.isLt
      have number := congrArg BitVec.toNat counted
      rw [BitVec.toNat_ofNat, Nat.mod_eq_of_lt (by omega)] at number
      rw [number, ← total]
      exact (c * l).isLt
  · intro small
    have total := toNat_product small
    have product : c * l ≠ 0 := by
      intro zero
      rw [zero] at total
      exact absurd total.symm (Nat.mul_pos some' low').ne'
    have inv := inv_turnaround client server c l t stack some' product
    refine ⟨?_, ?_, ?_, ?_⟩
    · intro s run
      obtain ⟨n, k, inv⟩ := inv.run low' length' product run
      have behind := inv.behind
      have ahead := inv.ahead
      have all : s.client.recvdcnt_ = c ↔ n = c.toNat := by
        rw [← BitVec.toNat_inj, inv.counts.2.1]
      have told' := told_small low' some' total (show n ≤ c.toNat by omega)
      rw [← inv.reports] at told'
      simp only [all]
      exact told'
    · intro s s' run step
      obtain ⟨n, k, inv⟩ := inv.run low' length' product run
      obtain ⟨-, received, -, received'⟩ := inv.counts
      rcases inv.step low' length' product step with ⟨-, inv⟩ | ⟨-, inv⟩
      · obtain ⟨-, next, -, next'⟩ := inv.counts
        omega
      · obtain ⟨-, next, -, next'⟩ := inv.counts
        omega
    · intro s run
      obtain ⟨n, k, inv⟩ := inv.run low' length' product run
      have behind := inv.behind
      have ahead := inv.ahead
      obtain ⟨sent, received, sent', received'⟩ := inv.counts
      simp only [BitVec.le_def]
      omega
    · intro s run stuck
      obtain ⟨n, k, inv⟩ := inv.run low' length' product run
      have behind := inv.behind
      have ahead := inv.ahead
      have done : ¬ n < c.toNat := fun more => stuck (inv.goes low' product more)
      obtain ⟨sent, received, sent', received'⟩ := inv.counts
      simp only [← BitVec.toNat_inj]
      omega

/-- 65537 messages of 65535 octets end on time, as their octets are one less than `2 ^ 32`. -/
theorem turns_long :
    Turns 65537 (turnaround (.new .open_) (.new .listen) 65537 65535 0 0) :=
  (turns_iff (.new .open_) (.new .listen) 65537 65535 0 0 (by decide) (by decide) (by decide)).mpr
    (by decide)

/-- With 131072 messages of 32768 octets, the product is zero, and nothing is sent. -/
theorem not_turns : ¬ ∀ c l : BitVec 32, 1 ≤ c → 1 ≤ l → l ≤ 65535 →
    Turns c (turnaround (.new .open_) (.new .listen) c l 0 0) := by
  intro always
  have turns := always 131072 32768 (by decide) (by decide) (by decide)
  have stuck : ¬ ∃ s', Step (turnaround (.new .open_) (.new .listen) 131072 32768 0 0) s' := by
    intro goes
    obtain ⟨s', step⟩ := goes
    cases step with
    | client stack client rest reads eq => exact receive_ready reads rfl
    | server stack server rest reads eq => exact receive_ready reads rfl
  have sent := (turns.ends _ .refl stuck).1
  cases sent

end Session

end Tahi.Tg
