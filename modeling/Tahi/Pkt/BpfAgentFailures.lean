import Tahi.Pkt.BpfAgent

/-! # Frames that could not be sent

A frame is queued before it is sent. One that could not be sent is never captured, and stays the
first of the queue until the agent is cleared, or finds nothing to receive.
-/

namespace Tahi.Pkt

namespace BpfAgent

/-- When nothing is to be received, the first of the queue is given up. -/
def nonblock_receive (a : BpfAgent) (captured : List Captured) : Option (BpfAgent × List Put) :=
  let a := if captured.isEmpty then { a with fifo := a.fifo.tail } else a
  a.receive captured

end BpfAgent

/-- Everything that is done with an agent. The flush of the packet filter discards the first
    `flushed` of the frames that are still to be captured. -/
inductive Turn where
  | event (e : Event)
  | nonblock_receive (captures : List Capture)
  | capture (flushed : Nat)
  | stop
  | clear (polls : List (List Capture)) (flushed : Nat)
deriving DecidableEq, Repr

namespace System

def nonblock_receive (s : System) (captures : List Capture) : Option System :=
  match captured captures s.outstanding with
  | none => none
  | some (cs, outstanding, others) =>
      (s.agent.nonblock_receive cs).map fun (agent, puts) =>
        { s with
          agent := agent
          outstanding := outstanding
          others := s.others ++ others
          puts := s.puts ++ puts }

/-- `while(!fifo.IsEmpty()) {nonblock_receive(0);}` over what the calls find. `none` is a loop
    that goes on. -/
def drain (s : System) : List (List Capture) → Option System
  | [] => if s.agent.fifo.isEmpty then some s else none
  | captures :: polls =>
      if s.agent.fifo.isEmpty then some s
      else
        match s.nonblock_receive captures with
        | none => none
        | some s => s.drain polls

def flush (s : System) (flushed : Nat) : System :=
  { s with outstanding := s.outstanding.drop flushed }

def turn (s : System) : Turn → Option System
  | .event e => s.step e
  | .nonblock_receive captures => s.nonblock_receive captures
  | .capture flushed => some ({ s with agent := { s.agent with runStat := .eRun_ } }.flush flushed)
  | .stop => some { s with agent := { s.agent with runStat := .eStop_ } }
  | .clear polls flushed =>
      (s.drain polls).map fun s =>
        { s with agent := { s.agent with rbuf := s.agent.rbuf.clear } }.flush flushed

def turns (s : System) (ts : List Turn) : Option System := ts.foldlM turn s

/-- A send that fails leaves the queue as it was, wherever it is in the run. -/
def FifoKept (s : System) : List Turn → Prop
  | [] => True
  | t :: ts => match s.turn t with
      | none => True
      | some s' =>
          (∀ p, t = .event (.write p false) → s'.agent.fifo = s.agent.fifo) ∧ FifoKept s' ts

theorem fifoKept_iff {s s' : System} {ts : List Turn} (ran : s.turns ts = some s') :
    s.FifoKept ts ↔ ∀ p, .event (.write p false) ∉ ts := by
  induction ts generalizing s with
  | nil => simp [FifoKept]
  | cons t ts ih =>
      cases turned : s.turn t with
      | none => simp [turns, turned] at ran
      | some s₁ =>
          rw [turns, List.foldlM_cons, turned] at ran
          simp only [FifoKept, turned, ih ran, List.mem_cons, not_or, forall_and]
          refine and_congr_left fun _ => forall_congr' fun p => ?_
          constructor
          · rintro kept rfl
            cases turned
            have longer := congrArg List.length (kept rfl)
            simp [BpfAgent.write] at longer
          · intro other same
            exact absurd same.symm other

/-! ## Behind a frame that is never captured -/

/-- The first of the queue is a frame that nobody has sent. -/
structure Stale (p : List UInt8) (fifo outstanding : List (List UInt8)) : Prop where
  head : fifo.head? = some p
  apart : p ∉ outstanding

/-- What one read of the packet filter returns is put into the ring, echoes and all. -/
theorem Stale.receive {p : List UInt8} {a a' : BpfAgent} (running : a.runStat = .eRun_)
    {captures : List Capture} {outstanding outstanding' others : List (List UInt8)}
    {cs : List Captured} {puts : List Put} (stale : Stale p a.fifo outstanding)
    (taken : captured captures outstanding = some (cs, outstanding', others))
    (received : a.receive cs = some (a', puts)) (other : p ∉ others) :
    a'.runStat = .eRun_ ∧ a'.fifo = a.fifo ∧ p ∉ outstanding' ∧
      ∀ x, (puts.map Put.frame).count x + outstanding'.count x =
        outstanding.count x + others.count x := by
  induction captures generalizing a outstanding cs others puts with
  | nil =>
      obtain ⟨rfl, rfl, rfl⟩ := by simpa [captured] using taken
      obtain ⟨rfl, rfl⟩ := by simpa [BpfAgent.receive] using received
      exact ⟨running, rfl, stale.apart, fun x => by simp⟩
  | cons capture captures ih =>
      have put_ {next : Captured} {a₁ : BpfAgent} {puts₁ : List Put} (differs : next.frame ≠ p)
          (one : a.receiveOne next = some (a₁, puts₁)) :
          a₁.runStat = .eRun_ ∧ a₁.fifo = a.fifo ∧ puts₁.map Put.frame = [next.frame] := by
        obtain ⟨running₁, ⟨queue, -⟩ | ⟨-, same, put, rfl, framed, -⟩⟩ :=
          BpfAgent.receiveOne_cases running one
        · have head := stale.head
          rw [queue, List.head?_cons, Option.some_inj] at head
          exact absurd head differs
        · exact ⟨running₁, same, by rw [List.map_singleton, framed]⟩
      cases capture with
      | other hdr frame =>
          obtain ⟨cs₁, others₁, rest, rfl, rfl⟩ := captured_other taken
          obtain ⟨a₁, puts₁, puts₂, one, more, rfl⟩ := BpfAgent.receive_cons received
          rw [List.mem_cons, not_or] at other
          obtain ⟨running₁, same, framed⟩ := put_ (Ne.symm other.1) one
          obtain ⟨running', same', apart, counts⟩ :=
            ih running₁ ⟨same ▸ stale.head, stale.apart⟩ rest more other.2
          refine ⟨running', same'.trans same, apart, fun x => ?_⟩
          have count := counts x
          simp only [List.map_append, framed, List.count_append, List.count_cons,
            List.count_nil]
          omega
      | loopback hdr =>
          obtain ⟨frame, outstanding₁, cs₁, rfl, rest, rfl⟩ := captured_loopback taken
          obtain ⟨a₁, puts₁, puts₂, one, more, rfl⟩ := BpfAgent.receive_cons received
          have apart := stale.apart
          rw [List.mem_cons, not_or] at apart
          obtain ⟨running₁, same, framed⟩ := put_ (Ne.symm apart.1) one
          obtain ⟨running', same', apart', counts⟩ :=
            ih running₁ ⟨same ▸ stale.head, apart.2⟩ rest more other
          refine ⟨running', same'.trans same, apart', fun x => ?_⟩
          have count := counts x
          simp only [List.map_append, framed, List.count_append, List.count_cons,
            List.count_nil]
          omega

/-- The frames of the writes of a run. -/
def written : List Event → List (List UInt8)
  | [] => []
  | .write p _ :: events => p :: written events
  | .receive _ :: events | .read :: events => written events

/-- The frames of its successful writes. -/
def sent : List Event → List (List UInt8)
  | [] => []
  | .write p true :: events => p :: sent events
  | .write _ false :: events | .receive _ :: events | .read :: events => sent events

/-- The frames of others that are captured. -/
def heard : List Event → List (List UInt8)
  | [] => []
  | .receive captures :: events => captures.filterMap other ++ heard events
  | .write _ _ :: events | .read :: events => heard events
where
  other : Capture → Option (List UInt8)
    | .other _ frame => some frame
    | .loopback _ => none

theorem captured_others {captures : List Capture} {outstanding outstanding' others : List (List UInt8)}
    {cs : List Captured} (taken : captured captures outstanding = some (cs, outstanding', others)) :
    others = captures.filterMap heard.other := by
  induction captures generalizing outstanding cs others with
  | nil =>
      obtain ⟨-, -, rfl⟩ := by simpa [captured] using taken
      rfl
  | cons capture captures ih =>
      cases capture with
      | other hdr frame =>
          obtain ⟨cs₁, others₁, rest, -, rfl⟩ := captured_other taken
          simp only [List.filterMap_cons, heard.other, ← ih rest]
      | loopback hdr =>
          obtain ⟨frame, outstanding₁, cs₁, rfl, rest, -⟩ := captured_loopback taken
          simp only [List.filterMap_cons, heard.other, ← ih rest]

/-- From a frame at the head of the queue that nobody sends, no capture is taken for an echo. -/
theorem Stale.run {p : List UInt8} (s : System) {s' : System} (running : s.agent.runStat = .eRun_)
    (stale : Stale p s.agent.fifo s.outstanding) {events : List Event}
    (ran : s.run events = some s') (unsent : p ∉ sent events) (unheard : p ∉ heard events) :
    s'.agent.fifo = s.agent.fifo ++ written events ∧
      ∀ x, (s'.puts.map Put.frame).count x + s'.outstanding.count x =
        (s.puts.map Put.frame).count x + s.outstanding.count x + (heard events).count x +
          (sent events).count x := by
  induction events generalizing s with
  | nil =>
      cases ran
      simp [written, sent, heard]
  | cons event events ih =>
      cases stepped : s.step event with
      | none => simp [System.run, stepped] at ran
      | some s₁ =>
          have rest : s₁.run events = some s' := by simpa [System.run, stepped] using ran
          have queued (q : List UInt8) : (s.agent.fifo ++ [q]).head? = some p := by
            rw [List.head?_append, stale.head, Option.some_or]
          cases event with
          | write q done =>
              cases done with
              | true =>
                  cases stepped
                  rw [sent, List.mem_cons, not_or] at unsent
                  obtain ⟨queue, counts⟩ := ih
                    { s with agent := s.agent.write q, outstanding := s.outstanding ++ [q] } running
                    ⟨queued q, by simp [stale.apart, unsent.1]⟩ rest unsent.2 unheard
                  refine ⟨queue.trans ?_, fun x => (counts x).trans ?_⟩
                  · simp [BpfAgent.write, written]
                  · simp only [heard, sent, List.count_append, List.count_cons, List.count_nil]
                    omega
              | false =>
                  cases stepped
                  obtain ⟨queue, counts⟩ := ih
                    { s with agent := s.agent.write q, failed := s.failed ++ [q] } running
                    ⟨queued q, stale.apart⟩ rest unsent unheard
                  refine ⟨queue.trans ?_, counts⟩
                  simp [BpfAgent.write, written]
          | receive captures =>
              rw [heard, List.mem_append, not_or] at unheard
              obtain ⟨cs, outstanding, others, agent, puts, taken, received, rfl⟩ :=
                step_receive stepped
              have known := captured_others taken
              obtain ⟨running', same, apart, counts⟩ :=
                stale.receive running taken received (known ▸ unheard.1)
              obtain ⟨queue, counts'⟩ := ih _ running' ⟨same ▸ stale.head, apart⟩ rest unsent
                unheard.2
              refine ⟨queue.trans (by rw [same, written]), fun x => ?_⟩
              have count := counts x
              have count' := counts' x
              simp only [heard, sent, ← known, List.map_append, List.count_append] at count' ⊢
              omega
          | read =>
              obtain ⟨rbuf, rfl⟩ := step_read stepped
              exact ih { s with agent := { s.agent with rbuf := rbuf } } running stale rest unsent
                unheard

/-- In every run, every failed send leaves the queue as it was only if there is none. And once one
    has failed with an empty queue, then until its frame is captured after all, no capture is taken
    for an echo: all that is captured, the frames of the later sends among them, is put into the
    ring. -/
theorem failed_send_stays (s : System) :
    (∀ ts s', s.turns ts = some s' → (s.FifoKept ts ↔ ∀ p, .event (.write p false) ∉ ts)) ∧
    ∀ p events s', s.agent.runStat = .eRun_ → s.agent.fifo = [] → p ∉ s.outstanding →
      s.run (.write p false :: events) = some s' → p ∉ sent events → p ∉ heard events →
      s'.agent.fifo = p :: written events ∧
        ∀ x, (s'.puts.map Put.frame).count x + s'.outstanding.count x =
          (s.puts.map Put.frame).count x + s.outstanding.count x + (heard events).count x +
            (sent events).count x := by
  refine ⟨fun ts s' ran => fifoKept_iff ran, ?_⟩
  intro p events s' running empty apart ran unsent unheard
  have stale : Stale p (s.agent.write p).fifo s.outstanding :=
    ⟨by rw [BpfAgent.write, empty]; rfl, apart⟩
  obtain ⟨queue, counts⟩ := Stale.run
    { s with agent := s.agent.write p, failed := s.failed ++ [p] } running stale ran unsent unheard
  refine ⟨queue.trans ?_, counts⟩
  simp [BpfAgent.write, empty]

end System

/-- Behind a frame that could not be sent, the echo of the next one is delivered as if another had
    sent it. -/
theorem failed_send_stays_two :
    let s : System := { agent := ⟨.new 4 8 .eWRAP fun _ _ => 0, .eRun_, []⟩ }
    ∃ s', s.run [.write [1] false, .write [2] true, .receive [.loopback [0]]] = some s' ∧
      s'.agent.fifo = [[1], [2]] ∧ s'.delivered = [[2]] ∧ s'.others = [] := by
  refine ⟨_, rfl, ?_, by decide, rfl⟩
  exact ((System.failed_send_stays { agent := ⟨.new 4 8 .eWRAP fun _ _ => 0, .eRun_, []⟩ }).2 [1]
    [.write [2] true, .receive [.loopback [0]]] _ rfl rfl (by decide) rfl (by decide)
    (by decide)).1

/-- A failed send leaves its frame in the queue. -/
theorem not_fifoKept : ¬ ∀ (s s' : System) (ts : List Turn), s.turns ts = some s' →
    s.FifoKept ts := by
  intro claim
  have kept := claim { agent := ⟨.new 4 8 .eWRAP fun _ _ => 0, .eRun_, []⟩ } _
    [.event (.write [1] false)] rfl
  exact absurd (kept.1 [1] rfl) (by decide)

end Tahi.Pkt
