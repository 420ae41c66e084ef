import Tahi.Pkt.Ringbuf

/-! # Taking back the frames the agent has sent

The packet filter also captures the frames the agent itself has sent. The agent keeps
a queue of them, and drops a captured frame that equals the first of the queue. The
captured frame may then be another's, and the echo is delivered in its place.
-/

namespace Tahi.Pkt

inductive RunStat where
  | eRun_
  | eStop_
deriving DecidableEq, Repr

/-- A captured frame behind its `bpf_hdr`. -/
structure Captured where
  hdr : List UInt8
  frame : List UInt8
deriving DecidableEq, Repr

/-- A call of `rbuf->write`: whether it found the ring full, and whether it stored the
    frame. -/
structure Put where
  frame : List UInt8
  full : Bool
  stored : Bool
deriving DecidableEq, Repr

structure BpfAgent where
  rbuf : Ringbuf
  runStat : RunStat
  fifo : List (List UInt8)
deriving DecidableEq, Repr

namespace BpfAgent

/-- The frame is queued before it is sent, and whether or not it can be sent. -/
def write (a : BpfAgent) (p : List UInt8) : BpfAgent := { a with fifo := a.fifo ++ [p] }

/-- One turn of the loop of `receive`. `none` is a store outside the slots of the ring. -/
def receiveOne (a : BpfAgent) (next : Captured) : Option (BpfAgent × List Put) :=
  if a.fifo.head? = some next.frame then some ({ a with fifo := a.fifo.tail }, [])
  else if a.runStat = .eRun_ then
    (a.rbuf.write (next.hdr ++ next.frame)).map fun (rbuf, ret) =>
      ({ a with rbuf := rbuf }, [⟨next.frame, a.rbuf.isFull, ret.isSome⟩])
  else some (a, [])

/-- The frames that one read of the packet filter has returned. -/
def receive (a : BpfAgent) : List Captured → Option (BpfAgent × List Put)
  | [] => some (a, [])
  | next :: rest =>
      match a.receiveOne next with
      | none => none
      | some (a, puts) => (a.receive rest).map fun (a, puts') => (a, puts ++ puts')

end BpfAgent

/-! ## The agent and the packet filter -/

/-- What the packet filter captures: another's frame, or the first of the sent frames it
    has not captured yet. -/
inductive Capture where
  | other (hdr frame : List UInt8)
  | loopback (hdr : List UInt8)
deriving DecidableEq, Repr

inductive Event where
  | write (p : List UInt8) (sent : Bool)
  | receive (captures : List Capture)
  | read
deriving DecidableEq, Repr

/-- The agent, the sent frames that are still to be captured, and what has happened: the
    others' frames, the frames that could not be sent and the calls of `rbuf->write`. -/
structure System where
  agent : BpfAgent
  outstanding : List (List UInt8) := []
  others : List (List UInt8) := []
  failed : List (List UInt8) := []
  puts : List Put := []
deriving DecidableEq, Repr

namespace System

/-- The frames that the ring has taken. -/
def delivered (s : System) : List (List UInt8) := (s.puts.filter Put.stored).map Put.frame

/-- The captured frames, what is outstanding afterwards, and the others' among them. Only
    a frame that was sent loops back. -/
def captured : List Capture → List (List UInt8) →
    Option (List Captured × List (List UInt8) × List (List UInt8))
  | [], outstanding => some ([], outstanding, [])
  | .other hdr frame :: rest, outstanding =>
      (captured rest outstanding).map fun (cs, out, others) =>
        (⟨hdr, frame⟩ :: cs, out, frame :: others)
  | .loopback _ :: _, [] => none
  | .loopback hdr :: rest, frame :: outstanding =>
      (captured rest outstanding).map fun (cs, out, others) => (⟨hdr, frame⟩ :: cs, out, others)

def step (s : System) : Event → Option System
  | .write p true =>
      some { s with agent := s.agent.write p, outstanding := s.outstanding ++ [p] }
  | .write p false => some { s with agent := s.agent.write p, failed := s.failed ++ [p] }
  | .receive captures =>
      match captured captures s.outstanding with
      | none => none
      | some (cs, outstanding, others) =>
          (s.agent.receive cs).map fun (agent, puts) =>
            { s with
              agent := agent
              outstanding := outstanding
              others := s.others ++ others
              puts := s.puts ++ puts }
  | .read =>
      s.agent.rbuf.read.map fun (rbuf, _) => { s with agent := { s.agent with rbuf := rbuf } }

def run (s : System) : List Event → Option System
  | [] => some s
  | event :: events =>
      match s.step event with
      | none => none
      | some s => s.run events

section

variable {captures : List Capture} {cs : List Captured}
  {outstanding outstanding' others : List (List UInt8)} {s s' : System}

/-- A frame of somebody else comes first. -/
theorem captured_other {hdr frame : List UInt8}
    (taken : captured (.other hdr frame :: captures) outstanding = some (cs, outstanding', others)) :
    ∃ cs₁ others₁, captured captures outstanding = some (cs₁, outstanding', others₁) ∧
      cs = ⟨hdr, frame⟩ :: cs₁ ∧ others = frame :: others₁ := by
  rw [captured, Option.map_eq_some_iff] at taken
  obtain ⟨r, rest, eq⟩ := taken
  cases eq
  exact ⟨r.1, r.2.2, rest, rfl, rfl⟩

/-- A frame that was sent comes first. -/
theorem captured_loopback {hdr : List UInt8}
    (taken : captured (.loopback hdr :: captures) outstanding = some (cs, outstanding', others)) :
    ∃ frame outstanding₁ cs₁, outstanding = frame :: outstanding₁ ∧
      captured captures outstanding₁ = some (cs₁, outstanding', others) ∧
      cs = ⟨hdr, frame⟩ :: cs₁ := by
  cases outstanding with
  | nil => cases taken
  | cons frame outstanding =>
      rw [captured, Option.map_eq_some_iff] at taken
      obtain ⟨r, rest, eq⟩ := taken
      cases eq
      exact ⟨frame, outstanding, r.1, rfl, rest, rfl⟩

theorem step_receive (stepped : s.step (.receive captures) = some s') :
    ∃ cs outstanding others agent puts,
      captured captures s.outstanding = some (cs, outstanding, others) ∧
      s.agent.receive cs = some (agent, puts) ∧
      s' = { s with
        agent := agent
        outstanding := outstanding
        others := s.others ++ others
        puts := s.puts ++ puts } := by
  rw [step] at stepped
  split at stepped
  · cases stepped
  · rename_i cs outstanding others taken
    obtain ⟨r, received, eq⟩ := Option.map_eq_some_iff.mp stepped
    exact ⟨cs, outstanding, others, r.1, r.2, taken, received, eq.symm⟩

theorem step_read (stepped : s.step .read = some s') :
    ∃ rbuf, s' = { s with agent := { s.agent with rbuf := rbuf } } := by
  obtain ⟨r, -, eq⟩ := Option.map_eq_some_iff.mp stepped
  exact ⟨r.1, eq.symm⟩

end

end System

/-! ## What one captured frame does -/

theorem Ringbuf.isSome_write {rb rb' : Ringbuf} {data : List UInt8} {ret : Option (List UInt8)}
    (written : rb.write data = some (rb', ret)) (room : rb.isFull = false) : ret.isSome := by
  rw [Ringbuf.write, room] at written
  cases copied : rb.copy data with
  | none => simp [copied] at written
  | some r =>
      obtain ⟨-, rfl⟩ := by simpa [copied] using written
      rfl

namespace BpfAgent

variable {a a' : BpfAgent} {next : Captured} {puts : List Put}

/-- It is taken for the first of the queue, or put into the ring. -/
theorem receiveOne_cases (running : a.runStat = .eRun_)
    (received : a.receiveOne next = some (a', puts)) :
    a'.runStat = .eRun_ ∧
      ((a.fifo = next.frame :: a'.fifo ∧ puts = []) ∨
        (a.fifo.head? ≠ some next.frame ∧ a'.fifo = a.fifo ∧
          ∃ put : Put, puts = [put] ∧ put.frame = next.frame ∧ (put.full = false → put.stored))) := by
  unfold receiveOne at received
  split at received
  · rename_i first
    obtain ⟨rfl, rfl⟩ := by simpa using received
    refine ⟨running, .inl ⟨?_, rfl⟩⟩
    cases queue : a.fifo with
    | nil => simp [queue] at first
    | cons f fifo =>
        rw [queue, List.head?_cons, Option.some_inj] at first
        simp [first]
  · rename_i other
    cases written : a.rbuf.write (next.hdr ++ next.frame) with
    | none => simp [written] at received
    | some r =>
        rw [written, Option.map_some, Option.some_inj, Prod.mk.injEq] at received
        obtain ⟨rfl, rfl⟩ := received
        exact ⟨running, .inr ⟨other, rfl, _, rfl, rfl, Ringbuf.isSome_write written⟩⟩

theorem receive_cons {rest : List Captured} (received : a.receive (next :: rest) = some (a', puts)) :
    ∃ a₁ puts₁ puts₂, a.receiveOne next = some (a₁, puts₁) ∧
      a₁.receive rest = some (a', puts₂) ∧ puts = puts₁ ++ puts₂ := by
  unfold receive at received
  cases one : a.receiveOne next with
  | none => simp [one] at received
  | some r =>
      cases more : r.1.receive rest with
      | none => simp [one, more] at received
      | some r' =>
          obtain ⟨rfl, rfl⟩ := by simpa [one, more] using received
          exact ⟨r.1, r.2, r'.2, rfl, more, rfl⟩

end BpfAgent

/-! ## The balance of frames -/

/-- Every frame that is put into the ring, outstanding or lost is another's or is still
    queued. While no frame was lost, the queue is the end of what is outstanding. -/
structure Balance (fifo outstanding others failed : List (List UInt8)) (puts : List Put) : Prop where
  frames : ∀ x, (puts.map Put.frame).count x + outstanding.count x + failed.count x =
    others.count x + fifo.count x
  queue : failed = [] → fifo <:+ outstanding
  roomy : ∀ put ∈ puts, put.full = false → put.stored

namespace Balance

variable {fifo outstanding others failed : List (List UInt8)} {puts : List Put} {f : List UInt8}

theorem start : Balance [] [] [] [] [] where
  frames _ := rfl
  queue _ := List.nil_suffix
  roomy put mem := by simp at mem

theorem sent (balance : Balance fifo outstanding others failed puts) (p : List UInt8) :
    Balance (fifo ++ [p]) (outstanding ++ [p]) others failed puts := by
  refine ⟨?_, fun none_ => ?_, balance.roomy⟩
  · intro x
    have frames := balance.frames x
    simp only [List.count_append]
    omega
  · obtain ⟨before, rfl⟩ := balance.queue none_
    exact ⟨before, by rw [List.append_assoc]⟩

theorem lost (balance : Balance fifo outstanding others failed puts) (p : List UInt8) :
    Balance (fifo ++ [p]) outstanding others (failed ++ [p]) puts := by
  refine ⟨?_, fun none_ => absurd none_ (by simp), balance.roomy⟩
  intro x
  have frames := balance.frames x
  simp only [List.count_append]
  omega

theorem roomy_append {put : Put} (before : ∀ put ∈ puts, put.full = false → put.stored)
    (roomy : put.full = false → put.stored) :
    ∀ put' ∈ puts ++ [put], put'.full = false → put'.stored := by
  intro put' mem
  rcases List.mem_append.mp mem with old | new
  · exact before put' old
  · rw [List.mem_singleton.mp new]
    exact roomy

/-- Another's frame is taken for the first of the queue. -/
theorem other_taken (balance : Balance (f :: fifo) outstanding others failed puts) :
    Balance fifo outstanding (others ++ [f]) failed puts := by
  refine ⟨?_, fun none_ => (List.suffix_cons f fifo).trans (balance.queue none_), balance.roomy⟩
  intro x
  have frames := balance.frames x
  simp only [List.count_append, List.count_cons, List.count_nil] at *
  omega

theorem other_put (balance : Balance fifo outstanding others failed puts) {put : Put}
    (same : put.frame = f) (roomy : put.full = false → put.stored) :
    Balance fifo outstanding (others ++ [f]) failed (puts ++ [put]) := by
  refine ⟨?_, balance.queue, roomy_append balance.roomy roomy⟩
  intro x
  have frames := balance.frames x
  simp only [List.map_append, List.map_cons, List.map_nil, same, List.count_append]
  omega

/-- The echo of a frame is taken for the first of the queue. -/
theorem echo_taken (balance : Balance (f :: fifo) (f :: outstanding) others failed puts) :
    Balance fifo outstanding others failed puts := by
  refine ⟨?_, fun none_ => ?_, balance.roomy⟩
  · intro x
    have frames := balance.frames x
    simp only [List.count_cons] at frames
    omega
  · rcases List.suffix_cons_iff.mp (balance.queue none_) with same | behind
    · cases (List.cons.inj same).2
      exact List.suffix_rfl
    · exact (List.suffix_cons f fifo).trans behind

/-- The echo of a frame is put into the ring when another's frame was taken for it. -/
theorem echo_put (balance : Balance fifo (f :: outstanding) others failed puts)
    (other : fifo.head? ≠ some f) {put : Put} (same : put.frame = f)
    (roomy : put.full = false → put.stored) :
    Balance fifo outstanding others failed (puts ++ [put]) := by
  refine ⟨?_, fun none_ => ?_, roomy_append balance.roomy roomy⟩
  · intro x
    have frames := balance.frames x
    simp only [List.map_append, List.map_cons, List.map_nil, same, List.count_append,
      List.count_cons, List.count_nil] at *
    omega
  · rcases List.suffix_cons_iff.mp (balance.queue none_) with whole | behind
    · exact absurd (by rw [whole, List.head?_cons]) other
    · exact behind

/-- One read of the packet filter. -/
theorem receive {a a' : BpfAgent} (running : a.runStat = .eRun_) {captures : List Capture}
    {cs : List Captured} {outstanding' others' : List (List UInt8)} {puts' : List Put}
    (balance : Balance a.fifo outstanding others failed puts)
    (taken : System.captured captures outstanding = some (cs, outstanding', others'))
    (received : a.receive cs = some (a', puts')) :
    a'.runStat = .eRun_ ∧
      Balance a'.fifo outstanding' (others ++ others') failed (puts ++ puts') := by
  induction captures generalizing a outstanding others puts cs others' puts' with
  | nil =>
      obtain ⟨rfl, rfl, rfl⟩ := by simpa [System.captured] using taken
      obtain ⟨rfl, rfl⟩ := by simpa [BpfAgent.receive] using received
      exact ⟨running, by simpa using balance⟩
  | cons capture captures ih =>
      cases capture with
      | other hdr frame =>
          obtain ⟨cs₁, others₁, rest, rfl, rfl⟩ := System.captured_other taken
          obtain ⟨a₁, puts₁, puts₂, one, more, rfl⟩ := BpfAgent.receive_cons received
          have turn := BpfAgent.receiveOne_cases running one
          rw [List.append_cons others frame others₁, ← List.append_assoc]
          refine ih turn.1 ?_ rest more
          rcases turn.2 with ⟨queued, rfl⟩ | ⟨-, same, put, rfl, framed, roomy⟩
          · rw [List.append_nil]
            exact (queued ▸ balance).other_taken
          · rw [same]
            exact balance.other_put framed roomy
      | loopback hdr =>
          obtain ⟨frame, outstanding₁, cs₁, rfl, rest, rfl⟩ := System.captured_loopback taken
          obtain ⟨a₁, puts₁, puts₂, one, more, rfl⟩ := BpfAgent.receive_cons received
          have turn := BpfAgent.receiveOne_cases running one
          rw [← List.append_assoc]
          refine ih turn.1 ?_ rest more
          rcases turn.2 with ⟨queued, rfl⟩ | ⟨other, same, put, rfl, framed, roomy⟩
          · rw [List.append_nil]
            exact (queued ▸ balance).echo_taken
          · rw [same]
            exact balance.echo_put other framed roomy

end Balance

/-! ## Every interleaving -/

namespace System

variable {s s' : System}

theorem step_balance (running : s.agent.runStat = .eRun_)
    (balance : Balance s.agent.fifo s.outstanding s.others s.failed s.puts) {event : Event}
    (stepped : s.step event = some s') :
    s'.agent.runStat = .eRun_ ∧
      Balance s'.agent.fifo s'.outstanding s'.others s'.failed s'.puts := by
  cases event with
  | write p sent =>
      cases sent with
      | true =>
          cases stepped
          exact ⟨running, balance.sent p⟩
      | false =>
          cases stepped
          exact ⟨running, balance.lost p⟩
  | receive captures =>
      obtain ⟨cs, outstanding, others, agent, puts, taken, received, rfl⟩ := step_receive stepped
      exact balance.receive running taken received
  | read =>
      obtain ⟨rbuf, rfl⟩ := step_read stepped
      exact ⟨running, balance⟩

theorem run_balance (running : s.agent.runStat = .eRun_)
    (balance : Balance s.agent.fifo s.outstanding s.others s.failed s.puts) {events : List Event}
    (ran : s.run events = some s') :
    Balance s'.agent.fifo s'.outstanding s'.others s'.failed s'.puts := by
  induction events generalizing s with
  | nil =>
      cases ran
      exact balance
  | cons event events ih =>
      cases stepped : s.step event with
      | none => simp [run, stepped] at ran
      | some s₁ =>
          have turn := step_balance running balance stepped
          exact ih turn.1 turn.2 (by simpa [run, stepped] using ran)

/-- When the ring never was full, it has taken every frame that was put. -/
theorem delivered_eq (balance : Balance s.agent.fifo s.outstanding s.others s.failed s.puts)
    (room : ∀ put ∈ s.puts, put.full = false) : s.delivered = s.puts.map Put.frame := by
  rw [delivered, List.filter_eq_self.mpr]
  intro put mem
  exact balance.roomy put mem (room put mem)

theorem step_failed {event : Event} (stepped : s.step event = some s') :
    s'.failed = [] ↔ s.failed = [] ∧ ∀ p, event ≠ .write p false := by
  cases event with
  | write p sent =>
      cases sent with
      | true =>
          cases stepped
          simp
      | false =>
          cases stepped
          simp
  | receive captures =>
      obtain ⟨cs, outstanding, others, agent, puts, -, -, rfl⟩ := step_receive stepped
      simp
  | read =>
      obtain ⟨rbuf, rfl⟩ := step_read stepped
      simp

theorem run_failed {events : List Event} (ran : s.run events = some s') :
    s'.failed = [] ↔ s.failed = [] ∧ ∀ p, .write p false ∉ events := by
  induction events generalizing s with
  | nil =>
      cases ran
      simp
  | cons event events ih =>
      cases stepped : s.step event with
      | none => simp [run, stepped] at ran
      | some s₁ =>
          rw [ih (by simpa [run, stepped] using ran), step_failed stepped, and_assoc]
          simp only [List.mem_cons, not_or, forall_and, ne_comm]

end System

/-- Once every frame that was sent has been captured, the ring has taken as many frames of
    each content as the others have sent and the queue is empty, if and only if no frame
    failed to be sent. -/
theorem delivers_iff {a : BpfAgent} (running : a.runStat = .eRun_) (idle : a.fifo = [])
    (events : List Event) {s : System} (ran : System.run { agent := a } events = some s)
    (room : ∀ put ∈ s.puts, put.full = false) (captured : s.outstanding = []) :
    (s.delivered.Perm s.others ∧ s.agent.fifo = []) ↔ ∀ p, .write p false ∉ events := by
  have balance := System.run_balance running (by rw [idle]; exact .start) ran
  have frames := balance.frames
  have failed := System.run_failed ran
  rw [System.delivered_eq balance room]
  rw [captured] at frames balance
  constructor
  · rintro ⟨perm, queue⟩
    refine (failed.mp (List.eq_nil_iff_forall_not_mem.mpr fun x mem => ?_)).2
    have lost := List.count_pos_iff.mpr mem
    have count := frames x
    rw [perm.count_eq, queue] at count
    simp only [List.count_nil] at count
    omega
  · intro sent
    have none_ : s.failed = [] := failed.mpr ⟨rfl, sent⟩
    have queue := List.suffix_nil.mp (balance.queue none_)
    refine ⟨List.perm_iff_count.mpr fun x => ?_, queue⟩
    simpa [none_, queue] using frames x

/-- Another's frame with the bytes of a sent one is taken for it, and the echo is delivered
    in its place. -/
theorem delivers_same_frame :
    let a : BpfAgent := ⟨.new 4 8 .eWRAP fun _ _ => 0, .eRun_, []⟩
    let events : List Event :=
      [.write [1] true, .receive [.other [0] [1], .other [0] [2], .loopback [0]]]
    ∃ s, System.run { agent := a } events = some s ∧ s.puts.length = 2 ∧
      ((s.delivered.Perm s.others ∧ s.agent.fifo = []) ↔ ∀ p, .write p false ∉ events) :=
  ⟨_, rfl, rfl, delivers_iff (a := ⟨.new 4 8 .eWRAP fun _ _ => 0, .eRun_, []⟩) rfl rfl
    [.write [1] true, .receive [.other [0] [1], .other [0] [2], .loopback [0]]] rfl (by decide)
    rfl⟩

/-- A frame that could not be sent stays in the queue, and an equal frame of another's is
    never delivered. -/
theorem not_delivers :
    let a : BpfAgent := ⟨.new 4 8 .eWRAP fun _ _ => 0, .eRun_, []⟩
    (∃ s, System.run { agent := a } [.write [1] false] = some s ∧ s.agent.fifo ≠ []) ∧
      ∃ s, System.run { agent := a } [.write [1] false, .receive [.other [0] [1]]] = some s ∧
        s.outstanding = [] ∧ (∀ put ∈ s.puts, put.full = false) ∧
        ¬s.delivered.Perm s.others :=
  ⟨⟨_, rfl, by decide⟩, ⟨_, rfl, rfl, by decide, by decide⟩⟩

end Tahi.Pkt
