import Tahi.Koi.UnixdStream

/-! # One command, one call

A call of `read_unixd_data` takes one command off the stream when every `read` of it ends
where it should: after the octets of the command type, after the header, and at the end of
the command.
-/

namespace Tahi.Koi

/-- A command that the client may write: its length is the one it announces, or it has none
    to announce and fits into the buffer. -/
structure WellFormed (c : List UInt8) : Prop where
  service : command c ∈ serviceCommands
  length : match header (command c) with
    | some size => size ≤ c.length ∧
        c.length = size + ntohl (load ((c.drop (size - 4)).take 4)) ∧
        c.length ≤ size + MSG_MAXDATALEN
    | none => 4 ≤ c.length ∧ c.length ≤ CM_MAX_CM_LENGTH

theorem header_le {command size : Nat} (known : header command = some size) :
    12 ≤ size ∧ size ≤ 52 := by
  unfold header at known
  split_ifs at known <;> cases known <;> decide

theorem command_append {data rest : List UInt8} (two : 2 ≤ data.length) :
    command (data ++ rest) = command data := by
  rw [command, command, List.take_append_of_le_length two]

theorem WellFormed.four_le {c : List UInt8} (formed : WellFormed c) : 4 ≤ c.length := by
  have length := formed.length
  cases known : header (command c) with
  | none =>
      rw [known] at length
      exact length.1
  | some size =>
      rw [known] at length
      have large := header_le known
      omega

namespace Unixd

variable (s : Unixd)

/-- The reads from `q` on, as far as the buffer goes, come to an end at `fin`. -/
inductive Lands (limit fin : Nat) : Nat → Prop where
  | here : Lands limit fin fin
  | more {q : Nat} (before : q < fin) (rest : Lands limit fin (q + (s.read q (limit - q)).length)) :
      Lands limit fin q

/-- The reads for a command at `p` end with it. -/
def EndsWith (c : List UInt8) (p : Nat) : Prop :=
  2 ≤ s.piece p ∧
    match header (command c) with
    | some size =>
        size - 2 ≤ s.piece (p + 2) ∧
          s.Lands (p + (size + MSG_MAXDATALEN)) (p + c.length) (p + size)
    | none => (s.read (p + 2) (CM_MAX_CM_LENGTH - 2)).length = c.length - 2

/-- Each command is read so, from where the one before it ends. -/
def Separated : List (List UInt8) → Nat → Prop
  | [], _ => True
  | c :: cs, p => s.EndsWith c p ∧ Separated cs (p + c.length)

variable {s : Unixd}

theorem lands_iff {limit fin q : Nat} :
    s.Lands limit fin q ↔ q = fin ∨ q < fin ∧ s.Lands limit fin (q + (s.read q (limit - q)).length) := by
  constructor
  · intro lands
    cases lands with
    | here => exact .inl rfl
    | more before rest => exact .inr ⟨before, rest⟩
  · rintro (rfl | ⟨before, rest⟩)
    · exact .here
    · exact .more before rest

/-! ## What a call takes -/

theorem read_eq (p n : Nat) : s.read p n = (s.octets.drop p).take (s.read p n).length := by
  rw [read, List.length_take]
  exact List.take_eq_take_min

theorem take_more {p : Nat} {buff : List UInt8} (n : Nat)
    (front : buff = (s.octets.drop p).take buff.length) :
    buff ++ s.read (p + buff.length) n =
      (s.octets.drop p).take (buff ++ s.read (p + buff.length) n).length := by
  rw [List.length_append, List.take_add, ← front, List.drop_drop, ← read_eq]

theorem readPacket_take {p size pktlen : Nat} {buff : List UInt8}
    (front : buff = (s.octets.drop p).take buff.length) :
    s.readPacket p size pktlen buff =
      (s.octets.drop p).take (s.readPacket p size pktlen buff).length := by
  fun_induction readPacket s p size pktlen buff with
  | case1 => exact front
  | case2 buff _ data _ ih => exact ih (take_more _ front)
  | case3 => exact front

theorem read_unixd_data_take (p : Nat) :
    s.read_unixd_data p = (s.octets.drop p).take (s.read_unixd_data p).length := by
  unfold read_unixd_data
  extract_lets buff
  have front : buff = (s.octets.drop p).take buff.length := read_eq p 2
  split
  · exact front
  · rename_i two
    have length : buff.length = 2 := by
      have bound : buff.length = _ := s.read_length p 2
      omega
    have behind (n : Nat) : buff ++ s.read (p + 2) n =
        (s.octets.drop p).take (buff ++ s.read (p + 2) n).length := by
      have taken := take_more n front
      rwa [length] at taken
    split
    · extract_lets buff'
      split
      · exact behind _
      · exact readPacket_take (behind _)
    · exact behind _

theorem readPacket_length_iff {p size pktlen : Nat} {buff : List UInt8}
    (fits : pktlen ≤ MSG_MAXDATALEN) (small : size ≤ 52)
    (arrives : p + (size + pktlen) ≤ s.octets.length) :
    (s.readPacket p size pktlen buff).length = size + pktlen ↔
      s.Lands (p + (size + MSG_MAXDATALEN)) (p + (size + pktlen)) (p + buff.length) := by
  have bound : MSG_MAXDATALEN = 65536 := rfl
  have exact_ : (size + pktlen) % 2 ^ 32 = size + pktlen := Nat.mod_eq_of_lt (by omega)
  fun_induction readPacket s p size pktlen buff with
  | case1 buff before data none_ =>
      have length := s.read_length (p + buff.length) (size + MSG_MAXDATALEN - buff.length)
      have waits := s.waits (p + buff.length)
      simp only [data] at none_
      omega
  | case2 buff before data _ ih =>
      refine ih.trans ?_
      have next : p + (buff ++ data).length = p + buff.length +
          (s.read (p + buff.length) (p + (size + MSG_MAXDATALEN) - (p + buff.length))).length := by
        rw [List.length_append, Nat.add_sub_add_left, Nat.add_assoc]
      rw [lands_iff (q := p + buff.length), next]
      constructor
      · intro lands
        exact .inr ⟨by omega, lands⟩
      · rintro (same | ⟨-, lands⟩)
        · omega
        · exact lands
  | case3 buff after =>
      rw [lands_iff]
      constructor
      · intro same
        exact .inl (by omega)
      · rintro (same | ⟨before, -⟩)
        · omega
        · omega

/-! ## One command -/

/-- A call takes a command and no more exactly when the reads end with it. -/
theorem read_unixd_data_length_iff {p : Nat} {c rest : List UInt8} (formed : WellFormed c)
    (here : s.octets.drop p = c ++ rest) :
    (s.read_unixd_data p).length = c.length ↔ s.EndsWith c p := by
  have four := formed.four_le
  have arrives : p + c.length ≤ s.octets.length := by
    have length := congrArg List.length here
    rw [List.length_drop, List.length_append] at length
    omega
  have first := s.read_length p 2
  unfold read_unixd_data EndsWith
  by_cases two : 2 ≤ s.piece p
  · have length : (s.read p 2).length = 2 := by omega
    have type : command (s.read p 2) = command c := by
      rw [read_eq, length, here, List.take_append_of_le_length (by omega), command, command,
        List.take_take]
      rfl
    have second (n : Nat) := s.read_length (p + 2) n
    have formed := formed.length
    simp only [length, Nat.lt_irrefl, if_false, type, two, true_and]
    cases known : header (command c) with
    | none =>
        simp only [List.length_append, length]
        omega
    | some size =>
        rw [known] at formed
        obtain ⟨whole, announced, fits⟩ := formed
        have large := header_le known
        have second := second (size - 2)
        simp only [List.length_append, length]
        by_cases rest_of_header : size - 2 ≤ s.piece (p + 2)
        · have full : 2 + (s.read (p + 2) (size - 2)).length = size := by omega
          have buff : s.read p 2 ++ s.read (p + 2) (size - 2) = c.take size := by
            have taken := take_more (size - 2) (read_eq (s := s) p 2)
            rw [length, List.length_append, length, full, here,
              List.take_append_of_le_length whole] at taken
            exact taken
          have pktlen : ((c.take size).drop (size - 4)).take 4 = (c.drop (size - 4)).take 4 := by
            rw [List.drop_take, List.take_take]
            congr 1
            omega
          simp only [full, Nat.lt_irrefl, if_false, buff, pktlen, rest_of_header, true_and]
          have small : ntohl (load ((c.drop (size - 4)).take 4)) ≤ MSG_MAXDATALEN := by omega
          have packet := @readPacket_length_iff s p size _ (c.take size) small large.2 (by omega)
          rw [← announced, List.length_take, Nat.min_eq_left whole] at packet
          exact packet
        · have short : 2 + (s.read (p + 2) (size - 2)).length < size := by omega
          simp only [short, if_true, rest_of_header, false_and, iff_false, List.length_append,
            length]
          omega
  · have short : (s.read p 2).length < 2 := by omega
    simp only [short, if_true, two, false_and, iff_false]
    omega

/-! ## The whole stream -/

theorem dispatched_length (p : Nat) :
    (s.dispatched p).flatten.length ≤ s.octets.length - p := by
  fun_induction dispatched s p with
  | case1 p more ih =>
      have length := congrArg List.length (s.read_unixd_data_take p)
      rw [List.length_take, List.length_drop] at length
      have own : ((s.process_si_type_unixd_data p).toList.flatten).length ≤
          (s.read_unixd_data p).length := by
        unfold process_si_type_unixd_data
        dsimp only
        split <;> simp
      rw [List.flatten_append, List.length_append]
      omega
  | case2 => simp

theorem dispatched_iff {cs : List (List UInt8)} (formed : ∀ c ∈ cs, WellFormed c) {p : Nat}
    (here : s.octets.drop p = cs.flatten) : s.dispatched p = cs ↔ s.Separated cs p := by
  induction cs generalizing p with
  | nil =>
      have none_ : ¬ p < s.octets.length := by
        simpa using here
      rw [dispatched, if_neg none_]
      exact ⟨fun _ => trivial, fun _ => rfl⟩
  | cons c cs ih =>
      have formed_c := formed c (List.mem_cons_self ..)
      have four := formed_c.four_le
      have length := congrArg List.length here
      rw [List.flatten_cons] at here length
      rw [List.length_drop, List.length_append] at length
      have more : p < s.octets.length := by omega
      have ends := read_unixd_data_length_iff formed_c here
      have ih := @ih (fun c mem => formed c (List.mem_cons_of_mem _ mem)) (p + c.length) (by
        rw [← List.drop_drop, here, List.drop_left])
      have taken (same : (s.read_unixd_data p).length = c.length) : s.read_unixd_data p = c := by
        rw [read_unixd_data_take, same, here, List.take_left]
      rw [dispatched, if_pos more, Separated, ← ih, ← ends]
      constructor
      · intro run
        unfold process_si_type_unixd_data at run
        dsimp only at run
        split at run
        · obtain ⟨first, rest⟩ := List.cons.inj run
          rw [first] at rest
          exact ⟨congrArg List.length first, rest⟩
        · -- The octets of the call are not dispatched, and the others are too few.
          have few := dispatched_length (s := s) (p + (s.read_unixd_data p).length)
          have positive := s.read_unixd_data_pos more
          rw [Option.toList_none, List.nil_append] at run
          rw [run, List.flatten_cons, List.length_append] at few
          omega
      · rintro ⟨same, rest⟩
        have read := taken same
        have service : command (c ++ [s.stack p]) ∈ serviceCommands := by
          rw [command_append (by omega)]
          exact formed_c.service
        simp only [process_si_type_unixd_data, read, if_pos service, rest, Option.toList_some,
          List.singleton_append]

/-- The commands that are dispatched are those that were written. -/
def DispatchesAll (s : Unixd) (cs : List (List UInt8)) : Prop := s.dispatched 0 = cs

/-- However the commands arrive, exactly they are dispatched if and only if every `read` ends
    where it should. -/
theorem DispatchesAll.separated_iff {cs : List (List UInt8)} (formed : ∀ c ∈ cs, WellFormed c)
    (written : s.octets = cs.flatten) : s.DispatchesAll cs ↔ s.Separated cs 0 :=
  dispatched_iff formed (by rw [List.drop_zero, written])

/-- A receive request. -/
def recvReq : List UInt8 := [0x01, 0x03, 0, 1, 0, 1, 0, 10]

theorem recvReq_header : header (command recvReq) = none := by decide

theorem recvReq_wellFormed : WellFormed recvReq where
  service := by decide
  length := by
    rw [recvReq_header]
    simp [recvReq, CM_MAX_CM_LENGTH]

/-- Two of them, which are read in pieces of at most `n` octets behind the command type. -/
def twoRequests (n : Nat) : Unixd where
  octets := [recvReq, recvReq].flatten
  piece := fun p => if p % 8 = 0 then 2 else n + 1
  waits := by
    intro p
    split <;> omega
  stack := fun _ => 0

theorem DispatchesAll.of_pieces : (twoRequests 5).DispatchesAll [recvReq, recvReq] := by
  have formed : ∀ c ∈ [recvReq, recvReq], WellFormed c := by
    simp [recvReq_wellFormed]
  apply (DispatchesAll.separated_iff formed rfl).mpr
  simp only [Separated, EndsWith, recvReq_header, read_length]
  decide

/-- The second request is there when the rest of the first one is read, and goes with it. -/
theorem DispatchesAll.not_pipelined : ¬ (twoRequests 99).DispatchesAll [recvReq, recvReq] := by
  have formed : ∀ c ∈ [recvReq, recvReq], WellFormed c := by
    simp [recvReq_wellFormed]
  intro all
  have separated := (dispatched_iff (p := 0) formed rfl).mp all
  simp only [Separated, EndsWith, recvReq_header, read_length] at separated
  exact absurd separated.1.2 (by decide)

end Unixd

end Tahi.Koi
