import Tahi.Koi.KDispatcher

/-! # The commands on the UNIX socket

The client writes its commands one behind the other. `read_unixd_data` is to take one of
them off the stream, from which each `read` gets what has arrived by then.
-/

namespace Tahi.Koi

/-- Of 32 bits. -/
def ntohl (n : Nat) : Nat :=
  n % 256 * 16777216 + n / 256 % 256 * 65536 + n / 65536 % 256 * 256 + n / 16777216 % 256

def CM_CM_SIG_CONNEC_REQ : Nat := 0x0101
def CM_CM_SIG_SEND_REQ : Nat := 0x0102
def CM_CM_SIG_RECV_REQ : Nat := 0x0103
def CM_CM_SIG_CLOSE_REQ : Nat := 0x0104
def CM_CM_SIG_WAIT_REQ : Nat := 0x0105
def CM_CM_SIG_SOCKINFO_REQ : Nat := 0x0106
def CM_CM_SIG_DATAINFO_REQ : Nat := 0x0107
def CM_CM_SIG_FLUSH_REQ : Nat := 0x0108
def CM_CM_SIG_TLS_SETUP_REQ : Nat := 0x0109
def CM_CM_SIG_TLS_CLEAR_REQ : Nat := 0x010A
def CM_CM_SIG_PARSER_ATTACH_REQ : Nat := 0x010B

/-- The `switch` of `process_si_type_unixd_data`. -/
def serviceCommands : List Nat :=
  [CM_CM_SIG_CONNEC_REQ, CM_CM_SIG_SEND_REQ, CM_CM_SIG_RECV_REQ, CM_CM_SIG_CLOSE_REQ,
    CM_CM_SIG_WAIT_REQ, CM_CM_SIG_SOCKINFO_REQ, CM_CM_SIG_DATAINFO_REQ, CM_CM_SIG_FLUSH_REQ,
    CM_CM_SIG_TLS_SETUP_REQ, CM_CM_SIG_TLS_CLEAR_REQ, CM_CM_SIG_PARSER_ATTACH_REQ]

def CM_MAX_CM_LENGTH : Nat := MSG_MAXDATALEN + 4 * 16

/-- What is written to the socket, and what a `read` finds of it. -/
structure Unixd where
  octets : List UInt8
  /-- How many octets from a position on have arrived when it is read from. -/
  piece : Nat → Nat
  /-- A `read` waits for the first of them. -/
  waits : ∀ p, 0 < piece p
  /-- What `databuf` has behind a single octet that was read at a position. -/
  stack : Nat → UInt8

def command (data : List UInt8) : Nat := ntohs (load (data.take 2))

/-- `sizeof` of the request without its data, for the commands that have data. The last four
    octets of it are `datalen`. -/
def header (command : Nat) : Option Nat :=
  if command = CM_CM_SIG_CONNEC_REQ then some 52
  else if command = CM_CM_SIG_SEND_REQ then some 12
  else none

namespace Unixd

variable (s : Unixd)

def read (p n : Nat) : List UInt8 := (s.octets.drop p).take (min n (s.piece p))

theorem read_length (p n : Nat) :
    (s.read p n).length = min n (min (s.piece p) (s.octets.length - p)) := by
  rw [read, List.length_take, List.length_drop, Nat.min_assoc]

/-- The loop for the data of a command. -/
def readPacket (p size pktlen : Nat) (buff : List UInt8) : List UInt8 :=
  if buff.length < (size + pktlen) % 2 ^ 32 then
    let data := s.read (p + buff.length) (size + MSG_MAXDATALEN - buff.length)
    if data.length = 0 then buff else readPacket p size pktlen (buff ++ data)
  else buff
termination_by size + MSG_MAXDATALEN - buff.length
decreasing_by
  rename_i _ some_
  have bound := s.read_length (p + buff.length) (size + MSG_MAXDATALEN - buff.length)
  simp only [data] at some_
  rw [List.length_append]
  omega

/-- The octets that a call takes from position `p` on. -/
def read_unixd_data (p : Nat) : List UInt8 :=
  let buff := s.read p 2
  if buff.length < 2 then buff
  else
    match header (command buff) with
    | some size =>
        let buff := buff ++ s.read (p + 2) (size - 2)
        if buff.length < size then buff
        else s.readPacket p size (ntohl (load ((buff.drop (size - 4)).take 4))) buff
    | none => buff ++ s.read (p + 2) (CM_MAX_CM_LENGTH - 2)

/-- What is given to the function for its command, if there is one. -/
def process_si_type_unixd_data (p : Nat) : Option (List UInt8) :=
  let databuf := s.read_unixd_data p
  if command (databuf ++ [s.stack p]) ∈ serviceCommands then some databuf else none

theorem readPacket_eq (p size pktlen : Nat) (buff : List UInt8) :
    ∃ data, s.readPacket p size pktlen buff = buff ++ data := by
  fun_induction readPacket s p size pktlen buff with
  | case1 => exact ⟨[], (List.append_nil _).symm⟩
  | case2 buff _ data _ ih =>
      obtain ⟨rest, ih⟩ := ih
      exact ⟨data ++ rest, by rw [ih, List.append_assoc]⟩
  | case3 => exact ⟨[], (List.append_nil _).symm⟩

/-- Every call takes something, as long as there is something. -/
theorem read_unixd_data_pos {p : Nat} (more : p < s.octets.length) :
    0 < (s.read_unixd_data p).length := by
  have first := s.read_length p 2
  have waits := s.waits p
  have positive : 0 < (s.read p 2).length := by omega
  unfold read_unixd_data
  extract_lets buff
  split
  · exact positive
  · split
    · extract_lets buff'
      have positive' : 0 < buff'.length := by
        rw [List.length_append]
        omega
      split
      · exact positive'
      · obtain ⟨data, eq⟩ := s.readPacket_eq p _
          (ntohl (load ((buff'.drop (_ - 4)).take 4))) buff'
        rw [eq, List.length_append]
        omega
    · rw [List.length_append]
      omega

/-- The commands that are dispatched while there is something to read. -/
def dispatched (p : Nat) : List (List UInt8) :=
  if p < s.octets.length then
    (s.process_si_type_unixd_data p).toList ++ dispatched (p + (s.read_unixd_data p).length)
  else []
termination_by s.octets.length - p
decreasing_by
  rename_i more
  have positive := s.read_unixd_data_pos more
  omega

end Unixd

end Tahi.Koi
