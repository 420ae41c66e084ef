import Tahi.Koi.KMakeData

/-! # Commands and their answers

`PKTSendCMD` writes a command to the socket of the server and puts its answer together from what
the reads return. Each read takes what there is, also of the answer behind the one that is awaited,
and of the reads behind the first one only three can complete an answer.
-/

namespace Tahi.Koi.KCommon

/-! ## The socket -/

/-- What happens in a call of `sysread`. -/
inductive Read where
  | interrupted
  | failed
  /-- At most `more + 1` octets are returned. -/
  | count (more : ℕ)
deriving DecidableEq, Repr

/-- The octets that have not been read, what happens when they are, which is nothing when `reads`
    has come to its end, and whether the peer has closed the socket behind them. -/
structure UnixSocket where
  stream : List UInt8
  reads : List Read
  closed : Bool
deriving DecidableEq, Repr

/-- `sysread` of `size` octets at most. `none` stands for a read that waits. -/
def sysread (size : ℕ) (s : UnixSocket) : Option (List UInt8 × UnixSocket) :=
  if s.stream = [] then if s.closed then some ([], s) else none
  else some (s.stream.take size, { s with stream := s.stream.drop size })

/-- `none` stands for a read that waits, and `undef` is a `none` inside it. -/
def kReadUnixDomain (stream : List UInt8) (closed : Bool) :
    List Read → Option (Option (List UInt8) × UnixSocket)
  | .interrupted :: reads => kReadUnixDomain stream closed reads
  | .failed :: reads => some (none, ⟨stream, reads, closed⟩)
  | .count more :: reads =>
      (sysread (min (more + 1) 0xffff) ⟨stream, reads, closed⟩).map fun r => (some r.1, r.2)
  | [] => (sysread 0xffff ⟨stream, [], closed⟩).map fun r => (some r.1, r.2)

def UnixSocket.read (s : UnixSocket) : Option (Option (List UInt8) × UnixSocket) :=
  kReadUnixDomain s.stream s.closed s.reads

/-! ## The command -/

/-- The error that is registered before `undef` is returned. -/
inductive Failure where
  /-- `kWriteUnixDomain: $!` -/
  | write
  /-- `kReadUnixDomain: failure` -/
  | read
  /-- `data size from socket I/O is too short.` -/
  | tooShort
  /-- `kMakeData: failure` -/
  | makeData
deriving DecidableEq, Repr

/-- What is returned when `kMakeData` has returned. -/
def made : Option Hash → Except Failure Hash
  | none => .error .makeData
  | some result => .ok result

/-- The loop from `$d = 3 - e` on. -/
def complete (cmd : Command) (e : ℕ) (recv_msg : List UInt8) (s : UnixSocket) :
    Option (Except Failure (List UInt8) × UnixSocket) :=
  if kCheckDataLength cmd recv_msg then some (.ok recv_msg, s)
  else
    match s.read with
    | none => none
    | some (none, s) => some (.error .read, s)
    | some (some buf, s) =>
        let recv_msg := recv_msg ++ buf
        match e with
        -- `$d > 2`, whether or not the answer is complete now
        | 0 => some (.error .tooShort, s)
        | e + 1 => complete cmd e recv_msg s

/-- `written` is what the write of the command returns. The log that follows, and the commands that
    are sent for it, are not part of this. -/
def PKTSendCMD (cmd : Command) (written : Option ℕ) (s : UnixSocket) :
    Option (Except Failure Hash × UnixSocket) :=
  match written with
  | none => some (.error .write, s)
  | some _ =>
      match s.read with
      | none => none
      | some (none, s) => some (.error .read, s)
      | some (some recv_msg, s) =>
          match complete cmd 3 recv_msg s with
          | none => none
          | some (.error failure, s) => some (.error failure, s)
          | some (.ok recv_msg, s) => some (made (kMakeData cmd recv_msg), s)

/-! ## What it is for -/

/-- Reads of which none fails. `none` is an interrupted one. -/
def Read.ofPiece : Option ℕ → Read
  | none => .interrupted
  | some more => .count more

/-- The size of the next piece, where there are octets enough, and what is left of the reads. -/
def nextPiece : List (Option ℕ) → ℕ × List (Option ℕ)
  | none :: pieces => nextPiece pieces
  | some more :: pieces => (min (more + 1) 0xffff, pieces)
  | [] => (0xffff, [])

/-- The size of `n` pieces, one after the other. -/
def sizeOfPieces : ℕ → List (Option ℕ) → ℕ
  | 0, _ => 0
  | n + 1, pieces => (nextPiece pieces).1 + sizeOfPieces n (nextPiece pieces).2

/-- The hash that is returned is that of the ack, and what follows the ack has not been read. -/
def Meant (cmd : Command) (ack : Ack cmd) (following : List UInt8)
    (outcome : Option (Except Failure Hash × UnixSocket)) : Prop :=
  ∃ left, outcome = some (made (Ack.report cmd ack), left) ∧ left.stream = following

/-- With the socket closed in the middle of an ack, `undef` is returned. -/
def Undefined {α : Type} (outcome : Option (Except Failure α × UnixSocket)) : Prop :=
  ∃ failure left, outcome = some (.error failure, left)

/-! ## Reading -/

section Reads

variable {stream : List UInt8} {closed : Bool}

/-- A read of octets that are there returns the next piece of them. -/
theorem read_piece (pieces : List (Option ℕ)) (more : stream ≠ []) :
    UnixSocket.read ⟨stream, pieces.map Read.ofPiece, closed⟩ =
      some (some (stream.take (nextPiece pieces).1),
        ⟨stream.drop (nextPiece pieces).1, (nextPiece pieces).2.map Read.ofPiece, closed⟩) := by
  induction pieces with
  | nil => simp [UnixSocket.read, kReadUnixDomain, sysread, nextPiece, more]
  | cons piece pieces ih =>
      cases piece with
      | none => exact ih
      | some n => simp [UnixSocket.read, kReadUnixDomain, sysread, nextPiece, more, Read.ofPiece]

/-- At the end of the file a read returns no octets. -/
theorem read_endOfFile (pieces : List (Option ℕ)) :
    UnixSocket.read ⟨[], pieces.map Read.ofPiece, true⟩ =
      some (some [], ⟨[], (nextPiece pieces).2.map Read.ofPiece, true⟩) := by
  induction pieces with
  | nil => rfl
  | cons piece pieces ih =>
      cases piece with
      | none => exact ih
      | some n => rfl

/-- Nothing is lost between a read and the next one. -/
theorem read_append {s left : UnixSocket} {buf : List UInt8}
    (read : s.read = some (some buf, left)) : buf ++ left.stream = s.stream := by
  obtain ⟨stream, reads, closed⟩ := s
  have sysread_append {size : ℕ} {reads : List Read}
      (read : (sysread size ⟨stream, reads, closed⟩).map (fun r => (some r.1, r.2)) =
        some (some buf, left)) : buf ++ left.stream = stream := by
    unfold sysread at read
    by_cases over_ : stream = []
    · cases closed with
      | true =>
          rw [if_pos over_] at read
          cases read
          rfl
      | false =>
          rw [if_pos over_] at read
          cases read
    · rw [if_neg over_] at read
      cases read
      exact List.take_append_drop size stream
  induction reads with
  | nil => exact sysread_append read
  | cons o reads ih =>
      cases o with
      | interrupted => exact ih read
      | failed => cases read
      | count more => exact sysread_append read

end Reads

/-! ## Completing an answer -/

section Complete

variable {cmd : Command} {ack : Ack cmd} {following : List UInt8} {closed : Bool}

/-- What has come is complete when it is as long as the ack. -/
theorem check_take_iff (r : ℕ) :
    kCheckDataLength cmd ((Ack.octets cmd ack ++ following).take r) = true ↔
      (Ack.octets cmd ack).length ≤ r := by
  rw [kCheckDataLength_iff cmd ack (List.take_prefix r _), List.length_take, List.length_append]
  omega

/-- One more piece is read as long as it is shorter. -/
theorem complete_of_lt {e r : ℕ} (pieces : List (Option ℕ))
    (part : r < (Ack.octets cmd ack).length) :
    complete cmd e ((Ack.octets cmd ack ++ following).take r)
        ⟨(Ack.octets cmd ack ++ following).drop r, pieces.map Read.ofPiece, closed⟩ =
      let s := ⟨(Ack.octets cmd ack ++ following).drop (r + (nextPiece pieces).1),
        (nextPiece pieces).2.map Read.ofPiece, closed⟩
      match e with
      | 0 => some (.error .tooShort, s)
      | e + 1 => complete cmd e
          ((Ack.octets cmd ack ++ following).take (r + (nextPiece pieces).1)) s := by
  have more : (Ack.octets cmd ack ++ following).drop r ≠ [] := by
    rw [← List.length_pos_iff, List.length_drop, List.length_append]
    omega
  conv_lhs => unfold complete
  rw [if_neg (by rw [check_take_iff]; omega), read_piece pieces more]
  simp only [List.drop_drop, ← List.take_add]

/-- The octets that have come are those of the ack. -/
theorem take_eq_octets_iff (r : ℕ) :
    (Ack.octets cmd ack ++ following).take r = Ack.octets cmd ack ∧
        (Ack.octets cmd ack ++ following).drop r = following ↔
      min r (Ack.octets cmd ack ++ following).length = (Ack.octets cmd ack).length := by
  constructor
  · rintro ⟨whole, -⟩
    rw [← List.length_take, whole]
  · intro size
    rw [List.length_append] at size
    by_cases exact_ : r = (Ack.octets cmd ack).length
    · rw [exact_]
      exact ⟨List.take_left, List.drop_left⟩
    · have last : following = [] := by
        rw [← List.length_eq_zero_iff]
        omega
      rw [last, List.append_nil, List.take_of_length_le (by omega),
        List.drop_of_length_le (by omega)]
      exact ⟨rfl, rfl⟩

/-- The loop ends with the ack, and with what follows it unread. -/
def Completes (cmd : Command) (ack : Ack cmd) (following : List UInt8)
    (outcome : Option (Except Failure (List UInt8) × UnixSocket)) : Prop :=
  ∃ left, outcome = some (.ok (Ack.octets cmd ack), left) ∧ left.stream = following

theorem completes_of_le {e r : ℕ} (pieces : List (Option ℕ))
    (whole : (Ack.octets cmd ack).length ≤ r) :
    Completes cmd ack following (complete cmd e ((Ack.octets cmd ack ++ following).take r)
        ⟨(Ack.octets cmd ack ++ following).drop r, pieces.map Read.ofPiece, closed⟩) ↔
      min r (Ack.octets cmd ack ++ following).length = (Ack.octets cmd ack).length := by
  have run : complete cmd e ((Ack.octets cmd ack ++ following).take r)
      ⟨(Ack.octets cmd ack ++ following).drop r, pieces.map Read.ofPiece, closed⟩ =
      some (.ok ((Ack.octets cmd ack ++ following).take r),
        ⟨(Ack.octets cmd ack ++ following).drop r, pieces.map Read.ofPiece, closed⟩) := by
    unfold complete
    rw [if_pos ((check_take_iff r).mpr whole)]
  rw [run, ← take_eq_octets_iff]
  constructor
  · rintro ⟨left, same, unread⟩
    simp only [Option.some.injEq, Prod.mk.injEq, Except.ok.injEq] at same
    obtain ⟨taken, rfl⟩ := same
    exact ⟨taken, unread⟩
  · rintro ⟨taken, unread⟩
    exact ⟨_, by rw [taken], unread⟩

/-- By induction on the reads that may still come: with the first `r` octets read, some of the next
    pieces have to complete the ack. -/
theorem completes_iff (e r : ℕ) (pieces : List (Option ℕ)) :
    Completes cmd ack following (complete cmd e ((Ack.octets cmd ack ++ following).take r)
        ⟨(Ack.octets cmd ack ++ following).drop r, pieces.map Read.ofPiece, closed⟩) ↔
      ∃ k ≤ e, min (r + sizeOfPieces k pieces) (Ack.octets cmd ack ++ following).length =
        (Ack.octets cmd ack).length := by
  have total : (Ack.octets cmd ack ++ following).length =
      (Ack.octets cmd ack).length + following.length := List.length_append
  induction e generalizing r pieces with
  | zero =>
      simp only [Nat.le_zero, exists_eq_left, sizeOfPieces, Nat.add_zero]
      by_cases whole : (Ack.octets cmd ack).length ≤ r
      · exact completes_of_le pieces whole
      · rw [complete_of_lt pieces (by omega)]
        constructor
        · rintro ⟨left, same, -⟩
          cases same
        · omega
  | succ e ih =>
      by_cases whole : (Ack.octets cmd ack).length ≤ r
      · rw [completes_of_le pieces whole]
        constructor
        · intro here
          exact ⟨0, Nat.zero_le _, here⟩
        · rintro ⟨k, -, here⟩
          omega
      · rw [complete_of_lt pieces (by omega)]
        refine (ih _ _).trans ?_
        constructor
        · rintro ⟨k, le, here⟩
          refine ⟨k + 1, by omega, ?_⟩
          rwa [sizeOfPieces, ← Nat.add_assoc]
        · rintro ⟨k, le, here⟩
          cases k with
          | zero =>
              rw [sizeOfPieces] at here
              omega
          | succ k =>
              rw [sizeOfPieces, ← Nat.add_assoc] at here
              exact ⟨k, by omega, here⟩

end Complete

/-! ## The command as a whole -/

theorem made_ne_read (report : Option Hash) : made report ≠ .error .read := by
  intro same
  cases report <;> cases same

theorem made_ne_tooShort (report : Option Hash) : made report ≠ .error .tooShort := by
  intro same
  cases report <;> cases same

/-- The loop gives up for two reasons, and what it has of the stream is the front of it. -/
theorem complete_cases {cmd : Command} {e : ℕ} {recv_msg : List UInt8} {s left : UnixSocket}
    {outcome : Except Failure (List UInt8)}
    (run : complete cmd e recv_msg s = some (outcome, left)) :
    outcome = .error .read ∨ outcome = .error .tooShort ∨
      ∃ msg, outcome = .ok msg ∧ msg ++ left.stream = recv_msg ++ s.stream := by
  induction e generalizing recv_msg s with
  | zero =>
      unfold complete at run
      split at run
      · cases run
        exact .inr (.inr ⟨_, rfl, rfl⟩)
      · split at run
        · cases run
        · cases run
          exact .inl rfl
        · cases run
          exact .inr (.inl rfl)
  | succ e ih =>
      unfold complete at run
      split at run
      · cases run
        exact .inr (.inr ⟨_, rfl, rfl⟩)
      · split at run
        · cases run
        · cases run
          exact .inl rfl
        next buf after read =>
          refine (ih run).imp_right (Or.imp_right ?_)
          rintro ⟨msg, ok, front⟩
          refine ⟨msg, ok, ?_⟩
          rw [front, List.append_assoc, read_append read]

/-- With the write done, the command is the loop behind a first read. -/
theorem meant_iff {cmd : Command} {ack : Ack cmd} {following : List UInt8} {closed : Bool}
    (written : ℕ) (pieces : List (Option ℕ)) :
    Meant cmd ack following (PKTSendCMD cmd (some written)
        ⟨Ack.octets cmd ack ++ following, pieces.map Read.ofPiece, closed⟩) ↔
      Completes cmd ack following (complete cmd 3
        ((Ack.octets cmd ack ++ following).take (nextPiece pieces).1)
        ⟨(Ack.octets cmd ack ++ following).drop (nextPiece pieces).1,
          (nextPiece pieces).2.map Read.ofPiece, closed⟩) := by
  have more : Ack.octets cmd ack ++ following ≠ [] := by
    rw [← List.length_pos_iff, List.length_append]
    exact Nat.add_pos_left (Ack.octets_pos cmd ack) _
  rw [PKTSendCMD]
  simp only [read_piece pieces more]
  generalize run : complete cmd 3 _ _ = outcome
  cases outcome with
  | none => simp [Meant, Completes]
  | some outcome =>
      obtain ⟨outcome, left⟩ := outcome
      obtain rfl | rfl | ⟨msg, rfl, front⟩ := complete_cases run
      · refine iff_of_false ?_ (by simp [Completes])
        rintro ⟨left', same, -⟩
        exact made_ne_read _ (congrArg Prod.fst (Option.some.inj same)).symm
      · refine iff_of_false ?_ (by simp [Completes])
        rintro ⟨left', same, -⟩
        exact made_ne_tooShort _ (congrArg Prod.fst (Option.some.inj same)).symm
      · rw [List.take_append_drop] at front
        constructor
        · rintro ⟨left', same, unread⟩
          obtain rfl : left = left' := congrArg Prod.snd (Option.some.inj same)
          rw [unread] at front
          exact ⟨left, by rw [List.append_cancel_right front], unread⟩
        · rintro ⟨left', same, unread⟩
          obtain ⟨rfl, rfl⟩ : msg = Ack.octets cmd ack ∧ left = left' := by simpa using same
          exact ⟨left, by rw [← kMakeData_octets], unread⟩

/-- At a closed socket a read returns, be it no octets. -/
theorem read_closed (stream : List UInt8) (pieces : List (Option ℕ)) :
    ∃ buf rest, ∃ pieces' : List (Option ℕ), UnixSocket.read ⟨stream, pieces.map Read.ofPiece, true⟩ =
        some (some buf, ⟨rest, pieces'.map Read.ofPiece, true⟩) ∧ buf ++ rest = stream := by
  by_cases over_ : stream = []
  · subst over_
    exact ⟨[], [], _, read_endOfFile pieces, rfl⟩
  · exact ⟨_, _, _, read_piece pieces over_, List.take_append_drop _ _⟩

theorem not_check_part {cmd : Command} {ack : Ack cmd} {recv_msg stream : List UInt8}
    {r : Fin (Ack.octets cmd ack).length}
    (part : recv_msg ++ stream = (Ack.octets cmd ack).take r) :
    ¬ kCheckDataLength cmd recv_msg = true := by
  have begun : recv_msg <+: Ack.octets cmd ack ++ [] := by
    have front : recv_msg <+: (Ack.octets cmd ack).take r := ⟨stream, part⟩
    rw [List.append_nil]
    exact front.trans (List.take_prefix _ _)
  have size := congrArg List.length part
  rw [List.length_append, List.length_take] at size
  rw [kCheckDataLength_iff cmd ack begun]
  omega

/-- An ack of which the rest does not come is never complete, and the loop gives up. -/
theorem complete_closed {cmd : Command} {ack : Ack cmd} (e : ℕ) {recv_msg stream : List UInt8}
    (pieces : List (Option ℕ)) {r : Fin (Ack.octets cmd ack).length}
    (part : recv_msg ++ stream = (Ack.octets cmd ack).take r) :
    Undefined (complete cmd e recv_msg ⟨stream, pieces.map Read.ofPiece, true⟩) := by
  induction e generalizing recv_msg stream pieces with
  | zero =>
      obtain ⟨buf, rest, pieces', read, -⟩ := read_closed stream pieces
      unfold complete
      rw [if_neg (not_check_part part), read]
      exact ⟨_, _, rfl⟩
  | succ e ih =>
      obtain ⟨buf, rest, pieces', read, split_⟩ := read_closed stream pieces
      unfold complete
      rw [if_neg (not_check_part part), read]
      exact ih pieces' (by rw [List.append_assoc, split_, part])

/-- The hash of the ack is returned, and nothing behind the ack is read, just when the ack comes in
    at most four pieces, the last of which ends with it. With the socket closed in the middle of
    an ack, `undef` is returned in any case. -/
theorem PKTSendCMD_meant_iff (cmd : Command) (ack : Ack cmd) (written : ℕ)
    (pieces : List (Option ℕ)) :
    (∀ following closed, Meant cmd ack following (PKTSendCMD cmd (some written)
        ⟨Ack.octets cmd ack ++ following, pieces.map Read.ofPiece, closed⟩) ↔
      ∃ k ≤ 4, min (sizeOfPieces k pieces) (Ack.octets cmd ack ++ following).length =
        (Ack.octets cmd ack).length) ∧
      ∀ r : Fin (Ack.octets cmd ack).length, Undefined (PKTSendCMD cmd (some written)
        ⟨(Ack.octets cmd ack).take r, pieces.map Read.ofPiece, true⟩) := by
  constructor
  · intro following closed
    have some_ := Ack.octets_pos cmd ack
    rw [meant_iff, completes_iff]
    constructor
    · rintro ⟨k, le, here⟩
      exact ⟨k + 1, by omega, here⟩
    · rintro ⟨k, le, here⟩
      cases k with
      | zero =>
          rw [sizeOfPieces] at here
          omega
      | succ k => exact ⟨k, by omega, here⟩
  · intro r
    obtain ⟨buf, rest, pieces', read, part⟩ :=
      read_closed ((Ack.octets cmd ack).take r) pieces
    obtain ⟨failure, left, run⟩ := complete_closed 3 pieces' part
    rw [PKTSendCMD]
    simp only [read, run]
    exact ⟨failure, left, rfl⟩

def flushed : Ack .CLEARBUFFER := FlushAck.mk 0x8108 1 0

/-- An ack of six octets in five pieces is given up when it is complete, and one that comes
    together with the next one takes that along. -/
theorem not_PKTSendCMD_meant :
    ¬ Meant .CLEARBUFFER flushed [] (PKTSendCMD .CLEARBUFFER (some 12)
        ⟨Ack.octets .CLEARBUFFER flushed ++ [],
          [some 0, some 0, some 0, some 0, some 1].map Read.ofPiece, false⟩) ∧
      ¬ Meant .CLEARBUFFER flushed [0x81, 0x08, 0, 2, 0, 0] (PKTSendCMD .CLEARBUFFER (some 12)
        ⟨Ack.octets .CLEARBUFFER flushed ++ [0x81, 0x08, 0, 2, 0, 0], [].map Read.ofPiece,
          false⟩) := by
  have late : PKTSendCMD .CLEARBUFFER (some 12) ⟨Ack.octets .CLEARBUFFER flushed ++ [],
      [some 0, some 0, some 0, some 0, some 1].map Read.ofPiece, false⟩ =
        some (.error .tooShort, ⟨[], [], false⟩) := by
    decide +kernel
  have both : PKTSendCMD .CLEARBUFFER (some 12)
      ⟨Ack.octets .CLEARBUFFER flushed ++ [0x81, 0x08, 0, 2, 0, 0], [].map Read.ofPiece, false⟩ =
        some (.error .makeData, ⟨[], [], false⟩) := by
    decide +kernel
  constructor
  · rintro ⟨left, same, -⟩
    rw [late, Option.some.injEq, Prod.mk.injEq] at same
    exact made_ne_tooShort _ same.1.symm
  · rintro ⟨left, same, unread⟩
    rw [both, Option.some.injEq, Prod.mk.injEq] at same
    rw [← same.2] at unread
    cases unread

end Tahi.Koi.KCommon
