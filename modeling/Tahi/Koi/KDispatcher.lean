import Mathlib.Algebra.Order.Ring.Int
import Tahi.General.Framing
import Tahi.Koi.KBuffer

/-! # Messages from the octets of a TCP socket

What a socket receives is put behind its left data and parsed into messages. Each message
is registered, and the unfinished rest becomes the left data again.
-/

namespace Tahi.Koi

def MSG_MAXDATALEN : Nat := 64 * 1024

/-- What the parser returns. It has no `PA_ERROR`. -/
inductive Parsed where
  | PA_JUSTONE
  | PA_LEFTDATA
  | PA_NOMATCH
deriving DecidableEq, Repr

/-- `packet_gen_space`: what was copied to it, and zeros. What is read behind it is other
    variables. -/
structure Space where
  data : List UInt8
  stack : Nat → UInt8

def Space.byteAt (space : Space) (i : Nat) : UInt8 :=
  if i < MSG_MAXDATALEN then space.data.getD i 0 else space.stack i

/-- `none` is in front of the array. -/
def Space.read (space : Space) (position : Int) (len : Nat) : Option (List UInt8) :=
  if position < 0 then none
  else some ((List.range len).map fun i => space.byteAt (position.toNat + i))

/-- Of the low sixteen bits. -/
def ntohs (n : Nat) : Nat := n % 256 * 256 + n / 256 % 256

/-- An integer is loaded with its low octet first. -/
def load (octets : List UInt8) : Nat := octets.foldr (fun b n => b.toNat + 256 * n) 0

/-- The packet starts where the data does. -/
def kParserDNS (space : Space) (indatalen indata : Int) : Option (Parsed × Int16) :=
  match space.read indata 4 with
  | none => none
  | some octets =>
      let n_messagelen := load octets
      let h_messagelen := ntohs n_messagelen
      if (h_messagelen + 2 : Int) > indatalen then some (.PA_NOMATCH, 0)
      else
        let packet_size := Int16.ofInt (h_messagelen + 2)
        if (h_messagelen + 2 : Int) < indatalen then some (.PA_LEFTDATA, packet_size)
        else some (.PA_JUSTONE, packet_size)

/-- The left data, and the messages that were registered. -/
structure Dispatcher where
  buffer : Buffer := {}
  registered : List (Int16 × List UInt8) := []
deriving DecidableEq, Repr

namespace Dispatcher

/-- `kDataRegist` can not allocate a negative length, and its return value is not looked
    at. -/
def regist (d : Dispatcher) (space : Space) (socketid : Int16) (parse_size : Int16)
    (position : Int) : Option Dispatcher :=
  if parse_size < 0 then some d
  else
    (space.read position parse_size.toInt.toNat).map fun data =>
      { d with registered := d.registered ++ [(socketid, data)] }

/-- The loop of `process_si_type_tcp`. -/
def parse (mem : Malloc) (g_socket_socketid socketid : Int16) (space : Space) :
    Nat → Dispatcher → Int → Int → Option Dispatcher
  | 0, _, _, _ => none
  | fuel + 1, d, packet_gen_space_len, parse_current_position =>
      match kParserDNS space packet_gen_space_len parse_current_position with
      | none => none
      | some (.PA_JUSTONE, parse_size) =>
          d.regist space socketid parse_size parse_current_position
      | some (.PA_LEFTDATA, parse_size) =>
          match d.regist space socketid parse_size parse_current_position with
          | none => none
          | some d =>
              parse mem g_socket_socketid socketid space fuel d
                (packet_gen_space_len - parse_size.toInt)
                (parse_current_position + parse_size.toInt)
      | some (.PA_NOMATCH, _) =>
          if packet_gen_space_len = 0 then some d
          else if packet_gen_space_len < 0 then some d
          else
            match space.read parse_current_position packet_gen_space_len.toNat with
            | none => none
            | some left =>
                (d.buffer.kBufferSet mem g_socket_socketid socketid left).map fun (buffer, _) =>
                  { d with buffer := buffer }

/-- With what `recv` has returned. `none` is a store behind `packet_gen_space`, or an error
    of the left data. -/
def process_si_type_tcp (mem : Malloc) (stack : Nat → UInt8) (g_socket_socketid : Int16)
    (d : Dispatcher) (socketid : Int16) (recvbuf : List UInt8) : Option Dispatcher :=
  if recvbuf = [] then some d
  else
    match d.buffer.kBufferGet socketid with
    | none => none
    | some (buffer, left) =>
        if MSG_MAXDATALEN < left.length + recvbuf.length then none
        else
          let space := ⟨left ++ recvbuf, stack⟩
          parse mem g_socket_socketid socketid space (space.data.length + 1)
            { d with buffer := buffer } space.data.length 0

end Dispatcher

/-! ## The messages of a stream -/

/-- A message is two octets of length and the octets they count. -/
def dns : Framing UInt8 where
  size
    | b₀ :: b₁ :: _ => some (b₀.toNat * 256 + b₁.toNat + 2)
    | _ => none
  pos := by
    intro xs n known
    split at known
    · cases known
      omega
    · cases known
  stable := by
    intro xs n ys known
    split at known
    · cases known
      rfl
    · cases known

/-- What has been received from each socket, and what became of it. -/
structure Wire where
  left : LeftMap := {}
  registered : List (Int16 × List UInt8) := []
  received : Int16 → List UInt8 := fun _ => []

namespace Wire

def tail (w : Wire) (socketid : Int16) : List UInt8 := (w.left.data socketid).getD []

def step (g_socket_socketid : Int16) (w : Wire) (socketid : Int16) (chunk : List UInt8) : Wire :=
  if chunk = [] then w
  else
    let (messages, rest) := dns.frames (w.tail socketid ++ chunk)
    let left := (w.left.step (.get socketid)).1
    { left := if rest = [] then left else (left.step (.set g_socket_socketid socketid rest)).1
      registered := w.registered ++ messages.map fun m => (socketid, m)
      received := Function.update w.received socketid (w.received socketid ++ chunk) }

/-- The left data is not fetched from inside the list, it fits into `packet_gen_space` with
    the chunk, the messages have lengths that a `short` can hold, and what is left has room
    for the `memset`. -/
def Fine (mem : Malloc) (w : Wire) (socketid : Int16) (chunk : List UInt8) : Prop :=
  chunk = [] ∨
    ¬w.left.Inner socketid ∧ (w.tail socketid ++ chunk).length ≤ MSG_MAXDATALEN ∧
      (∀ m ∈ (dns.frames (w.tail socketid ++ chunk)).1, m.length < 2 ^ 15) ∧
      ((dns.frames (w.tail socketid ++ chunk)).2 = [] ∨
        mem.sizeof_long ≤ mem.room (dns.frames (w.tail socketid ++ chunk)).2.length)

instance (mem : Malloc) (w : Wire) (socketid : Int16) (chunk : List UInt8) :
    Decidable (w.Fine mem socketid chunk) := inferInstanceAs (Decidable (_ ∨ _))

end Wire

/-! ## The parser -/

namespace Space

variable {space : Space} {before rest : List UInt8}

theorem byteAt_eq (holds : space.data = before ++ rest) (room : space.data.length ≤ MSG_MAXDATALEN)
    {i : Nat} (inside : i < rest.length) : space.byteAt (before.length + i) = rest.getD i 0 := by
  rw [holds, List.length_append] at room
  rw [byteAt, if_pos (by omega), holds, List.getD_eq_getElem?_getD, List.getD_eq_getElem?_getD,
    List.getElem?_append_right (Nat.le_add_right _ _), Nat.add_sub_cancel_left]

theorem read_eq (holds : space.data = before ++ rest) (room : space.data.length ≤ MSG_MAXDATALEN)
    {len : Nat} (inside : len ≤ rest.length) :
    space.read before.length len = some (rest.take len) := by
  rw [read, if_neg (by omega), Option.some_inj, Int.toNat_natCast]
  refine List.ext_getElem (by simp [inside]) fun i first second => ?_
  rw [List.length_map, List.length_range] at first
  rw [List.getElem_map, List.getElem_range, byteAt_eq holds room (by omega), List.getElem_take]
  simp [List.getD_eq_getElem?_getD, show i < rest.length by omega]

end Space

theorem ntohs_load (b₀ b₁ b₂ b₃ : UInt8) :
    ntohs (load [b₀, b₁, b₂, b₃]) = b₀.toNat * 256 + b₁.toNat := by
  have lt₀ := b₀.toNat_lt
  have lt₁ := b₁.toNat_lt
  simp only [ntohs, load, List.foldr_cons, List.foldr_nil]
  omega

section Parser

variable {space : Space} {before rest m tail : List UInt8}

/-- The value of `h_messagelen`. When one octet is left, the second is not one of the
    data. -/
theorem kParserDNS_of (position : Nat) (indatalen : Int) :
    kParserDNS space indatalen position =
      let h_messagelen := (space.byteAt position).toNat * 256 + (space.byteAt (position + 1)).toNat
      if (h_messagelen + 2 : Int) > indatalen then some (.PA_NOMATCH, 0)
      else if (h_messagelen + 2 : Int) < indatalen then
        some (.PA_LEFTDATA, Int16.ofInt (h_messagelen + 2))
      else some (.PA_JUSTONE, Int16.ofInt (h_messagelen + 2)) := by
  have four : space.read position 4 = some [space.byteAt position, space.byteAt (position + 1),
      space.byteAt (position + 2), space.byteAt (position + 3)] := by
    rw [Space.read, if_neg (by omega)]
    rfl
  simp only [kParserDNS, four, ntohs_load]

theorem kParserDNS_none (holds : space.data = before ++ rest)
    (room : space.data.length ≤ MSG_MAXDATALEN) (some_ : rest ≠ []) (unfinished : dns.next rest = none) :
    kParserDNS space rest.length before.length = some (.PA_NOMATCH, 0) := by
  rw [kParserDNS_of]
  cases rest with
  | nil => exact absurd rfl some_
  | cons b₀ rest =>
      refine if_pos ?_
      cases rest with
      | nil =>
          simp only [List.length_cons, List.length_nil]
          omega
      | cons b₁ rest =>
          have first := Space.byteAt_eq holds room (i := 0) (by simp)
          have second := Space.byteAt_eq holds room (i := 1) (by simp)
          rw [Nat.add_zero] at first
          rw [first, second]
          simp only [List.getD_cons_zero, List.getD_cons_succ]
          simp only [Framing.next, dns] at unfinished
          split at unfinished
          · cases unfinished
          · omega

theorem kParserDNS_some (holds : space.data = before ++ rest)
    (room : space.data.length ≤ MSG_MAXDATALEN) (found : dns.next rest = some (m, tail)) :
    kParserDNS space rest.length before.length =
      some (if tail = [] then .PA_JUSTONE else .PA_LEFTDATA, Int16.ofInt m.length) := by
  match rest, found with
  | b₀ :: b₁ :: rest, found =>
      have first := Space.byteAt_eq holds room (i := 0) (by simp)
      have second := Space.byteAt_eq holds room (i := 1) (by simp)
      rw [Nat.add_zero] at first
      simp only [Framing.next, dns] at found
      split at found
      · rename_i whole
        cases found
        rw [kParserDNS_of, first, second]
        simp only [List.getD_cons_zero, List.getD_cons_succ, List.drop_eq_nil_iff, List.length_take,
          Nat.min_eq_left whole]
        rw [if_neg (by omega)]
        split
        · rw [if_neg (by omega)]
          rfl
        · rw [if_pos (by omega)]
          rfl
      · cases found

end Parser

/-! ## The loop -/

namespace Dispatcher

/-- The messages are registered. -/
@[grind =]
def push (d : Dispatcher) (socketid : Int16) (messages : List (List UInt8)) : Dispatcher :=
  { d with registered := d.registered ++ messages.map fun m => (socketid, m) }

/-- What is left becomes the left data. -/
def finish (mem : Malloc) (g_socket_socketid : Int16) (d : Dispatcher) (socketid : Int16)
    (rest : List UInt8) : Option Dispatcher :=
  if rest = [] then some d
  else
    (d.buffer.kBufferSet mem g_socket_socketid socketid rest).map fun (buffer, _) =>
      { d with buffer := buffer }

variable {mem : Malloc} {lim s : Int16} {space : Space}

theorem push_push (d : Dispatcher) (ms ms' : List (List UInt8)) :
    (d.push s ms).push s ms' = d.push s (ms ++ ms') := by
  simp [push]

theorem regist_eq {before rest m tail : List UInt8} (holds : space.data = before ++ rest)
    (room : space.data.length ≤ MSG_MAXDATALEN) (found : dns.next rest = some (m, tail))
    (short : m.length < 2 ^ 15) (d : Dispatcher) :
    d.regist space s (Int16.ofInt m.length) before.length = some (d.push s [m]) := by
  have number : (Int16.ofInt m.length).toInt = m.length := Int16.toInt_ofInt_of_le (by omega) (by omega)
  have positive : ¬Int16.ofInt m.length < 0 := by
    rw [Int16.lt_iff_toInt_lt, number]
    simp
  have whole : m ++ tail = rest := Framing.append_of_next found
  have inside : m.length ≤ rest.length := by
    rw [← whole, List.length_append]
    omega
  rw [regist, if_neg positive, number, Int.toNat_natCast, Space.read_eq holds room inside, ← whole,
    List.take_left]
  rfl

/-- Every turn of the loop registers one message. -/
theorem parse_eq (room : space.data.length ≤ MSG_MAXDATALEN) {fuel : Nat} {before rest : List UInt8}
    (holds : space.data = before ++ rest) (some_ : rest ≠ [])
    (short : ∀ m ∈ (dns.frames rest).1, m.length < 2 ^ 15) (enough : rest.length < fuel)
    (d : Dispatcher) :
    parse mem lim s space fuel d rest.length before.length =
      finish mem lim (d.push s (dns.frames rest).1) s (dns.frames rest).2 := by
  induction fuel generalizing before rest d with
  | zero => exact absurd enough (Nat.not_lt_zero _)
  | succ fuel ih =>
      cases found : dns.next rest with
      | none =>
          have length : rest.length ≠ 0 := fun zero => some_ (List.length_eq_zero_iff.mp zero)
          rw [parse, kParserDNS_none holds room some_ found, Framing.frames_none found]
          simp only
          rw [if_neg (by omega), if_neg (by omega), Int.toNat_natCast,
            Space.read_eq holds room (Nat.le_refl _), List.take_length, finish, if_neg some_]
          simp [push]
      | some r =>
          obtain ⟨m, tail⟩ := r
          rw [Framing.frames_some found] at short ⊢
          have shortest := short m (by simp)
          have whole : m ++ tail = rest := Framing.append_of_next found
          have length : rest.length = m.length + tail.length := by
            rw [← whole, List.length_append]
          have number : (Int16.ofInt m.length).toInt = m.length :=
            Int16.toInt_ofInt_of_le (by omega) (by omega)
          rw [parse, kParserDNS_some holds room found]
          by_cases last : tail = []
          · simp only [last, if_true, regist_eq holds room found shortest]
            rfl
          · simp only [last, if_false, regist_eq holds room found shortest, number]
            have rest_ : (rest.length - m.length : Int) = tail.length := by omega
            have position : (before.length + m.length : Int) = (before ++ m).length := by simp
            rw [rest_, position, ih (by rw [holds, ← whole, List.append_assoc]) last
              (fun m' mem => short m' (List.mem_cons_of_mem _ mem))
              (Nat.lt_of_lt_of_le (Framing.next_length found) (Nat.le_of_lt_succ enough)), push_push]
            rfl

/-! ## One chunk -/

theorem kBufferGet_of_step {b b' : Buffer} {data : List UInt8}
    (stepped : Buffer.step mem b (.get s) = some (b', .get data)) :
    b.kBufferGet s = some (b', data) := by
  cases got : b.kBufferGet s with
  | none => simp [Buffer.step, got] at stepped
  | some r =>
      obtain ⟨rfl, rfl⟩ := by simpa [Buffer.step, got] using stepped
      rfl

theorem kBufferSet_of_step {b b' : Buffer} {data : List UInt8} {r : Buffer.Reply}
    (stepped : Buffer.step mem b (.set lim s data) = some (b', r)) :
    ∃ ok, b.kBufferSet mem lim s data = some (b', ok) := by
  cases set : b.kBufferSet mem lim s data with
  | none => simp [Buffer.step, set] at stepped
  | some r' =>
      obtain ⟨rfl, -⟩ := by simpa [Buffer.step, set] using stepped
      exact ⟨r'.2, rfl⟩

/-- Sockets have ids from 1 to `g_socket_socketid`. -/
def IsOpen (g_socket_socketid socketid : Int16) : Prop :=
  0 < socketid ∧ socketid ≤ g_socket_socketid

instance (lim s : Int16) : Decidable (IsOpen lim s) := inferInstanceAs (Decidable (_ ∧ _))

/-- Each socket has one entry, so there is room for another. -/
theorem below {sockets : List Int16} (distinct : sockets.Nodup) (open_ : ∀ s ∈ sockets, IsOpen lim s)
    (inside : IsOpen lim s) (new : s ∉ sockets) : (sockets.length : Int) < lim.toInt := by
  have number {r : Int16} (open_ : IsOpen lim r) : 0 < r.toInt ∧ r.toInt ≤ lim.toInt :=
    ⟨Int16.lt_iff_toInt_lt.mp open_.1, Int16.le_iff_toInt_le.mp open_.2⟩
  have all : ∀ r ∈ s :: sockets, IsOpen lim r := by
    intro r mem
    rcases List.mem_cons.mp mem with rfl | mem
    · exact inside
    · exact open_ r mem
  have ids : ((s :: sockets).map fun r => r.toInt.toNat).Nodup := by
    refine List.Nodup.map_on (fun r mem r' mem' same => ?_) (List.nodup_cons.mpr ⟨new, distinct⟩)
    have first := number (all r mem)
    have second := number (all r' mem')
    exact Int16.toInt_inj.mp (by omega)
  have subset : ((s :: sockets).map fun r => r.toInt.toNat) ⊆ List.range' 1 lim.toInt.toNat := by
    intro n mem
    obtain ⟨r, here, rfl⟩ := List.mem_map.mp mem
    have bounds := number (all r here)
    rw [List.mem_range'_1]
    omega
  have count := (List.subperm_of_subset ids subset).length_le
  simp only [List.length_map, List.length_cons, List.length_range'] at count
  omega

/-- The left data is that of the map, and the messages are those of the streams. -/
structure Represents (g_socket_socketid : Int16) (d : Dispatcher) (w : Wire) : Prop where
  left : Buffer.Related d.buffer w.left
  registered : d.registered = w.registered
  open_ : ∀ s ∈ w.left.sockets, IsOpen g_socket_socketid s

theorem Represents.step {d : Dispatcher} {w : Wire} (rep : Represents lim d w) (inside : IsOpen lim s)
    {chunk : List UInt8} (fine : w.Fine mem s chunk) (stack : Nat → UInt8) :
    ∃ d', d.process_si_type_tcp mem stack lim s chunk = some d' ∧
      Represents lim d' (w.step lim s chunk) := by
  unfold process_si_type_tcp Wire.step
  by_cases closed : chunk = []
  · simp only [closed, if_true]
    exact ⟨d, rfl, rep⟩
  · obtain ⟨outer, room, short, kept⟩ := fine.resolve_left closed
    have simulates : Refinement.Simulates (Buffer.step mem) LeftMap.step
        (fun t op => t.Below op ∧ t.Fine mem op) Eq Buffer.Related := Buffer.simulates
    obtain ⟨buffer, r, stepped, rfl, related⟩ :=
      simulates d.buffer w.left (.get s) rep.left ⟨trivial, outer⟩
    have got : d.buffer.kBufferGet s = some (buffer, w.tail s) := kBufferGet_of_step stepped
    have some_ : w.tail s ++ chunk ≠ [] := by simp [closed]
    have parsed : parse mem lim s ⟨w.tail s ++ chunk, stack⟩ ((w.tail s ++ chunk).length + 1)
        { d with buffer := buffer } (w.tail s ++ chunk).length 0 =
          finish mem lim (push { d with buffer := buffer } s (dns.frames (w.tail s ++ chunk)).1) s
            (dns.frames (w.tail s ++ chunk)).2 :=
      parse_eq (show (Space.mk (w.tail s ++ chunk) stack).data.length ≤ _ from room)
        (show _ = [] ++ (w.tail s ++ chunk) from rfl) some_ short (Nat.lt_succ_self _) _
    rw [List.length_append] at room
    simp only [closed, if_false, got, Nat.not_lt.mpr room, parsed, finish]
    have open_ : ∀ r ∈ w.left.sockets.erase s, IsOpen lim r :=
      fun r mem => rep.open_ r (List.mem_of_mem_erase mem)
    by_cases whole : (dns.frames (w.tail s ++ chunk)).2 = []
    · simp only [whole, if_true]
      refine ⟨_, rfl, related, ?_, open_⟩
      simp [push, rep.registered]
    · have distinct : w.left.sockets.Nodup := by
        obtain ⟨cells, rep⟩ := rep.left
        exact rep.distinct
      have new : s ∉ w.left.sockets.erase s := distinct.not_mem_erase
      have under : (w.left.step (.get s)).1.Below (.set lim s (dns.frames (w.tail s ++ chunk)).2) :=
        below (distinct.erase s) open_ inside new
      have room : (w.left.step (.get s)).1.Fine mem (.set lim s (dns.frames (w.tail s ++ chunk)).2) :=
        .inr (kept.resolve_left whole)
      obtain ⟨buffer', r, stepped', -, related'⟩ := simulates buffer _ _ related ⟨under, room⟩
      obtain ⟨ok, set⟩ := kBufferSet_of_step stepped'
      simp only [whole, if_false, push, set, Option.map_some]
      refine ⟨_, rfl, related', ?_, ?_⟩
      · simp [rep.registered]
      · intro r mem
        simp only [LeftMap.step, Function.update_self] at mem
        rcases List.mem_append.mp mem with old | here
        · exact open_ r old
        · rw [List.mem_singleton.mp here]
          exact inside

end Dispatcher

/-! ## Every way the streams are cut and interleaved -/

namespace Wire

variable {w : Wire} {lim s : Int16} {chunk : List UInt8}

/-- What has been received is what has been registered and the left data. -/
def Sound (w : Wire) : Prop :=
  ∀ s, dns.frames (w.received s) = (((w.registered.filter fun r => r.1 == s).map Prod.snd), w.tail s)

theorem tail_step (some_ : chunk ≠ []) :
    (w.step lim s chunk).tail s = (dns.frames (w.tail s ++ chunk)).2 := by
  show ((w.step lim s chunk).left.data s).getD [] = _
  rw [Wire.step, if_neg some_]
  generalize dns.frames (w.tail s ++ chunk) = r
  by_cases whole : r.2 = []
  · simp [LeftMap.step, whole]
  · simp [LeftMap.step, whole]

theorem tail_step_of_ne {r : Int16} (other : r ≠ s) : (w.step lim s chunk).tail r = w.tail r := by
  show ((w.step lim s chunk).left.data r).getD [] = (w.left.data r).getD []
  rw [Wire.step]
  generalize dns.frames (w.tail s ++ chunk) = fs
  by_cases closed : chunk = []
  · simp [closed]
  · by_cases whole : fs.2 = []
    · simp [LeftMap.step, closed, whole, other]
    · simp [LeftMap.step, closed, whole, other]

theorem Sound.step (sound : w.Sound) (lim s : Int16) (chunk : List UInt8) :
    (w.step lim s chunk).Sound := by
  intro r
  by_cases closed : chunk = []
  · simp only [Wire.step, closed, if_true]
    exact sound r
  · by_cases here : r = s
    · subst here
      rw [tail_step closed]
      simp only [Wire.step, closed, if_false, Function.update_self]
      rw [Framing.frames_append, sound r]
      simp [List.filter_map, Function.comp_def]
    · rw [tail_step_of_ne here]
      have other : (s == r) = false := by simp [Ne.symm here]
      simp only [Wire.step, closed, if_false, Function.update_of_ne here]
      rw [sound r]
      simp [List.filter_map, Function.comp_def, other]

/-- The step of a run. -/
def accept (g_socket_socketid : Int16) (w : Wire) (c : Int16 × List UInt8) : Wire × Unit :=
  (w.step g_socket_socketid c.1 c.2, ())

/-- The octets that a socket has received. -/
@[grind =]
def streamOf (socketid : Int16) (chunks : List (Int16 × List UInt8)) : List UInt8 :=
  (chunks.filter fun c => c.1 == socketid).flatMap Prod.snd

theorem received_step (lim : Int16) (c : Int16 × List UInt8) (r : Int16) :
    (w.step lim c.1 c.2).received r = w.received r ++ streamOf r [c] := by
  by_cases closed : c.2 = []
  · by_cases here : c.1 = r <;> simp [Wire.step, streamOf, closed, here]
  · by_cases here : r = c.1
    · subst here
      simp [Wire.step, streamOf, closed]
    · simp [Wire.step, streamOf, closed, here, Ne.symm here]

theorem run_sound (sound : w.Sound) (lim : Int16) (chunks : List (Int16 × List UInt8)) :
    (Refinement.specRun (accept lim) w chunks).1.Sound ∧
      ∀ s, (Refinement.specRun (accept lim) w chunks).1.received s =
        w.received s ++ streamOf s chunks := by
  induction chunks generalizing w with
  | nil => exact ⟨sound, fun s => by simp [Refinement.specRun, streamOf]⟩
  | cons c chunks ih =>
      obtain ⟨sound', received⟩ := ih (sound.step lim c.1 c.2)
      refine ⟨sound', fun s => ?_⟩
      have first : streamOf s (c :: chunks) = streamOf s [c] ++ streamOf s chunks := by
        by_cases here : c.1 = s <;> simp [streamOf, here]
      rw [first, ← List.append_assoc, ← received_step lim]
      exact received s

end Wire

namespace Dispatcher

/-- A chunk arrives at a socket. -/
def step (mem : Malloc) (stack : Nat → UInt8) (g_socket_socketid : Int16) (d : Dispatcher)
    (c : Int16 × List UInt8) : Option (Dispatcher × Unit) :=
  (d.process_si_type_tcp mem stack g_socket_socketid c.1 c.2).map fun d => (d, ())

/-- The messages that were registered for a socket. -/
def messagesOf (d : Dispatcher) (socketid : Int16) : List (List UInt8) :=
  (d.registered.filter fun r => r.1 == socketid).map Prod.snd

theorem simulates (mem : Malloc) (stack : Nat → UInt8) (lim : Int16) :
    Refinement.Simulates (step mem stack lim) (Wire.accept lim)
      (fun w c => IsOpen lim c.1 ∧ w.Fine mem c.1 c.2) Eq (Represents lim) := by
  rintro d w c rep ⟨inside, fine⟩
  obtain ⟨d', processed, rep'⟩ := rep.step inside fine stack
  exact ⟨d', (), by simp only [step, processed, Option.map_some], rfl, rep'⟩

theorem Represents.kBufferGet {d : Dispatcher} {w : Wire} {lim : Int16} (rep : Represents lim d w)
    (s : Int16) : ∃ b, d.buffer.kBufferGet s = some (b, w.tail s) := by
  obtain ⟨cells, rep⟩ := rep.left
  by_cases old : s ∈ w.left.sockets
  · obtain ⟨before, a, data, after, rfl, stored, front, -⟩ := rep.split old
    obtain ⟨b, got, -⟩ := rep.kBufferGet_old front
    exact ⟨b, by rw [got, Wire.tail, stored, Option.getD_some]⟩
  · exact ⟨d.buffer, by rw [rep.kBufferGet_new old, Wire.tail, rep.data_of_not_mem old,
      Option.getD_none]⟩

/-- However the streams of the sockets were cut and interleaved, each socket's messages are
    registered, whole and in order, and its left data is what is unfinished. -/
def Registers (mem : Malloc) (stack : Nat → UInt8) (lim : Int16)
    (chunks : List (Int16 × List UInt8)) : Prop :=
  ∃ d rs, Refinement.run (step mem stack lim) {} chunks = some (d, rs) ∧
    ∀ s messages unfinished, (∀ m ∈ messages, dns.IsFrame m) → dns.next unfinished = none →
      Wire.streamOf s chunks = messages.flatten ++ unfinished →
      d.messagesOf s = messages ∧ ∃ b, d.buffer.kBufferGet s = some (b, unfinished)

theorem registers_messages (mem : Malloc) (stack : Nat → UInt8) (lim : Int16)
    {chunks : List (Int16 × List UInt8)} (sockets : ∀ c ∈ chunks, IsOpen lim c.1)
    (fine : Refinement.Allowed (Wire.accept lim) (fun w c => w.Fine mem c.1 c.2) {} chunks) :
    Registers mem stack lim chunks := by
  have start : Represents lim {} {} := ⟨⟨[], .empty⟩, rfl, by simp⟩
  have sound : Wire.Sound {} := fun s => rfl
  obtain ⟨d, ran, rep⟩ := (simulates mem stack lim).run_eq start
    ((Refinement.allowed_of_mem sockets _).and fine)
  obtain ⟨sound', received⟩ := Wire.run_sound sound lim chunks
  refine ⟨d, _, ran, fun s messages unfinished frames end_ stream => ?_⟩
  have split := sound' s
  rw [received, stream, List.nil_append, Framing.frames_flatten frames end_, Prod.mk.injEq] at split
  obtain ⟨b, got⟩ := rep.kBufferGet s
  refine ⟨?_, b, by rw [got, split.2]⟩
  rw [messagesOf, rep.registered, split.1]

/-- The lengths of the messages arrive in parts. -/
theorem registers_parts : Registers ⟨fun n => max n 16, 8⟩ (fun _ => 0) 9
    [(1, [0]), (2, [0, 2, 5]), (1, [1, 7, 0]), (2, [6]), (1, [0, 0])] :=
  registers_messages _ _ _ (by decide) (by decide)

/-- A message that arrives in one chunk is not registered when a `short` can not hold its
    length. -/
theorem process_long {m : List UInt8} (frame : dns.IsFrame m) (some_ : m ≠ [])
    (room : m.length ≤ MSG_MAXDATALEN) (long : Int16.ofInt m.length < 0) (mem : Malloc)
    (stack : Nat → UInt8) (lim s : Int16) :
    ({} : Dispatcher).process_si_type_tcp mem stack lim s m = some {} := by
  have found : dns.next m = some (m, []) := by
    simpa using Framing.next_of_isFrame frame []
  have parsed := kParserDNS_some (show (Space.mk m stack).data = [] ++ m from rfl) room found
  rw [if_pos rfl, List.length_nil] at parsed
  have got : ({} : Dispatcher).buffer.kBufferGet s = some ({}, []) := rfl
  have fits : ¬MSG_MAXDATALEN < ([] : List UInt8).length + m.length := by
    rw [List.length_nil]
    omega
  rw [process_si_type_tcp, if_neg some_, got]
  show (if MSG_MAXDATALEN < ([] : List UInt8).length + m.length then none
    else parse mem lim s ⟨m, stack⟩ (m.length + 1) {} m.length (0 : Nat)) = _
  rw [if_neg fits, parse, parsed]
  exact if_pos long

/-- The left data of socket 3 is dropped when that of socket 4 is set, and a message of 32768
    octets is not registered. -/
theorem not_registers :
    ¬Registers ⟨fun n => max n 16, 8⟩ (fun _ => 0) 9
        [(1, [0]), (2, [0]), (3, [0]), (2, [1, 7]), (4, [0]), (3, [1, 9])] ∧
      ¬Registers ⟨fun n => max n 16, 8⟩ (fun _ => 0) 9
        [(1, 0x7f :: 0xfe :: List.replicate 32766 0)] := by
  constructor
  · rintro ⟨d, rs, ran, all⟩
    have frames : ∀ m ∈ [[0, 1, 9]], dns.IsFrame m := by
      intro m mem
      rw [List.mem_singleton.mp mem]
      rfl
    have last := (all 3 [[0, 1, 9]] [] frames rfl rfl).1
    have registered : (Refinement.run (step ⟨fun n => max n 16, 8⟩ (fun _ => 0) 9) {}
        [(1, [0]), (2, [0]), (3, [0]), (2, [1, 7]), (4, [0]), (3, [1, 9])]).map
          (fun r => r.1.registered) = some [(2, [0, 1, 7])] := by
      decide +kernel
    rw [ran, Option.map_some, Option.some_inj] at registered
    change d.registered = _ at registered
    simp [messagesOf, registered] at last
  · rintro ⟨d, rs, ran, all⟩
    generalize long : 0x7f :: 0xfe :: List.replicate 32766 (0 : UInt8) = m at ran all
    have length : m.length = 32768 := by
      rw [← long, List.length_cons, List.length_cons, List.length_replicate]
    have frame : dns.IsFrame m := by
      rw [Framing.IsFrame, length, ← long]
      rfl
    have some_ : m ≠ [] := by
      rw [← long]
      exact List.cons_ne_nil _ _
    have processed := process_long frame some_ (by rw [length]; decide) (by rw [length]; decide)
      ⟨fun n => max n 16, 8⟩ (fun _ => 0) 9 1
    have last := (all 1 [m] [] (by simpa using frame) rfl (by simp [Wire.streamOf])).1
    simp only [Refinement.run, step, processed, Option.map_some, Option.some_inj,
      Prod.mk.injEq] at ran
    rw [← ran.1] at last
    cases last

end Dispatcher

end Tahi.Koi
