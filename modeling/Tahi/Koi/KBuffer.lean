import Mathlib.Algebra.Order.Ring.Int
import Tahi.General.LinkedList
import Tahi.General.Refinement

/-! # The left data of the sockets

What a socket has received behind its last whole message is kept in a list, at most one
entry for a socket, until it is fetched. The list has a pointer to its last entry, which
is moved to the entry in front of any that is fetched.
-/

namespace Tahi.Koi

open LinkedList

structure LeftData where
  ld_socketid : Int16
  ld_data : List UInt8
deriving DecidableEq, Repr

/-- How many octets a block that was asked for has, and `sizeof(long)`. -/
structure Malloc where
  room : Nat → Nat
  sizeof_long : Nat

/-- The static variables of the table. -/
structure Buffer where
  heap : Heap LeftData := []
  g_ld_datanum : Int16 := 0
  g_ld_start_ptr : Option Nat := none
  g_ld_last_ptr : Option Nat := none
deriving DecidableEq, Repr

namespace Buffer

/-- `none` is an access to a freed entry, or a `memset` of `sizeof(datalen)` octets beyond
    the block for the data. -/
def kBufferSet (mem : Malloc) (b : Buffer) (g_socket_socketid socketid : Int16)
    (data : List UInt8) : Option (Buffer × Bool) :=
  if b.g_ld_datanum = g_socket_socketid then some (b, false)
  else
    let exist :=
      match b.g_ld_start_ptr with
      | none => some none
      | some start => b.heap.find (fun d => d.ld_socketid == socketid) start
    match exist with
    | none => none
    | some (some _) => some (b, false)
    | some none =>
        if mem.room data.length < mem.sizeof_long then none
        else
          (b.heap.append b.g_ld_start_ptr b.g_ld_last_ptr ⟨socketid, data⟩).map
            fun (heap, start, last) => (⟨heap, b.g_ld_datanum + 1, start, last⟩, true)

/-- What is written to `*datalen` and `data`. -/
def kBufferGet (b : Buffer) (socketid : Int16) : Option (Buffer × List UInt8) :=
  match b.g_ld_start_ptr with
  | none => some (b, [])
  | some start =>
      if b.g_ld_datanum = 0 then some (b, [])
      else
        match b.heap.find (fun d => d.ld_socketid == socketid) start with
        | none => none
        | some none => some (b, [])
        | some (some (previous_position, current_position, node)) =>
            match b.heap.unlink start previous_position node.next with
            | none => none
            | some (heap, start) =>
                (heap.free current_position).map fun heap =>
                  ({ heap := heap
                     g_ld_datanum := b.g_ld_datanum - 1
                     g_ld_start_ptr := start
                     g_ld_last_ptr :=
                       match previous_position with
                       | some previous => some previous
                       | none => b.g_ld_last_ptr }, node.data.ld_data)

inductive Op where
  | set (g_socket_socketid socketid : Int16) (data : List UInt8)
  | get (socketid : Int16)
deriving DecidableEq, Repr

inductive Reply where
  | set (ok : Bool)
  | get (data : List UInt8)
deriving DecidableEq, Repr

def step (mem : Malloc) (b : Buffer) : Op → Option (Buffer × Reply)
  | .set g_socket_socketid socketid data =>
      (b.kBufferSet mem g_socket_socketid socketid data).map fun (b, ok) => (b, .set ok)
  | .get socketid => (b.kBufferGet socketid).map fun (b, data) => (b, .get data)

end Buffer

/-! ## The map from sockets to octets -/

/-- The data of each socket, and the sockets that have some, in the order they got it. -/
structure LeftMap where
  sockets : List Int16 := []
  data : Int16 → Option (List UInt8) := fun _ => none

namespace LeftMap

open Buffer (Op Reply)

def step (t : LeftMap) : Op → LeftMap × Reply
  | .set _ socketid data =>
      match t.data socketid with
      | some _ => (t, .set false)
      | none =>
          (⟨t.sockets ++ [socketid], Function.update t.data socketid (some data)⟩, .set true)
  | .get socketid =>
      (⟨t.sockets.erase socketid, Function.update t.data socketid none⟩,
        .get ((t.data socketid).getD []))

/-- The table is not full yet. -/
def Below (t : LeftMap) : Op → Prop
  | .set g_socket_socketid _ _ => (t.sockets.length : Int) < g_socket_socketid.toInt
  | .get _ => True

instance (t : LeftMap) (op : Op) : Decidable (t.Below op) :=
  match op with
  | .set _ _ _ => inferInstanceAs (Decidable (_ < _))
  | .get _ => inferInstanceAs (Decidable True)

/-- There are entries in front of the socket's and behind it. -/
def Inner (t : LeftMap) (socketid : Int16) : Prop :=
  socketid ∈ t.sockets ∧ t.sockets.head? ≠ some socketid ∧ t.sockets.getLast? ≠ some socketid

instance (t : LeftMap) (socketid : Int16) : Decidable (t.Inner socketid) :=
  inferInstanceAs (Decidable (_ ∧ _ ∧ _))

/-- What is set has room for the `memset`, and what is fetched is not inside the list. -/
def Fine (mem : Malloc) (t : LeftMap) : Op → Prop
  | .set _ socketid data => socketid ∈ t.sockets ∨ mem.sizeof_long ≤ mem.room data.length
  | .get socketid => ¬t.Inner socketid

end LeftMap

namespace Buffer

/-- `g_ld_last_ptr` is the last entry of a list that has one. -/
def TailIsLast (b : Buffer) : Prop :=
  ∃ cells, Linked b.heap b.g_ld_start_ptr cells ∧
    (cells ≠ [] → b.g_ld_last_ptr = lastOf none cells)

/-- In every state of the run, the replies were those of the map and the pointers are
    right. -/
def IsMap (mem : Malloc) (ops : List Op) : Prop :=
  ∀ before, before <+: ops →
    ∃ b, Refinement.run (step mem) {} before =
        some (b, (Refinement.specRun LeftMap.step {} before).2) ∧ b.TailIsLast

/-! ## The entries of the list -/

structure Represents (b : Buffer) (t : LeftMap) (cells : List (Nat × LeftData)) : Prop where
  linked : Linked b.heap b.g_ld_start_ptr cells
  last : cells ≠ [] → b.g_ld_last_ptr = lastOf none cells
  datanum : b.g_ld_datanum = Int16.ofNat cells.length
  bounded : cells.length < 2 ^ 15
  sockets : t.sockets = cells.map fun c => c.2.ld_socketid
  distinct : t.sockets.Nodup
  data : ∀ s, t.data s = (cells.find? fun c => c.2.ld_socketid == s).map fun c => c.2.ld_data

namespace Represents

variable {mem : Malloc} {b : Buffer} {t : LeftMap} {cells before after : List (Nat × LeftData)}
variable {a : Nat} {s lim : Int16} {d data : List UInt8}

theorem empty : Represents {} {} [] where
  linked := ⟨rfl, List.nodup_nil⟩
  last none_ := absurd rfl none_
  datanum := rfl
  bounded := by decide
  sockets := rfl
  distinct := List.nodup_nil
  data _ := rfl

theorem tail (rep : Represents b t cells) : b.TailIsLast := ⟨cells, rep.linked, rep.last⟩

theorem data_of_not_mem (rep : Represents b t cells) (new : s ∉ t.sockets) : t.data s = none := by
  rw [rep.sockets] at new
  rw [rep.data, List.find?_eq_none.mpr]
  · rfl
  · intro c mem
    simp only [beq_iff_eq]
    rintro rfl
    exact new (List.mem_map_of_mem mem)

/-- The entries around that of a socket. -/
theorem split (rep : Represents b t cells) (mem : s ∈ t.sockets) :
    ∃ before a d after, cells = before ++ (a, ⟨s, d⟩) :: after ∧ t.data s = some d ∧
      (∀ c ∈ before, (c.2.ld_socketid == s) = false) ∧
      ∀ c ∈ after, (c.2.ld_socketid == s) = false := by
  have distinct := rep.distinct
  rw [rep.sockets] at mem distinct
  obtain ⟨⟨a, ⟨s, d⟩⟩, found, rfl⟩ := List.mem_map.mp mem
  obtain ⟨before, after, rfl⟩ := List.append_of_mem found
  rw [List.map_append, List.map_cons, List.nodup_middle, List.nodup_cons, List.mem_append,
    not_or] at distinct
  have front : ∀ c ∈ before, (c.2.ld_socketid == s) = false := by
    intro c mem
    rw [beq_eq_false_iff_ne]
    intro same
    exact distinct.1.1 (List.mem_map.mpr ⟨c, mem, same⟩)
  refine ⟨before, a, d, after, rfl, ?_, front, ?_⟩
  · rw [rep.data, List.find?_append, List.find?_eq_none.mpr fun c mem => by simp [front c mem]]
    simp
  · intro c mem
    rw [beq_eq_false_iff_ne]
    intro same
    exact distinct.1.2 (List.mem_map.mpr ⟨c, mem, same⟩)

theorem find_new (rep : Represents b t cells) (new : s ∉ t.sockets) {start : Nat}
    (started : b.g_ld_start_ptr = some start) :
    b.heap.find (fun d => d.ld_socketid == s) start = some none := by
  refine (started ▸ rep.linked).find_none fun c mem => ?_
  rw [beq_eq_false_iff_ne]
  rintro rfl
  rw [rep.sockets] at new
  exact new (List.mem_map_of_mem mem)

theorem start_some (rep : Represents b t (before ++ (a, ⟨s, d⟩) :: after)) :
    ∃ start, b.g_ld_start_ptr = some start := by
  rw [rep.linked.start_eq]
  cases before with
  | nil => exact ⟨a, rfl⟩
  | cons c before => exact ⟨c.1, rfl⟩

theorem find_old (rep : Represents b t (before ++ (a, ⟨s, d⟩) :: after))
    (front : ∀ c ∈ before, (c.2.ld_socketid == s) = false) {start : Nat}
    (started : b.g_ld_start_ptr = some start) :
    b.heap.find (fun d => d.ld_socketid == s) start =
      some (some (lastOf none before, a, ⟨⟨s, d⟩, first after none⟩)) :=
  (started ▸ rep.linked).find_some front (beq_self_eq_true s)

theorem ne_limit (rep : Represents b t cells) (below : (t.sockets.length : Int) < lim.toInt) :
    b.g_ld_datanum ≠ lim := by
  rintro rfl
  rw [rep.datanum, Int16.toInt_ofNat_of_lt rep.bounded, rep.sockets, List.length_map] at below
  exact absurd below (Int.lt_irrefl _)

theorem kBufferSet_old (rep : Represents b t cells) (old : s ∈ t.sockets)
    (below : (t.sockets.length : Int) < lim.toInt) :
    b.kBufferSet mem lim s data = some (b, false) := by
  obtain ⟨before, a, d, after, rfl, -, front, -⟩ := rep.split old
  obtain ⟨start, started⟩ := rep.start_some
  simp only [kBufferSet, rep.ne_limit below, if_false, started, rep.find_old front started]

/-- The part of `kBufferSet` behind its checks. -/
theorem kBufferSet_of_new (rep : Represents b t cells) (new : s ∉ t.sockets)
    (below : (t.sockets.length : Int) < lim.toInt) :
    b.kBufferSet mem lim s data =
      if mem.room data.length < mem.sizeof_long then none
      else
        (b.heap.append b.g_ld_start_ptr b.g_ld_last_ptr ⟨s, data⟩).map
          fun (heap, start, last) => (⟨heap, b.g_ld_datanum + 1, start, last⟩, true) := by
  rw [kBufferSet, if_neg (rep.ne_limit below)]
  cases started : b.g_ld_start_ptr with
  | none => rfl
  | some start => simp only [rep.find_new new started]

theorem kBufferSet_new (rep : Represents b t cells) (new : s ∉ t.sockets)
    (below : (t.sockets.length : Int) < lim.toInt)
    (room : mem.sizeof_long ≤ mem.room data.length) :
    ∃ b', b.kBufferSet mem lim s data = some (b', true) ∧
      Represents b' ⟨t.sockets ++ [s], Function.update t.data s (some data)⟩
        (cells ++ [(b.heap.length, ⟨s, data⟩)]) := by
  obtain ⟨heap, start, appended, linked⟩ := rep.linked.push rep.last ⟨s, data⟩
  have limit := Int16.toInt_lt lim
  rw [rep.sockets, List.length_map] at below
  refine ⟨⟨heap, b.g_ld_datanum + 1, start, some b.heap.length⟩, ?_, linked, fun _ => ?_, ?_, ?_,
    ?_, ?_, ?_⟩
  · rw [rep.kBufferSet_of_new new (by rwa [rep.sockets, List.length_map]), if_neg (by omega),
      appended]
    rfl
  · rw [lastOf_concat]
  · simp [rep.datanum]
  · simp only [List.length_append, List.length_singleton]
    omega
  · simp [rep.sockets]
  · rw [← List.concat_eq_append]
    exact rep.distinct.concat new
  · intro r
    rw [List.find?_append]
    cases same : (s == r) with
    | true =>
        cases eq_of_beq same
        have none_ := rep.data_of_not_mem new
        rw [rep.data, Option.map_eq_none_iff] at none_
        simp [none_]
    | false =>
        have other : r ≠ s := fun eq => by simp [eq] at same
        simp [Function.update_of_ne other, rep.data, same]

theorem datanum_ne_zero (rep : Represents b t cells) (some_ : cells ≠ []) :
    b.g_ld_datanum ≠ 0 := by
  intro zero
  have number := congrArg Int16.toInt (rep.datanum.symm.trans zero)
  rw [Int16.toInt_ofNat_of_lt rep.bounded] at number
  exact some_ (List.length_eq_zero_iff.mp (Int.natCast_eq_zero.mp number))

theorem kBufferGet_new (rep : Represents b t cells) (new : s ∉ t.sockets) :
    b.kBufferGet s = some (b, []) := by
  unfold kBufferGet
  cases started : b.g_ld_start_ptr with
  | none => rfl
  | some start =>
      simp only [rep.find_new new started]
      split <;> rfl

/-- What `kBufferGet` does to the pointers. -/
theorem kBufferGet_old (rep : Represents b t (before ++ (a, ⟨s, d⟩) :: after))
    (front : ∀ c ∈ before, (c.2.ld_socketid == s) = false) :
    ∃ b', b.kBufferGet s = some (b', d) ∧
      Linked b'.heap b'.g_ld_start_ptr (before ++ after) ∧
      b'.g_ld_datanum = b.g_ld_datanum - 1 ∧
      b'.g_ld_last_ptr = (lastOf none before).or b.g_ld_last_ptr := by
  obtain ⟨start, started⟩ := rep.start_some
  obtain ⟨h₁, start', h', unlinked, freed, linked, -⟩ := rep.linked.remove
  refine ⟨⟨h', b.g_ld_datanum - 1, start', (lastOf none before).or b.g_ld_last_ptr⟩, ?_, linked,
    rfl, rfl⟩
  rw [started] at unlinked
  unfold kBufferGet
  simp only [started, rep.datanum_ne_zero (by simp), if_false, rep.find_old front started,
    unlinked, freed, Option.map_some]
  cases lastOf none before <;> rfl

/-- The socket's entry is inside the list. -/
theorem inner_iff (rep : Represents b t (before ++ (a, ⟨s, d⟩) :: after))
    (front : ∀ c ∈ before, (c.2.ld_socketid == s) = false)
    (behind : ∀ c ∈ after, (c.2.ld_socketid == s) = false) :
    t.Inner s ↔ before ≠ [] ∧ after ≠ [] := by
  have last : (t.sockets.getLast? = some s) ↔ after = [] := by
    rw [rep.sockets, List.map_append, List.map_cons, List.getLast?_append, List.getLast?_cons,
      Option.some_or, Option.some_inj]
    rcases after.eq_nil_or_concat with rfl | ⟨after, e, rfl⟩
    · simp
    · have other := behind e (by simp)
      rw [beq_eq_false_iff_ne] at other
      simp [other]
  have first : (t.sockets.head? = some s) ↔ before = [] := by
    rw [rep.sockets]
    cases before with
    | nil => simp
    | cons c before =>
        have other := front c (by simp)
        rw [beq_eq_false_iff_ne] at other
        simp [other]
  rw [LeftMap.Inner, ne_eq, ne_eq, last, first, rep.sockets]
  simp

theorem erase (rep : Represents b t (before ++ (a, ⟨s, d⟩) :: after))
    (front : ∀ c ∈ before, (c.2.ld_socketid == s) = false) :
    t.sockets.erase s = (before ++ after).map fun c => c.2.ld_socketid := by
  have absent : s ∉ before.map fun c => c.2.ld_socketid := by
    intro mem
    obtain ⟨c, mem, same⟩ := List.mem_map.mp mem
    exact absurd same (beq_eq_false_iff_ne.mp (front c mem))
  rw [rep.sockets, List.map_append, List.map_cons, List.erase_append_right _ absent,
    List.erase_cons_head, List.map_append]

theorem get (rep : Represents b t (before ++ (a, ⟨s, d⟩) :: after))
    (front : ∀ c ∈ before, (c.2.ld_socketid == s) = false)
    (behind : ∀ c ∈ after, (c.2.ld_socketid == s) = false) (outer : ¬t.Inner s) :
    ∃ b', b.kBufferGet s = some (b', d) ∧
      Represents b' ⟨t.sockets.erase s, Function.update t.data s none⟩ (before ++ after) := by
  obtain ⟨b', got, linked, datanum, last⟩ := rep.kBufferGet_old front
  rw [rep.inner_iff front behind, not_and_or, not_not, not_not] at outer
  have bounded := rep.bounded
  simp only [List.length_append, List.length_cons] at bounded
  refine ⟨b', got, linked, fun some_ => ?_, ?_, ?_, rep.erase front, rep.distinct.erase s, ?_⟩
  · rw [last]
    rcases outer with rfl | rfl
    · have whole := rep.last (by simp)
      rw [List.nil_append, lastOf_cons] at whole
      rw [List.nil_append] at some_ ⊢
      rw [whole, lastOf_congr (some a) none some_]
      rfl
    · obtain ⟨e, -, front⟩ := lastOf_of_ne_nil none some_
      rw [List.append_nil] at front ⊢
      rw [front, Option.some_or]
  · rw [datanum, rep.datanum, List.length_append, List.length_cons, List.length_append,
      ← Nat.add_assoc, Int16.ofNat_add]
    simp
  · simp only [List.length_append]
    omega
  · intro r
    show Function.update t.data s none r = _
    cases same : (s == r) with
    | true =>
        cases eq_of_beq same
        rw [Function.update_self, List.find?_eq_none.mpr]
        · rfl
        · intro c mem
          rcases List.mem_append.mp mem with mem | mem
          · simp [front c mem]
          · simp [behind c mem]
    | false =>
        have other : r ≠ s := fun eq => by simp [eq] at same
        rw [Function.update_of_ne other, rep.data]
        simp [List.find?_append, same]

/-- When the entry was inside the list, the pointer is left in front of its place. -/
theorem get_inner (rep : Represents b t cells) (inner : t.Inner s) {b' : Buffer}
    (got : b.kBufferGet s = some (b', data)) : ¬b'.TailIsLast := by
  obtain ⟨before, a, d, after, rfl, -, front, behind⟩ := rep.split inner.1
  obtain ⟨front_, behind_⟩ := (rep.inner_iff front behind).mp inner
  obtain ⟨b'', got', linked, -, last⟩ := rep.kBufferGet_old front
  cases got'.symm.trans got
  rintro ⟨cells, linked', tail⟩
  cases linked.seg.unique linked'.seg
  obtain ⟨p, mem, first⟩ := lastOf_of_ne_nil none front_
  obtain ⟨q, mem', second⟩ := lastOf_of_ne_nil (lastOf none before) behind_
  have tail := tail (by simp [front_])
  rw [last, first, Option.some_or, lastOf_append, second, Option.some_inj] at tail
  have distinct := linked.nodup
  rw [List.map_append] at distinct
  exact List.disjoint_of_nodup_append distinct mem (tail ▸ mem')

end Represents

/-! ## Every run -/

def Related (b : Buffer) (t : LeftMap) : Prop := ∃ cells, Represents b t cells

variable {mem : Malloc}

theorem simulates : Refinement.Simulates (step mem) LeftMap.step
    (fun t op => t.Below op ∧ t.Fine mem op) Eq Related := by
  rintro b t op ⟨cells, rep⟩ ⟨below, fine⟩
  cases op with
  | set lim s data =>
      by_cases old : s ∈ t.sockets
      · obtain ⟨-, -, d, -, -, stored, -⟩ := rep.split old
        refine ⟨b, .set false, ?_, ?_, cells, ?_⟩
        · simp only [step, rep.kBufferSet_old old below, Option.map_some]
        · simp only [LeftMap.step, stored]
        · simpa only [LeftMap.step, stored] using rep
      · obtain ⟨b', set, rep'⟩ := rep.kBufferSet_new old below (fine.resolve_left old)
        refine ⟨b', .set true, ?_, ?_, cells ++ [(b.heap.length, ⟨s, data⟩)], ?_⟩
        · simp only [step, set, Option.map_some]
        · simp only [LeftMap.step, rep.data_of_not_mem old]
        · simpa only [LeftMap.step, rep.data_of_not_mem old] using rep'
  | get s =>
      by_cases old : s ∈ t.sockets
      · obtain ⟨before, a, d, after, rfl, stored, front, behind⟩ := rep.split old
        obtain ⟨b', got, rep'⟩ := rep.get front behind fine
        refine ⟨b', .get d, ?_, ?_, _, rep'⟩
        · simp only [step, got, Option.map_some]
        · simp only [LeftMap.step, stored, Option.getD_some]
      · have none_ := rep.data_of_not_mem old
        refine ⟨b, .get [], ?_, ?_, cells, ?_⟩
        · simp only [step, rep.kBufferGet_new old, Option.map_some]
        · simp only [LeftMap.step, none_, Option.getD_none]
        · simp only [LeftMap.step, List.erase_of_not_mem old]
          rwa [← none_, Function.update_eq_self]

theorem breaks {b b' : Buffer} {t : LeftMap} {op : Op} {r : Reply} (related : Related b t)
    (below : t.Below op) (bad : ¬t.Fine mem op) (stepped : step mem b op = some (b', r)) :
    ¬b'.TailIsLast := by
  obtain ⟨cells, rep⟩ := related
  cases op with
  | set lim s data =>
      rw [LeftMap.Fine, not_or] at bad
      simp [step, rep.kBufferSet_of_new bad.1 below, Nat.not_le.mp bad.2] at stepped
  | get s =>
      cases got : b.kBufferGet s with
      | none => simp [step, got] at stepped
      | some r =>
          simp only [step, got, Option.map_some, Option.some_inj, Prod.mk.injEq] at stepped
          exact stepped.1 ▸ rep.get_inner (not_not.mp bad) got

/-- Below the limit of the table, the entries are a map from sockets to octets with the
    pointers right, if and only if no entry is fetched from inside the list and every one
    that is stored has room for the `memset`. -/
theorem isMap_iff (mem : Malloc) (ops : List Op)
    (below : Refinement.Allowed LeftMap.step LeftMap.Below {} ops) :
    IsMap mem ops ↔ Refinement.Allowed LeftMap.step (LeftMap.Fine mem) {} ops := by
  have related : Related {} {} := ⟨[], .empty⟩
  constructor
  · intro isMap
    refine simulates.allowed_of_good (fun b t op related below bad b' r stepped =>
      breaks related below bad stepped) related below fun before start => ?_
    obtain ⟨b, ran, tail⟩ := isMap before start
    exact ⟨b, _, ran, tail⟩
  · intro fine before start
    obtain ⟨b, ran, cells, rep⟩ := simulates.run_eq related ((below.and fine).restrict start)
    exact ⟨b, ran, rep.tail⟩

theorem isMap_three :
    IsMap ⟨fun n => max n 16, 8⟩ [.set 3 1 [1], .set 3 2 [2], .set 3 1 [9], .get 2, .set 3 3 [3],
        .get 1, .get 1] ↔
      Refinement.Allowed LeftMap.step (LeftMap.Fine ⟨fun n => max n 16, 8⟩) {}
        [.set 3 1 [1], .set 3 2 [2], .set 3 1 [9], .get 2, .set 3 3 [3], .get 1, .get 1] :=
  isMap_iff _ _ (by decide)

/-- Fetching the second of three entries, the next entry drops the third. -/
theorem not_isMap :
    (∃ b, Refinement.run (step ⟨fun n => max n 16, 8⟩) {}
        [.set 9 1 [1], .set 9 2 [2], .set 9 3 [3], .get 2, .set 9 4 [4], .get 3] =
      some (b, [.set true, .set true, .set true, .get [2], .set true, .get []])) ∧
    ¬IsMap ⟨fun n => max n 16, 8⟩
      [.set 9 1 [1], .set 9 2 [2], .set 9 3 [3], .get 2, .set 9 4 [4], .get 3] := by
  refine ⟨⟨_, rfl⟩, fun isMap => ?_⟩
  obtain ⟨b, ran, -⟩ := isMap _ List.prefix_rfl
  cases ran

end Buffer

end Tahi.Koi
