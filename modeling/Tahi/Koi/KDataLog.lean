import Tahi.Koi.KData

/-! # The log of the messages

The messages in the order of their registration, with increasing data ids. The list of
`kDataRegist` and `kDataClear` is this log until a message is registered behind one that
has been cleared.
-/

namespace Tahi.Koi

open LinkedList

/-- The messages that are registered and not cleared, and the last data id. -/
structure Log where
  messages : List MsgData := []
  last : Int := 0
  increasing : messages.Pairwise fun m m' => m.msg_dataid < m'.msg_dataid := by
    exact List.Pairwise.nil
  upto : ∀ m ∈ messages, m.msg_dataid ≤ last := by
    simp

/-- Nothing has arrived. -/
abbrev Log.nothing : Log := {}

namespace SocketTable

/-- Whether a socket is an alive child of `socketid`. -/
def child (table : SocketTable) (socketid : Int16) (msg_socketid : Int16) : Bool :=
  match table.lookup msg_socketid with
  | none => false
  | some si =>
      match si.si_uniq_info with
      | .data info | .udp info =>
          si.si_socket_status == .SI_STATUS_ALIVE && info.di_parent_socketid == socketid
      | _ => false

/-- The sockets whose messages are for a reader: all of them, its own, or its children's.
    `none` is a socket that reads nothing. -/
def reader (table : SocketTable) (socketid : Int16) : Option (Int16 → Bool) :=
  if socketid = 0 then some fun _ => true
  else
    match table.lookup socketid with
    | none => none
    | some si =>
        match si.si_type with
        | .SI_TYPE_UDP | .SI_TYPE_DATA | .SI_TYPE_RAW => some fun id => id == socketid
        | .SI_TYPE_LISTEN_TCP | .SI_TYPE_LISTEN_UDP => some (table.child socketid)
        | .SI_TYPE_UNIX | .SI_TYPE_UNIX_DATA => none

/-- What the socket table says about a socket for which messages are registered. -/
def registrable (table : SocketTable) (socketid : Int16) : Option Infos :=
  match table.lookup socketid with
  | none => none
  | some si =>
      let infos := Infos.copy {} si
      if infos.refused then none else some infos

end SocketTable

namespace Log

open MsgTable (Op)

variable (l : Log)

def append (msg : MsgData) (next : l.last < msg.msg_dataid) : Log where
  messages := l.messages ++ [msg]
  last := msg.msg_dataid
  increasing := by
    rw [List.pairwise_append]
    refine ⟨l.increasing, List.pairwise_singleton _ _, ?_⟩
    intro m mem m' mem'
    rw [List.mem_singleton.mp mem']
    exact Int.lt_of_le_of_lt (l.upto m mem) next
  upto := by
    intro m mem
    rcases List.mem_append.mp mem with old | new
    · exact Int.le_of_lt (Int.lt_of_le_of_lt (l.upto m old) next)
    · cases List.mem_singleton.mp new
      exact Int.le_refl _

def filter (keep : MsgData → Bool) : Log where
  messages := l.messages.filter keep
  last := l.last
  increasing := l.increasing.filter keep
  upto m mem := l.upto m (List.mem_filter.mp mem).1

/-- One message is marked as read. -/
def read (msg : MsgData) : Log where
  messages := l.messages.map fun m => if m.msg_dataid = msg.msg_dataid then m.read else m
  last := l.last
  increasing := by
    refine List.pairwise_map.mpr (l.increasing.imp ?_)
    intro m m' lt
    split <;> split <;> exact lt
  upto := by
    intro m mem
    obtain ⟨m', mem', rfl⟩ := List.mem_map.mp mem
    split
    · exact l.upto m' mem'
    · exact l.upto m' mem'

/-- Whether a set flag matches. -/
def matches_ (socketid_flag dataid_flag socketid : Int16) (dataid : Int) (msg : MsgData) : Bool :=
  dataid_flag == 1 && msg.msg_dataid == dataid || socketid_flag == 1 && msg.msg_socketid == socketid

def step (l : Log) : Op → Log × Reply
  | .regist table socketid mode data datatime =>
      if l.last = MSG_MAXMSGNUM then (l, .regist false)
      else
        match table.registrable socketid with
        | none => (l, .regist false)
        | some infos =>
            (l.append (.build infos (l.last + 1) mode data datatime) (Int.lt_succ l.last),
              .regist true)
  | .clear socketid_flag dataid_flag socketid dataid =>
      if l.messages = [] then (l, .clear true)
      else if socketid_flag = 0 ∧ dataid_flag = 0 then
        if socketid = 0 ∧ dataid = 0 then ({}, .clear true) else (l, .clear false)
      else
        (l.filter fun msg => !matches_ socketid_flag dataid_flag socketid dataid msg, .clear true)
  | .getByDataid dataid =>
      match l.messages.find? fun msg => msg.msg_dataid == dataid with
      | none => (l, .noData)
      | some msg => (l, .found msg)
  | .getBySocketid table socketid =>
      if l.messages = [] then (l, .noData)
      else
        match table.reader socketid with
        | none => (l, .ng)
        | some mine =>
            match l.messages.find? fun msg => msg.unread && mine msg.msg_socketid with
            | none => (l, .noData)
            | some msg => (l.read msg, .delivered msg.read)

/-- The message that was registered last has not been cleared. -/
def Kept (l : Log) : Prop := ∃ msg ∈ l.messages, msg.msg_dataid = l.last

instance : Decidable l.Kept := inferInstanceAs (Decidable (∃ msg ∈ l.messages, _))

theorem map_read {msg : MsgData} {messages : List MsgData}
    (other : ∀ m ∈ messages, m.msg_dataid ≠ msg.msg_dataid) :
    (messages.map fun m => if m.msg_dataid = msg.msg_dataid then m.read else m) = messages :=
  (List.map_congr_left fun m mem => if_neg (other m mem)).trans (List.map_id _)

theorem read_messages (l : Log) (msg : MsgData) : (l.read msg).messages =
    l.messages.map fun m => if m.msg_dataid = msg.msg_dataid then m.read else m := rfl

theorem eq_of_id {l : Log} {m m' : MsgData} (mem : m ∈ l.messages) (mem' : m' ∈ l.messages)
    (same : m.msg_dataid = m'.msg_dataid) : m = m' := by
  have distinct : (l.messages.map MsgData.msg_dataid).Nodup :=
    List.pairwise_map.mpr (l.increasing.imp Int.ne_of_lt)
  exact List.inj_on_of_nodup_map distinct mem mem' same

/-- A message is found by its data id. -/
theorem find?_eq {l : Log} {m : MsgData} (mem : m ∈ l.messages) :
    (l.messages.find? fun msg => msg.msg_dataid == m.msg_dataid) = some m := by
  cases found : l.messages.find? fun msg => msg.msg_dataid == m.msg_dataid with
  | none => simpa using List.find?_eq_none.mp found m mem
  | some m' =>
      have same := List.find?_some found
      rw [eq_of_id (List.mem_of_find?_eq_some found) mem (eq_of_beq same)]

theorem filter_messages (l : Log) (keep : MsgData → Bool) :
    (l.filter keep).messages = l.messages.filter keep := rfl

theorem Kept.of_filter {l : Log} {keep : MsgData → Bool} (kept : (l.filter keep).Kept) : l.Kept := by
  obtain ⟨m, mem, same⟩ := kept
  exact ⟨m, (List.mem_filter.mp mem).1, same⟩

theorem Kept.of_read {l : Log} {msg : MsgData} (kept : (l.read msg).Kept) : l.Kept := by
  obtain ⟨m, mem, same⟩ := kept
  obtain ⟨m', mem', rfl⟩ := List.mem_map.mp mem
  refine ⟨m', mem', ?_⟩
  split at same
  · exact same
  · exact same

/-- A message is registered in an empty log, or behind the one that was registered last. -/
def Fine (l : Log) : Op → Prop
  | .regist table socketid _ _ _ =>
      l.last = MSG_MAXMSGNUM ∨ table.registrable socketid = none ∨ l.messages = [] ∨ l.Kept
  | _ => True

instance (op : Op) : Decidable (l.Fine op) :=
  match op with
  | .regist _ _ _ _ _ => inferInstanceAs (Decidable (_ ∨ _))
  | .clear _ _ _ _ => inferInstanceAs (Decidable True)
  | .getByDataid _ => inferInstanceAs (Decidable True)
  | .getBySocketid _ _ => inferInstanceAs (Decidable True)

end Log

/-- The replies of the program go with those of the log. Which address family a delivered
    message has is not the log's. -/
inductive Answers : Reply → Reply → Prop where
  | same (reply : Reply) : Answers reply reply
  | delivered (msg : MsgData) (family : UInt8) :
      Answers (.delivered { msg with msg_family := family }) (.delivered msg)

namespace MsgTable

/-! ## The messages of the list -/

structure Represents (t : MsgTable) (l : Log) (cells : List (Nat × MsgData)) : Prop where
  linked : Linked t.heap t.g_msg_start_ptr cells
  messages : l.messages = cells.map Prod.snd
  dataid : t.g_msg_dataid = l.last
  tail : cells ≠ [] → ∃ p, t.g_msg_last_ptr = some p ∧
    ((∃ msg, (p, msg) ∈ cells ∧ msg.msg_dataid = l.last) ∨ Freed t.heap p ∧ ¬l.Kept)

/-! ### The loop of `kDataClear` -/

theorem first_mem {cells : List (Nat × MsgData)} {a : Nat} (start : first cells none = some a) :
    a ∈ cells.map Prod.fst := by
  cases cells with
  | nil => cases start
  | cons cell cells =>
      cases start
      simp

/-- What it clears is freed. -/
theorem clearFrom_eq (matches_ : MsgData → Bool) {fuel : Nat} {heap : Heap MsgData}
    {start : Option Nat} {before cells : List (Nat × MsgData)}
    (linked : Linked heap start (before ++ cells)) (enough : cells.length ≤ fuel) :
    ∃ heap' start',
      clearFrom matches_ fuel heap start (lastOf none before) (first cells none) =
          some (heap', start') ∧
        Linked heap' start' (before ++ cells.filter fun c => !matches_ c.2) ∧
        (∀ c ∈ cells, matches_ c.2 → Freed heap' c.1) ∧
        ∀ b, Freed heap b → Freed heap' b := by
  induction cells generalizing fuel heap start before with
  | nil => exact ⟨heap, start, by unfold first clearFrom; rfl, linked, by simp, fun _ => id⟩
  | cons cell cells ih =>
      obtain ⟨a, msg⟩ := cell
      obtain ⟨fuel, rfl⟩ := Nat.exists_eq_succ_of_ne_zero (Nat.ne_of_gt (Nat.lt_of_lt_of_le
        (Nat.succ_pos _) enough))
      have enough : cells.length ≤ fuel := Nat.le_of_succ_le_succ enough
      have found := linked.read
      cases cleared : matches_ msg with
      | false =>
          have linked' := linked
          rw [List.append_cons] at linked'
          obtain ⟨heap', start', looped, rest, freed, kept⟩ := ih linked' enough
          rw [lastOf_concat] at looped
          refine ⟨heap', start', ?_, ?_, ?_, kept⟩
          · simp only [first_cons, clearFrom, found, cleared, Bool.not_false, if_true]
            exact looped
          · rw [List.filter_cons_of_pos (by simp [cleared])]
            simpa using rest
          · intro c mem
            rcases List.mem_cons.mp mem with rfl | mem
            · simp [cleared]
            · exact freed c mem
      | true =>
          obtain ⟨heap₁, start₁, heap₂, unlinked, free, linked', freed₁, kept₁⟩ := linked.remove
          obtain ⟨heap', start', looped, rest, freed, kept⟩ := ih linked' enough
          have other : some a ≠ start₁ := by
            intro same
            have mem := first_mem (linked'.start_eq.symm.trans same.symm)
            have distinct := linked.nodup
            rw [List.map_append, List.map_cons, List.nodup_middle, List.nodup_cons] at distinct
            exact distinct.1 (by simpa using mem)
          refine ⟨heap', start', ?_, ?_, ?_, fun b freed => kept b (kept₁ b freed)⟩
          · simp only [first_cons, clearFrom, found, cleared, Bool.not_true, Bool.false_eq_true,
              if_false, unlinked, other, free]
            exact looped
          · rw [List.filter_cons_of_neg (by simp [cleared])]
            exact rest
          · intro c mem matched
            rcases List.mem_cons.mp mem with rfl | mem
            · exact kept a freed₁
            · exact freed c mem matched

/-! ### What the scans look for -/

theorem kSocketGetSIBySocketId_none {table : SocketTable} {socketid : Int16}
    (none_ : table.lookup socketid = none) (infos : Infos) :
    table.kSocketGetSIBySocketId socketid infos = (false, infos) := by
  rw [table.kSocketGetSIBySocketId_eq, none_]

theorem kSocketGetSIBySocketId_some {table : SocketTable} {socketid : Int16} {si : SocketInfo}
    (found : table.lookup socketid = some si) (infos : Infos) :
    table.kSocketGetSIBySocketId socketid infos = (true, infos.copy si) := by
  rw [table.kSocketGetSIBySocketId_eq, found]

/-- What earlier calls have left in the variables makes no difference. -/
theorem parentMatch_eq (table : SocketTable) (socketid : Int16) (infos : Infos) (msg : MsgData) :
    (parentMatch table socketid infos msg).2 =
      (msg.unread && table.child socketid msg.msg_socketid) := by
  unfold parentMatch SocketTable.child
  cases found : table.lookup msg.msg_socketid with
  | none => simp [kSocketGetSIBySocketId_none found]
  | some si =>
      rw [kSocketGetSIBySocketId_some found]
      obtain ⟨socketid', status, info⟩ := si
      cases info <;> simp [Infos.copy, Infos.si_type, Infos.si_socket_status, SocketInfo.si_type,
        Bool.and_assoc, Bool.and_comm]

theorem socket_eq (table : SocketTable) {socketid : Int16} (some_ : socketid ≠ 0) :
    (if 0 < socketid then table.kSocketGetSIBySocketId socketid {}
      else (!decide (socketid < 0), {})) =
      match table.lookup socketid with
      | none => (false, {})
      | some si => (true, Infos.copy {} si) := by
  by_cases positive : 0 < socketid
  · rw [if_pos positive]
    exact table.kSocketGetSIBySocketId_eq socketid {}
  · have negative : socketid < 0 := Int16.lt_of_le_of_ne (Int16.not_lt.mp positive) some_
    simp [negative, positive, SocketTable.lookup]

theorem openSocket_none {table : SocketTable} {socketid : Int16}
    (none_ : table.reader socketid = none) : openSocket table socketid = none := by
  unfold SocketTable.reader at none_
  split at none_
  · cases none_
  · rename_i some_
    simp only [openSocket, socket_eq table some_]
    cases found : table.lookup socketid with
    | none => rfl
    | some si =>
        rw [found] at none_
        simp only [scanFor, some_, if_false, Infos.copy_si_type]
        cases type : si.si_type <;> simp [type] at none_ ⊢

theorem openSocket_some {table : SocketTable} {socketid : Int16} {mine : Int16 → Bool}
    (reads : table.reader socketid = some mine) :
    ∃ infos test, openSocket table socketid = some (infos, test) ∧
      ∀ infos msg, (test infos msg).2 = (msg.unread && mine msg.msg_socketid) := by
  unfold SocketTable.reader at reads
  split at reads
  · rename_i zero
    cases reads
    subst zero
    exact ⟨{}, anydata, rfl, fun _ msg => by simp [anydata]⟩
  · rename_i some_
    simp only [openSocket, socket_eq table some_]
    cases found : table.lookup socketid with
    | none => simp [found] at reads
    | some si =>
        rw [found] at reads
        simp only [scanFor, some_, if_false, Infos.copy_si_type]
        cases type : si.si_type <;> simp only [type, Option.some_inj, reduceCtorEq] at reads ⊢
        case SI_TYPE_UDP | SI_TYPE_DATA | SI_TYPE_RAW =>
          exact ⟨_, socketidMatch socketid, rfl, fun _ _ => reads ▸ rfl⟩
        case SI_TYPE_LISTEN_TCP | SI_TYPE_LISTEN_UDP =>
          exact ⟨_, parentMatch table socketid, rfl, fun _ _ => reads ▸ parentMatch_eq ..⟩

/-! ### One call -/

theorem kDataRegist_eq (table : SocketTable) (t : MsgTable) (socketid : Int16) (mode : UInt8)
    (data : List UInt8) (datatime : Timeval) :
    t.kDataRegist table socketid mode data datatime =
      if t.g_msg_dataid = MSG_MAXMSGNUM then some (t, false)
      else
        match table.registrable socketid with
        | none => some (t, false)
        | some infos =>
            (t.heap.append t.g_msg_start_ptr t.g_msg_last_ptr
              (.build infos (t.g_msg_dataid + 1) mode data datatime)).map
              fun (heap, start, last) => (⟨heap, t.g_msg_dataid + 1, start, last⟩, true) := by
  unfold kDataRegist SocketTable.registrable
  split
  · rfl
  · rw [table.kSocketGetSIBySocketId_eq]
    cases table.lookup socketid with
    | none => rfl
    | some si =>
        simp only
        split
        · rfl
        · rfl

namespace Represents

variable {t : MsgTable} {l : Log} {cells before after : List (Nat × MsgData)} {a : Nat} {msg : MsgData}

theorem empty : Represents {} {} [] where
  linked := ⟨rfl, List.nodup_nil⟩
  messages := rfl
  dataid := rfl
  tail some_ := absurd rfl some_

theorem eq_nil_iff (rep : Represents t l cells) : l.messages = [] ↔ cells = [] := by
  rw [rep.messages, List.map_eq_nil_iff]

theorem start_none (rep : Represents t l cells) (none_ : t.g_msg_start_ptr = none) :
    l.messages = [] := by
  have linked := rep.linked
  rw [none_] at linked
  cases cells with
  | nil => exact rep.messages
  | cons cell cells => cases linked.start_eq

theorem start_some (rep : Represents t l cells) {start : Nat}
    (some_ : t.g_msg_start_ptr = some start) : l.messages ≠ [] := by
  have linked := rep.linked
  rw [some_] at linked
  intro empty
  rw [rep.eq_nil_iff] at empty
  subst empty
  cases linked.start_eq

/-- The message with the last data id is the last of the list. -/
theorem last_eq (rep : Represents t l cells) {p : Nat} (mem : (p, msg) ∈ cells)
    (last : msg.msg_dataid = l.last) : lastOf none cells = some p := by
  obtain ⟨before, after, rfl⟩ := List.append_of_mem mem
  have increasing := l.increasing
  rw [rep.messages, List.map_append, List.map_cons, List.pairwise_append, List.pairwise_cons]
    at increasing
  cases after with
  | nil => exact lastOf_concat none before (p, msg)
  | cons next after =>
      have behind : msg.msg_dataid < next.2.msg_dataid := increasing.2.1.1 next.2 (by simp)
      have upto := l.upto next.2 (by simp [rep.messages])
      omega

/-- The messages around the first that has a property. -/
theorem split (rep : Represents t l cells) {p : MsgData → Bool}
    (found : l.messages.find? p = some msg) :
    ∃ before a after, cells = before ++ (a, msg) :: after ∧ p msg ∧
      ∀ c ∈ before, p c.2 = false := by
  rw [rep.messages, List.find?_map, Option.map_eq_some_iff] at found
  obtain ⟨⟨a, msg⟩, found, rfl⟩ := found
  obtain ⟨here, before, after, rfl, front⟩ := List.find?_eq_some_iff_append.mp found
  exact ⟨before, a, after, rfl, here, fun c mem => by simpa using front c mem⟩

theorem none_ (rep : Represents t l cells) {p : MsgData → Bool}
    (absent : l.messages.find? p = none) : ∀ c ∈ cells, p c.2 = false := by
  intro c mem
  rw [rep.messages, List.find?_eq_none] at absent
  simpa using absent c.2 (List.mem_map_of_mem mem)

theorem kDataGetDataByDataid (rep : Represents t l cells) (dataid : Int) :
    t.kDataGetDataByDataid dataid = some (l.step (.getByDataid dataid)).2 := by
  unfold MsgTable.kDataGetDataByDataid Log.step
  cases start : t.g_msg_start_ptr with
  | none => simp [rep.start_none start]
  | some start_ =>
      have linked := rep.linked
      rw [start] at linked
      cases found : l.messages.find? fun msg => msg.msg_dataid == dataid with
      | none => simp [linked.find_none (rep.none_ found), found]
      | some msg =>
          obtain ⟨before, a, after, rfl, here, front⟩ := rep.split found
          simp [linked.find_some (p := fun msg => msg.msg_dataid == dataid) front here, found]

theorem id_ne (rep : Represents t l (before ++ (a, msg) :: after)) :
    (∀ m ∈ before.map Prod.snd, m.msg_dataid ≠ msg.msg_dataid) ∧
      ∀ m ∈ after.map Prod.snd, m.msg_dataid ≠ msg.msg_dataid := by
  have increasing := l.increasing
  rw [rep.messages, List.map_append, List.map_cons, List.pairwise_append, List.pairwise_cons]
    at increasing
  obtain ⟨-, ⟨behind, -⟩, front⟩ := increasing
  refine ⟨fun m mem => ?_, fun m mem => ?_⟩
  · exact Int.ne_of_lt (front m mem msg (by simp))
  · exact (Int.ne_of_lt (behind m mem)).symm

theorem freed_ne (rep : Represents t l (before ++ (a, msg) :: after)) {p : Nat}
    (freed : Freed t.heap p) : p ≠ a := by
  rintro rfl
  have found := rep.linked.read
  rw [freed.read] at found
  cases found

/-- Marking a message as read changes the data of its node. -/
theorem read (rep : Represents t l (before ++ (a, msg) :: after)) :
    ∃ heap, t.heap.write a ⟨msg.read, first after none⟩ = some heap ∧
      Represents { t with heap := heap } (l.read msg) (before ++ (a, msg.read) :: after) := by
  obtain ⟨front, behind⟩ := rep.id_ne
  refine ⟨_, Heap.write_of_read rep.linked.read _, rep.linked.change _, ?_, rep.dataid, fun _ => ?_⟩
  · rw [Log.read_messages, rep.messages, List.map_append, List.map_cons, List.map_append,
      List.map_cons, if_pos rfl, Log.map_read front, Log.map_read behind, List.map_append,
      List.map_cons]
  · obtain ⟨p, last, kept⟩ := rep.tail (by simp)
    refine ⟨p, last, ?_⟩
    rcases kept with ⟨msg', mem, same⟩ | ⟨freed, lost⟩
    · left
      rcases List.mem_append.mp mem with mem | mem
      · exact ⟨msg', List.mem_append_left _ mem, same⟩
      · rcases List.mem_cons.mp mem with here | mem
        · cases here
          exact ⟨_, List.mem_append_right _ List.mem_cons_self, same⟩
        · exact ⟨msg', List.mem_append_right _ (List.mem_cons_of_mem _ mem), same⟩
    · right
      exact ⟨freed.set (rep.freed_ne freed) _, fun kept => lost kept.of_read⟩

theorem getBySocketid (rep : Represents t l cells) (table : SocketTable) (socketid : Int16) :
    ∃ t' r cells', t.kDataGetDataBySocketid table socketid = some (t', r) ∧
      Answers r (l.step (.getBySocketid table socketid)).2 ∧
      Represents t' (l.step (.getBySocketid table socketid)).1 cells' := by
  unfold kDataGetDataBySocketid Log.step
  cases start : t.g_msg_start_ptr with
  | none =>
      simp only [rep.start_none start, if_true]
      exact ⟨t, .noData, cells, rfl, .same _, rep⟩
  | some start_ =>
      have linked := rep.linked
      rw [start] at linked
      simp only [rep.start_some start, if_false]
      cases reads : table.reader socketid with
      | none =>
          simp only [openSocket_none reads]
          exact ⟨t, .ng, cells, rfl, .same _, rep⟩
      | some mine =>
          obtain ⟨infos, test, opened, same⟩ := openSocket_some reads
          simp only [opened]
          cases found : l.messages.find? fun msg => msg.unread && mine msg.msg_socketid with
          | none =>
              obtain ⟨infos', scanned⟩ := linked.scan_none same (rep.none_ found) infos
              simp only [scanned]
              exact ⟨t, .noData, cells, rfl, .same _, rep⟩
          | some msg =>
              obtain ⟨before, a, after, rfl, here, front⟩ := rep.split found
              obtain ⟨infos', scanned⟩ := linked.scan_some same front here infos
              obtain ⟨heap, written, rep'⟩ := rep.read
              simp only [scanned, deliver, written, Option.map_some]
              exact ⟨_, _, _, rfl, .delivered msg.read _, rep'⟩

/-- The tail pointer, when the last message is kept. -/
theorem tail_of_kept (rep : Represents t l cells) (kept : l.messages = [] ∨ l.Kept) :
    cells ≠ [] → t.g_msg_last_ptr = lastOf none cells := by
  intro some_
  rw [rep.eq_nil_iff] at kept
  obtain ⟨p, last, ⟨msg, mem, same⟩ | ⟨-, lost⟩⟩ := rep.tail some_
  · rw [last, rep.last_eq mem same]
  · exact absurd (kept.resolve_left some_) lost

theorem append (rep : Represents t l cells) (kept : l.messages = [] ∨ l.Kept) {msg : MsgData}
    (next : l.last < msg.msg_dataid) :
    ∃ heap start, t.heap.append t.g_msg_start_ptr t.g_msg_last_ptr msg =
        some (heap, start, some t.heap.length) ∧
      Represents ⟨heap, msg.msg_dataid, start, some t.heap.length⟩ (l.append msg next)
        (cells ++ [(t.heap.length, msg)]) := by
  obtain ⟨heap, start, appended, linked⟩ := rep.linked.push (rep.tail_of_kept kept) msg
  refine ⟨heap, start, appended, linked, ?_, rfl, fun _ => ?_⟩
  · rw [Log.append, List.map_append, ← rep.messages]
    rfl
  · exact ⟨t.heap.length, rfl, .inl ⟨msg, by simp, rfl⟩⟩

/-- To register behind a message that has been cleared is an error. -/
theorem append_lost (rep : Represents t l cells) (some_ : l.messages ≠ []) (lost : ¬l.Kept)
    (msg : MsgData) : t.heap.append t.g_msg_start_ptr t.g_msg_last_ptr msg = none := by
  rw [ne_eq, rep.eq_nil_iff] at some_
  obtain ⟨p, last, ⟨msg', mem, same⟩ | ⟨freed, -⟩⟩ := rep.tail some_
  · refine absurd ⟨msg', ?_, same⟩ lost
    rw [rep.messages]
    exact List.mem_map_of_mem mem
  · rw [last, rep.linked.start_eq]
    cases cells with
    | nil => exact absurd rfl some_
    | cons cell cells => exact freed.append msg

theorem regist (rep : Represents t l cells) {table : SocketTable} {socketid : Int16} {mode : UInt8}
    {data : List UInt8} {datatime : Timeval}
    (fine : l.Fine (.regist table socketid mode data datatime)) :
    ∃ t' ok cells', t.kDataRegist table socketid mode data datatime = some (t', ok) ∧
      Reply.regist ok = (l.step (.regist table socketid mode data datatime)).2 ∧
      Represents t' (l.step (.regist table socketid mode data datatime)).1 cells' := by
  rw [kDataRegist_eq, rep.dataid]
  unfold Log.step
  by_cases full : l.last = MSG_MAXMSGNUM
  · simp only [full, if_true]
    exact ⟨t, false, cells, rfl, rfl, rep⟩
  · have fine := fine.resolve_left full
    simp only [full, if_false]
    cases registrable : table.registrable socketid with
    | none => exact ⟨t, false, cells, rfl, rfl, rep⟩
    | some infos =>
        have kept := fine.resolve_left (by simp [registrable])
        have next : l.last < (MsgData.build infos (l.last + 1) mode data datatime).msg_dataid :=
          Int.lt_succ l.last
        obtain ⟨heap, start, appended, rep'⟩ := rep.append kept next
        simp only [appended, Option.map_some]
        exact ⟨_, true, _, rfl, rfl, rep'⟩

theorem filter (rep : Represents t l cells) {start : Nat} (started : t.g_msg_start_ptr = some start)
    (matches_ : MsgData → Bool) :
    ∃ heap' start' cells', clearFrom matches_ t.heap.length t.heap (some start) none (some start) =
        some (heap', start') ∧
      Represents { t with heap := heap', g_msg_start_ptr := start' }
        (l.filter fun msg => !matches_ msg) cells' := by
  have linked := rep.linked
  rw [started] at linked
  have begins := linked.start_eq
  obtain ⟨heap', start', looped, linked', freed, kept⟩ :=
    clearFrom_eq matches_ (show Linked t.heap (some start) ([] ++ cells) from linked)
      linked.length_le
  rw [← begins] at looped
  refine ⟨heap', start', _, looped, linked', ?_, rep.dataid, fun some_ => ?_⟩
  · rw [Log.filter_messages, rep.messages, List.filter_map]
    rfl
  · have whole : cells ≠ [] := by
      rintro rfl
      exact some_ rfl
    obtain ⟨p, last, tail⟩ := rep.tail whole
    refine ⟨p, last, ?_⟩
    rcases tail with ⟨msg, mem, same⟩ | ⟨gone, lost⟩
    · cases cleared : matches_ msg with
      | false => exact .inl ⟨msg, List.mem_filter.mpr ⟨mem, by simp [cleared]⟩, same⟩
      | true =>
          refine .inr ⟨freed _ mem cleared, ?_⟩
          rintro ⟨m, mem', same'⟩
          rw [Log.filter, List.mem_filter] at mem'
          have here : msg ∈ l.messages := rep.messages ▸ List.mem_map_of_mem mem
          cases Log.eq_of_id here mem'.1 (same.trans same'.symm)
          simp [cleared] at mem'
    · exact .inr ⟨kept p gone, fun kept => lost kept.of_filter⟩

theorem clear (rep : Represents t l cells) (socketid_flag dataid_flag socketid : Int16)
    (dataid : Int) :
    ∃ t' ok cells', t.kDataClear socketid_flag dataid_flag socketid dataid = some (t', ok) ∧
      Reply.clear ok = (l.step (.clear socketid_flag dataid_flag socketid dataid)).2 ∧
      Represents t' (l.step (.clear socketid_flag dataid_flag socketid dataid)).1 cells' := by
  unfold kDataClear Log.step
  cases started : t.g_msg_start_ptr with
  | none =>
      simp only [rep.start_none started, if_true]
      exact ⟨t, true, cells, rfl, rfl, rep⟩
  | some start =>
      simp only [rep.start_some started, if_false]
      split
      · split
        · have linked := rep.linked
          rw [started] at linked
          obtain ⟨heap, freed⟩ := linked.freeAll linked.length_le
          simp only [kDataInit, started, freed, Option.map_some]
          exact ⟨_, true, [], rfl, rfl, ⟨rfl, List.nodup_nil⟩, rfl, rfl, fun some_ => absurd rfl some_⟩
        · exact ⟨t, false, cells, rfl, rfl, rep⟩
      · obtain ⟨heap', start', cells', looped, rep'⟩ :=
          rep.filter started (Log.matches_ socketid_flag dataid_flag socketid dataid)
        unfold Log.matches_ at looped
        rw [looped]
        exact ⟨_, true, cells', rfl, rfl, rep'⟩

end Represents

/-! ## Every run -/

def Related (t : MsgTable) (l : Log) : Prop := ∃ cells, Represents t l cells

theorem simulates : Refinement.Simulates step Log.step Log.Fine Answers Related := by
  rintro t l op ⟨cells, rep⟩ fine
  cases op with
  | regist table socketid mode data datatime =>
      obtain ⟨t', ok, cells', registered, reply, rep'⟩ := rep.regist fine
      refine ⟨t', .regist ok, ?_, reply ▸ .same _, cells', rep'⟩
      simp only [step, registered, Option.map_some]
  | clear socketid_flag dataid_flag socketid dataid =>
      obtain ⟨t', ok, cells', cleared, reply, rep'⟩ :=
        rep.clear socketid_flag dataid_flag socketid dataid
      refine ⟨t', .clear ok, ?_, reply ▸ .same _, cells', rep'⟩
      simp only [step, cleared, Option.map_some]
  | getByDataid dataid =>
      refine ⟨t, _, ?_, .same _, cells, ?_⟩
      · simp only [step, rep.kDataGetDataByDataid, Option.map_some]
      · simp only [Log.step]
        split <;> exact rep
  | getBySocketid table socketid =>
      obtain ⟨t', r, cells', got, answers, rep'⟩ := rep.getBySocketid table socketid
      exact ⟨t', r, got, answers, cells', rep'⟩

theorem stops {t : MsgTable} {l : Log} {op : Op} (related : Related t l) (bad : ¬l.Fine op) :
    step t op = none := by
  obtain ⟨cells, rep⟩ := related
  cases op with
  | regist table socketid mode data datatime =>
      simp only [Log.Fine, not_or] at bad
      obtain ⟨full, registrable, some_, lost⟩ := bad
      obtain ⟨infos, registrable⟩ := Option.ne_none_iff_exists'.mp registrable
      simp only [step, kDataRegist_eq, rep.dataid, full, if_false, registrable,
        rep.append_lost some_ lost, Option.map_none]
  | _ => exact absurd trivial bad

section Regist

variable {t : MsgTable} {l : Log} {table : SocketTable} {socketid : Int16} {mode : UInt8}
variable {data : List UInt8} {datatime : Timeval}

theorem Related.regist (related : Related t l)
    (fine : l.Fine (.regist table socketid mode data datatime)) :
    ∃ t' ok, t.kDataRegist table socketid mode data datatime = some (t', ok) ∧
      Related t' (l.step (.regist table socketid mode data datatime)).1 := by
  obtain ⟨cells, rep⟩ := related
  obtain ⟨t', ok, cells', registered, -, rep'⟩ := rep.regist fine
  exact ⟨t', ok, registered, cells', rep'⟩

theorem Related.regist_lost (related : Related t l)
    (bad : ¬l.Fine (.regist table socketid mode data datatime)) :
    t.kDataRegist table socketid mode data datatime = none :=
  Option.map_eq_none_iff.mp (stops related bad)

end Regist

/-- The calls answer as the log does, and every message of the log is found by its data
    id. -/
def IsLog (ops : List Op) : Prop :=
  ∃ t rs, Refinement.run step {} ops = some (t, rs) ∧
    List.Forall₂ Answers rs (Refinement.specRun Log.step {} ops).2 ∧
    ∀ msg ∈ (Refinement.specRun Log.step {} ops).1.messages,
      t.kDataGetDataByDataid msg.msg_dataid = some (.found msg)

/-- The message store is a log if and only if every message that is registered finds an
    empty log, or the message that was registered before it. -/
theorem isLog_iff (ops : List Op) : IsLog ops ↔ Refinement.Allowed Log.step Log.Fine {} ops := by
  have related : Related {} {} := ⟨[], .empty⟩
  constructor
  · rintro ⟨t, rs, ran, -⟩
    have simulates' : Refinement.Simulates step Log.step (fun l op => True ∧ l.Fine op) Answers
        Related := fun t l op related fine => simulates t l op related fine.2
    refine simulates'.allowed_of_run (fun t l op related _ bad => stops related bad) related
      (Refinement.allowed_of_forall (fun _ _ => trivial) _ _) ?_
    rw [ran]
    exact Option.some_ne_none _
  · intro fine
    obtain ⟨t, rs, ran, answers, cells, rep⟩ := simulates.run related fine
    refine ⟨t, rs, ran, answers, fun msg mem => ?_⟩
    rw [rep.kDataGetDataByDataid, Log.step, Log.find?_eq mem]

/-- When the last of two messages has been cleared, the next one is written to its node. -/
theorem not_isLog :
    let table : SocketTable := ⟨[⟨1, .SI_STATUS_ALIVE, .udp {}⟩], by decide⟩
    ¬IsLog [.regist table 1 MSG_SOCKETMODE_RECV [1] ⟨0, 0⟩,
      .regist table 1 MSG_SOCKETMODE_RECV [2] ⟨0, 0⟩, .clear 0 1 0 2,
      .regist table 1 MSG_SOCKETMODE_RECV [3] ⟨0, 0⟩] := by
  rintro table ⟨t, rs, ran, -⟩
  cases ran

end MsgTable

end Tahi.Koi
