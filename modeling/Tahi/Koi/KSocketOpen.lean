import Tahi.Koi.KSocketClose

/-! # Opening sockets

A new socket goes to the end of the table, with the next id and a descriptor from the
operating system, which may be one that a closed socket has had.
-/

namespace Tahi.Koi

/-- `si_tls_mode` and `si_tls_ssl_ptr`. The pointer is cleared when the connection is lost. -/
inductive Tls where
  | off
  | ssl
  | empty
deriving DecidableEq, Repr

/-- What the calls that open a socket come to. -/
structure Opening where
  uniq : UniqInfo
  tls : Tls := .off
  /-- After the loop over the addresses, negative if no socket could be made. -/
  sockfd : Int32
  /-- Whether `sockfd` is open. The loop may end with a descriptor that it has closed, since
      after a `setsockopt` that fails it goes on with the next address and keeps the variable. -/
  isOpen : Bool
  kParserGet : Bool
  getsockname : Bool

namespace Sockets

/-- The first socket with the descriptor is closed, if there is one. -/
def kSocketMakeSocketStatusClose (sockethandle : Int32) (g : Sockets) : Sockets :=
  if sockethandle < 0 then g
  else
    match g.table.sockets.findIdx? fun si => g.si_sockethandle si.si_socketid == sockethandle with
    | none => g
    | some i => { g with table := g.table.setClose i }

def selectIn (fds : Int32) (g : Sockets) : Sockets :=
  { g with g_readfds := fds :: g.g_readfds }

/-- The new socket at the end of the table. `none` is a table that has no place, which only
    `icmp_open` does not check. -/
def register (uniq : UniqInfo) (fds : Int32) (isOpen : Bool) (g : Sockets) : Option Sockets :=
  let socketid := g.g_socket_socketid + 1
  let si := { si_socketid := socketid, si_socket_status := .SI_STATUS_ALIVE, si_uniq_info := uniq }
  if place : g.table.sockets.length < SOCKET_MAXNUM then
    some {
      table := {
        sockets := g.table.sockets ++ [si]
        bounded := by
          rw [List.length_append]
          exact place }
      g_socket_socketid := socketid
      si_sockethandle := fun id => if id = socketid then fds else g.si_sockethandle id
      g_readfds := g.g_readfds
      connections := fun d => if isOpen ∧ d = fds then some socketid else g.connections d }
  else none

/-- The id that is used up by a call that fails late. -/
def skipId (g : Sockets) : Sockets := { g with g_socket_socketid := g.g_socket_socketid + 1 }

/-- A descriptor that stays open for no socket. -/
def leak (fds : Int32) (g : Sockets) : Sockets :=
  { g with connections := fun d => if d = fds then some 0 else g.connections d }

/-- `kSocketOpen`, from the test of the number of sockets on. -/
def kSocketOpen (o : Opening) (g : Sockets) : Option Sockets :=
  if g.g_socket_socketid.toInt = SOCKET_MAXNUM then some g
  else if o.sockfd < 0 then some g
  else
    let g := (g.kSocketMakeSocketStatusClose o.sockfd).selectIn o.sockfd
    if !o.kParserGet then some { g with g_readfds := selectOut o.sockfd g.g_readfds }
    else if !o.getsockname then some g.skipId
    else g.register o.uniq o.sockfd o.isOpen

/-- The parser is for UDP. -/
def kSocketOpenWaitSocket (o : Opening) (g : Sockets) : Option Sockets :=
  if g.g_socket_socketid.toInt = SOCKET_MAXNUM then some g
  else if o.sockfd < 0 then some g
  else
    let g := (g.kSocketMakeSocketStatusClose o.sockfd).selectIn o.sockfd
    match o.uniq with
    | .listenTcp _ =>
        if !o.getsockname then some g.skipId else g.register o.uniq o.sockfd o.isOpen
    | .listenUdp _ =>
        if !o.getsockname then some g.skipId
        else if !o.kParserGet then
          some { g.skipId with g_readfds := selectOut o.sockfd g.g_readfds }
        else g.register o.uniq o.sockfd o.isOpen
    | _ => some (g.leak o.sockfd)

/-- It returns when a `setsockopt` fails, and does not test the number of sockets. -/
def icmp_open (o : Opening) (g : Sockets) : Option Sockets :=
  if o.sockfd < 0 then some g
  else
    let g := (g.kSocketMakeSocketStatusClose o.sockfd).selectIn o.sockfd
    if !o.kParserGet then some { g with g_readfds := selectOut o.sockfd g.g_readfds }
    else g.register o.uniq o.sockfd true

/-- A connection that was accepted, for `kSocketRegistDataSocketInfo` or
    `kSocketRegistUnixdSocketInfo`. It stays open for no socket when it is not registered. -/
def regist (o : Opening) (g : Sockets) : Option Sockets :=
  if !o.kParserGet then some (g.leak o.sockfd)
  else if g.g_socket_socketid.toInt = SOCKET_MAXNUM then some ((g.selectIn o.sockfd).leak o.sockfd)
  else (g.register o.uniq o.sockfd true).map (selectIn o.sockfd)

/-! ## The invariant -/

section Keeps

variable {g : Sockets}

theorem Valid.setClose (valid : g.Valid) (i : Nat) :
    Valid { g with table := g.table.setClose i } where
  toNumbered := valid.toNumbered.setClose i
  own := by
    intro si there alive
    obtain ⟨_, old, mem, _, kept⟩ := mem_setClose there
    cases (kept alive).1
    exact valid.own si (List.mem_of_getElem? mem) alive

theorem Valid.kSocketMakeSocketStatusClose (valid : g.Valid) (fds : Int32) :
    (g.kSocketMakeSocketStatusClose fds).Valid := by
  unfold Sockets.kSocketMakeSocketStatusClose
  split
  · exact valid
  · split
    · exact valid
    · exact valid.setClose _

theorem Valid.of_readfds (valid : g.Valid) (readfds : List Int32) :
    Valid { g with g_readfds := readfds } where
  toNumbered := valid.toNumbered.congr rfl rfl
  own := valid.own

theorem Valid.leak (valid : g.Valid) {fds : Int32} (fresh : g.connections fds = none) :
    (g.leak fds).Valid where
  toNumbered := valid.toNumbered.congr rfl rfl
  own := by
    intro si there alive
    have own := valid.own si there alive
    have other : g.si_sockethandle si.si_socketid ≠ fds := by
      intro same
      rw [same, fresh] at own
      cases own
    simpa [Sockets.leak, other] using own

theorem toInt_succ {i : Int16} (place : i.toInt ≠ SOCKET_MAXNUM) :
    (i + 1).toInt = i.toInt + 1 := by
  have upper := Int16.toInt_le i
  have lower := Int16.le_toInt i
  simp only [SOCKET_MAXNUM] at place
  rw [Int16.toInt_add]
  simp only [Int16.toInt_one]
  apply Int.bmod_eq_of_le <;> grind

theorem le_succ {i j : Int16} (le : j ≤ i) (place : i.toInt ≠ SOCKET_MAXNUM) : j < i + 1 := by
  rw [Int16.lt_iff_toInt_lt, toInt_succ place]
  rw [Int16.le_iff_toInt_le] at le
  exact Int.lt_add_one_of_le le

theorem toNat_succ {i : Int16} {n : Nat} (enough : n ≤ i.toNatClampNeg)
    (place : i.toInt ≠ SOCKET_MAXNUM) (positive : 0 ≤ i) : n + 1 ≤ (i + 1).toNatClampNeg := by
  rw [Int16.le_iff_toInt_le] at positive
  have succ := toInt_succ place
  rw [← Int16.toNat_toInt] at enough ⊢
  simp only [Int16.toInt_zero] at positive
  omega

/-- An id above all that have been given out. -/
theorem ids_succ {ids : List Int16} {i : Int16} (counter : 0 ≤ i)
    (increasing : ids.Pairwise (· < ·)) (positive : ∀ id ∈ ids, 0 < id) (upto : ∀ id ∈ ids, id ≤ i)
    (place : i.toInt ≠ SOCKET_MAXNUM) :
    (ids ++ [i + 1]).Pairwise (· < ·) ∧ (∀ id ∈ ids ++ [i + 1], 0 < id) ∧
      ∀ id ∈ ids ++ [i + 1], id ≤ i + 1 := by
  have above (id : Int16) (here : id ∈ ids) : id < i + 1 := le_succ (upto id here) place
  refine ⟨?_, ?_, ?_⟩
  · rw [List.pairwise_append]
    refine ⟨increasing, List.pairwise_singleton .., ?_⟩
    intro id here new there
    rw [List.mem_singleton.mp there]
    exact above id here
  · rw [List.forall_mem_append, List.forall_mem_singleton]
    exact ⟨positive, le_succ counter place⟩
  · rw [List.forall_mem_append, List.forall_mem_singleton]
    exact ⟨fun id here => Int16.le_of_lt (above id here), Int16.le_refl _⟩

theorem Valid.skipId (valid : g.Valid) (place : g.g_socket_socketid.toInt ≠ SOCKET_MAXNUM) :
    g.skipId.Valid where
  counter := Int16.le_of_lt (le_succ valid.counter place)
  increasing := valid.increasing
  positive := valid.positive
  upto := by
    intro si there
    exact Int16.le_of_lt (le_succ (valid.upto si there) place)
  enough := Nat.le_of_succ_le (toNat_succ valid.enough place valid.counter)
  own := valid.own

theorem Numbered.place (numbered : g.Numbered) (place : g.g_socket_socketid.toInt ≠ SOCKET_MAXNUM) :
    g.table.sockets.length < SOCKET_MAXNUM := by
  have enough := toNat_succ numbered.enough place numbered.counter
  have upper := (g.g_socket_socketid + 1).toNatClampNeg_lt
  simp only [SOCKET_MAXNUM]
  omega

theorem Valid.register (valid : g.Valid) (uniq : UniqInfo) {fds : Int32}
    (fresh : g.connections fds = none) (place : g.g_socket_socketid.toInt ≠ SOCKET_MAXNUM) :
    ∃ g', g.register uniq fds true = some g' ∧ g'.Valid := by
  simp only [Sockets.register, valid.toNumbered.place place, dif_pos, true_and]
  refine ⟨_, rfl, ?_⟩
  have later (si : SocketInfo) (mem : si ∈ g.table.sockets) :
      si.si_socketid < g.g_socket_socketid + 1 := le_succ (valid.upto si mem) place
  exact {
    counter := Int16.le_of_lt (le_succ valid.counter place)
    increasing := by
      rw [List.pairwise_append]
      refine ⟨valid.increasing, List.pairwise_singleton .., ?_⟩
      intro si mem si' new
      cases List.mem_singleton.mp new
      exact later si mem
    positive := by
      intro si there
      cases List.mem_append.mp there with
      | inl old => exact valid.positive si old
      | inr new =>
          cases List.mem_singleton.mp new
          exact le_succ valid.counter place
    upto := by
      intro si there
      cases List.mem_append.mp there with
      | inl old => exact Int16.le_of_lt (later si old)
      | inr new =>
          cases List.mem_singleton.mp new
          exact Int16.le_refl _
    enough := by
      rw [List.length_append]
      exact toNat_succ valid.enough place valid.counter
    own := by
      intro si there alive
      cases List.mem_append.mp there with
      | inl old =>
          have own := valid.own si old alive
          have id : si.si_socketid ≠ g.g_socket_socketid + 1 := by
            intro same
            have later := later si old
            rw [same] at later
            exact Int16.lt_irrefl later
          have other : g.si_sockethandle si.si_socketid ≠ fds := by
            intro same
            rw [same, fresh] at own
            cases own
          simpa [id, other] using own
      | inr new =>
          cases List.mem_singleton.mp new
          simp }

@[simp] theorem kSocketMakeSocketStatusClose_connections (fds : Int32) :
    (g.kSocketMakeSocketStatusClose fds).connections = g.connections := by
  unfold kSocketMakeSocketStatusClose
  split <;> [rfl; split <;> rfl]

@[simp] theorem kSocketMakeSocketStatusClose_counter (fds : Int32) :
    (g.kSocketMakeSocketStatusClose fds).g_socket_socketid = g.g_socket_socketid := by
  unfold kSocketMakeSocketStatusClose
  split <;> [rfl; split <;> rfl]

/-- The descriptor is put among those that are selected. -/
theorem Valid.prepared (valid : g.Valid) (fds : Int32) :
    ((g.kSocketMakeSocketStatusClose fds).selectIn fds).Valid :=
  (valid.kSocketMakeSocketStatusClose fds).of_readfds _

theorem Valid.kSocketOpen (valid : g.Valid) {o : Opening} (isOpen : o.isOpen)
    (fresh : g.connections o.sockfd = none) : ∃ g', g.kSocketOpen o = some g' ∧ g'.Valid := by
  have prepared := valid.prepared o.sockfd
  unfold Sockets.kSocketOpen
  by_cases full : g.g_socket_socketid.toInt = SOCKET_MAXNUM
  · exact ⟨g, if_pos full, valid⟩
  · rw [if_neg full, isOpen]
    split_ifs
    · exact ⟨g, rfl, valid⟩
    · exact ⟨_, rfl, prepared.of_readfds _⟩
    · exact ⟨_, rfl, prepared.skipId (by simpa [selectIn] using full)⟩
    · exact prepared.register _ (by simpa [selectIn] using fresh) (by simpa [selectIn] using full)

theorem Valid.kSocketOpenWaitSocket (valid : g.Valid) {o : Opening} (isOpen : o.isOpen)
    (fresh : g.connections o.sockfd = none) :
    ∃ g', g.kSocketOpenWaitSocket o = some g' ∧ g'.Valid := by
  have prepared := valid.prepared o.sockfd
  unfold Sockets.kSocketOpenWaitSocket
  by_cases full : g.g_socket_socketid.toInt = SOCKET_MAXNUM
  · exact ⟨g, if_pos full, valid⟩
  · have register := prepared.register o.uniq (by simpa [selectIn] using fresh)
      (by simpa [selectIn] using full)
    have skipId := prepared.skipId (by simpa [selectIn] using full)
    rw [if_neg full, isOpen]
    by_cases negative : o.sockfd < 0
    · exact ⟨g, if_pos negative, valid⟩
    · rw [if_neg negative]
      cases uniq : o.uniq with
      | listenTcp info =>
          rw [uniq] at register
          dsimp only
          split_ifs
          · exact ⟨_, rfl, skipId⟩
          · exact register
      | listenUdp info =>
          rw [uniq] at register
          dsimp only
          split_ifs
          · exact ⟨_, rfl, skipId⟩
          · exact ⟨_, rfl, skipId.of_readfds _⟩
          · exact register
      | _ => exact ⟨_, rfl, prepared.leak (by simpa [selectIn] using fresh)⟩

theorem Valid.icmp_open (valid : g.Valid) {o : Opening} (fresh : g.connections o.sockfd = none)
    (place : g.g_socket_socketid.toInt ≠ SOCKET_MAXNUM) :
    ∃ g', g.icmp_open o = some g' ∧ g'.Valid := by
  have prepared := valid.prepared o.sockfd
  unfold Sockets.icmp_open
  split_ifs
  · exact ⟨g, rfl, valid⟩
  · exact ⟨_, rfl, prepared.of_readfds _⟩
  · exact prepared.register _ (by simpa [selectIn] using fresh) (by simpa [selectIn] using place)

theorem Valid.regist (valid : g.Valid) {o : Opening} (fresh : g.connections o.sockfd = none) :
    ∃ g', g.regist o = some g' ∧ g'.Valid := by
  unfold Sockets.regist
  by_cases full : g.g_socket_socketid.toInt = SOCKET_MAXNUM
  · simp only [full, if_true]
    split_ifs
    · exact ⟨_, rfl, valid.leak fresh⟩
    · exact ⟨_, rfl, (valid.of_readfds _).leak fresh⟩
  · obtain ⟨g', registered, valid'⟩ := valid.register o.uniq fresh full
    simp only [full, if_false, registered, Option.map_some]
    split_ifs
    · exact ⟨_, rfl, valid.leak fresh⟩
    · exact ⟨_, rfl, valid'.of_readfds _⟩

end Keeps

end Sockets

end Tahi.Koi
