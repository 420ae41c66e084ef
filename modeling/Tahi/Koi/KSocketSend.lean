import Tahi.Koi.KDataLog
import Tahi.Koi.KSocketOpen

/-! # Sending data

`kSocketSend` finds a socket by its id, whatever its status, and writes to the descriptor that
it has. By then the operating system may have given the descriptor to another socket.
-/

namespace Tahi.Koi

/-- What the network answers while data is sent. -/
structure Net where
  /-- Whether `send`, `sendmsg` or `SSL_write` is successful with a descriptor that is open. -/
  send : Int32 → Bool
  /-- `inet_ntop`, the interface of a link-local address and `getaddrinfo` for UDP. -/
  prepared : Bool
  TLSSessionMode : Bool

structure Sent where
  ok : Bool
  /-- The socket for which the connection was opened that has got the data. -/
  written : Option Int16 := none
  logged : Bool := false

structure Koid where
  sockets : Sockets
  si_tls : Int16 → Tls
  msgs : MsgTable

namespace Sockets

/-- `send`, which fails when the descriptor is not open. -/
def transmit (net : Net) (fds : Int32) (g : Sockets) : Option Int16 :=
  if net.send fds then g.connections fds else none

/-- What it returns is read as a Boolean, and `RETURN_NG` is not 0. -/
def kSocketSendDataUdp (net : Net) (fds : Int32) (g : Sockets) : Bool × Option Int16 :=
  if !net.prepared then (true, none)
  else
    match g.transmit net fds with
    | none => (false, none)
    | some socketid => (true, some socketid)

/-- The socket table is asked without variables for UNIX sockets and TCP sockets that listen. -/
def getDataSocket (socketid : Int16) (g : Sockets) : Option Infos :=
  match g.table.kSocketGetSIBySocketId socketid {} with
  | (false, _) => none
  | (true, infos) =>
      match infos.si_type with
      | some .SI_TYPE_UNIX | some .SI_TYPE_UNIX_DATA | some .SI_TYPE_LISTEN_TCP => none
      | _ => some infos

/-- `send` or `kTLSSend`. Without the SSL structure there is a line in the log only. -/
def sendTcp (net : Net) (tls : Tls) (fds : Int32) (g : Sockets) : Bool × Option Int16 :=
  match tls with
  | .empty => (true, none)
  | .off | .ssl =>
      match g.transmit net fds with
      | none => (false, none)
      | some socketid => (true, some socketid)

/-- The part before the data is registered: whether it goes on, and where the data went. The
    result of `icmp_send` is not used. -/
def sendData (net : Net) (tls : Tls) (infos : Infos) (g : Sockets) : Bool × Option Int16 :=
  let fds := g.si_sockethandle infos.si_socketid
  match infos.si_type with
  | some .SI_TYPE_DATA => g.sendTcp net tls fds
  | some .SI_TYPE_UDP => g.kSocketSendDataUdp net fds
  | some .SI_TYPE_RAW => (true, g.transmit net fds)
  | _ => (true, none)

end Sockets

namespace Koid

/-- A `kTLSSend` that fails leaves its socket without the SSL structure, unless sessions are
    kept. -/
def afterFailure (net : Net) (socketid : Int16) (k : Koid) : Koid :=
  if k.si_tls socketid = .ssl ∧ !net.TLSSessionMode then
    { k with si_tls := fun id => if id = socketid then .empty else k.si_tls id }
  else k

def kSocketSend (net : Net) (socketid : Int16) (data : List UInt8) (time_value : Timeval)
    (k : Koid) : Option (Koid × Sent) :=
  if socketid < 1 then some (k, { ok := false })
  else
    match k.sockets.getDataSocket socketid with
    | none => some (k, { ok := false })
    | some infos =>
        match k.sockets.sendData net (k.si_tls infos.si_socketid) infos with
        | (false, written) =>
            some (k.afterFailure net infos.si_socketid, { ok := false, written := written })
        | (true, written) =>
            (k.msgs.kDataRegist k.sockets.table infos.si_socketid MSG_SOCKETMODE_SEND data
              time_value).map fun (msgs, ok) =>
                ({ k with msgs := msgs }, { ok := ok, written := written, logged := ok })

inductive Event where
  | kSocketOpen (o : Opening)
  | kSocketOpenWaitSocket (o : Opening)
  | icmp_open (o : Opening)
  | regist (o : Opening)
  | kSocketClose (close : Int32 → Bool) (stack : Infos) (socketid : Int16)
  | kSocketSend (net : Net) (socketid : Int16) (data : List UInt8) (time_value : Timeval)

def opens (k : Koid) (o : Opening) (sockets : Option Sockets) : Option (Koid × Option Sent) :=
  let socketid := k.sockets.g_socket_socketid + 1
  sockets.map fun sockets =>
    ({ k with
      sockets := sockets
      si_tls := fun id => if id = socketid then o.tls else k.si_tls id }, none)

def step (k : Koid) : Event → Option (Koid × Option Sent)
  | .kSocketOpen o => k.opens o (k.sockets.kSocketOpen o)
  | .kSocketOpenWaitSocket o => k.opens o (k.sockets.kSocketOpenWaitSocket o)
  | .icmp_open o => k.opens o (k.sockets.icmp_open o)
  | .regist o => k.opens o (k.sockets.regist o)
  | .kSocketClose close stack socketid =>
      some ({ k with sockets := (k.sockets.kSocketClose close stack socketid).2 }, none)
  | .kSocketSend net socketid data time_value =>
      (k.kSocketSend net socketid data time_value).map fun (k, sent) => (k, some sent)

/-- Before the first socket. -/
def init : Koid where
  sockets := {
    table := ⟨[], Nat.zero_le _⟩
    g_socket_socketid := 0
    si_sockethandle := fun _ => 0
    g_readfds := []
    connections := fun _ => none }
  si_tls := fun _ => .off
  msgs := {}

/-- Data goes to the connection of its own socket, all of what is said to be sent does, and
    nothing is logged for a socket that is closed. -/
def ToOwn (k : Koid) : Event → Option Sent → Prop
  | .kSocketSend _ socketid _ _, some sent =>
      (sent.ok → sent.written = some socketid) ∧
        (∀ id, sent.written = some id → id = socketid) ∧
        ∀ si, k.sockets.table.lookup socketid = some si → ¬ si.alive → sent.logged = false
  | _, _ => True

/-- The operating system gives out no descriptor that is open. -/
def Fresh (k : Koid) : Event → Prop
  | .kSocketOpen o | .kSocketOpenWaitSocket o | .icmp_open o | .regist o =>
      k.sockets.connections o.sockfd = none
  | _ => True

/-- Where the data of a socket would go. -/
def target (net : Net) (si : SocketInfo) (k : Koid) : Option Int16 :=
  if si.si_type = .SI_TYPE_UDP ∧ !net.prepared then none
  else if si.si_type = .SI_TYPE_DATA ∧ k.si_tls si.si_socketid = .empty then none
  else k.sockets.transmit net (k.sockets.si_sockethandle si.si_socketid)

/-- A socket is opened with a descriptor that is open, ICMP sockets have an id left, and data
    that can go out is for a socket that is alive. When it cannot go out, the failure is one
    that is looked at, or no message is registered any more. -/
def Sound (k : Koid) : Event → Prop
  | .kSocketOpen o | .kSocketOpenWaitSocket o => o.isOpen
  | .icmp_open _ => k.sockets.g_socket_socketid.toInt ≠ SOCKET_MAXNUM
  | .regist _ | .kSocketClose _ _ _ => True
  | .kSocketSend net socketid _ _ =>
      ∀ si, k.sockets.table.lookup socketid = some si →
        si.si_type = .SI_TYPE_DATA ∨ si.si_type = .SI_TYPE_UDP ∨ si.si_type = .SI_TYPE_RAW →
        match k.target net si with
        | some _ => si.alive
        | none =>
            si.si_type = .SI_TYPE_DATA ∧ k.si_tls si.si_socketid ≠ .empty ∨
              si.si_type = .SI_TYPE_UDP ∧ net.prepared ∨ k.msgs.g_msg_dataid = MSG_MAXMSGNUM

end Koid

/-! ## Every run -/

namespace MsgTable

/-- No message has been cleared behind which one would be registered. -/
def Regular (t : MsgTable) : Prop := ∃ l, Related t l ∧ (l.messages = [] ∨ l.Kept)

theorem Regular.regist {t : MsgTable} (regular : t.Regular) (table : SocketTable)
    (socketid : Int16) (mode : UInt8) (data : List UInt8) (datatime : Timeval) :
    ∃ t' ok, t.kDataRegist table socketid mode data datatime = some (t', ok) ∧ t'.Regular := by
  obtain ⟨l, ⟨cells, rep⟩, kept⟩ := regular
  have fine : l.Fine (.regist table socketid mode data datatime) := .inr (.inr kept)
  obtain ⟨t', ok, cells', registered, -, rep'⟩ := rep.regist fine
  refine ⟨t', ok, registered, _, ⟨cells', rep'⟩, ?_⟩
  simp only [Log.step]
  split
  · exact kept
  · split
    · exact kept
    · apply Or.inr
      exact ⟨_, List.mem_append_right _ (List.mem_singleton_self _), rfl⟩

theorem kDataRegist_full {t : MsgTable} (full : t.g_msg_dataid = MSG_MAXMSGNUM)
    (table : SocketTable) (socketid : Int16) (mode : UInt8) (data : List UInt8)
    (datatime : Timeval) :
    t.kDataRegist table socketid mode data datatime = some (t, false) := by
  rw [kDataRegist_eq, if_pos full]

theorem kDataRegist_refused {table : SocketTable} {socketid : Int16}
    (refused : table.registrable socketid = none) (t : MsgTable) (mode : UInt8)
    (data : List UInt8) (datatime : Timeval) :
    t.kDataRegist table socketid mode data datatime = some (t, false) := by
  rw [kDataRegist_eq, refused]
  split <;> rfl

end MsgTable

namespace SocketTable

theorem lookup_id {table : SocketTable} {socketid : Int16} {si : SocketInfo}
    (found : table.lookup socketid = some si) :
    si ∈ table.sockets ∧ si.si_socketid = socketid := by
  unfold lookup at found
  split at found
  · cases found
  · exact ⟨List.mem_of_find?_eq_some found, by simpa using List.find?_some found⟩

end SocketTable

namespace Koid

variable {k : Koid}

structure Inv (k : Koid) : Prop where
  valid : k.sockets.Valid
  regular : k.msgs.Regular

theorem init_inv : init.Inv where
  valid := {
    counter := Int16.le_refl _
    increasing := List.Pairwise.nil
    positive := by simp [init]
    upto := by simp [init]
    enough := Nat.zero_le _
    own := by simp [init] }
  regular := ⟨{}, ⟨[], .empty⟩, .inl rfl⟩

theorem opens_inv (inv : k.Inv) (o : Opening) {sockets : Option Sockets}
    (opened : ∃ g, sockets = some g ∧ g.Valid) :
    ∃ k' r, k.opens o sockets = some (k', r) ∧ r = none ∧ k'.Inv := by
  obtain ⟨g, rfl, valid⟩ := opened
  exact ⟨_, _, rfl, rfl, valid, inv.regular⟩

theorem copy_id (si : SocketInfo) : (Infos.copy {} si).si_socketid = si.si_socketid := by
  obtain ⟨socketid, status, info⟩ := si
  cases info <;> rfl

theorem sendData_some {net : Net} {si : SocketInfo} {id : Int16}
    (type : si.si_type = .SI_TYPE_DATA ∨ si.si_type = .SI_TYPE_UDP ∨ si.si_type = .SI_TYPE_RAW)
    (goes : k.target net si = some id) :
    k.sockets.sendData net (k.si_tls si.si_socketid) (Infos.copy {} si) = (true, some id) := by
  unfold target at goes
  simp only [Sockets.sendData, Infos.copy_si_type, copy_id]
  rcases type with type | type | type
  · cases tls : k.si_tls si.si_socketid <;> simp_all [Sockets.sendTcp]
  · cases prepared : net.prepared <;> simp_all [Sockets.kSocketSendDataUdp]
  · simp_all

theorem sendData_none {net : Net} {si : SocketInfo}
    (type : si.si_type = .SI_TYPE_DATA ∨ si.si_type = .SI_TYPE_UDP ∨ si.si_type = .SI_TYPE_RAW)
    (goes : k.target net si = none) :
    (k.sockets.sendData net (k.si_tls si.si_socketid) (Infos.copy {} si)).2 = none ∧
      (si.si_type = .SI_TYPE_DATA ∧ k.si_tls si.si_socketid ≠ .empty ∨
        si.si_type = .SI_TYPE_UDP ∧ net.prepared →
        (k.sockets.sendData net (k.si_tls si.si_socketid) (Infos.copy {} si)).1 = false) := by
  unfold target at goes
  simp only [Sockets.sendData, Infos.copy_si_type, copy_id]
  rcases type with type | type | type
  · cases tls : k.si_tls si.si_socketid <;> simp_all [Sockets.sendTcp]
  · cases prepared : net.prepared <;> simp_all [Sockets.kSocketSendDataUdp]
  · simp_all

/-- A socket that is alive has its own connection. -/
theorem Inv.target_own (inv : k.Inv) {net : Net} {si : SocketInfo} {id : Int16}
    (here : si ∈ k.sockets.table.sockets) (alive : si.alive) (goes : k.target net si = some id) :
    id = si.si_socketid := by
  unfold target Sockets.transmit at goes
  split_ifs at goes
  rw [inv.valid.own si here alive] at goes
  exact (Option.some.inj goes).symm

theorem getDataSocket_some {socketid : Int16} {si : SocketInfo}
    (found : k.sockets.table.lookup socketid = some si) :
    k.sockets.getDataSocket socketid =
      match si.si_type with
      | .SI_TYPE_UNIX | .SI_TYPE_UNIX_DATA | .SI_TYPE_LISTEN_TCP => none
      | _ => some (Infos.copy {} si) := by
  rw [Sockets.getDataSocket, MsgTable.kSocketGetSIBySocketId_some found]
  simp only [Infos.copy_si_type]
  cases si.si_type <;> rfl

theorem getDataSocket_data {socketid : Int16} {si : SocketInfo}
    (found : k.sockets.table.lookup socketid = some si)
    (type : si.si_type = .SI_TYPE_DATA ∨ si.si_type = .SI_TYPE_UDP ∨ si.si_type = .SI_TYPE_RAW) :
    k.sockets.getDataSocket socketid = some (Infos.copy {} si) := by
  rw [getDataSocket_some found]
  rcases type with type | type | type <;> rw [type]

theorem Inv.afterFailure (inv : k.Inv) (net : Net) (socketid : Int16) :
    (k.afterFailure net socketid).Inv := by
  unfold Koid.afterFailure
  split
  · exact ⟨inv.valid, inv.regular⟩
  · exact inv

/-- A call that fails before it has written. -/
theorem toOwn_ng (net : Net) (socketid : Int16) (data : List UInt8) (time_value : Timeval) :
    ToOwn k (.kSocketSend net socketid data time_value) (some { ok := false }) := by
  refine ⟨?_, ?_, ?_⟩
  · intro ok
    cases ok
  · intro id written
    cases written
  · intro _ _ _
    rfl

theorem Inv.kSocketSend_data (inv : k.Inv) {net : Net} {socketid : Int16} {data : List UInt8}
    {time_value : Timeval} (low : ¬ socketid < 1) {si : SocketInfo}
    (found : k.sockets.table.lookup socketid = some si)
    (type : si.si_type = .SI_TYPE_DATA ∨ si.si_type = .SI_TYPE_UDP ∨ si.si_type = .SI_TYPE_RAW)
    (sound : Sound k (.kSocketSend net socketid data time_value)) :
    ∃ k' sent, k.kSocketSend net socketid data time_value = some (k', sent) ∧
      ToOwn k (.kSocketSend net socketid data time_value) (some sent) ∧ k'.Inv := by
  obtain ⟨here, id⟩ := SocketTable.lookup_id found
  have sound := sound si found type
  simp only [Koid.kSocketSend, if_neg low, getDataSocket_data found type, copy_id]
  cases goes : k.target net si with
  | some id' =>
      rw [goes] at sound
      have own := inv.target_own here sound goes
      obtain ⟨msgs, ok, registered, regular⟩ := inv.regular.regist k.sockets.table
        si.si_socketid MSG_SOCKETMODE_SEND data time_value
      simp only [sendData_some type goes, registered, Option.map_some]
      refine ⟨_, _, rfl, ⟨?_, ?_, ?_⟩, inv.valid, regular⟩
      · intro _
        rw [own, id]
      · intro id'' written
        rw [← Option.some.inj written, own, id]
      · intro si' found' dead
        cases found.symm.trans found'
        exact absurd sound dead
  | none =>
      rw [goes] at sound
      have ng := toOwn_ng (k := k) net socketid data time_value
      obtain ⟨written, stops⟩ := sendData_none type goes
      generalize k.sockets.sendData net (k.si_tls si.si_socketid) (Infos.copy {} si) = sent
        at written stops ⊢
      obtain ⟨on, written'⟩ := sent
      cases written
      cases on with
      | false => exact ⟨_, _, rfl, ng, inv.afterFailure net _⟩
      | true =>
          have full : k.msgs.g_msg_dataid = MSG_MAXMSGNUM := by
            rcases sound with data | ⟨udp, prepared⟩ | full
            · cases stops (.inl data)
            · cases stops (.inr ⟨udp, prepared⟩)
            · exact full
          simp only [MsgTable.kDataRegist_full full, Option.map_some]
          exact ⟨_, _, rfl, ng, inv⟩

/-- A UDP socket that listens comes to the registration, which refuses it. -/
theorem kSocketSend_other {net : Net} {socketid : Int16} {data : List UInt8}
    {time_value : Timeval} (low : ¬ socketid < 1) {si : SocketInfo}
    (found : k.sockets.table.lookup socketid = some si)
    (other : ¬(si.si_type = .SI_TYPE_DATA ∨ si.si_type = .SI_TYPE_UDP ∨
      si.si_type = .SI_TYPE_RAW)) :
    k.kSocketSend net socketid data time_value = some (k, { ok := false }) := by
  simp only [Koid.kSocketSend, if_neg low, getDataSocket_some found]
  have refused (listens : si.si_type = .SI_TYPE_LISTEN_UDP) :
      k.sockets.table.registrable socketid = none := by
    rw [SocketTable.registrable, found]
    simp [Infos.refused, Infos.copy_si_type, listens]
  have id := (SocketTable.lookup_id found).2
  obtain ⟨socketid', status, info⟩ := si
  cases id
  cases info with
  | listenUdp info =>
      simp [SocketInfo.si_type, Sockets.sendData, Infos.copy, Infos.si_type, Infos.si_socketid,
        MsgTable.kDataRegist_refused (refused rfl)]
  | unix | unixData | listenTcp _ => rfl
  | data info => exact absurd (.inl rfl) other
  | udp info => exact absurd (.inr (.inl rfl)) other
  | raw info => exact absurd (.inr (.inr rfl)) other

theorem Inv.kSocketSend (inv : k.Inv) {net : Net} {socketid : Int16} {data : List UInt8}
    {time_value : Timeval} (sound : Sound k (.kSocketSend net socketid data time_value)) :
    ∃ k' sent, k.kSocketSend net socketid data time_value = some (k', sent) ∧
      ToOwn k (.kSocketSend net socketid data time_value) (some sent) ∧ k'.Inv := by
  have ng := toOwn_ng (k := k) net socketid data time_value
  by_cases low : socketid < 1
  · exact ⟨k, _, if_pos low, ng, inv⟩
  · cases found : k.sockets.table.lookup socketid with
    | none =>
        refine ⟨k, _, ?_, ng, inv⟩
        simp only [Koid.kSocketSend, if_neg low, Sockets.getDataSocket,
          MsgTable.kSocketGetSIBySocketId_none found]
    | some si =>
        by_cases type : si.si_type = .SI_TYPE_DATA ∨ si.si_type = .SI_TYPE_UDP ∨
            si.si_type = .SI_TYPE_RAW
        · exact inv.kSocketSend_data low found type sound
        · exact ⟨k, _, kSocketSend_other low found type, ng, inv⟩

/-- What one step of a run does. -/
theorem Inv.step (inv : k.Inv) {e : Event} (allowed : Fresh k e ∧ Sound k e) :
    ∃ k' r, k.step e = some (k', r) ∧ ToOwn k e r ∧ k'.Inv := by
  obtain ⟨fresh, sound⟩ := allowed
  cases e with
  | kSocketOpen o =>
      obtain ⟨k', r, opened, rfl, inv'⟩ := opens_inv inv o (inv.valid.kSocketOpen sound fresh)
      exact ⟨k', none, opened, trivial, inv'⟩
  | kSocketOpenWaitSocket o =>
      obtain ⟨k', r, opened, rfl, inv'⟩ :=
        opens_inv inv o (inv.valid.kSocketOpenWaitSocket sound fresh)
      exact ⟨k', none, opened, trivial, inv'⟩
  | icmp_open o =>
      obtain ⟨k', r, opened, rfl, inv'⟩ := opens_inv inv o (inv.valid.icmp_open fresh sound)
      exact ⟨k', none, opened, trivial, inv'⟩
  | regist o =>
      obtain ⟨k', r, opened, rfl, inv'⟩ := opens_inv inv o (inv.valid.regist fresh)
      exact ⟨k', none, opened, trivial, inv'⟩
  | kSocketClose close stack socketid =>
      have steps := Sockets.kSocketClose_steps close stack socketid k.sockets
      exact ⟨_, none, rfl, trivial, ⟨inv.valid.steps steps, inv.regular⟩⟩
  | kSocketSend net socketid data time_value =>
      obtain ⟨k', sent, ran, toOwn, inv'⟩ := inv.kSocketSend sound
      refine ⟨k', some sent, ?_, toOwn, inv'⟩
      simp only [Koid.step, ran, Option.map_some]

/-- Every run in which data that can go out is for sockets that are alive, and none of the
    failures happens that the code does not look at, sends it on the connections of the sockets
    it is for. -/
theorem ToOwn.of_sound (events : List Event)
    (allowed : Refinement.Meets step (fun k e => Fresh k e ∧ Sound k e) init events) :
    Refinement.Throughout step ToOwn init events :=
  Refinement.Meets.throughout (fun _ _ inv => inv.step) init_inv allowed

/-- A TCP connection with a descriptor that is open. -/
def connected (fds : Int32) : Opening where
  uniq := .data {}
  sockfd := fds
  isOpen := true
  kParserGet := true
  getsockname := true

def sends (socketid : Int16) : Event :=
  .kSocketSend { send := fun _ => true, prepared := true, TLSSessionMode := false } socketid [] ⟨0, 0⟩

theorem ToOwn.of_alive :
    Refinement.Throughout step ToOwn init [.kSocketOpen (connected 5), sends 1] := by
  apply ToOwn.of_sound
  refine ⟨⟨rfl, rfl⟩, ?_⟩
  intro k r stepped
  cases stepped
  refine ⟨⟨trivial, ?_⟩, fun _ _ _ => trivial⟩
  intro si found _
  cases found
  exact rfl

/-- The descriptor of a closed socket is given to the next one, which then gets the data. -/
theorem ToOwn.not_stale :
    let events := [.kSocketOpen (connected 5), .kSocketClose (fun _ => true) {} 1,
      .kSocketOpen (connected 5), sends 1]
    Refinement.Meets step Fresh init events ∧ ¬ Refinement.Throughout step ToOwn init events := by
  constructor
  · refine ⟨rfl, ?_⟩
    intro k r stepped
    cases stepped
    refine ⟨trivial, ?_⟩
    intro k r stepped
    cases stepped
    refine ⟨rfl, ?_⟩
    intro k r _
    exact ⟨trivial, fun _ _ _ => trivial⟩
  · rintro ⟨k, r, stepped, -, k, r, stepped', -, k, r, stepped'', -, k, r, sent, toOwn, -⟩
    cases stepped
    cases stepped'
    cases stepped''
    cases sent
    have own := toOwn.2.1 2 rfl
    exact absurd own (by decide)

end Koid

end Tahi.Koi
