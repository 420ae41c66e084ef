import Mathlib.Data.List.Basic

/-! # The socket table

The sockets are in a list, in the order they were opened, and are searched by their ids.
-/

namespace Tahi.Koi

abbrev In6Addr := BitVec 128

structure DatasocketInfo where
  di_s_port : UInt16 := 0
  di_d_port : UInt16 := 0
  di_s_addr : In6Addr := 0
  di_d_addr : In6Addr := 0
  di_parent_socketid : Int16 := 0
  di_family : UInt8 := 0
deriving DecidableEq, Repr

structure ListenportInfo where
  li_family : UInt8 := 0
deriving DecidableEq, Repr

inductive SiType where
  | SI_TYPE_UNIX
  | SI_TYPE_UNIX_DATA
  | SI_TYPE_UDP
  | SI_TYPE_DATA
  | SI_TYPE_LISTEN_UDP
  | SI_TYPE_LISTEN_TCP
  | SI_TYPE_RAW
deriving DecidableEq, Repr

inductive SiStatus where
  | SI_STATUS_ALIVE
  | SI_STATUS_CLOSE
deriving DecidableEq, Repr

/-- What `si_uniq_info_ptr` points to depends on the type of the socket. -/
inductive UniqInfo where
  | unix
  | unixData
  | udp (info : DatasocketInfo)
  | data (info : DatasocketInfo)
  | listenUdp (info : DatasocketInfo)
  | listenTcp (info : ListenportInfo)
  | raw (info : DatasocketInfo)
deriving DecidableEq, Repr

structure SocketInfo where
  si_socketid : Int16
  si_socket_status : SiStatus
  si_uniq_info : UniqInfo
deriving DecidableEq, Repr

def SocketInfo.si_type (si : SocketInfo) : SiType :=
  match si.si_uniq_info with
  | .unix => .SI_TYPE_UNIX
  | .unixData => .SI_TYPE_UNIX_DATA
  | .udp _ => .SI_TYPE_UDP
  | .data _ => .SI_TYPE_DATA
  | .listenUdp _ => .SI_TYPE_LISTEN_UDP
  | .listenTcp _ => .SI_TYPE_LISTEN_TCP
  | .raw _ => .SI_TYPE_RAW

def SOCKET_MAXNUM : Nat := 0x7fff

/-- No socket is opened after `SOCKET_MAXNUM` of them. -/
structure SocketTable where
  sockets : List SocketInfo
  bounded : sockets.length ≤ SOCKET_MAXNUM
deriving DecidableEq, Repr

/-- The variables that a caller passes to `kSocketGetSIBySocketId`. They start as zeros,
    and keep what an earlier call has left in them. -/
structure Infos where
  socketinfo : Option SocketInfo := none
  datasocketinfo : DatasocketInfo := {}
  listenportinfo : ListenportInfo := {}
deriving DecidableEq, Repr

namespace Infos

def si_type (infos : Infos) : Option SiType := infos.socketinfo.map SocketInfo.si_type

def si_socket_status (infos : Infos) : Option SiStatus :=
  infos.socketinfo.map SocketInfo.si_socket_status

def si_socketid (infos : Infos) : Int16 :=
  match infos.socketinfo with
  | none => 0
  | some si => si.si_socketid

/-- The copies at the end of `kSocketGetSIBySocketId`. -/
def copy (infos : Infos) (si : SocketInfo) : Infos :=
  let infos := { infos with socketinfo := some si }
  match si.si_uniq_info with
  | .unix | .unixData => infos
  | .udp info | .listenUdp info | .data info | .raw info => { infos with datasocketinfo := info }
  | .listenTcp info => { infos with listenportinfo := info }

theorem copy_si_type (infos : Infos) (si : SocketInfo) :
    (infos.copy si).si_type = some si.si_type := by
  unfold copy
  split <;> rfl

end Infos

namespace SocketTable

/-- The loop over the table, from `si` on. It ends with a socket that does not match when
    there are more than `SOCKET_MAXNUM`. -/
def search (socketid : Int16) : Nat → SocketInfo → List SocketInfo → Option SocketInfo
  | 0, si, _ => some si
  | loop + 1, si, rest =>
      if si.si_socketid = socketid then some si
      else
        match rest with
        | [] => none
        | next :: rest => search socketid loop next rest

/-- Whether it returns `RETURN_OK`, and the variables of the caller. -/
def kSocketGetSIBySocketId (table : SocketTable) (socketid : Int16) (infos : Infos) :
    Bool × Infos :=
  match table.sockets with
  | [] => (false, infos)
  | first :: rest =>
      if socketid < 0 then (false, infos)
      else
        match search socketid SOCKET_MAXNUM first rest with
        | none => (false, infos)
        | some si => (true, infos.copy si)

/-- The socket with an id. -/
def lookup (table : SocketTable) (socketid : Int16) : Option SocketInfo :=
  if socketid < 0 then none else table.sockets.find? fun si => si.si_socketid == socketid

theorem search_eq (socketid : Int16) {loop : Nat} (si : SocketInfo) {rest : List SocketInfo}
    (enough : (si :: rest).length ≤ loop) :
    search socketid loop si rest = (si :: rest).find? fun si => si.si_socketid == socketid := by
  induction loop generalizing si rest with
  | zero => simp at enough
  | succ loop ih =>
      by_cases here : si.si_socketid = socketid
      · simp [search, here]
      · cases rest with
        | nil => simp [search, here]
        | cons next rest =>
            rw [search, if_neg here, List.find?_cons_of_neg (by simpa using here),
              ih next (Nat.le_of_succ_le_succ enough)]

theorem kSocketGetSIBySocketId_eq (table : SocketTable) (socketid : Int16) (infos : Infos) :
    table.kSocketGetSIBySocketId socketid infos =
      match table.lookup socketid with
      | none => (false, infos)
      | some si => (true, infos.copy si) := by
  obtain ⟨sockets, bounded⟩ := table
  unfold kSocketGetSIBySocketId lookup
  cases sockets with
  | nil => simp
  | cons first rest =>
      simp only [search_eq socketid first bounded]
      by_cases negative : socketid < 0
      · simp only [negative, if_true]
      · simp only [negative, if_false]

end SocketTable

end Tahi.Koi
