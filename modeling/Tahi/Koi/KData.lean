import Tahi.General.LinkedList
import Tahi.General.Refinement
import Tahi.Koi.KSocket

/-! # The messages of the sockets

Every message that is sent or received is appended to a list. A caller finds it by its
data id, or fetches the first received message it has not read for a socket.
-/

namespace Tahi.Koi

open LinkedList

structure Timeval where
  tv_sec : Int
  tv_usec : Int
deriving DecidableEq, Repr

def MSG_MAXMSGNUM : Int := 0x7fffffff
def MSG_SOCKETMODE_RECV : UInt8 := 1
def MSG_SOCKETMODE_SEND : UInt8 := 2
def MSG_RECVFLG_NOT_READ : UInt8 := 1
def MSG_RECVFLG_READ : UInt8 := 2

structure MsgData where
  msg_dataid : Int
  msg_socketid : Int16
  msg_timestamp : Timeval
  msg_socketmode : UInt8
  msg_s_port : UInt16
  msg_d_port : UInt16
  msg_s_addr : In6Addr
  msg_d_addr : In6Addr
  msg_recvflg : UInt8
  msg_family : UInt8
  msg_data : List UInt8
deriving DecidableEq, Repr

/-- The variables of the table. -/
structure MsgTable where
  heap : Heap MsgData := []
  g_msg_dataid : Int := 0
  g_msg_start_ptr : Option Nat := none
  g_msg_last_ptr : Option Nat := none
deriving DecidableEq, Repr

/-- What a call returns and writes through its pointers. -/
inductive Reply where
  | regist (ok : Bool)
  | clear (ok : Bool)
  | found (msginfo : MsgData)
  | delivered (msginfo : MsgData)
  | noData
  | ng
deriving DecidableEq, Repr

/-- The `switch` of `kDataRegist`. -/
def byMode {α : Type} (mode : UInt8) (send recv zero : α) : α :=
  if mode = MSG_SOCKETMODE_SEND then send
  else if mode = MSG_SOCKETMODE_RECV then recv
  else zero

/-- The message that `kDataRegist` builds. A received message has the addresses of the
    socket the other way round. -/
def MsgData.build (infos : Infos) (dataid : Int) (mode : UInt8) (data : List UInt8)
    (datatime : Timeval) : MsgData :=
  let di := infos.datasocketinfo
  { msg_dataid := dataid
    msg_socketid := infos.si_socketid
    msg_timestamp := datatime
    msg_socketmode := mode
    msg_s_port := byMode mode di.di_s_port di.di_d_port 0
    msg_d_port := byMode mode di.di_d_port di.di_s_port 0
    msg_s_addr := byMode mode di.di_s_addr di.di_d_addr 0
    msg_d_addr := byMode mode di.di_d_addr di.di_s_addr 0
    msg_recvflg := MSG_RECVFLG_NOT_READ
    msg_family :=
      if di.di_family ≠ 0 then di.di_family
      else if infos.listenportinfo.li_family ≠ 0 then infos.listenportinfo.li_family
      else 0
    msg_data := data }

/-- A message that was received and has not been read. -/
def MsgData.unread (msg : MsgData) : Bool :=
  msg.msg_socketmode == MSG_SOCKETMODE_RECV && msg.msg_recvflg == MSG_RECVFLG_NOT_READ

def MsgData.read (msg : MsgData) : MsgData := { msg with msg_recvflg := MSG_RECVFLG_READ }

/-- The types of socket for which no message is registered. -/
def Infos.refused (infos : Infos) : Bool :=
  infos.si_type == some .SI_TYPE_UNIX || infos.si_type == some .SI_TYPE_UNIX_DATA ||
    infos.si_type == some .SI_TYPE_LISTEN_UDP || infos.si_type == some .SI_TYPE_LISTEN_TCP

/-- What the three scans of `kDataGetDataBySocketid` ask of a message. The third one looks
    up its socket. -/
def anydata (infos : Infos) (msg : MsgData) : Infos × Bool := (infos, msg.unread)

def socketidMatch (socketid : Int16) (infos : Infos) (msg : MsgData) : Infos × Bool :=
  (infos, msg.unread && msg.msg_socketid == socketid)

def parentMatch (table : SocketTable) (socketid : Int16) (infos : Infos) (msg : MsgData) :
    Infos × Bool :=
  let (ok, infos) := table.kSocketGetSIBySocketId msg.msg_socketid infos
  (infos, ok && (infos.si_type == some .SI_TYPE_DATA || infos.si_type == some .SI_TYPE_UDP) &&
    infos.si_socket_status == some .SI_STATUS_ALIVE && msg.unread &&
    infos.datasocketinfo.di_parent_socketid == socketid)

namespace MsgTable

def kDataInit (t : MsgTable) : Option MsgTable :=
  match t.g_msg_start_ptr with
  | none => some { t with g_msg_dataid := 0, g_msg_last_ptr := none }
  | some start =>
      (t.heap.freeAll t.heap.length start).map fun heap =>
        { heap := heap, g_msg_dataid := 0, g_msg_start_ptr := none, g_msg_last_ptr := none }

/-- The loop of `kDataClear`, with the messages it clears. The test of `current` against
    the start of the list comes after the list has got a new start. -/
def clearFrom (matches_ : MsgData → Bool) :
    Nat → Heap MsgData → Option Nat → Option Nat → Option Nat →
      Option (Heap MsgData × Option Nat)
  | _, heap, start, _, none => some (heap, start)
  | 0, _, _, _, some _ => none
  | fuel + 1, heap, start, prev, some current =>
      match heap.read current with
      | none => none
      | some node =>
          if !matches_ node.data then clearFrom matches_ fuel heap start (some current) node.next
          else
            match heap.unlink start prev node.next with
            | none => none
            | some (heap, start) =>
                let start := if some current = start then prev else start
                match heap.free current with
                | none => none
                | some heap => clearFrom matches_ fuel heap start prev node.next

def kDataClear (t : MsgTable) (socketid_flag dataid_flag socketid : Int16) (dataid : Int) :
    Option (MsgTable × Bool) :=
  match t.g_msg_start_ptr with
  | none => some (t, true)
  | some start =>
      if socketid_flag = 0 ∧ dataid_flag = 0 then
        if socketid = 0 ∧ dataid = 0 then t.kDataInit.map (·, true)
        else some (t, false)
      else
        (clearFrom
            (fun msg => dataid_flag == 1 && msg.msg_dataid == dataid ||
              socketid_flag == 1 && msg.msg_socketid == socketid)
            t.heap.length t.heap (some start) none (some start)).map
          fun (heap, start) => ({ t with heap := heap, g_msg_start_ptr := start }, true)

def kDataRegist (table : SocketTable) (t : MsgTable) (socketid : Int16) (mode : UInt8)
    (data : List UInt8) (datatime : Timeval) : Option (MsgTable × Bool) :=
  if t.g_msg_dataid = MSG_MAXMSGNUM then some (t, false)
  else
    match table.kSocketGetSIBySocketId socketid {} with
    | (false, _) => some (t, false)
    | (true, infos) =>
        if infos.refused then some (t, false)
        else
          let dataid := t.g_msg_dataid + 1
          let new := MsgData.build infos dataid mode data datatime
          (t.heap.append t.g_msg_start_ptr t.g_msg_last_ptr new).map
            fun (heap, start, last) => (⟨heap, dataid, start, last⟩, true)

def kDataGetDataByDataid (t : MsgTable) (dataid : Int) : Option Reply :=
  match t.g_msg_start_ptr with
  | none => some .noData
  | some start =>
      (t.heap.find (fun msg => msg.msg_dataid == dataid) start).map fun
        | none => .noData
        | some (_, _, node) => .found node.data

/-- The scan for a socket, after its type is known. -/
def scanFor (table : SocketTable) (socketid : Int16) (infos : Infos) :
    Option (Infos → MsgData → Infos × Bool) :=
  if socketid = 0 then some anydata
  else
    match infos.si_type with
    | some .SI_TYPE_UDP | some .SI_TYPE_DATA | some .SI_TYPE_RAW => some (socketidMatch socketid)
    | some .SI_TYPE_LISTEN_TCP | some .SI_TYPE_LISTEN_UDP => some (parentMatch table socketid)
    | _ => none

/-- The scan, and the variables when it starts. Socket 0 has no socket information. `none`
    is a socket that is not there, or not one to read from. -/
def openSocket (table : SocketTable) (socketid : Int16) :
    Option (Infos × (Infos → MsgData → Infos × Bool)) :=
  let socket :=
    if 0 < socketid then table.kSocketGetSIBySocketId socketid {}
    else (!decide (socketid < 0), {})
  match socket with
  | (false, _) => none
  | (true, infos) => (scanFor table socketid infos).map fun test => (infos, test)

/-- The message that was found is copied, and marked as read. -/
def deliver (t : MsgTable) (infos : Infos) (current : Nat) (node : Node MsgData) :
    Option (MsgTable × Reply) :=
  let msg_family :=
    if infos.datasocketinfo.di_family ≠ 0 then infos.datasocketinfo.di_family
    else if infos.listenportinfo.li_family ≠ 0 then infos.listenportinfo.li_family
    else node.data.msg_family
  (t.heap.write current { node with data := node.data.read }).map fun heap =>
    ({ t with heap := heap }, .delivered { node.data.read with msg_family := msg_family })

def kDataGetDataBySocketid (table : SocketTable) (t : MsgTable) (socketid : Int16) :
    Option (MsgTable × Reply) :=
  match t.g_msg_start_ptr with
  | none => some (t, .noData)
  | some start =>
      match openSocket table socketid with
      | none => some (t, .ng)
      | some (infos, test) =>
          match t.heap.scan test t.heap.length infos none start with
          | none => none
          | some (_, none) => some (t, .noData)
          | some (infos, some (_, current, node)) => t.deliver infos current node

/-- The calls. The socket table may be another one each time. -/
inductive Op where
  | regist (table : SocketTable) (socketid : Int16) (mode : UInt8) (data : List UInt8)
      (datatime : Timeval)
  | clear (socketid_flag dataid_flag socketid : Int16) (dataid : Int)
  | getByDataid (dataid : Int)
  | getBySocketid (table : SocketTable) (socketid : Int16)
deriving DecidableEq, Repr

def step (t : MsgTable) : Op → Option (MsgTable × Reply)
  | .regist table socketid mode data datatime =>
      (t.kDataRegist table socketid mode data datatime).map fun (t, ok) => (t, .regist ok)
  | .clear socketid_flag dataid_flag socketid dataid =>
      (t.kDataClear socketid_flag dataid_flag socketid dataid).map fun (t, ok) => (t, .clear ok)
  | .getByDataid dataid => (t.kDataGetDataByDataid dataid).map fun reply => (t, reply)
  | .getBySocketid table socketid => t.kDataGetDataBySocketid table socketid

end MsgTable

end Tahi.Koi
