import Tahi.Koi.KDataLog

/-! # The timers of the receive requests

A receive request that finds no data is kept in a list until data arrives for its socket or
its time is over. `kRecvTimerProc` goes through the list, and takes out of it what it answers.
-/

namespace Tahi.Koi

open LinkedList

structure RecvTimeout where
  rt_sockethandle : Int32
  rt_socketid : Int16
  rt_expire : Timeval
  rt_request_num : Int16
deriving DecidableEq, Repr

def CM_RESULT_OK : Int16 := 0
def CM_RESULT_SIG_NG_TIMEOUT : Int16 := UInt16.toInt16 0x8101

/-- What `recv_ack_return` writes. The data of a message that was found is in it. -/
structure RecvAck where
  handle : Int32
  request_num : Int16
  result : Int16
  socketid : Int16
  msgdata : Option MsgData
deriving DecidableEq, Repr

/-- The variables of the table, and the messages. -/
structure Timers where
  heap : Heap RecvTimeout := []
  g_rt_start_ptr : Option Nat := none
  g_rt_last_ptr : Option Nat := none
  g_rt_num : Int := 0
  msgs : MsgTable := {}
deriving DecidableEq, Repr

/-- The time has come. -/
def RecvTimeout.expired (timer : RecvTimeout) (current_time : Timeval) : Bool :=
  !(decide (timer.rt_expire.tv_sec > current_time.tv_sec) ||
    timer.rt_expire.tv_sec == current_time.tv_sec &&
      decide (timer.rt_expire.tv_usec > current_time.tv_usec))

def RecvTimeout.timeoutAck (timer : RecvTimeout) : RecvAck where
  handle := timer.rt_sockethandle
  request_num := timer.rt_request_num
  result := CM_RESULT_SIG_NG_TIMEOUT
  socketid := timer.rt_socketid
  msgdata := none

def RecvTimeout.dataAck (timer : RecvTimeout) (msg_data : MsgData) : RecvAck where
  handle := timer.rt_sockethandle
  request_num := timer.rt_request_num
  result := CM_RESULT_OK
  socketid := msg_data.msg_socketid
  msgdata := some msg_data

/-- The time is that of the request, and `sec` seconds. -/
def RecvTimeout.build (handle : Int32) (socketid : Int16) (sec : Int) (request_num : Int16)
    (set_time : Timeval) : RecvTimeout where
  rt_sockethandle := handle
  rt_socketid := socketid
  rt_expire := { set_time with tv_sec := set_time.tv_sec + sec }
  rt_request_num := request_num

namespace Timers

def link (t : Timers) (new : RecvTimeout) : Option (Timers × Bool) :=
  (t.heap.append t.g_rt_start_ptr t.g_rt_last_ptr new).map fun (heap, start, last) =>
    ({ t with heap := heap, g_rt_start_ptr := start, g_rt_last_ptr := last,
              g_rt_num := t.g_rt_num + 1 }, true)

def kRecvTimerSet (t : Timers) (g_socket_socketid : Int16) (handle : Int32) (socketid : Int16)
    (sec : Int) (request_num : Int16) (set_time : Timeval) : Option (Timers × Bool) :=
  if socketid < 0 then some (t, false)
  else if t.g_rt_num = g_socket_socketid.toInt then some (t, false)
  else
    let new := RecvTimeout.build handle socketid sec request_num set_time
    match t.g_rt_start_ptr with
    | none => t.link new
    | some start =>
        match t.heap.find (fun timer => timer.rt_socketid == socketid) start with
        | none => none
        | some (some _) => some (t, false)
        | some none => t.link new

/-- The last pointer becomes the previous node also where that is not the last one. -/
def kRecvTimerRemove (t : Timers) (socketid : Int16) : Option Timers :=
  if socketid < 0 then some t
  else
    match t.g_rt_start_ptr with
    | none => none
    | some start =>
        match t.heap.find (fun timer => timer.rt_socketid == socketid) start with
        | none => none
        | some none => some t
        | some (some (previous, current, node)) =>
            let last :=
              match previous with
              | none => t.g_rt_last_ptr
              | some previous => some previous
            match t.heap.unlink (some start) previous node.next with
            | none => none
            | some (heap, start) =>
                (heap.free current).map fun heap =>
                  { t with heap := heap, g_rt_start_ptr := start, g_rt_last_ptr := last,
                           g_rt_num := t.g_rt_num - 1 }

/-- The body of the loop of `kRecvTimerProc`. -/
def proc (table : SocketTable) (current_time : Timeval) (timer : RecvTimeout) (t : Timers) :
    Option (Timers × List RecvAck) :=
  match t.msgs.kDataGetDataBySocketid table timer.rt_socketid with
  | none => none
  | some (msgs, reply) =>
      let t := { t with msgs := msgs }
      match reply with
      | .delivered msg_data =>
          (t.kRecvTimerRemove timer.rt_socketid).map (·, [timer.dataAck msg_data])
      | .noData =>
          if timer.expired current_time then
            (t.kRecvTimerRemove timer.rt_socketid).map (·, [timer.timeoutAck])
          else some (t, [])
      -- An error is not answered.
      | _ => (t.kRecvTimerRemove timer.rt_socketid).map (·, [])

/-- The loop. The next node is read from the current one after the body. -/
def procFrom (table : SocketTable) (current_time : Timeval) :
    Nat → Option Nat → Timers → Option (Timers × List RecvAck)
  | _, none, t => some (t, [])
  | 0, some _, _ => none
  | fuel + 1, some current_position, t =>
      match t.heap.read current_position with
      | none => none
      | some node =>
          match t.proc table current_time node.data with
          | none => none
          | some (t, acks) =>
              match t.heap.read current_position with
              | none => none
              | some node =>
                  (procFrom table current_time fuel node.next t).map fun (t, acks') =>
                    (t, acks ++ acks')

def kRecvTimerProc (table : SocketTable) (current_time : Timeval) (t : Timers) :
    Option (Timers × List RecvAck) :=
  if t.g_rt_num = 0 then some (t, [])
  else procFrom table current_time t.heap.length t.g_rt_start_ptr t

/-- The requests, the messages that arrive and the sweeps. -/
inductive Op where
  | set (g_socket_socketid : Int16) (handle : Int32) (socketid : Int16) (sec : Int)
      (request_num : Int16) (set_time : Timeval)
  | arrive (table : SocketTable) (socketid : Int16) (data : List UInt8) (datatime : Timeval)
  | proc (table : SocketTable) (current_time : Timeval)
deriving DecidableEq, Repr

inductive Reply where
  | set (ok : Bool)
  | arrive (ok : Bool)
  | proc (acks : List RecvAck)
deriving DecidableEq, Repr

def step (t : Timers) : Op → Option (Timers × Reply)
  | .set g_socket_socketid handle socketid sec request_num set_time =>
      (t.kRecvTimerSet g_socket_socketid handle socketid sec request_num set_time).map
        fun (t, ok) => (t, .set ok)
  | .arrive table socketid data datatime =>
      (t.msgs.kDataRegist table socketid MSG_SOCKETMODE_RECV data datatime).map
        fun (msgs, ok) => ({ t with msgs := msgs }, .arrive ok)
  | .proc table current_time =>
      (t.kRecvTimerProc table current_time).map fun (t, acks) => (t, .proc acks)

end Timers

/-! ## The requests that are pending -/

/-- The requests that were accepted and not answered, in their order, and the messages. -/
structure Pending where
  timers : List RecvTimeout := []
  log : Log := {}

/-- Nothing has arrived and nobody waits. -/
abbrev Pending.nothing : Pending := { log := .nothing }

namespace Pending

open Timers (Op)

/-- A request is answered when there is data for its socket, else when its time has come, and
    is kept as long as neither is so. -/
def sweep (table : SocketTable) (current_time : Timeval) :
    List RecvTimeout → Log → List RecvTimeout × Log × List RecvAck
  | [], log => ([], log, [])
  | timer :: timers, log =>
      match log.step (.getBySocketid table timer.rt_socketid) with
      | (log, .delivered msg_data) =>
          let (kept, log, acks) := sweep table current_time timers log
          (kept, log, timer.dataAck msg_data :: acks)
      | (log, _) =>
          let (kept, log, acks) := sweep table current_time timers log
          if timer.expired current_time then (kept, log, timer.timeoutAck :: acks)
          else (timer :: kept, log, acks)

def step (p : Pending) : Op → Pending × Timers.Reply
  | .set g_socket_socketid handle socketid sec request_num set_time =>
      if socketid < 0 ∨ (p.timers.length : Int) = g_socket_socketid.toInt ∨
          socketid ∈ p.timers.map RecvTimeout.rt_socketid then
        (p, .set false)
      else
        let new := RecvTimeout.build handle socketid sec request_num set_time
        ({ p with timers := p.timers ++ [new] }, .set true)
  | .arrive table socketid data datatime =>
      match p.log.step (.regist table socketid MSG_SOCKETMODE_RECV data datatime) with
      | (log, .regist ok) => ({ p with log := log }, .arrive ok)
      | (log, _) => ({ p with log := log }, .arrive false)
  | .proc table current_time =>
      let (timers, log, acks) := sweep table current_time p.timers p.log
      ({ timers := timers, log := log }, .proc acks)

/-- A sweep answers each request once, with its own number, or keeps it. -/
theorem sweep_perm (table : SocketTable) (current_time : Timeval) (timers : List RecvTimeout)
    (log : Log) :
    List.Perm
      ((sweep table current_time timers log).2.2.map RecvAck.request_num ++
        (sweep table current_time timers log).1.map RecvTimeout.rt_request_num)
      (timers.map RecvTimeout.rt_request_num) := by
  induction timers generalizing log with
  | nil => exact .nil
  | cons timer timers ih =>
      rw [sweep]
      split
      · exact (ih _).cons _
      · dsimp only
        split
        · exact (ih _).cons _
        · exact List.perm_middle.trans ((ih _).cons _)

/-- No request is to be answered or given up. -/
def NoneDue (p : Pending) : Op → Prop
  | .proc table current_time =>
      ∀ timer ∈ p.timers,
        (p.log.step (.getBySocketid table timer.rt_socketid)).2 = .noData ∧
          timer.expired current_time = false
  | _ => True

end Pending

end Tahi.Koi
