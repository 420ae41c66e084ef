import Tahi.Koi.KDispatcherCommand
import Tahi.Koi.KSocketOpen

/-! # The addresses of a socket

`kSocketOpen` and `kSocketOpenWaitSocket` try the addresses that they have got, one after the other.
The descriptor is in one variable, which some of the ways to the next address reset and others leave
with a descriptor that has been closed.
-/

namespace Tahi.Koi

inductive AiFamily where
  | AF_INET
  | AF_INET6
deriving DecidableEq, Repr

/-- What the calls for one address come to. -/
structure Candidate where
  ai_family : AiFamily
  /-- The address is for `SOCK_DGRAM`. -/
  dgram : Bool
  getnameinfo : Bool
  /-- The descriptor, or -1. -/
  socket : Int32
  SO_REUSEADDR : Bool
  SO_REUSEPORT : Bool
  SO_SNDBUF : Bool
  SO_RCVBUF : Bool
  SO_BROADCAST : Bool
  linkname2ifindex : Bool
  /-- `IPV6_MULTICAST_IF` or `IP_MULTICAST_IF`. -/
  multicastIf : Bool
  IP_RECVDSTADDR : Bool
  /-- `DSTADDR_SOCKOPT` or `DSTADDR_SOCKOPT6`. -/
  dstaddr : Bool
  IP_RECVIF : Bool
  SIOCGIFADDR : Bool
  /-- `IP_ADD_MEMBERSHIP` or `IPV6_JOIN_GROUP`. -/
  membership : Bool
  bind : Bool
  connect : Bool
  kTLSConnect : Bool
  listen : Bool
deriving DecidableEq, Repr

/-- How the loop over the addresses is left. -/
inductive LoopEnd where
  /-- It goes on with a list that has been freed. -/
  | freed
  /-- It returns `RETURN_NG`. -/
  | returns
  /-- With the variable, and whether its descriptor is open. -/
  | falls (sockfd : Int32) (isOpen : Bool)
deriving DecidableEq, Repr

/-- What both functions are called with, and what they get from the system. -/
structure OpenCalls where
  candidates : List Candidate
  multicast : Bool
  broadcast : Bool
  tlsmode : Bool
  uniq : UniqInfo
  kParserGet : Bool
  getsockname : Bool
  /-- What `IsExistSameSocket` says for a socket that listens. -/
  isExistSameSocket : Bool

namespace OpenCalls

variable (c : OpenCalls)

/-! ## The loops -/

/-- What `kSocketOpen` sets, in this order. After the first failure it closes the descriptor and
    takes the next address. -/
def options (a : Candidate) : List Bool :=
  [a.SO_REUSEADDR, a.SO_REUSEPORT, a.SO_SNDBUF, a.SO_RCVBUF] ++
    (if c.multicast ∧ a.ai_family = .AF_INET6 then [a.linkname2ifindex, a.multicastIf] else []) ++
    (if c.multicast ∧ a.ai_family = .AF_INET then [a.multicastIf] else []) ++
    (if c.broadcast then [a.SO_BROADCAST] else [])

/-- The loop of `kSocketOpen`. -/
def openLoop : List Candidate → Int32 → Bool → LoopEnd
  | [], sockfd, isOpen => .falls sockfd isOpen
  | a :: rest, _, _ =>
      if !a.getnameinfo then .returns
      else if a.socket < 0 then openLoop rest a.socket false
      else if !(c.options a).all id then openLoop rest a.socket false
      else if !a.bind then .freed
      else if !a.connect then openLoop rest (-1) false
      else if c.tlsmode && !a.kTLSConnect then openLoop rest (-1) false
      else .falls a.socket true

def listensUdp : Bool :=
  match c.uniq with
  | .listenUdp _ => true
  | _ => false

/-- What `kSocketOpenWaitSocket` sets in front of the multicast address. -/
def waitOptions (a : Candidate) : List Bool :=
  [a.SO_REUSEADDR, a.SO_REUSEPORT] ++
    (if a.ai_family = .AF_INET then
      [a.IP_RECVDSTADDR] ++ (if c.listensUdp then [a.dstaddr] else []) ++ [a.IP_RECVIF]
    else []) ++
    (if a.ai_family = .AF_INET6 ∧ c.listensUdp then [a.dstaddr] else [])

/-- What it sets from there on. -/
def moreOptions (a : Candidate) : List Bool :=
  (if c.multicast then [a.membership] else []) ++
    (if c.broadcast then [a.SO_BROADCAST] else []) ++
    (if c.listensUdp then [a.SO_SNDBUF, a.SO_RCVBUF] else [])

/-- It returns when the address of the interface is not known. -/
def leaves (a : Candidate) : Bool := c.multicast && a.ai_family = .AF_INET && !a.SIOCGIFADDR

/-- The loop of `kSocketOpenWaitSocket`. The `break` behind `listen` is a comment. -/
def waitLoop : List Candidate → Int32 → Bool → LoopEnd
  | [], sockfd, isOpen => .falls sockfd isOpen
  | a :: rest, _, _ =>
      if a.socket = -1 then waitLoop rest a.socket false
      else if !(c.waitOptions a).all id then waitLoop rest a.socket false
      else if c.leaves a then .returns
      else if !(c.moreOptions a).all id then waitLoop rest a.socket false
      else if !a.bind then waitLoop rest (-1) false
      else if !a.getnameinfo then .returns
      else if a.dgram then .falls a.socket true
      else if !a.listen then waitLoop rest (-1) false
      else waitLoop rest a.socket true

/-! ## What follows them -/

/-- The calls behind the loop. -/
def opening (sockfd : Int32) (isOpen : Bool) : Opening where
  uniq := c.uniq
  tls := if c.tlsmode then .ssl else .off
  sockfd := sockfd
  isOpen := isOpen
  kParserGet := c.kParserGet
  getsockname := c.getsockname

end OpenCalls

namespace Sockets

/-- What `kSocketOpen` returns, and the variables. -/
def openEnd (o : Opening) (g : Sockets) : Option (Int32 × Sockets) :=
  if o.sockfd < 0 then some (RETURN_NG, g)
  else
    let g := (g.kSocketMakeSocketStatusClose o.sockfd).selectIn o.sockfd
    if !o.kParserGet then some (RETURN_NG, { g with g_readfds := selectOut o.sockfd g.g_readfds })
    else if !o.getsockname then some (RETURN_NG, g.skipId)
    else (g.register o.uniq o.sockfd o.isOpen).map (RETURN_OK, ·)

/-- The same for `kSocketOpenWaitSocket`. -/
def waitEnd (o : Opening) (g : Sockets) : Option (Int32 × Sockets) :=
  if o.sockfd < 0 then some (RETURN_NG, g)
  else
    let g := (g.kSocketMakeSocketStatusClose o.sockfd).selectIn o.sockfd
    match o.uniq with
    | .listenTcp _ =>
        if !o.getsockname then some (RETURN_NG, g.skipId)
        else (g.register o.uniq o.sockfd o.isOpen).map (RETURN_OK, ·)
    | .listenUdp _ =>
        if !o.getsockname then some (RETURN_NG, g.skipId)
        else if !o.kParserGet then
          some (RETURN_NG, { g.skipId with g_readfds := selectOut o.sockfd g.g_readfds })
        else (g.register o.uniq o.sockfd o.isOpen).map (RETURN_OK, ·)
    | _ => some (RETURN_NG, g.leak o.sockfd)

theorem openEnd_snd {g : Sockets} (place : g.g_socket_socketid.toInt ≠ SOCKET_MAXNUM)
    (o : Opening) : (g.openEnd o).map Prod.snd = g.kSocketOpen o := by
  unfold openEnd kSocketOpen
  rw [if_neg place]
  split_ifs <;> simp [Function.comp_def]

theorem waitEnd_snd {g : Sockets} (place : g.g_socket_socketid.toInt ≠ SOCKET_MAXNUM)
    (o : Opening) : (g.waitEnd o).map Prod.snd = g.kSocketOpenWaitSocket o := by
  unfold waitEnd kSocketOpenWaitSocket
  rw [if_neg place]
  by_cases negative : o.sockfd < 0
  · simp [negative]
  · rw [if_neg negative, if_neg negative]
    cases uniq : o.uniq with
    | listenTcp _ | listenUdp _ =>
        dsimp only
        split_ifs <;> simp [Function.comp_def]
    | _ => rfl

end Sockets

namespace OpenCalls

variable (c : OpenCalls)

/-- `kSocketOpen`, when the addresses are known. -/
def kSocketOpen (g : Sockets) : Option (Int32 × Sockets) :=
  if g.g_socket_socketid.toInt = SOCKET_MAXNUM then some (RETURN_NG, g)
  else
    match c.openLoop c.candidates (-1) false with
    | .freed => none
    | .returns => some (RETURN_NG, g)
    | .falls sockfd isOpen => g.openEnd (c.opening sockfd isOpen)

/-- `kSocketOpenWaitSocket`, when the addresses are known. -/
def kSocketOpenWaitSocket (g : Sockets) : Option (Int32 × Sockets) :=
  if c.isExistSameSocket then some (RETURN_OK, g)
  else if g.g_socket_socketid.toInt = SOCKET_MAXNUM then some (RETURN_NG, g)
  else
    match c.waitLoop c.candidates (-1) false with
    | .freed => none
    | .returns => some (RETURN_NG, g)
    | .falls sockfd isOpen => g.waitEnd (c.opening sockfd isOpen)

/-- An address for which all steps of `kSocketOpen` were successful. -/
def opens (a : Candidate) : Bool :=
  a.getnameinfo && !(a.socket < 0) && (c.options a).all id && a.bind && a.connect &&
    !(c.tlsmode && !a.kTLSConnect)

/-- The same for `kSocketOpenWaitSocket`. -/
def listens (a : Candidate) : Bool :=
  a.socket != -1 && (c.waitOptions a).all id && !c.leaves a && (c.moreOptions a).all id && a.bind &&
    a.getnameinfo && (a.dgram || a.listen)

end OpenCalls

namespace Sockets

/-- A new socket that is alive, with the descriptor of an address that has `passed`, or no change
    of the table and the descriptors that are selected. -/
def OpensOrNot (passed : Int32 → Prop) (g : Sockets) (r : Option (Int32 × Sockets)) : Prop :=
  ∃ ret g', r = some (ret, g') ∧
    ((ret = RETURN_OK ∧ ∃ fds si, passed fds ∧ si.alive ∧
        g'.table.sockets = (g.kSocketMakeSocketStatusClose fds).table.sockets ++ [si] ∧
        g'.si_sockethandle si.si_socketid = fds ∧
        ∀ d, d ∈ g'.g_readfds ↔ d = fds ∨ d ∈ g.g_readfds) ∨
      (ret = RETURN_NG ∧ g'.table = g.table ∧ ∀ d, d ∈ g'.g_readfds ↔ d ∈ g.g_readfds))

/-- No socket that is alive has lost the descriptor. -/
def NoneAlive (fds : Int32) (g : Sockets) : Prop :=
  ∀ si, g.table.sockets.find? (fun si => g.si_sockethandle si.si_socketid == fds) = some si →
    ¬ si.alive

/-- What follows the select operation: the descriptor is taken out again, it is left in, or the
    socket is registered. -/
inductive Ending where
  | undone
  | left
  | registered
deriving DecidableEq, Repr

def openEnding (o : Opening) : Ending :=
  if !o.kParserGet then .undone else if !o.getsockname then .left else .registered

def waitEnding (o : Opening) : Ending :=
  match o.uniq with
  | .listenTcp _ => if !o.getsockname then .left else .registered
  | .listenUdp _ =>
      if !o.getsockname then .left else if !o.kParserGet then .undone else .registered
  | _ => .left

/-- When an ending leaves things as they should be. -/
def EndsWell (ending : Ending) (fds : Int32) (passed : Prop) (g : Sockets) : Prop :=
  fds < 0 ∨
    match ending with
    | .undone => g.NoneAlive fds ∧ fds ∉ g.g_readfds
    | .left => g.NoneAlive fds ∧ fds ∈ g.g_readfds
    | .registered => passed ∧ g.table.sockets.length < SOCKET_MAXNUM

end Sockets

namespace OpenCalls

variable (c : OpenCalls)

/-- An address with which the loop of `kSocketOpen` ends. -/
def openDecides (a : Candidate) : Bool :=
  !a.getnameinfo || !(a.socket < 0) && (c.options a).all id &&
    (!a.bind || a.connect && !(c.tlsmode && !a.kTLSConnect))

/-- An address with which the loop of `kSocketOpenWaitSocket` ends. -/
def waitDecides (a : Candidate) : Bool :=
  a.socket != -1 && (c.waitOptions a).all id &&
    (c.leaves a || (c.moreOptions a).all id && a.bind && (!a.getnameinfo || a.dgram))

/-- For `kSocketOpen`, the first address that decides is not one that cannot be bound, and without
    one the last address has set its options. -/
def OpenSound (g : Sockets) : Prop :=
  let ending := Sockets.openEnding (c.opening 0 false)
  g.g_socket_socketid.toInt = SOCKET_MAXNUM ∨
    match c.candidates.find? c.openDecides with
    | some a => ¬ a.getnameinfo ∨ a.bind ∧ g.EndsWell ending a.socket True
    | none =>
        match c.candidates.getLast? with
        | none => True
        | some a => (c.options a).all id ∨ g.EndsWell ending a.socket False

/-- For `kSocketOpenWaitSocket`, without an address that decides it is the last one that counts. -/
def WaitSound (g : Sockets) : Prop :=
  let ending := Sockets.waitEnding (c.opening 0 false)
  ¬ c.isExistSameSocket ∧
    (g.g_socket_socketid.toInt = SOCKET_MAXNUM ∨
      match c.candidates.find? c.waitDecides with
      | some a => c.leaves a ∨ ¬ a.getnameinfo ∨ g.EndsWell ending a.socket True
      | none =>
          match c.candidates.getLast? with
          | none => True
          | some a =>
              a.socket = -1 ∨
                if (c.waitOptions a).all id ∧ (c.moreOptions a).all id then
                  ¬ a.bind ∨ ¬ a.listen ∨ g.EndsWell ending a.socket True
                else
                  g.EndsWell ending a.socket (∃ b ∈ c.candidates, c.listens b ∧ b.socket = a.socket))

end OpenCalls

/-! ## The endings -/

namespace Sockets

variable {g : Sockets} {o : Opening}

theorem table_eq_iff (fds : Int32) (valid : ¬ fds < 0) :
    (g.kSocketMakeSocketStatusClose fds).table = g.table ↔ g.NoneAlive fds := by
  unfold kSocketMakeSocketStatusClose NoneAlive
  rw [if_neg valid, List.find?_eq_bind_findIdx?_getElem?]
  cases first : g.table.sockets.findIdx? fun si => g.si_sockethandle si.si_socketid == fds with
  | none => simp
  | some i =>
      obtain ⟨inside, -⟩ := List.findIdx?_eq_some_iff_getElem.mp first
      simp only [Option.bind_some, List.getElem?_eq_getElem inside, Option.some.injEq, forall_eq']
      constructor
      · intro same alive
        have sockets := congrArg (fun table => table.sockets[i]?) same
        simp only [SocketTable.setClose, List.getElem?_modify_eq,
          List.getElem?_eq_getElem inside] at sockets
        rw [← Option.some.inj sockets] at alive
        cases alive
      · intro dead
        have kept := SocketInfo.closed_of_not_alive dead
        have same : g.table.sockets.modify i SocketInfo.closed = g.table.sockets := by
          apply List.ext_getElem?
          intro j
          rw [List.getElem?_modify]
          split_ifs with here
          · rw [← here, List.getElem?_eq_getElem inside]
            exact congrArg some kept
          · simp
        simp only [SocketTable.setClose, same]

theorem length_makeSocketStatusClose (fds : Int32) (g : Sockets) :
    (g.kSocketMakeSocketStatusClose fds).table.sockets.length = g.table.sockets.length := by
  unfold kSocketMakeSocketStatusClose
  split <;> [rfl; split <;> simp [SocketTable.setClose]]

/-- What an ending is for the table and the descriptors that are selected. -/
def Ends (ending : Ending) (o : Opening) (g : Sockets) (r : Option (Int32 × Sockets)) : Prop :=
  let prepared := (g.kSocketMakeSocketStatusClose o.sockfd).selectIn o.sockfd
  if o.sockfd < 0 then r = some (RETURN_NG, g)
  else
    match ending with
    | .undone => ∃ g', r = some (RETURN_NG, g') ∧ g'.table = prepared.table ∧
        g'.g_readfds = selectOut o.sockfd prepared.g_readfds
    | .left => ∃ g', r = some (RETURN_NG, g') ∧ g'.table = prepared.table ∧
        g'.g_readfds = prepared.g_readfds
    | .registered => r = (prepared.register o.uniq o.sockfd o.isOpen).map (RETURN_OK, ·)

theorem openEnd_ends (o : Opening) (g : Sockets) :
    Ends (openEnding o) o g (g.openEnd o) := by
  unfold Ends openEnd openEnding
  by_cases negative : o.sockfd < 0
  · rw [if_pos negative, if_pos negative]
  · rw [if_neg negative, if_neg negative]
    cases o.kParserGet with
    | false => exact ⟨_, rfl, rfl, rfl⟩
    | true =>
        cases o.getsockname with
        | false => exact ⟨_, rfl, rfl, rfl⟩
        | true => rfl

theorem waitEnd_ends (o : Opening) (g : Sockets) :
    Ends (waitEnding o) o g (g.waitEnd o) := by
  unfold Ends waitEnd waitEnding
  by_cases negative : o.sockfd < 0
  · rw [if_pos negative, if_pos negative]
  · rw [if_neg negative, if_neg negative]
    cases uniq : o.uniq with
    | listenTcp info =>
        cases o.getsockname with
        | false => exact ⟨_, rfl, rfl, rfl⟩
        | true => rfl
    | listenUdp info =>
        cases o.getsockname with
        | false => exact ⟨_, rfl, rfl, rfl⟩
        | true =>
            cases o.kParserGet with
            | false => exact ⟨_, rfl, rfl, rfl⟩
            | true => rfl
    | _ => exact ⟨_, rfl, rfl, rfl⟩

theorem opensOrNot_ng {passed : Int32 → Prop} {r : Option (Int32 × Sockets)} {g' : Sockets}
    (returned : r = some (RETURN_NG, g')) : OpensOrNot passed g r ↔
      g'.table = g.table ∧ ∀ d, d ∈ g'.g_readfds ↔ d ∈ g.g_readfds := by
  constructor
  · rintro ⟨ret, g'', returned', ⟨ok, -⟩ | ⟨-, same⟩⟩
    · cases returned.symm.trans returned'
      exact absurd ok (by decide)
    · cases returned.symm.trans returned'
      exact same
  · intro same
    exact ⟨_, _, returned, .inr ⟨rfl, same⟩⟩

/-- A descriptor that is put in and taken out again must not have been there. -/
theorem selectOut_same_iff {fds : Int32} (valid : ¬ fds < 0) (readfds : List Int32) :
    (∀ d, d ∈ selectOut fds (fds :: readfds) ↔ d ∈ readfds) ↔ fds ∉ readfds := by
  simp only [selectOut, if_neg valid, List.mem_filter, List.mem_cons, decide_eq_true_eq]
  constructor
  · intro same here
    exact ((same _).mpr here).2 rfl
  · intro out d
    constructor
    · rintro ⟨rfl | there, other⟩
      · exact absurd rfl other
      · exact there
    · intro there
      refine ⟨.inr there, ?_⟩
      rintro rfl
      exact out there

theorem select_same_iff (fds : Int32) (readfds : List Int32) :
    (∀ d, d ∈ fds :: readfds ↔ d ∈ readfds) ↔ fds ∈ readfds := by
  simp only [List.mem_cons]
  constructor
  · intro same
    exact (same _).mp (.inl rfl)
  · intro there d
    constructor
    · rintro (rfl | here)
      · exact there
      · exact here
    · exact .inr

theorem readfds_makeSocketStatusClose (fds : Int32) (g : Sockets) :
    (g.kSocketMakeSocketStatusClose fds).g_readfds = g.g_readfds := by
  unfold kSocketMakeSocketStatusClose
  split <;> [rfl; split <;> rfl]

/-- A socket is registered when the table has a place for it. -/
theorem opensOrNot_registered {passed : Int32 → Prop} {r : Option (Int32 × Sockets)}
    (registered : r = (((g.kSocketMakeSocketStatusClose o.sockfd).selectIn o.sockfd).register o.uniq
      o.sockfd o.isOpen).map (RETURN_OK, ·)) :
    OpensOrNot passed g r ↔ passed o.sockfd ∧ g.table.sockets.length < SOCKET_MAXNUM := by
  have length := length_makeSocketStatusClose o.sockfd g
  by_cases place : g.table.sockets.length < SOCKET_MAXNUM
  · have room : ((g.kSocketMakeSocketStatusClose o.sockfd).selectIn
        o.sockfd).table.sockets.length < SOCKET_MAXNUM := by rwa [selectIn, length]
    rw [and_iff_left place]
    simp only [register, room, dif_pos, Option.map_some] at registered
    constructor
    · rintro ⟨ret, g', returned, ⟨-, fds, si, pass, -, sockets, handle, -⟩ | ⟨ng, -⟩⟩
      · cases registered.symm.trans returned
        have ids : si.si_socketid =
            ((g.kSocketMakeSocketStatusClose o.sockfd).selectIn
              o.sockfd).g_socket_socketid + 1 := by
          have last := congrArg (fun l => l.getLast?.map SocketInfo.si_socketid) sockets
          simpa using last.symm
        dsimp only at handle
        rw [if_pos ids] at handle
        rwa [handle]
      · cases registered.symm.trans returned
        exact absurd ng (by decide)
    · intro pass
      refine ⟨_, _, registered, .inl ⟨rfl, o.sockfd, _, pass, rfl, rfl, if_pos rfl, ?_⟩⟩
      intro d
      simp only [selectIn, readfds_makeSocketStatusClose, List.mem_cons]
  · have full : ¬ ((g.kSocketMakeSocketStatusClose o.sockfd).selectIn
        o.sockfd).table.sockets.length < SOCKET_MAXNUM := by rwa [selectIn, length]
    refine iff_of_false ?_ (fun both => place both.2)
    rintro ⟨ret, g', returned, -⟩
    simp only [register, full, dif_neg, not_false_iff, Option.map_none] at registered
    cases registered.symm.trans returned

theorem opensOrNot_iff {passed : Int32 → Prop} {r : Option (Int32 × Sockets)} {ending : Ending}
    (ends : Ends ending o g r) :
    OpensOrNot passed g r ↔ g.EndsWell ending o.sockfd (passed o.sockfd) := by
  unfold Ends at ends
  unfold EndsWell
  by_cases negative : o.sockfd < 0
  · rw [if_pos negative] at ends
    rw [opensOrNot_ng ends]
    simp [negative]
  · rw [if_neg negative] at ends
    rw [or_iff_right negative]
    have closes : (g.kSocketMakeSocketStatusClose o.sockfd).table = g.table ↔
        g.NoneAlive o.sockfd := table_eq_iff o.sockfd negative
    cases ending with
    | undone =>
        obtain ⟨g', returned, table, readfds⟩ := ends
        rw [opensOrNot_ng returned, table, readfds]
        refine and_congr closes ?_
        rw [selectIn, readfds_makeSocketStatusClose]
        exact selectOut_same_iff negative g.g_readfds
    | left =>
        obtain ⟨g', returned, table, readfds⟩ := ends
        rw [opensOrNot_ng returned, table, readfds]
        refine and_congr closes ?_
        rw [selectIn, readfds_makeSocketStatusClose]
        exact select_same_iff o.sockfd g.g_readfds
    | registered => exact opensOrNot_registered ends

end Sockets

/-! ## Where the loops end -/

namespace OpenCalls

variable (c : OpenCalls)

/-- What an address that does not decide leaves in the variable of `kSocketOpen`. -/
def openLeft (a : Candidate) : Int32 :=
  if a.socket < 0 ∨ ¬ (c.options a).all id then a.socket else -1

/-- The loop of `kSocketOpen`, by the address that decides or the last one. -/
def openResult (candidates : List Candidate) (sockfd : Int32) (isOpen : Bool) : LoopEnd :=
  match candidates.find? c.openDecides with
  | some a => if !a.getnameinfo then .returns else if !a.bind then .freed else .falls a.socket true
  | none =>
      match candidates.getLast? with
      | none => .falls sockfd isOpen
      | some a => .falls (c.openLeft a) false

theorem openResult_cons {a : Candidate} (skips : c.openDecides a = false) (rest : List Candidate)
    (sockfd : Int32) (isOpen : Bool) :
    c.openResult (a :: rest) sockfd isOpen = c.openResult rest (c.openLeft a) false := by
  unfold openResult
  rw [List.find?_cons_of_neg (by simp [skips]), List.getLast?_cons]
  cases rest.getLast? <;> rfl

theorem openLoop_eq (candidates : List Candidate) (sockfd : Int32) (isOpen : Bool) :
    c.openLoop candidates sockfd isOpen = c.openResult candidates sockfd isOpen := by
  induction candidates generalizing sockfd isOpen with
  | nil => rfl
  | cons a rest ih =>
      rw [openLoop]
      cases decides : c.openDecides a with
      | true =>
          rw [openResult, List.find?_cons_of_pos decides]
          simp only [openDecides, Bool.or_eq_true, Bool.and_eq_true, Bool.not_eq_true',
            decide_eq_false_iff_not] at decides
          cases name : a.getnameinfo with
          | false => simp [name]
          | true =>
              rw [name, or_iff_right (by decide)] at decides
              obtain ⟨⟨socket, options⟩, bind | ⟨connect, tls⟩⟩ := decides
              · simp [name, socket, options, bind]
              · cases bind : a.bind <;> simp [name, socket, options, bind, connect, tls]
      | false =>
          rw [openResult_cons c decides, ← ih, openLeft]
          simp only [openDecides, Bool.or_eq_false_iff, Bool.not_eq_false'] at decides
          obtain ⟨name, later⟩ := decides
          by_cases socket : a.socket < 0
          · simp [name, socket]
          · cases options : (c.options a).all id with
            | false => simp [name, socket]
            | true =>
                simp only [socket, options, decide_false, Bool.not_false, Bool.true_and,
                  Bool.or_eq_false_iff, Bool.not_eq_false'] at later
                obtain ⟨bind, later⟩ := later
                cases connect : a.connect with
                | false => simp [name, socket, bind]
                | true =>
                    rw [connect, Bool.true_and, Bool.not_eq_false'] at later
                    simp [name, socket, bind, later]

/-- What an address that does not decide leaves in the variable of `kSocketOpenWaitSocket`, and
    whether it is open. -/
def waitLeft (a : Candidate) : Int32 × Bool :=
  if a.socket = -1 ∨ ¬((c.waitOptions a).all id ∧ (c.moreOptions a).all id) then (a.socket, false)
  else if !a.bind || !a.listen then (-1, false)
  else (a.socket, true)

/-- The loop of `kSocketOpenWaitSocket`, by the address that decides or the last one. -/
def waitResult (candidates : List Candidate) (sockfd : Int32) (isOpen : Bool) : LoopEnd :=
  match candidates.find? c.waitDecides with
  | some a => if c.leaves a || !a.getnameinfo then .returns else .falls a.socket true
  | none =>
      match candidates.getLast? with
      | none => .falls sockfd isOpen
      | some a => .falls (c.waitLeft a).1 (c.waitLeft a).2

theorem waitResult_cons {a : Candidate} (skips : c.waitDecides a = false) (rest : List Candidate)
    (sockfd : Int32) (isOpen : Bool) :
    c.waitResult (a :: rest) sockfd isOpen =
      c.waitResult rest (c.waitLeft a).1 (c.waitLeft a).2 := by
  unfold waitResult
  rw [List.find?_cons_of_neg (by simp [skips]), List.getLast?_cons]
  cases rest.getLast? <;> rfl

theorem waitLoop_eq (candidates : List Candidate) (sockfd : Int32) (isOpen : Bool) :
    c.waitLoop candidates sockfd isOpen = c.waitResult candidates sockfd isOpen := by
  induction candidates generalizing sockfd isOpen with
  | nil => rfl
  | cons a rest ih =>
      rw [waitLoop]
      cases decides : c.waitDecides a with
      | true =>
          rw [waitResult, List.find?_cons_of_pos decides]
          simp only [waitDecides, Bool.or_eq_true, Bool.and_eq_true, Bool.not_eq_true',
            bne_iff_ne] at decides
          obtain ⟨⟨socket, options⟩, leaves | ⟨⟨more, bind⟩, name | dgram⟩⟩ := decides
          · simp [socket, options, leaves]
          · cases leaves : c.leaves a <;> simp [socket, options, leaves, more, bind, name]
          · cases leaves : c.leaves a <;> cases name : a.getnameinfo <;>
              simp [socket, options, leaves, more, bind, name, dgram]
      | false =>
          rw [waitResult_cons c decides, ← ih, waitLeft]
          by_cases socket : a.socket = -1
          · simp [socket]
          · cases options : (c.waitOptions a).all id with
            | false => simp [socket]
            | true =>
                simp only [waitDecides, bne_iff_ne.mpr socket, options, Bool.true_and,
                  Bool.or_eq_false_iff] at decides
                obtain ⟨leaves, later⟩ := decides
                cases more : (c.moreOptions a).all id with
                | false => simp [socket, leaves]
                | true =>
                    cases bind : a.bind with
                    | false => simp [socket, leaves]
                    | true =>
                        simp only [more, bind, Bool.true_and, Bool.or_eq_false_iff,
                          Bool.not_eq_false'] at later
                        obtain ⟨name, dgram⟩ := later
                        cases listen : a.listen <;> simp [socket, leaves, name, dgram]

/-! ## Both functions -/

/-- The descriptor of an address for which all steps of `kSocketOpen` were successful. -/
def Opened (fds : Int32) : Prop := ∃ a ∈ c.candidates, c.opens a ∧ a.socket = fds

def Listened (fds : Int32) : Prop := ∃ a ∈ c.candidates, c.listens a ∧ a.socket = fds

variable {c} {a : Candidate}

theorem opens_decides (opens : c.opens a) : c.openDecides a := by
  simp only [OpenCalls.opens, Bool.and_eq_true] at opens
  obtain ⟨⟨⟨⟨⟨-, socket⟩, options⟩, -⟩, connect⟩, tls⟩ := opens
  rw [openDecides, socket, options, connect, tls, Bool.true_and, Bool.true_and, Bool.or_true,
    Bool.or_true]

theorem opens_of_decides (decides : c.openDecides a) (name : a.getnameinfo) (bind : a.bind) :
    c.opens a := by
  simp only [openDecides, name, bind, Bool.not_true, Bool.false_or, Bool.and_eq_true] at decides
  obtain ⟨⟨socket, options⟩, connect, tls⟩ := decides
  simp only [OpenCalls.opens, name, socket, options, bind, connect, tls, Bool.and_self]

theorem listens_of_decides (decides : c.waitDecides a) (stays : c.leaves a = false)
    (name : a.getnameinfo) : c.listens a := by
  simp only [waitDecides, stays, name, Bool.not_true, Bool.false_or, Bool.and_eq_true] at decides
  obtain ⟨⟨socket, options⟩, ⟨more, bind⟩, dgram⟩ := decides
  simp only [OpenCalls.listens, socket, options, stays, more, bind, name, dgram, Bool.not_false,
    Bool.true_or, Bool.and_self]

/-- The last address of a TCP socket. -/
theorem listens_of_last (skips : c.waitDecides a = false) (socket : a.socket ≠ -1)
    (options : (c.waitOptions a).all id ∧ (c.moreOptions a).all id) (bind : a.bind)
    (listen : a.listen) : c.listens a := by
  have socket' : (a.socket != -1) = true := bne_iff_ne.mpr socket
  simp only [waitDecides, socket', options, bind, Bool.and_self, Bool.true_and,
    Bool.or_eq_false_iff, Bool.not_eq_false'] at skips
  obtain ⟨stays, name, -⟩ := skips
  simp only [OpenCalls.listens, socket', options, stays, bind, name, listen, Bool.not_false,
    Bool.or_true, Bool.and_self]

theorem unchanged {passed : Int32 → Prop} (g : Sockets) :
    g.OpensOrNot passed (some (RETURN_NG, g)) :=
  ⟨_, _, rfl, .inr ⟨rfl, rfl, fun _ => Iff.rfl⟩⟩

/-- An ending does not depend on the descriptor. -/
theorem endsWell_falls {passed : Int32 → Prop} (c : OpenCalls) (g : Sockets) (sockfd : Int32)
    (isOpen : Bool) : g.OpensOrNot passed (g.openEnd (c.opening sockfd isOpen)) ↔
      g.EndsWell (Sockets.openEnding (c.opening 0 false)) sockfd (passed sockfd) :=
  @Sockets.opensOrNot_iff g (c.opening sockfd isOpen) passed _ _ (Sockets.openEnd_ends _ g)

theorem endsWell_waits {passed : Int32 → Prop} (c : OpenCalls) (g : Sockets) (sockfd : Int32)
    (isOpen : Bool) : g.OpensOrNot passed (g.waitEnd (c.opening sockfd isOpen)) ↔
      g.EndsWell (Sockets.waitEnding (c.opening 0 false)) sockfd (passed sockfd) :=
  @Sockets.opensOrNot_iff g (c.opening sockfd isOpen) passed _ _ (Sockets.waitEnd_ends _ g)

theorem endsWell_minus {g : Sockets} {ending : Sockets.Ending} {passed : Prop} :
    g.EndsWell ending (-1) passed := .inl (by decide)

theorem kSocketOpen_iff (c : OpenCalls) (g : Sockets) :
    g.OpensOrNot c.Opened (c.kSocketOpen g) ↔ c.OpenSound g := by
  unfold kSocketOpen OpenSound
  by_cases full : g.g_socket_socketid.toInt = SOCKET_MAXNUM
  · rw [if_pos full]
    exact iff_of_true (unchanged g) (.inl full)
  · simp only [if_neg full, or_iff_right full, openLoop_eq, openResult]
    cases found : c.candidates.find? c.openDecides with
    | some a =>
        have decides := List.find?_some found
        cases name : a.getnameinfo with
        | false =>
            simp only [name, Bool.not_false, if_true]
            exact iff_of_true (unchanged g) (.inl (by decide))
        | true =>
            cases bind : a.bind with
            | false =>
                simp only [name, bind, Bool.not_true, Bool.not_false, Bool.false_eq_true, if_false,
                  if_true]
                refine iff_of_false ?_ (by simp)
                rintro ⟨_, _, none, -⟩
                cases none
            | true =>
                have opened : c.Opened a.socket := ⟨a, List.mem_of_find?_eq_some found,
                  opens_of_decides decides name bind, rfl⟩
                simp only [name, bind, Bool.not_true, Bool.false_eq_true, if_false,
                  endsWell_falls c g a.socket true, opened, not_true_eq_false, false_or, true_and]
    | none =>
        have noneOpened : ∀ fds, ¬ c.Opened fds := by
          rintro fds ⟨a, here, opens, -⟩
          exact List.find?_eq_none.mp found a here (opens_decides opens)
        cases last : c.candidates.getLast? with
        | none => exact iff_of_true ((endsWell_falls c g (-1) false).mpr endsWell_minus) trivial
        | some a =>
            simp only [endsWell_falls, noneOpened, openLeft]
            split_ifs with stale
            · rcases stale with negative | failed
              · exact iff_of_true (.inl negative) (.inr (.inl negative))
              · rw [or_iff_right failed]
            · rw [not_or, not_not] at stale
              exact iff_of_true endsWell_minus (.inl stale.2)

/-- What the last address leaves in the variable. -/
theorem endsWell_last {g : Sockets} (here : a ∈ c.candidates) (skips : c.waitDecides a = false)
    (ending : Sockets.Ending) :
    g.EndsWell ending (c.waitLeft a).1 (c.Listened (c.waitLeft a).1) ↔
      a.socket = -1 ∨
        if (c.waitOptions a).all id ∧ (c.moreOptions a).all id then
          ¬ a.bind ∨ ¬ a.listen ∨ g.EndsWell ending a.socket True
        else g.EndsWell ending a.socket (∃ b ∈ c.candidates, c.listens b ∧ b.socket = a.socket) := by
  by_cases socket : a.socket = -1
  · have left : c.waitLeft a = (-1, false) := by rw [waitLeft, if_pos (.inl socket), socket]
    rw [left]
    exact iff_of_true endsWell_minus (.inl socket)
  · rw [or_iff_right socket]
    by_cases options : (c.waitOptions a).all id ∧ (c.moreOptions a).all id
    · have left : c.waitLeft a =
          if !a.bind || !a.listen then (-1, false) else (a.socket, true) :=
        if_neg (not_or.mpr ⟨socket, not_not.mpr options⟩)
      rw [if_pos options, left]
      cases bind : a.bind with
      | false => exact iff_of_true endsWell_minus (.inl (by decide))
      | true =>
          cases listen : a.listen with
          | false => exact iff_of_true endsWell_minus (.inr (.inl (by decide)))
          | true =>
              have listened : c.Listened a.socket :=
                ⟨a, here, listens_of_last skips socket options bind listen, rfl⟩
              simp [listened]
    · have left : c.waitLeft a = (a.socket, false) := if_pos (.inr options)
      rw [if_neg options, left]
      rfl

theorem kSocketOpenWaitSocket_iff (c : OpenCalls) (g : Sockets) :
    g.OpensOrNot c.Listened (c.kSocketOpenWaitSocket g) ↔ c.WaitSound g := by
  unfold kSocketOpenWaitSocket WaitSound
  cases exists_ : c.isExistSameSocket with
  | true =>
      simp only [if_true]
      refine iff_of_false ?_ (by simp)
      rintro ⟨ret, g', returned, ⟨-, fds, si, -, -, sockets, -⟩ | ⟨ng, -⟩⟩
      · cases returned
        have length := congrArg List.length sockets
        rw [List.length_append, Sockets.length_makeSocketStatusClose] at length
        simp at length
      · cases returned
        exact absurd ng (by decide)
  | false =>
      simp only [Bool.false_eq_true, if_false, not_false_iff, true_and]
      by_cases full : g.g_socket_socketid.toInt = SOCKET_MAXNUM
      · rw [if_pos full]
        exact iff_of_true (unchanged g) (.inl full)
      · simp only [if_neg full, or_iff_right full, waitLoop_eq, waitResult]
        cases found : c.candidates.find? c.waitDecides with
        | some a =>
            have decides := List.find?_some found
            cases leaves : c.leaves a with
            | true =>
                simp only [leaves, Bool.true_or, if_true]
                exact iff_of_true (unchanged g) (.inl trivial)
            | false =>
                cases name : a.getnameinfo with
                | false =>
                    simp only [name, Bool.not_false, Bool.or_true, if_true]
                    exact iff_of_true (unchanged g) (.inr (.inl (by decide)))
                | true =>
                    have listened : c.Listened a.socket := ⟨a, List.mem_of_find?_eq_some found,
                      listens_of_decides decides leaves name, rfl⟩
                    simp only [leaves, name, Bool.not_true, Bool.or_self, Bool.false_eq_true,
                      if_false, endsWell_waits c g a.socket true, listened, not_true_eq_false,
                      false_or]
        | none =>
            cases last : c.candidates.getLast? with
            | none => exact iff_of_true ((endsWell_waits c g (-1) false).mpr endsWell_minus) trivial
            | some a =>
                have here : a ∈ c.candidates := List.mem_of_getLast? last
                have skips : c.waitDecides a = false := by
                  simpa using List.find?_eq_none.mp found a here
                simp only [endsWell_waits]
                exact endsWell_last here skips _

/-- Both functions do what they should exactly when no address that cannot be bound comes before one
    that decides, no closed descriptor is left by the last address, and the descriptor is taken out
    of those that are selected when the socket is not registered. -/
theorem opensOrNot_sound (c : OpenCalls) (g : Sockets) :
    (g.OpensOrNot c.Opened (c.kSocketOpen g) ↔ c.OpenSound g) ∧
      (g.OpensOrNot c.Listened (c.kSocketOpenWaitSocket g) ↔ c.WaitSound g) :=
  ⟨kSocketOpen_iff c g, kSocketOpenWaitSocket_iff c g⟩

/-- An address for which `SO_REUSEADDR` fails. -/
def notReused : Candidate where
  ai_family := .AF_INET6
  dgram := false
  getnameinfo := true
  socket := 5
  SO_REUSEADDR := false
  SO_REUSEPORT := true
  SO_SNDBUF := true
  SO_RCVBUF := true
  SO_BROADCAST := true
  linkname2ifindex := true
  multicastIf := true
  IP_RECVDSTADDR := true
  dstaddr := true
  IP_RECVIF := true
  SIOCGIFADDR := true
  membership := true
  bind := true
  connect := true
  kTLSConnect := true
  listen := true

/-- `getsockname` fails with the descriptor that has been closed, which is selected then. -/
theorem not_opensOrNot : ¬ ∀ (c : OpenCalls) (g : Sockets),
    g.OpensOrNot c.Opened (c.kSocketOpen g) ∧
      g.OpensOrNot c.Listened (c.kSocketOpenWaitSocket g) := by
  intro claim
  let c : OpenCalls := {
    candidates := [notReused]
    multicast := false
    broadcast := false
    tlsmode := false
    uniq := .data {}
    kParserGet := true
    getsockname := false
    isExistSameSocket := false }
  let g : Sockets := {
    table := ⟨[], Nat.zero_le _⟩
    g_socket_socketid := 0
    si_sockethandle := fun _ => 0
    g_readfds := []
    connections := fun _ => none }
  obtain ⟨ret, g', returned, ⟨ok, -⟩ | ⟨-, -, selected⟩⟩ := (claim c g).1
  · cases returned
    exact absurd ok (by decide)
  · cases returned
    exact absurd ((selected 5).mp (List.mem_singleton_self _)) List.not_mem_nil

end OpenCalls

end Tahi.Koi
