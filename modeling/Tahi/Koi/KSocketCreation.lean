import Tahi.General.LinkedList
import Tahi.General.Refinement
import Tahi.Koi.KDispatcherCommand
import Tahi.Koi.KSocketOpen

/-! # The ids of the sockets

There are six ways to a new socket, each with its own copy of what gives out an id, tests the limit
and puts the socket behind the last one. The list of the sockets is one of pointers here.
-/

namespace Tahi.Koi

open LinkedList

structure SocketEntry where
  si_type : SiType
  si_socketid : Int16
  si_sockethandle : Int32
  si_socket_status : SiStatus
deriving DecidableEq, Repr

structure SocketList where
  heap : Heap SocketEntry := []
  g_socket_start_ptr : Option ℕ := none
  g_socket_last_ptr : Option ℕ := none
  g_socket_socketid : Int16 := 0

/-- What the calls come to that a new socket needs. A socket that is not opened, or for which there
    is no memory, has no descriptor. -/
structure SocketCalls where
  si_type : SiType
  sockfd : Option Int32
  malloc : Bool
  kParserGet : Bool
  getsockname : Bool
deriving DecidableEq, Repr

namespace SocketList

/-! ## The parts -/

/-- The loop of `kSocketMakeSocketStatusClose`. It ends at a socket that does not match when there
    are more than `SOCKET_MAXNUM`. -/
def closeFrom (heap : Heap SocketEntry) (sockethandle : Int32) : ℕ → ℕ → Option (Heap SocketEntry)
  | loop, current =>
      match heap.read current with
      | none => none
      | some si =>
          let close := heap.write current
            { si with data := { si.data with si_socket_status := .SI_STATUS_CLOSE } }
          match loop with
          | 0 => close
          | loop + 1 =>
              if si.data.si_sockethandle = sockethandle then close
              else
                match si.next with
                | none => some heap
                | some next => closeFrom heap sockethandle loop next

def kSocketMakeSocketStatusClose (sockethandle : Int32) (t : SocketList) : Option SocketList :=
  match t.g_socket_start_ptr with
  | none => some t
  | some start =>
      if sockethandle < 0 then some t
      else (closeFrom t.heap sockethandle SOCKET_MAXNUM start).map fun heap => { t with heap := heap }

def full (t : SocketList) : Prop := t.g_socket_socketid.toInt = SOCKET_MAXNUM

instance decidableFull (t : SocketList) : Decidable t.full :=
  inferInstanceAs (Decidable (_ = _))

def increment (t : SocketList) : SocketList :=
  { t with g_socket_socketid := t.g_socket_socketid + 1 }

def decrement (t : SocketList) : SocketList :=
  { t with g_socket_socketid := t.g_socket_socketid - 1 }

/-- The socket with the id that has been given out goes behind the last one. -/
def connect (si_type : SiType) (sockethandle : Int32) (t : SocketList) : Option SocketList :=
  (t.heap.append t.g_socket_start_ptr t.g_socket_last_ptr
    ⟨si_type, t.g_socket_socketid, sockethandle, .SI_STATUS_ALIVE⟩).map fun (heap, start, last) =>
      { t with heap := heap, g_socket_start_ptr := start, g_socket_last_ptr := last }

/-! ## The ways to a new socket -/

section Creation

variable (o : SocketCalls) (t : SocketList)

def kSocketOpen : Option SocketList :=
  if t.full then some t
  else
    match o.sockfd with
    | none => some t
    | some sockfd => do
        let t ← t.kSocketMakeSocketStatusClose sockfd
        if !o.malloc then some t
        else
          let t := t.increment
          if !o.kParserGet then some t.decrement
          else if !o.getsockname then some t
          else t.connect o.si_type sockfd

/-- The id is not given back when the parser is not found. -/
def kSocketOpenWaitSocket : Option SocketList :=
  if t.full then some t
  else
    match o.sockfd with
    | none => some t
    | some sockfd => do
        let t ← t.kSocketMakeSocketStatusClose sockfd
        if !o.malloc then some t
        else
          let t := t.increment
          if !o.getsockname then some t
          else if o.si_type = .SI_TYPE_LISTEN_UDP ∧ !o.kParserGet then some t
          else t.connect o.si_type sockfd

/-- There is no test of the limit. -/
def kSocketOpenUnixdSocket : Option SocketList :=
  match o.sockfd with
  | none => some t
  | some sockfd => do
      let t ← t.kSocketMakeSocketStatusClose sockfd
      if !o.malloc then some t else t.increment.connect .SI_TYPE_UNIX sockfd

/-- The same here. -/
def kSocketOpenRaw : Option SocketList :=
  match o.sockfd with
  | none => some t
  | some sockfd => do
      let t ← t.kSocketMakeSocketStatusClose sockfd
      if !o.malloc then some t
      else
        let t := t.increment
        if !o.kParserGet then some t.decrement else t.connect .SI_TYPE_RAW sockfd

/-- A connection that has been accepted. -/
def kSocketRegist : Option SocketList :=
  match o.sockfd with
  | none => some t
  | some handle =>
      if t.full then some t
      else if !o.malloc then some t
      else t.increment.connect o.si_type handle

def kSocketRegistUnixdSocketInfo : Option SocketList := t.kSocketRegist o

def kSocketRegistDataSocketInfo : Option SocketList := t.kSocketRegist o

end Creation

inductive Creation where
  | kSocketOpen (o : SocketCalls)
  | kSocketOpenWaitSocket (o : SocketCalls)
  | kSocketOpenUnixdSocket (o : SocketCalls)
  | kSocketOpenRaw (o : SocketCalls)
  | kSocketRegistUnixdSocketInfo (o : SocketCalls)
  | kSocketRegistDataSocketInfo (o : SocketCalls)
deriving DecidableEq, Repr

def create (t : SocketList) : Creation → Option SocketList
  | .kSocketOpen o => t.kSocketOpen o
  | .kSocketOpenWaitSocket o => t.kSocketOpenWaitSocket o
  | .kSocketOpenUnixdSocket o => t.kSocketOpenUnixdSocket o
  | .kSocketOpenRaw o => t.kSocketOpenRaw o
  | .kSocketRegistUnixdSocketInfo o => t.kSocketRegistUnixdSocketInfo o
  | .kSocketRegistDataSocketInfo o => t.kSocketRegistDataSocketInfo o

def step (t : SocketList) (op : Creation) : Option (SocketList × Unit) :=
  (t.create op).map (·, ())

/-! ## The invariant -/

def ids (cells : List (ℕ × SocketEntry)) : List Int16 := cells.map fun cell => cell.2.si_socketid

/-- A list that ends with the last pointer, with positive ids that increase. -/
structure Ordered (t : SocketList) (cells : List (ℕ × SocketEntry)) : Prop where
  linked : Linked t.heap t.g_socket_start_ptr cells
  tail : cells ≠ [] → t.g_socket_last_ptr = lastOf none cells
  increasing : (ids cells).Pairwise (· < ·)
  positive : ∀ socketid ∈ ids cells, 0 < socketid

/-- The ids are distinct and positive, from the head of the list to its tail. -/
def Orderly (t : SocketList) : Prop := ∃ cells, t.Ordered cells

/-- No id is above the counter, and there are no more sockets than ids. -/
structure Counted (t : SocketList) (cells : List (ℕ × SocketEntry)) : Prop
    extends t.Ordered cells where
  counter : 0 ≤ t.g_socket_socketid
  upto : ∀ socketid ∈ ids cells, socketid ≤ t.g_socket_socketid
  enough : cells.length ≤ t.g_socket_socketid.toNatClampNeg

def Inv (t : SocketList) : Prop := ∃ cells, t.Counted cells

/-- A socket whose way has no test of the limit has an id left. -/
def Limited (t : SocketList) : Creation → Prop
  | .kSocketOpenUnixdSocket o => o.sockfd ≠ none → o.malloc → ¬ t.full
  | .kSocketOpenRaw o => o.sockfd ≠ none → o.malloc → o.kParserGet → ¬ t.full
  | _ => True

section Parts

variable {t t' : SocketList} {cells cells' : List (ℕ × SocketEntry)}

/-- Closing a socket changes its status only. -/
theorem closeFrom_linked {heap : Heap SocketEntry} {start : Option ℕ} (sockethandle : Int32)
    (loop : ℕ) {before after : List (ℕ × SocketEntry)} {current : ℕ} {si : SocketEntry}
    (linked : Linked heap start (before ++ (current, si) :: after)) :
    ∃ heap' cells', closeFrom heap sockethandle loop current = some heap' ∧
      Linked heap' start cells' ∧ cells'.map Prod.fst =
        (before ++ (current, si) :: after).map Prod.fst ∧
      ids cells' = ids (before ++ (current, si) :: after) := by
  have close : ∃ heap' cells', heap.write current
        { data := { si with si_socket_status := .SI_STATUS_CLOSE }, next := first after none } =
          some heap' ∧ Linked heap' start cells' ∧
      cells'.map Prod.fst = (before ++ (current, si) :: after).map Prod.fst ∧
      ids cells' = ids (before ++ (current, si) :: after) :=
    ⟨_, _, Heap.write_of_read linked.read _, linked.change _, by simp, by simp [ids]⟩
  induction loop generalizing before current si after with
  | zero =>
      rw [closeFrom, linked.read]
      exact close
  | succ loop ih =>
      rw [closeFrom, linked.read]
      dsimp only
      by_cases found : si.si_sockethandle = sockethandle
      · rw [if_pos found]
        exact close
      · rw [if_neg found]
        cases after with
        | nil => exact ⟨heap, _, rfl, linked, rfl, rfl⟩
        | cons next after =>
            obtain ⟨p, x⟩ := next
            have onward : before ++ (current, si) :: (p, x) :: after =
                (before ++ [(current, si)]) ++ (p, x) :: after := by simp
            rw [onward] at linked ⊢
            refine ih linked ?_
            exact ⟨_, _, Heap.write_of_read linked.read _, linked.change _, by simp, by simp [ids]⟩

theorem lastOf_eq (cells : List (ℕ × SocketEntry)) :
    lastOf none cells = (cells.map Prod.fst).getLast? := by
  rw [List.getLast?_map, lastOf]
  cases cells.getLast? <;> rfl

/-- The invariant depends on the places and the ids of the sockets only. -/
theorem Counted.congr (counted : t.Counted cells)
    (linked : Linked t'.heap t'.g_socket_start_ptr cells')
    (places : cells'.map Prod.fst = cells.map Prod.fst) (same : ids cells' = ids cells)
    (last : t'.g_socket_last_ptr = t.g_socket_last_ptr)
    (counter : t'.g_socket_socketid = t.g_socket_socketid) : t'.Counted cells' where
  linked := linked
  tail := by
    intro some_
    rw [last, lastOf_eq, places, ← lastOf_eq]
    apply counted.tail
    rintro rfl
    exact some_ (List.map_eq_nil_iff.mp places)
  increasing := by
    rw [same]
    exact counted.increasing
  positive := by
    rw [same]
    exact counted.positive
  counter := by
    rw [counter]
    exact counted.counter
  upto := by
    rw [same, counter]
    exact counted.upto
  enough := by
    have length := congrArg List.length places
    rw [List.length_map, List.length_map] at length
    rw [length, counter]
    exact counted.enough

theorem Counted.kSocketMakeSocketStatusClose (counted : t.Counted cells) (sockethandle : Int32) :
    ∃ t' cells', t.kSocketMakeSocketStatusClose sockethandle = some t' ∧ t'.Counted cells' ∧
      t'.g_socket_socketid = t.g_socket_socketid := by
  unfold SocketList.kSocketMakeSocketStatusClose
  cases start : t.g_socket_start_ptr with
  | none => exact ⟨t, cells, rfl, counted, rfl⟩
  | some p =>
      by_cases negative : sockethandle < 0
      · exact ⟨t, cells, if_pos negative, counted, rfl⟩
      · simp only [if_neg negative]
        have same := counted.linked.start_eq
        cases cells with
        | nil => cases start.symm.trans same
        | cons cell after =>
            cases start.symm.trans same
            have linked : Linked t.heap t.g_socket_start_ptr
              ([] ++ (cell.1, cell.2) :: after) := counted.linked
            obtain ⟨heap', cells', closed, linked', places, ids⟩ :=
              closeFrom_linked sockethandle SOCKET_MAXNUM linked
            refine ⟨{ t with heap := heap' }, cells', ?_, counted.congr linked' places ids rfl rfl, rfl⟩
            rw [closed, Option.map_some, start]

/-- A new socket, with an id above all others. -/
theorem Counted.connect (counted : t.Counted cells) (place : ¬ t.full) (si_type : SiType)
    (sockethandle : Int32) :
    ∃ t', t.increment.connect si_type sockethandle = some t' ∧ t'.Inv := by
  obtain ⟨heap, start, appended, linked⟩ := counted.linked.push counted.tail
    ⟨si_type, t.g_socket_socketid + 1, sockethandle, .SI_STATUS_ALIVE⟩
  obtain ⟨increasing, positive, upto⟩ := Sockets.ids_succ counted.counter counted.increasing
    counted.positive counted.upto place
  have added : ids (cells ++ [(t.heap.length,
      ⟨si_type, t.g_socket_socketid + 1, sockethandle, .SI_STATUS_ALIVE⟩)]) =
        ids cells ++ [t.g_socket_socketid + 1] := by simp [ids]
  refine ⟨_, by rw [SocketList.connect, increment, appended]; rfl, _, ⟨linked, ?_, ?_, ?_⟩, ?_, ?_, ?_⟩
  · intro _
    rw [lastOf_concat]
  · rw [added]
    exact increasing
  · rw [added]
    exact positive
  · exact Int16.le_of_lt (Sockets.le_succ counted.counter place)
  · rw [added]
    exact upto
  · rw [List.length_append]
    exact Sockets.toNat_succ counted.enough place counted.counter

/-- An id that is used up. -/
theorem Counted.increment (counted : t.Counted cells) (place : ¬ t.full) :
    t.increment.Counted cells where
  toOrdered := ⟨counted.linked, counted.tail, counted.increasing, counted.positive⟩
  counter := Int16.le_of_lt (Sockets.le_succ counted.counter place)
  upto socketid here := Int16.le_of_lt (Sockets.le_succ (counted.upto socketid here) place)
  enough := Nat.le_of_succ_le (Sockets.toNat_succ counted.enough place counted.counter)

theorem increment_decrement (t : SocketList) : t.increment.decrement = t := by
  simp [SocketList.increment, SocketList.decrement]

/-- Without a test of the limit, the id after the last one is negative. -/
theorem Counted.connect_full (counted : t.Counted cells) (full : t.full) (si_type : SiType)
    (sockethandle : Int32) {t' : SocketList}
    (connected : t.increment.connect si_type sockethandle = some t') : ¬ t'.Orderly := by
  obtain ⟨heap, start, appended, linked⟩ := counted.linked.push counted.tail
    ⟨si_type, t.g_socket_socketid + 1, sockethandle, .SI_STATUS_ALIVE⟩
  rw [SocketList.connect, SocketList.increment, appended] at connected
  cases connected
  rintro ⟨cells', ordered⟩
  have same := ordered.linked.seg.unique linked.seg
  have positive := ordered.positive (t.g_socket_socketid + 1) (by rw [same]; simp [ids])
  have last : t.g_socket_socketid = 32767 := Int16.toInt_inj.mp full
  rw [last] at positive
  exact absurd positive (by decide)

end Parts

/-! ## Every run -/

variable {t : SocketList}

/-- The part in front of the id, which all ways to a socket of this process have. -/
theorem Inv.closes (inv : t.Inv) (sockethandle : Int32) :
    ∃ t' cells, t.kSocketMakeSocketStatusClose sockethandle = some t' ∧ t'.Counted cells ∧
      (t'.full ↔ t.full) := by
  obtain ⟨cells, counted⟩ := inv
  obtain ⟨t', cells', closed, counted', counter⟩ :=
    counted.kSocketMakeSocketStatusClose sockethandle
  refine ⟨t', cells', closed, counted', ?_⟩
  rw [SocketList.full, SocketList.full, counter]

/-- What follows the closing may take the invariant for granted. -/
theorem Inv.after_close (inv : t.Inv) (sockethandle : Int32) {rest : SocketList → Option SocketList}
    (keeps : ∀ t' cells, t'.Counted cells → (t'.full ↔ t.full) → ∃ t'', rest t' = some t'' ∧ t''.Inv) :
    ∃ t'', (t.kSocketMakeSocketStatusClose sockethandle >>= rest) = some t'' ∧ t''.Inv := by
  obtain ⟨t', cells, closed, counted, same⟩ := inv.closes sockethandle
  rw [closed]
  exact keeps t' cells counted same

theorem Inv.kSocketOpen (inv : t.Inv) (o : SocketCalls) :
    ∃ t', t.kSocketOpen o = some t' ∧ t'.Inv := by
  unfold SocketList.kSocketOpen
  by_cases full : t.full
  · exact ⟨t, if_pos full, inv⟩
  · rw [if_neg full]
    cases o.sockfd with
    | none => exact ⟨t, rfl, inv⟩
    | some sockfd =>
        refine inv.after_close sockfd fun t' cells counted same => ?_
        have place : ¬ t'.full := fun full' => full (same.mp full')
        dsimp only
        split_ifs
        · exact ⟨t', rfl, cells, counted⟩
        · exact ⟨t', by rw [increment_decrement], cells, counted⟩
        · exact ⟨_, rfl, cells, counted.increment place⟩
        · exact counted.connect place o.si_type sockfd

theorem Inv.kSocketOpenWaitSocket (inv : t.Inv) (o : SocketCalls) :
    ∃ t', t.kSocketOpenWaitSocket o = some t' ∧ t'.Inv := by
  unfold SocketList.kSocketOpenWaitSocket
  by_cases full : t.full
  · exact ⟨t, if_pos full, inv⟩
  · rw [if_neg full]
    cases o.sockfd with
    | none => exact ⟨t, rfl, inv⟩
    | some sockfd =>
        refine inv.after_close sockfd fun t' cells counted same => ?_
        have place : ¬ t'.full := fun full' => full (same.mp full')
        dsimp only
        split_ifs
        · exact ⟨t', rfl, cells, counted⟩
        · exact ⟨_, rfl, cells, counted.increment place⟩
        · exact ⟨_, rfl, cells, counted.increment place⟩
        · exact counted.connect place o.si_type sockfd

theorem Inv.kSocketRegist (inv : t.Inv) (o : SocketCalls) :
    ∃ t', t.kSocketRegist o = some t' ∧ t'.Inv := by
  unfold SocketList.kSocketRegist
  cases o.sockfd with
  | none => exact ⟨t, rfl, inv⟩
  | some handle =>
      obtain ⟨cells, counted⟩ := inv
      dsimp only
      split_ifs with full
      · exact ⟨t, rfl, cells, counted⟩
      · exact ⟨t, rfl, cells, counted⟩
      · exact counted.connect full o.si_type handle

theorem Inv.kSocketOpenUnixdSocket (inv : t.Inv) (o : SocketCalls)
    (limited : t.Limited (.kSocketOpenUnixdSocket o)) :
    ∃ t', t.kSocketOpenUnixdSocket o = some t' ∧ t'.Inv := by
  unfold SocketList.kSocketOpenUnixdSocket
  unfold Limited at limited
  cases opened : o.sockfd with
  | none => exact ⟨t, rfl, inv⟩
  | some sockfd =>
      refine inv.after_close sockfd fun t' cells counted same => ?_
      cases malloc : o.malloc with
      | false => exact ⟨t', rfl, cells, counted⟩
      | true =>
          have place := limited (by rw [opened]; exact Option.some_ne_none _) malloc
          exact counted.connect (fun full' => place (same.mp full')) .SI_TYPE_UNIX sockfd

theorem Inv.kSocketOpenRaw (inv : t.Inv) (o : SocketCalls)
    (limited : t.Limited (.kSocketOpenRaw o)) :
    ∃ t', t.kSocketOpenRaw o = some t' ∧ t'.Inv := by
  unfold SocketList.kSocketOpenRaw
  unfold Limited at limited
  cases opened : o.sockfd with
  | none => exact ⟨t, rfl, inv⟩
  | some sockfd =>
      refine inv.after_close sockfd fun t' cells counted same => ?_
      cases malloc : o.malloc with
      | false => exact ⟨t', rfl, cells, counted⟩
      | true =>
          cases parser : o.kParserGet with
          | false => exact ⟨t', congrArg some (increment_decrement t'), cells, counted⟩
          | true =>
              have place := limited (by rw [opened]; exact Option.some_ne_none _) malloc parser
              exact counted.connect (fun full' => place (same.mp full')) .SI_TYPE_RAW sockfd

/-- What one way to a socket preserves. -/
theorem Inv.step (t : SocketList) (op : Creation) (inv : t.Inv) (limited : t.Limited op) :
    ∃ t' r, t.step op = some (t', r) ∧ t'.Inv := by
  have created : ∃ t', t.create op = some t' ∧ t'.Inv := by
    cases op with
    | kSocketOpen o => exact inv.kSocketOpen o
    | kSocketOpenWaitSocket o => exact inv.kSocketOpenWaitSocket o
    | kSocketOpenUnixdSocket o => exact inv.kSocketOpenUnixdSocket o limited
    | kSocketOpenRaw o => exact inv.kSocketOpenRaw o limited
    | kSocketRegistUnixdSocketInfo o | kSocketRegistDataSocketInfo o => exact inv.kSocketRegist o
  obtain ⟨t', created, inv'⟩ := created
  exact ⟨t', (), by rw [SocketList.step, created]; rfl, inv'⟩

/-- What one does that has no id left. -/
theorem Inv.breaks (t : SocketList) (op : Creation) (inv : t.Inv) (beyond : ¬ t.Limited op)
    (t' : SocketList) (r : Unit) (stepped : t.step op = some (t', r)) : ¬ t'.Orderly := by
  cases op with
  | kSocketOpenUnixdSocket o =>
      simp only [Limited, Classical.not_imp, not_not] at beyond
      obtain ⟨opened, malloc, full⟩ := beyond
      obtain ⟨sockfd, opened⟩ := Option.ne_none_iff_exists'.mp opened
      obtain ⟨t₁, cells, closed, counted, same⟩ := inv.closes sockfd
      obtain ⟨t₂, created, ends⟩ := Option.map_eq_some_iff.mp stepped
      cases ends
      simp only [create, SocketList.kSocketOpenUnixdSocket, opened, closed, malloc,
        Option.bind_eq_bind, Option.bind_some] at created
      exact counted.connect_full (same.mpr full) _ _ created
  | kSocketOpenRaw o =>
      simp only [Limited, Classical.not_imp, not_not] at beyond
      obtain ⟨opened, malloc, parser, full⟩ := beyond
      obtain ⟨sockfd, opened⟩ := Option.ne_none_iff_exists'.mp opened
      obtain ⟨t₁, cells, closed, counted, same⟩ := inv.closes sockfd
      obtain ⟨t₂, created, ends⟩ := Option.map_eq_some_iff.mp stepped
      cases ends
      simp only [create, SocketList.kSocketOpenRaw, opened, closed, malloc, parser,
        Option.bind_eq_bind, Option.bind_some] at created
      exact counted.connect_full (same.mpr full) _ _ created
  | _ => exact absurd trivial beyond

theorem init_inv : Inv {} :=
  ⟨[], ⟨⟨⟨rfl, List.nodup_nil⟩, fun some_ => absurd rfl some_, List.Pairwise.nil, by simp [ids]⟩,
    Int16.le_refl _, by simp [ids], Nat.zero_le _⟩⟩

/-- After each part of a run the ids are in order. -/
def KeepsOrder (ops : List Creation) : Prop :=
  ∀ before, before <+: ops → ∃ t rs, Refinement.run step {} before = some (t, rs) ∧ t.Orderly

theorem KeepsOrder.meets {ops : List Creation} (good : KeepsOrder ops) :
    Refinement.Meets step Limited {} ops :=
  Refinement.Meets.of_good Inv.step Inv.breaks init_inv good

/-- It is the ICMP sockets and the sockets for the commands that need an id left. -/
theorem keepsOrder_iff (ops : List Creation) :
    KeepsOrder ops ↔ Refinement.Meets step Limited {} ops := by
  refine ⟨KeepsOrder.meets, ?_⟩
  intro limited before start
  obtain ⟨t, rs, ran, cells, counted⟩ := limited.reaches Inv.step init_inv start
  exact ⟨t, rs, ran, cells, counted.toOrdered⟩

/-- There are never more sockets than the table that is searched by ids has room for. -/
theorem Inv.length_le {cells : List (ℕ × SocketEntry)} (counted : t.Counted cells) :
    cells.length ≤ SOCKET_MAXNUM := by
  have upper := t.g_socket_socketid.toNatClampNeg_lt
  have enough := counted.enough
  simp only [SOCKET_MAXNUM]
  omega

/-! ## The id after the last one -/

def opened (si_type : SiType) : SocketCalls where
  si_type := si_type
  sockfd := some 5
  malloc := true
  kParserGet := true
  getsockname := true

theorem connect_counter {t t' : SocketList} {si_type : SiType} {sockethandle : Int32}
    (connected : t.connect si_type sockethandle = some t') :
    t'.g_socket_socketid = t.g_socket_socketid := by
  obtain ⟨-, -, rfl⟩ := Option.map_eq_some_iff.mp connected
  rfl

/-- Connections that are accepted use up the ids, and an ICMP socket comes after them. -/
theorem not_meets (n : ℕ) {t : SocketList} (inv : t.Inv)
    (left : t.g_socket_socketid.toInt + n = SOCKET_MAXNUM) :
    ¬ Refinement.Meets step Limited t
      (List.replicate n (.kSocketRegistDataSocketInfo (opened .SI_TYPE_DATA)) ++
        [.kSocketOpenRaw (opened .SI_TYPE_RAW)]) := by
  induction n generalizing t with
  | zero =>
      intro meets
      have full : t.full := by
        rw [SocketList.full]
        simpa using left
      exact meets.1 (Option.some_ne_none _) rfl rfl full
  | succ n ih =>
      intro meets
      have place : ¬ t.full := by
        intro full
        rw [SocketList.full] at full
        omega
      obtain ⟨cells, counted⟩ := inv
      obtain ⟨t', connected, inv'⟩ := counted.connect place .SI_TYPE_DATA 5
      have stepped : t.step (.kSocketRegistDataSocketInfo (opened .SI_TYPE_DATA)) =
          some (t', ()) := by
        simp only [SocketList.step, create, kSocketRegistDataSocketInfo, SocketList.kSocketRegist,
          opened, if_neg place, Bool.not_true, Bool.false_eq_true, if_false, connected,
          Option.map_some]
      have counter := connect_counter connected
      refine ih inv' ?_ (meets.2 t' () stepped)
      rw [counter, increment, Sockets.toInt_succ place]
      omega

theorem not_keepsOrder : ¬ ∀ ops, KeepsOrder ops := by
  intro claim
  exact not_meets SOCKET_MAXNUM init_inv rfl (claim _).meets

end SocketList

end Tahi.Koi
