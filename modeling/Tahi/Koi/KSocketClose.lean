import Mathlib.Logic.Relation
import Mathlib.Algebra.Order.Ring.Int
import Tahi.Koi.KSocket

/-! # Closing sockets

A socket stays in the table when it is closed, with another status. A listening socket
takes the sockets along that were accepted from it.
-/

namespace Tahi.Koi

namespace SocketInfo

def alive (si : SocketInfo) : Bool := si.si_socket_status == .SI_STATUS_ALIVE

def closed (si : SocketInfo) : SocketInfo := { si with si_socket_status := .SI_STATUS_CLOSE }

/-- The sockets for the commands, which are protected. -/
def isUnix (si : SocketInfo) : Bool :=
  si.si_type == .SI_TYPE_UNIX || si.si_type == .SI_TYPE_UNIX_DATA

/-- The socket a data socket was accepted from. -/
def parent (si : SocketInfo) : Option Int16 :=
  match si.si_uniq_info with
  | .data info => some info.di_parent_socketid
  | _ => none

@[simp] theorem closed_si_socketid (si : SocketInfo) :
    si.closed.si_socketid = si.si_socketid := rfl

@[simp] theorem closed_si_type (si : SocketInfo) : si.closed.si_type = si.si_type := rfl

@[simp] theorem closed_alive (si : SocketInfo) : si.closed.alive = false := rfl

theorem alive_iff (si : SocketInfo) : si.alive ↔ si.si_socket_status ≠ .SI_STATUS_CLOSE := by
  unfold alive
  cases si.si_socket_status <;> decide

theorem closed_of_not_alive {si : SocketInfo} (dead : ¬ si.alive) : si.closed = si := by
  rw [alive_iff, not_not] at dead
  cases si
  cases dead
  rfl

end SocketInfo

def SocketTable.setClose (table : SocketTable) (i : Nat) : SocketTable where
  sockets := table.sockets.modify i SocketInfo.closed
  bounded := by
    rw [List.length_modify]
    exact table.bounded

/-- The variables of the sockets. `connections` is what the operating system has open, with
    the id of the socket each descriptor was opened for. -/
structure Sockets where
  table : SocketTable
  g_socket_socketid : Int16
  si_sockethandle : Int16 → Int32
  g_readfds : List Int32
  connections : Int32 → Option Int16

namespace Sockets

/-- `kSocketSelectOperation` with `SELECT_OUT`. -/
def selectOut (fds : Int32) (g_readfds : List Int32) : List Int32 :=
  if fds < 0 then g_readfds else g_readfds.filter (· ≠ fds)

/-- What follows a `close` that was successful. -/
def closed (g : Sockets) (i : Nat) (si : SocketInfo) : Sockets :=
  let fds := g.si_sockethandle si.si_socketid
  { g with
    table := g.table.setClose i
    g_readfds := selectOut fds g.g_readfds
    connections := fun d => if d = fds then none else g.connections d }

section Close

-- Whether `close` is successful.
variable (close : Int32 → Bool)

/-- All sockets are closed but those for the commands. -/
def closeAll : Nat → Nat → Sockets → Sockets
  | 0, _, g => g
  | loop + 1, i, g =>
      match g.table.sockets[i]? with
      | none => g
      | some si =>
          if si.si_socket_status = .SI_STATUS_CLOSE ∨ si.isUnix then closeAll loop (i + 1) g
          else if close (g.si_sockethandle si.si_socketid) then
            closeAll loop (i + 1) (g.closed i si)
          else closeAll loop (i + 1) g

/-- The loop for a socket that listens. `infos` is refilled for each socket it comes to. -/
def closeListen (socketid : Int16) : Nat → Nat → Infos → Sockets → Sockets
  | 0, _, _, g => g
  | loop + 1, i, infos, g =>
      match g.table.sockets[i]? with
      | none => g
      | some si =>
          if si.si_socket_status = .SI_STATUS_CLOSE ∨ si.isUnix then
            closeListen socketid loop (i + 1) infos g
          else
            let infos := (g.table.kSocketGetSIBySocketId si.si_socketid infos).2
            -- The comment above the test asks for both: a data socket and this parent.
            if si.si_socketid = socketid ∨
                (infos.si_type = some .SI_TYPE_DATA ∨
                  infos.datasocketinfo.di_parent_socketid = socketid) then
              if close (g.si_sockethandle si.si_socketid) then
                closeListen socketid loop (i + 1) infos (g.closed i si)
              else closeListen socketid loop (i + 1) infos g
            else closeListen socketid loop (i + 1) infos g

def closeOne (socketid : Int16) : Nat → Nat → Sockets → Bool × Sockets
  | 0, _, g => (true, g)
  | loop + 1, i, g =>
      match g.table.sockets[i]? with
      | none => (false, g)
      | some si =>
          if si.si_socketid ≠ socketid then closeOne socketid loop (i + 1) g
          else if si.si_type = .SI_TYPE_UNIX then (false, g)
          else if si.si_socket_status = .SI_STATUS_CLOSE then (false, g)
          else if close (g.si_sockethandle si.si_socketid) then (true, g.closed i si)
          else (false, g)

/-- Whether it returns `RETURN_OK`. The variables for the socket information start as what
    is on the `stack`. -/
def kSocketClose (stack : Infos) (socketid : Int16) (g : Sockets) : Bool × Sockets :=
  if socketid < 0 then (false, g)
  else
    let (ok, infos) :=
      if socketid = 0 then (true, stack) else g.table.kSocketGetSIBySocketId socketid stack
    if ok = false then (false, g)
    else if g.table.sockets = [] then (false, g)
    else if socketid = 0 then (true, closeAll close SOCKET_MAXNUM 0 g)
    else if infos.si_type = some .SI_TYPE_LISTEN_TCP then
      (true, closeListen close socketid g.g_socket_socketid.toNatClampNeg 0 infos g)
    else closeOne close socketid SOCKET_MAXNUM 0 g

end Close

/-- Ids are given in increasing order, from 1 on, and none is used again. -/
structure Numbered (g : Sockets) : Prop where
  counter : 0 ≤ g.g_socket_socketid
  increasing : g.table.sockets.Pairwise fun si si' => si.si_socketid < si'.si_socketid
  positive : ∀ si ∈ g.table.sockets, 0 < si.si_socketid
  upto : ∀ si ∈ g.table.sockets, si.si_socketid ≤ g.g_socket_socketid
  enough : g.table.sockets.length ≤ g.g_socket_socketid.toNatClampNeg

/-- The descriptor of a socket that is alive is open for that socket. -/
structure Valid (g : Sockets) : Prop extends Numbered g where
  own : ∀ si ∈ g.table.sockets, si.alive →
    g.connections (g.si_sockethandle si.si_socketid) = some si.si_socketid

/-- One `close` of a socket that was alive. -/
def CloseStep (g g' : Sockets) : Prop :=
  ∃ (i : Nat) (si : SocketInfo),
    g.table.sockets[i]? = some si ∧ si.alive ∧ g' = g.closed i si

section Steps

variable (close : Int32 → Bool)

theorem closeStep_of {g : Sockets} {i : Nat} {si : SocketInfo}
    (here : g.table.sockets[i]? = some si) (alive : si.si_socket_status ≠ .SI_STATUS_CLOSE) :
    CloseStep g (g.closed i si) :=
  ⟨i, si, here, si.alive_iff.mpr alive, rfl⟩

theorem closeAll_steps (loop i : Nat) (g : Sockets) :
    Relation.ReflTransGen CloseStep g (closeAll close loop i g) := by
  fun_induction closeAll close loop i g with
  | case1 => exact .refl
  | case2 => exact .refl
  | case3 _ _ _ _ _ _ ih => exact ih
  | case4 _ _ _ si here keep _ ih =>
      apply Relation.ReflTransGen.head _ ih
      apply closeStep_of here
      intro dead
      exact keep (Or.inl dead)
  | case5 _ _ _ _ _ _ _ ih => exact ih

theorem closeListen_steps (socketid : Int16) (loop i : Nat) (infos : Infos) (g : Sockets) :
    Relation.ReflTransGen CloseStep g (closeListen close socketid loop i infos g) := by
  fun_induction closeListen close socketid loop i infos g with
  | case1 => exact .refl
  | case2 => exact .refl
  | case3 _ _ _ _ _ _ _ ih => exact ih
  | case4 _ _ _ _ si here keep _ _ _ ih =>
      apply Relation.ReflTransGen.head _ ih
      apply closeStep_of here
      intro dead
      exact keep (Or.inl dead)
  | case5 _ _ _ _ _ _ _ _ _ _ ih => exact ih
  | case6 _ _ _ _ _ _ _ _ _ ih => exact ih

theorem closeOne_steps (socketid : Int16) (loop i : Nat) (g : Sockets) :
    Relation.ReflTransGen CloseStep g (closeOne close socketid loop i g).2 := by
  fun_induction closeOne close socketid loop i g with
  | case3 _ _ _ _ _ _ ih => exact ih
  | case6 _ _ _ si here _ _ alive _ => exact .single (closeStep_of here alive)
  | _ => exact .refl

/-- All that `kSocketClose` does is to close sockets that are alive. -/
theorem kSocketClose_steps (stack : Infos) (socketid : Int16) (g : Sockets) :
    Relation.ReflTransGen CloseStep g (kSocketClose close stack socketid g).2 := by
  unfold kSocketClose
  by_cases all : socketid = 0
  · simp only [all, if_true, Bool.true_eq_false, if_false]
    split_ifs
    · exact .refl
    · exact .refl
    · exact closeAll_steps close _ _ g
  · simp only [all, if_false]
    split_ifs
    · exact .refl
    · exact .refl
    · exact .refl
    · exact closeListen_steps close _ _ _ _ g
    · exact closeOne_steps close _ _ _ g

end Steps

namespace Numbered

variable {g : Sockets}

theorem eq_of_id (numbered : g.Numbered) {i j : Nat} {si si' : SocketInfo}
    (here : g.table.sockets[i]? = some si) (there : g.table.sockets[j]? = some si')
    (same : si.si_socketid = si'.si_socketid) : i = j := by
  obtain ⟨hi, rfl⟩ := List.getElem?_eq_some_iff.mp here
  obtain ⟨hj, rfl⟩ := List.getElem?_eq_some_iff.mp there
  have increasing := List.pairwise_iff_getElem.mp numbered.increasing
  apply Nat.le_antisymm
  · apply Nat.le_of_not_lt
    intro later
    have less := increasing j i hj hi later
    rw [same] at less
    exact Int16.lt_irrefl less
  · apply Nat.le_of_not_lt
    intro later
    have less := increasing i j hi hj later
    rw [same] at less
    exact Int16.lt_irrefl less

/-- The id of a socket finds that socket. -/
theorem lookup (numbered : g.Numbered) {si : SocketInfo} (here : si ∈ g.table.sockets) :
    g.table.lookup si.si_socketid = some si := by
  have positive : ¬ si.si_socketid < 0 := by
    intro negative
    exact Int16.lt_irrefl (Int16.lt_trans negative (numbered.positive si here))
  rw [SocketTable.lookup, if_neg positive]
  cases found : g.table.sockets.find? fun si' => si'.si_socketid == si.si_socketid with
  | none =>
      have missed := List.find?_eq_none.mp found si here
      simp at missed
  | some si' =>
      have same : si'.si_socketid = si.si_socketid := by simpa using List.find?_some found
      obtain ⟨i, at_i⟩ := List.getElem?_of_mem here
      obtain ⟨j, at_j⟩ := List.getElem?_of_mem (List.mem_of_find?_eq_some found)
      cases numbered.eq_of_id at_j at_i same
      exact at_j.symm.trans at_i

theorem get (numbered : g.Numbered) {si : SocketInfo} (here : si ∈ g.table.sockets) (infos : Infos) :
    g.table.kSocketGetSIBySocketId si.si_socketid infos = (true, infos.copy si) := by
  rw [SocketTable.kSocketGetSIBySocketId_eq, numbered.lookup here]

end Numbered

theorem mem_setClose {table : SocketTable} {i : Nat} {si : SocketInfo}
    (here : si ∈ (table.setClose i).sockets) :
    ∃ (j : Nat) (old : SocketInfo),
      table.sockets[j]? = some old ∧ si.si_socketid = old.si_socketid ∧
        (si.alive → si = old ∧ j ≠ i) := by
  obtain ⟨j, at_j⟩ := List.getElem?_of_mem here
  simp only [SocketTable.setClose, List.getElem?_modify] at at_j
  cases found : table.sockets[j]? with
  | none => simp [found] at at_j
  | some old =>
      simp only [found, Option.map_eq_map, Option.map_some, Option.some.injEq] at at_j
      refine ⟨j, old, found, ?_⟩
      subst at_j
      split
      · exact ⟨rfl, fun alive => by simp at alive⟩
      · rename_i different
        exact ⟨rfl, fun _ => ⟨rfl, fun same => different same.symm⟩⟩

theorem setClose_ids (table : SocketTable) (i : Nat) :
    (table.setClose i).sockets.map SocketInfo.si_socketid =
      table.sockets.map SocketInfo.si_socketid := by
  apply List.ext_getElem
  · simp [SocketTable.setClose]
  · intro j _ _
    simp only [SocketTable.setClose, List.getElem_map, List.getElem_modify]
    split <;> rfl

theorem mem_closed {g : Sockets} (numbered : g.Numbered) {i : Nat} {si si' : SocketInfo}
    (here : g.table.sockets[i]? = some si) (alive' : si'.alive) :
    si' ∈ (g.closed i si).table.sockets ↔ si' ∈ g.table.sockets ∧ si' ≠ si := by
  constructor
  · intro there
    obtain ⟨j, old, at_j, _, kept⟩ := mem_setClose there
    obtain ⟨rfl, different⟩ := kept alive'
    refine ⟨List.mem_of_getElem? at_j, ?_⟩
    rintro rfl
    exact different (numbered.eq_of_id at_j here rfl)
  · rintro ⟨mem, other⟩
    obtain ⟨j, at_j⟩ := List.getElem?_of_mem mem
    have different : i ≠ j := by
      rintro rfl
      exact other (Option.some.inj (at_j.symm.trans here))
    apply List.mem_of_getElem? (i := j)
    simp [closed, SocketTable.setClose, different, at_j]

theorem Numbered.setClose {g : Sockets} (numbered : g.Numbered) (i : Nat) :
    Numbered { g with table := g.table.setClose i } where
  counter := numbered.counter
  increasing := by
    have increasing := numbered.increasing
    rw [← List.pairwise_map (f := SocketInfo.si_socketid), ← setClose_ids g.table i,
      List.pairwise_map] at increasing
    exact increasing
  positive := by
    intro si there
    obtain ⟨_, old, mem, same, _⟩ := mem_setClose there
    rw [same]
    exact numbered.positive old (List.mem_of_getElem? mem)
  upto := by
    intro si there
    obtain ⟨_, old, mem, same, _⟩ := mem_setClose there
    rw [same]
    exact numbered.upto old (List.mem_of_getElem? mem)
  enough := by simpa [SocketTable.setClose] using numbered.enough

/-- It is about the table and the counter only. -/
theorem Numbered.congr {g g' : Sockets} (numbered : g.Numbered) (table : g'.table = g.table)
    (counter : g'.g_socket_socketid = g.g_socket_socketid) : g'.Numbered where
  counter := by
    rw [counter]
    exact numbered.counter
  increasing := by
    rw [table]
    exact numbered.increasing
  positive := by
    rw [table]
    exact numbered.positive
  upto := by
    rw [table, counter]
    exact numbered.upto
  enough := by
    rw [table, counter]
    exact numbered.enough

theorem Numbered.closeStep {g g' : Sockets} (step : CloseStep g g') (numbered : g.Numbered) :
    g'.Numbered := by
  obtain ⟨i, si, here, alive, rfl⟩ := step
  exact (numbered.setClose i).congr rfl rfl

theorem Numbered.steps {g g' : Sockets} (steps : Relation.ReflTransGen CloseStep g g')
    (numbered : g.Numbered) : g'.Numbered := by
  induction steps with
  | refl => exact numbered
  | tail _ step ih => exact ih.closeStep step

/-- No two sockets that are alive have one descriptor. -/
theorem Valid.handle_ne {g : Sockets} (valid : g.Valid) {si si' : SocketInfo}
    (here : si ∈ g.table.sockets) (alive : si.alive) (there : si' ∈ g.table.sockets)
    (alive' : si'.alive) (other : si' ≠ si) :
    g.si_sockethandle si'.si_socketid ≠ g.si_sockethandle si.si_socketid := by
  intro shared
  have mine := valid.own si here alive
  have its := valid.own si' there alive'
  rw [shared, mine] at its
  have found := valid.lookup here
  rw [Option.some.inj its, valid.lookup there] at found
  exact other (Option.some.inj found)

theorem Valid.closeStep {g g' : Sockets} (step : CloseStep g g') (valid : g.Valid) :
    g'.Valid := by
  have numbered := valid.toNumbered.closeStep step
  obtain ⟨i, si, here, alive, rfl⟩ := step
  refine ⟨numbered, ?_⟩
  intro si' there alive'
  obtain ⟨mem, other⟩ := (mem_closed valid.toNumbered here alive').mp there
  have different := valid.handle_ne (List.mem_of_getElem? here) alive mem alive' other
  simp only [closed, different, if_false]
  exact valid.own si' mem alive'

theorem Valid.steps {g g' : Sockets} (steps : Relation.ReflTransGen CloseStep g g')
    (valid : g.Valid) : g'.Valid := by
  induction steps with
  | refl => exact valid
  | tail _ step ih => exact ih.closeStep step

theorem mem_selectOut {d fds : Int32} {g_readfds : List Int32} :
    d ∈ selectOut fds g_readfds ↔ d ∈ g_readfds ∧ (¬ fds < 0 → d ≠ fds) := by
  unfold selectOut
  by_cases negative : fds < 0 <;> simp [negative]

/-- A descriptor stays selected as long as no socket is closed that has it. -/
theorem mem_readfds_iff {g g' : Sockets} (steps : Relation.ReflTransGen CloseStep g g')
    (numbered : g.Numbered) (d : Int32) :
    g'.si_sockethandle = g.si_sockethandle ∧
      (∀ si ∈ g'.table.sockets, si.alive → si ∈ g.table.sockets) ∧
      (d ∈ g'.g_readfds ↔ d ∈ g.g_readfds ∧
        ∀ si ∈ g.table.sockets, si.alive → si ∉ g'.table.sockets →
          ¬ g.si_sockethandle si.si_socketid < 0 → d ≠ g.si_sockethandle si.si_socketid) := by
  induction steps with
  | refl =>
      refine ⟨rfl, fun si mem _ => mem, ?_⟩
      constructor
      · intro mem
        exact ⟨mem, fun si here _ gone => absurd here gone⟩
      · exact And.left
  | @tail g₁ g₂ before step ih =>
      obtain ⟨handles, alive_before, ih⟩ := ih
      obtain ⟨i, si, here, alive, rfl⟩ := step
      have mem (si' : SocketInfo) (alive' : si'.alive) :=
        mem_closed (numbered.steps before) here alive'
      refine ⟨handles, ?_, ?_⟩
      · intro si' there alive'
        exact alive_before si' ((mem si' alive').mp there).1 alive'
      · simp only [closed, mem_selectOut, ih, handles, and_assoc]
        apply and_congr_right'
        constructor
        · rintro ⟨earlier, last⟩ si' first alive' gone
          by_cases kept : si' ∈ g₁.table.sockets
          · by_cases same : si' = si
            · rw [same]
              exact last
            · exact absurd ((mem si' alive').mpr ⟨kept, same⟩) gone
          · exact earlier si' first alive' kept
        · intro every
          constructor
          · intro si' first alive' gone
            apply every si' first alive'
            intro there
            exact gone ((mem si' alive').mp there).1
          · apply every si (alive_before si (List.mem_of_getElem? here) alive) alive
            intro there
            exact ((mem si alive).mp there).2 rfl

end Sockets

end Tahi.Koi
