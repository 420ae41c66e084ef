import Tahi.Koi.KSocketClose

/-! # Closing a socket that listens

`kSocketClose` on a TCP socket that listens is for that socket and the data sockets that
were accepted from it. Whether a socket belongs to it is tested on copies of its information,
and the copy of the parent is that of an earlier socket when the socket has none.
-/

namespace Tahi.Koi

/-- The sockets that are closed with the one that listens. -/
def SocketInfo.belongs (socketid : Int16) (si : SocketInfo) : Prop :=
  si.si_socketid = socketid ∨ si.alive ∧ si.parent = some socketid

instance (socketid : Int16) (si : SocketInfo) : Decidable (si.belongs socketid) :=
  inferInstanceAs (Decidable (_ ∨ _))

namespace Sockets

/-- Exactly the sockets that belong to `socketid` are closed, and the others stay selected. -/
def ClosesFamily (socketid : Int16) (g g' : Sockets) : Prop :=
  g'.table.sockets =
      g.table.sockets.map (fun si => if si.belongs socketid then si.closed else si) ∧
    ∀ si ∈ g.table.sockets, ¬ si.belongs socketid → si.alive →
      g.si_sockethandle si.si_socketid ∈ g.g_readfds →
        g'.si_sockethandle si.si_socketid ∈ g'.g_readfds

end Sockets

/-- The sockets that the loop comes to its test with. -/
def SocketInfo.tested (si : SocketInfo) : Bool := si.alive && !si.isUnix

namespace Infos

/-- What the loop has copied after `before`. -/
def after (infos : Infos) (before : List SocketInfo) : Infos :=
  (before.filter SocketInfo.tested).foldl copy infos

/-- The test of the loop on the copies of a socket. -/
def taken (infos : Infos) (socketid : Int16) : Prop :=
  infos.si_type = some .SI_TYPE_DATA ∨ infos.datasocketinfo.di_parent_socketid = socketid

instance (infos : Infos) (socketid : Int16) : Decidable (infos.taken socketid) :=
  inferInstanceAs (Decidable (_ ∨ _))

@[simp] theorem after_nil (infos : Infos) : infos.after [] = infos := rfl

theorem after_cons (infos : Infos) (si : SocketInfo) (before : List SocketInfo) :
    infos.after (si :: before) =
      if si.tested then (infos.copy si).after before else infos.after before := by
  unfold after
  by_cases tested : si.tested <;> simp [tested]

end Infos

/-- What the loop makes of the sockets that are left. -/
def closedFrom (socketid : Int16) : Infos → List SocketInfo → List SocketInfo
  | _, [] => []
  | infos, si :: rest =>
      if si.tested then
        (if si.si_socketid = socketid ∨ (infos.copy si).taken socketid then si.closed else si) ::
          closedFrom socketid (infos.copy si) rest
      else si :: closedFrom socketid infos rest

theorem SocketInfo.not_tested_iff (si : SocketInfo) :
    ¬ si.tested ↔ si.si_socket_status = .SI_STATUS_CLOSE ∨ si.isUnix := by
  have alive := si.alive_iff
  unfold tested
  cases isUnix : si.isUnix <;> simp_all

namespace Sockets

theorem modify_here {α : Type} (f : α → α) (done : List α) (a : α) (rest : List α) :
    (done ++ a :: rest).modify done.length f = done ++ f a :: rest := by
  induction done with
  | nil => rfl
  | cons b done ih => simp only [List.cons_append, List.length_cons, List.modify_succ_cons, ih]

theorem closeListen_sockets (socketid : Int16) {loop : Nat} {infos : Infos} {g : Sockets}
    (numbered : g.Numbered) {done rest : List SocketInfo} (sockets : g.table.sockets = done ++ rest)
    (enough : rest.length ≤ loop) :
    (closeListen (fun _ => true) socketid loop done.length infos g).table.sockets =
      done ++ closedFrom socketid infos rest := by
  induction rest generalizing done infos g loop with
  | nil =>
      cases loop with
      | zero => simpa [closeListen, closedFrom] using sockets
      | succ loop => simp [closeListen, closedFrom, sockets]
  | cons si rest ih =>
      cases loop with
      | zero => simp at enough
      | succ loop =>
          have enough := Nat.le_of_succ_le_succ enough
          have here : g.table.sockets[done.length]? = some si := by simp [sockets]
          have mem := List.mem_of_getElem? here
          have get := numbered.get mem infos
          have next (si' : SocketInfo) (rest : List SocketInfo) :
              done ++ si' :: rest = (done ++ [si']) ++ rest := by simp
          have length (si' : SocketInfo) : done.length + 1 = (done ++ [si']).length := by simp
          rw [closeListen, here]
          simp only [← si.not_tested_iff, if_true, get]
          rw [closedFrom]
          by_cases tested : si.tested
          · rw [if_neg (not_not.mpr tested), if_pos tested]
            have alive : si.alive := (Bool.and_eq_true_iff.mp tested).1
            have step : CloseStep g (g.closed done.length si) := ⟨_, _, here, alive, rfl⟩
            have closed : (g.closed done.length si).table.sockets =
                (done ++ [si.closed]) ++ rest := by
              simp only [Sockets.closed, SocketTable.setClose, sockets, modify_here]
              exact next si.closed rest
            by_cases taken : si.si_socketid = socketid ∨ (infos.copy si).taken socketid
            · simp only [Infos.taken] at taken
              simp only [Infos.taken, taken, if_true]
              rw [length si.closed, ih (numbered.closeStep step) closed enough]
              simp only [List.append_assoc, List.cons_append, List.nil_append]
            · simp only [Infos.taken] at taken
              simp only [Infos.taken, taken, if_false]
              rw [length si, ih numbered (sockets.trans (next si rest)) enough]
              simp only [List.append_assoc, List.cons_append, List.nil_append]
          · rw [if_pos tested, if_neg tested, length si,
              ih numbered (sockets.trans (next si rest)) enough]
            simp only [List.append_assoc, List.cons_append, List.nil_append]

/-- The loop closes what it should as long as no other socket passes its test. -/
def OnlyFamily (socketid : Int16) (infos : Infos) (sockets : List SocketInfo) : Prop :=
  ∀ before si rest, sockets = before ++ si :: rest → si.tested → si.si_socketid ≠ socketid →
    (si.si_type = .SI_TYPE_DATA → si.parent = some socketid) ∧
      (si.si_type ≠ .SI_TYPE_DATA →
        ((infos.after before).copy si).datasocketinfo.di_parent_socketid ≠ socketid)

theorem onlyFamily_cons {socketid : Int16} {infos : Infos} {si : SocketInfo}
    {rest : List SocketInfo} :
    OnlyFamily socketid infos (si :: rest) ↔
      (si.tested → si.si_socketid ≠ socketid →
        (si.si_type = .SI_TYPE_DATA → si.parent = some socketid) ∧
          (si.si_type ≠ .SI_TYPE_DATA →
            (infos.copy si).datasocketinfo.di_parent_socketid ≠ socketid)) ∧
        OnlyFamily socketid (if si.tested then infos.copy si else infos) rest := by
  constructor
  · intro only
    refine ⟨only [] si rest rfl, ?_⟩
    intro before si' rest' split
    have here := only (si :: before) si' rest' (by rw [split, List.cons_append])
    rw [Infos.after_cons] at here
    split_ifs at here ⊢ <;> exact here
  · rintro ⟨first, only⟩ before si' rest' split
    cases before with
    | nil =>
        cases split
        exact first
    | cons _ before =>
        cases split
        rw [Infos.after_cons]
        have here := only before si' rest' rfl
        split_ifs at here ⊢ <;> exact here

theorem parent_of_other {si : SocketInfo} (other : si.si_type ≠ .SI_TYPE_DATA) :
    si.parent = none := by
  obtain ⟨_, _, info⟩ := si
  cases info <;> first | rfl | exact absurd rfl other

/-- The test of the loop takes a socket along when it should not. -/
theorem taken_iff_belongs {socketid : Int16} (infos : Infos) {si : SocketInfo}
    (alive : si.alive) :
    ((si.si_socketid = socketid ∨ (infos.copy si).taken socketid) ↔ si.belongs socketid) ↔
      (si.si_socketid ≠ socketid →
        (si.si_type = .SI_TYPE_DATA → si.parent = some socketid) ∧
          (si.si_type ≠ .SI_TYPE_DATA →
            (infos.copy si).datasocketinfo.di_parent_socketid ≠ socketid)) := by
  by_cases own : si.si_socketid = socketid
  · simp [own, SocketInfo.belongs]
  · simp only [SocketInfo.belongs, Infos.taken, Infos.copy_si_type, own, alive, false_or, true_and,
      Option.some.injEq, ne_eq, not_false_eq_true, true_imp_iff]
    by_cases data : si.si_type = .SI_TYPE_DATA
    · simp [data]
    · simp [data, parent_of_other data]

theorem closed_ne {si : SocketInfo} (alive : si.alive) : si.closed ≠ si := by
  intro same
  rw [← same] at alive
  simp at alive

theorem closedFrom_iff (socketid : Int16) (infos : Infos) (sockets : List SocketInfo)
    (free : ∀ si ∈ sockets, si.isUnix → si.si_socketid ≠ socketid) :
    closedFrom socketid infos sockets =
        sockets.map (fun si => if si.belongs socketid then si.closed else si) ↔
      OnlyFamily socketid infos sockets := by
  induction sockets generalizing infos with
  | nil => simp [closedFrom, OnlyFamily]
  | cons si rest ih =>
      have ih (infos : Infos) := ih infos fun si' mem => free si' (List.mem_cons_of_mem _ mem)
      rw [onlyFamily_cons, closedFrom, List.map_cons]
      by_cases tested : si.tested
      · have alive : si.alive := (Bool.and_eq_true_iff.mp tested).1
        have differs := closed_ne alive
        simp only [tested, if_true, List.cons.injEq, true_imp_iff, ih]
        rw [← taken_iff_belongs infos alive]
        apply and_congr_left'
        by_cases taken : si.si_socketid = socketid ∨ (infos.copy si).taken socketid <;>
          by_cases belongs : si.belongs socketid <;>
            simp [taken, belongs, differs, differs.symm]
      · have still : (if si.belongs socketid then si.closed else si) = si := by
          split
          · rename_i belongs
            cases belongs with
            | inl own =>
                apply SocketInfo.closed_of_not_alive
                intro alive
                have isUnix : si.isUnix := by
                  by_contra not_unix
                  exact tested (by simp [SocketInfo.tested, alive, not_unix])
                exact free si (List.mem_cons_self ..) isUnix own
            | inr child =>
                exfalso
                apply tested
                obtain ⟨_, _, info⟩ := si
                cases info <;> simp_all [SocketInfo.parent, SocketInfo.tested, SocketInfo.isUnix,
                  SocketInfo.si_type]
          · rfl
        simp only [tested, if_false, Bool.false_eq_true, still, List.cons.injEq, true_and, ih,
          false_imp_iff]

/-- No other socket that is alive is selected with the descriptor of one that belongs to
    `socketid`. -/
def Apart (socketid : Int16) (g : Sockets) : Prop :=
  ∀ si ∈ g.table.sockets, si.alive → si.belongs socketid →
    ∀ si' ∈ g.table.sockets, si'.alive → ¬ si'.belongs socketid →
      g.si_sockethandle si'.si_socketid ∈ g.g_readfds →
        ¬ g.si_sockethandle si.si_socketid < 0 →
          g.si_sockethandle si'.si_socketid ≠ g.si_sockethandle si.si_socketid

theorem Valid.apart {g : Sockets} (valid : g.Valid) (socketid : Int16) : Apart socketid g := by
  intro si here alive belongs si' there alive' other _ _
  apply valid.handle_ne here alive there alive'
  rintro rfl
  exact other belongs

theorem mem_family {g g' : Sockets} {socketid : Int16} {si : SocketInfo} (alive : si.alive)
    (table : g'.table.sockets =
      g.table.sockets.map (fun si => if si.belongs socketid then si.closed else si)) :
    si ∈ g'.table.sockets ↔ si ∈ g.table.sockets ∧ ¬ si.belongs socketid := by
  rw [table, List.mem_map]
  constructor
  · rintro ⟨old, mem, same⟩
    split at same
    · rw [← same] at alive
      simp at alive
    · cases same
      exact ⟨mem, ‹_›⟩
  · rintro ⟨mem, other⟩
    exact ⟨si, mem, if_neg other⟩

theorem kSocketClose_listener (stack : Infos) {g : Sockets} (numbered : g.Numbered)
    {listener : SocketInfo} (here : listener ∈ g.table.sockets)
    (listens : listener.si_type = .SI_TYPE_LISTEN_TCP) :
    (kSocketClose (fun _ => true) stack listener.si_socketid g).2.table.sockets =
      closedFrom listener.si_socketid (stack.copy listener) g.table.sockets := by
  have positive := numbered.positive listener here
  have zero : listener.si_socketid ≠ 0 := by
    intro zero
    rw [zero] at positive
    exact Int16.lt_irrefl positive
  have negative : ¬ listener.si_socketid < 0 := by
    intro negative
    exact Int16.lt_irrefl (Int16.lt_trans negative positive)
  have filled : g.table.sockets ≠ [] := List.ne_nil_of_mem here
  have type : (stack.copy listener).si_type = some .SI_TYPE_LISTEN_TCP := by
    rw [Infos.copy_si_type, listens]
  simp only [kSocketClose, negative, zero, numbered.get here, filled, type, if_true, if_false,
    Bool.true_eq_false]
  exact closeListen_sockets _ numbered (List.nil_append _).symm numbered.enough

/-- A socket that listens takes along only its own when the sockets that its loop tests are all
    its own: every data socket that is alive was accepted from it, and for any other the parent
    in the copies, which an earlier socket or the stack has left there, is not its id. -/
theorem ClosesFamily.close_iff (stack : Infos) {g : Sockets} (numbered : g.Numbered)
    {listener : SocketInfo} (here : listener ∈ g.table.sockets)
    (listens : listener.si_type = .SI_TYPE_LISTEN_TCP) :
    ClosesFamily listener.si_socketid g
        (kSocketClose (fun _ => true) stack listener.si_socketid g).2 ↔
      OnlyFamily listener.si_socketid (stack.copy listener) g.table.sockets ∧
        Apart listener.si_socketid g := by
  have steps := kSocketClose_steps (fun _ => true) stack listener.si_socketid g
  have result := kSocketClose_listener stack numbered here listens
  have free : ∀ si ∈ g.table.sockets, si.isUnix → si.si_socketid ≠ listener.si_socketid := by
    intro si mem isUnix same
    have first := numbered.lookup mem
    rw [same, numbered.lookup here] at first
    cases first
    simp [SocketInfo.isUnix, listens] at isUnix
  rw [← closedFrom_iff _ _ _ free, ← result]
  unfold ClosesFamily
  apply and_congr_right
  intro table
  constructor
  · intro stays si mem alive belongs si' mem' alive' other selected positive
    have selected' := stays si' mem' other alive' selected
    obtain ⟨handles, _, readfds⟩ := mem_readfds_iff steps numbered
      (g.si_sockethandle si'.si_socketid)
    rw [handles] at selected'
    apply (readfds.mp selected').2 si mem alive _ positive
    rw [mem_family alive table]
    exact fun kept => kept.2 belongs
  · intro apart si mem other alive selected
    obtain ⟨handles, _, readfds⟩ := mem_readfds_iff steps numbered
      (g.si_sockethandle si.si_socketid)
    rw [handles, readfds]
    refine ⟨selected, ?_⟩
    intro si' mem' alive' gone positive
    rw [mem_family alive' table] at gone
    exact apart si' mem' alive' (by_contra fun kept => gone ⟨mem', kept⟩) si mem alive other
      selected positive

/-- A socket that listens, and a data socket with `parent`. -/
def listenerAnd (parent : Int16) : Sockets where
  table := {
    sockets := [
      { si_socketid := 1, si_socket_status := .SI_STATUS_ALIVE,
        si_uniq_info := .listenTcp { li_family := 4 } },
      { si_socketid := 2, si_socket_status := .SI_STATUS_ALIVE,
        si_uniq_info := .data { di_parent_socketid := parent } }]
    bounded := Nat.le_of_ble_eq_true rfl }
  g_socket_socketid := 2
  si_sockethandle := fun socketid => if socketid = 1 then 4 else 5
  g_readfds := [4, 5]
  connections := fun fds => if fds = 4 then some 1 else if fds = 5 then some 2 else none

theorem listenerAnd_valid (parent : Int16) : (listenerAnd parent).Valid where
  counter := by simp [listenerAnd]
  increasing := by simp [listenerAnd]
  positive := by simp [listenerAnd]
  upto := by simp [listenerAnd]
  enough := by simp [listenerAnd]
  own := by simp [listenerAnd, SocketInfo.alive]

theorem ClosesFamily.of_child :
    ClosesFamily 1 (listenerAnd 1) (kSocketClose (fun _ => true) {} 1 (listenerAnd 1)).2 := by
  have valid := listenerAnd_valid 1
  apply (ClosesFamily.close_iff {} valid.toNumbered (List.mem_cons_self ..) rfl).mpr
  refine ⟨?_, valid.apart 1⟩
  show OnlyFamily 1 _ _
  simp only [listenerAnd, onlyFamily_cons]
  refine ⟨?_, ?_, ?_⟩
  · intro _ other
    exact absurd rfl other
  · intro _ _
    exact ⟨fun _ => rfl, fun other => absurd rfl other⟩
  · intro before si rest split
    simp at split

/-- A data socket that was opened with `connect` has no parent, and is closed too. -/
theorem ClosesFamily.not_client :
    ¬ ClosesFamily 1 (listenerAnd 0) (kSocketClose (fun _ => true) {} 1 (listenerAnd 0)).2 := by
  intro closes
  exact absurd closes.1 (by decide)

end Sockets

end Tahi.Koi
