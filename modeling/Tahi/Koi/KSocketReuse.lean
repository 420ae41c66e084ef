import Tahi.Koi.KDispatcherCommand
import Tahi.Koi.KSocketClose

/-! # Using a socket again

A UDP socket is not opened a second time for the same source. `kSocketCheckNewSocket` looks for one
that is alive, with a flag and a candidate that each socket with the ports of the request overwrites.
-/

namespace Tahi.Koi

/-- What a connect request asks for. -/
structure ConnecFor where
  s_port : UInt16
  s_addr : In6Addr
  d_port : UInt16
  d_addr : In6Addr
  protocol : UInt8
deriving DecidableEq, Repr

namespace ConnecFor

variable (r : ConnecFor)

def samePorts (info : DatasocketInfo) : Bool :=
  info.di_s_port == r.s_port && (r.d_port == 0 || info.di_d_port == r.d_port)

/-- The comment in the source is "addr duprication". -/
def otherAddr (info : DatasocketInfo) : Bool :=
  0 != info.di_s_addr && 0 != r.s_addr && r.s_addr != info.di_s_addr

/-- The sockets that the loop goes past. -/
def skips (si : SocketInfo) : Prop :=
  r.protocol = CM_PROT_TCP ∧ si.si_type = .SI_TYPE_UDP ∨
    r.protocol = CM_PROT_UDP ∧ (si.si_type = .SI_TYPE_DATA ∨ si.si_type = .SI_TYPE_LISTEN_TCP ∨
      si.si_type = .SI_TYPE_LISTEN_UDP)

instance decidableSkips (si : SocketInfo) : Decidable (r.skips si) :=
  inferInstanceAs (Decidable (_ ∨ _))

/-- `flg`, and where `reuseinfo` is in the list. -/
structure Scan where
  flg : Bool := true
  reuseinfo : Option ℕ := none
deriving DecidableEq, Repr

/-- The body of the loop, at the `i`-th socket. -/
def look (si : SocketInfo) (i : ℕ) (state : Scan) : Scan :=
  if r.skips si then state
  else
    match si.si_uniq_info with
    | .udp datasocketinfo =>
        if si.si_socket_status = .SI_STATUS_ALIVE then
          if r.samePorts datasocketinfo then
            { flg := r.otherAddr datasocketinfo, reuseinfo := some i }
          else state
        else state
    | _ => state

/-- The loop. It ends with the socket that has no next one. -/
def scan : List SocketInfo → ℕ → Scan → Option Scan
  | [], _, _ => none
  | [_], _, state => some state
  | si :: next :: rest, i, state => scan (next :: rest) (i + 1) (r.look si i state)

end ConnecFor

/-- The destination of a socket that is used again. -/
def SocketInfo.toDestination (r : ConnecFor) (si : SocketInfo) : SocketInfo :=
  match si.si_uniq_info with
  | .udp info =>
      { si with si_uniq_info := .udp { info with di_d_port := r.d_port, di_d_addr := r.d_addr } }
  | _ => si

namespace SocketTable

def setDestination (table : SocketTable) (i : ℕ) (r : ConnecFor) : SocketTable where
  sockets := table.sockets.modify i (SocketInfo.toDestination r)
  bounded := by
    rw [List.length_modify]
    exact table.bounded

/-- The socket id that is returned, and the table. Without a socket the list cannot be read. -/
def kSocketCheckNewSocket (table : SocketTable) (r : ConnecFor) : Option (Int16 × SocketTable) :=
  match r.scan table.sockets 0 {} with
  | none => none
  | some { flg := true, .. } => some (0, table)
  | some { flg := false, reuseinfo } =>
      match reuseinfo with
      | none => none
      | some i =>
          match table.sockets[i]? with
          | none => none
          | some si => some (si.si_socketid, table.setDestination i r)

end SocketTable

namespace ConnecFor

variable (r : ConnecFor)

/-- A UDP socket that is alive and has the ports of the request. -/
def hasPorts (si : SocketInfo) : Bool :=
  match si.si_uniq_info with
  | .udp info => si.alive && r.samePorts info
  | _ => false

/-- It has also a source address that goes with the one of the request. -/
def Reusable (si : SocketInfo) : Prop :=
  si.alive ∧ ∃ info, si.si_uniq_info = .udp info ∧ info.di_s_port = r.s_port ∧
    (r.d_port = 0 ∨ info.di_d_port = r.d_port) ∧
    (r.s_addr = info.di_s_addr ∨ r.s_addr = 0 ∨ info.di_s_addr = 0)

/-- A socket is used again when there is one that can be. -/
def Reuses (table : SocketTable) : Prop :=
  ∃ socketid table', table.kSocketCheckNewSocket r = some (socketid, table') ∧
    (socketid ≠ 0 ↔ ∃ si ∈ table.sockets, r.Reusable si) ∧
    (socketid ≠ 0 → ∃ si ∈ table.sockets, r.Reusable si ∧ si.si_socketid = socketid) ∧
    (socketid = 0 → table' = table)

/-- The last one that has the ports. -/
def latest (sockets : List SocketInfo) : Option SocketInfo := (sockets.filter r.hasPorts).getLast?

variable {r}

theorem hasPorts_iff {si : SocketInfo} :
    r.hasPorts si ↔ si.alive ∧ ∃ info, si.si_uniq_info = .udp info ∧ r.samePorts info := by
  unfold hasPorts
  cases si.si_uniq_info <;> simp

theorem Reusable.hasPorts {si : SocketInfo} (reusable : r.Reusable si) : r.hasPorts si := by
  obtain ⟨alive, info, uniq, source, destination, -⟩ := reusable
  rw [hasPorts_iff]
  exact ⟨alive, info, uniq, by simpa [samePorts, source] using destination⟩

/-- Of the sockets with the ports, the others are the ones whose address is a duplicate. -/
theorem reusable_iff {si : SocketInfo} {info : DatasocketInfo} (ports : r.hasPorts si)
    (uniq : si.si_uniq_info = .udp info) : r.Reusable si ↔ r.otherAddr info = false := by
  obtain ⟨alive, info', uniq', same⟩ := hasPorts_iff.mp ports
  cases uniq.symm.trans uniq'
  have ports' : info.di_s_port = r.s_port ∧ (r.d_port = 0 ∨ info.di_d_port = r.d_port) := by
    simpa [samePorts] using same
  constructor
  · rintro ⟨-, info', uniq', -, -, addr⟩
    cases uniq.symm.trans uniq'
    grind [otherAddr]
  · intro goes
    refine ⟨alive, info, uniq, ports'.1, ports'.2, ?_⟩
    grind [otherAddr]

theorem latest_append (done : List SocketInfo) (si : SocketInfo) :
    r.latest (done ++ [si]) = if r.hasPorts si then some si else r.latest done := by
  unfold latest
  by_cases ports : r.hasPorts si <;> simp [ports]

/-! ## The loop -/

variable (r) in
/-- The flag and the candidate are those of the last socket with the ports. -/
def Reads (done : List SocketInfo) (state : Scan) : Prop :=
  match r.latest done with
  | none => state = {}
  | some si => ∃ info i, si.si_uniq_info = .udp info ∧ done[i]? = some si ∧
      state = { flg := r.otherAddr info, reuseinfo := some i }

theorem look_other {si : SocketInfo} (other : ¬ r.hasPorts si) (i : ℕ) (state : Scan) :
    r.look si i state = state := by
  unfold look
  by_cases skips : r.skips si
  · rw [if_pos skips]
  · rw [if_neg skips]
    cases uniq : si.si_uniq_info with
    | udp info =>
        have dead : si.alive → ¬ r.samePorts info := fun alive same =>
          other (hasPorts_iff.mpr ⟨alive, info, uniq, same⟩)
        grind [SocketInfo.alive]
    | _ => rfl

theorem look_ports (other : r.protocol ≠ CM_PROT_TCP) {si : SocketInfo} {info : DatasocketInfo}
    (ports : r.hasPorts si) (uniq : si.si_uniq_info = .udp info) (i : ℕ) (state : Scan) :
    r.look si i state = { flg := r.otherAddr info, reuseinfo := some i } := by
  obtain ⟨alive, info', uniq', same⟩ := hasPorts_iff.mp ports
  cases uniq.symm.trans uniq'
  have type : si.si_type = .SI_TYPE_UDP := by rw [SocketInfo.si_type, uniq]
  have goes : ¬ r.skips si := by
    rintro (⟨tcp, -⟩ | ⟨-, skipped⟩)
    · exact other tcp
    · rw [type] at skipped
      exact absurd skipped (by decide)
  have status : si.si_socket_status = .SI_STATUS_ALIVE := by simpa [SocketInfo.alive] using alive
  simp only [look, if_neg goes, uniq, if_pos status, if_pos same]

theorem Reads.look (other : r.protocol ≠ CM_PROT_TCP) {done : List SocketInfo} {state : Scan}
    (reads : r.Reads done state) (si : SocketInfo) :
    r.Reads (done ++ [si]) (r.look si done.length state) := by
  unfold Reads
  rw [latest_append]
  by_cases ports : r.hasPorts si
  · obtain ⟨-, info, uniq, -⟩ := hasPorts_iff.mp ports
    rw [if_pos ports, look_ports other ports uniq]
    exact ⟨info, done.length, uniq, by simp, rfl⟩
  · rw [if_neg ports, look_other ports]
    unfold Reads at reads
    cases latest : r.latest done with
    | none =>
        rw [latest] at reads
        exact reads
    | some si' =>
        rw [latest] at reads
        obtain ⟨info, i, uniq, here, rfl⟩ := reads
        have inside := (List.getElem?_eq_some_iff.mp here).1
        exact ⟨info, i, uniq, by rw [List.getElem?_append_left inside, here], rfl⟩

/-- The loop comes to all sockets but the last one. -/
theorem Reads.scan (other : r.protocol ≠ CM_PROT_TCP) {sockets done : List SocketInfo}
    {state : Scan} (reads : r.Reads done state) (nonempty : sockets ≠ []) :
    ∃ state', r.scan sockets done.length state = some state' ∧
      r.Reads (done ++ sockets.dropLast) state' := by
  induction sockets generalizing done state with
  | nil => exact absurd rfl nonempty
  | cons si rest ih =>
      cases rest with
      | nil => exact ⟨state, rfl, by simpa using reads⟩
      | cons next rest =>
          obtain ⟨state', scanned, reads'⟩ := ih (reads.look other si) (by simp)
          rw [List.length_append] at scanned
          exact ⟨state', scanned, by simpa using reads'⟩

/-- For TCP it goes past all that it could take. -/
theorem scan_tcp (tcp : r.protocol = CM_PROT_TCP) {sockets : List SocketInfo}
    (nonempty : sockets ≠ []) (i : ℕ) (state : Scan) : r.scan sockets i state = some state := by
  induction sockets generalizing i with
  | nil => exact absurd rfl nonempty
  | cons si rest ih =>
      cases rest with
      | nil => rfl
      | cons next rest =>
          have same : r.look si i state = state := by
            unfold look
            by_cases skips : r.skips si
            · rw [if_pos skips]
            · rw [if_neg skips]
              cases uniq : si.si_uniq_info with
              | udp info =>
                  have type : si.si_type = .SI_TYPE_UDP := by rw [SocketInfo.si_type, uniq]
                  exact absurd (.inl ⟨tcp, type⟩) skips
              | _ => rfl
          rw [ConnecFor.scan, same]
          exact ih (by simp) (i + 1)

/-! ## Which socket is used again -/

/-- The socket with the ports that is last among those that the loop comes to decides. -/
theorem scan_latest (other : r.protocol ≠ CM_PROT_TCP) {sockets : List SocketInfo}
    (nonempty : sockets ≠ []) :
    (∃ si i, r.latest sockets.dropLast = some si ∧ r.Reusable si ∧ sockets[i]? = some si ∧
        r.scan sockets 0 {} = some { flg := false, reuseinfo := some i }) ∨
      (∀ si, r.latest sockets.dropLast = some si → ¬ r.Reusable si) ∧
        ∃ reuseinfo, r.scan sockets 0 {} = some { flg := true, reuseinfo := reuseinfo } := by
  have start : r.Reads [] {} := rfl
  obtain ⟨state, scanned, reads⟩ := start.scan other nonempty
  simp only [List.length_nil, List.nil_append] at scanned reads
  unfold Reads at reads
  rw [scanned]
  cases latest : r.latest sockets.dropLast with
  | none =>
      rw [latest] at reads
      cases reads
      refine .inr ⟨?_, none, rfl⟩
      intro si none
      cases none
  | some si =>
      rw [latest] at reads
      obtain ⟨info, i, uniq, here, rfl⟩ := reads
      have ports : r.hasPorts si := (List.mem_filter.mp (List.mem_of_getLast? latest)).2
      have here' : sockets[i]? = some si := by
        rw [List.getElem?_dropLast] at here
        split at here
        · exact here
        · cases here
      cases different : r.otherAddr info with
      | false => exact .inl ⟨si, i, rfl, (reusable_iff ports uniq).mpr different, here', rfl⟩
      | true =>
          refine .inr ⟨?_, some i, rfl⟩
          rintro si' ⟨⟩ reusable
          rw [(reusable_iff ports uniq).mp reusable] at different
          cases different

theorem kSocketCheckNewSocket_eq (udp : r.protocol = CM_PROT_UDP) {table : SocketTable}
    (nonempty : table.sockets ≠ []) :
    (∃ si i, r.latest table.sockets.dropLast = some si ∧ r.Reusable si ∧
        table.sockets[i]? = some si ∧
        table.kSocketCheckNewSocket r = some (si.si_socketid, table.setDestination i r)) ∨
      (∀ si, r.latest table.sockets.dropLast = some si → ¬ r.Reusable si) ∧
        table.kSocketCheckNewSocket r = some (0, table) := by
  have other : r.protocol ≠ CM_PROT_TCP := by
    rw [udp]
    decide
  unfold SocketTable.kSocketCheckNewSocket
  obtain ⟨si, i, latest, reusable, here, scanned⟩ | ⟨unusable, reuseinfo, scanned⟩ :=
    scan_latest other nonempty
  · exact .inl ⟨si, i, latest, reusable, here, by simp only [scanned, here]⟩
  · exact .inr ⟨unusable, by simp only [scanned]⟩

/-- The answer is right when no socket can be used again, or the one that decides can be. -/
theorem reuses_iff (udp : r.protocol = CM_PROT_UDP) (table : SocketTable)
    (nonempty : table.sockets ≠ []) :
    r.Reuses table ↔ (∀ si ∈ table.sockets, ¬ r.Reusable si) ∨
      ∃ si, r.latest table.sockets.dropLast = some si ∧ r.Reusable si ∧ si.si_socketid ≠ 0 := by
  have decides := kSocketCheckNewSocket_eq udp nonempty
  constructor
  · rintro ⟨socketid, table', checked, reused, -, -⟩
    rcases decides with ⟨si, i, latest, reusable, -, checked'⟩ | ⟨-, checked'⟩
    · have here : si ∈ table.sockets :=
        List.dropLast_subset _ (List.mem_filter.mp (List.mem_of_getLast? latest)).1
      cases checked.symm.trans checked'
      exact .inr ⟨si, latest, reusable, reused.mpr ⟨si, here, reusable⟩⟩
    · cases checked.symm.trans checked'
      refine .inl ?_
      intro si here reusable
      exact absurd rfl (reused.mpr ⟨si, here, reusable⟩)
  · rintro (unusable | ⟨si, latest, reusable, positive⟩)
    · rcases decides with ⟨si, i, -, reusable, here, -⟩ | ⟨-, checked⟩
      · exact absurd reusable (unusable si (List.mem_of_getElem? here))
      · refine ⟨0, table, checked, ?_, fun id => absurd rfl id, fun _ => rfl⟩
        refine ⟨fun id => absurd rfl id, ?_⟩
        rintro ⟨si, here, reusable⟩
        exact absurd reusable (unusable si here)
    · rcases decides with ⟨si', i, latest', -, here, checked⟩ | ⟨unusable, -⟩
      · cases latest.symm.trans latest'
        have found : ∃ si ∈ table.sockets, r.Reusable si :=
          ⟨si, List.mem_of_getElem? here, reusable⟩
        exact ⟨_, _, checked, ⟨fun _ => found, fun _ => positive⟩,
          fun _ => ⟨si, List.mem_of_getElem? here, reusable, rfl⟩,
          fun id => absurd id positive⟩
      · exact absurd reusable (unusable si latest)

/-! ## The last socket, and a later one -/

/-- A UDP socket that is alive, for a port and an address. -/
def udpSocket (socketid : Int16) (port : UInt16) (addr : In6Addr) : SocketInfo where
  si_socketid := socketid
  si_socket_status := .SI_STATUS_ALIVE
  si_uniq_info := .udp { di_s_port := port, di_s_addr := addr }

/-- A request for a port and an address, to any destination port. -/
def fromPort (port : UInt16) (addr : In6Addr) : ConnecFor where
  s_port := port
  s_addr := addr
  d_port := 0
  d_addr := 0
  protocol := CM_PROT_UDP

/-- A socket with another one behind it is used again. -/
theorem reuses_first :
    (fromPort 500 1).Reuses ⟨[udpSocket 1 500 1, udpSocket 2 4500 1], by decide⟩ := by
  apply (reuses_iff rfl _ (by decide)).mpr
  refine .inr ⟨udpSocket 1 500 1, rfl, ?_, by decide⟩
  exact ⟨rfl, _, rfl, rfl, .inl rfl, .inl rfl⟩

/-- Behind the socket for the commands is the only UDP socket, which is not looked at. -/
theorem not_reuses_last :
    ¬ ∀ (r : ConnecFor) (table : SocketTable), r.protocol = CM_PROT_UDP → table.sockets ≠ [] →
      r.Reuses table := by
  intro claim
  obtain ⟨socketid, table', checked, reused, -⟩ :=
    claim (fromPort 500 1) ⟨[⟨1, .SI_STATUS_ALIVE, .unix⟩, udpSocket 2 500 1], by decide⟩ rfl
      (by decide)
  cases checked
  have reusable : (fromPort 500 1).Reusable (udpSocket 2 500 1) :=
    ⟨rfl, _, rfl, rfl, .inl rfl, .inl rfl⟩
  exact absurd rfl (reused.mpr ⟨_, by simp, reusable⟩)

end ConnecFor

end Tahi.Koi
