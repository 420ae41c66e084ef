import Tahi.General.Refinement
import Tahi.Koi.KSocketOpen
import Tahi.Koi.SockinfoAck

/-! # The acks of whole runs

Of a socket, what the ack is put together from stays as it is from the time it is opened: only its
status changes, and the ends of a UDP socket. So what an ack says is decided by the request that
the socket goes back to.
-/

namespace Tahi.Koi

namespace SocketRecord

variable {si si' : SocketRecord}

/-- What holds of each socket if the ack is right for each. -/
def Stays (si : SocketRecord) : Prop :=
  ¬ si.isUnix → si.Kept ∧ Told si.si_type si.openedFor.interfaceid

/-- The id, the status and the descriptor do not matter. -/
theorem Kept.renew (kept : si.Kept) (socketid : Int16) (status : SiStatus) (sockethandle : Int32) :
    Kept { si with si_socketid := socketid, si_socket_status := status,
                   si_sockethandle := sockethandle } :=
  ⟨kept.linkname, kept.protocol, kept.source, kept.ports, kept.family⟩

/-- Of a socket with both ends, the name of the link and the protocol is all. -/
theorem Kept.pair (linkname : si.si_linkname = linknameOf si.openedFor.interfaceid)
    (protocol : si.protocol = some si.openedFor.protocol)
    (type : si.si_type = .SI_TYPE_UDP ∨ si.si_type = .SI_TYPE_DATA) : si.Kept where
  linkname := linkname
  protocol := protocol
  source info uniq := by simp [SocketInfo.si_type, uniq] at type
  ports info uniq := by simp [SocketInfo.si_type, uniq] at type
  family info uniq := by simp [SocketInfo.si_type, uniq] at type

theorem Stays.renew (stays : si.Stays) (socketid : Int16) (status : SiStatus)
    (sockethandle : Int32) :
    Stays { si with si_socketid := socketid, si_socket_status := status,
                    si_sockethandle := sockethandle } := by
  intro other
  obtain ⟨kept, told⟩ := stays other
  exact ⟨kept.renew .., told⟩

/-- What a socket may become. -/
structure Ages (si si' : SocketRecord) : Prop where
  socketid : si'.si_socketid = si.si_socketid
  stays : si.Stays → si'.Stays

theorem Ages.refl (si : SocketRecord) : si.Ages si := ⟨rfl, id⟩

theorem Ages.closed (si : SocketRecord) : si.Ages si.closed where
  socketid := rfl
  stays stays := stays.renew _ _ _

/-- The ends of a UDP socket may change. -/
theorem Ages.udp {info info' : DatasocketInfo} (uniq : si.si_uniq_info = .udp info) :
    si.Ages { si with si_uniq_info := .udp info' } where
  socketid := rfl
  stays stays _ := by
    have udp : ¬ si.isUnix := by simp [isUnix, uniq]
    obtain ⟨kept, told⟩ := stays udp
    have protocol := kept.protocol
    rw [SocketInfo.si_type, uniq] at told
    rw [SocketRecord.protocol, SocketInfo.si_type, uniq] at protocol
    exact ⟨.pair kept.linkname protocol (.inl rfl), told⟩

theorem Ages.receives (o : SocketMade) (si : SocketRecord) : si.Ages (si.receives o) := by
  unfold SocketRecord.receives
  cases uniq : si.si_uniq_info with
  | udp info => exact .udp uniq
  | _ => exact .refl si

theorem Ages.toDestination (r : ConnecFor) (si : SocketRecord) :
    si.Ages { si with toSocketInfo := si.toSocketInfo.toDestination r } := by
  unfold SocketInfo.toDestination
  cases uniq : si.si_uniq_info with
  | udp info => exact .udp uniq
  | _ => exact .refl si

theorem Ages.all (sockets : List SocketRecord) : List.Forall₂ Ages sockets sockets :=
  List.forall₂_same.mpr fun si _ => .refl si

theorem Ages.modify {f : SocketRecord → SocketRecord} (ages : ∀ si, Ages si (f si))
    (sockets : List SocketRecord) (i : ℕ) : List.Forall₂ Ages sockets (sockets.modify i f) := by
  induction sockets generalizing i with
  | nil => simp
  | cons si rest ih =>
      cases i with
      | zero => exact .cons (ages si) (all rest)
      | succ i => exact .cons (.refl si) (ih i)

theorem Ages.closeFrom (sockethandle : Int32) (loop : ℕ) (sockets : List SocketRecord) :
    List.Forall₂ Ages sockets (SocketRecords.closeFrom sockethandle loop sockets) := by
  induction sockets generalizing loop with
  | nil => cases loop <;> exact .nil
  | cons si rest ih =>
      cases loop with
      | zero => exact .cons (closed si) (all rest)
      | succ loop =>
          rw [SocketRecords.closeFrom]
          split
          · exact .cons (closed si) (all rest)
          · exact .cons (.refl si) (ih loop)

end SocketRecord

namespace SocketRecords

variable {t t' : SocketRecords} {si : SocketRecord}

/-- In every run that the ack is right in. -/
structure Inv (t : SocketRecords) : Prop extends t.Numbered where
  stays : ∀ si ∈ t.sockets, si.Stays

theorem ids_ages {sockets sockets' : List SocketRecord}
    (ages : List.Forall₂ SocketRecord.Ages sockets sockets') : ids sockets' = ids sockets := by
  induction ages with
  | nil => rfl
  | cons first rest ih => exact congrArg₂ List.cons first.socketid ih

theorem stays_ages {sockets sockets' : List SocketRecord}
    (ages : List.Forall₂ SocketRecord.Ages sockets sockets') (every : ∀ si ∈ sockets, si.Stays) :
    ∀ si ∈ sockets', si.Stays := by
  induction ages with
  | nil => exact every
  | cons first rest ih =>
      obtain ⟨here, later⟩ := List.forall_mem_cons.mp every
      exact List.forall_mem_cons.mpr ⟨first.stays here, ih later⟩

/-- Sockets that may have changed, under the same counter. -/
theorem Inv.ages (inv : t.Inv) (ages : List.Forall₂ SocketRecord.Ages t.sockets t'.sockets)
    (counter : t'.g_socket_socketid = t.g_socket_socketid) : t'.Inv where
  some_ none_ := inv.some_ (List.forall₂_nil_right_iff.mp (none_ ▸ ages))
  counter := by
    rw [counter]
    exact inv.counter
  increasing := by
    rw [ids_ages ages]
    exact inv.increasing
  positive := by
    rw [ids_ages ages]
    exact inv.positive
  upto := by
    rw [ids_ages ages, counter]
    exact inv.upto
  enough := by
    rw [← ages.length_eq, counter]
    exact inv.enough
  stays := stays_ages ages inv.stays

/-- An id that is used up. -/
theorem Inv.increment (inv : t.Inv) (place : ¬ t.full) : t.increment.Inv where
  toNumbered := {
    some_ := inv.some_
    counter := Int16.le_of_lt (Sockets.le_succ inv.counter place)
    increasing := inv.increasing
    positive := inv.positive
    upto socketid here := Int16.le_of_lt (Sockets.le_succ (inv.upto socketid here) place)
    enough := Nat.le_of_succ_le (Sockets.toNat_succ inv.enough place inv.counter) }
  stays := inv.stays

theorem increment_decrement (t : SocketRecords) : t.increment.decrement = t := by
  simp [SocketRecords.increment, SocketRecords.decrement]

/-- A new socket, with an id above all others. -/
theorem Numbered.connect (numbered : t.Numbered) (place : ¬ t.full) (si : SocketRecord) :
    (t.increment.connect si).Numbered := by
  obtain ⟨increasing, positive, upto⟩ := Sockets.ids_succ numbered.counter numbered.increasing
    numbered.positive numbered.upto place
  have added : ids (t.increment.connect si).sockets =
      ids t.sockets ++ [t.g_socket_socketid + 1] := by
    simp [ids, SocketRecords.connect, SocketRecords.increment]
  refine ⟨?_, ?_, ?_, ?_, ?_, ?_⟩
  · simp [SocketRecords.connect]
  · exact Int16.le_of_lt (Sockets.le_succ numbered.counter place)
  · rw [added]
    exact increasing
  · rw [added]
    exact positive
  · rw [added]
    exact upto
  · simp only [SocketRecords.connect, List.length_append]
    exact Sockets.toNat_succ numbered.enough place numbered.counter

theorem Inv.connect (inv : t.Inv) (place : ¬ t.full) (stays : si.Stays) :
    (t.increment.connect si).Inv where
  toNumbered := inv.toNumbered.connect place si
  stays := by
    intro si' there
    cases List.mem_append.mp there with
    | inl old => exact inv.stays si' old
    | inr new =>
        rw [List.mem_singleton.mp new]
        exact stays.renew _ _ _

def ReportsAll (t : SocketRecords) : Prop := ∀ si ∈ t.sockets, ¬ si.isUnix → t.Reports si

theorem Inv.reportsAll (inv : t.Inv) : t.ReportsAll := by
  intro si here other
  obtain ⟨kept, told⟩ := inv.stays si here other
  exact (reports_iff (inv.found here) kept other).mpr told

/-- A new socket that the ack is right for. The id after the last one is negative. -/
theorem Numbered.tells (numbered : t.Numbered) (kept : si.Kept) (other : ¬ si.isUnix)
    (good : (t.increment.connect si).ReportsAll) :
    ¬ t.full ∧ Told si.si_type si.openedFor.interfaceid := by
  let new : SocketRecord := { si with si_socketid := t.g_socket_socketid + 1 }
  have here : new ∈ (t.increment.connect si).sockets := by
    simp [new, SocketRecords.connect, SocketRecords.increment]
  have reports : (t.increment.connect si).Reports new := good new here other
  have place : ¬ t.full := by
    intro full
    have last : t.g_socket_socketid = 32767 := Int16.toInt_inj.mp full
    have negative : t.g_socket_socketid + 1 < 0 := by
      rw [last]
      decide
    have ng : (t.increment.connect si).process_command_sockinfo_req 0 new.si_socketid =
        some [{ request_num := 0, result := CM_RESULT_SIG_NG_OTHER }] := by
      rw [process_command_sockinfo_req, kSocketGetSIBySocketId, if_pos negative]
      rfl
    have result := congrArg SockinfoAck.result
      (List.singleton_inj.mp (Option.some.inj (ng.symm.trans (reports 0))))
    exact absurd result (show CM_RESULT_SIG_NG_OTHER ≠ CM_RESULT_OK by decide)
  have kept' : new.Kept := kept.renew ..
  have found := (numbered.connect place si).found here
  exact ⟨place, (reports_iff found kept' other).mp reports⟩

/-! ## The ways to a new socket -/

/-- What they have in common. -/
def Changes (opened : Prop) (si : SocketRecord) (t t' : SocketRecords) : Prop :=
  ∃ t₁ : SocketRecords, List.Forall₂ SocketRecord.Ages t.sockets t₁.sockets ∧
    t₁.g_socket_socketid = t.g_socket_socketid ∧
    (¬ opened ∧ (t' = t₁ ∨ ¬ t.full ∧ t' = t₁.increment) ∨
      opened ∧ ∃ sockfd, t' = t₁.increment.connect { si with si_sockethandle := sockfd })

theorem Changes.keeps {opened : Prop} (changes : Changes opened si t t') (inv : t.Inv)
    (fine : opened → ¬ t.full ∧ si.Stays) : t'.Inv := by
  obtain ⟨t₁, ages, counter, result⟩ := changes
  have inv₁ := inv.ages ages counter
  have same : t₁.full ↔ t.full := by rw [full, full, counter]
  obtain ⟨-, rfl | ⟨place, rfl⟩⟩ | ⟨opened, sockfd, rfl⟩ := result
  · exact inv₁
  · exact inv₁.increment (place ∘ same.mp)
  · obtain ⟨place, stays⟩ := fine opened
    exact inv₁.connect (place ∘ same.mp) (stays.renew _ _ _)

theorem Changes.tells {opened : Prop} (changes : Changes opened si t t') (inv : t.Inv)
    (kept : si.Kept) (other : ¬ si.isUnix) (good : t'.ReportsAll) (open_ : opened) :
    ¬ t.full ∧ Told si.si_type si.openedFor.interfaceid := by
  obtain ⟨t₁, ages, counter, ⟨closed, -⟩ | ⟨-, sockfd, rfl⟩⟩ := changes
  · exact absurd open_ closed
  · have numbered := (inv.ages ages counter).toNumbered
    have kept' := kept.renew si.si_socketid si.si_socket_status sockfd
    obtain ⟨place, told⟩ := numbered.tells kept' other good
    rw [full, counter] at place
    exact ⟨place, told⟩

/-- When a socket of a type is opened. -/
def Opens (o : SocketMade) (si_type : SiType) (t : SocketRecords) : Prop :=
  match si_type with
  | .SI_TYPE_RAW => o.sockfd ≠ none ∧ o.malloc ∧ o.kParserGet
  | .SI_TYPE_LISTEN_TCP => ¬ t.full ∧ o.sockfd ≠ none ∧ o.malloc ∧ o.getsockname
  | _ => ¬ t.full ∧ o.sockfd ≠ none ∧ o.malloc ∧ o.kParserGet ∧ o.getsockname

theorem ages_kSocketMakeSocketStatusClose (sockethandle : Int32) (t : SocketRecords) :
    List.Forall₂ SocketRecord.Ages t.sockets
      (t.kSocketMakeSocketStatusClose sockethandle).sockets ∧
    (t.kSocketMakeSocketStatusClose sockethandle).g_socket_socketid = t.g_socket_socketid := by
  unfold kSocketMakeSocketStatusClose
  split
  · exact ⟨SocketRecord.Ages.all _, rfl⟩
  · exact ⟨SocketRecord.Ages.closeFrom .., rfl⟩

theorem ages_kSocketOpenWaitSocketInvalid (o : SocketMade) (t : SocketRecords) :
    List.Forall₂ SocketRecord.Ages t.sockets (t.kSocketOpenWaitSocketInvalid o).sockets ∧
    (t.kSocketOpenWaitSocketInvalid o).g_socket_socketid = t.g_socket_socketid := by
  unfold kSocketOpenWaitSocketInvalid
  by_cases full : t.full
  · rw [if_pos full]
    exact ⟨SocketRecord.Ages.all _, rfl⟩
  · rw [if_neg full]
    cases o.sockfd with
    | none => exact ⟨SocketRecord.Ages.all _, rfl⟩
    | some sockfd => exact ages_kSocketMakeSocketStatusClose sockfd t

theorem Changes.idle {opened : Prop} (closed : ¬ opened) : Changes opened si t t :=
  ⟨t, SocketRecord.Ages.all _, rfl, .inl ⟨closed, .inl rfl⟩⟩

/-- A socket that had the descriptor is closed first. -/
theorem Changes.behind {opened : Prop} (sockfd : Int32)
    (result : ¬ opened ∧ (t' = t.kSocketMakeSocketStatusClose sockfd ∨
          ¬ t.full ∧ t' = (t.kSocketMakeSocketStatusClose sockfd).increment) ∨
        opened ∧ t' = (t.kSocketMakeSocketStatusClose sockfd).increment.connect
          { si with si_sockethandle := sockfd }) : Changes opened si t t' := by
  obtain ⟨ages, counter⟩ := ages_kSocketMakeSocketStatusClose sockfd t
  refine ⟨_, ages, counter, ?_⟩
  obtain unopened | ⟨open_, new⟩ := result
  · exact .inl unopened
  · exact .inr ⟨open_, sockfd, new⟩

section Ways

variable (o : SocketMade) (si : SocketRecord) (t : SocketRecords)

theorem Changes.kSocketOpen (type : si.si_type = .SI_TYPE_UDP ∨ si.si_type = .SI_TYPE_DATA) :
    Changes (t.Opens o si.si_type) si t (t.kSocketOpen o si) := by
  have opens : t.Opens o si.si_type ↔
      ¬ t.full ∧ o.sockfd ≠ none ∧ o.malloc ∧ o.kParserGet ∧ o.getsockname := by
    obtain type | type := type <;> rw [type] <;> rfl
  rw [opens]
  unfold SocketRecords.kSocketOpen
  by_cases full : t.full
  · rw [if_pos full]
    exact .idle fun opens => opens.1 full
  · rw [if_neg full]
    cases o.sockfd with
    | none => exact .idle fun opens => opens.2.1 rfl
    | some sockfd =>
        refine .behind sockfd ?_
        dsimp only
        split_ifs with malloc kParserGet getsockname
        · exact .inl ⟨by simp_all, .inl rfl⟩
        · exact .inl ⟨by simp_all, .inl (increment_decrement _)⟩
        · exact .inl ⟨by simp_all, .inr ⟨full, rfl⟩⟩
        · exact .inr ⟨by simp_all, rfl⟩

theorem Changes.kSocketOpenWaitSocket
    (type : si.si_type = .SI_TYPE_LISTEN_UDP ∨ si.si_type = .SI_TYPE_LISTEN_TCP) :
    Changes (t.Opens o si.si_type) si t (t.kSocketOpenWaitSocket o si) := by
  have opens : t.Opens o si.si_type ↔ ¬ t.full ∧ o.sockfd ≠ none ∧ o.malloc ∧ o.getsockname ∧
      (si.si_type = .SI_TYPE_LISTEN_UDP → o.kParserGet) := by
    obtain type | type := type <;> simp [Opens, type]
    tauto
  rw [opens]
  unfold SocketRecords.kSocketOpenWaitSocket
  by_cases full : t.full
  · rw [if_pos full]
    exact .idle fun opens => opens.1 full
  · rw [if_neg full]
    cases o.sockfd with
    | none => exact .idle fun opens => opens.2.1 rfl
    | some sockfd =>
        refine .behind sockfd ?_
        dsimp only
        split_ifs with malloc getsockname kParserGet
        · exact .inl ⟨by simp_all, .inl rfl⟩
        · exact .inl ⟨by simp_all, .inr ⟨full, rfl⟩⟩
        · exact .inl ⟨by simp_all, .inr ⟨full, rfl⟩⟩
        · exact .inr ⟨by simp_all, rfl⟩

theorem Changes.kSocketOpenRaw (type : si.si_type = .SI_TYPE_RAW) :
    Changes (t.Opens o si.si_type) si t (t.kSocketOpenRaw o si) := by
  have opens : t.Opens o si.si_type ↔ o.sockfd ≠ none ∧ o.malloc ∧ o.kParserGet := by
    rw [type]
    rfl
  rw [opens]
  unfold SocketRecords.kSocketOpenRaw
  cases o.sockfd with
  | none => exact .idle fun opens => opens.1 rfl
  | some sockfd =>
      refine .behind sockfd ?_
      dsimp only
      split_ifs with malloc kParserGet
      · exact .inl ⟨by simp_all, .inl rfl⟩
      · exact .inl ⟨by simp_all, .inl (increment_decrement _)⟩
      · exact .inr ⟨by simp_all, rfl⟩

theorem Changes.kSocketRegist :
    Changes (o.sockfd ≠ none ∧ ¬ t.full ∧ o.malloc) si t (t.kSocketRegist o si) := by
  unfold SocketRecords.kSocketRegist
  refine ⟨t, SocketRecord.Ages.all _, rfl, ?_⟩
  cases o.sockfd with
  | none => simp
  | some handle =>
      dsimp only
      split_ifs with full malloc
      · exact .inl ⟨by simp [full], .inl rfl⟩
      · exact .inl ⟨by simp_all, .inl rfl⟩
      · exact .inr ⟨by simp_all, handle, rfl⟩

end Ways

/-! ## What a request opens -/

theorem look_eq (r : ConnecFor) (si : SocketInfo) (i : ℕ) (state : ConnecFor.Scan) :
    r.look si i state = state ∨
      ∃ flg, r.look si i state = { flg := flg, reuseinfo := some i } := by
  unfold ConnecFor.look
  by_cases skips : r.skips si
  · exact .inl (if_pos skips)
  · rw [if_neg skips]
    cases si.si_uniq_info with
    | udp info =>
        dsimp only
        split_ifs
        · exact .inr ⟨_, rfl⟩
        · exact .inl rfl
        · exact .inl rfl
    | _ => exact .inl rfl

/-- The loop leaves the flag, or it has a candidate. -/
theorem scan_candidate (r : ConnecFor) {sockets : List SocketInfo} {i : ℕ} {state : ConnecFor.Scan}
    (some_ : sockets ≠ []) (candidate : state.flg = false → ∃ j < i, state.reuseinfo = some j) :
    ∃ state', r.scan sockets i state = some state' ∧
      (state'.flg = false → ∃ j < i + sockets.length, state'.reuseinfo = some j) := by
  induction sockets generalizing i state with
  | nil => exact absurd rfl some_
  | cons si rest ih =>
      cases rest with
      | nil =>
          refine ⟨state, rfl, fun flg => ?_⟩
          obtain ⟨j, before, there⟩ := candidate flg
          exact ⟨j, by omega, there⟩
      | cons next rest =>
          have looked : (r.look si i state).flg = false →
              ∃ j < i + 1, (r.look si i state).reuseinfo = some j := by
            obtain same | ⟨flg, new⟩ := look_eq r si i state
            · rw [same]
              intro flg
              obtain ⟨j, before, there⟩ := candidate flg
              exact ⟨j, by omega, there⟩
            · rw [new]
              exact fun _ => ⟨i, by omega, rfl⟩
          obtain ⟨state', scanned, later⟩ := ih (by simp) looked
          refine ⟨state', scanned, fun flg => ?_⟩
          obtain ⟨j, before, there⟩ := later flg
          rw [List.length_cons] at before
          simp only [List.length_cons]
          exact ⟨j, by omega, there⟩

/-- A socket that is used again has an id. -/
theorem Inv.kSocketCheckNewSocket (inv : t.Inv) (r : ConnecFor) :
    ∃ socketid t₁, t.kSocketCheckNewSocket r = some (socketid, t₁) ∧
      List.Forall₂ SocketRecord.Ages t.sockets t₁.sockets ∧
      t₁.g_socket_socketid = t.g_socket_socketid ∧ (socketid = 0 → t₁ = t) := by
  have some_ : t.sockets.map SocketRecord.toSocketInfo ≠ [] := by
    simpa using inv.some_
  obtain ⟨⟨flg, reuseinfo⟩, scanned, candidate⟩ :=
    @scan_candidate r _ 0 {} some_ nofun
  rw [SocketRecords.kSocketCheckNewSocket, scanned]
  cases flg with
  | true => exact ⟨0, t, rfl, SocketRecord.Ages.all _, rfl, fun _ => rfl⟩
  | false =>
      obtain ⟨j, inside, there⟩ := candidate rfl
      cases there
      have inside' : j < t.sockets.length := by simpa using inside
      have here : t.sockets[j]? = some t.sockets[j] := List.getElem?_eq_getElem inside'
      simp only [here]
      refine ⟨_, _, rfl, SocketRecord.Ages.modify (.toDestination r) _ j, rfl, fun zero => ?_⟩
      have positive := inv.positive _ (List.mem_map_of_mem (List.getElem_mem inside'))
      rw [zero] at positive
      exact absurd positive (by decide)

end SocketRecords

section Requests

variable {r : ConnecReq} {w : WaitReq} (o : SocketMade)

/-- A type goes with one protocol, or with two. -/
theorem ConnecReq.newconnec_type_cases {si_type : SiType}
    (type : r.newconnec_type = some si_type) :
    si_type = .SI_TYPE_UDP ∧ r.protocol = CM_PROT_UDP ∨
      si_type = .SI_TYPE_DATA ∧ (r.protocol = CM_PROT_TCP ∨ r.protocol = CM_PROT_TLS) ∨
      si_type = .SI_TYPE_RAW ∧ r.protocol = CM_PROT_ICMP := by
  unfold newconnec_type at type
  split_ifs at type with tcp udp icmp tls <;> cases type
  · exact .inr (.inl ⟨rfl, .inl tcp⟩)
  · exact .inl ⟨rfl, udp⟩
  · exact .inr (.inr ⟨rfl, icmp⟩)
  · exact .inr (.inl ⟨rfl, .inr tls⟩)

theorem ConnecReq.kept_udp (info : DatasocketInfo) (protocol : r.protocol = CM_PROT_UDP) :
    (r.record (.udp info)).Kept :=
  .pair rfl (congrArg some protocol.symm) (.inl rfl)

theorem ConnecReq.kept_data (info : DatasocketInfo)
    (protocol : r.protocol = CM_PROT_TCP ∨ r.protocol = CM_PROT_TLS) :
    (r.record (.data info)).Kept := by
  have same : (r.record (.data info)).protocol = some r.protocol := by
    obtain protocol | protocol := protocol <;>
      simp only [SocketRecord.protocol, ConnecReq.record, SocketRecord.new, ConnecReq.tlsmode,
        protocol] <;> rfl
  exact .pair rfl same (.inr rfl)

theorem ConnecReq.kept_raw (protocol : r.protocol = CM_PROT_ICMP) : (r.rawRecord o).Kept := by
  refine ⟨rfl, congrArg some protocol.symm, nofun, ?_, nofun⟩
  rintro info ⟨⟩
  rfl

/-- The type of the socket that is to listen. -/
def WaitReq.newwait_type (w : WaitReq) : Option SiType :=
  if w.protocol = CM_PROT_TLS ∧ !w.kIsTLSInitialize then none
  else if w.protocol = CM_PROT_TCP ∨ w.protocol = CM_PROT_TLS then some .SI_TYPE_LISTEN_TCP
  else if w.protocol = CM_PROT_UDP then some .SI_TYPE_LISTEN_UDP
  else if w.protocol = CM_PROT_ICMP then some .SI_TYPE_RAW
  else none

theorem familyOf_ne (ipver : UInt8) : ipverOf (familyOf ipver) ≠ 0 := by
  unfold familyOf
  split_ifs <;> decide

theorem WaitReq.kept_tcp (protocol : w.protocol = CM_PROT_TCP ∨ w.protocol = CM_PROT_TLS) :
    (w.tcpRecord o).Kept := by
  have same : (w.tcpRecord o).protocol = some w.protocol := by
    obtain protocol | protocol := protocol <;>
      simp only [SocketRecord.protocol, WaitReq.tcpRecord, SocketRecord.new, protocol] <;> rfl
  refine ⟨rfl, same, nofun, nofun, ?_⟩
  rintro info ⟨⟩
  exact familyOf_ne w.ipver

theorem WaitReq.kept_udp (protocol : w.protocol = CM_PROT_UDP) : (w.udpRecord o).Kept := by
  refine ⟨rfl, congrArg some protocol.symm, ?_, nofun, nofun⟩
  rintro info ⟨⟩
  exact ⟨rfl, rfl⟩

theorem WaitReq.kept_raw (protocol : w.protocol = CM_PROT_ICMP) : (w.rawRecord o).Kept := by
  refine ⟨rfl, congrArg some protocol.symm, nofun, ?_, nofun⟩
  rintro info ⟨⟩
  rfl

end Requests

namespace SocketRecords

variable {t t' : SocketRecords} {si : SocketRecord}

/-- The connect requests that come to the opening of a socket. -/
def comesToOpen (t : SocketRecords) (r : ConnecReq) : Prop :=
  ¬ (r.protocol = CM_PROT_TLS ∧ !r.kIsTLSInitialize) ∧
    (t.kSocketCheckNewSocket r.toConnecFor).map Prod.fst = some 0

/-- A socket that a request opens has an id left, and it is one that the ack is right for. -/
def Tells (t : SocketRecords) : Event → Prop
  | .process_command_connect_req r o => t.comesToOpen r →
      ∀ si_type, r.newconnec_type = some si_type → t.Opens o si_type →
        ¬ t.full ∧ Told si_type r.interfaceid
  | .process_command_wait_req w o =>
      ∀ si_type, w.newwait_type = some si_type → t.Opens o si_type →
        ¬ t.full ∧ Told si_type w.interfaceid
  | _ => True

/-- What comes of an event. -/
def Does (event : Event) (t t' : SocketRecords) : Prop :=
  ∃ opened si, Changes opened si t t' ∧ (t.Tells event ↔ (opened → ¬ t.full ∧ si.Stays)) ∧
    (opened → ¬ t.full ∧ si.Stays ∨ si.Kept ∧ ¬ si.isUnix)

theorem Does.quiet {event : Event}
    (ages : List.Forall₂ SocketRecord.Ages t.sockets t'.sockets)
    (counter : t'.g_socket_socketid = t.g_socket_socketid) (tells : t.Tells event) :
    Does event t t' :=
  ⟨False, .new .unix {} [] 0 0, ⟨t', ages, counter, .inl ⟨id, .inl rfl⟩⟩,
    iff_of_true tells False.elim, False.elim⟩

/-- A socket that nobody has asked for. -/
theorem Does.follows {opened : Prop} {event : Event} (changes : Changes opened si t t')
    (tells : t.Tells event) (fine : opened → ¬ t.full ∧ si.Stays) : Does event t t' :=
  ⟨opened, si, changes, iff_of_true tells fine, .inl ∘ fine⟩

theorem Does.asked {opened : Prop} {event : Event} (changes : Changes opened si t t')
    (kept : si.Kept) (other : ¬ si.isUnix)
    (tells : t.Tells event ↔
      (opened → ¬ t.full ∧ Told si.si_type si.openedFor.interfaceid)) : Does event t t' := by
  have stays : si.Stays ↔ Told si.si_type si.openedFor.interfaceid :=
    ⟨fun stays => (stays other).2, fun told _ => ⟨kept, told⟩⟩
  refine ⟨opened, si, changes, ?_, fun _ => .inr ⟨kept, other⟩⟩
  rw [tells, stays]

theorem Inv.process_command_connect_req (inv : t.Inv) (r : ConnecReq) (o : SocketMade) :
    ∃ t', t.process_command_connect_req o r = some t' ∧
      Does (.process_command_connect_req r o) t t' := by
  obtain ⟨socketid, t₁, checked, ages, counter, same⟩ := inv.kSocketCheckNewSocket r.toConnecFor
  unfold SocketRecords.process_command_connect_req
  by_cases tls : r.protocol = CM_PROT_TLS ∧ !r.kIsTLSInitialize
  · exact ⟨t, if_pos tls, .quiet (SocketRecord.Ages.all _) rfl fun comes => absurd tls comes.1⟩
  · rw [if_neg tls, checked]
    dsimp only
    by_cases new : socketid = 0
    · cases same new
      have comes : t.comesToOpen r := ⟨tls, by rw [checked, new]; rfl⟩
      have asked {si_type : SiType} (type : r.newconnec_type = some si_type) :
          t.Tells (.process_command_connect_req r o) ↔
            (t.Opens o si_type → ¬ t.full ∧ Told si_type r.interfaceid) := by
        simp [Tells, comes, type]
      rw [if_neg (not_not.mpr new)]
      cases type : r.newconnec_type with
      | none =>
          refine ⟨t, rfl, .quiet (SocketRecord.Ages.all _) rfl fun _ si_type asked => ?_⟩
          rw [type] at asked
          cases asked
      | some si_type =>
          obtain ⟨rfl, protocol⟩ | ⟨rfl, protocol⟩ | ⟨rfl, protocol⟩ :=
            ConnecReq.newconnec_type_cases type
          · exact ⟨_, rfl, .asked (.kSocketOpen o _ t (.inl rfl))
              (ConnecReq.kept_udp _ protocol) nofun (asked type)⟩
          · exact ⟨_, rfl, .asked (.kSocketOpen o _ t (.inr rfl))
              (ConnecReq.kept_data _ protocol) nofun (asked type)⟩
          · exact ⟨_, rfl, .asked (.kSocketOpenRaw o _ t rfl)
              (ConnecReq.kept_raw o protocol) nofun (asked type)⟩
    · refine ⟨t₁, if_pos new, .quiet ages counter fun comes => ?_⟩
      have zero := comes.2
      rw [checked] at zero
      exact absurd (Option.some.inj zero) new

theorem Does.process_command_wait_req (w : WaitReq) (o : SocketMade) :
    Does (.process_command_wait_req w o) t (t.process_command_wait_req o w) := by
  have asked {si_type : SiType} (type : w.newwait_type = some si_type) :
      t.Tells (.process_command_wait_req w o) ↔
        (t.Opens o si_type → ¬ t.full ∧ Told si_type w.interfaceid) := by
    simp [Tells, type]
  have idle (type : w.newwait_type = none) : t.Tells (.process_command_wait_req w o) := by
    simp [Tells, type]
  unfold SocketRecords.process_command_wait_req
  unfold WaitReq.newwait_type at asked idle
  by_cases tls : w.protocol = CM_PROT_TLS ∧ !w.kIsTLSInitialize
  · rw [if_pos tls] at idle ⊢
    exact .quiet (SocketRecord.Ages.all _) rfl (idle rfl)
  · rw [if_neg tls] at idle asked ⊢
    split_ifs at idle asked ⊢ with tcp udp icmp
    · exact .asked (.kSocketOpenWaitSocket o _ t (.inr rfl)) (WaitReq.kept_tcp o tcp) nofun
        (asked rfl)
    · exact .asked (.kSocketOpenWaitSocket o _ t (.inl rfl)) (WaitReq.kept_udp o udp) nofun
        (asked rfl)
    · exact .asked (.kSocketOpenRaw o _ t rfl) (WaitReq.kept_raw o icmp) nofun (asked rfl)
    · obtain ⟨ages, counter⟩ := ages_kSocketOpenWaitSocketInvalid o t
      exact .quiet ages counter (idle rfl)

/-- The socket for a connection has the link and the interface of the one that listens, and that is a
    UDP socket. -/
theorem stays_child {o : SocketMade} {parent child : SocketRecord} (stays : parent.Stays)
    (made : parent.child o = some child) : child.Stays := by
  intro other
  unfold SocketRecord.child at made
  cases uniq : parent.si_uniq_info with
  | listenTcp info =>
      obtain ⟨-, told⟩ := stays (by simp [SocketRecord.isUnix, uniq])
      exact absurd (by rw [SocketInfo.si_type, uniq]) told.1
  | listenUdp info =>
      rw [uniq] at made
      cases made
      obtain ⟨kept, told⟩ := stays (by simp [SocketRecord.isUnix, uniq])
      have protocol := kept.protocol
      rw [SocketRecord.protocol, SocketInfo.si_type, uniq] at protocol
      have type : SiType.SI_TYPE_UDP ≠ .SI_TYPE_LISTEN_TCP := by decide
      exact ⟨.pair kept.linkname protocol (.inl rfl), type, told.2⟩
  | _ =>
      rw [uniq] at made
      cases made

theorem Inv.process_si_type_listen (inv : t.Inv) (handle : Int32) (o : SocketMade) :
    Does (.process_si_type_listen handle o) t (t.process_si_type_listen o handle) := by
  unfold SocketRecords.process_si_type_listen
  cases found : t.kSocketGetSIBySocketHandle handle with
  | none => exact .quiet (SocketRecord.Ages.all _) rfl trivial
  | some parent =>
      have here : parent ∈ t.sockets := by
        unfold kSocketGetSIBySocketHandle at found
        split_ifs at found
        rw [inv.search_eq] at found
        exact List.mem_of_find?_eq_some found
      dsimp only
      cases made : parent.child o with
      | none => exact .quiet (SocketRecord.Ages.all _) rfl trivial
      | some child =>
          exact .follows (.kSocketRegist o child t) trivial
            fun opened => ⟨opened.2.1, stays_child (inv.stays parent here) made⟩

theorem Does.process_si_type_udp (handle : Int32) (o : SocketMade) :
    Does (.process_si_type_udp handle o) t (t.process_si_type_udp o handle) := by
  unfold SocketRecords.process_si_type_udp
  split
  · exact .quiet (SocketRecord.Ages.all _) rfl trivial
  · exact .quiet (SocketRecord.Ages.modify (SocketRecord.Ages.receives o) ..) rfl trivial

theorem Does.kSocketClose (socketids : List Int16) :
    Does (.kSocketClose socketids) t (t.kSocketClose socketids) := by
  refine .quiet ?_ rfl trivial
  rw [SocketRecords.kSocketClose, List.forall₂_map_right_iff, List.forall₂_same]
  intro si _
  split_ifs
  · exact .closed si
  · exact .refl si

/-- The events one by one. -/
theorem Inv.process (inv : t.Inv) (event : Event) :
    ∃ t', t.process event = some t' ∧ Does event t t' := by
  cases event with
  | process_command_connect_req r o => exact inv.process_command_connect_req r o
  | process_command_wait_req w o => exact ⟨_, rfl, .process_command_wait_req w o⟩
  | process_si_type_listen handle o => exact ⟨_, rfl, inv.process_si_type_listen handle o⟩
  | process_si_type_udp handle o => exact ⟨_, rfl, .process_si_type_udp handle o⟩
  | process_si_type_unixd o =>
      exact ⟨_, rfl, .follows (.kSocketRegist o _ t) trivial
        fun opened => ⟨opened.2.1, fun other => absurd (.inr rfl) other⟩⟩
  | kSocketClose socketids => exact ⟨_, rfl, .kSocketClose socketids⟩

/-! ## Every run -/

theorem Inv.step (t : SocketRecords) (event : Event) (inv : t.Inv) (tells : t.Tells event) :
    ∃ t' r, t.step event = some (t', r) ∧ t'.Inv := by
  obtain ⟨t', processed, opened, si, changes, fine, -⟩ := inv.process event
  exact ⟨t', (), by rw [SocketRecords.step, processed]; rfl, changes.keeps inv (fine.mp tells)⟩

theorem Inv.breaks (t : SocketRecords) (event : Event) (inv : t.Inv) (untold : ¬ t.Tells event)
    (t' : SocketRecords) (r : Unit) (stepped : t.step event = some (t', r)) :
    ¬ t'.ReportsAll := by
  intro good
  obtain ⟨t₁, processed, opened, si, changes, fine, either⟩ := inv.process event
  rw [SocketRecords.step, processed] at stepped
  cases stepped
  apply untold
  rw [fine]
  intro open_
  obtain both | ⟨kept, other⟩ := either open_
  · exact both
  · obtain ⟨place, told⟩ := changes.tells inv kept other good open_
    exact ⟨place, fun _ => ⟨kept, told⟩⟩

theorem start_inv : start.Inv where
  some_ := nofun
  counter := by decide
  increasing := List.pairwise_singleton ..
  positive := List.forall_mem_singleton.mpr (by decide)
  upto := List.forall_mem_singleton.mpr (by decide)
  enough := by decide
  stays si here other := by
    rw [List.mem_singleton.mp here] at other
    exact absurd (.inl rfl) other

/-- After each part of a run the acks are right for all sockets but those for UNIX. -/
def AlwaysReports (events : List Event) : Prop :=
  ∀ before, before <+: events →
    ∃ t rs, Refinement.run step start before = some (t, rs) ∧ t.ReportsAll

theorem AlwaysReports.meets {events : List Event} (good : AlwaysReports events) :
    Refinement.Meets step Tells start events :=
  Refinement.Meets.of_good Inv.step Inv.breaks start_inv good

theorem alwaysReports_iff (events : List Event) :
    AlwaysReports events ↔ Refinement.Meets step Tells start events := by
  refine ⟨AlwaysReports.meets, ?_⟩
  intro meets before begins
  obtain ⟨t, rs, ran, inv⟩ := meets.reaches Inv.step start_inv begins
  exact ⟨t, rs, ran, inv.reportsAll⟩

/-- A UDP socket on the twelfth interface. -/
def twelfth : Event :=
  .process_command_connect_req
    { s_port := 53, s_addr := 0, d_port := 53, d_addr := 1, protocol := CM_PROT_UDP,
      ipver := CM_IP_IPV6, interfaceid := 12, frameid := 1, kIsTLSInitialize := false }
    { sockfd := some 5, malloc := true, kParserGet := true, getsockname := true,
      s_port := 53, d_port := 53, s_addr := 0, d_addr := 1 }

theorem not_alwaysReports : ¬ AlwaysReports [twelfth] := by
  intro good
  have tells : start.Tells twelfth := good.meets.1
  have told := (tells ⟨nofun, rfl⟩ .SI_TYPE_UDP rfl ⟨by decide, nofun, rfl, rfl, rfl⟩).2
  exact absurd told.2.2 (by decide)

end SocketRecords

end Tahi.Koi
