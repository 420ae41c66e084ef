import Tahi.Koi.KDataLog

/-! # The received messages that have not been delivered

While nothing is cleared, the three scans of `kDataGetDataBySocketid` take messages out of
one inbox. It is the unread part of the log.
-/

namespace Tahi.Koi

open LinkedList MsgTable

/-- The received messages that have not been delivered, in the order of their registration,
    and the last data id. -/
abbrev Inbox := Log

namespace Inbox

/-- A message that was not received has a data id too. -/
def skip (i : Inbox) : Inbox where
  messages := i.messages
  last := i.last + 1
  increasing := i.increasing
  upto m mem := Int.le_of_lt (Int.lt_add_one_of_le (i.upto m mem))

/-- `clear` and `getByDataid` are not calls of a reader. -/
def step (i : Inbox) : Op → Inbox × Reply
  | .regist table socketid mode data datatime =>
      if i.last = MSG_MAXMSGNUM then (i, .regist false)
      else
        match table.registrable socketid with
        | none => (i, .regist false)
        | some infos =>
            if mode = MSG_SOCKETMODE_RECV then
              (i.append (.build infos (i.last + 1) mode data datatime) (Int.lt_succ i.last),
                .regist true)
            else (i.skip, .regist true)
  | .getBySocketid table socketid =>
      match table.reader socketid with
      | none => (i, .ng)
      | some mine =>
          match i.messages.find? fun msg => mine msg.msg_socketid with
          | none => (i, .noData)
          | some msg => (i.filter fun m => m != msg, .delivered msg.read)
  | .clear _ _ _ _ => (i, .ng)
  | .getByDataid _ => (i, .ng)

/-- The call is a registration or one of a data socket, a listening socket or socket 0. -/
def Served : Op → Prop
  | .regist _ _ _ _ _ => True
  | .getBySocketid table socketid => (table.reader socketid).isSome
  | .clear _ _ _ _ => False
  | .getByDataid _ => False

instance (op : Op) : Decidable (Served op) :=
  match op with
  | .regist _ _ _ _ _ => inferInstanceAs (Decidable True)
  | .getBySocketid _ _ => inferInstanceAs (Decidable (_ = true))
  | .clear _ _ _ _ => inferInstanceAs (Decidable False)
  | .getByDataid _ => inferInstanceAs (Decidable False)

/-! ## The inbox is the unread part of the log -/

structure Unread (l : Log) (i : Inbox) : Prop where
  messages : i.messages = l.messages.filter MsgData.unread
  last : i.last = l.last
  kept : l.messages = [] ∨ l.Kept

theorem filter_read {msg : MsgData} {messages : List MsgData}
    (only : ∀ m ∈ messages, m.msg_dataid = msg.msg_dataid → m = msg) :
    (messages.map fun m => if m.msg_dataid = msg.msg_dataid then m.read else m).filter
        MsgData.unread =
      (messages.filter MsgData.unread).filter fun m => m != msg := by
  induction messages with
  | nil => rfl
  | cons m messages ih =>
      have rest := ih fun m' mem => only m' (List.mem_cons_of_mem _ mem)
      rw [List.map_cons]
      by_cases same : m.msg_dataid = msg.msg_dataid
      · have unread : m.read.unread = false := by
          simp [MsgData.unread, MsgData.read, MSG_RECVFLG_READ, MSG_RECVFLG_NOT_READ]
        rw [if_pos same, List.filter_cons_of_neg (by simp [unread]), rest,
          only m (by simp) same, List.filter_filter, List.filter_filter, List.filter_cons_of_neg]
        simp
      · have other : m ≠ msg := by
          rintro rfl
          exact same rfl
        rw [if_neg same]
        cases unread : m.unread with
        | true =>
            rw [List.filter_cons_of_pos unread, List.filter_cons_of_pos unread,
              List.filter_cons_of_pos (by simpa using other), rest]
        | false =>
            rw [List.filter_cons_of_neg (by simp [unread]),
              List.filter_cons_of_neg (by simp [unread]), rest]

theorem Unread.append {l : Log} {i : Inbox} (u : Unread l i) {msg msg' : MsgData}
    (same : msg' = msg) (next : l.last < msg.msg_dataid) (next' : i.last < msg'.msg_dataid)
    (unread : msg.unread) : Unread (l.append msg next) (i.append msg' next') where
  messages := by
    show i.messages ++ [msg'] = (l.messages ++ [msg]).filter MsgData.unread
    rw [List.filter_append, u.messages, List.filter_cons_of_pos unread, List.filter_nil, same]
  last := by
    show msg'.msg_dataid = msg.msg_dataid
    rw [same]
  kept := .inr ⟨msg, List.mem_append_right _ (List.mem_singleton_self msg), rfl⟩

theorem Unread.skip {l : Log} {i : Inbox} (u : Unread l i) {msg : MsgData}
    (next : l.last < msg.msg_dataid) (id : msg.msg_dataid = i.last + 1) (sent : msg.unread = false) :
    Unread (l.append msg next) i.skip where
  messages := by
    show i.messages = (l.messages ++ [msg]).filter MsgData.unread
    rw [List.filter_append, u.messages, List.filter_cons_of_neg (by simp [sent]), List.filter_nil,
      List.append_nil]
  last := id.symm
  kept := .inr ⟨msg, List.mem_append_right _ (List.mem_singleton_self msg), rfl⟩

theorem Unread.read {l : Log} {i : Inbox} (u : Unread l i) {msg : MsgData}
    (mem : msg ∈ l.messages) : Unread (l.read msg) (i.filter fun m => m != msg) where
  messages := by
    rw [Log.read_messages, filter_read fun m mem' same => Log.eq_of_id mem' mem same,
      Log.filter_messages, u.messages]
  last := u.last
  kept := by
    rcases u.kept with empty | ⟨m, mem', same⟩
    · rw [empty] at mem
      cases mem
    · refine .inr ⟨_, List.mem_map_of_mem mem', ?_⟩
      split
      · exact same
      · exact same

/-- A call of the log is one of its inbox. -/
theorem Unread.step {l : Log} {i : Inbox} (u : Unread l i) {op : Op} (served : Served op) :
    l.Fine op ∧ (l.step op).2 = (Inbox.step i op).2 ∧ Unread (l.step op).1 (Inbox.step i op).1 := by
  cases op with
  | regist table socketid mode data datatime =>
      refine ⟨.inr (.inr u.kept), ?_⟩
      unfold Log.step Inbox.step
      by_cases full : l.last = MSG_MAXMSGNUM
      · have full' := u.last.trans full
        simp only [full, full', if_true, true_and]
        exact u
      · have full' : i.last ≠ MSG_MAXMSGNUM := u.last ▸ full
        simp only [full, full', if_false]
        cases table.registrable socketid with
        | none => exact ⟨rfl, u⟩
        | some infos =>
            by_cases received : mode = MSG_SOCKETMODE_RECV
            · simp only [received, if_true, true_and]
              exact u.append (by rw [u.last]) _ _ rfl
            · simp only [received, if_false, true_and]
              refine u.skip _ (by rw [u.last]; rfl) ?_
              simp [MsgData.unread, MsgData.build, received]
  | getBySocketid table socketid =>
      refine ⟨trivial, ?_⟩
      obtain ⟨mine, reads⟩ := Option.isSome_iff_exists.mp served
      have both : (l.messages.filter MsgData.unread).find? (fun msg => mine msg.msg_socketid) =
          l.messages.find? fun msg => msg.unread && mine msg.msg_socketid := by
        rw [List.find?_filter]
        simp
      simp only [Log.step, Inbox.step, reads, u.messages, both]
      cases found : l.messages.find? fun msg => msg.unread && mine msg.msg_socketid with
      | none =>
          split
          · exact ⟨rfl, u⟩
          · exact ⟨rfl, u⟩
      | some msg =>
          have mem := List.mem_of_find?_eq_some found
          have some_ : l.messages ≠ [] := List.ne_nil_of_mem mem
          simp only [some_, if_false, true_and]
          exact u.read mem
  | clear socketid_flag dataid_flag socketid dataid => cases served
  | getByDataid dataid => cases served

theorem simulates : Refinement.Simulates MsgTable.step Inbox.step (fun _ op => Served op) Answers
    (fun t i => ∃ l, Related t l ∧ Unread l i) := by
  rintro t i op ⟨l, related, u⟩ served
  obtain ⟨fine, same, u'⟩ := u.step served
  obtain ⟨t', r, stepped, answers, related'⟩ := MsgTable.simulates t l op related fine
  exact ⟨t', r, stepped, same ▸ answers, _, related', u'⟩

/-! ## No message is delivered twice -/

def delivered (rs : List Reply) : List MsgData :=
  rs.filterMap fun
    | .delivered msg => some msg
    | _ => none

theorem delivered_cons (r : Reply) (rs : List Reply) :
    delivered (r :: rs) = delivered [r] ++ delivered rs := by
  rw [delivered, delivered, delivered, ← List.filterMap_append]
  rfl

/-- What a call can do to the inbox. -/
theorem step_cases (i : Inbox) (op : Op) :
    i.last ≤ (Inbox.step i op).1.last ∧
      (∀ m ∈ (Inbox.step i op).1.messages,
        m ∈ i.messages ∨ i.last < m.msg_dataid ∧ m.msg_socketmode = MSG_SOCKETMODE_RECV) ∧
      (delivered [(Inbox.step i op).2] = [] ∨
        ∃ msg ∈ i.messages, (Inbox.step i op).2 = .delivered msg.read ∧
          ∀ m ∈ (Inbox.step i op).1.messages, m.msg_dataid ≠ msg.msg_dataid) := by
  have idle (r : Reply) (none_ : delivered [r] = []) :
      i.last ≤ i.last ∧
        (∀ m ∈ i.messages, m ∈ i.messages ∨ i.last < m.msg_dataid ∧
          m.msg_socketmode = MSG_SOCKETMODE_RECV) ∧
        (delivered [r] = [] ∨ ∃ msg ∈ i.messages, r = .delivered msg.read ∧
          ∀ m ∈ i.messages, m.msg_dataid ≠ msg.msg_dataid) :=
    ⟨Int.le_refl _, fun m mem => .inl mem, .inl none_⟩
  cases op with
  | regist table socketid mode data datatime =>
      simp only [Inbox.step]
      split
      · exact idle _ rfl
      · cases table.registrable socketid with
        | none => exact idle _ rfl
        | some infos =>
            simp only
            split
            · rename_i received
              refine ⟨Int.le_add_one (Int.le_refl _), fun m mem => ?_, .inl rfl⟩
              rcases List.mem_append.mp mem with old | new
              · exact .inl old
              · rw [List.mem_singleton.mp new]
                exact .inr ⟨Int.lt_succ _, received⟩
            · exact ⟨Int.le_add_one (Int.le_refl _), fun m mem => .inl mem, .inl rfl⟩
  | getBySocketid table socketid =>
      simp only [Inbox.step]
      cases table.reader socketid with
      | none => exact idle _ rfl
      | some mine =>
          cases found : i.messages.find? fun msg => mine msg.msg_socketid with
          | none =>
              simp only [found]
              exact idle _ rfl
          | some msg =>
              simp only [found]
              have here := List.mem_of_find?_eq_some found
              refine ⟨Int.le_refl _, fun m mem => .inl (List.mem_filter.mp mem).1, .inr ⟨msg, here,
                rfl, fun m mem same => ?_⟩⟩
              rw [Log.filter_messages, List.mem_filter] at mem
              rw [Log.eq_of_id mem.1 here same] at mem
              simp at mem
  | clear socketid_flag dataid_flag socketid dataid => exact idle _ rfl
  | getByDataid dataid => exact idle _ rfl

/-- What is delivered was in the inbox, or came to it later. -/
theorem delivered_from (i : Inbox) (ops : List Op)
    (received : ∀ m ∈ i.messages, m.msg_socketmode = MSG_SOCKETMODE_RECV) :
    ((delivered (Refinement.specRun Inbox.step i ops).2).map MsgData.msg_dataid).Nodup ∧
      ∀ m ∈ delivered (Refinement.specRun Inbox.step i ops).2,
        m.msg_socketmode = MSG_SOCKETMODE_RECV ∧
          ((∃ m' ∈ i.messages, m'.msg_dataid = m.msg_dataid) ∨ i.last < m.msg_dataid) := by
  induction ops generalizing i with
  | nil => simp [delivered, Refinement.specRun]
  | cons op ops ih =>
      obtain ⟨grows, from_, reply⟩ := step_cases i op
      obtain ⟨distinct, rest⟩ := ih (Inbox.step i op).1 fun m mem =>
        (from_ m mem).elim (received m) And.right
      have later : ∀ m ∈ delivered (Refinement.specRun Inbox.step (Inbox.step i op).1 ops).2,
          m.msg_socketmode = MSG_SOCKETMODE_RECV ∧
            ((∃ m' ∈ i.messages, m'.msg_dataid = m.msg_dataid) ∨ i.last < m.msg_dataid) := by
        intro m mem
        obtain ⟨mode, ⟨m', mem', same⟩ | behind⟩ := rest m mem
        · rcases from_ m' mem' with old | ⟨new, -⟩
          · exact ⟨mode, .inl ⟨m', old, same⟩⟩
          · exact ⟨mode, .inr (same ▸ new)⟩
        · exact ⟨mode, .inr (Int.lt_of_le_of_lt grows behind)⟩
      have whole : (Refinement.specRun Inbox.step i (op :: ops)).2 =
          (Inbox.step i op).2 :: (Refinement.specRun Inbox.step (Inbox.step i op).1 ops).2 := rfl
      rw [whole, delivered_cons]
      rcases reply with none_ | ⟨msg, here, reply, gone⟩
      · rw [none_, List.nil_append]
        exact ⟨distinct, later⟩
      · rw [reply]
        refine ⟨List.nodup_cons.mpr ⟨fun mem => ?_, distinct⟩, fun m mem => ?_⟩
        · obtain ⟨m, mem, same⟩ := List.mem_map.mp mem
          obtain ⟨-, ⟨m', mem', same'⟩ | behind⟩ := rest m mem
          · exact gone m' mem' (same'.trans same)
          · have upto := i.upto msg here
            change m.msg_dataid = msg.msg_dataid at same
            omega
        · rcases List.mem_cons.mp mem with rfl | mem
          · exact ⟨received msg here, .inl ⟨msg, here, rfl⟩⟩
          · exact later m mem

theorem delivered_map {rs rs' : List Reply} (answers : List.Forall₂ Answers rs rs') :
    (delivered rs).map MsgData.msg_dataid = (delivered rs').map MsgData.msg_dataid ∧
      (delivered rs).map MsgData.msg_socketmode = (delivered rs').map MsgData.msg_socketmode := by
  induction answers with
  | nil => exact ⟨rfl, rfl⟩
  | cons first rest ih =>
      rename_i r r' rs rs'
      have here : (delivered [r]).map MsgData.msg_dataid = (delivered [r']).map MsgData.msg_dataid ∧
          (delivered [r]).map MsgData.msg_socketmode =
            (delivered [r']).map MsgData.msg_socketmode := by
        cases first with
        | same => exact ⟨rfl, rfl⟩
        | delivered => exact ⟨rfl, rfl⟩
      rw [delivered_cons r rs, delivered_cons r' rs']
      simp only [List.map_append, here, ih, and_self]

/-- The calls answer as an inbox does: each delivers the earliest message for its reader
    that is left, or there is none. No message is delivered twice, and none that was not
    received. -/
theorem delivers_earliest {ops : List Op} (served : ∀ op ∈ ops, Served op) :
    ∃ t rs, Refinement.run MsgTable.step {} ops = some (t, rs) ∧
      List.Forall₂ Answers rs (Refinement.specRun Inbox.step {} ops).2 ∧
      ((delivered rs).map MsgData.msg_dataid).Nodup ∧
      ∀ msg ∈ delivered rs, msg.msg_socketmode = MSG_SOCKETMODE_RECV := by
  have allowed : Refinement.Allowed Inbox.step (fun _ op => Served op) {} ops :=
    Refinement.allowed_of_mem served _
  have related : ∃ l, Related {} l ∧ Unread l {} := ⟨{}, ⟨[], .empty⟩, rfl, rfl, .inl rfl⟩
  obtain ⟨t, rs, ran, answers, -⟩ := simulates.run related allowed
  obtain ⟨distinct, modes⟩ := delivered_from {} ops (by simp)
  obtain ⟨ids, kinds⟩ := delivered_map answers
  refine ⟨t, rs, ran, answers, ids ▸ distinct, fun msg mem => ?_⟩
  have mode := List.mem_map_of_mem (f := MsgData.msg_socketmode) mem
  rw [kinds] at mode
  obtain ⟨msg', mem', same⟩ := List.mem_map.mp mode
  rw [← same]
  exact (modes msg' mem').1

/-- A child's message is fetched by its parent, and another's by socket 0. -/
theorem delivers_two :
    let table : SocketTable := ⟨[⟨1, .SI_STATUS_ALIVE, .listenTcp {}⟩,
      ⟨2, .SI_STATUS_ALIVE, .data { di_parent_socketid := 1 }⟩,
      ⟨3, .SI_STATUS_ALIVE, .udp {}⟩], by decide⟩
    let ops : List Op := [.regist table 3 MSG_SOCKETMODE_RECV [7] ⟨0, 0⟩,
      .regist table 2 MSG_SOCKETMODE_SEND [8] ⟨0, 0⟩, .regist table 2 MSG_SOCKETMODE_RECV [9] ⟨0, 0⟩,
      .getBySocketid table 1, .getBySocketid table 2, .getBySocketid table 0]
    ∃ t rs, Refinement.run MsgTable.step {} ops = some (t, rs) ∧
      List.Forall₂ Answers rs (Refinement.specRun Inbox.step {} ops).2 ∧
      ((delivered rs).map MsgData.msg_dataid).Nodup ∧
      ∀ msg ∈ delivered rs, msg.msg_socketmode = MSG_SOCKETMODE_RECV := by
  intro table ops
  exact delivers_earliest (by decide)

end Inbox

end Tahi.Koi
