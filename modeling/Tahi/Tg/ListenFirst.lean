import Tahi.Tg.AgntAside
import Tahi.Tg.TgStmtConnect

/-! # Threads connect behind a listen

As long as no thread goes on because of a listen that is still pending, a connect indication is
only sent when the server has confirmed that it listens.
-/

namespace Tahi.Tg

open Cm

variable {G T A : Type}

namespace Connecting

/-- The kind of request that a thread waits for at a step. -/
def kindAt : ℕ → Option ReqStatus
  | 0 => some .open_
  | 1 => some .listen
  | 2 => some .connect
  | 3 => some .accept
  | _ => none

/-- What is always so: a request belongs to a thread that waits, which has no other; a listen that is
    pending has an indication under way with its number and a listener that is not used; and a
    listener in use has been confirmed. -/
structure Inv [DecidableEq A] (script : T → List (TgStmtConnect G A)) (s : Connecting G T A) :
    Prop where
  nodup : ∀ g, ((s.ctrl g).requests_.map TgReqElm.key).Nodup
  waits : ∀ {g re}, re ∈ (s.ctrl g).requests_ →
    (s.threads re.cb).phase = .waiting ∧ kindAt (s.threads re.cb).step_ = some re.stat_
  one : ∀ {g g' re re'}, re ∈ (s.ctrl g).requests_ → re' ∈ (s.ctrl g').requests_ →
    re.cb = re'.cb → g = g' ∧ re = re'
  asked : ∀ {g re}, re ∈ (s.ctrl g).asks .listen →
    re.type_ = .tcp ∧ (re.id_, re.addr_) ∈ s.listening g ∧
      (∃ st, (script re.cb)[(s.threads re.cb).pos]? = some st ∧ st.server = g ∧
        st.serverPort = re.addr_) ∧
      ∃ le, (s.ctrl g).listens_.find re.addr_ = some le ∧ le.stat_ = .reqListen
  sent : ∀ {g id p}, (id, p) ∈ s.listening g →
    ∃ re ∈ (s.ctrl g).asks .listen, re.id_ = id ∧ re.addr_ = p
  ids : ∀ g, ((s.listening g).map Prod.fst).Nodup
  ports : ∀ {g re re'}, re ∈ (s.ctrl g).asks .listen → re' ∈ (s.ctrl g).asks .listen →
    re.addr_ = re'.addr_ → re = re'
  keys : ∀ g, ((s.ctrl g).listens_.map TgListenElm.key).Nodup
  granted : ∀ {g p le}, (s.ctrl g).listens_.find p = some le → le.stat_ = .listen →
    .confirmed g p 0 ∈ s.notes
  ordered : Ordered script s

variable {script : T → List (TgStmtConnect G A)} {s s' : Connecting G T A}

theorem asks_congr {c c' : TgAgntCtrl T A T} (requests : c'.requests_ = c.requests_)
    (stat : ReqStatus) : c'.asks stat = c.asks stat := by
  rw [TgAgntCtrl.asks, TgAgntCtrl.asks, requests]

section

variable [DecidableEq A]

theorem inv_new (rno_base : ℕ) : Inv script (new rno_base) where
  nodup _ := List.nodup_nil
  waits mem := by cases mem
  one mem := by cases mem
  asked mem := by cases mem
  sent mem := by cases mem
  ids _ := List.nodup_nil
  ports mem := by cases mem
  keys _ := List.nodup_nil
  granted found := by cases found
  ordered := by
    refine ⟨fun t st _ step => ?_, fun t g p later earlier notes => ?_⟩
    · exact absurd step (by simp [new])
    · cases later <;> cases notes

/-- A thread that has no request moves. -/
theorem Inv.moves (inv : Inv script s) {t : T} (ready : (s.threads t).phase = .ready)
    (requests : ∀ g, (s'.ctrl g).requests_ = (s.ctrl g).requests_)
    (listens : ∀ g, (s'.ctrl g).listens_ = (s.ctrl g).listens_)
    (threads : ∀ t', t' ≠ t → s'.threads t' = s.threads t')
    (listening : s'.listening = s.listening) (notes : s'.notes = s.notes)
    (past : ∀ st, (script t)[(s'.threads t).pos]? = some st → 2 ≤ (s'.threads t).step_ →
      .confirmed st.server st.serverPort 0 ∈ s.notes) : Inv script s' := by
  have asks (g : G) : (s'.ctrl g).asks .listen = (s.ctrl g).asks .listen :=
    asks_congr (requests g) .listen
  have away {g : G} {re : TgReqElm T A T} (mem : re ∈ (s.ctrl g).requests_) : re.cb ≠ t := by
    intro same
    have waits := (inv.waits mem).1
    rw [same, ready] at waits
    cases waits
  refine ⟨?_, ?_, ?_, ?_, ?_, ?_, ?_, ?_, ?_, ?_, ?_⟩
  · intro g
    rw [requests]
    exact inv.nodup g
  · intro g re mem
    rw [requests] at mem
    rw [threads _ (away mem)]
    exact inv.waits mem
  · intro g g' re re' mem mem'
    rw [requests] at mem mem'
    exact inv.one mem mem'
  · intro g re mem
    rw [asks] at mem
    rw [threads _ (away (TgAgntCtrl.mem_asks.mp mem).1), listening, listens]
    exact inv.asked mem
  · intro g id p mem
    rw [listening] at mem
    rw [asks]
    exact inv.sent mem
  · rw [listening]
    exact inv.ids
  · intro g re re' mem mem'
    rw [asks] at mem mem'
    exact inv.ports mem mem'
  · intro g
    rw [listens]
    exact inv.keys g
  · intro g p le found
    rw [listens] at found
    rw [notes]
    exact inv.granted found
  · intro t' st at_ step
    rw [notes]
    by_cases same : t' = t
    · subst same
      exact past st at_ step
    · rw [threads t' same] at at_ step
      exact inv.ordered.past t' st at_ step
  · rw [notes]
    exact inv.ordered.connects

/-- A connect indication towards a port that is listened at. -/
theorem Inv.connecting (inv : Inv script s) {g : G} {p : A}
    (granted : .confirmed g p 0 ∈ s.notes) (t : T) :
    Inv script { s with notes := .connecting t g p :: s.notes } :=
  { inv with
    granted := fun found stat => List.mem_cons_of_mem _ (inv.granted found stat)
    ordered := by
      refine ⟨fun t' st at_ step => List.mem_cons_of_mem _ (inv.ordered.past t' st at_ step), ?_⟩
      intro t' g' p' later earlier split_
      cases later with
      | nil =>
          cases split_
          exact granted
      | cons n later =>
          obtain ⟨-, rest⟩ := List.cons.inj split_
          exact inv.ordered.connects t' g' p' later earlier rest }

variable [DecidableEq G]

/-- A thread leaves a request behind, but for a listen. -/
theorem Inv.request (inv : Inv script s) {g : G} {re : TgReqElm T A T}
    (ready : (s.threads re.cb).phase = .ready) (other : re.stat_ ≠ .listen)
    (kind : kindAt (s.threads re.cb).step_ = some re.stat_)
    (requests : (s'.ctrl g).requests_ = CmSet.add TgReqElm.key (s.ctrl g).requests_ re)
    (elsewhere : ∀ g', g' ≠ g → (s'.ctrl g').requests_ = (s.ctrl g').requests_)
    (listens : ∀ g, (s'.ctrl g).listens_ = (s.ctrl g).listens_)
    (threads : ∀ t', t' ≠ re.cb → s'.threads t' = s.threads t')
    (now : s'.threads re.cb = { s.threads re.cb with phase := .waiting })
    (listening : s'.listening = s.listening) (notes : s'.notes = s.notes) : Inv script s' := by
  have asks (g' : G) : (s'.ctrl g').asks .listen = (s.ctrl g').asks .listen := by
    by_cases same : g' = g
    · subst same
      rw [TgAgntCtrl.asks, requests]
      exact CmSet.filter_add (by simpa using other)
    · exact asks_congr (elsewhere g' same) .listen
  have old {g' : G} {re' : TgReqElm T A T} (mem : re' ∈ (s'.ctrl g').requests_) :
      g' = g ∧ re' = re ∨ re' ∈ (s.ctrl g').requests_ := by
    by_cases same : g' = g
    · subst same
      rw [requests] at mem
      exact (CmSet.mem_of_mem_add mem).imp_left fun new => ⟨rfl, new⟩
    · rw [elsewhere g' same] at mem
      exact .inr mem
  have away {g' : G} {re' : TgReqElm T A T} (mem : re' ∈ (s.ctrl g').requests_) :
      re'.cb ≠ re.cb := by
    intro same
    have waits := (inv.waits mem).1
    rw [same, ready] at waits
    cases waits
  refine ⟨?_, ?_, ?_, ?_, ?_, ?_, ?_, ?_, ?_, ?_, ?_⟩
  · intro g'
    by_cases same : g' = g
    · subst same
      rw [requests]
      exact CmSet.nodup_add (inv.nodup g')
    · rw [elsewhere g' same]
      exact inv.nodup g'
  · intro g' re' mem
    rcases old mem with ⟨rfl, rfl⟩ | mem
    · rw [now]
      exact ⟨rfl, kind⟩
    · rw [threads _ (away mem)]
      exact inv.waits mem
  · intro g₁ g₂ re₁ re₂ mem₁ mem₂ same
    rcases old mem₁ with ⟨rfl, rfl⟩ | mem₁
    · rcases old mem₂ with ⟨rfl, rfl⟩ | mem₂
      · exact ⟨rfl, rfl⟩
      · exact absurd same.symm (away mem₂)
    · rcases old mem₂ with ⟨rfl, rfl⟩ | mem₂
      · exact absurd same (away mem₁)
      · exact inv.one mem₁ mem₂ same
  · intro g' re' mem
    rw [asks] at mem
    rw [threads _ (away (TgAgntCtrl.mem_asks.mp mem).1), listening, listens]
    exact inv.asked mem
  · intro g' id p mem
    rw [listening] at mem
    rw [asks]
    exact inv.sent mem
  · rw [listening]
    exact inv.ids
  · intro g' re₁ re₂ mem₁ mem₂
    rw [asks] at mem₁ mem₂
    exact inv.ports mem₁ mem₂
  · intro g'
    rw [listens]
    exact inv.keys g'
  · intro g' p le found
    rw [listens] at found
    rw [notes]
    exact inv.granted found
  · intro t' st at_ step
    rw [notes]
    by_cases same : t' = re.cb
    · subst same
      rw [now] at at_ step
      exact inv.ordered.past re.cb st at_ step
    · rw [threads t' same] at at_ step
      exact inv.ordered.past t' st at_ step
  · rw [notes]
    exact inv.ordered.connects

/-- A thread listens at a port that nobody listens at. -/
theorem Inv.listens (inv : Inv script s) {t : T} {st : TgStmtConnect G A} {id : Id}
    (ready : (s.threads t).phase = .ready) (step : (s.threads t).step_ = 1)
    (at_ : (script t)[(s.threads t).pos]? = some st)
    (absent : (s.ctrl st.server).listens_.find st.serverPort = none)
    (fresh : (s.ctrl st.server).requests_.find id .listen = none)
    (requests : (s'.ctrl st.server).requests_ = CmSet.add TgReqElm.key
      (s.ctrl st.server).requests_ ⟨.listen, id, t, t, st.serverPort, .tcp⟩)
    (listens : (s'.ctrl st.server).listens_ = CmSet.add TgListenElm.key
      (s.ctrl st.server).listens_ ⟨.reqListen, id, 0, st.serverPort⟩)
    (elsewhere : ∀ g, g ≠ st.server → s'.ctrl g = s.ctrl g)
    (threads : ∀ t', t' ≠ t → s'.threads t' = s.threads t')
    (now : s'.threads t = { s.threads t with phase := .waiting })
    (listening : s'.listening =
      Function.update s.listening st.server ((id, st.serverPort) :: s.listening st.server))
    (notes : s'.notes = s.notes) : Inv script s' := by
  have here : s'.listening st.server = (id, st.serverPort) :: s.listening st.server := by
    rw [listening, Function.update_self]
  have there {g : G} (ne : g ≠ st.server) : s'.listening g = s.listening g := by
    rw [listening, Function.update_of_ne ne]
  have away {g : G} {re : TgReqElm T A T} (mem : re ∈ (s.ctrl g).requests_) : re.cb ≠ t := by
    intro same
    have waits := (inv.waits mem).1
    rw [same, ready] at waits
    cases waits
  have new : CmSet.add TgReqElm.key (s.ctrl st.server).requests_
      ⟨.listen, id, t, t, st.serverPort, .tcp⟩ =
        ⟨.listen, id, t, t, st.serverPort, .tcp⟩ :: (s.ctrl st.server).requests_ :=
    CmSet.add_of_new (CmSet.find_eq_none.mp fresh)
  have asks : (s'.ctrl st.server).asks .listen =
      ⟨.listen, id, t, t, st.serverPort, .tcp⟩ :: (s.ctrl st.server).asks .listen := by
    rw [TgAgntCtrl.asks, requests, new]
    exact List.filter_cons_of_pos (by simp)
  have find_port : (s'.ctrl st.server).listens_.find st.serverPort =
      some ⟨.reqListen, id, 0, st.serverPort⟩ := by
    rw [listens]
    exact CmSet.find_add_new absent
  have find_other {p : A} (ne : p ≠ st.serverPort) : (s'.ctrl st.server).listens_.find p =
      (s.ctrl st.server).listens_.find p := by
    rw [listens]
    exact CmSet.find_add_of_ne (Ne.symm ne)
  have other_port {re : TgReqElm T A T} (mem : re ∈ (s.ctrl st.server).asks .listen) :
      re.addr_ ≠ st.serverPort := by
    intro same
    obtain ⟨-, -, -, le, found, -⟩ := inv.asked mem
    rw [same, absent] at found
    cases found
  have old {g : G} {re : TgReqElm T A T} (mem : re ∈ (s'.ctrl g).requests_) :
      g = st.server ∧ re = ⟨.listen, id, t, t, st.serverPort, .tcp⟩ ∨
        re ∈ (s.ctrl g).requests_ := by
    by_cases same : g = st.server
    · subst same
      rw [requests] at mem
      exact (CmSet.mem_of_mem_add mem).imp_left fun new => ⟨rfl, new⟩
    · rw [elsewhere g same] at mem
      exact .inr mem
  refine ⟨?_, ?_, ?_, ?_, ?_, ?_, ?_, ?_, ?_, ?_, ?_⟩
  · intro g
    by_cases same : g = st.server
    · subst same
      rw [requests]
      exact CmSet.nodup_add (inv.nodup _)
    · rw [elsewhere g same]
      exact inv.nodup g
  · intro g re mem
    rcases old mem with ⟨rfl, rfl⟩ | mem
    · rw [now, step]
      exact ⟨rfl, rfl⟩
    · rw [threads _ (away mem)]
      exact inv.waits mem
  · intro g₁ g₂ re₁ re₂ mem₁ mem₂ same
    rcases old mem₁ with ⟨rfl, rfl⟩ | mem₁
    · rcases old mem₂ with ⟨rfl, rfl⟩ | mem₂
      · exact ⟨rfl, rfl⟩
      · exact absurd same.symm (away mem₂)
    · rcases old mem₂ with ⟨rfl, rfl⟩ | mem₂
      · exact absurd same (away mem₁)
      · exact inv.one mem₁ mem₂ same
  · intro g re mem
    by_cases same : g = st.server
    · subst same
      rw [asks] at mem
      rcases List.mem_cons.mp mem with rfl | mem
      · rw [here, now]
        exact ⟨rfl, List.mem_cons_self, ⟨st, at_, rfl, rfl⟩, _, find_port, rfl⟩
      · rw [here, threads _ (away (TgAgntCtrl.mem_asks.mp mem).1), find_other (other_port mem)]
        obtain ⟨type, sent, rest⟩ := inv.asked mem
        exact ⟨type, List.mem_cons_of_mem _ sent, rest⟩
    · rw [elsewhere g same] at mem ⊢
      rw [there same, threads _ (away (TgAgntCtrl.mem_asks.mp mem).1)]
      exact inv.asked mem
  · intro g id' p mem
    by_cases same : g = st.server
    · subst same
      rw [here] at mem
      rw [asks]
      rcases List.mem_cons.mp mem with first | mem
      · cases first
        exact ⟨_, List.mem_cons_self, rfl, rfl⟩
      · obtain ⟨re, mem', eqs⟩ := inv.sent mem
        exact ⟨re, List.mem_cons_of_mem _ mem', eqs⟩
    · rw [there same] at mem
      rw [elsewhere g same]
      exact inv.sent mem
  · intro g
    by_cases same : g = st.server
    · subst same
      rw [here, List.map_cons, List.nodup_cons]
      refine ⟨fun mem => ?_, inv.ids _⟩
      obtain ⟨⟨id', p⟩, mem', rfl⟩ := List.mem_map.mp mem
      obtain ⟨re, mem'', same, -⟩ := inv.sent mem'
      obtain ⟨there, stat⟩ := TgAgntCtrl.mem_asks.mp mem''
      refine CmSet.find_eq_none.mp fresh re there ?_
      rw [TgReqElm.key, same, stat]
    · rw [there same]
      exact inv.ids g
  · intro g re₁ re₂ mem₁ mem₂ addr
    by_cases same : g = st.server
    · subst same
      rw [asks] at mem₁ mem₂
      rcases List.mem_cons.mp mem₁ with rfl | mem₁
      · rcases List.mem_cons.mp mem₂ with rfl | mem₂
        · rfl
        · exact absurd addr.symm (other_port mem₂)
      · rcases List.mem_cons.mp mem₂ with rfl | mem₂
        · exact absurd addr (other_port mem₁)
        · exact inv.ports mem₁ mem₂ addr
    · rw [elsewhere g same] at mem₁ mem₂
      exact inv.ports mem₁ mem₂ addr
  · intro g
    by_cases same : g = st.server
    · subst same
      rw [listens]
      exact CmSet.nodup_add (inv.keys _)
    · rw [elsewhere g same]
      exact inv.keys g
  · intro g p le found stat
    rw [notes]
    by_cases same : g = st.server
    · subst same
      by_cases port : p = st.serverPort
      · subst port
        rw [find_port] at found
        cases found
        cases stat
      · rw [find_other port] at found
        exact inv.granted found stat
    · rw [elsewhere g same] at found
      exact inv.granted found stat
  · intro t' st' at_' step'
    rw [notes]
    by_cases same : t' = t
    · subst same
      rw [now] at at_' step'
      exact inv.ordered.past t' st' at_' step'
    · rw [threads t' same] at at_' step'
      exact inv.ordered.past t' st' at_' step'
  · rw [notes]
    exact inv.ordered.connects

/-- What comes of a statement that is called back. -/
def Back (th th' : ConnectThread) : Prop :=
  th' = { th with step_ := th.step_ + 1, phase := .ready } ∨ th' = { th with phase := .aborted }

/-- A request is answered, but for a listen. -/
theorem Inv.answered (inv : Inv script s) {g : G} {re : TgReqElm T A T}
    (mem : re ∈ (s.ctrl g).requests_) (other : re.stat_ ≠ .listen)
    (requests : (s'.ctrl g).requests_ = CmSet.remove TgReqElm.key (s.ctrl g).requests_ re.key)
    (elsewhere : ∀ g', g' ≠ g → (s'.ctrl g').requests_ = (s.ctrl g').requests_)
    (listens : ∀ g, (s'.ctrl g).listens_ = (s.ctrl g).listens_)
    (threads : ∀ t', t' ≠ re.cb → s'.threads t' = s.threads t')
    (now : Back (s.threads re.cb) (s'.threads re.cb))
    (listening : s'.listening = s.listening) (notes : s'.notes = s.notes) : Inv script s' := by
  have asks (g' : G) : (s'.ctrl g').asks .listen = (s.ctrl g').asks .listen := by
    by_cases same : g' = g
    · subst same
      rw [TgAgntCtrl.asks, requests]
      refine CmSet.filter_remove fun re' _ key => ?_
      have stat : re'.stat_ = re.stat_ := congrArg Prod.snd key
      simpa [stat] using other
    · exact asks_congr (elsewhere g' same) .listen
  have old {g' : G} {re' : TgReqElm T A T} (mem' : re' ∈ (s'.ctrl g').requests_) :
      re' ∈ (s.ctrl g').requests_ ∧ re'.cb ≠ re.cb := by
    by_cases same : g' = g
    · subst same
      rw [requests] at mem'
      obtain ⟨mem', key⟩ := (CmSet.mem_remove (inv.nodup g')).mp mem'
      exact ⟨mem', fun cb => key (congrArg _ (inv.one mem' mem cb).2)⟩
    · rw [elsewhere g' same] at mem'
      exact ⟨mem', fun cb => same (inv.one mem' mem cb).1⟩
  refine ⟨?_, ?_, ?_, ?_, ?_, ?_, ?_, ?_, ?_, ?_, ?_⟩
  · intro g'
    by_cases same : g' = g
    · subst same
      rw [requests]
      exact CmSet.nodup_remove (inv.nodup g')
    · rw [elsewhere g' same]
      exact inv.nodup g'
  · intro g' re' mem'
    obtain ⟨mem', away⟩ := old mem'
    rw [threads _ away]
    exact inv.waits mem'
  · intro g₁ g₂ re₁ re₂ mem₁ mem₂
    exact inv.one (old mem₁).1 (old mem₂).1
  · intro g' re' mem'
    have away := (old (TgAgntCtrl.mem_asks.mp mem').1).2
    rw [asks] at mem'
    rw [threads _ away, listening, listens]
    exact inv.asked mem'
  · intro g' id p mem'
    rw [listening] at mem'
    rw [asks]
    exact inv.sent mem'
  · rw [listening]
    exact inv.ids
  · intro g' re₁ re₂ mem₁ mem₂
    rw [asks] at mem₁ mem₂
    exact inv.ports mem₁ mem₂
  · intro g'
    rw [listens]
    exact inv.keys g'
  · intro g' p le found
    rw [listens] at found
    rw [notes]
    exact inv.granted found
  · intro t' st at_ step
    rw [notes]
    by_cases same : t' = re.cb
    · subst same
      have kind := (inv.waits mem).2
      rcases now with complete | abort
      · rw [complete] at at_ step
        refine inv.ordered.past re.cb st at_ ?_
        -- it was not at the listen
        by_contra early
        have : (s.threads re.cb).step_ = 1 := by
          simp only at step
          omega
        rw [this] at kind
        exact other (Option.some.inj kind).symm
      · rw [abort] at at_ step
        exact inv.ordered.past re.cb st at_ step
    · rw [threads t' same] at at_ step
      exact inv.ordered.past t' st at_ step
  · rw [notes]
    exact inv.ordered.connects

variable [DecidableEq T]

omit [DecidableEq G] in
/-- What a confirm does with the listener and the thread that wait for it. -/
theorem Inv.recvListenConfirm (inv : Inv script s) {g : G} {re : TgReqElm T A T}
    (asked : re ∈ (s.ctrl g).asks .listen) (id_sock : Id) (res : BitVec 32) :
    (s.ctrl g).recvListenConfirm re.id_ id_sock res = ({ (s.ctrl g).removeRequest re with
      listens_ :=
        if res = 0 then
          CmSet.add TgListenElm.key (CmSet.remove TgListenElm.key (s.ctrl g).listens_ re.addr_)
            ⟨.listen, re.id_, id_sock, re.addr_⟩
        else CmSet.remove TgListenElm.key (s.ctrl g).listens_ re.addr_ },
      some (TgAgntCtrl.answer re res)) := by
  obtain ⟨mem, stat⟩ := TgAgntCtrl.mem_asks.mp asked
  obtain ⟨type, -, -, le, found, pending⟩ := inv.asked asked
  have here : (s.ctrl g).requests_.find re.id_ .listen = some re :=
    stat ▸ CmSet.find_of_mem (inv.nodup g) mem
  have key : le.key = re.addr_ := (CmSet.find_eq_some found).2
  simp only [TgAgntCtrl.recvListenConfirm, here, found, pending, if_true, type, key]
  by_cases good : res = 0
  · rw [if_pos good, if_pos good]
    rfl
  · rw [if_neg good, if_neg good]
    rfl

/-- Behind its second step a thread does not wait for a listen. -/
theorem kindAt_ne_listen {n : ℕ} (past : 2 ≤ n) : kindAt n ≠ some .listen := by
  obtain ⟨n, rfl⟩ := Nat.exists_eq_add_of_le' past
  rcases n with _ | _ | n
  · exact fun kind => by cases kind
  · exact fun kind => by cases kind
  · exact fun kind => by cases kind

theorem Inv.listened (inv : Inv script s) {g : G} {id : Id} {p : A} (id_sock : Id)
    (res : BitVec 32) (sent : (id, p) ∈ s.listening g) :
    Inv script (s.listened g id p id_sock res) := by
  obtain ⟨re, asked, rfl, rfl⟩ := inv.sent sent
  obtain ⟨mem, stat⟩ := TgAgntCtrl.mem_asks.mp asked
  obtain ⟨-, -, ⟨st, at_, rfl, port⟩, -⟩ := inv.asked asked
  have reply := inv.recvListenConfirm asked id_sock res
  generalize after : s.listened st.server re.id_ re.addr_ id_sock res = s'
  have ctrl : s'.ctrl st.server = ((s.ctrl st.server).recvListenConfirm re.id_ id_sock res).1 := by
    rw [← after]
    exact Function.update_self _ _ _
  have elsewhere (g : G) (ne : g ≠ st.server) : s'.ctrl g = s.ctrl g := by
    rw [← after]
    exact Function.update_of_ne ne _ _
  have requests : (s'.ctrl st.server).requests_ =
      CmSet.remove TgReqElm.key (s.ctrl st.server).requests_ re.key := by
    rw [ctrl, reply]
    rfl
  have listens : (s'.ctrl st.server).listens_ =
      if res = 0 then
        CmSet.add TgListenElm.key
          (CmSet.remove TgListenElm.key (s.ctrl st.server).listens_ re.addr_)
          ⟨.listen, re.id_, id_sock, re.addr_⟩
      else CmSet.remove TgListenElm.key (s.ctrl st.server).listens_ re.addr_ := by
    rw [ctrl, reply]
  have threads : s'.threads = answer s.threads (some (TgAgntCtrl.answer re res)) := by
    rw [← after]
    simp only [Connecting.listened, receive, TgAgntCtrl.call, TgAgntCtrl.ofReply, reply]
  have others (t : T) (ne : t ≠ re.cb) : s'.threads t = s.threads t := by
    rw [threads, TgAgntCtrl.answer]
    split
    · exact Function.update_of_ne ne _ _
    · exact Function.update_of_ne ne _ _
  have here : s'.listening st.server = (s.listening st.server).erase (re.id_, re.addr_) := by
    rw [← after]
    exact Function.update_self _ _ _
  have there {g : G} (ne : g ≠ st.server) : s'.listening g = s.listening g := by
    rw [← after]
    exact Function.update_of_ne ne _ _
  have notes : s'.notes = .confirmed st.server re.addr_ res :: s.notes := by
    rw [← after]
    rfl
  have none_ : CmSet.find TgListenElm.key
      (CmSet.remove TgListenElm.key (s.ctrl st.server).listens_ re.addr_) re.addr_ = none :=
    CmSet.find_remove_self (inv.keys _)
  have find_other {q : A} (ne : q ≠ re.addr_) : (s'.ctrl st.server).listens_.find q =
      (s.ctrl st.server).listens_.find q := by
    have removed : CmSet.find TgListenElm.key
        (CmSet.remove TgListenElm.key (s.ctrl st.server).listens_ re.addr_) q =
          (s.ctrl st.server).listens_.find q := CmSet.find_remove_of_ne ne
    rw [listens]
    split
    · have ne' : TgListenElm.key ⟨.listen, re.id_, id_sock, re.addr_⟩ ≠ q := Ne.symm ne
      exact (CmSet.find_add_of_ne ne').trans removed
    · exact removed
  have old {g : G} {re' : TgReqElm T A T} (mem' : re' ∈ (s'.ctrl g).requests_) :
      re' ∈ (s.ctrl g).requests_ ∧ re'.cb ≠ re.cb := by
    by_cases same : g = st.server
    · subst same
      rw [requests] at mem'
      obtain ⟨mem', key⟩ := (CmSet.mem_remove (inv.nodup _)).mp mem'
      exact ⟨mem', fun cb => key (congrArg _ (inv.one mem' mem cb).2)⟩
    · rw [elsewhere g same] at mem'
      exact ⟨mem', fun cb => same (inv.one mem' mem cb).1⟩
  have old_asks {g : G} {re' : TgReqElm T A T} (mem' : re' ∈ (s'.ctrl g).asks .listen) :
      re' ∈ (s.ctrl g).asks .listen ∧ re'.cb ≠ re.cb := by
    obtain ⟨mem', stat'⟩ := TgAgntCtrl.mem_asks.mp mem'
    exact ⟨TgAgntCtrl.mem_asks.mpr ⟨(old mem').1, stat'⟩, (old mem').2⟩
  refine ⟨?_, ?_, ?_, ?_, ?_, ?_, ?_, ?_, ?_, ?_, ?_⟩
  · intro g
    by_cases same : g = st.server
    · subst same
      rw [requests]
      exact CmSet.nodup_remove (inv.nodup _)
    · rw [elsewhere g same]
      exact inv.nodup g
  · intro g re' mem'
    obtain ⟨mem', away⟩ := old mem'
    rw [others _ away]
    exact inv.waits mem'
  · intro g₁ g₂ re₁ re₂ mem₁ mem₂
    exact inv.one (old mem₁).1 (old mem₂).1
  · intro g re' mem'
    obtain ⟨mem', away⟩ := old_asks mem'
    obtain ⟨type, sent', rest, found⟩ := inv.asked mem'
    rw [others _ away]
    by_cases same : g = st.server
    · subst same
      have apart : re'.addr_ ≠ re.addr_ := fun addr =>
        away (congrArg _ (inv.ports mem' asked addr))
      rw [here, find_other apart]
      refine ⟨type, ?_, rest, found⟩
      refine (List.mem_erase_of_ne fun both => ?_).mpr sent'
      exact apart (congrArg Prod.snd both)
    · rw [elsewhere g same, there same]
      exact ⟨type, sent', rest, found⟩
  · intro g id p mem'
    by_cases same : g = st.server
    · subst same
      rw [here] at mem'
      have nodup := (inv.ids st.server).of_map
      obtain ⟨ne, sent'⟩ := nodup.mem_erase_iff.mp mem'
      obtain ⟨re', asked', rfl, rfl⟩ := inv.sent sent'
      obtain ⟨old', stat'⟩ := TgAgntCtrl.mem_asks.mp asked'
      refine ⟨re', TgAgntCtrl.mem_asks.mpr ⟨?_, stat'⟩, rfl, rfl⟩
      rw [requests]
      refine (CmSet.mem_remove (inv.nodup _)).mpr ⟨old', fun key => ne ?_⟩
      have id : re'.id_ = re.id_ := congrArg Prod.fst key
      have same : (re'.id_, re'.addr_) = (re.id_, re.addr_) :=
        List.inj_on_of_nodup_map (inv.ids st.server) sent' sent id
      exact same
    · rw [there same] at mem'
      rw [asks_congr (congrArg TgAgntCtrl.requests_ (elsewhere g same))]
      exact inv.sent mem'
  · intro g
    by_cases same : g = st.server
    · subst same
      rw [here]
      exact (inv.ids _).sublist (List.erase_sublist.map Prod.fst)
    · rw [there same]
      exact inv.ids g
  · intro g re₁ re₂ mem₁ mem₂
    exact inv.ports (old_asks mem₁).1 (old_asks mem₂).1
  · intro g
    by_cases same : g = st.server
    · subst same
      rw [listens]
      split
      · exact CmSet.nodup_add (CmSet.nodup_remove (inv.keys _))
      · exact CmSet.nodup_remove (inv.keys _)
    · rw [elsewhere g same]
      exact inv.keys g
  · intro g q le found used
    rw [notes]
    by_cases same : g = st.server
    · subst same
      by_cases here' : q = re.addr_
      · subst here'
        rw [listens] at found
        split at found
        · rename_i good
          rw [good]
          exact List.mem_cons_self
        · rw [TgListenCltn.find, none_] at found
          cases found
      · rw [find_other here'] at found
        exact List.mem_cons_of_mem _ (inv.granted found used)
    · rw [elsewhere g same] at found
      exact List.mem_cons_of_mem _ (inv.granted found used)
  · intro t st' at_' step
    rw [notes]
    by_cases same : t = re.cb
    · subst same
      have kind := (inv.waits mem).2
      have past (step : 2 ≤ (s.threads re.cb).step_) : False := by
        rw [stat] at kind
        exact kindAt_ne_listen step kind
      rw [threads, TgAgntCtrl.answer] at at_' step
      by_cases good : res = 0
      · rw [if_pos good] at at_'
        simp only [answer, Function.update_self] at at_'
        rw [at_] at at_'
        cases at_'
        rw [port, good]
        exact List.mem_cons_self
      · rw [if_neg good] at step
        simp only [answer, Function.update_self] at step
        exact (past step).elim
    · rw [others t same] at at_' step
      exact List.mem_cons_of_mem _ (inv.ordered.past t st' at_' step)
  · intro t g q later earlier split_
    rw [notes] at split_
    cases later with
    | nil => cases split_
    | cons n later =>
        obtain ⟨-, rest⟩ := List.cons.inj split_
        exact inv.ordered.connects t g q later earlier rest

/-! ## Steps -/

/-- A confirm or report that is not about a listen: nothing is called back, or what a request
    asked for. -/
structure Answers (c c' : TgAgntCtrl T A T) (a : Option (Answer T)) : Prop where
  listens : c'.listens_ = c.listens_
  requests : c'.requests_ = c.requests_ ∧ a = none ∨
    ∃ re ∈ c.requests_, re.stat_ ≠ .listen ∧
      c'.requests_ = CmSet.remove TgReqElm.key c.requests_ re.key ∧
      (a = some (.complete re.cb) ∨ a = some (.error re.cb))

section

omit [DecidableEq G] [DecidableEq T] [DecidableEq A]

variable {c c' : TgAgntCtrl T A T} {a : Option (Answer T)}

theorem answers_none (listens : c'.listens_ = c.listens_) (requests : c'.requests_ = c.requests_) :
    Answers c c' none := ⟨listens, .inl ⟨requests, rfl⟩⟩

theorem answers_found {id : Id} {stat : ReqStatus} {re : TgReqElm T A T}
    (found : c.requests_.find id stat = some re) (other : stat ≠ .listen)
    (listens : c'.listens_ = c.listens_)
    (requests : c'.requests_ = CmSet.remove TgReqElm.key c.requests_ re.key)
    (answered : a = some (.complete re.cb) ∨ a = some (.error re.cb)) : Answers c c' a := by
  obtain ⟨mem, -, same⟩ := TgAgntCtrl.other_of_find found
  exact ⟨listens, .inr ⟨re, mem, same ▸ other, requests, answered⟩⟩

theorem answer_cases (re : TgReqElm T A T) (res : BitVec 32) :
    some (TgAgntCtrl.answer re res) = some (.complete re.cb) ∨
      some (TgAgntCtrl.answer re res) = some (.error re.cb) := by
  simp only [TgAgntCtrl.answer]
  split
  · exact .inl rfl
  · exact .inr rfl

theorem answers_confirm (c : TgAgntCtrl T A T) (op : Traffic) (id_sock : Id) (res : BitVec 32) :
    Answers c (op.confirm c id_sock res).1 (op.confirm c id_sock res).2 := by
  have confirms : op.confirm c id_sock res =
      TgAgntCtrl.recvTrafficConfirm op.stat c id_sock res := by
    cases op <;> rfl
  have other : op.stat ≠ .listen := by
    cases op <;> simp [Traffic.stat]
  rw [confirms]
  unfold TgAgntCtrl.recvTrafficConfirm
  cases found : c.requests_.find id_sock op.stat with
  | none => exact answers_none rfl rfl
  | some re => exact answers_found found other rfl rfl (answer_cases re res)

end

theorem answers_recvOpenConfirm (c : TgAgntCtrl T A T) (id_req id_sock : Id) (res : BitVec 32) :
    Answers c (c.recvOpenConfirm id_req id_sock res).1
      (c.recvOpenConfirm id_req id_sock res).2 := by
  unfold TgAgntCtrl.recvOpenConfirm
  cases found : c.requests_.find id_req .open_ with
  | none => exact answers_none rfl rfl
  | some re =>
      refine answers_found found (by simp) ?_ ?_ (answer_cases re res)
      · simp only
        split <;> rfl
      · simp only
        split <;> rfl

theorem answers_opConnectConfirm (c : TgAgntCtrl T A T) (id_sock : Id) (res : BitVec 32) :
    Answers c (c.opConnectConfirm id_sock res).1 (c.opConnectConfirm id_sock res).2 := by
  unfold TgAgntCtrl.opConnectConfirm
  cases found : c.requests_.find id_sock .connect with
  | none => exact answers_none rfl rfl
  | some re =>
      refine answers_found found (by simp) ?_ ?_ (answer_cases re res)
      · simp only
        split <;> rfl
      · simp only
        split <;> rfl

theorem answers_opAcceptedReport (c : TgAgntCtrl T A T) (id_req id_sock : Id) (res : BitVec 32)
    (caddr : A) : Answers c (c.opAcceptedReport id_req id_sock res caddr).1
      (c.opAcceptedReport id_req id_sock res caddr).2 := by
  unfold TgAgntCtrl.opAcceptedReport
  cases c.listens_.findReq id_req with
  | none => exact answers_none rfl rfl
  | some le =>
      by_cases good : res = 0
      · simp only [if_pos good]
        cases found : (c.requests_.find id_req .accept).filter fun re => re.addr_ = caddr with
        | none => exact answers_none rfl rfl
        | some re =>
            exact answers_found (Option.filter_eq_some_iff.mp found).1 (by simp) rfl rfl (.inl rfl)
      · simp only [if_neg good]
        exact answers_none rfl rfl

theorem answers_recvCloseConfirm (c : TgAgntCtrl T A T) (id_sock : Id) (res : BitVec 32) :
    Answers c (c.recvCloseConfirm id_sock res).1 (c.recvCloseConfirm id_sock res).2 := by
  unfold TgAgntCtrl.recvCloseConfirm
  cases found : c.requests_.find id_sock .close with
  | none => exact answers_none rfl rfl
  | some re =>
      simp only
      cases (c.removeRequest re).connects_.find re.addr_ re.thread_ .closing with
      | none => exact answers_found found (by simp) rfl rfl (.inl rfl)
      | some ce => exact answers_found found (by simp) rfl rfl (answer_cases re res)

theorem answers_recvClosedReport (c : TgAgntCtrl T A T) (id_sock : Id) :
    Answers c (c.recvClosedReport id_sock) none := by
  unfold TgAgntCtrl.recvClosedReport
  cases c.connects_.findSock id_sock with
  | none => exact answers_none rfl rfl
  | some ce => exact answers_none rfl rfl

theorem answers_call (c : TgAgntCtrl T A T) {call : AgntCall T A T} (reports : Reports call)
    (rno : ℕ) : Answers c (c.call rno call).ctrl (c.call rno call).answer := by
  cases call with
  | openConfirm id_req id_sock res => exact answers_recvOpenConfirm c id_req id_sock res
  | acceptedReport id_req id_sock res caddr =>
      exact answers_opAcceptedReport c id_req id_sock res caddr
  | connectConfirm id_sock res => exact answers_opConnectConfirm c id_sock res
  | trafficConfirm op id_sock res => exact answers_confirm c op id_sock res
  | closeConfirm id_sock res => exact answers_recvCloseConfirm c id_sock res
  | closedReport id_sock => exact answers_recvClosedReport c id_sock
  | _ => exact reports.elim

theorem Inv.receive (inv : Inv script s) (g : G) {call : AgntCall T A T} (reports : Reports call) :
    Inv script (s.receive g call) := by
  obtain ⟨listens, cases_⟩ := answers_call (s.ctrl g) reports s.rno_base
  generalize after : s.receive g call = s'
  have ctrl : s'.ctrl g = ((s.ctrl g).call s.rno_base call).ctrl := by
    rw [← after]
    exact Function.update_self _ _ _
  have elsewhere (g' : G) (ne : g' ≠ g) : s'.ctrl g' = s.ctrl g' := by
    rw [← after]
    exact Function.update_of_ne ne _ _
  have threads : s'.threads = answer s.threads ((s.ctrl g).call s.rno_base call).answer := by
    rw [← after]
    rfl
  have listens (g' : G) : (s'.ctrl g').listens_ = (s.ctrl g').listens_ := by
    by_cases same : g' = g
    · subst same
      rw [ctrl, listens]
    · rw [elsewhere g' same]
  rcases cases_ with ⟨requests, none_⟩ | ⟨re, mem, other, requests, answered⟩
  · have all (g' : G) : (s'.ctrl g').requests_ = (s.ctrl g').requests_ := by
      by_cases same : g' = g
      · subst same
        rw [ctrl, requests]
      · rw [elsewhere g' same]
    rw [none_] at threads
    have asks (g' : G) : (s'.ctrl g').asks .listen = (s.ctrl g').asks .listen :=
      asks_congr (all g') .listen
    have listening : s'.listening = s.listening := by
      rw [← after]
      rfl
    have notes : s'.notes = s.notes := by
      rw [← after]
      rfl
    obtain ⟨ctrl', rno', threads', listening', notes'⟩ := s'
    simp only at all listens threads asks listening notes
    subst threads listening notes
    exact ⟨fun g => all g ▸ inv.nodup g, fun mem => inv.waits (all _ ▸ mem),
      fun mem mem' => inv.one (all _ ▸ mem) (all _ ▸ mem'),
      fun {g re} mem => by rw [listens]; exact inv.asked (asks _ ▸ mem),
      fun mem => by rw [asks]; exact inv.sent mem, inv.ids,
      fun mem mem' => inv.ports (asks _ ▸ mem) (asks _ ▸ mem'),
      fun g => listens g ▸ inv.keys g, fun found => inv.granted (listens _ ▸ found),
      inv.ordered.past, inv.ordered.connects⟩
  · refine inv.answered mem other ?_ ?_ listens ?_ ?_ ?_ ?_
    · rw [ctrl, requests]
    · intro g' ne
      rw [elsewhere g' ne]
    · intro t ne
      rw [threads]
      rcases answered with complete | error
      · rw [complete]
        exact Function.update_of_ne ne _ _
      · rw [error]
        exact Function.update_of_ne ne _ _
    · rw [threads]
      rcases answered with complete | error
      · rw [complete]
        exact .inl (Function.update_self _ _ _)
      · rw [error]
        exact .inr (Function.update_self _ _ _)
    · rw [← after]
      rfl
    · rw [← after]
      rfl

/-- An operation on an agent that leaves its requests and listeners as they are. -/
theorem Inv.operate_same (inv : Inv script s) {t : T} {st : TgStmtConnect G A} {g : G}
    {call : AgntCall T A T} (ready : (s.threads t).phase = .ready) (waitf : Option Bool)
    (requests : ((s.ctrl g).call s.rno_base call).ctrl.requests_ = (s.ctrl g).requests_)
    (listens : ((s.ctrl g).call s.rno_base call).ctrl.listens_ = (s.ctrl g).listens_)
    (sent : ((s.ctrl g).call s.rno_base call).sent = none)
    (result : ((s.ctrl g).call s.rno_base call).waitf = waitf)
    (past : ∀ st, (script t)[(behind (s.threads t) waitf).pos]? = some st →
      2 ≤ (behind (s.threads t) waitf).step_ →
      .confirmed st.server st.serverPort 0 ∈ s.notes) : Inv script (s.operate t st g call) := by
  refine inv.moves ready ?_ ?_ ?_ ?_ ?_ ?_
  · intro g'
    by_cases same : g' = g
    · subst same
      simp only [Connecting.operate, Function.update_self, requests]
    · simp only [Connecting.operate, Function.update_of_ne same]
  · intro g'
    by_cases same : g' = g
    · subst same
      simp only [Connecting.operate, Function.update_self, listens]
    · simp only [Connecting.operate, Function.update_of_ne same]
  · intro t' ne
    exact Function.update_of_ne ne _ _
  · simp only [Connecting.operate, sent, listenSent, List.nil_append, Function.update_eq_self]
  · simp only [Connecting.operate, sent, connectSent, List.nil_append]
  · simp only [Connecting.operate, Function.update_self, result]
    exact past

/-- An operation on an agent that leaves a request behind, but for a listen. -/
theorem Inv.operate_request (inv : Inv script s) (st : TgStmtConnect G A) {g : G}
    {call : AgntCall T A T} (re : TgReqElm T A T) (ready : (s.threads re.cb).phase = .ready)
    (other : re.stat_ ≠ .listen) (kind : kindAt (s.threads re.cb).step_ = some re.stat_)
    (requests : ((s.ctrl g).call s.rno_base call).ctrl.requests_ =
      CmSet.add TgReqElm.key (s.ctrl g).requests_ re)
    (listens : ((s.ctrl g).call s.rno_base call).ctrl.listens_ = (s.ctrl g).listens_)
    (sent : listenSent ((s.ctrl g).call s.rno_base call).sent = [])
    (waits : ((s.ctrl g).call s.rno_base call).waitf = some true) :
    Inv script { s.operate re.cb st g call with notes := s.notes } := by
  refine inv.request ready other kind (g := g) ?_ ?_ ?_ ?_ ?_ ?_ rfl
  · simp only [Connecting.operate, Function.update_self, requests]
  · intro g' ne
    simp only [Connecting.operate, Function.update_of_ne ne]
  · intro g'
    by_cases same : g' = g
    · subst same
      simp only [Connecting.operate, Function.update_self, listens]
    · simp only [Connecting.operate, Function.update_of_ne same]
  · intro t' ne
    exact Function.update_of_ne ne _ _
  · simp only [Connecting.operate, Function.update_self, waits]
    rfl
  · simp only [Connecting.operate, sent, List.nil_append, Function.update_eq_self]

theorem Inv.performListen (inv : Inv script s) {t : T} {st : TgStmtConnect G A}
    (ready : (s.threads t).phase = .ready) (at_ : (script t)[(s.threads t).pos]? = some st)
    (step : (s.threads t).step_ = 1) (fine : Fine s t st) :
    Inv script (s.operate t st st.server (.opListen t t st.serverPort .tcp)) := by
  have fine := fine step
  cases found : (s.ctrl st.server).listens_.find st.serverPort with
  | some le =>
      rw [found] at fine
      have turn : (s.ctrl st.server).call s.rno_base (.opListen t t st.serverPort .tcp) =
          ⟨s.ctrl st.server, s.rno_base, none, some false, none⟩ := by
        simp only [TgAgntCtrl.call, TgAgntCtrl.opListen, found]
        rfl
      refine inv.operate_same ready (some false) ?_ ?_ ?_ ?_ ?_
      · rw [turn]
      · rw [turn]
      · rw [turn]
      · rw [turn]
      · intro st' at_' _
        have same : some st = some st' := at_.symm.trans at_'
        cases same
        exact inv.granted found fine
  | none =>
      rw [found] at fine
      have turn : (s.ctrl st.server).call s.rno_base (.opListen t t st.serverPort .tcp) =
          ⟨{ (s.ctrl st.server).addRequest
              ⟨.listen, BitVec.ofNat 16 s.rno_base, t, t, st.serverPort, .tcp⟩ with
            listens_ := CmSet.add TgListenElm.key (s.ctrl st.server).listens_
              ⟨.reqListen, BitVec.ofNat 16 s.rno_base, 0, st.serverPort⟩ },
            s.rno_base + 1, some (.listen (BitVec.ofNat 16 s.rno_base) .tcp st.serverPort),
            some true, none⟩ := by
        simp only [TgAgntCtrl.call, TgAgntCtrl.opListen, found]
        rfl
      refine inv.listens ready step at_ found fine ?_ ?_ ?_ ?_ ?_ ?_ ?_
      · simp only [Connecting.operate, Function.update_self, turn]
        rfl
      · simp only [Connecting.operate, Function.update_self, turn]
      · intro g ne
        exact Function.update_of_ne ne _ _
      · intro t' ne
        exact Function.update_of_ne ne _ _
      · simp only [Connecting.operate, Function.update_self, turn]
        rfl
      · simp only [Connecting.operate, turn]
        rfl
      · simp only [Connecting.operate, turn]
        rfl

theorem Inv.performConnect (inv : Inv script s) {t : T} {st : TgStmtConnect G A}
    (ready : (s.threads t).phase = .ready) (at_ : (script t)[(s.threads t).pos]? = some st)
    (step : (s.threads t).step_ = 2) :
    Inv script (s.operate t st st.client (.opConnect t t st.clientPort .tcp)) := by
  have granted : .confirmed st.server st.serverPort 0 ∈ s.notes :=
    inv.ordered.past t st at_ (Nat.le_of_eq step.symm)
  cases found : (s.ctrl st.client).connects_.find st.clientPort t .opened with
  | none =>
      have turn : (s.ctrl st.client).call s.rno_base (.opConnect t t st.clientPort .tcp) =
          ⟨s.ctrl st.client, s.rno_base, none, none, none⟩ := by
        simp only [TgAgntCtrl.call, TgAgntCtrl.opConnect, found]
        rfl
      refine inv.operate_same ready none ?_ ?_ ?_ ?_ ?_
      · rw [turn]
      · rw [turn]
      · rw [turn]
      · rw [turn]
      · intro st' at_' _
        have same : some st = some st' := at_.symm.trans at_'
        cases same
        exact granted
  | some ce =>
      have turn : (s.ctrl st.client).call s.rno_base (.opConnect t t st.clientPort .tcp) =
          ⟨(s.ctrl st.client).addRequest ⟨.connect, ce.id_sock_, t, t, st.clientPort, .tcp⟩,
            s.rno_base, some (.connect ce.id_sock_), some true, none⟩ := by
        simp only [TgAgntCtrl.call, TgAgntCtrl.opConnect, found]
        rfl
      have asked : Inv script { s.operate t st st.client (.opConnect t t st.clientPort .tcp) with
          notes := s.notes } := by
        refine inv.operate_request st ⟨.connect, ce.id_sock_, t, t, st.clientPort, .tcp⟩ ready
          (by simp) ?_ ?_ ?_ ?_ ?_
        · rw [step]
          rfl
        · rw [turn]
          rfl
        · rw [turn]
          rfl
        · rw [turn]
          rfl
        · rw [turn]
      have sends : s.operate t st st.client (.opConnect t t st.clientPort .tcp) =
          { s.operate t st st.client (.opConnect t t st.clientPort .tcp) with
            notes := .connecting t st.server st.serverPort :: s.notes } := by
        simp only [Connecting.operate, turn]
        rfl
      rw [sends]
      exact asked.connecting granted t

theorem Inv.performAccept (inv : Inv script s) {t : T} {st : TgStmtConnect G A}
    (ready : (s.threads t).phase = .ready) (at_ : (script t)[(s.threads t).pos]? = some st)
    (step : (s.threads t).step_ = 3) :
    Inv script (s.operate t st st.server (.opAccept t t st.serverPort st.clientPort .tcp)) := by
  have past (waitf : Option Bool) (pos : (behind (s.threads t) waitf).pos = (s.threads t).pos)
      (st' : TgStmtConnect G A)
      (at_' : (script t)[(behind (s.threads t) waitf).pos]? = some st') :
      .confirmed st'.server st'.serverPort 0 ∈ s.notes := by
    rw [pos, at_] at at_'
    cases at_'
    exact inv.ordered.past t st at_ (by rw [step]; decide)
  cases parked : (s.ctrl st.server).accepts_.find st.clientPort st.serverPort with
  | some ae =>
      refine inv.operate_same ready (some false) ?_ ?_ ?_ ?_
        fun st' at_' _ => past (some false) rfl st' at_'
      all_goals
        simp only [TgAgntCtrl.call, TgAgntCtrl.opAccept, parked]
        rfl
  | none =>
      cases found : (s.ctrl st.server).listens_.find st.serverPort with
      | none =>
          refine inv.operate_same ready none ?_ ?_ ?_ ?_
            fun st' at_' _ => past none rfl st' at_'
          all_goals
            simp only [TgAgntCtrl.call, TgAgntCtrl.opAccept, parked, found]
            rfl
      | some le =>
          have turn : (s.ctrl st.server).call s.rno_base
              (.opAccept t t st.serverPort st.clientPort .tcp) =
                ⟨(s.ctrl st.server).addRequest ⟨.accept, le.id_req_, t, t, st.clientPort, .tcp⟩,
                  s.rno_base, none, some true, none⟩ := by
            simp only [TgAgntCtrl.call, TgAgntCtrl.opAccept, parked, found]
            rfl
          have asked : Inv script { s.operate t st st.server
              (.opAccept t t st.serverPort st.clientPort .tcp) with notes := s.notes } := by
            refine inv.operate_request st ⟨.accept, le.id_req_, t, t, st.clientPort, .tcp⟩ ready
              (by simp) ?_ ?_ ?_ ?_ ?_
            · rw [step]
              rfl
            · rw [turn]
              rfl
            · rw [turn]
              rfl
            · rw [turn]
              rfl
            · rw [turn]
          have quiet : (s.operate t st st.server
              (.opAccept t t st.serverPort st.clientPort .tcp)).notes = s.notes := by
            simp only [Connecting.operate, turn]
            rfl
          rw [← quiet] at asked
          exact asked

theorem Inv.perform (inv : Inv script s) {t : T} {st : TgStmtConnect G A}
    (ready : (s.threads t).phase = .ready) (at_ : (script t)[(s.threads t).pos]? = some st)
    (fine : Fine s t st) : Inv script (s.perform t st) := by
  unfold Connecting.perform
  split
  · rename_i step
    have asked : Inv script { s.operate t st st.client
        (.opOpen t t st.clientPort st.serverPort .tcp) with notes := s.notes } :=
      inv.operate_request st ⟨.open_, BitVec.ofNat 16 s.rno_base, t, t, st.clientPort, .tcp⟩ ready
        (by simp) (by rw [step]; rfl) rfl rfl rfl rfl
    exact asked
  · rename_i step
    exact inv.performListen ready at_ step fine
  · rename_i step
    exact inv.performConnect ready at_ step
  · rename_i step
    exact inv.performAccept ready at_ step
  · refine inv.moves ready (fun _ => rfl) (fun _ => rfl) ?_ rfl rfl ?_
    · intro t' ne
      exact Function.update_of_ne ne _ _
    · intro st' _ past
      simp only [Function.update_self] at past
      exact absurd past (by decide)

/-- In a run in which no thread listens at a port whose listen is pending, threads only connect
    to ports that are listened at. -/
theorem connects_behind_listen {rno_base : ℕ} (run : Run script Fine rno_base s) :
    Ordered script s := by
  have inv : Inv script s := by
    induction run with
    | refl => exact inv_new rno_base
    | tail _ step inv =>
        obtain ⟨t, st, ready, at_, fine, rfl⟩ | ⟨g, call, reports, rfl⟩ |
          ⟨g, id_req, port, id_sock, res, sent, rfl⟩ := step
        · exact inv.perform ready at_ fine
        · exact inv.receive g reports
        · exact inv.listened id_sock res sent
  exact inv.ordered

end

/-! ## Two threads at one port -/

theorem Run.mono [DecidableEq G] [DecidableEq T] [DecidableEq A]
    {cond cond' : Connecting G T A → T → TgStmtConnect G A → Prop}
    (weaker : ∀ s t st, cond s t st → cond' s t st) {rno_base : ℕ}
    (run : Run script cond rno_base s) : Run script cond' rno_base s := by
  induction run with
  | refl => exact .refl
  | tail _ step run =>
      apply run.tail
      cases step with
      | perform t st ready at_ fine eq => exact .perform t st ready at_ (weaker _ t st fine) eq
      | receive g call reports eq => exact .receive g call reports eq
      | listened g id_req port id_sock res sent eq =>
          exact .listened g id_req port id_sock res sent eq

/-- Both threads go from the agent `false` to port `0` of the agent `true`. -/
def towards (t : Bool) : TgStmtConnect Bool ℕ := ⟨false, if t then 1 else 2, true, 0⟩

def bothConnect (t : Bool) : List (TgStmtConnect Bool ℕ) := [towards t]

/-- Both threads have opened their sockets, and one has asked for the listen. -/
def oneListens : Connecting Bool Bool ℕ :=
  (((((new 1).perform true (towards true)).receive false (.openConfirm 1 5 0)).perform false
    (towards false)).receive false (.openConfirm 2 6 0)).perform true (towards true)

theorem run_oneListens : Run bothConnect Fine 1 oneListens := by
  refine ((((Relation.ReflTransGen.refl.tail (.perform true (towards true) rfl rfl ?_ rfl)).tail
    (.receive false (.openConfirm 1 5 0) trivial rfl)).tail
    (.perform false (towards false) rfl rfl ?_ rfl)).tail
    (.receive false (.openConfirm 2 6 0) trivial rfl)).tail
    (.perform true (towards true) rfl rfl ?_ rfl)
  · intro _
    rfl
  · intro step
    cases step
  · intro step
    cases step

/-- Both threads go on behind the confirm. -/
def bothBehind : Connecting Bool Bool ℕ :=
  (((oneListens.listened true 3 0 7 0).perform false (towards false)).perform false
    (towards false)).perform true (towards true)

theorem connects_behind_listen_both :
    .connecting true true 0 ∈ bothBehind.notes ∧ .connecting false true 0 ∈ bothBehind.notes ∧
      Ordered bothConnect bothBehind := by
  have run : Run bothConnect Fine 1 bothBehind := by
    refine (((run_oneListens.tail (.listened true 3 0 7 0 (by decide) rfl)).tail
      (.perform false (towards false) rfl rfl ?_ rfl)).tail
      (.perform false (towards false) rfl rfl ?_ rfl)).tail
      (.perform true (towards true) rfl rfl ?_ rfl)
    · intro _
      rfl
    · intro step
      cases step
    · intro step
      cases step
  exact ⟨by decide, by decide, connects_behind_listen run⟩

/-- The other thread does not wait for the listen that is pending. -/
theorem not_connects_behind_listen :
    ¬ ∀ s, Run bothConnect (fun _ _ _ => True) 1 s → Ordered bothConnect s := by
  intro always
  have run : Run bothConnect (fun _ _ _ => True) 1
      ((oneListens.perform false (towards false)).perform false (towards false)) := by
    have start : Run bothConnect (fun _ _ _ => True) 1 oneListens :=
      run_oneListens.mono fun _ _ _ _ => trivial
    exact (start.tail (.perform false (towards false) rfl rfl trivial rfl)).tail
      (.perform false (towards false) rfl rfl trivial rfl)
  have confirmed := (always _ run).connects false true 0 [] [] rfl
  cases confirmed

end Connecting

end Tahi.Tg
