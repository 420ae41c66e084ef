import Tahi.Tg.TgAgntCtrl

/-! # What calls leave as it is

Most calls have nothing to do with listeners and accepts.
-/

namespace Tahi.Tg

open Cm

variable {T A C : Type}

namespace TgAgntCtrl

/-- The requests of a kind. -/
def asks (s : TgAgntCtrl T A C) (stat : ReqStatus) : List (TgReqElm T A C) :=
  s.requests_.filter fun re => re.stat_ = stat

variable {s s' s'' : TgAgntCtrl T A C}

theorem mem_asks {stat : ReqStatus} {re : TgReqElm T A C} :
    re ∈ s.asks stat ↔ re ∈ s.requests_ ∧ re.stat_ = stat := by
  simp [TgAgntCtrl.asks]

/-- What is neither about listeners nor about accepts leaves them as they are. -/
structure Aside (s s' : TgAgntCtrl T A C) : Prop where
  listens : s'.listens_ = s.listens_
  accepts : s'.accepts_ = s.accepts_
  asks : ∀ stat, stat = .listen ∨ stat = .accept → s'.asks stat = s.asks stat
  nodup : (s.requests_.map TgReqElm.key).Nodup → (s'.requests_.map TgReqElm.key).Nodup

theorem Aside.refl (s : TgAgntCtrl T A C) : s.Aside s := ⟨rfl, rfl, fun _ _ => rfl, id⟩

theorem Aside.trans (aside : s.Aside s') (aside' : s'.Aside s'') : s.Aside s'' where
  listens := aside'.listens.trans aside.listens
  accepts := aside'.accepts.trans aside.accepts
  asks stat kind := (aside'.asks stat kind).trans (aside.asks stat kind)
  nodup := aside'.nodup ∘ aside.nodup

/-- The kinds of requests that are neither for a listener nor for an accept. -/
def Other (stat : ReqStatus) : Prop := stat ≠ .listen ∧ stat ≠ .accept

theorem Other.ne {stat stat' : ReqStatus} (other : Other stat)
    (kind : stat' = .listen ∨ stat' = .accept) : stat ≠ stat' := by
  cases kind with
  | inl same => exact same ▸ other.1
  | inr same => exact same ▸ other.2

theorem aside_addRequest (s : TgAgntCtrl T A C) (re : TgReqElm T A C) (other : Other re.stat_) :
    s.Aside (s.addRequest re) where
  listens := rfl
  accepts := rfl
  asks stat kind := CmSet.filter_add (by simpa using other.ne kind)
  nodup := CmSet.nodup_add

theorem aside_removeRequest (s : TgAgntCtrl T A C) (re : TgReqElm T A C)
    (other : Other re.stat_) : s.Aside (s.removeRequest re) where
  listens := rfl
  accepts := rfl
  asks stat kind := by
    refine CmSet.filter_remove fun re' _ same => ?_
    have stat' : re'.stat_ = re.stat_ := congrArg Prod.snd same
    simpa [stat'] using other.ne kind
  nodup := CmSet.nodup_remove

theorem aside_connects (s : TgAgntCtrl T A C) (connects : TgConnCltn T A) :
    s.Aside { s with connects_ := connects } := ⟨rfl, rfl, fun _ _ => rfl, id⟩

theorem aside_operate {stat : ReqStatus} (other : Other stat) (indication : Id → Indication A)
    (ce : TgConnElm T A) (s : TgAgntCtrl T A C) (t : T) (cb : C) (src : A) (type : ConnType) :
    s.Aside (operate stat indication ce s t cb src type).1 :=
  aside_addRequest s _ other

theorem aside_opTraffic [DecidableEq T] [DecidableEq A] {stat : ReqStatus} (other : Other stat)
    {indication : Id → Indication A} {t : T} {cb : C} {src : A} {type : ConnType} {rno : ℕ} :
    s.Aside (s.ofOp rno (opTraffic stat indication s t cb src type)).ctrl := by
  unfold opTraffic
  cases s.connects_.find src t .connected with
  | none => exact .refl s
  | some ce => exact aside_operate other indication ce s t cb src type

theorem other_of_find {id : Id} {stat : ReqStatus} {re : TgReqElm T A C}
    (found : s.requests_.find id stat = some re) : re ∈ s.requests_ ∧ re.id_ = id ∧
      re.stat_ = stat := by
  obtain ⟨mem, same⟩ := CmSet.find_eq_some found
  exact ⟨mem, congrArg Prod.fst same, congrArg Prod.snd same⟩

theorem aside_recvTrafficConfirm {stat : ReqStatus} (other : Other stat) {id : Id}
    {res : BitVec 32} {rno : ℕ} :
    s.Aside (ofReply rno (recvTrafficConfirm (C := C) stat s id res)).ctrl := by
  unfold recvTrafficConfirm
  cases found : s.requests_.find id stat with
  | none => exact .refl s
  | some re => exact aside_removeRequest s re ((other_of_find found).2.2 ▸ other)

end TgAgntCtrl

/-- A call that has nothing to do with listeners and accepts. -/
def AgntCall.Beside : AgntCall T A C → Prop
  | .opListen _ _ _ _ => False
  | .opAccept _ _ _ _ _ => False
  | .listenConfirm _ _ _ => False
  | .acceptedReport _ _ _ _ => False
  | _ => True

namespace TgAgntCtrl

variable [DecidableEq T] [DecidableEq A] {s : TgAgntCtrl T A C}

theorem aside_call {call : AgntCall T A C} (beside : call.Beside) (rno : ℕ) :
    s.Aside (s.call rno call).ctrl := by
  cases call with
  | opOpen t cb src dst type => exact aside_addRequest s _ ⟨by simp, by simp⟩
  | opListen t cb src type => exact beside.elim
  | opConnect t cb src type =>
      simp only [TgAgntCtrl.call, opConnect]
      cases s.connects_.find src t .opened with
      | none => exact .refl s
      | some ce => exact aside_operate ⟨by simp, by simp⟩ .connect ce s t cb src type
  | opAccept t cb src dst type => exact beside.elim
  | opTraffic op t cb src type =>
      cases op <;> exact aside_opTraffic ⟨by simp, by simp⟩
  | opClose t cb src type =>
      simp only [TgAgntCtrl.call, opClose]
      cases s.connects_.find src t .connected with
      | none => exact .refl s
      | some ce =>
          exact (aside_connects s _).trans
            (aside_operate ⟨by simp, by simp⟩ .close ce (s.setStatus ce .closing) t cb src type)
  | openConfirm id_req id_sock res =>
      simp only [TgAgntCtrl.call, recvOpenConfirm]
      cases found : s.requests_.find id_req .open_ with
      | none => exact .refl s
      | some re =>
          have aside := aside_removeRequest s re
            (by rw [(other_of_find found).2.2]; exact ⟨by simp, by simp⟩)
          simp only [ofReply]
          split
          · exact aside.trans (aside_connects _ _)
          · exact aside
  | listenConfirm id_req id_sock res => exact beside.elim
  | acceptedReport id_req id_sock res caddr => exact beside.elim
  | connectConfirm id_sock res =>
      simp only [TgAgntCtrl.call, opConnectConfirm]
      cases found : s.requests_.find id_sock .connect with
      | none => exact .refl s
      | some re =>
          have aside := aside_removeRequest s re
            (by rw [(other_of_find found).2.2]; exact ⟨by simp, by simp⟩)
          simp only [ofReply]
          split
          · exact aside.trans (aside_connects _ _)
          · exact aside
  | trafficConfirm op id_sock res =>
      cases op <;> exact aside_recvTrafficConfirm ⟨by simp, by simp⟩
  | closeConfirm id_sock res =>
      simp only [TgAgntCtrl.call, recvCloseConfirm]
      cases found : s.requests_.find id_sock .close with
      | none => exact .refl s
      | some re =>
          have aside := aside_removeRequest s re
            (by rw [(other_of_find found).2.2]; exact ⟨by simp, by simp⟩)
          simp only [ofReply]
          cases (s.removeRequest re).connects_.find re.addr_ re.thread_ .closing with
          | none => exact aside
          | some ce => exact aside.trans (aside_connects _ _)
  | closedReport id_sock =>
      simp only [TgAgntCtrl.call, recvClosedReport]
      cases s.connects_.findSock id_sock with
      | none => exact .refl s
      | some ce => exact aside_connects s _

end TgAgntCtrl

end Tahi.Tg
