import Tahi.Cm.BtSetVirtual
import Tahi.Cm.CmSockAddr
import Tahi.Tg.TgReqElm

/-! # Looking up listeners and connections by address

The elements are equal where their addresses are, which says less than their hashes do.
-/

namespace Tahi.Tg

open Cm

variable {S : System} {T : Type}

namespace TgListenElm

/-- The constructor for a key. What it leaves undefined is not looked at. -/
def ofAddr (addr : CmSockAddr S) : TgListenElm (CmSockAddr S) := ⟨.reqListen, 0, 0, addr⟩

def hash (e : TgListenElm (CmSockAddr S)) : UInt32 := e.addr_.hash

def isEqual (e pe : TgListenElm (CmSockAddr S)) : Bool := e.addr_.isEqual pe.addr_

end TgListenElm

/-- The virtual functions of a `TgListenCltn`. -/
def listenCltn (S : System) : Virtual (TgListenElm (CmSockAddr S)) :=
  ⟨TgListenElm.hash, TgListenElm.isEqual⟩

def listenCltn.find (t : BtSet (TgListenElm (CmSockAddr S))) (addr : CmSockAddr S) :
    Option (TgListenElm (CmSockAddr S)) := (listenCltn S).find t (.ofAddr addr)

namespace TgAcceptElm

def ofAddrs (caddr saddr : CmSockAddr S) : TgAcceptElm (CmSockAddr S) := ⟨0, caddr, saddr⟩

def hash (e : TgAcceptElm (CmSockAddr S)) : UInt32 := e.caddr_.hash + e.saddr_.hash

def isEqual (e o : TgAcceptElm (CmSockAddr S)) : Bool :=
  e.caddr_.isEqual o.caddr_ && e.saddr_.isEqual o.saddr_

end TgAcceptElm

def acceptCltn (S : System) : Virtual (TgAcceptElm (CmSockAddr S)) :=
  ⟨TgAcceptElm.hash, TgAcceptElm.isEqual⟩

def acceptCltn.find (t : BtSet (TgAcceptElm (CmSockAddr S))) (caddr saddr : CmSockAddr S) :
    Option (TgAcceptElm (CmSockAddr S)) := (acceptCltn S).find t (.ofAddrs caddr saddr)

namespace TgConnElm

def ofAddr (addr : CmSockAddr S) (thread : T) (stat : ConnStatus) : TgConnElm T (CmSockAddr S) :=
  ⟨stat, 0, addr, thread⟩

def hash (e : TgConnElm T (CmSockAddr S)) : UInt32 := e.addr_.hash

/-- Threads are compared as pointers. -/
def isEqual [DecidableEq T] (e o : TgConnElm T (CmSockAddr S)) : Bool :=
  e.addr_.isEqual o.addr_ && e.thread_ = o.thread_ && e.stat_ = o.stat_

end TgConnElm

def connCltn (S : System) (T : Type) [DecidableEq T] : Virtual (TgConnElm T (CmSockAddr S)) :=
  ⟨TgConnElm.hash, TgConnElm.isEqual⟩

def connCltn.find [DecidableEq T] (t : BtSet (TgConnElm T (CmSockAddr S))) (addr : CmSockAddr S)
    (thread : T) (stat : ConnStatus) : Option (TgConnElm T (CmSockAddr S)) :=
  (connCltn S T).find t (.ofAddr addr thread stat)

/-- An element is found by a key in every table of the collection that it is stored in, or else
    another one is. -/
def Found {α : Type} (V : Virtual α) (find : BtSet α → Option α) (e : α) : Prop :=
  ∀ t, V.Made t → some e ∈ t.elements_ → (find t).isSome

section

variable (e : TgListenElm (CmSockAddr S)) (a : TgAcceptElm (CmSockAddr S))
  (addr saddr : CmSockAddr S)

theorem listen_found_iff (equal : e.addr_.isEqual addr) :
    Found (listenCltn S) (listenCltn.find · addr) e ↔ Cancels e.addr_.octets addr.octets := by
  have same : (listenCltn S).isSame e (.ofAddr addr) := equal
  exact (Virtual.finds_iff same).trans (CmSockAddr.hash_eq_iff equal)

theorem accept_found_iff (equal : a.caddr_.isEqual addr) (equal' : a.saddr_.isEqual saddr) :
    Found (acceptCltn S) (acceptCltn.find · addr saddr) a ↔
      a.caddr_.hash + a.saddr_.hash = addr.hash + saddr.hash := by
  have same : (acceptCltn S).isSame a (.ofAddrs addr saddr) :=
    Bool.and_eq_true_iff.mpr ⟨equal, equal'⟩
  exact Virtual.finds_iff same

theorem conn_found_iff [DecidableEq T] (c : TgConnElm T (CmSockAddr S))
    (equal : c.addr_.isEqual addr) :
    Found (connCltn S T) (connCltn.find · addr c.thread_ c.stat_) c ↔
      Cancels c.addr_.octets addr.octets := by
  have same : (connCltn S T).isSame c (.ofAddr addr c.thread_ c.stat_) := by
    simp [connCltn, TgConnElm.isEqual, TgConnElm.ofAddr, equal]
  exact (Virtual.finds_iff same).trans (CmSockAddr.hash_eq_iff equal)

end

/-- Equal addresses find what is stored exactly where the octets they differ in cancel each other,
    and pairs where the sums of their hashes agree. -/
theorem finds_equal_iff (S : System) (T : Type) [DecidableEq T] :
    (∀ (e : TgListenElm (CmSockAddr S)) (addr : CmSockAddr S), e.addr_.isEqual addr →
      (Found (listenCltn S) (listenCltn.find · addr) e ↔
        Cancels e.addr_.octets addr.octets)) ∧
    (∀ (a : TgAcceptElm (CmSockAddr S)) (caddr saddr : CmSockAddr S), a.caddr_.isEqual caddr →
      a.saddr_.isEqual saddr →
      (Found (acceptCltn S) (acceptCltn.find · caddr saddr) a ↔
        a.caddr_.hash + a.saddr_.hash = caddr.hash + saddr.hash)) ∧
    (∀ (c : TgConnElm T (CmSockAddr S)) (addr : CmSockAddr S), c.addr_.isEqual addr →
      (Found (connCltn S T) (connCltn.find · addr c.thread_ c.stat_) c ↔
        Cancels c.addr_.octets addr.octets)) ∧
    ∀ a o : CmSockAddr S, a.isEqual o → (a.hash = o.hash ↔ Cancels a.octets o.octets) :=
  ⟨listen_found_iff, accept_found_iff, fun c addr => conn_found_iff addr c,
    fun _ _ => CmSockAddr.hash_eq_iff⟩

/-- The address `fe80::1` with port 80, in a scope. -/
def linkLocal (scope : UInt8) : CmSockAddr .freeBSD where
  octets := [28, 28, 0, 80, 0, 0, 0, 0, 0xfe, 0x80, 0, 0, 0, 0, 0, 0, 0, 0, 0, 0, 0, 0, 0, 1,
    scope, 0, 0, 0]
  inet6 _ := Nat.le_refl 28

theorem finds_equal_linkLocal :
    Found (listenCltn .freeBSD) (listenCltn.find · (linkLocal 1)) ⟨.listen, 1, 2, linkLocal 1⟩ ↔
      Cancels (linkLocal 1).octets (linkLocal 1).octets :=
  (finds_equal_iff .freeBSD Unit).1 ⟨.listen, 1, 2, linkLocal 1⟩ (linkLocal 1) (by decide)

/-- A listener in one scope is not found by the address in the other, in a table that is new but
    for the listener. -/
theorem not_finds_equal :
    (linkLocal 1).isEqual (linkLocal 2) = true ∧ (linkLocal 1).hash ≠ (linkLocal 2).hash ∧
      ∃ t, (listenCltn .freeBSD).add (BtSet.new 8) ⟨.listen, 1, 2, linkLocal 1⟩ = some t ∧
        (listenCltn.find t (linkLocal 1)).isSome ∧ listenCltn.find t (linkLocal 2) = none := by
  refine ⟨by decide +kernel, by decide +kernel, _, rfl, ?_, ?_⟩
  · decide +kernel
  · decide +kernel

end Tahi.Tg
