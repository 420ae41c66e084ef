import Mathlib.Data.BitVec
import Tahi.Tg.TcSocket

/-! # One-way transfers

A socket that receives is asked, at any time, whether it has received everything.
-/

namespace Tahi.Tg

open BitField (Octet)

/-- A socket that receives, and the octets of its peer that it has not read. -/
structure Oneway where
  receiver : TcSocket
  stream : List Octet

namespace Oneway

/-- A transfer begins. -/
def start (old : TcSocket) (c l : BitVec 32) (data : List Octet) : Oneway where
  receiver := { old with request_ := .recv, reports := [] }.recvIndication c l
  stream := data

def read (stack : ℕ → Octet) (s : Oneway) : Option Oneway :=
  (s.receiver.receive s.stream stack).map fun r => ⟨r.1, r.2⟩

def reads (stack : ℕ → Octet) : ℕ → Oneway → Option Oneway
  | 0, s => some s
  | n + 1, s => (s.reads stack n).bind (read stack)

/-- The manager asks. -/
def ask (s : Oneway) : Oneway :=
  { s with receiver := s.receiver.recvEffectIndication }

/-- What the manager is told. -/
def told (s : Oneway) : List (ERequest × BitVec 32 × BitVec 32) :=
  s.receiver.reports.map fun r => (r.request, r.result, r.info.rcount_)

/-- The manager asks behind `m` of `c` messages, and is answered when it has asked and all have
    been received. -/
structure Answers (stack : ℕ → Octet) (c : BitVec 32) (m : ℕ) (start : Oneway) : Prop where
  before : ∀ n ≤ m, ∃ s, start.reads stack n = some s ∧ s.told = []
  behind : ∃ s, start.reads stack m = some s ∧ ∀ n ≤ c.toNat - m,
    ∃ s', s.ask.reads stack n = some s' ∧
      s'.told = if n = c.toNat - m then [(.recvEffect, 0, c)] else []

end Oneway

namespace TcSocket

/-- A socket that has received `n` messages. `asked` says that the manager waits. -/
structure Takes (c l : BitVec 32) (n : ℕ) (asked : Bool) (s : TcSocket) : Prop where
  request : s.request_ = .recv
  recvcnt : s.recvcnt_ = c
  recvlen : s.recvlen_ = l
  recvdcnt : s.recvdcnt_ = BitVec.ofNat 32 n
  recvdlen : s.recvdlen_ = BitVec.ofNat 64 (n * l.toNat)
  effectreq : s.effectreq_ = asked

variable {c l : BitVec 32} {n : ℕ} {asked : Bool} {s : TcSocket}

theorem Takes.countReceived (takes : Takes c l n asked s) {buf : List Octet}
    (whole : buf.length = l.toNat) :
    Takes c l (n + 1) asked ({ s with timer_ := false }.countReceived buf) where
  request := takes.request
  recvcnt := takes.recvcnt
  recvlen := takes.recvlen
  recvdcnt := by
    simp only [TcSocket.countReceived, takes.recvdcnt, BitVec.ofNat_add]
    rfl
  recvdlen := by
    simp only [TcSocket.countReceived, takes.recvdlen, whole, Nat.succ_mul, BitVec.ofNat_add]
  effectreq := takes.effectreq

/-- What is told of an answer behind `n` messages. -/
def answer (n : ℕ) : ERequest × BitVec 32 × BitVec 32 := (.recvEffect, 0, BitVec.ofNat 32 n)

theorem Takes.postReceive (takes : Takes c l n asked s) (small : n * l.toNat < 2 ^ 64)
    (stack : ℕ → Octet) (stream : List Octet) :
    let now := asked = true ∧ (c * l).toNat = n * l.toNat
    Takes c l n (asked && !decide now) (s.postReceive stack .sent) ∧
      Oneway.told ⟨s.postReceive stack .sent, stream⟩ =
        Oneway.told ⟨s, stream⟩ ++ if now then [answer n] else [] := by
  intro now
  have full : s.full = true ↔ (c * l).toNat = n * l.toNat := by
    have full := TcSocket.full_iff takes.recvdlen small
    rw [takes.recvcnt, takes.recvlen] at full
    exact full
  have only : s.postReceive stack .sent = if s.full then s.complete else s := by
    by_cases total : s.full = true
    · by_cases waits : s.effectreq_ = true
      · simp only [TcSocket.postReceive, complete, takes.request, total, waits, if_true, report,
          ite_self]
      · simp only [TcSocket.postReceive, complete, takes.request, total, waits, if_false,
          Bool.false_eq_true, ite_self]
    · simp only [TcSocket.postReceive, takes.request, if_neg total, ite_self]
  rw [only]
  by_cases total : s.full = true
  · rw [if_pos total]
    have total' := full.mp total
    cases asked with
    | true =>
        have yes : now := ⟨rfl, total'⟩
        rw [if_pos yes, decide_eq_true yes]
        simp only [complete, takes.request, takes.effectreq, if_true]
        refine ⟨⟨takes.request, takes.recvcnt, takes.recvlen, takes.recvdcnt, takes.recvdlen,
          rfl⟩, ?_⟩
        simp only [Oneway.told, report, List.map_append, List.map_cons, List.map_nil, counted,
          if_true, takes.recvdcnt, answer]
    | false =>
        have no : ¬ now := fun yes => Bool.false_ne_true yes.1
        rw [if_neg no, List.append_nil]
        simp only [complete, takes.request, takes.effectreq, Bool.false_eq_true, if_false]
        exact ⟨takes, trivial⟩
  · have no : ¬ now := fun yes => total (full.mpr yes.2)
    rw [if_neg total, if_neg no, decide_eq_false no, Bool.not_false, Bool.and_true,
      List.append_nil]
    exact ⟨takes, rfl⟩

theorem setWidth_sub {w i : ℕ} (x y : BitVec w) (le : i ≤ w) :
    (x - y).setWidth i = x.setWidth i - y.setWidth i := by
  rw [eq_comm, BitVec.sub_eq_iff_eq_add, ← BitVec.setWidth_add _ _ le, BitVec.sub_add_cancel]

/-- The answer comes at once when what is left is a multiple of `2 ^ 32` octets. -/
theorem Takes.recvEffectIndication (takes : Takes c l n asked s) (stream : List Octet) :
    let now := c * l = BitVec.ofNat 32 (n * l.toNat)
    Takes c l n (!decide now) s.recvEffectIndication ∧
      Oneway.told (Oneway.ask ⟨s, stream⟩) =
        Oneway.told ⟨s, stream⟩ ++ if now then [answer n] else [] := by
  intro now
  have diff : ((s.recvcnt_ * s.recvlen_).setWidth 64 - s.recvdlen_).setWidth 32 =
      c * l - BitVec.ofNat 32 (n * l.toNat) := by
    rw [takes.recvcnt, takes.recvlen, takes.recvdlen, setWidth_sub _ _ (by decide)]
    rw [BitVec.setWidth_setWidth_of_le _ (by decide), BitVec.setWidth_eq,
      BitVec.setWidth_ofNat_of_le (by decide)]
  by_cases yes : now
  · have zero : c * l - BitVec.ofNat 32 (n * l.toNat) = 0 := by
      rw [← yes]
      exact BitVec.sub_self _
    simp only [TcSocket.recvEffectIndication, Oneway.ask, effectAction, diff, zero, ne_eq,
      not_true_eq_false, if_false, decide_eq_true yes, if_pos yes]
    refine ⟨⟨takes.request, takes.recvcnt, takes.recvlen, takes.recvdcnt, takes.recvdlen, rfl⟩, ?_⟩
    simp only [Oneway.told, report, List.map_append, List.map_cons, List.map_nil, counted,
      if_true, takes.recvdcnt, answer]
  · have rest : c * l - BitVec.ofNat 32 (n * l.toNat) ≠ 0 := by
      intro zero
      exact yes ((BitVec.sub_eq_iff_eq_add.mp zero).trans (BitVec.zero_add _))
    simp only [TcSocket.recvEffectIndication, Oneway.ask, effectAction, diff, ne_eq, rest,
      not_false_eq_true, if_true, decide_eq_false yes, if_neg yes, List.append_nil]
    exact ⟨⟨takes.request, takes.recvcnt, takes.recvlen, takes.recvdcnt, takes.recvdlen, rfl⟩, rfl⟩

end TcSocket

namespace Oneway

open TcSocket

variable {c l : BitVec 32} {m n : ℕ} {asked : Bool} {s s' : Oneway} {stack : ℕ → Octet}

/-- What is told by `n` reads behind `m` messages. -/
@[grind =]
def heard (c l : BitVec 32) (m : ℕ) (asked : Bool) : ℕ → List (ERequest × BitVec 32 × BitVec 32)
  | 0 => []
  | n + 1 =>
      let before := heard c l m asked n
      before ++ if (asked && before.isEmpty) = true ∧ (c * l).toNat = (m + n + 1) * l.toNat then
        [answer (m + n + 1)] else []

theorem small (length : l.toNat ≤ 65535) (inside : n ≤ c.toNat) : n * l.toNat < 2 ^ 64 := by
  have bound := c.isLt
  calc n * l.toNat ≤ 2 ^ 32 * 65535 := Nat.mul_le_mul (by omega) length
    _ < 2 ^ 64 := by decide

theorem reads_takes (stack : ℕ → Octet) (takes : Takes c l m asked s.receiver) (low : 1 ≤ l.toNat)
    (length : l.toNat ≤ 65535) (product : c * l ≠ 0)
    (all : s.stream.length = (c.toNat - m) * l.toNat) (inside : n ≤ c.toNat - m) :
    ∃ s', s.reads stack n = some s' ∧
      Takes c l (m + n) (asked && (heard c l m asked n).isEmpty) s'.receiver ∧
      s'.stream.length = (c.toNat - m - n) * l.toNat ∧ s'.told = s.told ++ heard c l m asked n := by
  induction n with
  | zero =>
      refine ⟨s, rfl, ?_, all, (List.append_nil _).symm⟩
      rw [heard, List.isEmpty_nil, Bool.and_true]
      exact takes
  | succ n ih =>
      obtain ⟨s₁, run, takes₁, rest, told₁⟩ := ih (by omega)
      have left : c.toNat - m - n = c.toNat - m - (n + 1) + 1 := by omega
      have whole : l.toNat ≤ s₁.stream.length := by
        rw [rest, left, Nat.succ_mul]
        exact Nat.le_add_left _ _
      have product₁ : s₁.receiver.recvcnt_ * s₁.receiver.recvlen_ ≠ 0 := by
        rw [takes₁.recvcnt, takes₁.recvlen]
        exact product
      have len : s₁.receiver.recvlen_.toNat = l.toNat := congrArg BitVec.toNat takes₁.recvlen
      have received := receive_eq len low whole product₁ stack
      have bound : (m + n + 1) * l.toNat < 2 ^ 64 :=
        small length (show m + n + 1 ≤ c.toNat by omega)
      obtain ⟨takes', told'⟩ := (takes₁.countReceived (List.length_take_of_le whole)).postReceive
        bound stack (s₁.stream.drop l.toNat)
      refine ⟨⟨_, _⟩, ?_, ?_, ?_, told'.trans ?_⟩
      · rw [reads, run, Option.bind_some, read, received]
        rfl
      · rw [heard]
        by_cases now : (asked && (heard c l m asked n).isEmpty) = true ∧
            (c * l).toNat = (m + n + 1) * l.toNat
        · rw [decide_eq_true now, Bool.not_true, Bool.and_false] at takes'
          have heard' : (heard c l m asked n ++ [answer (m + n + 1)]).isEmpty = false := by
            cases heard c l m asked n <;> rfl
          rw [if_pos now, heard', Bool.and_false]
          exact takes'
        · rw [decide_eq_false now, Bool.not_false, Bool.and_true] at takes'
          rw [if_neg now, List.append_nil]
          exact takes'
      · rw [List.length_drop, rest, left, Nat.succ_mul, Nat.add_sub_cancel]
      · rw [heard, ← List.append_assoc, ← told₁]
        rfl

theorem heard_unasked : heard c l m false n = [] := by
  induction n with
  | zero => rfl
  | succ n ih =>
      rw [heard, ih]
      rfl

theorem mem_heard {x : ERequest × BitVec 32 × BitVec 32} (mem : x ∈ heard c l m asked n) :
    ∃ j ≤ m + n, (c * l).toNat = j * l.toNat ∧ x = answer j := by
  induction n with
  | zero => cases mem
  | succ n ih =>
      rw [heard, List.mem_append] at mem
      rcases mem with before | now
      · obtain ⟨j, le, total, rfl⟩ := ih before
        exact ⟨j, Nat.le_succ_of_le le, total, rfl⟩
      · by_cases hit : (asked && (heard c l m asked n).isEmpty) = true ∧
            (c * l).toNat = (m + n + 1) * l.toNat
        · rw [if_pos hit, List.mem_singleton] at now
          exact ⟨m + n + 1, Nat.le_refl _, hit.2, now⟩
        · rw [if_neg hit] at now
          cases now

theorem heard_small (low : 1 ≤ l.toNat) (total : (c * l).toNat = c.toNat * l.toNat)
    (more : m < c.toNat) (inside : n ≤ c.toNat - m) :
    heard c l m true n = if n = c.toNat - m then [(.recvEffect, 0, c)] else [] := by
  induction n with
  | zero => rw [if_neg (by omega), heard]
  | succ n ih =>
      rw [heard, ih (by omega), if_neg (by omega), List.nil_append, List.isEmpty_nil,
        Bool.and_true, total]
      by_cases last : n + 1 = c.toNat - m
      · have all : m + n + 1 = c.toNat := by omega
        rw [if_pos last, all, if_pos ⟨rfl, rfl⟩, answer, BitVec.ofNat_toNat, BitVec.setWidth_eq]
      · rw [if_neg last, if_neg]
        intro now
        exact last (by have same := Nat.eq_of_mul_eq_mul_right low now.2; omega)

/-- Without octets to receive by the product, nothing is ever read. -/
theorem reads_nothing (takes : Takes c l 0 false s.receiver) (product : c * l = 0)
    (run : s.reads stack n = some s') : Takes c l 0 false s'.receiver ∧ s'.told = s.told := by
  induction n generalizing s' with
  | zero =>
      cases run
      exact ⟨takes, rfl⟩
  | succ n ih =>
      rw [reads] at run
      obtain ⟨s₁, run₁, read₁⟩ := Option.bind_eq_some_iff.mp run
      obtain ⟨takes₁, told₁⟩ := ih run₁
      obtain ⟨⟨receiver, stream⟩, received, rfl⟩ := Option.map_eq_some_iff.mp read₁
      have idle : s₁.receiver.reads = false := by
        rw [TcSocket.reads, takes₁.recvcnt, takes₁.recvlen, product]
        rfl
      have idle' : ({ s₁.receiver with timer_ := false } : TcSocket).reads = false := idle
      by_cases empty : s₁.stream = []
      · rw [TcSocket.receive, if_pos empty] at received
        cases received
      · simp only [TcSocket.receive, if_neg empty, idle, Bool.false_eq_true, if_false,
          receivePacket, idle', Option.map_some, Option.some.injEq, Prod.mk.injEq] at received
        obtain ⟨rfl, rfl⟩ := received
        have still : Takes c l 0 false { s₁.receiver with timer_ := false } :=
          ⟨takes₁.request, takes₁.recvcnt, takes₁.recvlen, takes₁.recvdcnt, takes₁.recvdlen,
            takes₁.effectreq⟩
        obtain ⟨takes', told'⟩ := still.postReceive (by rw [Nat.zero_mul]; decide) stack s₁.stream
        have no : ¬ (false = true ∧ (c * l).toNat = 0 * l.toNat) :=
          fun yes => Bool.false_ne_true yes.1
        rw [if_neg no, List.append_nil] at told'
        exact ⟨takes', told'.trans told₁⟩

theorem takes_start (old : TcSocket) (c l : BitVec 32) (data : List Octet) :
    Takes c l 0 false (start old c l data).receiver :=
  ⟨rfl, rfl, rfl, rfl, by rw [Nat.zero_mul]; rfl, rfl⟩

theorem answer_all (c : BitVec 32) : answer c.toNat = (.recvEffect, 0, c) := by
  rw [answer, BitVec.ofNat_toNat, BitVec.setWidth_eq]

theorem eq_of_answer {j : ℕ} (inside : j ≤ c.toNat)
    (same : ((.recvEffect, 0, c) : ERequest × BitVec 32 × BitVec 32) = answer j) :
    c.toNat = j := by
  have bound := c.isLt
  have number := congrArg (fun x => x.2.2.toNat) same
  simp only [answer, BitVec.toNat_ofNat] at number
  rw [number, Nat.mod_eq_of_lt (by omega)]

/-- The manager is answered at once although nothing was received. -/
theorem not_answers_nothing (old : TcSocket) {data : List Octet} (some_ : 1 ≤ c.toNat)
    (product : c * l = 0) : ¬ Answers stack c m (start old c l data) := by
  intro answers
  obtain ⟨s, run, behind⟩ := answers.behind
  obtain ⟨takes, told⟩ := reads_nothing (takes_start old c l data) product run
  obtain ⟨-, told'⟩ := takes.recvEffectIndication s.stream
  have now : c * l = BitVec.ofNat 32 (0 * l.toNat) := by
    rw [product, Nat.zero_mul]
    rfl
  obtain ⟨s', run', told''⟩ := behind 0 (Nat.zero_le _)
  obtain rfl : s.ask = s' := Option.some.inj run'
  have first : s.ask.told = [answer 0] := by
    rw [if_pos now] at told'
    exact told'.trans (congrArg (· ++ [answer 0]) told)
  rw [first] at told''
  by_cases last : 0 = c.toNat - m
  · rw [if_pos last] at told''
    have same := eq_of_answer (Nat.zero_le _) (List.cons.inj told'').1.symm
    omega
  · rw [if_neg last] at told''
    cases told''

theorem told_ask {s : Oneway} {n : ℕ} (takes : Takes c l n false s.receiver) (quiet : s.told = []) :
    s.ask.told = if c * l = BitVec.ofNat 32 (n * l.toNat) then [answer n] else [] := by
  obtain ⟨-, told⟩ := takes.recvEffectIndication s.stream
  exact told.trans (by rw [show Oneway.told ⟨s.receiver, s.stream⟩ = [] from quiet, List.nil_append])

/-- The manager is answered as it should if and only if the number of octets is one of 32 bits, or
    it asks behind the last message and that number is not a multiple of `2 ^ 32`. -/
theorem answers_iff (old : TcSocket) (c l : BitVec 32) (m : ℕ) (data : List Octet)
    (stack : ℕ → Octet) (some_ : 1 ≤ c) (low : 1 ≤ l) (length : l ≤ 65535)
    (inside : m ≤ c.toNat) (all : data.length = c.toNat * l.toNat) :
    Answers stack c m (start old c l data) ↔
      c.toNat * l.toNat < 2 ^ 32 ∨ (m = c.toNat ∧ c * l ≠ 0) := by
  have some' : 1 ≤ c.toNat := some_
  have low' : 1 ≤ l.toNat := low
  have length' : l.toNat ≤ 65535 := length
  have modulo : (c * l).toNat = c.toNat * l.toNat % 2 ^ 32 := BitVec.toNat_mul c l
  by_cases product : c * l = 0
  · constructor
    · intro answers
      exact absurd answers (not_answers_nothing old some' product)
    · intro cond
      rcases cond with small | ⟨-, not⟩
      · rw [product, Nat.mod_eq_of_lt small] at modulo
        exact absurd modulo.symm (Nat.mul_pos some' low').ne'
      · exact absurd product not
  · have start_ := takes_start old c l data
    have data_ : (start old c l data).stream.length = (c.toNat - 0) * l.toNat := all
    -- What comes before the question.
    have upto (n : ℕ) (le : n ≤ m) : ∃ s, (start old c l data).reads stack n = some s ∧
        Takes c l n false s.receiver ∧ s.stream.length = (c.toNat - n) * l.toNat ∧ s.told = [] := by
      obtain ⟨s, run, takes, rest, told⟩ := reads_takes stack start_ low' length' product
        data_ (show n ≤ c.toNat - 0 by omega)
      rw [heard_unasked] at told
      rw [Nat.zero_add] at takes
      exact ⟨s, run, takes, rest, told⟩
    obtain ⟨s, run, takes, rest, told⟩ := upto m (Nat.le_refl m)
    have asked := told_ask takes told
    -- What comes after it, when it is not answered at once.
    have after (waits : ¬ c * l = BitVec.ofNat 32 (m * l.toNat)) (n : ℕ) (le : n ≤ c.toNat - m) :
        ∃ s', s.ask.reads stack n = some s' ∧ s'.told = heard c l m true n := by
      have takes' := (takes.recvEffectIndication s.stream).1
      rw [decide_eq_false waits] at takes'
      rw [if_neg waits] at asked
      obtain ⟨s', run', -, -, told'⟩ := reads_takes (s := s.ask) stack takes' low'
        length' product rest le
      rw [asked, List.nil_append] at told'
      exact ⟨s', run', told'⟩
    constructor
    · intro answers
      by_contra neither
      have more : m < c.toNat := by
        rcases Nat.lt_or_eq_of_le inside with lt | eq
        · exact lt
        · exact absurd (.inr ⟨eq, product⟩) neither
      obtain ⟨s₁, run₁, behind⟩ := answers.behind
      obtain rfl : s = s₁ := Option.some.inj (run.symm.trans run₁)
      obtain ⟨s₂, run₂, told₂⟩ := behind 0 (Nat.zero_le _)
      obtain rfl : s.ask = s₂ := Option.some.inj run₂
      rw [if_neg (show ¬ 0 = c.toNat - m by omega), asked] at told₂
      have waits : ¬ c * l = BitVec.ofNat 32 (m * l.toNat) := by
        intro now
        rw [if_pos now] at told₂
        cases told₂
      obtain ⟨s₃, run₃, told₃⟩ := behind (c.toNat - m) (Nat.le_refl _)
      obtain ⟨s₄, run₄, told₄⟩ := after waits (c.toNat - m) (Nat.le_refl _)
      obtain rfl : s₃ = s₄ := Option.some.inj (run₃.symm.trans run₄)
      rw [if_pos rfl, told₄] at told₃
      obtain ⟨j, le, total, same⟩ := mem_heard (told₃ ▸ List.mem_singleton_self _)
      have count := eq_of_answer (by omega) same
      apply neither
      left
      rw [count, ← total]
      exact (c * l).isLt
    · intro cond
      refine ⟨fun n le => ?_, s, run, fun n le => ?_⟩
      · obtain ⟨s, run, -, -, told⟩ := upto n le
        exact ⟨s, run, told⟩
      · rcases Nat.lt_or_eq_of_le inside with more | rfl
        · have small : c.toNat * l.toNat < 2 ^ 32 := by
            rcases cond with small | ⟨last, -⟩
            · exact small
            · omega
          have total : (c * l).toNat = c.toNat * l.toNat := by
            rw [modulo, Nat.mod_eq_of_lt small]
          have waits : ¬ c * l = BitVec.ofNat 32 (m * l.toNat) := by
            intro now
            have less : m * l.toNat < c.toNat * l.toNat := Nat.mul_lt_mul_of_pos_right more low'
            have number := congrArg BitVec.toNat now
            rw [total, BitVec.toNat_ofNat, Nat.mod_eq_of_lt (by omega)] at number
            omega
          obtain ⟨s', run', told'⟩ := after waits n le
          exact ⟨s', run', told'.trans (heard_small low' total more le)⟩
        · have now : c * l = BitVec.ofNat 32 (c.toNat * l.toNat) := by
            rw [BitVec.ofNat_mul, BitVec.ofNat_toNat, BitVec.ofNat_toNat, BitVec.setWidth_eq,
              BitVec.setWidth_eq]
          obtain rfl : n = 0 := by omega
          rw [if_pos now, answer_all] at asked
          exact ⟨s.ask, rfl, asked.trans (if_pos (Nat.sub_self _).symm).symm⟩

theorem answers_between :
    Answers 0 2 1 (start (.new .listen) 2 3 [0, 1, 2, 3, 4, 5]) :=
  (answers_iff (.new .listen) 2 3 1 [0, 1, 2, 3, 4, 5] 0 (by decide) (by decide) (by decide)
    (by decide) (by decide)).mpr (.inl (by decide))

/-- Of 131072 messages of 32768 octets, none is received before the answer. -/
theorem not_answers : ¬ ∀ (c l : BitVec 32) (m : ℕ) (data : List Octet), 1 ≤ c → 1 ≤ l →
    l ≤ 65535 → m ≤ c.toNat → data.length = c.toNat * l.toNat →
    Answers 0 c m (start (.new .listen) c l data) := by
  intro always
  have answers := always 131072 32768 0
    (List.replicate ((131072 : BitVec 32).toNat * (32768 : BitVec 32).toNat) 0) (by decide)
    (by decide) (by decide) (Nat.zero_le _) List.length_replicate
  exact not_answers_nothing (.new .listen) (by decide) (by decide) answers

end Oneway

end Tahi.Tg
