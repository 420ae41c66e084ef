import Tahi.General.TracedOctets

/-! # Transfers over a stream

`recvAll` and `sendAll` call `read` and `write` until a whole length has been moved. A call that
fails either was disturbed, by a signal or for want of buffers, or has found the connection
broken, and the two loops take the one for the other.
-/

namespace Tahi.Cm.CmStream

open BitField TracedMemory

/-! ## The calls -/

inductive Errno where
  | EINTR
  | ENOBUFS
  | other (number : Nat)
  deriving DecidableEq

/-- What a call of `read` or `write` does. -/
inductive Outcome where
  /-- There are `more + 1` octets to be read, or there is room for as many. -/
  | count (more : Nat)
  | endOfFile
  | failed (errno : Errno)
  deriving DecidableEq

def retryError (errno : Errno) : Bool := errno == .EINTR || errno == .ENOBUFS

/-- A connection, with the memory of the program at its end. -/
structure Connection where
  memory : Memory
  /-- what the peer sends, and how many octets of it have been read -/
  incoming : Nat → Octet
  taken : Nat
  outgoing : List Octet

/-- `l` octets are read into the memory at `p`. -/
def Connection.receive (p : Int) (l : Nat) (c : Connection) : Connection :=
  { c with
    memory := lay c.memory p ((List.range l).map fun i => c.incoming (c.taken + i))
    taken := c.taken + l }

/-- `l` octets are written from the memory at `p`. -/
def Connection.send (p : Int) (l : Nat) (c : Connection) : Connection :=
  { c with outgoing := c.outgoing ++ (List.range l).map fun i : Nat => c.memory (p + i) }

/-! ## The loops -/

/-- The returned value, if the loop has come to its end, and the outcomes that no call has come
    to. -/
structure Ended (σ : Type) where
  value : Option Int
  state : σ
  left : List Outcome

/-- The loop with `rem` octets to go. -/
def transferAll {σ : Type} (transfer : Int → Nat → σ → σ) (len : Int) :
    List Outcome → Int → Nat → σ → Ended σ
  | outcomes, _, 0, s => ⟨some len, s, outcomes⟩
  | [], _, _ + 1, s => ⟨none, s, []⟩
  | .count more :: outcomes, p, rem + 1, s =>
      let l := min (more + 1) (rem + 1)
      transferAll transfer len outcomes (p + l) (rem + 1 - l) (transfer p l s)
  | .endOfFile :: outcomes, _, _ + 1, s => ⟨some (-1), s, outcomes⟩
  | .failed errno :: outcomes, p, rem + 1, s =>
      -- `l=0`, and the octets are asked for once more
      if !retryError errno then transferAll transfer len outcomes p (rem + 1) s
      else ⟨some (-1), s, outcomes⟩

def recvAll (p : Int) (len : Int) (outcomes : List Outcome) (c : Connection) : Ended Connection :=
  transferAll Connection.receive len outcomes p len.toNat c

def sendAll (p : Int) (len : Int) (outcomes : List Outcome) (c : Connection) : Ended Connection :=
  transferAll Connection.send len outcomes p len.toNat c

/-! ## What they are for -/

/-- How a transfer of `len` octets goes on when `t` of them have been moved: the returned value,
    the octets that have been moved in the end and the outcomes that are left. -/
inductive Meant (len : Int) : Nat → List Outcome → Option Int → Nat → List Outcome → Prop where
  | whole {t : Nat} {outcomes : List Outcome} (all : len.toNat ≤ t) :
      Meant len t outcomes (some len) t outcomes
  | waiting {t : Nat} (some_ : t < len.toNat) : Meant len t [] none t []
  | count {t u more : Nat} {outcomes left : List Outcome} {value : Option Int}
      (some_ : t < len.toNat)
      (rest : Meant len (t + min (more + 1) (len.toNat - t)) outcomes value u left) :
      Meant len t (.count more :: outcomes) value u left
  | interrupted {t u : Nat} {errno : Errno} {outcomes left : List Outcome} {value : Option Int}
      (some_ : t < len.toNat) (retry : retryError errno = true)
      (rest : Meant len t outcomes value u left) :
      Meant len t (.failed errno :: outcomes) value u left
  | endOfFile {t : Nat} {outcomes : List Outcome} (some_ : t < len.toNat) :
      Meant len t (.endOfFile :: outcomes) (some (-1)) t outcomes
  | failed {t : Nat} {errno : Errno} {outcomes : List Outcome} (some_ : t < len.toNat)
      (broken : retryError errno = false) :
      Meant len t (.failed errno :: outcomes) (some (-1)) t outcomes

/-- The loop has ended, or waits, as it should, and what has been moved are the octets from `p` on
    as one transfer moves them. -/
def Ended.AsMeant {σ : Type} (ended : Ended σ) (transfer : Int → Nat → σ → σ) (p : Int)
    (len : Int) (outcomes : List Outcome) (s : σ) : Prop :=
  ∃ t, Meant len 0 outcomes ended.value t ended.left ∧ ended.state = transfer p t s

/-- As many octets as a call can move. -/
def Outcome.octets : Outcome → Nat
  | .count more => more + 1
  | _ => 0

/-- No call fails before `rem` octets have been moved or the end of the file has been found. -/
def Undisturbed (rem : Nat) (outcomes : List Outcome) : Prop :=
  ∀ front errno back, outcomes = front ++ .failed errno :: back →
    .endOfFile ∈ front ∨ rem ≤ (front.map Outcome.octets).sum

/-! ## Transfers in parts -/

/-- Two transfers, one behind the other, are one. -/
structure Consecutive {σ : Type} (transfer : Int → Nat → σ → σ) : Prop where
  none_ (p : Int) (s : σ) : transfer p 0 s = s
  append (p : Int) (l k : Nat) (s : σ) :
    transfer (p + l) k (transfer p l s) = transfer p (l + k) s

theorem receive_consecutive : Consecutive Connection.receive where
  none_ p c := by simp [Connection.receive]
  append p l k c := by
    have row : (List.range (l + k)).map (fun i => c.incoming (c.taken + i)) =
        (List.range l).map (fun i => c.incoming (c.taken + i)) ++
          (List.range k).map fun i => c.incoming (c.taken + l + i) := by
      simp only [List.range_add, List.map_append, List.map_map, Function.comp_def, Nat.add_assoc]
    have laid := lay_append c.memory p ((List.range l).map fun i => c.incoming (c.taken + i))
      ((List.range k).map fun i => c.incoming (c.taken + l + i))
    rw [List.length_map, List.length_range] at laid
    simp only [Connection.receive, row, laid]
    rw [Nat.add_assoc]

theorem send_consecutive : Consecutive Connection.send where
  none_ p c := by simp [Connection.send]
  append p l k c := by
    simp only [Connection.send, List.range_add, List.map_append, List.map_map, Function.comp_def,
      Int.natCast_add, Int.add_assoc, List.append_assoc]

/-! ## What disturbs a transfer -/

theorem undisturbed_zero (outcomes : List Outcome) : Undisturbed 0 outcomes :=
  fun _ _ _ _ => .inr (Nat.zero_le _)

theorem undisturbed_nil (rem : Nat) : Undisturbed rem [] := by
  intro front errno back split_
  exact absurd split_.symm (List.append_ne_nil_of_right_ne_nil _ (List.cons_ne_nil _ _))

theorem undisturbed_endOfFile (rem : Nat) (outcomes : List Outcome) :
    Undisturbed rem (.endOfFile :: outcomes) := by
  intro front errno back split_
  cases front with
  | nil => cases split_
  | cons o front =>
      cases split_
      exact .inl List.mem_cons_self

theorem not_undisturbed_failed (rem : Nat) (errno : Errno) (outcomes : List Outcome) :
    ¬ Undisturbed (rem + 1) (.failed errno :: outcomes) := by
  intro undisturbed
  cases undisturbed [] errno outcomes rfl with
  | inl found => cases found
  | inr moved => cases moved

theorem undisturbed_count (rem more : Nat) (outcomes : List Outcome) :
    Undisturbed rem (.count more :: outcomes) ↔
      Undisturbed (rem - min (more + 1) rem) outcomes := by
  constructor
  · intro undisturbed front errno back split_
    have before := undisturbed (.count more :: front) errno back (by rw [split_]; rfl)
    simp only [List.mem_cons, reduceCtorEq, false_or, List.map_cons, List.sum_cons,
      Outcome.octets] at before
    exact before.imp_right fun moved => by omega
  · intro undisturbed front errno back split_
    cases front with
    | nil => cases split_
    | cons o front =>
        cases split_
        simp only [List.mem_cons, reduceCtorEq, false_or, List.map_cons, List.sum_cons,
          Outcome.octets]
        exact (undisturbed front errno back rfl).imp_right fun moved => by omega

/-! ## The loops do as they should when nothing disturbs them -/

section Loop

variable {σ : Type} {transfer : Int → Nat → σ → σ} {len : Int}

theorem Meant.left_le {t u : Nat} {outcomes left : List Outcome} {value : Option Int}
    (meant : Meant len t outcomes value u left) : left.length ≤ outcomes.length := by
  induction meant with
  | whole | waiting => exact Nat.le_refl _
  | endOfFile | failed => exact Nat.le_succ _
  | count _ _ ih | interrupted _ _ _ ih => exact Nat.le_succ_of_le ih

theorem Meant.of_count {t u more : Nat} {outcomes left : List Outcome} {value : Option Int}
    (meant : Meant len t (.count more :: outcomes) value u left) (some_ : t < len.toNat) :
    Meant len (t + min (more + 1) (len.toNat - t)) outcomes value u left := by
  cases meant with
  | whole all => omega
  | count _ rest => exact rest

theorem Meant.of_failed {t u : Nat} {errno : Errno} {outcomes left : List Outcome}
    {value : Option Int} (meant : Meant len t (.failed errno :: outcomes) value u left)
    (some_ : t < len.toNat) :
    (retryError errno = true ∧ Meant len t outcomes value u left) ∨
      (retryError errno = false ∧ value = some (-1) ∧ left = outcomes) := by
  cases meant with
  | whole all => omega
  | interrupted _ retry rest => exact .inl ⟨retry, rest⟩
  | failed _ broken => exact .inr ⟨broken, rfl, rfl⟩

/-- A transfer that is not over does not end without using up an outcome. -/
theorem Meant.not_idle {t u : Nat} {outcomes : List Outcome} {value : Int}
    (meant : Meant len t outcomes (some value) u outcomes) : len.toNat ≤ t := by
  by_contra more
  rw [Nat.not_le] at more
  cases outcomes with
  | nil =>
      cases meant with
      | whole all => omega
  | cons o outcomes =>
      cases o with
      | count n => exact absurd (meant.of_count more).left_le (Nat.not_succ_le_self _)
      | endOfFile =>
          have shorter : ∀ {v : Option Int} {left : List Outcome},
              Meant len t (.endOfFile :: outcomes) v u left → left = outcomes := by
            intro v left m
            cases m with
            | whole all => omega
            | endOfFile => rfl
          exact absurd (shorter meant) (List.cons_ne_self _ _)
      | failed errno =>
          cases meant.of_failed more with
          | inl again => exact absurd again.2.left_le (Nat.not_succ_le_self _)
          | inr ended => exact absurd ended.2.2 (List.cons_ne_self _ _)

theorem transferAll_left_le (outcomes : List Outcome) (p : Int) (rem : Nat) (s : σ) :
    (transferAll transfer len outcomes p rem s).left.length ≤ outcomes.length := by
  induction outcomes generalizing p rem s with
  | nil => cases rem <;> exact Nat.le_refl _
  | cons o outcomes ih =>
      cases rem with
      | zero => exact Nat.le_refl _
      | succ rem =>
          cases o with
          | count more => exact Nat.le_succ_of_le (ih _ _ _)
          | endOfFile => exact Nat.le_succ _
          | failed errno =>
              rw [transferAll]
              split
              · exact Nat.le_succ_of_le (ih _ _ _)
              · exact Nat.le_succ _

/-- Unless it waits, a loop that has octets to move uses up an outcome. -/
theorem transferAll_used (outcomes : List Outcome) (p : Int) (rem : Nat) (s : σ) :
    (transferAll transfer len outcomes p (rem + 1) s).value = none ∨
      (transferAll transfer len outcomes p (rem + 1) s).left.length < outcomes.length := by
  cases outcomes with
  | nil => exact .inl rfl
  | cons o outcomes =>
      right
      cases o with
      | count more =>
          rw [transferAll]
          exact Nat.lt_succ_of_le (transferAll_left_le _ _ _ _)
      | endOfFile => exact Nat.lt_succ_self _
      | failed errno =>
          rw [transferAll]
          split
          · exact Nat.lt_succ_of_le (transferAll_left_le _ _ _ _)
          · exact Nat.lt_succ_self _

/-- By induction on the outcomes: a loop that has moved `t` octets and is not disturbed goes on as
    it should. -/
theorem transferAll_meant (consecutive : Consecutive transfer) {rem t : Nat}
    {outcomes : List Outcome} (undisturbed : Undisturbed rem outcomes) (p : Int) (s : σ)
    (togo : rem = len.toNat - t) :
    ∃ u, Meant len t outcomes (transferAll transfer len outcomes p rem s).value (t + u)
        (transferAll transfer len outcomes p rem s).left ∧
      (transferAll transfer len outcomes p rem s).state = transfer p u s := by
  induction outcomes generalizing rem t p s with
  | nil =>
      cases rem with
      | zero => exact ⟨0, .whole (by omega), (consecutive.none_ p s).symm⟩
      | succ rem => exact ⟨0, .waiting (by omega), (consecutive.none_ p s).symm⟩
  | cons o outcomes ih =>
      cases rem with
      | zero => exact ⟨0, .whole (by omega), (consecutive.none_ p s).symm⟩
      | succ rem =>
          have some_ : t < len.toNat := by omega
          cases o with
          | count more =>
              obtain ⟨l, moved⟩ : ∃ l, l = min (more + 1) (rem + 1) := ⟨_, rfl⟩
              have after := (undisturbed_count _ _ _).mp undisturbed
              rw [← moved] at after
              obtain ⟨u, rest, state⟩ := ih after (p + l) (transfer p l s)
                (show rem + 1 - l = len.toNat - (t + l) by omega)
              refine ⟨l + u, .count some_ ?_, ?_⟩
              · rw [← togo, ← moved, ← Nat.add_assoc]
                simpa only [transferAll, ← moved] using rest
              · rw [transferAll, ← moved, state, consecutive.append]
          | endOfFile => exact ⟨0, .endOfFile some_, (consecutive.none_ p s).symm⟩
          | failed errno => exact absurd undisturbed (not_undisturbed_failed _ _ _)

/-- A loop that goes on as it should has not been disturbed. A call that fails is either repeated
    when it should not be, or it is the last one when it should not be. -/
theorem undisturbed_of_meant {rem t u : Nat} {outcomes : List Outcome} {p : Int} {s : σ}
    (togo : rem = len.toNat - t)
    (meant : Meant len t outcomes (transferAll transfer len outcomes p rem s).value u
      (transferAll transfer len outcomes p rem s).left) : Undisturbed rem outcomes := by
  induction outcomes generalizing rem t p s with
  | nil => exact undisturbed_nil rem
  | cons o outcomes ih =>
      cases rem with
      | zero => exact undisturbed_zero _
      | succ rem =>
          cases o with
          | count more =>
              rw [undisturbed_count]
              have rest := meant.of_count (by omega)
              rw [← togo] at rest
              exact ih (by omega) rest
          | endOfFile => exact undisturbed_endOfFile _ _
          | failed errno =>
              exfalso
              obtain ⟨retry, rest⟩ | ⟨broken, value, left⟩ := meant.of_failed (by omega)
              · simp only [transferAll, retry, Bool.not_true, Bool.false_eq_true, if_false] at rest
                have over_ := rest.not_idle
                omega
              · simp only [transferAll, broken, Bool.not_false, if_true] at value left
                cases transferAll_used outcomes p rem s with
                | inl waits => cases waits.symm.trans value
                | inr used => exact absurd (congrArg List.length left) used.ne

end Loop

/-! ## The two loops -/

/-- Either loop moves the octets, goes on and stops as it should just when no call fails before
    all octets have been moved or the end of the file has been found. -/
theorem transfers_asMeant_iff (p : Int) (len : Int) (outcomes : List Outcome) (c : Connection) :
    ((recvAll p len outcomes c).AsMeant Connection.receive p len outcomes c ↔
        Undisturbed len.toNat outcomes) ∧
      ((sendAll p len outcomes c).AsMeant Connection.send p len outcomes c ↔
        Undisturbed len.toNat outcomes) := by
  have loop {transfer : Int → Nat → Connection → Connection} (consecutive : Consecutive transfer) :
      (transferAll transfer len outcomes p len.toNat c).AsMeant transfer p len outcomes c ↔
        Undisturbed len.toNat outcomes := by
    constructor
    · rintro ⟨t, meant, -⟩
      exact undisturbed_of_meant (t := 0) rfl meant
    · intro undisturbed
      obtain ⟨u, meant, state⟩ := transferAll_meant (t := 0) consecutive undisturbed p c rfl
      rw [Nat.zero_add] at meant
      exact ⟨u, meant, state⟩
  exact ⟨loop receive_consecutive, loop send_consecutive⟩

/-- A signal ends the one loop, and a broken connection does not end the other. -/
theorem not_transfers_asMeant :
    ¬ (recvAll 0 2 [.failed .EINTR, .count 1] ⟨fun _ => 0, fun _ => 0, 0, []⟩).AsMeant
        Connection.receive 0 2 [.failed .EINTR, .count 1] ⟨fun _ => 0, fun _ => 0, 0, []⟩ ∧
      ¬ (sendAll 0 2 [.failed (.other 32), .count 1] ⟨fun _ => 0, fun _ => 0, 0, []⟩).AsMeant
        Connection.send 0 2 [.failed (.other 32), .count 1] ⟨fun _ => 0, fun _ => 0, 0, []⟩ := by
  constructor
  · rintro ⟨t, meant, -⟩
    exact not_undisturbed_failed 1 .EINTR [.count 1] (undisturbed_of_meant (t := 0) rfl meant)
  · rintro ⟨t, meant, -⟩
    exact not_undisturbed_failed 1 (.other 32) [.count 1]
      (undisturbed_of_meant (t := 0) rfl meant)

end Tahi.Cm.CmStream
