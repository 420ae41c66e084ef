import Mathlib
import Tahi.Pz.McDNS
import Tahi.Pz.PvNumber

/-! # The counts of a DNS message that is composed

Composing an entry counts it, in an object that all messages of a process share. The generator
writes what has been counted by then.
-/

namespace Tahi.Pz.McDNS

/-- The counters of the composing side. -/
structure CountMgr where
  generate_ : Section → UInt32

namespace CountMgr

/-- The constructor. -/
def new : CountMgr := ⟨fun _ => 0⟩

def increase_generate (m : CountMgr) (s : Section) : CountMgr :=
  ⟨Function.update m.generate_ s (m.generate_ s + 1)⟩

def get_generate (m : CountMgr) (s : Section) : UInt32 := m.generate_ s

end CountMgr

/-- What lives as long as the process. -/
structure Process where
  CountMgr_ : CountMgr
  errorCount : ℕ

namespace Process

def new : Process := ⟨.new, 0⟩

def error (p : Process) : Process := { p with errorCount := p.errorCount + 1 }

def increase_generate (p : Process) (s : Section) : Process :=
  { p with CountMgr_ := p.CountMgr_.increase_generate s }

end Process

/-- The packet that a definition is for: what its section definitions have as entries, `none` for a
    section that is not defined, and the counts, `none` for one that is automatic. -/
structure PcObject (E : Type) where
  sections : Section → Option (List E)
  counts : Section → Option UInt32

variable {E : Type}

/-- How many entries a packet has in a section. -/
def PcObject.number (pc : PcObject E) (s : Section) : ℕ := ((pc.sections s).getD []).length

namespace MmEntry

/-- Of `MmEntry_onQuestion`, `MmRR_onAnswer`, `MmRR_onAuthority` and `MmRR_onAdditional`. -/
def compose (s : Section) (p : Process) : Option E → Process × List E
  | none => (p.error, [])
  | some right => (p.increase_generate s, [right])

def composeList (s : Section) (p : Process) (pls : List E) : Process × List E :=
  if pls ≠ [] then
    pls.foldl (fun q pl =>
      let composed := compose s q.1 (some pl)
      (composed.1, q.2 ++ composed.2)) (p, [])
  else compose s p none

end MmEntry

/-- A section is composed when it is defined. -/
def composeSection (pc : PcObject E) (p : Process) (s : Section) : Process :=
  match pc.sections s with
  | some pls => (MmEntry.composeList s p pls).1
  | none => p

def sectionMembers : List Section := [.Question, .Answer, .Authority, .Additional]

def selfCompose (p : Process) (pc : PcObject E) : Process :=
  sectionMembers.foldl (composeSection pc) p

/-! ## The automatic counts -/

/-- The number that the functions for automatic counts take. -/
def autoCount (p : Process) (s : Section) : PvNumber := ⟨(p.CountMgr_.get_generate s).toInt32⟩

/-- What a number becomes in a field of 16 bits. -/
def encode16 (n : PvNumber) : UInt16 := n.value.toUInt32.toUInt16

/-- `HCGENE` of the four counts. -/
def HCGENE (p : Process) (s : Section) : UInt16 := encode16 (autoCount p s)

/-- What is expected of a field. -/
inductive Expected where
  | any
  | number (n : PvNumber)
deriving DecidableEq, Repr

def Expected.compareObject : Expected → PvNumber → Int32
  | any, _ => 0
  | number n, r => n.compareObject r

/-- Which of the evaluaters a member is made with. -/
inductive Evaluater where
  | EVALANY
  | EVALHC
deriving DecidableEq, Repr

/-- `HCEVAL` of the four counts is there, and would be called for `EVALHC`. -/
def Evaluater.evaluateValue (p : Process) (s : Section) : Evaluater → Expected
  | EVALANY => .any
  | EVALHC => .number (autoCount p s)

/-- The one that `create` makes the counts with. -/
def countEvaluater : Evaluater := .EVALANY

/-! ## Messages one after the other -/

/-- A packet definition is generated and sent, or received packets are compared with it. -/
inductive Use (E : Type) where
  | generateFrame (pc : PcObject E)
  | evaluatePrologue (pc : PcObject E)

namespace Use

def pc : Use E → PcObject E
  | generateFrame pc => pc
  | evaluatePrologue pc => pc

/-- The counts that are generated, or expected. -/
inductive Counts where
  | generated (field : Section → UInt16)
  | expected (object : Section → Expected)

/-- A message is composed, and its counts are taken at once. -/
def perform (p : Process) : Use E → Process × Counts
  | generateFrame pc =>
      let p := selfCompose p pc
      (p, .generated fun s =>
        match pc.counts s with
        | some n => encode16 ⟨n.toInt32⟩
        | none => HCGENE p s)
  | evaluatePrologue pc =>
      let p := selfCompose p pc
      (p, .expected fun s =>
        match pc.counts s with
        | some n => .number ⟨n.toInt32⟩
        | none => countEvaluater.evaluateValue p s)

/-- Whether a count shows that there are `n` entries: it is this number, or this number is the only
    one in a received message that is equal to what is expected. -/
def Counts.Shows (s : Section) (n : ℕ) : Counts → Prop
  | generated field => (field s).toNat = n
  | expected object => ∀ r : UInt16,
      (object s).compareObject ⟨r.toUInt32.toInt32⟩ = 0 ↔ r.toNat = n

end Use

/-- The process after some messages. -/
def run (uses : List (Use E)) : Process :=
  uses.foldl (fun p u => (u.perform p).1) Process.new

/-- The automatic counts of each message are those of its own entries. -/
def Counted (uses : List (Use E)) : Prop :=
  ∀ a u b, uses = a ++ u :: b → ∀ s, u.pc.counts s = none →
    (u.perform (run a)).2.Shows s (u.pc.number s)

/-! ## What is counted -/

theorem Process.increase_generate_get (p : Process) (s t : Section) :
    (p.increase_generate s).CountMgr_.get_generate t =
      p.CountMgr_.get_generate t + if t = s then 1 else 0 := by
  simp only [Process.increase_generate, CountMgr.increase_generate, CountMgr.get_generate]
  split_ifs with same
  · rw [same, Function.update_self]
  · rw [Function.update_of_ne same, UInt32.add_zero]

theorem composeList_loop (s t : Section) (pls : List E) (q : Process × List E) :
    (pls.foldl (fun q pl =>
        let composed := MmEntry.compose s q.1 (some pl)
        (composed.1, q.2 ++ composed.2)) q).1.CountMgr_.get_generate t =
      q.1.CountMgr_.get_generate t + if t = s then UInt32.ofNat pls.length else 0 := by
  induction pls generalizing q with
  | nil =>
    rw [List.foldl_nil, List.length_nil]
    split_ifs <;> exact (UInt32.add_zero _).symm
  | cons pl pls ih =>
    rw [List.foldl_cons, ih]
    simp only [MmEntry.compose]
    rw [Process.increase_generate_get, List.length_cons, UInt32.ofNat_add, UInt32.add_assoc]
    split_ifs
    · rw [UInt32.add_comm 1]
      rfl
    · rfl

theorem composeSection_get (pc : PcObject E) (p : Process) (s t : Section) :
    (composeSection pc p s).CountMgr_.get_generate t =
      p.CountMgr_.get_generate t + if t = s then UInt32.ofNat (pc.number s) else 0 := by
  rcases defined : pc.sections s with _ | pls
  · simp only [composeSection, PcObject.number, defined, Option.getD_none, List.length_nil]
    split_ifs <;> exact (UInt32.add_zero _).symm
  · simp only [composeSection, PcObject.number, defined, Option.getD_some, MmEntry.composeList]
    by_cases some : pls ≠ []
    · rw [if_pos some, composeList_loop]
    · rw [if_neg some, not_ne_iff.mp some, List.length_nil]
      split_ifs <;> exact (UInt32.add_zero _).symm

/-- Composing a message adds its entries to what has been counted. -/
theorem selfCompose_get (pc : PcObject E) (p : Process) (t : Section) :
    (selfCompose p pc).CountMgr_.get_generate t =
      p.CountMgr_.get_generate t + UInt32.ofNat (pc.number t) := by
  simp only [selfCompose, sectionMembers, List.foldl_cons, List.foldl_nil, composeSection_get]
  cases t <;> simp only [reduceCtorEq, if_true, if_false, UInt32.add_zero]

theorem perform_get (p : Process) (u : Use E) (t : Section) :
    (u.perform p).1.CountMgr_.get_generate t =
      p.CountMgr_.get_generate t + UInt32.ofNat (u.pc.number t) := by
  cases u with
  | generateFrame pc => exact selfCompose_get pc p t
  | evaluatePrologue pc => exact selfCompose_get pc p t

/-- Nothing ever starts from zero again. -/
theorem run_get (uses : List (Use E)) (t : Section) :
    (run uses).CountMgr_.get_generate t =
      UInt32.ofNat (uses.map fun u => u.pc.number t).sum := by
  induction uses using List.reverseRecOn with
  | nil => rfl
  | append_singleton uses u ih =>
    have next : run (uses ++ [u]) = (u.perform (run uses)).1 := by
      rw [run, List.foldl_append]
      rfl
    rw [next, perform_get, ih, List.map_append, List.sum_append, UInt32.ofNat_add]
    rfl

/-- The generator writes the low half of what has been counted. -/
theorem HCGENE_toNat (p : Process) (s : Section) :
    (HCGENE p s).toNat = (p.CountMgr_.get_generate s).toNat % 2 ^ 16 := by
  rw [HCGENE, encode16, autoCount, PvNumber.value, UInt32.toUInt32_toInt32, UInt32.toNat_toUInt16]

theorem remainder_iff (before n : ℕ) :
    (before + n) % 2 ^ 32 % 2 ^ 16 = n ↔ n < 2 ^ 16 ∧ 2 ^ 16 ∣ before := by
  rw [Nat.mod_mod_of_dvd _ (by decide), Nat.dvd_iff_mod_eq_zero]
  omega

/-- Anything is equal to what is expected of an automatic count. -/
theorem any_shows (pc : PcObject E) (p : Process) {s : Section} (automatic : pc.counts s = none)
    (n : ℕ) : ¬ ((Use.evaluatePrologue pc).perform p).2.Shows s n := by
  intro shows
  simp only [Use.perform, Use.Counts.Shows, automatic, countEvaluater, Evaluater.evaluateValue,
    Expected.compareObject, true_iff] at shows
  have zero := shows 0
  have one := shows 1
  rw [← zero] at one
  exact absurd one (by decide)

theorem generated_shows (pc : PcObject E) (p : Process) {s : Section}
    (automatic : pc.counts s = none) (n : ℕ) :
    ((Use.generateFrame pc).perform p).2.Shows s n ↔
      (p.CountMgr_.get_generate s + UInt32.ofNat (pc.number s)).toNat % 2 ^ 16 = n := by
  simp only [Use.perform, Use.Counts.Shows, automatic, HCGENE_toNat, selfCompose_get]

/-- The counts are right just for messages that are sent and have no entries in front of them,
    in the messages before, of the section that is counted, or so many that the field does not
    show them. -/
theorem counted_iff (uses : List (Use E)) :
    Counted uses ↔ ∀ a u b, uses = a ++ u :: b → ∀ s, u.pc.counts s = none →
      u = .generateFrame u.pc ∧ u.pc.number s < 2 ^ 16 ∧
        2 ^ 16 ∣ (a.map fun v => v.pc.number s).sum := by
  have each (a : List (Use E)) (u : Use E) (s : Section) (automatic : u.pc.counts s = none) :
      (u.perform (run a)).2.Shows s (u.pc.number s) ↔
        u = .generateFrame u.pc ∧ u.pc.number s < 2 ^ 16 ∧
          2 ^ 16 ∣ (a.map fun v => v.pc.number s).sum := by
    cases u with
    | generateFrame pc =>
      rw [generated_shows pc (run a) automatic, run_get, ← UInt32.ofNat_add, UInt32.toNat_ofNat']
      simp only [Use.pc, true_and]
      exact remainder_iff _ _
    | evaluatePrologue pc =>
      apply iff_of_false (any_shows pc (run a) automatic _)
      intro sent
      cases sent.1
  constructor
  · intro counted a u b eq s automatic
    exact (each a u s automatic).mp (counted a u b eq s automatic)
  · intro right a u b eq s automatic
    exact (each a u s automatic).mpr (right a u b eq s automatic)

/-- A query with one question, sent twice. -/
def query : Use Unit :=
  .generateFrame ⟨fun s => if s = .Question then some [()] else none, fun _ => none⟩

theorem not_counted_queries : ¬ ∀ uses : List (Use Unit), Counted uses := by
  intro all
  have second : (HCGENE (run [query, query]) .Question).toNat = 1 :=
    all [query, query] [query] query [] rfl .Question rfl
  exact absurd second (by decide)

end Tahi.Pz.McDNS
