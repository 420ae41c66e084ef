import Tahi.Kink.DecTurns

/-! # Cutting payloads off their concatenation

Where a payload has its own length in its length field, a decoder cuts it off what was encoded.
It finds the next one behind it if the payload ends at a multiple of four octets, as the decoders
take padding for granted.
-/

namespace Tahi.Kink

open Perl FuelLoop RoundUp

section Chunk

variable {x rest : List UInt8} {v : List Item}

theorem common_self (field : v[2]? = some (.num x.length)) :
    (common (some (x ++ rest)) v).self = some x := by
  simp only [common, cut, field, Item.num?, Option.map_some, Option.getD_some]
  rw [substr_first, Str.octets_some, List.take_left]

theorem common_length_eq (data : Str) (field : v[2]? = some (.num x.length)) :
    (common data v).length = x.length := by
  rw [common_length, lengthField, field]
  rfl

theorem common_remain_octets (field : v[2]? = some (.num x.length)) (fits : x.length < 2 ^ 32)
    (whole : 4 ∣ x.length ∨ rest = []) :
    (common (some (x ++ rest)) v).remain.octets = rest := by
  have length : lengthField v = x.length := by
    rw [lengthField, field]
    rfl
  rw [common_remain _ (by rwa [length]), length, substr_from]
  rcases whole with multiple | rfl
  · rw [roundUp_of_dvd (by decide) multiple, if_neg (by simp [Str.len])]
    simp
  · have up := le_roundUp x.length (show 0 < 4 by decide)
    split
    · rfl
    · simpa using up

end Chunk

/-- A string that is not empty is not undefined either. -/
theorem eq_some_of_octets {s : Str} {l : List UInt8} (octets : s.octets = l) (nonempty : l ≠ []) :
    s = some l := by
  cases s with
  | none => exact absurd octets.symm nonempty
  | some _ => exact congrArg some octets

theorem truth_of_long {l : List UInt8} (long : 1 < l.length) : Str.truth (some l) := by
  have nonempty : l ≠ [] := by
    rintro rfl
    simp at long
  have notZero : l ≠ [0x30] := by
    rintro rfl
    simp at long
  simp [Str.truth, nonempty, notZero]

section Loops

variable {α ρ : Type} {decode : Nat → Str → Option α} {remain : α → Str}

/-- What a loop over the rest of the data decodes, piece by piece. -/
inductive Pieces (decode : Nat → Str → Option α) (remain : α → Str) : List UInt8 → List α → Prop
  | nil : Pieces decode remain [] []
  | cons {data rest x xs} (more : Str.truth (some data)) (gives : Gives decode (some data) x)
      (left : (remain x).octets = rest) (pieces : Pieces decode remain rest xs) :
      Pieces decode remain data (x :: xs)

theorem Pieces.gives (push : ρ → α → ρ) {data : List UInt8} {xs : List α}
    (pieces : Pieces decode remain data xs) (grows : Grows decode) {s : Str}
    (octets : s.octets = data) (acc : ρ) :
    Gives (run (restTurn decode remain push)) (s, acc) (xs.foldl push acc) := by
  induction pieces generalizing s acc with
  | nil =>
      have ended : s.truth = false := by simp [Str.truth, octets]
      exact run_done ⟨0, by simp [restTurn, ended]⟩
  | @cons data rest x xs more gives left pieces ih =>
      have nonempty : data ≠ [] := by
        rintro rfl
        cases more
      have start := eq_some_of_octets octets nonempty
      subst start
      apply run_next (restTurn_grows grows) (t := (remain x, push acc x))
      · exact leads_restTurn.mpr ⟨more, x, gives, rfl⟩
      · exact ih left (push acc x)

/-- Parts that are encoded one after the other are decoded one after the other, if all but the last
    one end where the decoder looks for the next. -/
theorem Pieces.of_list {β : Type} {octets : β → List UInt8} {ends : β → Prop} {good : β → α → Prop}
    (long : ∀ b, 1 < (octets b).length) (l : List β)
    (each : ∀ b ∈ l, ∀ rest, ends b ∨ rest = [] → ∃ x,
      Gives decode (some (octets b ++ rest)) x ∧ (remain x).octets = rest ∧ good b x)
    (whole : ∀ b ∈ l.dropLast, ends b) :
    ∃ xs, Pieces decode remain (l.flatMap octets) xs ∧ List.Forall₂ good l xs := by
  induction l with
  | nil => exact ⟨[], .nil, .nil⟩
  | cons b l ih =>
      have here : ends b ∨ l.flatMap octets = [] := by
        cases l with
        | nil => exact .inr rfl
        | cons _ _ => exact .inl (whole b (by simp))
      obtain ⟨x, gives, left, same⟩ := each b (by simp) _ here
      obtain ⟨xs, pieces, rest⟩ := ih (fun b mem => each b (by simp [mem])) fun b mem => by
        cases l with
        | nil => cases mem
        | cons _ _ => exact whole b (by simp [mem])
      have more : Str.truth (some (octets b ++ l.flatMap octets)) := by
        apply truth_of_long
        have := long b
        rw [List.length_append]
        omega
      exact ⟨x :: xs, .cons more gives left pieces, .cons same rest⟩

end Loops

/-- What a loop pushes, one at a time. -/
theorem foldl_push {α : Type} (xs acc : List α) :
    xs.foldl (fun result x => result ++ [x]) acc = acc ++ xs := by
  induction xs generalizing acc with
  | nil => simp
  | cons x xs ih => simp [ih]

theorem length_le_flatMap {α β : Type} (f : α → List β) {l : List α} {a : α} (mem : a ∈ l) :
    (f a).length ≤ (l.flatMap f).length := by
  obtain ⟨before, behind, rfl⟩ := List.append_of_mem mem
  simp only [List.flatMap_append, List.flatMap_cons, List.length_append]
  omega

end Tahi.Kink
