import Tahi.Pz.McObjectReverse

/-! # References to compounds

Some members stand for one compound or for a sequence of compounds. The control
says which type is next, or the reference looks the type up in the buffer, and a
dictionary has the compound for the type.
-/

namespace Tahi.Pz

structure TypevsMcDict where
  list_ : List (Int32 × Reverse)
  other_ : Option Reverse

namespace TypevsMcDict

def find (d : TypevsMcDict) : Con_DictType → Option Reverse
  | .uneffect => none
  | .finish => some McNeedless.reverse
  | .other => d.other_
  | .effect type =>
      match d.list_.find? fun rec_ => rec_.1 == type with
      | some rec_ => some rec_.2
      | none => d.other_

/-- What can be found is listed, is the other compound or takes what is left over. -/
theorem find_cases {d : TypevsMcDict} {t : Con_DictType} {mc : Reverse}
    (found : d.find t = some mc) :
    mc = McNeedless.reverse ∨ d.other_ = some mc ∨ ∃ type, (type, mc) ∈ d.list_ := by
  cases t with
  | uneffect => cases found
  | finish =>
      cases found
      exact .inl rfl
  | other => exact .inr (.inl found)
  | effect type =>
      cases listed : d.list_.find? fun rec_ => rec_.1 == type with
      | none =>
          simp only [find, listed] at found
          exact .inr (.inl found)
      | some rec_ =>
          simp only [find, listed] at found
          cases found
          exact .inr (.inr ⟨rec_.1, List.mem_of_find?_eq_some listed⟩)

end TypevsMcDict

/-- `overwrite_DictType`: whether the reference goes on, and the control with the type
    that comes next. -/
abbrev Overwrite := RControl → ItPosition → PvOctets → Except Halt (Bool × RControl)

/-- The type stays as the compound before the reference has left it. -/
def Overwrite.none_ : Overwrite := fun c _ _ => .ok (true, c)

namespace MmReference_Must1

/-- `MmReference_Must1::reverse`. A type that the dictionary does not know is an
    error. -/
def reverse (keepType_ : Bool) (overwrite_DictType : Overwrite) (dict : TypevsMcDict) : Reverse :=
  fun c at_ buf =>
    let keep := c.DictType
    let result : Except Halt Reversed :=
      match overwrite_DictType c at_ buf with
      | .error h => .error h
      | .ok (false, c) => .ok ⟨c, at_, none, []⟩
      | .ok (true, c) =>
          match dict.find c.DictType with
          | none => .ok ⟨c.setError 1, at_, none, []⟩
          | some mc => mc c at_ buf
    match result with
    | .error h => .error h
    | .ok r => .ok { r with c := if keepType_ then r.c.setDictType keep else r.c }

end MmReference_Must1

namespace MmReference_More0

/-- One turn of the loop of `MmReference_More0::reverse`. A type that the dictionary does
    not know is no error. -/
def turn (overwrite_DictType : Overwrite) (dict : TypevsMcDict) : Reverse := fun c at_ buf =>
  match overwrite_DictType c at_ buf with
  | .error h => .error h
  | .ok (false, c) => .ok ⟨c, at_, none, []⟩
  | .ok (true, c) =>
      match dict.find c.DictType with
      | none => .ok ⟨c, at_, none, []⟩
      | some mc => mc c at_ buf

/-- The loop, given up after `fuel` turns. -/
def loop (overwrite_DictType : Overwrite) (dict : TypevsMcDict) : (fuel : Nat) → Reverse
  | 0, _, _, _ => .error .unfinished
  | fuel + 1, c, at_, buf =>
      match turn overwrite_DictType dict c at_ buf with
      | .error h => .error h
      | .ok r =>
          if r.rc.isSome && r.c.ok then
            match loop overwrite_DictType dict fuel r.c r.at_ buf with
            | .error h => .error h
            | .ok s => .ok { s with made := r.made ++ s.made }
          else .ok r

def reverse (keepType_ : Bool) (overwrite_DictType : Overwrite) (dict : TypevsMcDict)
    (fuel : Nat) : Reverse := fun c at_ buf =>
  let keep := c.DictType
  match loop overwrite_DictType dict fuel c at_ buf with
  | .error h => .error h
  | .ok r => .ok { r with c := if keepType_ then r.c.setDictType keep else r.c }

end MmReference_More0

namespace MmTopHdr

/-- `MmTopHdr::reverse`. The dictionary has one compound, as the other one. -/
def reverse (tophdr : Reverse) : Reverse :=
  MmReference_Must1.reverse false (fun c _ _ => .ok (true, c.setDictType .other))
    ⟨[], some tophdr⟩

theorem reverse_eq (tophdr : Reverse) (c : RControl) (at_ : ItPosition) (buf : PvOctets) :
    reverse tophdr c at_ buf = tophdr (c.setDictType .other) at_ buf := by
  have found : TypevsMcDict.find ⟨[], some tophdr⟩ (c.setDictType .other).DictType =
      some tophdr := rfl
  simp only [reverse, MmReference_Must1.reverse, found]
  cases tophdr (c.setDictType .other) at_ buf with
  | error h => rfl
  | ok r => rfl

end MmTopHdr

/-- The number of a decoded numeric member. -/
def PvObject.value : PvObject → Int32
  | .number n => n.value
  | _ => 0

namespace McHeader

/-- `nextType_meta_` is none where the header has no type of what comes next. -/
def nextType_set_Control (nextType_meta_ : Option String) (c : RControl) (r_self : Decoded) :
    RControl :=
  match nextType_meta_ with
  | none => c.setDictType .other
  | some m =>
      match r_self.corresponding m with
      | some next => c.setDictType (.effect next.pvalue.value)
      | none => c.setDictType .finish

def reverse (nextType_meta_ : Option String) (mc : McObject) : Reverse := fun c at_ buf =>
  match mc.reverse c at_ buf with
  | .error h => .error h
  | .ok r =>
      match r.rc with
      | none => .ok r
      | some r_self => .ok { r with c := nextType_set_Control nextType_meta_ r.c r_self }

theorem error_nextType_set_Control (nextType_meta_ : Option String) (c : RControl)
    (r_self : Decoded) : (nextType_set_Control nextType_meta_ c r_self).error = c.error := by
  cases nextType_meta_ with
  | none => rfl
  | some m =>
      rw [nextType_set_Control]
      cases r_self.corresponding m with
      | none => rfl
      | some next => rfl

/-- A header is its compound, up to the type of what comes next. -/
theorem reverse_ok {nextType_meta_ : Option String} {mc : McObject} {c : RControl}
    {at_ : ItPosition} {buf : PvOctets} {r : Reversed}
    (run : reverse nextType_meta_ mc c at_ buf = .ok r) :
    ∃ s, mc.reverse c at_ buf = .ok s ∧ s.c.error = r.c.error ∧ s.at_ = r.at_ ∧ s.rc = r.rc ∧
      s.made = r.made := by
  rw [reverse] at run
  cases compound : mc.reverse c at_ buf with
  | error h => simp [compound] at run
  | ok s =>
      simp only [compound] at run
      cases self : s.rc with
      | none =>
          simp only [self] at run
          cases run
          exact ⟨r, rfl, rfl, rfl, rfl, rfl⟩
      | some r_self =>
          simp only [self] at run
          cases run
          exact ⟨s, rfl, (error_nextType_set_Control _ _ _).symm, rfl, self, rfl⟩

end McHeader

end Tahi.Pz
