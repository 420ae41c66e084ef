import Tahi.Pz.WtNode

/-! # Composed packets are tiled

The sizes of the objects agree with what they stand for, as long as positions can be counted and no
compound without contents claims octets of its own.
-/

namespace Tahi.Pz

namespace ItPosition

theorem normal_copy (i : ItPosition) : i.copy.bits_.toNat < 8 := i.bits_lt

theorem toBits_addBytes {i : ItPosition} {n : UInt32} (normal : i.bits_.toNat < 8)
    (small : n.toNat < 2 ^ 31) (reach : i.toBits + 8 * n.toNat < 8 * 2 ^ 31) :
    (i.addBytes n.toInt32).bits_.toNat < 8 ∧
      (i.addBytes n.toInt32).toBits = i.toBits + 8 * n.toNat := by
  have lowest := i.bytes_.le_toInt
  have bitsLt := i.bits_lt
  have old : i.bytes = i.bytes_ := bytes_mk normal
  have octets : n.toInt32.toInt = n.toNat := toInt_toInt32 small
  rw [toBits, old] at reach
  have moved : (i.addBytes n.toInt32).bytes.toInt = i.bytes_.toInt + n.toNat := by
    have reached : (i.addBytes n.toInt32).bytes = i.bytes_ + n.toInt32 := bytes_mk normal
    rw [reached, toInt_add_of_bounds, octets]
    · rw [octets]
      omega
    · rw [octets]
      omega
  refine ⟨normal, ?_⟩
  rw [toBits, moved, toBits, old]
  have same : (i.addBytes n.toInt32).bits = i.bits := rfl
  rw [same]
  omega

end ItPosition

namespace WtNode

/-- What comes of a size: `b` bits have been passed over, or the object says how many it has. -/
theorem settle_spec {own : UInt32} {width : UInt16} {at_ it : ItPosition} {b e : ℕ}
    (normal : at_.bits_.toNat < 8) (moved : it.toBits = at_.toBits + b)
    (itself : b = 0 → 8 * own.toNat + width.toNat = e) (passed : b ≠ 0 → b = e)
    (countable : e < 8 * 2 ^ 31) (reach : at_.toBits + e < 8 * 2 ^ 31) :
    (settle own width at_ it).1.toBits = e ∧ (settle own width at_ it).2.1.toNat = e / 8 ∧
      (settle own width at_ it).2.2.bits_.toNat < 8 ∧
      (settle own width at_ it).2.2.toBits = at_.toBits + e := by
  obtain ⟨size, sizeEq, sizeNormal, sizeBits⟩ : ∃ size : ItPosition,
      (if at_.copy.eq it then (ItPosition.mk own.toInt32 width).copy
        else it.copy.subtract at_.copy) = size ∧ size.bits_.toNat < 8 ∧ size.toBits = e := by
    by_cases none : b = 0
    · have same : at_.copy.eq it = true := by
        rw [ItPosition.eq_iff, ItPosition.toBits_copy, moved, none]
        exact (Int.add_zero _).symm
      have itself := itself none
      have octets : own.toInt32.toInt = own.toNat := ItPosition.toInt_toInt32 (by omega)
      refine ⟨_, if_pos same, ItPosition.normal_copy _, ?_⟩
      rw [ItPosition.toBits_copy, ItPosition.toBits_mk (by rw [octets]; omega), octets]
      omega
    · have differ : ¬ at_.copy.eq it = true := by
        rw [ItPosition.eq_iff, ItPosition.toBits_copy, moved]
        omega
      have passed := passed none
      obtain ⟨small, back⟩ := ItPosition.toBits_subtract (i := it.copy) (j := at_.copy)
        it.normal_copy (by rw [ItPosition.toBits_copy, ItPosition.toBits_copy]; omega)
        (by rw [ItPosition.toBits_copy, ItPosition.toBits_copy]; omega)
      refine ⟨_, if_neg differ, small, ?_⟩
      rw [back, ItPosition.toBits_copy, ItPosition.toBits_copy, moved, passed]
      omega
  have octets : size.toBits = 8 * size.bytes.toInt + size.bits.toNat := rfl
  have less := size.bits_lt
  have sized : 0 ≤ size.bytes := Int32.le_iff_toInt_le.mpr (by change 0 ≤ size.bytes.toInt; omega)
  have unsigned : size.bytes.toUInt32.toNat = e / 8 := by
    have octets : (size.bytes.toUInt32.toNat : ℤ) = size.bytes.toInt :=
      ItPosition.toNat_toUInt32 (by omega)
    omega
  have again : size.bytes.toUInt32.toInt32 = size.bytes := rfl
  have whole : (ItPosition.mk size.bytes size.bits).toBits = e := by
    rw [ItPosition.toBits_mk (by omega)]
    omega
  have forward : 0 ≤ (ItPosition.mk size.bytes size.bits).bytes.toInt := by
    rw [ItPosition.bytes_mk less]
    omega
  obtain ⟨normal'', advances⟩ := ItPosition.toBits_add_forward normal forward (by rw [whole]; exact reach)
  rw [whole] at advances
  simp only [settle, sizeEq, decide_eq_true sized, if_true, again]
  exact ⟨sizeBits, unsigned, normal'', advances⟩

/-- The offset, the size and the length of a placed object, and the position behind it. -/
structure Stands (w : WtNode) (at_ : ItPosition) : Prop where
  begins : (w.generatePrologue at_).1.offset.toBits = at_.toBits
  sized : (w.generatePrologue at_).1.size.toBits = w.extent
  counted : (w.generatePrologue at_).1.length.toNat = w.extent / 8
  tiled : (w.generatePrologue at_).1.Tiled
  follow : Placed.Follow at_.toBits (w.generatePrologue at_).1.leaves (at_.toBits + w.extent)
  normal : (w.generatePrologue at_).2.bits_.toNat < 8
  moved : (w.generatePrologue at_).2.toBits = at_.toBits + w.extent

/-- The same for the children of an object at `base`, from `it` on. -/
structure StandAll (ws : List WtNode) (base it : ItPosition) : Prop where
  chain : Placed.Chain base it.toBits (generatePrologues ws it).1 (it.toBits + extents ws)
  sum : ((generatePrologues ws it).1.map fun p => p.size.toBits).sum = extents ws
  heads : extents ws = 0 →
    (generatePrologues ws it).1.head?.map Placed.length = ws.head?.map fun _ => 0
  tiled : Placed.TiledAll (generatePrologues ws it).1
  follow : Placed.Follow it.toBits (Placed.leavesAll (generatePrologues ws it).1)
    (it.toBits + extents ws)
  normal : (generatePrologues ws it).2.bits_.toNat < 8
  moved : (generatePrologues ws it).2.toBits = it.toBits + extents ws

theorem Placed.Follow.append {first rest : List (ItPosition × ItPosition)} {s m e : ℤ}
    (front : Follow s first m) (back : Follow m rest e) : Follow s (first ++ rest) e := by
  induction first generalizing s with
  | nil =>
    cases front
    exact back
  | cons place first ih => exact ⟨front.1, ih front.2⟩

/-- An object without children has the size that is settled for it. -/
theorem Placed.Follow.single {offset size : ItPosition} {s : ℤ} {e : ℕ}
    (begins : offset.toBits = s) (sized : size.toBits = e) : Follow s [(offset, size)] (s + e) := by
  apply And.intro begins
  change s + size.toBits = s + e
  rw [sized]

theorem Placed.toNat_distance {p : Placed} {base : ItPosition}
    (lo : base.toBits ≤ p.offset.toBits) (hi : p.offset.toBits - base.toBits < 8 * 2 ^ 31) :
    ((p.distance (some base)).toNat : ℤ) = (p.offset.toBits - base.toBits) / 8 := by
  obtain ⟨-, moved⟩ := ItPosition.toBits_subtract (i := p.offset.copy) (j := base)
    p.offset.normal_copy (by rw [ItPosition.toBits_copy]; omega)
    (by rw [ItPosition.toBits_copy]; omega)
  rw [ItPosition.toBits_copy, ItPosition.toBits] at moved
  have bits := (p.offset.copy.subtract base).bits_lt
  have octets : ((p.distance (some base)).toNat : ℤ) = (p.offset.copy.subtract base).bytes.toInt :=
    ItPosition.toNat_toUInt32 (by omega)
  omega

mutual

theorem stands : (w : WtNode) → (at_ : ItPosition) → at_.bits_.toNat < 8 → w.Hollow →
    w.extent < 8 * 2 ^ 31 → at_.toBits + w.extent < 8 * 2 ^ 31 → w.Stands at_
  | .member m o, at_, normal, _, countable, reach => by
    obtain ⟨sized, counted, normal', moved⟩ := @settle_spec (ownLength m o none) (ownWidth m)
      at_ at_.copy 0 _ normal (by simp) (fun _ => rfl)
      (fun h => absurd rfl h) countable reach
    exact ⟨at_.toBits_copy, sized, counted, sized, .single at_.toBits_copy sized, normal', moved⟩
  | .adds m o octets, at_, normal, _, countable, reach => by
    have extent : (WtNode.adds m o octets).extent =
        if octets = 0 then 8 * (ownLength m o none).toNat + (ownWidth m).toNat
        else 8 * octets.toNat := rfl
    rw [extent] at countable reach
    have zero : octets = 0 ↔ octets.toNat = 0 := UInt32.toNat_inj.symm
    have small : octets.toNat < 2 ^ 31 ∧ at_.toBits + 8 * octets.toNat < 8 * 2 ^ 31 := by
      by_cases none : octets = 0
      · rw [if_pos none] at countable reach
        have none := zero.mp none
        omega
      · rw [if_neg none] at countable reach
        omega
    obtain ⟨-, passed⟩ := ItPosition.toBits_addBytes at_.normal_copy small.1
      (by rw [ItPosition.toBits_copy]; exact small.2)
    rw [ItPosition.toBits_copy] at passed
    obtain ⟨sized, counted, normal', moved⟩ := @settle_spec (ownLength m o none) (ownWidth m) at_ _
      (8 * octets.toNat) _ normal passed
      (fun h => (if_pos (zero.mpr (by omega))).symm)
      (fun h => (if_neg fun none => h (by rw [none]; rfl)).symm) countable reach
    exact ⟨at_.toBits_copy, sized, counted, sized, .single at_.toBits_copy sized, normal', moved⟩
  | .substr m o reference, at_, normal, _, countable, reach => by
    obtain ⟨sized, counted, normal', moved⟩ := @settle_spec
      (ownLength m o (some (reference.generatePrologue ⟨0, 0⟩).1.length)) (ownWidth m)
      at_ at_.copy 0 _ normal (by simp) (fun _ => rfl)
      (fun h => absurd rfl h) countable reach
    exact ⟨at_.toBits_copy, sized, counted, sized, .single at_.toBits_copy sized, normal', moved⟩
  | .tree m o children, at_, normal, hollow, countable, reach => by
    have all := standAll children at_.copy at_.copy at_.normal_copy hollow.1 le_rfl
      (by rw [sub_self]; exact (zero_add _).trans_lt (by exact_mod_cast countable))
      (by rw [ItPosition.toBits_copy]; exact reach)
    have begins : at_.copy.toBits = at_.toBits := at_.toBits_copy
    obtain ⟨sized, counted, normal', moved⟩ := @settle_spec
      (ownLength m o ((generatePrologues children at_.copy).1.head?.map Placed.length))
      (ownWidth m) at_ _ (extents children) (extents children) normal
      (by rw [all.moved, begins])
      (fun empty => by
        rw [all.heads empty, empty]
        exact hollow.2 empty)
      (fun _ => rfl) countable reach
    refine ⟨begins, sized, counted, ?_, ?_, normal', moved⟩
    · refine ⟨?_, ?_, all.tiled⟩
      · have chain := all.chain
        rw [← sized] at chain
        exact chain
      · exact sized.trans all.sum.symm
    · have follow := all.follow
      rw [begins] at follow
      exact follow

theorem standAll : (ws : List WtNode) → (base it : ItPosition) → it.bits_.toNat < 8 →
    Hollows ws → base.toBits ≤ it.toBits → it.toBits - base.toBits + extents ws < 8 * 2 ^ 31 →
    it.toBits + extents ws < 8 * 2 ^ 31 → StandAll ws base it
  | [], base, it, normal, _, _, _, _ =>
    have stays : it.toBits = it.toBits + ((0 : ℕ) : ℤ) := (add_zero _).symm
    ⟨stays, rfl, fun _ => rfl, trivial, stays, normal, stays⟩
  | w :: ws, base, it, normal, hollow, behind, near, reach => by
    have both : extents (w :: ws) = w.extent + extents ws := rfl
    rw [both] at near reach
    have one := stands w it normal hollow.1 (by omega) (by omega)
    have all := standAll ws base (w.generatePrologue it).2 one.normal hollow.2
      (by rw [one.moved]; omega) (by rw [one.moved]; omega) (by rw [one.moved]; omega)
    have total : it.toBits + extents (w :: ws) =
        (w.generatePrologue it).2.toBits + extents ws := by
      rw [both, one.moved]
      omega
    refine ⟨⟨one.begins, ?_, ?_⟩, ?_, ?_, ⟨one.tiled, all.tiled⟩, ?_, all.normal, ?_⟩
    · rw [Placed.toNat_distance] <;> rw [one.begins] <;> omega
    · rw [total, one.sized, ← one.moved]
      exact all.chain
    · have sum : ((generatePrologues (w :: ws) it).1.map fun p => p.size.toBits).sum =
          (w.generatePrologue it).1.size.toBits +
            ((generatePrologues ws (w.generatePrologue it).2).1.map fun p => p.size.toBits).sum := rfl
      rw [sum, one.sized, all.sum, both, Nat.cast_add]
    · intro empty
      have counted := one.counted
      have none : w.extent / 8 = 0 := by omega
      rw [none] at counted
      exact congrArg some (UInt32.toNat_inj.mp counted)
    · rw [total]
      have front := one.follow
      rw [← one.moved] at front
      exact front.append all.follow
    · rw [total]
      exact all.moved

end

/-! ## What a tiling needs -/

/-- Only an integer field has a width, and it has no length. -/
theorem ownLength_or_ownWidth (m : Option MObjectKind) (o : Option PObject) (next : Option UInt32) :
    ownLength m o next = 0 ∨ ownWidth m = 0 := by
  cases m with
  | none => exact .inr rfl
  | some m =>
    cases m with
    | uint width_ => exact .inl rfl
    | compound | octets | varOctets | data | function => exact .inr rfl

/-- An object that is told to have no bits of its own has none. -/
theorem own_of_toBits_eq_zero {m : Option MObjectKind} {o : Option PObject} {next : Option UInt32}
    (none : (ItPosition.mk (ownLength m o next).toInt32 (ownWidth m)).toBits = 0) :
    8 * (ownLength m o next).toNat + (ownWidth m).toNat = 0 := by
  have remainder := (ItPosition.mk (ownLength m o next).toInt32 (ownWidth m)).bits_lt
  cases ownLength_or_ownWidth m o next with
  | inl noLength =>
    have octets : (0 : UInt32).toInt32.toInt = 0 := rfl
    have width := (ownWidth m).toNat_lt
    rw [noLength, ItPosition.toBits_mk (by rw [octets]; omega), octets] at none
    rw [noLength]
    change 8 * 0 + _ = 0
    omega
  | inr noWidth =>
    rw [noWidth, ItPosition.toBits, ItPosition.bytes_mk (by decide), ItPosition.bits_mk] at none
    have same : (ownLength m o next).toInt32.toInt = 0 := by
      change _ + ((0 : ℕ) : ℤ) = 0 at none
      omega
    have zero : ownLength m o next = 0 := congrArg Int32.toUInt32 (Int32.toInt_inj.mp same)
    rw [zero, noWidth]
    rfl

mutual

/-- The size of a tiled object is that of what it stands for. -/
theorem Placed.Tiled.sized : (w : WtNode) → (at_ : ItPosition) →
    (w.generatePrologue at_).1.Tiled → (w.generatePrologue at_).1.size.toBits = w.extent
  | .member _ _, _, tiled => tiled
  | .adds _ _ _, _, tiled => tiled
  | .substr _ _ _, _, tiled => tiled
  | .tree _ _ children, at_, tiled => tiled.2.1.trans (TiledAll.sum children at_.copy tiled.2.2)

theorem Placed.TiledAll.sum : (ws : List WtNode) → (it : ItPosition) →
    TiledAll (generatePrologues ws it).1 →
      ((generatePrologues ws it).1.map fun p => p.size.toBits).sum = extents ws
  | [], _, _ => rfl
  | w :: ws, it, tiled => by
    have both : extents (w :: ws) = w.extent + extents ws := rfl
    have sum : ((generatePrologues (w :: ws) it).1.map fun p => p.size.toBits).sum =
        (w.generatePrologue it).1.size.toBits +
          ((generatePrologues ws (w.generatePrologue it).2).1.map fun p => p.size.toBits).sum := rfl
    rw [sum, Tiled.sized w it tiled.1, TiledAll.sum ws _ tiled.2, both, Nat.cast_add]

end

theorem toBits_lt (i : ItPosition) : i.toBits < 8 * 2 ^ 31 := by
  have octets := i.bytes.toInt_lt
  have bits := i.bits_lt
  rw [ItPosition.toBits]
  omega

theorem normal_of_add {i j : ItPosition} (same : (i.add j).toBits = (i.copy.add j).toBits) :
    i.bits_.toNat < 8 := by
  have remainder : (i.add j).bits = (i.copy.add j).bits := by
    change (i.bits + j.bits) % 8 % 8 = (i.copy.bits + j.bits) % 8 % 8
    rw [ItPosition.bits_copy]
  have octets : (i.add j).bytes = (i.copy.add j).bytes := by
    rw [ItPosition.toBits, ItPosition.toBits, remainder] at same
    apply Int32.toInt_inj.mp
    omega
  have small (b : UInt16) : (b % 8).toNat < 8 := by
    rw [ItPosition.toNat_mod_eight]
    exact Nat.mod_lt _ (by decide)
  have kept : (i.add j).bytes =
      i.bytes_ + Int32.ofNat ((i.bits + j.bits) / 8).toNat + j.bytes :=
    ItPosition.bytes_mk (small _)
  have carried : (i.copy.add j).bytes =
      i.bytes_ + Int32.ofNat (i.bits_ / 8).toNat + Int32.ofNat ((i.copy.bits + j.bits) / 8).toNat +
        j.bytes := ItPosition.bytes_mk (small _)
  rw [kept, carried, ItPosition.bits_copy] at octets
  have lost : Int32.ofNat (i.bits_ / 8).toNat = 0 := by grind
  have count : (Int32.ofNat (i.bits_ / 8).toNat).toInt = (i.bits_.toNat / 8 : ℕ) := by
    rw [ItPosition.toNat_div_eight]
    exact Int32.toInt_ofNat_of_lt (by have bound := i.bits_.toNat_lt; omega)
  rw [lost] at count
  change (0 : ℤ) = _ at count
  omega

/-- What is handed on was added to the position as it was given. -/
theorem generatePrologue_settles (w : WtNode) (at_ : ItPosition) : ∃ own width it,
    (w.generatePrologue at_).1.size = (settle own width at_ it).1 ∧
      (w.generatePrologue at_).2 = (settle own width at_ it).2.2 := by
  cases w with
  | member | adds | substr | tree => exact ⟨_, _, _, rfl, rfl⟩

theorem settle_advances {own : UInt32} {width : UInt16} {at_ it size : ItPosition}
    (sizeEq : (settle own width at_ it).1 = size) (sized : 0 ≤ size.toBits) :
    (settle own width at_ it).2.2 = at_.add size.copy := by
  have place : size.toBits = 8 * size.bytes.toInt + size.bits.toNat := rfl
  have bits := size.bits_lt
  have forward : 0 ≤ size.bytes :=
    Int32.le_iff_toInt_le.mpr (by change 0 ≤ size.bytes.toInt; omega)
  have moved : (settle own width at_ it).2.2 =
      at_.add ⟨(if decide (0 ≤ (settle own width at_ it).1.bytes) then
          (settle own width at_ it).1.bytes.toUInt32 else own).toInt32,
        if decide (0 ≤ (settle own width at_ it).1.bytes) then
          (settle own width at_ it).1.bits else width⟩ := rfl
  rw [moved, sizeEq, if_pos (decide_eq_true forward), if_pos (decide_eq_true forward)]
  rfl

theorem normal_of_advances (w : WtNode) (at_ : ItPosition)
    (tiled : (w.generatePrologue at_).1.Tiled)
    (advances : (w.generatePrologue at_).2.toBits =
      at_.toBits + (w.generatePrologue at_).1.size.toBits) : at_.bits_.toNat < 8 := by
  have sized := Placed.Tiled.sized w at_ tiled
  obtain ⟨own, width, it, size, behind⟩ := w.generatePrologue_settles at_
  have reach := toBits_lt (w.generatePrologue at_).2
  rw [advances] at reach
  have forward : 0 ≤ (w.generatePrologue at_).1.size.toBits := by
    rw [sized]
    exact Int.natCast_nonneg _
  rw [size] at forward reach
  rw [behind, size, settle_advances rfl forward] at advances
  apply normal_of_add (j := (settle own width at_ it).1.copy)
  obtain ⟨-, moved⟩ := ItPosition.toBits_add_forward (j := (settle own width at_ it).1.copy)
    at_.normal_copy
    (by
      rw [ItPosition.bytes_copy]
      have bits := (settle own width at_ it).1.bits_lt
      rw [ItPosition.toBits] at forward
      omega)
    (by rw [ItPosition.toBits_copy, ItPosition.toBits_copy]; exact reach)
  rw [advances, moved, ItPosition.toBits_copy, ItPosition.toBits_copy]

mutual

theorem hollow_of_tiled : (w : WtNode) → (at_ : ItPosition) → at_.bits_.toNat < 8 →
    at_.toBits + w.extent < 8 * 2 ^ 31 → (w.generatePrologue at_).1.Tiled → w.Hollow
  | .member _ _, _, _, _, _ => trivial
  | .adds _ _ _, _, _, _, _ => trivial
  | .substr _ _ _, _, _, _, _ => trivial
  | .tree m o children, at_, normal, reach, tiled => by
    have countable : (extents children : ℤ) < 8 * 2 ^ 31 := by
      rw [← Placed.TiledAll.sum children at_.copy tiled.2.2, ← tiled.2.1]
      exact toBits_lt _
    have hollows := hollows_of_tiledAll children at_.copy at_.normal_copy
      (by exact_mod_cast countable) (by rw [ItPosition.toBits_copy]; exact reach) tiled.2.2
    refine ⟨hollows, fun empty => ?_⟩
    have all := standAll children at_.copy at_.copy at_.normal_copy hollows le_rfl
      (by rw [sub_self]; exact (zero_add _).trans_lt countable)
      (by rw [ItPosition.toBits_copy]; exact reach)
    -- The children leave the position where it is, so the object is asked for its own length.
    have stays : at_.copy.eq (generatePrologues children at_.copy).2 = true := by
      rw [ItPosition.eq_iff, all.moved, empty]
      exact (add_zero _).symm
    have sized := Placed.Tiled.sized (.tree m o children) at_ tiled
    have own : ((WtNode.tree m o children).generatePrologue at_).1.size =
        (ItPosition.mk (ownLength m o
          ((generatePrologues children at_.copy).1.head?.map Placed.length)).toInt32
          (ownWidth m)).copy := if_pos stays
    rw [own, ItPosition.toBits_copy, all.heads empty] at sized
    apply own_of_toBits_eq_zero
    rw [sized]
    exact congrArg Nat.cast empty

theorem hollows_of_tiledAll : (ws : List WtNode) → (it : ItPosition) → it.bits_.toNat < 8 →
    extents ws < 8 * 2 ^ 31 → it.toBits + extents ws < 8 * 2 ^ 31 →
    Placed.TiledAll (generatePrologues ws it).1 → Hollows ws
  | [], _, _, _, _, _ => trivial
  | w :: ws, it, normal, countable, reach, tiled => by
    have both : extents (w :: ws) = w.extent + extents ws := rfl
    rw [both] at countable reach
    have hollow := hollow_of_tiled w it normal (by omega) tiled.1
    have one := stands w it normal hollow (by omega) (by omega)
    refine ⟨hollow, ?_⟩
    apply hollows_of_tiledAll ws (w.generatePrologue it).2 one.normal (by omega) ?_ tiled.2
    rw [one.moved]
    omega

end

/-- Packets are tiled from positions that have less than an octet of bits, as long as no position
    reaches `2 ^ 31` octets and no object with children asks for octets that none of them has. -/
theorem tiles_iff (w : WtNode) (at_ : ItPosition) :
    w.Tiles at_ ↔ at_.bits_.toNat < 8 ∧ w.extent < 8 * 2 ^ 31 ∧
      at_.toBits + w.extent < 8 * 2 ^ 31 ∧ w.Hollow := by
  apply Iff.intro
  · intro tiles
    have sized := Placed.Tiled.sized w at_ tiles.tiled
    have countable := toBits_lt (w.generatePrologue at_).1.size
    have advances := tiles.advances
    have reach := toBits_lt (w.generatePrologue at_).2
    rw [advances, sized] at reach
    rw [sized] at countable
    have normal := normal_of_advances w at_ tiles.tiled advances
    exact ⟨normal, by exact_mod_cast countable, reach,
      hollow_of_tiled w at_ normal reach tiles.tiled⟩
  · rintro ⟨normal, countable, reach, hollow⟩
    have set := stands w at_ normal hollow countable reach
    have follow := set.follow
    rw [← set.moved] at follow
    exact ⟨set.begins, set.tiled, follow, by rw [set.moved, set.sized]⟩

/-- The last 40 octets of a header of 40, as the data of a payload. -/
theorem not_tiles : ¬ ∀ (w : WtNode) (at_ : ItPosition), w.Tiles at_ := by
  intro all
  have sum := (all (.tree (some .data) (some (.function (.right 40)))
    [.substr (some .function) (some (.function (.right 40))) (.member (some (.octets 40)) none)])
    ⟨48, 0⟩).tiled.2.1
  revert sum
  decide

end WtNode

end Tahi.Pz
