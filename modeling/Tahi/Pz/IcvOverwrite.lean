import Tahi.Pz.TObjectFrame

/-! # The packet as its last destination sees it

The overwriting of the IPv6 header and of a routing header delivers the packet:
its destination, its addresses and its segments left are those of the packet
after every routing step that is left.
-/

namespace Tahi.Pz

open BitField TracedMemory PvOctets SourceRoute

/-- The size of a number member. -/
def bitsSize (w : UInt16) : ItPosition := (ItPosition.mk 0 0).addBits w

/-- The size of an octet member. -/
def octetsSize (n : Int32) : ItPosition := (ItPosition.mk 0 0).addBytes n

/-- The IPv6 header as the decoder leaves it, at the start of the packet. -/
def McTopHdr_IPv6.decoded (m : Memory) : TObject :=
  .compound .children (octetsSize 40)
    [.leaf .const (bitsSize 4),
      .leaf .zero (bitsSize 8),
      .leaf .zero (bitsSize 20),
      .leaf .const (bitsSize 16),
      .leaf .const (bitsSize 8),
      .leaf .zero (bitsSize 8),
      .leaf (.sourceAddress (v6addr m 8)) (octetsSize 16),
      .leaf (.destinationAddress (v6addr m 24)) (octetsSize 16)]

namespace McHdr_Ext_Routing

/-- The header extension length of a routing header at octet `q`. -/
def extLength (m : Memory) (q : Nat) : Nat := (m (q + 1)).toNat

def count (m : Memory) (q : Nat) : Nat := extLength m q / 2

def left (m : Memory) (q : Nat) : Nat := (m (q + 3)).toNat

def addresses (m : Memory) (q : Nat) : List PvOctets :=
  (List.range (count m q)).map fun i => v6addr m (q + 8 + 16 * (i : Nat))

/-- An odd length leaves 8 octets over. -/
def needless (m : Memory) (q : Nat) : List TObject :=
  if extLength m q % 2 = 1 then [.compound .useless (octetsSize 8) []] else []

/-- A routing header as the decoder leaves it. -/
def decoded (m : Memory) (q : Nat) : TObject :=
  .compound .routing (octetsSize (Int32.ofNat (8 * extLength m q + 8)))
    ([.leaf .const (bitsSize 8),
      .leaf .const (bitsSize 8),
      .leaf .const (bitsSize 8),
      .leaf (.segmentsLeft ⟨(UInt32.ofNat (left m q)).toInt32⟩) (bitsSize 8),
      .leaf .const (bitsSize 32)] ++
      (addresses m q).map (fun a => .leaf (.address a) (octetsSize 16)) ++ needless m q)

end McHdr_Ext_Routing

/-- What is known of the IP layer once the packet is decoded. `home` is the source
    address, or the home address of an option that replaces it. -/
def packetInfo (info : Con_IPinfo) (m : Memory) (q : Nat) (home : PvOctets) : Con_IPinfo :=
  McHdr_Ext_Routing.ForIPinfo
    { McTopHdr_IPv6.ForIPinfo info (v6addr m 8) (v6addr m 24) with SrcAddr := some home }
    (UInt32.ofNat (McHdr_Ext_Routing.left m q)) (McHdr_Ext_Routing.addresses m q)

/-- The number of an address. -/
def addrValue (a : PvOctets) : Nat := value a.cell 0 128

/-- The route of a packet: its IPv6 header, and its routing header at octet `q`. -/
def route (m : Memory) (q : Nat) : Route Nat where
  dst := addrValue (v6addr m 24)
  addresses := (McHdr_Ext_Routing.addresses m q).map addrValue
  left := McHdr_Ext_Routing.left m q

/-- What the other members of the IPv6 header store, from a home address. -/
def mutableOverwritten (m : Memory) (home : PvOctets) : Memory :=
  put (put (put (put m 4 8 0) 12 20 0) 56 8 0) 64 128 (addrValue home)

/-- `m'` is `m` with the route `r` in its fields, and else only with what the other
    members of the two headers store. -/
structure Delivered (m m' : Memory) (q : Nat) (home : PvOctets) (r : Route Nat) : Prop where
  destination : value m' 192 128 = r.dst
  segmentsLeft : value m' (8 * q + 24) 8 = r.left
  addresses : ∀ i a, r.addresses[i]? = some a → value m' (8 * q + 64 + (128 * i : Nat)) 128 = a
  topHdr : ∀ k, 0 ≤ k → k < 192 → bit m' k = bit (mutableOverwritten m home) k
  routing : ∀ k, 8 * (q : Int) ≤ k → k < 8 * (q : Int) + 24 ∨ 8 * (q : Int) + 32 ≤ k →
    k < 8 * (q : Int) + 64 ∨ 8 * (q : Int) + 64 + (128 * r.addresses.length : Nat) ≤ k →
    k < 8 * (q : Int) + 8 * (8 * McHdr_Ext_Routing.extLength m q + 8) → bit m' k = bit m k

namespace McHdr_Ext_Routing

variable (m : Memory) (q : Nat)

theorem extLength_lt : extLength m q < 256 := (m (q + 1)).isLt

theorem left_lt : left m q < 256 := (m (q + 3)).isLt

theorem length_addresses : (addresses m q).length = count m q := by
  rw [addresses, List.length_map, List.length_range]

theorem addresses_octets : ∀ a ∈ addresses m q, a.length = 16 := by
  intro a mem
  obtain ⟨i, -, rfl⟩ := List.mem_map.mp mem
  rfl

end McHdr_Ext_Routing

open McHdr_Ext_Routing

/-- The route at its end, as far as the packet tells. -/
theorem step_iterate_route (m : Memory) (q : Nat) (listed : left m q ≤ count m q) :
    step^[left m q] (route m q) =
      ⟨last (addrValue (v6addr m 24))
          (((addresses m q).drop (count m q - left m q)).map addrValue),
        ((addresses m q).take (count m q - left m q)).map addrValue ++
          (shift (v6addr m 24) ((addresses m q).drop (count m q - left m q))).map addrValue,
        0⟩ := by
  have size : (route m q).addresses.length = count m q := by
    rw [route, List.length_map, length_addresses]
  have run := step_iterate_left (route m q) (listed.trans size.ge)
  rw [size] at run
  rw [List.map_drop, List.map_take, map_shift, List.map_drop]
  exact run

/-- The last destination that the headers told of is where the route ends. -/
theorem LastDstAddr_packetInfo (info : Con_IPinfo) (m : Memory) (q : Nat) (home : PvOctets)
    (listed : left m q ≤ count m q) :
    ∃ a, (packetInfo info m q home).LastDstAddr = some a ∧ a.length = 16 ∧
      addrValue a = (step^[left m q] (route m q)).dst := by
  have octet := left_lt m q
  have size := length_addresses m q
  have known : (packetInfo info m q home).LastDstAddr =
      some (if UInt32.ofNat (left m q) > 0 then last (v6addr m 24) (addresses m q)
        else v6addr m 24) := LastDstAddr_ForIPinfo _ _ rfl
  have positive : UInt32.ofNat (left m q) > 0 ↔ 0 < left m q := by
    rw [gt_iff_lt, UInt32.lt_iff_toNat_lt, UInt32.toNat_ofNat_of_lt' (by rw [UInt32.size]; omega)]
    rfl
  rw [step_iterate_route m q listed]
  by_cases some_ : 0 < left m q
  · rw [if_pos (positive.mpr some_)] at known
    refine ⟨_, known, ?_, ?_⟩
    · exact last_of_forall (P := fun a : PvOctets => a.length = 16) rfl (addresses_octets m q)
    · rw [map_last addrValue, List.map_drop, last_drop _ (by rw [List.length_map]; omega)]
  · rw [if_neg (positive.not.mpr some_)] at known
    have none : (addresses m q).drop (count m q - left m q) = [] :=
      List.drop_eq_nil_of_le (by omega)
    exact ⟨_, known, rfl, by rw [none]; rfl⟩

section

variable {host : ByteOrder} {length : UInt32}

theorem child_cons {c c₁ : ICVControl} {at_ : ItPosition} {t : TObject} {ts : List TObject}
    {m m₁ m₂ : Memory} {r : Bool × ICVControl}
    (first : Runs (t.overwrite_ICV host length c at_) m (true, c₁) m₁)
    (rest : Runs (overwrite_ICV_child host length c₁ (at_.add t.size) ts) m₁ r m₂) :
    Runs (overwrite_ICV_child host length c at_ (t :: ts)) m r m₂ := by
  rw [overwrite_ICV_child]
  exact first.bind rest

theorem leaf_cons {c : ICVControl} (c₁ : ICVControl) {at_ size : ItPosition} {ow : ICVoverwriter}
    {ts : List TObject} {m m₁ m₂ : Memory} {r : Bool × ICVControl}
    (first : Runs (ow.overwrite host length c at_ size) m c₁ m₁)
    (rest : Runs (overwrite_ICV_child host length c₁ (at_.add size) ts) m₁ r m₂) :
    Runs (overwrite_ICV_child host length c at_ (.leaf ow size :: ts)) m r m₂ :=
  child_cons (leaf_runs first) rest

/-- Where the objects behind a list of objects start. -/
def after (at_ : ItPosition) (ts : List TObject) : ItPosition :=
  ts.foldl (fun i t => i.add t.size) at_

/-- The objects of two lists, one behind the other. -/
theorem child_append_eq (c : ICVControl) (at_ : ItPosition) (ts us : List TObject) :
    overwrite_ICV_child host length c at_ (ts ++ us) =
      (do
        let (rtn, c) ← overwrite_ICV_child host length c at_ ts
        if rtn then overwrite_ICV_child host length c (after at_ ts) us
        else pure (false, c)) := by
  induction ts generalizing c at_ with
  | nil =>
      simp only [List.nil_append, overwrite_ICV_child, pure_bind, if_true]
      rfl
  | cons t ts ih =>
      simp only [List.cons_append, overwrite_ICV_child, bind_assoc]
      congr 1
      funext r
      cases r.1 with
      | false => simp
      | true =>
          simp only [if_true, ih]
          rfl

theorem child_append {c c₁ : ICVControl} {at_ : ItPosition} {ts us : List TObject}
    {m m₁ m₂ : Memory} {r : Bool × ICVControl}
    (first : Runs (overwrite_ICV_child host length c at_ ts) m (true, c₁) m₁)
    (rest : Runs (overwrite_ICV_child host length c₁ (after at_ ts) us) m₁ r m₂) :
    Runs (overwrite_ICV_child host length c at_ (ts ++ us)) m r m₂ := by
  rw [child_append_eq]
  exact first.bind rest

/-- The place of what stands behind a list of objects. -/
theorem Room.after {n : Nat} {w : Int} {at_ : ItPosition} {ts : List TObject}
    (room : Room at_ w n) (bounded : n < 2 ^ 31) (start : ∀ t ∈ ts, 0 ≤ t.size.bytes.toInt)
    (rest : 0 ≤ w - totalBits ts) :
    Room (after at_ ts) (w - totalBits ts) n ∧
      (after at_ ts).toBits = at_.toBits + totalBits ts := by
  induction ts generalizing at_ w with
  | nil =>
      have none : totalBits [] = 0 := rfl
      exact ⟨room.le (by omega), (Int.add_zero _).symm⟩
  | cons t ts ih =>
      have startRest : ∀ u ∈ ts, 0 ≤ u.size.bytes.toInt := fun u mem =>
        start u (List.mem_cons_of_mem t mem)
      have more := totalBits_nonneg startRest
      rw [totalBits_cons] at rest ⊢
      obtain ⟨behind, place⟩ := room.add bounded (start t List.mem_cons_self) (by omega)
      obtain ⟨last, total⟩ := ih behind startRest (by omega)
      refine ⟨last.le (by omega), ?_⟩
      change (Pz.after (at_.add t.size) ts).toBits = _
      rw [total, place]
      omega

variable {c : ICVControl} {at_ size : ItPosition} {ts : List TObject} {m m' : Memory}
  {r : Bool × ICVControl}

theorem const_cons (next : ItPosition) (step : at_.add size = next)
    (rest : Runs (overwrite_ICV_child host length c next ts) m r m') :
    Runs (overwrite_ICV_child host length c at_ (.leaf .const size :: ts)) m r m' :=
  leaf_cons c (Runs.pure c m) (step ▸ rest)

theorem zero_cons (next : ItPosition) (p : Int) (w : Nat) (step : at_.add size = next)
    (place : at_.toBits = p) (width : size.toBits = w) (bounded : length.toNat < 2 ^ 31)
    (room : Room at_ w length.toNat) (start : 0 ≤ size.bytes.toInt)
    (narrow : 8 * size.bytes.toInt < 2 ^ 16)
    (rest : Runs (overwrite_ICV_child host length c next ts) (put m p w 0) r m') :
    Runs (overwrite_ICV_child host length c at_ (.leaf .zero size :: ts)) m r m' := by
  have cleared := zero_runs host bounded (width ▸ room) start narrow m
  rw [place, width] at cleared
  exact leaf_cons c (cleared.yield c) (step ▸ rest)

variable (host m) in
/-- The members of the IPv6 header, in order. -/
theorem topHdr_runs (bounded : length.toNat < 2 ^ 31) (fits : 40 ≤ length.toNat)
    {home last : PvOctets} (homeAddr : c.HomeAddr = some home)
    (lastDst : c.LastDstAddr = some last) (homeOctets : home.length = 16)
    (lastOctets : last.length = 16) :
    Runs ((McTopHdr_IPv6.decoded m).overwrite_ICV host length c ⟨0, 0⟩) m
      (true, { c with CareOfAddr := some (v6addr m 8), ShiftRoutAddr := some (v6addr m 24) })
      (put (mutableOverwritten m home) 192 128 (addrValue last)) := by
  have room {at_ : ItPosition} {w : Int} (normal : at_.bits_.toNat < 8)
      (nonneg : 0 ≤ at_.bytes.toInt) (header : at_.toBits + w ≤ 320) :
      Room at_ w length.toNat := ⟨normal, nonneg, by omega⟩
  have source : Runs (encodeAddr length ⟨8, 0⟩ (some home))
      (put (put (put m 4 8 0) 12 20 0) 56 8 0) () (mutableOverwritten m home) :=
    encodeAddr_runs bounded (room (by decide) (by decide) (by decide)) (Int.le_refl 128)
      homeOctets _
  have destination : Runs (encodeAddr length ⟨24, 0⟩ (some last)) (mutableOverwritten m home) ()
      (put (mutableOverwritten m home) 192 128 (addrValue last)) :=
    encodeAddr_runs bounded (room (by decide) (by decide) (by decide)) (Int.le_refl 128)
      lastOctets _
  rw [← homeAddr] at source
  rw [← lastDst] at destination
  have afterSource : ItPosition.add ⟨8, 0⟩ (octetsSize 16) = ⟨24, 0⟩ := by decide
  simp only [McTopHdr_IPv6.decoded, TObject.overwrite_ICV]
  refine const_cons ⟨0, 4⟩ (by decide) ?_
  refine zero_cons ⟨1, 4⟩ 4 8 (by decide) (by decide) (by decide) bounded
    (room (by decide) (by decide) (by decide)) (by decide) (by decide) ?_
  refine zero_cons ⟨4, 0⟩ 12 20 (by decide) (by decide) (by decide) bounded
    (room (by decide) (by decide) (by decide)) (by decide) (by decide) ?_
  refine const_cons ⟨6, 0⟩ (by decide) (const_cons ⟨7, 0⟩ (by decide) ?_)
  refine zero_cons ⟨8, 0⟩ 56 8 (by decide) (by decide) (by decide) bounded
    (room (by decide) (by decide) (by decide)) (by decide) (by decide) ?_
  refine leaf_cons { c with CareOfAddr := some (v6addr m 8) } (source.yield _) ?_
  rw [afterSource]
  refine leaf_cons { c with
    CareOfAddr := some (v6addr m 8), ShiftRoutAddr := some (v6addr m 24) }
    (destination.yield _) ?_
  rw [overwrite_ICV_child]
  exact Runs.pure _ _

private def addressLeaf (a : PvOctets) : TObject := .leaf (.address a) (octetsSize 16)

private theorem index_succ {c : ICVControl} {n k : Nat} (room : c.RoutAddrindex.toNat + (k + 1) ≤ n)
    (small : n < 2 ^ 32) : (c.RoutAddrindex + 1).toNat = c.RoutAddrindex.toNat + 1 := by
  rw [UInt32.toNat_add]
  exact Nat.mod_eq_of_lt (by change _ + 1 < 2 ^ 32; omega)

/-- The addresses before the shift, by induction on them: nothing is stored. -/
theorem addresses_before (visited : List PvOctets)
    (before : c.RoutAddrindex.toNat + visited.length ≤ (c.RoutAddrmax - c.SegmentsLeft).toNat) :
    ∃ i : UInt32, i.toNat = c.RoutAddrindex.toNat + visited.length ∧
      Runs (overwrite_ICV_child host length c at_ (visited.map addressLeaf)) m
        (true, { c with RoutAddrindex := i }) m := by
  induction visited generalizing c at_ with
  | nil =>
      refine ⟨c.RoutAddrindex, rfl, ?_⟩
      rw [List.map_nil, overwrite_ICV_child]
      exact Runs.pure (true, c) m
  | cons a visited ih =>
      rw [List.length_cons] at before
      have next := index_succ before (c.RoutAddrmax - c.SegmentsLeft).toNat_lt
      have stays : c.isShift_RoutAddr = false := by
        unfold ICVControl.isShift_RoutAddr
        split
        · rfl
        · rw [decide_eq_false_iff_not, ge_iff_le, UInt32.le_iff_toNat_le]
          omega
      have first : Runs (ICVoverwriter.overwrite host length c at_ (octetsSize 16) (.address a)) m
          { c with RoutAddrindex := c.RoutAddrindex + 1 } m := by
        simp only [ICVoverwriter.overwrite, McHdr_Ext_Routing.OWICV_Address, stays,
          Bool.false_eq_true, if_false]
        exact (Runs.pure c m).bind (Runs.pure _ m)
      have rest : (c.RoutAddrindex + 1).toNat + visited.length ≤
          (c.RoutAddrmax - c.SegmentsLeft).toNat := by omega
      obtain ⟨i, index, rest⟩ := @ih { c with RoutAddrindex := c.RoutAddrindex + 1 }
        (at_.add (octetsSize 16)) rest
      refine ⟨i, ?_, leaf_cons _ first rest⟩
      rw [index, next, List.length_cons]
      omega

/-- The shifted addresses, by induction on them: each takes the one before it. -/
theorem addresses_shifted (bounded : length.toNat < 2 ^ 31) (rest : List PvOctets) {d : PvOctets}
    (shifted : c.ShiftRoutAddr = some d) (octets : d.length = 16)
    (restOctets : ∀ a ∈ rest, a.length = 16) (listed : ¬c.RoutAddrmax < c.SegmentsLeft)
    (behind : (c.RoutAddrmax - c.SegmentsLeft).toNat ≤ c.RoutAddrindex.toNat)
    (counted : c.RoutAddrindex.toNat + rest.length ≤ c.RoutAddrmax.toNat)
    (room : Room at_ (128 * rest.length : Nat) length.toNat) :
    ∃ c', c'.CareOfAddr = c.CareOfAddr ∧
      Runs (overwrite_ICV_child host length c at_ (rest.map addressLeaf)) m (true, c')
        (putAll m at_.toBits 128 ((shift d rest).map addrValue)) := by
  induction rest generalizing c at_ m d with
  | nil =>
      refine ⟨c, rfl, ?_⟩
      rw [List.map_nil, overwrite_ICV_child]
      exact Runs.pure (true, c) m
  | cons a rest ih =>
      have width : ((128 * (a :: rest).length : Nat) : Int) = 128 + (128 * rest.length : Nat) := by
        rw [List.length_cons]
        omega
      rw [width] at room
      rw [List.length_cons] at counted
      have next := index_succ counted c.RoutAddrmax.toNat_lt
      have shifts : c.isShift_RoutAddr = true := by
        unfold ICVControl.isShift_RoutAddr
        rw [if_neg listed, decide_eq_true_iff, ge_iff_le, UInt32.le_iff_toNat_le]
        exact behind
      have stored := encodeAddr_runs bounded room (by omega) octets m
      rw [← shifted] at stored
      have first : Runs (ICVoverwriter.overwrite host length c at_ (octetsSize 16) (.address a)) m
          { c with RoutAddrindex := c.RoutAddrindex + 1, ShiftRoutAddr := some a }
          (put m at_.toBits 128 (addrValue d)) := by
        simp only [ICVoverwriter.overwrite, McHdr_Ext_Routing.OWICV_Address, shifts, if_true]
        refine Runs.bind (stored.yield _) ?_
        exact Runs.pure _ _
      have size : (octetsSize 16).toBits = 128 := by decide
      have start : 0 ≤ (octetsSize 16).bytes.toInt := by decide
      obtain ⟨after_, place⟩ := room.add bounded start (by omega)
      rw [size] at after_ place
      have behind' : (c.RoutAddrmax - c.SegmentsLeft).toNat ≤ (c.RoutAddrindex + 1).toNat := by
        omega
      have counted' : (c.RoutAddrindex + 1).toNat + rest.length ≤ c.RoutAddrmax.toNat := by omega
      obtain ⟨c', coa, run⟩ := @ih { c with
          RoutAddrindex := c.RoutAddrindex + 1, ShiftRoutAddr := some a }
        (at_.add (octetsSize 16)) (put m at_.toBits 128 (addrValue d)) a rfl
        (restOctets a List.mem_cons_self) (fun b mem => restOctets b (List.mem_cons_of_mem a mem))
        listed behind' counted' (after_.le (by omega))
      rw [place] at run
      exact ⟨c', coa, leaf_cons _ first run⟩

private theorem addresses_totalBits (as : List PvOctets) :
    totalBits (as.map addressLeaf) = (128 * as.length : Nat) := by
  have one : (octetsSize 16).toBits = 128 := by decide
  induction as with
  | nil => rfl
  | cons a as ih =>
      rw [List.map_cons, totalBits_cons, ih, List.length_cons]
      change (octetsSize 16).toBits + _ = _
      rw [one]
      omega

private theorem addresses_start (as : List PvOctets) :
    ∀ t ∈ as.map addressLeaf, 0 ≤ t.size.bytes.toInt := by
  intro t mem
  obtain ⟨a, -, rfl⟩ := List.mem_map.mp mem
  exact (by decide : 0 ≤ (octetsSize 16).bytes.toInt)

variable (host c m) in
/-- All addresses of a routing header, from the control that its earlier members
    leave. -/
theorem addresses_runs (bounded : length.toNat < 2 ^ 31) (as : List PvOctets) {d : PvOctets}
    (shifted : c.ShiftRoutAddr = some d) (octets : d.length = 16)
    (asOctets : ∀ a ∈ as, a.length = 16) (first : c.RoutAddrindex = 0)
    (counted : c.RoutAddrmax.toNat = as.length) (listed : c.SegmentsLeft.toNat ≤ as.length)
    (room : Room at_ (128 * as.length : Nat) length.toNat) :
    ∃ c', c'.CareOfAddr = c.CareOfAddr ∧
      Runs (overwrite_ICV_child host length c at_ (as.map addressLeaf)) m (true, c')
      (putAll m (at_.toBits + (128 * (as.length - c.SegmentsLeft.toNat) : Nat)) 128
        ((shift d (as.drop (as.length - c.SegmentsLeft.toNat))).map addrValue)) := by
  have le : c.SegmentsLeft ≤ c.RoutAddrmax := by
    rw [UInt32.le_iff_toNat_le]
    omega
  have notLess : ¬c.RoutAddrmax < c.SegmentsLeft := UInt32.not_lt.mpr le
  have shiftpos : (c.RoutAddrmax - c.SegmentsLeft).toNat = as.length - c.SegmentsLeft.toNat := by
    rw [UInt32.toNat_sub_of_le _ _ le, counted]
  have zero : c.RoutAddrindex.toNat = 0 := by
    rw [first]
    rfl
  generalize cut : as.length - c.SegmentsLeft.toNat = k at shiftpos ⊢
  have visited : (as.take k).length = k := by
    rw [List.length_take]
    omega
  have left : (as.drop k).length = as.length - k := List.length_drop
  have before : ∃ i : UInt32, i.toNat = c.RoutAddrindex.toNat + (as.take k).length ∧
      Runs (overwrite_ICV_child host length c at_ ((as.take k).map addressLeaf)) m
        (true, { c with RoutAddrindex := i }) m := addresses_before (as.take k) (by omega)
  obtain ⟨i, index, before⟩ := before
  have size := addresses_totalBits (as.take k)
  rw [visited] at size
  obtain ⟨behind, place⟩ := room.after bounded (addresses_start (as.take k)) (by omega)
  rw [size] at behind place
  have inShift : (c.RoutAddrmax - c.SegmentsLeft).toNat ≤ i.toNat := by omega
  have inList : i.toNat + (as.drop k).length ≤ c.RoutAddrmax.toNat := by omega
  have shifted' : ∃ c', c'.CareOfAddr = ({ c with RoutAddrindex := i } : ICVControl).CareOfAddr ∧
      Runs (overwrite_ICV_child host length { c with RoutAddrindex := i }
        (after at_ ((as.take k).map addressLeaf)) ((as.drop k).map addressLeaf)) m (true, c')
        (putAll m _ 128 ((shift d (as.drop k)).map addrValue)) :=
    addresses_shifted bounded (as.drop k) shifted octets
      (fun a mem => asOctets a (List.mem_of_mem_drop mem)) notLess inShift inList
      (behind.le (by omega))
  obtain ⟨c', coa, run⟩ := shifted'
  rw [place] at run
  refine ⟨c', coa, ?_⟩
  have all : as.map addressLeaf = (as.take k).map addressLeaf ++ (as.drop k).map addressLeaf := by
    rw [← List.map_append, List.take_append_drop]
  rw [all]
  exact child_append before run

/-- Behind a member of `w` bits. -/
private theorem Room.bits {at_ : ItPosition} {w : Int} {n : Nat} (room : Room at_ w n)
    (bounded : n < 2 ^ 31) {u : UInt16} {k : Nat} (width : (bitsSize u).toBits = k)
    (start : 0 ≤ (bitsSize u).bytes.toInt) (rest : 0 ≤ w - k) :
    Room (at_.add (bitsSize u)) (w - k) n ∧ (at_.add (bitsSize u)).toBits = at_.toBits + k := by
  have moved := room.add bounded start (by omega)
  rwa [width] at moved

variable (host c at_) in
theorem needless_runs (m μ : Memory) (q : Nat) :
    Runs (overwrite_ICV_child host length c at_ (McHdr_Ext_Routing.needless m q)) μ (true, c) μ := by
  unfold McHdr_Ext_Routing.needless
  split
  · have first : Runs ((TObject.compound .useless (octetsSize 8) []).overwrite_ICV host length c
        at_) μ (true, c) μ := by
      rw [TObject.overwrite_ICV]
      exact Runs.pure (true, c) μ
    apply child_cons first
    rw [overwrite_ICV_child]
    exact Runs.pure (true, c) μ
  · rw [overwrite_ICV_child]
    exact Runs.pure (true, c) μ

variable (host m) in
/-- The number of addresses is read from the second octet of the header. -/
theorem MLC_Address_runs (bounded : length.toNat < 2 ^ 31) {w : Int}
    (room : Room at_ w length.toNat) (wide : 16 ≤ w) {n : Nat} (octet : n < 256)
    (kept : value m (at_.toBits + 8) 8 = n) :
    ∃ count : UInt32, count.toNat = n / 2 ∧
      Runs (McHdr_Ext_Routing.MLC_Address host at_) m count m := by
  have start : 0 ≤ (ItPosition.mk 1 0).bytes.toInt := by decide
  have size : (ItPosition.mk 1 0).toBits = 8 := by decide
  obtain ⟨behind, place⟩ := room.copy.add bounded start (by omega)
  rw [size] at behind place
  have read := octet_runs host bounded behind (by omega) m
  rw [place, ItPosition.toBits_copy, kept] at read
  refine ⟨UInt32.ofNat n / 2, ?_, read.bind (Runs.pure (UInt32.ofNat n / 2) m)⟩
  rw [UInt32.toNat_div, UInt32.toNat_ofNat_of_lt' (by rw [UInt32.size]; omega)]
  rfl

variable (host c size m) in
theorem segmentsLeft_runs (bounded : length.toNat < 2 ^ 31) {w : Int}
    (room : Room at_ w length.toNat) (wide : 8 ≤ w) {n : Nat} (octet : n < 256) :
    ∃ left : UInt32, left.toNat = n ∧
      Runs (ICVoverwriter.overwrite host length c at_ size
        (.segmentsLeft ⟨(UInt32.ofNat n).toInt32⟩)) m { c with SegmentsLeft := left }
        (put m at_.toBits 8 0) := by
  have inside : Inside at_ (8 : UInt16).toNat length.toNat := room.inside bounded wide
  have cleared := (encodeUint_stores host 0 inside (by decide) (by decide)).puts.runs m
  refine ⟨UInt32.ofNat n, UInt32.toNat_ofNat_of_lt' (by rw [UInt32.size]; omega), ?_⟩
  have stored : (PvNumber.mk (UInt32.ofNat n).toInt32).value.toUInt32 = UInt32.ofNat n :=
    UInt32.toUInt32_toInt32 _
  simp only [ICVoverwriter.overwrite, stored]
  exact cleared.yield _

theorem decoded_size (m : Memory) (q : Nat) : 0 ≤ (decoded m q).size.bytes.toInt ∧
    (decoded m q).size.toBits = (8 * (8 * extLength m q + 8) : Nat) := by
  have octet := extLength_lt m q
  have bytes : (decoded m q).size.bytes.toInt = (8 * extLength m q + 8 : Nat) := by
    have whole : (decoded m q).size.bytes = Int32.ofNat (8 * extLength m q + 8) := by
      change (ItPosition.mk (0 + Int32.ofNat (8 * extLength m q + 8)) 0).bytes = _
      rw [ItPosition.bytes_mk (by decide), Int32.zero_add]
    rw [whole, Int32.toInt_ofNat_of_lt (by omega)]
  have bits : (decoded m q).size.bits = 0 := rfl
  refine ⟨by omega, ?_⟩
  rw [ItPosition.toBits, bytes, bits]
  change 8 * _ + (0 : Int) = _
  omega

variable (host c) in
/-- The members of a routing header at octet `q`. The buffer `μ` may differ from the
    packet `m` that was decoded, but not in the length of this header. -/
theorem routing_runs (bounded : length.toNat < 2 ^ 31) (m μ : Memory) {q : Nat} {d : PvOctets}
    (shifted : c.ShiftRoutAddr = some d) (octets : d.length = 16)
    (listed : left m q ≤ count m q) (place : at_.toBits = 8 * q)
    (room : Room at_ (8 * (8 * extLength m q + 8) : Nat) length.toNat)
    (kept : value μ (8 * q + 8) 8 = extLength m q) :
    ∃ c', c'.CareOfAddr = c.CareOfAddr ∧
      Runs ((decoded m q).overwrite_ICV host length c at_) μ (true, c')
      (putAll (put μ (8 * q + 24) 8 0)
        (8 * q + 64 + (128 * (count m q - left m q) : Nat)) 128
        ((shift d ((addresses m q).drop (count m q - left m q))).map addrValue)) := by
  have extOctet := extLength_lt m q
  have leftOctet := left_lt m q
  have half : count m q = extLength m q / 2 := rfl
  have size := length_addresses m q
  have width8 : (bitsSize 8).toBits = (8 : Nat) := by decide
  have start8 : 0 ≤ (bitsSize 8).bytes.toInt := by decide
  have width32 : (bitsSize 32).toBits = (32 : Nat) := by decide
  have start32 : 0 ≤ (bitsSize 32).bytes.toInt := by decide
  have place0 := (ItPosition.toBits_copy at_).trans place
  -- The places of the members, each behind the one before it.
  obtain ⟨room1, place1⟩ := Room.bits room.copy bounded width8 start8 (by omega)
  obtain ⟨room2, place2⟩ := Room.bits room1 bounded width8 start8 (by omega)
  obtain ⟨room3, place3⟩ := Room.bits room2 bounded width8 start8 (by omega)
  obtain ⟨room4, place4⟩ := Room.bits room3 bounded width8 start8 (by omega)
  obtain ⟨room5, place5⟩ := Room.bits room4 bounded width32 start32 (by omega)
  obtain ⟨n, countValue, counted⟩ := MLC_Address_runs host μ bounded room (by omega)
    extOctet (by rw [place]; exact kept)
  obtain ⟨s, leftValue, cleared⟩ := segmentsLeft_runs host
    { c with RoutAddrmax := n, RoutAddrindex := 0, SegmentsLeft := 0 } (bitsSize 8) μ bounded
    room3 (by omega) leftOctet
  have sixteen := addresses_octets m q
  have field : (((at_.copy.add (bitsSize 8)).add (bitsSize 8)).add (bitsSize 8)).toBits =
      8 * q + 24 := by omega
  have behind : (((((at_.copy.add (bitsSize 8)).add (bitsSize 8)).add (bitsSize 8)).add
      (bitsSize 8)).add (bitsSize 32)).toBits = 8 * q + 64 := by omega
  obtain ⟨c', coa, run⟩ := addresses_runs host
    { c with RoutAddrmax := n, RoutAddrindex := 0, SegmentsLeft := s } (put μ (8 * q + 24) 8 0)
    bounded (addresses m q) shifted octets sixteen rfl (by rw [size]; exact countValue)
    (by rw [size]; exact leftValue.le.trans listed) (room5.le (by omega))
  rw [size, leftValue, behind] at run
  rw [field] at cleared
  refine ⟨c', coa, ?_⟩
  simp only [decoded, TObject.overwrite_ICV, List.cons_append, List.nil_append]
  refine counted.bind ?_
  refine const_cons _ rfl (const_cons _ rfl (const_cons _ rfl (leaf_cons _ cleared ?_)))
  exact const_cons _ rfl (child_append run (needless_runs host c' _ m _ q))

end

/-- What the members of the IPv6 header store stays in it. -/
private theorem topHdr_outside (m : Memory) (home : PvOctets) (v : Nat) {j : Int}
    (behind : 320 ≤ j) : bit (put (mutableOverwritten m home) 192 128 v) j = bit m j := by
  rw [(writes_put _ _ _ _).outside (by omega), mutableOverwritten,
    (writes_put _ _ _ _).outside (by omega), (writes_put _ _ _ _).outside (by omega),
    (writes_put _ _ _ _).outside (by omega), (writes_put _ _ _ _).outside (by omega)]

/-- The packet is delivered when the buffer went through `μ₁`, the IPv6 header,
    `μ₂`, what stands before the routing header, and the routing header itself. -/
private theorem delivered_of {m μ₁ μ₂ m' : Memory} {q : Nat} {home last_ : PvOctets}
    (behind : 40 ≤ q) (listed : left m q ≤ count m q)
    (ends : addrValue last_ = (step^[left m q] (route m q)).dst)
    (topHdr : μ₁ = put (mutableOverwritten m home) 192 128 (addrValue last_))
    (before : ∀ k, k < 320 ∨ 8 * (q : Int) ≤ k → bit μ₂ k = bit μ₁ k)
    (after : ∀ k, k < 8 * (q : Int) + 8 * (8 * extLength m q + 8) → bit m' k =
      bit (putAll (put μ₂ (8 * q + 24) 8 0) (8 * q + 64 + (128 * (count m q - left m q) : Nat)) 128
        ((shift (v6addr m 24) ((addresses m q).drop (count m q - left m q))).map addrValue)) k) :
    Delivered m m' q home (step^[left m q] (route m q)) := by
  have half : count m q = extLength m q / 2 := rfl
  have size := length_addresses m q
  have ended := step_iterate_route m q listed
  have addrLt (a : PvOctets) : addrValue a < 2 ^ 128 := value_lt a.cell 0 128
  generalize k_eq : count m q - left m q = k at after ended
  generalize moved_eq : (shift (v6addr m 24) ((addresses m q).drop k)).map addrValue = moved
    at after ended
  have movedLength : moved.length = left m q := by
    rw [← moved_eq, List.length_map, length_shift, List.length_drop]
    omega
  have movedSmall : ∀ x ∈ moved, x < 2 ^ 128 := by
    intro x mem
    rw [← moved_eq] at mem
    obtain ⟨a, -, rfl⟩ := List.mem_map.mp mem
    exact addrLt a
  have total : (step^[left m q] (route m q)).addresses.length = count m q := by
    rw [ended, List.length_append, List.length_map, List.length_take, movedLength]
    omega
  -- Before the routing header only the IPv6 header is changed, behind its start only
  -- the segments left and the shifted addresses are.
  have early {j : Int} (inside : j < 320) : bit m' j = bit μ₁ j := by
    rw [after j (by omega), putAll_outside _ _ _ _ (by omega),
      (writes_put _ _ _ _).outside (by omega), before j (by omega)]
  have late {j : Int} (start : 8 * (q : Int) ≤ j)
      (field : j < 8 * (q : Int) + 24 ∨ 8 * (q : Int) + 32 ≤ j)
      (shifted : j < 8 * (q : Int) + 64 + (128 * k : Nat) ∨
        8 * (q : Int) + 64 + (128 * count m q : Nat) ≤ j)
      (ends : j < 8 * (q : Int) + 8 * (8 * extLength m q + 8)) : bit m' j = bit m j := by
    rw [after j ends, putAll_outside _ _ _ _ (by omega),
      (writes_put _ _ _ _).outside (by omega), before j (by omega), topHdr,
      topHdr_outside m home _ (by omega)]
  constructor
  case destination =>
    have stored := (writes_put (mutableOverwritten m home) 192 128 (addrValue last_)).value_eq
    rw [← topHdr, Nat.mod_eq_of_lt (addrLt last_)] at stored
    rw [← ends, ← stored]
    exact value_congr fun j _ _ => early (by omega)
  case segmentsLeft =>
    have stored := (writes_put μ₂ (8 * q + 24) 8 0).value_eq
    rw [ended]
    refine Eq.trans ?_ stored
    apply value_congr
    intro j _ _
    rw [after j (by omega), putAll_outside _ _ _ _ (by omega)]
  case addresses =>
    intro i a listedAt
    have visited : ((addresses m q).take k).length = k := by
      rw [List.length_take]
      omega
    rw [ended, List.getElem?_append, List.length_map, visited] at listedAt
    by_cases notShifted : i < k
    · rw [if_pos notShifted, List.getElem?_map, List.getElem?_take, if_pos notShifted] at listedAt
      have held : addrValue (v6addr m (q + 8 + 16 * (i : Nat))) = a := by
        have inside : i < count m q := by omega
        simpa [addresses, inside] using listedAt
      have place : (0 : Int) + 8 * (q + 8 + 16 * (i : Nat)) = 8 * q + 64 + (128 * i : Nat) := by
        omega
      rw [← held, addrValue, v6addr, value_shift, place]
      exact value_congr fun j _ _ => late (by omega) (by omega) (by omega) (by omega)
    · rw [if_neg notShifted] at listedAt
      have inside : i - k < moved.length := (List.getElem?_eq_some_iff.mp listedAt).1
      have stored := value_putAll (put μ₂ (8 * q + 24) 8 0) (8 * q + 64 + (128 * k : Nat)) 128
        listedAt movedSmall
      have place : 8 * (q : Int) + 64 + (128 * k : Nat) + (128 * (i - k) : Nat) =
          8 * q + 64 + (128 * i : Nat) := by omega
      rw [place] at stored
      rw [← stored]
      exact value_congr fun j _ _ => after j (by omega)
  case topHdr =>
    intro j start inside
    rw [early (by omega), topHdr, (writes_put _ _ _ _).outside (by omega)]
  case routing =>
    intro j start field away inside
    rw [total] at away
    exact late start field (by omega) inside

/-- Whatever other headers stand between the IPv6 header and the routing header and
    behind it, the packet is delivered to the copy that the check value is taken of. -/
theorem overwrite_ICV_delivers (host : ByteOrder) {length : UInt32}
    (bounded : length.toNat < 2 ^ 31) (m : Memory) (q : Nat) {between rest : List TObject}
    (passed : ∀ t ∈ between, Framed false t) (followed : ∀ t ∈ rest, Framed true t)
    (meets : 320 + totalBits between = 8 * q)
    (fits : 8 * q + 8 * (8 * extLength m q + 8) + totalBits rest ≤ 8 * (length.toNat : Int))
    (listed : left m q ≤ count m q) {home : PvOctets} (homeOctets : home.length = 16)
    (info : Con_IPinfo) :
    ∃ r s, overwrite_ICV_child host length (ICVControl.start (packetInfo info m q home)) ⟨0, 0⟩
        (McTopHdr_IPv6.decoded m ::
          (between ++ McHdr_Ext_Routing.decoded m q :: rest)) ⟨m, []⟩ = some (r, s) ∧
      Delivered m s.cell q home (step^[left m q] (route m q)) := by
  have extOctet := extLength_lt m q
  obtain ⟨last_, lastDst, lastOctets, ends⟩ := LastDstAddr_packetInfo info m q home listed
  have passedStart : ∀ t ∈ between, 0 ≤ t.size.bytes.toInt := fun t mem => (passed t mem).start
  have followedStart : ∀ t ∈ rest, 0 ≤ t.size.bytes.toInt := fun t mem => (followed t mem).start
  have betweenBits := totalBits_nonneg passedStart
  have restBits := totalBits_nonneg followedStart
  have homeAddr : (ICVControl.start (packetInfo info m q home)).HomeAddr = some home :=
    SrcAddr_ForIPinfo _ _ _
  have topHdr := topHdr_runs host m bounded (by omega) homeAddr lastDst homeOctets lastOctets
  generalize top_eq : put (mutableOverwritten m home) 192 128 (addrValue last_) = μ₁ at topHdr
  generalize control_eq : ({ ICVControl.start (packetInfo info m q home) with
    CareOfAddr := some (v6addr m 8), ShiftRoutAddr := some (v6addr m 24) } : ICVControl) = c₁
    at topHdr
  have shift₁ : c₁.ShiftRoutAddr = some (v6addr m 24) := by
    rw [← control_eq]
  have coa : ∀ a ∈ c₁.CareOfAddr, a.length = 16 := by
    rw [← control_eq]
    rintro a ⟨⟩
    rfl
  have place : (ItPosition.mk 40 0).toBits = 320 := by decide
  have room₁ : Room ⟨40, 0⟩ (totalBits between + (8 * (8 * extLength m q + 8) + totalBits rest))
      length.toNat := by
    refine ⟨by decide, by decide, ?_⟩
    omega
  have step₁ : ItPosition.add ⟨0, 0⟩ (McTopHdr_IPv6.decoded m).size = ⟨40, 0⟩ :=
    (by decide : ItPosition.add ⟨0, 0⟩ (octetsSize 40) = ⟨40, 0⟩)
  obtain ⟨b, c₂, μ₂, run₂, goes, -, shift₂, coa₂, before⟩ :=
    children_frames host bounded passedStart (fun t mem => (passed t mem).frames host bounded)
      c₁ ⟨40, 0⟩ μ₁ (room₁.le (by omega)) coa
  obtain rfl : b = true := goes rfl
  rw [place] at before
  obtain ⟨room₂, place₂⟩ := room₁.after bounded passedStart (by omega)
  have shift : c₂.ShiftRoutAddr = some (v6addr m 24) := shift₂.trans shift₁
  have length : value μ₂ (8 * q + 8) 8 = extLength m q := by
    have octet : 8 * (q : Int) + 8 = 8 * (q + 1) := by omega
    rw [extLength, ← value_octet, octet]
    apply value_congr
    intro j _ _
    rw [before j (by omega), ← top_eq, topHdr_outside m home _ (by omega)]
  obtain ⟨c₃, coa₃, run₃⟩ := routing_runs host c₂ bounded m μ₂ shift rfl listed (by omega)
    (room₂.le (by omega)) length
  obtain ⟨start₃, size₃⟩ := decoded_size m q
  obtain ⟨room₃, place₃⟩ := room₂.add bounded start₃ (by omega)
  obtain ⟨r, c₄, m', run₄, -, -, -, -, behind⟩ :=
    children_frames host bounded followedStart (fun t mem => (followed t mem).frames host bounded)
      c₃ _ _ (room₃.le (by omega)) (by rwa [coa₃, coa₂])
  have run := child_cons topHdr (step₁ ▸ child_append run₂ (child_cons run₃ run₄))
  obtain ⟨ts, run⟩ := run []
  refine ⟨_, _, run, ?_⟩
  exact delivered_of (by omega) listed ends top_eq.symm (fun j away => before j (by omega))
    (fun j inside => behind j (by omega))

/-- A packet of 96 octets whose routing header at octet 48 lists two addresses, with
    one segment left. Every other octet is its own number. -/
def samplePacket : Memory := fun a =>
  if a = 49 then 4 else if a = 51 then 1 else BitVec.ofInt 8 a

/-- A hop-by-hop header with four octets of padding. -/
def paddedHopByHop : TObject :=
  .compound .children (octetsSize 8)
    [.leaf .const (bitsSize 8), .leaf .const (bitsSize 8),
      .compound .option (octetsSize 6)
        [.leaf .const (bitsSize 8), .leaf .const (bitsSize 8), .leaf .optExtData (octetsSize 4)]]

theorem framed_paddedHopByHop : Framed false paddedHopByHop := by
  have option : ∀ t ∈ [TObject.leaf .const (bitsSize 8), .leaf .const (bitsSize 8),
      .leaf .optExtData (octetsSize 4)], Framed false t := by
    simp only [List.forall_mem_cons]
    exact ⟨.const (by decide), .const (by decide), .optExtData (by decide) (by decide), by simp⟩
  have header : ∀ t ∈ [TObject.leaf .const (bitsSize 8), .leaf .const (bitsSize 8),
      .compound .option (octetsSize 6) [.leaf .const (bitsSize 8), .leaf .const (bitsSize 8),
        .leaf .optExtData (octetsSize 4)]], Framed false t := by
    simp only [List.forall_mem_cons]
    exact ⟨.const (by decide), .const (by decide),
      .option (by decide) (by decide) option (by decide), by simp⟩
  exact .children (by decide) header (by decide)

/-- The sample packet is delivered with its second address as its destination. -/
theorem overwrite_ICV_delivers_sample :
    ∃ r s, overwrite_ICV_child .little 96
        (ICVControl.start (packetInfo ⟨none, none, false⟩ samplePacket 48 (v6addr samplePacket 8)))
        ⟨0, 0⟩ (McTopHdr_IPv6.decoded samplePacket ::
          ([paddedHopByHop] ++ McHdr_Ext_Routing.decoded samplePacket 48 :: []))
        ⟨samplePacket, []⟩ = some (r, s) ∧
      Delivered samplePacket s.cell 48 (v6addr samplePacket 8)
        (step^[left samplePacket 48] (route samplePacket 48)) :=
  overwrite_ICV_delivers .little (by decide) samplePacket 48
    (List.forall_mem_singleton.mpr framed_paddedHopByHop) (by simp) (by decide) (by decide)
    (by decide) rfl ⟨none, none, false⟩

end Tahi.Pz
