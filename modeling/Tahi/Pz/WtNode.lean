import Tahi.Pz.ItPosition

/-! # Where the objects of a composed packet stand

Before a packet is generated, every object of the tree is told where it begins, and finds out how
long it is. The positions that are handed on mix octets and bits.
-/

namespace Tahi.Pz

/-- What a function says of the length of its value. Two of them look at the first child of the
    object that asks, `next`. -/
inductive MvFunction where
  | fixed (length : UInt32)
  | patch
  | right (offset : UInt32)
deriving DecidableEq, Repr

def MvFunction.functionLength (next : Option UInt32) : MvFunction → UInt32
  | fixed length => length
  | patch => next.getD 0
  | right offset => next.elim 0 fun n => n - offset

/-- The right-hand side of a member. -/
inductive PObject where
  | number
  | octets (length : UInt32)
  | function (f : MvFunction)
  | other
deriving DecidableEq, Repr

def PObject.objectLength (next : Option UInt32) : PObject → UInt32
  | number => 1
  | octets length => length
  | function f => f.functionLength next
  | other => 0

inductive MObjectKind where
  | compound
  | uint (width_ : UInt16)
  | octets (length_ : UInt32)
  | varOctets
  | data
  | function
deriving DecidableEq, Repr

def MObjectKind.width : MObjectKind → UInt16
  | uint width_ => width_
  | _ => 0

def MObjectKind.objectLength (next : Option UInt32) (o : Option PObject) : MObjectKind → UInt32
  | compound => 0
  | uint _ => 0
  | octets length_ => length_
  | varOctets | data | function => o.elim 0 (PObject.objectLength next)

/-- An object that has no place yet: a member, a member whose octets an SA gives, a function of a
    part of another object, and an object with children. -/
inductive WtNode where
  | member (m : Option MObjectKind) (o : Option PObject)
  | adds (m : Option MObjectKind) (o : Option PObject) (octets : UInt32)
  | substr (m : Option MObjectKind) (o : Option PObject) (reference : WtNode)
  | tree (m : Option MObjectKind) (o : Option PObject) (children : List WtNode)

namespace WtNode

/-- An object that has its place. `length_` is what `length()` says then. -/
inductive Placed where
  | leaf (w : WtNode) (offset size : ItPosition) (length_ : UInt32)
  | tree (offset size : ItPosition) (length_ : UInt32) (children : List Placed)

namespace Placed

def offset : Placed → ItPosition
  | leaf _ offset _ _ => offset
  | tree offset _ _ _ => offset

def size : Placed → ItPosition
  | leaf _ _ size _ => size
  | tree _ size _ _ => size

def length : Placed → UInt32
  | leaf _ _ _ length_ => length_
  | tree _ _ length_ _ => length_

/-- The octets in front of an object within the one above it. -/
def distance (p : Placed) (parent : Option ItPosition) : UInt32 :=
  match parent with
  | none => p.offset.bytes.toUInt32
  | some top => (p.offset.copy.subtract top).bytes.toUInt32

end Placed

/-- `length()` of an object that has no size. -/
def ownLength (m : Option MObjectKind) (o : Option PObject) (next : Option UInt32) : UInt32 :=
  match m with
  | some m => m.objectLength next o
  | none => o.elim 0 (PObject.objectLength next)

/-- `width()` of an object that has no size. No right-hand side has a width. -/
def ownWidth (m : Option MObjectKind) : UInt16 :=
  m.elim 0 MObjectKind.width

/-- `setSize` and `stepPostion`, behind `internalGeneratePrologue`: the size, the length, and the
    position that goes on. A size that counts negative octets is as good as none. -/
def settle (own : UInt32) (width : UInt16) (at_ it : ItPosition) :
    ItPosition × UInt32 × ItPosition :=
  let size :=
    if at_.copy.eq it then (ItPosition.mk own.toInt32 width).copy
    else it.copy.subtract at_.copy
  let sized : Bool := 0 ≤ size.bytes
  let length_ := if sized then size.bytes.toUInt32 else own
  let width := if sized then size.bits else width
  (size, length_, at_.add ⟨length_.toInt32, width⟩)

mutual

def generatePrologue : WtNode → ItPosition → Placed × ItPosition
  | .member m o, at_ =>
      let (size, length_, at') := settle (ownLength m o none) (ownWidth m) at_ at_.copy
      (.leaf (.member m o) at_.copy size length_, at')
  | .adds m o octets, at_ =>
      let it := at_.copy.addBytes octets.toInt32
      let (size, length_, at') := settle (ownLength m o none) (ownWidth m) at_ it
      (.leaf (.adds m o octets) at_.copy size length_, at')
  | .substr m o reference, at_ =>
      -- The reference is generated into a buffer of its own.
      let next := (reference.generatePrologue ⟨0, 0⟩).1.length
      let (size, length_, at') := settle (ownLength m o (some next)) (ownWidth m) at_ at_.copy
      (.leaf (.substr m o reference) at_.copy size length_, at')
  | .tree m o children, at_ =>
      let (ps, it) := generatePrologues children at_.copy
      let next := ps.head?.map Placed.length
      let (size, length_, at') := settle (ownLength m o next) (ownWidth m) at_ it
      (.tree at_.copy size length_ ps, at')

def generatePrologues : List WtNode → ItPosition → List Placed × ItPosition
  | [], it => ([], it)
  | w :: ws, it =>
      let (p, it) := w.generatePrologue it
      let (ps, it) := generatePrologues ws it
      (p :: ps, it)

end

mutual

/-- The bits that an object stands for. -/
def extent : WtNode → ℕ
  | .member m o => 8 * (ownLength m o none).toNat + (ownWidth m).toNat
  | .adds m o octets =>
      if octets = 0 then 8 * (ownLength m o none).toNat + (ownWidth m).toNat
      else 8 * octets.toNat
  | .substr m o reference =>
      8 * (ownLength m o (some (reference.generatePrologue ⟨0, 0⟩).1.length)).toNat +
        (ownWidth m).toNat
  | .tree _ _ children => extents children

def extents : List WtNode → ℕ
  | [] => 0
  | w :: ws => w.extent + extents ws

end

mutual

/-- An object whose children have no bits has none of its own. -/
def Hollow : WtNode → Prop
  | .tree m o children =>
      Hollows children ∧ (extents children = 0 →
        8 * (ownLength m o (children.head?.map fun _ => 0)).toNat + (ownWidth m).toNat = 0)
  | _ => True

def Hollows : List WtNode → Prop
  | [] => True
  | w :: ws => w.Hollow ∧ Hollows ws

end

/-! ## Tilings -/

namespace Placed

/-- The objects follow each other from `s` to `e`, within one that begins at `base`. -/
def Chain (base : ItPosition) (s : ℤ) : List Placed → ℤ → Prop
  | [], e => s = e
  | p :: ps, e =>
      p.offset.toBits = s ∧ ((p.distance (some base)).toNat : ℤ) = (s - base.toBits) / 8 ∧
        Chain base (s + p.size.toBits) ps e

mutual

/-- In a tree, the children of each object follow each other from its offset and fill it, and a leaf
    has the size of what it stands for. -/
def Tiled : Placed → Prop
  | .leaf w _ size _ => size.toBits = w.extent
  | .tree offset size _ children =>
      Chain offset offset.toBits children (offset.toBits + size.toBits) ∧
        size.toBits = (children.map fun p => p.size.toBits).sum ∧ TiledAll children

def TiledAll : List Placed → Prop
  | [] => True
  | p :: ps => p.Tiled ∧ TiledAll ps

end

mutual

/-- The leaves in order: offsets and sizes. -/
def leaves : Placed → List (ItPosition × ItPosition)
  | .leaf _ offset size _ => [(offset, size)]
  | .tree _ _ _ children => leavesAll children

def leavesAll : List Placed → List (ItPosition × ItPosition)
  | [] => []
  | p :: ps => p.leaves ++ leavesAll ps

end

/-- Places that follow each other from `s` to `e`. -/
def Follow (s : ℤ) : List (ItPosition × ItPosition) → ℤ → Prop
  | [], e => s = e
  | (offset, size) :: rest, e => offset.toBits = s ∧ Follow (s + size.toBits) rest e

end Placed

/-- The object begins where it is told to, its tree is tiled, the leaves tile it, and the position
    goes on by its size. -/
structure Tiles (w : WtNode) (at_ : ItPosition) : Prop where
  begins : (w.generatePrologue at_).1.offset.toBits = at_.toBits
  tiled : (w.generatePrologue at_).1.Tiled
  leaves : Placed.Follow at_.toBits (w.generatePrologue at_).1.leaves
    (w.generatePrologue at_).2.toBits
  advances : (w.generatePrologue at_).2.toBits =
    at_.toBits + (w.generatePrologue at_).1.size.toBits

end WtNode

end Tahi.Pz
