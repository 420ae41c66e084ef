import Tahi.Pz.IPinfo
import Tahi.Pz.ItPosition
import Tahi.Pz.PAlgorithm
import Tahi.Pz.PvNumber

/-! # Decoded objects and the state of the decoder

The decoder makes a tree: a compound has the octets it was decoded from, a member
has the value it was decoded to. Both know where they stand in the object above.
A compound tells the ones after it which type comes next, and an ESP header takes
the next security association of the packet definition.
-/

namespace Tahi.Pz

/-- An object with metas of type `M` and values of type `V`. -/
inductive RObject (M V : Type) where
  | mk (m : M) (offset size : ItPosition) (pvalue : V) (children : List (RObject M V))

namespace RObject

variable {M V : Type}

def meta_ : RObject M V → M
  | .mk m _ _ _ _ => m

def offset : RObject M V → ItPosition
  | .mk _ offset _ _ _ => offset

def size : RObject M V → ItPosition
  | .mk _ _ size _ _ => size

def pvalue : RObject M V → V
  | .mk _ _ _ pvalue _ => pvalue

def children : RObject M V → List (RObject M V)
  | .mk _ _ _ _ children => children

mutual

/-- The first object of the tree that has the meta, the object itself before its
    children. -/
def corresponding [DecidableEq M] (c : M) : RObject M V → Option (RObject M V)
  | .mk m offset size pvalue children =>
      if c = m then some (.mk m offset size pvalue children)
      else correspondingChild c children

def correspondingChild [DecidableEq M] (c : M) : List (RObject M V) → Option (RObject M V)
  | [] => none
  | r :: rest =>
      match corresponding c r with
      | some f => some f
      | none => correspondingChild c rest

end

end RObject

/-- `Con_DictType`: what selects the next compound of a dictionary. -/
inductive Con_DictType where
  | uneffect
  | finish
  | other
  | effect (type : Int32)
deriving DecidableEq, Repr

structure Con_ESPinfo where
  padlen : UInt32 := 0
  payloadlen : UInt32 := 0
deriving DecidableEq, Repr

/-- An entry of the list of algorithms, which holds the associations of AH headers
    too. -/
inductive PaObject where
  | ah (auth_ : Option PfAuth)
  | esp (sa : PaESP)

namespace PaObject

def ICV_Length : PaObject → UInt32
  | ah (some auth_) => auth_.ICV_Length
  | ah none => 0
  | esp sa => sa.ICV_Length

def ivecLength : PaObject → UInt32
  | ah _ => 0
  | esp sa => sa.ivecLength

/-- The plain text, which only an ESP association has, and the initial vector. -/
def Decrypted_Octets : PaObject → PvOctets → Option PvOctets × Option PvOctets
  | ah _, _ => (none, none)
  | esp sa, buf =>
      let (dec, ivec) := sa.Decrypted_Octets buf
      (some dec, ivec)

end PaObject

/-- `RSAControl`. `algorithms` are the security associations from `current_` on. -/
structure RControl extends PControl where
  DictType : Con_DictType := .uneffect
  SPI : UInt32 := 0
  poping_SA : Option PaObject := none
  ESPinfo : Con_ESPinfo := {}
  IPinfo : Option Con_IPinfo := none
  algorithms : List PaObject := []

namespace RControl

def setError (c : RControl) (ecode : Int) : RControl :=
  { c with toPControl := c.toPControl.setError ecode }

def setWarning (c : RControl) (wcode : Int) : RControl :=
  { c with toPControl := c.toPControl.setWarning wcode }

def result (c : RControl) (ecode : Int) : RControl := c.setError ecode

def setDictType (c : RControl) (t : Con_DictType) : RControl := { c with DictType := t }

def pop_SA (c : RControl) : Option PaObject × RControl :=
  (c.algorithms.head?, { c with algorithms := c.algorithms.tail })

/-- The next association of the list is taken, whatever its kind. -/
def set_pop_SA (c : RControl) : RControl :=
  let (sa, c) := c.pop_SA
  let c := if sa.isNone then c.setWarning 1 else c
  { c with poping_SA := sa }

@[simp] theorem error_setError (c : RControl) (e : Int) : (c.setError e).error = true := rfl

@[simp] theorem error_result (c : RControl) (e : Int) : (c.result e).error = true := rfl

@[simp] theorem error_setWarning (c : RControl) (w : Int) : (c.setWarning w).error = c.error :=
  c.toPControl.error_setWarning w

@[simp] theorem error_setDictType (c : RControl) (t : Con_DictType) :
    (c.setDictType t).error = c.error := rfl

@[simp] theorem error_set_pop_SA (c : RControl) : c.set_pop_SA.error = c.error := by
  cases sas : c.algorithms with
  | nil => simp [set_pop_SA, pop_SA, sas]
  | cons sa rest => simp [set_pop_SA, pop_SA, sas]

end RControl

/-- The values of decoded objects. An SA reference has the name of the association,
    which nothing reads. -/
inductive PvObject where
  | number (n : PvNumber)
  | octets (o : PvOctets)
  | name

/-- A decoded object. Its meta is known by the string of the member or compound. -/
abbrev Decoded := RObject String PvObject

end Tahi.Pz
