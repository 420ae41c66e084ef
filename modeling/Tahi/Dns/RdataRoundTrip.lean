import Tahi.Dns.KDnsRdata

/-! # Records that are generated come back

Numbers, strings and names are read where they were put. A record with data of one of the
types comes back with the values of the data, but for one of options.
-/

namespace Tahi.Dns

open Perl

variable {data before rest : List UInt8}

/-! ## Reading at an offset -/

theorem unpack_pack {fields : List (Nat × Nat)} (fit : ∀ f ∈ fields, f.2 < 256 ^ f.1) :
    (unpack ((fields.map Prod.fst).map .int) (pack fields ++ rest)).filterMap
      (fun item => Item.num? (some item)) = fields.map Prod.snd := by
  induction fields with
  | nil => rfl
  | cons f fields ih =>
      obtain ⟨size, n⟩ := f
      have long : ¬ (packInt size n ++ (pack fields ++ rest)).length < size := by
        rw [List.length_append, length_packInt]
        omega
      have first := ih fun f mem => fit f (List.mem_cons_of_mem _ mem)
      have number : Perl.be (packInt size n) = n := by
        rw [be_packInt]
        exact Nat.mod_eq_of_lt (fit (size, n) List.mem_cons_self)
      simp only [List.map_cons, pack_cons, List.append_assoc, unpack, long, if_false,
        List.take_left' (length_packInt size n), List.drop_left' (length_packInt size n), number,
        List.filterMap_cons, first]
      rfl

theorem lt_octet (n : UInt8) : n.toNat < 256 := n.toNat_lt

theorem lt_sixteen (n : UInt16) : n.toNat < 65536 := n.toNat_lt

theorem lt_word (n : UInt32) : n.toNat < 4294967296 := n.toNat_lt

theorem numbers_pack {fields : List (Nat × Nat)} (shape : data = before ++ pack fields ++ rest)
    (fit : ∀ f ∈ fields, f.2 < 256 ^ f.1) :
    numbers data before.length (fields.map Prod.fst) = some (fields.map Prod.snd) := by
  have within : ¬ data.length < before.length := by
    simp only [shape, List.length_append]
    omega
  rw [numbers, if_neg within, shape, List.append_assoc, List.drop_left, unpack_pack fit]

theorem octets_at {l : List UInt8} (offset : Nat) (shape : data = before ++ l ++ rest)
    (place : before.length = offset) : octets data offset l.length = some l := by
  subst place
  have within : ¬ (data.length < before.length ∨ (l.length : Int) < 0) := by
    simp only [shape, List.length_append]
    omega
  rw [octets, if_neg within, shape, List.append_assoc, List.drop_left, Int.toNat_natCast,
    List.take_left]

/-- What comes of a string. The empty one is left undefined. -/
def decodedString (s : List UInt8) : DNSString where
  _size_ := 1 + s.length
  length := s.length
  string := if s = [] then none else some s
  positive := Nat.lt_add_right _ Nat.one_pos

theorem kDec_DNS_String_at {s : List UInt8} (most : s.length ≤ 255) (offset : Nat)
    (shape : data = before ++ (packInt 1 s.length ++ s) ++ rest)
    (place : before.length = offset) :
    kDec_DNS_String data offset = ([], some (decodedString s)) := by
  subst place
  have size : (UInt8.ofNat s.length).toNat = s.length := by
    rw [UInt8.toNat_ofNat', Nat.mod_eq_of_lt (by omega)]
  have octet : data[before.length]? = some (UInt8.ofNat s.length) := by
    simp [shape, packInt]
  have long : ¬ data.length < before.length + 1 + s.length := by
    simp [shape, packInt]
    omega
  have read : (data.drop (before.length + 1)).take s.length = s := by
    rw [shape, List.append_assoc, packInt, packInt, List.nil_append, List.singleton_append,
      ← List.drop_drop, List.drop_left, List.cons_append, List.drop_one, List.tail_cons,
      List.take_left]
  simp only [kDec_DNS_String, octet, size, long, if_false, read]
  by_cases empty : s = []
  · subst empty
    rfl
  · rw [if_neg (by simpa using empty)]
    simp [decodedString, empty, kInit_DNS_Error]

/-! ## Values -/

/-- A name without a pointer. -/
structure CompleteName where
  name : Str
  proper : Proper (names name)

namespace CompleteName

@[grind =]
def generate (n : CompleteName) : List UInt8 := kGen_DNS_Name n.name none

def decoded (n : CompleteName) : Name := decodedName n.name none []

theorem size_decoded (n : CompleteName) : n.decoded._size_ = n.generate.length := rfl

theorem decode (n : CompleteName) (offset : Nat) (shape : data = before ++ n.generate ++ rest)
    (place : before.length = offset) (depth : Nat) :
    kDec_DNS_Name data (depth + 1) (some offset) = some ([], some n.decoded) :=
  place ▸ kDec_complete shape n.proper depth

end CompleteName

/-- The values the data of a record is generated from. -/
inductive RData where
  | mx (preference : UInt16) (exchange : CompleteName)
  | txt (texts : List {t : List UInt8 // 1 ≤ t.length ∧ t.length ≤ 255})
  | sig (type : UInt16) (algorithm labels : UInt8) (ttl expiration inception : UInt32)
      (tag : UInt16) (name : CompleteName) (signature : List UInt8)
  | key (keytype : Fin 4) (reserved1 extension : Fin 2) (reserved2 nametype : Fin 4)
      (reserved3 signatory : Fin 16) (protocol algorithm : UInt8) (pubkey : List UInt8)
  | nxt (next : CompleteName) (bitmap : List UInt8)
  | srv (priority weight port : UInt16) (target : CompleteName)
  | naptr (order preference : UInt16) (flags services regexp : {s : List UInt8 // s.length ≤ 255})
      (replacement : CompleteName)
  | opt (options : List (UInt16 × {d : List UInt8 // d.length < 2 ^ 16}))

namespace RData

def generate : RData → List UInt8
  | mx preference exchange => kGen_DNS_RDATA_MX preference.toNat exchange.generate
  | txt texts => kGen_DNS_RDATA_TXT (texts.map Subtype.val)
  | sig type algorithm labels ttl expiration inception tag name signature =>
      kGen_DNS_RDATA_SIG type.toNat algorithm.toNat labels.toNat ttl.toNat expiration.toNat
        inception.toNat tag.toNat name.generate signature
  | key keytype reserved1 extension reserved2 nametype reserved3 signatory protocol algorithm
      pubkey =>
      kGen_DNS_RDATA_KEY keytype reserved1 extension reserved2 nametype reserved3 signatory
        protocol.toNat algorithm.toNat pubkey
  | nxt next bitmap => kGen_DNS_RDATA_NXT next.generate bitmap
  | srv priority weight port target =>
      kGen_DNS_RDATA_SRV priority.toNat weight.toNat port.toNat target.generate
  | naptr order preference flags services regexp replacement =>
      kGen_DNS_RDATA_NAPTR order.toNat preference.toNat flags.1 services.1 regexp.1
        replacement.generate
  | opt options =>
      kGen_DNS_RDATA_OPT (options.map fun option =>
        kGen_DNS_RDATA_OPT_OPTION option.1.toNat none option.2.1)

/-- The decoder of the type returns the values, and as size all the octets that were
    generated. -/
@[grind =]
def ComesBack (value : RData) (data : List UInt8) (depth offset : Nat) : Prop :=
  let size := value.generate.length
  match value with
  | mx preference exchange =>
      kDec_DNS_RDATA_MX data depth offset =
        some ([], some ⟨size, some preference.toNat, exchange.decoded⟩)
  | txt texts =>
      kDec_DNS_RDATA_TXT data size offset =
        some ([], some ⟨size, texts.map fun t => decodedString t.1⟩)
  | sig type algorithm labels ttl expiration inception tag name signature =>
      kDec_DNS_RDATA_SIG data depth size offset =
        some ([], some ⟨size, some type.toNat, some algorithm.toNat, some labels.toNat,
          some ttl.toNat, some expiration.toNat, some inception.toNat, some tag.toNat,
          name.decoded, signature⟩)
  | key keytype reserved1 extension reserved2 nametype reserved3 signatory protocol algorithm
      pubkey =>
      kDec_DNS_RDATA_KEY data size offset =
        some ([], some ⟨size, keytype, reserved1, extension, reserved2, nametype, reserved3,
          signatory, some protocol.toNat, some algorithm.toNat, pubkey⟩)
  | nxt next bitmap =>
      kDec_DNS_RDATA_NXT data depth size offset = some ([], some ⟨size, next.decoded, bitmap⟩)
  | srv priority weight port target =>
      kDec_DNS_RDATA_SRV data depth offset =
        some ([], some ⟨size, some priority.toNat, some weight.toNat, some port.toNat,
          target.decoded⟩)
  | naptr order preference flags services regexp replacement =>
      kDec_DNS_RDATA_NAPTR data depth offset =
        some ([], some ⟨size, some order.toNat, some preference.toNat, decodedString flags.1,
          decodedString services.1, decodedString regexp.1, replacement.decoded⟩)
  | opt options =>
      kDec_DNS_RDATA_OPT data size offset =
        some ([], some ⟨size, options.map fun option =>
          ⟨4 + option.2.1.length, option.1.toNat, option.2.1.length, option.2.1⟩⟩)

/-- A single option. -/
def Single : RData → Prop
  | opt options => options.length = 1
  | _ => False

end RData

/-! ## One type after the other -/

section

variable {depth : Nat}

theorem mx_comesBack (preference : UInt16) (exchange : CompleteName)
    (shape : data = before ++ (RData.mx preference exchange).generate ++ rest) :
    (RData.mx preference exchange).ComesBack data (depth + 1) before.length := by
  have shape' : data = before ++ pack [(2, preference.toNat)] ++ exchange.generate ++ rest := by
    simpa [RData.generate, kGen_DNS_RDATA_MX] using shape
  have fixed := numbers_pack (shape'.trans (List.append_assoc _ _ _))
    (by simpa using lt_sixteen preference)
  have name := exchange.decode (before.length + 2) shape' (by simp) depth
  simp only [List.map_cons, List.map_nil] at fixed
  simp only [RData.ComesBack, kDec_DNS_RDATA_MX, fixed, name, callUnless, Option.bind_eq_bind,
    Option.bind_some]
  simp [RData.generate, kGen_DNS_RDATA_MX, exchange.size_decoded]
  omega

theorem srv_comesBack (priority weight port : UInt16) (target : CompleteName)
    (shape : data = before ++ (RData.srv priority weight port target).generate ++ rest) :
    (RData.srv priority weight port target).ComesBack data (depth + 1) before.length := by
  have shape' : data = before ++ pack [(2, priority.toNat), (2, weight.toNat), (2, port.toNat)] ++
      target.generate ++ rest := by
    simpa [RData.generate, kGen_DNS_RDATA_SRV] using shape
  have fixed := numbers_pack (shape'.trans (List.append_assoc _ _ _))
    (by simp [lt_sixteen])
  have name := target.decode (before.length + 6) shape' (by simp) depth
  simp only [List.map_cons, List.map_nil] at fixed
  simp only [RData.ComesBack, kDec_DNS_RDATA_SRV, fixed, name, callUnless, Option.bind_eq_bind,
    Option.bind_some]
  simp [RData.generate, kGen_DNS_RDATA_SRV, target.size_decoded]
  omega

theorem sig_comesBack (type : UInt16) (algorithm labels : UInt8)
    (ttl expiration inception : UInt32) (tag : UInt16) (name : CompleteName)
    (signature : List UInt8)
    (shape : data = before ++ (RData.sig type algorithm labels ttl expiration inception tag name
      signature).generate ++ rest) :
    (RData.sig type algorithm labels ttl expiration inception tag name signature).ComesBack data
      (depth + 1) before.length := by
  have shape' : data = before ++ pack [(2, type.toNat), (1, algorithm.toNat), (1, labels.toNat),
      (4, ttl.toNat), (4, expiration.toNat), (4, inception.toNat), (2, tag.toNat)] ++
      name.generate ++ (signature ++ rest) := by
    simpa [RData.generate, kGen_DNS_RDATA_SIG] using shape
  have fixed := numbers_pack (shape'.trans (List.append_assoc _ _ _))
    (by simp [lt_octet, lt_sixteen, lt_word])
  have decoded := name.decode (before.length + 18) shape' (by simp) depth
  have behind := octets_at (before.length + 18 + name.generate.length)
    (shape'.trans (List.append_assoc _ _ _).symm) (by simp; omega)
  simp only [List.map_cons, List.map_nil] at fixed
  have size : (RData.sig type algorithm labels ttl expiration inception tag name
      signature).generate.length = 18 + name.generate.length + signature.length := by
    simp [RData.generate, kGen_DNS_RDATA_SIG]
    omega
  have place : ((before.length + 18 : Nat) + (name.generate.length : Int)).toNat =
      before.length + 18 + name.generate.length := by omega
  have left : ((18 + name.generate.length + signature.length : Nat) : Int) - 18 -
      name.generate.length = signature.length := by omega
  simp only [RData.ComesBack, kDec_DNS_RDATA_SIG, fixed, decoded, callUnless, size,
    name.size_decoded, place, left, behind, Option.bind_eq_bind, Option.bind_some]
  simp

theorem nxt_comesBack (next : CompleteName) (bitmap : List UInt8)
    (shape : data = before ++ (RData.nxt next bitmap).generate ++ rest) :
    (RData.nxt next bitmap).ComesBack data (depth + 1) before.length := by
  have shape' : data = before ++ next.generate ++ (bitmap ++ rest) := by
    simpa [RData.generate, kGen_DNS_RDATA_NXT] using shape
  have decoded := next.decode before.length shape' rfl depth
  have behind := octets_at (before.length + next.generate.length)
    (shape'.trans (List.append_assoc _ _ _).symm) List.length_append
  have size : (RData.nxt next bitmap).generate.length =
      next.generate.length + bitmap.length := by
    simp [RData.generate, kGen_DNS_RDATA_NXT]
  have left : ((next.generate.length + bitmap.length : Nat) : Int) - next.generate.length =
      bitmap.length := by omega
  have place : (before.length + (next.generate.length : Int)).toNat =
      before.length + next.generate.length := by omega
  simp only [RData.ComesBack, kDec_DNS_RDATA_NXT, decoded, callUnless, size, next.size_decoded,
    left, place, behind, Option.bind_eq_bind, Option.bind_some]
  simp

theorem naptr_comesBack (order preference : UInt16)
    (flags services regexp : {s : List UInt8 // s.length ≤ 255}) (replacement : CompleteName)
    (shape : data = before ++ (RData.naptr order preference flags services regexp
      replacement).generate ++ rest) :
    (RData.naptr order preference flags services regexp replacement).ComesBack data (depth + 1)
      before.length := by
  generalize head : pack [(2, order.toNat), (2, preference.toNat)] = p at shape
  generalize first : packInt 1 flags.1.length ++ flags.1 = f
  generalize second : packInt 1 services.1.length ++ services.1 = s
  generalize third : packInt 1 regexp.1.length ++ regexp.1 = r
  have whole : (RData.naptr order preference flags services regexp replacement).generate =
      p ++ f ++ s ++ r ++ replacement.generate := by
    simp only [RData.generate, kGen_DNS_RDATA_NAPTR, ← head, ← first, ← second, ← third,
      List.append_assoc]
  have lengths : p.length = 4 ∧ f.length = 1 + flags.1.length ∧
      s.length = 1 + services.1.length ∧ r.length = 1 + regexp.1.length := by
    simp [← head, ← first, ← second, ← third]
  obtain ⟨fourOctets, lengthF, lengthS, lengthR⟩ := lengths
  rw [whole] at shape
  have fixed : numbers data before.length [2, 2] = some [order.toNat, preference.toNat] :=
    @numbers_pack data before (f ++ s ++ r ++ replacement.generate ++ rest)
      [(2, order.toNat), (2, preference.toNat)]
      (by simp only [shape, head, List.append_assoc]) (by simp [lt_sixteen])
  have flags_ := @kDec_DNS_String_at data (before ++ p) (s ++ r ++ replacement.generate ++ rest)
    flags.1 flags.2 (before.length + 4) (by simp only [shape, first, List.append_assoc])
    (by simp [fourOctets])
  have services_ := @kDec_DNS_String_at data (before ++ p ++ f) (r ++ replacement.generate ++ rest)
    services.1 services.2 (before.length + 4 + (1 + flags.1.length))
    (by simp only [shape, second, List.append_assoc]) (by simp [fourOctets, lengthF]; omega)
  have regexp_ := @kDec_DNS_String_at data (before ++ p ++ f ++ s) (replacement.generate ++ rest)
    regexp.1 regexp.2 (before.length + 4 + (1 + flags.1.length) + (1 + services.1.length))
    (by simp only [shape, third, List.append_assoc]) (by simp [fourOctets, lengthF, lengthS]; omega)
  have name := @CompleteName.decode data (before ++ p ++ f ++ s ++ r) rest replacement
    (before.length + 4 + (1 + flags.1.length) + (1 + services.1.length) + (1 + regexp.1.length))
    (by simp only [shape, List.append_assoc]) (by simp [fourOctets, lengthF, lengthS, lengthR]; omega) depth
  have size (l : {s : List UInt8 // s.length ≤ 255}) :
      (decodedString l.1)._size_ = 1 + l.1.length := rfl
  simp only [RData.ComesBack, kDec_DNS_RDATA_NAPTR, fixed, flags_, services_, regexp_, name,
    callUnless, size, whole, replacement.size_decoded, List.length_append, fourOctets, lengthF,
    lengthS, lengthR, Option.bind_eq_bind, Option.bind_some]
  simp

/-- The octets with the flags are a number each. -/
theorem key_flags (keytype : Fin 4) (reserved1 extension : Fin 2) (reserved2 nametype : Fin 4) :
    keytype.1 <<< 6 ||| reserved1.1 <<< 5 ||| extension.1 <<< 4 ||| reserved2.1 <<< 2 |||
      nametype.1 = 64 * keytype + 32 * reserved1 + 16 * extension + 4 * reserved2 + nametype := by
  revert keytype reserved1 extension reserved2 nametype
  decide

theorem key_flags' (reserved3 signatory : Fin 16) :
    reserved3.1 <<< 4 ||| signatory.1 = 16 * reserved3 + signatory := by
  revert reserved3 signatory
  decide

theorem key_comesBack (keytype : Fin 4) (reserved1 extension : Fin 2) (reserved2 nametype : Fin 4)
    (reserved3 signatory : Fin 16) (protocol algorithm : UInt8) (pubkey : List UInt8)
    (shape : data = before ++ (RData.key keytype reserved1 extension reserved2 nametype reserved3
      signatory protocol algorithm pubkey).generate ++ rest) :
    (RData.key keytype reserved1 extension reserved2 nametype reserved3 signatory protocol
      algorithm pubkey).ComesBack data depth before.length := by
  have bounds := And.intro keytype.isLt (And.intro reserved1.isLt (And.intro extension.isLt
    (And.intro reserved2.isLt nametype.isLt)))
  have bounds' := And.intro reserved3.isLt signatory.isLt
  simp only [RData.generate, kGen_DNS_RDATA_KEY, key_flags, key_flags'] at shape
  generalize byte0 : 64 * keytype.1 + 32 * reserved1.1 + 16 * extension.1 + 4 * reserved2.1 +
    nametype.1 = b0 at shape
  generalize byte1 : 16 * reserved3.1 + signatory.1 = b1 at shape
  have join : pack [(1, b0), (1, b1), (1, protocol.toNat), (1, algorithm.toNat)] =
      pack [(2, 256 * b0 + b1), (1, protocol.toNat), (1, algorithm.toNat)] := by
    have high : (256 * b0 + b1) / 256 = b0 := by omega
    have low : UInt8.ofNat (256 * b0 + b1) = UInt8.ofNat b1 := by
      apply UInt8.toNat_inj.mp
      rw [UInt8.toNat_ofNat', UInt8.toNat_ofNat']
      omega
    simp [packInt, high, low]
  rw [join] at shape
  have fixed : numbers data before.length [2, 1, 1] =
      some [256 * b0 + b1, protocol.toNat, algorithm.toNat] :=
    @numbers_pack data before (pubkey ++ rest)
      [(2, 256 * b0 + b1), (1, protocol.toNat), (1, algorithm.toNat)]
      (by simp only [shape, List.append_assoc]) (by simp [lt_octet]; omega)
  have behind := @octets_at data (before ++ pack [(2, 256 * b0 + b1), (1, protocol.toNat),
    (1, algorithm.toNat)]) rest pubkey (min (before.length + 4) data.length)
    (by simp only [shape, List.append_assoc]) (by simp [shape]; omega)
  have size : (RData.key keytype reserved1 extension reserved2 nametype reserved3 signatory
      protocol algorithm pubkey).generate.length = 4 + pubkey.length := by
    simp [RData.generate, kGen_DNS_RDATA_KEY]
    omega
  have left : ((4 + pubkey.length : Nat) : Int) - 4 = pubkey.length := by omega
  simp only [RData.ComesBack, kDec_DNS_RDATA_KEY, fixed, size, left, behind, Option.bind_eq_bind,
    Option.bind_some, List.getElem?_cons_zero, Option.getD_some, Nat.shiftRight_eq_div_pow,
    Nat.and_two_pow_sub_one_eq_mod _ 2, Nat.and_two_pow_sub_one_eq_mod _ 1,
    Nat.and_two_pow_sub_one_eq_mod _ 4]
  have fields : (256 * b0 + b1) / 16384 % 4 = keytype ∧ (256 * b0 + b1) / 8192 % 2 = reserved1 ∧
      (256 * b0 + b1) / 4096 % 2 = extension ∧ (256 * b0 + b1) / 1024 % 4 = reserved2 ∧
      (256 * b0 + b1) / 256 % 4 = nametype ∧ (256 * b0 + b1) / 16 % 16 = reserved3 ∧
      (256 * b0 + b1) % 16 = signatory := by omega
  simpa [kInit_DNS_Error] using fields

/-! ## Strings and options, as many as there are -/

theorem generate_txt (texts : List {t : List UInt8 // 1 ≤ t.length ∧ t.length ≤ 255}) :
    (RData.txt texts).generate = texts.flatMap fun t => packInt 1 t.1.length ++ t.1 := by
  induction texts with
  | nil => rfl
  | cons t texts ih =>
      simp only [RData.generate, kGen_DNS_RDATA_TXT, List.map_cons, List.flatMap_cons] at ih ⊢
      rw [ih, if_pos (Nat.lt_of_lt_of_le Nat.one_pos t.2.1)]

/-- The loop over the strings that are left, with what was found before them. -/
theorem decTexts_at {texts : List {t : List UInt8 // 1 ≤ t.length ∧ t.length ≤ 255}}
    {done : List UInt8} {found : List DNSString} (rdlength : Nat)
    (shape : data = before ++ done ++ (texts.flatMap fun t => packInt 1 t.1.length ++ t.1) ++ rest)
    (size : rdlength = done.length +
      (texts.flatMap fun t => packInt 1 t.1.length ++ t.1).length) :
    decTexts data rdlength (before.length + done.length) done.length [] found =
      ([], some ⟨rdlength, found ++ texts.map fun t => decodedString t.1⟩) := by
  induction texts generalizing done found with
  | nil =>
      have stop : ¬ done.length < rdlength := by
        rw [size]
        simp
      rw [decTexts, if_neg stop, size]
      simp
  | cons t texts ih =>
      have go : done.length < rdlength := by
        rw [size, List.flatMap_cons, List.length_append, List.length_append, length_packInt]
        omega
      have string := @kDec_DNS_String_at data (before ++ done)
        ((texts.flatMap fun t => packInt 1 t.1.length ++ t.1) ++ rest) t.1 t.2.2
        (before.length + done.length)
        (by simp only [shape, List.flatMap_cons, List.append_assoc]) (by simp)
      have next := @ih (done ++ (packInt 1 t.1.length ++ t.1)) (found ++ [decodedString t.1])
        (by simp only [shape, List.flatMap_cons, List.append_assoc])
        (by rw [size]; simp [List.flatMap_cons]; omega)
      have count : (done ++ (packInt 1 t.1.length ++ t.1)).length =
          done.length + (decodedString t.1)._size_ := by simp [decodedString]
      rw [count, ← Nat.add_assoc] at next
      rw [decTexts, if_pos go, string]
      simp only [next, List.map_cons, List.append_assoc, List.singleton_append]

theorem txt_comesBack (texts : List {t : List UInt8 // 1 ≤ t.length ∧ t.length ≤ 255})
    (shape : data = before ++ (RData.txt texts).generate ++ rest) :
    (RData.txt texts).ComesBack data depth before.length := by
  rw [generate_txt] at shape
  have run := @decTexts_at data before rest texts [] [] (RData.txt texts).generate.length
    (by rw [shape, List.append_nil]) (by rw [generate_txt, List.length_nil, Nat.zero_add])
  simp only [RData.ComesBack, kDec_DNS_RDATA_TXT]
  exact congrArg some run

/-- What comes of an option. -/
def decodedOption (option : UInt16 × {d : List UInt8 // d.length < 2 ^ 16}) : OPTION :=
  ⟨4 + option.2.1.length, option.1.toNat, option.2.1.length, option.2.1⟩

/-- The octets of an option. -/
def optionOctets (option : UInt16 × {d : List UInt8 // d.length < 2 ^ 16}) : List UInt8 :=
  pack [(2, option.1.toNat), (2, option.2.1.length)] ++ option.2.1

theorem generate_opt (options : List (UInt16 × {d : List UInt8 // d.length < 2 ^ 16})) :
    (RData.opt options).generate = options.flatMap optionOctets := by
  rw [List.flatMap_def]
  rfl

/-- The loop over the options that are left. It is only at the end that they are counted. -/
theorem decOptions_at {options : List (UInt16 × {d : List UInt8 // d.length < 2 ^ 16})}
    {done : List UInt8} {found : List OPTION} (rdlength : Nat)
    (shape : data = before ++ done ++ options.flatMap optionOctets ++ rest)
    (size : rdlength = done.length + (options.flatMap optionOctets).length) :
    decOptions data rdlength (before.length + done.length) done.length found =
      if found.length + options.length = 1 then
        (kReg_DNS_Error [] 2288 "kDec_DNS_RDATA_OPT" "OPTION: decode failure.", none)
      else ([], some ⟨rdlength, found ++ options.map decodedOption⟩) := by
  induction options generalizing done found with
  | nil =>
      have stop : ¬ done.length < rdlength := by
        rw [size]
        simp
      have last : ((found.length : Int) - 1 = 0) = (found.length + 0 = 1) := by
        rw [eq_iff_iff]
        omega
      rw [decOptions]
      simp only [stop, if_false, last, List.length_nil, List.map_nil, List.append_nil]
      rw [size]
      simp [kInit_DNS_Error]
  | cons option options ih =>
      have go : done.length < rdlength := by
        rw [size, List.flatMap_cons, List.length_append, optionOctets, List.length_append,
          length_pack]
        simp only [List.map_cons, List.sum_cons]
        omega
      have count : (optionOctets option).length = 4 + option.2.1.length := by
        simp [optionOctets]
        omega
      have total : data.length = before.length + done.length + (4 + option.2.1.length) +
          (options.flatMap optionOctets).length + rest.length := by
        rw [shape, List.flatMap_cons]
        simp only [List.length_append, count]
        omega
      have fixed : ¬ data.length < before.length + done.length + 4 := by omega
      have whole : ¬ data.length < before.length + done.length + 4 + option.2.1.length := by omega
      have there : data.drop (before.length + done.length) =
          optionOctets option ++ (options.flatMap optionOctets ++ rest) := by
        rw [shape, List.flatMap_cons, ← List.length_append]
        simp only [List.append_assoc]
        rw [← List.append_assoc, List.drop_left]
      have code : Perl.be ((data.drop (before.length + done.length)).take 2) = option.1.toNat := by
        have read := field_pack [] 2 option.1.toNat [(2, option.2.1.length)]
          (option.2.1 ++ (options.flatMap optionOctets ++ rest))
        rw [← List.append_assoc] at read
        rw [there]
        exact read.trans (Nat.mod_eq_of_lt (lt_sixteen option.1))
      have length : Perl.be ((data.drop (before.length + done.length + 2)).take 2) =
          option.2.1.length := by
        have read := field_pack [(2, option.1.toNat)] 2 option.2.1.length []
          (option.2.1 ++ (options.flatMap optionOctets ++ rest))
        rw [← List.append_assoc] at read
        rw [← List.drop_drop, there]
        exact read.trans (Nat.mod_eq_of_lt option.2.2)
      have value : (data.drop (before.length + done.length + 4)).take option.2.1.length =
          option.2.1 := by
        rw [← List.drop_drop, there, optionOctets, List.append_assoc, List.drop_left' (by simp),
          List.take_left]
      have next := @ih (done ++ optionOctets option) (found ++ [decodedOption option])
        (by simp only [shape, List.flatMap_cons, List.append_assoc])
        (by rw [size, List.flatMap_cons, List.length_append, List.length_append, Nat.add_assoc])
      have behind : (done ++ optionOctets option).length =
          done.length + 4 + option.2.1.length := by
        rw [List.length_append, count, Nat.add_assoc]
      have counted : (found ++ [decodedOption option]).length + options.length =
          found.length + (option :: options).length := by
        simp only [List.length_append, List.length_cons, List.length_nil]
        omega
      rw [behind, counted, ← Nat.add_assoc, ← Nat.add_assoc] at next
      rw [decOptions]
      simp only [go, fixed, if_true, if_false, code, length, whole, value]
      rw [show (⟨4 + option.2.1.length, option.1.toNat, option.2.1.length, option.2.1⟩ : OPTION) =
        decodedOption option by rfl, next]
      simp only [List.map_cons, List.append_assoc, List.singleton_append]

theorem opt_decoded (options : List (UInt16 × {d : List UInt8 // d.length < 2 ^ 16}))
    (shape : data = before ++ (RData.opt options).generate ++ rest) :
    kDec_DNS_RDATA_OPT data (RData.opt options).generate.length before.length =
      some (if options.length = 1 then
        (kReg_DNS_Error [] 2288 "kDec_DNS_RDATA_OPT" "OPTION: decode failure.", none)
      else ([], some ⟨(RData.opt options).generate.length, options.map decodedOption⟩)) := by
  rw [generate_opt] at shape
  have run := @decOptions_at data before rest options [] [] (RData.opt options).generate.length
    (by rw [shape, List.append_nil]) (by rw [generate_opt, List.length_nil, Nat.zero_add])
  simp only [List.length_nil, Nat.zero_add, Nat.add_zero, List.nil_append] at run
  exact congrArg some run

/-- Data of any type comes back, unless it is a single option. -/
theorem comesBack_iff_not_single (value : RData)
    (shape : data = before ++ value.generate ++ rest) :
    value.ComesBack data (depth + 1) before.length ↔ ¬ value.Single := by
  cases value with
  | mx => exact iff_of_true (mx_comesBack _ _ shape) not_false
  | txt => exact iff_of_true (txt_comesBack _ shape) not_false
  | sig => exact iff_of_true (sig_comesBack _ _ _ _ _ _ _ _ _ shape) not_false
  | key => exact iff_of_true (key_comesBack _ _ _ _ _ _ _ _ _ _ shape) not_false
  | nxt => exact iff_of_true (nxt_comesBack _ _ shape) not_false
  | srv => exact iff_of_true (srv_comesBack _ _ _ _ shape) not_false
  | naptr => exact iff_of_true (naptr_comesBack _ _ _ _ _ _ shape) not_false
  | opt options =>
      have decoded := opt_decoded options shape
      by_cases single : options.length = 1
      · rw [if_pos single] at decoded
        refine iff_of_false (fun back => ?_) (not_not_intro single)
        have same := Option.some.inj (decoded.symm.trans back)
        cases congrArg Prod.snd same
      · rw [if_neg single] at decoded
        exact iff_of_true decoded single

end

/-! ## Records -/

/-- The data of a record fits its length. -/
structure RR.Value where
  value : RData
  fits : value.generate.length < 2 ^ 16

/-- The record is decoded where it is in the message, and its data behind its name. Without
    octets the data is a digit. -/
structure RR.ComesBack (message : Message) (owner : Str) (pointer : Option Nat)
    (type class_ : UInt16) (ttl : UInt32) (value : RData) (more : List UInt8) (depth : Nat) :
    Prop where
  record : kDec_DNS_RR (message.data ++ kGen_DNS_RR (some (kGen_DNS_Name owner pointer))
      (some type.toNat) (some class_.toNat) (some ttl.toNat) none (some value.generate) ++ more)
      depth (some message.data.length) =
    some ([], some {
      _size_ := (kGen_DNS_RR (some (kGen_DNS_Name owner pointer)) (some type.toNat)
        (some class_.toNat) (some ttl.toNat) none (some value.generate)).length
      name := decodedName owner pointer (message.pointed pointer)
      type := type.toNat
      class_ := class_.toNat
      ttl := ttl.toNat
      rdlength := value.generate.length
      rdata := if value.generate = [] then [0x30] else value.generate })
  rdata : value.ComesBack (message.data ++ kGen_DNS_RR (some (kGen_DNS_Name owner pointer))
      (some type.toNat) (some class_.toNat) (some ttl.toNat) none (some value.generate) ++ more)
    depth (message.data.length + (kGen_DNS_Name owner pointer).length + 10)

theorem kDec_DNS_RR_at {depth : Nat} {owner rdata : List UInt8} {name : Name}
    {type class_ : UInt16} {ttl : UInt32} (fits : rdata.length < 2 ^ 16)
    (shape : data = before ++ kGen_DNS_RR (some owner) (some type.toNat) (some class_.toNat)
      (some ttl.toNat) none (some rdata) ++ rest)
    (decoded : kDec_DNS_Name data depth (some before.length) = some ([], some name))
    (size : name._size_ = owner.length) :
    kDec_DNS_RR data depth (some before.length) =
      some ([], some ⟨owner.length + 10 + rdata.length, name, type.toNat, class_.toNat, ttl.toNat,
        rdata.length, if rdata = [] then [0x30] else rdata⟩) := by
  generalize head : pack [(2, type.toNat), (2, class_.toNat), (4, ttl.toNat),
    (2, rdata.length)] = h
  have tenOctets : h.length = 10 := by simp [← head]
  have shape' : data = before ++ owner ++ (h ++ (rdata ++ rest)) := by
    rw [shape, ← head]
    simp only [kGen_DNS_RR, Option.getD_some, Option.getD_none, Str.len_some, Str.octets_some,
      List.append_assoc]
  have there : data.drop (before.length + owner.length) = h ++ (rdata ++ rest) := by
    rw [shape', ← List.length_append, List.drop_left]
  have total : data.length = before.length + owner.length + 10 + rdata.length + rest.length := by
    rw [shape']
    simp only [List.length_append, tenOctets]
    omega
  have number (front : List (Nat × Nat)) (size n : Nat) (back : List (Nat × Nat))
      (split : h = pack (front ++ (size, n) :: back)) (small : n < 256 ^ size) :
      be ((data.drop (before.length + owner.length + (front.map Prod.fst).sum)).take size) = n := by
    have read := field_pack front size n back (rdata ++ rest)
    rw [← split] at read
    rw [← List.drop_drop, there]
    exact read.trans (Nat.mod_eq_of_lt small)
  have first := number [] 2 type.toNat _ head.symm (lt_sixteen type)
  have second := number [(2, type.toNat)] 2 class_.toNat _ head.symm (lt_sixteen class_)
  have third := number [(2, type.toNat), (2, class_.toNat)] 4 ttl.toNat _ head.symm (lt_word ttl)
  have fourth := number [(2, type.toNat), (2, class_.toNat), (4, ttl.toNat)] 2 rdata.length []
    head.symm fits
  have value : (data.drop (before.length + owner.length + 10)).take rdata.length = rdata := by
    rw [← List.drop_drop, there, List.drop_left' tenOctets, List.take_left]
  have place : (before.length + (owner.length : Int)).toNat = before.length + owner.length := by
    omega
  have long : ¬ (data.length : Int) - (before.length + owner.length) < 10 := by omega
  simp only [List.map_nil, List.map_cons, List.sum_nil, List.sum_cons, Nat.add_zero]
    at first second third fourth
  simp only [kDec_DNS_RR, Option.getD_some, decoded, size, long, if_false, place, Nat.add_zero,
    first, second, third, fourth, value]
  simp [List.length_eq_zero_iff]
  rfl

open Message in
/-- A record comes back from its message with all the values of its data if and only if it
    does not have a single option. -/
theorem RR.record_iff {before : List Part} {owner : Str} {pointer : Option Nat}
    (assembles : Assembles {} (before ++ [.name owner pointer])) (type class_ : UInt16)
    (ttl : UInt32) (v : RR.Value) (more : List UInt8) {depth : Nat} (deep : before.length < depth) :
    RR.ComesBack (before.foldl add {}) owner pointer type class_ ttl v.value more depth ↔
      ¬ v.value.Single := by
  have start : Decodes {} := ⟨fun o further found => by cases found⟩
  obtain ⟨decodes, allows⟩ := start.run assembles
  have bound := length_table {} before
  obtain ⟨depth, rfl⟩ := Nat.exists_eq_add_of_le' (Nat.lt_of_le_of_lt (Nat.zero_le _) deep)
  have within : (before.foldl add {}).table.length ≤ depth := by
    change _ ≤ 0 + before.length at bound
    omega
  generalize before.foldl add {} = message at decodes allows within
  generalize head : pack [(2, type.toNat), (2, class_.toNat), (4, ttl.toNat),
    (2, v.value.generate.length)] = h
  have tenOctets : h.length = 10 := by simp [← head]
  have whole : kGen_DNS_RR (some (kGen_DNS_Name owner pointer)) (some type.toNat)
      (some class_.toNat) (some ttl.toNat) none (some v.value.generate) =
      kGen_DNS_Name owner pointer ++ (h ++ v.value.generate) := by
    simp only [kGen_DNS_RR, Option.getD_some, Option.getD_none, Str.len_some, Str.octets_some,
      head, List.append_assoc]
  have name := decodes.name allows (h ++ (v.value.generate ++ more)) within
  have record := @kDec_DNS_RR_at _ message.data more (depth + 1) _ _ _ type class_ ttl v.fits rfl
    (by rw [whole]; simpa only [Message.add, List.append_assoc] using name) rfl
  have rdata := @comesBack_iff_not_single _ (message.data ++ kGen_DNS_Name owner pointer ++ h) more
    depth v.value rfl
  have place : (message.data ++ kGen_DNS_Name owner pointer ++ h).length =
      message.data.length + (kGen_DNS_Name owner pointer).length + 10 := by
    rw [List.length_append, List.length_append, tenOctets]
  rw [place] at rdata
  have same : message.data ++ kGen_DNS_Name owner pointer ++ h ++ v.value.generate ++ more =
      message.data ++ kGen_DNS_RR (some (kGen_DNS_Name owner pointer)) (some type.toNat)
        (some class_.toNat) (some ttl.toNat) none (some v.value.generate) ++ more := by
    rw [whole]
    simp only [List.append_assoc]
  rw [same] at rdata
  constructor
  · exact fun back => rdata.mp back.rdata
  · intro several
    refine ⟨?_, rdata.mpr several⟩
    rw [record, whole]
    simp only [List.length_append, tenOctets]
    push_cast
    rw [Int.add_assoc]

/-- Two strings behind a name that points to the one before it. -/
theorem RR.record_iff_txt :
    RR.ComesBack ([.octets [0, 1], .name (some [0x77]) none].foldl Message.add {}) (some [0x74])
        (some 2) 16 1 60 (.txt [⟨[0x61], by decide⟩, ⟨[0x62, 0x63], by decide⟩]) [7] 3 ↔
      ¬ RData.Single (.txt [⟨[0x61], by decide⟩, ⟨[0x62, 0x63], by decide⟩]) :=
  @RR.record_iff [.octets [0, 1], .name (some [0x77]) none] (some [0x74]) (some 2)
    ⟨trivial, ⟨by decide, fun _ none_ => by cases none_⟩,
      ⟨by decide, fun o same => by cases same; decide⟩, trivial⟩ 16 1 60
    ⟨.txt [⟨[0x61], by decide⟩, ⟨[0x62, 0x63], by decide⟩], by decide⟩ [7] 3 (by decide)

/-- A cookie as the only option. -/
theorem RR.not_record :
    ¬ ∃ depth, RR.ComesBack {} none none 41 4096 0
      (.opt [(10, ⟨[1, 2, 3, 4, 5, 6, 7, 8], by decide⟩)]) [] depth := by
  rintro ⟨depth, back⟩
  have decoded := @opt_decoded _
    (kGen_DNS_Name none none ++ pack [(2, 41), (2, 4096), (4, 0), (2, 12)]) []
    [(10, ⟨[1, 2, 3, 4, 5, 6, 7, 8], by decide⟩)] rfl
  have same := Option.some.inj (decoded.symm.trans back.rdata)
  cases congrArg Prod.snd same

end Tahi.Dns
