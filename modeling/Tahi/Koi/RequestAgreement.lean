import Tahi.Koi.KDispatcherRequest

/-! # Whether both sides mean the same values

The templates of the client and the structures of the dispatcher have their values at the same
places, except for the data id of a flush request. What is left is the sign of the members.
-/

namespace Tahi.Koi

open RecordLayout

/-- A decoded value is the packed one. A member may have zeros behind a string. -/
def Value.Is : Value → Item → Prop
  | .int i, .C v => i = v
  | .int i, .n v => i = v
  | .int i, .N v => i = v
  | .octets o, .a _ s => o = s ++ List.replicate (o.length - s.length) 0
  | .octets o, .octets s => o = s ++ List.replicate (o.length - s.length) 0
  | _, _ => False

/-- A number is one of the signed type it is decoded to, and a string has room. -/
def Item.InRange : Item → Prop
  | .C v => -128 ≤ v ∧ v < 128
  | .n v => -32768 ≤ v ∧ v < 32768
  | .N v => -2147483648 ≤ v ∧ v < 2147483648
  | .a count s => s.length ≤ count
  | .octets s => s.length ≤ MSG_MAXDATALEN

instance (i : Item) : Decidable i.InRange :=
  match i with
  | .C _ => inferInstanceAs (Decidable (_ ∧ _))
  | .n _ => inferInstanceAs (Decidable (_ ∧ _))
  | .N _ => inferInstanceAs (Decidable (_ ∧ _))
  | .a _ _ => inferInstanceAs (Decidable (_ ≤ _))
  | .octets _ => inferInstanceAs (Decidable (_ ≤ _))

namespace Command

/-- The dispatcher decodes the values that were packed. -/
def Decodes (seq : Int) (c : Command) : Prop :=
  ∃ values, decode (c.packed seq) = some values ∧ List.Forall₂ Value.Is values (c.message seq)

/-- The request clears the message with a data id, and no other one. -/
def Clears (dataid : Int) (databuf : List UInt8) : Prop :=
  ∀ t l, MsgTable.Related t l →
    ∃ t' l', flush t databuf = some (t', true) ∧ MsgTable.Related t' l' ∧
      l'.messages = l.messages.filter fun msg => msg.msg_dataid != dataid

def Agrees (seq : Int) (c : Command) : Prop :=
  c.Decodes seq ∧
    ∀ socketid dataid, c = .kPacket_Clear 0 1 socketid dataid → Clears dataid (c.packed seq)

/-- The data id of a flush request has to be one of sixteen bits. -/
def InRange (seq : Int) (c : Command) : Prop :=
  (∀ item ∈ c.message seq, item.InRange) ∧
    ∀ socketid_flag dataid_flag socketid dataid,
      c = .kPacket_Clear socketid_flag dataid_flag socketid dataid → 0 ≤ dataid ∧ dataid < 65536

end Command

/-! ## One member -/

theorem toNat_ofInt (v : Int) : (UInt8.ofInt v).toNat = (v % 256).toNat := by
  rw [UInt8.ofInt, UInt8.toNat_ofNat']
  omega

theorem load_C (v : Int) : load (Item.pack (.C v)) = (v % 256).toNat := by
  simp only [Item.pack, load, List.foldr_cons, List.foldr_nil, toNat_ofInt]
  omega

theorem ntohs_two (b₀ b₁ : UInt8) : ntohs (load [b₀, b₁]) = b₀.toNat * 256 + b₁.toNat := by
  have lt₀ := b₀.toNat_lt
  have lt₁ := b₁.toNat_lt
  simp only [ntohs, load, List.foldr_cons, List.foldr_nil]
  omega

theorem ntohl_four (b₀ b₁ b₂ b₃ : UInt8) : ntohl (load [b₀, b₁, b₂, b₃]) =
    b₀.toNat * 16777216 + b₁.toNat * 65536 + b₂.toNat * 256 + b₃.toNat := by
  have lt₀ := b₀.toNat_lt
  have lt₁ := b₁.toNat_lt
  have lt₂ := b₂.toNat_lt
  have lt₃ := b₃.toNat_lt
  simp only [ntohl, load, List.foldr_cons, List.foldr_nil]
  omega

theorem load_n (v : Int) : ntohs (load (Item.pack (.n v))) = (v % 65536).toNat := by
  rw [Item.pack, ntohs_two, toNat_ofInt, toNat_ofInt]
  omega

theorem load_N (v : Int) : ntohl (load (Item.pack (.N v))) = (v % 4294967296).toNat := by
  rw [Item.pack, ntohl_four, toNat_ofInt, toNat_ofInt, toNat_ofInt, toNat_ofInt]
  omega

theorem bmod_eq_iff (v : Int) {w : Nat} (positive : 0 < w) :
    ((v % (2 * w : Nat)).toNat : Int).bmod (2 * w) = v ↔ -(w : Int) ≤ v ∧ v < w := by
  rw [Int.toNat_of_nonneg (Int.emod_nonneg _ (by omega)), Int.emod_bmod]
  constructor
  · intro same
    have low := Int.le_bmod (x := v) (m := 2 * w) (by omega)
    have high := Int.bmod_lt (x := v) (m := 2 * w) (by omega)
    omega
  · intro inside
    apply Int.bmod_eq_of_le <;> omega

/-- A member that is meant for a value. -/
inductive Fits : Item → CType × Conversion → Prop where
  | C (v : Int) : Fits (.C v) (.char, .asIs)
  | n (v : Int) : Fits (.n v) (.short, .ntohs)
  | N (v : Int) : Fits (.N v) (.long, .ntohl)
  | reserve : Fits (.n 0) (.short, .asIs)
  | a (count : Nat) (s : List UInt8) : Fits (.a count s) (.array count, .asIs)
  | address (addr : Address) : Fits (.octets addr.octets) (.in6_addr, .asIs)

theorem Fits.length_eq {i : Item} {m : CType × Conversion} (fits : Fits i m) :
    i.pack.length = m.1.member.size := by
  cases fits with
  | a count s =>
      simp only [Item.pack, List.length_append, List.length_take, List.length_replicate,
        CType.member]
      omega
  | address addr => exact addr.sixteen
  | C | n | N | reserve => rfl

theorem is_n_iff (v : Int) :
    (CType.short.assign .ntohs (Item.pack (.n v))).Is (.n v) ↔ (Item.n v).InRange := by
  simp only [CType.assign, Conversion.convert, load_n, Value.Is, Int16.toInt_ofNat', Item.InRange]
  exact bmod_eq_iff v (w := 32768) (by decide)

theorem Fits.is_iff {i : Item} {m : CType × Conversion} (fits : Fits i m) :
    (m.1.assign m.2 i.pack).Is i ↔ i.InRange := by
  cases fits with
  | C v =>
      simp only [CType.assign, Conversion.convert, id, load_C, Value.Is, Int8.toInt_ofNat',
        Item.InRange]
      exact bmod_eq_iff v (w := 128) (by decide)
  | n v => exact is_n_iff v
  | N v =>
      simp only [CType.assign, Conversion.convert, load_N, Value.Is, Int32.toInt_ofNat',
        Item.InRange]
      exact bmod_eq_iff v (w := 2147483648) (by decide)
  | reserve => exact iff_of_true rfl (by decide)
  | a count s =>
      simp only [CType.assign, Item.pack, Value.Is, Item.InRange]
      constructor
      · intro same
        have length := congrArg List.length same
        simp only [List.length_append, List.length_take, List.length_replicate] at length
        omega
      · intro room
        rw [List.take_of_length_le room]
        simp
  | address addr =>
      have sixteen := addr.sixteen
      simp [CType.assign, Item.pack, Value.Is, Item.InRange, sixteen, MSG_MAXDATALEN]

/-! ## All members -/

/-- The data of a request are its last member, and need not fill it. -/
inductive FitsAll : List Item → List (CType × Conversion) → Prop where
  | nil : FitsAll [] []
  | data (s : List UInt8) : FitsAll [.octets s] [(.array MSG_MAXDATALEN, .asIs)]
  | cons {i : Item} {m : CType × Conversion} {is : List Item} {ms : List (CType × Conversion)}
      (first : Fits i m) (rest : FitsAll is ms) : FitsAll (i :: is) (m :: ms)

def pieces (items : List Item) : List (List UInt8) := items.map Item.pack

def slots (ms : List (CType × Conversion)) : List Member := ms.map fun m => m.1.member

/-- What a function decodes when nothing is out of its place. -/
def assigned (ms : List (CType × Conversion)) (octets : List (List UInt8)) : List Value :=
  List.zipWith (fun (m : CType × Conversion) o => m.1.assign m.2 o) ms octets

namespace FitsAll

variable {items : List Item} {ms : List (CType × Conversion)}

theorem fills (fits : FitsAll items ms) {p : Nat} (packed : Packed p (slots ms))
    (room : p + (pieces items).flatten.length ≤ finish p (slots ms)) :
    Fills (pieces items) (slots ms) := by
  induction fits generalizing p with
  | nil => trivial
  | data s =>
      have here := packed.1
      simp only [slots, pieces, List.map_cons, List.map_nil, finish, List.flatten_cons,
        List.flatten_nil, List.append_nil, Item.pack] at room here
      rw [here] at room
      exact Nat.le_of_add_le_add_left room
  | @cons i m is ms first rest ih =>
      obtain ⟨here, packed⟩ := packed
      have whole := first.length_eq
      have fills := ih packed (by
        simp only [slots, pieces, List.map_cons, finish, List.flatten_cons,
          List.length_append] at room here
        rw [here] at room
        simp only [slots, pieces]
        omega)
      cases rest with
      | nil => exact Nat.le_of_eq whole
      | data s => exact ⟨whole, fills⟩
      | cons first' rest => exact ⟨whole, fills⟩

theorem is_iff (fits : FitsAll items ms) (fills : Fills (pieces items) (slots ms)) :
    List.Forall₂ Value.Is (assigned ms (List.zipWith (image 0) (pieces items) (slots ms))) items ↔
      ∀ item ∈ items, item.InRange := by
  induction fits with
  | nil => simp [assigned, pieces, slots]
  | data s =>
      have short : s.length ≤ MSG_MAXDATALEN := fills
      simp [assigned, pieces, slots, image, CType.assign, CType.member, Item.pack, Value.Is,
        Item.InRange, short]
  | @cons i m is ms first rest ih =>
      have fills' : Fills (pieces is) (slots ms) := by
        cases Fills.cons fills with
        | inl last =>
            obtain ⟨none_, none_', -⟩ := last
            rw [pieces, slots, none_, none_']
            trivial
        | inr whole => exact whole.2
      have whole := image_of_eq 0 first.length_eq
      simp only [assigned, pieces, slots, List.map_cons, List.zipWith_cons_cons,
        List.forall₂_cons, List.forall_mem_cons]
      simp only [assigned, pieces, slots] at ih fills'
      rw [whole, first.is_iff, ih fills']

/-- Values in range have room. -/
theorem room (fits : FitsAll items ms) {p : Nat} (packed : Packed p (slots ms))
    (inside : ∀ item ∈ items, item.InRange) :
    p + (pieces items).flatten.length ≤ finish p (slots ms) := by
  induction fits generalizing p with
  | nil => simp [pieces, slots, finish]
  | data s =>
      have here := packed.1
      have short : s.length ≤ MSG_MAXDATALEN := inside _ (List.mem_singleton.mpr rfl)
      simp only [slots, pieces, List.map_cons, List.map_nil, finish, List.flatten_cons,
        List.flatten_nil, List.append_nil, Item.pack] at here ⊢
      rw [here]
      exact Nat.add_le_add_left short p
  | @cons i m is ms first rest ih =>
      obtain ⟨here, packed⟩ := packed
      have below := ih packed fun item mem => inside item (List.mem_cons_of_mem i mem)
      have whole := first.length_eq
      simp only [slots, pieces, List.map_cons, finish, List.flatten_cons,
        List.length_append] at below here ⊢
      rw [here]
      omega

end FitsAll

/-! ## A request -/

/-- With `command` and `request_num`, as if they were converted too. -/
def Request.all (r : Request) : List (CType × Conversion) :=
  (.short, .ntohs) :: (.short, .ntohs) :: r.members.zip r.conversions

theorem le_sizeof (ms : List Member) : finish 0 ms ≤ sizeof ms :=
  RoundUp.le_roundUp _ (alignment_pos ms)

namespace Command

variable {seq : Int} {c : Command} {r : Request}

/-- The structure of the dispatcher is the template of the client. -/
structure Same (c : Command) (r : Request) : Prop where
  known : request (Int16.ofNat (c.sockio_cmd % 65536).toNat) = some r
  each : r.members.length = r.conversions.length
  packed : Packed 0 r.layout
  fits : FitsAll c.fields (r.members.zip r.conversions)
  /-- The padding at the end of the structure is not used. -/
  room : ∀ seq, (c.packed seq).length ≤ sizeof r.layout → (c.packed seq).length ≤ finish 0 r.layout

theorem decode_packed (known : request (Int16.ofNat (c.sockio_cmd % 65536).toNat) = some r) :
    decode (c.packed seq) = (r.values (c.packed seq)).map fun values =>
      CType.short.assign .ntohs (Item.pack (.n c.sockio_cmd)) ::
        CType.short.assign .ntohs (Item.pack (.n seq)) :: values := by
  have first : (c.packed seq).take 2 = Item.pack (.n c.sockio_cmd) := rfl
  have second : ((c.packed seq).drop 2).take 2 = Item.pack (.n seq) := rfl
  simp only [decode, first, second, CType.assign, Conversion.convert, load_n, known]

namespace Same

theorem layout_eq (same : c.Same r) : slots r.all = r.layout := by
  have unzipped : (r.members.zip r.conversions).map Prod.fst = r.members :=
    List.map_fst_zip (Nat.le_of_eq same.each)
  rw [Request.layout, ← unzipped, List.map_map]
  rfl

theorem fitsAll (same : c.Same r) (seq : Int) : FitsAll (c.message seq) r.all :=
  .cons (.n _) (.cons (.n _) same.fits)

theorem fills (same : c.Same r) (fits : (c.packed seq).length ≤ sizeof r.layout) :
    Fills (pieces (c.message seq)) (slots r.all) := by
  apply (same.fitsAll seq).fills (p := 0)
  · rw [same.layout_eq]
    exact same.packed
  · rw [same.layout_eq, Nat.zero_add]
    exact same.room seq fits

/-- The members are assigned the octets that were packed for them. -/
theorem decode_eq (same : c.Same r) (fits : (c.packed seq).length ≤ sizeof r.layout) :
    decode (c.packed seq) = some (assigned r.all
      (List.zipWith (image 0) (pieces (c.message seq)) (slots r.all))) := by
  have packed := same.packed
  have copied : copy (0 : UInt8) (sizeof (slots r.all)) (pieces (c.message seq)).flatten =
      some (c.packed seq ++ List.replicate (sizeof r.layout - (c.packed seq).length) 0) := by
    rw [copy, same.layout_eq]
    exact if_pos fits
  rw [← same.layout_eq] at packed
  have members := split_copy 0 packed (same.fills fits) copied
  rw [same.layout_eq] at copied members
  have values : r.values (c.packed seq) = some (assigned (r.members.zip r.conversions)
      (List.zipWith (image 0) (pieces c.fields) (slots (r.members.zip r.conversions)))) := by
    rw [Request.values, show copy 0 (sizeof r.layout) (c.packed seq) = _ from copied,
      Option.map_some, members, ← same.layout_eq]
    rfl
  rw [decode_packed same.known, values]
  rfl

/-- What is in range fits into the structure. -/
theorem length_le (same : c.Same r) (inside : ∀ item ∈ c.message seq, item.InRange) :
    (c.packed seq).length ≤ sizeof r.layout := by
  have packed := same.packed
  rw [← same.layout_eq] at packed
  have room := (same.fitsAll seq).room packed inside
  rw [same.layout_eq, Nat.zero_add] at room
  exact Nat.le_trans room (le_sizeof r.layout)

theorem decodes_iff (same : c.Same r) :
    c.Decodes seq ↔ ∀ item ∈ c.message seq, item.InRange := by
  have agree (fits : (c.packed seq).length ≤ sizeof r.layout) :=
    (same.fitsAll seq).is_iff (same.fills fits)
  constructor
  · rintro ⟨values, decoded, each⟩
    have fits : (c.packed seq).length ≤ sizeof r.layout := by
      rw [decode_packed same.known, Request.values, copy] at decoded
      split at decoded
      · assumption
      · cases decoded
    rw [same.decode_eq fits] at decoded
    cases decoded
    exact (agree fits).mp each
  · intro inside
    have fits := same.length_le inside
    exact ⟨_, same.decode_eq fits, (agree fits).mpr inside⟩

end Same

theorem tight (same : finish 0 r.layout = sizeof r.layout) (seq : Int)
    (fits : (c.packed seq).length ≤ sizeof r.layout) : (c.packed seq).length ≤ finish 0 r.layout :=
  same ▸ fits

theorem packed_StartRecv (seq : Int) (protocol : Protocol) (frameid : Int)
    (addrfamily : AddrFamily) (srcaddr : Address) (srcport interface flags : Int) :
    ((kPacket_StartRecv protocol frameid addrfamily srcaddr srcport interface flags).packed
      seq).length = 30 := by
  simp [packed, message, fields, Item.pack, srcaddr.sixteen]

/-- But for the flush request, each has its structure. -/
theorem exists_same (c : Command) (other : ∀ socketid_flag dataid_flag socketid dataid,
    c ≠ .kPacket_Clear socketid_flag dataid_flag socketid dataid) : ∃ r, c.Same r := by
  cases c with
  | kPacket_ConnectSend protocol frameid addrfamily srcaddr dstaddr srcport dstport datalen data
      interface flags =>
      refine ⟨process_command_connect_req, by rfl, by rfl, by decide, ?_, tight (by decide)⟩
      exact .cons (.n _) (.cons (.n _) (.cons (.C _) (.cons (.C _) (.cons (.n _) (.cons (.address _)
        (.cons (.address _) (.cons (.n _) (.cons (.n _) (.cons (.N _) (.data _))))))))))
  | kPacket_Send socketid datalen data =>
      refine ⟨process_command_send_req, by rfl, by rfl, by decide, ?_, tight (by decide)⟩
      exact .cons (.n _) (.cons .reserve (.cons (.N _) (.data _)))
  | kPacket_Recv socketid sec =>
      refine ⟨process_command_recv_req, by rfl, by rfl, by decide, ?_, tight (by decide)⟩
      exact .cons (.n _) (.cons (.n _) .nil)
  | kPacket_Close socketid sec =>
      refine ⟨process_command_close_req, by rfl, by rfl, by decide, ?_, tight (by decide)⟩
      exact .cons (.n _) (.cons (.n _) .nil)
  | kPacket_StartRecv protocol frameid addrfamily srcaddr srcport interface flags =>
      refine ⟨process_command_wait_req, by rfl, by rfl, by decide, ?_, fun seq _ => ?_⟩
      · exact .cons (.n _) (.cons (.n _) (.cons (.C _) (.cons (.C _) (.cons (.n _)
          (.cons (.address _) (.cons (.n _) .nil))))))
      · rw [packed_StartRecv]
        decide
  | kPacket_ConnectInfo socketid =>
      refine ⟨process_command_sockinfo_req, by rfl, by rfl, by decide, ?_, tight (by decide)⟩
      exact .cons (.n _) .nil
  | kPacket_DataInfo dataid =>
      refine ⟨process_command_datainfo_req, by rfl, by rfl, by decide, ?_, tight (by decide)⟩
      exact .cons (.N _) .nil
  | kPacket_Clear socketid_flag dataid_flag socketid dataid => exact absurd rfl (other _ _ _ _)
  | kPacket_TlsSetup sessionmode initialmode ssltimeout sslversion passwd rootpem mypem dhpem
      nagle clientveri tmprsa encsuit =>
      refine ⟨process_command_tls_setup_req, by rfl, by rfl, by decide, ?_, tight (by decide)⟩
      exact .cons (.n _) (.cons (.n _) (.cons (.n _) (.cons (.n _) (.cons (.a _ _) (.cons (.a _ _)
        (.cons (.a _ _) (.cons (.a _ _) (.cons (.n _) (.cons (.n _) (.cons (.n _)
          (.cons (.a _ _) .nil)))))))))))
  | kPacket_TlsClear socketid =>
      refine ⟨process_command_tls_clear_req, by rfl, by rfl, by decide, ?_, tight (by decide)⟩
      exact .cons (.n _) .nil
  | kPacket_ParserAttach parserid parsername modulepath enough =>
      refine ⟨process_command_parser_attach_req, by rfl, by rfl, by decide, ?_, tight (by decide)⟩
      exact .cons (.n _) (.cons (.n _) (.cons (.a _ _) (.cons (.a _ _) .nil)))
  | kPacket_ParserDetach parserid enough =>
      refine ⟨process_command_parser_attach_req, by rfl, by rfl, by decide, ?_, tight (by decide)⟩
      exact .cons (.n _) (.cons (.n _) (.cons (.a _ _) (.cons (.a _ _) .nil)))

/-! ## The flush request -/

/-- The data id stands two octets in front of its member. The low half of it is in the member,
    where `ntohs` finds it. -/
theorem flush_values (seq socketid_flag dataid_flag socketid dataid : Int) :
    process_command_flush_req.values
        ((kPacket_Clear socketid_flag dataid_flag socketid dataid).packed seq) =
      some [CType.short.assign .ntohs (Item.pack (.n socketid_flag)),
        CType.short.assign .ntohs (Item.pack (.n dataid_flag)),
        CType.short.assign .ntohs (Item.pack (.n socketid)), .int (dataid % 65536)] := by
  have placed : process_command_flush_req.values
        ((kPacket_Clear socketid_flag dataid_flag socketid dataid).packed seq) =
      some [CType.short.assign .ntohs (Item.pack (.n socketid_flag)),
        CType.short.assign .ntohs (Item.pack (.n dataid_flag)),
        CType.short.assign .ntohs (Item.pack (.n socketid)),
        CType.long.assign .ntohs [UInt8.ofInt (dataid / 256), UInt8.ofInt dataid, 0, 0]] := rfl
  have low : ((UInt8.ofInt (dataid / 256)).toNat * 256 + (UInt8.ofInt dataid).toNat : Nat) =
      (dataid % 65536).toNat := by
    rw [toNat_ofInt, toNat_ofInt]
    omega
  have small : (dataid % 65536).toNat < 2 ^ 31 := by omega
  have member : CType.long.assign .ntohs [UInt8.ofInt (dataid / 256), UInt8.ofInt dataid, 0, 0] =
      .int (dataid % 65536) := by
    rw [CType.assign, Conversion.convert, ntohs_load, low, Int32.toInt_ofNat_of_lt small,
      Int.toNat_of_nonneg (by omega)]
  rw [placed, member]

theorem decodes_flush_iff (seq socketid_flag dataid_flag socketid dataid : Int) :
    (kPacket_Clear socketid_flag dataid_flag socketid dataid).Decodes seq ↔
      (∀ item ∈ (kPacket_Clear socketid_flag dataid_flag socketid dataid).message seq,
          item.InRange) ∧ 0 ≤ dataid ∧ dataid < 65536 := by
  have decoded := @decode_packed seq (kPacket_Clear socketid_flag dataid_flag socketid dataid)
    process_command_flush_req rfl
  rw [flush_values, Option.map_some] at decoded
  have whole : (Value.int (dataid % 65536)).Is (.N dataid) ↔
      (Item.N dataid).InRange ∧ 0 ≤ dataid ∧ dataid < 65536 := by
    simp only [Value.Is, Item.InRange]
    omega
  simp only [Decodes, decoded, Option.some_inj, exists_eq_left', message, fields,
    List.forall₂_cons, List.forall_mem_cons, is_n_iff, whole]
  simp [and_assoc]

/-- Only the low sixteen bits of a data id are looked at. -/
theorem flush_clears {t : MsgTable} {l : Log} (related : MsgTable.Related t l)
    (seq socketid dataid : Int) :
    ∃ t' l', flush t ((kPacket_Clear 0 1 socketid dataid).packed seq) = some (t', true) ∧
      MsgTable.Related t' l' ∧
      l'.messages = l.messages.filter fun msg => msg.msg_dataid != dataid % 65536 := by
  obtain ⟨cells, rep⟩ := related
  obtain ⟨t', ok, cells', cleared, reply, rep'⟩ := rep.clear 0 1
    (Int16.ofInt (Int16.ofNat (ntohs (load (Item.pack (.n socketid))))).toInt) (dataid % 65536)
  have flushed : flush t ((kPacket_Clear 0 1 socketid dataid).packed seq) = some (t', ok) := by
    simp only [flush, flush_values, CType.assign, Conversion.convert]
    exact cleared
  have keeps : (fun msg => !Log.matches_ 0 1 (Int16.ofInt (Int16.ofNat (ntohs (load (Item.pack
      (.n socketid))))).toInt) (dataid % 65536) msg) = fun msg => msg.msg_dataid != dataid % 65536 := by
    funext msg
    simp [Log.matches_, bne]
  rw [Log.step] at reply rep'
  split at reply
  · rename_i empty
    cases reply
    rw [if_pos empty] at rep'
    exact ⟨t', l, flushed, ⟨cells', rep'⟩, by rw [empty, List.filter_nil]⟩
  · rename_i some_
    rw [if_neg (by decide)] at reply
    cases reply
    rw [if_neg some_, if_neg (by decide), keeps] at rep'
    exact ⟨t', _, flushed, ⟨cells', rep'⟩, rfl⟩

end Command

/-- Both sides mean the same values exactly when each number is one of its signed type, each
    string has room, and the data id of a flush request has sixteen bits. -/
theorem Command.agrees_iff (seq : Int) (c : Command) : c.Agrees seq ↔ c.InRange seq := by
  by_cases flushes : ∃ socketid_flag dataid_flag socketid dataid,
      c = kPacket_Clear socketid_flag dataid_flag socketid dataid
  · obtain ⟨socketid_flag, dataid_flag, socketid, dataid, rfl⟩ := flushes
    have decodes := decodes_flush_iff seq socketid_flag dataid_flag socketid dataid
    constructor
    · intro agrees
      obtain ⟨inside, sixteen⟩ := decodes.mp agrees.1
      refine ⟨inside, ?_⟩
      intro _ _ _ _ same
      cases same
      exact sixteen
    · intro range
      have sixteen := range.2 _ _ _ _ rfl
      refine ⟨decodes.mpr ⟨range.1, sixteen⟩, ?_⟩
      intro socketid dataid same t l related
      cases same
      have cleared := flush_clears related seq socketid dataid
      rw [Int.emod_eq_of_lt sixteen.1 sixteen.2] at cleared
      exact cleared
  · have other (socketid_flag dataid_flag socketid dataid : Int) :
        c ≠ kPacket_Clear socketid_flag dataid_flag socketid dataid :=
      fun same => flushes ⟨_, _, _, _, same⟩
    obtain ⟨r, same⟩ := exists_same c other
    constructor
    · intro agrees
      exact ⟨same.decodes_iff.mp agrees.1, fun _ _ _ _ same => absurd same (other _ _ _ _)⟩
    · intro range
      exact ⟨same.decodes_iff.mpr range.1, fun _ _ same => absurd same (other _ _ _ _)⟩

/-- A data id behind the sixteenth bit. -/
theorem Command.not_agrees : ¬ (kPacket_Clear 0 1 0 65537).Agrees 1 := by
  intro agrees
  obtain ⟨values, decoded, each⟩ := agrees.1
  have other : decode ((kPacket_Clear 0 1 0 65537).packed 1) =
      some [.int 264, .int 1, .int 0, .int 1, .int 0, .int 1] := by decide
  rw [other] at decoded
  cases decoded
  simp [message, fields, Value.Is] at each

end Tahi.Koi
