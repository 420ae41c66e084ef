import Tahi.Pz.McDNSEntries

/-! # Decoding the sections of a DNS message

A section takes as many entries as its count says, from its index on in the first pass
and from the start in the second one. An index that an earlier message has left behind
makes the first pass see too few entries, and the length that it finds is then all that
remains.
-/

namespace Tahi.Pz.McDNS

open BitField

namespace Kept

variable {k : Kept} {s : Section}

theorem Quiet.increase_current (quiet : k.Quiet) : (k.increase_current s).Quiet :=
  ⟨quiet.length_, quiet.entry, quiet.rr⟩

theorem Quiet.init_current (quiet : k.Quiet) : (k.init_current s).Quiet :=
  ⟨quiet.length_, quiet.entry, quiet.rr⟩

@[simp] theorem init_increase : (k.increase_current s).init_current s = k.init_current s := by
  simp [init_current, Kept.increase_current]

@[simp] theorem init_init : (k.init_current s).init_current s = k.init_current s := by
  simp [Kept.init_current]

@[simp] theorem current_init : (k.init_current s).current_ s = 0 := by simp [Kept.init_current]

@[simp] theorem current_increase : (k.increase_current s).current_ s = k.current_ s + 1 := by
  simp [Kept.increase_current]

theorem current_init_ne {t : Section} (other : t ≠ s) :
    (k.init_current s).current_ t = k.current_ t := by
  simp [Kept.init_current, other]

end Kept

/-! ## Rows of entries -/

section

variable {a : Nat} {buf : Octbuf}

@[simp] theorem trees_length (es : List Entry) : (trees es a buf).length = es.length := by
  induction es generalizing a with
  | nil => rfl
  | cons e es ih => simp [trees, ih]

@[simp] theorem octetsOf_trees (es : List Entry) :
    RObject.octetsOf (trees es a buf) = (Entry.wires es).length := by
  induction es generalizing a with
  | nil => rfl
  | cons e es ih => simp [trees, ih, Entry.tree, compound, RObject.size]

theorem wires_take_drop (es : List Entry) (n : Nat) :
    (Entry.wires es).length =
      (Entry.wires (es.take n)).length + (Entry.wires (es.drop n)).length := by
  rw [← List.length_append, ← Entry.wires_append, List.take_append_drop]

theorem reads_take {es : List Entry} (n : Nat) (reads : buf.Reads a (Entry.wires es)) :
    buf.Reads a (Entry.wires (es.take n)) ∧
      buf.Reads (a + (Entry.wires (es.take n)).length) (Entry.wires (es.drop n)) := by
  apply Octbuf.reads_append.mp
  rwa [← Entry.wires_append, List.take_append_drop]

theorem wires_pos {es : List Entry} (some_left : es ≠ []) : 0 < (Entry.wires es).length := by
  cases es with
  | nil => contradiction
  | cons e es =>
      have := e.wire_pos
      simp only [Entry.wires_cons, List.length_append]
      omega

end

/-- The loop decodes entries until the count is reached or the window ends. By induction on
    the entries; each turn counts the index up by one. -/
theorem entriesLoop_entries {s : Section} {k : Kept} (buf : Octbuf) (a fuel : Nat) (quiet : k.Quiet)
    (es : List Entry) (fits : ∀ e ∈ es, e.Fits s) (reads : buf.Reads a (Entry.wires es))
    (room : a + (Entry.wires es).length ≤ buf.length)
    (within : es.length ≤ k.reverse_ s - k.current_ s)
    (ends : es.length = k.reverse_ s - k.current_ s ∨ a + (Entry.wires es).length = buf.length)
    (enough : es.length < fuel) :
    entriesLoop s s.forward fuel k false (8 * a) buf =
      ⟨k.init_current s, false, 8 * (a + (Entry.wires es).length), trees es a buf⟩ := by
  induction es generalizing a k fuel with
  | nil =>
      cases fuel with
      | zero => cases enough
      | succ fuel =>
          have stop : ¬ (buf.remainLength (8 * a / 8) ≠ 0 ∧ k.current_ s < k.reverse_ s) := by
            simp only [List.length_nil, Entry.wires_nil, mul_div_octet, Octbuf.remainLength]
              at ends within ⊢
            omega
          simp only [entriesLoop, stop, if_false, Entry.wires_nil, List.length_nil, Nat.add_zero,
            trees]
  | cons e es ih =>
      cases fuel with
      | zero => cases enough
      | succ fuel =>
          simp only [Entry.wires_cons, List.length_append, List.length_cons]
            at reads room within ends enough ⊢
          have pos := e.wire_pos
          obtain ⟨here, behind⟩ := Octbuf.reads_append.mp reads
          have go : buf.remainLength (8 * a / 8) ≠ 0 ∧ k.current_ s < k.reverse_ s := by
            simp only [mul_div_octet, Octbuf.remainLength]
            omega
          have one := forward_entry (k := k.increase_current s) quiet.increase_current
            (fits e (List.mem_cons_self ..)) here (by omega)
          have next := ih (k := k.increase_current s) (a + e.wire.length) fuel
            quiet.increase_current (fun f member => fits f (List.mem_cons_of_mem _ member)) behind
            (by omega)
            (by
              have same : (k.increase_current s).reverse_ = k.reverse_ := rfl
              rw [Kept.current_increase, same]
              omega)
            (by
              have same : (k.increase_current s).reverse_ = k.reverse_ := rfl
              rw [Kept.current_increase, same]
              omega)
            (by omega)
          simp only [entriesLoop, go, ne_eq, not_false_eq_true, and_self, if_true, one,
            Bool.false_eq_true, if_false, next, Kept.init_increase, trees, Nat.add_assoc]

/-! ## One section -/

namespace Section

variable {s : Section} {k : Kept} {buf : Octbuf} {a : Nat}

/-- A pass over a section in a window that has been found for it. -/
theorem option_window {k' : Kept} {l : Nat} (quiet : k.Quiet)
    (found : s.length_for_reverse k' (8 * a) buf = (l, k)) (inside : a + l ≤ buf.length)
    (es : List Entry) (fits : ∀ e ∈ es, e.Fits s) (reads : buf.Reads a (Entry.wires es))
    (room : (Entry.wires es).length ≤ l) (within : es.length ≤ k.reverse_ s - k.current_ s)
    (ends : es.length = k.reverse_ s - k.current_ s ∨ (Entry.wires es).length = l) :
    ∃ less, Leftover (Entry.wires es).length (buf.substr a l) less ∧
      s.option k' false (8 * a) buf =
        ⟨k.init_current s, false, 8 * (a + l),
          some (compound (.Section s) a l buf fun self => trees es 0 self ++ less)⟩ := by
  have loop := entriesLoop_entries (buf.substr a l) 0
    (k.reverse_ s - k.current_ s + 1) quiet es fits
    (by rwa [Octbuf.reads_substr]) (by simpa using room) within (by simpa using ends) (by omega)
  obtain ⟨less, rest, shape⟩ := needless_room (buf.substr a l) room
  refine ⟨less, shape, ?_⟩
  have fit : 8 * a + 8 * l ≤ 8 * buf.length := by omega
  simp only [Nat.mul_zero, Nat.zero_add] at loop
  simp only [option, found, fit, if_true, mul_div_octet, member_eq, entries, loop, rest, Nat.mul_add,
    compound]

/-- The octets of as many objects as the count says, in the first pass. -/
theorem octetsOf_probe {es : List Entry} {c i : Nat} {self : Octbuf} {less : List RObject}
    (long : (Entry.wires es).length = self.length) (pos : 0 < c)
    (shape : Leftover (Entry.wires (es.take (c - i))).length self less) :
    RObject.octetsOf ((trees (es.take (c - i)) 0 self ++ less).take c) =
      if i = 0 then (Entry.wires (es.take c)).length else self.length := by
  have split := wires_take_drop es (c - i)
  by_cases start : i = 0
  · subst start
    simp only [Nat.sub_zero, if_true] at shape ⊢
    by_cases many : c ≤ es.length
    · rw [List.take_left' (by simpa using many), octetsOf_trees]
    · have all : es.take c = es := List.take_of_length_le (by omega)
      rw [all] at shape ⊢
      obtain ⟨-, rfl⟩ | ⟨more, -⟩ := shape
      · rw [List.append_nil, List.take_of_length_le (by simpa using Nat.le_of_not_le many),
          octetsOf_trees]
      · omega
  · have few := shape.short
    rw [if_neg start, List.take_of_length_le
      (by simp only [List.length_append, trees_length, List.length_take]; omega),
      RObject.octetsOf_append, octetsOf_trees, shape.octetsOf]
    omega

/-- A section that entries of its kind stand in. With no index left behind it is as long as the
    entries that it counts, and otherwise it takes all that remains. -/
theorem reverse_section (quiet : k.Quiet) (pos : 0 < k.reverse_ s) (es : List Entry)
    (some_left : es ≠ []) (fits : ∀ e ∈ es.take (k.reverse_ s), e.Fits s)
    (reads : buf.Reads a (Entry.wires es)) (fill : a + (Entry.wires es).length = buf.length) :
    ∃ l rc,
      s.reverse k false (8 * a) buf = ⟨k.init_current s, false, 8 * (a + l), some rc⟩ ∧
      l = (if k.current_ s = 0 then (Entry.wires (es.take (k.reverse_ s))).length
        else buf.length - a) ∧
      (l = (Entry.wires (es.take (k.reverse_ s))).length →
        rc = s.tree (es.take (k.reverse_ s)) a buf) := by
  have split := wires_take_drop es (k.reverse_ s - k.current_ s)
  have seen := wires_take_drop es (k.reverse_ s)
  have first : s.length_for_reverse k (8 * a) buf = (buf.length - a, k) := by
    simp [length_for_reverse, quiet.length_ s, Octbuf.remainLength]
  have fewer : ∀ e ∈ es.take (k.reverse_ s - k.current_ s), e.Fits s := fun e member =>
    fits e (List.take_subset_take_left es (Nat.sub_le ..) member)
  -- the entries that a pass takes end with the count or with the window
  have bounded : ∀ n, (es.take n).length = n ∨
      (Entry.wires (es.take n)).length = (Entry.wires es).length := by
    intro n
    by_cases many : n ≤ es.length
    · exact .inl (by simpa using many)
    · exact .inr (by rw [List.take_of_length_le (by omega)])
  obtain ⟨less, shape, probe⟩ := option_window quiet first (by omega) _ fewer (reads_take _ reads).1
    (by omega) (by simp only [List.length_take]; omega)
    (by
      cases bounded (k.reverse_ s - k.current_ s) with
      | inl count => exact .inl count
      | inr all => exact .inr (by omega))
  have size : (Entry.wires es).length = (buf.substr a (buf.length - a)).length := by
    simp only [Octbuf.substr_length]
    omega
  have len := octetsOf_probe size pos shape
  simp only [Octbuf.substr_length] at len
  have positive := wires_pos some_left
  have positive' : 0 < (Entry.wires (es.take (k.reverse_ s))).length :=
    wires_pos (by simp [some_left, Nat.ne_of_gt pos])
  generalize whole : (if k.current_ s = 0 then (Entry.wires (es.take (k.reverse_ s))).length
    else buf.length - a) = l at len
  have second : s.length_for_reverse ((k.init_current s).set_length s l) (8 * a) buf =
      (l, k.init_current s) := by
    have set : l ≠ 0 := by split at whole <;> omega
    have back : ((k.init_current s).set_length s l).set_length s 0 = k.init_current s := by
      have silent : (k.init_current s).length_ s = 0 := quiet.length_ s
      simp only [Kept.set_length, Function.update_idem]
      rw [← silent, Function.update_eq_self]
    simp only [length_for_reverse, back]
    simp [Kept.set_length, set]
  obtain ⟨rest, shape', real⟩ := option_window (a := a) quiet.init_current second
    (by split at whole <;> omega) _ fits (reads_take _ reads).1 (by split at whole <;> omega)
    (by
      simp only [Kept.current_init, Nat.sub_zero, List.length_take]
      exact Nat.min_le_left _ _)
    (by
      cases bounded (k.reverse_ s) with
      | inl count =>
          left
          rw [Kept.current_init, Nat.sub_zero]
          exact count
      | inr all => exact .inr (by split at whole <;> omega))
  refine ⟨l, compound (.Section s) a l buf fun self =>
    trees (es.take (k.reverse_ s)) 0 self ++ rest, ?_, rfl, ?_⟩
  · have same : (k.init_current s).reverse_ = k.reverse_ := rfl
    simp only [reverse, probe, compound, RObject.children, same, len]
    rw [real, Kept.init_init]
    rfl
  · intro snug
    obtain ⟨-, rfl⟩ | ⟨more, -⟩ := shape'
    · rw [snug]
      simp [Section.tree]
    · simp only [Octbuf.substr_length] at more
      omega

theorem onDNS_skip (s : Section) (k : Kept) (buf : Octbuf) (skip : k.reverse_ s = 0 ∨ a = buf.length) :
    s.onDNS k false (8 * a) buf = ⟨k, false, 8 * a, none⟩ := by
  have stop : ¬ (buf.remainLength (8 * a / 8) ≠ 0 ∧ 0 < k.reverse_ s) := by
    simp only [mul_div_octet, Octbuf.remainLength]
    omega
  simp only [onDNS, stop, if_false]

theorem onDNS_enter (s : Section) (k : Kept) (buf : Octbuf) (pos : 0 < k.reverse_ s) (room : a < buf.length) :
    s.onDNS k false (8 * a) buf = s.reverse k false (8 * a) buf := by
  have go : buf.remainLength (8 * a / 8) ≠ 0 ∧ 0 < k.reverse_ s := by
    simp only [mul_div_octet, Octbuf.remainLength]
    omega
  simp only [onDNS, go, ne_eq, not_false_eq_true, and_self, if_true]

end Section

/-! ## The first pass over the sections -/

namespace Kept

variable {k : Kept} {ss : List Section} {n : Nat} {s t : Section}

/-- The sections in front of a section. -/
@[grind =]
def before (ss : List Section) (s : Section) : List Section := ss.takeWhile (· ≠ s)

/-- How many entries stand in front of a section by the counts that are kept. -/
def passed (k : Kept) (ss : List Section) (s : Section) : Nat := ((before ss s).map k.reverse_).sum

/-- Whether the first pass goes into a section of a message with `n` entries: the kept count is
    positive, the sections in front of it leave entries over, and none of them takes all that
    remains. -/
@[grind =]
def Enters (k : Kept) (ss : List Section) (n : Nat) (s : Section) : Prop :=
  0 < k.reverse_ s ∧ k.passed ss s < n ∧
    ∀ t ∈ before ss s, k.reverse_ t ≠ 0 → k.current_ t = 0

instance : Decidable (k.Enters ss n s) := inferInstanceAs (Decidable (_ ∧ _ ∧ _))

theorem enters_head : k.Enters (s :: ss) n s ↔ 0 < k.reverse_ s ∧ 0 < n := by
  simp [Enters, passed, before]

theorem passed_tail (other : s ≠ t) : k.passed (t :: ss) s = k.reverse_ t + k.passed ss s := by
  simp [passed, before, Ne.symm other]

theorem enters_tail (other : s ≠ t) :
    k.Enters (t :: ss) n s ↔
      0 < k.reverse_ s ∧ k.reverse_ t + k.passed ss s < n ∧ (k.reverse_ t ≠ 0 → k.current_ t = 0) ∧
        ∀ u ∈ before ss s, k.reverse_ u ≠ 0 → k.current_ u = 0 := by
  rw [Enters, passed_tail other]
  simp [before, Ne.symm other]

/-- A section that has been gone through is not looked at again. -/
theorem enters_init (fresh : t ∉ ss) : (k.init_current t).Enters ss n s ↔ k.Enters ss n s := by
  have same : ∀ u ∈ before ss s, (k.init_current t).current_ u = k.current_ u := by
    intro u member
    apply current_init_ne
    intro equal
    subst equal
    exact fresh (List.takeWhile_subset _ member)
  constructor
  · rintro ⟨pos, left, clear⟩
    refine ⟨pos, left, ?_⟩
    intro u member counts
    rw [← same u member]
    exact clear u member counts
  · rintro ⟨pos, left, clear⟩
    refine ⟨pos, left, ?_⟩
    intro u member counts
    rw [same u member]
    exact clear u member counts

end Kept

/-- The first pass over the sections ends without an error when every section that it goes into
    has entries of its kind, and it leaves no index behind in these. -/
theorem sectionsLoop_probe {ss : List Section} {k : Kept} {buf : Octbuf} {a : Nat}
    (distinct : ss.Nodup) (quiet : k.Quiet) (es : List Entry)
    (reads : buf.Reads a (Entry.wires es)) (fill : a + (Entry.wires es).length = buf.length)
    (aligned : ∀ s ∈ ss, k.Enters ss es.length s →
      ∀ e ∈ (es.drop (k.passed ss s)).take (k.reverse_ s), e.Fits s) :
    ∃ k' b made, sectionsLoop ss k false (8 * a) buf = ⟨k', false, 8 * b, made⟩ ∧
      b ≤ buf.length ∧ k'.Quiet ∧
      ∀ s, k'.current_ s = if s ∈ ss ∧ k.Enters ss es.length s then 0 else k.current_ s := by
  induction ss generalizing k a es with
  | nil =>
      refine ⟨k, a, [], rfl, ?_, quiet, ?_⟩
      · omega
      · simp
  | cons t ss ih =>
      obtain ⟨fresh, distinct⟩ := List.nodup_cons.mp distinct
      have other : ∀ s ∈ ss, s ≠ t := by
        intro s member equal
        exact fresh (equal ▸ member)
      by_cases skip : k.reverse_ t = 0 ∨ es = []
      · have stays : ∀ s ∈ ss, (k.Enters (t :: ss) es.length s ↔ k.Enters ss es.length s) := by
          intro s member
          rw [Kept.enters_tail (other s member), Kept.Enters]
          cases skip with
          | inl zero => simp [zero]
          | inr empty => simp [empty]
        obtain ⟨k', b, made, loop, room, still, index⟩ := ih distinct quiet es reads fill (by
          intro s member enters e seen
          apply aligned s (List.mem_cons_of_mem _ member) ((stays s member).mpr enters) e
          rw [Kept.passed_tail (other s member)]
          cases skip with
          | inl zero => rwa [zero, Nat.zero_add]
          | inr empty => simp [empty] at seen)
        have none := Section.onDNS_skip (a := a) t k buf (by
          cases skip with
          | inl zero => exact .inl zero
          | inr empty =>
              simp only [empty, Entry.wires_nil, List.length_nil, Nat.add_zero] at fill
              exact .inr fill)
        refine ⟨k', b, made, ?_, room, still, ?_⟩
        · simp only [sectionsLoop, none, Bool.false_eq_true, if_false, loop, Option.toList_none,
            List.nil_append]
        · intro s
          rw [index s]
          by_cases same : s = t
          · subst same
            have out : ¬ k.Enters (s :: ss) es.length s := by
              rw [Kept.enters_head]
              cases skip with
              | inl zero => simp [zero]
              | inr empty => simp [empty]
            simp [fresh, out]
          · by_cases member : s ∈ ss
            · simp [member, stays s member]
            · simp [member, same]
      · have counts : 0 < k.reverse_ t := Nat.pos_of_ne_zero fun zero => skip (.inl zero)
        have some_left : es ≠ [] := fun empty => skip (.inr empty)
        have entered : k.Enters (t :: ss) es.length t :=
          Kept.enters_head.mpr ⟨counts, List.length_pos_iff.mpr some_left⟩
        obtain ⟨l, rc, step, size, -⟩ := Section.reverse_section quiet counts es some_left
          (by
            have := aligned t (List.mem_cons_self ..) entered
            simpa [Kept.passed, Kept.before] using this) reads fill
        have positive := wires_pos some_left
        have seen := wires_take_drop es (k.reverse_ t)
        have go := Section.onDNS_enter (a := a) t k buf counts (by omega)
        -- what is left for the sections behind: the entries that were not counted, or nothing
        have behind : ∃ rest : List Entry,
            buf.Reads (a + l) (Entry.wires rest) ∧
            a + l + (Entry.wires rest).length = buf.length ∧
            ∀ s ∈ ss, (k.Enters (t :: ss) es.length s ↔ k.Enters ss rest.length s) ∧
              (k.Enters ss rest.length s → es.drop (k.passed (t :: ss) s) =
                rest.drop (k.passed ss s)) := by
          by_cases clear : k.current_ t = 0
          · rw [if_pos clear] at size
            subst size
            refine ⟨es.drop (k.reverse_ t), (reads_take _ reads).2, by omega, ?_⟩
            intro s member
            constructor
            · rw [Kept.enters_tail (other s member), Kept.Enters, List.length_drop]
              have arith : k.reverse_ t + k.passed ss s < es.length ↔
                  k.passed ss s < es.length - k.reverse_ t := by omega
              simp [arith, clear]
            · intro _
              rw [Kept.passed_tail (other s member), List.drop_drop]
          · rw [if_neg clear] at size
            refine ⟨[], Octbuf.reads_nil, by simp only [Entry.wires_nil, List.length_nil]; omega, ?_⟩
            intro s member
            have out : ¬ k.Enters ss 0 s := by simp [Kept.Enters]
            constructor
            · rw [Kept.enters_tail (other s member)]
              simp [out, clear, Nat.ne_of_gt counts]
            · intro enters
              exact absurd enters out
        obtain ⟨rest, reads', fill', same⟩ := behind
        obtain ⟨k', b, made, loop, room, still, index⟩ := ih distinct
          (quiet.init_current (s := t)) rest reads' fill' (by
            intro s member enters e listed
            have enters' := (Kept.enters_init fresh).mp enters
            apply aligned s (List.mem_cons_of_mem _ member) ((same s member).1.mpr enters') e
            rw [(same s member).2 enters']
            exact listed)
        refine ⟨k', b, rc :: made, ?_, room, still, ?_⟩
        · simp only [sectionsLoop, go, step, Bool.false_eq_true, if_false, loop,
            Option.toList_some, List.singleton_append]
        · intro s
          rw [index s]
          by_cases here : s = t
          · subst here
            simp [fresh, entered]
          · by_cases member : s ∈ ss
            · have way := (same s member).1
              have way' := Kept.enters_init (k := k) (n := rest.length) (s := s) fresh
              simp [member, way, way', Kept.current_init_ne here]
            · simp [member, here, Kept.current_init_ne here]

/-- The second pass, with the counts of the message: every section has its own entries, if none
    that has a section behind it starts from an index. -/
theorem sectionsLoop_real {ss : List Section} {k : Kept} {buf : Octbuf} {a : Nat}
    (group : Section → List Entry) (distinct : ss.Nodup) (quiet : k.Quiet)
    (counts : ∀ s ∈ ss, k.reverse_ s = (group s).length)
    (fits : ∀ s ∈ ss, ∀ e ∈ group s, e.Fits s)
    (reads : buf.Reads a (Entry.wires (ss.flatMap group)))
    (fill : a + (Entry.wires (ss.flatMap group)).length = buf.length)
    (settled : ss.Pairwise fun s t => k.current_ s = 0 ∨ group s = [] ∨ group t = []) :
    ∃ k', sectionsLoop ss k false (8 * a) buf =
      ⟨k', false, 8 * buf.length, sectionTrees group ss a buf⟩ := by
  induction ss generalizing k a with
  | nil =>
      simp only [List.flatMap_nil, Entry.wires_nil, List.length_nil, Nat.add_zero] at fill
      subst fill
      exact ⟨k, rfl⟩
  | cons t ss ih =>
      obtain ⟨fresh, distinct⟩ := List.nodup_cons.mp distinct
      obtain ⟨now, later⟩ := List.pairwise_cons.mp settled
      have count := counts t (List.mem_cons_self ..)
      simp only [List.flatMap_cons, Entry.wires_append, List.length_append] at reads fill
      obtain ⟨here, behind⟩ := Octbuf.reads_append.mp reads
      by_cases empty : group t = []
      · simp only [empty, Entry.wires_nil, List.length_nil, Nat.add_zero, Nat.zero_add]
          at behind fill count
        obtain ⟨k', loop⟩ := ih distinct quiet
          (fun s member => counts s (List.mem_cons_of_mem _ member))
          (fun s member => fits s (List.mem_cons_of_mem _ member)) behind fill later
        refine ⟨k', ?_⟩
        have none := Section.onDNS_skip (a := a) t k buf (.inl count)
        simp only [sectionsLoop, none, Bool.false_eq_true, if_false, loop, Option.toList_none,
          List.nil_append, sectionTrees, empty, if_true]
      · have own : (group t ++ ss.flatMap group).take (k.reverse_ t) = group t :=
          List.take_left' count.symm
        have positive := wires_pos empty
        obtain ⟨l, rc, step, size, tree⟩ := Section.reverse_section (s := t) quiet
          (by rw [count]; exact List.length_pos_iff.mpr empty) (group t ++ ss.flatMap group)
          (by simp [empty])
          (by rw [own]; exact fits t (List.mem_cons_self ..))
          (by rw [Entry.wires_append]; exact reads)
          (by rw [Entry.wires_append, List.length_append]; exact fill)
        rw [own] at size tree
        have snug : l = (Entry.wires (group t)).length := by
          by_cases clear : k.current_ t = 0
          · rw [size, if_pos clear]
          · have last : ss.flatMap group = [] := by
              rw [List.flatMap_eq_nil_iff]
              intro s member
              have := now s member
              simpa [clear, empty] using this
            rw [size, if_neg clear]
            simp only [last, Entry.wires_nil, List.length_nil] at fill
            omega
        rw [tree snug] at step
        subst snug
        obtain ⟨k', loop⟩ := ih distinct (quiet.init_current (s := t))
          (fun s member => counts s (List.mem_cons_of_mem _ member))
          (fun s member => fits s (List.mem_cons_of_mem _ member)) behind (by omega)
          (by
            apply later.imp_of_mem
            intro s u member _ clear
            have other : s ≠ t := by
              intro equal
              subst equal
              exact fresh member
            rw [Kept.current_init_ne other]
            exact clear)
        refine ⟨k', ?_⟩
        have go := Section.onDNS_enter (a := a) t k buf
          (by rw [count]; exact List.length_pos_iff.mpr empty) (by omega)
        simp only [sectionsLoop, go, step, Bool.false_eq_true, if_false, loop, Option.toList_some,
          List.singleton_append, sectionTrees, empty]

end Tahi.Pz.McDNS
