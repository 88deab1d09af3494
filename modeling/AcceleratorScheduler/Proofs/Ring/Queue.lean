import Mathlib.Algebra.Group.Nat.Defs
import AcceleratorScheduler.Proofs.Answers
import AcceleratorScheduler.Proofs.Ring.Words

/-! A sound ring as a list of slots. Pushing appends, popping takes the head off, and a ring at its
capacity refuses; main statements: `push_of_room`, `push_of_full`, `pop_cons`, `pop_nil`. -/
namespace AcceleratorScheduler.Ring

namespace Header

def count (h : Header) : Nat := (h.put.toNat + h.slots.toNat - h.get.toNat) % h.slots.toNat

def capacity (h : Header) : Nat := h.slots.toNat - 1

def free (h : Header) : Nat := h.capacity - h.count

def position (h : Header) (k : Nat) : Nat := (h.get.toNat + k) % h.slots.toNat

/-- The indices name places, and there are two places at least. -/
structure Circular (h : Header) : Prop where
  two_le : 2 ≤ h.slots.toNat
  put_lt : h.put.toNat < h.slots.toNat
  get_lt : h.get.toNat < h.slots.toNat

/-- What the places hold from get up to put, around the ring. -/
def along {α : Type} (h : Header) (f : Nat → α) : List α :=
  (List.range h.count).map fun k => f (h.position k)

variable {h : Header} {size : Nat}

theorem Sound.circular (hs : h.Sound size) : h.Circular :=
  ⟨UInt32.le_iff_toNat_le.mp hs.1, UInt32.lt_iff_toNat_lt.mp hs.2.2.1,
    UInt32.lt_iff_toNat_lt.mp hs.2.2.2⟩

theorem toNat_next {i : UInt32} (hi : i.toNat < h.slots.toNat) :
    (h.next i).toNat = (i.toNat + 1) % h.slots.toNat := by
  have hlt := h.slots.toNat_lt
  have hadd : (i + 1).toNat = i.toNat + 1 := by
    rw [UInt32.toNat_add]
    change (i.toNat + 1) % 2 ^ 32 = _
    omega
  rw [next, UInt32.toNat_mod, hadd]

theorem next_lt {i : UInt32} (hi : i.toNat < h.slots.toNat) :
    h.next i < h.slots := by
  rw [UInt32.lt_iff_toNat_lt, toNat_next hi]
  exact Nat.mod_lt _ (by omega)

/-- The distance from get to put, the other way round once put has wrapped. -/
theorem count_cases (hc : h.Circular) :
    (h.get.toNat ≤ h.put.toNat → h.count = h.put.toNat - h.get.toNat) ∧
      (h.put.toNat < h.get.toNat → h.count = h.put.toNat + h.slots.toNat - h.get.toNat) := by
  obtain ⟨_, hp, hg⟩ := hc
  constructor
  · intro hle
    rw [count, (by omega : h.put.toNat + h.slots.toNat - h.get.toNat =
      h.put.toNat - h.get.toNat + h.slots.toNat), Nat.add_mod_right]
    exact Nat.mod_eq_of_lt (by omega)
  · intro hlt
    exact Nat.mod_eq_of_lt (by omega)

/-- One step around: the next number, or zero after the last. -/
private theorem succ_mod_cases {i n : Nat} (hi : i < n) :
    (i + 1 < n ∧ (i + 1) % n = i + 1) ∨ (i + 1 = n ∧ (i + 1) % n = 0) := by
  rcases Nat.lt_or_eq_of_le (Nat.succ_le_of_lt hi) with hlt | heq
  · exact .inl ⟨hlt, Nat.mod_eq_of_lt hlt⟩
  · exact .inr ⟨heq, by rw [show i + 1 = n from heq, Nat.mod_self]⟩

theorem count_le_capacity (hc : h.Circular) : h.count ≤ h.capacity := by
  obtain ⟨_, hp, hg⟩ := hc
  have := Nat.mod_lt (h.put.toNat + h.slots.toNat - h.get.toNat) (by omega : 0 < h.slots.toNat)
  simp only [count, capacity]
  omega

theorem isEmpty_iff (hc : h.Circular) : h.isEmpty = true ↔ h.count = 0 := by
  have hcount := count_cases hc
  obtain ⟨_, hp, hg⟩ := hc
  rw [isEmpty, beq_iff_eq, ← UInt32.toNat_inj]
  omega

theorem isFull_iff (hc : h.Circular) : h.isFull = true ↔ h.count = h.capacity := by
  have hcount := count_cases hc
  obtain ⟨_, hp, hg⟩ := hc
  have hn := succ_mod_cases hp
  rw [isFull, beq_iff_eq, ← UInt32.toNat_inj, toNat_next hp, capacity]
  omega

/-- What the length loses before it is reduced to the slots is a multiple of what a word counts. -/
theorem toNat_length_eq (hc : h.Circular) :
    h.length.toNat = (h.put.toNat + h.slots.toNat - h.get.toNat) % 2 ^ 32 % h.slots.toNat := by
  have hg := hc.get_lt
  have hword := h.get.toNat_lt
  rw [length, UInt32.toNat_mod, UInt32.toNat_sub, UInt32.toNat_add]
  congr 1
  omega

/-- Right or wrong, the length is less than the slots. -/
theorem toNat_length_lt (hc : h.Circular) : h.length.toNat < h.slots.toNat := by
  rw [toNat_length_eq hc]
  exact Nat.mod_lt _ (Nat.lt_of_lt_of_le Nat.zero_lt_two hc.two_le)

/-- Once put and slots pass what a word counts by get or more, the length falls short. -/
theorem length_of_overflow (hc : h.Circular)
    (ho : 2 ^ 32 + h.get.toNat ≤ h.put.toNat + h.slots.toNat) :
    h.length.toNat + 2 ^ 32 = h.count + h.slots.toNat := by
  have hp := hc.put_lt
  have hword := h.slots.toNat_lt
  have hcount : h.count = h.put.toNat - h.get.toNat := (count_cases hc).1 (by omega)
  have hwrapped : (h.put.toNat + h.slots.toNat - h.get.toNat) % 2 ^ 32 =
      h.put.toNat + h.slots.toNat - h.get.toNat - 2 ^ 32 := by omega
  rw [toNat_length_eq hc, hwrapped, Nat.mod_eq_of_lt (by omega), hcount]
  omega

/-- Nothing else makes the length wrong. -/
theorem toNat_length_iff (hc : h.Circular) :
    h.length.toNat = h.count ↔ h.put.toNat + h.slots.toNat < 2 ^ 32 + h.get.toNat := by
  constructor
  · intro he
    refine Nat.lt_of_not_le fun ho => ?_
    have hshort := length_of_overflow hc ho
    have hword := h.slots.toNat_lt
    omega
  · intro hsum
    have hg := hc.get_lt
    have hfits : (h.put.toNat + h.slots.toNat - h.get.toNat) % 2 ^ 32 =
        h.put.toNat + h.slots.toNat - h.get.toNat := Nat.mod_eq_of_lt (by omega)
    rw [toNat_length_eq hc, hfits, count]

/-- The wrapping arithmetic of the length is exact while put and slots add up below 2^32. -/
theorem toNat_length (hc : h.Circular) (hb : h.put.toNat + h.slots.toNat < 2 ^ 32) :
    h.length.toNat = h.count :=
  (toNat_length_iff hc).mpr (Nat.lt_of_lt_of_le hb (Nat.le_add_right _ _))

theorem position_zero (hc : h.Circular) : h.position 0 = h.get.toNat :=
  Nat.mod_eq_of_lt hc.get_lt

theorem position_count (hc : h.Circular) : h.position h.count = h.put.toNat := by
  obtain ⟨hin, hwrap⟩ := count_cases hc
  obtain ⟨_, hp, hg⟩ := hc
  rcases Nat.lt_or_ge h.put.toNat h.get.toNat with hlt | hle
  · rw [position, hwrap hlt, Nat.add_sub_cancel' (by omega), Nat.add_mod_right]
    exact Nat.mod_eq_of_lt hp
  · rw [position, hin hle, Nat.add_sub_cancel' hle]
    exact Nat.mod_eq_of_lt hp

/-- The last slot that waits stands in the place before put. -/
theorem position_count_sub_one (hc : h.Circular) (hn : h.count ≠ 0) :
    h.position (h.count - 1) = (h.put.toNat + h.slots.toNat - 1) % h.slots.toNat := by
  obtain ⟨hin, hwrap⟩ := count_cases hc
  obtain ⟨_, hp, hg⟩ := hc
  rcases Nat.lt_or_ge h.put.toNat h.get.toNat with hlt | hle
  · rw [position, hwrap hlt]
    congr 1
    omega
  · have hback : h.put.toNat + h.slots.toNat - 1 = h.put.toNat - 1 + h.slots.toNat := by omega
    rw [position, hback, Nat.add_mod_right]
    congr 1
    omega

theorem position_ne_put (hc : h.Circular) {k : Nat} (hk : k < h.count) :
    h.position k ≠ h.put.toNat := by
  have hcount := count_cases hc
  obtain ⟨_, hp, hg⟩ := hc
  rw [position]
  rcases Nat.lt_or_ge (h.get.toNat + k) h.slots.toNat with hin | hout
  · rw [Nat.mod_eq_of_lt hin]
    omega
  · rw [Nat.mod_eq_sub_mod hout, Nat.mod_eq_of_lt (by omega)]
    omega

def popped (h : Header) : Header := { h with get := h.next h.get }

def pushed (h : Header) : Header := { h with put := h.next h.put }

theorem Circular.popped (hc : h.Circular) : h.popped.Circular :=
  ⟨hc.two_le, hc.put_lt, UInt32.lt_iff_toNat_lt.mp (next_lt hc.get_lt)⟩

theorem Circular.pushed (hc : h.Circular) : h.pushed.Circular :=
  ⟨hc.two_le, UInt32.lt_iff_toNat_lt.mp (next_lt hc.put_lt), hc.get_lt⟩

theorem count_popped (hc : h.Circular) (hn : h.count ≠ 0) :
    h.popped.count = h.count - 1 := by
  have hold := count_cases hc
  have hnew := count_cases hc.popped
  obtain ⟨_, hp, hg⟩ := hc
  have hs := succ_mod_cases hg
  simp only [Header.popped, toNat_next hg] at hnew ⊢
  omega

theorem count_pushed (hc : h.Circular) (hn : h.count ≠ h.capacity) :
    h.pushed.count = h.count + 1 := by
  have hold := count_cases hc
  have hnew := count_cases hc.pushed
  obtain ⟨_, hp, hg⟩ := hc
  have hs := succ_mod_cases hp
  simp only [Header.pushed, toNat_next hp] at hnew ⊢
  rw [capacity] at hn
  omega

theorem position_popped (hc : h.Circular) (k : Nat) :
    h.popped.position k = h.position (k + 1) := by
  simp only [position, Header.popped, toNat_next hc.get_lt, Nat.mod_add_mod]
  congr 1
  omega

section

variable {α : Type} {f g : Nat → α}

@[simp] theorem length_along : (h.along f).length = h.count := by
  simp [along]

theorem along_of_count_zero (hn : h.count = 0) : h.along f = [] := by
  rw [along, hn]
  rfl

theorem along_popped (hc : h.Circular) (hn : h.count ≠ 0) :
    h.along f = f h.get.toNat :: h.popped.along f := by
  obtain ⟨n, hcount⟩ := Nat.exists_eq_succ_of_ne_zero hn
  have htail : h.popped.along f = (List.range n).map fun k => f (h.position (k + 1)) := by
    rw [along, count_popped hc hn, hcount]
    exact List.map_congr_left fun k _ => congrArg f (position_popped hc k)
  rw [along, hcount, List.range_succ_eq_map, List.map_cons, List.map_map, position_zero hc, htail]
  rfl

theorem getLast_along (hc : h.Circular) (hn : h.along f ≠ []) :
    (h.along f).getLast hn = f ((h.put.toNat + h.slots.toNat - 1) % h.slots.toNat) := by
  rw [← position_count_sub_one hc (mt along_of_count_zero hn), List.getLast_eq_getElem]
  simp [along]

/-- Only the place at put may change when something is appended. -/
theorem along_pushed (hc : h.Circular) (hn : h.count ≠ h.capacity)
    (hkept : ∀ i, i ≠ h.put.toNat → g i = f i) :
    h.pushed.along g = h.along f ++ [g h.put.toNat] := by
  have hfront : (List.range h.count).map (fun k => g (h.position k)) = h.along f :=
    List.map_congr_left fun k hk => hkept _ (position_ne_put hc (List.mem_range.mp hk))
  calc h.pushed.along g
      = (List.range (h.count + 1)).map fun k => g (h.position k) := by
        rw [along, count_pushed hc hn]
        rfl
    _ = h.along f ++ [g h.put.toNat] := by
        rw [List.range_succ, List.map_append, hfront, List.map_singleton, position_count hc]

end

end Header

def headerAt (m : Memory) : Header := ⟨word m putOffset, word m getOffset, word m slotsOffset⟩

theorem loadWord_eq_ok {m : Memory} {offset : Nat} {w : UInt32} (h : loadWord m offset = .ok w) :
    offset + 4 ≤ m.size ∧ w = word m offset := by
  by_cases hf : offset + 4 ≤ m.size
  · rw [loadWord_eq m offset hf] at h
    cases h
    exact ⟨hf, rfl⟩
  · rw [loadWord_outside m offset hf] at h
    cases h

/-- A header is read exactly from memory that carries the magic word and sound numbers. -/
theorem header_eq_ok_iff (m : Memory) (h : Header) :
    header m = .ok h ↔ headerSize ≤ m.size ∧ word m magicOffset = magic ∧ h = headerAt m ∧
      h.Sound m.size := by
  constructor
  · intro he
    obtain ⟨w, hw, he⟩ := of_bind_eq_ok he
    obtain ⟨_, rfl⟩ := loadWord_eq_ok hw
    by_cases hg : word m magicOffset = magic
    · rw [if_neg (fun hn => hn hg)] at he
      obtain ⟨p, hp, he⟩ := of_bind_eq_ok he
      obtain ⟨g, hg', he⟩ := of_bind_eq_ok he
      obtain ⟨n, hn, he⟩ := of_bind_eq_ok he
      obtain ⟨_, rfl⟩ := loadWord_eq_ok hp
      obtain ⟨_, rfl⟩ := loadWord_eq_ok hg'
      obtain ⟨hf, rfl⟩ := loadWord_eq_ok hn
      by_cases hs : (headerAt m).Sound m.size
      · cases (if_pos hs).symm.trans he
        exact ⟨hf, hg, rfl, hs⟩
      · cases (if_neg hs).symm.trans he
    · rw [if_pos hg] at he
      cases he
  · rintro ⟨hm, hg, rfl, hs⟩
    have hw (offset : Nat) (ho : offset + 4 ≤ headerSize) :
        loadWord m offset = .ok (word m offset) :=
      loadWord_eq m offset (by omega)
    simp only [header, hw magicOffset (by decide), hw putOffset (by decide),
      hw getOffset (by decide), hw slotsOffset (by decide), hg, ne_eq, not_true_eq_false, if_false,
      bind, Except.bind]
    exact if_pos hs

variable {m : Memory} {h : Header} {q : List Slot} {slot : Slot}

def waiting (m : Memory) (h : Header) : List Slot :=
  (List.range h.count).map fun k => slotAt m (h.position k)

@[simp] theorem length_waiting : (waiting m h).length = h.count := by
  simp [waiting]

/-- Memory that holds a ring with this header and these waiting slots. -/
structure Queued (m : Memory) (h : Header) (q : List Slot) : Prop where
  header_eq : header m = .ok h
  waiting_eq : waiting m h = q

theorem queued_of_header (hh : header m = .ok h) : Queued m h (waiting m h) := ⟨hh, rfl⟩

namespace Queued

theorem sound (hq : Queued m h q) : h.Sound m.size := ((header_eq_ok_iff m h).mp hq.header_eq).2.2.2

theorem circular (hq : Queued m h q) : h.Circular := hq.sound.circular

theorem count_eq (hq : Queued m h q) : h.count = q.length := by
  rw [← hq.waiting_eq, length_waiting]

theorem length_lt (hq : Queued m h q) : q.length < h.slots.toNat := by
  have hc := Header.count_le_capacity hq.circular
  have hl := hq.circular.two_le
  rw [← hq.count_eq]
  simp only [Header.capacity] at hc
  omega

end Queued

private theorem header_putGet (hh : header m = .ok h) {g : UInt32} (hg : g < h.slots) :
    header (putWord m getOffset g) = .ok { h with get := g } := by
  obtain ⟨hm, hw, rfl, hs⟩ := (header_eq_ok_iff m h).mp hh
  have hf : getOffset + 4 ≤ m.size := by simp only [headerSize, getOffset] at *; omega
  refine (header_eq_ok_iff _ _).mpr ⟨by simpa using hm, ?_, ?_, ?_⟩
  · rw [word_putWord_of_ne _ _ _ _ hf (by decide), hw]
  · simp only [headerAt, word_putWord m getOffset g hf,
      word_putWord_of_ne m getOffset putOffset g hf (by decide),
      word_putWord_of_ne m getOffset slotsOffset g hf (by decide)]
  · rw [size_putWord]
    exact ⟨hs.1, hs.2.1, hs.2.2.1, hg⟩

private theorem header_putPut (hh : header m = .ok h) {p : UInt32} (hp : p < h.slots) :
    header (putWord m putOffset p) = .ok { h with put := p } := by
  obtain ⟨hm, hw, rfl, hs⟩ := (header_eq_ok_iff m h).mp hh
  have hf : putOffset + 4 ≤ m.size := by simp only [headerSize, putOffset] at *; omega
  refine (header_eq_ok_iff _ _).mpr ⟨by simpa using hm, ?_, ?_, ?_⟩
  · rw [word_putWord_of_ne _ _ _ _ hf (by decide), hw]
  · simp only [headerAt, word_putWord m putOffset p hf,
      word_putWord_of_ne m putOffset getOffset p hf (by decide),
      word_putWord_of_ne m putOffset slotsOffset p hf (by decide)]
  · rw [size_putWord]
    exact ⟨hs.1, hs.2.1, hp, hs.2.2.2⟩

/-- A slot of a sound ring lies inside its memory. -/
theorem slot_inside {size i : Nat} (hs : h.Sound size) (hi : i < h.slots.toNat) :
    headerSize + i * slotSize + slotSize ≤ size := by
  have hl := hs.circular.two_le
  have hr := hs.2.1
  have hi' := Nat.mul_le_mul_right slotSize (Nat.succ_le_of_lt hi)
  simp only [room, headerSize, slotSize] at *
  omega

private theorem header_putSlot (hh : header m = .ok h) {i : Nat} (hi : i < h.slots.toNat) :
    header (putSlot m i slot) = .ok h := by
  obtain ⟨hm, hw, rfl, hs⟩ := (header_eq_ok_iff m h).mp hh
  have hf := slot_inside hs hi
  refine (header_eq_ok_iff _ _).mpr ⟨by simpa using hm, ?_, ?_, by simpa using hs⟩
  · rw [word_putSlot _ _ _ _ hf (by decide), hw]
  · simp only [headerAt, word_putSlot m i slot putOffset hf (by decide),
      word_putSlot m i slot getOffset hf (by decide),
      word_putSlot m i slot slotsOffset hf (by decide)]

def afterPop (m : Memory) (h : Header) : Memory := putWord m getOffset (h.next h.get)

def afterPush (m : Memory) (h : Header) (slot : Slot) : Memory :=
  putWord (putSlot m h.put.toNat slot) putOffset (h.next h.put)

namespace Queued

/-- A header word lies inside the memory. -/
theorem word_inside (hq : Queued m h q) {offset : Nat} (ho : offset + 4 ≤ headerSize) :
    offset + 4 ≤ m.size :=
  Nat.le_trans ho ((header_eq_ok_iff m h).mp hq.header_eq).1

theorem put_inside (hq : Queued m h q) :
    headerSize + h.put.toNat * slotSize + slotSize ≤ m.size :=
  slot_inside hq.sound hq.circular.put_lt

/-- The oldest slot stands at get, and the others follow it. -/
theorem waiting_cons (hq : Queued m h (slot :: q)) :
    slotAt m h.get.toNat = slot ∧ waiting m h.popped = q := by
  have hn : h.count ≠ 0 := by rw [hq.count_eq]; exact Nat.succ_ne_zero _
  exact List.cons.inj ((Header.along_popped hq.circular hn).symm.trans hq.waiting_eq)

theorem popped (hq : Queued m h (slot :: q)) : Queued (afterPop m h) h.popped q := by
  refine ⟨header_putGet hq.header_eq (Header.next_lt hq.circular.get_lt), ?_⟩
  have hsame : slotAt (afterPop m h) = slotAt m := funext fun i =>
    slotAt_putWord m getOffset _ i (hq.word_inside (by decide)) (by decide)
  rw [waiting, hsame]
  exact hq.waiting_cons.2

theorem pushed (hq : Queued m h q) (hr : q.length < h.capacity) (slot : Slot) :
    Queued (afterPush m h slot) h.pushed (q ++ [slot]) := by
  have hc := hq.circular
  have hn : h.count ≠ h.capacity := by rw [hq.count_eq]; exact Nat.ne_of_lt hr
  have hin := hq.put_inside
  have hf : putOffset + 4 ≤ (putSlot m h.put.toNat slot).size := by
    simpa using hq.word_inside (by decide)
  have hslot (i : Nat) : slotAt (afterPush m h slot) i =
      if i = h.put.toNat then slot else slotAt m i := by
    rw [afterPush, slotAt_putWord _ putOffset _ i hf (by decide), slotAt_putSlot _ _ _ _ hin]
  refine ⟨header_putPut (header_putSlot hq.header_eq hc.put_lt) (Header.next_lt hc.put_lt), ?_⟩
  have happend := Header.along_pushed hc hn fun i hi => (hslot i).trans (if_neg hi)
  rw [hslot, if_pos rfl] at happend
  exact happend.trans (congrArg (· ++ [slot]) hq.waiting_eq)

/-- Writing a slot at put and moving put on goes through. -/
theorem store_afterPush (hq : Queued m h q) (slot : Slot) :
    (storeSlot h.put slot >>= fun _ => storeWord putOffset (h.next h.put)) m =
      .ok () (afterPush m h slot) := by
  rw [bind_ok (storeSlot_eq m h.put slot hq.put_inside)]
  exact storeWord_eq _ putOffset _ (by simpa using hq.word_inside (by decide))

end Queued

theorem pop_nil (hq : Queued m h []) : pop m = .ok none m := by
  have he : h.isEmpty = true := (Header.isEmpty_iff hq.circular).mpr hq.count_eq
  rw [pop, bind_ok (reading_of_ok hq.header_eq), if_pos he]
  rfl

theorem pop_eq (hq : Queued m h (slot :: q)) : pop m = .ok (some slot) (afterPop m h) := by
  have he : ¬ h.isEmpty = true := by
    rw [Header.isEmpty_iff hq.circular, hq.count_eq]
    exact Nat.succ_ne_zero _
  have hload := reading_of_ok (g := fun s : Memory => ByteStore.load s (slotOffset h.get) slotSize)
    (Memory.load_eq m _ _ (slot_inside hq.sound hq.circular.get_lt))
  rw [pop, bind_ok (reading_of_ok hq.header_eq), if_neg he, bind_ok hload,
    bind_ok (storeWord_eq m getOffset _ (hq.word_inside (by decide))), ← hq.waiting_cons.1]
  rfl

theorem pop_cons (hq : Queued m h (slot :: q)) :
    ∃ m', pop m = .ok (some slot) m' ∧ Queued m' h.popped q :=
  ⟨_, pop_eq hq, hq.popped⟩

theorem push_of_full (slot : Slot) (hq : Queued m h q) (hf : q.length = h.capacity) :
    push slot m = .error .busy m := by
  have he : h.isFull = true := (Header.isFull_iff hq.circular).mpr (hq.count_eq.trans hf)
  rw [push, bind_ok (reading_of_ok hq.header_eq), if_pos he]
  rfl

theorem push_eq (slot : Slot) (hq : Queued m h q) (hr : q.length < h.capacity) :
    push slot m = .ok () (afterPush m h slot) := by
  have he : ¬ h.isFull = true := by
    rw [Header.isFull_iff hq.circular, hq.count_eq]
    exact Nat.ne_of_lt hr
  rw [push, bind_ok (reading_of_ok hq.header_eq), if_neg he]
  exact hq.store_afterPush slot

theorem push_of_room (slot : Slot) (hq : Queued m h q) (hr : q.length < h.capacity) :
    ∃ m', push slot m = .ok () m' ∧ Queued m' h.pushed (q ++ [slot]) :=
  ⟨_, push_eq slot hq hr, hq.pushed hr slot⟩

/-- Memory without a sound header refuses both operations and stays as it is. -/
theorem refused_of_header {e : Refusal} (hh : header m = .error e) :
    pop m = .error e m ∧ push slot m = .error e m := by
  constructor
  · rw [pop, bind_error (reading_of_error hh)]
  · rw [push, bind_error (reading_of_error hh)]

end AcceleratorScheduler.Ring
