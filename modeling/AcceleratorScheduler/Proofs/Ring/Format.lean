import AcceleratorScheduler.Proofs.Ring.Queue

/-! Laying out a ring. It needs room for two slots and a slot count that a word can hold; it writes
the header and leaves every byte behind it; main statement: `pristine_of_format`. -/
namespace AcceleratorScheduler.Ring

variable {m : Memory} {h : Header}

def withHeader (m : Memory) (h : Header) : Memory :=
  putWord (putWord (putWord (putWord m putOffset h.put) getOffset h.get) slotsOffset h.slots)
    magicOffset magic

@[simp] theorem size_withHeader (m : Memory) (h : Header) : (withHeader m h).size = m.size := by
  simp [withHeader]

def formatted (m : Memory) : Memory :=
  putWord (putWord (putWord (putWord m putOffset 0) getOffset 0) slotsOffset
    (.ofNat (room m.size))) magicOffset magic

@[simp] theorem size_formatted (m : Memory) : (formatted m).size = m.size := by
  simp [formatted]

theorem get_putWord_of_ge (m : Memory) {offset i : Nat} (w : UInt32) (hf : offset + 4 ≤ m.size)
    (hi : offset + 4 ≤ i) : (putWord m offset w).get i = m.get i := by
  rw [putWord, Memory.get_overwrite _ _ _ _ (by simpa using hf), if_neg]
  rw [LittleEndian.length_encode]
  omega

/-- Where there is room for a slot, there is room for the header. -/
theorem headerSize_le_of_room {size : Nat} (h : room size ≠ 0) : headerSize ≤ size := by
  simp only [room, headerSize, slotSize] at h ⊢
  omega

/-- A sound header that was written is read back. -/
theorem header_withHeader (hs : h.Sound m.size) : header (withHeader m h) = .ok h := by
  have hl := hs.circular.two_le
  have hr := hs.2.1
  have hsize := headerSize_le_of_room (show room m.size ≠ 0 by omega)
  have hfits {m' : Memory} (hm : m'.size = m.size) {offset : Nat} (ho : offset + 4 ≤ headerSize) :
      offset + 4 ≤ m'.size := by omega
  have hother (m' : Memory) (hm : m'.size = m.size) (w : UInt32) {offset other : Nat}
      (ho : offset + 4 ≤ headerSize) (hd : other + 4 ≤ offset ∨ offset + 4 ≤ other) :
      word (putWord m' offset w) other = word m' other :=
    word_putWord_of_ne m' offset other w (hfits hm ho) hd
  have hmagic : word (withHeader m h) magicOffset = magic := by
    rw [withHeader, word_putWord _ _ _ (hfits (by simp) (by decide))]
  have hput : word (withHeader m h) putOffset = h.put := by
    rw [withHeader, hother _ (by simp) _ (by decide) (by decide),
      hother _ (by simp) _ (by decide) (by decide), hother _ (by simp) _ (by decide) (by decide),
      word_putWord _ _ _ (hfits rfl (by decide))]
  have hget : word (withHeader m h) getOffset = h.get := by
    rw [withHeader, hother _ (by simp) _ (by decide) (by decide),
      hother _ (by simp) _ (by decide) (by decide), word_putWord _ _ _ (hfits (by simp) (by decide))]
  have hslots : word (withHeader m h) slotsOffset = h.slots := by
    rw [withHeader, hother _ (by simp) _ (by decide) (by decide),
      word_putWord _ _ _ (hfits (by simp) (by decide))]
  refine (header_eq_ok_iff _ _).mpr ⟨by simpa using hsize, hmagic, ?_, by simpa using hs⟩
  rw [headerAt, hput, hget, hslots]

/-- The slots of a block of at most 2 ^ 37 bytes are counted in 32 bits. -/
theorem room_lt_of_le {size : Nat} (h : size ≤ 2 ^ 37) : room size < UInt32.size := by
  simp only [room, headerSize, slotSize, UInt32.size]
  omega

theorem format_refused (h : room m.size < 2 ∨ UInt32.size ≤ room m.size) :
    format m = .error .invalidArgument m := by
  refine (bind_ok (get_apply m)).trans ?_
  rw [if_pos (show room (ByteStore.size m) < 2 ∨ UInt32.size ≤ room (ByteStore.size m) from h)]
  rfl

theorem format_granted (h : 2 ≤ room m.size) (hw : room m.size < UInt32.size) :
    format m = .ok (.ofNat (room m.size)) (formatted m) := by
  have hs := headerSize_le_of_room (show room m.size ≠ 0 by omega)
  have hstore (m' : Memory) (hm : m'.size = m.size) (offset : Nat) (w : UInt32)
      (ho : offset + 4 ≤ headerSize) : storeWord offset w m' = .ok () (putWord m' offset w) :=
    storeWord_eq m' offset w (by omega)
  refine (bind_ok (get_apply m)).trans ?_
  rw [if_neg (show ¬(room (ByteStore.size m) < 2 ∨ UInt32.size ≤ room (ByteStore.size m)) from
    not_or.mpr ⟨Nat.not_lt.mpr h, Nat.not_le.mpr hw⟩)]
  refine (bind_ok (hstore m rfl putOffset 0 (by decide))).trans ?_
  refine (bind_ok (hstore _ (by simp) getOffset 0 (by decide))).trans ?_
  refine (bind_ok (hstore _ (by simp) slotsOffset _ (by decide))).trans ?_
  exact (bind_ok (hstore _ (by simp) magicOffset magic (by decide))).trans rfl

/-- The bytes behind the header stay. -/
theorem get_formatted (h : 2 ≤ room m.size) {i : Nat} (hi : headerSize ≤ i) :
    (formatted m).get i = m.get i := by
  have hs := headerSize_le_of_room (show room m.size ≠ 0 by omega)
  have hput (m' : Memory) (hm : m'.size = m.size) (offset : Nat) (w : UInt32)
      (ho : offset + 4 ≤ headerSize) : (putWord m' offset w).get i = m'.get i :=
    get_putWord_of_ge m' w (by omega) (by omega)
  rw [formatted, hput _ (by simp) _ _ (by decide), hput _ (by simp) _ _ (by decide),
    hput _ (by simp) _ _ (by decide), hput _ rfl _ _ (by decide)]

def Header.blank (size : Nat) : Header := ⟨0, 0, .ofNat (room size)⟩

theorem formatted_eq_withHeader (m : Memory) : formatted m = withHeader m (.blank m.size) := rfl

theorem Header.capacity_blank {size : Nat} (hw : room size < UInt32.size) :
    (Header.blank size).capacity = room size - 1 :=
  congrArg (· - 1) (UInt32.toNat_ofNat_of_lt hw)

theorem sound_blank {size : Nat} (h : 2 ≤ room size) (hw : room size < UInt32.size) :
    (Header.blank size).Sound size := by
  have hslots : (UInt32.ofNat (room size)).toNat = room size := UInt32.toNat_ofNat_of_lt hw
  have hlt : (0 : UInt32) < .ofNat (room size) := by
    rw [UInt32.lt_iff_toNat_lt, hslots]
    exact Nat.lt_of_lt_of_le Nat.zero_lt_two h
  refine ⟨?_, Nat.le_of_eq hslots, hlt, hlt⟩
  rw [UInt32.le_iff_toNat_le]
  exact Nat.le_trans h (Nat.le_of_eq hslots.symm)

theorem Header.count_blank (size : Nat) : (Header.blank size).count = 0 := by
  change (0 + (UInt32.ofNat (room size)).toNat - 0) % (UInt32.ofNat (room size)).toNat = 0
  rw [Nat.zero_add, Nat.sub_zero, Nat.mod_self]

theorem queued_formatted (h : 2 ≤ room m.size) (hw : room m.size < UInt32.size) :
    Queued (formatted m) (.blank m.size) [] := by
  rw [formatted_eq_withHeader]
  refine ⟨header_withHeader (sound_blank h hw), ?_⟩
  rw [waiting, Header.count_blank]
  rfl

/-- Laying out a ring goes through only where there is room for one. -/
theorem format_eq_ok {n : UInt32} {m' : Memory} (hf : answer format m = (.ok n, m')) :
    2 ≤ room m.size ∧ room m.size < UInt32.size ∧ m' = formatted m := by
  by_cases h : room m.size < 2 ∨ UInt32.size ≤ room m.size
  · cases (answer_of_error (format_refused h)).symm.trans hf
  · simp only [not_or, Nat.not_lt, Nat.not_le] at h
    cases (answer_of_ok (format_granted h.1 h.2)).symm.trans hf
    exact ⟨h.1, h.2, rfl⟩

/-- A block that was laid out holds an empty ring over all of it. -/
theorem queued_of_format {n : UInt32} {m' : Memory} (hf : answer format m = (.ok n, m')) :
    ∃ h, Queued m' h [] ∧ h.slots.toNat = room m.size := by
  obtain ⟨h, hw, hm⟩ := format_eq_ok hf
  rw [hm]
  exact ⟨.blank m.size, queued_formatted h hw, UInt32.toNat_ofNat_of_lt hw⟩

/-- An empty ring of this size, with nothing left in its slots. -/
structure Pristine (m : Memory) (size : Nat) : Prop where
  size_eq : m.size = size
  queued : Queued m (.blank size) []
  zero {i : Nat} : headerSize ≤ i → m.get i = 0

/-- A block of zeroed bytes becomes an empty ring with nothing in it. -/
theorem pristine_of_format (hz : ∀ i, m.get i = 0) {n : UInt32} {m' : Memory}
    (hf : answer format m = (.ok n, m')) : Pristine m' m.size := by
  obtain ⟨h, hw, hm⟩ := format_eq_ok hf
  rw [hm]
  refine ⟨size_formatted m, queued_formatted h hw, fun {i} hi => ?_⟩
  rw [get_formatted h hi, hz]

end AcceleratorScheduler.Ring
