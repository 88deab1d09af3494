import AcceleratorScheduler.Ring

/-! Bytes of a block of memory read as words and slots, and what an overwritten range leaves of
them elsewhere. -/
namespace AcceleratorScheduler

namespace Memory

def bytesAt (m : Memory) (offset length : Nat) : List UInt8 :=
  (List.range length).map fun i => m.get (offset + i)

@[simp] theorem length_bytesAt (m : Memory) (offset length : Nat) :
    (m.bytesAt offset length).length = length := by
  simp [bytesAt]

theorem load_eq (m : Memory) (offset length : Nat) (hf : offset + length ≤ m.size) :
    ByteStore.load m offset length = .ok (Vector.ofFn fun i => m.get (offset + i)) := by
  change Memory.load m offset length = _
  rw [Memory.load, if_pos hf]

theorem load_outside (m : Memory) (offset length : Nat) (hf : ¬ offset + length ≤ m.size) :
    ByteStore.load m offset length = .error .invalidArgument := by
  change Memory.load m offset length = _
  rw [Memory.load, if_neg hf]

theorem store_eq (m : Memory) (offset : Nat) (bytes : List UInt8)
    (hf : offset + bytes.length ≤ m.size) :
    ByteStore.store offset bytes m = .ok () (m.overwrite offset bytes) := by
  have hn : ByteStore.objection m offset bytes.length = none := if_pos hf
  rw [ByteStore.store, hn]
  rfl

theorem bytesAt_overwrite (m : Memory) (offset : Nat) (bytes : List UInt8)
    (hf : offset + bytes.length ≤ m.size) :
    (m.overwrite offset bytes).bytesAt offset bytes.length = bytes := by
  apply List.ext_getElem
  · simp
  · intro i hi hb
    have hr : offset ≤ offset + i ∧ offset + i < offset + bytes.length := by omega
    simp only [bytesAt, List.getElem_map, List.getElem_range]
    rw [get_overwrite _ _ _ _ hf, if_pos hr, Nat.add_sub_cancel_left, List.getD_eq_getElem?_getD,
      List.getElem?_eq_getElem hb]
    rfl

theorem bytesAt_overwrite_of_disjoint (m : Memory) (offset : Nat) (bytes : List UInt8)
    (other length : Nat) (hf : offset + bytes.length ≤ m.size)
    (hd : other + length ≤ offset ∨ offset + bytes.length ≤ other) :
    (m.overwrite offset bytes).bytesAt other length = m.bytesAt other length := by
  apply List.map_congr_left
  intro i hi
  have hl := List.mem_range.mp hi
  rw [get_overwrite _ _ _ _ hf, if_neg (by omega)]

end Memory

namespace Ring

def word (m : Memory) (offset : Nat) : UInt32 := .ofNat (LittleEndian.decode (m.bytesAt offset 4))

def slotAt (m : Memory) (index : Nat) : Slot :=
  Vector.ofFn fun i => m.get (headerSize + index * slotSize + i)

def putWord (m : Memory) (offset : Nat) (w : UInt32) : Memory :=
  m.overwrite offset (LittleEndian.encode 4 w.toNat)

def putSlot (m : Memory) (index : Nat) (slot : Slot) : Memory :=
  m.overwrite (headerSize + index * slotSize) slot.toList

@[simp] theorem size_putWord (m : Memory) (offset : Nat) (w : UInt32) :
    (putWord m offset w).size = m.size := Memory.size_overwrite _ _ _

@[simp] theorem size_putSlot (m : Memory) (index : Nat) (slot : Slot) :
    (putSlot m index slot).size = m.size := Memory.size_overwrite _ _ _

private theorem toList_ofFn_bytes (m : Memory) (offset length : Nat) :
    (Vector.ofFn fun i : Fin length => m.get (offset + i)).toList = m.bytesAt offset length := by
  apply List.ext_getElem
  · simp
  · intro i hi hb
    simp [Memory.bytesAt]

theorem toList_slotAt (m : Memory) (index : Nat) :
    (slotAt m index).toList = m.bytesAt (headerSize + index * slotSize) slotSize :=
  toList_ofFn_bytes m _ _

theorem loadWord_eq (m : Memory) (offset : Nat) (hf : offset + 4 ≤ m.size) :
    loadWord m offset = .ok (word m offset) := by
  rw [loadWord, Memory.load_eq m offset 4 hf]
  exact congrArg (fun bytes => Except.ok (UInt32.ofNat (LittleEndian.decode bytes)))
    (toList_ofFn_bytes m offset 4)

theorem loadWord_outside (m : Memory) (offset : Nat) (hf : ¬ offset + 4 ≤ m.size) :
    loadWord m offset = .error .invalidArgument := by
  rw [loadWord, Memory.load_outside m offset 4 hf]
  rfl

theorem storeWord_eq (m : Memory) (offset : Nat) (w : UInt32) (hf : offset + 4 ≤ m.size) :
    storeWord offset w m = .ok () (putWord m offset w) :=
  Memory.store_eq m offset _ (by simpa using hf)

theorem storeSlot_eq (m : Memory) (index : UInt32) (slot : Slot)
    (hf : headerSize + index.toNat * slotSize + slotSize ≤ m.size) :
    storeSlot index slot m = .ok () (putSlot m index.toNat slot) :=
  Memory.store_eq m _ _ (by simpa [slotOffset] using hf)

theorem word_putWord (m : Memory) (offset : Nat) (w : UInt32) (hf : offset + 4 ≤ m.size) :
    word (putWord m offset w) offset = w := by
  have hb := m.bytesAt_overwrite offset (LittleEndian.encode 4 w.toNat) (by simpa using hf)
  rw [LittleEndian.length_encode] at hb
  rw [word, putWord, hb, LittleEndian.decode_encode, Nat.pow_eq]
  apply UInt32.toNat.inj
  have hw := w.toNat_lt
  rw [UInt32.toNat_ofNat']
  omega

theorem word_putWord_of_ne (m : Memory) (offset other : Nat) (w : UInt32)
    (hf : offset + 4 ≤ m.size) (hd : other + 4 ≤ offset ∨ offset + 4 ≤ other) :
    word (putWord m offset w) other = word m other := by
  rw [word, putWord, Memory.bytesAt_overwrite_of_disjoint _ _ _ _ _ (by simpa using hf)
    (by simpa using hd), word]

theorem word_putSlot (m : Memory) (index : Nat) (slot : Slot) (offset : Nat)
    (hf : headerSize + index * slotSize + slotSize ≤ m.size) (hd : offset + 4 ≤ headerSize) :
    word (putSlot m index slot) offset = word m offset := by
  rw [word, putSlot, Memory.bytesAt_overwrite_of_disjoint _ _ _ _ _ (by simpa using hf)
    (.inl (by omega)), word]

theorem slotAt_putWord (m : Memory) (offset : Nat) (w : UInt32) (index : Nat)
    (hf : offset + 4 ≤ m.size) (hd : offset + 4 ≤ headerSize) :
    slotAt (putWord m offset w) index = slotAt m index := by
  apply Vector.toList_inj.mp
  rw [toList_slotAt, toList_slotAt, putWord]
  apply Memory.bytesAt_overwrite_of_disjoint _ _ _ _ _ (by simpa using hf)
  rw [LittleEndian.length_encode]
  omega

theorem slotAt_putSlot (m : Memory) (index : Nat) (slot : Slot) (other : Nat)
    (hf : headerSize + index * slotSize + slotSize ≤ m.size) :
    slotAt (putSlot m index slot) other = if other = index then slot else slotAt m other := by
  apply Vector.toList_inj.mp
  rw [toList_slotAt, putSlot]
  split
  next he =>
    subst he
    have hb := m.bytesAt_overwrite (headerSize + other * slotSize) slot.toList (by simpa using hf)
    rwa [Vector.length_toList] at hb
  next hn =>
    rw [toList_slotAt]
    apply Memory.bytesAt_overwrite_of_disjoint _ _ _ _ _ (by simpa using hf)
    rw [Vector.length_toList]
    have hapart {i j : Nat} (h : i < j) :
        headerSize + i * slotSize + slotSize ≤ headerSize + j * slotSize := by
      have hmul := Nat.mul_le_mul_right slotSize (Nat.succ_le_of_lt h)
      rw [Nat.succ_mul] at hmul
      omega
    rcases Nat.lt_or_gt_of_ne hn with h | h
    · exact .inl (hapart h)
    · exact .inr (hapart h)

end Ring

end AcceleratorScheduler
