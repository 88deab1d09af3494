import Mathlib.Data.List.TakeDrop
import AcceleratorScheduler.Slot.Basic

/-! The number fields of a slot. A slot that was put together from fields is told by what stands in
them (`Slot.eq_ofBytes_iff`), and two slots have a field in common just if they have its bytes in
common (`Slot.field_eq_field_iff`). -/
namespace AcceleratorScheduler

namespace LittleEndian

theorem decode_encode_of_lt {width n : Nat} (h : n < Nat.pow 256 width) :
    decode (encode width n) = n := by
  rw [decode_encode, Nat.mod_eq_of_lt h]

theorem decode_eq_zero_iff (bs : List UInt8) : decode bs = 0 ↔ ∀ b ∈ bs, b = 0 := by
  induction bs with
  | nil => simp [decode]
  | cons b bs ih =>
    have hb : b.toNat = 0 ↔ b = 0 := ⟨fun h => UInt8.toNat.inj h, fun h => by rw [h]; rfl⟩
    rw [decode, List.forall_mem_cons, ← ih, ← hb]
    omega

/-- A number stands in front just if the first bytes spell it and the others are the rest. -/
theorem eq_encode_append_iff {width n : Nat} {bytes rest : List UInt8}
    (hn : n < Nat.pow 256 width) (hl : width ≤ bytes.length) :
    bytes = encode width n ++ rest ↔ decode (bytes.take width) = n ∧ bytes.drop width = rest := by
  constructor
  · rintro rfl
    rw [List.take_left' (length_encode width n), List.drop_left' (length_encode width n)]
    exact ⟨decode_encode_of_lt hn, rfl⟩
  · rintro ⟨rfl, rfl⟩
    have hw : (bytes.take width).length = width := List.length_take_of_le hl
    have htake := encode_decode (bytes.take width)
    rw [hw] at htake
    rw [htake, List.take_append_drop]

theorem decode_inj {bs cs : List UInt8} (hl : bs.length = cs.length) :
    decode bs = decode cs ↔ bs = cs := by
  refine ⟨fun h => ?_, congrArg decode⟩
  rw [← encode_decode bs, ← encode_decode cs, hl, h]

def row (fields : List (Nat × Nat)) : List UInt8 := fields.flatMap fun f => encode f.1 f.2

theorem row_cons (width n : Nat) (fields : List (Nat × Nat)) :
    row ((width, n) :: fields) = encode width n ++ row fields := List.flatMap_cons

end LittleEndian

namespace Slot

theorem toList_inj {s t : Slot} : s.toList = t.toList ↔ s = t := Vector.toList_inj

@[simp] theorem toList_ofBytes (bytes : List UInt8) (full : bytes.length = slotSize) :
    (ofBytes bytes full).toList = bytes := by
  simp [ofBytes]

theorem field_lt (s : Slot) (start width : Nat) : s.field start width < Nat.pow 256 width :=
  Nat.lt_of_lt_of_le (LittleEndian.decode_lt _)
    (Nat.pow_le_pow_right (by decide) (List.length_take_le width _))

theorem ofNat_field_eq_iff32 (s : Slot) (start : Nat) (n : UInt32) :
    UInt32.ofNat (s.field start 4) = n ↔ s.field start 4 = n.toNat := by
  rw [← UInt32.toNat_inj, UInt32.toNat_ofNat_of_lt' (s.field_lt start 4)]

theorem ofNat_field_eq_iff64 (s : Slot) (start : Nat) (n : UInt64) :
    UInt64.ofNat (s.field start 8) = n ↔ s.field start 8 = n.toNat := by
  rw [← UInt64.toNat_inj, UInt64.toNat_ofNat_of_lt' (s.field_lt start 8)]

/-- A signed field is read through the unsigned number with the same bits. -/
theorem toInt32_field_eq_iff (s : Slot) (start : Nat) (n : Int32) :
    (UInt32.ofNat (s.field start 4)).toInt32 = n ↔ s.field start 4 = n.toUInt32.toNat := by
  rw [← ofNat_field_eq_iff32]
  exact ⟨by rintro rfl; rfl, by rintro h; rw [h]; rfl⟩

theorem toInt64_field_eq_iff (s : Slot) (start : Nat) (n : Int64) :
    (UInt64.ofNat (s.field start 8)).toInt64 = n ↔ s.field start 8 = n.toUInt64.toNat := by
  rw [← ofNat_field_eq_iff64]
  exact ⟨by rintro rfl; rfl, by rintro h; rw [h]; rfl⟩

/-- From a start on the slot holds these fields, the last of which ends with it. -/
def Reads (s : Slot) : Nat → List (Nat × Nat) → Prop
  | start, [] => start = slotSize
  | start, (width, n) :: rest => s.field start width = n ∧ s.Reads (start + width) rest

/-- The bytes from a start on are a row of fields just if each field reads as its number. The
induction is on the row, from the first field to the last. -/
theorem drop_eq_row_iff (s : Slot) {fields : List (Nat × Nat)}
    (hn : ∀ f ∈ fields, f.2 < Nat.pow 256 f.1) {start : Nat}
    (hl : start + (LittleEndian.row fields).length = slotSize) :
    s.toList.drop start = LittleEndian.row fields ↔ s.Reads start fields := by
  induction fields generalizing start with
  | nil =>
    obtain rfl : start = slotSize := hl
    exact iff_of_true (List.drop_of_length_le (Nat.le_of_eq s.length_toList)) rfl
  | cons f fields ih =>
    obtain ⟨width, n⟩ := f
    rw [LittleEndian.row_cons, List.length_append, LittleEndian.length_encode,
      ← Nat.add_assoc] at hl
    have hroom : width ≤ (s.toList.drop start).length := by
      rw [List.length_drop, s.length_toList]
      omega
    rw [LittleEndian.row_cons,
      LittleEndian.eq_encode_append_iff (hn _ List.mem_cons_self) hroom, List.drop_drop, Reads]
    exact and_congr Iff.rfl (ih (fun f hf => hn f (List.mem_cons_of_mem _ hf)) hl)

/-- A slot is the one put together from these fields just if it holds them. -/
theorem eq_ofBytes_iff (s : Slot) {fields : List (Nat × Nat)} {bytes : List UInt8}
    {full : bytes.length = slotSize} (hn : ∀ f ∈ fields, f.2 < Nat.pow 256 f.1)
    (hb : bytes = LittleEndian.row fields) : s = ofBytes bytes full ↔ s.Reads 0 fields := by
  have hl : 0 + (LittleEndian.row fields).length = slotSize := by
    rw [Nat.zero_add, ← hb, full]
  rw [← toList_inj, toList_ofBytes, hb, ← drop_eq_row_iff s hn hl, List.drop_zero]

/-- Two slots read alike in a field just if they agree on its bytes. -/
theorem field_eq_field_iff (s t : Slot) (start width : Nat) :
    s.field start width = t.field start width ↔
      ∀ i (h : i < slotSize), start ≤ i → i < start + width → s[i] = t[i] := by
  have hlen (u : Slot) : ((u.toList.drop start).take width).length =
      min width (slotSize - start) := by
    rw [List.length_take, List.length_drop, Vector.length_toList]
  have hget (u : Slot) {i : Nat} (hi : i < ((u.toList.drop start).take width).length)
      (hs : start + i < slotSize) : ((u.toList.drop start).take width)[i] = u[start + i] := by
    rw [List.getElem_take, List.getElem_drop, Vector.getElem_toList]
  rw [field, field, LittleEndian.decode_inj ((hlen s).trans (hlen t).symm)]
  constructor
  · intro h i hi hs hw
    obtain ⟨k, rfl⟩ := Nat.exists_eq_add_of_le hs
    have hk : k < min width (slotSize - start) := by omega
    rw [← hget s (by rwa [hlen]) hi, ← hget t (by rwa [hlen]) hi]
    simp only [h]
  · intro h
    refine List.ext_getElem ((hlen s).trans (hlen t).symm) fun i hs ht => ?_
    have hi := hs
    rw [hlen] at hi
    rw [hget s hs (by omega), hget t ht (by omega)]
    exact h _ _ (by omega) (by omega)

theorem field_blank (start width : Nat) :
    field (Vector.replicate slotSize 0) start width = 0 := by
  refine (LittleEndian.decode_eq_zero_iff _).mpr fun b hb => ?_
  rw [Vector.toList_replicate] at hb
  exact List.eq_of_mem_replicate (List.mem_of_mem_drop (List.mem_of_mem_take hb))

/-- A field is zero just if all its bytes are. -/
theorem field_eq_zero_iff (s : Slot) (start width : Nat) :
    s.field start width = 0 ↔
      ∀ i (h : i < slotSize), start ≤ i → i < start + width → s[i] = 0 := by
  rw [← field_blank start width, field_eq_field_iff]
  simp only [Vector.getElem_replicate]

def cleared (s : Slot) (start : Nat) : Slot := Vector.ofFn fun i => if i.val < start then s[i] else 0

@[simp] theorem getElem_cleared (s : Slot) (start : Nat) {i : Nat} (h : i < slotSize) :
    (s.cleared start)[i] = if i < start then s[i] else 0 := by
  simp [cleared]

theorem field_cleared_of_le (s : Slot) {start limit width : Nat} (h : start + width ≤ limit) :
    (s.cleared limit).field start width = s.field start width := by
  refine (field_eq_field_iff _ _ _ _).mpr fun i hi _ hw => ?_
  rw [getElem_cleared, if_pos (by omega)]

theorem field_cleared_of_ge (s : Slot) {start limit : Nat} (h : limit ≤ start) (width : Nat) :
    (s.cleared limit).field start width = 0 := by
  refine (field_eq_zero_iff _ _ _).mpr fun i hi hs _ => ?_
  rw [getElem_cleared, if_neg (by omega)]

/-- Two slots are the same once cleared just if they agree on what is left. -/
theorem cleared_eq_cleared_iff (s t : Slot) (start : Nat) :
    s.cleared start = t.cleared start ↔ ∀ i (h : i < slotSize), i < start → s[i] = t[i] := by
  constructor
  · intro h i hi hs
    have hbyte := congrArg (fun u : Slot => u[i]) h
    simpa only [getElem_cleared, if_pos hs] using hbyte
  · intro h
    refine Vector.ext fun i hi => ?_
    rw [getElem_cleared, getElem_cleared]
    split
    next hs => exact h i hi hs
    next => rfl

end Slot

end AcceleratorScheduler
