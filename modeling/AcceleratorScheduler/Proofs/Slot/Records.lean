import AcceleratorScheduler.Proofs.Slot.Fields
import AcceleratorScheduler.Slot.Event
import AcceleratorScheduler.Slot.Response

/-! The slots of responses and events. Reading looks at the bytes of the fields and at nothing else,
so it undoes writing, and writing undoes it up to the padding; main statement:
`record_slots_round_trip`. -/
namespace AcceleratorScheduler

namespace Response

def fields (r : Response) : List (Nat × Nat) :=
  [(8, r.seq.toNat), (4, r.status.toUInt32.toNat), (4, r.opcode.toNat),
    (8, r.timestamp.toUInt64.toNat), (8, 0)]

theorem fields_fit (r : Response) : ∀ f ∈ r.fields, f.2 < Nat.pow 256 f.1 := by
  simp only [fields, List.forall_mem_cons]
  exact ⟨r.seq.toNat_lt, r.status.toUInt32.toNat_lt, r.opcode.toNat_lt,
    r.timestamp.toUInt64.toNat_lt, by decide, nofun⟩

theorem decode_eq_iff (s : Slot) (r : Response) :
    decode s = r ↔ s.field 0 8 = r.seq.toNat ∧ s.field 8 4 = r.status.toUInt32.toNat ∧
      s.field 12 4 = r.opcode.toNat ∧ s.field 16 8 = r.timestamp.toUInt64.toNat := by
  rw [decode, Response.mk.injEq, Slot.ofNat_field_eq_iff64, Slot.toInt32_field_eq_iff,
    Slot.ofNat_field_eq_iff32, Slot.toInt64_field_eq_iff]

theorem eq_encode_iff (s : Slot) (r : Response) :
    s = r.encode ↔ decode s = r ∧ s.field 24 8 = 0 := by
  refine (s.eq_ofBytes_iff r.fields_fit (by simp [LittleEndian.row, fields])).trans ?_
  rw [decode_eq_iff]
  simp only [fields, Slot.Reads, Nat.zero_add, Nat.reduceAdd, slotSize, and_true, and_assoc]

theorem decode_cleared (s : Slot) : decode (s.cleared 24) = decode s := by
  simp only [decode, Slot.field_cleared_of_le, Nat.reduceAdd, Nat.reduceLeDiff]

theorem encode_eq_cleared_iff (s : Slot) (r : Response) :
    r.encode = s.cleared 24 ↔ decode s = r := by
  rw [eq_comm, eq_encode_iff, decode_cleared, s.field_cleared_of_ge (Nat.le_refl 24)]
  simp only [and_true]

theorem decode_encode (r : Response) : decode r.encode = r := ((eq_encode_iff _ r).mp rfl).1

theorem decode_eq_decode_iff (s t : Slot) :
    decode s = decode t ↔ ∀ i (h : i < slotSize), i < 24 → s[i] = t[i] := by
  rw [← encode_eq_cleared_iff, (encode_eq_cleared_iff t _).mpr rfl, eq_comm,
    Slot.cleared_eq_cleared_iff]

end Response

namespace EventKind

theorem number_le (kind : EventKind) : kind.number.toNat ≤ 5 := by
  cases kind <;> decide

theorem ofNumber?_eq_some_iff (n : UInt32) (kind : EventKind) :
    ofNumber? n = some kind ↔ n = kind.number := by
  refine ⟨fun h => ?_, fun h => h ▸ ofNumber?_number kind⟩
  rw [ofNumber?] at h
  have hnumber := List.find?_some h
  exact (beq_iff_eq.mp hnumber).symm

/-- Every number up to the last one is that of a kind. -/
theorem exists_number_eq {n : UInt32} (h : n.toNat ≤ 5) : ∃ kind : EventKind, n = kind.number := by
  have hn : n = .ofNat n.toNat := UInt32.ofNat_toNat.symm
  rw [hn]
  match n.toNat, h with
  | 0, _ => exact ⟨noEvent, rfl⟩
  | 1, _ => exact ⟨createScheduler, rfl⟩
  | 2, _ => exact ⟨createDomain, rfl⟩
  | 3, _ => exact ⟨removeDomain, rfl⟩
  | 4, _ => exact ⟨domainSwitch, rfl⟩
  | 5, _ => exact ⟨limit, rfl⟩

theorem ofNumber?_isSome_iff (n : UInt32) : (ofNumber? n).isSome = true ↔ n.toNat ≤ 5 := by
  rw [Option.isSome_iff_exists]
  simp only [ofNumber?_eq_some_iff]
  refine ⟨?_, exists_number_eq⟩
  rintro ⟨kind, rfl⟩
  exact kind.number_le

end EventKind

namespace Event

def fields (e : Event) : List (Nat × Nat) :=
  [(4, e.kind.number.toNat), (4, e.data.toNat), (8, e.timestamp.toUInt64.toNat), (8, 0), (8, 0)]

theorem fields_fit (e : Event) : ∀ f ∈ e.fields, f.2 < Nat.pow 256 f.1 := by
  simp only [fields, List.forall_mem_cons]
  exact ⟨e.kind.number.toNat_lt, e.data.toNat_lt, e.timestamp.toUInt64.toNat_lt, by decide,
    by decide, nofun⟩

theorem decode_eq_ok_iff (s : Slot) (e : Event) :
    decode s = .ok e ↔ s.field 0 4 = e.kind.number.toNat ∧ s.field 4 4 = e.data.toNat ∧
      s.field 8 8 = e.timestamp.toUInt64.toNat := by
  obtain ⟨kind, data, timestamp⟩ := e
  rw [← Slot.ofNat_field_eq_iff32, ← Slot.ofNat_field_eq_iff32, ← Slot.toInt64_field_eq_iff,
    ← EventKind.ofNumber?_eq_some_iff, decode]
  cases EventKind.ofNumber? (.ofNat (s.field 0 4)) with
  | none => simp
  | some k => rw [Except.ok.injEq, Event.mk.injEq, Option.some.injEq]

theorem eq_encode_iff (s : Slot) (e : Event) :
    s = e.encode ↔ decode s = .ok e ∧ s.field 16 8 = 0 ∧ s.field 24 8 = 0 := by
  refine (s.eq_ofBytes_iff e.fields_fit (by simp [LittleEndian.row, fields])).trans ?_
  rw [decode_eq_ok_iff]
  simp only [fields, Slot.Reads, Nat.zero_add, Nat.reduceAdd, slotSize, and_true, and_assoc]

theorem decode_cleared (s : Slot) : decode (s.cleared 16) = decode s := by
  simp only [decode, Slot.field_cleared_of_le, Nat.reduceAdd, Nat.reduceLeDiff]

/-- A slot reads as an event just if it is that event's, padding aside. -/
theorem encode_eq_cleared_iff (s : Slot) (e : Event) :
    e.encode = s.cleared 16 ↔ decode s = .ok e := by
  rw [eq_comm, eq_encode_iff, decode_cleared, s.field_cleared_of_ge (Nat.le_refl 16),
    s.field_cleared_of_ge (by decide)]
  simp only [and_true]

theorem decode_encode (e : Event) : decode e.encode = .ok e := ((eq_encode_iff _ e).mp rfl).1

/-- Whether a slot holds an event is a matter of its first word. -/
private theorem kind_isSome_iff (s : Slot) :
    (EventKind.ofNumber? (.ofNat (s.field 0 4))).isSome = true ↔ s.field 0 4 ≤ 5 := by
  rw [EventKind.ofNumber?_isSome_iff, UInt32.toNat_ofNat_of_lt' (s.field_lt 0 4)]

theorem decode_isOk_iff (s : Slot) : (∃ e, decode s = .ok e) ↔ s.field 0 4 ≤ 5 := by
  rw [← kind_isSome_iff, decode]
  cases EventKind.ofNumber? (.ofNat (s.field 0 4)) <;> simp

theorem decode_eq_unsupported_iff (s : Slot) :
    decode s = .error .unsupported ↔ ¬ s.field 0 4 ≤ 5 := by
  rw [← kind_isSome_iff, decode]
  cases EventKind.ofNumber? (.ofNat (s.field 0 4)) <;> simp

/-- Two slots read as one event just if they agree on its fields, and the kind is one in use. -/
theorem decode_common_iff (s t : Slot) :
    (∃ e, decode s = .ok e ∧ decode t = .ok e) ↔
      s.field 0 4 ≤ 5 ∧ ∀ i (h : i < slotSize), i < 16 → s[i] = t[i] := by
  rw [← Slot.cleared_eq_cleared_iff, ← decode_isOk_iff]
  constructor
  · rintro ⟨e, hs, ht⟩
    exact ⟨⟨e, hs⟩, ((encode_eq_cleared_iff s e).mpr hs).symm.trans
      ((encode_eq_cleared_iff t e).mpr ht)⟩
  · rintro ⟨⟨e, hs⟩, hst⟩
    exact ⟨e, hs, (encode_eq_cleared_iff t e).mp (((encode_eq_cleared_iff s e).mpr hs).trans hst)⟩

end Event

/-- Reading undoes writing, for every response and every event. Writing undoes reading up to the
padding: a response's slot comes back with its last eight bytes cleared, an event's with its last
sixteen. Every slot reads as a response. Those whose first word is five or less read as an event,
the others are unsupported. So what two slots read as is the same just if the bytes before the
padding are. -/
theorem record_slots_round_trip (s t : Slot) (r : Response) (e : Event) :
    Response.decode r.encode = r ∧
    Event.decode e.encode = .ok e ∧
    (Response.decode s).encode = s.cleared 24 ∧
    ((∃ e', Event.decode s = .ok e') ↔ s.field 0 4 ≤ 5) ∧
    (Event.decode s = .ok e ↔ e.encode = s.cleared 16) ∧
    (Event.decode s = .error .unsupported ↔ ¬ s.field 0 4 ≤ 5) ∧
    (Response.decode s = Response.decode t ↔
      ∀ i (h : i < slotSize), i < 24 → s[i] = t[i]) ∧
    ((∃ e', Event.decode s = .ok e' ∧ Event.decode t = .ok e') ↔
      s.field 0 4 ≤ 5 ∧ ∀ i (h : i < slotSize), i < 16 → s[i] = t[i]) :=
  ⟨r.decode_encode, e.decode_encode, (Response.encode_eq_cleared_iff s _).mpr rfl,
    Event.decode_isOk_iff s, (Event.encode_eq_cleared_iff s e).symm,
    Event.decode_eq_unsupported_iff s, Response.decode_eq_decode_iff s t,
    Event.decode_common_iff s t⟩

/-- A negative status is written as its two's complement, low byte first. -/
example : ((Response.mk 1 (-22) 2 0).encode.toList.drop 8).take 4 = [0xea, 0xff, 0xff, 0xff] := by
  decide

end AcceleratorScheduler
