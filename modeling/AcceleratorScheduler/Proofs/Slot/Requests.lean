import AcceleratorScheduler.Proofs.Slot.Fields
import AcceleratorScheduler.Slot.Request

/-! Request slots are a canonical encoding. A slot is the one of a request just if its five fields
are (`eq_encode_iff`), so reading accepts exactly the slots that writing yields, one for each
request it accepts. -/
namespace AcceleratorScheduler.Request

/-- Any request but a switch to domain zero. -/
def Admissible (r : Request) : Prop := ∀ seq, r ≠ .switchDomain seq 0

@[simp] theorem admissible_switchDomain (seq domain : UInt64) :
    (switchDomain seq domain).Admissible ↔ domain ≠ 0 := by
  simp [Admissible]

@[simp] theorem admissible_ping (seq : UInt64) : (ping seq).Admissible := nofun

/-- The bytes that no request uses, 4 to 7 and 24 to 31, are zero. -/
def Blank (s : Slot) : Prop := ∀ i (h : i < slotSize), 4 ≤ i ∧ i < 8 ∨ 24 ≤ i → s[i] = 0

theorem blank_iff (s : Slot) : Blank s ↔ s.field 4 4 = 0 ∧ s.field 24 8 = 0 := by
  rw [Slot.field_eq_zero_iff, Slot.field_eq_zero_iff]
  constructor
  · intro h
    exact ⟨fun i hi hl hu => h i hi (.inl ⟨hl, hu⟩), fun i hi hl _ => h i hi (.inr hl)⟩
  · rintro ⟨hlow, hhigh⟩ i hi (⟨hl, hu⟩ | hl)
    · exact hlow i hi hl hu
    · exact hhigh i hi hl hi

def fields (r : Request) : List (Nat × Nat) :=
  [(4, r.opcode.toNat), (4, 0), (8, r.seq.toNat), (8, r.argument.toNat), (8, 0)]

theorem fields_fit (r : Request) : ∀ f ∈ r.fields, f.2 < Nat.pow 256 f.1 := by
  simp only [fields, List.forall_mem_cons]
  exact ⟨r.opcode.toNat_lt, by decide, r.seq.toNat_lt, r.argument.toNat_lt, by decide, nofun⟩

/-- A slot is the one of a request just if its fields hold what the request says. -/
theorem eq_encode_iff (s : Slot) (r : Request) :
    s = r.encode ↔ s.field 0 4 = r.opcode.toNat ∧ s.field 4 4 = 0 ∧ s.field 8 8 = r.seq.toNat ∧
      s.field 16 8 = r.argument.toNat ∧ s.field 24 8 = 0 := by
  refine (s.eq_ofBytes_iff r.fields_fit (by simp [LittleEndian.row, fields])).trans ?_
  simp only [fields, Slot.Reads, Nat.zero_add, Nat.reduceAdd, slotSize, and_true]

theorem envelope_encode (r : Request) : envelope r.encode = (r.opcode, r.seq) := by
  obtain ⟨hop, _, hseq, _⟩ := (eq_encode_iff r.encode r).mp rfl
  exact Prod.ext ((Slot.ofNat_field_eq_iff32 _ _ _).mpr hop)
    ((Slot.ofNat_field_eq_iff64 _ _ _).mpr hseq)

theorem decode_of_not_blank {s : Slot} (h : ¬ Blank s) : decode s = .error .malformed := by
  rw [blank_iff] at h
  exact if_pos (by tauto)

theorem decode_of_blank {s : Slot} (h : Blank s) :
    decode s =
      if (envelope s).1 = switchOpcode then
        if UInt64.ofNat (s.field 16 8) = 0 then .error .malformed
        else .ok (.switchDomain (envelope s).2 (.ofNat (s.field 16 8)))
      else if (envelope s).1 = pingOpcode then
        if UInt64.ofNat (s.field 16 8) = 0 then .ok (.ping (envelope s).2)
        else .error .malformed
      else .error .unsupported := by
  rw [blank_iff] at h
  exact if_neg (by tauto)

/-- A request is accepted just from its own slot, and never a switch to domain zero. -/
theorem decode_eq_ok_iff (s : Slot) (r : Request) :
    decode s = .ok r ↔ s = r.encode ∧ r.Admissible := by
  have hs : s = r.encode ↔ Blank s ∧ envelope s = (r.opcode, r.seq) ∧
      UInt64.ofNat (s.field 16 8) = r.argument := by
    rw [eq_encode_iff, blank_iff, envelope, Prod.mk.injEq, Slot.ofNat_field_eq_iff32,
      Slot.ofNat_field_eq_iff64, Slot.ofNat_field_eq_iff64]
    tauto
  rw [hs]
  by_cases hblank : Blank s
  · rw [decode_of_blank hblank]
    have hne : pingOpcode ≠ switchOpcode := by decide
    obtain ⟨op, n⟩ := envelope s
    generalize UInt64.ofNat (s.field 16 8) = a
    cases r with
    | switchDomain m d =>
      rw [admissible_switchDomain, opcode, seq, argument, Prod.mk.injEq]
      split_ifs with hswitch hzero hping hzero <;> grind
    | ping m =>
      rw [opcode, seq, argument, Prod.mk.injEq]
      split_ifs with hswitch hzero hping hzero <;> grind [admissible_ping]
  · rw [decode_of_not_blank hblank]
    simp [hblank]

theorem decode_eq_unsupported_iff (s : Slot) :
    decode s = .error .unsupported ↔
      Blank s ∧ (envelope s).1 ≠ switchOpcode ∧ (envelope s).1 ≠ pingOpcode := by
  by_cases hblank : Blank s
  · rw [decode_of_blank hblank]
    split_ifs with hswitch hzero hping hzero <;> simp [*]
  · rw [decode_of_not_blank hblank]
    simp [hblank]

theorem decode_eq_malformed_iff (s : Slot) :
    decode s = .error .malformed ↔
      (∀ r, decode s ≠ .ok r) ∧ decode s ≠ .error .unsupported := by
  obtain defect | r := decode s
  · cases defect <;> simp
  · simp

/-- Reading accepts a slot as a request just if it is the slot of that request and no switch to
domain zero. So reading undoes writing on every admissible request, writing undoes reading on
every accepted slot, and no other slot reads as the same request. A slot that is not accepted is
unsupported if only its opcode is none in use, and malformed otherwise; the opcode and the
sequence number are always those of the request that was written. -/
theorem request_slots_canonical (s : Slot) (r : Request) :
    (decode s = .ok r ↔ s = r.encode ∧ r.Admissible) ∧
    (r.Admissible → decode r.encode = .ok r) ∧
    (decode s = .ok r → r.encode = s ∧ ∀ t, decode t = .ok r → t = s) ∧
    (decode s = .error .unsupported ↔
      Blank s ∧ (envelope s).1 ≠ 1 ∧ (envelope s).1 ≠ 2) ∧
    (decode s = .error .malformed ↔
      (¬ ∃ q : Request, s = q.encode ∧ q.Admissible) ∧
        ¬ (Blank s ∧ (envelope s).1 ≠ 1 ∧ (envelope s).1 ≠ 2)) ∧
    envelope r.encode = (r.opcode, r.seq) := by
  have hunsupported := decode_eq_unsupported_iff s
  refine ⟨decode_eq_ok_iff s r, fun hr => (decode_eq_ok_iff _ r).mpr ⟨rfl, hr⟩, fun hs => ?_,
    hunsupported, ?_, envelope_encode r⟩
  · have hslot := ((decode_eq_ok_iff s r).mp hs).1
    exact ⟨hslot.symm, fun t ht => ((decode_eq_ok_iff t r).mp ht).1.trans hslot.symm⟩
  · rw [decode_eq_malformed_iff, ne_eq, hunsupported, not_exists]
    simp only [ne_eq, decode_eq_ok_iff]
    rfl

private def farthest : Request := .switchDomain 0xffffffffffffffff 0xffffffffffffffff

theorem request_slots_canonical_farthest :
    farthest.Admissible ∧ decode farthest.encode = .ok farthest ∧
      decode farthest.encode ≠ .error .malformed := by
  have hadm : farthest.Admissible := (admissible_switchDomain _ _).mpr (by decide)
  have hread := (request_slots_canonical farthest.encode farthest).2.1 hadm
  exact ⟨hadm, hread, by rw [hread]; nofun⟩

end AcceleratorScheduler.Request
