import Mathlib.Logic.Function.Iterate
import AcceleratorScheduler.Proofs.Ring.Procedures

/-! Rings in memory that anyone may have written. What the header says is checked before anything is
done with it. A header that fails is refused and nothing changes. One that passes bounds every
access, so that only a full ring can refuse anything; main statement: `hostile_memory_contained`. -/
namespace AcceleratorScheduler.Ring

open ByteStore (Access Procedure)

variable {m m' : Memory} {h : Header} {q : List Slot} {slot : Slot} {op : Operation}

theorem loadWord_eq_error {offset : Nat} {e : Refusal} (hw : loadWord m offset = .error e) :
    e = .invalidArgument := by
  by_cases hf : offset + 4 ≤ m.size
  · rw [loadWord_eq m offset hf] at hw
    cases hw
  · rw [loadWord_outside m offset hf] at hw
    cases hw
    rfl

/-- Whatever is wrong with a header is reported alike. -/
theorem header_eq_error {e : Refusal} (hh : header m = .error e) : e = .invalidArgument := by
  rcases of_bind_eq_error hh with hw | ⟨found, -, hh⟩
  · exact loadWord_eq_error hw
  split at hh
  · cases hh
    rfl
  · rcases of_bind_eq_error hh with hw | ⟨put, -, hh⟩
    · exact loadWord_eq_error hw
    rcases of_bind_eq_error hh with hw | ⟨get, -, hh⟩
    · exact loadWord_eq_error hw
    rcases of_bind_eq_error hh with hw | ⟨slots, -, hh⟩
    · exact loadWord_eq_error hw
    dsimp only at hh
    split at hh <;> cases hh
    rfl

/-- The condition on the bytes of a block under which they are a ring. -/
theorem header_isOk_iff (m : Memory) : (∃ h, header m = .ok h) ↔
    16 ≤ m.size ∧ word m 0 = 0x4E565351 ∧ 2 ≤ (word m 12).toNat ∧
      (word m 12).toNat ≤ (m.size - 16) / 32 ∧ word m 4 < word m 12 ∧ word m 8 < word m 12 := by
  have hsound : (headerAt m).Sound m.size ↔ 2 ≤ (word m 12).toNat ∧
      (word m 12).toNat ≤ (m.size - 16) / 32 ∧ word m 4 < word m 12 ∧ word m 8 < word m 12 := by
    rw [Header.Sound, UInt32.le_iff_toNat_le]
    rfl
  simp only [header_eq_ok_iff]
  constructor
  · rintro ⟨h, hsize, hmagic, rfl, hs⟩
    exact ⟨hsize, hmagic, hsound.mp hs⟩
  · rintro ⟨hsize, hmagic, hs⟩
    exact ⟨headerAt m, hsize, hmagic, rfl, hsound.mpr hs⟩

/-- Without a sound header every operation on a ring is refused, and no byte changes. -/
theorem refused_of_header_error {e : Refusal} (hh : header m = .error e) (hop : op ≠ .format) :
    answer op.onMemory m = (.error e, m) := by
  have hsnapshot : snapshot m = .error e := by
    rw [snapshot, hh]
    rfl
  have hread := reading_of_error hh
  cases op with
  | push | pushOverwrite | pop => exact answer_of_error (bind_error (bind_error hread))
  | snapshot => exact answer_of_error (bind_error (reading_of_error hsnapshot))
  | format => exact absurd rfl hop

namespace Header

/-- Stepping around the ring from get names the places in turn. -/
theorem toNat_iterate_next (hc : h.Circular) (k : Nat) :
    (h.next^[k] h.get).toNat = h.position k := by
  induction k with
  | zero => exact (position_zero hc).symm
  | succ k ih =>
    have hlt : (h.next^[k] h.get).toNat < h.slots.toNat := by
      rw [ih]
      exact Nat.mod_lt _ (Nat.lt_of_lt_of_le Nat.zero_lt_two hc.two_le)
    rw [Function.iterate_succ_apply', toNat_next hlt, ih, position, position, Nat.mod_add_mod,
      Nat.add_assoc]

/-- The walk from get ends at put, and not before it has passed every waiting slot. -/
theorem iterate_next_eq_put_iff (hc : h.Circular) {k : Nat} (hk : k ≤ h.count) :
    h.next^[k] h.get = h.put ↔ k = h.count := by
  rw [← UInt32.toNat_inj, toNat_iterate_next hc]
  refine ⟨fun he => ?_, fun he => he ▸ position_count hc⟩
  exact Nat.le_antisymm hk (Nat.le_of_not_lt fun hlt => position_ne_put hc hlt he)

theorem count_eq_emod (hc : h.Circular) :
    (h.count : Int) = ((h.put.toNat : Int) - h.get.toNat) % h.slots.toNat := by
  have hg := hc.get_lt
  have hsum : ((h.put.toNat + h.slots.toNat - h.get.toNat : Nat) : Int) =
      (h.put.toNat : Int) - h.get.toNat + h.slots.toNat := by omega
  rw [count, Int.natCast_emod, hsum, Int.add_emod_right]

end Header

def wordAccess (stores : Bool) (offset : Nat) : Access := ⟨stores, offset, 4⟩

def slotAccess (stores : Bool) (index : UInt32) : Access := ⟨stores, slotOffset index, slotSize⟩

def headerLoads : List Access :=
  [magicOffset, putOffset, getOffset, slotsOffset].map (wordAccess false)

def appendStores (h : Header) : List Access := [slotAccess true h.put, wordAccess true putOffset]

/-- All that an operation asks for in memory with this header, in order. -/
def Operation.footprint (h : Header) : Operation → List Access
  | push _ => headerLoads ++ if h.isFull then [] else appendStores h
  | pushOverwrite _ =>
    headerLoads ++ ((if h.isFull then [wordAccess true getOffset] else []) ++ appendStores h)
  | pop =>
    headerLoads ++ if h.isEmpty then [] else [slotAccess false h.get, wordAccess true getOffset]
  | snapshot => headerLoads ++ (List.range h.count).map fun k => slotAccess false (h.next^[k] h.get)
  | format => [putOffset, getOffset, slotsOffset, magicOffset].map (wordAccess true)

section

variable {σ : Type} [ByteStore σ] (s : σ)

theorem accesses_loadingWord (offset : Nat) :
    (loadingWord offset).accesses s = [wordAccess false offset] :=
  Procedure.accesses_load_pure ..

theorem accesses_loadingSlot (index : UInt32) :
    (loadingSlot index).accesses s = [slotAccess false index] :=
  Procedure.accesses_load_pure _ _ id s

theorem accesses_storingWord (offset : Nat) (w : UInt32) :
    (storingWord offset w).accesses s = [wordAccess true offset] := by
  refine (Procedure.accesses_store_pure ..).trans ?_
  rw [LittleEndian.length_encode, wordAccess]

theorem accesses_storingSlot (index : UInt32) (slot : Slot) :
    (storingSlot index slot).accesses s = [slotAccess true index] := by
  refine (Procedure.accesses_store_pure ..).trans ?_
  rw [Vector.length_toList, slotAccess]

end

theorem accesses_loadingHeader (hh : header m = .ok h) : loadingHeader.accesses m = headerLoads := by
  obtain ⟨hm, hg, rfl, hs⟩ := (header_eq_ok_iff m h).mp hh
  have hload {offset : Nat} (ho : offset + 4 ≤ headerSize) :
      (loadingWord offset).run m = .ok (word m offset) m := by
    rw [run_loadingWord]
    exact reading_of_ok (loadWord_eq m offset (Nat.le_trans ho hm))
  rw [loadingHeader, Procedure.accesses_bind_of_ok _ (hload (by decide)), accesses_loadingWord,
    if_neg (not_not_intro hg), Procedure.accesses_bind_of_ok _ (hload (by decide)),
    accesses_loadingWord, Procedure.accesses_bind_of_ok _ (hload (by decide)),
    accesses_loadingWord, Procedure.accesses_bind_of_ok _ (hload (by decide)),
    accesses_loadingWord, Procedure.accesses]
  have hnone : (if Header.Sound ⟨word m putOffset, word m getOffset, word m slotsOffset⟩
      (ByteStore.size m) then pure ⟨word m putOffset, word m getOffset, word m slotsOffset⟩
      else .refuse .invalidArgument : Procedure Header).accesses m = [] := by
    split <;> rfl
  rw [hnone]
  rfl

/-- Once the header is read, an operation goes on with what it says. -/
theorem accesses_of_header {α : Type} (hh : header m = .ok h) (f : Header → Procedure α) :
    (loadingHeader >>= f).accesses m = headerLoads ++ (f h).accesses m := by
  have hrun : loadingHeader.run m = .ok h m := by
    rw [run_loadingHeader]
    exact reading_of_ok hh
  rw [Procedure.accesses_bind_of_ok f hrun, accesses_loadingHeader hh]

theorem run_storingWord_eq {offset : Nat} (w : UInt32) (hf : offset + 4 ≤ m.size) :
    (storingWord offset w).run m = .ok () (putWord m offset w) := by
  rw [run_storingWord, storeWord_eq m offset w hf]

theorem accesses_appending (hs : h.Sound m.size) (slot : Slot) :
    (appending h slot).accesses m = appendStores h := by
  have hrun : (storingSlot h.put slot).run m = .ok () (putSlot m h.put.toNat slot) := by
    rw [run_storingSlot]
    exact storeSlot_eq m h.put slot (slot_inside hs hs.circular.put_lt)
  rw [appending, Procedure.accesses_bind_of_ok _ hrun, accesses_storingSlot, accesses_storingWord]
  rfl

/-- The walk to put asks for one slot after the other. The induction is on the fuel, which lasts. -/
theorem accesses_collecting (hs : h.Sound m.size) {fuel k : Nat} (hk : k ≤ h.count)
    (hf : h.count < k + fuel) : (collecting h fuel (h.next^[k] h.get)).accesses m =
      (List.range (h.count - k)).map fun j => slotAccess false (h.next^[k + j] h.get) := by
  induction fuel generalizing k with
  | zero => omega
  | succ fuel ih =>
    have hput := Header.iterate_next_eq_put_iff hs.circular hk
    by_cases he : k = h.count
    · rw [collecting, if_pos (hput.mpr he), he, Nat.sub_self]
      rfl
    · have hlt : (h.next^[k] h.get).toNat < h.slots.toNat := by
        rw [Header.toNat_iterate_next hs.circular]
        exact Nat.mod_lt _ (Nat.lt_of_lt_of_le Nat.zero_lt_two hs.circular.two_le)
      have hrun : (loadingSlot (h.next^[k] h.get)).run m =
          .ok (slotAt m (h.next^[k] h.get).toNat) m := by
        rw [run_loadingSlot]
        exact reading_of_ok (Memory.load_eq m _ _ (slot_inside hs hlt))
      have hrest := ih (show k + 1 ≤ h.count by omega) (by omega)
      rw [Function.iterate_succ_apply'] at hrest
      have hleft : h.count - k = h.count - (k + 1) + 1 := by omega
      rw [collecting, if_neg (mt hput.mp he), Procedure.accesses_bind_of_ok _ hrun,
        accesses_loadingSlot, Procedure.accesses_bind_pure, hrest, hleft,
        List.range_succ_eq_map, List.map_cons, List.map_map]
      refine congrArg (List.cons _) (List.map_congr_left fun j _ => ?_)
      rw [Function.comp_apply, Nat.add_assoc, Nat.add_comm 1 j]

theorem accesses_formatting (h : 2 ≤ room m.size) (hw : room m.size < UInt32.size) :
    formatting.accesses m =
      [putOffset, getOffset, slotsOffset, magicOffset].map (wordAccess true) := by
  have hs := headerSize_le_of_room (show room m.size ≠ 0 by omega)
  have hstore (m' : Memory) (hm : m'.size = m.size) {offset : Nat} (w : UInt32)
      (ho : offset + 4 ≤ headerSize) : (storingWord offset w).run m' = .ok () (putWord m' offset w) :=
    run_storingWord_eq w (by omega)
  rw [formatting, Procedure.accesses, if_neg (show ¬(room (ByteStore.size m) < 2 ∨
      UInt32.size ≤ room (ByteStore.size m)) from
    not_or.mpr ⟨Nat.not_lt.mpr h, Nat.not_le.mpr hw⟩),
    Procedure.accesses_bind_of_ok _ (hstore m rfl _ (by decide)), accesses_storingWord,
    Procedure.accesses_bind_of_ok _ (hstore _ (by simp) _ (by decide)), accesses_storingWord,
    Procedure.accesses_bind_of_ok _ (hstore _ (by simp) _ (by decide)), accesses_storingWord,
    Procedure.accesses_bind_of_ok _ (hstore _ (by simp) _ (by decide)), accesses_storingWord]
  rfl

theorem accesses_listing (hq : Queued m h q) : listing.accesses m =
    headerLoads ++ (List.range h.count).map fun k => slotAccess false (h.next^[k] h.get) := by
  have hlt : h.count < 0 + h.slots.toNat := by
    rw [Nat.zero_add, hq.count_eq]
    exact hq.length_lt
  have hwalk := accesses_collecting hq.sound (Nat.zero_le _) hlt
  simp only [Nat.sub_zero, Nat.zero_add] at hwalk
  rw [listing, accesses_of_header hq.header_eq]
  exact congrArg (headerLoads ++ ·) hwalk

/-- In memory with a sound ring these are all the accesses of an operation. -/
theorem accesses_procedure (hq : Queued m h q) (hw : room m.size < UInt32.size) (op : Operation) :
    op.procedure.accesses m = op.footprint h := by
  have hs := hq.sound
  cases op with
  | push slot =>
    rw [Operation.procedure, Procedure.accesses_bind_pure, pushing, accesses_of_header hq.header_eq,
      Operation.footprint]
    split
    · rfl
    · rw [accesses_appending hs]
  | pushOverwrite slot =>
    rw [Operation.procedure, Procedure.accesses_bind_pure, pushingOverwrite,
      accesses_of_header hq.header_eq, Operation.footprint]
    split
    · have hrun := run_storingWord_eq (h.next h.get) (hq.word_inside (by decide : getOffset + 4 ≤ _))
      rw [Procedure.accesses_bind_of_ok _ hrun, accesses_storingWord, accesses_appending]
      rwa [size_putWord]
    · rw [accesses_appending hs, List.nil_append]
  | pop =>
    rw [Operation.procedure, Procedure.accesses_bind_pure, popping, accesses_of_header hq.header_eq,
      Operation.footprint]
    split
    · rfl
    · have hrun : (loadingSlot h.get).run m = .ok (slotAt m h.get.toNat) m := by
        rw [run_loadingSlot]
        exact reading_of_ok (Memory.load_eq m _ _ (slot_inside hs hs.circular.get_lt))
      rw [Procedure.accesses_bind_of_ok _ hrun, accesses_loadingSlot, Procedure.accesses_bind_pure,
        accesses_storingWord]
      rfl
  | snapshot =>
    rw [Operation.procedure, Procedure.accesses_bind_pure]
    exact accesses_listing hq
  | format =>
    rw [Operation.procedure, Procedure.accesses_bind_pure]
    exact accesses_formatting hq.two_le_room hw

theorem wordAccess_inside {size offset : Nat} (hs : headerSize ≤ size) (ho : offset + 4 ≤ headerSize)
    (stores : Bool) : (wordAccess stores offset).Inside size :=
  Nat.le_trans ho hs

theorem slotAccess_inside {size : Nat} {index : UInt32} (hs : h.Sound size)
    (hi : index.toNat < h.slots.toNat) (stores : Bool) : (slotAccess stores index).Inside size :=
  slot_inside hs hi

/-- What a sound header leads to lies inside the memory. -/
theorem footprint_inside {size : Nat} (hsize : headerSize ≤ size) (hs : h.Sound size)
    (op : Operation) : ∀ access ∈ op.footprint h, access.Inside size := by
  have hword {offset : Nat} (ho : offset + 4 ≤ headerSize) (stores : Bool) :=
    wordAccess_inside hsize ho stores
  have hheader : ∀ access ∈ headerLoads, access.Inside size := by
    simp only [headerLoads, List.map_cons, List.map_nil, List.forall_mem_cons]
    exact ⟨hword (by decide) _, hword (by decide) _, hword (by decide) _, hword (by decide) _, nofun⟩
  have happend : ∀ access ∈ appendStores h, access.Inside size := by
    simp only [appendStores, List.forall_mem_cons]
    exact ⟨slotAccess_inside hs hs.circular.put_lt _, hword (by decide) _, nofun⟩
  cases op with
  | push slot =>
    refine List.forall_mem_append.mpr ⟨hheader, ?_⟩
    split
    · nofun
    · exact happend
  | pushOverwrite slot =>
    refine List.forall_mem_append.mpr ⟨hheader, List.forall_mem_append.mpr ⟨?_, happend⟩⟩
    split
    · exact List.forall_mem_singleton.mpr (hword (by decide) _)
    · nofun
  | pop =>
    refine List.forall_mem_append.mpr ⟨hheader, ?_⟩
    split
    · nofun
    · simp only [List.forall_mem_cons]
      exact ⟨slotAccess_inside hs hs.circular.get_lt _, hword (by decide) _, nofun⟩
  | snapshot =>
    refine List.forall_mem_append.mpr ⟨hheader, List.forall_mem_map.mpr fun k _ => ?_⟩
    refine slotAccess_inside hs ?_ _
    rw [Header.toNat_iterate_next hs.circular]
    exact Nat.mod_lt _ (Nat.lt_of_lt_of_le Nat.zero_lt_two hs.circular.two_le)
  | format =>
    simp only [Operation.footprint, List.map_cons, List.map_nil, List.forall_mem_cons]
    exact ⟨hword (by decide) _, hword (by decide) _, hword (by decide) _, hword (by decide) _, nofun⟩

theorem Follows.refl (hq : Queued m h q) : Follows m h m q := ⟨⟨h, rfl, hq⟩, rfl, fun _ _ => rfl⟩

/-- An operation on a sound ring leaves a ring with as many slots. Only a full ring refuses, and
only to have something appended. -/
theorem Queued.outcome (hq : Queued m h q) (hop : op ≠ .format) :
    (∃ reply m' q', op.onMemory m = .ok reply m' ∧ Follows m h m' q') ∨
      op.onMemory m = .error .busy m ∧ ∃ slot, op = .push slot := by
  cases op with
  | push slot =>
    rcases Nat.lt_or_eq_of_le (Header.count_le_capacity hq.circular) with hlt | heq
    · rw [hq.count_eq] at hlt
      exact .inl ⟨_, _, _, bind_ok (push_eq slot hq hlt), hq.follows_pushed hlt slot⟩
    · rw [hq.count_eq] at heq
      exact .inr ⟨bind_error (push_of_full slot hq heq), slot, rfl⟩
  | pushOverwrite slot =>
    obtain ⟨m', hp, hf⟩ := pushOverwrite_follows slot hq
    exact .inl ⟨_, m', _, bind_ok hp, hf⟩
  | pop =>
    cases q with
    | nil => exact .inl ⟨_, _, _, bind_ok (pop_nil hq), .refl hq⟩
    | cons slot q => exact .inl ⟨_, _, _, bind_ok (pop_eq hq), hq.follows_popped⟩
  | snapshot => exact .inl ⟨_, _, _, bind_ok (reading_of_ok (snapshot_eq hq)), .refl hq⟩
  | format => exact absurd rfl hop

/-- The magic word and the number of slots stay. -/
theorem Follows.words_eq (hf : Follows m h m' q) (hh : header m = .ok h) :
    word m' magicOffset = word m magicOffset ∧ word m' slotsOffset = word m slotsOffset := by
  obtain ⟨h', hslots, hq⟩ := hf.queued
  obtain ⟨-, hmagic, rfl, -⟩ := (header_eq_ok_iff m h).mp hh
  obtain ⟨-, hmagic', rfl, -⟩ := (header_eq_ok_iff m' h').mp hq.header_eq
  exact ⟨hmagic'.trans hmagic.symm, hslots⟩

/-- How listing the waiting slots ends: it loads so many slots, one after the other from get on, and
is then at put for the first time. No more fuel makes a difference. -/
structure EndsAfter (m : Memory) (h : Header) (n : Nat) : Prop where
  before : ∀ k < n, h.next^[k] h.get ≠ h.put
  at_end : h.next^[n] h.get = h.put
  accesses_eq : listing.accesses m =
    headerLoads ++ (List.range n).map fun k => slotAccess false (h.next^[k] h.get)
  listed : ∃ slots, slots.length = n ∧ snapshot m = .ok slots ∧
    ∀ fuel, n < fuel → collect m h fuel h.get = .ok slots

theorem Queued.endsAfter (hq : Queued m h q) : EndsAfter m h h.count where
  before _ hk he :=
    Nat.ne_of_lt hk ((Header.iterate_next_eq_put_iff hq.circular (Nat.le_of_lt hk)).mp he)
  at_end := (Header.iterate_next_eq_put_iff hq.circular (Nat.le_refl _)).mpr rfl
  accesses_eq := accesses_listing hq
  listed := ⟨q, hq.count_eq.symm, snapshot_eq hq, fun _ hf =>
    collect_eq hq.sound hq.waiting_eq (hq.count_eq ▸ hf)⟩

/-- What a header that was accepted makes sure of, whoever wrote it. -/
structure Contained (m : Memory) (h : Header) : Prop where
  inside (op : Operation) : ∀ access ∈ op.procedure.accesses m, access.Inside m.size
  refusal {op : Operation} {e : Refusal} : op ≠ .format → (answer op.onMemory m).1 = .error e →
    e = .busy ∧ ∃ slot, op = .push slot
  words_eq {op : Operation} : op ≠ .format →
    word (answer op.onMemory m).2 0 = word m 0 ∧ word (answer op.onMemory m).2 12 = word m 12
  /-- The number of waiting slots is computed without overflow. -/
  length_eq : h.put.toNat + h.slots.toNat < 2 ^ 32 ∧ h.length.toNat = h.count
  /-- The distance from get to put around the ring. -/
  count_eq : (h.count : Int) = ((h.put.toNat : Int) - h.get.toNat) % h.slots.toNat ∧
    h.count ≤ h.slots.toNat - 1
  ends : EndsAfter m h h.count

theorem Queued.contained (hq : Queued m h q) (hm : m.size ≤ 2 ^ 36) : Contained m h where
  inside op := by
    have hw := room_lt_of_le (Nat.le_trans hm (by decide : 2 ^ 36 ≤ 2 ^ 37))
    rw [accesses_procedure hq hw]
    exact footprint_inside ((header_eq_ok_iff m h).mp hq.header_eq).1 hq.sound op
  refusal hop he := by
    rcases hq.outcome hop with ⟨reply, m', q', hx, -⟩ | ⟨hx, hpush⟩
    · rw [answer_of_ok hx] at he
      cases he
    · rw [answer_of_error hx] at he
      cases he
      exact ⟨rfl, hpush⟩
  words_eq hop := by
    rcases hq.outcome hop with ⟨reply, m', q', hx, hf⟩ | ⟨hx, -⟩
    · rw [answer_of_ok hx]
      exact hf.words_eq hq.header_eq
    · rw [answer_of_error hx]
      exact ⟨rfl, rfl⟩
  length_eq := by
    have hs := hq.sound.2.1
    have hp := hq.circular.put_lt
    simp only [room, headerSize, slotSize] at hs
    have hsum : h.put.toNat + h.slots.toNat < 2 ^ 32 := by omega
    exact ⟨hsum, Header.toNat_length hq.circular hsum⟩
  count_eq := ⟨Header.count_eq_emod hq.circular, Header.count_le_capacity hq.circular⟩
  ends := hq.endsAfter

/-- Memory of any contents, up to 2^36 bytes. A header is accepted just if the block is long enough
for it, the magic word stands, and slot count and indices fit each other and the block. Without one
nothing is done. With one every access is inside, only a full ring refuses and only an append, magic
and slot count stay, and listing the slots ends after as many steps as slots wait. -/
theorem hostile_memory_contained (m : Memory) (hm : m.size ≤ 2 ^ 36) :
    ((∃ h, header m = .ok h) ↔
      16 ≤ m.size ∧ word m 0 = 0x4E565351 ∧ 2 ≤ (word m 12).toNat ∧
        (word m 12).toNat ≤ (m.size - 16) / 32 ∧ word m 4 < word m 12 ∧ word m 8 < word m 12) ∧
    (∀ h, header m = .ok h → h = ⟨word m 4, word m 8, word m 12⟩ ∧ Contained m h) ∧
    (∀ e, header m = .error e → e = .invalidArgument ∧ ∀ op : Operation, op ≠ .format →
      answer op.onMemory m = (.error .invalidArgument, m)) ∧
    ∀ op : Operation, op.procedure.run = op.onMemory := by
  refine ⟨header_isOk_iff m, fun h hh => ⟨?_, (queued_of_header hh).contained hm⟩, fun e hh => ?_,
    fun op => op.run_procedure.trans op.on_memory⟩
  · exact ((header_eq_ok_iff m h).mp hh).2.2.1
  · obtain rfl := header_eq_error hh
    exact ⟨rfl, fun op hop => refused_of_header_error hh hop⟩

/-- Room for three slots and a few bytes more, with these indices in the header. -/
private def tampered (put get : UInt32) : Memory :=
  putWord (putWord (formatted (.zeroed 119)) putOffset put) getOffset get

/-- A ring that has wrapped around holds one slot; one whose index is past the last is refused. -/
theorem hostile_memory_contained_tampered :
    (tampered 0 2).size ≤ 2 ^ 36 ∧ (tampered 0 3).size ≤ 2 ^ 36 ∧
    (∃ h, header (tampered 0 2) = .ok h ∧ Contained (tampered 0 2) h ∧ h.count = 1) ∧
    answer Operation.pop.onMemory (tampered 0 3) = (.error .invalidArgument, tampered 0 3) := by
  have hsize (put get : UInt32) : (tampered put get).size ≤ 2 ^ 36 := by
    simp [tampered, Memory.zeroed]
  have hsound : header (tampered 0 2) = .ok ⟨0, 2, 3⟩ :=
    (header_eq_ok_iff _ _).mpr ⟨by decide, by decide, by decide, by decide⟩
  have hbroken : header (tampered 0 3) = .error .invalidArgument := by rfl
  have hpop : Operation.pop ≠ .format := by
    intro h
    cases h
  obtain ⟨-, hrun, -⟩ := hostile_memory_contained (tampered 0 2) (hsize 0 2)
  obtain ⟨-, -, hrefused, -⟩ := hostile_memory_contained (tampered 0 3) (hsize 0 3)
  exact ⟨hsize 0 2, hsize 0 3, ⟨_, hsound, (hrun _ hsound).2, rfl⟩,
    (hrefused _ hbroken).2 .pop hpop⟩

end AcceleratorScheduler.Ring
