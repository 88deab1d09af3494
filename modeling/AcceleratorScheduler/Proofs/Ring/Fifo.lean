import AcceleratorScheduler.Proofs.Ring.Format

/-! A ring is a bounded first-in first-out queue. Each operation does to the waiting slots what it
would do to a list, and writes nothing but the header and the slot at put; over any run of
operations the answers are those of the list. Main statement: `ring_is_fifo`. -/
namespace AcceleratorScheduler.Ring

variable {m m' : Memory} {h : Header} {q : List Slot} {slot : Slot}

namespace Header

/-- Half of what a word counts keeps the arithmetic of the length exact. -/
theorem toNat_length_of_le (hc : h.Circular) (hb : h.slots.toNat ≤ 2 ^ 31) :
    h.length.toNat = h.count := by
  have hp := hc.put_lt
  exact toNat_length hc (by omega)

end Header

/-- A later ring with as many slots, in which these slots wait. Outside the header and the slot at
put every byte is the one it was. -/
structure Follows (m : Memory) (h : Header) (m' : Memory) (q : List Slot) : Prop where
  queued : ∃ h', h'.slots = h.slots ∧ Queued m' h' q
  size_eq : m'.size = m.size
  get_eq {i : Nat} : headerSize ≤ i →
    i < headerSize + h.put.toNat * slotSize ∨ headerSize + h.put.toNat * slotSize + slotSize ≤ i →
      m'.get i = m.get i

theorem get_afterPop (hq : Queued m h q) {i : Nat} (hi : headerSize ≤ i) :
    (afterPop m h).get i = m.get i :=
  get_putWord_of_ge m _ (hq.word_inside (by decide)) (Nat.le_trans (by decide) hi)

theorem get_afterPush (hq : Queued m h q) {i : Nat} (hi : headerSize ≤ i)
    (ho : i < headerSize + h.put.toNat * slotSize ∨
      headerSize + h.put.toNat * slotSize + slotSize ≤ i) :
    (afterPush m h slot).get i = m.get i := by
  have hword : putOffset + 4 ≤ (putSlot m h.put.toNat slot).size := by
    simpa using hq.word_inside (by decide)
  rw [afterPush, get_putWord_of_ge _ _ hword (Nat.le_trans (by decide) hi), putSlot,
    Memory.get_overwrite _ _ _ _ (by simpa using hq.put_inside), if_neg]
  rw [Vector.length_toList]
  omega

theorem Queued.follows_popped (hq : Queued m h (slot :: q)) : Follows m h (afterPop m h) q where
  queued := ⟨h.popped, rfl, hq.popped⟩
  size_eq := size_putWord _ _ _
  get_eq hi _ := get_afterPop hq hi

theorem Queued.follows_pushed (hq : Queued m h q) (hr : q.length < h.capacity) (slot : Slot) :
    Follows m h (afterPush m h slot) (q ++ [slot]) where
  queued := ⟨h.pushed, rfl, hq.pushed hr slot⟩
  size_eq := by simp [afterPush]
  get_eq hi ho := get_afterPush hq hi ho

/-- With room left, nothing has to be overwritten. -/
theorem pushOverwrite_of_room (slot : Slot) (hq : Queued m h q) (hr : q.length < h.capacity) :
    pushOverwrite slot m = .ok () (afterPush m h slot) := by
  have he : ¬ h.isFull = true := by
    rw [Header.isFull_iff hq.circular, hq.count_eq]
    exact Nat.ne_of_lt hr
  rw [pushOverwrite, bind_ok (reading_of_ok hq.header_eq), if_neg he]
  exact hq.store_afterPush slot

/-- A full ring gives up its oldest slot first; then it has room. -/
theorem pushOverwrite_of_full (slot : Slot) (hq : Queued m h q) (hf : q.length = h.capacity) :
    pushOverwrite slot m = .ok () (afterPush (afterPop m h) h.popped slot) ∧
      Follows m h (afterPush (afterPop m h) h.popped slot) (q.tail ++ [slot]) := by
  have hl := hq.circular.two_le
  have he : h.isFull = true := (Header.isFull_iff hq.circular).mpr (hq.count_eq.trans hf)
  obtain ⟨oldest, rest, rfl⟩ : ∃ oldest rest, q = oldest :: rest := by
    refine List.exists_cons_of_length_pos ?_
    rw [hf, Header.capacity]
    omega
  have hroom : rest.length < h.popped.capacity := by
    rw [show h.popped.capacity = h.capacity from rfl, ← hf]
    exact Nat.lt_succ_self _
  have hnext := hq.popped.follows_pushed hroom slot
  refine ⟨?_, hnext.queued, hnext.size_eq.trans (size_putWord _ _ _), fun hi ho => ?_⟩
  · rw [pushOverwrite, bind_ok (reading_of_ok hq.header_eq), if_pos he]
    refine (bind_ok (storeWord_eq m getOffset _ (hq.word_inside (by decide)))).trans ?_
    exact hq.popped.store_afterPush slot
  · rw [hnext.get_eq hi ho, get_afterPop hq hi]

theorem pushOverwrite_follows (slot : Slot) (hq : Queued m h q) :
    ∃ m', pushOverwrite slot m = .ok () m' ∧
      Follows m h m' ((if q.length = h.capacity then q.tail else q) ++ [slot]) := by
  have hle := Header.count_le_capacity hq.circular
  rw [hq.count_eq] at hle
  by_cases hf : q.length = h.capacity
  · rw [if_pos hf]
    exact ⟨_, pushOverwrite_of_full slot hq hf⟩
  · have hr := Nat.lt_of_le_of_ne hle hf
    rw [if_neg hf]
    exact ⟨_, pushOverwrite_of_room slot hq hr, hq.follows_pushed hr slot⟩

theorem collect_popped (fuel : Nat) (index : UInt32) :
    collect m h.popped fuel index = collect m h fuel index := by
  induction fuel generalizing index with
  | zero => rfl
  | succ fuel ih =>
    rw [collect, collect]
    simp only [ih]
    rfl

/-- Walking from get to put visits the waiting slots. The induction is on them: what follows the
oldest one is what waits once it is taken out. -/
theorem collect_eq {fuel : Nat} (hs : h.Sound m.size) (hw : waiting m h = q)
    (hf : q.length < fuel) : collect m h fuel h.get = .ok q := by
  induction q generalizing h fuel with
  | nil =>
    obtain ⟨n, rfl⟩ := Nat.exists_eq_add_of_lt hf
    have hcount : h.count = 0 := by rw [← length_waiting (m := m), hw]; rfl
    have he := beq_iff_eq.mp ((Header.isEmpty_iff hs.circular).mpr hcount)
    rw [collect, if_pos he.symm]
  | cons slot q ih =>
    obtain ⟨n, rfl⟩ := Nat.exists_eq_add_of_lt hf
    have hcount : h.count ≠ 0 := by
      rw [← length_waiting (m := m), hw]
      exact Nat.succ_ne_zero _
    have he : h.get ≠ h.put := fun he =>
      hcount ((Header.isEmpty_iff hs.circular).mp (beq_iff_eq.mpr he.symm))
    have hc := hs.circular
    obtain ⟨hhead, htail⟩ := List.cons.inj ((Header.along_popped hc hcount).symm.trans hw)
    have hload : ByteStore.load m (slotOffset h.get) slotSize = .ok slot :=
      (Memory.load_eq m _ _ (slot_inside hs hc.get_lt)).trans (congrArg Except.ok hhead)
    have hrest : collect m h.popped (q.length + 1 + n) h.popped.get = .ok q :=
      ih ⟨hs.1, hs.2.1, hs.2.2.1, Header.next_lt hc.get_lt⟩ htail (by omega)
    rw [collect_popped] at hrest
    rw [List.length_cons, collect, if_neg he, hload]
    change (collect m h _ h.popped.get >>= fun rest => Except.ok (slot :: rest)) = _
    rw [hrest]
    rfl

theorem snapshot_eq (hq : Queued m h q) : snapshot m = .ok q := by
  have hc := collect_eq hq.sound hq.waiting_eq hq.length_lt
  rw [snapshot, hq.header_eq]
  exact hc

structure ActsAsQueue (m : Memory) (h : Header) (q : List Slot) : Prop where
  length_eq : h.length.toNat = q.length
  isEmpty_iff : h.isEmpty = true ↔ q = []
  isFull_iff : h.isFull = true ↔ q.length = h.capacity
  pushed (slot : Slot) : q.length < h.capacity →
    ∃ m', push slot m = .ok () m' ∧ Follows m h m' (q ++ [slot])
  /-- A refused slot leaves all bytes as they were. -/
  busy (slot : Slot) : ¬ q.length < h.capacity → push slot m = .error .busy m
  overwritten (slot : Slot) : ∃ m', pushOverwrite slot m = .ok () m' ∧
    Follows m h m' ((if q.length = h.capacity then q.tail else q) ++ [slot])
  popped {oldest : Slot} {rest : List Slot} : q = oldest :: rest →
    ∃ m', pop m = .ok (some oldest) m' ∧ Follows m h m' rest
  exhausted : q = [] → pop m = .ok none m
  listed : snapshot m = .ok q

theorem Queued.actsAsQueue (hq : Queued m h q) (hb : h.slots.toNat ≤ 2 ^ 31) :
    ActsAsQueue m h q where
  length_eq := (Header.toNat_length_of_le hq.circular hb).trans hq.count_eq
  isEmpty_iff := by
    rw [Header.isEmpty_iff hq.circular, hq.count_eq]
    exact List.length_eq_zero_iff
  isFull_iff := by rw [Header.isFull_iff hq.circular, hq.count_eq]
  pushed slot hr := ⟨_, push_eq slot hq hr, hq.follows_pushed hr slot⟩
  busy slot hr := by
    have hle := Header.count_le_capacity hq.circular
    rw [hq.count_eq] at hle
    exact push_of_full slot hq (Nat.le_antisymm hle (Nat.le_of_not_lt hr))
  overwritten slot := pushOverwrite_follows slot hq
  popped he := by
    subst he
    exact ⟨_, pop_eq hq, hq.follows_popped⟩
  exhausted he := by
    subst he
    exact pop_nil hq
  listed := snapshot_eq hq

inductive Operation where
  | push (slot : Slot)
  | pushOverwrite (slot : Slot)
  | pop
  | snapshot
  | format

inductive Reply where
  | done
  | popped (slot : Option Slot)
  | listed (slots : List Slot)
  | formatted (slots : UInt32)
  deriving DecidableEq

/-- A list of slots that may grow to so many, in a place that has room for so many. -/
structure Fifo where
  room : Nat
  capacity : Nat
  slots : List Slot

namespace Operation

def onMemory : Operation → EStateM Refusal Memory Reply
  | push slot => Ring.push slot >>= fun _ => pure .done
  | pushOverwrite slot => Ring.pushOverwrite slot >>= fun _ => pure .done
  | pop => Ring.pop >>= fun slot => pure (.popped slot)
  | snapshot => reading Ring.snapshot >>= fun slots => pure (.listed slots)
  | format => Ring.format >>= fun slots => pure (.formatted slots)

def onList : Operation → Fifo → Except Refusal Reply × Fifo
  | push slot, f =>
    if f.slots.length < f.capacity then (.ok .done, { f with slots := f.slots ++ [slot] })
    else (.error .busy, f)
  | pushOverwrite slot, f =>
    let kept := if f.slots.length = f.capacity then f.slots.tail else f.slots
    (.ok .done, { f with slots := kept ++ [slot] })
  | pop, f => (.ok (.popped f.slots.head?), { f with slots := f.slots.tail })
  | snapshot, f => (.ok (.listed f.slots), f)
  | format, f =>
    if f.room < UInt32.size then
      (.ok (.formatted (.ofNat f.room)), { f with capacity := f.room - 1, slots := [] })
    else (.error .invalidArgument, f)

end Operation

/-- The answers to a run of operations, each of which starts where the one before it ended. -/
def replies {σ : Type} (step : Operation → σ → Except Refusal Reply × σ) :
    List Operation → σ → List (Except Refusal Reply)
  | [], _ => []
  | op :: ops, s => (step op s).1 :: replies step ops (step op s).2

def Represents (m : Memory) (f : Fifo) : Prop :=
  ∃ h, Queued m h f.slots ∧ f.capacity = h.capacity ∧ f.room = room m.size

theorem Follows.represents {f : Fifo} (hf : Follows m h m' f.slots) (hc : f.capacity = h.capacity)
    (hr : f.room = room m.size) : Represents m' f := by
  obtain ⟨h', hs, hq⟩ := hf.queued
  refine ⟨h', hq, ?_, ?_⟩
  · rw [hc, Header.capacity, Header.capacity, hs]
  · rw [hr, hf.size_eq]

/-- A sound ring lies in memory with room for two slots. -/
theorem Queued.two_le_room (hq : Queued m h q) : 2 ≤ room m.size :=
  Nat.le_trans hq.circular.two_le hq.sound.2.1

theorem represents_formatted (h : 2 ≤ room m.size) (hw : room m.size < UInt32.size) :
    Represents (formatted m) ⟨room m.size, room m.size - 1, []⟩ := by
  refine ⟨.blank m.size, queued_formatted h hw, ?_, by rw [size_formatted]⟩
  exact congrArg (· - 1) (UInt32.toNat_ofNat_of_lt hw).symm

/-- Ring and list answer an operation alike, and the ring goes on holding what the list holds. -/
theorem Represents.step {f : Fifo} (hrep : Represents m f) (op : Operation) :
    (answer op.onMemory m).1 = (op.onList f).1 ∧
      Represents (answer op.onMemory m).2 (op.onList f).2 := by
  obtain ⟨h, hq, hc, hr⟩ := hrep
  obtain ⟨place, capacity, q⟩ := f
  obtain rfl : capacity = h.capacity := hc
  obtain rfl : place = room m.size := hr
  cases op with
  | push slot =>
    by_cases hroom : q.length < h.capacity
    · have hx : (Operation.push slot).onMemory m = .ok .done _ := bind_ok (push_eq slot hq hroom)
      rw [answer_of_ok hx, Operation.onList, if_pos hroom]
      exact ⟨rfl, (hq.follows_pushed hroom slot).represents rfl rfl⟩
    · have hfull : q.length = h.capacity := by
        have hle := Header.count_le_capacity hq.circular
        rw [hq.count_eq] at hle
        exact Nat.le_antisymm hle (Nat.le_of_not_lt hroom)
      have hx : (Operation.push slot).onMemory m = .error .busy m :=
        bind_error (push_of_full slot hq hfull)
      rw [answer_of_error hx, Operation.onList, if_neg hroom]
      exact ⟨rfl, h, hq, rfl, rfl⟩
  | pushOverwrite slot =>
    obtain ⟨m', hp, hf⟩ := pushOverwrite_follows slot hq
    have hx : (Operation.pushOverwrite slot).onMemory m = .ok .done m' := bind_ok hp
    rw [answer_of_ok hx]
    exact ⟨rfl, hf.represents rfl rfl⟩
  | pop =>
    cases q with
    | nil =>
      have hx : Operation.pop.onMemory m = .ok (.popped none) m := bind_ok (pop_nil hq)
      rw [answer_of_ok hx]
      exact ⟨rfl, h, hq, rfl, rfl⟩
    | cons slot q =>
      have hx : Operation.pop.onMemory m = .ok (.popped (some slot)) _ := bind_ok (pop_eq hq)
      rw [answer_of_ok hx]
      exact ⟨rfl, hq.follows_popped.represents rfl rfl⟩
  | snapshot =>
    have hx : Operation.snapshot.onMemory m = .ok (.listed q) m :=
      bind_ok (reading_of_ok (snapshot_eq hq))
    rw [answer_of_ok hx]
    exact ⟨rfl, h, hq, rfl, rfl⟩
  | format =>
    by_cases hw : room m.size < UInt32.size
    · have hx : Operation.format.onMemory m = .ok (.formatted (.ofNat (room m.size))) _ :=
        bind_ok (format_granted hq.two_le_room hw)
      rw [answer_of_ok hx, Operation.onList, if_pos hw]
      dsimp only
      exact ⟨rfl, represents_formatted hq.two_le_room hw⟩
    · have hx : Operation.format.onMemory m = .error .invalidArgument m :=
        bind_error (format_refused (.inr (Nat.le_of_not_lt hw)))
      rw [answer_of_error hx, Operation.onList, if_neg hw]
      exact ⟨rfl, h, hq, rfl, rfl⟩

theorem Represents.replies {f : Fifo} (hrep : Represents m f) (ops : List Operation) :
    replies (fun op => answer op.onMemory) ops m = replies Operation.onList ops f := by
  induction ops generalizing m f with
  | nil => rfl
  | cons op ops ih =>
    obtain ⟨hanswer, hnext⟩ := hrep.step op
    rw [Ring.replies, Ring.replies, hanswer, ih hnext]

/-- A ring of up to half of what a word counts is a bounded queue of its waiting slots: operation by
operation, and over every run of operations. Laying out a ring makes it an empty one. -/
theorem ring_is_fifo (hh : header m = .ok h) (hb : h.slots.toNat ≤ 2 ^ 31) :
    ActsAsQueue m h (waiting m h) ∧
    (∀ ops, replies (fun op => answer op.onMemory) ops m =
      replies Operation.onList ops ⟨room m.size, h.capacity, waiting m h⟩) ∧
    ∀ raw : Memory, 2 ≤ room raw.size → room raw.size ≤ 2 ^ 31 →
      ∃ m' h', format raw = .ok h'.slots m' ∧ Queued m' h' [] ∧ h'.slots.toNat = room raw.size ∧
        m'.size = raw.size ∧ ∀ {i}, headerSize ≤ i → m'.get i = raw.get i := by
  have hq := queued_of_header hh
  have hrep : Represents m ⟨room m.size, h.capacity, waiting m h⟩ := ⟨h, hq, rfl, rfl⟩
  refine ⟨hq.actsAsQueue hb, hrep.replies, fun raw hl hw => ?_⟩
  have hw' : room raw.size < UInt32.size := Nat.lt_of_le_of_lt hw (by decide)
  exact ⟨formatted raw, .blank raw.size, format_granted hl hw', queued_formatted hl hw',
    UInt32.toNat_ofNat_of_lt hw', size_formatted raw, get_formatted hl⟩

/-- A ring of three slots is filled, refuses, loses its oldest, and wraps around. -/
theorem ring_is_fifo_turning :
    let m := formatted (.zeroed 112)
    let a : Slot := .replicate slotSize 1
    let b : Slot := .replicate slotSize 2
    ∃ h, header m = .ok h ∧ h.slots.toNat ≤ 2 ^ 31 ∧
      replies (fun op => answer op.onMemory)
        [.push a, .push b, .push a, .pushOverwrite a, .snapshot, .pop, .push b, .pop, .pop, .pop]
        m = [.ok .done, .ok .done, .error .busy, .ok .done, .ok (.listed [b, a]),
          .ok (.popped (some b)), .ok .done, .ok (.popped (some a)), .ok (.popped (some b)),
          .ok (.popped none)] := by
  intro m a b
  have hq : Queued m (.blank 112) [] := queued_formatted (by decide) (by decide)
  have hb : (Header.blank 112).slots.toNat ≤ 2 ^ 31 := by decide
  obtain ⟨-, hrun, -⟩ := ring_is_fifo hq.header_eq hb
  refine ⟨_, hq.header_eq, hb, (hrun _).trans ?_⟩
  rw [hq.waiting_eq]
  rfl

end AcceleratorScheduler.Ring
