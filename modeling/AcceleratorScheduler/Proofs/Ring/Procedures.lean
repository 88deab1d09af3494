import AcceleratorScheduler.Proofs.Ring.Fifo
import AcceleratorScheduler.Proofs.Shared.Procedures

/-! The operations of a ring as programs over storage. Each runs as the operation does, whatever the
storage (`Operation.run_procedure`), and lays open which words and slots the operation asks for. -/
namespace AcceleratorScheduler

theorem reading_bind {σ α β : Type} (g : σ → Except Refusal α) (k : α → σ → Except Refusal β) :
    (reading fun s => g s >>= fun a => k a s) = reading g >>= fun a => reading (k a) := by
  funext s
  cases h : g s with
  | ok a =>
    rw [bind_ok (reading_of_ok h), reading, h]
    rfl
  | error e =>
    rw [bind_error (reading_of_error h), reading, h]
    rfl

namespace Ring

open ByteStore (Procedure)

def loadingWord (offset : Nat) : Procedure UInt32 :=
  .load offset 4 fun bytes => pure (.ofNat (LittleEndian.decode bytes.toList))

def loadingSlot (index : UInt32) : Procedure Slot := .load (slotOffset index) slotSize pure

def storingWord (offset : Nat) (word : UInt32) : Procedure Unit :=
  .store offset (LittleEndian.encode 4 word.toNat) (pure ())

def storingSlot (index : UInt32) (slot : Slot) : Procedure Unit :=
  .store (slotOffset index) slot.toList (pure ())

def formatting : Procedure UInt32 := .measure fun size =>
  if room size < 2 ∨ UInt32.size ≤ room size then .refuse .invalidArgument
  else do
    storingWord putOffset 0
    storingWord getOffset 0
    storingWord slotsOffset (.ofNat (room size))
    storingWord magicOffset magic
    return .ofNat (room size)

def loadingHeader : Procedure Header := do
  let found ← loadingWord magicOffset
  if found ≠ magic then .refuse .invalidArgument
  else do
    let put ← loadingWord putOffset
    let get ← loadingWord getOffset
    let slots ← loadingWord slotsOffset
    .measure fun size =>
      if Header.Sound ⟨put, get, slots⟩ size then pure ⟨put, get, slots⟩
      else .refuse .invalidArgument

def appending (h : Header) (slot : Slot) : Procedure Unit := do
  storingSlot h.put slot
  storingWord putOffset (h.next h.put)

def pushing (slot : Slot) : Procedure Unit := do
  let h ← loadingHeader
  if h.isFull then .refuse .busy else appending h slot

def pushingOverwrite (slot : Slot) : Procedure Unit := do
  let h ← loadingHeader
  if h.isFull then storingWord getOffset (h.next h.get) >>= fun _ => appending h slot
  else appending h slot

def popping : Procedure (Option Slot) := do
  let h ← loadingHeader
  if h.isEmpty then pure none
  else do
    let slot ← loadingSlot h.get
    storingWord getOffset (h.next h.get)
    return some slot

def collecting (h : Header) : (fuel : Nat) → UInt32 → Procedure (List Slot)
  | 0, _ => pure []
  | fuel + 1, index =>
    if index = h.put then pure []
    else do
      let slot ← loadingSlot index
      let rest ← collecting h fuel (h.next index)
      return slot :: rest

def listing : Procedure (List Slot) := do
  let h ← loadingHeader
  collecting h h.slots.toNat h.get

variable {σ : Type} [ByteStore σ]

theorem run_loadingWord (offset : Nat) :
    (loadingWord offset).run = reading fun s : σ => loadWord s offset :=
  (reading_bind (fun s : σ => ByteStore.load s offset 4) fun bytes _ =>
    pure (UInt32.ofNat (LittleEndian.decode bytes.toList))).symm

theorem run_loadingSlot (index : UInt32) : (loadingSlot index).run =
    reading fun s : σ => ByteStore.load s (slotOffset index) slotSize :=
  bind_pure _

theorem run_storingWord (offset : Nat) (word : UInt32) :
    (storingWord offset word).run = (storeWord offset word : EStateM Refusal σ Unit) :=
  bind_pure _

theorem run_storingSlot (index : UInt32) (slot : Slot) :
    (storingSlot index slot).run = (storeSlot index slot : EStateM Refusal σ Unit) :=
  bind_pure _

theorem run_formatting : formatting.run = (format : EStateM Refusal σ UInt32) := by
  funext s
  rw [formatting, Procedure.run, format, bind_ok (get_apply s)]
  dsimp only
  split
  · rfl
  · simp only [Procedure.run_bind, run_storingWord, Procedure.run_pure]

theorem run_loadingHeader : loadingHeader.run = reading (header : σ → Except Refusal Header) := by
  unfold header
  rw [loadingHeader, Procedure.run_bind, run_loadingWord, reading_bind]
  refine congrArg (Bind.bind _) (funext fun found => ?_)
  split
  · rfl
  · dsimp only
    simp only [Procedure.run_bind, run_loadingWord, reading_bind]
    refine congrArg (Bind.bind _) (funext fun put => ?_)
    refine congrArg (Bind.bind _) (funext fun get => ?_)
    refine congrArg (Bind.bind _) (funext fun slots => funext fun s => ?_)
    rw [Procedure.run_measure, reading]
    split <;> rfl

theorem run_appending (h : Header) (slot : Slot) : (appending h slot).run =
    (storeSlot h.put slot >>= fun _ => storeWord putOffset (h.next h.put) :
      EStateM Refusal σ Unit) := by
  simp only [appending, Procedure.run_bind, run_storingSlot, run_storingWord]

theorem run_pushing (slot : Slot) : (pushing slot).run = (push slot : EStateM Refusal σ Unit) := by
  rw [pushing, Procedure.run_bind, run_loadingHeader, push]
  refine congrArg (Bind.bind _) (funext fun h => ?_)
  split
  · rfl
  · exact run_appending h slot

theorem run_pushingOverwrite (slot : Slot) :
    (pushingOverwrite slot).run = (pushOverwrite slot : EStateM Refusal σ Unit) := by
  rw [pushingOverwrite, Procedure.run_bind, run_loadingHeader, pushOverwrite]
  refine congrArg (Bind.bind _) (funext fun h => ?_)
  split
  · rw [Procedure.run_bind, run_storingWord, run_appending]
  · exact run_appending h slot

theorem run_popping : popping.run = (pop : EStateM Refusal σ (Option Slot)) := by
  rw [popping, Procedure.run_bind, run_loadingHeader, pop]
  refine congrArg (Bind.bind _) (funext fun h => ?_)
  split
  · rfl
  · simp only [Procedure.run_bind, run_loadingSlot, run_storingWord, Procedure.run_pure]

theorem run_collecting (h : Header) (fuel : Nat) (index : UInt32) :
    (collecting h fuel index).run = reading fun s : σ => collect s h fuel index := by
  induction fuel generalizing index with
  | zero => rfl
  | succ fuel ih =>
    unfold collect
    rw [collecting]
    split
    · rfl
    · simp only [Procedure.run_bind, run_loadingSlot, ih, reading_bind]
      rfl

theorem run_listing : listing.run = reading (snapshot : σ → Except Refusal (List Slot)) := by
  unfold snapshot
  simp only [listing, Procedure.run_bind, run_loadingHeader, run_collecting, reading_bind]

namespace Operation

def on : Operation → EStateM Refusal σ Reply
  | push slot => Ring.push slot >>= fun _ => pure .done
  | pushOverwrite slot => Ring.pushOverwrite slot >>= fun _ => pure .done
  | pop => Ring.pop >>= fun slot => pure (.popped slot)
  | snapshot => reading Ring.snapshot >>= fun slots => pure (.listed slots)
  | format => Ring.format >>= fun slots => pure (.formatted slots)

theorem on_memory (op : Operation) : op.on = op.onMemory := by
  cases op <;> rfl

def procedure : Operation → Procedure Reply
  | push slot => pushing slot >>= fun _ => pure .done
  | pushOverwrite slot => pushingOverwrite slot >>= fun _ => pure .done
  | pop => popping >>= fun slot => pure (.popped slot)
  | snapshot => listing >>= fun slots => pure (.listed slots)
  | format => formatting >>= fun slots => pure (.formatted slots)

/-- The program of an operation does what the operation does, whatever the storage. -/
theorem run_procedure (op : Operation) : op.procedure.run = (op.on : EStateM Refusal σ Reply) := by
  cases op with
  | push slot => rw [procedure, Procedure.run_bind, run_pushing]; rfl
  | pushOverwrite slot => rw [procedure, Procedure.run_bind, run_pushingOverwrite]; rfl
  | pop => rw [procedure, Procedure.run_bind, run_popping]; rfl
  | snapshot => rw [procedure, Procedure.run_bind, run_listing]; rfl
  | format => rw [procedure, Procedure.run_bind, run_formatting]; rfl

end Operation

end Ring

end AcceleratorScheduler
