import AcceleratorScheduler.Arbiter.Queues
import AcceleratorScheduler.Proofs.Answers

/-! The bytes behind each queue. As long as every buffer has a region of its own, an operation on
one queue's bytes leaves those of the others alone (`contents_onBuffer`). -/
namespace AcceleratorScheduler

namespace SharedMemory

theorem bytes_setBytes (m : SharedMemory) {region : RegionId} (hr : region < m.regions.size)
    (bytes : Memory) (other : RegionId) :
    (m.setBytes region bytes).bytes other = if other = region then bytes else m.bytes other := by
  simp only [SharedMemory.bytes, setBytes, Array.getD_eq_getD_getElem?,
    Array.getElem?_setIfInBounds]
  by_cases he : region = other
  · subst he
    rw [if_pos rfl, if_pos rfl, if_pos hr, Option.getD_some]
  · rw [if_neg he, if_neg (Ne.symm he)]

@[simp] theorem bytes_addRegion (m : SharedMemory) (bytes : Memory) :
    (m.addRegion bytes).2.bytes m.regions.size = bytes := by
  simp [SharedMemory.bytes, addRegion]

@[simp] theorem size_setBytes (m : SharedMemory) (region : RegionId) (bytes : Memory) :
    (m.setBytes region bytes).regions.size = m.regions.size :=
  Array.size_setIfInBounds

section

variable {α : Type} (v : MappedView) (operation : EStateM Refusal Window α) (m : SharedMemory)

/-- What an operation makes of what a view reaches goes back to where it came from. -/
theorem answer_through : answer (through v operation) m =
    ((answer operation (m.window v)).1, m.refit v (answer operation (m.window v)).2) := by
  rw [answer, through, answer]
  cases operation (m.window v) <;> rfl

theorem links_through : (answer (through v operation) m).2.links = m.links := by
  rw [answer_through, refit]
  split <;> rfl

theorem size_through : (answer (through v operation) m).2.regions.size = m.regions.size := by
  rw [answer_through, refit]
  split
  · exact m.size_setBytes _ _
  · rfl

end

end SharedMemory

namespace Arbiter

def contents (a : Arbiter) (role : QueueRole) : Option Memory :=
  (a.queues.get role).map fun buffer => a.memory.bytes buffer.region

/-- Every buffer has a region, and shares it with no other. -/
structure Apart (a : Arbiter) : Prop where
  inside {role : QueueRole} {b : SharedBuffer} :
    a.queues.get role = some b → b.region < a.memory.regions.size
  apart {role other : QueueRole} {b b' : SharedBuffer} :
    a.queues.get role = some b → a.queues.get other = some b' → b.region = b'.region → role = other

/-- Operations through a view change the memory and nothing else. -/
theorem onView_snd {α : Type} (v : MappedView) (operation : EStateM Refusal Window α)
    (a : Arbiter) : (answer (onView v operation) a).2 =
      { a with memory := (answer (SharedMemory.through v operation) a.memory).2 } := by
  rw [answer, onView, answer]
  cases SharedMemory.through v operation a.memory <;> rfl

variable {α : Type} {a : Arbiter} (role : QueueRole) (operation : EStateM Refusal Memory α)

theorem onBuffer_of_none (h : a.queues.get role = none) :
    a.onBuffer role operation = (none, a) := by
  rw [onBuffer, h]

theorem onBuffer_of_some {b : SharedBuffer} (h : a.queues.get role = some b) :
    a.onBuffer role operation =
      (some (answer operation (a.memory.bytes b.region)).1,
        { a with memory :=
          a.memory.setBytes b.region (answer operation (a.memory.bytes b.region)).2 }) := by
  rw [onBuffer, h]

theorem onBuffer_of_ok {b : SharedBuffer} {x : α} {bytes : Memory} (h : a.queues.get role = some b)
    (ho : operation (a.memory.bytes b.region) = .ok x bytes) : a.onBuffer role operation =
      (some (.ok x), { a with memory := a.memory.setBytes b.region bytes }) := by
  rw [onBuffer_of_some role operation h, answer_of_ok ho]

theorem onBuffer_fst :
    (a.onBuffer role operation).1 = (a.contents role).map fun m => (answer operation m).1 := by
  cases h : a.queues.get role with
  | none => simp [onBuffer_of_none role operation h, contents, h]
  | some b => simp [onBuffer_of_some role operation h, contents, h]

/-- The scheduler's own operations change bytes and nothing else of the arbiter. -/
theorem onBuffer_snd :
    (a.onBuffer role operation).2 = { a with memory := { a.memory with
      regions := (a.onBuffer role operation).2.memory.regions } } := by
  cases h : a.queues.get role with
  | none => rw [onBuffer_of_none role operation h]
  | some b => rw [onBuffer_of_some role operation h]; rfl

@[simp] theorem queues_onBuffer : (a.onBuffer role operation).2.queues = a.queues := by
  rw [onBuffer_snd]

@[simp] theorem size_regions_onBuffer :
    (a.onBuffer role operation).2.memory.regions.size = a.memory.regions.size := by
  cases h : a.queues.get role with
  | none => rw [onBuffer_of_none role operation h]
  | some b =>
    rw [onBuffer_of_some role operation h]
    exact a.memory.size_setBytes _ _

theorem contents_onBuffer (ha : a.Apart) (other : QueueRole) :
    (a.onBuffer role operation).2.contents other =
      if other = role then (a.contents role).map fun m => (answer operation m).2
      else a.contents other := by
  cases h : a.queues.get role with
  | none =>
    rw [onBuffer_of_none role operation h]
    split
    next he => simp [contents, he, h]
    next => rfl
  | some b =>
    rw [onBuffer_of_some role operation h]
    simp only [contents, h, Option.map_some]
    cases ho : a.queues.get other with
    | none =>
      rw [if_neg (by rintro rfl; rw [h] at ho; cases ho)]
      rfl
    | some b' =>
      rw [Option.map_some, SharedMemory.bytes_setBytes _ (ha.inside h)]
      by_cases he : other = role
      · subst he
        cases h.symm.trans ho
        rw [if_pos rfl, if_pos rfl]
      · rw [if_neg (fun hr => he (ha.apart ho h hr)), if_neg he, Option.map_some]

theorem Apart.of_eq {a' : Arbiter} (ha : a.Apart) (hq : a'.queues = a.queues)
    (hs : a'.memory.regions.size = a.memory.regions.size) : a'.Apart where
  inside h := hs ▸ ha.inside (hq ▸ h)
  apart h h' := ha.apart (hq ▸ h) (hq ▸ h')

end Arbiter

end AcceleratorScheduler
