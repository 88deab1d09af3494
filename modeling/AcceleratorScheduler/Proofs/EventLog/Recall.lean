import AcceleratorScheduler.Proofs.EventLog.Records

/-! A log from which nothing is taken recalls the youngest of the events that it was told, as many
as it keeps, and draining it gives them, oldest first (`Recalls.drain`). -/
namespace AcceleratorScheduler.EventLog

variable {log : EventLog} {capacity : Nat} {q : List Event} {told : List (EventKind × UInt32)}

/-- The events recorded are these, and nothing was taken. -/
def Recalls (log : EventLog) (capacity : Nat) (told : List (EventKind × UInt32)) : Prop :=
  ∃ recorded, log.Journal capacity recorded [] ∧ recorded.map Event.entry = told

theorem recalls_init {size : UInt32} {now : Int64} (h : init size now = .ok log) :
    log.Recalls size.toNat [] :=
  ⟨[], journal_init h, rfl⟩

theorem Recalls.record (h : log.Recalls capacity told) (now : Int64) (kind : EventKind)
    (data : UInt32) : (log.record now kind data).2.Recalls capacity (told ++ [(kind, data)]) := by
  obtain ⟨recorded, hj, rfl⟩ := h
  exact ⟨_, hj.record now kind data, List.map_append⟩

/-- Draining ends when nothing is kept any more. -/
theorem Keeps.drainUpTo_eq (h : log.Keeps capacity q) {fuel : Nat} (hf : q.length < fuel) :
    (log.drainUpTo fuel).1 = q := by
  induction q generalizing log fuel with
  | nil =>
    obtain ⟨fuel, rfl⟩ := Nat.exists_eq_succ_of_ne_zero (Nat.ne_of_gt hf)
    rw [drainUpTo, h.take_nil]
  | cons event q ih =>
    obtain ⟨fuel, rfl⟩ := Nat.exists_eq_succ_of_ne_zero (Nat.ne_of_gt (Nat.zero_lt_of_lt hf))
    obtain ⟨log', ht, hk, -⟩ := h.take_cons
    rw [drainUpTo, ht]
    exact congrArg (List.cons event) (ih hk (Nat.lt_of_succ_lt_succ hf))

/-- The places are one more than the events kept, so they are turns enough. -/
theorem Keeps.drain_eq (h : log.Keeps capacity q) : log.drain.1 = q := by
  have hl := h.length_le
  have hc : log.slots.toNat - 1 = capacity := h.capacity_eq
  have hp := h.circular.two_le
  exact h.drainUpTo_eq (show q.length < log.slots.toNat by
    change 2 ≤ log.slots.toNat at hp
    omega)

/-- The youngest events are given out, as many as there is room for. -/
theorem Recalls.drain (h : log.Recalls capacity told) :
    log.drain.1.map Event.entry = told.drop (told.length - capacity) := by
  obtain ⟨recorded, hj, rfl⟩ := h
  rw [hj.keeps.drain_eq, hj.kept_eq, List.map_drop, List.length_map]

end AcceleratorScheduler.EventLog
