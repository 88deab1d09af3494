import AcceleratorScheduler.Proofs.EventLog.Backlog

/-! Which events a log has recorded so far, as far as the log itself and those who took from it can
tell: each of them was taken, or gave way when there was no room for it beside younger ones, or is
still kept. What is recorded next comes after them (`Journal.record`), and taking changes nothing
about them (`Journal.take`, `Journal.drain`). -/
namespace AcceleratorScheduler.EventLog

/-- These events were recorded in the log, which has room for so many, and those were taken. -/
structure Journal (log : EventLog) (capacity : Nat) (recorded taken : List Event) : Prop where
  keeps : log.Keeps capacity log.kept
  /-- Only an event that has as many younger ones as there is room for was evicted. -/
  fates : ∃ gone evicted, History.Accounts ⟨log, recorded, taken.map some⟩ gone evicted ∧
    log.dropped = min evicted (UInt64.size - 1) ∧
    ∀ i event, gone[i]? = some (event, .evicted) → i + capacity < recorded.length

variable {log : EventLog} {capacity : Nat} {recorded taken : List Event}

theorem journal_init {size : UInt32} {now : Int64} (h : init size now = .ok log) :
    log.Journal size.toNat [] [] := by
  obtain ⟨hk, hd⟩ := keeps_init h
  have hkept : log.kept = [] := hk.kept_eq
  refine ⟨hkept.symm ▸ hk, [], 0, ⟨?_, rfl, rfl⟩, hd, nofun⟩
  exact hkept.symm

namespace Journal

/-- A log from which nothing was taken keeps the youngest events, as many as there is room for. -/
theorem kept_eq (h : log.Journal capacity recorded []) :
    log.kept = recorded.drop (recorded.length - capacity) := by
  obtain ⟨gone, evicted, hg, -, hlast⟩ := h.fates
  have hle := h.keeps.length_le
  have hrecorded : recorded = gone.map Prod.fst ++ log.kept := hg.recorded
  have hlength : recorded.length = gone.length + log.kept.length := by
    rw [hrecorded, List.length_append, List.length_map]
  have hgone : gone.length = recorded.length - capacity := by
    cases hn : gone.length with
    | zero => omega
    | succ n =>
      have hmem : n < gone.length := by omega
      cases hfate : gone[n].2 with
      | taken =>
        have htaken := hg.taken
        have hin : gone[n] ∈ gone.filter (·.2 = .taken) :=
          List.mem_filter.mpr ⟨List.getElem_mem hmem, by simp [hfate]⟩
        rw [List.map_eq_nil_iff.mp htaken.symm] at hin
        cases hin
      | evicted =>
        have := hlast n gone[n].1 (by rw [List.getElem?_eq_getElem hmem, ← hfate])
        omega
  rw [← hgone]
  exact (List.drop_left' (List.length_map _)).symm.trans
    (congrArg (List.drop gone.length) hrecorded.symm)

/-- As long as there is room and nothing was taken, all of it is kept. -/
theorem recorded_eq (h : log.Journal capacity recorded []) (hroom : log.kept.length < capacity) :
    recorded = log.kept := by
  have hkept := h.kept_eq
  have hlength := congrArg List.length hkept
  rw [List.length_drop] at hlength
  rw [hkept, show recorded.length - capacity = 0 by omega, List.drop_zero]

/-- An event that is recorded is the youngest, and the oldest one gives way if there is no room. -/
theorem record (h : log.Journal capacity recorded taken) (now : Int64) (kind : EventKind)
    (data : UInt32) : (log.record now kind data).2.Journal capacity
      (recorded ++ [(log.record now kind data).1]) taken := by
  obtain ⟨event, log', hr, -, hk, hd⟩ := h.keeps.record now kind data
  obtain ⟨gone, evicted, hg, hcount, hlast⟩ := h.fates
  rw [hr]
  by_cases hfull : log.kept.length = capacity
  · rw [if_pos hfull] at hk hd
    have hkept := hk.kept_eq
    obtain ⟨oldest, rest, hq⟩ := List.exists_cons_of_length_pos (hfull ▸ h.keeps.capacity_pos)
    have hnext : History.Accounts ⟨log', recorded ++ [event], taken.map some⟩
        (gone ++ [(oldest, .evicted)]) (evicted + 1) :=
      hg.evict hq (by rw [hkept, hq, List.tail_cons])
    refine ⟨hkept.symm ▸ hk, _, _, hnext, by rw [hd, hcount]; omega, fun i e hi => ?_⟩
    have hlength : recorded.length = gone.length + capacity := by
      have := congrArg List.length hg.recorded
      rwa [List.length_append, List.length_map, hfull] at this
    rw [List.length_append, List.length_singleton]
    rcases Nat.lt_or_ge i gone.length with hlt | hge
    · rw [List.getElem?_append_left hlt] at hi
      exact Nat.lt_succ_of_lt (hlast i e hi)
    · have hbound := (List.getElem?_eq_some_iff.mp hi).1
      rw [List.length_append, List.length_singleton] at hbound
      omega
  · rw [if_neg hfull] at hk hd
    have hkept := hk.kept_eq
    refine ⟨hkept.symm ▸ hk, gone, evicted, hg.record hkept, hd.trans hcount,
      fun i e hi => ?_⟩
    rw [List.length_append]
    exact Nat.lt_of_lt_of_le (hlast i e hi) (Nat.le_add_right _ _)

/-- The oldest event is taken, if any is kept. -/
theorem take (h : log.Journal capacity recorded taken) :
    log.take.2.Journal capacity recorded (taken ++ log.take.1.toList) := by
  obtain ⟨gone, evicted, hg, hcount, hlast⟩ := h.fates
  have hk := h.keeps
  cases hq : log.kept with
  | nil =>
    rw [hq] at hk
    rw [hk.take_nil]
    exact (List.append_nil taken).symm ▸ h
  | cons event q =>
    rw [hq] at hk
    obtain ⟨log', ht, hk', hd⟩ := hk.take_cons
    have hkept := hk'.kept_eq
    have hnext : History.Accounts ⟨log', recorded, taken.map some ++ [some event]⟩
        (gone ++ [(event, .taken)]) evicted := hg.takeSome (hq.trans (hkept ▸ rfl))
    rw [ht]
    refine ⟨hkept.symm ▸ hk', gone ++ [(event, .taken)], evicted, ?_, hd.trans hcount,
      fun i e hi => ?_⟩
    · simpa using hnext
    · rcases Nat.lt_or_ge i gone.length with hlt | hge
      · rw [List.getElem?_append_left hlt] at hi
        exact hlast i e hi
      · rw [List.getElem?_append_right hge] at hi
        cases List.mem_singleton.mp (List.mem_of_getElem? hi)

theorem drainUpTo (h : log.Journal capacity recorded taken) (fuel : Nat) :
    (log.drainUpTo fuel).2.Journal capacity recorded (taken ++ (log.drainUpTo fuel).1) := by
  induction fuel generalizing log taken with
  | zero => exact (List.append_nil taken).symm ▸ h
  | succ fuel ih =>
    have htake := h.take
    rw [EventLog.drainUpTo]
    rcases ht : log.take with ⟨_ | event, log'⟩
    · rw [ht] at htake
      exact htake
    · rw [ht] at htake
      have hrest := ih htake
      rwa [List.append_assoc] at hrest

/-- All that is kept is taken. -/
theorem drain (h : log.Journal capacity recorded taken) :
    log.drain.2.Journal capacity recorded (taken ++ log.drain.1) :=
  h.drainUpTo log.slots.toNat

end Journal

end AcceleratorScheduler.EventLog
