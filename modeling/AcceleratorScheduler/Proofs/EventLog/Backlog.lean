import AcceleratorScheduler.EventLog
import AcceleratorScheduler.Proofs.Ring.Queue

/-! The event log is a list that forgets its oldest entry once it is too long. Each event that was
recorded was taken out once, in its turn, or was evicted and counted, or is still kept; main
statement: `log_is_backlog`. -/
namespace AcceleratorScheduler

def Event.entry (e : Event) : EventKind × UInt32 := (e.kind, e.data)

namespace EventLog

open AcceleratorScheduler.Ring (Header)

def places (log : EventLog) : Header := ⟨log.put, log.get, log.slots⟩

def kept (log : EventLog) : List Event := log.places.along log.events.get

variable {log : EventLog}

theorem next_eq {index : UInt32} (hi : index.toNat < log.slots.toNat) :
    log.next index = log.places.next index := by
  have hlt := log.slots.toNat_lt
  have hadd : (index + 1).toNat = index.toNat + 1 := by
    rw [UInt32.toNat_add]
    change (index.toNat + 1) % 2 ^ 32 = _
    omega
  apply UInt32.toNat.inj
  rw [Header.toNat_next hi, next]
  split
  next hge =>
    have hge' : log.slots.toNat ≤ index.toNat + 1 := hadd ▸ UInt32.le_iff_toNat_le.mp hge
    rw [show index.toNat + 1 = log.places.slots.toNat from Nat.le_antisymm hi hge', Nat.mod_self]
    rfl
  next hlt' =>
    have hlt'' : index.toNat + 1 < log.slots.toNat := by
      rw [← hadd]
      exact Nat.lt_of_not_le fun hge => hlt' (UInt32.le_iff_toNat_le.mpr hge)
    rw [hadd]
    exact (Nat.mod_eq_of_lt hlt'').symm

/-- The log has places for so many events, and these are the ones it keeps. -/
structure Keeps (log : EventLog) (capacity : Nat) (q : List Event) : Prop where
  circular : log.places.Circular
  capacity_eq : log.places.capacity = capacity
  kept_eq : log.kept = q

namespace Keeps

variable {capacity : Nat} {q : List Event} {event : Event}

theorem count_eq (h : Keeps log capacity q) : log.places.count = q.length := by
  rw [← h.kept_eq, kept, Header.length_along]

theorem length_le (h : Keeps log capacity q) : q.length ≤ capacity := by
  rw [← h.count_eq, ← h.capacity_eq]
  exact Header.count_le_capacity h.circular

theorem capacity_pos (h : Keeps log capacity q) : 0 < capacity := by
  have hl := h.circular.two_le
  rw [← h.capacity_eq, Header.capacity]
  exact Nat.sub_pos_of_lt hl

/-- Half of what a word counts keeps the arithmetic of the length exact. -/
theorem toNat_length (h : Keeps log capacity q) (hb : capacity + 1 ≤ 2 ^ 31) :
    log.length.toNat = q.length := by
  have hp := h.circular.put_lt
  have hs := h.capacity_eq
  have hwords : log.places.put.toNat + log.places.slots.toNat < 2 ^ 32 := by
    rw [Header.capacity] at hs
    generalize log.places.slots.toNat = slots at hp hs
    omega
  rw [← h.count_eq, ← Header.toNat_length h.circular hwords]
  rfl

theorem isEmpty_iff (h : Keeps log capacity q) : log.isEmpty = true ↔ q = [] := by
  rw [← List.length_eq_zero_iff, ← h.count_eq, ← Header.isEmpty_iff h.circular, isEmpty,
    Header.isEmpty, beq_iff_eq, beq_iff_eq]
  exact eq_comm

theorem isFull_iff (h : Keeps log capacity q) : log.isFull = true ↔ q.length = capacity := by
  have hn : log.next log.put = log.places.next log.put := next_eq h.circular.put_lt
  rw [← h.count_eq, ← h.capacity_eq, ← Header.isFull_iff h.circular, isFull, hn]
  rfl

/-- Moving get on gives the oldest event up. -/
theorem advance (h : Keeps log capacity (event :: q)) (dropped : Nat) :
    log.events.get log.get.toNat = event ∧
      Keeps { log with get := log.next log.get, dropped } capacity q := by
  have hc := h.circular
  have hplaces : ({ log with get := log.next log.get, dropped } : EventLog).places =
      log.places.popped := congrArg (Header.mk log.put · log.slots) (next_eq hc.get_lt)
  have hn : log.places.count ≠ 0 := by
    rw [h.count_eq]
    exact Nat.succ_ne_zero _
  obtain ⟨hhead, htail⟩ := List.cons.inj ((Header.along_popped hc hn).symm.trans h.kept_eq)
  refine ⟨hhead, ?_, ?_, ?_⟩
  · rw [hplaces]
    exact hc.popped
  · rw [hplaces]
    exact h.capacity_eq
  · rw [kept, hplaces]
    exact htail

/-- An event written at put, which moves on, is the youngest. -/
theorem append (h : Keeps log capacity q) (hr : q.length < capacity) (event : Event) :
    Keeps { log with events := log.events.set log.put.toNat event, put := log.next log.put }
      capacity (q ++ [event]) := by
  have hc := h.circular
  have hplaces : ({ log with
      events := log.events.set log.put.toNat event, put := log.next log.put } : EventLog).places =
      log.places.pushed := congrArg (Header.mk · log.get log.slots) (next_eq hc.put_lt)
  have hn : log.places.count ≠ log.places.capacity := by
    rw [h.count_eq, h.capacity_eq]
    exact Nat.ne_of_lt hr
  refine ⟨?_, ?_, ?_⟩
  · rw [hplaces]
    exact hc.pushed
  · rw [hplaces]
    exact h.capacity_eq
  · have happend := Header.along_pushed (g := (log.events.set log.put.toNat event).get) hc hn
      fun i hi => (log.events.get_set _ event i).trans (if_neg hi)
    rw [log.events.get_set, if_pos (show log.places.put.toNat = log.put.toNat from rfl)] at happend
    rw [kept, hplaces]
    exact happend.trans (congrArg (· ++ [event]) h.kept_eq)

theorem take_nil (h : Keeps log capacity []) : log.take = (none, log) := by
  rw [take, if_pos (h.isEmpty_iff.mpr rfl)]

theorem take_cons (h : Keeps log capacity (event :: q)) :
    ∃ log', log.take = (some event, log') ∧ Keeps log' capacity q ∧ log'.dropped = log.dropped := by
  obtain ⟨hhead, hrest⟩ := h.advance log.dropped
  refine ⟨_, ?_, hrest, rfl⟩
  rw [take, if_neg (mt h.isEmpty_iff.mp (List.cons_ne_nil _ _)), hhead]

/-- Room is made by giving up the oldest event, which is counted as far as 64 bits reach. -/
theorem makeRoom_of_full (h : Keeps log capacity q) (hf : q.length = capacity) :
    Keeps log.makeRoom capacity q.tail ∧
      log.makeRoom.dropped = min (log.dropped + 1) (UInt64.size - 1) := by
  obtain ⟨oldest, rest, rfl⟩ := List.exists_cons_of_length_pos (hf ▸ h.capacity_pos)
  rw [makeRoom, if_pos (h.isFull_iff.mpr hf)]
  exact ⟨(h.advance _).2, rfl⟩

theorem makeRoom_of_room (h : Keeps log capacity q) (hr : q.length < capacity) :
    log.makeRoom = log := by
  rw [makeRoom, if_neg (mt h.isFull_iff.mp (Nat.ne_of_lt hr))]

/-- Recording appends the event, after the oldest one was given up if there was no room. -/
theorem record (h : Keeps log capacity q) (now : Int64) (kind : EventKind) (data : UInt32) :
    ∃ event log', log.record now kind data = (event, log') ∧ event.entry = (kind, data) ∧
      Keeps log' capacity ((if q.length = capacity then q.tail else q) ++ [event]) ∧
      log'.dropped =
        if q.length = capacity then min (log.dropped + 1) (UInt64.size - 1) else log.dropped := by
  by_cases hf : q.length = capacity
  · obtain ⟨hroom, hdropped⟩ := h.makeRoom_of_full hf
    have hlt : q.tail.length < capacity := by
      rw [List.length_tail, hf]
      exact Nat.sub_one_lt_of_lt h.capacity_pos
    rw [if_pos hf, if_pos hf]
    exact ⟨_, _, rfl, rfl, hroom.append hlt _, hdropped⟩
  · have hr := Nat.lt_of_le_of_ne h.length_le hf
    rw [if_neg hf, if_neg hf]
    refine ⟨_, _, rfl, rfl, ?_, ?_⟩
    · rw [h.makeRoom_of_room hr]
      exact h.append hr _
    · rw [h.makeRoom_of_room hr]

end Keeps

theorem keeps_init {capacity : UInt32} {now : Int64} (h : init capacity now = .ok log) :
    log.Keeps capacity.toNat [] ∧ log.dropped = 0 := by
  rw [init] at h
  split at h
  next => cases h
  next hn =>
    cases h
    rw [not_or] at hn
    have hpos : capacity.toNat ≠ 0 := fun he => hn.1 (UInt32.toNat.inj he)
    have hlt : capacity.toNat ≠ 0xFFFFFFFF := fun he => hn.2 (UInt32.toNat.inj he)
    have hslots : (capacity + 1).toNat = capacity.toNat + 1 := by
      have := capacity.toNat_lt
      rw [UInt32.toNat_add]
      change (capacity.toNat + 1) % 2 ^ 32 = _
      omega
    refine ⟨⟨⟨?_, ?_, ?_⟩, ?_, ?_⟩, rfl⟩
    · rw [places, slots, hslots]
      omega
    · rw [places, slots, hslots]
      exact Nat.succ_pos _
    · rw [places, slots, hslots]
      exact Nat.succ_pos _
    · rw [places, Header.capacity, slots, hslots, Nat.add_sub_cancel]
    · refine Header.along_of_count_zero ?_
      change (0 + (capacity + 1).toNat - 0) % (capacity + 1).toNat = 0
      rw [Nat.zero_add, Nat.sub_zero, Nat.mod_self]

inductive Operation where
  | record (now : Int64) (kind : EventKind) (data : UInt32)
  | take

def Operation.entry? : Operation → Option (EventKind × UInt32)
  | record _ kind data => some (kind, data)
  | take => none

/-- A log, the events that were recorded in it, and the answers to taking one out. -/
structure History where
  log : EventLog
  recorded : List Event := []
  taken : List (Option Event) := []

namespace History

def perform (h : History) : Operation → History
  | .record now kind data =>
    let (event, log) := h.log.record now kind data
    { h with log, recorded := h.recorded ++ [event] }
  | .take =>
    let (event, log) := h.log.take
    { h with log, taken := h.taken ++ [event] }

def run (h : History) (ops : List Operation) : History := ops.foldl perform h

end History

/-- Draining a log is taking events out of it, one after the other. -/
theorem History.run_drainUpTo (fuel : Nat) (h : History) :
    ∃ ops taken, (⟨(h.log.drainUpTo fuel).2, h.recorded, taken⟩ : History) = h.run ops := by
  induction fuel generalizing h with
  | zero => exact ⟨[], h.taken, rfl⟩
  | succ fuel ih =>
    rcases htake : h.log.take with ⟨event, log⟩
    have hstep : h.perform .take = { h with log, taken := h.taken ++ [event] } := by
      rw [perform, htake]
    simp only [drainUpTo, htake]
    cases event with
    | none => exact ⟨[.take], _, hstep.symm⟩
    | some event =>
      obtain ⟨ops, taken, hrest⟩ := ih (h.perform .take)
      rw [hstep] at hrest
      refine ⟨.take :: ops, taken, hrest.trans ?_⟩
      rw [← hstep]
      rfl

/-- A list of entries that forgets the oldest once it is longer than it may be, how many it forgot,
and the answers to taking one out. -/
structure Backlog where
  capacity : Nat
  entries : List (EventKind × UInt32) := []
  evicted : Nat := 0
  taken : List (Option (EventKind × UInt32)) := []

namespace Backlog

def perform (b : Backlog) : Operation → Backlog
  | .record _ kind data =>
    let entries := b.entries ++ [(kind, data)]
    if b.capacity < entries.length then
      { b with entries := entries.tail, evicted := b.evicted + 1 }
    else { b with entries }
  | .take => { b with entries := b.entries.tail, taken := b.taken ++ [b.entries.head?] }

def run (b : Backlog) (ops : List Operation) : Backlog := ops.foldl perform b

end Backlog

/-- What became of an event that is kept no more. -/
inductive Fate where
  | taken
  | evicted
  deriving DecidableEq

/-- What became of every event that was recorded: each one met its fate in its turn, or is kept. -/
structure History.Accounts (h : History) (gone : List (Event × Fate)) (evicted : Nat) : Prop where
  recorded : h.recorded = gone.map Prod.fst ++ h.log.kept
  taken : h.taken.filterMap id = (gone.filter (·.2 = .taken)).map Prod.fst
  evicted : evicted = (gone.filter (·.2 = .evicted)).length

namespace History.Accounts

variable {h : History} {log' : EventLog} {gone : List (Event × Fate)} {evicted : Nat}
  {event oldest : Event} {q : List Event}

/-- A recorded event is kept. -/
theorem record (hg : h.Accounts gone evicted) (hk : log'.kept = h.log.kept ++ [event]) :
    Accounts { h with log := log', recorded := h.recorded ++ [event] } gone evicted where
  recorded := by rw [hg.recorded, hk, List.append_assoc]
  taken := hg.taken
  evicted := hg.evicted

/-- A recorded event is kept in the place of the oldest, which is evicted. -/
theorem evict (hg : h.Accounts gone evicted) (hq : h.log.kept = oldest :: q)
    (hk : log'.kept = q ++ [event]) :
    Accounts { h with log := log', recorded := h.recorded ++ [event] }
      (gone ++ [(oldest, .evicted)]) (evicted + 1) where
  recorded := by
    rw [hg.recorded, hk, hq]
    simp
  taken := by
    rw [hg.taken, List.filter_append, List.map_append]
    exact (List.append_nil _).symm
  evicted := by
    rw [hg.evicted, List.filter_append, List.length_append]
    rfl

/-- Nothing was there to be taken. -/
theorem takeNone (hg : h.Accounts gone evicted) :
    Accounts { h with taken := h.taken ++ [none] } gone evicted where
  recorded := hg.recorded
  taken := by
    rw [List.filterMap_append, hg.taken]
    exact List.append_nil _
  evicted := hg.evicted

/-- The oldest event is taken. -/
theorem takeSome (hg : h.Accounts gone evicted) (hq : h.log.kept = event :: log'.kept) :
    Accounts { h with log := log', taken := h.taken ++ [some event] } (gone ++ [(event, .taken)])
      evicted where
  recorded := by
    rw [hg.recorded, hq]
    simp
  taken := by
    rw [List.filterMap_append, hg.taken, List.filter_append, List.map_append]
    rfl
  evicted := by
    rw [hg.evicted, List.filter_append]
    exact congrArg List.length (List.append_nil _).symm

end History.Accounts

structure History.Mirrors (h : History) (b : Backlog) : Prop where
  keeps : h.log.Keeps b.capacity h.log.kept
  entries : h.log.kept.map Event.entry = b.entries
  taken : h.taken.map (Option.map Event.entry) = b.taken
  dropped : h.log.dropped = min b.evicted (UInt64.size - 1)
  accounts : ∃ gone, h.Accounts gone b.evicted

namespace History.Mirrors

variable {h : History} {b : Backlog}

theorem length_eq (hm : h.Mirrors b) : b.entries.length = h.log.kept.length := by
  rw [← hm.entries, List.length_map]

/-- Once the count cannot grow, it stays at its largest value. -/
theorem dropped_succ (hm : h.Mirrors b) :
    min (h.log.dropped + 1) (UInt64.size - 1) = min (b.evicted + 1) (UInt64.size - 1) := by
  rw [hm.dropped]
  omega

theorem record_of_full (hm : h.Mirrors b) (hf : h.log.kept.length = b.capacity) (now : Int64)
    (kind : EventKind) (data : UInt32) :
    (h.perform (.record now kind data)).Mirrors (b.perform (.record now kind data)) := by
  obtain ⟨event, log', hrec, hentry, hkeeps, hdropped⟩ := hm.keeps.record now kind data
  obtain ⟨gone, hg⟩ := hm.accounts
  rw [if_pos hf] at hkeeps hdropped
  have hkept : log'.kept = h.log.kept.tail ++ [event] := hkeeps.kept_eq
  have hlong : b.capacity < (b.entries ++ [(kind, data)]).length := by
    rw [List.length_append, hm.length_eq, hf]
    exact Nat.lt_succ_self _
  obtain ⟨oldest, rest, hq⟩ := List.exists_cons_of_length_pos (hf ▸ hm.keeps.capacity_pos)
  rw [perform, hrec, Backlog.perform]
  dsimp only
  rw [if_pos hlong]
  refine ⟨?_, ?_, hm.taken, hdropped.trans hm.dropped_succ, _, hg.evict hq ?_⟩
  · rw [hkept]
    exact hkeeps
  · rw [hkept, hq, ← hm.entries, hq]
    simp [hentry]
  · rw [hkept, hq, List.tail_cons]

theorem record_of_room (hm : h.Mirrors b) (hf : h.log.kept.length ≠ b.capacity) (now : Int64)
    (kind : EventKind) (data : UInt32) :
    (h.perform (.record now kind data)).Mirrors (b.perform (.record now kind data)) := by
  obtain ⟨event, log', hrec, hentry, hkeeps, hdropped⟩ := hm.keeps.record now kind data
  obtain ⟨gone, hg⟩ := hm.accounts
  rw [if_neg hf] at hkeeps hdropped
  have hkept : log'.kept = h.log.kept ++ [event] := hkeeps.kept_eq
  have hlong : ¬ b.capacity < (b.entries ++ [(kind, data)]).length := by
    have hle := hm.keeps.length_le
    rw [List.length_append, hm.length_eq, List.length_singleton]
    omega
  rw [perform, hrec, Backlog.perform]
  dsimp only
  rw [if_neg hlong]
  refine ⟨?_, ?_, hm.taken, hdropped.trans hm.dropped, gone, hg.record hkept⟩
  · rw [hkept]
    exact hkeeps
  · rw [hkept, List.map_append, hm.entries, List.map_singleton, hentry]

theorem take (hm : h.Mirrors b) : (h.perform .take).Mirrors (b.perform .take) := by
  obtain ⟨gone, hg⟩ := hm.accounts
  have hkeeps := hm.keeps
  have hentries := hm.entries
  cases hq : h.log.kept with
  | nil =>
    rw [hq] at hkeeps hentries
    have hempty : b.entries = [] := hentries.symm
    rw [perform, hkeeps.take_nil, Backlog.perform, hempty]
    refine ⟨hm.keeps, hm.entries.trans hempty, ?_, hm.dropped, gone, hg.takeNone⟩
    simp [hm.taken]
  | cons event q =>
    rw [hq] at hkeeps hentries
    obtain ⟨log', htake, hkeeps', hdropped⟩ := hkeeps.take_cons
    have hkept : log'.kept = q := hkeeps'.kept_eq
    rw [perform, htake, Backlog.perform, ← hentries]
    refine ⟨?_, congrArg (List.map Event.entry) hkept, ?_, hdropped.trans hm.dropped, _,
      hg.takeSome ?_⟩
    · rw [hkept]
      exact hkeeps'
    · simp [hm.taken]
    · rw [hq, hkept]

theorem perform (hm : h.Mirrors b) (op : Operation) : (h.perform op).Mirrors (b.perform op) := by
  cases op with
  | record now kind data =>
    by_cases hf : h.log.kept.length = b.capacity
    · exact hm.record_of_full hf now kind data
    · exact hm.record_of_room hf now kind data
  | take => exact hm.take

theorem run (hm : h.Mirrors b) (ops : List Operation) : (h.run ops).Mirrors (b.run ops) := by
  induction ops generalizing h b with
  | nil => exact hm
  | cons op ops ih => exact ih (hm.perform op)

end History.Mirrors

theorem mirrors_init {capacity : UInt32} {now : Int64} (h : init capacity now = .ok log) :
    ({ log } : History).Mirrors { capacity := capacity.toNat } := by
  obtain ⟨hk, hd⟩ := keeps_init h
  have hkept : log.kept = [] := hk.kept_eq
  refine ⟨?_, ?_, rfl, ?_, [], ?_, rfl, rfl⟩
  · rw [hkept]
    exact hk
  · rw [hkept]
    rfl
  · rw [hd]
    rfl
  · rw [hkept]
    rfl

/-- What a run records are the entries of its requests to record. -/
theorem History.recorded_run (h : History) (ops : List Operation) :
    (h.run ops).recorded.map Event.entry =
      h.recorded.map Event.entry ++ ops.filterMap Operation.entry? := by
  induction ops generalizing h with
  | nil => exact (List.append_nil _).symm
  | cons op ops ih =>
    rw [run, List.foldl_cons]
    refine (ih _).trans ?_
    cases op with
    | record now kind data =>
      rw [perform, EventLog.record]
      simp [Operation.entry?, Event.entry]
    | take => rfl

theorem Backlog.capacity_run (b : Backlog) (ops : List Operation) :
    (b.run ops).capacity = b.capacity := by
  induction ops generalizing b with
  | nil => rfl
  | cons op ops ih =>
    refine (ih _).trans ?_
    cases op with
    | record now kind data =>
      rw [perform]
      split <;> rfl
    | take => rfl

/-- A log of up to half of what a word counts is a list that drops its oldest entry: it keeps the
entries of the list, reports its length and answers as it does, and counts what was evicted, not
what was taken out. Whatever was recorded was taken once, in its turn, or evicted, or is kept. -/
theorem log_is_backlog {capacity : UInt32} {now : Int64} (hi : init capacity now = .ok log)
    (hb : capacity.toNat + 1 ≤ 2 ^ 31) (ops : List Operation) :
    let h := ({ log } : History).run ops
    let b := ({ capacity := capacity.toNat } : Backlog).run ops
    h.log.kept.map Event.entry = b.entries ∧
    h.taken.map (Option.map Event.entry) = b.taken ∧
    h.log.length.toNat = b.entries.length ∧
    (h.log.isEmpty = true ↔ b.entries = []) ∧
    (h.log.isFull = true ↔ b.entries.length = capacity.toNat) ∧
    h.log.dropped = min b.evicted (UInt64.size - 1) ∧
    h.recorded.map Event.entry = ops.filterMap Operation.entry? ∧
    ∃ gone, h.Accounts gone b.evicted := by
  intro h b
  have hm : h.Mirrors b := (mirrors_init hi).run ops
  have hcap : b.capacity = capacity.toNat := Backlog.capacity_run _ ops
  refine ⟨hm.entries, hm.taken, ?_, ?_, ?_, hm.dropped, History.recorded_run _ ops, hm.accounts⟩
  · rw [hm.length_eq]
    exact hm.keeps.toNat_length (hcap ▸ hb)
  · rw [hm.keeps.isEmpty_iff, ← hm.entries, List.map_eq_nil_iff]
  · rw [hm.keeps.isFull_iff, hm.length_eq, hcap]

/-- A log for two events gives one out, and forgets the next when the fourth is recorded. -/
theorem log_is_backlog_evicting :
    let log : EventLog := { capacity := 2, get := 0, put := 0, origin := 0, dropped := 0 }
    let ops : List Operation := [.record 1 .createScheduler 0, .take, .record 2 .createDomain 7,
      .record 3 .domainSwitch 7, .record 4 .removeDomain 7]
    let h := ({ log } : History).run ops
    init 2 0 = .ok log ∧ (2 : UInt32).toNat + 1 ≤ 2 ^ 31 ∧ h.log.dropped = 1 ∧
      h.log.kept.map Event.entry = [(.domainSwitch, 7), (.removeDomain, 7)] ∧
      h.taken.map (Option.map Event.entry) = [some (.createScheduler, 0)] := by
  intro log ops h
  have hi : init 2 0 = .ok log := rfl
  have hb : (2 : UInt32).toNat + 1 ≤ 2 ^ 31 := by decide
  obtain ⟨hkept, htaken, -, -, -, hdropped, -, -⟩ := log_is_backlog hi hb ops
  exact ⟨hi, hb, hdropped.trans (by decide), hkept.trans (by decide), htaken.trans (by decide)⟩

end EventLog

end AcceleratorScheduler
