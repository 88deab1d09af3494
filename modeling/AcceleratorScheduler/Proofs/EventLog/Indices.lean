import AcceleratorScheduler.Proofs.EventLog.Backlog
import AcceleratorScheduler.Settings.Basic

/-! The log's arithmetic on its indices, which is done in words. Whatever happens, no place is used
that the log does not have. How many events it keeps and which of them is the youngest is computed
from the sum of put and the number of places, and that sum may be more than a word holds: for every
capacity below 2^31 all is right in every state, for every larger one there are states in which it
is not; main statement: `index_sums_fit_iff`. -/
namespace AcceleratorScheduler.EventLog

open AcceleratorScheduler.Ring (Header)

def youngest (log : EventLog) : UInt32 := (log.put + log.slots - 1) % log.slots

variable {log : EventLog} {capacity : Nat} {q : List Event}

theorem newest_eq (he : log.isEmpty = false) :
    log.newest = (log.events.get log.youngest.toNat).timestamp := by
  rw [newest, he]
  rfl

section Youngest

variable (hp : log.put.toNat < log.slots.toNat)

include hp

theorem toNat_youngest :
    log.youngest.toNat = (log.put.toNat + log.slots.toNat - 1) % 2 ^ 32 % log.slots.toNat := by
  rw [youngest, UInt32.toNat_mod, UInt32.toNat_sub, UInt32.toNat_add]
  congr 1
  change (2 ^ 32 - 1 + (log.put.toNat + log.slots.toNat) % 2 ^ 32) % 2 ^ 32 = _
  omega

theorem youngest_lt : log.youngest < log.slots := by
  rw [UInt32.lt_iff_toNat_lt, toNat_youngest hp]
  exact Nat.mod_lt _ (Nat.zero_lt_of_lt hp)

theorem toNat_youngest_of_fits (hsum : log.put.toNat + log.slots.toNat ≤ 2 ^ 32) :
    log.youngest.toNat = (log.put.toNat + log.slots.toNat - 1) % log.slots.toNat := by
  have hfits : (log.put.toNat + log.slots.toNat - 1) % 2 ^ 32 =
      log.put.toNat + log.slots.toNat - 1 := Nat.mod_eq_of_lt (by omega)
  rw [toNat_youngest hp, hfits]

theorem toNat_youngest_of_overflow (ho : 2 ^ 32 < log.put.toNat + log.slots.toNat) :
    log.youngest.toNat + 2 ^ 32 + 1 = log.put.toNat + log.slots.toNat := by
  have hword := log.slots.toNat_lt
  have hwrapped : (log.put.toNat + log.slots.toNat - 1) % 2 ^ 32 =
      log.put.toNat + log.slots.toNat - 1 - 2 ^ 32 := by omega
  rw [toNat_youngest hp, hwrapped, Nat.mod_eq_of_lt (by omega)]
  omega

/-- The log looks in the place before put just as long as the sum, less one, fits into a word. -/
theorem next_youngest_iff :
    log.next log.youngest = log.put ↔ log.put.toNat + log.slots.toNat ≤ 2 ^ 32 := by
  have hword := log.slots.toNat_lt
  have hlt := UInt32.lt_iff_toNat_lt.mp (youngest_lt hp)
  have hnext : (log.next log.youngest).toNat = (log.youngest.toNat + 1) % log.slots.toNat := by
    rw [next_eq hlt]
    exact Header.toNat_next hlt
  rw [← UInt32.toNat_inj, hnext]
  constructor
  · intro he
    refine Nat.le_of_not_lt fun ho => ?_
    have hshort := toNat_youngest_of_overflow hp ho
    rw [Nat.mod_eq_of_lt (by omega)] at he
    omega
  · intro hsum
    have hback : log.put.toNat + log.slots.toNat - 1 + 1 = log.put.toNat + log.slots.toNat := by
      omega
    rw [toNat_youngest_of_fits hp hsum, Nat.mod_add_mod, hback, Nat.add_mod_right,
      Nat.mod_eq_of_lt hp]

end Youngest

structure InPlace (log : EventLog) : Prop where
  put_lt : log.put < log.slots
  get_lt : log.get < log.slots
  youngest_lt : log.youngest < log.slots

/-- The sum of put and the places fits into a word, and what is computed from it is right. -/
structure Exact (log : EventLog) : Prop where
  sum_fits : log.put.toNat + log.slots.toNat < 2 ^ 32
  length_eq : log.length.toNat = log.kept.length
  next_youngest : log.next log.youngest = log.put
  newest_eq (hk : log.kept ≠ []) : log.newest = (log.kept.getLast hk).timestamp

namespace Keeps

theorem slots_eq (h : Keeps log capacity q) : log.slots.toNat = capacity + 1 := by
  have hl : 2 ≤ log.slots.toNat := h.circular.two_le
  have hc : log.slots.toNat - 1 = capacity := h.capacity_eq
  omega

theorem put_lt (h : Keeps log capacity q) : log.put.toNat < log.slots.toNat := h.circular.put_lt

theorem inPlace (h : Keeps log capacity q) : InPlace log where
  put_lt := UInt32.lt_iff_toNat_lt.mpr h.circular.put_lt
  get_lt := UInt32.lt_iff_toNat_lt.mpr h.circular.get_lt
  youngest_lt := youngest_lt h.put_lt

theorem toNat_length_iff (h : Keeps log capacity q) : log.length.toNat = q.length ↔
    log.put.toNat + log.slots.toNat < 2 ^ 32 + log.get.toNat := by
  have hlength : log.places.length = log.length := rfl
  have hiff := Header.toNat_length_iff h.circular
  rw [h.count_eq, hlength] at hiff
  exact hiff

theorem length_of_overflow (h : Keeps log capacity q)
    (ho : 2 ^ 32 + log.get.toNat ≤ log.put.toNat + log.slots.toNat) :
    log.length.toNat + 2 ^ 32 = q.length + log.slots.toNat := by
  have hlength : log.places.length = log.length := rfl
  have hshort := Header.length_of_overflow h.circular ho
  rw [h.count_eq, hlength] at hshort
  exact hshort

theorem newest_eq_getLast (h : Keeps log capacity q) (hq : q ≠ [])
    (hsum : log.put.toNat + log.slots.toNat ≤ 2 ^ 32) :
    log.newest = (q.getLast hq).timestamp := by
  have he : log.isEmpty = false := Bool.eq_false_iff.mpr (mt h.isEmpty_iff.mp hq)
  obtain rfl := h.kept_eq
  rw [newest_eq he, toNat_youngest_of_fits h.put_lt hsum]
  exact congrArg Event.timestamp (Header.getLast_along h.circular hq).symm

theorem exact (h : Keeps log capacity log.kept)
    (hsum : log.put.toNat + log.slots.toNat < 2 ^ 32) : Exact log where
  sum_fits := hsum
  length_eq := h.toNat_length_iff.mpr (Nat.lt_of_lt_of_le hsum (Nat.le_add_right _ _))
  next_youngest := (next_youngest_iff h.put_lt).mpr (Nat.le_of_lt hsum)
  newest_eq hk := h.newest_eq_getLast hk (Nat.le_of_lt hsum)

/-- With room left, recording moves put on and leaves get where it is. -/
theorem record_of_room (h : Keeps log capacity q) (hr : q.length < capacity) (now : Int64)
    (kind : EventKind) (data : UInt32) :
    ∃ event, (log.record now kind data).2.Keeps capacity (q ++ [event]) ∧
      (log.record now kind data).2.get = log.get := by
  rw [EventLog.record, h.makeRoom_of_room hr]
  exact ⟨_, h.append hr _, rfl⟩

/-- While get is at the first place, put is behind as many places as there are events. -/
theorem put_eq_length (h : Keeps log capacity q) (hg : log.get = 0) :
    log.put.toNat = q.length := by
  have hzero : log.places.get.toNat = 0 := congrArg UInt32.toNat hg
  have hcount := (Header.count_cases h.circular).1 (hzero ▸ Nat.zero_le _)
  rw [← h.count_eq, hcount, hzero]
  rfl

end Keeps

def after (log : EventLog) (ops : List Operation) : EventLog := (({ log } : History).run ops).log

theorem keeps_after {capacity : UInt32} {now : Int64} (hi : init capacity now = .ok log)
    (ops : List Operation) : (log.after ops).Keeps capacity.toNat (log.after ops).kept := by
  have hk := ((mirrors_init hi).run ops).keeps
  rwa [Backlog.capacity_run] at hk

def recording (entries : List (Int64 × EventKind × UInt32)) : List Operation :=
  entries.map fun (now, kind, data) => .record now kind data

/-- Until the log is full get stays at the first place. The induction is on what is to be recorded,
with the log as far as it was recorded. -/
theorem keeps_recording (entries : List (Int64 × EventKind × UInt32)) {h : History}
    (hk : h.log.Keeps capacity q) (hg : h.log.get = 0)
    (hfit : q.length + entries.length ≤ capacity) :
    ∃ q', q'.length = q.length + entries.length ∧
      (h.run (recording entries)).log.Keeps capacity q' ∧
      (h.run (recording entries)).log.get = 0 := by
  induction entries generalizing h q with
  | nil => exact ⟨q, rfl, hk, hg⟩
  | cons entry entries ih =>
    obtain ⟨now, kind, data⟩ := entry
    rw [List.length_cons] at hfit ⊢
    obtain ⟨event, hk', hg'⟩ := hk.record_of_room (by omega) now kind data
    have hgrown : (q ++ [event]).length = q.length + 1 := List.length_append
    obtain ⟨q', hq', hrun⟩ :=
      ih (h := h.perform (.record now kind data)) hk' (hg'.trans hg) (by omega)
    exact ⟨q', by omega, hrun⟩

theorem get_init {capacity : UInt32} {now : Int64} (hi : init capacity now = .ok log) :
    log.get = 0 := by
  rw [init] at hi
  split at hi <;> cases hi
  rfl

/-- A log that is told so many events that the sum is too large reports fewer than it keeps. -/
theorem length_after_recording {capacity : UInt32} {now : Int64} (hi : init capacity now = .ok log)
    {entries : List (Int64 × EventKind × UInt32)} (hfit : entries.length ≤ capacity.toNat)
    (ho : 2 ^ 32 ≤ entries.length + capacity.toNat + 1) :
    (log.after (recording entries)).kept.length = entries.length ∧
      (log.after (recording entries)).length.toNat + 2 ^ 32 =
        entries.length + capacity.toNat + 1 := by
  obtain ⟨q, hq, hk, hg⟩ := keeps_recording (h := { log }) entries (keeps_init hi).1
    (get_init hi) (by rwa [List.length_nil, Nat.zero_add])
  change (log.after (recording entries)).Keeps capacity.toNat q at hk
  change (log.after (recording entries)).get = 0 at hg
  rw [List.length_nil, Nat.zero_add] at hq
  have hput := hk.put_eq_length hg
  have hslots := hk.slots_eq
  have hget : (log.after (recording entries)).get.toNat = 0 := congrArg UInt32.toNat hg
  have hlength := hk.length_of_overflow (by omega)
  exact ⟨hk.kept_eq ▸ hq, by omega⟩

/-- Whatever is done with a log, its indices stay within its places. The length is right just as
long as the sum of put and the places, less get, fits into a word, and the youngest event is found
just as long as that sum, less one, does. So all is right in every state of a log if its capacity is
below 2^31. A larger one that was told so many events that the sum does not fit reports what is left
of it. -/
theorem index_sums_fit_iff {capacity : UInt32} {now : Int64} (hi : init capacity now = .ok log) :
    (∀ ops, (log.after ops).slots.toNat = capacity.toNat + 1 ∧ (log.after ops).InPlace ∧
      ((log.after ops).length.toNat = (log.after ops).kept.length ↔
        (log.after ops).put.toNat + (log.after ops).slots.toNat <
          2 ^ 32 + (log.after ops).get.toNat) ∧
      ((log.after ops).next (log.after ops).youngest = (log.after ops).put ↔
        (log.after ops).put.toNat + (log.after ops).slots.toNat ≤ 2 ^ 32)) ∧
    ((∀ ops, (log.after ops).Exact) ↔ capacity.toNat < 2 ^ 31) ∧
    ∀ entries, entries.length ≤ capacity.toNat → 2 ^ 32 ≤ entries.length + capacity.toNat + 1 →
      (log.after (recording entries)).kept.length = entries.length ∧
      (log.after (recording entries)).length.toNat =
        entries.length + capacity.toNat + 1 - 2 ^ 32 := by
  refine ⟨fun ops => ?_, ⟨fun hexact => ?_, fun hhalf ops => ?_⟩, fun entries hfit ho => ?_⟩
  · have hk := keeps_after hi ops
    exact ⟨hk.slots_eq, hk.inPlace, hk.toNat_length_iff, next_youngest_iff hk.put_lt⟩
  · refine Nat.lt_of_not_le fun hover => ?_
    have hword := capacity.toNat_lt
    let entries : List (Int64 × EventKind × UInt32) := List.replicate capacity.toNat (0, .noEvent, 0)
    have hcount : entries.length = capacity.toNat := List.length_replicate
    obtain ⟨hkept, hlength⟩ := length_after_recording hi (Nat.le_of_eq hcount) (by omega)
    have hright := (hexact (recording entries)).length_eq
    have hslots := (keeps_after hi []).slots_eq
    have hplaces := (log.after []).slots.toNat_lt
    omega
  · have hk := keeps_after hi ops
    have hput := hk.put_lt
    have hslots := hk.slots_eq
    exact hk.exact (by omega)
  · obtain ⟨hkept, hlength⟩ := length_after_recording hi hfit ho
    exact ⟨hkept, Nat.eq_sub_of_add_eq hlength⟩

/-- The largest log there is keeps its first event and reports none. -/
theorem index_sums_fit_iff_largest :
    let log : EventLog := { capacity := 0xFFFFFFFE, get := 0, put := 0, origin := 0, dropped := 0 }
    init 0xFFFFFFFE 0 = .ok log ∧
      (log.after (recording [(0, .domainSwitch, 7)])).kept.length = 1 ∧
      (log.after (recording [(0, .domainSwitch, 7)])).length.toNat = 0 := by
  intro log
  have hi : init 0xFFFFFFFE 0 = .ok log := rfl
  obtain ⟨-, -, hfull⟩ := index_sums_fit_iff hi
  exact ⟨hi, hfull [(0, .domainSwitch, 7)] (by decide) (by decide)⟩

/-- Its settings are valid. After the first event put and the places add up to more than a word
holds, and the length is not the number of events kept. After two events it looks for the younger
one in the place of the other, so that a clock read too late moves the stored time back. -/
theorem first_event_unreported :
    let log : EventLog := { capacity := 0xFFFFFFFE, get := 0, put := 0, origin := 0, dropped := 0 }
    let one := log.after [.record 0 .domainSwitch 7]
    let three := log.after
      [.record 1 .domainSwitch 7, .record 9 .domainSwitch 8, .record 5 .domainSwitch 9]
    ({ logCapacity := 0xFFFFFFFE } : Settings).validate = .ok () ∧ init 0xFFFFFFFE 0 = .ok log ∧
      one.put.toNat + one.slots.toNat = 2 ^ 32 ∧
      one.kept.map Event.entry = [(.domainSwitch, 7)] ∧ one.length = 0 ∧
      three.kept.map Event.timestamp = [1, 9, 5] := by
  intro log one three
  exact ⟨rfl, rfl, by decide +kernel, by decide +kernel, by decide +kernel, by decide +kernel⟩

end AcceleratorScheduler.EventLog
