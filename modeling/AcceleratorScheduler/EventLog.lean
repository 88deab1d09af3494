import AcceleratorScheduler.Cells
import AcceleratorScheduler.Refusal
import AcceleratorScheduler.Slot.Event

/-! A log of the most recent events, whose places are used in turn. A full log forgets its oldest
event, so recording never fails, and stored times never decrease. -/
namespace AcceleratorScheduler

structure EventLog where
  /-- Events kept; there is one place more. -/
  capacity : UInt32
  get : UInt32
  put : UInt32
  /-- Clock reading at set-up, from which stored times count. -/
  origin : Int64
  /-- Events forgotten because the log was full, up to the largest 64-bit number. -/
  dropped : Nat
  events : Cells Event.blank := .untouched
  deriving Repr

namespace EventLog

/-- A log without events, if memory has room for its places. -/
def init (capacity : UInt32) (now : Int64) (room : Bool := true) : Except Refusal EventLog :=
  if capacity = 0 ∨ capacity = 0xFFFFFFFF then .error .invalidArgument
  else if room then .ok { capacity, get := 0, put := 0, origin := now, dropped := 0 }
  else .error .outOfMemory

def slots (log : EventLog) : UInt32 := log.capacity + 1

def next (log : EventLog) (index : UInt32) : UInt32 :=
  if index + 1 ≥ log.slots then 0 else index + 1

/-- Number of events kept, in wrapping arithmetic. -/
def length (log : EventLog) : UInt32 := (log.put + log.slots - log.get) % log.slots

def isEmpty (log : EventLog) : Bool := log.get == log.put

def isFull (log : EventLog) : Bool := log.next log.put == log.get

def newest (log : EventLog) : Int64 :=
  if log.isEmpty then 0
  else (log.events.get ((log.put + log.slots - 1) % log.slots).toNat).timestamp

def makeRoom (log : EventLog) : EventLog :=
  if log.isFull then
    { log with get := log.next log.get, dropped := min (log.dropped + 1) (UInt64.size - 1) }
  else log

/-- Appends an event. Its time is the clock's, but never earlier than the youngest event kept. -/
def record (log : EventLog) (now : Int64) (kind : EventKind) (data : UInt32) : Event × EventLog :=
  let log := log.makeRoom
  let event : Event := { kind, data, timestamp := max (now - log.origin) log.newest }
  (event,
    { log with
      events := log.events.set log.put.toNat event
      put := log.next log.put })

def take (log : EventLog) : Option Event × EventLog :=
  if log.isEmpty then (none, log)
  else (some (log.events.get log.get.toNat), { log with get := log.next log.get })

/-- Takes events out, at most as many as the fuel says. -/
def drainUpTo : (fuel : Nat) → EventLog → List Event × EventLog
  | 0, log => ([], log)
  | fuel + 1, log =>
    match log.take with
    | (none, log) => ([], log)
    | (some event, log) =>
      let (rest, log) := drainUpTo fuel log
      (event :: rest, log)

/-- Takes every event out, oldest first. There are fewer of them than places. -/
def drain (log : EventLog) : List Event × EventLog := drainUpTo log.slots.toNat log

end EventLog

end AcceleratorScheduler
