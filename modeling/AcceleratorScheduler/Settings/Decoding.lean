import AcceleratorScheduler.Document
import AcceleratorScheduler.Settings.Basic

/-! Settings read from a document. Every field may be left out, unknown ones are refused, and values
are whole numbers within the width of their field. -/
namespace AcceleratorScheduler

namespace Settings

/-- A whole number that fits into so many bits. -/
def fitting (bits : Nat) : Document → Option Nat
  | .integer n => if 0 ≤ n ∧ n.toNat < Nat.pow 2 bits then some n.toNat else none
  | _ => none

structure Field where
  name : String
  bits : Nat
  put : Nat → Settings → Settings

def fields : List Field :=
  [⟨"log_capacity", 32, fun n s => { s with logCapacity := .ofNat n }⟩,
    ⟨"init_timeout_ms", 64, fun n s => { s with initTimeoutMs := .ofNat n }⟩,
    ⟨"idle_timeout_ms", 64, fun n s => { s with idleTimeoutMs := .ofNat n }⟩,
    ⟨"request_queue_bytes", 64, fun n s => { s with requestQueueBytes := .ofNat n }⟩,
    ⟨"response_queue_bytes", 64, fun n s => { s with responseQueueBytes := .ofNat n }⟩,
    ⟨"event_queue_bytes", 64, fun n s => { s with eventQueueBytes := .ofNat n }⟩]

def Field.set (field : Field) (document : Document) (s : Settings) : Option Settings :=
  (fitting field.bits document).map fun n => field.put n s

def field? (name : String) : Option Field := fields.find? (·.name == name)

/-- Reads settings over a base that supplies what is left out. A table names its fields; a list
gives them in order, and may go on past them only if spare items are allowed. -/
def ofDocument (base : Settings) (spare : Bool) : Document → Option Settings
  | .table entries => entries.foldlM (fun s (name, d) => do (← field? name).set d s) base
  | .list items =>
    if spare || items.length ≤ fields.length then
      (items.zip fields).foldlM (fun s (d, field) => field.set d s) base
    else none
  | _ => none

end Settings

structure DaemonSettings where
  sched : Settings := {}
  /-- Which messages go to the process log. -/
  logFilter : String := "info"
  deriving DecidableEq, Repr

namespace DaemonSettings

def ofDocument : Document → Option DaemonSettings
  | .table entries => entries.foldlM (fun (s : DaemonSettings) (name, d) =>
      match name, d with
      | "sched", d => (Settings.ofDocument {} true d).map fun sched => { s with sched }
      | "log_filter", .text logFilter => some { s with logFilter }
      | _, _ => none) {}
  | _ => none

end DaemonSettings

end AcceleratorScheduler
