import AcceleratorScheduler.Daemon
import AcceleratorScheduler.FileTree
import AcceleratorScheduler.Toml.Document

/-! The command line: its arguments, the settings file, and what a process prints and exits with. -/
namespace AcceleratorScheduler

inductive CommandError where
  | unreadable (path : String)
  | unparsable (path : String)
  | refused (refusal : Refusal)
  | usage (message : String)
  deriving DecidableEq, Repr

def CommandError.message : CommandError → String
  | unreadable path => s!"failed to read config file {path}"
  | unparsable path => s!"failed to parse config file {path}"
  | refused refusal => "scheduler request failed: " ++ refusal.message
  | usage message => message

namespace DaemonSettings

def ofText (text : String) : Option DaemonSettings := (Toml.parse text).bind ofDocument

def load (path : String) (reading : FileReading)
    (decode : String → Option DaemonSettings := ofText) : Except CommandError DaemonSettings :=
  match reading with
  | .missing => .ok {}
  | .unreadable => .error (.unreadable path)
  | .contents bytes =>
    match String.fromUTF8? bytes with
    | none => .error (.unreadable path)
    | some text =>
      match decode text with
      | none => .error (.unparsable path)
      | some settings =>
        match settings.sched.validate with
        | .ok () => .ok settings
        | .error refusal => .error (.refused refusal)

end DaemonSettings

/-- What a process finds on its machine: a decoder of settings, blocks of memory, and what a run of
the scheduler needs besides them. -/
structure Machine where
  decode : String → Option DaemonSettings := DaemonSettings.ofText
  allocator : Allocator := .process
  provision : Demo.Provision := {}

namespace CommandLine

def help : String :=
  "accelschedd drives the accelerator domain scheduler. "
    ++ "Usage: accelschedd [--help] [--config <path>] [--demo]"

def defaultPath : String := "accelschedd.toml"

structure Options where
  help : Bool := false
  demo : Bool := false
  config : Option String := none
  deriving DecidableEq, Repr

/-- Reads arguments into options. Whatever follows a request for a path is that path; of several
paths the last counts. -/
def parseInto : (args : List String) → Options → Except CommandError Options
  | [], o => .ok o
  | "--help" :: rest, o => parseInto rest { o with help := true }
  | "-h" :: rest, o => parseInto rest { o with help := true }
  | "--demo" :: rest, o => parseInto rest { o with demo := true }
  | "--config" :: path :: rest, o => parseInto rest { o with config := some path }
  | ["--config"], _ => .error (.usage "--config requires a path")
  | other :: _, _ => .error (.usage ("unknown argument: " ++ other))

def parseArgs (args : List String) : Except CommandError Options := parseInto args {}

def Options.path (o : Options) : String := o.config.getD defaultPath

abbrev Files := String → FileReading

/-- The file that a command reads. Wrong usage is found, and help is given, without one. -/
def file? (args : List String) : Option String :=
  match parseArgs args with
  | .error _ => none
  | .ok o => if o.help then none else some o.path

def Options.load (o : Options) (files : Files) (machine : Machine := {}) :
    Except CommandError DaemonSettings :=
  DaemonSettings.load o.path (files o.path) machine.decode

def demo (settings : DaemonSettings) (pid : Nat) (machine : Machine := {}) (clock : Int64 := 0) :
    Except CommandError String :=
  match Demo.run settings.sched machine.allocator pid machine.provision clock with
  | .ok lines => .ok (String.join (lines.map (· ++ "\n")))
  | .error refusal => .error (.refused refusal)

def ready (s : Settings) : String :=
  s!"accelschedd ready: log_capacity={s.logCapacity} init_timeout={s.initTimeoutMs}ms "
    ++ s!"queues={s.requestQueueBytes}/{s.responseQueueBytes}/{s.eventQueueBytes} bytes"

def execute (files : Files) (pid : Nat) (args : List String) (machine : Machine := {})
    (clock : Int64 := 0) : Except CommandError String := do
  let o ← parseArgs args
  if o.help then return help
  let settings ← o.load files machine
  if o.demo then demo settings pid machine clock else return ready settings.sched

/-- How a process goes: it ends, or it serves for ever. Standard error is told without the lines of
the process log. -/
inductive Course where
  | exit (code : UInt32) (stdout stderr : String)
  | serve (daemon : Daemon)

def complaint (e : CommandError) : String := s!"accelschedd: {e.message}\n"

/-- What the process does: bad usage ends it with code 2, any other failure with code 1. Failures
after the settings were read are told to the process log. -/
def run (files : Files) (pid : Nat) (args : List String) (machine : Machine := {})
    (clock : Int64 := 0) : Course :=
  match parseArgs args with
  | .error e => .exit 2 "" (complaint e ++ help ++ "\n")
  | .ok o =>
    if o.help then .exit 0 (help ++ "\n") ""
    else match o.load files machine with
      | .error e => .exit 1 "" (complaint e)
      | .ok settings =>
        if o.demo then
          match demo settings pid machine clock with
          | .ok out => .exit 0 out ""
          | .error _ => .exit 1 "" ""
        else match Daemon.launch settings machine.provision clock with
          | .ok daemon => .serve daemon
          | .error _ => .exit 1 "" ""

end CommandLine

end AcceleratorScheduler
