import AcceleratorScheduler.CommandLine

/-! The program: reads the settings file, prints, and forwards the event log while it serves. -/
namespace AcceleratorScheduler

def readFromDisk (path : String) : IO FileReading := do
  try
    return .contents (← IO.FS.readBinFile path)
  catch
    | .noFileOrDirectory .. => return .missing
    | _ => return .unreadable

/-- Forwards the event log until the process is ended from outside. -/
partial def serveForever (daemon : Daemon) : IO UInt32 := do
  match daemon.forward with
  | .error _ => return 1
  | .ok (lines, daemon) =>
    lines.forM IO.eprintln
    IO.sleep (.ofNat (min daemon.pause (UInt32.size - 1)))
    serveForever daemon

end AcceleratorScheduler

open AcceleratorScheduler in
def main (args : List String) : IO UInt32 := do
  let reading ← match CommandLine.file? args with
    | none => pure .missing
    | some path => readFromDisk path
  match CommandLine.run (fun _ => reading) 1 args with
  | .exit code stdout stderr =>
    IO.print stdout
    IO.eprint stderr
    return code
  | .serve daemon => serveForever daemon
