import AcceleratorScheduler.Hardware.Basic

/-! Which domain is resident. Only an accepted `apply` changes that, and the record of calls shows
it: the resident domain is the one of the last accepted call. -/
namespace AcceleratorScheduler

namespace Hardware

variable {H : Type} [Hardware H]

/-- A later state of the hardware, with no domain applied in between. -/
inductive Quiet (hw : H) : H → Prop
  | refl : Quiet hw hw
  | allocate {hw' : H} (runlist : Nat) (id : DomainId) (name : String) :
      Quiet hw hw' → Quiet hw (Hardware.allocate hw' runlist id name).2
  | release {hw' : H} (sub : SubDomain) : Quiet hw hw' → Quiet hw (Hardware.release hw' sub)
  | stamp {hw' : H} : Quiet hw hw' → Quiet hw (Hardware.stamp hw').2
  | uptime {hw' : H} : Quiet hw hw' → Quiet hw (Hardware.uptime hw').2
  | startWorker {hw' : H} : Quiet hw hw' → Quiet hw (Hardware.startWorker hw').2

/-- A way to tell from the state of the hardware which domain is resident. -/
structure Tells (resident : H → Option DomainId → Prop) : Prop where
  accepted {hw hw' : H} {d : Domain} {before : Option DomainId} : resident hw before →
    Hardware.apply hw d = (.ok (), hw') → resident hw' (some d.id)
  refused {hw hw' : H} {d : Domain} {e : Refusal} {before : Option DomainId} :
    resident hw before → Hardware.apply hw d = (.error e, hw') → resident hw' before
  quiet {hw hw' : H} {before : Option DomainId} : resident hw before → Quiet hw hw' →
    resident hw' before

end Hardware

def HardwareCall.accepted? : HardwareCall → Option DomainId
  | apply d (.ok _) => some d.id
  | _ => none

def lastAccepted (calls : List HardwareCall) : Option DomainId :=
  (calls.filterMap HardwareCall.accepted?).getLast?

theorem lastAccepted_append_accepted (calls : List HardwareCall) (d : Domain) :
    lastAccepted (calls ++ [.apply d (.ok ())]) = some d.id := by
  rw [lastAccepted, List.filterMap_append]
  exact List.getLast?_concat

theorem lastAccepted_append_quiet (calls : List HardwareCall) {new : List HardwareCall}
    (h : ∀ call ∈ new, call.accepted? = none) :
    lastAccepted (calls ++ new) = lastAccepted calls := by
  rw [lastAccepted, List.filterMap_append, List.filterMap_eq_nil_iff.mpr h, List.append_nil]
  rfl

namespace Recorded

variable {H : Type} [Hardware H] {r r' : Recorded H} {d : Domain}

theorem calls_apply {result : Except Refusal Unit} (h : Hardware.apply r d = (result, r')) :
    r'.calls = r.calls ++ [.apply d result] := by
  cases h
  rfl

theorem calls_quiet (h : Hardware.Quiet r r') :
    ∃ new, r'.calls = r.calls ++ new ∧ ∀ call ∈ new, call.accepted? = none := by
  have hcall {r' : Recorded H} (call : HardwareCall) (hc : call.accepted? = none) :
      (∃ new, r'.calls = r.calls ++ new ∧ ∀ call ∈ new, call.accepted? = none) →
        ∃ new, r'.calls ++ [call] = r.calls ++ new ∧ ∀ call ∈ new, call.accepted? = none := by
    rintro ⟨new, hn, hq⟩
    refine ⟨new ++ [call], by rw [hn, List.append_assoc], fun call' hm => ?_⟩
    rcases List.mem_append.mp hm with hm | hm
    · exact hq call' hm
    · cases List.mem_singleton.mp hm
      exact hc
  induction h with
  | refl => exact ⟨[], by simp, by simp⟩
  | allocate runlist id name _ ih => exact hcall _ rfl ih
  | release sub _ ih => exact hcall _ rfl ih
  | stamp _ ih => exact ih
  | uptime _ ih => exact ih
  | startWorker _ ih => exact hcall _ rfl ih

/-- The record of calls tells the resident domain. -/
theorem tells_lastAccepted :
    Hardware.Tells fun (r : Recorded H) id => lastAccepted r.calls = id where
  accepted _ ha := by rw [calls_apply ha, lastAccepted_append_accepted]
  refused hr ha := by
    rw [calls_apply ha, lastAccepted_append_quiet _ (by simp [HardwareCall.accepted?]), hr]
  quiet hr hq := by
    obtain ⟨new, hn, hnew⟩ := calls_quiet hq
    rw [hn, lastAccepted_append_quiet _ hnew, hr]

end Recorded

end AcceleratorScheduler
