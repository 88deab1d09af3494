import Mathlib.Data.Multiset.AddSub
import AcceleratorScheduler.Hardware.Basic

/-! Which sub-domains the hardware has handed out and not yet got back, as the record of calls tells
it. The hardware may hand the same handle out twice, so they are counted as often as they are
out. -/
namespace AcceleratorScheduler

def HardwareCall.settle (out : Multiset SubDomain) : HardwareCall → Multiset SubDomain
  | allocate _ _ _ (.ok sub) => sub ::ₘ out
  | release sub => out.erase sub
  | _ => out

def outstanding (calls : List HardwareCall) : Multiset SubDomain :=
  calls.foldl HardwareCall.settle 0

/-- Whatever is given back was out at the time: nothing is given back twice, or without having been
handed out. -/
def Matched (calls : List HardwareCall) : Prop :=
  ∀ before sub after, calls = before ++ .release sub :: after → sub ∈ outstanding before

/-- All that was given back was out, and this is what still is. -/
structure Leaves (calls : List HardwareCall) (out : Multiset SubDomain) : Prop where
  matched : Matched calls
  outstanding_eq : outstanding calls = out

variable {calls : List HardwareCall} {call : HardwareCall} {out : Multiset SubDomain}

theorem outstanding_concat (calls : List HardwareCall) (call : HardwareCall) :
    outstanding (calls ++ [call]) = call.settle (outstanding calls) := by
  rw [outstanding, List.foldl_append]
  rfl

theorem Matched.concat (h : Matched calls)
    (hc : ∀ sub, call = .release sub → sub ∈ outstanding calls) : Matched (calls ++ [call]) := by
  intro before sub after he
  rcases List.eq_nil_or_concat after with rfl | ⟨after, last, rfl⟩
  · obtain ⟨rfl, hlast⟩ := List.append_inj' he rfl
    exact hc sub (List.singleton_inj.mp hlast)
  · rw [List.concat_eq_append, ← List.cons_append, ← List.append_assoc] at he
    exact h before sub after (List.append_inj' he rfl).1

namespace Leaves

theorem nil : Leaves [] 0 := ⟨fun _ _ _ he => absurd he (by simp), rfl⟩

/-- A call that gives nothing back. -/
theorem concat (h : Leaves calls out) (hc : ∀ sub, call ≠ .release sub) :
    Leaves (calls ++ [call]) (call.settle out) :=
  ⟨h.matched.concat fun sub he => absurd he (hc sub),
    by rw [outstanding_concat, h.outstanding_eq]⟩

theorem release {sub : SubDomain} (h : Leaves calls (sub ::ₘ out)) :
    Leaves (calls ++ [.release sub]) out := by
  refine ⟨h.matched.concat fun sub' he => ?_, ?_⟩
  · cases he
    rw [h.outstanding_eq]
    exact Multiset.mem_cons_self _ _
  · rw [outstanding_concat, h.outstanding_eq]
    exact Multiset.erase_cons_head _ _

/-- Giving several back leaves the others. -/
theorem releases {subs : List SubDomain} (h : Leaves calls (subs + out)) :
    Leaves (calls ++ subs.map .release) out := by
  induction subs generalizing calls with
  | nil => simpa using h
  | cons sub subs ih =>
    rw [← Multiset.cons_coe, Multiset.cons_add] at h
    simpa using ih h.release

end Leaves

end AcceleratorScheduler
