import AcceleratorScheduler.Proofs.Arbiter.Regions
import AcceleratorScheduler.Proofs.Shared.Mediation

/-! The bytes of the event queue are shared for reading only. A queue that was opened keeps its
region to itself, no view on that region is for writing, and so nobody but the scheduler changes a
byte of it; main statements: `Shielded.perform`, `Shielded.bytes_perform`. -/
namespace AcceleratorScheduler

open ByteStore (Mediated)

namespace SharedMemory

variable {m : SharedMemory} {v : MappedView} {region : RegionId}

theorem bytes_setBytes_of_ne (m : SharedMemory) {other : RegionId} (h : region ≠ other)
    (bytes : Memory) : (m.setBytes other bytes).bytes region = m.bytes region := by
  simp only [SharedMemory.bytes, setBytes, Array.getD_eq_getD_getElem?,
    Array.getElem?_setIfInBounds]
  rw [if_neg (Ne.symm h)]

/-- Everything stays that is put back as it was. -/
theorem setBytes_bytes (m : SharedMemory) (region : RegionId) :
    m.setBytes region (m.bytes region) = m := by
  have hr : m.regions.setIfInBounds region (m.bytes region) = m.regions := by
    apply Array.ext_getElem?
    intro i
    rw [Array.getElem?_setIfInBounds]
    split
    next he =>
      subst he
      split
      next hs => simp [SharedMemory.bytes, hs]
      next hs => rw [Array.getElem?_eq_none (Nat.le_of_not_lt hs)]
    next => rfl
  rw [setBytes, hr]

theorem refit_window (m : SharedMemory) (v : MappedView) : m.refit v (m.window v) = m := by
  rw [refit, window]
  cases m.region? v.view with
  | none => rfl
  | some region => exact m.setBytes_bytes region

/-- A view for reading lets nothing be stored. -/
theorem objection_window (hw : v.writable = false) (offset length : Nat) :
    (ByteStore.objection (m.window v) offset length).isSome = true := by
  change (Window.objection (m.window v) offset length).isSome = true
  rw [Window.objection, window, hw]
  rfl

/-- A region changes through views for writing only. -/
theorem bytes_through {operation : EStateM Refusal Window Unit} (hop : Mediated operation)
    (hr : m.region? v.view = some region → v.writable = false) :
    (answer (through v operation) m).2.bytes region = m.bytes region := by
  rw [answer_through]
  by_cases h : m.region? v.view = some region
  · rw [hop.unchanged (objection_window (hr h)), refit_window]
  · rw [refit]
    split
    next other _ hother _ =>
      refine m.bytes_setBytes_of_ne ?_ _
      rintro rfl
      exact h hother
    next => rfl

end SharedMemory

namespace Arbiter

variable {a a' : Arbiter} {grants : List Grant} {region : RegionId} {op : Operation}
  {b b' : SharedBuffer}

/-- The operation goes through views as they are meant to be used, and leaves the event queue to the
scheduler. -/
def Operation.Proper : Operation → Prop
  | access _ operation => Mediated operation
  | schedule role _ => role ≠ .event
  | _ => True

/-- Only the event queue is on the region, and no valid view on it is for writing. -/
structure Shielded (a : Arbiter) (grants : List Grant) (region : RegionId) : Prop where
  inside : region < a.memory.regions.size
  owned {role : QueueRole} {b : SharedBuffer} : a.queues.get role = some b → b.region = region →
    role = .event ∧ b.mask.isReadOnly = true
  reading : ∀ g ∈ grants, a.memory.region? g.view.view = some region → g.view.writable = false

namespace Shielded

/-- Whatever is done: a buffer that comes gets a region of its own, and a view that comes is on the
buffer of the event queue, which lends for reading only. -/
theorem perform (h : a.Shielded grants region) (hb : a.Balanced grants) (op : Operation) :
    (op.perform a).2.Shielded (grants ++ (op.perform a).1.toList) region := by
  have ho := op.outcome a
  generalize (op.perform a).1 = new, (op.perform a).2 = a' at ho ⊢
  refine ⟨Nat.lt_of_lt_of_le h.inside ho.size_regions, fun {role b'} hget hr => ?_,
    fun g hg hr => ?_⟩
  · cases ho.tenure role with
    | vacated hnone => cases hnone.symm.trans hget
    | kept hbefore hbehind hsame _ hmask =>
      cases hget.symm.trans hbehind
      rw [hmask]
      exact h.owned hbefore (hsame.symm.trans hr)
    | founded _ _ hbehind hnew =>
      cases hget.symm.trans hbehind
      exact absurd h.inside (by rw [← hr, hnew]; exact Nat.lt_irrefl _)
  · rcases List.mem_append.mp hg with hold | hnew
    · exact h.reading g hold (ho.region? (hb.known g hold) hr)
    · cases ho with
      | lent _ hl =>
        cases List.mem_singleton.mp hnew
        obtain ⟨b, _, hget, -, -, -, hreach, hwrite⟩ := hl.reaches
        obtain ⟨-, hmask⟩ := h.owned hget (Option.some.inj (hreach.symm.trans hr))
        refine Bool.eq_false_iff.mpr fun hw => ?_
        cases hmask.symm.trans (hwrite hw)
      | _ => cases hnew

/-- What is done properly changes no byte of it. -/
theorem bytes_perform (h : a.Shielded grants region) (hop : op.Proper)
    (hv : ∀ v, op.view? = some v → ∃ g ∈ grants, g.view = v) :
    (op.perform a).2.memory.bytes region = a.memory.bytes region := by
  cases hw : op.writes with
  | false => exact ((op.outcome a).rearranged hw).bytes h.inside
  | true =>
    cases op with
    | access v operation =>
      obtain ⟨g, hg, rfl⟩ := hv v rfl
      rw [Operation.perform, onView_snd]
      exact SharedMemory.bytes_through hop (h.reading g hg)
    | schedule role operation =>
      rw [Operation.perform]
      cases hb : a.queues.get role with
      | none => rw [onBuffer_of_none role operation hb]
      | some b =>
        rw [onBuffer_of_some role operation hb]
        refine a.memory.bytes_setBytes_of_ne ?_ _
        rintro rfl
        exact hop (h.owned hb rfl).1
    | _ => cases hw

/-- The event queue comes to a region that nobody has a view on. -/
theorem of_founded (hb : a.Balanced grants) (ha : a.Anchored grants)
    (hv : ∀ v, op.view? = some v → ∃ g ∈ grants, g.view = v) (hs : op.supplies .event = false)
    (hnone : a.queues.get .event = none) (hsome : (op.perform a).2.queues.get .event = some b') :
    (op.perform a).2.Shielded (grants ++ (op.perform a).1.toList) b'.region ∧
      ∃ h, Ring.Queued ((op.perform a).2.memory.bytes b'.region) h [] ∧
        h.slots.toNat = Ring.room b'.size := by
  have ho := op.outcome a
  have hafter := (hb.perform op hv).balanced
  generalize (op.perform a).1 = new, (op.perform a).2 = a' at ho hafter hsome ⊢
  cases ho.tenure .event with
  | vacated hgone => cases hgone.symm.trans hsome
  | kept hbefore => cases hnone.symm.trans hbefore
  | founded _ _ hbehind hnew hf =>
    cases hsome.symm.trans hbehind
    obtain ⟨hmask, hempty⟩ := hf hs
    refine ⟨⟨hafter.apart.inside hsome, fun {role b} hget hr => ?_, fun g hg hr => ?_⟩, hempty⟩
    · obtain rfl := hafter.apart.apart hget hsome hr
      cases hget.symm.trans hsome
      exact ⟨rfl, by rw [hmask]; rfl⟩
    · have habsent {role : QueueRole} {b : SharedBuffer} (hget : a.queues.get role = some b) :
          b.region ≠ b'.region := by
        rw [hnew]
        exact Nat.ne_of_lt (hb.apart.inside hget)
      rcases List.mem_append.mp hg with hold | hlent
      · obtain ⟨b, hget, hregion⟩ := ha g hold _ (ho.region? (hb.known g hold) hr)
        exact absurd hregion (habsent hget)
      · cases ho with
        | lent _ hl =>
          cases List.mem_singleton.mp hlent
          obtain ⟨b, _, hget, -, -, -, hreach, -⟩ := hl.reaches
          exact absurd (Option.some.inj (hreach.symm.trans hr)) (habsent hget)
        | _ => cases hlent

end Shielded

namespace Ledger

variable {l : Ledger}

theorem anchored_perform (hb : l.arbiter.Balanced l.grants) (h : l.arbiter.Anchored l.grants)
    (op : Operation) : (l.perform op).arbiter.Anchored (l.perform op).grants := by
  cases hv : op.view?.all fun v => l.grants.any (·.view == v) with
  | true =>
    obtain ⟨hview, hp⟩ := perform_of_granted hv
    rw [hp]
    exact h.perform hb hview
  | false => rwa [perform_of_refused hv]

theorem shielded_perform (hb : l.arbiter.Balanced l.grants)
    (h : l.arbiter.Shielded l.grants region) (op : Operation) :
    (l.perform op).arbiter.Shielded (l.perform op).grants region := by
  rw [perform]
  split
  · exact h.perform hb op
  · exact h

theorem bytes_perform (h : l.arbiter.Shielded l.grants region) (hop : op.Proper) :
    (l.perform op).arbiter.memory.bytes region = l.arbiter.memory.bytes region := by
  cases hv : op.view?.all fun v => l.grants.any (·.view == v) with
  | true =>
    obtain ⟨hview, hp⟩ := perform_of_granted hv
    rw [hp]
    exact h.bytes_perform hop hview
  | false => rw [perform_of_refused hv]

theorem anchored_run (hb : l.arbiter.Balanced l.grants) (h : l.arbiter.Anchored l.grants)
    (ops : List Operation) : (l.run ops).arbiter.Anchored (l.run ops).grants := by
  induction ops generalizing l with
  | nil => exact h
  | cons op ops ih => exact ih (carries_perform hb op).1.balanced (anchored_perform hb h op)

theorem shielded_run (hb : l.arbiter.Balanced l.grants) (h : l.arbiter.Shielded l.grants region)
    (ops : List Operation) : (l.run ops).arbiter.Shielded (l.run ops).grants region := by
  induction ops generalizing l with
  | nil => exact h
  | cons op ops ih => exact ih (carries_perform hb op).1.balanced (shielded_perform hb h op)

theorem bytes_run (hb : l.arbiter.Balanced l.grants) (h : l.arbiter.Shielded l.grants region)
    {ops : List Operation} (hops : ∀ op ∈ ops, op.Proper) :
    (l.run ops).arbiter.memory.bytes region = l.arbiter.memory.bytes region := by
  induction ops generalizing l with
  | nil => rfl
  | cons op ops ih =>
    have hrest := ih (carries_perform hb op).1.balanced (shielded_perform hb h op)
      fun op hm => hops op (List.mem_cons_of_mem _ hm)
    exact hrest.trans (bytes_perform h (hops op List.mem_cons_self))

theorem tenure_perform (l : Ledger) (op : Operation) (role : QueueRole) :
    Tenure op role l.arbiter (l.perform op).arbiter := by
  rw [perform]
  split
  · exact (op.outcome l.arbiter).tenure role
  · exact .of_get rfl

end Ledger

end Arbiter

end AcceleratorScheduler
