import AcceleratorScheduler.Proofs.Arbiter.Shielding
import AcceleratorScheduler.Proofs.Ring.Views

/-! No view is longer than the region behind it. A buffer says how many bytes its region has, a
mapping is granted up to that number, and bytes that are written do not become more or fewer; main
statement: `views_agree_with_slices`. -/
namespace AcceleratorScheduler

open ByteStore (Mediated storesAny uptoStore)

namespace SharedMemory

variable {m : SharedMemory} {v : MappedView} {region : RegionId}

theorem size_bytes_setBytes (m : SharedMemory) {other : RegionId} {bytes : Memory}
    (hs : bytes.size = (m.bytes other).size) (region : RegionId) :
    ((m.setBytes other bytes).bytes region).size = (m.bytes region).size := by
  by_cases he : region = other
  · subst he
    rw [← Memory.length_toList, m.toList_setBytes hs, Memory.length_toList, hs]
  · rw [m.bytes_setBytes_of_ne he]

/-- No region becomes longer or shorter through a view. -/
theorem size_bytes_through {operation : EStateM Refusal Window Unit} (hop : Mediated operation)
    (region : RegionId) :
    ((answer (through v operation) m).2.bytes region).size = (m.bytes region).size := by
  have hkept : (answer operation (m.window v)).2.bytes.map Memory.size =
      (m.region? v.view).map fun r => (m.bytes r).size := by
    refine hop.keeps (P := fun w => w.bytes.map Memory.size = _) (fun w offset bytes hw => ?_) ?_
    · rw [← hw]
      change (w.bytes.map _).map _ = _
      rw [Option.map_map]
      congr 1
      funext b
      exact b.size_overwrite offset bytes
    · rw [window, Option.map_map]
      rfl
  rw [answer_through, refit]
  split
  next r bytes hr hb =>
    rw [hr, hb] at hkept
    exact m.size_bytes_setBytes (Option.some.inj hkept) region
  next => rfl

end SharedMemory

namespace Arbiter

variable {a a' : Arbiter} {grants : List Grant} {region : RegionId} {op : Operation}
  {new : Option Grant}

/-- Bytes are reached as storage only, by loading and storing. -/
def Operation.Mediated : Operation → Prop
  | access _ operation => ByteStore.Mediated operation
  | schedule _ operation => ByteStore.Mediated operation
  | _ => True

theorem Outcome.size_bytes (ho : Outcome a op new a') (hop : op.Mediated)
    (hr : region < a.memory.regions.size) :
    (a'.memory.bytes region).size = (a.memory.bytes region).size := by
  cases hw : op.writes with
  | false => rw [(ho.rearranged hw).bytes hr]
  | true =>
    cases ho with
    | unchanged => rfl
    | accessed v operation =>
      rw [onView_snd]
      exact SharedMemory.size_bytes_through hop region
    | scheduled role operation =>
      cases hb : a.queues.get role with
      | none => rw [onBuffer_of_none role operation hb]
      | some b =>
        rw [onBuffer_of_some role operation hb]
        refine a.memory.size_bytes_setBytes ?_ region
        exact hop.keeps (P := fun m => m.size = (a.memory.bytes b.region).size)
          (fun m offset bytes hm => (m.size_overwrite offset bytes).trans hm) rfl
    | lent hmaps => cases op <;> cases hmaps <;> cases hw
    | _ => cases hw

/-- Buffers have as many bytes as they say, and no view reaches further than its region does. -/
structure Covered (a : Arbiter) (grants : List Grant) : Prop where
  buffers {role : QueueRole} {b : SharedBuffer} : a.queues.get role = some b →
    (a.memory.bytes b.region).size = b.size
  views : ∀ g ∈ grants, ∀ region, a.memory.region? g.view.view = some region →
    region < a.memory.regions.size ∧ g.view.length ≤ (a.memory.bytes region).size

theorem Covered.perform (h : a.Covered grants) (hb : a.Balanced grants) (hop : op.Mediated) :
    (op.perform a).2.Covered (grants ++ (op.perform a).1.toList) := by
  have ho := op.outcome a
  generalize (op.perform a).1 = new, (op.perform a).2 = a' at ho ⊢
  refine ⟨fun {role b'} hget => ?_, fun g hg region hr => ?_⟩
  · cases ho.tenure role with
    | vacated hnone => cases hnone.symm.trans hget
    | kept hbefore hbehind hsame hsize =>
      cases hget.symm.trans hbehind
      rw [hsame, hsize, ho.size_bytes hop (hb.apart.inside hbefore), h.buffers hbefore]
    | founded _ _ hbehind _ _ hsize =>
      cases hget.symm.trans hbehind
      exact hsize
  · rcases List.mem_append.mp hg with hold | hnew
    · obtain ⟨hin, hlen⟩ := h.views g hold region (ho.region? (hb.known g hold) hr)
      exact ⟨Nat.lt_of_lt_of_le hin ho.size_regions, by rwa [ho.size_bytes hop hin]⟩
    · have hgrown := ho.size_regions
      have hbytes {region : RegionId} (hin : region < a.memory.regions.size) :=
        ho.size_bytes hop hin
      -- A new view is one that was mapped, and the buffer granted it no more than it has.
      cases ho with
      | lent _ hl =>
        cases List.mem_singleton.mp hnew
        obtain ⟨-, -, ⟨b, b', hget, hatt, -⟩, hv⟩ := id hl
        obtain ⟨c, -, hc, -, -, -, hreach, -⟩ := hl.reaches
        cases hget.symm.trans hc
        obtain rfl := Option.some.inj (hreach.symm.trans hr)
        obtain ⟨-, -, hle, -⟩ := SharedBuffer.attach_eq_ok hatt
        have hin := hb.apart.inside hget
        refine ⟨Nat.lt_of_lt_of_le hin hgrown, ?_⟩
        rw [hbytes hin, h.buffers hget, hv]
        exact hle
      | _ => cases hnew

namespace Ledger

variable {l : Ledger}

theorem covered_perform (hb : l.arbiter.Balanced l.grants) (h : l.arbiter.Covered l.grants)
    (hop : op.Mediated) : (l.perform op).arbiter.Covered (l.perform op).grants := by
  rw [perform]
  split
  · exact h.perform hb hop
  · exact h

theorem covered_run {ops : List Operation} (hb : l.arbiter.Balanced l.grants)
    (h : l.arbiter.Covered l.grants) (hops : ∀ op ∈ ops, op.Mediated) :
    (l.run ops).arbiter.Covered (l.run ops).grants := by
  induction ops generalizing l with
  | nil => exact h
  | cons op ops ih =>
    obtain ⟨hop, hops⟩ := List.forall_mem_cons.mp hops
    exact ih (carries_perform hb op).1.balanced (covered_perform hb h hop) hops

theorem covered_empty : ({} : Arbiter).Covered [] where
  buffers {role _} h := by cases role <;> cases h
  views _ h := by cases h

end Ledger

end Arbiter

open Arbiter SharedMemory in
/-- A use of a view, beside the same use of plain memory with the bytes that the view shows. A view
for writing gives the same answer after the same accesses; its region begins with what becomes of
the plain memory, goes on as before, and no other region changes. A view for reading changes nothing
and gives the same answer too, but is denied at the first store, if there is one. A view whose link
is cut fails, with one of three refusals and whatever bytes there are. And no view that an arbiter
grants ever reaches further than its region does. -/
theorem views_agree_with_slices (use : Use) :
    (use.procedure.run = (use.on : EStateM Refusal Memory Use.Reply) ∧
      use.procedure.run = (use.on : EStateM Refusal Window Use.Reply)) ∧
    (∀ m v region slice, Shows m v region slice → v.writable = true → ∃ region',
      answer (through v use.on) m = ((answer use.on slice).1, m.setBytes region region') ∧
      ((m.setBytes region region').bytes region).toList =
        (answer use.on slice).2.toList ++ (m.bytes region).toList.drop v.length ∧
      use.procedure.accesses (m.window v) = use.procedure.accesses slice) ∧
    (∀ m v region slice, Shows m v region slice → v.writable = false →
      answer (through v use.on) m = (if storesAny (use.procedure.accesses slice) then
        .error .permissionDenied else (answer use.on slice).1, m) ∧
      use.procedure.accesses (m.window v) = uptoStore (use.procedure.accesses slice)) ∧
    (∀ v, ∃ e ∈ [Refusal.invalidArgument, .permissionDenied, .fault], ∀ m : SharedMemory,
      m.region? v.view = none → answer (through v use.on) m = (.error e, m)) ∧
    ∀ ops : List Operation, (∀ op ∈ ops, op.Mediated) → ∀ g ∈ (Ledger.run {} ops).grants,
      ∀ region, (Ledger.run {} ops).arbiter.memory.region? g.view.view = some region →
        region < (Ledger.run {} ops).arbiter.memory.regions.size ∧
          g.view.length ≤ ((Ledger.run {} ops).arbiter.memory.bytes region).size := by
  refine ⟨⟨use.run_procedure, use.run_procedure⟩, fun m v region slice h hw => ?_,
    fun m v region slice h hw => ?_, fun v => ?_, fun ops hops => ?_⟩
  · obtain ⟨region', hbytes, hsize, hanswer, hacc⟩ := answer_through_writable h hw use.procedure
    rw [use.run_procedure, use.run_procedure] at hanswer
    rw [use.run_procedure] at hbytes
    exact ⟨region', hanswer, (m.toList_setBytes hsize).trans hbytes, hacc⟩
  · have hread := answer_through_readOnly h hw use.procedure
    rwa [use.run_procedure, use.run_procedure] at hread
  · have hcut := answer_through_cut v use.asks
    rwa [use.run_procedure] at hcut
  · exact (Ledger.covered_run Ledger.balanced_empty Ledger.covered_empty hops).views

namespace Arbiter.Ledger

private def lentFront : List Operation :=
  [.addUser 1 true, .reserve 1, .openQueue .process 1 .send 200, .mapRange .send 1 0 90 false]

/-- The front is a block with room for two slots, and that is what is laid out through the view. -/
theorem views_agree_with_slices_front :
    (∀ op ∈ lentFront, op.Mediated) ∧
    ∃ g ∈ (run {} lentFront).grants, ∃ region slice,
      (run {} lentFront).arbiter.memory.Shows g.view region slice ∧ g.view.writable = true ∧
      (answer (SharedMemory.through g.view (Use.on (.ring .format)))
        (run {} lentFront).arbiter.memory).1 = .ok (.ring (.formatted 2)) ∧
      ∃ e, answer (SharedMemory.through g.view (Use.on (.ring .format))) {} = (.error e, {}) := by
  have hops : ∀ op ∈ lentFront, op.Mediated := by
    simp only [lentFront, List.forall_mem_cons]
    exact ⟨trivial, trivial, trivial, trivial, nofun⟩
  have hgrants : (run {} lentFront).grants = [⟨⟨0, .send, 1, 90, true⟩, 1⟩] := by decide +kernel
  have hreach : (run {} lentFront).arbiter.memory.region? 0 = some 0 := by decide +kernel
  have hg : ⟨⟨0, .send, 1, 90, true⟩, 1⟩ ∈ (run {} lentFront).grants := by
    rw [hgrants]
    exact List.mem_cons_self
  obtain ⟨-, hwritable, -, hcut, hcovered⟩ := views_agree_with_slices (.ring .format)
  obtain ⟨-, hlen⟩ := hcovered lentFront hops _ hg 0 hreach
  have hshows : (run {} lentFront).arbiter.memory.Shows ⟨0, .send, 1, 90, true⟩ 0 _ :=
    ⟨hreach, hlen, Memory.toList_front hlen⟩
  obtain ⟨region', hanswer, -⟩ := hwritable _ _ _ _ hshows rfl
  obtain ⟨e, -, hdead⟩ := hcut ⟨0, .send, 1, 90, true⟩
  have hformat (m : Memory) (hm : m.size = 90) :
      (answer (Use.on (.ring .format)) m).1 = .ok (.ring (.formatted 2)) := by
    have hx : Ring.format m = .ok (.ofNat (Ring.room m.size)) (Ring.formatted m) :=
      Ring.format_granted (by rw [hm]; decide) (by rw [hm]; decide)
    rw [hm] at hx
    have hring : Ring.Operation.format.on m = .ok (.formatted 2) (Ring.formatted m) := bind_ok hx
    have huse : Use.on (.ring .format) m = .ok (.ring (.formatted 2)) (Ring.formatted m) :=
      bind_ok hring
    rw [answer_of_ok huse]
  refine ⟨hops, _, hg, 0, _, hshows, rfl, ?_, e, hdead {} rfl⟩
  rw [hanswer]
  exact hformat _ rfl

end Arbiter.Ledger

end AcceleratorScheduler
