import AcceleratorScheduler.Proofs.Arbiter.Shielding
import AcceleratorScheduler.Proofs.Ring.Procedures
import AcceleratorScheduler.Proofs.Shared.Viewing

/-! Everything that can be done through a view, beside the same on plain memory that holds the bytes
the view shows. What happens to the view happens to its region, and to no other. -/
namespace AcceleratorScheduler

open ByteStore (Access Procedure storesAny uptoStore)

inductive Use where
  | read (offset length : Nat)
  | write (offset : Nat) (bytes : List UInt8)
  | header
  | ring (op : Ring.Operation)

namespace Use

inductive Reply where
  | bytes (found : List UInt8)
  | written
  | header (h : Ring.Header)
  | ring (reply : Ring.Reply)
  deriving DecidableEq

def on {σ : Type} [ByteStore σ] : Use → EStateM Refusal σ Reply
  | read offset length =>
    reading (fun s => ByteStore.load s offset length) >>= fun found => pure (.bytes found.toList)
  | write offset bytes => ByteStore.store offset bytes >>= fun _ => pure .written
  | header => reading Ring.header >>= fun h => pure (.header h)
  | ring op => op.on >>= fun reply => pure (.ring reply)

def procedure : Use → Procedure Reply
  | read offset length => .load offset length fun found => pure (.bytes found.toList)
  | write offset bytes => .store offset bytes (pure .written)
  | header => Ring.loadingHeader >>= fun h => pure (.header h)
  | ring op => op.procedure >>= fun reply => pure (.ring reply)

theorem run_procedure {σ : Type} [ByteStore σ] (use : Use) :
    use.procedure.run = (use.on : EStateM Refusal σ Reply) := by
  cases use with
  | read | write => rfl
  | header => rw [procedure, Procedure.run_bind, Ring.run_loadingHeader]; rfl
  | ring op => rw [procedure, Procedure.run_bind, Ring.Operation.run_procedure]; rfl

/-- There is no use that leaves its storage alone and succeeds. -/
theorem asks (use : Use) : use.procedure.Asks := by
  have hheader : Ring.loadingHeader.Asks := Procedure.Asks.bind (p := Ring.loadingWord _) trivial _
  cases use with
  | read | write => trivial
  | header => exact hheader.bind _
  | ring op =>
    refine Procedure.Asks.bind ?_ _
    cases op with
    | push | pushOverwrite | pop | snapshot => exact (hheader.bind _).bind _
    | format =>
      have hformat : Ring.formatting.Asks := fun size => by
        beta_reduce
        split
        · rfl
        · trivial
      exact hformat.bind _

end Use

namespace SharedMemory

variable {m : SharedMemory} {v : MappedView} {region : RegionId} {slice : Memory}

/-- Bytes of the right number that are put into a region stand there, if it exists or not. -/
theorem toList_setBytes (m : SharedMemory) {region : RegionId} {bytes : Memory}
    (hs : bytes.size = (m.bytes region).size) :
    ((m.setBytes region bytes).bytes region).toList = bytes.toList := by
  by_cases hr : region < m.regions.size
  · rw [m.bytes_setBytes hr, if_pos rfl]
  · have hnone (m' : SharedMemory) (h : m'.regions.size = m.regions.size) :
        m'.bytes region = .zeroed 0 := by
      simp [SharedMemory.bytes, h, hr]
    rw [hnone _ (m.size_setBytes region bytes)]
    rw [hnone m rfl] at hs
    exact (List.eq_nil_of_length_eq_zero (bytes.length_toList.trans hs)).symm

/-- A valid view, and plain memory with the bytes that it shows. -/
structure Shows (m : SharedMemory) (v : MappedView) (region : RegionId) (slice : Memory) : Prop where
  reaches : m.region? v.view = some region
  fits : v.length ≤ (m.bytes region).size
  slice_eq : slice.toList = (m.bytes region).toList.take v.length

namespace Shows

theorem size_eq (h : m.Shows v region slice) : slice.size = v.length := by
  rw [← Memory.length_toList, h.slice_eq, List.length_take, Memory.length_toList,
    Nat.min_eq_left h.fits]

theorem shown (h : m.Shows v region slice) : (m.bytes region).Extends slice (m.bytes region) :=
  Memory.extends_of_toList h.fits h.slice_eq

theorem window_eq (h : m.Shows v region slice) :
    m.window v = ⟨slice.size, v.writable, some (m.bytes region)⟩ := by
  rw [window, h.reaches, h.size_eq]
  rfl

end Shows

/-- Through a view for writing the front of the region fares as the slice does, and the rest of it
stays. -/
theorem answer_through_writable {α : Type} (h : m.Shows v region slice) (hw : v.writable = true)
    (p : Procedure α) : ∃ region', region'.toList =
        (answer p.run slice).2.toList ++ (m.bytes region).toList.drop v.length ∧
      region'.size = (m.bytes region).size ∧
      answer (through v p.run) m = ((answer p.run slice).1, m.setBytes region region') ∧
      p.accesses (m.window v) = p.accesses slice := by
  obtain ⟨region', hext, hanswer, hacc, -⟩ := p.run_writable h.shown
  rw [← hw, ← h.window_eq] at hanswer hacc
  refine ⟨region', ?_, hext.size_eq, ?_, hacc⟩
  · rw [hext.toList_eq, Procedure.size_run, h.size_eq]
  · rw [answer_through, hanswer, refit, h.reaches]

/-- Through a view for writing of a whole region a program does what it does on the region. -/
theorem through_whole {α : Type} {p : Procedure α} {a : α} {bytes : Memory}
    (hr : m.region? v.view = some region) (hl : v.length = (m.bytes region).size)
    (hw : v.writable = true) (hp : p.run (m.bytes region) = .ok a bytes) :
    through v p.run m = .ok a (m.setBytes region bytes) := by
  have hwindow : m.window v = ⟨(m.bytes region).size, true, some (m.bytes region)⟩ := by
    rw [window, hr, hl, hw]
    rfl
  obtain ⟨region', -, hanswer, -, hwhole⟩ := p.run_writable (.refl (m.bytes region))
  rw [hwhole rfl, ← hwindow, answer_of_ok hp] at hanswer
  have hthrough : answer (through v p.run) m = (.ok a, m.setBytes region bytes) := by
    rw [answer_through, hanswer, refit, hr]
  exact eq_ok_of_answer hthrough

theorem answer_through_readOnly {α : Type} (h : m.Shows v region slice) (hw : v.writable = false)
    (p : Procedure α) : answer (through v p.run) m =
      (if storesAny (p.accesses slice) then .error .permissionDenied
        else (answer p.run slice).1, m) ∧
      p.accesses (m.window v) = uptoStore (p.accesses slice) := by
  obtain ⟨hanswer, hacc⟩ := p.run_readOnly h.shown
  rw [← hw, ← h.window_eq] at hanswer hacc
  refine ⟨?_, hacc⟩
  rw [answer_through, hanswer, refit_window]

/-- The answer through a view whose link is cut does not depend on any byte. -/
theorem answer_through_cut {α : Type} (v : MappedView) {p : Procedure α} (hp : p.Asks) :
    ∃ e ∈ [Refusal.invalidArgument, .permissionDenied, .fault], ∀ m : SharedMemory,
      m.region? v.view = none → answer (through v p.run) m = (.error e, m) := by
  obtain ⟨e, he, hanswer⟩ := Procedure.run_cut hp v.length v.writable
  refine ⟨e, he, fun m hm => ?_⟩
  have hwindow : m.window v = ⟨v.length, v.writable, none⟩ := by
    rw [window, hm]
    rfl
  rw [answer_through, hwindow, hanswer, refit, hm]

end SharedMemory

theorem Arbiter.onView_whole {α : Type} {a : Arbiter} {v : MappedView} {region : RegionId}
    {p : Procedure α} {x : α} {bytes : Memory} (hr : a.memory.region? v.view = some region)
    (hl : v.length = (a.memory.bytes region).size) (hw : v.writable = true)
    (hp : p.run (a.memory.bytes region) = .ok x bytes) :
    onView v p.run a = .ok x { a with memory := a.memory.setBytes region bytes } := by
  rw [onView, SharedMemory.through_whole hr hl hw hp]

end AcceleratorScheduler
