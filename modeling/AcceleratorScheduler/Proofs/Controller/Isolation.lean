import AcceleratorScheduler.Hardware.Simulation
import AcceleratorScheduler.Proofs.Arbiter.Atomicity
import AcceleratorScheduler.Proofs.Arbiter.Occupancy
import AcceleratorScheduler.Proofs.Controller.Operations

/-! Successive holders of exclusive access do not see what the ones before them wrote. An exclusive
queue has a buffer only while the holder uses it, every valid view on it is the holder's, and the
next holder starts with new bytes; main statement: `exclusive_queues_isolated`. -/
namespace AcceleratorScheduler

open Arbiter (Operation Ledger Renewed)

variable {H : Type}

theorem Settings.Valid.pages {settings : Settings} (h : settings.Valid) (role : QueueRole) :
    settings.queueBytes role ≠ 0 ∧ settings.queueBytes role % Settings.queueAlign = 0 :=
  h.2.2.2.2 role (QueueRole.mem_all role)

/-- A queue is a page long at least, which has room for many slots. -/
theorem Settings.Valid.page {settings : Settings} (h : settings.Valid) (role : QueueRole) :
    127 ≤ Ring.room (settings.queueBytes role) := by
  obtain ⟨hne, hpages⟩ := h.pages role
  simp only [Settings.queueAlign] at hpages
  simp only [Ring.room, Ring.headerSize, slotSize]
  omega

theorem Settings.Valid.room {settings : Settings} (h : settings.Valid) (role : QueueRole) :
    2 ≤ Ring.room (settings.queueBytes role) :=
  Nat.le_trans (by decide) (h.page role)

namespace Session

variable {s : Session} {role : QueueRole} {allocator : Allocator} {c : Controller H}
  {grants : List Grant}

/-- What a session finds that is the first to open the queue: an empty ring on new bytes, with
nothing in it that anybody wrote. As the holder it is not refused if the bytes are there, no more
than a ring can count, and memory takes the record of a mapping. -/
structure OpensAnew (s : Session) (role : QueueRole) (allocator : Allocator) (c : Controller H) :
    Prop where
  created {handle : ExportHandle} {c' : Controller H} :
    s.createQueue allocator role c = .ok handle c' →
      Renewed c.arbiter c'.arbiter role (c.settings.queueBytes role)
  mapped {room : RecordRoom} {v : MappedView} {c' : Controller H} :
    s.mapQueue allocator role room c = .ok v c' →
    Renewed c.arbiter c'.arbiter role (c.settings.queueBytes role) ∧
      c'.arbiter.memory.region? v.view = some c.arbiter.memory.regions.size
  granted {blank : Memory} : c.gone = false → c.arbiter.holder? = some s.user →
    allocator (c.settings.queueBytes role) = .ok blank →
    blank.size = c.settings.queueBytes role →
    Ring.room (c.settings.queueBytes role) < UInt32.size →
      (∃ handle c', s.createQueue allocator role c = .ok handle c') ∧
        ∀ room : RecordRoom, room 0 = true → ∃ v c', s.mapQueue allocator role room c = .ok v c'

theorem opensAnew (h : c.arbiter.Tended grants role) (hx : role.isExclusive = true)
    (hun : c.arbiter.Unused s.user role) (hv : c.settings.Valid) (hz : allocator.Zeroing) :
    s.OpensAnew role allocator c := by
  have hcreated {handle : ExportHandle} {c' : Controller H}
      (hq : s.createQueue allocator role c = .ok handle c') :
      Renewed c.arbiter c'.arbiter role (c.settings.queueBytes role) := by
    obtain ⟨a, ho, rfl, -⟩ := createQueue_eq_ok hq
    exact h.renewed hx hz hun ho
  refine ⟨hcreated, fun {room v c'} hm => ?_, fun {blank} hg hholder ha hs hword => ?_⟩
  · obtain ⟨handle, k, hq, -⟩ := bind_eq_ok hm
    rw [mapQueue_of_created hq room, Controller.onArbiter] at hm
    have hr := hcreated hq
    obtain ⟨a, -, rfl, rfl⟩ := createQueue_eq_ok hq
    obtain ⟨e, he⟩ | ⟨view, a', -, hx, hl⟩ := Arbiter.mapHandle_cases
      ⟨role, s.user, role.mask.isReadOnly⟩ 0 (c.settings.queueBytes role) room a
    · rw [he] at hm
      cases hm
    · rw [hx] at hm
      cases hm
      exact hr.lend hl
  · have hid := h.orderly.holder?_eq_some_iff.mp hholder
    obtain ⟨a, k, ho, hk, hempty⟩ := h.open_granted hx hid hun ha hs (hv.room role) hword
    have hq : s.createQueue allocator role c =
        .ok ⟨role, s.user, role.mask.isReadOnly⟩ { c with arbiter := a } := by
      rw [createQueue_present hg, Controller.onArbiter, ho]
    refine ⟨⟨_, _, hq⟩, fun room hroom => ?_⟩
    let op : Operation := .openQueue allocator s.user role (c.settings.queueBytes role)
    have hop : (op.perform c.arbiter).2 = a := congrArg Prod.snd (answer_of_ok ho)
    have htended := h.perform hx (show op.supplies role = false from rfl) rfl rfl
    have hheld := Arbiter.HeldBy.perform hid op rfl
    rw [hop] at htended hheld
    obtain ⟨-, b, hb, -, hsize, hmask, -⟩ := hcreated hq
    have hgrants : room b.mappings.length = true := by
      rwa [← show k = b from Option.some.inj (hk.symm.trans hb), hempty]
    have hne : b.size ≠ 0 := by
      rw [hsize]
      intro h0
      exact absurd (hv.room role) (by rw [h0]; decide)
    obtain ⟨v, a', hmap⟩ := htended.map_granted hheld hb hmask hne hgrants
    rw [hsize] at hmap
    refine ⟨v, { c with arbiter := a' }, ?_⟩
    rw [mapQueue_of_created hq room, Controller.onArbiter, hmap]

theorem reserve_eq_ok (h : (answer s.reserve c).1 = .ok ()) :
    (answer (Arbiter.reserve s.user) c.arbiter).1 = .ok () := by
  rcases Bool.eq_false_or_eq_true c.gone with hg | hg
  · rw [reserve, answer_of_error (bind_error (Controller.ensurePresent_gone hg))] at h
    cases h
  · rw [reserve, answer, bind_ok (Controller.ensurePresent_present hg), Controller.onArbiter] at h
    rw [answer]
    cases hr : Arbiter.reserve s.user c.arbiter with
    | ok x a => rfl
    | error e a =>
      rw [hr] at h
      cases h

end Session

namespace System

/-- Whether the request gives the queue a buffer, or takes it away, past its use. -/
def Request.stocks : Request → QueueRole → Bool
  | .arbiter op, role => op.supplies role || op.withdraws role
  | _, _ => false

def Request.opens : Request → UserId → QueueRole → Bool
  | .session s (.createQueue _ other), id, role => s.user == id && other == role
  | .session s (.mapQueue _ other _), id, role => s.user == id && other == role
  | .arbiter op, id, role => op.opens id role
  | _, _, _ => false

variable {r : Request} {act : Act} {role : QueueRole} {id : UserId}

/-- What an act does to a queue, the request behind it is known to do. -/
theorem Request.Asks.known (h : r.Asks act) (id : UserId) (role : QueueRole) :
    (act.operation.supplies role = true → r.stocks role = true) ∧
      (act.operation.withdraws role = true → r.stocks role = true) ∧
      (act.operation.opens id role = true → r.opens id role = true) := by
  cases r with
  | arbiter op =>
    cases h
    refine ⟨fun hs => ?_, fun hw => ?_, fun ho => ho⟩
    · exact Bool.or_eq_true_iff.mpr (.inl hs)
    · exact Bool.or_eq_true_iff.mpr (.inr hw)
  | session s request =>
    obtain ⟨op, h, rfl⟩ := h
    cases request with
    | createQueue =>
      obtain ⟨_, rfl⟩ := h
      exact ⟨nofun, nofun, fun ho => ho⟩
    | mapQueue =>
      obtain ⟨_, rfl⟩ | ⟨_, _, _, _, rfl⟩ := h
      · exact ⟨nofun, nofun, fun ho => ho⟩
      · exact ⟨nofun, nofun, nofun⟩
    | close => obtain rfl | rfl := h <;> exact ⟨nofun, nofun, nofun⟩
    | ringDoorbell => cases h
    | _ => cases h; exact ⟨nofun, nofun, nofun⟩
  | logEvent =>
    obtain ⟨_, rfl⟩ := h
    exact ⟨nofun, nofun, nofun⟩
  | tearDown =>
    cases h
    exact ⟨nofun, nofun, nofun⟩
  | _ => cases h <;> exact ⟨nofun, nofun, nofun⟩

def Request.refused {H : Type} (w : System H) : Request → Bool
  | .arbiter op => (op.refusal? w.controller.arbiter).isSome
  | _ => false

variable [Hardware H] {settings : Settings} {hardware : H} {c : Controller H} {w : System H}
  {requests : List Request}

/-- The requests of a history, without those that the arbiter refused. -/
def granted (w : System H) : List Request → List Request
  | [] => []
  | r :: requests =>
    if r.refused w then w.granted requests else r :: (w.perform r).granted requests

theorem perform_of_refused (h : r.refused w = true) : w.perform r = w := by
  cases r with
  | arbiter op =>
    obtain ⟨⟨e, a'⟩, hop⟩ := Option.isSome_iff_exists.mp h
    rw [perform, Ledger.perform_of_refusal? (l := ⟨w.controller.arbiter, w.grants⟩) hop]
  | _ => cases h

theorem run_granted (w : System H) (requests : List Request) :
    w.run (w.granted requests) = w.run requests := by
  induction requests generalizing w with
  | nil => rfl
  | cons r requests ih =>
    rw [granted]
    cases hr : r.refused w with
    | true =>
      rw [if_pos rfl, ih, run, run, List.foldl_cons, perform_of_refused hr]
    | false => exact ih (w.perform r)

theorem granted_append (w : System H) (requests later : List Request) :
    w.granted (requests ++ later) = w.granted requests ++ (w.run requests).granted later := by
  induction requests generalizing w with
  | nil => rfl
  | cons r requests ih =>
    rw [List.cons_append, granted, granted, run, List.foldl_cons]
    cases hr : r.refused w with
    | true =>
      rw [if_pos rfl, if_pos rfl, ih, perform_of_refused hr]
      rfl
    | false =>
      rw [if_neg Bool.false_ne_true, if_neg Bool.false_ne_true, ih]
      rfl

/-- A new controller has the settings it was made from, and an arbiter that nobody has used yet. -/
theorem new_eq (hc : Controller.new settings hardware = .ok c) :
    settings.Valid ∧ c.settings = settings ∧ c.arbiter = {} := by
  obtain ⟨⟨⟩, hv, hc⟩ := of_bind_eq_ok hc
  obtain ⟨log, -, hc⟩ := of_bind_eq_ok hc
  cases hc
  exact ⟨Settings.validate_eq_ok_iff.mp hv, rfl, rfl⟩

/-- Settings that are valid make a controller at rest, whose log is empty. -/
theorem new_of_valid (hv : settings.Valid) (hardware : H) :
    ∃ log, EventLog.init settings.logCapacity (Hardware.uptime hardware).1 = .ok log ∧
      Controller.new settings hardware =
        .ok { settings, registry := { hardware := (Hardware.uptime hardware).2 }, log } := by
  have hlog : ∃ log, EventLog.init settings.logCapacity (Hardware.uptime hardware).1 = .ok log :=
    ⟨_, if_neg (not_or.mpr ⟨hv.1, hv.2.1⟩)⟩
  obtain ⟨log, hlog⟩ := hlog
  refine ⟨log, hlog, ?_⟩
  simp only [Controller.new, Settings.validate, if_pos hv, hlog, bind, Except.bind]
  rfl

/-- Where there is no room for the log there is no controller. -/
theorem new_unroomed (hv : settings.Valid) (hardware : H) :
    Controller.new settings hardware false = .error .outOfMemory := by
  have hlog : EventLog.init settings.logCapacity (Hardware.uptime hardware).1 false =
      .error .outOfMemory := if_neg (not_or.mpr ⟨hv.1, hv.2.1⟩)
  simp only [Controller.new, Settings.validate, if_pos hv, hlog, bind, Except.bind]

theorem ledger_new (hc : Controller.new settings hardware = .ok c) :
    ledger { controller := c } = {} :=
  congrArg (Ledger.mk · []) (new_eq hc).2.2

theorem balanced_run (hc : Controller.new settings hardware = .ok c) (requests : List Request) :
    (run { controller := c } requests).controller.arbiter.Balanced
      (run { controller := c } requests).grants := by
  refine (does_run { controller := c } requests).balanced ?_
  rw [(new_eq hc).2.2]
  exact Ledger.balanced_empty

theorem tended_run (hc : Controller.new settings hardware = .ok c) (hx : role.isExclusive = true)
    (hr : ∀ r ∈ granted { controller := c } requests, r.stocks role = false) :
    (run { controller := c } requests).controller.arbiter.Tended
      (run { controller := c } requests).grants role := by
  rw [← run_granted { controller := c } requests]
  obtain ⟨-, acts, hacts, hl, -⟩ :=
    does_run { controller := c } (granted { controller := c } requests)
  rw [ledger_new hc] at hl
  have hknown (op : Operation) (hm : op ∈ acts.map Act.operation) :
      op.supplies role = false ∧ op.withdraws role = false := by
    obtain ⟨act, ha, rfl⟩ := List.mem_map.mp hm
    obtain ⟨r, hrm, hasks⟩ := hacts act ha
    obtain ⟨hs, hw, -⟩ := hasks.known 0 role
    rw [hr r hrm] at hs hw
    refine ⟨Bool.eq_false_iff.mpr fun h => ?_, Bool.eq_false_iff.mpr fun h => ?_⟩
    · cases hs h
    · cases hw h
  have ht : (Ledger.run {} (acts.map Act.operation)).arbiter.Tended
      (Ledger.run {} (acts.map Act.operation)).grants role :=
    ⟨Ledger.balanced_run _, Ledger.orderly_run _,
      Ledger.custody_run hx fun op hm => (hknown op hm).1,
      Ledger.supplied_run hx fun op hm => (hknown op hm).2⟩
  rwa [← hl] at ht

/-- A session that has not opened the queue does not use it until it opens it. -/
theorem unused_run (h : w.controller.arbiter.Tended w.grants role)
    (hun : w.controller.arbiter.Unused id role)
    (hr : ∀ r ∈ w.granted requests, r.opens id role = false) :
    (w.run requests).controller.arbiter.Unused id role := by
  rw [← run_granted w requests]
  obtain ⟨-, acts, hacts, hl, -⟩ := does_run w (w.granted requests)
  have hknown : ∀ op ∈ acts.map Act.operation, op.opens id role = false := by
    intro op hm
    obtain ⟨act, ha, rfl⟩ := List.mem_map.mp hm
    obtain ⟨r, hrm, hasks⟩ := hacts act ha
    refine Bool.eq_false_iff.mpr fun ho => ?_
    have hopens := (hasks.known id role).2.2 ho
    rw [hr r hrm] at hopens
    cases hopens
  have hu := Ledger.unused_run (l := w.ledger) h.balanced h.orderly hun hknown
  rwa [← hl] at hu

/-- A view that is cut off stays so. -/
theorem stale_run (h : w.controller.arbiter.Balanced w.grants) {g : Grant} (hg : g ∈ w.grants)
    (hd : w.controller.arbiter.memory.isLive g.view.view = false) (requests : List Request) :
    (w.run requests).controller.arbiter.memory.isLive g.view.view = false := by
  obtain ⟨-, acts, -, hl, -⟩ := does_run w requests
  have hc := (Ledger.carries_run (l := w.ledger) h (acts.map Act.operation)).1
  have hs := hc.stale (h.known g hg) hd
  rwa [← hl] at hs

/-- As long as no request that is granted gives an exclusive queue a buffer or takes it away past
its use, there is a buffer exactly while the holder uses the queue, and every valid view on it is
the holder's. Once a session has reserved, the views of all others are cut off for good; if it was
not the holder already, it finds in the queue that it opens first an empty ring on new bytes. -/
theorem exclusive_queues_isolated (hc : Controller.new settings hardware = .ok c)
    (hx : role.isExclusive = true)
    (hr : ∀ r ∈ granted { controller := c } requests, r.stocks role = false)
    (hw : w = run { controller := c } requests) :
    ((w.controller.arbiter.queues.get role).isSome = true ↔
      ∃ u ∈ w.controller.arbiter.users, w.controller.arbiter.holder? = some u.id ∧
        u.queues.contains role = true) ∧
    (∀ g ∈ w.ledger.live role, w.controller.arbiter.holder? = some g.owner) ∧
    ∀ s : Session, (answer s.reserve w.controller).1 = .ok () → ∀ later,
      (∀ g ∈ w.grants, g.view.queue = role → g.owner ≠ s.user →
        (run w (.session s .reserve :: later)).controller.arbiter.memory.isLive g.view.view =
          false) ∧
      (w.controller.arbiter.holder? ≠ some s.user →
        (∀ r ∈ (w.perform (.session s .reserve)).granted later,
          r.stocks role = false ∧ r.opens s.user role = false) →
          ∀ allocator : Allocator, allocator.Zeroing →
            s.OpensAnew role allocator (run w (.session s .reserve :: later)).controller) := by
  have h : w.controller.arbiter.Tended w.grants role := hw ▸ tended_run hc hx hr
  refine ⟨h.present_iff hx, fun g hg => ?_, fun s hs later => ⟨fun g hg hq hne => ?_, ?_⟩⟩
  · obtain ⟨hmem, hq, hl⟩ := Ledger.mem_live.mp hg
    exact h.holder_of_live hmem hq hl
  · refine stale_run h.balanced hg (Bool.eq_false_iff.mpr fun hl => ?_) _
    have hown := h.holder_of_live hg hq hl
    obtain hh | hh := Arbiter.holder?_of_reserve (Session.reserve_eq_ok hs) <;> rw [hown] at hh
    · exact hne (Option.some.inj hh)
    · cases hh
  · intro hnot hlater allocator hz
    have hfree := (Arbiter.holder?_of_reserve (Session.reserve_eq_ok hs)).resolve_left hnot
    have hunused : w.controller.arbiter.Unused s.user role := by
      intro u hu _
      have hno := List.any_eq_false.mp (h.orderly.uses_of_holder?_none hx hfree) u hu
      simpa using hno
    have hgranted : w.granted (.session s .reserve :: later) =
        .session s .reserve :: (w.perform (.session s .reserve)).granted later := rfl
    have hstocks : ∀ r ∈ granted { controller := c } (requests ++ .session s .reserve :: later),
        r.stocks role = false := by
      rw [granted_append, ← hw, hgranted, List.forall_mem_append, List.forall_mem_cons]
      exact ⟨hr, rfl, fun r hm => (hlater r hm).1⟩
    have hopens : ∀ r ∈ w.granted (.session s .reserve :: later), r.opens s.user role = false := by
      rw [hgranted, List.forall_mem_cons]
      exact ⟨rfl, fun r hm => (hlater r hm).2⟩
    have htended := tended_run hc hx hstocks
    rw [run_append, ← hw] at htended
    obtain ⟨hv, hset, -⟩ := new_eq hc
    have hsettings : (run w (.session s .reserve :: later)).controller.settings = settings := by
      rw [(does_run w _).settings, hw, (does_run { controller := c } requests).settings, hset]
    exact Session.opensAnew htended hx (unused_run h hunused hopens) (hsettings ▸ hv) hz

/-- A session writes to the send queue and leaves; another one is about to reserve. -/
private def handover : List Request :=
  [.arbiter (.addUser 7 true), .session ⟨1, 7⟩ .reserve, .session ⟨1, 7⟩ (.mapQueue .process .send),
    .arbiter (.access ⟨0, .send, 1, 4096, true⟩ (ByteStore.store 16 [1, 2, 3])),
    .session ⟨1, 7⟩ .close, .arbiter (.addUser 8 true)]

theorem exclusive_queues_isolated_handover :
    ∃ c : Controller HostSimulation, Controller.new {} {} = .ok c ∧
      (run { controller := c } handover).grants = [⟨⟨0, .send, 1, 4096, true⟩, 1⟩] ∧
      (run { controller := c } handover).ledger.live .send = [] ∧
      ∃ v c', Session.mapQueue .process ⟨2, 8⟩ .send .ample
          (run (run { controller := c } handover) [.session ⟨2, 8⟩ .reserve]).controller =
            .ok v c' ∧
        c'.arbiter.memory.region? v.view = some 1 ∧
        ∃ b, c'.arbiter.queues.get .send = some b ∧
          Ring.Pristine (c'.arbiter.memory.bytes b.region) 4096 := by
  let c : Controller HostSimulation :=
    { settings := {}
      registry := { hardware := { clock := 1000 } }
      log := { capacity := 128, get := 0, put := 0, origin := 0, dropped := 0 } }
  have hc : Controller.new {} ({} : HostSimulation) = .ok c := rfl
  let w := run { controller := c } handover
  let s : Session := ⟨2, 8⟩
  let next := run w [.session s .reserve]
  have hx : QueueRole.send.isExclusive = true := rfl
  have hg : w.grants = [⟨⟨0, .send, 1, 4096, true⟩, 1⟩] := by decide +kernel
  have hr : (answer s.reserve w.controller).1 = .ok () := by decide +kernel
  have hstocks : ∀ r ∈ granted { controller := c } handover, r.stocks .send = false := by
    decide +kernel
  obtain ⟨-, howner, hafter⟩ := exclusive_queues_isolated hc hx hstocks rfl
  have hnone : w.controller.arbiter.holder? = none := by decide +kernel
  have hopens := (hafter s hr []).2 (by rw [hnone]; exact nofun) nofun .process
    (Allocator.zeroing_bounded _)
  have hbytes : next.controller.settings.queueBytes .send = 4096 := by decide +kernel
  have hblank : Allocator.process (next.controller.settings.queueBytes .send) =
      .ok (Memory.zeroed 4096) := by
    rw [hbytes]
    rfl
  have hsize : next.controller.arbiter.memory.regions.size = 1 := by decide +kernel
  obtain ⟨-, hmaps⟩ := hopens.granted (by decide +kernel) (by decide +kernel) hblank
    hbytes.symm (by rw [hbytes]; decide)
  obtain ⟨v, c', hmap⟩ := hmaps .ample rfl
  obtain ⟨⟨-, b, hb, -, -, -, hp⟩, hview⟩ := hopens.mapped hmap
  refine ⟨c, hc, hg, ?_, v, c', hmap, hview.trans (congrArg some hsize), b, hb, hbytes ▸ hp⟩
  refine List.eq_nil_iff_forall_not_mem.mpr fun g hlive => ?_
  cases hnone.symm.trans (howner g hlive)

end System

end AcceleratorScheduler
