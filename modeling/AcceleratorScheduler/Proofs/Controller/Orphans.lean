import AcceleratorScheduler.Proofs.Arbiter.Orphans
import AcceleratorScheduler.Proofs.Controller.Isolation

/-! Buffers that sessions leave behind. Whatever sessions do, a queue keeps a buffer that nobody
uses and nothing maps only if its last view was closed after its last use had ended, which can only
happen to the event queue; main statement: `queues_orphaned_by_last_view`. -/
namespace AcceleratorScheduler.System

open Arbiter (Operation Ledger Renewed)

variable {H : Type} {r : Request} {act : Act} {role : QueueRole}

/-- Views are closed on request only. -/
theorem Request.Asks.not_closeView (h : r.Asks act) (hr : ∀ op, r ≠ .arbiter op) (v : MappedView) :
    act.operation ≠ .closeView v := by
  cases r with
  | arbiter op => exact absurd rfl (hr op)
  | session s request =>
    obtain ⟨op, h, rfl⟩ := h
    cases request with
    | createQueue => obtain ⟨_, rfl⟩ := h; exact nofun
    | mapQueue => obtain ⟨_, rfl⟩ | ⟨_, _, _, _, rfl⟩ := h <;> exact nofun
    | close => obtain rfl | rfl := h <;> exact nofun
    | ringDoorbell => cases h
    | _ => cases h; exact nofun
  | logEvent => obtain ⟨_, rfl⟩ := h; exact nofun
  | tearDown => cases h; exact nofun
  | _ => cases h <;> exact nofun

variable [Hardware H] {settings : Settings} {hardware : H} {c : Controller H} {w : System H}
  {requests : List Request}

/-- A request leaves a buffer behind only by closing the last view on an unused queue. -/
theorem orphaned_perform (hb : w.controller.arbiter.Balanced w.grants) (hr : r.stocks role = false)
    (h : (w.perform r).ledger.Orphaned role) : w.ledger.Orphaned role ∨
      ∃ g, r = .arbiter (.closeView g.view) ∧ w.controller.arbiter.uses role = false ∧
        w.ledger.live role = [g] := by
  by_cases hop : ∃ op, r = .arbiter op
  · obtain ⟨op, rfl⟩ := hop
    have hsup : op.supplies role = false := (Bool.or_eq_false_iff.mp hr).1
    obtain hold | ⟨g, rfl, hu, hl⟩ := Ledger.orphaned_perform (l := w.ledger) hb hsup h
    · exact .inl hold
    · exact .inr ⟨g, rfl, hu, hl⟩
  · obtain ⟨-, acts, hacts, hl, -⟩ := does_perform w r
    rw [hl] at h
    refine .inl (Ledger.orphaned_of_run (l := w.ledger) hb (fun op hm => ?_) h)
    obtain ⟨act, ha, rfl⟩ := List.mem_map.mp hm
    refine ⟨Bool.eq_false_iff.mpr fun hs => ?_,
      (hacts act ha).not_closeView fun op he => hop ⟨op, he⟩⟩
    have hstocks := ((hacts act ha).known 0 role).1 hs
    rw [hr] at hstocks
    cases hstocks

theorem orphaned_run (hc : Controller.new settings hardware = .ok c)
    (hr : ∀ r ∈ granted { controller := c } requests, r.stocks role = false)
    (h : (run { controller := c } requests).ledger.Orphaned role) : ∃ before g after,
      requests = before ++ .arbiter (.closeView g.view) :: after ∧
      (run { controller := c } before).controller.arbiter.uses role = false ∧
      (run { controller := c } before).ledger.live role = [g] := by
  induction requests using List.reverseRecOn with
  | nil =>
    obtain ⟨hp, -⟩ := h
    rw [show (run { controller := c } []).ledger = {} from ledger_new hc] at hp
    cases role <;> cases hp
  | append_singleton requests r ih =>
    rw [granted_append, List.forall_mem_append] at hr
    rw [run_append] at h
    have hcases : (run { controller := c } requests).ledger.Orphaned role ∨
        ∃ g, r = .arbiter (.closeView g.view) ∧
          (run { controller := c } requests).controller.arbiter.uses role = false ∧
          (run { controller := c } requests).ledger.live role = [g] := by
      cases hrefused : r.refused (run { controller := c } requests) with
      | true =>
        change ((run { controller := c } requests).perform r).ledger.Orphaned role at h
        rw [perform_of_refused hrefused] at h
        exact .inl h
      | false =>
        have hstocks := hr.2 r (by simp [granted, hrefused])
        exact orphaned_perform (balanced_run hc requests) hstocks h
    obtain hold | ⟨g, rfl, hu, hl⟩ := hcases
    · obtain ⟨before, g, after, he, hrest⟩ := ih hr.1 hold
      exact ⟨before, g, after ++ [r], by rw [he, List.append_assoc, List.cons_append], hrest⟩
    · exact ⟨requests, g, [], rfl, hu, hl⟩

/-- A session that leaves leaves no queue with an unused buffer. -/
theorem not_orphaned_close (hb : w.controller.arbiter.Balanced w.grants) {s : Session}
    (hs : (w.controller.arbiter.user? s.user).isSome = true) :
    ¬ (w.perform (.session s .close)).ledger.Orphaned role := by
  obtain ⟨u, hu⟩ := Option.isSome_iff_exists.mp hs
  obtain ⟨hm, hid⟩ := Arbiter.mem_of_user? hu
  have hreset := (hb.reset s.user).balanced
  have hstays : ∃ v, (w.controller.arbiter.reset s.user).user? s.user = some v := by
    refine Option.isSome_iff_exists.mp (List.find?_isSome.mpr ?_)
    rw [Arbiter.users_reset hu]
    exact ⟨_, List.mem_map_of_mem hm, by simp [hid]⟩
  obtain ⟨v, hv⟩ := hstays
  rw [Ledger.orphaned_iff ((does_perform w _).balanced hb)]
  exact Arbiter.not_orphaned_removeUser hreset hv role

/-- As long as no request that is granted gives the queue a buffer or takes it away past its use, a
buffer that no session uses and no valid view maps is one of the event queue, and it was left behind
by closing the last view after the last use had ended. Closing the last view on an unused queue
always leaves the buffer, whereas a session that leaves never does. The next session to open the
queue finds a buffer that was left behind with all its bytes, and otherwise an empty ring on new
ones. -/
theorem queues_orphaned_by_last_view (hc : Controller.new settings hardware = .ok c)
    (hr : ∀ r ∈ granted { controller := c } requests, r.stocks role = false)
    (hw : w = run { controller := c } requests) :
    (w.ledger.Orphaned role → role = .event ∧ ∃ before g after,
      requests = before ++ .arbiter (.closeView g.view) :: after ∧
      (run { controller := c } before).controller.arbiter.uses role = false ∧
      (run { controller := c } before).ledger.live role = [g]) ∧
    (∀ g, w.controller.arbiter.uses role = false → w.ledger.live role = [g] →
      (w.perform (.arbiter (.closeView g.view))).ledger.Orphaned role) ∧
    (∀ s : Session, (w.controller.arbiter.user? s.user).isSome = true →
      ¬ (w.perform (.session s .close)).ledger.Orphaned role) ∧
    ∀ (s : Session) (allocator : Allocator) handle c',
      w.controller.arbiter.uses role = false → w.ledger.live role = [] →
      s.createQueue allocator role w.controller = .ok handle c' →
      (w.ledger.Orphaned role → c'.arbiter.queues = w.controller.arbiter.queues ∧
        c'.arbiter.memory = w.controller.arbiter.memory) ∧
      (¬ w.ledger.Orphaned role → allocator.Zeroing →
        Renewed w.controller.arbiter c'.arbiter role (settings.queueBytes role)) := by
  have hb : w.controller.arbiter.Balanced w.grants := hw ▸ balanced_run hc requests
  refine ⟨fun h => ⟨?_, orphaned_run hc hr (hw ▸ h)⟩,
    fun g hu hl => Ledger.orphaned_of_last_view (l := w.ledger) hb hu hl,
    fun s hs => not_orphaned_close hb hs, fun s allocator handle c' hu hl hq => ?_⟩
  · cases hx : role.isExclusive with
    | true =>
      -- An exclusive queue has a buffer only while it is in use.
      have htended : w.controller.arbiter.Tended w.grants role := hw ▸ tended_run hc hx hr
      obtain ⟨hp, hunused, -⟩ := h
      cases hunused.symm.trans (htended.custody.covered hp)
    | false => cases role <;> first | rfl | cases hx
  · have hset : w.controller.settings = settings := by
      rw [hw, (does_run { controller := c } requests).settings, (new_eq hc).2.1]
    obtain ⟨a, ho, rfl, -⟩ := Session.createQueue_eq_ok hq
    rw [hset] at ho
    refine ⟨fun ⟨hp, _⟩ => Arbiter.openQueue_of_present hp ho, fun hno hz => ?_⟩
    refine Arbiter.renewed_of_absent hz ?_ ho
    exact Option.not_isSome_iff_eq_none.mp fun hp => hno ⟨hp, hu, hl⟩

/-- What sessions do: they are opened, they ask for something, they map a queue by its handle and
close a view. -/
def Request.bySession : Request → Bool
  | .session _ _ | .arbiter (.addUser _ _) | .arbiter (.mapHandle _ _ _ _)
  | .arbiter (.closeView _) => true
  | _ => false

/-- One session maps the event queue by the handle of a use that it has ended. The other one, by
which the queue has been in use so far, leaves, and the view is closed after that. -/
private def departing : List Request :=
  [.arbiter (.addUser 1 true), .arbiter (.addUser 2 false),
    .session ⟨1, 1⟩ (.createQueue .process .event), .session ⟨2, 2⟩ (.createQueue .process .event),
    .session ⟨1, 1⟩ (.eraseQueue .event), .arbiter (.mapHandle ⟨.event, 1, true⟩ 0 4096),
    .session ⟨2, 2⟩ .close, .arbiter (.closeView ⟨0, .event, 1, 4096, false⟩)]

private def ready : Controller HostSimulation where
  settings := {}
  registry := { hardware := { clock := 1000 } }
  log := { capacity := 128, get := 0, put := 0, origin := 0, dropped := 0 }

theorem buffer_left_by_sessions :
    Controller.new {} ({} : HostSimulation) = .ok ready ∧
      (∀ r ∈ departing, r.bySession = true) ∧
      (run { controller := ready } departing).ledger.Orphaned .event := by
  refine ⟨rfl, by decide, ?_⟩
  rw [Ledger.Orphaned]
  decide +kernel

theorem queues_orphaned_by_last_view_departing :
    (∀ r ∈ granted { controller := ready } departing, r.stocks .event = false) ∧
      (run { controller := ready } departing).ledger.Orphaned .event ∧
      ∃ before g after, departing = before ++ .arbiter (.closeView g.view) :: after ∧
        (run { controller := ready } before).ledger.live .event = [g] := by
  have hstocks : ∀ r ∈ granted { controller := ready } departing, r.stocks .event = false := by
    decide +kernel
  have horphan : (run { controller := ready } departing).ledger.Orphaned .event := by
    rw [Ledger.Orphaned]
    decide +kernel
  have hnew : Controller.new {} ({} : HostSimulation) = .ok ready := rfl
  obtain ⟨-, before, g, after, he, -, hl⟩ :=
    (queues_orphaned_by_last_view hnew hstocks rfl).1 horphan
  exact ⟨hstocks, horphan, before, g, after, he, hl⟩

end AcceleratorScheduler.System
