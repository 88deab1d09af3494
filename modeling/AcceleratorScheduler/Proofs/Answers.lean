import AcceleratorScheduler.Refusal

/-! How a request made of smaller ones is answered: the first refusal among them is its own, and
each part starts in the state that the part before it left. A request that is granted in every state
of one kind can be followed by the next in every state of the kind that it leaves (`Leads.bind`),
and one that is refused there ends the whole (`Leads.declines`). -/
namespace AcceleratorScheduler

variable {σ α β : Type} {x : EStateM Refusal σ α} {f : α → EStateM Refusal σ β} {s t : σ}

theorem bind_ok {a : α} (h : x s = .ok a t) : (x >>= f) s = f a t := by
  change EStateM.bind x f s = _
  rw [EStateM.bind, h]

theorem bind_error {e : Refusal} (h : x s = .error e t) : (x >>= f) s = .error e t := by
  change EStateM.bind x f s = _
  rw [EStateM.bind, h]

theorem bind_eq_ok {b : β} (h : (x >>= f) s = .ok b t) :
    ∃ a u, x s = .ok a u ∧ f a u = .ok b t := by
  cases hx : x s with
  | ok a u => exact ⟨a, u, rfl, by rwa [bind_ok hx] at h⟩
  | error e u =>
    rw [bind_error hx] at h
    cases h

theorem of_bind_eq_ok {g : Except Refusal α} {k : α → Except Refusal β} {b : β}
    (h : (g >>= k) = .ok b) : ∃ a, g = .ok a ∧ k a = .ok b := by
  cases g with
  | ok a => exact ⟨a, rfl, h⟩
  | error e => cases h

theorem of_bind_eq_error {g : Except Refusal α} {k : α → Except Refusal β} {e : Refusal}
    (h : (g >>= k) = .error e) : g = .error e ∨ ∃ a, g = .ok a ∧ k a = .error e := by
  cases g with
  | ok a => exact .inr ⟨a, rfl, h⟩
  | error e' =>
    cases h
    exact .inl rfl

theorem get_apply (s : σ) : (get : EStateM Refusal σ σ) s = .ok s s := rfl

theorem answer_of_ok {a : α} (h : x s = .ok a t) : answer x s = (.ok a, t) := by
  rw [answer, h]

theorem answer_of_error {e : Refusal} (h : x s = .error e t) : answer x s = (.error e, t) := by
  rw [answer, h]

theorem eq_ok_of_answer {a : α} (h : answer x s = (.ok a, t)) : x s = .ok a t := by
  rw [answer] at h
  cases hx : x s with
  | ok b u =>
    rw [hx] at h
    cases h
    rfl
  | error e u =>
    rw [hx] at h
    cases h

theorem eq_error_of_answer {e : Refusal} (h : answer x s = (.error e, t)) : x s = .error e t := by
  rw [answer] at h
  cases hx : x s with
  | ok b u =>
    rw [hx] at h
    cases h
  | error e' u =>
    rw [hx] at h
    cases h
    rfl

/-- What is made of an answer does not matter to what is left. -/
theorem answer_bind_pure (f : α → β) :
    (answer (x >>= fun a => pure (f a)) s).2 = (answer x s).2 := by
  cases h : x s with
  | ok a t =>
    rw [answer_of_ok h, answer, bind_ok h]
    rfl
  | error e t => rw [answer_of_error h, answer, bind_error h]

/-- What holds of the state before, and of what a granted request leaves, holds afterwards. -/
theorem answer_cases {P : σ → Prop} (h : P s)
    (hx : (∃ e, x s = .error e s) ∨ ∃ a t, x s = .ok a t ∧ P t) : P (answer x s).2 := by
  rcases hx with ⟨e, he⟩ | ⟨a, t, hx, ht⟩
  · rwa [answer_of_error he]
  · rwa [answer_of_ok hx]

theorem reading_of_ok {g : σ → Except Refusal α} {a : α} (h : g s = .ok a) :
    reading g s = .ok a s := by
  rw [reading, h]

theorem reading_of_error {g : σ → Except Refusal α} {e : Refusal} (h : g s = .error e) :
    reading g s = .error e s := by
  rw [reading, h]

/-- The same for an outcome that does not depend on the state. -/
theorem outcome_of_ok {g : Except Refusal α} {a : α} (h : g = .ok a) :
    reading (fun _ : σ => g) s = .ok a s :=
  reading_of_ok h

theorem outcome_of_error {g : Except Refusal α} {e : Refusal} (h : g = .error e) :
    reading (fun _ : σ => g) s = .error e s :=
  reading_of_error h

/-- In every state of the one kind the request is granted, with this answer, and leaves a state of
the other kind. -/
def Leads (before : σ → Prop) (request : EStateM Refusal σ α) (a : α) (after : σ → Prop) : Prop :=
  ∀ s, before s → ∃ t, request s = .ok a t ∧ after t

/-- In every state of the kind the request is refused, and with this refusal. -/
def Declines (before : σ → Prop) (request : EStateM Refusal σ α) (e : Refusal) : Prop :=
  ∀ s, before s → ∃ t, request s = .error e t

theorem Declines.bind {before : σ → Prop} {e : Refusal} (hx : Declines before x e) :
    Declines before (x >>= f) e := by
  intro s hs
  obtain ⟨t, ht⟩ := hx s hs
  exact ⟨t, bind_error ht⟩

namespace Leads

variable {before between after : σ → Prop} {a : α}

theorem pure : Leads before (pure a) a before := fun s hs => ⟨s, rfl, hs⟩

theorem bind {b : β} (hx : Leads before x a between) (hf : Leads between (f a) b after) :
    Leads before (x >>= f) b after := by
  intro s hs
  obtain ⟨t, ht, hbetween⟩ := hx s hs
  obtain ⟨u, hu, hafter⟩ := hf t hbetween
  exact ⟨u, (bind_ok ht).trans hu, hafter⟩

/-- The answer to the whole may depend on the state that the first part leaves. -/
theorem next {P : β → Prop} (hx : Leads before x a between)
    (hf : ∀ t, between t → ∃ b u, f a t = .ok b u ∧ P b) (hs : before s) :
    ∃ b u, (x >>= f) s = .ok b u ∧ P b := by
  obtain ⟨t, ht, hbetween⟩ := hx s hs
  rw [bind_ok ht]
  exact hf t hbetween

/-- A part that is refused after others were granted ends the whole. -/
theorem declines {e : Refusal} (hx : Leads before x a between) (hf : Declines between (f a) e) :
    Declines before (x >>= f) e := by
  intro s hs
  obtain ⟨t, ht, hbetween⟩ := hx s hs
  obtain ⟨u, hu⟩ := hf t hbetween
  exact ⟨u, (bind_ok ht).trans hu⟩

end Leads

end AcceleratorScheduler
