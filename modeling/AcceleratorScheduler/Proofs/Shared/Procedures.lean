import AcceleratorScheduler.Memory
import AcceleratorScheduler.Proofs.Answers

/-! Programs over storage, as data: each node is one access, and says how to go on. A program runs
on any storage (`Procedure.run`), and what it asks of the storage on the way can be listed
(`Procedure.accesses`). -/
namespace AcceleratorScheduler.ByteStore

structure Access where
  stores : Bool
  offset : Nat
  length : Nat
  deriving DecidableEq, Repr

def Access.Inside (access : Access) (size : Nat) : Prop := access.offset + access.length ≤ size

instance (access : Access) (size : Nat) : Decidable (access.Inside size) := by
  unfold Access.Inside; infer_instance

/-- A program that reaches its storage by measuring it, loading and storing. An access that is
refused ends it with the refusal. -/
inductive Procedure (α : Type) where
  | finish (outcome : Except Refusal α)
  | measure (next : Nat → Procedure α)
  | load (offset length : Nat) (next : Vector UInt8 length → Procedure α)
  | store (offset : Nat) (bytes : List UInt8) (next : Procedure α)

namespace Procedure

variable {α β σ : Type}

def refuse (refusal : Refusal) : Procedure α := finish (.error refusal)

def bind : Procedure α → (α → Procedure β) → Procedure β
  | finish (.ok a), f => f a
  | finish (.error refusal), _ => refuse refusal
  | measure next, f => measure fun size => (next size).bind f
  | load offset length next, f => load offset length fun bytes => (next bytes).bind f
  | store offset bytes next, f => store offset bytes (next.bind f)

instance : Monad Procedure where
  pure a := finish (.ok a)
  bind := bind

variable [ByteStore σ]

def run : Procedure α → EStateM Refusal σ α
  | finish outcome => reading fun _ => outcome
  | measure next => fun s => (next (size s)).run s
  | load offset length next =>
    reading (fun s => ByteStore.load s offset length) >>= fun bytes => (next bytes).run
  | store offset bytes next => ByteStore.store offset bytes >>= fun _ => next.run

/-- The accesses of a run, in order. A refused one is the last. -/
def accesses : Procedure α → σ → List Access
  | finish _, _ => []
  | measure next, s => (next (size s)).accesses s
  | load offset length next, s => ⟨false, offset, length⟩ ::
    match ByteStore.load s offset length with
    | .ok bytes => (next bytes).accesses s
    | .error _ => []
  | store offset bytes next, s => ⟨true, offset, bytes.length⟩ ::
    match objection s offset bytes.length with
    | none => next.accesses (overwrite s offset bytes)
    | some _ => []

variable {s t : σ} {a : α} {e : Refusal} {offset length : Nat} {bytes : List UInt8}

section

variable {next : Vector UInt8 length → Procedure α}

theorem run_load_of_ok {found : Vector UInt8 length}
    (h : ByteStore.load s offset length = .ok found) :
    (load offset length next).run s = (next found).run s :=
  bind_ok (reading_of_ok h)

theorem run_load_of_error (h : ByteStore.load s offset length = .error e) :
    (load offset length next).run s = .error e s :=
  bind_error (reading_of_error h)

theorem accesses_load_of_ok {found : Vector UInt8 length}
    (h : ByteStore.load s offset length = .ok found) :
    (load offset length next).accesses s = ⟨false, offset, length⟩ :: (next found).accesses s := by
  rw [accesses, h]

theorem accesses_load_of_error (h : ByteStore.load s offset length = .error e) :
    (load offset length next).accesses s = [⟨false, offset, length⟩] := by
  rw [accesses, h]

end

section

variable {next : Procedure α}

theorem run_store_of_none (h : objection s offset bytes.length = none) :
    (store offset bytes next).run s = next.run (overwrite s offset bytes) := by
  have hstore : ByteStore.store offset bytes s = .ok () (overwrite s offset bytes) := by
    rw [ByteStore.store, h]
  exact bind_ok hstore

theorem run_store_of_some (h : objection s offset bytes.length = some e) :
    (store offset bytes next).run s = .error e s := by
  have hstore : ByteStore.store offset bytes s = .error e s := by
    rw [ByteStore.store, h]
  exact bind_error hstore

theorem accesses_store_of_none (h : objection s offset bytes.length = none) :
    (store offset bytes next).accesses s =
      ⟨true, offset, bytes.length⟩ :: next.accesses (overwrite s offset bytes) := by
  rw [accesses, h]

theorem accesses_store_of_some (h : objection s offset bytes.length = some e) :
    (store offset bytes next).accesses s = [⟨true, offset, bytes.length⟩] := by
  rw [accesses, h]

end

section

variable (f : α → Procedure β)

@[simp] theorem run_pure (a : α) : (pure a : Procedure α).run = (pure a : EStateM Refusal σ α) :=
  rfl

@[simp] theorem run_refuse (e : Refusal) :
    (refuse e : Procedure α).run = (throw e : EStateM Refusal σ α) := rfl

theorem run_measure (next : Nat → Procedure α) (s : σ) :
    (measure next).run s = (next (size s)).run s := rfl

/-- One program after another. The induction is on the first, access by access. -/
theorem run_bind (p : Procedure α) :
    (p >>= f).run = (p.run >>= fun a => (f a).run : EStateM Refusal σ β) := by
  induction p with
  | finish outcome => cases outcome <;> rfl
  | measure next ih =>
    funext s
    exact congrFun (ih (size s)) s
  | load offset length next ih =>
    change (reading (fun s => ByteStore.load s offset length) >>= fun bytes =>
      (next bytes >>= f).run) = _
    simp only [ih, run, bind_assoc]
  | store offset bytes next ih =>
    change (ByteStore.store offset bytes >>= fun _ => (next >>= f).run) = _
    simp only [ih, run, bind_assoc]

/-- The accesses of the second program come behind those of the first, if it is reached. -/
theorem accesses_bind (p : Procedure α) (s : σ) : (p >>= f).accesses s =
    p.accesses s ++ match p.run s with
      | .ok a t => (f a).accesses t
      | .error _ _ => [] := by
  induction p generalizing s with
  | finish outcome => cases outcome <;> rfl
  | measure next ih => exact ih (size s) s
  | load offset length next ih =>
    cases hload : ByteStore.load s offset length with
    | ok found =>
      rw [run_load_of_ok hload, accesses_load_of_ok hload]
      refine (accesses_load_of_ok hload).trans ?_
      exact congrArg (List.cons _) (ih found s)
    | error e =>
      rw [run_load_of_error hload, accesses_load_of_error hload]
      exact accesses_load_of_error hload
  | store offset bytes next ih =>
    cases hstore : objection s offset bytes.length with
    | none =>
      rw [run_store_of_none hstore, accesses_store_of_none hstore]
      refine (accesses_store_of_none hstore).trans ?_
      exact congrArg (List.cons _) (ih _)
    | some e =>
      rw [run_store_of_some hstore, accesses_store_of_some hstore]
      exact accesses_store_of_some hstore

theorem accesses_bind_of_ok {p : Procedure α} (h : p.run s = .ok a t) :
    (p >>= f).accesses s = p.accesses s ++ (f a).accesses t := by
  rw [accesses_bind, h]

/-- What is made of an outcome asks for nothing more. -/
theorem accesses_bind_pure (p : Procedure α) (g : α → β) (s : σ) :
    (p >>= fun a => pure (g a)).accesses s = p.accesses s := by
  rw [accesses_bind]
  cases p.run s <;> exact List.append_nil _

end

section

variable {next : Vector UInt8 length → Procedure α} {rest : Procedure α}

theorem answer_load_of_ok {found : Vector UInt8 length}
    (h : ByteStore.load s offset length = .ok found) :
    answer (load offset length next).run s = answer (next found).run s := by
  rw [answer, run_load_of_ok h, answer]

theorem answer_load_of_error (h : ByteStore.load s offset length = .error e) :
    answer (load offset length next).run s = (.error e, s) :=
  answer_of_error (run_load_of_error h)

theorem answer_store_of_none (h : objection s offset bytes.length = none) :
    answer (store offset bytes rest).run s = answer rest.run (overwrite s offset bytes) := by
  rw [answer, run_store_of_none h, answer]

theorem answer_store_of_some (h : objection s offset bytes.length = some e) :
    answer (store offset bytes rest).run s = (.error e, s) :=
  answer_of_error (run_store_of_some h)

end

/-- A single access, granted or refused. -/
theorem accesses_load_pure (offset length : Nat) (g : Vector UInt8 length → α) (s : σ) :
    (load offset length fun bytes => pure (g bytes)).accesses s = [⟨false, offset, length⟩] := by
  cases h : ByteStore.load s offset length with
  | ok bytes => exact accesses_load_of_ok h
  | error e => exact accesses_load_of_error h

theorem accesses_store_pure (offset : Nat) (bytes : List UInt8) (a : α) (s : σ) :
    (store offset bytes (pure a)).accesses s = [⟨true, offset, bytes.length⟩] := by
  cases h : objection s offset bytes.length with
  | none => exact accesses_store_of_none h
  | some e => exact accesses_store_of_some h

end Procedure

end AcceleratorScheduler.ByteStore
