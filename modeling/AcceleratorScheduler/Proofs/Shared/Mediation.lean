import AcceleratorScheduler.Proofs.Answers
import AcceleratorScheduler.Ring

/-! Programs that touch storage through its interface only: they read it, and they store to it.
Where every store is refused such a program changes nothing (`Mediated.unchanged`). The operations
of a ring are programs of this kind, whatever the storage. -/
namespace AcceleratorScheduler

namespace ByteStore

variable {σ : Type} [ByteStore σ]

inductive Mediated : {α : Type} → EStateM Refusal σ α → Prop
  | reading {α : Type} (f : σ → Except Refusal α) : Mediated (reading f)
  | store (offset : Nat) (bytes : List UInt8) : Mediated (store offset bytes)
  | bind {α β : Type} {x : EStateM Refusal σ α} {f : α → EStateM Refusal σ β} :
      Mediated x → (∀ a, Mediated (f a)) → Mediated (x >>= f)

namespace Mediated

variable {α : Type}

theorem pure (a : α) : Mediated (Pure.pure a : EStateM Refusal σ α) := .reading fun _ => .ok a

theorem throw (refusal : Refusal) : Mediated (MonadExcept.throw refusal : EStateM Refusal σ α) :=
  .reading fun _ => .error refusal

theorem get : Mediated (MonadState.get : EStateM Refusal σ σ) := .reading .ok

/-- A program that may not store anywhere. Its parts all start where it started. -/
theorem unchanged {x : EStateM Refusal σ α} (h : Mediated x) {s : σ}
    (hs : ∀ offset length, (objection s offset length).isSome = true) : (answer x s).2 = s := by
  induction h with
  | reading f =>
    rw [answer, AcceleratorScheduler.reading]
    cases f s <;> rfl
  | store offset bytes =>
    obtain ⟨refusal, hr⟩ := Option.isSome_iff_exists.mp (hs offset bytes.length)
    rw [answer, ByteStore.store, hr]
  | @bind _ _ x f _ _ ihx ihf =>
    cases hx : x s with
    | error e t =>
      rw [answer_of_error (bind_error hx)]
      rwa [answer_of_error hx] at ihx
    | ok a t =>
      rw [answer_of_ok hx] at ihx
      obtain rfl : t = s := ihx
      have hf := ihf a
      rwa [answer, ← bind_ok (f := f) hx] at hf

/-- What overwriting bytes does not change, a program does not change. -/
theorem keeps {P : σ → Prop} (hP : ∀ s offset bytes, P s → P (overwrite s offset bytes))
    {x : EStateM Refusal σ α} (h : Mediated x) {s : σ} (hs : P s) : P (answer x s).2 := by
  induction h generalizing s with
  | reading f =>
    rw [answer, AcceleratorScheduler.reading]
    cases f s <;> exact hs
  | store offset bytes =>
    rw [answer, ByteStore.store]
    cases objection s offset bytes.length with
    | none => exact hP s offset bytes hs
    | some e => exact hs
  | @bind _ _ x f _ _ ihx ihf =>
    have hx := ihx hs
    cases hrun : x s with
    | error e t =>
      rw [answer_of_error hrun] at hx
      rwa [answer_of_error (bind_error hrun)]
    | ok a t =>
      rw [answer_of_ok hrun] at hx
      rw [answer, bind_ok hrun]
      exact ihf a hx

end Mediated

end ByteStore

namespace Ring

open ByteStore (Mediated)

variable {σ : Type} [ByteStore σ]

theorem mediated_storeWord (offset : Nat) (word : UInt32) :
    Mediated (storeWord offset word : EStateM Refusal σ Unit) := .store _ _

theorem mediated_storeSlot (index : UInt32) (slot : Slot) :
    Mediated (storeSlot index slot : EStateM Refusal σ Unit) := .store _ _

private theorem mediated_append (h : Header) (slot : Slot) :
    Mediated (storeSlot h.put slot >>= fun _ => storeWord putOffset (h.next h.put) :
      EStateM Refusal σ Unit) :=
  .bind (mediated_storeSlot _ _) fun _ => mediated_storeWord _ _

theorem mediated_push (slot : Slot) : Mediated (push slot : EStateM Refusal σ Unit) := by
  refine .bind (.reading _) fun h => ?_
  split
  · exact .bind (.throw _) fun _ => mediated_append h slot
  · exact mediated_append h slot

theorem mediated_pushOverwrite (slot : Slot) :
    Mediated (pushOverwrite slot : EStateM Refusal σ Unit) := by
  refine .bind (.reading _) fun h => ?_
  split
  · exact .bind (mediated_storeWord _ _) fun _ => mediated_append h slot
  · exact mediated_append h slot

theorem mediated_pop : Mediated (pop : EStateM Refusal σ (Option Slot)) := by
  refine .bind (.reading _) fun h => ?_
  split
  · exact .pure none
  · exact .bind (.reading _) fun slot => .bind (mediated_storeWord _ _) fun _ => .pure (some slot)

theorem mediated_format : Mediated (format : EStateM Refusal σ UInt32) := by
  have hwords (n : Nat) : Mediated (do
      storeWord putOffset 0
      storeWord getOffset 0
      storeWord slotsOffset (.ofNat n)
      storeWord magicOffset magic
      return .ofNat n : EStateM Refusal σ UInt32) :=
    .bind (mediated_storeWord _ _) fun _ => .bind (mediated_storeWord _ _) fun _ =>
      .bind (mediated_storeWord _ _) fun _ => .bind (mediated_storeWord _ _) fun _ => .pure _
  refine .bind .get fun s => ?_
  dsimp only
  split
  · exact .bind (.throw _) fun _ => hwords _
  · exact hwords _

end Ring

end AcceleratorScheduler
