import AcceleratorScheduler.Proofs.Shared.Procedures
import AcceleratorScheduler.Shared.View

/-! Programs through a view of part of a region, beside the same programs on the part by itself. A
view for writing agrees with the part in everything (`run_writable`); a view for reading differs
from the first store on (`run_readOnly`); through a view whose link is cut nothing is reached
(`run_cut`). Each is by induction on the program. -/
namespace AcceleratorScheduler

namespace Memory

/-- A region that begins with the bytes of a slice, and goes on as another region does. -/
structure Extends (region slice rest : Memory) : Prop where
  size_eq : region.size = rest.size
  fits : slice.size ≤ region.size
  front {i : Nat} : i < slice.size → region.get i = slice.get i
  behind {i : Nat} : slice.size ≤ i → region.get i = rest.get i

variable {region slice rest : Memory} {offset length : Nat}

theorem extends_of_toList (hl : length ≤ region.size)
    (hs : slice.toList = region.toList.take length) : region.Extends slice region := by
  have hsize : slice.size = length := by
    rw [← length_toList, hs, List.length_take, length_toList, Nat.min_eq_left hl]
  refine ⟨rfl, hsize ▸ hl, fun {i} hi => ?_, fun _ => rfl⟩
  have hbyte := congrArg (fun bytes : List UInt8 => bytes[i]?) hs
  rw [List.getElem?_take_of_lt (hsize ▸ hi), getElem?_toList, getElem?_toList, if_pos hi,
    if_pos (Nat.lt_of_lt_of_le hi (hsize ▸ hl))] at hbyte
  exact (Option.some.inj hbyte).symm

/-- The front of a region, as memory of its own. -/
theorem toList_front (hl : length ≤ region.size) :
    toList { region with size := length } = region.toList.take length := by
  rw [toList, toList, ← List.map_take, List.take_range, Nat.min_eq_left hl]
  rfl

theorem objection_eq_none (h : ByteStore.objection slice offset length = none) :
    offset + length ≤ slice.size := by
  change Memory.objection slice offset length = none at h
  rw [objection] at h
  split at h
  next hf => exact hf
  next => cases h

namespace Extends

theorem refl (m : Memory) : m.Extends m m := ⟨rfl, Nat.le_refl _, fun _ => rfl, fun _ => rfl⟩

theorem toList_eq (h : region.Extends slice rest) :
    region.toList = slice.toList ++ rest.toList.drop slice.size := by
  apply List.ext_getElem?
  intro i
  rw [getElem?_toList]
  by_cases hi : i < slice.size
  · rw [List.getElem?_append_left (by rwa [length_toList]), getElem?_toList, if_pos hi,
      if_pos (Nat.lt_of_lt_of_le hi h.fits), h.front hi]
  · have hle := Nat.le_of_not_lt hi
    rw [List.getElem?_append_right (by rwa [length_toList]), length_toList, List.getElem?_drop,
      Nat.add_sub_cancel' hle, getElem?_toList, ← h.size_eq, h.behind hle]

theorem overwrite (h : region.Extends slice rest) (bytes : List UInt8)
    (hf : offset + bytes.length ≤ slice.size) :
    (region.overwrite offset bytes).Extends (slice.overwrite offset bytes) rest where
  size_eq := (size_overwrite ..).trans h.size_eq
  fits := by simpa using h.fits
  front {i} hi := by
    rw [size_overwrite] at hi
    rw [get_overwrite _ _ _ _ hf, get_overwrite _ _ _ _ (Nat.le_trans hf h.fits), h.front hi]
  behind {i} hi := by
    rw [size_overwrite] at hi
    rw [get_overwrite _ _ _ _ (Nat.le_trans hf h.fits), if_neg (by omega), h.behind hi]

end Extends

end Memory

namespace Window

open Memory (Extends)

variable {region slice rest : Memory} {writable : Bool} {offset length : Nat}

/-- What the window refuses is outside the slice, and what it gives is what stands there. -/
theorem load_of_extends (h : region.Extends slice rest) : ByteStore.load
    (⟨slice.size, writable, some region⟩ : Window) offset length =
      ByteStore.load slice offset length := by
  change Window.load _ offset length = Memory.load slice offset length
  rw [Window.load, Memory.load]
  split
  next hf =>
    change Memory.load region offset length = _
    rw [Memory.load, if_pos (Nat.le_trans hf h.fits)]
    refine congrArg Except.ok (Vector.ext fun i hi => ?_)
    rw [Vector.getElem_ofFn, Vector.getElem_ofFn]
    exact h.front (Nat.lt_of_lt_of_le (Nat.add_lt_add_left hi offset) hf)
  next => rfl

theorem objection_of_extends (h : region.Extends slice rest) : ByteStore.objection
    (⟨slice.size, true, some region⟩ : Window) offset length =
      ByteStore.objection slice offset length := by
  change Window.objection _ offset length = Memory.objection slice offset length
  rw [Window.objection, Memory.objection]
  split
  next hw => cases hw
  split
  next hf => exact if_pos (Nat.le_trans hf h.fits)
  next => rfl

theorem objection_readOnly (w : Window) (hw : w.writable = false) :
    ByteStore.objection w offset length = some .permissionDenied := by
  change Window.objection w offset length = _
  rw [Window.objection, hw]
  rfl

end Window

namespace ByteStore

open Memory (Extends)

def uptoStore : List Access → List Access
  | [] => []
  | access :: rest => if access.stores then [access] else access :: uptoStore rest

def storesAny (accesses : List Access) : Bool := accesses.any Access.stores

namespace Procedure

variable {α : Type} {region slice rest : Memory}

/-- No program makes its memory longer or shorter. -/
theorem size_run (p : Procedure α) (m : Memory) : (answer p.run m).2.size = m.size := by
  induction p generalizing m with
  | finish outcome => cases outcome <;> rfl
  | measure next ih => exact ih m.size m
  | load offset length next ih =>
    cases hload : ByteStore.load m offset length with
    | ok bytes => rw [answer_load_of_ok hload, ih]
    | error e => rw [answer_load_of_error hload]
  | store offset bytes next ih =>
    cases hstore : objection m offset bytes.length with
    | none =>
      rw [answer_store_of_none hstore, ih]
      exact m.size_overwrite offset bytes
    | some e => rw [answer_store_of_some hstore]

/-- Through a view for writing a program does what it does on the slice, and the bytes behind the
slice stay. A slice that is the whole region stays the whole of it. -/
theorem run_writable (p : Procedure α) (h : region.Extends slice rest) :
    ∃ region', region'.Extends (answer p.run slice).2 rest ∧
      answer p.run (⟨slice.size, true, some region⟩ : Window) =
        ((answer p.run slice).1, ⟨slice.size, true, some region'⟩) ∧
      p.accesses (⟨slice.size, true, some region⟩ : Window) = p.accesses slice ∧
      (region = slice → region' = (answer p.run slice).2) := by
  induction p generalizing region slice with
  | finish outcome => cases outcome <;> exact ⟨region, h, rfl, rfl, id⟩
  | measure next ih => exact ih slice.size h
  | load offset length next ih =>
    have hsame : ByteStore.load (⟨slice.size, true, some region⟩ : Window) offset length = _ :=
      Window.load_of_extends h
    cases hload : ByteStore.load slice offset length with
    | ok bytes =>
      rw [hload] at hsame
      rw [answer_load_of_ok hload, answer_load_of_ok hsame, accesses_load_of_ok hload,
        accesses_load_of_ok hsame]
      obtain ⟨region', hext, hanswer, hacc, hwhole⟩ := ih bytes h
      exact ⟨region', hext, hanswer, congrArg (List.cons _) hacc, hwhole⟩
    | error e =>
      rw [hload] at hsame
      rw [answer_load_of_error hload, answer_load_of_error hsame, accesses_load_of_error hload,
        accesses_load_of_error hsame]
      exact ⟨region, h, rfl, rfl, id⟩
  | store offset bytes next ih =>
    have hsame : objection (⟨slice.size, true, some region⟩ : Window) offset bytes.length = _ :=
      Window.objection_of_extends h
    cases hstore : objection slice offset bytes.length with
    | none =>
      rw [hstore] at hsame
      have hf := Memory.objection_eq_none hstore
      rw [answer_store_of_none hstore, answer_store_of_none hsame, accesses_store_of_none hstore,
        accesses_store_of_none hsame]
      obtain ⟨region', hext, hanswer, hacc, hwhole⟩ := ih (h.overwrite bytes hf)
      rw [Memory.size_overwrite] at hanswer hacc
      exact ⟨region', hext, hanswer, congrArg (List.cons _) hacc,
        fun hr => hwhole (congrArg (Memory.overwrite · offset bytes) hr)⟩
    | some e =>
      rw [hstore] at hsame
      rw [answer_store_of_some hstore, answer_store_of_some hsame, accesses_store_of_some hstore,
        accesses_store_of_some hsame]
      exact ⟨region, h, rfl, rfl, id⟩

/-- A window for reading refuses at the first store. Up to it the program does what it does on the
slice, and it changes nothing. -/
theorem run_readOnly (p : Procedure α) (h : region.Extends slice rest) :
    answer p.run (⟨slice.size, false, some region⟩ : Window) =
        (if storesAny (p.accesses slice) then .error .permissionDenied
          else (answer p.run slice).1, ⟨slice.size, false, some region⟩) ∧
      p.accesses (⟨slice.size, false, some region⟩ : Window) = uptoStore (p.accesses slice) := by
  induction p with
  | finish outcome => cases outcome <;> exact ⟨rfl, rfl⟩
  | measure next ih => exact ih slice.size
  | load offset length next ih =>
    have hsame : ByteStore.load (⟨slice.size, false, some region⟩ : Window) offset length = _ :=
      Window.load_of_extends h
    cases hload : ByteStore.load slice offset length with
    | ok bytes =>
      rw [hload] at hsame
      rw [answer_load_of_ok hload, answer_load_of_ok hsame, accesses_load_of_ok hload,
        accesses_load_of_ok hsame]
      obtain ⟨hanswer, hacc⟩ := ih bytes
      exact ⟨hanswer, congrArg (List.cons _) hacc⟩
    | error e =>
      rw [hload] at hsame
      rw [answer_load_of_error hload, answer_load_of_error hsame, accesses_load_of_error hload,
        accesses_load_of_error hsame]
      exact ⟨rfl, rfl⟩
  | store offset bytes next ih =>
    have hdenied : objection (⟨slice.size, false, some region⟩ : Window) offset bytes.length =
        some .permissionDenied := Window.objection_readOnly _ rfl
    rw [answer_store_of_some hdenied, accesses_store_of_some hdenied, accesses]
    exact ⟨rfl, rfl⟩

/-- A program that reaches its storage or is refused its arguments, whatever the storage. -/
def Asks : Procedure α → Prop
  | finish outcome => outcome = .error .invalidArgument
  | measure next => ∀ size, (next size).Asks
  | load .. => True
  | store .. => True

theorem Asks.bind {β : Type} {p : Procedure α} (h : p.Asks) (f : α → Procedure β) :
    (p >>= f).Asks := by
  induction p with
  | finish outcome =>
    obtain rfl := h
    exact rfl
  | measure next ih => exact fun size => ih size (h size)
  | load | store => trivial

/-- Through a view whose link is cut a program that asks for anything fails, and changes nothing. -/
theorem run_cut {p : Procedure α} (h : p.Asks) (length : Nat) (writable : Bool) :
    ∃ e ∈ [Refusal.invalidArgument, .permissionDenied, .fault],
      answer p.run (⟨length, writable, none⟩ : Window) =
        (.error e, ⟨length, writable, none⟩) := by
  induction p with
  | finish outcome =>
    obtain rfl := h
    exact ⟨_, List.mem_cons_self, rfl⟩
  | measure next ih => exact ih length (h length)
  | load offset count next =>
    obtain ⟨e, he, hload⟩ : ∃ e ∈ [Refusal.invalidArgument, .permissionDenied, .fault],
        ByteStore.load (⟨length, writable, none⟩ : Window) offset count = .error e := by
      change ∃ e ∈ _, Window.load _ _ _ = _
      rw [Window.load]
      split
      · exact ⟨.fault, by simp, rfl⟩
      · exact ⟨.invalidArgument, by simp, rfl⟩
    exact ⟨e, he, answer_load_of_error hload⟩
  | store offset bytes next =>
    obtain ⟨e, he, hstore⟩ : ∃ e ∈ [Refusal.invalidArgument, .permissionDenied, .fault],
        objection (⟨length, writable, none⟩ : Window) offset bytes.length = some e := by
      change ∃ e ∈ _, Window.objection _ _ _ = _
      rw [Window.objection]
      split
      · exact ⟨.permissionDenied, by simp, rfl⟩
      split
      · exact ⟨.fault, by simp, rfl⟩
      · exact ⟨.invalidArgument, by simp, rfl⟩
    exact ⟨e, he, answer_store_of_some hstore⟩

end Procedure

end ByteStore

end AcceleratorScheduler
