import Libnetwork.Bitseq.Counter

/-!
# The id manager

`idm/idm.go` hands out the ids of a range `[start, end]` through a bitmask
handle of `1 + end - start` bits, id `x` standing for ordinal `x - start`.
This module translates `New` with a nil datastore and the four calls.  An
`Idm` built by `New` always has a handle, so the checks for a nil handle
(`ID set is not initialized`) are left out.  The source's `end` is `stop`.

`Release` unsets ordinal `id - start` without looking at the bit, so the
defect of the counter carries over: releasing a free id adds one to the
handle's count, and enough such releases wrap it to zero while every id is
free; `GetID` then fails.
-/

namespace Libnetwork

open Bitseq

/-- `Idm`: the range of ids and the handle of their bits. -/
structure Idm where
  start : UInt64
  stop : UInt64
  handle : Handle
  deriving DecidableEq, Repr

/-- The errors of the package; those of the handle are passed on. -/
inductive IdmError
  | invalidId
  | invalidSetRange (start stop : UInt64)
  | idNotInSet
  | rangeNotInSet
  | bitseq (e : BitseqError)
  deriving DecidableEq, Repr

/-- The text of each error. -/
def IdmError.message : IdmError → String
  | .invalidId => "Invalid id"
  | .invalidSetRange start stop => s!"Invalid set range: [{start}, {stop}]"
  | .idNotInSet => "Requested id does not belong to the set"
  | .rangeNotInSet => "Requested range does not belong to the set"
  | .bitseq e => e.message

/-- `New(nil, id, start, end)`. -/
def Idm.New (id : String) (start stop : UInt64) : Except IdmError Idm :=
  if id == "" then .error .invalidId
  else if stop <= start then .error (.invalidSetRange start stop)
  else .ok ⟨start, stop, NewHandle (1 + stop - start)⟩

/-- `GetID`: the first available id, from the cursor when `serial`. -/
def Idm.GetID (i : Idm) (serial : Bool) : Idm × UInt64 × Option IdmError :=
  let (h, ordinal, err) := i.handle.SetAny serial
  ({ i with handle := h }, i.start + ordinal, err.map .bitseq)

/-- `GetSpecificID`: reserve the id `id`. -/
def Idm.GetSpecificID (i : Idm) (id : UInt64) : Idm × Option IdmError :=
  if id < i.start || id > i.stop then (i, some .idNotInSet)
  else
    let (h, err) := i.handle.Set (id - i.start)
    ({ i with handle := h }, err.map .bitseq)

/-- `GetIDInRange`: the first available id of `[start, end]`. -/
def Idm.GetIDInRange (i : Idm) (start stop : UInt64) (serial : Bool) :
    Idm × UInt64 × Option IdmError :=
  if start < i.start || stop > i.stop then (i, 0, some .rangeNotInSet)
  else
    let (h, ordinal, err) :=
      i.handle.SetAnyInRange (start - i.start) (stop - i.start) serial
    ({ i with handle := h }, i.start + ordinal, err.map .bitseq)

/-- `Release`: give the id `id` back; the handle's error is dropped. -/
def Idm.Release (i : Idm) (id : UInt64) : Idm :=
  { i with handle := (i.handle.Unset (id - i.start)).1 }

/-! ## Runs of calls -/

/-- The calls of the id manager. -/
inductive Idm.Call
  | getID (serial : Bool)
  | getIDInRange (start stop : UInt64) (serial : Bool)
  | getSpecificID (id : UInt64)
  | release (id : UInt64)
  deriving DecidableEq, Repr

/-- The id manager after one call. -/
def Idm.call (i : Idm) : Idm.Call → Idm
  | .getID serial => (i.GetID serial).1
  | .getIDInRange start stop serial => (i.GetIDInRange start stop serial).1
  | .getSpecificID id => (i.GetSpecificID id).1
  | .release id => i.Release id

/-- The id managers that calls on the result of `New id start end` lead to. -/
def Idm.Reachable (id : String) (start stop : UInt64) (i : Idm) : Prop :=
  ∃ i₀, Idm.New id start stop = .ok i₀ ∧ Transition.Reachable Idm.call i₀ i

theorem Idm.call_release (i : Idm) (id : UInt64) :
    i.call (.release id) = { i with handle := i.handle.call (.unset (id - i.start)) } :=
  rfl

theorem Idm.run_release (i : Idm) (id : UInt64) (k : ℕ) :
    Transition.run Idm.call i (List.replicate k (.release id)) =
      { i with handle :=
          Transition.run Handle.call i.handle (List.replicate k (.unset (id - i.start))) } := by
  induction k generalizing i with
  | zero => rfl
  | succ k ih =>
      rw [List.replicate_succ, Transition.run_cons, Idm.call_release, ih]
      rfl

/-- On a fresh manager of `[0, 1]`, `2 ^ 64 - 2` releases of the free id `0`
wrap the handle's count to zero while both ids are free, and `GetID` fails. -/
theorem release_free_id_exhausts :
    Idm.New "idm" 0 1 = .ok ⟨0, 1, NewHandle 2⟩ ∧
      Transition.run Idm.call ⟨0, 1, NewHandle 2⟩ (List.replicate (2 ^ 64 - 2) (.release 0)) =
        ⟨0, 1, { NewHandle 2 with unselected := 0 }⟩ ∧
      (decode (NewHandle 2).head)[0]? = some false ∧
      (decode (NewHandle 2).head)[1]? = some false ∧
      (Idm.GetID ⟨0, 1, { NewHandle 2 with unselected := 0 }⟩ false).2.2 =
        some (.bitseq .noBitAvailable) := by
  refine ⟨by decide, ?_, by decide, by decide, rfl⟩
  rw [Idm.run_release, Handle.run_unset_of_free (wellFormed_newHandle (by decide))
    (by decide) (by decide)]
  decide

end Libnetwork
