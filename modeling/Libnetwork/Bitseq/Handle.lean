import Libnetwork.Bitseq.Sequence
import Libnetwork.Support.Transition

/-!
# The bitmask handle of `bitseq`

`Handle` in `bitseq/sequence.go` owns the encoded list together with the
number of bits it manages, the count of unselected bits and the cursor `curr`
used by serial allocation.  This module translates `NewHandle`, the private
`set` that every update goes through, and the calls `SetAnyInRange`,
`SetAny`, `Set`, `Unset` and `IsSet`.

The handles modelled here have no datastore (`ds = nil`), so `set` runs its
`for` loop once and the store fields (`app`, `id`, `dbIndex`, `dbExists`,
`store`) play no part and are left out.  A call returns the handle after it,
the ordinal the source returns and the error, `none` standing for `nil`.
-/

namespace Libnetwork.Bitseq

/-- The state of a bitmask handle without datastore. -/
structure Handle where
  bits : UInt64
  unselected : UInt64
  head : List Sequence
  curr : UInt64
  deriving DecidableEq, Repr

/-- `NewHandle(app, nil, id, numElements)`: all bits unselected, one node of
empty blocks. -/
def NewHandle (numElements : UInt64) : Handle where
  bits := numElements
  unselected := numElements
  head := [⟨0x0, getNumBlocks numElements⟩]
  curr := 0

/-- `validateOrdinal`: only ordinals below `bits` belong to the sequence. -/
def Handle.validateOrdinal (h : Handle) (ordinal : UInt64) :
    Option BitseqError :=
  if ordinal >= h.bits then some .notInSequence else none

/-- The last part of `set`: push the reservation into the list and adjust the
unselected count, whether or not the list changed. -/
def Handle.commit (h : Handle) (bytePos bitPos : UInt64) (release : Bool) :
    Handle :=
  { h with
    head := pushReservation bytePos bitPos h.head release
    unselected := if release then h.unselected + 1 else h.unselected - 1 }

/-- `set`: release `ordinal`, set it, or (`any`) set the first unset bit of
`[start, stop]`, from the cursor when `serial`.  The source's `end` is
`stop`. -/
def Handle.set (h : Handle) (ordinal start stop : UInt64)
    (any release serial : Bool) : Handle × UInt64 × Option BitseqError :=
  let curr := if serial then h.curr else 0
  if release then
    let (bytePos, bitPos) := ordinalToPos ordinal
    (h.commit bytePos bitPos true, 0, none)
  else if any then
    match getAvailableFromCurrent h.head start curr stop with
    | .ok (bytePos, bitPos) =>
        let ret := posToOrdinal bytePos bitPos
        ({ h.commit bytePos bitPos false with curr := ret + 1 }, ret, none)
    | .error e => (h, posToOrdinal invalidPos invalidPos, some e)
  else
    match checkIfAvailable h.head ordinal with
    | .ok (bytePos, bitPos) => (h.commit bytePos bitPos false, ordinal, none)
    | .error e => (h, ordinal, some e)

/-- `SetAnyInRange`: set the first unset bit of `[start, stop]`. -/
def Handle.SetAnyInRange (h : Handle) (start stop : UInt64) (serial : Bool) :
    Handle × UInt64 × Option BitseqError :=
  if stop < start || stop >= h.bits then
    (h, invalidPos, some (.invalidBitRange start stop))
  else if h.unselected == 0 then (h, invalidPos, some .noBitAvailable)
  else h.set 0 start stop true false serial

/-- `SetAny`: set the first unset bit of the sequence. -/
def Handle.SetAny (h : Handle) (serial : Bool) :
    Handle × UInt64 × Option BitseqError :=
  if h.unselected == 0 then (h, invalidPos, some .noBitAvailable)
  else h.set 0 0 (h.bits - 1) true false serial

/-- `Set`: set the bit `ordinal`. -/
def Handle.Set (h : Handle) (ordinal : UInt64) : Handle × Option BitseqError :=
  match h.validateOrdinal ordinal with
  | some e => (h, some e)
  | none =>
      let r := h.set ordinal 0 0 false false false
      (r.1, r.2.2)

/-- `Unset`: clear the bit `ordinal`. -/
def Handle.Unset (h : Handle) (ordinal : UInt64) : Handle × Option BitseqError :=
  match h.validateOrdinal ordinal with
  | some e => (h, some e)
  | none =>
      let r := h.set ordinal 0 0 false true false
      (r.1, r.2.2)

/-- `IsSet`: whether the bit `ordinal` is set; `false` outside the sequence. -/
def Handle.IsSet (h : Handle) (ordinal : UInt64) : Bool :=
  match h.validateOrdinal ordinal with
  | some _ => false
  | none =>
      match checkIfAvailable h.head ordinal with
      | .ok _ => false
      | .error _ => true

/-! ## Runs of calls -/

/-- The calls that change a handle. -/
inductive Call
  | set (ordinal : UInt64)
  | unset (ordinal : UInt64)
  | setAny (serial : Bool)
  | setAnyInRange (start stop : UInt64) (serial : Bool)
  deriving DecidableEq, Repr

/-- The handle after one call. -/
def Handle.call (h : Handle) : Call → Handle
  | .set ordinal => (h.Set ordinal).1
  | .unset ordinal => (h.Unset ordinal).1
  | .setAny serial => (h.SetAny serial).1
  | .setAnyInRange start stop serial => (h.SetAnyInRange start stop serial).1

/-- The handles that calls on a fresh handle of `numElements` bits lead to. -/
def Reachable (numElements : UInt64) : Handle → Prop :=
  Transition.Reachable Handle.call (NewHandle numElements)

@[simp] theorem Handle.commit_bits (h : Handle) (bytePos bitPos : UInt64)
    (release : Bool) : (h.commit bytePos bitPos release).bits = h.bits := rfl

@[simp] theorem Handle.commit_head (h : Handle) (bytePos bitPos : UInt64)
    (release : Bool) :
    (h.commit bytePos bitPos release).head =
      pushReservation bytePos bitPos h.head release := rfl

@[simp] theorem Handle.commit_unselected (h : Handle) (bytePos bitPos : UInt64)
    (release : Bool) :
    (h.commit bytePos bitPos release).unselected =
      if release then h.unselected + 1 else h.unselected - 1 := rfl

end Libnetwork.Bitseq
