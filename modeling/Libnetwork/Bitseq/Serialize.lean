import Libnetwork.Bitseq.Handle
import Libnetwork.Support.BigEndian

/-!
# The byte form of a handle

`Handle.ToByteArray` writes `bits` and `unselected` as eight bytes each and
then every node as twelve: its block in four bytes and its count in eight,
all big-endian.  `FromByteArray` reads them back from a slice that may come
from the datastore.

Writing and reading back restores the three fields of a handle with a
non-empty list, and a slice that reads without error is the slice its
result writes.  A non-nil slice of at most sixteen bytes is not refused:
`ba[16:]` is out of range below sixteen bytes, and at sixteen the loop of
`fromByteArray` reads a first node before it looks for the end.  The model
answers `none` where the source panics, and takes `none` for a `nil` slice
argument.
-/

namespace Libnetwork.Bitseq

open BigEndian

/-- `binary.BigEndian.PutUint32`. -/
def putUint32 (v : UInt32) : List UInt8 := toBytes 4 v.toNat

/-- `binary.BigEndian.PutUint64`. -/
def putUint64 (v : UInt64) : List UInt8 := toBytes 8 v.toNat

/-- `binary.BigEndian.Uint32` of a four-byte slice. -/
def uint32 (b : List UInt8) : UInt32 := UInt32.ofNat (ofBytes b)

/-- `binary.BigEndian.Uint64` of an eight-byte slice. -/
def uint64 (b : List UInt8) : UInt64 := UInt64.ofNat (ofBytes b)

/-- `sequence.toByteArray`: twelve bytes a node, its block then its count. -/
def toByteArray (head : List Sequence) : List UInt8 :=
  head.flatMap fun p => putUint32 p.block ++ putUint64 p.count

/-- The loop of `fromByteArray` over the bytes from `i` on: it reads a node,
panicking when fewer than twelve bytes are left, and stops once `i` reaches
the end. -/
def fromByteArrayLoop (r : List UInt8) : Option (List Sequence) :=
  if r.length < 12 then none
  else
    let s : Sequence := ⟨uint32 (r.take 4), uint64 ((r.drop 4).take 8)⟩
    if r.length = 12 then some [s]
    else (fromByteArrayLoop (r.drop 12)).map (s :: ·)
termination_by r.length
decreasing_by simp only [List.length_drop]; omega

/-- `%v` of a byte slice. -/
def bytesText (b : List UInt8) : String :=
  "[" ++ " ".intercalate (b.map fun x => toString x.toNat) ++ "]"

/-- `sequence.fromByteArray`: the list of nodes, an error for a length that
is not a multiple of twelve, `none` where it panics. -/
def fromByteArray (data : List UInt8) : Option (Except String (List Sequence)) :=
  if data.length % 12 != 0 then
    some (.error ("cannot deserialize byte sequence of length " ++ toString data.length ++ " (" ++
      bytesText data ++ ")"))
  else (fromByteArrayLoop data).map .ok

def Handle.ToByteArray (h : Handle) : List UInt8 :=
  putUint64 h.bits ++ putUint64 h.unselected ++ toByteArray h.head

/-- `Handle.FromByteArray` of the slice `ba` (`none` is a `nil` slice): the
handle after the call and the error; `none` where the call panics. -/
def Handle.FromByteArray (h : Handle) (ba : Option (List UInt8)) :
    Option (Handle × Option String) :=
  match ba with
  | none => some (h, some "nil byte array")
  | some ba =>
      -- `ba[16:]` is out of range below sixteen bytes
      if ba.length < 16 then none
      else
        match fromByteArray (ba.drop 16) with
        | none => none
        | some (.error e) => some (h, some ("failed to deserialize head: " ++ e))
        | some (.ok head) =>
            some ({ h with head, bits := uint64 (ba.take 8), unselected := uint64 ((ba.drop 8).take 8) },
              none)

/-! ## Fields -/

@[simp] theorem length_putUint32 (v : UInt32) : (putUint32 v).length = 4 := by
  simp [putUint32]

@[simp] theorem length_putUint64 (v : UInt64) : (putUint64 v).length = 8 := by
  simp [putUint64]

@[simp] theorem uint32_putUint32 (v : UInt32) : uint32 (putUint32 v) = v := by
  rw [uint32, putUint32, ofBytes_toBytes (by have := v.toNat_lt; omega), UInt32.ofNat_toNat]

@[simp] theorem uint64_putUint64 (v : UInt64) : uint64 (putUint64 v) = v := by
  rw [uint64, putUint64, ofBytes_toBytes (by have := v.toNat_lt; omega), UInt64.ofNat_toNat]

theorem putUint32_uint32 {b : List UInt8} (hb : b.length = 4) : putUint32 (uint32 b) = b := by
  have hlt := ofBytes_lt b
  rw [hb] at hlt
  rw [putUint32, uint32, UInt32.toNat_ofNat', Nat.mod_eq_of_lt (by omega), ← hb, toBytes_ofBytes]

theorem putUint64_uint64 {b : List UInt8} (hb : b.length = 8) : putUint64 (uint64 b) = b := by
  have hlt := ofBytes_lt b
  rw [hb] at hlt
  rw [putUint64, uint64, UInt64.toNat_ofNat', Nat.mod_eq_of_lt (by omega), ← hb, toBytes_ofBytes]

/-! ## The list of nodes -/

@[simp] theorem toByteArray_nil : toByteArray [] = [] := rfl

@[simp] theorem toByteArray_cons (s : Sequence) (l : List Sequence) :
    toByteArray (s :: l) = putUint32 s.block ++ putUint64 s.count ++ toByteArray l := by
  simp [toByteArray]

@[simp] theorem length_toByteArray (l : List Sequence) : (toByteArray l).length = 12 * l.length := by
  induction l with
  | nil => rfl
  | cons s l ih => simp [ih]; omega

theorem take_four_node (s : Sequence) (rest : List UInt8) :
    (putUint32 s.block ++ putUint64 s.count ++ rest).take 4 = putUint32 s.block := by
  simp

theorem drop_four_take_eight_node (s : Sequence) (rest : List UInt8) :
    ((putUint32 s.block ++ putUint64 s.count ++ rest).drop 4).take 8 = putUint64 s.count := by
  simp

theorem drop_twelve_node (s : Sequence) (rest : List UInt8) :
    (putUint32 s.block ++ putUint64 s.count ++ rest).drop 12 = rest :=
  List.drop_left' (by simp)

theorem fromByteArrayLoop_toByteArray {l : List Sequence} (hl : l ≠ []) :
    fromByteArrayLoop (toByteArray l) = some l := by
  induction l with
  | nil => exact absurd rfl hl
  | cons s l ih =>
      have hlen : (toByteArray (s :: l)).length = 12 + 12 * l.length := by
        simp only [length_toByteArray, List.length_cons]
        omega
      rw [fromByteArrayLoop, if_neg (by omega)]
      simp only [toByteArray_cons, take_four_node, drop_four_take_eight_node, uint32_putUint32,
        uint64_putUint64]
      cases l with
      | nil => rfl
      | cons t l =>
          rw [if_neg (by simp only [List.length_append, length_putUint32, length_putUint64,
              length_toByteArray, List.length_cons]; omega),
            drop_twelve_node, ih (List.cons_ne_nil _ _)]
          rfl

theorem toByteArray_of_fromByteArrayLoop {r : List UInt8} {l : List Sequence}
    (h : fromByteArrayLoop r = some l) : toByteArray l = r := by
  induction r using fromByteArrayLoop.induct generalizing l with
  | case1 r hshort => simp [fromByteArrayLoop, hshort] at h
  | case2 r hlong hlast =>
      rw [fromByteArrayLoop, if_neg hlong, if_pos hlast] at h
      cases h
      have hcount : (r.drop 4).take 8 = r.drop 4 := List.take_of_length_le (by simp; omega)
      rw [toByteArray_cons, toByteArray_nil, List.append_nil,
        putUint32_uint32 (by simp; omega), putUint64_uint64 (by simp; omega), hcount,
        List.take_append_drop]
  | case3 r hlong hmore ih =>
      rw [fromByteArrayLoop, if_neg hlong, if_neg hmore] at h
      obtain ⟨rest, hrest, rfl⟩ := Option.map_eq_some_iff.mp h
      have hrest12 : r.drop 12 = (r.drop 4).drop 8 := by simp [List.drop_drop]
      rw [toByteArray_cons, ih hrest, putUint32_uint32 (by simp; omega),
        putUint64_uint64 (by simp; omega), List.append_assoc, hrest12, List.take_append_drop,
        List.take_append_drop]

/-- On a length that is a multiple of twelve the loop panics only on the
empty slice. -/
theorem fromByteArrayLoop_eq_none_iff {r : List UInt8} (hr : r.length % 12 = 0) :
    fromByteArrayLoop r = none ↔ r = [] := by
  induction r using fromByteArrayLoop.induct with
  | case1 r hshort =>
      rw [fromByteArrayLoop, if_pos hshort]
      exact ⟨fun _ => List.eq_nil_of_length_eq_zero (by omega), fun _ => rfl⟩
  | case2 r hlong hlast =>
      rw [fromByteArrayLoop, if_neg hlong, if_pos hlast]
      exact ⟨(fun h => nomatch h), fun h => by simp [h] at hlast⟩
  | case3 r hlong hmore ih =>
      rw [fromByteArrayLoop, if_neg hlong, if_neg hmore, Option.map_eq_none_iff,
        ih (by simp only [List.length_drop]; omega)]
      constructor
      · intro h
        have := congrArg List.length h
        simp only [List.length_drop, List.length_nil] at this
        omega
      · intro h
        simp [h] at hlong

/-! ## The handle -/

theorem take_eight_ToByteArray (h : Handle) : h.ToByteArray.take 8 = putUint64 h.bits := by
  simp [Handle.ToByteArray]

theorem drop_eight_take_eight_ToByteArray (h : Handle) :
    (h.ToByteArray.drop 8).take 8 = putUint64 h.unselected := by
  simp [Handle.ToByteArray]

theorem drop_sixteen_ToByteArray (h : Handle) : h.ToByteArray.drop 16 = toByteArray h.head :=
  List.drop_left' (by simp)

/-- Reading what a handle writes restores its `bits`, `unselected` and list
into the handle read into, when the list is not empty. -/
theorem Handle.FromByteArray_ToByteArray {h : Handle} (hhead : h.head ≠ []) (h' : Handle) :
    h'.FromByteArray (some h.ToByteArray) =
      some ({ h' with head := h.head, bits := h.bits, unselected := h.unselected }, none) := by
  have hlen : h.ToByteArray.length = 16 + 12 * h.head.length := by
    simp only [Handle.ToByteArray, List.length_append, length_putUint64, length_toByteArray]
  have hread : fromByteArray (toByteArray h.head) = some (.ok h.head) := by
    rw [fromByteArray, if_neg (by simp), fromByteArrayLoop_toByteArray hhead]
    rfl
  rw [Handle.FromByteArray, if_neg (by omega), drop_sixteen_ToByteArray, hread]
  simp only [take_eight_ToByteArray, drop_eight_take_eight_ToByteArray, uint64_putUint64]

theorem Handle.ToByteArray_of_FromByteArray {h h' : Handle} {ba : List UInt8}
    (hread : h.FromByteArray (some ba) = some (h', none)) : h'.ToByteArray = ba := by
  rw [Handle.FromByteArray] at hread
  split at hread
  · cases hread
  · next hlong =>
      split at hread
      · cases hread
      · cases hread
      · next head hhead =>
          cases hread
          have hloop : fromByteArrayLoop (ba.drop 16) = some head := by
            rw [fromByteArray] at hhead
            split at hhead
            · cases hhead
            · obtain ⟨l, hl, hok⟩ := Option.map_eq_some_iff.mp hhead
              cases hok
              exact hl
          have hbits : (ba.take 8).length = 8 := by simp; omega
          have hunsel : ((ba.drop 8).take 8).length = 8 := by simp; omega
          have hsplit : ba.take 8 ++ (ba.drop 8).take 8 ++ ba.drop 16 = ba := by
            rw [List.append_assoc, show ba.drop 16 = (ba.drop 8).drop 8 by simp [List.drop_drop],
              List.take_append_drop, List.take_append_drop]
          simp only [Handle.ToByteArray, putUint64_uint64 hbits, putUint64_uint64 hunsel,
            toByteArray_of_fromByteArrayLoop hloop, hsplit]

theorem Handle.FromByteArray_of_error {h h' : Handle} {ba : Option (List UInt8)} {e : String}
    (hread : h.FromByteArray ba = some (h', some e)) : h' = h := by
  unfold Handle.FromByteArray at hread
  split at hread
  · cases hread
    rfl
  · split at hread
    · cases hread
    · split at hread
      · cases hread
      · cases hread
        rfl
      · cases hread

theorem Handle.FromByteArray_eq_none_iff (h : Handle) (ba : List UInt8) :
    h.FromByteArray (some ba) = none ↔ ba.length ≤ 16 := by
  rw [Handle.FromByteArray]
  by_cases hshort : ba.length < 16
  · rw [if_pos hshort]
    exact ⟨fun _ => by omega, fun _ => rfl⟩
  · rw [if_neg hshort, fromByteArray]
    by_cases hmod : (ba.drop 16).length % 12 = 0
    · rw [if_neg (by simpa using hmod)]
      -- the loop panics on the empty rest only
      have hiff := fromByteArrayLoop_eq_none_iff hmod
      cases hloop : fromByteArrayLoop (ba.drop 16) with
      | none =>
          have := congrArg List.length (hiff.mp hloop)
          simp only [List.length_drop, List.length_nil] at this
          exact ⟨fun _ => by omega, fun _ => rfl⟩
      | some l =>
          have hne : ba.drop 16 ≠ [] := fun h => by rw [hiff.mpr h] at hloop; cases hloop
          have hlen : 16 < ba.length := by
            by_contra hle
            exact hne (List.drop_eq_nil_of_le (by omega))
          exact ⟨(fun h => nomatch h), fun h => by omega⟩
    · rw [if_pos (by simpa using hmod)]
      have hlen : 16 < ba.length := by
        by_contra hle
        apply hmod
        simp only [List.length_drop]
        omega
      exact ⟨(fun h => nomatch h), fun h => by omega⟩

/-- An empty slice, which is what `json.Unmarshal` makes of a stored
`"sequence":""`, and a slice of the sixteen header bytes alone both panic
instead of being refused, as every non-nil slice of at most sixteen bytes
does. -/
theorem FromByteArray_panics_on_short_slice (h : Handle) :
    h.FromByteArray (some []) = none ∧ h.FromByteArray (some (List.replicate 16 0)) = none ∧
      ∀ ba : List UInt8, h.FromByteArray (some ba) = none ↔ ba.length ≤ 16 :=
  ⟨rfl, (h.FromByteArray_eq_none_iff _).mpr (by simp), h.FromByteArray_eq_none_iff⟩

/-- The byte form of a handle reads back: a handle with a non-empty list
restores its three fields into the handle read into, a slice read without
error is the slice its result writes, and a failed read changes nothing. -/
theorem handle_bytes_round_trip :
    (∀ h h' : Handle, h.head ≠ [] → h'.FromByteArray (some h.ToByteArray) =
        some ({ h' with head := h.head, bits := h.bits, unselected := h.unselected }, none)) ∧
      (∀ (h h' : Handle) (ba : List UInt8), h.FromByteArray (some ba) = some (h', none) →
        h'.ToByteArray = ba) ∧
      ∀ (h h' : Handle) (ba : Option (List UInt8)) (e : String),
        h.FromByteArray ba = some (h', some e) → h' = h :=
  ⟨fun _ _ hhead => Handle.FromByteArray_ToByteArray hhead _,
    fun _ _ _ hread => Handle.ToByteArray_of_FromByteArray hread,
    fun _ _ _ _ hread => Handle.FromByteArray_of_error hread⟩

theorem handle_bytes_round_trip_fresh :
    (NewHandle 40).head ≠ [] ∧
      (NewHandle 8).FromByteArray (some (NewHandle 40).ToByteArray) =
        some ({ NewHandle 8 with head := (NewHandle 40).head, bits := 40, unselected := 40 }, none) ∧
      ({ NewHandle 8 with head := (NewHandle 40).head, bits := 40, unselected := 40 } :
        Handle).ToByteArray = (NewHandle 40).ToByteArray ∧
      (NewHandle 8).FromByteArray none = some (NewHandle 8, some "nil byte array") ∧
      ∀ h' e, (NewHandle 8).FromByteArray none = some (h', some e) → h' = NewHandle 8 := by
  have hhead : (NewHandle 40).head ≠ [] := by decide
  have hread := handle_bytes_round_trip.1 (NewHandle 40) (NewHandle 8) hhead
  exact ⟨hhead, hread, handle_bytes_round_trip.2.1 _ _ _ hread, rfl,
    fun h' e hfail => handle_bytes_round_trip.2.2 (NewHandle 8) h' none e hfail⟩

end Libnetwork.Bitseq
