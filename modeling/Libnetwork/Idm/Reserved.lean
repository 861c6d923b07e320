import Mathlib
import Libnetwork.Idm
import Libnetwork.Bitseq.Allocate

/-!
# The ids an id manager has handed out

What an `Idm` is for is a set of reserved ids of `[start, end]`: the ids
`start + o` of the ordinals `o` its handle has allocated.  On an id manager
that `New` makes, and that its calls keep well formed, `GetSpecificID`
reserves the id it is asked for when the id is in the range and free,
`GetIDInRange` reserves a free id of the range it is given and returns it,
and `Release` frees its id; a call that fails changes nothing.
-/

namespace Libnetwork

open Bitseq

/-- The ids an id manager has handed out. -/
def Idm.reserved (i : Idm) : Finset ℕ :=
  i.handle.allocated.image (· + i.start.toNat)

/-- An id manager as `New` makes it and its calls keep it: a well-formed
handle of one bit an id of `[start, end]`. -/
structure Idm.WellFormed (i : Idm) : Prop where
  handle : i.handle.WellFormed
  bits : i.handle.bits.toNat = i.stop.toNat - i.start.toNat + 1
  lt : i.start < i.stop

theorem Idm.mem_reserved {i : Idm} {id : ℕ} :
    id ∈ i.reserved ↔ i.start.toNat ≤ id ∧ id - i.start.toNat ∈ i.handle.allocated := by
  simp only [Idm.reserved, Finset.mem_image]
  constructor
  · rintro ⟨o, ho, rfl⟩
    exact ⟨by omega, by simpa using ho⟩
  · rintro ⟨hle, hmem⟩
    exact ⟨_, hmem, by omega⟩

theorem Idm.add_start_not_mem_reserved {i : Idm} {o : ℕ} (ho : o ∉ i.handle.allocated) :
    o + i.start.toNat ∉ i.reserved := by
  rw [Idm.mem_reserved]
  simpa using ho

theorem Idm.reserved_insert {i : Idm} {h : Handle} {o : ℕ}
    (hh : h.allocated = insert o i.handle.allocated) :
    ({ i with handle := h } : Idm).reserved = insert (o + i.start.toNat) i.reserved := by
  show h.allocated.image (· + i.start.toNat) = _
  rw [hh, Finset.image_insert]
  rfl

theorem Idm.reserved_erase {i : Idm} {h : Handle} {o : ℕ}
    (hh : h.allocated = i.handle.allocated.erase o) :
    ({ i with handle := h } : Idm).reserved = i.reserved.erase (o + i.start.toNat) := by
  show h.allocated.image (· + i.start.toNat) = _
  rw [hh, Finset.image_erase (fun _ _ h => Nat.add_right_cancel h)]
  rfl

theorem toNat_one_add_sub {start stop : UInt64} (hlt : start < stop)
    (hrange : stop.toNat - start.toNat + 1 < 2 ^ 64) :
    (1 + stop - start).toNat = stop.toNat - start.toNat + 1 := by
  rw [UInt64.lt_iff_toNat_lt] at hlt
  have := start.toNat_lt
  have := stop.toNat_lt
  simp only [UInt64.toNat_sub, UInt64.toNat_add, UInt64.toNat_one, Nat.reducePow] at *
  omega

theorem wellFormed_New {id : String} {start stop : UInt64} {i : Idm}
    (hnew : Idm.New id start stop = .ok i) (hrange : stop.toNat - start.toNat + 1 < 2 ^ 64) :
    i.WellFormed := by
  unfold Idm.New at hnew
  split at hnew
  · cases hnew
  · split at hnew
    · cases hnew
    · next hle =>
        cases hnew
        have hlt : start < stop := by simpa using hle
        have hbits := toNat_one_add_sub hlt hrange
        refine ⟨wellFormed_newHandle ?_, hbits, hlt⟩
        rw [UInt64.le_iff_toNat_le, hbits]
        simp

theorem Idm.start_stop_New {id : String} {start stop : UInt64} {i : Idm}
    (hnew : Idm.New id start stop = .ok i) : i.start = start ∧ i.stop = stop := by
  unfold Idm.New at hnew
  split at hnew
  · cases hnew
  · split at hnew
    · cases hnew
    · cases hnew
      exact ⟨rfl, rfl⟩

theorem Idm.reserved_New {id : String} {start stop : UInt64} {i : Idm}
    (hnew : Idm.New id start stop = .ok i) : i.reserved = ∅ := by
  unfold Idm.New at hnew
  split at hnew
  · cases hnew
  · split at hnew
    · cases hnew
    · cases hnew
      have hempty := congrArg Bitmask.allocated (toBitmask_newHandle (1 + stop - start))
      rw [Handle.allocated_toBitmask] at hempty
      simp [Idm.reserved, hempty, Bitmask.empty]

section WellFormed

variable {i : Idm}

theorem Idm.WellFormed.toNat_start_add (hw : i.WellFormed) {o : UInt64} (ho : o < i.handle.bits) :
    (i.start + o).toNat = o.toNat + i.start.toNat ∧ o.toNat + i.start.toNat ≤ i.stop.toNat := by
  rw [UInt64.lt_iff_toNat_lt, hw.bits] at ho
  have := i.stop.toNat_lt
  have := UInt64.lt_iff_toNat_lt.mp hw.lt
  rw [UInt64.toNat_add, Nat.mod_eq_of_lt (by omega)]
  omega

theorem Idm.GetSpecificID_error {i' : Idm} {id : UInt64} {e : IdmError}
    (hget : i.GetSpecificID id = (i', some e)) : i' = i := by
  unfold Idm.GetSpecificID at hget
  split at hget
  · cases hget
    rfl
  · cases hset : i.handle.Set (id - i.start) with
    | mk h err =>
        rw [hset] at hget
        cases err with
        | none => cases hget
        | some e' =>
            cases hget
            rw [Handle.Set_error hset]

theorem Idm.WellFormed.GetSpecificID_ok (hw : i.WellFormed) {i' : Idm} {id : UInt64}
    (hget : i.GetSpecificID id = (i', none)) :
    id.toNat ∉ i.reserved ∧ i'.reserved = insert id.toNat i.reserved ∧ i'.WellFormed ∧
      i'.start = i.start ∧ i'.stop = i.stop := by
  unfold Idm.GetSpecificID at hget
  split at hget
  · cases hget
  · next hrange =>
      simp only [Bool.or_eq_true, decide_eq_true_eq, not_or, UInt64.not_lt] at hrange
      have hid : (id - i.start).toNat + i.start.toNat = id.toNat := by
        rw [UInt64.toNat_sub_of_le _ _ hrange.1]
        have := UInt64.le_iff_toNat_le.mp hrange.1
        omega
      cases hset : i.handle.Set (id - i.start) with
      | mk h err =>
          rw [hset] at hget
          cases err with
          | some e => cases hget
          | none =>
              cases hget
              obtain ⟨-, hfree, hallocated, hbits, hw'⟩ := Handle.Set_ok hw.handle hset
              refine ⟨hid ▸ Idm.add_start_not_mem_reserved hfree, ?_,
                ⟨hw', hbits ▸ hw.bits, hw.lt⟩, rfl, rfl⟩
              rw [Idm.reserved_insert hallocated, hid]

theorem Idm.GetIDInRange_error {i' : Idm} {start stop id : UInt64} {serial : Bool}
    {e : IdmError} (hget : i.GetIDInRange start stop serial = (i', id, some e)) : i' = i := by
  unfold Idm.GetIDInRange at hget
  split at hget
  · cases hget
    rfl
  · cases hset : i.handle.SetAnyInRange (start - i.start) (stop - i.start) serial with
    | mk h rest =>
        obtain ⟨o, err⟩ := rest
        rw [hset] at hget
        cases err with
        | none => cases hget
        | some e' =>
            cases hget
            rw [Handle.SetAnyInRange_error hset]

/-- A successful `GetIDInRange` reserves an id of its range that was free,
and returns it. -/
theorem Idm.WellFormed.GetIDInRange_ok (hw : i.WellFormed) {i' : Idm} {start stop id : UInt64}
    {serial : Bool} (hget : i.GetIDInRange start stop serial = (i', id, none)) :
    start ≤ id ∧ id ≤ stop ∧ id.toNat ∉ i.reserved ∧ i'.reserved = insert id.toNat i.reserved ∧
      i'.WellFormed ∧ i'.start = i.start ∧ i'.stop = i.stop := by
  unfold Idm.GetIDInRange at hget
  split at hget
  · cases hget
  · next hrange =>
      simp only [Bool.or_eq_true, decide_eq_true_eq, not_or, UInt64.not_lt] at hrange
      cases hset : i.handle.SetAnyInRange (start - i.start) (stop - i.start) serial with
      | mk h rest =>
          obtain ⟨o, err⟩ := rest
          rw [hset] at hget
          cases err with
          | some e => cases hget
          | none =>
              cases hget
              obtain ⟨hlo, hhi, hstop, hfree, hallocated, hbits, hw'⟩ :=
                Handle.SetAnyInRange_ok hw.handle hset
              obtain ⟨hid, hle⟩ := hw.toNat_start_add (UInt64.lt_of_le_of_lt hhi hstop)
              have hbounds : start ≤ i.start + o ∧ i.start + o ≤ stop := by
                rw [UInt64.le_iff_toNat_le, UInt64.le_iff_toNat_le, hid]
                rw [UInt64.lt_iff_toNat_lt, hw.bits] at hstop
                have := i.stop.toNat_lt
                have := start.toNat_lt
                simp only [UInt64.le_iff_toNat_le, UInt64.toNat_sub, Nat.reducePow] at hlo hhi hrange hstop
                omega
              refine ⟨hbounds.1, hbounds.2, hid ▸ Idm.add_start_not_mem_reserved hfree, ?_,
                ⟨hw', hbits ▸ hw.bits, hw.lt⟩, rfl, rfl⟩
              rw [Idm.reserved_insert hallocated, hid]

theorem Idm.WellFormed.Release (hw : i.WellFormed) {id : UInt64} (hle : i.start ≤ id) :
    (i.Release id).reserved = i.reserved.erase id.toNat ∧ (i.Release id).WellFormed ∧
      (i.Release id).start = i.start ∧ (i.Release id).stop = i.stop := by
  obtain ⟨hallocated, hbits, hw'⟩ := Handle.Unset_allocated hw.handle (id - i.start)
  have hid : (id - i.start).toNat + i.start.toNat = id.toNat := by
    rw [UInt64.toNat_sub_of_le _ _ hle]
    have := UInt64.le_iff_toNat_le.mp hle
    omega
  refine ⟨?_, ⟨hw', hbits ▸ hw.bits, hw.lt⟩, rfl, rfl⟩
  rw [Idm.Release, Idm.reserved_erase hallocated, hid]

end WellFormed

end Libnetwork
