import Libnetwork.Bitseq.Invariant

/-!
# The count of unselected bits

`Unselected()` is documented as the number of bits which are not selected.
`set` moves `unselected` by one on every request it lets through, after
`pushReservation`, which returns the list unchanged on a redundant request.
`Set` asks `checkIfAvailable` first and so never sets a set bit, but `Unset`
goes to `pushReservation` directly: unsetting a free bit leaves the list as
it was and still adds one to the count.  The count then exceeds the number
of free bits; on a handle of one bit, `2 ^ 64 - 1` such calls wrap it to zero
while the bit is free, and `SetAny` refuses up front.
-/

namespace Libnetwork.Bitseq

/-- The number of unset bits among the first `bits` bits of the list: what
`Unselected()` is documented to return. -/
def Handle.freeBits (h : Handle) : ℕ :=
  ((decode h.head).take h.bits.toNat).count false

theorem Handle.validateOrdinal_eq_none {h : Handle} {ordinal : UInt64}
    (ho : ordinal < h.bits) : h.validateOrdinal ordinal = none := by
  simp [Handle.validateOrdinal, UInt64.not_le.mpr ho]

theorem toNat_ordinalToPos (ordinal : UInt64) :
    8 * (ordinal / 8).toNat + (ordinal % 8).toNat = ordinal.toNat ∧
      (ordinal % 8).toNat < 8 := by
  simp only [UInt64.toNat_div, UInt64.toNat_mod]
  exact ⟨by simp; omega, by simp; omega⟩

/-- `Unset` of a free bit of a well-formed handle leaves the list as it was
and still adds one to `unselected`. -/
theorem Handle.unset_of_free {h : Handle} {ordinal : UInt64} (hw : h.WellFormed)
    (ho : ordinal < h.bits) (hfree : (decode h.head)[ordinal.toNat]? = some false) :
    (h.Unset ordinal).1 = { h with unselected := h.unselected + 1 } := by
  obtain ⟨hpos, hbit⟩ := toNat_ordinalToPos ordinal
  have hpush : pushReservation (ordinal / 8) (ordinal % 8) h.head true = h.head := by
    have hw' := hw.of_pushesOne (h.pushesOne_commit (ordinal / 8) (ordinal % 8) true)
    apply hw'.head_eq_of_decode_eq hw
    obtain ⟨hk, hget⟩ := List.getElem?_eq_some_iff.mp hfree
    rw [Handle.commit_head, decode_pushReservation hw.bound hbit, hpos, Bool.not_true,
      ← hget]
    exact List.set_getElem_self hk
  simp only [Handle.Unset, Handle.validateOrdinal_eq_none ho]
  show h.commit (ordinal / 8) (ordinal % 8) true = _
  simp [Handle.commit, hpush]

theorem unset_free_bit_overcounts :
    Reachable 1 ((NewHandle 1).call (.unset 0)) ∧
      ((NewHandle 1).call (.unset 0)).unselected = 2 ∧
      ((NewHandle 1).call (.unset 0)).freeBits = 1 :=
  ⟨.step _ .init, by decide, by decide⟩

/-! ## Wrapping the count -/

/-- Each `Unset` of a free bit adds one to the count and changes nothing
else. -/
theorem Handle.run_unset_of_free {h : Handle} {ordinal : UInt64} (hw : h.WellFormed)
    (ho : ordinal < h.bits) (hfree : (decode h.head)[ordinal.toNat]? = some false)
    (k : ℕ) :
    Transition.run Handle.call h (List.replicate k (.unset ordinal)) =
      { h with unselected := h.unselected + UInt64.ofNat k } := by
  induction k generalizing h with
  | zero => simp
  | succ k ih =>
      rw [List.replicate_succ, Transition.run_cons]
      have hcall : h.call (.unset ordinal) = { h with unselected := h.unselected + 1 } :=
        h.unset_of_free hw ho hfree
      have hw1 : Handle.WellFormed { h with unselected := h.unselected + 1 } :=
        ⟨hw.canonical, hw.numBlocks_eq⟩
      rw [hcall, ih hw1 ho hfree, UInt64.ofNat_add,
        UInt64.add_assoc, UInt64.add_comm 1]
      rfl

theorem unset_free_bit_wraps_unselected :
    Transition.run Handle.call (NewHandle 1) (List.replicate (2 ^ 64 - 1) (.unset 0)) =
        { NewHandle 1 with unselected := 0 } ∧
      (decode (NewHandle 1).head)[0]? = some false ∧
      Handle.SetAny { NewHandle 1 with unselected := 0 } false =
        ({ NewHandle 1 with unselected := 0 }, invalidPos, some .noBitAvailable) := by
  refine ⟨?_, by decide, rfl⟩
  rw [Handle.run_unset_of_free (wellFormed_newHandle (by decide)) (by decide) (by decide)]
  decide

end Libnetwork.Bitseq
