import Libnetwork.Bitseq.Bitmask
import Libnetwork.Bitseq.FirstAvailable

/-!
# What the calls allocate

On a well-formed handle the search of `set` is the flat search of
`FirstAvailable`, so a successful `SetAnyInRange start end` allocates one
ordinal of `[start, end]` that was free and returns it.  A successful `Set` allocates its ordinal, which was free, and
`Unset` takes its ordinal out.  A failed call returns the handle
unchanged.
-/

namespace Libnetwork.Bitseq

theorem firstClearIn_eq_some {v : List Bool} {lo hi o : ℕ} (h : firstClearIn v lo hi = some o) :
    lo ≤ o ∧ o ≤ hi ∧ v[o]? = some false := by
  obtain ⟨hfirst, hle⟩ := Option.filter_eq_some_iff.mp h
  obtain ⟨hlo, ⟨a, ha, hclear⟩, _⟩ := Scan.firstFrom_eq_some_iff.mp hfirst
  refine ⟨hlo, by simpa using hle, ?_⟩
  rw [ha]
  simpa using hclear

theorem Handle.WellFormed.count_pos {h : Handle} (hw : h.WellFormed) :
    ∀ s ∈ h.head, 0 < s.count.toNat := by
  intro s hs
  have := positive_toRuns_iff.mp hw.canonical.positive s hs
  rw [UInt64.le_iff_toNat_le, UInt64.toNat_one] at this
  omega

theorem Handle.WellFormed.bits_bound {h : Handle} (hw : h.WellFormed) :
    32 * numBlocks h.head ≤ 2 ^ 64 := by
  have hlt := h.bits.toNat_lt
  rw [hw.numBlocks_eq, toNat_getNumBlocks]
  omega

theorem Handle.SetAnyInRange_error {h h' : Handle} {start stop o : UInt64} {serial : Bool}
    {e : BitseqError} (hset : h.SetAnyInRange start stop serial = (h', o, some e)) : h' = h := by
  unfold Handle.SetAnyInRange Handle.set at hset
  split at hset
  · cases hset
    rfl
  · split at hset
    · cases hset
      rfl
    · simp only [Bool.false_eq_true, if_false, if_true] at hset
      split at hset
      · cases hset
      · cases hset
        rfl

/-- A successful `SetAnyInRange` on a well-formed handle allocates one free
ordinal of `[start, stop]` and returns it. -/
theorem Handle.SetAnyInRange_ok {h h' : Handle} (hw : h.WellFormed) {start stop o : UInt64}
    {serial : Bool} (hset : h.SetAnyInRange start stop serial = (h', o, none)) :
    start ≤ o ∧ o ≤ stop ∧ stop < h.bits ∧ o.toNat ∉ h.allocated ∧
      h'.allocated = insert o.toNat h.allocated ∧ h'.bits = h.bits ∧ h'.WellFormed := by
  have hstep : h'.WellFormed ∧ h'.bits = h.bits := by
    have hp := h.pushesOne_call (.setAnyInRange start stop serial)
    simp only [Handle.call, hset] at hp
    exact ⟨hw.of_pushesOne hp, hp.1⟩
  unfold Handle.SetAnyInRange at hset
  split at hset
  · cases hset
  · next hrange =>
      split at hset
      · cases hset
      · unfold Handle.set at hset
        simp only [Bool.false_eq_true, if_false, if_true,
          getAvailableFromCurrent_eq hw.count_pos hw.bits_bound] at hset
        generalize (if serial = true then h.curr else 0) = curr at hset
        have hstop : stop < h.bits := by
          simp only [Bool.or_eq_true, decide_eq_true_eq, ge_iff_le, not_or, UInt64.not_le] at hrange
          exact hrange.2
        generalize hx : (if start < curr then firstClearIn (decode h.head) curr.toNat stop.toNat
          else none).or (firstClearIn (decode h.head) start.toNat stop.toNat) = x at hset
        cases x with
        | none => cases hset
        | some o' =>
            have hfound : start.toNat ≤ o' ∧ o' ≤ stop.toNat ∧ (decode h.head)[o']? = some false := by
              by_cases hcur : start < curr
              · rw [if_pos hcur] at hx
                cases hc : firstClearIn (decode h.head) curr.toNat stop.toNat with
                | some oc =>
                    rw [hc, Option.some_or] at hx
                    cases hx
                    obtain ⟨hlo, hhi, hbit⟩ := firstClearIn_eq_some hc
                    exact ⟨by rw [UInt64.lt_iff_toNat_lt] at hcur; omega, hhi, hbit⟩
                | none =>
                    rw [hc, Option.none_or] at hx
                    exact firstClearIn_eq_some hx
              · rw [if_neg hcur, Option.none_or] at hx
                exact firstClearIn_eq_some hx
            obtain ⟨hlo, hhi, hbit⟩ := hfound
            have ho' : o' < 2 ^ 64 := by have := stop.toNat_lt; omega
            simp only [searchResult] at hset
            obtain ⟨rfl, rfl, -⟩ := hset
            rw [posToOrdinal_ordinalToPos] at hstep ⊢
            have hlt : (UInt64.ofNat o').toNat < h.bits.toNat := by
              rw [UInt64.toNat_ofNat', Nat.mod_eq_of_lt ho']
              rw [UInt64.lt_iff_toNat_lt] at hstop
              omega
            have hval : (UInt64.ofNat o').toNat = o' := by
              rw [UInt64.toNat_ofNat', Nat.mod_eq_of_lt ho']
            refine ⟨?_, ?_, hstop, ?_, ?_, rfl, hstep.1⟩
            · rw [UInt64.le_iff_toNat_le, hval]
              exact hlo
            · rw [UInt64.le_iff_toNat_le, hval]
              exact hhi
            · rw [Handle.mem_allocated, hval, hbit]
              simp
            · exact h.allocated_commit hw hlt false

theorem Handle.Set_error {h h' : Handle} {ordinal : UInt64} {e : BitseqError}
    (hset : h.Set ordinal = (h', some e)) : h' = h := by
  unfold Handle.Set Handle.set at hset
  split at hset
  · cases hset
    rfl
  · simp only [Bool.false_eq_true, if_false] at hset
    split at hset
    · cases hset
    · cases hset
      rfl

/-- A successful `Set` on a well-formed handle allocates its ordinal, which
was free. -/
theorem Handle.Set_ok {h h' : Handle} (hw : h.WellFormed) {ordinal : UInt64}
    (hset : h.Set ordinal = (h', none)) :
    ordinal < h.bits ∧ ordinal.toNat ∉ h.allocated ∧ h'.allocated = insert ordinal.toNat h.allocated ∧
      h'.bits = h.bits ∧ h'.WellFormed := by
  have hp := h.pushesOne_call (.set ordinal)
  simp only [Handle.call, hset] at hp
  have habs := h.toBitmask_Set hw ordinal
  rw [hset] at habs
  unfold Bitmask.Set at habs
  split at habs
  · next hlt =>
      split at habs
      · exact absurd (congrArg Prod.snd habs) (by simp)
      · next hfree =>
          have hallocated := congrArg (fun m => m.1.allocated) habs
          simp only [Prod.map_fst, Handle.allocated_toBitmask, Bitmask.allocate] at hallocated
          exact ⟨UInt64.lt_iff_toNat_lt.mpr hlt, hfree, hallocated, hp.1, hw.of_pushesOne hp⟩
  · exact absurd (congrArg Prod.snd habs) (by simp)

theorem Handle.Unset_allocated {h : Handle} (hw : h.WellFormed) (ordinal : UInt64) :
    (h.Unset ordinal).1.allocated = h.allocated.erase ordinal.toNat ∧
      (h.Unset ordinal).1.bits = h.bits ∧ (h.Unset ordinal).1.WellFormed := by
  have hp := h.pushesOne_call (.unset ordinal)
  have habs := congrArg (fun m => m.1.allocated) (h.toBitmask_Unset hw ordinal)
  simp only [Prod.map_fst, Handle.allocated_toBitmask] at habs
  refine ⟨?_, hp.1, hw.of_pushesOne hp⟩
  rw [habs, Bitmask.Unset]
  split
  · rfl
  · next ho =>
      have hnot : ordinal.toNat ∉ h.allocated := fun hmem => ho (h.toBitmask.lt_bits _ hmem)
      exact (Finset.erase_eq_of_notMem hnot).symm

end Libnetwork.Bitseq
