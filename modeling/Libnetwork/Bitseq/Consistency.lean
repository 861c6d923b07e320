import Libnetwork.Bitseq.Invariant

/-!
# Repairing a corrupted list

`runConsistencyCheck` of `bitseq/sequence.go` unlinks every node after the
head whose count is zero, the corruption signature docker 1.9.0 and 1.9.1
could leave in the datastore, and reports whether it found one.  The trailing
pointer `p` stays on the last node kept when a node is unlinked, so a run of
zero-count nodes goes node by node.  `CheckConsistency` runs the check on a
copy of the handle and takes the copy's list when it reports a corruption;
the handles here have no datastore, so its reread and its write-back return
at once.

A node of no block stands for no bit, so the repair leaves the bits the list
encodes as they were.  The list of a handle the calls reach has no such node,
and the check finds nothing there.
-/

namespace Libnetwork.Bitseq

open RunLength

/-- The loop of `runConsistencyCheck` over the nodes after `p`: the nodes it
keeps and whether it unlinked one. -/
def consistencyLoop (corrupted : Bool) : List Sequence → List Sequence × Bool
  | [] => ([], corrupted)
  | c :: rest =>
      if c.count == 0 then
        consistencyLoop true rest
      else
        let (kept, corrupted) := consistencyLoop corrupted rest
        (c :: kept, corrupted)

/-- `runConsistencyCheck`: the handle with its list repaired and whether the
list was corrupted; `none` for a nil head, which the source dereferences. -/
def Handle.runConsistencyCheck (h : Handle) : Option (Handle × Bool) :=
  match h.head with
  | [] => none
  | first :: rest =>
      let (kept, corrupted) := consistencyLoop false rest
      some ({ h with head := first :: kept }, corrupted)

/-- `CheckConsistency` without datastore: the handle with the repaired list
when the copy was corrupted. -/
def Handle.CheckConsistency (h : Handle) : Option Handle :=
  h.runConsistencyCheck.map fun (nh, corrupted) =>
    if corrupted then { h with head := nh.head } else h

/-! ## The loop is a filter -/

/-- The loop keeps the nodes of nonzero count and reports whether one of
count zero was seen. -/
theorem consistencyLoop_eq (corrupted : Bool) (l : List Sequence) :
    consistencyLoop corrupted l =
      (l.filter (·.count != 0), corrupted || l.any (·.count == 0)) := by
  induction l generalizing corrupted with
  | nil => simp [consistencyLoop]
  | cons c rest ih =>
      by_cases hc : c.count = 0
      · simp [consistencyLoop, hc, ih]
      · have hc' : (c.count == 0) = false := beq_eq_false_iff_ne.mpr hc
        simp [consistencyLoop, hc, hc', ih]

theorem blocks_filter_count (l : List Sequence) :
    blocks (l.filter (·.count != 0)) = blocks l := by
  induction l with
  | nil => rfl
  | cons c rest ih =>
      by_cases hc : c.count = 0 <;> simp [hc, ih]

theorem decode_filter_count (first : Sequence) (l : List Sequence) :
    decode (first :: l.filter (·.count != 0)) = decode (first :: l) := by
  simp only [decode, blocks_cons, blocks_filter_count]

theorem runConsistencyCheck_cons (h : Handle) (first : Sequence) (rest : List Sequence) :
    (⟨h.bits, h.unselected, first :: rest, h.curr⟩ : Handle).runConsistencyCheck =
      some (⟨h.bits, h.unselected, first :: rest.filter (·.count != 0), h.curr⟩,
        rest.any (·.count == 0)) := by
  simp [Handle.runConsistencyCheck, consistencyLoop_eq]

/-- On a list whose nodes after the head all have a block, the check keeps
every node and reports nothing. -/
theorem runConsistencyCheck_of_count_ne_zero (h : Handle) (first : Sequence)
    {rest : List Sequence} (hrest : ∀ s ∈ rest, s.count ≠ 0) :
    (⟨h.bits, h.unselected, first :: rest, h.curr⟩ : Handle).runConsistencyCheck =
      some (⟨h.bits, h.unselected, first :: rest, h.curr⟩, false) := by
  have hkeep : rest.filter (·.count != 0) = rest :=
    List.filter_eq_self.mpr fun s hs => by simpa using hrest s hs
  have hnone : rest.any (·.count == 0) = false := by simpa using hrest
  rw [runConsistencyCheck_cons, hkeep, hnone]

/-! ## Soundness and idempotence of the repair -/

/-- On every list, `runConsistencyCheck` keeps the head and the encoded bits,
reports exactly whether a node after the head had count zero, and leaves no
such node; a second call then finds nothing and changes nothing. -/
theorem runConsistencyCheck_repairs (h : Handle) (first : Sequence) (rest : List Sequence) :
    ∃ kept corrupted,
      (⟨h.bits, h.unselected, first :: rest, h.curr⟩ : Handle).runConsistencyCheck =
        some (⟨h.bits, h.unselected, first :: kept, h.curr⟩, corrupted) ∧
      decode (first :: kept) = decode (first :: rest) ∧
      (corrupted = true ↔ ∃ s ∈ rest, s.count = 0) ∧
      (∀ s ∈ kept, 1 ≤ s.count) ∧
      (⟨h.bits, h.unselected, first :: kept, h.curr⟩ : Handle).runConsistencyCheck =
        some (⟨h.bits, h.unselected, first :: kept, h.curr⟩, false) := by
  have hkept : ∀ s ∈ rest.filter (·.count != 0), s.count ≠ 0 := fun s hs => by
    simpa using (List.mem_filter.mp hs).2
  refine ⟨rest.filter (·.count != 0), rest.any (·.count == 0), runConsistencyCheck_cons h first rest,
    decode_filter_count first rest, by simp, ?_, runConsistencyCheck_of_count_ne_zero h first hkept⟩
  exact fun s hs => UInt64.pos_iff_ne_zero.mpr (hkept s hs)

/-! ## Reachable handles are consistent -/

theorem Reachable.bits_eq {numElements : UInt64} {h : Handle}
    (hr : Reachable numElements h) : h.bits = numElements := by
  induction hr with
  | init => rfl
  | step c _ ih => exact (Handle.pushesOne_call _ c).1.trans ih

/-- A handle the calls reach from a handle of at least one bit has a head, and
the check finds no node of count zero on it: `runConsistencyCheck` changes
nothing and `CheckConsistency` returns the handle as it was.  The handle keeps
its number of bits. -/
theorem Reachable.consistent {numElements : UInt64} (hn : 1 ≤ numElements) {h : Handle}
    (hr : Reachable numElements h) :
    h.runConsistencyCheck = some (h, false) ∧ h.CheckConsistency = some h ∧
      h.bits = numElements := by
  obtain ⟨hpos, hnum, -, -⟩ := reachable_head_canonical hn hr
  have hbits := hr.bits_eq
  obtain ⟨bits, unselected, head, curr⟩ := h
  cases head with
  | nil =>
      have hn' : 1 ≤ numElements.toNat := by
        rwa [UInt64.le_iff_toNat_le, UInt64.toNat_one] at hn
      have h0 : (getNumBlocks numElements).toNat = 0 := by
        rw [← hbits]
        exact hnum.symm
      rw [toNat_getNumBlocks] at h0
      omega
  | cons first rest =>
      have hrun := runConsistencyCheck_of_count_ne_zero ⟨bits, unselected, first :: rest, curr⟩
        first fun s hs => UInt64.pos_iff_ne_zero.mp (hpos s (List.mem_cons_of_mem _ hs))
      exact ⟨hrun, by simp [Handle.CheckConsistency, hrun], hbits⟩

theorem consistent_after_set :
    1 ≤ (64 : UInt64) ∧
    ((NewHandle 64).call (.set 3)).runConsistencyCheck = some ((NewHandle 64).call (.set 3), false) ∧
      ((NewHandle 64).call (.set 3)).CheckConsistency = some ((NewHandle 64).call (.set 3)) ∧
      ((NewHandle 64).call (.set 3)).bits = 64 :=
  ⟨by decide, Reachable.consistent (by decide) (.step _ .init)⟩

end Libnetwork.Bitseq
