import Libnetwork.Bitseq.FindSequence

/-!
# What `pushReservation` does to the encoded list

`pushReservation` finds the node holding the byte, builds the changed block
and moves one block of the node into a new node placed by one of the three
cases A, B and C of the source, merging neighbours after A and B.  Read
through `blocks`, every case overwrites exactly the byte's block: the merge
pass only joins runs, and a node of count zero holds no block.  Read through
`decode`, the request sets (or clears) exactly its own bit; a redundant
request and a byte past the list change nothing, which the same statement
covers.

The list is also kept canonical: in cases A and B the merge pass restores the
separation of neighbouring runs, and in case C the two halves of the node
keep the block the new node does not have.

Every result assumes that the list holds fewer than `2 ^ 64` bytes, so that
neither `findSequence` nor the merge pass wraps.
-/

namespace Libnetwork.Bitseq

open MsbBits RunLength

theorem toNat_count_sub_one {s : Sequence} (h : 0 < s.count.toNat) :
    (s.count - 1).toNat = s.count.toNat - 1 := by
  rw [UInt64.toNat_sub_of_le _ _ (by rw [UInt64.le_iff_toNat_le]; simpa), UInt64.toNat_one]

/-! ## The merge pass on nodes -/

/-- While the counts it adds fit in 64 bits, `mergeSequences` from a node is
the merge pass of the run list. -/
theorem toRuns_mergeSequencesFrom (seq : Sequence) (l : List Sequence)
    (h : seq.count.toNat + numBlocks l < 2 ^ 64) :
    toRuns (mergeSequencesFrom seq l) =
      mergeInto (seq.block, seq.count.toNat) (toRuns l) := by
  induction l generalizing seq with
  | nil => rfl
  | cons next rest ih =>
      rw [numBlocks_cons] at h
      rw [mergeSequencesFrom, toRuns_cons, mergeInto]
      by_cases hb : seq.block = next.block
      · -- `next` is absorbed, and its count is added without wrapping
        have hsum : (seq.count + next.count).toNat =
            seq.count.toNat + next.count.toNat := by
          rw [UInt64.toNat_add, Nat.mod_eq_of_lt (by omega)]
        have hrest := ih { seq with count := seq.count + next.count }
          (by simp only; omega)
        rw [if_pos (beq_iff_eq.mpr hb), if_pos hb, hrest, hsum]
      · rw [if_neg (by simpa using hb), if_neg hb, toRuns_cons, ih next (by omega)]

theorem toRuns_mergeSequences (l : List Sequence) (h : numBlocks l < 2 ^ 64) :
    toRuns (mergeSequences l) = merge (toRuns l) := by
  cases l with
  | nil => rfl
  | cons seq rest =>
      exact toRuns_mergeSequencesFrom seq rest (by simpa using h)

theorem blocks_mergeSequences (l : List Sequence) (h : numBlocks l < 2 ^ 64) :
    blocks (mergeSequences l) = blocks l := by
  rw [blocks, toRuns_mergeSequences l h, expand_merge, blocks]

/-! ## Removing an emptied node -/

theorem blocks_removeCurrentIfEmpty (current : Sequence) (after : List Sequence) :
    blocks (removeCurrentIfEmpty current after) = blocks (current :: after) := by
  unfold removeCurrentIfEmpty
  split
  · next h =>
      have h0 : current.count = 0 := by simpa using h
      simp [h0]
  · rfl

theorem numBlocks_removeCurrentIfEmpty (current : Sequence) (after : List Sequence) :
    numBlocks (removeCurrentIfEmpty current after) = numBlocks (current :: after) := by
  rw [← length_blocks, blocks_removeCurrentIfEmpty, length_blocks]

theorem positive_removeCurrentIfEmpty (current : Sequence) {after : List Sequence}
    (h : Positive (toRuns after)) :
    Positive (toRuns (removeCurrentIfEmpty current after)) := by
  unfold removeCurrentIfEmpty
  split
  · exact h
  · next h0 =>
      have hne : current.count ≠ 0 := by simpa using h0
      have hpos : 0 < current.count.toNat := by
        rw [Nat.pos_iff_ne_zero]
        intro h'
        exact hne (UInt64.toNat_inj.mp (by simpa using h'))
      exact positive_cons.mpr ⟨hpos, h⟩

/-! ## Overwriting the byte's block -/

section Replace

variable {head : List Sequence} {p : ℕ} {l : Located}

theorem Locates.set_blocks (hloc : Locates head p l) (newBlock : UInt32) :
    (blocks head).set (p / 4) newBlock =
      blocks l.before.reverse ++
        (List.replicate l.precBlocks.toNat l.current.block ++ newBlock ::
          (List.replicate (l.current.count.toNat - 1 - l.precBlocks.toNat)
            l.current.block ++ blocks l.after)) := by
  have hidx : p / 4 = total (toRuns l.before.reverse) + l.precBlocks.toNat := by
    rw [← hloc.blockIndex, ← numBlocks_reverse]
    rfl
  rw [hloc.blocks_eq, hidx, ← expand_split _ _ _ _ hloc.precBlocks_lt]
  simp only [expand_append, expand_cons, List.replicate_one, List.singleton_append]
  rfl

theorem Locates.blocks_replaceBlock (hloc : Locates head p l)
    (hbound : numBlocks head < 2 ^ 64) (newBlock : UInt32) :
    blocks (l.replaceBlock newBlock) = (blocks head).set (p / 4) newBlock := by
  have hprec := hloc.precBlocks_lt
  have hcnt := toNat_count_sub_one (s := l.current) (by omega)
  have hnb : numBlocks head =
      numBlocks l.before + l.current.count.toNat + numBlocks l.after := by
    rw [hloc.split]
    simp
    omega
  rw [hloc.set_blocks, Located.replaceBlock]
  simp only
  split
  · -- (A): the new node goes first, the merge pass starts before it
    next hzero =>
      have hp0 : l.precBlocks.toNat = 0 := by simp [beq_iff_eq.mp hzero]
      have hmid : numBlocks (⟨newBlock, 1⟩ ::
          removeCurrentIfEmpty { l.current with count := l.current.count - 1 }
            l.after) = l.current.count.toNat + numBlocks l.after := by
        rw [numBlocks_cons, numBlocks_removeCurrentIfEmpty, numBlocks_cons]
        simp only [hcnt, UInt64.toNat_one]
        omega
      split
      · next hb =>
          rw [blocks_mergeSequences _ (by rw [hmid]; rw [hb] at hnb; simp at hnb; omega)]
          simp [hb, blocks_removeCurrentIfEmpty, hcnt, hp0]
      · next previous prior hb =>
          rw [hb] at hnb
          rw [blocks_append, blocks_mergeSequences _ (by
            rw [numBlocks_cons, hmid]; simp at hnb; omega)]
          simp [hb, blocks_removeCurrentIfEmpty, hcnt, hp0]
  · split
    · -- (B): the new node goes last, the merge pass starts at `current`
      next hzero hlast =>
        have hpl : l.precBlocks.toNat = l.current.count.toNat - 1 := by
          rw [beq_iff_eq.mp hlast]
          exact hcnt
        rw [blocks_append, blocks_mergeSequences _ (by simp [hcnt]; omega)]
        simp [hcnt, hpl]
    · -- (C): the node is split around the new node
      next hzero hlast =>
        have hle : l.precBlocks ≤ l.current.count - 1 := by
          rw [UInt64.le_iff_toNat_le, hcnt]
          omega
        simp [UInt64.toNat_sub_of_le _ _ hle, hcnt]

theorem Locates.canonical_replaceBlock (hloc : Locates head p l)
    (hbound : numBlocks head < 2 ^ 64) (hc : Canonical (toRuns head))
    {newBlock : UInt32} (hne : l.current.block ≠ newBlock) :
    Canonical (toRuns (l.replaceBlock newBlock)) := by
  have hprec := hloc.precBlocks_lt
  have hcnt := toNat_count_sub_one (s := l.current) (by omega)
  have hnb : numBlocks head =
      numBlocks l.before + l.current.count.toNat + numBlocks l.after := by
    rw [hloc.split]
    simp
    omega
  obtain ⟨hpos, hsep⟩ := hc
  rw [hloc.split, toRuns_append, toRuns_cons] at hpos hsep
  obtain ⟨hposBefore, hposCurrent, hposAfter⟩ :
      Positive (toRuns l.before.reverse) ∧ 0 < l.current.count.toNat ∧
        Positive (toRuns l.after) := by
    simpa using hpos
  have hsepAfter : Separated ((l.current.block, l.current.count.toNat) :: toRuns l.after) :=
    (List.isChain_append.mp hsep).2.1
  rw [Located.replaceBlock]
  simp only
  split
  · -- (A)
    next hzero =>
      have hmid : Positive (toRuns (⟨newBlock, 1⟩ ::
          removeCurrentIfEmpty { l.current with count := l.current.count - 1 }
            l.after)) :=
        positive_cons.mpr ⟨by simp, positive_removeCurrentIfEmpty _ hposAfter⟩
      have hmidBlocks : numBlocks (⟨newBlock, 1⟩ ::
          removeCurrentIfEmpty { l.current with count := l.current.count - 1 }
            l.after) = l.current.count.toNat + numBlocks l.after := by
        rw [numBlocks_cons, numBlocks_removeCurrentIfEmpty, numBlocks_cons]
        simp only [hcnt, UInt64.toNat_one]
        omega
      split
      · -- at the head, the merged list is the whole list
        next hb =>
          rw [toRuns_mergeSequences _ (by rw [hmidBlocks]; rw [hb] at hnb; simp at hnb; omega)]
          exact canonical_merge hmid
      · -- the merge pass from `previous` replaces the suffix from `previous` on
        next previous prior hb =>
          rw [hb] at hnb hposBefore hsep
          have hmidBound : numBlocks (previous :: ⟨newBlock, 1⟩ ::
              removeCurrentIfEmpty { l.current with count := l.current.count - 1 }
                l.after) < 2 ^ 64 := by
            rw [numBlocks_cons, hmidBlocks]
            simp at hnb
            omega
          rw [toRuns_append, toRuns_mergeSequences _ hmidBound, toRuns_cons, merge]
          have hposPrev : 0 < previous.count.toNat ∧ Positive (toRuns prior.reverse) := by
            simpa [and_comm] using hposBefore
          simp only [List.reverse_cons, toRuns_append, toRuns_cons, toRuns_nil,
            List.append_assoc, List.singleton_append] at hsep
          exact canonical_append_mergeInto hposPrev.2 hsep (positive_cons.mpr ⟨hposPrev.1, hmid⟩)
  · split
    · -- (B): the merge pass from `current` replaces the suffix from `current` on
      next hzero hlast =>
        have hp0 : l.precBlocks.toNat ≠ 0 := by
          intro h
          exact hzero (beq_iff_eq.mpr (UInt64.toNat_inj.mp (by simpa using h)))
        have hpl : l.precBlocks.toNat = l.current.count.toNat - 1 := by
          rw [beq_iff_eq.mp hlast]
          exact hcnt
        rw [toRuns_append, toRuns_mergeSequences _ (by simp [hcnt]; omega),
          toRuns_cons, merge]
        have hin : Positive ((l.current.block, (l.current.count - 1).toNat) ::
            toRuns (⟨newBlock, 1⟩ :: l.after)) := by
          simp only [positive_cons, toRuns_cons]
          exact ⟨by omega, by simp, hposAfter⟩
        exact canonical_append_mergeInto hposBefore hsep hin
    · -- (C): both halves keep the old block, which the new node does not have
      next hzero hlast =>
        have hp0 : l.precBlocks.toNat ≠ 0 := by
          intro h
          exact hzero (beq_iff_eq.mpr (UInt64.toNat_inj.mp (by simpa using h)))
        have hpl : l.precBlocks.toNat ≠ l.current.count.toNat - 1 := by
          intro h
          exact hlast (beq_iff_eq.mpr (UInt64.toNat_inj.mp (by simpa [hcnt] using h)))
        have hle : l.precBlocks ≤ l.current.count - 1 := by
          rw [UInt64.le_iff_toNat_le, hcnt]
          omega
        simp only [toRuns_append, toRuns_cons, UInt64.toNat_sub_of_le _ _ hle, hcnt]
        refine ⟨?_, hsep.splice ?_⟩
        · simp only [positive_append, positive_cons]
          exact ⟨hposBefore, by omega, by simp, by omega, hposAfter⟩
        · refine List.isChain_cons_cons.mpr
            ⟨hne, List.isChain_cons_cons.mpr ⟨Ne.symm hne, ?_⟩⟩
          exact hsepAfter.cons_count

end Replace

/-! ## The whole request -/

section Request

variable {head : List Sequence} {bytePos bitPos : UInt64} {release : Bool}

theorem Located.bitSel_eq_selector (l : Located) (bitPos : UInt64) :
    l.bitSel bitPos = selector (l.inBlockBytePos * 8 + bitPos) := rfl

theorem Locates.toNat_bitIndex {p : ℕ} {l : Located} (hloc : Locates head p l)
    (hbit : bitPos.toNat < 8) :
    (l.inBlockBytePos * 8 + bitPos).toNat = p % 4 * 8 + bitPos.toNat := by
  have hp : p % 4 < 4 := Nat.mod_lt _ (by decide)
  rw [UInt64.toNat_add, UInt64.toNat_mul, hloc.inBlockBytePos]
  rw [show (8 : UInt64).toNat = 8 from rfl, Nat.mod_eq_of_lt (by omega),
    Nat.mod_eq_of_lt (by omega)]

/-- The new block differs from the block found at the selected bit alone,
which becomes `!release`. -/
theorem Located.msb_newBlock (l : Located)
    (hj : (l.inBlockBytePos * 8 + bitPos).toNat < 32) {i : ℕ} (hi : i < 32) :
    msb (l.newBlock bitPos release) i =
      if i = (l.inBlockBytePos * 8 + bitPos).toNat then !release
      else msb l.current.block i := by
  rw [Located.newBlock, l.bitSel_eq_selector]
  cases release with
  | false =>
      rw [if_neg Bool.false_ne_true, msb_or_selector _ hj]
      generalize (l.inBlockBytePos * 8 + bitPos).toNat = j
      by_cases hij : i = j <;> simp [hij]
  | true =>
      rw [if_pos rfl, msb_andNot_selector _ hj hi]
      generalize (l.inBlockBytePos * 8 + bitPos).toNat = j
      by_cases hij : i = j <;> simp [hij]

/-- A request on a byte inside the list writes the new block over the byte's
block; a redundant request writes the block back unchanged. -/
theorem blocks_pushReservation {l : Located} (hbound : 4 * numBlocks head < 2 ^ 64)
    (hfind : findSequence head bytePos = some l) :
    blocks (pushReservation bytePos bitPos head release) =
      (blocks head).set (bytePos.toNat / 4) (l.newBlock bitPos release) := by
  have hloc := Locates.of_findSequence hbound hfind
  rw [pushReservation, hfind]
  simp only
  split
  · next hsame =>
      obtain ⟨hk, hget⟩ := List.getElem?_eq_some_iff.mp hloc.getElem?_blocks
      rw [← beq_iff_eq.mp hsame, ← hget, List.set_getElem_self hk]
  · exact hloc.blocks_replaceBlock (by omega) _

theorem numBlocks_pushReservation (hbound : 4 * numBlocks head < 2 ^ 64) :
    numBlocks (pushReservation bytePos bitPos head release) = numBlocks head := by
  cases hfind : findSequence head bytePos with
  | none => simp [pushReservation, hfind]
  | some l =>
      rw [← length_blocks, blocks_pushReservation hbound hfind, List.length_set,
        length_blocks]

theorem canonical_pushReservation (hbound : 4 * numBlocks head < 2 ^ 64)
    (hc : Canonical (toRuns head)) :
    Canonical (toRuns (pushReservation bytePos bitPos head release)) := by
  cases hfind : findSequence head bytePos with
  | none => simpa [pushReservation, hfind] using hc
  | some l =>
      rw [pushReservation, hfind]
      simp only
      split
      · exact hc
      · next hne =>
          exact (Locates.of_findSequence hbound hfind).canonical_replaceBlock
            (by omega) hc (by simpa using hne)

/-- `pushReservation` sets (or, on `release`, clears) exactly bit
`8 * bytePos + bitPos` of the encoded bit vector; past the list nothing
changes. -/
theorem decode_pushReservation (hbound : 4 * numBlocks head < 2 ^ 64)
    (hbit : bitPos.toNat < 8) :
    decode (pushReservation bytePos bitPos head release) =
      (decode head).set (8 * bytePos.toNat + bitPos.toNat) (!release) := by
  cases hfind : findSequence head bytePos with
  | none =>
      have hpast := (findSequence_eq_none_iff hbound).mp hfind
      rw [pushReservation, hfind,
        List.set_eq_of_length_le (by rw [length_decode]; omega)]
  | some l =>
      have hloc := Locates.of_findSequence hbound hfind
      have hj := hloc.toNat_bitIndex hbit
      obtain ⟨hk, hget⟩ := List.getElem?_eq_some_iff.mp hloc.getElem?_blocks
      have hpos : 32 * (bytePos.toNat / 4) + (bytePos.toNat % 4 * 8 + bitPos.toNat) =
          8 * bytePos.toNat + bitPos.toNat := by omega
      rw [decode, blocks_pushReservation hbound hfind, ← hpos]
      apply flatten_set hk (by omega)
      intro i hi
      rw [l.msb_newBlock (by omega) hi, hj, hget]

end Request

end Libnetwork.Bitseq
