import Mathlib
import Libnetwork.Bitseq.Counter

/-!
# The handle as a set of allocated ordinals

What a `Handle` is for is a set of allocated ordinals among the first `bits`:
`Set` adds an ordinal, refusing one that is allocated already, `Unset` takes
one out and `IsSet` tests one, each refusing an ordinal outside the sequence.
`Bitmask` states that set directly, with the bound carried as a field.  The
handle stands for the ordinals whose bit is set in the first `bits` bits of
its list, and on every well-formed handle the three calls commute with that
abstraction, errors included; a run of `Set` and `Unset` calls therefore
follows the run of the abstract calls.  The count `unselected` is not part of
the abstraction: `Counter` shows that it drifts from the number of free bits.
-/

namespace Libnetwork.Bitseq

/-! ## The abstract bitmask -/

/-- A set of allocated ordinals, all below `bits`. -/
@[ext] structure Bitmask where
  bits : ℕ
  allocated : Finset ℕ
  lt_bits : ∀ o ∈ allocated, o < bits

def Bitmask.empty (bits : ℕ) : Bitmask :=
  ⟨bits, ∅, fun _ h => absurd h (Finset.notMem_empty _)⟩

/-- Add an ordinal below the bound. -/
def Bitmask.allocate (m : Bitmask) (o : ℕ) (ho : o < m.bits) : Bitmask :=
  ⟨m.bits, insert o m.allocated, fun o' h' => by
    rcases Finset.mem_insert.mp h' with rfl | h'
    · exact ho
    · exact m.lt_bits o' h'⟩

def Bitmask.release (m : Bitmask) (o : ℕ) : Bitmask :=
  ⟨m.bits, m.allocated.erase o, fun o' h' => m.lt_bits o' (Finset.mem_of_mem_erase h')⟩

/-- Allocate `o`: refused outside the sequence and when `o` is allocated. -/
def Bitmask.Set (m : Bitmask) (o : ℕ) : Bitmask × Option BitseqError :=
  if ho : o < m.bits then
    if o ∈ m.allocated then (m, some .bitAllocated) else (m.allocate o ho, none)
  else (m, some .notInSequence)

/-- Release `o`: refused outside the sequence only. -/
def Bitmask.Unset (m : Bitmask) (o : ℕ) : Bitmask × Option BitseqError :=
  if o < m.bits then (m.release o, none) else (m, some .notInSequence)

def Bitmask.IsSet (m : Bitmask) (o : ℕ) : Bool :=
  decide (o ∈ m.allocated)

/-- The calls of a bitmask, with the ordinals the handle takes. -/
inductive BitCall
  | set (ordinal : UInt64)
  | unset (ordinal : UInt64)
  deriving DecidableEq, Repr

/-- The handle call of the same name. -/
def BitCall.toCall : BitCall → Call
  | .set ordinal => .set ordinal
  | .unset ordinal => .unset ordinal

/-- The bitmask after one call. -/
def Bitmask.call (m : Bitmask) : BitCall → Bitmask
  | .set ordinal => (m.Set ordinal.toNat).1
  | .unset ordinal => (m.Unset ordinal.toNat).1

/-! ## The abstraction of a handle -/

/-- The ordinals below `bits` whose bit is set in the list. -/
def Handle.allocated (h : Handle) : Finset ℕ :=
  (Finset.range h.bits.toNat).filter fun o => (decode h.head)[o]? = some true

/-- The bitmask a handle stands for. -/
def Handle.toBitmask (h : Handle) : Bitmask :=
  ⟨h.bits.toNat, h.allocated, fun _ ho => Finset.mem_range.mp (Finset.mem_of_mem_filter _ ho)⟩

@[simp] theorem Handle.bits_toBitmask (h : Handle) : h.toBitmask.bits = h.bits.toNat := rfl

@[simp] theorem Handle.allocated_toBitmask (h : Handle) :
    h.toBitmask.allocated = h.allocated := rfl

theorem Handle.mem_allocated {h : Handle} {o : ℕ} :
    o ∈ h.allocated ↔ o < h.bits.toNat ∧ (decode h.head)[o]? = some true := by
  simp [Handle.allocated]

theorem Handle.WellFormed.bits_le_length {h : Handle} (hw : h.WellFormed) :
    h.bits.toNat ≤ (decode h.head).length := by
  rw [length_decode, hw.numBlocks_eq, toNat_getNumBlocks]
  omega

/-- Writing `v` at position `o` below `bits` adds `o` to the allocated
ordinals, or takes it out. -/
theorem Handle.allocated_of_decode_set {h h' : Handle} (hbits : h'.bits = h.bits)
    {o : ℕ} (ho : o < h.bits.toNat) (hlen : h.bits.toNat ≤ (decode h.head).length)
    {v : Bool} (hd : decode h'.head = (decode h.head).set o v) :
    h'.allocated = if v then insert o h.allocated else h.allocated.erase o := by
  ext i
  rw [Handle.mem_allocated, hd, hbits, List.getElem?_set]
  by_cases hio : i = o
  · subst hio
    cases v <;> simp [Handle.mem_allocated, ho, show i < (decode h.head).length by omega]
  · cases v <;> simp [Handle.mem_allocated, hio, Ne.symm hio]

/-! ## What the calls do on a well-formed handle -/

/-- `checkIfAvailable` answers the position of an ordinal exactly when its bit
is a clear bit of the list. -/
theorem checkIfAvailable_eq {head : List Sequence} (hbound : 4 * numBlocks head < 2 ^ 64)
    (ordinal : UInt64) :
    checkIfAvailable head ordinal =
      if (decode head)[ordinal.toNat]? = some false then .ok (ordinalToPos ordinal)
      else .error .bitAllocated := by
  obtain ⟨hpos, hbit⟩ := toNat_ordinalToPos ordinal
  have hspec := findSequence_spec head (ordinal / 8) hbound
  unfold checkIfAvailable
  dsimp only [ordinalToPos]
  split
  · next l hfind =>
      rw [hfind] at hspec
      have hj := hspec.toNat_bitIndex hbit
      have hsel : l.current.block &&& l.bitSel (ordinal % 8) = 0 ↔
          MsbBits.msb l.current.block ((ordinal / 8).toNat % 4 * 8 + (ordinal % 8).toNat) =
            false := by
        rw [l.bitSel_eq_selector, MsbBits.and_selector_eq_zero_iff _ (by omega), hj]
      rw [← hpos, hspec.getElem?_decode hbit]
      by_cases hm : MsbBits.msb l.current.block
          ((ordinal / 8).toNat % 4 * 8 + (ordinal % 8).toNat) = false
      · rw [if_pos (beq_iff_eq.mpr (hsel.mpr hm)), if_pos (by rw [hm])]
      · rw [if_neg (fun hz => hm (hsel.mp (beq_iff_eq.mp hz))), if_neg (by simpa using hm)]
  · next hfind =>
      rw [hfind] at hspec
      have hnone : (decode head)[ordinal.toNat]? = none :=
        List.getElem?_eq_none (by rw [length_decode]; omega)
      rw [hnone, if_neg (by simp)]

section WellFormed

variable {h : Handle}

theorem Handle.Set_eq (hw : h.WellFormed) (ordinal : UInt64) :
    h.Set ordinal =
      if ordinal < h.bits then
        if (decode h.head)[ordinal.toNat]? = some false then
          (h.commit (ordinal / 8) (ordinal % 8) false, none)
        else (h, some .bitAllocated)
      else (h, some .notInSequence) := by
  by_cases ho : ordinal < h.bits
  · rw [if_pos ho]
    simp only [Handle.Set, h.validateOrdinal_eq_none ho, Handle.set, Bool.false_eq_true,
      if_false, checkIfAvailable_eq hw.bound]
    by_cases hfree : (decode h.head)[ordinal.toNat]? = some false
    · simp only [if_pos hfree]
      rfl
    · simp only [if_neg hfree]
  · simp [Handle.Set, Handle.validateOrdinal, UInt64.not_lt.mp ho, ho]

theorem Handle.Unset_eq (ordinal : UInt64) :
    h.Unset ordinal =
      if ordinal < h.bits then (h.commit (ordinal / 8) (ordinal % 8) true, none)
      else (h, some .notInSequence) := by
  by_cases ho : ordinal < h.bits
  · simp [Handle.Unset, h.validateOrdinal_eq_none ho, Handle.set, ordinalToPos, ho]
  · simp [Handle.Unset, Handle.validateOrdinal, UInt64.not_lt.mp ho, ho]

/-- A reservation below `bits` writes the ordinal's bit and nothing else the
abstraction sees. -/
theorem Handle.allocated_commit (hw : h.WellFormed) {ordinal : UInt64}
    (ho : ordinal.toNat < h.bits.toNat) (release : Bool) :
    (h.commit (ordinal / 8) (ordinal % 8) release).allocated =
      if release then h.allocated.erase ordinal.toNat else insert ordinal.toNat h.allocated := by
  obtain ⟨hpos, hbit⟩ := toNat_ordinalToPos ordinal
  have hd : decode (h.commit (ordinal / 8) (ordinal % 8) release).head =
      (decode h.head).set ordinal.toNat (!release) := by
    rw [Handle.commit_head, decode_pushReservation hw.bound hbit, hpos]
  rw [Handle.allocated_of_decode_set (h.commit_bits _ _ _) ho hw.bits_le_length hd]
  cases release <;> rfl

theorem Handle.WellFormed.exists_bit (hw : h.WellFormed) {ordinal : UInt64}
    (ho : ordinal.toNat < h.bits.toNat) :
    ∃ b, (decode h.head)[ordinal.toNat]? = some b :=
  ⟨_, List.getElem?_eq_getElem (by have := hw.bits_le_length; omega)⟩

theorem Handle.toBitmask_Set (hw : h.WellFormed) (ordinal : UInt64) :
    Prod.map Handle.toBitmask id (h.Set ordinal) = h.toBitmask.Set ordinal.toNat := by
  rw [h.Set_eq hw]
  by_cases ho : ordinal < h.bits
  · have ho' : ordinal.toNat < h.toBitmask.bits := UInt64.lt_iff_toNat_lt.mp ho
    obtain ⟨b, hb⟩ := hw.exists_bit ho'
    have hmem : ordinal.toNat ∈ h.toBitmask.allocated ↔ b = true := by
      simp [Handle.mem_allocated, UInt64.lt_iff_toNat_lt.mp ho, hb]
    rw [if_pos ho, hb, Bitmask.Set, dif_pos ho']
    cases b with
    | false =>
        rw [if_pos rfl, if_neg (by simpa using hmem)]
        refine Prod.ext (Bitmask.ext rfl ?_) rfl
        exact h.allocated_commit hw ho' false
    | true =>
        rw [if_neg (by simp), if_pos (hmem.mpr rfl)]
        rfl
  · have ho' : ¬ordinal.toNat < h.toBitmask.bits := mt UInt64.lt_iff_toNat_lt.mpr ho
    rw [if_neg ho, Bitmask.Set, dif_neg ho']
    rfl

theorem Handle.toBitmask_Unset (hw : h.WellFormed) (ordinal : UInt64) :
    Prod.map Handle.toBitmask id (h.Unset ordinal) = h.toBitmask.Unset ordinal.toNat := by
  rw [h.Unset_eq]
  by_cases ho : ordinal < h.bits
  · have ho' : ordinal.toNat < h.toBitmask.bits := UInt64.lt_iff_toNat_lt.mp ho
    rw [if_pos ho, Bitmask.Unset, if_pos ho']
    refine Prod.ext (Bitmask.ext rfl ?_) rfl
    exact h.allocated_commit hw ho' true
  · have ho' : ¬ordinal.toNat < h.toBitmask.bits := mt UInt64.lt_iff_toNat_lt.mpr ho
    rw [if_neg ho, Bitmask.Unset, if_neg ho']
    rfl

theorem Handle.IsSet_eq_toBitmask (hw : h.WellFormed) (ordinal : UInt64) :
    h.IsSet ordinal = h.toBitmask.IsSet ordinal.toNat := by
  rw [Bitmask.IsSet, Handle.allocated_toBitmask]
  by_cases ho : ordinal < h.bits
  · have ho' : ordinal.toNat < h.bits.toNat := UInt64.lt_iff_toNat_lt.mp ho
    obtain ⟨b, hb⟩ := hw.exists_bit ho'
    simp only [Handle.IsSet, h.validateOrdinal_eq_none ho, checkIfAvailable_eq hw.bound, hb]
    cases b <;> simp [Handle.mem_allocated, ho', hb]
  · have ho' : ¬ordinal.toNat < h.bits.toNat := mt UInt64.lt_iff_toNat_lt.mpr ho
    simp [Handle.IsSet, Handle.validateOrdinal, UInt64.not_lt.mp ho, Handle.mem_allocated, ho']

/-- The three calls of `h` act as the abstract calls on the bitmask `h`
stands for. -/
structure Handle.Simulates (h : Handle) : Prop where
  set : ∀ ordinal, Prod.map Handle.toBitmask id (h.Set ordinal) = h.toBitmask.Set ordinal.toNat
  unset : ∀ ordinal,
    Prod.map Handle.toBitmask id (h.Unset ordinal) = h.toBitmask.Unset ordinal.toNat
  isSet : ∀ ordinal, h.IsSet ordinal = h.toBitmask.IsSet ordinal.toNat

theorem Handle.WellFormed.simulates (hw : h.WellFormed) : h.Simulates :=
  ⟨h.toBitmask_Set hw, h.toBitmask_Unset hw, h.IsSet_eq_toBitmask hw⟩

end WellFormed

/-! ## Runs -/

theorem toBitmask_newHandle (numElements : UInt64) :
    (NewHandle numElements).toBitmask = Bitmask.empty numElements.toNat := by
  refine Bitmask.ext rfl ?_
  ext o
  simp only [Handle.allocated_toBitmask, Handle.mem_allocated, Bitmask.empty,
    Finset.notMem_empty, iff_false, not_and]
  intro _ hget
  rw [decode, MsbBits.getElem?_flatten] at hget
  obtain ⟨w, hw, hmsb⟩ := Option.map_eq_some_iff.mp hget
  have hzero : w = 0 := by
    simp only [NewHandle, blocks, toRuns, RunLength.expand, List.map_cons, List.map_nil,
      List.flatMap_cons, List.flatMap_nil, List.append_nil] at hw
    exact List.eq_of_mem_replicate (List.mem_of_getElem? hw)
  simp [hzero, MsbBits.msb] at hmsb

/-- A run of `Set` and `Unset` calls on a well-formed handle follows the run
of the abstract calls. -/
theorem Handle.toBitmask_run {h : Handle} (hw : h.WellFormed) (cs : List BitCall) :
    (Transition.run Handle.call h (cs.map BitCall.toCall)).toBitmask =
      Transition.run Bitmask.call h.toBitmask cs := by
  induction cs generalizing h with
  | nil => rfl
  | cons c cs ih =>
      have hw' : (h.call c.toCall).WellFormed := hw.of_pushesOne (h.pushesOne_call _)
      have hstep : (h.call c.toCall).toBitmask = h.toBitmask.call c := by
        cases c with
        | set ordinal => exact congrArg Prod.fst (h.toBitmask_Set hw ordinal)
        | unset ordinal => exact congrArg Prod.fst (h.toBitmask_Unset hw ordinal)
      rw [List.map_cons, Transition.run_cons, Transition.run_cons, ih hw', hstep]

example :
    (Transition.run Handle.call (NewHandle 8)
      ([.set 3, .set 5, .unset 3].map BitCall.toCall)).allocated = {5} := by
  decide

/-- A handle of at least one bit is a bitmask: on every handle calls lead to,
`Set`, `Unset` and `IsSet` act as the abstract calls on the ordinals it
stands for, errors included, and a run of `Set` and `Unset` calls from the
fresh handle follows the abstract run from the empty bitmask. -/
theorem handle_refines_bitmask {numElements : UInt64} (hn : 1 ≤ numElements) :
    (∀ h, Reachable numElements h → h.Simulates) ∧
      ∀ cs : List BitCall,
        (Transition.run Handle.call (NewHandle numElements) (cs.map BitCall.toCall)).toBitmask =
          Transition.run Bitmask.call (Bitmask.empty numElements.toNat) cs := by
  refine ⟨fun h hr => (hr.wellFormed hn).simulates, fun cs => ?_⟩
  rw [Handle.toBitmask_run (wellFormed_newHandle hn), toBitmask_newHandle]

theorem handle_refines_bitmask_one_bit :
    1 ≤ (1 : UInt64) ∧ (∀ h, Reachable 1 h → h.Simulates) ∧
      ∀ cs : List BitCall,
        (Transition.run Handle.call (NewHandle 1) (cs.map BitCall.toCall)).toBitmask =
          Transition.run Bitmask.call (Bitmask.empty (1 : UInt64).toNat) cs :=
  ⟨by decide, handle_refines_bitmask (by decide)⟩

end Libnetwork.Bitseq
