import Libnetwork.Bitseq.Handle
import Libnetwork.Bitseq.PushReservation

/-!
# The canonical form of reachable handles

Every call keeps `bits`, and either keeps the list or pushes one reservation
into it.  Since `pushReservation` keeps a list canonical and keeps its number
of blocks, every handle reachable from `NewHandle` with at least one bit holds
a canonical list of `getNumBlocks bits` nodes' worth of blocks.  A canonical
run encoding is unique, so the list of a reachable handle is determined by
the bit vector it encodes; the tests that allocate and release in random
orders compare the lists with `equal` on these grounds.
-/

namespace Libnetwork.Bitseq

open RunLength MsbBits

/-! ## What a call does to the list -/

/-- `h'` keeps the `bits` of `h`, and its list is the list of `h` or that list
after one reservation. -/
def Handle.PushesOne (h h' : Handle) : Prop :=
  h'.bits = h.bits ∧
    (h'.head = h.head ∨
      ∃ bytePos bitPos release, h'.head = pushReservation bytePos bitPos h.head release)

theorem Handle.pushesOne_refl (h : Handle) : h.PushesOne h := ⟨rfl, .inl rfl⟩

theorem Handle.pushesOne_commit (h : Handle) (bytePos bitPos : UInt64)
    (release : Bool) : h.PushesOne (h.commit bytePos bitPos release) :=
  ⟨rfl, .inr ⟨bytePos, bitPos, release, rfl⟩⟩

theorem Handle.pushesOne_set (h : Handle) (ordinal start stop : UInt64)
    (any release serial : Bool) :
    h.PushesOne (h.set ordinal start stop any release serial).1 := by
  cases release with
  | true => exact h.pushesOne_commit _ _ true
  | false =>
      cases any with
      | true =>
          simp only [Handle.set, Bool.false_eq_true, if_false, if_true]
          split
          · exact h.pushesOne_commit _ _ false
          · exact h.pushesOne_refl
      | false =>
          simp only [Handle.set, Bool.false_eq_true, if_false]
          split
          · exact h.pushesOne_commit _ _ false
          · exact h.pushesOne_refl

theorem Handle.pushesOne_call (h : Handle) (c : Call) : h.PushesOne (h.call c) := by
  cases c with
  | set ordinal =>
      simp only [Handle.call, Handle.Set]
      split
      · exact h.pushesOne_refl
      · exact h.pushesOne_set _ _ _ _ _ _
  | unset ordinal =>
      simp only [Handle.call, Handle.Unset]
      split
      · exact h.pushesOne_refl
      · exact h.pushesOne_set _ _ _ _ _ _
  | setAny serial =>
      simp only [Handle.call, Handle.SetAny]
      split
      · exact h.pushesOne_refl
      · exact h.pushesOne_set _ _ _ _ _ _
  | setAnyInRange start stop serial =>
      simp only [Handle.call, Handle.SetAnyInRange]
      split
      · exact h.pushesOne_refl
      · split
        · exact h.pushesOne_refl
        · exact h.pushesOne_set _ _ _ _ _ _

/-! ## The invariant -/

/-- The list of the handle is canonical and holds the blocks of its `bits`
bits. -/
structure Handle.WellFormed (h : Handle) : Prop where
  canonical : Canonical (toRuns h.head)
  numBlocks_eq : numBlocks h.head = (getNumBlocks h.bits).toNat

/-- The list of a well-formed handle holds fewer than `2 ^ 64` bytes, so that
no offset of the list functions wraps. -/
theorem Handle.WellFormed.bound {h : Handle} (hw : h.WellFormed) :
    4 * numBlocks h.head < 2 ^ 64 := by
  have hlt := h.bits.toNat_lt
  rw [hw.numBlocks_eq, toNat_getNumBlocks]
  omega

theorem Handle.WellFormed.of_pushesOne {h h' : Handle} (hw : h.WellFormed)
    (hp : h.PushesOne h') : h'.WellFormed := by
  obtain ⟨hbits, hhead | ⟨bytePos, bitPos, release, hhead⟩⟩ := hp
  · refine ⟨hhead ▸ hw.canonical, ?_⟩
    rw [hhead, hbits]
    exact hw.numBlocks_eq
  · refine ⟨hhead ▸ canonical_pushReservation hw.bound hw.canonical, ?_⟩
    rw [hhead, hbits, numBlocks_pushReservation hw.bound]
    exact hw.numBlocks_eq

theorem wellFormed_newHandle {numElements : UInt64} (hn : 1 ≤ numElements) :
    (NewHandle numElements).WellFormed := by
  have hpos : 1 ≤ numElements.toNat := by
    rwa [UInt64.le_iff_toNat_le, UInt64.toNat_one] at hn
  refine ⟨⟨?_, List.isChain_singleton _⟩, by simp [NewHandle]⟩
  simp only [NewHandle, toRuns_cons, toRuns_nil, positive_cons, positive_nil, and_true,
    toNat_getNumBlocks]
  omega

theorem Reachable.wellFormed {numElements : UInt64} (hn : 1 ≤ numElements)
    {h : Handle} (hr : Reachable numElements h) : h.WellFormed :=
  Transition.Reachable.invariant (wellFormed_newHandle hn)
    (fun s c _ hs => hs.of_pushesOne (s.pushesOne_call c)) hr

/-- Two well-formed handles that encode the same bit vector have the same
list. -/
theorem Handle.WellFormed.head_eq_of_decode_eq {h h' : Handle} (hw : h.WellFormed)
    (hw' : h'.WellFormed) (hd : decode h.head = decode h'.head) : h.head = h'.head :=
  toRuns_injective (eq_of_expand_eq hw.canonical hw'.canonical (flatten_injective hd))

/-! ## The canonical form, node by node -/

theorem positive_toRuns_iff {l : List Sequence} :
    Positive (toRuns l) ↔ ∀ s ∈ l, 1 ≤ s.count := by
  simp only [Positive, toRuns, List.forall_mem_map, UInt64.le_iff_toNat_le,
    UInt64.toNat_one]
  rfl

theorem separated_toRuns_iff {l : List Sequence} :
    Separated (toRuns l) ↔ l.IsChain fun s t => s.block ≠ t.block :=
  List.isChain_map _

theorem reachable_head_canonical {numElements : UInt64} {h : Handle}
    (hn : 1 ≤ numElements) (hr : Reachable numElements h) :
    (∀ s ∈ h.head, 1 ≤ s.count) ∧
    numBlocks h.head = (getNumBlocks h.bits).toNat ∧
    h.head.IsChain (fun s t => s.block ≠ t.block) ∧
    ∀ numElements' h', 1 ≤ numElements' → Reachable numElements' h' →
      decode h'.head = decode h.head → h'.head = h.head := by
  have hw := Reachable.wellFormed hn hr
  refine ⟨positive_toRuns_iff.mp hw.canonical.positive, hw.numBlocks_eq,
    separated_toRuns_iff.mp hw.canonical.separated, ?_⟩
  intro numElements' h' hn' hr' hd
  exact (Reachable.wellFormed hn' hr').head_eq_of_decode_eq hw hd

theorem reachable_head_canonical_set :
    1 ≤ (40 : UInt64) ∧ Reachable 40 ((NewHandle 40).call (.set 3)) ∧
    ((∀ s ∈ ((NewHandle 40).call (.set 3)).head, 1 ≤ s.count) ∧
      numBlocks ((NewHandle 40).call (.set 3)).head =
        (getNumBlocks ((NewHandle 40).call (.set 3)).bits).toNat ∧
      ((NewHandle 40).call (.set 3)).head.IsChain (fun s t => s.block ≠ t.block) ∧
      ∀ numElements' h', 1 ≤ numElements' → Reachable numElements' h' →
        decode h'.head = decode ((NewHandle 40).call (.set 3)).head →
          h'.head = ((NewHandle 40).call (.set 3)).head) :=
  ⟨by decide, .step _ .init, reachable_head_canonical (by decide) (.step _ .init)⟩

end Libnetwork.Bitseq
