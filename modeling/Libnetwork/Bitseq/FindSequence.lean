import Libnetwork.Bitseq.Sequence

/-!
# Where `findSequence` stops

`findSequence(head, bytePos)` walks the list, subtracting whole runs from the
byte offset while a next node exists.  When the list holds fewer than
`2 ^ 64` bytes, so that no product `count * blockBytes` wraps, the walk finds
the node holding the byte: the nodes before it hold `4 * numBlocks before`
bytes, the byte lies inside the node, `precBlocks` is the block of the byte
inside the node and `inBlockBytePos` the byte inside that block.  Otherwise
the byte lies past the list.  Zero-count nodes are skipped on the way, since
a run of no block holds no byte.
-/

namespace Libnetwork.Bitseq

open MsbBits RunLength

/-- `loc` is where byte `p` of the list `head` lies. -/
structure Locates (head : List Sequence) (p : ℕ) (loc : Located) : Prop where
  split : head = loc.before.reverse ++ loc.current :: loc.after
  lower : 4 * numBlocks loc.before ≤ p
  upper : p < 4 * (numBlocks loc.before + loc.current.count.toNat)
  precBlocks : loc.precBlocks.toNat = (p - 4 * numBlocks loc.before) / 4
  inBlockBytePos : loc.inBlockBytePos.toNat = p % 4

theorem toNat_count_mul_blockBytes {s : Sequence}
    (h : 4 * s.count.toNat < 2 ^ 64) :
    (s.count * blockBytes).toNat = 4 * s.count.toNat := by
  rw [blockBytes_eq, UInt64.toNat_mul, Nat.mod_eq_of_lt] <;> simp <;> omega

/-- The walk of `findSequence` only moves nodes from the list ahead to the
list behind, and the residual offset is what the skipped nodes leave of the
byte offset; it stops at the last node or at a node the residual falls in. -/
theorem findSequenceLoop_spec {before rest b a : List Sequence}
    {current c : Sequence} {n m : UInt64}
    (hbound : 4 * numBlocks (current :: rest) < 2 ^ 64)
    (h : findSequenceLoop before current rest n = (b, c, a, m)) :
    ∃ skipped, b = skipped.reverse ++ before ∧
      current :: rest = skipped ++ c :: a ∧
      m.toNat + 4 * numBlocks skipped = n.toNat ∧
      (a = [] ∨ m.toNat < 4 * c.count.toNat) := by
  induction rest generalizing before current n with
  | nil =>
      simp only [findSequenceLoop, Prod.mk.injEq] at h
      obtain ⟨rfl, rfl, rfl, rfl⟩ := h
      exact ⟨[], by simp, by simp, by simp, .inl rfl⟩
  | cons next rest ih =>
      have hcount : (current.count * blockBytes).toNat = 4 * current.count.toNat :=
        toNat_count_mul_blockBytes (by simp at hbound; omega)
      rw [findSequenceLoop] at h
      split at h
      · next hge =>
          obtain ⟨skipped, hb, hsplit, hm, hend⟩ :=
            ih (by simp at hbound ⊢; omega) h
          refine ⟨current :: skipped, by simp [hb], by simp [hsplit], ?_, hend⟩
          have hle := UInt64.le_iff_toNat_le.mp hge
          rw [UInt64.toNat_sub_of_le _ _ hge, hcount] at hm
          rw [hcount] at hle
          simp
          omega
      · next hlt =>
          simp only [Prod.mk.injEq] at h
          obtain ⟨rfl, rfl, rfl, rfl⟩ := h
          refine ⟨[], by simp, by simp, by simp, .inr ?_⟩
          rw [ge_iff_le, UInt64.le_iff_toNat_le, hcount] at hlt
          omega

/-- `findSequence` finds the node holding a byte inside the list, and answers
`nil` for a byte past it. -/
theorem findSequence_spec (head : List Sequence) (p : UInt64)
    (hbound : 4 * numBlocks head < 2 ^ 64) :
    match findSequence head p with
    | some loc => Locates head p.toNat loc
    | none => 4 * numBlocks head ≤ p.toNat := by
  cases head with
  | nil => simp [findSequence]
  | cons first rest =>
      rw [findSequence]
      rcases hloop : findSequenceLoop [] first rest p with ⟨b, c, a, m⟩
      obtain ⟨skipped, rfl, hsplit, hm, hend⟩ := findSequenceLoop_spec hbound hloop
      have hcount : (c.count * blockBytes).toNat = 4 * c.count.toNat := by
        apply toNat_count_mul_blockBytes
        rw [hsplit] at hbound
        simp at hbound
        omega
      simp only
      by_cases hge : m ≥ c.count * blockBytes
      · -- past the last node: the whole list lies before the byte
        rw [if_pos hge]
        have hle := UInt64.le_iff_toNat_le.mp hge
        rw [hcount] at hle
        rcases hend with rfl | hlt
        · rw [hsplit]
          simp
          omega
        · omega
      · rw [if_neg hge]
        rw [ge_iff_le, UInt64.le_iff_toNat_le, hcount] at hge
        refine ⟨by simpa using hsplit, ?_, ?_, ?_, ?_⟩
        · simp
          omega
        · simp
          omega
        · simp only [blockBytes_eq, UInt64.toNat_div, numBlocks_append,
            numBlocks_reverse, numBlocks_nil]
          simp
          omega
        · simp [blockBytes_eq, UInt64.toNat_mod]

theorem Locates.of_findSequence {head : List Sequence} {p : UInt64}
    {loc : Located} (hbound : 4 * numBlocks head < 2 ^ 64)
    (h : findSequence head p = some loc) : Locates head p.toNat loc := by
  have := findSequence_spec head p hbound
  rwa [h] at this

theorem findSequence_eq_none_iff {head : List Sequence} {p : UInt64}
    (hbound : 4 * numBlocks head < 2 ^ 64) :
    findSequence head p = none ↔ 4 * numBlocks head ≤ p.toNat := by
  have hspec := findSequence_spec head p hbound
  constructor
  · intro h
    rwa [h] at hspec
  · intro hle
    cases hfind : findSequence head p with
    | none => rfl
    | some loc =>
        rw [hfind] at hspec
        have hnb : numBlocks head =
            numBlocks loc.before + loc.current.count.toNat + numBlocks loc.after := by
          rw [hspec.split]
          simp
          omega
        have := hspec.upper
        omega

theorem Locates.precBlocks_lt {head : List Sequence} {p : ℕ} {loc : Located}
    (h : Locates head p loc) : loc.precBlocks.toNat < loc.current.count.toNat := by
  rw [h.precBlocks]
  have := h.lower
  have := h.upper
  omega

theorem Locates.blockIndex {head : List Sequence} {p : ℕ} {loc : Located}
    (h : Locates head p loc) :
    numBlocks loc.before + loc.precBlocks.toNat = p / 4 := by
  rw [h.precBlocks]
  have := h.lower
  omega

section Found

variable {head : List Sequence} {p : ℕ} {l : Located}

theorem Locates.blocks_eq (hloc : Locates head p l) :
    blocks head = expand (toRuns l.before.reverse ++
      (l.current.block, l.current.count.toNat) :: toRuns l.after) := by
  rw [hloc.split, blocks, toRuns_append, toRuns_cons]

theorem Locates.getElem?_blocks (hloc : Locates head p l) :
    (blocks head)[p / 4]? = some l.current.block := by
  have hprec := hloc.precBlocks_lt
  rw [← hloc.blockIndex, hloc.split, blocks_append, blocks_cons,
    List.getElem?_append_right (by simp), List.getElem?_append_left (by simp; omega)]
  simp [hprec]

/-- Bit `b` of byte `p` is bit `p % 4 * 8 + b` of the block of the node
found. -/
theorem Locates.getElem?_decode (hloc : Locates head p l) {b : ℕ} (hb : b < 8) :
    (decode head)[8 * p + b]? = some (msb l.current.block (p % 4 * 8 + b)) := by
  have hdiv : (8 * p + b) / 32 = p / 4 := by omega
  have hmod : (8 * p + b) % 32 = p % 4 * 8 + b := by omega
  rw [decode, getElem?_flatten, hdiv, hmod, hloc.getElem?_blocks]
  rfl

theorem Locates.getElem?_current (hloc : Locates head p l) :
    head[l.before.length]? = some l.current := by
  rw [hloc.split]
  simp

/-- `previous` is the node before the one found, or the node found itself
when that is the head. -/
theorem Locates.getElem?_previous (hloc : Locates head p l) :
    head[l.before.length - 1]? = some l.previous := by
  have hcur := hloc.getElem?_current
  cases hb : l.before with
  | nil => simpa [Located.previous, hb] using hcur
  | cons q bs =>
      rw [hloc.split, hb]
      simp [Located.previous, hb]

theorem Locates.take_length (hloc : Locates head p l) :
    head.take l.before.length = l.before.reverse := by
  rw [hloc.split]
  simp

end Found

/-- On every list of fewer than `2 ^ 64` bytes `findSequence` answers `nil`
exactly for a byte past the list.  Otherwise it returns node `i` of the list,
whose run covers the byte, with `previous` at `i - 1` (the head itself when
`i = 0`), the block of the byte inside the node and the byte inside that
block. -/
theorem findSequence_locates_every_byte (head : List Sequence) (p : UInt64)
    (hbound : 4 * numBlocks head < 2 ^ 64) :
    (findSequence head p = none ↔ 4 * numBlocks head ≤ p.toNat) ∧
    ∀ loc, findSequence head p = some loc →
      ∃ i, head[i]? = some loc.current ∧ head[i - 1]? = some loc.previous ∧
        4 * numBlocks (head.take i) ≤ p.toNat ∧
        p.toNat < 4 * (numBlocks (head.take i) + loc.current.count.toNat) ∧
        loc.precBlocks.toNat = (p.toNat - 4 * numBlocks (head.take i)) / 4 ∧
        loc.precBlocks.toNat < loc.current.count.toNat ∧
        loc.inBlockBytePos.toNat = p.toNat % 4 := by
  refine ⟨findSequence_eq_none_iff hbound, fun loc hfind => ?_⟩
  have hloc := Locates.of_findSequence hbound hfind
  have htake : numBlocks (head.take loc.before.length) = numBlocks loc.before := by
    rw [hloc.take_length, numBlocks_reverse]
  refine ⟨loc.before.length, hloc.getElem?_current, hloc.getElem?_previous, ?_⟩
  rw [htake]
  exact ⟨hloc.lower, hloc.upper, hloc.precBlocks, hloc.precBlocks_lt, hloc.inBlockBytePos⟩

theorem findSequence_locates_byte_79 :
    4 * numBlocks [⟨0xFFFFFFFF, 10⟩, ⟨0xCC000000, 10⟩] < 2 ^ 64 ∧
      findSequence [⟨0xFFFFFFFF, 10⟩, ⟨0xCC000000, 10⟩] 79 =
        some ⟨[⟨0xFFFFFFFF, 10⟩], ⟨0xCC000000, 10⟩, [], 9, 3⟩ ∧
      (findSequence [⟨0xFFFFFFFF, 10⟩, ⟨0xCC000000, 10⟩] 80 = none ↔
        4 * numBlocks [⟨0xFFFFFFFF, 10⟩, ⟨0xCC000000, 10⟩] ≤ (80 : UInt64).toNat) :=
  ⟨by decide, rfl, (findSequence_locates_every_byte _ 80 (by decide)).1⟩

/-- A node of `2 ^ 62` blocks holds `2 ^ 64` bytes: `count * blockBytes`
wraps to zero, and `findSequence` places byte `0`, the first byte of the
list, past it. -/
theorem findSequence_misses_byte_of_huge_node :
    (∀ s ∈ ([⟨0, 0x4000000000000000⟩] : List Sequence), 1 ≤ s.count) ∧
      findSequence [⟨0, 0x4000000000000000⟩] 0 = none ∧
      (0 : UInt64).toNat < 4 * numBlocks [⟨0, 0x4000000000000000⟩] :=
  ⟨by decide, rfl, by decide⟩

end Libnetwork.Bitseq
