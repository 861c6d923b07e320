import Libnetwork.Bitseq.PushReservation
import Libnetwork.Support.Scan

/-!
# The search for an unset bit

`getFirstAvailable(head, start)` finds the first unset bit at or after
ordinal `start` without expanding the list: it locates the node holding the
start, scans the rest of its block, then the further copies of that block
(the `retry` loop, which counts them in `precBlocks`), and moves on from node
to node, skipping full blocks whole.  `getAvailableFromCurrent` runs it from
the cursor and, failing that, from the start of the range.

On a list whose nodes all hold at least one block and whose bits are
numbered by `uint64` ordinals, both are the flat searches of `Scan.firstFrom`
on the decoded bit vector.  Past that size the products `count * blockBytes`
wrap, and a node of `2 ^ 62` free blocks is taken to lie before byte `0`.
-/

namespace Libnetwork.Bitseq

open MsbBits Scan

/-- The least ordinal at or after `start` whose bit is unset. -/
def firstClear (v : List Bool) (start : ℕ) : Option ℕ :=
  firstFrom (!·) v start

/-- The least unset ordinal of `[lo, hi]`. -/
def firstClearIn (v : List Bool) (lo hi : ℕ) : Option ℕ :=
  (firstClear v lo).filter (· ≤ hi)

/-- What a search answers for the ordinal it should find: its byte and bit,
or `ErrNoBitAvailable`. -/
def searchResult : Option ℕ → Except BitseqError (UInt64 × UInt64)
  | some o => .ok (ordinalToPos (UInt64.ofNat o))
  | none => .error .noBitAvailable

/-- The search inside a node whose bits start at byte `N`. -/
def positionFrom (N : ℕ) : Option ℕ → Except BitseqError (UInt64 × UInt64)
  | some o => .ok (UInt64.ofNat (N + o / 8), UInt64.ofNat (o % 8))
  | none => .error .noBitAvailable

/-- The bits of a node's copies of its block. -/
def nodeBits (s : Sequence) : List Bool :=
  flatten (List.replicate s.count.toNat s.block)

@[simp] theorem length_nodeBits (s : Sequence) : (nodeBits s).length = 32 * s.count.toNat := by
  simp [nodeBits]

theorem decode_cons (s : Sequence) (l : List Sequence) :
    decode (s :: l) = nodeBits s ++ decode l := by
  simp [decode, nodeBits, flatten]

theorem decode_append (l m : List Sequence) : decode (l ++ m) = decode l ++ decode m := by
  simp [decode, flatten]

/-! ## One block -/

theorem firstClear_eq_of_getElem? {v : List Bool} {start : ℕ} {a : Bool}
    (h : v[start]? = some a) :
    firstClear v start = if a then firstClear v (start + 1) else some start := by
  unfold firstClear
  rw [firstFrom_eq_of_getElem? h]
  cases a <;> rfl

theorem selector_ne_zero {k : ℕ} (hk : k < 32) : selector (UInt64.ofNat k) ≠ 0 := by
  have hk' : (UInt64.ofNat k).toNat < 32 := by simp; omega
  intro h
  have := msb_selector hk' (UInt64.ofNat k).toNat
  simp [h, msb] at this

/-- The selector moved one bit right selects the next bit, and none past the
last. -/
theorem selector_shiftRight_one {k : ℕ} (hk : k < 32) :
    selector (UInt64.ofNat k) >>> 1 = selector (UInt64.ofNat (k + 1)) := by
  have : ∀ i : Fin 32, selector (UInt64.ofNat i) >>> 1 = selector (UInt64.ofNat (i + 1)) := by
    decide
  exact this ⟨k, hk⟩

/-- The loop of `getAvailableBit` from bit `k` stops at the first unset bit
from `k` on, or with the selector shifted out and `32` bits counted. -/
theorem getAvailableBitLoop_eq (w : UInt32) {fuel k : ℕ} (hk : k ≤ 32) (hfuel : 32 ≤ k + fuel) :
    getAvailableBitLoop w fuel (selector (UInt64.ofNat k)) (UInt64.ofNat k) =
      match firstClear (bits w) k with
      | some q => (selector (UInt64.ofNat q), UInt64.ofNat q)
      | none => (0, 32) := by
  induction fuel generalizing k with
  | zero =>
      obtain rfl : k = 32 := by omega
      rw [firstClear, firstFrom_of_length_le (by simp)]
      rfl
  | succ fuel ih =>
      by_cases hlast : k = 32
      · subst hlast
        rw [firstClear, firstFrom_of_length_le (by simp)]
        rfl
      · have hk' : k < 32 := by omega
        have hsel : (UInt64.ofNat k).toNat < 32 := by simp; omega
        rw [firstClear_eq_of_getElem? (getElem?_bits w hk'), getAvailableBitLoop]
        have hpos : selector (UInt64.ofNat k) > 0 := by
          have := selector_ne_zero hk'
          exact UInt32.pos_iff_ne_zero.mpr this
        by_cases hbit : msb w k = true
        · -- a set bit: the loop moves on to bit `k + 1`
          have hand : (w &&& selector (UInt64.ofNat k) != 0) = true := by
            have := (and_selector_eq_zero_iff w hsel).not
            simp only [UInt64.toNat_ofNat', show k % 2 ^ 64 = k by omega, hbit] at this
            simpa using this
          rw [if_pos (by simp [hpos, hand]), if_pos hbit, selector_shiftRight_one hk',
            show UInt64.ofNat k + 1 = UInt64.ofNat (k + 1) by simp]
          exact ih (by omega) (by omega)
        · have hand : (w &&& selector (UInt64.ofNat k) != 0) = false := by
            have := and_selector_eq_zero_iff w hsel
            simp only [UInt64.toNat_ofNat', show k % 2 ^ 64 = k by omega] at this
            simpa [this] using hbit
          rw [if_neg (by simp [hand]), if_neg hbit]

theorem firstClear_bits_blockMAX (k : ℕ) : firstClear (bits blockMAX) k = none := by
  have hall : bits blockMAX = List.replicate 32 true := by decide
  rw [firstClear, firstFrom_eq_none_iff, hall]
  intro i _ a ha
  simp [(List.mem_replicate.mp (List.mem_of_getElem? ha)).2]

theorem Sequence.getAvailableBit_eq {s : Sequence} (hc : s.count ≠ 0) {b : UInt64}
    (hb : b.toNat < 32) :
    s.getAvailableBit b = positionFrom 0 (firstClear (bits s.block) b.toNat) := by
  unfold Sequence.getAvailableBit
  by_cases hmax : s.block = blockMAX
  · rw [if_pos (by simp [hmax]), hmax, firstClear_bits_blockMAX]
    rfl
  · rw [if_neg (by simp [hmax, hc])]
    have hloop := getAvailableBitLoop_eq s.block (show b.toNat ≤ 32 by omega)
      (show 32 ≤ b.toNat + 32 by omega)
    rw [UInt64.ofNat_toNat] at hloop
    rw [show goShiftRight blockFirstBit b = selector b from rfl, hloop]
    cases hq : firstClear (bits s.block) b.toNat with
    | none => rfl
    | some q =>
        have hq32 : q < 32 := by
          obtain ⟨_, ⟨a, ha, _⟩, _⟩ := firstFrom_eq_some_iff.mp hq
          simpa using (List.getElem?_eq_some_iff.mp ha).1
        simp only [beq_iff_eq, selector_ne_zero hq32, if_false, positionFrom, Nat.zero_add,
          UInt64.ofNat_div (show q < 2 ^ 64 by omega) (show 8 < 2 ^ 64 by decide),
          UInt64.ofNat_mod (show q < 2 ^ 64 by omega) (show 8 < 2 ^ 64 by decide)]
        rfl

/-! ## The copies of a block -/

theorem nodeBits_split (s : Sequence) {j : ℕ} (hj : j < s.count.toNat) :
    nodeBits s = flatten (List.replicate j s.block) ++
      (bits s.block ++ flatten (List.replicate (s.count.toNat - (j + 1)) s.block)) := by
  obtain ⟨k, hk⟩ := Nat.exists_eq_add_of_lt hj
  rw [nodeBits, hk, show j + k + 1 - (j + 1) = k by omega, show j + k + 1 = j + (1 + k) by omega,
    List.replicate_add, List.replicate_add]
  simp [flatten]

/-- The search from bit `b` of copy `j` of a node's block: the first unset
bit of that copy from `b`, or else the search from the next copy. -/
theorem firstClear_nodeBits (s : Sequence) {j b : ℕ} (hj : j < s.count.toNat) (hb : b < 32) :
    firstClear (nodeBits s) (32 * j + b) =
      match firstClear (bits s.block) b with
      | some q => some (32 * j + q)
      | none => firstClear (nodeBits s) (32 * (j + 1)) := by
  have hsplit := nodeBits_split s hj
  unfold firstClear
  rw [hsplit, firstFrom_append_of_le _ (by simp only [length_flatten, List.length_replicate]; omega),
    firstFrom_append]
  simp only [length_flatten, List.length_replicate, length_bits,
    show 32 * j + b - 32 * j = b by omega, show b - 32 = 0 by omega]
  cases hq : firstFrom (!·) (bits s.block) b with
  | some q =>
      simp only [Option.some_or, Option.map_some]
      congr 1
      omega
  | none =>
      rw [← List.append_assoc, firstFrom_append_of_le _
        (by simp only [List.length_append, length_flatten, List.length_replicate, length_bits]; omega)]
      simp only [Option.none_or, Option.map_map, List.length_append, length_flatten,
        List.length_replicate, length_bits, show 32 * (j + 1) - (32 * j + 32) = 0 by omega]
      congr 1
      funext i
      simp only [Function.comp]
      omega

/-- The byte of bit `q` of copy `j` of a node whose bits start at byte `N`,
as the `retry` loop adds it up. -/
theorem byteOffset_add_eq {B j : UInt64} {N : ℕ} (hB : B.toNat = N + 4 * j.toNat) (q : ℕ) :
    B + UInt64.ofNat (0 + q / 8) = UInt64.ofNat (N + (32 * j.toNat + q) / 8) := by
  apply UInt64.toNat_inj.mp
  rw [UInt64.toNat_add, hB, UInt64.toNat_ofNat', UInt64.toNat_ofNat']
  omega

/-- One turn of the `retry` loop: the first unset bit of copy `j` from `b`,
or the hand-over at the last copy, or the next copy. -/
theorem getFirstAvailableRetry_succ {s : Sequence} {b j B : UInt64} {N : ℕ} (fuel : ℕ)
    (hc : s.count ≠ 0) (hb : b.toNat < 32) (hB : B.toNat = N + 4 * j.toNat) :
    getFirstAvailableRetry s (fuel + 1) b B j =
      match firstClear (bits s.block) b.toNat with
      | some q =>
          .found (UInt64.ofNat (N + (32 * j.toNat + q) / 8)) (UInt64.ofNat ((32 * j.toNat + q) % 8))
      | none => if j = s.count - 1 then .next B j else getFirstAvailableRetry s fuel 0 (B + 4) (j + 1) := by
  rw [getFirstAvailableRetry, s.getAvailableBit_eq hc hb]
  cases firstClear (bits s.block) b.toNat with
  | some q =>
      simp only [positionFrom, byteOffset_add_eq hB q]
      congr 2
      omega
  | none => rfl

/-- The `retry` loop, from bit `b` of copy `j` of a node whose bits start at
byte `N`, is the search of the node's bits: it stops at the first unset bit
of the copies left, or at the last copy. -/
theorem getFirstAvailableRetry_eq {s : Sequence} {b j B : UInt64} {N : ℕ}
    (hj : j.toNat < s.count.toNat) (hb : b.toNat < 32) (hB : B.toNat = N + 4 * j.toNat)
    (hN : N + 4 * s.count.toNat < 2 ^ 64) :
    getFirstAvailableRetry s ((s.count - 1 - j).toNat + 1) b B j =
      match firstClear (nodeBits s) (32 * j.toNat + b.toNat) with
      | some o => .found (UInt64.ofNat (N + o / 8)) (UInt64.ofNat (o % 8))
      | none => .next (UInt64.ofNat (N + 4 * (s.count.toNat - 1))) (s.count - 1) := by
  have hc : s.count ≠ 0 := by
    intro h
    simp [h] at hj
  have hc1 : (s.count - 1).toNat = s.count.toNat - 1 := by
    rw [UInt64.toNat_sub_of_le _ _ (UInt64.le_iff_toNat_le.mpr (by simp; omega))]
    simp
  generalize hk : (s.count - 1 - j).toNat = k
  have hk' : k = s.count.toNat - 1 - j.toNat := by
    rw [← hk, UInt64.toNat_sub_of_le _ _ (by rw [UInt64.le_iff_toNat_le, hc1]; omega), hc1]
  induction k generalizing b j B with
  | zero =>
      rw [getFirstAvailableRetry_succ 0 hc hb hB, firstClear_nodeBits s hj hb]
      cases firstClear (bits s.block) b.toNat with
      | some q => rfl
      | none =>
          have hlast : j = s.count - 1 := by
            apply UInt64.toNat_inj.mp
            rw [hc1]
            omega
          rw [firstClear, firstFrom_of_length_le (by simp; omega)]
          simp only [if_pos hlast]
          congr 1
          apply UInt64.toNat_inj.mp
          rw [hB, UInt64.toNat_ofNat']
          omega
  | succ k ih =>
      rw [getFirstAvailableRetry_succ (k + 1) hc hb hB, firstClear_nodeBits s hj hb]
      cases firstClear (bits s.block) b.toNat with
      | some q => rfl
      | none =>
          have hnext : ¬ j = s.count - 1 := by
            intro h
            rw [h, hc1] at hk'
            omega
          have hj1 : (j + 1).toNat = j.toNat + 1 := by
            rw [UInt64.toNat_add]
            simp
            omega
          have hB1 : (B + 4).toNat = N + 4 * (j + 1).toNat := by
            rw [UInt64.toNat_add, hB, hj1]
            simp
            omega
          have hk1 : (s.count - 1 - (j + 1)).toNat = k := by
            rw [UInt64.toNat_sub_of_le _ _ (by rw [UInt64.le_iff_toNat_le, hc1]; omega), hc1, hj1]
            omega
          simp only [if_neg hnext]
          rw [@ih 0 (j + 1) (B + 4) (by omega) (by simp) hB1 hk1 (by omega), hj1]
          simp

/-! ## The nodes of the list -/

theorem firstClear_nodeBits_blockMAX {s : Sequence} (hmax : s.block = blockMAX) (k : ℕ) :
    firstClear (nodeBits s) k = none := by
  have hall : bits blockMAX = List.replicate 32 true := by decide
  rw [firstClear, firstFrom_eq_none_iff]
  intro i _ a ha
  obtain ⟨w, hw, ha⟩ := List.mem_flatMap.mp (List.mem_of_getElem? ha)
  rw [(List.mem_replicate.mp hw).2, hmax, hall] at ha
  simp [(List.mem_replicate.mp ha).2]

theorem positionFrom_map_add (N c : ℕ) (x : Option ℕ) :
    positionFrom N (x.map (· + 32 * c)) = positionFrom (N + 4 * c) x := by
  cases x with
  | none => rfl
  | some o =>
      simp only [Option.map_some, positionFrom]
      congr 3 <;> omega

/-- With no unset bit left in the first node, the search goes on from the
start of the next. -/
theorem positionFrom_decode_cons {s : Sequence} {L : List Sequence} {N k : ℕ}
    (hk : k ≤ 32 * s.count.toNat) (hnone : firstClear (nodeBits s) k = none) :
    positionFrom N (firstClear (decode (s :: L)) k) =
      positionFrom (N + 4 * s.count.toNat) (firstClear (decode L) 0) := by
  rw [decode_cons, firstClear, firstFrom_append_of_eq_none _ (by simpa using hk) hnone,
    length_nodeBits]
  exact positionFrom_map_add N _ _

/-- The byte where the next node starts, as the outer loop adds it up from
copy `j`. -/
theorem nextNode_offset {s : Sequence} {B j : UInt64} {N : ℕ} (hB : B.toNat = N + 4 * j.toNat)
    (hj : j.toNat ≤ s.count.toNat) (hN : N + 4 * s.count.toNat < 2 ^ 64) :
    B + (s.count * blockBytes - j * blockBytes) = UInt64.ofNat (N + 4 * s.count.toNat) := by
  have hcount : (s.count * blockBytes).toNat = 4 * s.count.toNat :=
    toNat_count_mul_blockBytes (by omega)
  have hprec : (j * blockBytes).toNat = 4 * j.toNat := by
    rw [blockBytes_eq, UInt64.toNat_mul]
    simp
    omega
  apply UInt64.toNat_inj.mp
  rw [UInt64.toNat_add, UInt64.toNat_sub_of_le _ _ (by rw [UInt64.le_iff_toNat_le]; omega),
    hcount, hprec, hB, UInt64.toNat_ofNat']
  omega

/-- One node of the outer loop, given what the loop does from the next
node on. -/
theorem getFirstAvailableLoop_cons {s : Sequence} {L : List Sequence} {b j B : UInt64} {N : ℕ}
    (hj : j.toNat < s.count.toNat) (hb : b.toNat < 32) (hB : B.toNat = N + 4 * j.toNat)
    (hN : N + 4 * s.count.toNat < 2 ^ 64)
    (hrest : getFirstAvailableLoop L 0 (UInt64.ofNat (N + 4 * s.count.toNat)) 0 =
      positionFrom (N + 4 * s.count.toNat) (firstClear (decode L) 0)) :
    getFirstAvailableLoop (s :: L) b B j =
      positionFrom N (firstClear (decode (s :: L)) (32 * j.toNat + b.toNat)) := by
  have hk : 32 * j.toNat + b.toNat ≤ 32 * s.count.toNat := by omega
  rw [getFirstAvailableLoop]
  by_cases hmax : s.block = blockMAX
  · -- a full node is skipped whole
    rw [if_neg (by simp [hmax]), nextNode_offset hB (by omega) hN, hrest,
      positionFrom_decode_cons hk (firstClear_nodeBits_blockMAX hmax _)]
  · rw [if_pos (by simp [hmax]), getFirstAvailableRetry_eq hj hb hB hN]
    cases hfound : firstClear (nodeBits s) (32 * j.toNat + b.toNat) with
    | some o =>
        have hfirst : firstClear (decode (s :: L)) (32 * j.toNat + b.toNat) = some o := by
          rw [decode_cons]
          exact firstFrom_append_of_eq_some _ hfound
        rw [hfirst]
        rfl
    | none =>
        have hc1 : (s.count - 1).toNat = s.count.toNat - 1 := by
          rw [UInt64.toNat_sub_of_le _ _ (UInt64.le_iff_toNat_le.mpr (by simp; omega))]
          simp
        have hlast : (UInt64.ofNat (N + 4 * (s.count.toNat - 1))).toNat =
            N + 4 * (s.count - 1).toNat := by
          rw [UInt64.toNat_ofNat', hc1]
          omega
        simp only
        rw [nextNode_offset hlast (by omega) hN, hrest, positionFrom_decode_cons hk hfound]

/-- The outer loop from bit `b` of copy `j` of the first node, whose bits
start at byte `N`, is the search of the bits from there on. -/
theorem getFirstAvailableLoop_eq {s : Sequence} {L : List Sequence}
    (hpos : ∀ t ∈ s :: L, 0 < t.count.toNat) {b j B : UInt64} {N : ℕ}
    (hj : j.toNat < s.count.toNat) (hb : b.toNat < 32) (hB : B.toNat = N + 4 * j.toNat)
    (hN : N + 4 * numBlocks (s :: L) < 2 ^ 64) :
    getFirstAvailableLoop (s :: L) b B j =
      positionFrom N (firstClear (decode (s :: L)) (32 * j.toNat + b.toNat)) := by
  induction L generalizing s b j B N with
  | nil => exact getFirstAvailableLoop_cons hj hb hB (by simpa using hN) rfl
  | cons t L ih =>
      have hnb : numBlocks (s :: t :: L) = s.count.toNat + numBlocks (t :: L) := by simp
      refine getFirstAvailableLoop_cons hj hb hB (by omega) ?_
      have hfrom := @ih t (fun u hu => hpos u (List.mem_cons_of_mem _ hu)) 0 0
        (UInt64.ofNat (N + 4 * s.count.toNat)) (N + 4 * s.count.toNat) (hpos t (by simp)) (by simp)
        (by rw [UInt64.toNat_ofNat']; simp; omega) (by omega)
      simpa using hfrom

/-! ## The two searches -/

theorem positionFrom_eq_searchResult {N : ℕ} {x : Option ℕ} (hx : ∀ o ∈ x, 8 * N + o < 2 ^ 64) :
    positionFrom N x = searchResult (x.map (· + 8 * N)) := by
  cases x with
  | none => rfl
  | some o =>
      have ho : o + 8 * N < 2 ^ 64 := by have := hx o rfl; omega
      simp only [Option.map_some, positionFrom, searchResult, ordinalToPos]
      congr 2 <;> apply UInt64.toNat_inj.mp <;>
        simp only [UInt64.toNat_div, UInt64.toNat_mod, UInt64.toNat_ofNat', UInt64.toNat_ofNat,
          Nat.reducePow, Nat.reduceMod] <;>
        omega

theorem lt_length_of_firstClear {v : List Bool} {start o : ℕ} (h : firstClear v start = some o) :
    o < v.length := by
  obtain ⟨_, ⟨a, ha, _⟩, _⟩ := firstFrom_eq_some_iff.mp h
  exact (List.getElem?_eq_some_iff.mp ha).1

theorem getFirstAvailable_eq {head : List Sequence} (hpos : ∀ s ∈ head, 0 < s.count.toNat)
    (hbound : 32 * numBlocks head ≤ 2 ^ 64) (start : UInt64) :
    getFirstAvailable head start = searchResult (firstClear (decode head) start.toNat) := by
  have hfind := findSequence_spec head (start / 8) (by omega)
  have hp : (start / 8).toNat = start.toNat / 8 := by simp
  unfold getFirstAvailable
  simp only [ordinalToPos]
  cases hl : findSequence head (start / 8) with
  | none =>
      rw [hl, hp] at hfind
      rw [firstClear, firstFrom_of_length_le (by rw [length_decode]; omega)]
      rfl
  | some l =>
      rw [hl, hp] at hfind
      have h8 : (start % 8).toNat = start.toNat % 8 := by simp
      have hbit := hfind.toNat_bitIndex (show (start % 8).toNat < 8 by omega)
      have hblock := hfind.blockIndex
      have hsplit := hfind.split
      have hprec := hfind.precBlocks_lt
      have hin := hfind.inBlockBytePos
      have hnb : numBlocks head = numBlocks l.before + numBlocks (l.current :: l.after) := by
        rw [hsplit]
        simp
      have hB : (start / 8 - l.inBlockBytePos).toNat =
          4 * numBlocks l.before + 4 * l.precBlocks.toNat := by
        rw [UInt64.toNat_sub_of_le _ _ (by rw [UInt64.le_iff_toNat_le, hin, hp]; omega), hp, hin]
        omega
      dsimp only
      rw [getFirstAvailableLoop_eq (fun s hs => hpos s (by rw [hsplit]; simp [hs])) hprec
        (by rw [hbit]; omega) hB (by omega)]
      have hbefore : (decode l.before.reverse).length = 8 * (4 * numBlocks l.before) := by
        rw [length_decode, numBlocks_reverse]
        omega
      have hstart : 32 * l.precBlocks.toNat + (l.inBlockBytePos * 8 + start % 8).toNat =
          start.toNat - 8 * (4 * numBlocks l.before) := by
        rw [hbit, h8]
        omega
      rw [positionFrom_eq_searchResult (fun o ho => by
          have := lt_length_of_firstClear ho
          rw [length_decode] at this
          omega),
        hsplit, decode_append, hstart]
      unfold firstClear
      rw [firstFrom_append_of_le _ (by omega), hbefore]

theorem posToOrdinal_ordinalToPos {o : ℕ} :
    posToOrdinal (ordinalToPos (UInt64.ofNat o)).1 (ordinalToPos (UInt64.ofNat o)).2 =
      UInt64.ofNat o := by
  apply UInt64.toNat_inj.mp
  simp only [posToOrdinal, ordinalToPos, UInt64.toNat_add, UInt64.toNat_mul, UInt64.toNat_div,
    UInt64.toNat_mod, UInt64.toNat_ofNat', UInt64.toNat_ofNat, Nat.reducePow, Nat.reduceMod]
  omega

theorem lt_ofNat_iff {stop : UInt64} {o : ℕ} (ho : o < 2 ^ 64) :
    stop < UInt64.ofNat o ↔ stop.toNat < o := by
  rw [UInt64.lt_iff_toNat_lt, UInt64.toNat_ofNat', Nat.mod_eq_of_lt ho]

theorem firstClear_lt_two_pow {head : List Sequence} (hbound : 32 * numBlocks head ≤ 2 ^ 64)
    (start : ℕ) : ∀ o ∈ firstClear (decode head) start, o < 2 ^ 64 := by
  intro o ho
  have := lt_length_of_firstClear ho
  rw [length_decode] at this
  omega

/-- `getAvailableFromCurrent` is the search from the cursor when it lies
past `start` and finds an ordinal up to `stop`, and else the search from
`start` up to `stop`. -/
theorem getAvailableFromCurrent_eq {head : List Sequence} (hpos : ∀ s ∈ head, 0 < s.count.toNat)
    (hbound : 32 * numBlocks head ≤ 2 ^ 64) (start curr stop : UInt64) :
    getAvailableFromCurrent head start curr stop =
      searchResult ((if start < curr then firstClearIn (decode head) curr.toNat stop.toNat
        else none).or (firstClearIn (decode head) start.toNat stop.toNat)) := by
  have hcur := firstClear_lt_two_pow hbound curr.toNat
  have hstart := firstClear_lt_two_pow hbound start.toNat
  have hcond : (curr != 0 && decide (curr > start)) = true ↔ start < curr := by
    simp only [Bool.and_eq_true, bne_iff_ne, ne_eq, decide_eq_true_eq, gt_iff_lt]
    constructor
    · exact fun h => h.2
    · intro h
      refine ⟨fun h0 => ?_, h⟩
      rw [h0] at h
      exact UInt64.not_lt_zero h
  unfold getAvailableFromCurrent firstClearIn
  simp only [getFirstAvailable_eq hpos hbound]
  revert hcur hstart
  generalize firstClear (decode head) curr.toNat = xc
  generalize firstClear (decode head) start.toNat = xs
  intro hcur hstart
  have hfilter : ∀ o : ℕ, (some o).filter (fun x => decide (x ≤ stop.toNat)) =
      if stop.toNat < o then none else some o := fun o => by
    rw [Option.filter_some]
    by_cases h : stop.toNat < o
    · rw [if_pos h, if_neg (by simp only [decide_eq_true_eq]; omega)]
    · rw [if_neg h, if_pos (by simp only [decide_eq_true_eq]; omega)]
  by_cases hlt : start < curr
  · rw [if_pos (hcond.mpr hlt), if_pos hlt]
    cases xc with
    | none =>
        cases xs with
        | none => rfl
        | some os =>
            have hos := hstart os rfl
            simp only [searchResult, posToOrdinal_ordinalToPos, lt_ofNat_iff hos, hfilter]
            by_cases hs : stop.toNat < os <;> simp [hs]
    | some oc =>
        have hoc := hcur oc rfl
        simp only [searchResult, posToOrdinal_ordinalToPos, lt_ofNat_iff hoc, hfilter]
        by_cases hc : stop.toNat < oc
        · -- past `stop`: the search from `start` decides
          cases xs with
          | none => simp [hc]
          | some os =>
              have hos := hstart os rfl
              simp only [posToOrdinal_ordinalToPos, lt_ofNat_iff hos, hfilter]
              by_cases hs : stop.toNat < os <;> simp [hc, hs]
        · simp [hc]
  · rw [if_neg (mt hcond.mp hlt), if_neg hlt, Option.none_or]
    cases xs with
    | none => rfl
    | some os =>
        have hos := hstart os rfl
        simp only [searchResult, posToOrdinal_ordinalToPos, lt_ofNat_iff hos, hfilter]
        by_cases hs : stop.toNat < os <;> simp [hs]

example : getFirstAvailable [⟨0xFFFFFFFF, 2⟩, ⟨0xF0000000, 1⟩] 3 = .ok (8, 4) := rfl

/-- On a list of non-empty nodes numbered by `uint64` ordinals,
`getFirstAvailable` finds the least unset ordinal at or after `start`, and
`getAvailableFromCurrent` the least of `[curr, stop]` when `curr` lies past
`start` and one exists, else the least of `[start, stop]`. -/
theorem getFirstAvailable_finds_least_clear {head : List Sequence}
    (hpos : ∀ s ∈ head, 0 < s.count.toNat) (hbound : 32 * numBlocks head ≤ 2 ^ 64) :
    (∀ start, getFirstAvailable head start = searchResult (firstClear (decode head) start.toNat)) ∧
      ∀ start curr stop, getAvailableFromCurrent head start curr stop =
        searchResult ((if start < curr then firstClearIn (decode head) curr.toNat stop.toNat
          else none).or (firstClearIn (decode head) start.toNat stop.toNat)) :=
  ⟨getFirstAvailable_eq hpos hbound, getAvailableFromCurrent_eq hpos hbound⟩

theorem getFirstAvailable_finds_least_clear_three_nodes :
    (∀ s ∈ ([⟨0xFFFFFFFF, 2⟩, ⟨0xF0000000, 1⟩, ⟨0, 5⟩] : List Sequence), 0 < s.count.toNat) ∧
      32 * numBlocks [⟨0xFFFFFFFF, 2⟩, ⟨0xF0000000, 1⟩, ⟨0, 5⟩] ≤ 2 ^ 64 ∧
      getFirstAvailable [⟨0xFFFFFFFF, 2⟩, ⟨0xF0000000, 1⟩, ⟨0, 5⟩] 3 =
        searchResult (firstClear (decode [⟨0xFFFFFFFF, 2⟩, ⟨0xF0000000, 1⟩, ⟨0, 5⟩]) 3) :=
  ⟨by decide, by decide, (getFirstAvailable_finds_least_clear (by decide) (by decide)).1 3⟩

/-- A node of `2 ^ 62` free blocks holds `2 ^ 64` bytes: `count * blockBytes`
wraps to zero, `findSequence` places byte `0` past the list, and the search
answers that no bit is free although bit `0` is. -/
theorem getFirstAvailable_misses_clear_bit_of_huge_node :
    getFirstAvailable [⟨0, 0x4000000000000000⟩] 0 = .error .noBitAvailable ∧
      firstClear (decode [⟨0, 0x4000000000000000⟩]) 0 = some 0 := by
  refine ⟨rfl, ?_⟩
  have hbit : (decode [⟨0, 0x4000000000000000⟩])[0]? = some false := by
    rw [decode, getElem?_flatten, blocks_cons, blocks_nil, List.append_nil,
      List.getElem?_replicate]
    rfl
  exact firstFrom_eq_some_iff.mpr ⟨le_refl 0, ⟨false, hbit, rfl⟩, fun i hi hlt => by omega⟩

end Libnetwork.Bitseq
