import Libnetwork.Support.RunLength
import Libnetwork.Support.MsbBits

/-!
# The run-length encoded sequence of `bitseq`

`bitseq/sequence.go` keeps a long bitmask as a linked list of nodes, each
node standing for `count` consecutive copies of a 32-bit `block`, and every
operation works on that encoded list directly.  This module translates the
node type and the list functions: `getAvailableBit`, `findSequence`,
`checkIfAvailable`, `getFirstAvailable`, `getAvailableFromCurrent`,
`pushReservation` with `removeCurrentIfEmpty` and `mergeSequences`, and the
position helpers.

The linked list is a Lean list of nodes.  A pointer into it is what
`findSequence` returns: the nodes before the one found (nearest first), the
node itself and the nodes after it; the source's `previous` is the first of
the nodes before, or the node itself at the head.  `pushReservation` mutates
the nodes of a private copy of the list (the caller `Handle.set` copies the
handle first), so the mutation is rendered as building the new list.
Arithmetic is on `UInt64` and `UInt32`, wrapping as Go's does.

At the end the list is given its meaning: `toRuns` reads it as a run list,
`blocks` expands it to one entry per block, and `decode` flattens the blocks
to the bit vector the list encodes.
-/

namespace Libnetwork.Bitseq

open MsbBits

/-- `blockLen`: the number of bits in a block. -/
def blockLen : UInt32 := 32

/-- `blockBytes`: the number of bytes in a block. -/
def blockBytes : UInt64 := (blockLen / 8).toUInt64

/-- `blockMAX`: the block with every bit set. -/
def blockMAX : UInt32 := 0xFFFFFFFF

/-- `blockFirstBit`: the block with only the most significant bit set. -/
def blockFirstBit : UInt32 := 0x80000000

/-- `invalidPos`, returned as a position together with an error. -/
def invalidPos : UInt64 := 0xFFFFFFFFFFFFFFFF

@[simp] theorem blockBytes_eq : blockBytes = 4 := rfl

/-- The errors of the package: `ErrNoBitAvailable`, `ErrBitAllocated`, the
range error of `SetAnyInRange` and the error of `validateOrdinal`. -/
inductive BitseqError
  | noBitAvailable
  | bitAllocated
  | invalidBitRange (start stop : UInt64)
  | notInSequence
  deriving DecidableEq, Repr

/-- The text of each error. -/
def BitseqError.message : BitseqError → String
  | .noBitAvailable => "no bit available"
  | .bitAllocated => "requested bit is already allocated"
  | .invalidBitRange start stop => s!"invalid bit range [{start}, {stop}]"
  | .notInSequence => "bit does not belong to the sequence"

/-- A node of the list: `count` consecutive copies of the 32-bit `block`. -/
structure Sequence where
  block : UInt32
  count : UInt64
  deriving DecidableEq, Repr

/-- `getNumBlocks`: the number of blocks holding `numBits` bits. -/
def getNumBlocks (numBits : UInt64) : UInt64 :=
  let numBlocks := numBits / blockLen.toUInt64
  if numBits % blockLen.toUInt64 != 0 then numBlocks + 1 else numBlocks

@[simp] theorem blockLen_toUInt64 : blockLen.toUInt64 = 32 := rfl

theorem toNat_getNumBlocks (numBits : UInt64) :
    (getNumBlocks numBits).toNat = (numBits.toNat + 31) / 32 := by
  have hdiv : (numBits / 32).toNat = numBits.toNat / 32 := UInt64.toNat_div _ _
  have hmod : (numBits % 32).toNat = numBits.toNat % 32 := UInt64.toNat_mod _ _
  have hlt := numBits.toNat_lt
  unfold getNumBlocks
  split
  · next hne =>
      rw [blockLen_toUInt64] at hne
      have hrem : numBits.toNat % 32 ≠ 0 := by
        rw [← hmod]
        exact fun h0 => (by simpa using hne : numBits % 32 ≠ 0) (UInt64.toNat_inj.mp h0)
      rw [blockLen_toUInt64, UInt64.toNat_add, hdiv, UInt64.toNat_one,
        Nat.mod_eq_of_lt (by omega)]
      omega
  · next heq =>
      rw [blockLen_toUInt64] at heq
      have hrem : numBits.toNat % 32 = 0 := by
        rw [← hmod, (by simpa using heq : numBits % 32 = 0)]
        rfl
      rw [blockLen_toUInt64, hdiv]
      omega

/-- `ordinalToPos`: the byte and the bit of an ordinal. -/
def ordinalToPos (ordinal : UInt64) : UInt64 × UInt64 :=
  (ordinal / 8, ordinal % 8)

/-- `posToOrdinal`: the ordinal of a byte and bit position. -/
def posToOrdinal (bytePos bitPos : UInt64) : UInt64 :=
  bytePos * 8 + bitPos

/-! ## Searching one block -/

/-- The loop of `getAvailableBit`: move the selector right while it points at
a set bit, counting the bits passed.  Each turn halves the selector, so the
loop ends by its own test within the 32 turns of fuel it is given. -/
def getAvailableBitLoop (block : UInt32) : ℕ → UInt32 → UInt64 → UInt32 × UInt64
  | 0, bitSel, bits => (bitSel, bits)
  | fuel + 1, bitSel, bits =>
      if bitSel > 0 && block &&& bitSel != 0 then
        getAvailableBitLoop block fuel (bitSel >>> 1) (bits + 1)
      else (bitSel, bits)

/-- `getAvailableBit`: the byte and bit, inside the block, of the first unset
bit at or after bit `offset` (the source's `from`). -/
def Sequence.getAvailableBit (s : Sequence) (offset : UInt64) :
    Except BitseqError (UInt64 × UInt64) :=
  if s.block == blockMAX || s.count == 0 then .error .noBitAvailable
  else
    let (bitSel, bits) :=
      getAvailableBitLoop s.block 32 (goShiftRight blockFirstBit offset) offset
    if bitSel == 0 then .error .noBitAvailable
    else .ok (bits / 8, bits % 8)

/-! ## Locating a byte -/

/-- What `findSequence` returns when the byte lies inside the list: the nodes
before the one holding it (nearest first), that node, the nodes after it, the
number of blocks of the node before the byte's block, and the byte's position
inside its block. -/
structure Located where
  before : List Sequence
  current : Sequence
  after : List Sequence
  precBlocks : UInt64
  inBlockBytePos : UInt64

/-- The source's `previous`: the node before `current`, or `current` itself
when it is the head. -/
def Located.previous (l : Located) : Sequence :=
  match l.before with
  | [] => l.current
  | p :: _ => p

/-- The source's `bitSel` for bit `bitPos` of the byte found: the selector of
bit `inBlockBytePos * 8 + bitPos` of the block. -/
def Located.bitSel (l : Located) (bitPos : UInt64) : UInt32 :=
  goShiftRight blockFirstBit (l.inBlockBytePos * 8 + bitPos)

/-- The loop of `findSequence`: step to the next node while the residual
offset `n` lies past the current one. -/
def findSequenceLoop (before : List Sequence) (current : Sequence) :
    List Sequence → UInt64 → List Sequence × Sequence × List Sequence × UInt64
  | [], n => (before, current, [], n)
  | next :: rest, n =>
      if n >= current.count * blockBytes then
        findSequenceLoop (current :: before) next rest
          (n - current.count * blockBytes)
      else (before, current, next :: rest, n)

/-- `findSequence`: the node holding byte `bytePos`, or `none` (the source's
`nil`) when the byte lies past the list.  The head is never `nil` in the
source; the empty list answers `none`. -/
def findSequence (head : List Sequence) (bytePos : UInt64) : Option Located :=
  match head with
  | [] => none
  | first :: rest =>
      let (before, current, after, n) := findSequenceLoop [] first rest bytePos
      if n >= current.count * blockBytes then none
      else some ⟨before, current, after, n / blockBytes, bytePos % blockBytes⟩

/-- `checkIfAvailable`: the position of `ordinal` when its bit is unset. -/
def checkIfAvailable (head : List Sequence) (ordinal : UInt64) :
    Except BitseqError (UInt64 × UInt64) :=
  let (bytePos, bitPos) := ordinalToPos ordinal
  match findSequence head bytePos with
  | some l =>
      if l.current.block &&& l.bitSel bitPos == 0 then .ok (bytePos, bitPos)
      else .error .bitAllocated
  | none => .error .bitAllocated

/-! ## Searching the list -/

/-- How the `retry` loop of `getFirstAvailable` ends: with a position, or by
jumping to `next` with the offsets reached. -/
inductive RetryExit
  | found (bytePos bitPos : UInt64)
  | next (byteOffset precBlocks : UInt64)

/-- The `retry` loop of `getFirstAvailable` over the remaining copies of
`current`'s block.  It ends when `precBlocks` reaches `count - 1`, modulo
`2 ^ 64` as in the source; the caller gives it one turn of fuel per copy
left, so that it ends by its own test. -/
def getFirstAvailableRetry (current : Sequence) :
    ℕ → UInt64 → UInt64 → UInt64 → RetryExit
  | 0, _, byteOffset, precBlocks => .next byteOffset precBlocks
  | fuel + 1, bitOffset, byteOffset, precBlocks =>
      match current.getAvailableBit bitOffset with
      | .ok (bytePos, bitPos) => .found (byteOffset + bytePos) bitPos
      | .error _ =>
          if precBlocks = current.count - 1 then .next byteOffset precBlocks
          else
            getFirstAvailableRetry current fuel 0 (byteOffset + blockBytes)
              (precBlocks + 1)

/-- The outer loop of `getFirstAvailable`, over the nodes from `current` on. -/
def getFirstAvailableLoop :
    List Sequence → UInt64 → UInt64 → UInt64 →
      Except BitseqError (UInt64 × UInt64)
  | [], _, _, _ => .error .noBitAvailable
  | current :: rest, bitOffset, byteOffset, precBlocks =>
      if current.block != blockMAX then
        match getFirstAvailableRetry current ((current.count - 1 - precBlocks).toNat + 1)
            bitOffset byteOffset precBlocks with
        | .found bytePos bitPos => .ok (bytePos, bitPos)
        | .next byteOffset precBlocks =>
            getFirstAvailableLoop rest 0
              (byteOffset + (current.count * blockBytes - precBlocks * blockBytes)) 0
      else
        getFirstAvailableLoop rest 0
          (byteOffset + (current.count * blockBytes - precBlocks * blockBytes)) 0

/-- `getFirstAvailable`: the position of the first unset bit at or after
ordinal `start`. -/
def getFirstAvailable (head : List Sequence) (start : UInt64) :
    Except BitseqError (UInt64 × UInt64) :=
  let (byteStart, bitStart) := ordinalToPos start
  match findSequence head byteStart with
  | none => .error .noBitAvailable
  | some l =>
      getFirstAvailableLoop (l.current :: l.after)
        (l.inBlockBytePos * 8 + bitStart) (byteStart - l.inBlockBytePos)
        l.precBlocks

/-- `getAvailableFromCurrent`: the first unset bit in `[curr, stop]` when
`curr` is past `start`, else (or when there is none) the first in
`[start, stop]`.  The source's `end` is `stop`. -/
def getAvailableFromCurrent (head : List Sequence) (start curr stop : UInt64) :
    Except BitseqError (UInt64 × UInt64) :=
  let begin : Except BitseqError (UInt64 × UInt64) :=
    match getFirstAvailable head start with
    | .ok (bytePos, bitPos) =>
        if stop < posToOrdinal bytePos bitPos then .error .noBitAvailable
        else .ok (bytePos, bitPos)
    | .error _ => .error .noBitAvailable
  if curr != 0 && curr > start then
    match getFirstAvailable head curr with
    | .ok (bytePos, bitPos) =>
        if stop < posToOrdinal bytePos bitPos then begin
        else .ok (bytePos, bitPos)
    | .error _ => begin
  else begin

/-! ## Updating the list -/

/-- `removeCurrentIfEmpty`, as `pushReservation` calls it: the list after the
new node, without `current` once its count has dropped to zero.  (The
source's branch for a `current` at the head cannot be taken from this call:
the head is then the new node.) -/
def removeCurrentIfEmpty (current : Sequence) (after : List Sequence) :
    List Sequence :=
  if current.count == 0 then after else current :: after

/-- The `for` loop and the recursion of `mergeSequences` from node `seq`:
absorb every following node with the same block, then go on from the next
node. -/
def mergeSequencesFrom (seq : Sequence) : List Sequence → List Sequence
  | [] => [seq]
  | next :: rest =>
      if seq.block == next.block then
        mergeSequencesFrom { seq with count := seq.count + next.count } rest
      else seq :: mergeSequencesFrom next rest

/-- `mergeSequences`: join neighbouring nodes with the same block. -/
def mergeSequences : List Sequence → List Sequence
  | [] => []
  | seq :: rest => mergeSequencesFrom seq rest

/-- The block `pushReservation` builds: the found block with the selected bit
cleared (`release`) or set. -/
def Located.newBlock (l : Located) (bitPos : UInt64) (release : Bool) : UInt32 :=
  if release then l.current.block &&& ~~~l.bitSel bitPos
  else l.current.block ||| l.bitSel bitPos

/-- The insertion part of `pushReservation`, once the block has changed: the
node holding the block loses one block, which moves to a new node before it
(case A), after it (B), or between its two halves (C). -/
def Located.replaceBlock (l : Located) (newBlock : UInt32) : List Sequence :=
  let current := { l.current with count := l.current.count - 1 }
  let newSequence : Sequence := ⟨newBlock, 1⟩
  if l.precBlocks == 0 then
    -- (A): the new node goes before `current`; the merge pass starts at
    -- `previous`, which is the new node itself at the head.
    let tail := removeCurrentIfEmpty current l.after
    match l.before with
    | [] => mergeSequences (newSequence :: tail)
    | previous :: prior =>
        prior.reverse ++ mergeSequences (previous :: newSequence :: tail)
  else if l.precBlocks == current.count then
    -- (B): the new node goes after `current`, which keeps its block.
    l.before.reverse ++ mergeSequences (current :: newSequence :: l.after)
  else
    -- (C): `current` is split around the new node; nothing can merge.
    l.before.reverse ++ ⟨current.block, l.precBlocks⟩ :: newSequence ::
      ⟨current.block, current.count - l.precBlocks⟩ :: l.after

/-- `pushReservation`: set (`release = false`) or clear the bit at `bytePos`,
`bitPos`; a redundant request or a byte past the list returns the list
unchanged. -/
def pushReservation (bytePos bitPos : UInt64) (head : List Sequence)
    (release : Bool) : List Sequence :=
  match findSequence head bytePos with
  | none => head
  | some l =>
      let newBlock := l.newBlock bitPos release
      if l.current.block == newBlock then head
      else l.replaceBlock newBlock

/-! ## What a list encodes -/

/-- The run list a list of nodes stands for. -/
def toRuns (head : List Sequence) : List (UInt32 × ℕ) :=
  head.map fun s => (s.block, s.count.toNat)

/-- The blocks a list of nodes stands for, one entry per block. -/
def blocks (head : List Sequence) : List UInt32 :=
  RunLength.expand (toRuns head)

/-- The bit vector a list of nodes encodes, each block most significant bit
first. -/
def decode (head : List Sequence) : List Bool :=
  flatten (blocks head)

/-- The number of blocks a list of nodes stands for. -/
def numBlocks (head : List Sequence) : ℕ :=
  RunLength.total (toRuns head)

@[simp] theorem toRuns_nil : toRuns [] = [] := rfl

@[simp] theorem toRuns_cons (s : Sequence) (l : List Sequence) :
    toRuns (s :: l) = (s.block, s.count.toNat) :: toRuns l := rfl

@[simp] theorem toRuns_append (l m : List Sequence) :
    toRuns (l ++ m) = toRuns l ++ toRuns m := by
  simp [toRuns]

@[simp] theorem toRuns_reverse (l : List Sequence) :
    toRuns l.reverse = (toRuns l).reverse := by
  simp [toRuns]

@[simp] theorem numBlocks_nil : numBlocks [] = 0 := rfl

@[simp] theorem numBlocks_cons (s : Sequence) (l : List Sequence) :
    numBlocks (s :: l) = s.count.toNat + numBlocks l := by
  simp [numBlocks]

@[simp] theorem numBlocks_append (l m : List Sequence) :
    numBlocks (l ++ m) = numBlocks l + numBlocks m := by
  simp [numBlocks]

@[simp] theorem numBlocks_reverse (l : List Sequence) :
    numBlocks l.reverse = numBlocks l := by
  simp [numBlocks]

@[simp] theorem blocks_nil : blocks [] = [] := rfl

@[simp] theorem blocks_cons (s : Sequence) (l : List Sequence) :
    blocks (s :: l) = List.replicate s.count.toNat s.block ++ blocks l := rfl

@[simp] theorem blocks_append (l m : List Sequence) :
    blocks (l ++ m) = blocks l ++ blocks m := by
  simp [blocks]

@[simp] theorem length_blocks (l : List Sequence) :
    (blocks l).length = numBlocks l := by
  simp [blocks, numBlocks]

theorem length_decode (head : List Sequence) :
    (decode head).length = 32 * numBlocks head := by
  simp [decode, blocks, numBlocks]

theorem toRuns_injective {l m : List Sequence} (h : toRuns l = toRuns m) :
    l = m := by
  induction l generalizing m with
  | nil => cases m <;> simp_all
  | cons s l ih =>
      cases m with
      | nil => simp at h
      | cons t m =>
          simp only [toRuns_cons, List.cons.injEq, Prod.mk.injEq] at h
          obtain ⟨⟨hb, hc⟩, hl⟩ := h
          have hst : s = t := by
            cases s
            cases t
            simp only at hb hc
            rw [hb, UInt64.toNat_inj.mp hc]
          rw [hst, ih hl]

end Libnetwork.Bitseq
