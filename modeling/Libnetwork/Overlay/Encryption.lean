import Libnetwork.Support.GoNet
import Libnetwork.Support.GoSlice
import Libnetwork.Support.Transition

/-!
# Overlay encryption keys

`drivers/overlay/encryption.go` keeps the keys of the datapath encryption,
the primary first, and for each remote node the SPIs (security parameter
indices) of the flows to and from it: one pair per key, in the order of the
keys.  `setupEncryption` programs a node with every key; `updateKeys` adds a
key, makes one primary and prunes one, and applies the same three steps to
the SPIs of every node through `updateNodeKey`.

The kernel's XFRM states and policies are effects whose errors the source
only logs, so the model leaves them out and keeps what they read: every read
of a slice is checked, and a call answers `none` where Go panics.  A node is
keyed by the text of its address, which `updateKeys` reads back with
`net.ParseIP`.
-/

namespace Libnetwork.Overlay

open GoNet GoSlice

/-- `key`: its tag; the key's bytes only go to the kernel. -/
structure Key where
  tag : UInt32
  deriving DecidableEq, Repr

/-- `spi`: the forward and reverse SPIs, each the `int` value of a
`uint32`. -/
structure Spi where
  forward : UInt32
  reverse : UInt32
  deriving DecidableEq, Repr

/-- Go's `hash/fnv` `New32a` over `bytes`. -/
def fnv32a (bytes : List UInt8) : UInt32 :=
  bytes.foldl (fun h b => (h ^^^ b.toUInt32) * 16777619) 2166136261

/-- `binary.BigEndian.PutUint32`: the four bytes of `v`, most significant
first. -/
def bigEndian32 (v : UInt32) : List UInt8 :=
  [(v >>> 24).toUInt8, (v >>> 16).toUInt8, (v >>> 8).toUInt8, v.toUInt8]

def buildSPI (src dst : IP) (st : UInt32) : UInt32 :=
  fnv32a (src ++ bigEndian32 st ++ dst)

/-- The SPIs of the flows from `aIP` to `rIP` and back under key `k`. -/
def spiOf (aIP rIP : IP) (k : Key) : Spi :=
  ⟨buildSPI aIP rIP k.tag, buildSPI rIP aIP k.tag⟩

/-- `net.ParseIP` of a text: nil when it is no address. -/
def parseIP (s : String) : IP :=
  (ParseIP s.toList).getD []

/-- `em.nodes[node] = idxs` on the nodes of an `encrMap`. -/
def setNode (nodes : List (String × List Spi)) (node : String) (idxs : List Spi) :
    List (String × List Spi) :=
  if nodes.any (·.1 == node) then nodes.map fun e => if e.1 == node then (node, idxs) else e
  else nodes ++ [(node, idxs)]

/-- `setupEncryption`: node `remoteIP` programmed with every key, the
primary first. -/
def setupEncryption (advIP remoteIP : IP) (nodes : List (String × List Spi))
    (keys : List Key) : List (String × List Spi) :=
  setNode nodes (IP.String remoteIP) (keys.map (spiOf advIP remoteIP))

/-- The driver's encryption state. -/
structure Driver where
  advertiseAddress : String
  keys : List Key
  secMap : List (String × List Spi)

/-- `setKeys`: the keys replaced, and every node forgotten. -/
def Driver.setKeys (d : Driver) (keys : List Key) : Driver :=
  { d with keys, secMap := [] }

/-- The loop of `updateKeys` for one of the keys it is given: the last
index of a key with its tag, `-1` when there is none or the key is nil. -/
def tagIndex (keys : List Key) : Option Key → ℤ
  | none => -1
  | some k => keys.zipIdx.foldl (fun idx e => if e.1.tag == k.tag then e.2 else idx) (-1)

/-- The swap and prune of `updateKeys`: the primary swapped into the first
place, then the pruned key removed, from the primary's old place when it was
the first. -/
def keysRotation {α : Type} (s : List α) (priIdx delIdx : ℤ) : Option (List α) :=
  (if priIdx != -1 then swap s 0 priIdx else some s).bind fun s =>
    if delIdx != -1 then removeAt s (if delIdx == 0 then priIdx else delIdx) else some s

/-- The swap and prune of `updateNodeKey`, which swaps only for a primary
past the first place. -/
def spisRotation {α : Type} (s : List α) (priIdx delIdx : ℤ) : Option (List α) :=
  (if priIdx > 0 then swap s 0 priIdx else some s).bind fun s =>
    if delIdx != -1 then removeAt s (if delIdx == 0 then priIdx else delIdx) else some s

/-- Whether the state and policy updates of `updateNodeKey` read only
entries that exist: `-rSA0` the pruned SPIs, `+rSA2` the new key and its
SPIs, `+fSA2` the primary and its SPIs, and `-fSA1` the first SPIs.  Their
errors are only logged. -/
def xfrmReadsInRange (spis : List Spi) (curKeys : List Key) (newIdx priIdx delIdx : ℤ) :
    Bool :=
  (delIdx == -1 || (index? spis delIdx).isSome) &&
    (newIdx ≤ -1 || ((index? spis newIdx).isSome && (index? curKeys newIdx).isSome)) &&
    (priIdx ≤ 0 || ((index? spis priIdx).isSome && (index? curKeys priIdx).isSome &&
      (index? spis 0).isSome))

/-- `updateNodeKey`: the SPIs of node `rIP` after adding the key at
`newIdx`, making the one at `priIdx` primary and pruning the one at
`delIdx`. -/
def updateNodeKey (aIP rIP : IP) (idxs : List Spi) (curKeys : List Key)
    (newIdx priIdx delIdx : ℤ) : Option (List Spi) :=
  -- add new
  (if newIdx != -1 then (index? curKeys newIdx).map fun k => idxs ++ [spiOf aIP rIP k]
    else some idxs).bind fun spis =>
  if xfrmReadsInRange spis curKeys newIdx priIdx delIdx then spisRotation spis priIdx delIdx
  else none

/-- The errors of `updateKeys`. -/
inductive KeyUpdateError
  | keyIndices (newIdx priIdx delIdx : ℤ)
  | primaryPruned (priIdx : ℤ)
  deriving DecidableEq, Repr

/-- The text of each error. -/
def KeyUpdateError.Error : KeyUpdateError → String
  | .keyIndices newIdx priIdx delIdx =>
      "cannot find proper key indices while processing key update:" ++
        "(newIdx,priIdx,delIdx):(" ++ toString newIdx ++ ", " ++ toString priIdx ++ ", " ++
        toString delIdx ++ ")"
  | .primaryPruned priIdx =>
      "attempting to both make a key (index " ++ toString priIdx ++ ") primary and delete it"

/-- `updateKeys`.  The new key is appended before the request is checked. -/
def Driver.updateKeys (d : Driver) (newKey primary pruneKey : Option Key) :
    Option (Driver × Option KeyUpdateError) :=
  let aIP := parseIP d.advertiseAddress
  -- add new
  let keys := d.keys ++ newKey.toList
  let newIdx : ℤ := if newKey.isSome then -1 + keys.length else -1
  let priIdx := tagIndex keys primary
  let delIdx := tagIndex keys pruneKey
  let d := { d with keys }
  if (newKey.isSome && newIdx == -1) || (primary.isSome && priIdx == -1) ||
      (pruneKey.isSome && delIdx == -1) then
    some (d, some (.keyIndices newIdx priIdx delIdx))
  else if priIdx != -1 && priIdx == delIdx then
    some (d, some (.primaryPruned priIdx))
  else
    (d.secMap.mapM fun e =>
      (updateNodeKey aIP (parseIP e.1) e.2 keys newIdx priIdx delIdx).map (e.1, ·)).bind
    fun secMap => (keysRotation keys priIdx delIdx).map fun keys => ({ d with keys, secMap }, none)

/-! ## The calls -/

/-- The calls that change the keys or the nodes: `setKeys` and
`updateKeys` of `DiscoverNew`, and `setupEncryption` of a node as
`checkEncryption` makes it, with the driver's own address and keys. -/
inductive KeyCall
  | setKeys (keys : List Key)
  | setupEncryption (remoteIP : IP)
  | updateKeys (newKey primary pruneKey : Option Key)

/-- A call, `none` where it panics. -/
def Driver.call (d : Driver) : KeyCall → Option (Driver × Option KeyUpdateError)
  | .setKeys keys => some (d.setKeys keys, none)
  | .setupEncryption remoteIP =>
      some ({ d with secMap :=
        setupEncryption (parseIP d.advertiseAddress) remoteIP d.secMap d.keys }, none)
  | .updateKeys newKey primary pruneKey => d.updateKeys newKey primary pruneKey

/-! ## A rejected update -/

/-- With one key and one node, an update whose primary is unknown is
rejected after its new key was appended: the keys grow and the node keeps
one SPI pair.  The next update that adds a key then reads the node's SPIs
past their end, and pruning the first key without naming a primary prunes
at index `-1`; both panic. -/
theorem updateKeys_rejected_keeps_new_key :
    ∃ d₀ d₁ d₂ : Driver,
      (Driver.mk "10.0.0.1" [] []).call (.setKeys [⟨1⟩]) = some (d₀, none) ∧
      d₀.call (.setupEncryption (parseIP "10.0.0.2")) = some (d₁, none) ∧
      d₁.call (.updateKeys (some ⟨2⟩) (some ⟨9⟩) none) =
        some (d₂, some (.keyIndices 1 (-1) (-1))) ∧
      d₁.keys = [⟨1⟩] ∧ d₂.keys = [⟨1⟩, ⟨2⟩] ∧ d₂.secMap = d₁.secMap ∧
      (d₂.secMap.map fun e => e.2.length) = [1] ∧
      d₂.call (.updateKeys (some ⟨3⟩) none none) = none ∧
      d₁.call (.updateKeys none none (some ⟨1⟩)) = none :=
  ⟨_, _, _, rfl, rfl, rfl, rfl, rfl, rfl, rfl, rfl, rfl⟩

/-! ## Indices and rotations -/

/-- What the loops of `updateKeys` find among `n` keys: `-1`, or the index
of one of them. -/
def IndexOrNone (i : ℤ) (n : ℕ) : Prop :=
  i = -1 ∨ (0 ≤ i ∧ i < n)

theorem tagIndex_indexOrNone (keys : List Key) (k : Option Key) :
    IndexOrNone (tagIndex keys k) keys.length := by
  cases k with
  | none => exact Or.inl rfl
  | some k =>
    have hfold : ∀ (ps : List (Key × ℕ)) (idx : ℤ), (∀ p ∈ ps, p.2 < keys.length) →
        IndexOrNone idx keys.length →
        IndexOrNone (ps.foldl (fun idx e => if e.1.tag == k.tag then e.2 else idx) idx)
          keys.length := by
      intro ps
      induction ps with
      | nil => exact fun _ _ h => h
      | cons p ps ih =>
        intro idx hps h
        apply ih _ (fun q hq => hps q (List.mem_cons_of_mem _ hq))
        show IndexOrNone (if p.1.tag == k.tag then (p.2 : ℤ) else idx) keys.length
        split
        · have hp : p.2 < keys.length := hps p List.mem_cons_self
          exact Or.inr ⟨by omega, by omega⟩
        · exact h
    exact hfold _ _ (fun p hp => by simpa using List.snd_lt_of_mem_zipIdx hp) (Or.inl rfl)

theorem keysRotation_map {α β : Type} (f : α → β) (s : List α) (priIdx delIdx : ℤ) :
    keysRotation (s.map f) priIdx delIdx = (keysRotation s priIdx delIdx).map (List.map f) := by
  have hprune : ∀ t : List α,
      (if delIdx != -1 then removeAt (t.map f) (if delIdx == 0 then priIdx else delIdx)
        else some (t.map f)) =
      (if delIdx != -1 then removeAt t (if delIdx == 0 then priIdx else delIdx)
        else some t).map (List.map f) := by
    intro t
    split <;> simp [removeAt_map]
  unfold keysRotation
  split
  · rw [swap_map]
    cases swap s 0 priIdx <;> simp only [Option.map_none, Option.map_some, Option.bind_none,
      Option.bind_some, hprune]
  · simp only [Option.bind_some, hprune]

/-- The two rotations agree on every index the loops find: swapping the
first key with itself changes nothing. -/
theorem spisRotation_eq_keysRotation {α : Type} {s : List α} {priIdx : ℤ} (delIdx : ℤ)
    (hpri : IndexOrNone priIdx s.length) :
    spisRotation s priIdx delIdx = keysRotation s priIdx delIdx := by
  unfold spisRotation keysRotation
  rcases hpri with rfl | ⟨h0, hlt⟩
  · simp
  · by_cases hzero : priIdx = 0
    · subst hzero
      simp [swap_self (s := s) ⟨Int.le_refl 0, hlt⟩]
    · have hpos : priIdx > 0 := by omega
      have hne : priIdx ≠ -1 := by omega
      simp [hpos, hne]

/-- A rotation panics exactly when it prunes the first key and no primary
takes its place. -/
theorem keysRotation_eq_none_iff {α : Type} {s : List α} {priIdx delIdx : ℤ}
    (hpri : IndexOrNone priIdx s.length) (hdel : IndexOrNone delIdx s.length) :
    keysRotation s priIdx delIdx = none ↔ delIdx = 0 ∧ priIdx = -1 := by
  -- the swap keeps the length, so only the prune can go out of range
  obtain ⟨t, hswap, hlen⟩ : ∃ t, (if priIdx != -1 then swap s 0 priIdx else some s) = some t ∧
      t.length = s.length := by
    split
    · have hin : 0 ≤ priIdx ∧ priIdx < s.length := by
        rcases hpri with h | h
        · simp_all
        · exact h
      have hfirst : (0 : ℤ) ≤ 0 ∧ (0 : ℤ) < s.length := by omega
      obtain ⟨t, ht⟩ := Option.isSome_iff_exists.mp (isSome_swap hfirst hin)
      exact ⟨t, ht, swap_length ht⟩
    · exact ⟨s, rfl, rfl⟩
  unfold keysRotation
  rw [hswap, Option.bind_some]
  rcases hdel with rfl | ⟨hd0, hdlt⟩
  · simp
  · have hne : delIdx ≠ -1 := by omega
    simp only [bne_iff_ne, ne_eq, hne, not_false_eq_true, if_true, removeAt_eq_none_iff, hlen]
    by_cases hzero : delIdx = 0
    · simp only [hzero, beq_self_eq_true, if_true, true_and]
      rcases hpri with h | h <;> omega
    · simp only [hzero, false_and, iff_false, beq_iff_eq, if_false]
      omega

theorem xfrmReadsInRange_eq_true {spis : List Spi} {curKeys : List Key} {newIdx priIdx delIdx : ℤ}
    (hlen : spis.length = curKeys.length) (hnew : IndexOrNone newIdx curKeys.length)
    (hpri : IndexOrNone priIdx curKeys.length) (hdel : IndexOrNone delIdx curKeys.length) :
    xfrmReadsInRange spis curKeys newIdx priIdx delIdx = true := by
  have hread : ∀ {β : Type} (s : List β) (i : ℤ), 0 ≤ i ∧ i < s.length →
      (index? s i).isSome = true := fun s i h => isSome_index?_iff.mpr h
  simp only [xfrmReadsInRange, Bool.and_eq_true, Bool.or_eq_true, beq_iff_eq, decide_eq_true_eq]
  refine ⟨⟨?_, ?_⟩, ?_⟩
  · rcases hdel with h | h
    · exact Or.inl h
    · exact Or.inr (hread _ _ (by omega))
  · rcases hnew with h | h
    · exact Or.inl (by omega)
    · exact Or.inr ⟨hread _ _ (by omega), hread _ _ h⟩
  · rcases hpri with h | h
    · exact Or.inl (by omega)
    · by_cases hpos : priIdx ≤ 0
      · exact Or.inl hpos
      · exact Or.inr ⟨⟨hread _ _ (by omega), hread _ _ h⟩, hread _ _ (by omega)⟩

/-- On a node whose SPIs are those of the keys, `updateNodeKey` rotates the
SPIs of the extended keys as `updateKeys` rotates the keys. -/
theorem updateNodeKey_aligned {aIP rIP : IP} {keys : List Key} {newKey : Option Key}
    {priIdx delIdx : ℤ} (hpri : IndexOrNone priIdx (keys ++ newKey.toList).length)
    (hdel : IndexOrNone delIdx (keys ++ newKey.toList).length) :
    updateNodeKey aIP rIP (keys.map (spiOf aIP rIP)) (keys ++ newKey.toList)
        (if newKey.isSome then -1 + ((keys ++ newKey.toList).length : ℤ) else -1) priIdx delIdx =
      (keysRotation (keys ++ newKey.toList) priIdx delIdx).map (List.map (spiOf aIP rIP)) := by
  cases newKey with
  | none =>
    simp only [Option.toList_none, List.append_nil, Option.isSome_none, Bool.false_eq_true,
      if_false] at hpri hdel ⊢
    have hreads : xfrmReadsInRange (keys.map (spiOf aIP rIP)) keys (-1) priIdx delIdx :=
      xfrmReadsInRange_eq_true (List.length_map _) (Or.inl rfl) hpri hdel
    simp only [updateNodeKey, bne_self_eq_false, Bool.false_eq_true, if_false, Option.bind_some,
      hreads, if_true]
    rw [spisRotation_eq_keysRotation _ (by simpa using hpri), keysRotation_map]
  | some k =>
    simp only [Option.toList_some, Option.isSome_some, if_true] at hpri hdel ⊢
    have hnewIdx : -1 + ((keys ++ [k]).length : ℤ) = keys.length := by
      simp only [List.length_append, List.length_singleton]
      omega
    have hread : index? (keys ++ [k]) keys.length = some k := by simp [index?]
    have hspis : keys.map (spiOf aIP rIP) ++ [spiOf aIP rIP k] = (keys ++ [k]).map (spiOf aIP rIP) := by
      simp
    have hnew : IndexOrNone (keys.length : ℤ) (keys ++ [k]).length :=
      Or.inr ⟨by omega, by simp only [List.length_append, List.length_singleton]; omega⟩
    have hreads : xfrmReadsInRange ((keys ++ [k]).map (spiOf aIP rIP)) (keys ++ [k]) keys.length
        priIdx delIdx :=
      xfrmReadsInRange_eq_true (List.length_map _) hnew hpri hdel
    have hne : ((keys.length : ℤ) != -1) = true := by simp
    simp only [updateNodeKey, hnewIdx, hne, if_true, hread, Option.map_some, Option.bind_some,
      hspis, hreads]
    rw [spisRotation_eq_keysRotation _ (by simpa using hpri), keysRotation_map]

theorem mapM_eq_some_map {α β : Type} {f : α → Option β} {g : α → β} :
    ∀ {l : List α}, (∀ a ∈ l, f a = some (g a)) → l.mapM f = some (l.map g)
  | [], _ => rfl
  | a :: l, h => by
    rw [List.mapM_cons, h a List.mem_cons_self,
      mapM_eq_some_map fun b hb => h b (List.mem_cons_of_mem _ hb)]
    rfl

/-! ## Keys and SPIs stay aligned -/

/-- Every node's SPIs are those of the keys, in their order: at each place,
the pair of the node under the key there. -/
def Driver.Aligned (d : Driver) : Prop :=
  ∀ e ∈ d.secMap, e.2 = d.keys.map (spiOf (parseIP d.advertiseAddress) (parseIP e.1))

/-- `updateKeys` accepts the request: each key it names is found, and the
primary is not the key pruned. -/
def Driver.Accepts (d : Driver) (newKey primary pruneKey : Option Key) : Prop :=
  (primary.isSome → tagIndex (d.keys ++ newKey.toList) primary ≠ -1) ∧
    (pruneKey.isSome → tagIndex (d.keys ++ newKey.toList) pruneKey ≠ -1) ∧
    (tagIndex (d.keys ++ newKey.toList) primary ≠ -1 →
      tagIndex (d.keys ++ newKey.toList) primary ≠ tagIndex (d.keys ++ newKey.toList) pruneKey)

section Update

variable {d : Driver} {newKey primary pruneKey : Option Key}

/-- A request that `updateKeys` does not accept is rejected, with the new
key kept. -/
theorem Driver.updateKeys_of_not_accepts (h : ¬ d.Accepts newKey primary pruneKey) :
    ∃ e, d.updateKeys newKey primary pruneKey =
      some ({ d with keys := d.keys ++ newKey.toList }, some e) := by
  -- once the new key's index is settled, the first two branches are the rejections
  unfold Driver.updateKeys
  cases newKey <;>
  simp only [Option.isSome_none, Option.isSome_some, Bool.false_eq_true, if_true, if_false] <;>
  split
  all_goals first
    | exact ⟨_, rfl⟩
    | split
      · exact ⟨_, rfl⟩
      · -- both checks passed, so the request is accepted
        rename_i hfound hdistinct
        exfalso
        apply h
        simp only [Bool.or_eq_true, Bool.and_eq_true, beq_iff_eq, not_or, not_and] at hfound
        simp only [bne_iff_ne, ne_eq, Bool.and_eq_true, beq_iff_eq, not_and] at hdistinct
        exact ⟨hfound.1.2, hfound.2, hdistinct⟩

/-- An accepted request on aligned nodes: the keys are rotated, and each
node's SPIs become those of the rotated keys, unless the rotation panics. -/
theorem Driver.updateKeys_of_accepts (h : d.Aligned) (hacc : d.Accepts newKey primary pruneKey) :
    d.updateKeys newKey primary pruneKey =
      (keysRotation (d.keys ++ newKey.toList) (tagIndex (d.keys ++ newKey.toList) primary)
          (tagIndex (d.keys ++ newKey.toList) pruneKey)).map fun keys =>
        ({ d with keys, secMap := d.secMap.map fun e =>
          (e.1, keys.map (spiOf (parseIP d.advertiseAddress) (parseIP e.1))) }, none) := by
  obtain ⟨hpri, hdel, hdistinct⟩ := hacc
  have hprange := tagIndex_indexOrNone (d.keys ++ newKey.toList) primary
  have hdrange := tagIndex_indexOrNone (d.keys ++ newKey.toList) pruneKey
  have hnode : ∀ e ∈ d.secMap,
      (updateNodeKey (parseIP d.advertiseAddress) (parseIP e.1) e.2 (d.keys ++ newKey.toList)
          (if newKey.isSome then -1 + ((d.keys ++ newKey.toList).length : ℤ) else -1)
          (tagIndex (d.keys ++ newKey.toList) primary)
          (tagIndex (d.keys ++ newKey.toList) pruneKey)).map (e.1, ·) =
        (keysRotation (d.keys ++ newKey.toList) (tagIndex (d.keys ++ newKey.toList) primary)
          (tagIndex (d.keys ++ newKey.toList) pruneKey)).map fun keys =>
            (e.1, keys.map (spiOf (parseIP d.advertiseAddress) (parseIP e.1))) := by
    intro e he
    rw [h e he, updateNodeKey_aligned hprange hdrange, Option.map_map]
    rfl
  unfold Driver.updateKeys
  rw [if_neg, if_neg]
  · cases hrot : keysRotation (d.keys ++ newKey.toList) (tagIndex (d.keys ++ newKey.toList) primary)
        (tagIndex (d.keys ++ newKey.toList) pruneKey) with
    | none => simp
    | some keys =>
      rw [hrot] at hnode
      simp only [Option.map_some] at hnode
      rw [mapM_eq_some_map hnode]
      rfl
  · simp only [bne_iff_ne, ne_eq, Bool.and_eq_true, beq_iff_eq, not_and]
    exact hdistinct
  · simp only [Bool.or_eq_true, Bool.and_eq_true, beq_iff_eq, not_or, not_and]
    refine ⟨⟨fun hsome => ?_, hpri⟩, hdel⟩
    cases newKey with
    | none => simp at hsome
    | some k =>
      simp only [Option.isSome_some, if_true, Option.toList_some, List.length_append,
        List.length_singleton]
      omega

theorem Driver.Aligned.updateKeys {d' : Driver} (h : d.Aligned)
    (hcall : d.updateKeys newKey primary pruneKey = some (d', none)) : d'.Aligned := by
  by_cases hacc : d.Accepts newKey primary pruneKey
  · rw [d.updateKeys_of_accepts h hacc] at hcall
    obtain ⟨keys, -, hd'⟩ := Option.map_eq_some_iff.mp hcall
    cases hd'
    intro e he
    obtain ⟨e₀, -, rfl⟩ := List.mem_map.mp he
    rfl
  · obtain ⟨err, hrej⟩ := d.updateKeys_of_not_accepts hacc
    rw [hrej] at hcall
    cases hcall

/-- Under alignment an accepted update panics exactly when it prunes the
first key and names no primary. -/
theorem Driver.updateKeys_eq_none_iff (h : d.Aligned) (hacc : d.Accepts newKey primary pruneKey) :
    d.updateKeys newKey primary pruneKey = none ↔
      tagIndex (d.keys ++ newKey.toList) pruneKey = 0 ∧ primary = none := by
  rw [d.updateKeys_of_accepts h hacc, Option.map_eq_none_iff,
    keysRotation_eq_none_iff (tagIndex_indexOrNone _ _) (tagIndex_indexOrNone _ _)]
  have hpri : tagIndex (d.keys ++ newKey.toList) primary = -1 ↔ primary = none := by
    cases primary with
    | none => simp [tagIndex]
    | some p => simpa using hacc.1 rfl
  rw [hpri]

end Update

theorem Driver.aligned_setKeys (d : Driver) (keys : List Key) : (d.setKeys keys).Aligned := by
  intro e he
  cases he

/-- Programming a node whose address reads back from its text keeps the
nodes aligned. -/
theorem Driver.Aligned.setupEncryption {d : Driver} (h : d.Aligned) {remoteIP : IP}
    (hread : parseIP (IP.String remoteIP) = remoteIP) :
    ({ d with secMap :=
      setupEncryption (parseIP d.advertiseAddress) remoteIP d.secMap d.keys } : Driver).Aligned := by
  have hnew : d.keys.map (spiOf (parseIP d.advertiseAddress) remoteIP) =
      d.keys.map (spiOf (parseIP d.advertiseAddress) (parseIP (IP.String remoteIP))) := by
    rw [hread]
  intro e he
  simp only [Overlay.setupEncryption, setNode] at he
  split at he
  · obtain ⟨e₀, he₀, rfl⟩ := List.mem_map.mp he
    split
    · exact hnew
    · exact h e₀ he₀
  · rcases List.mem_append.mp he with he | he
    · exact h e he
    · rw [List.mem_singleton.mp he]
      exact hnew

/-- The driver after a call that returns; a call that panics is never one
of a run below. -/
def Driver.next (d : Driver) (c : KeyCall) : Driver :=
  ((d.call c).map Prod.fst).getD d

/-- A call that returns without an error and programs only a node whose
address reads back from its text. -/
def KeyCall.Completes (d : Driver) (c : KeyCall) : Prop :=
  (∃ d', d.call c = some (d', none)) ∧ ∀ r, c = .setupEncryption r → parseIP (IP.String r) = r

theorem Driver.Aligned.next {d : Driver} {c : KeyCall} (h : d.Aligned)
    (hc : KeyCall.Completes d c) : (d.next c).Aligned := by
  cases c with
  | setKeys keys => exact d.aligned_setKeys keys
  | setupEncryption remoteIP => exact h.setupEncryption (hc.2 remoteIP rfl)
  | updateKeys newKey primary pruneKey =>
    obtain ⟨d', hd'⟩ := hc.1
    have hnext : d.next (.updateKeys newKey primary pruneKey) = d' := by
      simp [Driver.next, Driver.call, show d.updateKeys newKey primary pruneKey = some (d', none)
        from hd']
    rw [hnext]
    exact h.updateKeys hd'

/-- Keys and SPIs stay aligned over every run of calls that complete, from
a driver with no node programmed; and on aligned nodes an update that is
accepted panics exactly when it prunes the first key and names no
primary. -/
theorem keys_and_spis_stay_aligned :
    (∀ {init d : Driver}, init.secMap = [] →
      Transition.GuardedReachable KeyCall.Completes Driver.next init d → d.Aligned) ∧
    ∀ {d : Driver} {newKey primary pruneKey : Option Key}, d.Aligned →
      d.Accepts newKey primary pruneKey →
      (d.updateKeys newKey primary pruneKey = none ↔
        tagIndex (d.keys ++ newKey.toList) pruneKey = 0 ∧ primary = none) := by
  refine ⟨fun hinit hreach => ?_, fun h hacc => Driver.updateKeys_eq_none_iff h hacc⟩
  refine Transition.GuardedReachable.invariant ?_ (fun s c _ hc hs => hs.next hc) hreach
  intro e he
  rw [hinit] at he
  cases he

/-- A driver with no node is given a key, programs a node and rotates to a
second key, pruning the first: the keys and SPIs it ends with are aligned.
A node programmed with one key: pruning that key without naming a primary
panics. -/
theorem keys_and_spis_stay_aligned_prune_first :
    (Transition.GuardedReachable KeyCall.Completes Driver.next ⟨"10.0.0.1", [], []⟩
        (Transition.run Driver.next ⟨"10.0.0.1", [], []⟩
          [.setKeys [⟨1⟩], .setupEncryption (parseIP "10.0.0.2"),
            .updateKeys (some ⟨2⟩) (some ⟨2⟩) (some ⟨1⟩)]) ∧
      (Transition.run Driver.next ⟨"10.0.0.1", [], []⟩
          [.setKeys [⟨1⟩], .setupEncryption (parseIP "10.0.0.2"),
            .updateKeys (some ⟨2⟩) (some ⟨2⟩) (some ⟨1⟩)]).Aligned) ∧
    (Driver.Aligned ⟨"10.0.0.1", [⟨1⟩],
        [("10.0.0.2", [spiOf (parseIP "10.0.0.1") (parseIP "10.0.0.2") ⟨1⟩])]⟩ ∧
      Driver.Accepts ⟨"10.0.0.1", [⟨1⟩],
        [("10.0.0.2", [spiOf (parseIP "10.0.0.1") (parseIP "10.0.0.2") ⟨1⟩])]⟩ none none (some ⟨1⟩) ∧
      Driver.updateKeys ⟨"10.0.0.1", [⟨1⟩],
        [("10.0.0.2", [spiOf (parseIP "10.0.0.1") (parseIP "10.0.0.2") ⟨1⟩])]⟩
        none none (some ⟨1⟩) = none) := by
  have hrun : Transition.GuardedReachable KeyCall.Completes Driver.next ⟨"10.0.0.1", [], []⟩
      (Transition.run Driver.next ⟨"10.0.0.1", [], []⟩
        [.setKeys [⟨1⟩], .setupEncryption (parseIP "10.0.0.2"),
          .updateKeys (some ⟨2⟩) (some ⟨2⟩) (some ⟨1⟩)]) :=
    Transition.GuardedReachable.init.run
      ⟨⟨⟨_, rfl⟩, fun _ h => by cases h⟩,
        ⟨⟨_, rfl⟩, fun _ h => by cases h; decide⟩,
        ⟨⟨_, rfl⟩, fun _ h => by cases h⟩, trivial⟩
  have haligned : Driver.Aligned ⟨"10.0.0.1", [⟨1⟩],
      [("10.0.0.2", [spiOf (parseIP "10.0.0.1") (parseIP "10.0.0.2") ⟨1⟩])]⟩ := by
    intro e he
    simp only [List.mem_singleton] at he
    subst he
    rfl
  have hacc : Driver.Accepts ⟨"10.0.0.1", [⟨1⟩],
      [("10.0.0.2", [spiOf (parseIP "10.0.0.1") (parseIP "10.0.0.2") ⟨1⟩])]⟩
      none none (some ⟨1⟩) := by
    unfold Driver.Accepts
    decide
  exact ⟨⟨hrun, keys_and_spis_stay_aligned.1 rfl hrun⟩, haligned, hacc,
    (keys_and_spis_stay_aligned.2 haligned hacc).mpr ⟨by decide, rfl⟩⟩

end Libnetwork.Overlay
