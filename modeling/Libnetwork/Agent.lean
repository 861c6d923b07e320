import Mathlib

/-!
# The keyring of the cluster agent

`controller.handleKeyChange` of `agent.go`, with `SetKeys`'s check of a new
keyring and `getPrimaryKeyTag`.  The keyring is the controller's list of
keys.  The first loop removes the keys the new list does not have, in place:
a removed key is swapped with the last live slot and the live part shrinks,
but the index moves on in either case, so the key swapped in is not looked
at.  The second loop appends the new keys the keyring does not have.  The
primary key of a subsystem is the second of its keys by Lamport time.

Sorting by time is `sort.Sort`.  On keys of distinct times every sort gives
the same order, and the model sorts with `List.insertionSort`; the order it
gives keys of equal time is not the source's.
-/

namespace Libnetwork.Agent

def subsysGossip : String := "networking:gossip"

def subsysIPSec : String := "networking:ipsec"

def keyringSize : ℕ := 3

/-- `types.EncryptionKey`, without the algorithm nothing here reads. -/
structure EncryptionKey where
  Subsystem : String
  Key : List UInt8
  LamportTime : UInt64
  deriving DecidableEq, Repr

/-- `discoverapi.DriverEncryptionUpdate`. -/
structure DriverEncryptionUpdate where
  Key : List UInt8 := []
  Tag : UInt64 := 0
  Primary : List UInt8 := []
  PrimaryTag : UInt64 := 0
  Prune : List UInt8 := []
  PruneTag : UInt64 := 0
  deriving DecidableEq, Repr

/-- `SetKeys`'s check: keys of the two subsystems only, `keyringSize` of each
subsystem present. -/
def SetKeys.check (keys : List EncryptionKey) : Except String Unit :=
  if keys.any fun k => k.Subsystem != subsysGossip && k.Subsystem != subsysIPSec then
    .error "key received for unrecognized subsystem"
  else
    match [subsysGossip, subsysIPSec].find? fun s =>
        let count := (keys.filter (·.Subsystem == s)).length
        count != 0 && count != keyringSize with
    | some s => .error ("incorrect number of keys for subsystem " ++ s)
    | none => .ok ()

/-- The inner loop of both passes: whether a list has a key of time `t`. -/
def hasLamportTime (keys : List EncryptionKey) (t : UInt64) : Bool :=
  keys.any (·.LamportTime == t)

/-- The state of the removal loop: the keyring with its live slots first,
the number `j` of live slots, the last gossip key removed and the update for
the drivers. -/
structure Removal where
  keys : List EncryptionKey
  j : ℕ
  deleted : List UInt8
  drvEnc : DriverEncryptionUpdate

/-- The removal loop of `handleKeyChange` from index `i`. -/
def removalLoop (newKeys : List EncryptionKey) : ℕ → ℕ → Removal → Removal
  | 0, _, st => st
  | fuel + 1, i, st =>
      if i < st.j then
        match st.keys[i]?, st.keys[st.j - 1]? with
        | some cKey, some last =>
            if hasLamportTime newKeys cKey.LamportTime then
              removalLoop newKeys fuel (i + 1) st
            else
              let deleted := if cKey.Subsystem == subsysGossip then cKey.Key else st.deleted
              let drvEnc := if cKey.Subsystem == subsysIPSec then
                  { st.drvEnc with Prune := cKey.Key, PruneTag := cKey.LamportTime }
                else st.drvEnc
              -- the key swapped into slot `i` is not looked at: `i` moves on
              removalLoop newKeys fuel (i + 1)
                ⟨(st.keys.set i last).set (st.j - 1) cKey, st.j - 1, deleted, drvEnc⟩
        | _, _ => st
      else st

/-- The state of the addition loop: the keyring, the last gossip key added
and the update for the drivers. -/
structure Addition where
  keys : List EncryptionKey
  added : List UInt8
  drvEnc : DriverEncryptionUpdate

/-- One turn of the addition loop: append a new key the keyring does not
have. -/
def addKey (st : Addition) (key : EncryptionKey) : Addition :=
  if hasLamportTime st.keys key.LamportTime then st
  else
    { keys := st.keys ++ [key]
      added := if key.Subsystem == subsysGossip then key.Key else st.added
      drvEnc := if key.Subsystem == subsysIPSec then
          { st.drvEnc with Key := key.Key, Tag := key.LamportTime }
        else st.drvEnc }

/-- The order of `ByTime`, with keys of equal time either way round. -/
def ByTime.le (a b : EncryptionKey) : Prop := a.LamportTime ≤ b.LamportTime

instance : DecidableRel ByTime.le := fun a b =>
  inferInstanceAs (Decidable (a.LamportTime ≤ b.LamportTime))

instance : Std.Total ByTime.le := ⟨fun a b => UInt64.le_total a.LamportTime b.LamportTime⟩

instance : IsTrans EncryptionKey ByTime.le := ⟨fun _ _ _ => UInt64.le_trans⟩

/-- `sort.Sort(ByTime(keys))`. -/
def sortByTime (keys : List EncryptionKey) : List EncryptionKey :=
  keys.insertionSort ByTime.le

/-- `getPrimaryKeyTag`: the second key of the subsystem by time, `none` for
the panic on a subsystem with fewer than two keys. -/
def getPrimaryKeyTag (keys : List EncryptionKey) (subsys : String) :
    Option (List UInt8 × UInt64) :=
  ((sortByTime keys).filter (·.Subsystem == subsys))[1]?.map fun k => (k.Key, k.LamportTime)

/-- The first pass of `handleKeyChange`, "find the deleted key", over the
whole keyring. -/
def removeDeleted (cKeys newKeys : List EncryptionKey) : Removal :=
  removalLoop newKeys cKeys.length 0 ⟨cKeys, cKeys.length, [], {}⟩

/-- The second pass, "find the new key and add it to the key ring", after the
keyring is cut to its live slots. -/
def addNew (cKeys newKeys : List EncryptionKey) : Addition :=
  let r := removeDeleted cKeys newKeys
  newKeys.foldl addKey ⟨r.keys.take r.j, [], r.drvEnc⟩

/-- What `handleKeyChange` leaves and hands on: the keyring, the keys given
to `SetKey`, `SetPrimaryKey` and `RemoveKey` of the gossip layer (empty when
not called), and the update for the drivers. -/
structure KeyChange where
  keys : List EncryptionKey
  added : List UInt8
  primary : List UInt8
  deleted : List UInt8
  drvEnc : DriverEncryptionUpdate
  deriving DecidableEq, Repr

/-- `handleKeyChange` with an agent, `none` for a panic of
`getPrimaryKeyTag`. -/
def handleKeyChange (cKeys newKeys : List EncryptionKey) : Option KeyChange :=
  let r := removeDeleted cKeys newKeys
  let a := addNew cKeys newKeys
  -- `getPrimaryKeyTag` sorts the keyring in place
  let keys := sortByTime a.keys
  match getPrimaryKeyTag keys subsysGossip, getPrimaryKeyTag keys subsysIPSec with
  | some (gossip, _), some (ipsec, tag) =>
      some ⟨keys, a.added, gossip, r.deleted,
        { a.drvEnc with Primary := ipsec, PrimaryTag := tag }⟩
  | _, _ => none

/-! ## The removal pass -/

section Removal

variable {cKeys newKeys : List EncryptionKey}

/-- What the removal loop keeps: the live slots lie in the keyring, which
holds current keys only, every current key the new list has sits in a live
slot, and the keys handed on to be removed are current keys the new list does
not have. -/
structure Removal.Inv (cKeys newKeys : List EncryptionKey) (st : Removal) : Prop where
  j_le : st.j ≤ st.keys.length
  mem : ∀ k ∈ st.keys, k ∈ cKeys
  live : ∀ k ∈ cKeys, hasLamportTime newKeys k.LamportTime = true →
    ∃ n < st.j, st.keys[n]? = some k
  deleted : st.deleted = [] ∨ ∃ k ∈ cKeys, hasLamportTime newKeys k.LamportTime = false ∧
    k.Subsystem = subsysGossip ∧ st.deleted = k.Key
  prune : (st.drvEnc.Prune = [] ∧ st.drvEnc.PruneTag = 0) ∨
    ∃ k ∈ cKeys, hasLamportTime newKeys k.LamportTime = false ∧ k.Subsystem = subsysIPSec ∧
      st.drvEnc.Prune = k.Key ∧ st.drvEnc.PruneTag = k.LamportTime
  key_tag : st.drvEnc.Key = [] ∧ st.drvEnc.Tag = 0

theorem Removal.Inv.start : Removal.Inv cKeys newKeys ⟨cKeys, cKeys.length, [], {}⟩ where
  j_le := Nat.le_refl _
  mem _ hk := hk
  live k hk _ := by
    obtain ⟨n, hn⟩ := List.mem_iff_getElem?.mp hk
    exact ⟨n, (List.getElem?_eq_some_iff.mp hn).1, hn⟩
  deleted := .inl rfl
  prune := .inl ⟨rfl, rfl⟩
  key_tag := ⟨rfl, rfl⟩

/-- A live key the new list has is not the stale key at slot `i`, so the swap
of slot `i` with the last live slot leaves it in a live slot. -/
theorem live_swap {keys : List EncryptionKey} {i j n : ℕ} {cKey last k : EncryptionKey}
    (hi : i < j) (hj : j ≤ keys.length) (hc : keys[i]? = some cKey)
    (hl : keys[j - 1]? = some last) (hn : n < j) (hk : keys[n]? = some k) (hne : k ≠ cKey) :
    ∃ n' < j - 1, ((keys.set i last).set (j - 1) cKey)[n']? = some k := by
  have hni : n ≠ i := by
    rintro rfl
    exact hne (Option.some_injective _ (hk.symm.trans hc))
  by_cases hlast : n = j - 1
  · -- the key moves from the last live slot to slot `i`
    subst hlast
    have hk' : k = last := Option.some_injective _ (hk.symm.trans hl)
    refine ⟨i, by omega, ?_⟩
    rw [List.getElem?_set_ne (by omega), List.getElem?_set_self (by omega), hk']
  · refine ⟨n, by omega, ?_⟩
    rw [List.getElem?_set_ne (by omega), List.getElem?_set_ne (by omega), hk]

theorem Removal.Inv.swap {st : Removal} (h : st.Inv cKeys newKeys) {i : ℕ}
    {cKey last : EncryptionKey} (hi : i < st.j) (hc : st.keys[i]? = some cKey)
    (hl : st.keys[st.j - 1]? = some last)
    (hstale : hasLamportTime newKeys cKey.LamportTime = false) :
    Removal.Inv cKeys newKeys ⟨(st.keys.set i last).set (st.j - 1) cKey, st.j - 1,
      if cKey.Subsystem == subsysGossip then cKey.Key else st.deleted,
      if cKey.Subsystem == subsysIPSec then
        { st.drvEnc with Prune := cKey.Key, PruneTag := cKey.LamportTime }
      else st.drvEnc⟩ := by
  have hcur : cKey ∈ cKeys := h.mem _ (List.mem_of_getElem? hc)
  refine ⟨?_, ?_, ?_, ?_, ?_, ?_⟩
  · simp only [List.length_set]
    exact Nat.le_trans (Nat.sub_le _ _) h.j_le
  · intro k hk
    rcases List.mem_or_eq_of_mem_set hk with hk | rfl
    · rcases List.mem_or_eq_of_mem_set hk with hk | rfl
      · exact h.mem _ hk
      · exact h.mem _ (List.mem_of_getElem? hl)
    · exact hcur
  · intro k hk ht
    obtain ⟨n, hn, hkn⟩ := h.live k hk ht
    have hne : k ≠ cKey := by
      rintro rfl
      rw [ht] at hstale
      contradiction
    exact live_swap hi h.j_le hc hl hn hkn hne
  · by_cases hg : cKey.Subsystem = subsysGossip
    · exact .inr ⟨cKey, hcur, hstale, hg, by simp [hg]⟩
    · simpa [hg] using h.deleted
  · by_cases hs : cKey.Subsystem = subsysIPSec
    · exact .inr ⟨cKey, hcur, hstale, hs, by simp [hs], by simp [hs]⟩
    · simpa [hs] using h.prune
  · -- the pruning leaves the key and tag to add as they were
    dsimp only
    split <;> exact h.key_tag

theorem Removal.Inv.run {st : Removal} (h : st.Inv cKeys newKeys) (fuel i : ℕ) :
    (removalLoop newKeys fuel i st).Inv cKeys newKeys := by
  induction fuel generalizing i st with
  | zero => exact h
  | succ fuel ih =>
    rw [removalLoop]
    split
    · next hi =>
      split
      · next cKey last hc hl =>
        split
        · exact ih h (i + 1)
        · next hstale =>
          exact ih (h.swap hi hc hl (Bool.eq_false_iff.mpr hstale)) (i + 1)
      · exact h
    · exact h

theorem removeDeleted_inv : (removeDeleted cKeys newKeys).Inv cKeys newKeys :=
  Removal.Inv.start.run _ _

/-- After the removal pass, the live part of the keyring holds every current
key the new list has, and current keys only. -/
theorem mem_take_removeDeleted {k : EncryptionKey} (hk : k ∈ cKeys)
    (ht : hasLamportTime newKeys k.LamportTime = true) :
    k ∈ (removeDeleted cKeys newKeys).keys.take (removeDeleted cKeys newKeys).j := by
  obtain ⟨n, hn, hkn⟩ := removeDeleted_inv.live k hk ht
  exact List.mem_iff_getElem?.mpr ⟨n, by rw [List.getElem?_take, if_pos hn, hkn]⟩

end Removal

/-! ## The addition pass -/

theorem hasLamportTime_iff {keys : List EncryptionKey} {t : UInt64} :
    hasLamportTime keys t = true ↔ ∃ k ∈ keys, k.LamportTime = t := by
  simp [hasLamportTime]

theorem hasLamportTime_mono {l l' : List EncryptionKey} {t : UInt64} (hp : l <+: l')
    (h : hasLamportTime l t = true) : hasLamportTime l' t = true := by
  obtain ⟨k, hk, rfl⟩ := hasLamportTime_iff.mp h
  exact hasLamportTime_iff.mpr ⟨k, hp.subset hk, rfl⟩

section Addition

variable {st : Addition} {key k : EncryptionKey} {ks : List EncryptionKey}

theorem addKey_keys_grow : st.keys <+: (addKey st key).keys := by
  unfold addKey
  split
  · exact List.prefix_refl _
  · exact List.prefix_append _ _

theorem hasLamportTime_addKey : hasLamportTime (addKey st key).keys key.LamportTime = true := by
  unfold addKey
  split
  · assumption
  · exact hasLamportTime_iff.mpr ⟨key, by simp, rfl⟩

theorem mem_addKey (hk : k ∈ (addKey st key).keys) : k ∈ st.keys ∨ k = key := by
  unfold addKey at hk
  split at hk
  · exact .inl hk
  · simpa using hk

theorem addKey_prune :
    (addKey st key).drvEnc.Prune = st.drvEnc.Prune ∧
      (addKey st key).drvEnc.PruneTag = st.drvEnc.PruneTag := by
  unfold addKey
  split
  · exact ⟨rfl, rfl⟩
  · dsimp only
    split <;> exact ⟨rfl, rfl⟩

/-- The key and tag for the drivers after one turn: the ones before, or those
of the key looked at, when it is an IPsec key the keyring did not have. -/
theorem addKey_key_tag :
    ((addKey st key).drvEnc.Key = st.drvEnc.Key ∧ (addKey st key).drvEnc.Tag = st.drvEnc.Tag) ∨
    (key.Subsystem = subsysIPSec ∧ hasLamportTime st.keys key.LamportTime = false ∧
      (addKey st key).drvEnc.Key = key.Key ∧ (addKey st key).drvEnc.Tag = key.LamportTime) := by
  unfold addKey
  split
  · exact .inl ⟨rfl, rfl⟩
  · next hnew =>
    dsimp only
    split
    · next hs => exact .inr ⟨by simpa using hs, Bool.eq_false_iff.mpr hnew, rfl, rfl⟩
    · exact .inl ⟨rfl, rfl⟩

/-! The whole addition loop, by induction on the new list. -/

theorem foldl_addKey_grow : st.keys <+: (ks.foldl addKey st).keys := by
  induction ks generalizing st with
  | nil => exact List.prefix_refl _
  | cons key ks ih => exact addKey_keys_grow.trans ih

theorem hasLamportTime_foldl_addKey (hk : key ∈ ks) :
    hasLamportTime (ks.foldl addKey st).keys key.LamportTime = true := by
  induction ks generalizing st with
  | nil => cases hk
  | cons key' ks ih =>
    rw [List.foldl_cons]
    rcases List.mem_cons.mp hk with rfl | hk
    · exact hasLamportTime_mono foldl_addKey_grow hasLamportTime_addKey
    · exact ih hk

theorem mem_foldl_addKey (hk : k ∈ (ks.foldl addKey st).keys) : k ∈ st.keys ∨ k ∈ ks := by
  induction ks generalizing st with
  | nil => exact .inl hk
  | cons key ks ih =>
    rcases ih hk with hk | hk
    · rcases mem_addKey hk with hk | rfl
      · exact .inl hk
      · exact .inr List.mem_cons_self
    · exact .inr (List.mem_cons_of_mem _ hk)

theorem foldl_addKey_prune :
    (ks.foldl addKey st).drvEnc.Prune = st.drvEnc.Prune ∧
      (ks.foldl addKey st).drvEnc.PruneTag = st.drvEnc.PruneTag := by
  induction ks generalizing st with
  | nil => exact ⟨rfl, rfl⟩
  | cons key ks ih =>
    obtain ⟨h₁, h₂⟩ := @addKey_prune st key
    exact ⟨ih.1.trans h₁, ih.2.trans h₂⟩

/-- The key and tag for the drivers after the loop: the ones before, or those
of a new IPsec key the keyring did not have. -/
theorem foldl_addKey_key_tag :
    ((ks.foldl addKey st).drvEnc.Key = st.drvEnc.Key ∧
      (ks.foldl addKey st).drvEnc.Tag = st.drvEnc.Tag) ∨
    ∃ key ∈ ks, key.Subsystem = subsysIPSec ∧ hasLamportTime st.keys key.LamportTime = false ∧
      (ks.foldl addKey st).drvEnc.Key = key.Key ∧
      (ks.foldl addKey st).drvEnc.Tag = key.LamportTime := by
  induction ks generalizing st with
  | nil => exact .inl ⟨rfl, rfl⟩
  | cons key ks ih =>
    rcases @ih (addKey st key) with ⟨hk, ht⟩ | ⟨key', hk', hs, hnew, hk, ht⟩
    · -- the later keys changed nothing: the turn of `key` decides
      rcases @addKey_key_tag st key with ⟨hk₁, ht₁⟩ | ⟨hs, hnew, hk₁, ht₁⟩
      · exact .inl ⟨hk.trans hk₁, ht.trans ht₁⟩
      · exact .inr ⟨key, List.mem_cons_self, hs, hnew, hk.trans hk₁, ht.trans ht₁⟩
    · -- a later key not in the grown keyring was not in the keyring before
      have hnew' : hasLamportTime st.keys key'.LamportTime = false := by
        rw [Bool.eq_false_iff]
        intro h
        rw [hasLamportTime_mono addKey_keys_grow h] at hnew
        contradiction
      exact .inr ⟨key', List.mem_cons_of_mem _ hk', hs, hnew', hk, ht⟩

end Addition

/-! ## What `handleKeyChange` leaves and hands on -/

section Spec

variable {cKeys newKeys : List EncryptionKey} {r : KeyChange}

theorem sortByTime_pairwise (keys : List EncryptionKey) : (sortByTime keys).Pairwise ByTime.le :=
  List.pairwise_insertionSort _ _

theorem handleKeyChange_eq_some (h : handleKeyChange cKeys newKeys = some r) :
    r.keys = sortByTime (addNew cKeys newKeys).keys ∧
    r.deleted = (removeDeleted cKeys newKeys).deleted ∧
    r.drvEnc.Key = (addNew cKeys newKeys).drvEnc.Key ∧
    r.drvEnc.Tag = (addNew cKeys newKeys).drvEnc.Tag ∧
    r.drvEnc.Prune = (addNew cKeys newKeys).drvEnc.Prune ∧
    r.drvEnc.PruneTag = (addNew cKeys newKeys).drvEnc.PruneTag ∧
    (∃ tag, getPrimaryKeyTag r.keys subsysGossip = some (r.primary, tag)) ∧
    getPrimaryKeyTag r.keys subsysIPSec = some (r.drvEnc.Primary, r.drvEnc.PrimaryTag) := by
  unfold handleKeyChange at h
  dsimp only at h
  split at h
  · next gossip _ ipsec tag hg hi =>
    cases h
    exact ⟨rfl, rfl, rfl, rfl, rfl, rfl, ⟨_, hg⟩, hi⟩
  · cases h

/-- The keyring after a key change has a key of the time of every new key,
holds current and new keys only, keeps every current key the new list has,
and is sorted by time.  Nothing here says it loses the current keys the new
list does not have. -/
theorem handleKeyChange_keyring (h : handleKeyChange cKeys newKeys = some r) :
    (∀ key ∈ newKeys, hasLamportTime r.keys key.LamportTime = true) ∧
    (∀ k ∈ r.keys, k ∈ cKeys ∨ k ∈ newKeys) ∧
    (∀ k ∈ cKeys, hasLamportTime newKeys k.LamportTime = true → k ∈ r.keys) ∧
    r.keys.Pairwise ByTime.le := by
  obtain ⟨hkeys, -⟩ := handleKeyChange_eq_some h
  have hsort : ∀ k, k ∈ r.keys ↔ k ∈ (addNew cKeys newKeys).keys := fun k => by
    rw [hkeys, sortByTime, List.mem_insertionSort]
  refine ⟨?_, ?_, ?_, hkeys ▸ sortByTime_pairwise _⟩
  · intro key hk
    obtain ⟨k, hk', ht⟩ := hasLamportTime_iff.mp (hasLamportTime_foldl_addKey hk)
    exact hasLamportTime_iff.mpr ⟨k, (hsort k).mpr hk', ht⟩
  · intro k hk
    rcases mem_foldl_addKey ((hsort k).mp hk) with hk | hk
    · exact .inl (removeDeleted_inv.mem _ (List.mem_of_mem_take hk))
    · exact .inr hk
  · intro k hk ht
    exact (hsort k).mpr (foldl_addKey_grow.subset (mem_take_removeDeleted hk ht))

/-- A rotation of keyrings of two keys: the older key of each subsystem goes,
a new one comes. -/
theorem handleKeyChange_keyring_two_key_rotation :
    handleKeyChange
        [⟨subsysGossip, [1], 1⟩, ⟨subsysGossip, [2], 2⟩,
         ⟨subsysIPSec, [3], 3⟩, ⟨subsysIPSec, [4], 4⟩]
        [⟨subsysGossip, [2], 2⟩, ⟨subsysGossip, [5], 5⟩,
         ⟨subsysIPSec, [4], 4⟩, ⟨subsysIPSec, [6], 6⟩] =
      some ⟨[⟨subsysGossip, [2], 2⟩, ⟨subsysIPSec, [4], 4⟩,
             ⟨subsysGossip, [5], 5⟩, ⟨subsysIPSec, [6], 6⟩],
        [5], [5], [1], ⟨[6], 6, [6], 6, [3], 3⟩⟩ ∧
    (∀ key ∈ ([⟨subsysGossip, [2], 2⟩, ⟨subsysGossip, [5], 5⟩,
                ⟨subsysIPSec, [4], 4⟩, ⟨subsysIPSec, [6], 6⟩] : List EncryptionKey),
      hasLamportTime
        [⟨subsysGossip, [2], 2⟩, ⟨subsysIPSec, [4], 4⟩,
         ⟨subsysGossip, [5], 5⟩, ⟨subsysIPSec, [6], 6⟩] key.LamportTime = true) ∧
    (∀ k ∈ ([⟨subsysGossip, [2], 2⟩, ⟨subsysIPSec, [4], 4⟩,
              ⟨subsysGossip, [5], 5⟩, ⟨subsysIPSec, [6], 6⟩] : List EncryptionKey),
      k ∈ ([⟨subsysGossip, [1], 1⟩, ⟨subsysGossip, [2], 2⟩,
             ⟨subsysIPSec, [3], 3⟩, ⟨subsysIPSec, [4], 4⟩] : List EncryptionKey) ∨
        k ∈ ([⟨subsysGossip, [2], 2⟩, ⟨subsysGossip, [5], 5⟩,
               ⟨subsysIPSec, [4], 4⟩, ⟨subsysIPSec, [6], 6⟩] : List EncryptionKey)) ∧
    (∀ k ∈ ([⟨subsysGossip, [1], 1⟩, ⟨subsysGossip, [2], 2⟩,
              ⟨subsysIPSec, [3], 3⟩, ⟨subsysIPSec, [4], 4⟩] : List EncryptionKey),
      hasLamportTime
        [⟨subsysGossip, [2], 2⟩, ⟨subsysGossip, [5], 5⟩,
         ⟨subsysIPSec, [4], 4⟩, ⟨subsysIPSec, [6], 6⟩] k.LamportTime = true →
        k ∈ ([⟨subsysGossip, [2], 2⟩, ⟨subsysIPSec, [4], 4⟩,
               ⟨subsysGossip, [5], 5⟩, ⟨subsysIPSec, [6], 6⟩] : List EncryptionKey)) ∧
    ([⟨subsysGossip, [2], 2⟩, ⟨subsysIPSec, [4], 4⟩,
      ⟨subsysGossip, [5], 5⟩, ⟨subsysIPSec, [6], 6⟩] : List EncryptionKey).Pairwise ByTime.le := by
  refine ⟨?h, handleKeyChange_keyring ?h⟩
  decide

/-- The gossip key removed from NetworkDB and the IPsec key pruned in the
drivers are current keys the new list does not have; the IPsec key added in
the drivers is a new key of a time no current key has. -/
theorem handleKeyChange_removed_added (h : handleKeyChange cKeys newKeys = some r) :
    (r.deleted = [] ∨ ∃ k ∈ cKeys, hasLamportTime newKeys k.LamportTime = false ∧
      k.Subsystem = subsysGossip ∧ r.deleted = k.Key) ∧
    ((r.drvEnc.Prune = [] ∧ r.drvEnc.PruneTag = 0) ∨
      ∃ k ∈ cKeys, hasLamportTime newKeys k.LamportTime = false ∧ k.Subsystem = subsysIPSec ∧
        r.drvEnc.Prune = k.Key ∧ r.drvEnc.PruneTag = k.LamportTime) ∧
    ((r.drvEnc.Key = [] ∧ r.drvEnc.Tag = 0) ∨
      ∃ key ∈ newKeys, key.Subsystem = subsysIPSec ∧
        (∀ k ∈ cKeys, k.LamportTime ≠ key.LamportTime) ∧
        r.drvEnc.Key = key.Key ∧ r.drvEnc.Tag = key.LamportTime) := by
  obtain ⟨-, hdel, hkey, htag, hprune, hpruneTag, -⟩ := handleKeyChange_eq_some h
  have hinv : (removeDeleted cKeys newKeys).Inv cKeys newKeys := removeDeleted_inv
  have hprune' : (addNew cKeys newKeys).drvEnc.Prune = (removeDeleted cKeys newKeys).drvEnc.Prune ∧
      (addNew cKeys newKeys).drvEnc.PruneTag = (removeDeleted cKeys newKeys).drvEnc.PruneTag :=
    foldl_addKey_prune
  refine ⟨hdel ▸ hinv.deleted, ?_, ?_⟩
  · rw [hprune, hpruneTag]
    exact hprune'.1.symm ▸ hprune'.2.symm ▸ hinv.prune
  · rw [hkey, htag]
    rcases @foldl_addKey_key_tag
      ⟨(removeDeleted cKeys newKeys).keys.take (removeDeleted cKeys newKeys).j, [],
        (removeDeleted cKeys newKeys).drvEnc⟩ newKeys with ⟨hk, ht⟩ | ⟨key, hk, hs, hnew, hk', ht'⟩
    · exact .inl ⟨hk.trans hinv.key_tag.1, ht.trans hinv.key_tag.2⟩
    · -- a current key of the same time would have been kept in a live slot
      refine .inr ⟨key, hk, hs, fun k hk₀ heq => ?_, hk', ht'⟩
      have hkept := mem_take_removeDeleted hk₀
        (hasLamportTime_iff.mpr ⟨key, hk, heq.symm⟩)
      have := hasLamportTime_iff.mpr ⟨k, hkept, heq⟩
      rw [this] at hnew
      contradiction

theorem handleKeyChange_removed_added_two_key_rotation :
    handleKeyChange
        [⟨subsysGossip, [1], 1⟩, ⟨subsysGossip, [2], 2⟩,
         ⟨subsysIPSec, [3], 3⟩, ⟨subsysIPSec, [4], 4⟩]
        [⟨subsysGossip, [2], 2⟩, ⟨subsysGossip, [5], 5⟩,
         ⟨subsysIPSec, [4], 4⟩, ⟨subsysIPSec, [6], 6⟩] =
      some ⟨[⟨subsysGossip, [2], 2⟩, ⟨subsysIPSec, [4], 4⟩,
             ⟨subsysGossip, [5], 5⟩, ⟨subsysIPSec, [6], 6⟩],
        [5], [5], [1], ⟨[6], 6, [6], 6, [3], 3⟩⟩ ∧
    (([1] : List UInt8) = [] ∨
      ∃ k ∈ ([⟨subsysGossip, [1], 1⟩, ⟨subsysGossip, [2], 2⟩,
               ⟨subsysIPSec, [3], 3⟩, ⟨subsysIPSec, [4], 4⟩] : List EncryptionKey),
        hasLamportTime
          [⟨subsysGossip, [2], 2⟩, ⟨subsysGossip, [5], 5⟩,
           ⟨subsysIPSec, [4], 4⟩, ⟨subsysIPSec, [6], 6⟩] k.LamportTime = false ∧
        k.Subsystem = subsysGossip ∧ [1] = k.Key) ∧
    ((([3] : List UInt8) = [] ∧ (3 : UInt64) = 0) ∨
      ∃ k ∈ ([⟨subsysGossip, [1], 1⟩, ⟨subsysGossip, [2], 2⟩,
               ⟨subsysIPSec, [3], 3⟩, ⟨subsysIPSec, [4], 4⟩] : List EncryptionKey),
        hasLamportTime
          [⟨subsysGossip, [2], 2⟩, ⟨subsysGossip, [5], 5⟩,
           ⟨subsysIPSec, [4], 4⟩, ⟨subsysIPSec, [6], 6⟩] k.LamportTime = false ∧
        k.Subsystem = subsysIPSec ∧ [3] = k.Key ∧ 3 = k.LamportTime) ∧
    ((([6] : List UInt8) = [] ∧ (6 : UInt64) = 0) ∨
      ∃ key ∈ ([⟨subsysGossip, [2], 2⟩, ⟨subsysGossip, [5], 5⟩,
                 ⟨subsysIPSec, [4], 4⟩, ⟨subsysIPSec, [6], 6⟩] : List EncryptionKey),
        key.Subsystem = subsysIPSec ∧
        (∀ k ∈ ([⟨subsysGossip, [1], 1⟩, ⟨subsysGossip, [2], 2⟩,
                  ⟨subsysIPSec, [3], 3⟩, ⟨subsysIPSec, [4], 4⟩] : List EncryptionKey),
          k.LamportTime ≠ key.LamportTime) ∧
        [6] = key.Key ∧ 6 = key.LamportTime) := by
  refine ⟨?h, handleKeyChange_removed_added ?h⟩
  decide

end Spec

/-! ## A rotation of every key -/

/-- The gossip keys at times 1, 2, 3 and the IPsec keys at 11, 12, 13
replaced by keys at 4, 5, 6 and 14, 15, 16.  Each removal swaps an IPsec key
into the slot just looked at, and the index moves past it: the three gossip
keys go, the three old IPsec keys stay, no IPsec key is pruned, and the IPsec
primary key is the one of time 12 instead of 15.  A keyring of gossip keys
alone, which `SetKeys` accepts as well, makes `getPrimaryKeyTag` panic on
the IPsec subsystem. -/
theorem handleKeyChange_keeps_swapped_keys :
    SetKeys.check [⟨subsysGossip, [4], 4⟩, ⟨subsysGossip, [5], 5⟩, ⟨subsysGossip, [6], 6⟩,
        ⟨subsysIPSec, [14], 14⟩, ⟨subsysIPSec, [15], 15⟩, ⟨subsysIPSec, [16], 16⟩] = .ok () ∧
    handleKeyChange
        [⟨subsysGossip, [1], 1⟩, ⟨subsysGossip, [2], 2⟩, ⟨subsysGossip, [3], 3⟩,
          ⟨subsysIPSec, [11], 11⟩, ⟨subsysIPSec, [12], 12⟩, ⟨subsysIPSec, [13], 13⟩]
        [⟨subsysGossip, [4], 4⟩, ⟨subsysGossip, [5], 5⟩, ⟨subsysGossip, [6], 6⟩,
          ⟨subsysIPSec, [14], 14⟩, ⟨subsysIPSec, [15], 15⟩, ⟨subsysIPSec, [16], 16⟩] =
      some ⟨[⟨subsysGossip, [4], 4⟩, ⟨subsysGossip, [5], 5⟩, ⟨subsysGossip, [6], 6⟩,
          ⟨subsysIPSec, [11], 11⟩, ⟨subsysIPSec, [12], 12⟩, ⟨subsysIPSec, [13], 13⟩,
          ⟨subsysIPSec, [14], 14⟩, ⟨subsysIPSec, [15], 15⟩, ⟨subsysIPSec, [16], 16⟩],
        [6], [5], [3], ⟨[16], 16, [12], 12, [], 0⟩⟩ ∧
    SetKeys.check [⟨subsysGossip, [4], 4⟩, ⟨subsysGossip, [5], 5⟩, ⟨subsysGossip, [6], 6⟩] =
      .ok () ∧
    handleKeyChange [⟨subsysGossip, [1], 1⟩, ⟨subsysGossip, [2], 2⟩, ⟨subsysGossip, [3], 3⟩]
        [⟨subsysGossip, [4], 4⟩, ⟨subsysGossip, [5], 5⟩, ⟨subsysGossip, [6], 6⟩] = none := by
  refine ⟨by decide, by decide, by decide, by decide⟩

end Libnetwork.Agent
