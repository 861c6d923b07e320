import Libnetwork.NetworkDb.Index
import Libnetwork.NetworkDb.Handlers

/-!
# The walks of the indexes

Six functions of `networkdb.go` and `cluster.go` walk the trees of `Indexes`
and take the names back from each path they visit:

* `GetTableByNetwork(tname, nid)` walks the tree by table under `/tname/nid`
  and keys its result by what follows the last separator of the path;
* `WalkTable(tname)` walks it under `/tname` and reads the network and the key
  from the split path;
* `bulkSyncNode(networks, node)` walks the tree by network under `/nid` for
  each requested network and stamps `nid` onto every event;
* `deleteNodeNetworkEntries(nid, node)` and `reapTableEntries` walk the tree
  by network under `/nid`, `deleteNodeTableEntries(node)` walks the whole tree
  by table, and each writes both trees from the function of its walk.

A walk under `/nid` reaches the entries of every network whose id starts with
`nid`.  A walk that writes also skips entries: when its function deletes the
entry of a key whose node has one edge, go-radix merges the node with its
child, and the walk goes on below the child without calling the function on
the child's own entry, an entry whose key extends the deleted one.

`Store` says what the writing walks are meant to do, entry by entry.  They do
it when the walk is exact (no stored network id properly extends the one
walked) and no key of the network walked is a proper prefix of another; in
general, each entry is either changed as meant or skipped, and a skipped
entry lies under one that the walk deleted.
-/

namespace Libnetwork.NetworkDb

open RadixTree

structure TableElem where
  Value : List UInt8
  owner : String
  deriving DecidableEq, Repr

/-- `int32(d.Seconds())`: the whole seconds of a duration in nanoseconds,
rounded toward zero, wrapped to 32 bits. -/
def residualSeconds (d : Int) : Int32 :=
  Int32.ofInt (d.tdiv 1000000000)

/-! ## What the writing walks are for -/

/-- The table entries as a database means them, by table, network and key. -/
abbrev Store := String → String → String → Option Entry

namespace Store

/-- What `deleteNodeNetworkEntries` does to one entry, as its comment puts it:
`node` is the node leaving the network, `isNodeLocal` whether it is this
node. -/
def leaveEntry (node : String) (isNodeLocal : Bool) (reapEntryInterval : Int) :
    Option Entry → Option Entry
  | none => none
  | some oldEntry =>
      if oldEntry.node != node && !isNodeLocal then some oldEntry
      else if oldEntry.deleting && !isNodeLocal then some oldEntry
      else if oldEntry.node == node then
        let ltime := if isNodeLocal then oldEntry.ltime + 1 else oldEntry.ltime
        if !oldEntry.deleting then
          some { oldEntry with ltime := ltime, deleting := true, reapTime := reapEntryInterval }
        else some oldEntry
      else none

/-- What `reapTableEntries` does to one entry: a deleted entry counts down
while its time is above the period and a second, then goes. -/
def reapEntry (timeCompensation : Int) (entry : Entry) : Option Entry :=
  if !entry.deleting then some entry
  else if entry.reapTime > reapPeriod + timeCompensation + 1000000000 then
    some { entry with reapTime := entry.reapTime - (reapPeriod + timeCompensation) }
  else none

/-- `deleteNodeNetworkEntries(nid, node)` as it is meant: the entries of
network `nid` go through `leaveEntry`, the others stay. -/
def deleteNodeNetworkEntries (m : Store) (config : Config) (nid node : String) : Store :=
  fun t n k =>
    if n = nid then leaveEntry node (node == config.NodeID) config.reapEntryInterval (m t n k)
    else m t n k

/-- `reapTableEntries` as it is meant: the entries of the networks of this
node are reaped once each. -/
def reapTableEntries (m : Store) (nodeNetworks : List String)
    (timeCompensation : String → String → String → Int) : Store :=
  fun t n k => if n ∈ nodeNetworks then (m t n k).bind (reapEntry (timeCompensation t n k)) else m t n k

/-- `deleteNodeTableEntries(node)` as it is meant: the entries of `node` go. -/
def deleteNodeTableEntries (m : Store) (node : String) : Store :=
  fun t n k => (m t n k).bind fun e => if e.node != node then some e else none

end Store

/-! ## The functions of the writing walks act by the entry -/

section Visits

variable (config : Config) (node : String) (timeCompensation : String → String → String → Int)

/-- What the function of `deleteNodeNetworkEntries` does to the leaf it is
called with. -/
def leaveEffect (path : List Char) (oldEntry : Entry) : Effect Entry :=
  (leaveVisit config node path oldEntry Tree.New).1

/-- What the function of `reapTableEntries` does to the leaf it is called
with. -/
def reapEffect (path : List Char) (entry : Entry) : Effect Entry :=
  (reapVisit timeCompensation path entry Tree.New).1

/-- What the function of `deleteNodeTableEntries` does to the leaf it is
called with. -/
def deleteNodeEffect (path : List Char) (oldEntry : Entry) : Effect Entry :=
  (deleteNodeVisit node path oldEntry Tree.New).1

theorem leaveVisit_byLeaf :
    leaveVisit config node = byLeaf (leaveEffect config node) fun p e st => (leaveVisit config node p e st).2 :=
  eq_byLeaf Tree.New fun p e st => by
    unfold leaveVisit
    dsimp only
    split_ifs <;> rfl

theorem reapVisit_byLeaf :
    reapVisit timeCompensation =
      byLeaf (reapEffect timeCompensation) fun p e st => (reapVisit timeCompensation p e st).2 :=
  eq_byLeaf Tree.New fun p e st => by
    unfold reapVisit
    dsimp only
    split_ifs <;> rfl

theorem deleteNodeVisit_byLeaf :
    deleteNodeVisit node = byLeaf (deleteNodeEffect node) fun p e st => (deleteNodeVisit node p e st).2 :=
  eq_byLeaf Tree.New fun p e st => by
    unfold deleteNodeVisit
    dsimp only
    split_ifs <;> rfl

/-- At any path, the effect of `deleteNodeNetworkEntries`'s function is what
`leaveEntry` does to the entry. -/
theorem value_leaveEffect (p : List Char) (e : Entry) :
    (leaveEffect config node p e).value e =
      Store.leaveEntry node (node == config.NodeID) config.reapEntryInterval (some e) := by
  obtain ⟨owner, ltime, value, deleting, reapTime⟩ := e
  simp only [leaveEffect, leaveVisit, Store.leaveEntry]
  -- the branches of the source, by locality, owner and deletion flag
  by_cases hlocal : node = config.NodeID
  · subst hlocal
    by_cases hown : owner = config.NodeID <;> cases deleting <;> simp [hown]
  · by_cases hown : owner = node <;> cases deleting <;> simp [hown, hlocal]

theorem bind_value_leaveEffect (p : List Char) (o : Option Entry) :
    (o.bind fun e => (leaveEffect config node p e).value e) =
      Store.leaveEntry node (node == config.NodeID) config.reapEntryInterval o := by
  cases o with
  | none => rfl
  | some e => exact value_leaveEffect config node p e

/-- At the path of an entry whose names hold no separator, the effect of
`reapTableEntries`'s function is `reapEntry` with the time of those names. -/
theorem value_reapEffect {n t k : String} (hn : NoSlash n) (ht : NoSlash t) (hk : NoSlash k)
    (e : Entry) :
    (reapEffect timeCompensation (entryPath n t k) e).value e =
      Store.reapEntry (timeCompensation t n k) e := by
  simp only [reapEffect, reapVisit, Store.reapEntry, splitPath_entryPath_of_noSlash hn ht hk,
    List.getD_cons_zero, List.getD_cons_succ, List.drop_succ_cons, List.drop_zero,
    String.intercalate_singleton]
  split_ifs <;> rfl

theorem value_deleteNodeEffect (p : List Char) (e : Entry) :
    (deleteNodeEffect node p e).value e = if e.node != node then some e else none := by
  unfold deleteNodeEffect deleteNodeVisit
  split_ifs <;> rfl

end Visits

/-! ## Writing walks keep the trees in step -/

/-- Two trees that hold the same entries under the two orders of a path, for
names without separator: the trees by network and by table, either way. -/
structure Mirrored (A B : Tree Char Entry) : Prop where
  pathA : ∀ p e, A.Get p = some e → ∃ x y k, NoSlash x ∧ NoSlash y ∧ p = entryPath x y k
  pathB : ∀ p e, B.Get p = some e → ∃ x y k, NoSlash x ∧ NoSlash y ∧ p = entryPath x y k
  agree : ∀ x y k, NoSlash x → NoSlash y → A.Get (entryPath x y k) = B.Get (entryPath y x k)

theorem Mirrored.symm {A B : Tree Char Entry} (h : Mirrored A B) : Mirrored B A :=
  ⟨h.pathB, h.pathA, fun x y k hx hy => (h.agree y x k hy hx).symm⟩

namespace Indexes

variable {idx : Indexes}

theorem Synced.mirrored (hs : idx.Synced) : Mirrored idx.byNetwork idx.byTable :=
  ⟨hs.byNetwork_path, hs.byTable_path, fun n t k hn ht => hs.agree t n k ht hn⟩

theorem synced_of_mirrored {A B : Tree Char Entry} (h : Mirrored A B) : (⟨B, A⟩ : Indexes).Synced :=
  ⟨h.pathB, h.pathA, fun t n k ht hn => h.agree n t k hn ht⟩

end Indexes

/-- The other path of an entry: its two names swapped. -/
def swapPath (p : List Char) : List Char :=
  match splitPath p with
  | x :: y :: rest => entryPath y x ("/".intercalate rest)
  | _ => p

theorem swapPath_entryPath {x y k : String} (hx : NoSlash x) (hy : NoSlash y) (hk : NoSlash k) :
    swapPath (entryPath x y k) = entryPath y x k := by
  rw [swapPath, splitPath_entryPath_of_noSlash hx hy hk]
  dsimp only
  rw [String.intercalate_singleton]

/-- The function of a walk of one tree writes the other tree at the other path
of each entry it is called with, as it writes the entry in the tree walked. -/
def WritesMirror (eff : List Char → Entry → Effect Entry)
    (g : List Char → Entry → Tree Char Entry → Tree Char Entry) : Prop :=
  ∀ x y k e st, NoSlash x → NoSlash y → NoSlash k →
    g (entryPath x y k) e st = st.write (entryPath y x k) (entryPath_ne_nil _ _ _) (eff (entryPath x y k) e)

/-- The paths an entry of names without separator can take. -/
def EntryPaths (ls : List (List Char × Entry)) : Prop :=
  ∀ kv ∈ ls, ∃ x y k, NoSlash x ∧ NoSlash y ∧ NoSlash k ∧ kv.1 = entryPath x y k

section MirroredWalk

variable {A B : Tree Char Entry} {eff : List Char → Entry → Effect Entry}
  {g : List Char → Entry → Tree Char Entry → Tree Char Entry}

theorem EntryPaths.nodup_swapPath {ls : List (List Char × Entry)} (h : EntryPaths ls)
    (hnodup : (ls.map Prod.fst).Nodup) : (ls.map fun kv => swapPath kv.1).Nodup := by
  have hmap : ls.map (fun kv => swapPath kv.1) = (ls.map Prod.fst).map swapPath := by
    simp [List.map_map]
  rw [hmap]
  refine hnodup.map_on fun a ha b hb hab => ?_
  obtain ⟨kva, hkva, rfl⟩ := List.mem_map.mp ha
  obtain ⟨kvb, hkvb, rfl⟩ := List.mem_map.mp hb
  obtain ⟨x, y, k, hx, hy, hk, hpa⟩ := h kva hkva
  obtain ⟨x', y', k', hx', hy', hk', hpb⟩ := h kvb hkvb
  rw [hpa, hpb, swapPath_entryPath hx hy hk, swapPath_entryPath hx' hy' hk',
    entryPath_inj hy hx hy' hx'] at hab
  obtain ⟨rfl, rfl, rfl⟩ := hab
  rw [hpa, hpb]

/-- The other tree after a walk reads, at a path, what the function wrote
there at the leaf whose other path it is, and what it read before
otherwise. -/
theorem Get_snd_WalkPrefixWith (P : List Char) (hg : WritesMirror eff g)
    (hpaths : EntryPaths (A.visits eff P)) (q : List Char) :
    (A.WalkPrefixWith P (byLeaf eff g) B).2.Get q =
      match (A.visits eff P).find? (fun kv => swapPath kv.1 = q) with
      | some kv => (eff kv.1 kv.2).result (B.Get q)
      | none => B.Get q := by
  have hstep : ∀ st, ∀ kv ∈ A.visits eff P, ∀ q', (g kv.1 kv.2 st).Get q' =
      if q' = swapPath kv.1 then (eff kv.1 kv.2).result (st.Get q') else st.Get q' := by
    intro st kv hkv q'
    obtain ⟨x, y, k, hx, hy, hk, hp⟩ := hpaths kv hkv
    rw [hp, hg x y k kv.2 st hx hy hk, swapPath_entryPath hx hy hk, Tree.Get_write]
  rw [Tree.snd_WalkPrefixWith, visitAll, GoMap.read_foldl_of_pointwise Tree.Get
    (fun st kv => g kv.1 kv.2 st) swapPath (fun kv r => (eff kv.1 kv.2).result r)
    (hpaths.nodup_swapPath (A.nodup_keys_visits P)) hstep B q]
  cases (A.visits eff P).find? (fun kv => swapPath kv.1 = q) <;> rfl

/-- **A walk whose function writes the other tree at each entry's other path
keeps the two trees in step**, when the leaves it is called with are entries
of names without separator. -/
theorem Mirrored.walk (h : Mirrored A B) (P : List Char) (hg : WritesMirror eff g)
    (hpaths : EntryPaths (A.visits eff P)) :
    Mirrored (A.WalkPrefixWith P (byLeaf eff g) B).1 (A.WalkPrefixWith P (byLeaf eff g) B).2 := by
  have hB := Get_snd_WalkPrefixWith (B := B) P hg hpaths
  refine ⟨fun p e he => ?_, fun q e he => ?_, fun x y k hx hy => ?_⟩
  · -- the walk adds no key to the tree walked
    rw [Tree.Get_WalkPrefixWith] at he
    split_ifs at he
    · obtain ⟨e₀, he₀, -⟩ := Option.bind_eq_some_iff.mp he
      exact h.pathA p e₀ he₀
    · exact h.pathA p e he
  · rw [hB q] at he
    cases hf : (A.visits eff P).find? (fun kv => swapPath kv.1 = q) with
    | none =>
        rw [hf] at he
        exact h.pathB q e he
    | some kv =>
        have hq : swapPath kv.1 = q := by simpa using List.find?_some hf
        obtain ⟨x, y, k, hx, hy, hk, hp⟩ := hpaths kv (List.mem_of_find?_eq_some hf)
        rw [hp, swapPath_entryPath hx hy hk] at hq
        exact ⟨y, x, k, hy, hx, hq.symm⟩
  · rw [Tree.Get_WalkPrefixWith, hB (entryPath y x k)]
    cases hf : (A.visits eff P).find? (fun kv => swapPath kv.1 = entryPath y x k) with
    | some kv =>
        dsimp only
        have hq : swapPath kv.1 = entryPath y x k := by simpa using List.find?_some hf
        have hkv := List.mem_of_find?_eq_some hf
        obtain ⟨x', y', k', hx', hy', hk', hp⟩ := hpaths kv hkv
        rw [hp, swapPath_entryPath hx' hy' hk', entryPath_inj hy' hx' hy hx] at hq
        obtain ⟨rfl, rfl, rfl⟩ := hq
        have hmem : entryPath x' y' k' ∈ (A.visits eff P).map Prod.fst := by
          rw [← hp]
          exact List.mem_map_of_mem hkv
        rw [if_pos hmem, ← h.agree x' y' k' hx hy, ← hp, Tree.Get_of_mem_visits _ hkv, Option.bind_some,
          Effect.result_some]
    | none =>
        dsimp only
        have hnot : entryPath x y k ∉ (A.visits eff P).map Prod.fst := by
          intro hmem
          obtain ⟨kv, hkv, hkey⟩ := List.mem_map.mp hmem
          obtain ⟨x', y', k', hx', hy', hk', hp⟩ := hpaths kv hkv
          rw [hp, entryPath_inj hx' hy' hx hy] at hkey
          obtain ⟨rfl, rfl, rfl⟩ := hkey
          exact List.find?_eq_none.mp hf kv hkv (by simp [hp, swapPath_entryPath hx' hy' hk'])
        rw [if_neg hnot, h.agree x y k hx hy]

/-- A leaf of an entry under the prefix of a walk that the walk did not call
its function with lies under the key of an entry of the same names that it
called its function with and deleted. -/
theorem EntryPaths.skipped {P : List Char} (hpaths : EntryPaths (A.visits eff P)) {x y k : String}
    (hx : NoSlash x) (hy : NoSlash y) {e : Entry} (he : A.Get (entryPath x y k) = some e)
    (hP : P <+: entryPath x y k) (hnot : entryPath x y k ∉ (A.visits eff P).map Prod.fst) :
    ∃ k' e', k'.toList <+: k.toList ∧ k' ≠ k ∧ (entryPath x y k', e') ∈ A.visits eff P ∧
      eff (entryPath x y k') e' = .delete := by
  obtain ⟨kv, hkv, hdel, hpre, hne⟩ := A.skipped P (A.Get_eq_some_iff.mp he) hP hnot
  obtain ⟨x', y', k', hx', hy', -, hp⟩ := hpaths kv hkv
  rw [hp] at hpre hne hdel
  obtain ⟨rfl, rfl, hkk⟩ := (entryPath_prefix_iff hx' hy' hx hy k' k).mp hpre
  refine ⟨k', kv.2, hkk, fun h => hne (by rw [h]), ?_, hdel⟩
  rw [← hp]
  exact hkv

end MirroredWalk

/-! ## The functions of the writing walks write the other tree in step -/

section Writes

variable (config : Config) (node : String) (timeCompensation : String → String → String → Int)

theorem writesMirror_leaveVisit :
    WritesMirror (leaveEffect config node) fun p e st => (leaveVisit config node p e st).2 := by
  intro x y k e st hx hy hk
  simp only [leaveEffect, leaveVisit, splitPath_entryPath_of_noSlash hx hy hk,
    List.getD_cons_zero, List.getD_cons_succ]
  split_ifs <;> rfl

theorem writesMirror_reapVisit :
    WritesMirror (reapEffect timeCompensation) fun p e st => (reapVisit timeCompensation p e st).2 := by
  intro x y k e st hx hy hk
  simp only [reapEffect, reapVisit, splitPath_entryPath_of_noSlash hx hy hk,
    List.getD_cons_zero, List.getD_cons_succ, List.drop_succ_cons, List.drop_zero,
    String.intercalate_singleton]
  split_ifs <;> rfl

theorem writesMirror_deleteNodeVisit :
    WritesMirror (deleteNodeEffect node) fun p e st => (deleteNodeVisit node p e st).2 := by
  intro x y k e st hx hy hk
  simp only [deleteNodeEffect, deleteNodeVisit, splitPath_entryPath_of_noSlash hx hy hk,
    List.getD_cons_zero, List.getD_cons_succ]
  split_ifs <;> rfl

end Writes

namespace Indexes

/-! ## The walks that read the trees -/

/-- `GetTableByNetwork`: the entries of the walk under `/tname/nid` that are not
being deleted, by the last segment of their path; a later entry of the walk
takes the place of an earlier one of the same key. -/
def GetTableByNetwork (idx : Indexes) (tname nid : String) : List (String × TableElem) :=
  (idx.byTable.WalkPrefix (slashPath [tname, nid])).foldl
    (fun entries kv =>
      if kv.2.deleting then entries
      else GoMap.set entries (lastSegment kv.1) ⟨kv.2.value, kv.2.node⟩)
    []

/-- The calls `WalkTable` makes of its function when the function never stops
it: network, key, value and deletion flag of each path of the walk under
`/tname`, in the order of the walk, which stands for one order of the map the
source collects the paths into. -/
def WalkTable (idx : Indexes) (tname : String) : List (String × String × List UInt8 × Bool) :=
  (idx.byTable.WalkPrefix (slashPath [tname])).map fun kv =>
    let params := splitPath kv.1
    (params.getD 1 "", params.getD 2 "", kv.2.value, kv.2.deleting)

/-- The event `bulkSyncNode` makes, for the walk of `nid`, of an entry whose
path splits into `params`. -/
def syncEvent (nid : String) (params : List String) (entry : Entry) : TableEvent :=
  { type := if entry.deleting then .delete else .create, LTime := entry.ltime,
    NodeName := entry.node, NetworkID := nid, TableName := params.getD 1 "",
    Key := params.getD 2 "", Value := entry.value,
    ResidualReapTime := residualSeconds entry.reapTime }

/-- The table events `bulkSyncNode` sends to `node` for `networks`: none to a
node it does not know, else one for each entry of the walk under `/nid` of
each network in turn. -/
def bulkSyncNode (idx : Indexes) (nodes : String → Option Node) (networks : List String)
    (node : String) : List TableEvent :=
  match nodes node with
  | none => []
  | some _ =>
      networks.flatMap fun nid =>
        (idx.byNetwork.WalkPrefix (slashPath [nid])).map fun kv =>
          syncEvent nid (splitPath kv.1) kv.2

/-! ## Exact walks of a network -/

/-- No key of a stored entry holds a separator. -/
def KeysNoSlash (idx : Indexes) : Prop :=
  ∀ t n k e, NoSlash t → NoSlash n → idx.entries t n k = some e → NoSlash k

/-- The walk under `/nid` is exact: `nid` holds no separator, no stored
network id properly extends it, and the keys of its entries hold none. -/
structure ExactNetwork (idx : Indexes) (nid : String) : Prop where
  noSlash : NoSlash nid
  noExtension : idx.NoExtension nid
  keys : ∀ t k e, NoSlash t → idx.entries t nid k = some e → NoSlash k

/-- No path the walk under `/nid` reaches is a prefix of another: on an exact
walk, no key of `nid` is a proper prefix of another key of the same table. -/
def PrefixFreeKeys (idx : Indexes) (nid : String) : Prop :=
  ((idx.byNetwork.WalkPrefix (slashPath [nid])).map Prod.fst).Pairwise
    fun a b => ¬a <+: b ∧ ¬b <+: a

instance (idx : Indexes) (nid : String) : Decidable (idx.PrefixFreeKeys nid) := by
  unfold PrefixFreeKeys
  infer_instance

variable {idx : Indexes}

theorem keysNoSlash_New : New.KeysNoSlash := fun _ _ _ _ _ _ h => by
  simp [New, entries] at h

theorem KeysNoSlash.createOrUpdateEntry (hk : idx.KeysNoSlash) {n t k : String} (hn : NoSlash n)
    (ht : NoSlash t) (hk' : NoSlash k) (e : Entry) : (idx.createOrUpdateEntry n t k e).KeysNoSlash := by
  intro t' n' k' e' ht' hn' he'
  rw [entries_createOrUpdateEntry idx hn ht k e ht' hn'] at he'
  split_ifs at he' with hw
  · obtain ⟨-, -, rfl⟩ := hw
    exact hk'
  · exact hk t' n' k' e' ht' hn' he'

theorem exactNetwork_New {nid : String} (hn : NoSlash nid) : New.ExactNetwork nid :=
  ⟨hn, (fun _ _ _ _ _ _ h => by simp [New, entries] at h), fun _ _ _ _ h => by simp [New, entries] at h⟩

/-- A write keeps the walk of `nid` exact when its network does not properly
extend `nid` and, in `nid`, its key holds no separator. -/
theorem ExactNetwork.createOrUpdateEntry {nid : String} (hx : idx.ExactNetwork nid) {n t : String}
    (hn : NoSlash n) (ht : NoSlash t) {k : String} (hext : nid.toList <+: n.toList → n = nid)
    (hk : n = nid → NoSlash k) (e : Entry) : (idx.createOrUpdateEntry n t k e).ExactNetwork nid := by
  refine ⟨hx.noSlash, fun t' n' k' e' ht' hn' he' hpre => ?_, fun t' k' e' ht' he' => ?_⟩
  · rw [entries_createOrUpdateEntry idx hn ht k e ht' hn'] at he'
    split_ifs at he' with hw
    · obtain ⟨-, rfl, -⟩ := hw
      exact hext hpre
    · exact hx.noExtension t' n' k' e' ht' hn' he' hpre
  · rw [entries_createOrUpdateEntry idx hn ht k e ht' hx.noSlash] at he'
    split_ifs at he' with hw
    · obtain ⟨-, rfl, rfl⟩ := hw
      exact hk rfl
    · exact hx.keys t' k' e' ht' he'

theorem ExactNetwork.mono {idx' : Indexes} {nid : String} (hx : idx.ExactNetwork nid)
    (hsub : ∀ t n k e', NoSlash t → NoSlash n → idx'.entries t n k = some e' →
      ∃ e, idx.entries t n k = some e) : idx'.ExactNetwork nid := by
  refine ⟨hx.noSlash, fun t n k e' ht hn he' hpre => ?_, fun t k e' ht he' => ?_⟩
  · obtain ⟨e, he⟩ := hsub t n k e' ht hn he'
    exact hx.noExtension t n k e ht hn he hpre
  · obtain ⟨e, he⟩ := hsub t nid k e' ht hx.noSlash he'
    exact hx.keys t k e ht he

theorem Synced.walk_of_exactNetwork (hs : idx.Synced) {nid : String} (hx : idx.ExactNetwork nid)
    {kv : List Char × Entry} (hkv : kv ∈ idx.byNetwork.WalkPrefix (slashPath [nid])) :
    ∃ t k, NoSlash t ∧ NoSlash k ∧ kv.1 = entryPath nid t k ∧ idx.entries t nid k = some kv.2 := by
  obtain ⟨p, e⟩ := kv
  obtain ⟨n, t, k, hn, ht, hpre, rfl, hget⟩ := (hs.mem_walk_network hx.noSlash).mp hkv
  obtain rfl := hx.noExtension t n k e ht hn hget hpre
  exact ⟨t, k, ht, hx.keys t k e ht hget, rfl, hget⟩

/-- An exact walk reaches the path of an entry exactly when the entry is of
`nid`. -/
theorem Synced.mem_keys_walk_of_exactNetwork (hs : idx.Synced) {nid : String}
    (hx : idx.ExactNetwork nid) {t n k : String} (ht : NoSlash t) (hn : NoSlash n) :
    entryPath n t k ∈ (idx.byNetwork.WalkPrefix (slashPath [nid])).map Prod.fst ↔
      n = nid ∧ ∃ e, idx.entries t n k = some e := by
  constructor
  · intro hmem
    obtain ⟨kv, hkv, hkey⟩ := List.mem_map.mp hmem
    obtain ⟨t', k', ht', -, hp, he⟩ := hs.walk_of_exactNetwork hx hkv
    rw [hp, entryPath_inj hx.noSlash ht' hn ht] at hkey
    obtain ⟨rfl, rfl, rfl⟩ := hkey
    exact ⟨rfl, kv.2, he⟩
  · rintro ⟨rfl, e, he⟩
    exact List.mem_map.mpr ⟨(entryPath n t k, e),
      (hs.mem_walk_network hx.noSlash).mpr ⟨n, t, k, hn, ht, List.prefix_refl _, rfl, he⟩, rfl⟩

/-- On an exact walk, what is done to the entries the walk reaches is done to
those of `nid`, when nothing is done to an absent entry. -/
theorem Synced.ite_mem_keys_walk_of_exactNetwork (hs : idx.Synced) {nid : String}
    (hx : idx.ExactNetwork nid) {t n k : String} (ht : NoSlash t) (hn : NoSlash n)
    (f : Option Entry → Option Entry) (hf : f none = none) :
    (if entryPath n t k ∈ (idx.byNetwork.WalkPrefix (slashPath [nid])).map Prod.fst
      then f (idx.entries t n k) else idx.entries t n k) =
      if n = nid then f (idx.entries t n k) else idx.entries t n k := by
  by_cases hnid : n = nid
  · subst hnid
    rw [if_pos rfl]
    cases he : idx.entries t n k with
    | none => rw [hf, ite_self]
    | some e => rw [if_pos ((hs.mem_keys_walk_of_exactNetwork hx ht hn).mpr ⟨rfl, e, he⟩)]
  · rw [if_neg fun hmem => hnid ((hs.mem_keys_walk_of_exactNetwork hx ht hn).mp hmem).1,
      if_neg hnid]

/-- A walk under `/nid` reaches no entry of a network whose id does not start
with `nid`. -/
theorem not_mem_keys_visits {nid : String} (hnid : NoSlash nid)
    (eff : List Char → Entry → Effect Entry) {t n k : String} (hpre : ¬nid.toList <+: n.toList) :
    entryPath n t k ∉ (idx.byNetwork.visits eff (slashPath [nid])).map Prod.fst := by
  intro hmem
  obtain ⟨kv, hkv, hkey⟩ := List.mem_map.mp hmem
  have hsub := (idx.byNetwork.visits_sublist_WalkPrefix _).subset hkv
  rw [← Prod.mk.eta (p := kv), hkey, Tree.mem_WalkPrefix] at hsub
  exact hpre ((slashPath_one_prefix_iff hnid n t k).mp hsub.1)

/-- On prefix-free keys, a walk under `/nid` whose function acts by the leaf
calls it on every entry the walk reaches. -/
theorem PrefixFreeKeys.visits_eq {nid : String} (hfree : idx.PrefixFreeKeys nid)
    (eff : List Char → Entry → Effect Entry) :
    idx.byNetwork.visits eff (slashPath [nid]) = idx.byNetwork.WalkPrefix (slashPath [nid]) := by
  have : Std.Symm fun a b : List Char => ¬a <+: b ∧ ¬b <+: a := ⟨fun _ _ h => ⟨h.2, h.1⟩⟩
  refine idx.byNetwork.visits_eq_WalkPrefix _ fun kv hkv kv' hkv' hpre => ?_
  by_contra hne
  exact (hfree.forall (List.mem_map.mpr ⟨kv', hkv', rfl⟩) (List.mem_map.mpr ⟨kv, hkv, rfl⟩)
    hne).1 hpre

/-- The walk of the tree by network calls its function with entries whose
names hold no separator, when no key holds one. -/
theorem Synced.entryPaths_byNetwork (hs : idx.Synced) (hk : idx.KeysNoSlash)
    (eff : List Char → Entry → Effect Entry) (P : List Char) :
    EntryPaths (idx.byNetwork.visits eff P) := by
  intro kv hkv
  have hget := Tree.Get_of_mem_visits _ hkv
  obtain ⟨n, t, k, hn, ht, hp⟩ := hs.byNetwork_path kv.1 kv.2 hget
  have he : idx.entries t n k = some kv.2 := by
    rw [← hs.agree t n k ht hn, ← hp, hget]
  exact ⟨n, t, k, hn, ht, hk t n k kv.2 ht hn he, hp⟩

theorem Synced.entryPaths_byTable (hs : idx.Synced) (hk : idx.KeysNoSlash)
    (eff : List Char → Entry → Effect Entry) (P : List Char) :
    EntryPaths (idx.byTable.visits eff P) := by
  intro kv hkv
  have hget := Tree.Get_of_mem_visits _ hkv
  obtain ⟨t, n, k, ht, hn, hp⟩ := hs.byTable_path kv.1 kv.2 hget
  have he : idx.entries t n k = some kv.2 := by
    rw [entries, ← hp, hget]
  exact ⟨t, n, k, ht, hn, hk t n k kv.2 ht hn he, hp⟩

theorem Synced.entryPaths_of_exactNetwork (hs : idx.Synced) {nid : String}
    (hx : idx.ExactNetwork nid) (eff : List Char → Entry → Effect Entry) :
    EntryPaths (idx.byNetwork.visits eff (slashPath [nid])) := by
  intro kv hkv
  obtain ⟨t, k, ht, hk, hp, -⟩ :=
    hs.walk_of_exactNetwork hx ((idx.byNetwork.visits_sublist_WalkPrefix _).subset hkv)
  exact ⟨nid, t, k, hx.noSlash, ht, hk, hp⟩

section WritingWalks

variable {eff : List Char → Entry → Effect Entry}
  {g : List Char → Entry → Tree Char Entry → Tree Char Entry}
  {fn : List Char → Entry → Tree Char Entry → Effect Entry × Tree Char Entry}

/-- A walk of the tree by network whose function writes the tree by table in
step keeps the trees in step, and changes by their effect the entries it calls
its function with, and no other. -/
theorem Synced.walk_byNetwork (hs : idx.Synced) (P : List Char) (hfn : fn = byLeaf eff g)
    (hg : WritesMirror eff g) (hpaths : EntryPaths (idx.byNetwork.visits eff P)) :
    (⟨(idx.byNetwork.WalkPrefixWith P fn idx.byTable).2,
      (idx.byNetwork.WalkPrefixWith P fn idx.byTable).1⟩ : Indexes).Synced ∧
    ∀ t n k, NoSlash t → NoSlash n →
      (⟨(idx.byNetwork.WalkPrefixWith P fn idx.byTable).2,
        (idx.byNetwork.WalkPrefixWith P fn idx.byTable).1⟩ : Indexes).entries t n k =
      if entryPath n t k ∈ (idx.byNetwork.visits eff P).map Prod.fst then
        (idx.entries t n k).bind fun e => (eff (entryPath n t k) e).value e
      else idx.entries t n k := by
  subst hfn
  have hm := hs.mirrored.walk P hg hpaths
  refine ⟨synced_of_mirrored hm, fun t n k ht hn => ?_⟩
  change Tree.Get _ (entryPath t n k) = _
  rw [← hm.agree n t k hn ht, Tree.Get_WalkPrefixWith, hs.agree t n k ht hn]

theorem Synced.walk_byTable (hs : idx.Synced) (hfn : fn = byLeaf eff g) (hg : WritesMirror eff g)
    (hpaths : EntryPaths (idx.byTable.visits eff [])) :
    (⟨(idx.byTable.Walk fn idx.byNetwork).1, (idx.byTable.Walk fn idx.byNetwork).2⟩ : Indexes).Synced ∧
    ∀ t n k,
      (⟨(idx.byTable.Walk fn idx.byNetwork).1, (idx.byTable.Walk fn idx.byNetwork).2⟩ : Indexes).entries t n k =
      if entryPath t n k ∈ (idx.byTable.visits eff []).map Prod.fst then
        (idx.entries t n k).bind fun e => (eff (entryPath t n k) e).value e
      else idx.entries t n k := by
  subst hfn
  have hm := hs.mirrored.symm.walk [] hg hpaths
  rw [Tree.Walk_eq]
  refine ⟨synced_of_mirrored hm.symm, fun t n k => ?_⟩
  simp only [entries]
  rw [Tree.Get_WalkPrefixWith]

end WritingWalks

/-- `deleteNodeNetworkEntries` keeps the trees in step and puts through
`leaveEntry` the entries its walk calls its function with. -/
theorem Synced.deleteNodeNetworkEntries (hs : idx.Synced) (config : Config) (nid node : String)
    (hpaths : EntryPaths (idx.byNetwork.visits (leaveEffect config node) (slashPath [nid]))) :
    (idx.deleteNodeNetworkEntries config nid node).Synced ∧
    ∀ t n k, NoSlash t → NoSlash n → (idx.deleteNodeNetworkEntries config nid node).entries t n k =
      if entryPath n t k ∈ (idx.byNetwork.visits (leaveEffect config node) (slashPath [nid])).map Prod.fst
      then Store.leaveEntry node (node == config.NodeID) config.reapEntryInterval (idx.entries t n k)
      else idx.entries t n k := by
  obtain ⟨hsync, hent⟩ := hs.walk_byNetwork (slashPath [nid]) (leaveVisit_byLeaf config node)
    (writesMirror_leaveVisit config node) hpaths
  refine ⟨hsync, fun t n k ht hn => (hent t n k ht hn).trans ?_⟩
  rw [bind_value_leaveEffect]

/-- The walk of one network in `reapTableEntries`, when it is exact and on
prefix-free keys, keeps the trees in step and reaps the entries of `nid`. -/
theorem Synced.reapNetwork (hs : idx.Synced) (timeCompensation : String → String → String → Int)
    {nid : String} (hx : idx.ExactNetwork nid) (hfree : idx.PrefixFreeKeys nid) :
    (idx.reapNetwork timeCompensation nid).Synced ∧
    ∀ t n k, NoSlash t → NoSlash n → (idx.reapNetwork timeCompensation nid).entries t n k =
      if n = nid then (idx.entries t n k).bind (Store.reapEntry (timeCompensation t n k))
      else idx.entries t n k := by
  obtain ⟨hsync, hent⟩ := hs.walk_byNetwork (slashPath [nid]) (reapVisit_byLeaf timeCompensation)
    (writesMirror_reapVisit timeCompensation) (hs.entryPaths_of_exactNetwork hx _)
  refine ⟨hsync, fun t n k ht hn => (hent t n k ht hn).trans ?_⟩
  rw [hfree.visits_eq, hs.ite_mem_keys_walk_of_exactNetwork hx ht hn
    (·.bind fun e => (reapEffect timeCompensation (entryPath n t k) e).value e) rfl]
  by_cases hnid : n = nid
  · subst hnid
    rw [if_pos rfl, if_pos rfl]
    cases he : idx.entries t n k with
    | none => rfl
    | some e =>
        rw [Option.bind_some, Option.bind_some,
          value_reapEffect timeCompensation hn ht (hx.keys t k e ht he)]
  · rw [if_neg hnid, if_neg hnid]

/-- After the walk of one network, the keys every other walk reaches are
among those it reached before. -/
theorem PrefixFreeKeys.reapNetwork {nid : String} (hfree : idx.PrefixFreeKeys nid)
    (timeCompensation : String → String → String → Int) (nid' : String) :
    (idx.reapNetwork timeCompensation nid').PrefixFreeKeys nid := by
  unfold PrefixFreeKeys Indexes.reapNetwork
  rw [reapVisit_byLeaf]
  exact hfree.sublist (idx.byNetwork.keys_WalkPrefix_WalkPrefixWith _ _ _ _)

/-- `deleteNodeTableEntries` keeps the trees in step and drops, of the entries
its walk calls its function with, those of `node`. -/
theorem Synced.deleteNodeTableEntries (hs : idx.Synced) (hk : idx.KeysNoSlash) (node : String) :
    (idx.deleteNodeTableEntries node).Synced ∧
    ∀ t n k, (idx.deleteNodeTableEntries node).entries t n k =
      if entryPath t n k ∈ (idx.byTable.visits (deleteNodeEffect node) []).map Prod.fst
      then Store.deleteNodeTableEntries idx.entries node t n k
      else idx.entries t n k := by
  obtain ⟨hsync, hent⟩ := hs.walk_byTable (deleteNodeVisit_byLeaf node)
    (writesMirror_deleteNodeVisit node) (hs.entryPaths_byTable hk _ _)
  refine ⟨hsync, fun t n k => (hent t n k).trans ?_⟩
  simp only [Store.deleteNodeTableEntries, value_deleteNodeEffect]

/-! ## `GetTableByNetwork` -/

/-- An exact walk of a table visits the entries of `tname` and `nid` only,
each under its path. -/
theorem Synced.walk_table_of_exactNetwork (hs : idx.Synced) {tname nid : String}
    (ht : NoSlash tname) (hx : idx.ExactNetwork nid) {kv : List Char × Entry}
    (hkv : kv ∈ idx.byTable.WalkPrefix (slashPath [tname, nid])) :
    ∃ k, NoSlash k ∧ kv.1 = entryPath tname nid k ∧ idx.entries tname nid k = some kv.2 := by
  obtain ⟨p, e⟩ := kv
  obtain ⟨n, k, hn, hpre, rfl, hget⟩ := (hs.mem_walk_table_network ht hx.noSlash).mp hkv
  obtain rfl := hx.noExtension tname n k e ht hn hget hpre
  exact ⟨k, hx.keys tname k e ht hget, rfl, hget⟩

/-- An exact walk of a table finds a path ending in `k` exactly when `tname`
and `nid` have an entry under `k`, and that path is the entry's. -/
theorem Synced.find?_walk_table (hs : idx.Synced) {tname nid : String} (ht : NoSlash tname)
    (hx : idx.ExactNetwork nid) (k : String) :
    (idx.byTable.WalkPrefix (slashPath [tname, nid])).find? (fun kv => lastSegment kv.1 = k) =
      (idx.entries tname nid k).map (entryPath tname nid k, ·) := by
  cases hfind : (idx.byTable.WalkPrefix (slashPath [tname, nid])).find?
      (fun kv => lastSegment kv.1 = k) with
  | some kv =>
      have hkey : lastSegment kv.1 = k := by simpa using List.find?_some hfind
      obtain ⟨k', hk', hp, hget⟩ :=
        hs.walk_table_of_exactNetwork ht hx (List.mem_of_find?_eq_some hfind)
      rw [hp, lastSegment_entryPath _ _ hk'] at hkey
      subst hkey
      rw [hget, Option.map_some, ← hp]
  | none =>
      cases he : idx.entries tname nid k with
      | none => rfl
      | some e =>
          have hmem := (hs.mem_walk_table_network ht hx.noSlash).mpr
            ⟨nid, k, hx.noSlash, List.prefix_refl _, rfl, he⟩
          have hk := hx.keys tname k e ht he
          exact (List.find?_eq_none.mp hfind _ hmem (by simp [lastSegment_entryPath _ _ hk])).elim

/-- On an exact walk, `GetTableByNetwork` reads under each key the entry of
`tname` and `nid`, when it is not being deleted, and nothing else. -/
theorem Synced.get?_GetTableByNetwork (hs : idx.Synced) {tname nid : String} (ht : NoSlash tname)
    (hx : idx.ExactNetwork nid) (k : String) :
    GoMap.get? (idx.GetTableByNetwork tname nid) k =
      (idx.entries tname nid k).bind fun e =>
        if e.deleting then none else some ⟨e.value, e.node⟩ := by
  have hnodup : ((idx.byTable.WalkPrefix (slashPath [tname, nid])).map
      fun kv => lastSegment kv.1).Nodup := by
    have hcomp : (fun kv : List Char × Entry => lastSegment kv.1) = lastSegment ∘ Prod.fst := rfl
    rw [hcomp, ← List.map_map]
    refine List.Nodup.map_on (fun x hx' y hy' hxy => ?_) (idx.byTable.nodup_keys_WalkPrefix _)
    obtain ⟨kx, hkx, rfl⟩ := List.mem_map.mp hx'
    obtain ⟨ky, hky, rfl⟩ := List.mem_map.mp hy'
    obtain ⟨k₁, hk₁, hp₁, -⟩ := hs.walk_table_of_exactNetwork ht hx hkx
    obtain ⟨k₂, hk₂, hp₂, -⟩ := hs.walk_table_of_exactNetwork ht hx hky
    rw [hp₁, hp₂, lastSegment_entryPath _ _ hk₁, lastSegment_entryPath _ _ hk₂] at hxy
    rw [hp₁, hp₂, hxy]
  have hstep : ∀ (entries : List (String × TableElem)) kv,
      kv ∈ idx.byTable.WalkPrefix (slashPath [tname, nid]) → ∀ k',
      GoMap.get? (if kv.2.deleting then entries
        else GoMap.set entries (lastSegment kv.1) ⟨kv.2.value, kv.2.node⟩) k' =
      if k' = lastSegment kv.1 then
        (if kv.2.deleting then GoMap.get? entries k' else some ⟨kv.2.value, kv.2.node⟩)
      else GoMap.get? entries k' := by
    intro entries kv _ k'
    by_cases hd : kv.2.deleting <;> simp [hd, GoMap.get?_set]
  have hfold := GoMap.read_foldl_of_pointwise GoMap.get?
    (fun (entries : List (String × TableElem)) (kv : List Char × Entry) =>
      if kv.2.deleting then entries
      else GoMap.set entries (lastSegment kv.1) ⟨kv.2.value, kv.2.node⟩) lastSegment
    (fun kv cur => if kv.2.deleting then cur else some ⟨kv.2.value, kv.2.node⟩) hnodup hstep [] k
  rw [GetTableByNetwork, hfold, hs.find?_walk_table ht hx k]
  cases idx.entries tname nid k <;> rfl

theorem get?_GetTableByNetwork_one_entry :
    GoMap.get? ((New.createOrUpdateEntry "net1" "t" "k1" ⟨"node2", 1, [1], false, 0⟩).GetTableByNetwork
        "t" "net1") "k1" =
      ((New.createOrUpdateEntry "net1" "t" "k1" ⟨"node2", 1, [1], false, 0⟩).entries
        "t" "net1" "k1").bind fun e => if e.deleting then none else some ⟨e.value, e.node⟩ :=
  (synced_New.createOrUpdateEntry (by decide) (by decide) "k1" _).get?_GetTableByNetwork
    (by decide) ((exactNetwork_New (by decide)).createOrUpdateEntry (by decide) (by decide)
      (fun _ => rfl) (fun _ => by decide) _) "k1"


/-! ## `bulkSyncNode` -/

/-- `bulkSyncNode` sends one event for each entry of every network whose id
starts with a requested one, stamped with the requested id. -/
theorem Synced.mem_bulkSyncNode (hs : idx.Synced) (nodes : String → Option Node)
    {networks : List String} (hnets : ∀ nid ∈ networks, NoSlash nid) (node : String)
    (ev : TableEvent) :
    ev ∈ idx.bulkSyncNode nodes networks node ↔ (nodes node).isSome ∧
      ∃ nid ∈ networks, ∃ n t k e, NoSlash n ∧ NoSlash t ∧ nid.toList <+: n.toList ∧
        idx.entries t n k = some e ∧ ev = syncEvent nid (splitPath (entryPath n t k)) e := by
  unfold bulkSyncNode
  cases nodes node with
  | none => simp
  | some _ =>
      simp only [List.mem_flatMap, List.mem_map, Option.isSome_some, true_and]
      constructor
      · rintro ⟨nid, hnid, ⟨p, e⟩, hkv, rfl⟩
        obtain ⟨n, t, k, hn, ht, hpre, rfl, he⟩ := (hs.mem_walk_network (hnets nid hnid)).mp hkv
        exact ⟨nid, hnid, n, t, k, e, hn, ht, hpre, he, rfl⟩
      · rintro ⟨nid, hnid, n, t, k, e, hn, ht, hpre, he, rfl⟩
        exact ⟨nid, hnid, (entryPath n t k, e),
          (hs.mem_walk_network (hnets nid hnid)).mpr ⟨n, t, k, hn, ht, hpre, rfl, he⟩, rfl⟩

/-! ## `WalkTable` -/

/-- `WalkTable` calls its function once for each entry of every table whose
name starts with `tname`, with the entry's network and the first piece of its
key. -/
theorem Synced.mem_WalkTable (hs : idx.Synced) {tname : String} (ht : NoSlash tname)
    (x : String × String × List UInt8 × Bool) :
    x ∈ idx.WalkTable tname ↔
      ∃ t n k e, NoSlash t ∧ NoSlash n ∧ tname.toList <+: t.toList ∧ idx.entries t n k = some e ∧
        x = (n, (splitPath (entryPath t n k)).getD 2 "", e.value, e.deleting) := by
  simp only [WalkTable, List.mem_map]
  constructor
  · rintro ⟨⟨p, e⟩, hkv, rfl⟩
    obtain ⟨t, n, k, ht', hn, hpre, rfl, he⟩ := (hs.mem_walk_table ht).mp hkv
    refine ⟨t, n, k, e, ht', hn, hpre, he, ?_⟩
    simp [splitPath_entryPath ht' hn]
  · rintro ⟨t, n, k, e, ht', hn, hpre, he, rfl⟩
    refine ⟨(entryPath t n k, e), (hs.mem_walk_table ht).mpr ⟨t, n, k, ht', hn, hpre, rfl, he⟩, ?_⟩
    simp [splitPath_entryPath ht' hn]

/-! ## Ids that extend one another -/

/-- Entries of table `t` in the networks `net1` and `net10`, one of them being
deleted, and one of table `t2` in `net1`. -/
def prefixIndexes : Indexes :=
  (((New.createOrUpdateEntry "net1" "t" "k1" ⟨"node2", 1, [1], false, 0⟩).createOrUpdateEntry
    "net10" "t" "k2" ⟨"node2", 2, [2], false, 0⟩).createOrUpdateEntry
    "net10" "t" "k4" ⟨"node3", 3, [4], true, 20000000000⟩).createOrUpdateEntry
    "net1" "t2" "k3" ⟨"node2", 4, [3], false, 0⟩

/-- With `net1` a prefix of `net10` and `t` of `t2`, every walk reaches the
longer ids: `GetTableByNetwork("t", "net1")` returns the key of an entry of
`net10`; `node2` leaving `net1` marks its entry of `net10` for deletion; the
bulk sync of `net1` sends the entry of `net10` as one of `net1`; the reap of
`net1` alone counts down a deleted entry of `net10`; and `WalkTable("t")`
calls its function with the entry of table `t2`. -/
theorem prefix_walks_reach_longer_ids :
    prefixIndexes.Synced ∧
    (prefixIndexes.entries "t" "net1" "k2" = none ∧
      GoMap.get? (prefixIndexes.GetTableByNetwork "t" "net1") "k2" = some ⟨[2], "node2"⟩) ∧
    (prefixIndexes.entries "t" "net10" "k2" = some ⟨"node2", 2, [2], false, 0⟩ ∧
      (prefixIndexes.deleteNodeNetworkEntries ⟨"node1", 1800000000000, 1825000000000⟩ "net1"
        "node2").entries "t" "net10" "k2" = some ⟨"node2", 2, [2], true, 1800000000000⟩) ∧
    (∃ ev ∈ prefixIndexes.bulkSyncNode (fun _ => some ⟨⟨"node3", "10.0.0.3", 7946⟩, 1, 0⟩)
        ["net1"] "node3", ev.NetworkID = "net1" ∧ ev.Key = "k2") ∧
    (prefixIndexes.entries "t" "net10" "k4" = some ⟨"node3", 3, [4], true, 20000000000⟩ ∧
      (prefixIndexes.reapTableEntries ["net1"] fun _ _ _ => 0).entries "t" "net10" "k4" =
        some ⟨"node3", 3, [4], true, 15000000000⟩) ∧
    (prefixIndexes.entries "t" "net1" "k3" = none ∧
      ("net1", "k3", [3], false) ∈ prefixIndexes.WalkTable "t") := by
  refine ⟨?_, by decide +kernel, by decide +kernel, by decide +kernel, by decide +kernel,
    by decide +kernel⟩
  exact (((synced_New.createOrUpdateEntry (by decide) (by decide) _ _).createOrUpdateEntry
    (by decide) (by decide) _ _).createOrUpdateEntry (by decide) (by decide) _ _).createOrUpdateEntry
    (by decide) (by decide) _ _

end Indexes

/-! ## The writing walks, as the code does them -/

namespace NetworkDB

/-- Two entries of table `t` in `net1`: `node2` owns that of `k1`, and `node3`
that of `k2`, which is being deleted. -/
def twoEntries : NetworkDB :=
  ((NetworkDB.New "node1" 1800000000000).createOrUpdateEntry "net1" "t" "k1"
    ⟨"node2", 1, [1], false, 0⟩).createOrUpdateEntry "net1" "t" "k2" ⟨"node3", 2, [2], true, 20000000000⟩

/-- Two entries of `node2` in table `t` of `net1`, under `k` and under `k2`,
which extends it. -/
def nestedKeys : NetworkDB :=
  ((NetworkDB.New "node1" 1800000000000).createOrUpdateEntry "net1" "t" "k"
    ⟨"node2", 1, [1], false, 0⟩).createOrUpdateEntry "net1" "t" "k2" ⟨"node2", 2, [2], false, 0⟩

theorem twoEntries_synced : twoEntries.indexes.Synced :=
  (Indexes.synced_New.createOrUpdateEntry (by decide) (by decide) _ _).createOrUpdateEntry
    (by decide) (by decide) _ _

theorem twoEntries_exactNetwork : twoEntries.indexes.ExactNetwork "net1" :=
  ((Indexes.exactNetwork_New (by decide)).createOrUpdateEntry (by decide) (by decide) (fun _ => rfl)
    (fun _ => by decide) _).createOrUpdateEntry (by decide) (by decide) (fun _ => rfl)
    (fun _ => by decide) _

theorem nestedKeys_synced : nestedKeys.indexes.Synced :=
  (Indexes.synced_New.createOrUpdateEntry (by decide) (by decide) _ _).createOrUpdateEntry
    (by decide) (by decide) _ _

theorem nestedKeys_keysNoSlash : nestedKeys.indexes.KeysNoSlash :=
  (Indexes.keysNoSlash_New.createOrUpdateEntry (by decide) (by decide) (by decide) _).createOrUpdateEntry
    (by decide) (by decide) (by decide) _

variable {s : NetworkDB}

/-- **`deleteNodeNetworkEntries` refines what it is meant to do** when its
walk is exact and no key of `nid` is a proper prefix of another of the same
table: the trees stay in step, the entries of `nid` go through `leaveEntry`
and the others stay. -/
theorem deleteNodeNetworkEntries_refines (hs : s.indexes.Synced) {nid : String}
    (hx : s.indexes.ExactNetwork nid) (hfree : s.indexes.PrefixFreeKeys nid) (node : String) :
    (s.deleteNodeNetworkEntries nid node).indexes.Synced ∧
    ∀ t n k, NoSlash t → NoSlash n →
      (s.deleteNodeNetworkEntries nid node).getEntry t n k =
        Store.deleteNodeNetworkEntries s.getEntry s.config nid node t n k := by
  obtain ⟨hsync, hent⟩ := hs.deleteNodeNetworkEntries s.config nid node
    (hs.entryPaths_of_exactNetwork hx _)
  refine ⟨hsync, fun t n k ht hn => (hent t n k ht hn).trans ?_⟩
  rw [hfree.visits_eq, hs.ite_mem_keys_walk_of_exactNetwork hx ht hn _ rfl]
  rfl

/-- `node2` leaving `net1` marks its entry for deletion and leaves that of
`node3`. -/
theorem deleteNodeNetworkEntries_refines_twoEntries :
    (twoEntries.indexes.Synced ∧ twoEntries.indexes.ExactNetwork "net1" ∧
      twoEntries.indexes.PrefixFreeKeys "net1") ∧
    (twoEntries.deleteNodeNetworkEntries "net1" "node2").indexes.Synced ∧
    ∀ t n k, NoSlash t → NoSlash n →
      (twoEntries.deleteNodeNetworkEntries "net1" "node2").getEntry t n k =
        Store.deleteNodeNetworkEntries twoEntries.getEntry twoEntries.config "net1" "node2" t n k :=
  have hfree : twoEntries.indexes.PrefixFreeKeys "net1" := by decide +kernel
  ⟨⟨twoEntries_synced, twoEntries_exactNetwork, hfree⟩,
    deleteNodeNetworkEntries_refines twoEntries_synced twoEntries_exactNetwork hfree "node2"⟩

/-- **What `deleteNodeNetworkEntries` does to every entry.**  The trees stay
in step.  An entry of a network whose id starts with `nid` either goes
through `leaveEntry`, or stays as it was while a shorter key of the same table
and network had an entry that `leaveEntry` drops and that is gone: the walk
dropped it and, as go-radix merged the node of its key with the child, skipped
the entry.  The entries of the other networks stay. -/
theorem deleteNodeNetworkEntries_leaves_or_skips (hs : s.indexes.Synced)
    (hk : s.indexes.KeysNoSlash) {nid : String} (hnid : NoSlash nid) (node : String) :
    (s.deleteNodeNetworkEntries nid node).indexes.Synced ∧
    ∀ t n k, NoSlash t → NoSlash n →
      (nid.toList <+: n.toList →
        (s.deleteNodeNetworkEntries nid node).getEntry t n k =
          Store.leaveEntry node (node == s.config.NodeID) s.config.reapEntryInterval (s.getEntry t n k) ∨
        ((s.deleteNodeNetworkEntries nid node).getEntry t n k = s.getEntry t n k ∧
          ∃ k' e', k'.toList <+: k.toList ∧ k' ≠ k ∧ s.getEntry t n k' = some e' ∧
            Store.leaveEntry node (node == s.config.NodeID) s.config.reapEntryInterval (some e') = none ∧
            (s.deleteNodeNetworkEntries nid node).getEntry t n k' = none)) ∧
      (¬nid.toList <+: n.toList →
        (s.deleteNodeNetworkEntries nid node).getEntry t n k = s.getEntry t n k) := by
  have hpaths := hs.entryPaths_byNetwork hk (leaveEffect s.config node) (slashPath [nid])
  obtain ⟨hsync, hent⟩ := hs.deleteNodeNetworkEntries s.config nid node hpaths
  refine ⟨hsync, fun t n k ht hn => ⟨fun hpre => ?_, fun hpre => ?_⟩⟩
  · by_cases hv : entryPath n t k ∈
        (s.indexes.byNetwork.visits (leaveEffect s.config node) (slashPath [nid])).map Prod.fst
    · exact .inl ((hent t n k ht hn).trans (if_pos hv))
    · have hsame := (hent t n k ht hn).trans (if_neg hv)
      cases he : s.getEntry t n k with
      | none => exact .inl (hsame.trans (by rw [getEntry] at he; rw [he]; rfl))
      | some e =>
          have hget : s.indexes.byNetwork.Get (entryPath n t k) = some e := by
            rw [hs.agree t n k ht hn]
            exact he
          obtain ⟨k', e', hkk, hne, hmem, hdel⟩ := hpaths.skipped hn ht hget
            ((slashPath_one_prefix_iff hnid n t k).mpr hpre) hv
          have he' : s.getEntry t n k' = some e' := by
            rw [getEntry, ← hs.agree t n k' ht hn]
            exact Tree.Get_of_mem_visits _ hmem
          have hdrop : Store.leaveEntry node (node == s.config.NodeID) s.config.reapEntryInterval
              (some e') = none := by
            rw [← value_leaveEffect s.config node (entryPath n t k'), hdel, Effect.value_delete]
          refine .inr ⟨hsame.trans he, k', e', hkk, hne, he', hdrop, ?_⟩
          rw [getEntry, indexes_deleteNodeNetworkEntries, hent t n k' ht hn,
            if_pos (List.mem_map.mpr ⟨_, hmem, rfl⟩), ← getEntry, he', hdrop]
  · exact (hent t n k ht hn).trans (if_neg (Indexes.not_mem_keys_visits hnid _ hpre))

/-- When this node leaves `net1`, the walk drops the entry of `k`, which
`node2` owns, and skips that of `k2`: the entry stays, where `leaveEntry`
drops it. -/
theorem deleteNodeNetworkEntries_skips_nestedKeys :
    (nestedKeys.indexes.Synced ∧ nestedKeys.indexes.KeysNoSlash ∧ NoSlash "net1") ∧
    ((nestedKeys.deleteNodeNetworkEntries "net1" "node1").getEntry "t" "net1" "k2" =
        Store.leaveEntry "node1" ("node1" == nestedKeys.config.NodeID)
          nestedKeys.config.reapEntryInterval (nestedKeys.getEntry "t" "net1" "k2") ∨
      ((nestedKeys.deleteNodeNetworkEntries "net1" "node1").getEntry "t" "net1" "k2" =
          nestedKeys.getEntry "t" "net1" "k2" ∧
        ∃ k' e', k'.toList <+: "k2".toList ∧ k' ≠ "k2" ∧ nestedKeys.getEntry "t" "net1" k' = some e' ∧
          Store.leaveEntry "node1" ("node1" == nestedKeys.config.NodeID)
            nestedKeys.config.reapEntryInterval (some e') = none ∧
          (nestedKeys.deleteNodeNetworkEntries "net1" "node1").getEntry "t" "net1" k' = none)) ∧
    (nestedKeys.deleteNodeNetworkEntries "net1" "node1").getEntry "t" "net1" "k2" =
      some ⟨"node2", 2, [2], false, 0⟩ ∧
    Store.leaveEntry "node1" ("node1" == nestedKeys.config.NodeID) nestedKeys.config.reapEntryInterval
      (nestedKeys.getEntry "t" "net1" "k2") = none :=
  ⟨⟨nestedKeys_synced, nestedKeys_keysNoSlash, by decide⟩,
    ((deleteNodeNetworkEntries_leaves_or_skips nestedKeys_synced nestedKeys_keysNoSlash
      (show NoSlash "net1" by decide) "node1").2 "t" "net1" "k2" (by decide) (by decide)).1
      (List.prefix_refl _),
    by decide +kernel, by decide +kernel⟩

/-- **`reapTableEntries` refines what it is meant to do** when the networks of
this node are listed once each, and the walk of each is exact and on
prefix-free keys: the trees stay in step and every entry of these networks is
reaped once, by `reapEntry` with its own time compensation; the entries of the
other networks stay. -/
theorem reapTableEntries_refines (hs : s.indexes.Synced) {nodeNetworks : List String}
    (hnodup : nodeNetworks.Nodup)
    (hx : ∀ nid ∈ nodeNetworks, s.indexes.ExactNetwork nid ∧ s.indexes.PrefixFreeKeys nid)
    (timeCompensation : String → String → String → Int) :
    (s.reapTableEntries nodeNetworks timeCompensation).indexes.Synced ∧
    ∀ t n k, NoSlash t → NoSlash n →
      (s.reapTableEntries nodeNetworks timeCompensation).getEntry t n k =
        Store.reapTableEntries s.getEntry nodeNetworks timeCompensation t n k := by
  -- by induction on the networks, over the indexes the walks before leave
  induction nodeNetworks generalizing s with
  | nil => exact ⟨hs, fun t n k _ _ => by simp [Store.reapTableEntries, reapTableEntries,
      Indexes.reapTableEntries, getEntry]⟩
  | cons nid rest ih =>
      rw [List.nodup_cons] at hnodup
      obtain ⟨hxnid, hfree⟩ := hx nid List.mem_cons_self
      obtain ⟨hsync, hent⟩ := hs.reapNetwork timeCompensation hxnid hfree
      have hrest : ∀ nid' ∈ rest, (s.indexes.reapNetwork timeCompensation nid).ExactNetwork nid' ∧
          (s.indexes.reapNetwork timeCompensation nid).PrefixFreeKeys nid' := by
        intro nid' hnid'
        obtain ⟨hx', hfree'⟩ := hx nid' (List.mem_cons_of_mem _ hnid')
        refine ⟨hx'.mono fun t n k e' ht hn he' => ?_, hfree'.reapNetwork timeCompensation nid⟩
        rw [hent t n k ht hn] at he'
        split_ifs at he'
        · exact ⟨_, (Option.bind_eq_some_iff.mp he').choose_spec.1⟩
        · exact ⟨e', he'⟩
      obtain ⟨hsync', hent'⟩ := ih (s := { s with indexes := s.indexes.reapNetwork timeCompensation nid })
        hsync hnodup.2 hrest
      refine ⟨hsync', fun t n k ht hn => (hent' t n k ht hn).trans ?_⟩
      have hget : ∀ k', ({ s with indexes := s.indexes.reapNetwork timeCompensation nid } : NetworkDB).getEntry t n k' =
          if n = nid then (s.getEntry t n k').bind (Store.reapEntry (timeCompensation t n k'))
          else s.getEntry t n k' := fun k' => hent t n k' ht hn
      simp only [Store.reapTableEntries, hget, List.mem_cons]
      by_cases hnid : n = nid
      · subst hnid
        simp [hnodup.1]
      · simp [hnid]

/-- The reap of `net1` counts down the entry being deleted. -/
theorem reapTableEntries_refines_twoEntries :
    (twoEntries.indexes.Synced ∧ ["net1"].Nodup ∧
      ∀ nid ∈ ["net1"], twoEntries.indexes.ExactNetwork nid ∧ twoEntries.indexes.PrefixFreeKeys nid) ∧
    (twoEntries.reapTableEntries ["net1"] fun _ _ _ => 0).getEntry "t" "net1" "k2" =
      Store.reapTableEntries twoEntries.getEntry ["net1"] (fun _ _ _ => 0) "t" "net1" "k2" ∧
    (twoEntries.reapTableEntries ["net1"] fun _ _ _ => 0).getEntry "t" "net1" "k2" =
      some ⟨"node3", 2, [2], true, 15000000000⟩ :=
  have hx : ∀ nid ∈ ["net1"], twoEntries.indexes.ExactNetwork nid ∧
      twoEntries.indexes.PrefixFreeKeys nid := by
    intro nid hnid
    obtain rfl := List.mem_singleton.mp hnid
    exact ⟨twoEntries_exactNetwork, by decide +kernel⟩
  ⟨⟨twoEntries_synced, by decide, hx⟩,
    (reapTableEntries_refines twoEntries_synced (by decide) hx _).2 "t" "net1" "k2" (by decide)
      (by decide),
    by decide +kernel⟩

/-- **What `deleteNodeTableEntries` does to every entry.**  The trees stay in
step, and an entry either goes through what the function is meant to do (it
goes when it is of `node`), or stays as it was while a shorter key of the same
table and network had an entry of `node` that is gone: the walk dropped it and
skipped the entry under it. -/
theorem deleteNodeTableEntries_drops_or_skips (hs : s.indexes.Synced) (hk : s.indexes.KeysNoSlash)
    (node : String) :
    (s.deleteNodeTableEntries node).indexes.Synced ∧
    ∀ t n k, NoSlash t → NoSlash n →
      (s.deleteNodeTableEntries node).getEntry t n k =
        Store.deleteNodeTableEntries s.getEntry node t n k ∨
      ((s.deleteNodeTableEntries node).getEntry t n k = s.getEntry t n k ∧
        ∃ k' e', k'.toList <+: k.toList ∧ k' ≠ k ∧ s.getEntry t n k' = some e' ∧ e'.node = node ∧
          (s.deleteNodeTableEntries node).getEntry t n k' = none) := by
  have hpaths := hs.entryPaths_byTable hk (deleteNodeEffect node) []
  obtain ⟨hsync, hent⟩ := hs.deleteNodeTableEntries hk node
  refine ⟨hsync, fun t n k ht hn => ?_⟩
  by_cases hv : entryPath t n k ∈ (s.indexes.byTable.visits (deleteNodeEffect node) []).map Prod.fst
  · exact .inl ((hent t n k).trans (if_pos hv))
  · have hsame := (hent t n k).trans (if_neg hv)
    cases he : s.getEntry t n k with
    | none => exact .inl (hsame.trans (by rw [getEntry] at he; simp [Store.deleteNodeTableEntries, getEntry, he]))
    | some e =>
        obtain ⟨k', e', hkk, hne, hmem, hdel⟩ := hpaths.skipped ht hn he (List.nil_prefix) hv
        have he' : s.getEntry t n k' = some e' := Tree.Get_of_mem_visits _ hmem
        have hown : e'.node = node := by
          have hval := value_deleteNodeEffect node (entryPath t n k') e'
          rw [hdel, Effect.value_delete] at hval
          by_contra hne'
          simp [hne'] at hval
        refine .inr ⟨hsame.trans he, k', e', hkk, hne, he', hown, ?_⟩
        have he'' : s.indexes.entries t n k' = some e' := he'
        rw [getEntry, indexes_deleteNodeTableEntries, hent t n k', if_pos (List.mem_map.mpr ⟨_, hmem, rfl⟩),
          Store.deleteNodeTableEntries, he'', Option.bind_some, hown]
        simp

/-- When `node2` fails, the walk drops its entry of `k` and skips that of
`k2`, which stays. -/
theorem deleteNodeTableEntries_skips_nestedKeys :
    (nestedKeys.indexes.Synced ∧ nestedKeys.indexes.KeysNoSlash) ∧
    ((nestedKeys.deleteNodeTableEntries "node2").getEntry "t" "net1" "k2" =
        Store.deleteNodeTableEntries nestedKeys.getEntry "node2" "t" "net1" "k2" ∨
      ((nestedKeys.deleteNodeTableEntries "node2").getEntry "t" "net1" "k2" =
          nestedKeys.getEntry "t" "net1" "k2" ∧
        ∃ k' e', k'.toList <+: "k2".toList ∧ k' ≠ "k2" ∧ nestedKeys.getEntry "t" "net1" k' = some e' ∧
          e'.node = "node2" ∧ (nestedKeys.deleteNodeTableEntries "node2").getEntry "t" "net1" k' = none)) ∧
    (nestedKeys.deleteNodeTableEntries "node2").getEntry "t" "net1" "k2" =
      some ⟨"node2", 2, [2], false, 0⟩ ∧
    Store.deleteNodeTableEntries nestedKeys.getEntry "node2" "t" "net1" "k2" = none :=
  ⟨⟨nestedKeys_synced, nestedKeys_keysNoSlash⟩,
    (deleteNodeTableEntries_drops_or_skips nestedKeys_synced nestedKeys_keysNoSlash "node2").2
      "t" "net1" "k2" (by decide) (by decide),
    by decide +kernel, by decide +kernel⟩

end NetworkDB

end Libnetwork.NetworkDb
