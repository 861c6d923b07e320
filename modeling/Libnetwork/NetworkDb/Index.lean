import Mathlib
import Libnetwork.Support.RadixWalk

/-!
# The radix indexes of the table entries

`networkdb.go` keeps every table entry twice, in the radix tree
`indexes[byTable]` under the path `/tname/nid/key` and in
`indexes[byNetwork]` under `/nid/tname/key`; `createOrUpdateEntry` and
`deleteEntry` write both, and `getEntry` reads the tree by table.  `Synced`
says that the two trees hold the same entries under the two orders of a path,
for tables and networks whose names hold no separator.

The functions that read the trees walk them under a prefix of one or two names
with no separator at its end: `/tname/nid`, `/tname` or `/nid`.  Such a walk
reaches the entries of every table or network whose name *starts with* the
name walked, not only those of that name; the walk under `/nid` is exact
precisely when no stored network id properly extends `nid`.

Three functions write the trees from the function of a walk:
`deleteNodeNetworkEntries` and `reapTableEntries` walk the tree by network
under `/nid`, `deleteNodeTableEntries` walks the whole tree by table.  The
function takes the names back from the path it is called with and writes
both trees under them: the tree walked at that path (which is where the names
lead when they hold no separator) and the other tree at the entry's other
path.
-/

namespace Libnetwork.NetworkDb

open RadixTree

/-- `entry`: a table entry and the node that owns it. -/
structure Entry where
  node : String
  ltime : UInt64
  value : List UInt8
  deleting : Bool
  reapTime : Int
  deriving DecidableEq, Repr

/-- `Config`, with the fields the modelled functions read. -/
structure Config where
  NodeID : String
  reapEntryInterval : Int
  reapNetworkInterval : Int
  deriving DecidableEq, Repr

/-- `reapPeriod`: five seconds. -/
def reapPeriod : Int := 5 * 1000000000

/-- `"/%s"` for each name in turn, as `fmt.Sprintf` writes the paths and the
prefixes of the walks: `slashPath [a, b, c]` is `/a/b/c`. -/
def slashPath (segs : List String) : List Char :=
  segs.flatMap fun s => '/' :: s.toList

@[simp] theorem slashPath_nil : slashPath [] = [] := rfl

@[simp] theorem slashPath_cons (a : String) (segs : List String) :
    slashPath (a :: segs) = '/' :: (a.toList ++ slashPath segs) := rfl

/-- `fmt.Sprintf("/%s/%s/%s", a, b, c)`: the path of an entry in a tree. -/
def entryPath (a b c : String) : List Char := slashPath [a, b, c]

theorem entryPath_ne_nil (a b c : String) : entryPath a b c ≠ [] := by
  simp [entryPath]

/-- A name without the separator `/`. -/
def NoSlash (s : String) : Prop := '/' ∉ s.toList

instance (s : String) : Decidable (NoSlash s) :=
  inferInstanceAs (Decidable ('/' ∉ s.toList))

/-- The path of an entry is the prefix of its table and network, the
separator and its key. -/
theorem entryPath_eq_append (a b c : String) :
    entryPath a b c = slashPath [a, b] ++ '/' :: c.toList := by
  simp [entryPath]

theorem entryPath_inj {a b c a' b' c' : String} (ha : NoSlash a) (hb : NoSlash b)
    (ha' : NoSlash a') (hb' : NoSlash b') :
    entryPath a b c = entryPath a' b' c' ↔ a = a' ∧ b = b' ∧ c = c' := by
  simp only [entryPath, slashPath_cons, slashPath_nil, List.append_nil, List.cons.injEq,
    true_and]
  rw [append_cons_inj ha ha', append_cons_inj hb hb']
  simp only [String.toList_inj]

/-- Paths of entries agree on their first names, when these hold no
separator. -/
theorem entryPath_first_eq {a a' b b' c c' : String} (ha : NoSlash a) (ha' : NoSlash a')
    (h : entryPath a b c = entryPath a' b' c') : a = a' := by
  simp only [entryPath, slashPath_cons, List.cons.injEq, true_and] at h
  exact String.toList_inj.mp ((append_cons_inj ha ha').mp h).1

/-- The walk under `/a` reaches the path of an entry exactly when `a` is a
prefix of the entry's first name. -/
theorem slashPath_one_prefix_iff {a : String} (ha : NoSlash a) (a' b c : String) :
    slashPath [a] <+: entryPath a' b c ↔ a.toList <+: a'.toList := by
  simp only [entryPath, slashPath_cons, slashPath_nil, List.append_nil, List.cons_prefix_cons,
    true_and]
  exact prefix_append_cons_iff ha

/-- The walk under `/a/b` reaches the path of an entry exactly when the entry's
first name is `a` and `b` is a prefix of its second. -/
theorem slashPath_two_prefix_iff {a a' b : String} (ha : NoSlash a) (ha' : NoSlash a')
    (hb : NoSlash b) (b' c : String) :
    slashPath [a, b] <+: entryPath a' b' c ↔ a = a' ∧ b.toList <+: b'.toList := by
  simp only [entryPath, slashPath_cons, slashPath_nil, List.append_nil, List.cons_prefix_cons,
    true_and]
  rw [append_cons_prefix_iff ha ha', prefix_append_cons_iff hb, String.toList_inj]

/-- The path of an entry is a prefix of another's exactly when they are of the
same table and network and the first key is a prefix of the second, when the
names hold no separator. -/
theorem entryPath_prefix_iff {a b a' b' : String} (ha : NoSlash a) (hb : NoSlash b)
    (ha' : NoSlash a') (hb' : NoSlash b') (c c' : String) :
    entryPath a b c <+: entryPath a' b' c' ↔ a = a' ∧ b = b' ∧ c.toList <+: c'.toList := by
  simp only [entryPath, slashPath_cons, slashPath_nil, List.append_nil, List.cons_prefix_cons,
    true_and]
  rw [append_cons_prefix_iff ha ha', append_cons_prefix_iff hb hb', String.toList_inj,
    String.toList_inj]

/-! ## Taking the names back from a path -/

/-- `strings.Split(path[1:], "/")`. -/
def splitPath (path : List Char) : List String :=
  ((path.drop 1).splitOn '/').map String.ofList

/-- `k[strings.LastIndex(k, "/")+1:]`: what follows the last separator. -/
def lastSegment (k : List Char) : String :=
  String.ofList (k.reverse.takeWhile (· != '/')).reverse

/-- The split of an entry's path gives its two names, then the pieces of its
key. -/
theorem splitPath_entryPath {a b : String} (ha : NoSlash a) (hb : NoSlash b) (c : String) :
    splitPath (entryPath a b c) = a :: b :: (c.toList.splitOn '/').map String.ofList := by
  simp only [splitPath, entryPath, slashPath_cons, slashPath_nil, List.append_nil,
    List.drop_succ_cons, List.drop_zero, List.splitOn_append_cons_self_of_not_mem ha,
    List.splitOn_append_cons_self_of_not_mem hb, List.map_cons, String.ofList_toList]

theorem splitPath_entryPath_of_noSlash {a b c : String} (ha : NoSlash a) (hb : NoSlash b)
    (hc : NoSlash c) : splitPath (entryPath a b c) = [a, b, c] := by
  rw [splitPath_entryPath ha hb, List.splitOn_eq_singleton hc]
  simp [String.ofList_toList]

/-- The last segment of an entry's path is its key, when the key holds no
separator. -/
theorem lastSegment_entryPath (a b : String) {c : String} (hc : NoSlash c) :
    lastSegment (entryPath a b c) = c := by
  have hkeep : ∀ x ∈ c.toList.reverse, (x != '/') = true := fun x hx => by
    have : x ≠ '/' := fun h => hc (h ▸ List.mem_reverse.mp hx)
    simpa using this
  rw [lastSegment, entryPath_eq_append, List.reverse_append, List.reverse_cons,
    List.append_assoc, List.takeWhile_append_of_pos hkeep]
  simp [String.ofList_toList]

/-! ## The two trees -/

/-- `nDB.indexes`: the tree by table and the tree by network. -/
structure Indexes where
  byTable : Tree Char Entry
  byNetwork : Tree Char Entry

namespace Indexes

/-- The indexes of `New`. -/
def New : Indexes := ⟨.New, .New⟩

variable (idx : Indexes)

/-- `createOrUpdateEntry`, on the trees. -/
def createOrUpdateEntry (nid tname key : String) (e : Entry) : Indexes :=
  ⟨idx.byTable.Insert (entryPath tname nid key) e (entryPath_ne_nil _ _ _),
    idx.byNetwork.Insert (entryPath nid tname key) e (entryPath_ne_nil _ _ _)⟩

/-- `deleteEntry`, on the trees. -/
def deleteEntry (nid tname key : String) : Indexes :=
  ⟨idx.byTable.Delete (entryPath tname nid key), idx.byNetwork.Delete (entryPath nid tname key)⟩

/-- The entry of table `t`, network `n` and key `k`, as `getEntry` reads it
from the tree by table. -/
def entries (t n k : String) : Option Entry :=
  idx.byTable.Get (entryPath t n k)

/-- The two trees hold the same entries: every path of either is the path of
an entry of a table and a network without separator, and such an entry is
stored under both of its paths. -/
structure Synced : Prop where
  byTable_path : ∀ p e, idx.byTable.Get p = some e →
    ∃ t n k, NoSlash t ∧ NoSlash n ∧ p = entryPath t n k
  byNetwork_path : ∀ p e, idx.byNetwork.Get p = some e →
    ∃ n t k, NoSlash n ∧ NoSlash t ∧ p = entryPath n t k
  agree : ∀ t n k, NoSlash t → NoSlash n →
    idx.byNetwork.Get (entryPath n t k) = idx.entries t n k

theorem synced_New : New.Synced :=
  ⟨(fun _ _ h => by simp [New] at h), (fun _ _ h => by simp [New] at h),
    fun _ _ _ _ _ => by simp [New, entries]⟩

variable {idx}

/-- Writing one value at the two paths of an entry of a table and a network
without separator keeps the trees in step: an insert writes an entry there, a
delete writes none. -/
theorem Synced.of_update (hs : idx.Synced) {idx' : Indexes} {nid tname key : String}
    (hn : NoSlash nid) (ht : NoSlash tname) (v : Option Entry)
    (hT : ∀ p, idx'.byTable.Get p =
      if p = entryPath tname nid key then v else idx.byTable.Get p)
    (hN : ∀ p, idx'.byNetwork.Get p =
      if p = entryPath nid tname key then v else idx.byNetwork.Get p) :
    idx'.Synced := by
  refine ⟨fun p e h => ?_, fun p e h => ?_, fun t n k ht' hn' => ?_⟩
  · rw [hT] at h
    split_ifs at h with hp
    · exact ⟨tname, nid, key, ht, hn, hp⟩
    · exact hs.byTable_path p e h
  · rw [hN] at h
    split_ifs at h with hp
    · exact ⟨nid, tname, key, hn, ht, hp⟩
    · exact hs.byNetwork_path p e h
  · -- the two paths of an entry are written together or not at all
    have hiff : entryPath n t k = entryPath nid tname key ↔
        entryPath t n k = entryPath tname nid key := by
      rw [entryPath_inj hn' ht' hn ht, entryPath_inj ht' hn' ht hn, and_left_comm]
    rw [entries, hT, hN]
    by_cases hp : entryPath t n k = entryPath tname nid key
    · rw [if_pos (hiff.mpr hp), if_pos hp]
    · rw [if_neg (mt hiff.mp hp), if_neg hp, hs.agree t n k ht' hn', entries]

/-- A write of an entry of a table and a network without separator keeps the
trees in step. -/
theorem Synced.createOrUpdateEntry (hs : idx.Synced) {nid tname : String} (hn : NoSlash nid)
    (ht : NoSlash tname) (key : String) (e : Entry) :
    (idx.createOrUpdateEntry nid tname key e).Synced :=
  hs.of_update hn ht (some e) (fun _ => Tree.Get_Insert _ _ (entryPath_ne_nil _ _ _) _)
    (fun _ => Tree.Get_Insert _ _ (entryPath_ne_nil _ _ _) _)

theorem Synced.deleteEntry (hs : idx.Synced) {nid tname : String} (hn : NoSlash nid)
    (ht : NoSlash tname) (key : String) : (idx.deleteEntry nid tname key).Synced :=
  hs.of_update hn ht none (fun _ => Tree.Get_Delete ..) (fun _ => Tree.Get_Delete ..)

variable (idx)

/-- A write is read back under its names, and changes no other entry of a
table and a network without separator. -/
theorem entries_createOrUpdateEntry {nid tname : String} (hn : NoSlash nid) (ht : NoSlash tname)
    (key : String) (e : Entry) {t n : String} (ht' : NoSlash t) (hn' : NoSlash n) (k : String) :
    (idx.createOrUpdateEntry nid tname key e).entries t n k =
      if t = tname ∧ n = nid ∧ k = key then some e else idx.entries t n k := by
  simp only [entries, Indexes.createOrUpdateEntry, Tree.Get_Insert, entryPath_inj ht' hn' ht hn]

@[simp] theorem entries_createOrUpdateEntry_self (nid tname key : String) (e : Entry) :
    (idx.createOrUpdateEntry nid tname key e).entries tname nid key = some e := by
  simp [entries, Indexes.createOrUpdateEntry]

theorem entries_deleteEntry {nid tname : String} (hn : NoSlash nid) (ht : NoSlash tname)
    (key : String) {t n : String} (ht' : NoSlash t) (hn' : NoSlash n) (k : String) :
    (idx.deleteEntry nid tname key).entries t n k =
      if t = tname ∧ n = nid ∧ k = key then none else idx.entries t n k := by
  simp only [entries, Indexes.deleteEntry, Tree.Get_Delete, entryPath_inj ht' hn' ht hn]

variable {idx}

/-! ## What a walk reaches -/

/-- The walk of the tree by table under `/tname/nid` visits the entries of
`tname` in every network whose id starts with `nid`. -/
theorem Synced.mem_walk_table_network (hs : idx.Synced) {tname nid : String}
    (ht : NoSlash tname) (hn : NoSlash nid) {p : List Char} {e : Entry} :
    (p, e) ∈ idx.byTable.WalkPrefix (slashPath [tname, nid]) ↔
      ∃ n k, NoSlash n ∧ nid.toList <+: n.toList ∧ p = entryPath tname n k ∧
        idx.entries tname n k = some e := by
  rw [Tree.mem_WalkPrefix]
  constructor
  · rintro ⟨hpre, hget⟩
    obtain ⟨t, n, k, ht', hn', rfl⟩ := hs.byTable_path p e hget
    obtain ⟨rfl, hext⟩ := (slashPath_two_prefix_iff ht ht' hn n k).mp hpre
    exact ⟨n, k, hn', hext, rfl, hget⟩
  · rintro ⟨n, k, -, hpre, rfl, hget⟩
    exact ⟨(slashPath_two_prefix_iff ht ht hn n k).mpr ⟨rfl, hpre⟩, hget⟩

/-- The walk of the tree by table under `/tname` visits the entries of every
table whose name starts with `tname`. -/
theorem Synced.mem_walk_table (hs : idx.Synced) {tname : String} (ht : NoSlash tname)
    {p : List Char} {e : Entry} :
    (p, e) ∈ idx.byTable.WalkPrefix (slashPath [tname]) ↔
      ∃ t n k, NoSlash t ∧ NoSlash n ∧ tname.toList <+: t.toList ∧ p = entryPath t n k ∧
        idx.entries t n k = some e := by
  rw [Tree.mem_WalkPrefix]
  constructor
  · rintro ⟨hpre, hget⟩
    obtain ⟨t, n, k, ht', hn', rfl⟩ := hs.byTable_path p e hget
    exact ⟨t, n, k, ht', hn', (slashPath_one_prefix_iff ht t n k).mp hpre, rfl, hget⟩
  · rintro ⟨t, n, k, -, -, hpre, rfl, hget⟩
    exact ⟨(slashPath_one_prefix_iff ht t n k).mpr hpre, hget⟩

/-- The walk of the tree by network under `/nid` visits the entries of every
network whose id starts with `nid`. -/
theorem Synced.mem_walk_network (hs : idx.Synced) {nid : String} (hn : NoSlash nid)
    {p : List Char} {e : Entry} :
    (p, e) ∈ idx.byNetwork.WalkPrefix (slashPath [nid]) ↔
      ∃ n t k, NoSlash n ∧ NoSlash t ∧ nid.toList <+: n.toList ∧ p = entryPath n t k ∧
        idx.entries t n k = some e := by
  rw [Tree.mem_WalkPrefix]
  constructor
  · rintro ⟨hpre, hget⟩
    obtain ⟨n, t, k, hn', ht', rfl⟩ := hs.byNetwork_path p e hget
    refine ⟨n, t, k, hn', ht', (slashPath_one_prefix_iff hn n t k).mp hpre, rfl, ?_⟩
    rw [← hs.agree t n k ht' hn']
    exact hget
  · rintro ⟨n, t, k, hn', ht', hpre, rfl, hget⟩
    refine ⟨(slashPath_one_prefix_iff hn n t k).mpr hpre, ?_⟩
    rw [hs.agree t n k ht' hn']
    exact hget

variable (idx)

/-- No entry is stored in a network whose id properly extends `nid`. -/
def NoExtension (nid : String) : Prop :=
  ∀ t n k e, NoSlash t → NoSlash n → idx.entries t n k = some e →
    nid.toList <+: n.toList → n = nid

variable {idx}

/-- The walk under `/nid` visits only entries of `nid` exactly when no stored
network id properly extends `nid`. -/
theorem Synced.walk_network_exact_iff (hs : idx.Synced) {nid : String} (hn : NoSlash nid) :
    (∀ p e, (p, e) ∈ idx.byNetwork.WalkPrefix (slashPath [nid]) → ∃ t k, p = entryPath nid t k) ↔
      idx.NoExtension nid := by
  constructor
  · intro hexact t n k e ht' hn' hget hpre
    have hmem := (hs.mem_walk_network hn).mpr ⟨n, t, k, hn', ht', hpre, rfl, hget⟩
    obtain ⟨t', k', hp⟩ := hexact _ _ hmem
    exact entryPath_first_eq hn' hn hp
  · intro hno p e hmem
    obtain ⟨n, t, k, hn', ht', hpre, rfl, hget⟩ := (hs.mem_walk_network hn).mp hmem
    rw [hno t n k e ht' hn' hget hpre]
    exact ⟨t, k, rfl⟩


theorem walk_network_exact_iff_net1 :
    ((∀ p e, (p, e) ∈ (New.createOrUpdateEntry "net1" "t" "k1"
        ⟨"node2", 1, [1], false, 0⟩).byNetwork.WalkPrefix (slashPath ["net1"]) →
        ∃ t k, p = entryPath "net1" t k) ↔
      (New.createOrUpdateEntry "net1" "t" "k1" ⟨"node2", 1, [1], false, 0⟩).NoExtension "net1") ∧
    ((∀ p e, (p, e) ∈ ((New.createOrUpdateEntry "net1" "t" "k1"
        ⟨"node2", 1, [1], false, 0⟩).createOrUpdateEntry "net10" "t" "k2"
        ⟨"node2", 2, [2], false, 0⟩).byNetwork.WalkPrefix (slashPath ["net1"]) →
        ∃ t k, p = entryPath "net1" t k) ↔
      ((New.createOrUpdateEntry "net1" "t" "k1" ⟨"node2", 1, [1], false, 0⟩).createOrUpdateEntry
        "net10" "t" "k2" ⟨"node2", 2, [2], false, 0⟩).NoExtension "net1") ∧
    ¬((New.createOrUpdateEntry "net1" "t" "k1" ⟨"node2", 1, [1], false, 0⟩).createOrUpdateEntry
        "net10" "t" "k2" ⟨"node2", 2, [2], false, 0⟩).NoExtension "net1" :=
  ⟨(synced_New.createOrUpdateEntry (by decide) (by decide) _ _).walk_network_exact_iff (by decide),
    ((synced_New.createOrUpdateEntry (by decide) (by decide) _ _).createOrUpdateEntry (by decide)
      (by decide) _ _).walk_network_exact_iff (by decide),
    fun h => absurd (h "t" "net10" "k2" ⟨"node2", 2, [2], false, 0⟩ (by decide) (by decide)
      (by decide +kernel) (by decide)) (by decide)⟩

end Indexes

/-! ## The walks that write the trees -/

/-- The function `deleteNodeNetworkEntries(nid, node)` walks the tree by
network with, at the entry `oldEntry` of `path`: what it does to that leaf,
and the tree by table it leaves.  `createOrUpdateEntry` and `deleteEntry`
write the leaf visited, whose path the names are taken from. -/
def leaveVisit (config : Config) (node : String) (path : List Char) (oldEntry : Entry)
    (byTable : Tree Char Entry) : Effect Entry × Tree Char Entry :=
  let isNodeLocal := node == config.NodeID
  let params := splitPath path
  let nid := params.getD 0 ""
  let tname := params.getD 1 ""
  let key := params.getD 2 ""
  if oldEntry.node != node && !isNodeLocal then (.keep, byTable)
  else if oldEntry.deleting && !isNodeLocal then (.keep, byTable)
  else if oldEntry.node == node then
    -- the source bumps the time of the local node's own entries by one,
    -- without its clock
    let entry : Entry := ⟨oldEntry.node, if isNodeLocal then oldEntry.ltime + 1 else oldEntry.ltime,
      oldEntry.value, true, config.reapEntryInterval⟩
    if !oldEntry.deleting then
      (.set entry, byTable.Insert (entryPath tname nid key) entry (entryPath_ne_nil _ _ _))
    else (.keep, byTable)
  else (.delete, byTable.Delete (entryPath tname nid key))

/-- The function `reapTableEntries` walks the tree by network with, at the
entry of `path`; `timeCompensation` is the time since the start of the cycle
when the names of the path are reached.  The decrement writes through the
pointer both trees hold, under the entry's whole key. -/
def reapVisit (timeCompensation : String → String → String → Int) (path : List Char) (entry : Entry)
    (byTable : Tree Char Entry) : Effect Entry × Tree Char Entry :=
  let params := splitPath path
  let tc := timeCompensation (params.getD 1 "") (params.getD 0 "") ("/".intercalate (params.drop 2))
  if !entry.deleting then (.keep, byTable)
  else if entry.reapTime > reapPeriod + tc + 1000000000 then
    let entry := { entry with reapTime := entry.reapTime - (reapPeriod + tc) }
    (.set entry, byTable.Insert (entryPath (params.getD 1 "") (params.getD 0 "")
      ("/".intercalate (params.drop 2))) entry (entryPath_ne_nil _ _ _))
  else (.delete, byTable.Delete (entryPath (params.getD 1 "") (params.getD 0 "") (params.getD 2 "")))

/-- The function `deleteNodeTableEntries(node)` walks the tree by table with,
at the entry `oldEntry` of `path`: an entry of `node` goes from both trees. -/
def deleteNodeVisit (node : String) (path : List Char) (oldEntry : Entry)
    (byNetwork : Tree Char Entry) : Effect Entry × Tree Char Entry :=
  if oldEntry.node != node then (.keep, byNetwork)
  else
    let params := splitPath path
    (.delete, byNetwork.Delete (entryPath (params.getD 1 "") (params.getD 0 "") (params.getD 2 "")))

namespace Indexes

/-- `deleteNodeNetworkEntries`: the walk of the tree by network under `/nid`. -/
def deleteNodeNetworkEntries (idx : Indexes) (config : Config) (nid node : String) : Indexes :=
  ⟨(idx.byNetwork.WalkPrefixWith (slashPath [nid]) (leaveVisit config node) idx.byTable).2,
    (idx.byNetwork.WalkPrefixWith (slashPath [nid]) (leaveVisit config node) idx.byTable).1⟩

/-- The walk of the tree by network under `/nid` in `reapTableEntries`. -/
def reapNetwork (timeCompensation : String → String → String → Int) (idx : Indexes) (nid : String) :
    Indexes :=
  ⟨(idx.byNetwork.WalkPrefixWith (slashPath [nid]) (reapVisit timeCompensation) idx.byTable).2,
    (idx.byNetwork.WalkPrefixWith (slashPath [nid]) (reapVisit timeCompensation) idx.byTable).1⟩

/-- `reapTableEntries`: for each network of this node, in the order of
`nodeNetworks`, the walk of the tree by network under `/nid`. -/
def reapTableEntries (idx : Indexes) (nodeNetworks : List String)
    (timeCompensation : String → String → String → Int) : Indexes :=
  nodeNetworks.foldl (reapNetwork timeCompensation) idx

/-- `deleteNodeTableEntries`: the walk of the whole tree by table. -/
def deleteNodeTableEntries (idx : Indexes) (node : String) : Indexes :=
  ⟨(idx.byTable.Walk (deleteNodeVisit node) idx.byNetwork).1,
    (idx.byTable.Walk (deleteNodeVisit node) idx.byNetwork).2⟩

end Indexes

end Libnetwork.NetworkDb
