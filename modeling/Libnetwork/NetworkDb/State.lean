import Mathlib
import Libnetwork.NetworkDb.Index

/-!
# The state of a NetworkDB

`networkdb/networkdb.go` keeps, for one node of the gossip cluster, two
Lamport clocks (`serf.LamportClock`, vendored), the table entries, the three
maps of cluster members (active, left, failed), every node's attachments to
networks and, for every network, the nodes taking part in it.  This module
gives that state and the helpers the handlers share: the entry store, the
lists `networkNodes`, the walks over the entries of a leaving node and
`changeNodeState` of `nodemgmt.go`.

The entries are the two radix trees of `Index`, and the walks over the
entries of a leaving node are those of `Index`.  Maps are functions updated with
`Function.update`; a `*node`, `*network` or `*entry` that the source
mutates in place is read, changed and written back.  Durations are `Int`
nanoseconds: the source only adds, subtracts and compares values far from
the bounds of `int64`.
-/

namespace Libnetwork.NetworkDb

/-- `serf.LamportClock`. -/
structure LamportClock where
  counter : UInt64
  deriving DecidableEq, Repr

def LamportClock.Time (l : LamportClock) : UInt64 := l.counter

/-- `Increment`: the clock one up and its new value. -/
def LamportClock.Increment (l : LamportClock) : LamportClock × UInt64 :=
  (⟨l.counter + 1⟩, l.counter + 1)

/-- `Witness`: raise the clock to one above a time seen from another process,
unless it is already above it. -/
def LamportClock.Witness (l : LamportClock) (v : UInt64) : LamportClock :=
  if v < l.counter then l else ⟨v + 1⟩

/-- Witnessing a time a second time leaves the clock where the first left
it, also when `v + 1` wraps. -/
theorem LamportClock.Witness_Witness (l : LamportClock) (v : UInt64) :
    (l.Witness v).Witness v = l.Witness v := by
  by_cases h : v < l.counter <;> simp [LamportClock.Witness, h]

/-- `memberlist.Node`, with the fields the package reads; an address is its
`String()`. -/
structure MemberNode where
  Name : String
  Addr : String
  Port : UInt16
  deriving DecidableEq, Repr

/-- `node`: a member, the Lamport time of its last node event and the time
left before the reaper removes it. -/
structure Node extends MemberNode where
  ltime : UInt64
  reapTime : Int
  deriving DecidableEq, Repr

/-- `network`: the attachment of a node to a network. -/
structure Network where
  id : String
  ltime : UInt64
  inSync : Bool
  leaving : Bool
  reapTime : Int
  deriving DecidableEq, Repr

/-- `nodeReapInterval`: twenty-four hours. -/
def nodeReapInterval : Int := 24 * 3600 * 1000000000

/-- `nodeReapPeriod`: two hours. -/
def nodeReapPeriod : Int := 2 * 3600 * 1000000000

/-- `NetworkDB`, without its transport, queues and watchers. -/
structure NetworkDB where
  networkClock : LamportClock
  tableClock : LamportClock
  config : Config
  indexes : Indexes
  nodes : String → Option Node
  failedNodes : String → Option Node
  leftNodes : String → Option Node
  networks : String → Option (String → Option Network)
  networkNodes : String → List String

/-- `New`: no entries, members or networks; a deleted network outlives its
entries by five reap periods. -/
def NetworkDB.New (NodeID : String) (reapEntryInterval : Int) : NetworkDB where
  networkClock := ⟨0⟩
  tableClock := ⟨0⟩
  config := ⟨NodeID, reapEntryInterval, reapEntryInterval + 5 * reapPeriod⟩
  indexes := .New
  nodes := fun _ => none
  failedNodes := fun _ => none
  leftNodes := fun _ => none
  networks := fun _ => none
  networkNodes := fun _ => []

namespace NetworkDB

variable (s : NetworkDB)

/-! ## Entries -/

/-- `getEntry`: the entry under `/tname/nid/key` in the tree by table. -/
def getEntry (tname nid key : String) : Option Entry :=
  s.indexes.entries tname nid key

/-- `createOrUpdateEntry`: store `e` in both indexes. -/
def createOrUpdateEntry (nid tname key : String) (e : Entry) : NetworkDB :=
  { s with indexes := s.indexes.createOrUpdateEntry nid tname key e }

@[simp] theorem getEntry_createOrUpdateEntry (nid tname key : String) (e : Entry)
    (tname' nid' key' : String) :
    (s.createOrUpdateEntry nid tname key e).getEntry tname' nid' key' =
      if entryPath tname' nid' key' = entryPath tname nid key then some e
      else s.getEntry tname' nid' key' := by
  simp [getEntry, createOrUpdateEntry, Indexes.entries, Indexes.createOrUpdateEntry]

@[simp] theorem tableClock_createOrUpdateEntry (nid tname key : String) (e : Entry) :
    (s.createOrUpdateEntry nid tname key e).tableClock = s.tableClock := rfl

/-- `deleteEntry`: remove the entry from both indexes. -/
def deleteEntry (nid tname key : String) : NetworkDB :=
  { s with indexes := s.indexes.deleteEntry nid tname key }

/-- `deleteNodeNetworkEntries`: the walk of the tree by network under `/nid`,
which marks the entries `node` owns for deletion and, when `node` is this
node, drops those of the other nodes. -/
def deleteNodeNetworkEntries (nid node : String) : NetworkDB :=
  { s with indexes := s.indexes.deleteNodeNetworkEntries s.config nid node }

theorem indexes_deleteNodeNetworkEntries (nid node : String) :
    (s.deleteNodeNetworkEntries nid node).indexes = s.indexes.deleteNodeNetworkEntries s.config nid node :=
  rfl

@[simp] theorem networkNodes_deleteNodeNetworkEntries (nid node : String) :
    (s.deleteNodeNetworkEntries nid node).networkNodes = s.networkNodes := rfl

@[simp] theorem config_deleteNodeNetworkEntries (nid node : String) :
    (s.deleteNodeNetworkEntries nid node).config = s.config := rfl

@[simp] theorem networks_deleteNodeNetworkEntries (nid node : String) :
    (s.deleteNodeNetworkEntries nid node).networks = s.networks := rfl

/-- `deleteNodeTableEntries`: the walk of the whole tree by table, which drops
the entries `node` owns. -/
def deleteNodeTableEntries (node : String) : NetworkDB :=
  { s with indexes := s.indexes.deleteNodeTableEntries node }

theorem indexes_deleteNodeTableEntries (node : String) :
    (s.deleteNodeTableEntries node).indexes = s.indexes.deleteNodeTableEntries node := rfl

/-! ## Members of networks -/

/-- `networks[node][nid]`: the attachment of `node` to `nid`. -/
def attachment (node nid : String) : Option Network :=
  (s.networks node).bind fun nodeNetworks => nodeNetworks nid

/-- Write the attachment of `node` to `nid`. -/
def setNetwork (node nid : String) (n : Network) : NetworkDB :=
  let nodeNetworks := (s.networks node).getD fun _ => none
  { s with networks :=
      Function.update s.networks node (some (Function.update nodeNetworks nid (some n))) }

@[simp] theorem attachment_setNetwork (node nid : String) (n : Network) (node' nid' : String) :
    (s.setNetwork node nid n).attachment node' nid' =
      if node' = node ∧ nid' = nid then some n else s.attachment node' nid' := by
  unfold setNetwork attachment
  by_cases hnode : node' = node
  · subst hnode
    by_cases hnid : nid' = nid
    · simp [hnid]
    · cases s.networks node' <;> simp [hnid]
  · simp [hnode]

@[simp] theorem attachment_deleteNodeNetworkEntries (nid node : String) :
    (s.deleteNodeNetworkEntries nid node).attachment = s.attachment := rfl

@[simp] theorem attachment_createOrUpdateEntry (nid tname key : String) (e : Entry) :
    (s.createOrUpdateEntry nid tname key e).attachment = s.attachment := rfl

variable {s} in
theorem isSome_networks_of_attachment {node nid : String} {n : Network}
    (h : s.attachment node nid = some n) : (s.networks node).isSome := by
  cases hm : s.networks node with
  | none => simp [attachment, hm] at h
  | some _ => rfl

/-- `nDB.networks[node]`, made as an empty map when the node has none. -/
def ensureNodeNetworks (node : String) : NetworkDB :=
  { s with networks :=
      Function.update s.networks node (some ((s.networks node).getD fun _ => none)) }

@[simp] theorem attachment_ensureNodeNetworks (node : String) :
    (s.ensureNodeNetworks node).attachment = s.attachment := by
  funext node' nid
  unfold ensureNodeNetworks attachment
  by_cases hnode : node' = node
  · subst hnode
    cases s.networks node' <;> simp
  · simp [hnode]

variable {s} in
theorem ensureNodeNetworks_of_isSome {node : String} (h : (s.networks node).isSome) :
    s.ensureNodeNetworks node = s := by
  obtain ⟨m, hm⟩ := Option.isSome_iff_exists.mp h
  unfold ensureNodeNetworks
  rw [hm, Option.getD_some, ← hm, Function.update_eq_self]

@[simp] theorem isSome_networks_ensureNodeNetworks (node : String) :
    ((s.ensureNodeNetworks node).networks node).isSome := by
  simp [ensureNodeNetworks]

@[simp] theorem networkClock_ensureNodeNetworks (node : String) :
    (s.ensureNodeNetworks node).networkClock = s.networkClock := rfl

@[simp] theorem networkNodes_ensureNodeNetworks (node : String) :
    (s.ensureNodeNetworks node).networkNodes = s.networkNodes := rfl

@[simp] theorem config_ensureNodeNetworks (node : String) :
    (s.ensureNodeNetworks node).config = s.config := rfl

@[simp] theorem nodes_ensureNodeNetworks (node : String) :
    (s.ensureNodeNetworks node).nodes = s.nodes := rfl

@[simp] theorem networkNodes_setNetwork (node nid : String) (n : Network) :
    (s.setNetwork node nid n).networkNodes = s.networkNodes := rfl

@[simp] theorem config_setNetwork (node nid : String) (n : Network) :
    (s.setNetwork node nid n).config = s.config := rfl

@[simp] theorem nodes_setNetwork (node nid : String) (n : Network) :
    (s.setNetwork node nid n).nodes = s.nodes := rfl

@[simp] theorem networkClock_setNetwork (node nid : String) (n : Network) :
    (s.setNetwork node nid n).networkClock = s.networkClock := rfl

@[simp] theorem isSome_networks_setNetwork (node nid : String) (n : Network) :
    ((s.setNetwork node nid n).networks node).isSome := by
  simp [setNetwork]

/-- `addNetworkNode`: append `nodeName` unless it is listed. -/
def addNetworkNode (nid nodeName : String) : NetworkDB :=
  let nodes := s.networkNodes nid
  { s with
    networkNodes :=
      Function.update s.networkNodes nid
        (if nodes.contains nodeName then nodes else nodes ++ [nodeName]) }

@[simp] theorem mem_networkNodes_addNetworkNode (nid nodeName x nid' : String) :
    x ∈ (s.addNetworkNode nid nodeName).networkNodes nid' ↔
      x ∈ s.networkNodes nid' ∨ (nid' = nid ∧ x = nodeName) := by
  unfold addNetworkNode
  by_cases hnid : nid' = nid
  · subst hnid
    by_cases hmem : nodeName ∈ s.networkNodes nid'
    · simp only [Function.update_self, List.contains_iff_mem, hmem, if_true, true_and]
      constructor
      · exact .inl
      · rintro (h | rfl) <;> assumption
    · simp [hmem]
  · simp [hnid]

@[simp] theorem attachment_addNetworkNode (nid nodeName : String) :
    (s.addNetworkNode nid nodeName).attachment = s.attachment := rfl

@[simp] theorem config_addNetworkNode (nid nodeName : String) :
    (s.addNetworkNode nid nodeName).config = s.config := rfl

@[simp] theorem networks_addNetworkNode (nid nodeName : String) :
    (s.addNetworkNode nid nodeName).networks = s.networks := rfl

/-- `deleteNetworkNode`: remove `nodeName` from the list of `nid`. -/
def deleteNetworkNode (nid nodeName : String) : NetworkDB :=
  let nodes := s.networkNodes nid
  { s with
    networkNodes :=
      Function.update s.networkNodes nid
        (if nodes.isEmpty then nodes else nodes.filter (· != nodeName)) }

@[simp] theorem mem_networkNodes_deleteNetworkNode (nid nodeName x nid' : String) :
    x ∈ (s.deleteNetworkNode nid nodeName).networkNodes nid' ↔
      x ∈ s.networkNodes nid' ∧ ¬(nid' = nid ∧ x = nodeName) := by
  unfold deleteNetworkNode
  by_cases hnid : nid' = nid
  · subst hnid
    by_cases hempty : s.networkNodes nid' = [] <;> simp [hempty]
  · simp [hnid]

@[simp] theorem attachment_deleteNetworkNode (nid nodeName : String) :
    (s.deleteNetworkNode nid nodeName).attachment = s.attachment := rfl

@[simp] theorem config_deleteNetworkNode (nid nodeName : String) :
    (s.deleteNetworkNode nid nodeName).config = s.config := rfl

@[simp] theorem networks_deleteNetworkNode (nid nodeName : String) :
    (s.deleteNetworkNode nid nodeName).networks = s.networks := rfl

/-- `deleteNodeFromNetworks`: forget `deletedNode` in every list and all its
attachments. -/
def deleteNodeFromNetworks (deletedNode : String) : NetworkDB :=
  { s with
    networkNodes := fun nid => (s.networkNodes nid).filter fun node => node != deletedNode
    networks := Function.update s.networks deletedNode none }

@[simp] theorem mem_networkNodes_deleteNodeFromNetworks (deletedNode x nid : String) :
    x ∈ (s.deleteNodeFromNetworks deletedNode).networkNodes nid ↔
      x ∈ s.networkNodes nid ∧ x ≠ deletedNode := by
  simp [deleteNodeFromNetworks]

@[simp] theorem config_deleteNodeFromNetworks (deletedNode : String) :
    (s.deleteNodeFromNetworks deletedNode).config = s.config := rfl

@[simp] theorem attachment_deleteNodeFromNetworks (deletedNode node nid : String) :
    (s.deleteNodeFromNetworks deletedNode).attachment node nid =
      if node = deletedNode then none else s.attachment node nid := by
  by_cases h : node = deletedNode <;> simp [deleteNodeFromNetworks, attachment, h]

/-! ## Cluster members -/

/-- `nodeState`, without `nodeNotFound`. -/
inductive NodeState
  | active
  | left
  | failed
  deriving DecidableEq, Repr

/-- The map of members in a state. -/
def nodeMap : NodeState → String → Option Node
  | .active => s.nodes
  | .left => s.leftNodes
  | .failed => s.failedNodes

/-- Write the map of members in a state. -/
def setNodeMap : NodeState → (String → Option Node) → NetworkDB
  | .active, m => { s with nodes := m }
  | .left, m => { s with leftNodes := m }
  | .failed, m => { s with failedNodes := m }

@[simp] theorem nodeMap_setNodeMap (st : NodeState) (m : String → Option Node) (st' : NodeState) :
    (s.setNodeMap st m).nodeMap st' = if st' = st then m else s.nodeMap st' := by
  cases st <;> cases st' <;> rfl

@[simp] theorem nodeMap_setNodeMap_update_self (st : NodeState) (name : String)
    (v : Option Node) :
    (s.setNodeMap st (Function.update (s.nodeMap st) name v)).nodeMap st name = v := by
  simp

@[simp] theorem networkClock_setNodeMap (st : NodeState) (m : String → Option Node) :
    (s.setNodeMap st m).networkClock = s.networkClock := by
  cases st <;> rfl

@[simp] theorem nodes_setNodeMap (st : NodeState) (m : String → Option Node) :
    (s.setNodeMap st m).nodes = if st = .active then m else s.nodes := by
  cases st <;> rfl

@[simp] theorem attachment_setNodeMap (st : NodeState) (m : String → Option Node) :
    (s.setNodeMap st m).attachment = s.attachment := by
  cases st <;> rfl

@[simp] theorem config_setNodeMap (st : NodeState) (m : String → Option Node) :
    (s.setNodeMap st m).config = s.config := by
  cases st <;> rfl

@[simp] theorem networks_setNodeMap (st : NodeState) (m : String → Option Node) :
    (s.setNodeMap st m).networks = s.networks := by
  cases st <;> rfl

@[simp] theorem networkNodes_setNodeMap (st : NodeState) (m : String → Option Node) :
    (s.setNodeMap st m).networkNodes = s.networkNodes := by
  cases st <;> rfl

@[simp] theorem nodeMap_addNetworkNode (nid nodeName : String) (st : NodeState) :
    (s.addNetworkNode nid nodeName).nodeMap st = s.nodeMap st := by
  cases st <;> rfl

@[simp] theorem nodeMap_deleteNetworkNode (nid nodeName : String) (st : NodeState) :
    (s.deleteNetworkNode nid nodeName).nodeMap st = s.nodeMap st := by
  cases st <;> rfl

@[simp] theorem nodeMap_ensureNodeNetworks (node : String) (st : NodeState) :
    (s.ensureNodeNetworks node).nodeMap st = s.nodeMap st := by
  cases st <;> rfl

@[simp] theorem nodeMap_setNetwork (node nid : String) (n : Network) (st : NodeState) :
    (s.setNetwork node nid n).nodeMap st = s.nodeMap st := by
  cases st <;> rfl

@[simp] theorem nodeMap_deleteNodeNetworkEntries (nid node : String) (st : NodeState) :
    (s.deleteNodeNetworkEntries nid node).nodeMap st = s.nodeMap st := by
  cases st <;> rfl

@[simp] theorem nodeMap_deleteNodeTableEntries (node : String) (st : NodeState) :
    (s.deleteNodeTableEntries node).nodeMap st = s.nodeMap st := by
  cases st <;> rfl

@[simp] theorem nodeMap_deleteNodeFromNetworks (deletedNode : String) (st : NodeState) :
    (s.deleteNodeFromNetworks deletedNode).nodeMap st = s.nodeMap st := by
  cases st <;> rfl

/-- `findNode`: the member and its state, looked up among the active, the
left and the failed members in turn. -/
def findNode (nodeName : String) : Option (Node × NodeState) :=
  match s.nodes nodeName with
  | some n => some (n, .active)
  | none =>
      match s.leftNodes nodeName with
      | some n => some (n, .left)
      | none => (s.failedNodes nodeName).map fun n => (n, .failed)

theorem nodeMap_of_findNode {nodeName : String} {n : Node} {st : NodeState}
    (h : s.findNode nodeName = some (n, st)) : s.nodeMap st nodeName = some n := by
  unfold findNode at h
  split at h
  · cases h
    assumption
  · split at h
    · cases h
      assumption
    · cases hf : s.failedNodes nodeName <;> simp [hf] at h
      obtain ⟨rfl, rfl⟩ := h
      exact hf

theorem nodeMap_eq_none_of_findNode {nodeName : String} (h : s.findNode nodeName = none)
    (st : NodeState) : s.nodeMap st nodeName = none := by
  unfold findNode at h
  split at h
  · cases h
  · split at h
    · cases h
    · cases hf : s.failedNodes nodeName <;> simp [hf] at h
      cases st <;> assumption

/-- `changeNodeState`: move a member to `newState`; whether it moved, or the
text of the error for a member that is not known.  A member that leaves or
fails loses its attachments and its entries. -/
def changeNodeState (nodeName : String) (newState : NodeState) :
    NetworkDB × Except String Bool :=
  match s.findNode nodeName with
  | none => (s, .error ("node " ++ nodeName ++ " not found"))
  | some (n, currState) =>
      if currState = newState then (s, .ok false)
      else
        let s := s.setNodeMap currState (Function.update (s.nodeMap currState) nodeName none)
        match newState with
        | .active =>
            (s.setNodeMap .active
              (Function.update s.nodes nodeName (some { n with reapTime := 0 })), .ok true)
        | newState =>
            let n := if n.reapTime = 0 then { n with reapTime := nodeReapInterval } else n
            let s := s.setNodeMap newState
              (Function.update (s.nodeMap newState) nodeName (some n))
            ((s.deleteNodeFromNetworks n.Name).deleteNodeTableEntries n.Name, .ok true)

theorem nodeMap_changeNodeState_of_ne {nodeName name : String} (hne : name ≠ nodeName)
    (newState st : NodeState) :
    (s.changeNodeState nodeName newState).1.nodeMap st name = s.nodeMap st name := by
  unfold changeNodeState
  split
  · rfl
  · split
    · rfl
    · -- each map is the old one, updated at `nodeName` only
      split <;> simp only [nodeMap_deleteNodeTableEntries, nodeMap_deleteNodeFromNetworks,
        nodeMap_setNodeMap, nodes_setNodeMap, ite_apply, Function.update_apply, if_neg hne] <;>
        repeat' split
      all_goals subst_vars; rfl

theorem networkClock_of_changeNodeState {nodeName : String} {newState : NodeState}
    {s' : NetworkDB} {r : Except String Bool} (h : s.changeNodeState nodeName newState = (s', r)) :
    s'.networkClock = s.networkClock := by
  have hc : (s.changeNodeState nodeName newState).1.networkClock = s.networkClock := by
    unfold changeNodeState
    split
    · rfl
    · split
      · rfl
      · split <;> simp [deleteNodeTableEntries, deleteNodeFromNetworks]
  rw [h] at hc
  exact hc

/-- `changeNodeState` keeps the member it moves, at its Lamport time, in
one of the maps. -/
theorem changeNodeState_keeps_member {nodeName : String} {n : Node} {cur : NodeState}
    (hf : s.findNode nodeName = some (n, cur)) (newState : NodeState) :
    ∃ st m, (s.changeNodeState nodeName newState).1.nodeMap st nodeName = some m ∧
      m.ltime = n.ltime := by
  by_cases hcur : cur = newState
  · subst hcur
    exact ⟨cur, n, by simpa [changeNodeState, hf] using s.nodeMap_of_findNode hf, rfl⟩
  · -- the member lands in the map of `newState`
    refine ⟨newState, ?_⟩
    cases newState <;> simp [changeNodeState, hf, hcur] <;> split <;> simp

/-- When `changeNodeState` does not move the member, the state stays, and
the member is unknown or in `newState` already. -/
theorem changeNodeState_of_not_moved {nodeName : String} {newState : NodeState}
    (h : (s.changeNodeState nodeName newState).2 ≠ .ok true) :
    (s.changeNodeState nodeName newState).1 = s ∧
      (s.findNode nodeName = none ∨ ∃ n, s.findNode nodeName = some (n, newState)) := by
  cases hf : s.findNode nodeName with
  | none => simp [changeNodeState, hf]
  | some p =>
      obtain ⟨n, cur⟩ := p
      by_cases hcur : cur = newState
      · subst hcur
        simp [changeNodeState, hf]
      · cases newState <;> simp [changeNodeState, hf, hcur] at h

/-- A member that `mn` is a new incarnation of: the same address and port
under another name. -/
def reincarnates (mn : MemberNode) (name : String) (n : Node) : Bool :=
  n.Addr == mn.Addr && n.Port == mn.Port && mn.Name != name

/-- The members `purgeReincarnation` can move out: its loops run over the
active, the failed and the left members in turn, each in the order Go's map
iteration picks, and stop at the first reincarnation they meet. -/
inductive PurgeVictim (mn : MemberNode) : Option String → Prop
  | none (h : ∀ st name n, s.nodeMap st name = some n → reincarnates mn name n = false) :
      PurgeVictim mn none
  | active {name : String} {n : Node} (h : s.nodes name = some n)
      (hr : reincarnates mn name n = true) : PurgeVictim mn (some name)
  | failed {name : String} {n : Node}
      (hno : ∀ name n, s.nodes name = some n → reincarnates mn name n = false)
      (h : s.failedNodes name = some n) (hr : reincarnates mn name n = true) :
      PurgeVictim mn (some name)
  | left {name : String} {n : Node}
      (hno : ∀ name n, s.nodes name = some n → reincarnates mn name n = false)
      (hno' : ∀ name n, s.failedNodes name = some n → reincarnates mn name n = false)
      (h : s.leftNodes name = some n) (hr : reincarnates mn name n = true) :
      PurgeVictim mn (some name)

/-- `purgeReincarnation`, at the member its loops stop at. -/
def purgeReincarnation : Option String → NetworkDB × Bool
  | none => (s, false)
  | some name => ((s.changeNodeState name .left).1, true)

theorem PurgeVictim.ne {mn : MemberNode} {name : String} (h : s.PurgeVictim mn (some name)) :
    name ≠ mn.Name := by
  have hr : ∃ n, reincarnates mn name n = true := by
    cases h with
    | active _ hr => exact ⟨_, hr⟩
    | failed _ _ hr => exact ⟨_, hr⟩
    | left _ _ _ hr => exact ⟨_, hr⟩
  obtain ⟨n, hr⟩ := hr
  simp only [reincarnates, Bool.and_eq_true, bne_iff_ne] at hr
  exact Ne.symm hr.2

theorem nodeMap_purgeReincarnation_of_ne {victim : Option String} {name : String}
    (hne : ∀ v, victim = some v → v ≠ name) (st : NodeState) :
    (s.purgeReincarnation victim).1.nodeMap st name = s.nodeMap st name := by
  cases victim with
  | none => rfl
  | some v => exact s.nodeMap_changeNodeState_of_ne (Ne.symm (hne v rfl)) .left st

end NetworkDB

end Libnetwork.NetworkDb
