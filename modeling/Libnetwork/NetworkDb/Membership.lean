import Libnetwork.NetworkDb.Handlers
import Libnetwork.Support.Transition

/-!
# Membership stays consistent

A NetworkDB keeps two views of who takes part in what: the three maps of
cluster members (active, left, failed) with every node's attachments to
networks, and the list of nodes of each network.  In every state reachable
from `New`, whatever the order of gossip, notifications, local calls and
reapers:

* a member is in at most one of the three maps, under its own name;
* a remote node is in the list of a network exactly when it is attached to
  it and not leaving;
* a remote node is attached to a network only while it is an active member.

So the owner check of `handleTableEvent` only lets through events of active
members.  The invariant is carried by each call separately: handlers that
only touch entries and clocks, or only this node's own attachments, leave
it as it is; the rest move members through `changeNodeState`, attach
through `setNetwork` with the matching list update, or reap.
-/

namespace Libnetwork.NetworkDb

namespace NetworkDB

/-- A member is in one of the three maps, under its own name; a remote node
is listed in a network exactly when it is attached and not leaving; and a
remote node attached to a network is an active member. -/
structure MembersConsistent (s : NetworkDB) : Prop where
  unique : ∀ name st st', (s.nodeMap st name).isSome → (s.nodeMap st' name).isSome → st = st'
  named : ∀ st name n, s.nodeMap st name = some n → n.Name = name
  listed : ∀ node nid, node ≠ s.config.NodeID →
    (node ∈ s.networkNodes nid ↔ ∃ n, s.attachment node nid = some n ∧ n.leaving = false)
  attachedActive : ∀ node nid n, node ≠ s.config.NodeID → s.attachment node nid = some n →
    (s.nodeMap .active node).isSome

theorem membersConsistent_New (NodeID : String) (reapEntryInterval : Int) :
    MembersConsistent (NetworkDB.New NodeID reapEntryInterval) where
  unique name st st' h := by cases st <;> simp [nodeMap, NetworkDB.New] at h
  named st name n h := by cases st <;> simp [nodeMap, NetworkDB.New] at h
  listed node nid _ := by simp [NetworkDB.New, attachment]
  attachedActive node nid n _ h := by simp [NetworkDB.New, attachment] at h

variable {s s' : NetworkDB}

/-- A change that leaves the members, the attachments and the lists of
remote nodes as they were keeps the invariant. -/
theorem MembersConsistent.of_remote_eq (h : MembersConsistent s)
    (hc : s'.config.NodeID = s.config.NodeID) (hnodes : s'.nodes = s.nodes)
    (hleft : s'.leftNodes = s.leftNodes) (hfailed : s'.failedNodes = s.failedNodes)
    (hatt : ∀ node nid, node ≠ s.config.NodeID →
      s'.attachment node nid = s.attachment node nid)
    (hlist : ∀ node nid, node ≠ s.config.NodeID →
      (node ∈ s'.networkNodes nid ↔ node ∈ s.networkNodes nid)) :
    MembersConsistent s' := by
  have hmap : ∀ st, s'.nodeMap st = s.nodeMap st := by
    intro st
    cases st
    · exact hnodes
    · exact hleft
    · exact hfailed
  refine ⟨?_, ?_, ?_, ?_⟩
  · simpa only [hmap] using h.unique
  · simpa only [hmap] using h.named
  · intro node nid hnode
    rw [hc] at hnode
    rw [hlist node nid hnode, hatt node nid hnode]
    exact h.listed node nid hnode
  · intro node nid n hnode hn
    rw [hc] at hnode
    rw [hatt node nid hnode] at hn
    rw [hmap]
    exact h.attachedActive node nid n hnode hn

theorem MembersConsistent.nodeMap_eq_none (h : MembersConsistent s) {name : String} {n : Node}
    {cur st : NodeState} (hn : s.nodeMap cur name = some n) (hst : st ≠ cur) :
    s.nodeMap st name = none := by
  cases hm : s.nodeMap st name with
  | none => rfl
  | some m => exact absurd (h.unique name st cur (by simp [hm]) (by simp [hn])) hst

/-- The member maps after `name` left `cur` for `new`, as `n'`, keep members
unique and named. -/
theorem MembersConsistent.nodeMaps_move (h : MembersConsistent s) {name : String} {n' : Node}
    {new : NodeState} (hname : n'.Name = name)
    (hs' : ∀ st name', s'.nodeMap st name' =
      if name' = name then (if st = new then some n' else none) else s.nodeMap st name') :
    (∀ name st st', (s'.nodeMap st name).isSome → (s'.nodeMap st' name).isSome → st = st') ∧
      ∀ st name m, s'.nodeMap st name = some m → m.Name = name := by
  constructor
  · intro name' st st' h1 h2
    rw [hs'] at h1 h2
    by_cases hname' : name' = name
    · simp only [hname', if_true] at h1 h2
      split at h1 <;> split at h2 <;> simp_all
    · simp only [hname', if_false] at h1 h2
      exact h.unique name' st st' h1 h2
  · intro st name' m hm
    rw [hs'] at hm
    by_cases hname' : name' = name
    · simp only [hname', if_true] at hm
      split at hm
      · cases hm
        rw [hname']
        exact hname
      · cases hm
    · simp only [hname', if_false] at hm
      exact h.named st name' m hm

theorem MembersConsistent.findNode_eq (h : MembersConsistent s) {name : String} {n : Node}
    {st : NodeState} (hn : s.nodeMap st name = some n) : s.findNode name = some (n, st) := by
  cases st
  case active =>
    simp only [findNode]
    rw [show s.nodes name = some n from hn]
  case left =>
    have hact : s.nodes name = none := h.nodeMap_eq_none hn (by decide : NodeState.active ≠ .left)
    simp only [findNode, hact]
    rw [show s.leftNodes name = some n from hn]
  case failed =>
    have hact : s.nodes name = none :=
      h.nodeMap_eq_none hn (by decide : NodeState.active ≠ .failed)
    have hleft : s.leftNodes name = none :=
      h.nodeMap_eq_none hn (by decide : NodeState.left ≠ .failed)
    simp only [findNode, hact, hleft]
    rw [show s.failedNodes name = some n from hn]
    rfl

/-- A member that becomes active, as `n'`: the attachments and lists stay,
and the active map only grows. -/
theorem MembersConsistent.activate (h : MembersConsistent s) {name : String} {n' : Node}
    (hname : n'.Name = name)
    (hs' : ∀ st name', s'.nodeMap st name' =
      if name' = name then (if st = .active then some n' else none) else s.nodeMap st name')
    (hc : s'.config = s.config) (hatt : s'.attachment = s.attachment)
    (hlist : s'.networkNodes = s.networkNodes) :
    MembersConsistent s' := by
  obtain ⟨hunique, hnamed⟩ := h.nodeMaps_move hname hs'
  refine ⟨hunique, hnamed, ?_, ?_⟩
  · rw [hc, hatt, hlist]
    exact h.listed
  · intro node nid n hnode hn
    rw [hc] at hnode
    rw [hatt] at hn
    rw [hs' .active node]
    split
    · rfl
    · exact h.attachedActive node nid n hnode hn

/-- A member that leaves or fails, as `n'`, and then loses every attachment
and every place in a list. -/
theorem MembersConsistent.deactivate (h : MembersConsistent s) {name : String} {n' : Node}
    {new : NodeState} (hname : n'.Name = name)
    (hs' : ∀ st name', s'.nodeMap st name' =
      if name' = name then (if st = new then some n' else none) else s.nodeMap st name')
    (hc : s'.config = s.config) (hatt : s'.attachment = s.attachment)
    (hlist : s'.networkNodes = s.networkNodes) :
    MembersConsistent (s'.deleteNodeFromNetworks name) := by
  obtain ⟨hunique, hnamed⟩ := h.nodeMaps_move hname hs'
  refine ⟨?_, ?_, ?_, ?_⟩
  · simpa only [nodeMap_deleteNodeFromNetworks] using hunique
  · simpa only [nodeMap_deleteNodeFromNetworks] using hnamed
  · intro node nid hnode
    simp only [config_deleteNodeFromNetworks, hc] at hnode
    simp only [mem_networkNodes_deleteNodeFromNetworks, attachment_deleteNodeFromNetworks, hatt,
      hlist]
    by_cases hname' : node = name
    · simp [hname']
    · simp only [hname', if_false, ne_eq, not_false_eq_true, and_true]
      exact h.listed node nid hnode
  · intro node nid n hnode hn
    simp only [config_deleteNodeFromNetworks, hc] at hnode
    simp only [attachment_deleteNodeFromNetworks, hatt] at hn
    by_cases hname' : node = name
    · simp [hname'] at hn
    · simp only [hname', if_false] at hn
      rw [nodeMap_deleteNodeFromNetworks, hs' .active node]
      simp only [hname', if_false]
      exact h.attachedActive node nid n hnode hn

theorem MembersConsistent.nodeMap_move (h : MembersConsistent s) {name : String} {n n' : Node}
    {cur new : NodeState} (hn : s.nodeMap cur name = some n) (st : NodeState) (name' : String) :
    ((s.setNodeMap cur (Function.update (s.nodeMap cur) name none)).setNodeMap new
        (Function.update
          ((s.setNodeMap cur (Function.update (s.nodeMap cur) name none)).nodeMap new)
          name (some n'))).nodeMap st name' =
      if name' = name then (if st = new then some n' else none) else s.nodeMap st name' := by
  simp only [nodeMap_setNodeMap]
  by_cases hname' : name' = name
  · subst hname'
    by_cases hst : st = new
    · subst hst
      simp
    · by_cases hsc : st = cur
      · subst hsc
        simp [hst]
      · simp [hst, hsc, h.nodeMap_eq_none hn hsc]
  · by_cases hst : st = new
    · subst hst
      by_cases hsc : st = cur
      · subst hsc
        simp [hname']
      · simp [hname', hsc]
    · by_cases hsc : st = cur
      · subst hsc
        simp [hname', hst]
      · simp [hst, hsc, hname']

theorem MembersConsistent.changeNodeState (h : MembersConsistent s) (name : String)
    (newState : NodeState) : MembersConsistent (s.changeNodeState name newState).1 := by
  cases hfind : s.findNode name with
  | none =>
      simp only [NetworkDB.changeNodeState, hfind]
      exact h
  | some p =>
      obtain ⟨n, cur⟩ := p
      have hn := s.nodeMap_of_findNode hfind
      have hname : n.Name = name := h.named cur name n hn
      by_cases hcur : cur = newState
      · simp only [NetworkDB.changeNodeState, hfind, hcur, if_true]
        exact h
      simp only [NetworkDB.changeNodeState, hfind, hcur, if_false]
      cases newState
      case active =>
        have hname' : ({ n with reapTime := 0 } : Node).Name = name := hname
        exact h.activate hname' (h.nodeMap_move hn) (by simp) (by simp) (by simp)
      all_goals
        have hname' : (if n.reapTime = 0 then { n with reapTime := nodeReapInterval }
            else n).Name = name := by
          split <;> exact hname
        rw [hname']
        -- the node table entries go as well, which the invariant does not see
        exact (h.deactivate hname' (h.nodeMap_move hn) (by simp) (by simp) (by simp)).of_remote_eq
          rfl rfl rfl rfl (fun _ _ _ => rfl) (fun _ _ _ => Iff.rfl)

theorem MembersConsistent.of_changeNodeState (h : MembersConsistent s) {name : String}
    {newState : NodeState} {r : Except String Bool}
    (heq : s.changeNodeState name newState = (s', r)) : MembersConsistent s' := by
  have h' := h.changeNodeState name newState
  rw [heq] at h'
  exact h'

theorem MembersConsistent.setNode (h : MembersConsistent s) {st : NodeState} {name : String}
    {n n' : Node} (hn : s.nodeMap st name = some n) (hname : n'.Name = n.Name) :
    MembersConsistent (s.setNodeMap st (Function.update (s.nodeMap st) name (some n'))) := by
  have hname' : n'.Name = name := hname.trans (h.named st name n hn)
  have hs' : ∀ st' name',
      (s.setNodeMap st (Function.update (s.nodeMap st) name (some n'))).nodeMap st' name' =
        if name' = name then (if st' = st then some n' else none) else s.nodeMap st' name' := by
    intro st' name'
    by_cases hst : st' = st
    · subst hst
      by_cases hname'' : name' = name <;> simp [hname'']
    · by_cases hname'' : name' = name
      · subst hname''
        simp [hst, h.nodeMap_eq_none hn hst]
      · simp [hst, hname'']
  obtain ⟨hunique, hnamed⟩ := h.nodeMaps_move hname' hs'
  refine ⟨hunique, hnamed, ?_, ?_⟩
  · simpa using h.listed
  · intro node nid m hnode hm
    simp only [config_setNodeMap, attachment_setNodeMap] at hnode hm
    have hact := h.attachedActive node nid m hnode hm
    rw [hs' .active node]
    by_cases hname'' : node = name
    · subst hname''
      have hst : st = .active := h.unique node st .active (by simp [hn]) hact
      simp [hst]
    · simpa [hname''] using hact

theorem MembersConsistent.handleNodeEvent (h : MembersConsistent s) (nEvent : NodeEvent) :
    MembersConsistent (s.handleNodeEvent nEvent).1 := by
  have h₁ : MembersConsistent { s with networkClock := s.networkClock.Witness nEvent.LTime } :=
    h.of_remote_eq rfl rfl rfl rfl (fun _ _ _ => rfl) (fun _ _ _ => Iff.rfl)
  dsimp only [NetworkDB.handleNodeEvent]
  split
  · exact h₁
  · rename_i n st hfind
    split
    · exact h₁
    have hname : ({ n with ltime := nEvent.LTime } : Node).Name = n.Name := rfl
    have h₂ := h₁.setNode (nodeMap_of_findNode _ hfind) hname
    split
    · exact h₂
    split
    · split <;> exact h₂.of_changeNodeState ‹_›
    · split <;> exact h₂.of_changeNodeState ‹_›
    · exact h₂

/-- Writing one attachment of an active member, with the network's list
following the new attachment. -/
theorem MembersConsistent.attach (h : MembersConsistent s) (node nid : String) (n : Network)
    (hactive : (s.nodeMap .active node).isSome) (hc : s'.config = s.config)
    (hmap : ∀ st, s'.nodeMap st = s.nodeMap st)
    (hatt : ∀ node' nid', s'.attachment node' nid' =
      if node' = node ∧ nid' = nid then some n else s.attachment node' nid')
    (hlist : ∀ node' nid', node' ∈ s'.networkNodes nid' ↔
      if node' = node ∧ nid' = nid then n.leaving = false else node' ∈ s.networkNodes nid') :
    MembersConsistent s' := by
  refine ⟨?_, ?_, ?_, ?_⟩
  · simpa only [hmap] using h.unique
  · simpa only [hmap] using h.named
  · intro node' nid' hnode'
    rw [hc] at hnode'
    rw [hlist, hatt]
    split
    · simp
    · exact h.listed node' nid' hnode'
  · intro node' nid' m hnode' hm
    rw [hc] at hnode'
    rw [hatt] at hm
    rw [hmap]
    split at hm
    · rename_i hkey
      rw [hkey.1]
      exact hactive
    · exact h.attachedActive node' nid' m hnode' hm

theorem MembersConsistent.ensureNodeNetworks (h : MembersConsistent s) (node : String) :
    MembersConsistent (s.ensureNodeNetworks node) :=
  h.of_remote_eq rfl rfl rfl rfl (fun _ _ _ => by simp) (fun _ _ _ => Iff.rfl)

/-- `handleNetworkEvent` keeps the invariant: it attaches only nodes that are
attached already or active members, and moves the list with the attachment. -/
theorem MembersConsistent.handleNetworkEvent (h : MembersConsistent s) (nEvent : NetworkEvent) :
    MembersConsistent (s.handleNetworkEvent nEvent).1 := by
  have h₁ : MembersConsistent { s with networkClock := s.networkClock.Witness nEvent.LTime } :=
    h.of_remote_eq rfl rfl rfl rfl (fun _ _ _ => rfl) (fun _ _ _ => Iff.rfl)
  rcases s.handleNetworkEvent_cases nEvent with heq | heq | ⟨hne, n, heq, hleaving, hknown⟩
  · rw [heq]
    exact h₁
  · rw [heq]
    exact h₁.ensureNodeNetworks _
  have hactive : (s.nodeMap .active nEvent.NodeName).isSome := by
    rcases hknown with hatt | hnode
    · obtain ⟨m, hm⟩ := Option.isSome_iff_exists.mp hatt
      exact h.attachedActive _ _ m hne hm
    · exact hnode
  rw [heq]
  -- a leave drops the node from the list, a join adds it: either way the list
  -- follows the new attachment
  split
  all_goals
    rename_i hl
    refine (h₁.ensureNodeNetworks nEvent.NodeName).attach nEvent.NodeName nEvent.NetworkID n
      hactive rfl (by simp) (by simp) ?_
    intro node' nid'
    by_cases hkey : node' = nEvent.NodeName ∧ nid' = nEvent.NetworkID
    · obtain ⟨rfl, rfl⟩ := hkey
      simp [hleaving, hl]
    · have hkey' : ¬(nid' = nEvent.NetworkID ∧ node' = nEvent.NodeName) :=
        fun ⟨h1, h2⟩ => hkey ⟨h2, h1⟩
      simp [hkey, hkey']

theorem MembersConsistent.of_entries (h : MembersConsistent s) (indexes : Indexes)
    (networkClock tableClock : LamportClock) :
    MembersConsistent
      { s with indexes := indexes, networkClock := networkClock, tableClock := tableClock } :=
  h.of_remote_eq rfl rfl rfl rfl (fun _ _ _ => rfl) (fun _ _ _ => Iff.rfl)

theorem MembersConsistent.handleTableEvent (h : MembersConsistent s) (tEvent : TableEvent)
    (isBulkSync : Bool) : MembersConsistent (s.handleTableEvent tEvent isBulkSync).1 := by
  rcases s.handleTableEvent_cases tEvent isBulkSync with heq | heq <;> rw [heq] <;>
    exact h.of_entries _ _ _

theorem MembersConsistent.handleTableMessage (h : MembersConsistent s) (tEvent : TableEvent)
    (isBulkSync : Bool) : MembersConsistent (s.handleTableMessage tEvent isBulkSync) := by
  unfold NetworkDB.handleTableMessage
  split
  · exact h
  · exact h.handleTableEvent tEvent isBulkSync

mutual

/-- Every gossip message keeps the invariant, compound and bulk ones part by
part. -/
theorem MembersConsistent.handleMessage {s : NetworkDB} (h : MembersConsistent s) :
    ∀ (m : Message) (isBulkSync : Bool), MembersConsistent (s.handleMessage m isBulkSync)
  | .nodeEvent e, _ => h.handleNodeEvent e
  | .networkEvent e, _ => h.handleNetworkEvent e
  | .tableEvent e, isBulkSync => h.handleTableMessage e isBulkSync
  | .bulkSync ltime payload, _ => by
      have h' : MembersConsistent
          (if ltime > 0 then { s with tableClock := s.tableClock.Witness ltime } else s) := by
        split
        · exact h.of_entries _ _ _
        · exact h
      exact h'.handleMessage payload true
  | .compound parts, isBulkSync => h.handleCompound parts isBulkSync

theorem MembersConsistent.handleCompound {s : NetworkDB} (h : MembersConsistent s) :
    ∀ (parts : List Message) (isBulkSync : Bool),
      MembersConsistent (s.handleCompound parts isBulkSync)
  | [], _ => h
  | part :: parts, isBulkSync => (h.handleMessage part isBulkSync).handleCompound parts isBulkSync

end

/-- The push/pull state of a remote node: its join, then each of its
attachments as a network event. -/
theorem MembersConsistent.MergeRemoteState (h : MembersConsistent s) (pp : NetworkPushPull) :
    MembersConsistent (s.MergeRemoteState pp) := by
  unfold NetworkDB.MergeRemoteState
  have hfold : ∀ (l : List NetworkEntry) (t : NetworkDB), MembersConsistent t →
      MembersConsistent (l.foldl (fun s n =>
        (s.handleNetworkEvent ⟨if n.Leaving then .leave else .join, n.LTime, n.NodeName,
          n.NetworkID⟩).1) t) := by
    intro l
    induction l with
    | nil => exact fun _ ht => ht
    | cons n l ih => exact fun t ht => ih _ (ht.handleNetworkEvent _)
  exact hfold _ _ (h.handleNodeEvent _)

theorem MembersConsistent.LocalState (h : MembersConsistent s) (join : Bool) :
    MembersConsistent (s.LocalState join) := by
  unfold NetworkDB.LocalState
  split
  · -- only this node's own attachments get a new time
    refine h.of_remote_eq rfl rfl rfl rfl (fun node nid hnode => ?_) (fun _ _ _ => Iff.rfl)
    simp [NetworkDB.updateLocalNetworkTime, attachment, hnode]
  · exact h

theorem MembersConsistent.JoinNetwork (h : MembersConsistent s) (nid : String) :
    MembersConsistent (s.JoinNetwork nid) :=
  h.of_remote_eq rfl rfl rfl rfl
    (fun node nid' hnode => by
      simp only [NetworkDB.JoinNetwork, attachment_addNetworkNode, attachment_setNetwork]
      rw [if_neg fun h => hnode h.1]
      rfl)
    (fun node nid' hnode => by simp [NetworkDB.JoinNetwork, hnode])

theorem MembersConsistent.LeaveNetwork (h : MembersConsistent s) (nid : String) :
    MembersConsistent (s.LeaveNetwork nid).1 := by
  simp only [NetworkDB.LeaveNetwork]
  -- this node leaves its own list first, and the entries change
  have h₁ : MembersConsistent
      (({ s with networkClock := s.networkClock.Increment.1 }.deleteNetworkNode nid
        s.config.NodeID).deleteNodeNetworkEntries nid s.config.NodeID) :=
    h.of_remote_eq rfl rfl rfl rfl (fun _ _ _ => rfl) (fun node nid' hnode => by simp [hnode])
  split
  · exact h₁
  split
  · exact h₁
  · -- and then marks its own attachment leaving
    refine h₁.of_remote_eq rfl rfl rfl rfl (fun node nid' hnode => ?_) (fun _ _ _ => Iff.rfl)
    simp only [config_deleteNodeNetworkEntries, config_deleteNetworkNode] at hnode
    simp [attachment_setNetwork, hnode]

theorem MembersConsistent.CreateEntry (h : MembersConsistent s) (tname nid key : String)
    (value : List UInt8) : MembersConsistent (s.CreateEntry tname nid key value).1 := by
  unfold NetworkDB.CreateEntry
  split
  · exact h
  · exact h.of_entries _ _ _

theorem MembersConsistent.UpdateEntry (h : MembersConsistent s) (tname nid key : String)
    (value : List UInt8) : MembersConsistent (s.UpdateEntry tname nid key value).1 := by
  unfold NetworkDB.UpdateEntry
  split
  · exact h
  · exact h.of_entries _ _ _

theorem MembersConsistent.DeleteEntry (h : MembersConsistent s) (tname nid key : String) :
    MembersConsistent (s.DeleteEntry tname nid key).1 := by
  unfold NetworkDB.DeleteEntry
  split
  · split
    · exact h
    · exact h.of_entries _ _ _
  · exact h

theorem MembersConsistent.reapNetworks (h : MembersConsistent s) :
    MembersConsistent s.reapNetworks := by
  refine ⟨h.unique, h.named, ?_, ?_⟩
  · intro node nid hnode
    rw [attachment_reapNetworks, bind_reapNetwork_live]
    exact h.listed node nid hnode
  · intro node nid m hnode hm
    rw [attachment_reapNetworks] at hm
    obtain ⟨n, hn, -⟩ := Option.bind_eq_some_iff.mp hm
    exact h.attachedActive node nid n hnode hn

theorem MembersConsistent.reapDeadNode (h : MembersConsistent s) :
    MembersConsistent s.reapDeadNode := by
  have hsub : ∀ st name m, s.reapDeadNode.nodeMap st name = some m →
      ∃ n, s.nodeMap st name = some n ∧ m.Name = n.Name := by
    intro st name m hm
    rw [nodeMap_reapDeadNode] at hm
    split at hm
    · exact ⟨m, hm, rfl⟩
    · exact reapNode_eq_some hm
  refine ⟨?_, ?_, h.listed, h.attachedActive⟩
  · intro name st st' h1 h2
    obtain ⟨m, hm⟩ := Option.isSome_iff_exists.mp h1
    obtain ⟨m', hm'⟩ := Option.isSome_iff_exists.mp h2
    obtain ⟨n, hn, -⟩ := hsub st name m hm
    obtain ⟨n', hn', -⟩ := hsub st' name m' hm'
    exact h.unique name st st' (by simp [hn]) (by simp [hn'])
  · intro st name m hm
    obtain ⟨n, hn, hname⟩ := hsub st name m hm
    rw [hname]
    exact h.named st name n hn

theorem MembersConsistent.reapTableEntries (h : MembersConsistent s) (nodeNetworks : List String)
    (timeCompensation : String → String → String → Int) :
    MembersConsistent (s.reapTableEntries nodeNetworks timeCompensation) :=
  h.of_entries _ _ _

theorem MembersConsistent.purgeReincarnation (h : MembersConsistent s) (victim : Option String) :
    MembersConsistent (s.purgeReincarnation victim).1 := by
  cases victim with
  | none => exact h
  | some name => exact h.changeNodeState name .left

/-- A member that joins the cluster: moved back to the active members when
it is known, otherwise added after the purge of its old incarnation. -/
theorem MembersConsistent.NotifyJoin (h : MembersConsistent s) (mn : MemberNode)
    (victim : Option String) (hv : s.PurgeVictim mn victim) :
    MembersConsistent (s.NotifyJoin mn victim) := by
  unfold NetworkDB.NotifyJoin
  split
  · exact h.of_changeNodeState ‹_›
  · rename_i s' r hnot heq
    have hr : (s.changeNodeState mn.Name .active).2 ≠ .ok true := by
      rw [heq]
      exact hnot
    obtain ⟨hs', hfind⟩ := s.changeNodeState_of_not_moved hr
    rw [heq] at hs'
    dsimp only at hs'
    subst s'
    have hnone : ∀ st, st ≠ .active → s.nodeMap st mn.Name = none := by
      intro st hst
      rcases hfind with hf | ⟨n, hf⟩
      · exact s.nodeMap_eq_none_of_findNode hf st
      · exact h.nodeMap_eq_none (s.nodeMap_of_findNode hf) hst
    have hvne : ∀ v, victim = some v → v ≠ mn.Name := by
      rintro v rfl
      exact hv.ne
    have hp := h.purgeReincarnation victim
    have hname : ({ toMemberNode := mn, ltime := 0, reapTime := 0 } : Node).Name = mn.Name := rfl
    refine hp.activate hname ?_ rfl rfl rfl
    intro st name'
    by_cases hname' : name' = mn.Name
    · subst hname'
      cases st with
      | active => simp [nodeMap]
      | left => simpa [nodeMap] using
          (s.nodeMap_purgeReincarnation_of_ne hvne .left).trans (hnone .left (by decide))
      | failed => simpa [nodeMap] using
          (s.nodeMap_purgeReincarnation_of_ne hvne .failed).trans (hnone .failed (by decide))
    · cases st <;> simp [nodeMap, hname']

theorem MembersConsistent.NotifyLeave (h : MembersConsistent s) (mn : MemberNode) :
    MembersConsistent (s.NotifyLeave mn) := by
  unfold NetworkDB.NotifyLeave
  split
  · exact h.changeNodeState mn.Name .failed
  · exact h

theorem MembersConsistent.call (h : MembersConsistent s) (c : Call) (hc : s.Enabled c) :
    MembersConsistent (s.call c) := by
  cases c with
  | notifyJoin mn victim => exact h.NotifyJoin mn victim hc
  | notifyLeave mn => exact h.NotifyLeave mn
  | notifyMsg m => exact h.handleMessage m false
  | mergeRemoteState pp => exact h.MergeRemoteState pp
  | localState join => exact h.LocalState join
  | joinNetwork nid => exact h.JoinNetwork nid
  | leaveNetwork nid => exact h.LeaveNetwork nid
  | createEntry tname nid key value => exact h.CreateEntry tname nid key value
  | updateEntry tname nid key value => exact h.UpdateEntry tname nid key value
  | deleteEntry tname nid key => exact h.DeleteEntry tname nid key
  | reapNetworks => exact h.reapNetworks
  | reapDeadNode => exact h.reapDeadNode
  | reapTableEntries nodeNetworks timeCompensation =>
      exact h.reapTableEntries nodeNetworks timeCompensation

theorem MembersConsistent.of_reachable {NodeID : String} {reapEntryInterval : Int}
    (hs : Transition.GuardedReachable NetworkDB.Enabled NetworkDB.call
      (NetworkDB.New NodeID reapEntryInterval) s) : MembersConsistent s :=
  hs.invariant (membersConsistent_New NodeID reapEntryInterval)
    fun _ c _ hc h => h.call c hc

end NetworkDB

/-- **Membership stays consistent.**  In every state reachable from `New`:
a member is in at most one of the member maps; a remote node in a network's
list is an active member; a remote node is in a network's list exactly when
it is attached and not leaving.  So a table message that changes the entry
it is about comes from an active member, neither left nor failed. -/
theorem membership_consistent {NodeID : String} {reapEntryInterval : Int} {s : NetworkDB}
    (hs : Transition.GuardedReachable NetworkDB.Enabled NetworkDB.call
      (NetworkDB.New NodeID reapEntryInterval) s) :
    (∀ name st st', (s.nodeMap st name).isSome → (s.nodeMap st' name).isSome → st = st') ∧
    (∀ nid node, node ∈ s.networkNodes nid → node ≠ s.config.NodeID →
      (s.nodes node).isSome) ∧
    (∀ node nid, node ≠ s.config.NodeID →
      (node ∈ s.networkNodes nid ↔
        ∃ n, s.attachment node nid = some n ∧ n.leaving = false)) ∧
    ∀ tEvent isBulkSync,
      (s.handleTableMessage tEvent isBulkSync).getEntry tEvent.TableName tEvent.NetworkID
          tEvent.Key ≠ s.getEntry tEvent.TableName tEvent.NetworkID tEvent.Key →
        (s.nodes tEvent.NodeName).isSome ∧ s.leftNodes tEvent.NodeName = none ∧
          s.failedNodes tEvent.NodeName = none := by
  have h := NetworkDB.MembersConsistent.of_reachable hs
  have hactive : ∀ nid node, node ∈ s.networkNodes nid → node ≠ s.config.NodeID →
      (s.nodes node).isSome := by
    intro nid node hmem hnode
    obtain ⟨n, hn, -⟩ := (h.listed node nid hnode).mp hmem
    exact h.attachedActive node nid n hnode hn
  refine ⟨h.unique, hactive, h.listed, ?_⟩
  intro tEvent isBulkSync hchanged
  -- this node's own events are ignored; a remote one passed the owner check
  unfold NetworkDB.handleTableMessage at hchanged
  split at hchanged
  · exact absurd rfl hchanged
  rename_i hremote
  have hnodes := hactive _ _ (s.mem_networkNodes_of_handleTableEvent tEvent isBulkSync hchanged)
    hremote
  obtain ⟨n, hn⟩ := Option.isSome_iff_exists.mp hnodes
  have hn' : s.nodeMap .active tEvent.NodeName = some n := hn
  exact ⟨hnodes, (h.nodeMap_eq_none hn' (by decide) : s.nodeMap .left tEvent.NodeName = none),
    (h.nodeMap_eq_none hn' (by decide) : s.nodeMap .failed tEvent.NodeName = none)⟩

/-- A run from `New`: `peer` joins the cluster, this node joins `n1`, and then
`peer` joins `n1` and creates an entry there, both by gossip. -/
def peerJoined : NetworkDB :=
  ((((NetworkDB.New "local" 1800000000000).call (.notifyJoin ⟨"peer", "10.0.0.2", 7946⟩ none)).call
    (.joinNetwork "n1")).call (.notifyMsg (.networkEvent ⟨.join, 1, "peer", "n1"⟩))).call
    (.notifyMsg (.tableEvent ⟨.create, 1, "peer", "n1", "t", "k", [1], 0⟩))

theorem peerJoined_reachable : Transition.GuardedReachable NetworkDB.Enabled NetworkDB.call
    (NetworkDB.New "local" 1800000000000) peerJoined :=
  .step _ (.step _ (.step _ (.step _ .init (.none fun st name n h => by cases st <;> cases h)) trivial)
    trivial) trivial

/-- After the run, `peer` is a member listed in `n1`, attached to it, and owns
an entry there. -/
theorem membership_consistent_peer_joined :
    Transition.GuardedReachable NetworkDB.Enabled NetworkDB.call
        (NetworkDB.New "local" 1800000000000) peerJoined ∧
    ((peerJoined.nodes "peer").isSome ∧ "peer" ∈ peerJoined.networkNodes "n1" ∧
      (peerJoined.attachment "peer" "n1").isSome ∧
      peerJoined.getEntry "t" "n1" "k" = some ⟨"peer", 1, [1], false, 0⟩) ∧
    (∀ name st st', (peerJoined.nodeMap st name).isSome → (peerJoined.nodeMap st' name).isSome →
      st = st') ∧
    (∀ nid node, node ∈ peerJoined.networkNodes nid → node ≠ peerJoined.config.NodeID →
      (peerJoined.nodes node).isSome) ∧
    (∀ node nid, node ≠ peerJoined.config.NodeID →
      (node ∈ peerJoined.networkNodes nid ↔
        ∃ n, peerJoined.attachment node nid = some n ∧ n.leaving = false)) ∧
    ∀ tEvent isBulkSync,
      (peerJoined.handleTableMessage tEvent isBulkSync).getEntry tEvent.TableName tEvent.NetworkID
          tEvent.Key ≠ peerJoined.getEntry tEvent.TableName tEvent.NetworkID tEvent.Key →
        (peerJoined.nodes tEvent.NodeName).isSome ∧ peerJoined.leftNodes tEvent.NodeName = none ∧
          peerJoined.failedNodes tEvent.NodeName = none :=
  ⟨peerJoined_reachable, by decide +kernel, membership_consistent peerJoined_reachable⟩

end Libnetwork.NetworkDb
