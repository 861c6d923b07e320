import Libnetwork.NetworkDb.State

/-!
# The handlers of a NetworkDB

The calls that change the state of one NetworkDB: the gossip messages of
`delegate.go` (node, network and table events, bulk syncs, compound messages
and the push/pull state of `MergeRemoteState`), the membership notifications
of `event_delegate.go`, the local API of `networkdb.go` and the reapers of
`cluster.go`.  Each handler takes the lock for its whole body, so a call is
one step; `JoinNetwork` is one step with its bulk sync, whose answers arrive
as messages of their own.  What a handler queues for the other nodes or for
the watchers is left out.

A message is given decoded here, the wire format's `MessageType` being its
constructor; `Receive` runs the handlers on the bytes and shows that they do
what these do.
-/

namespace Libnetwork.NetworkDb

/-- `NodeEvent_Type`. -/
inductive NodeEventType
  | invalid
  | join
  | leave
  deriving DecidableEq, Repr

structure NodeEvent where
  type : NodeEventType
  LTime : UInt64
  NodeName : String
  deriving DecidableEq, Repr

/-- `NetworkEvent_Type`. -/
inductive NetworkEventType
  | invalid
  | join
  | leave
  deriving DecidableEq, Repr

structure NetworkEvent where
  type : NetworkEventType
  LTime : UInt64
  NodeName : String
  NetworkID : String
  deriving DecidableEq, Repr

/-- `TableEvent_Type`. -/
inductive TableEventType
  | invalid
  | create
  | update
  | delete
  deriving DecidableEq, Repr

structure TableEvent where
  type : TableEventType
  LTime : UInt64
  NodeName : String
  NetworkID : String
  TableName : String
  Key : String
  Value : List UInt8
  ResidualReapTime : Int32
  deriving DecidableEq, Repr

/-- `NetworkEntry` of a push/pull state. -/
structure NetworkEntry where
  NetworkID : String
  LTime : UInt64
  NodeName : String
  Leaving : Bool
  deriving DecidableEq, Repr

structure NetworkPushPull where
  LTime : UInt64
  Networks : List NetworkEntry
  NodeName : String
  deriving DecidableEq, Repr

/-- A decoded gossip message; a bulk sync carries its Lamport time and its
payload. -/
inductive Message
  | nodeEvent (e : NodeEvent)
  | networkEvent (e : NetworkEvent)
  | tableEvent (e : TableEvent)
  | bulkSync (LTime : UInt64) (payload : Message)
  | compound (parts : List Message)

/-- The entry `handleTableEvent` stores for an event: a delete without a
residual reap time gets the configured one. -/
def TableEvent.toEntry (reapEntryInterval : Int) (e : TableEvent) : Entry :=
  let deleting := e.type == .delete
  let reapTime := e.ResidualReapTime.toInt * 1000000000
  { node := e.NodeName, ltime := e.LTime, value := e.Value, deleting := deleting,
    reapTime := if deleting ∧ reapTime = 0 then reapEntryInterval else reapTime }

/-- The errors of the local API. -/
inductive NetworkDBError
  | entryExists (tname nid key : String)
  | updateMissing (tname nid key : String)
  | deleteMissing (tname nid key : String)
  | leaveNoSelf (nid : String)
  | leaveNoNetwork (nid : String)
  deriving DecidableEq, Repr

/-- The text of each error. -/
def NetworkDBError.message : NetworkDBError → String
  | .entryExists tname nid key =>
      "cannot create entry in table " ++ tname ++ " with network id " ++ nid ++
        " and key " ++ key ++ ", already exists"
  | .updateMissing tname nid key =>
      "cannot update entry as the entry in table " ++ tname ++ " with network id " ++ nid ++
        " and key " ++ key ++ " does not exist"
  | .deleteMissing tname nid key =>
      "cannot delete entry " ++ tname ++ " with network id " ++ nid ++ " and key " ++ key ++
        " does not exist or is already being deleted"
  | .leaveNoSelf nid => "could not find self node for network " ++ nid ++ " while trying to leave"
  | .leaveNoNetwork nid => "could not find network " ++ nid ++ " while trying to leave"

namespace NetworkDB

variable (s : NetworkDB)

/-! ## Gossip -/

/-- `handleNodeEvent`: the state and whether to rebroadcast. -/
def handleNodeEvent (nEvent : NodeEvent) : NetworkDB × Bool :=
  let s := { s with networkClock := s.networkClock.Witness nEvent.LTime }
  match s.findNode nEvent.NodeName with
  | none => (s, false)
  | some (n, st) =>
      if nEvent.LTime ≤ n.ltime then (s, false)
      else
        let n := { n with ltime := nEvent.LTime }
        let s := s.setNodeMap st (Function.update (s.nodeMap st) nEvent.NodeName (some n))
        -- only a member known to memberlist moves
        if (s.nodes nEvent.NodeName).isNone then (s, false)
        else
          match nEvent.type with
          | .join =>
              match s.changeNodeState n.Name .active with
              | (s, .ok moved) => (s, moved)
              | (s, .error _) => (s, false)
          | .leave =>
              match s.changeNodeState n.Name .left with
              | (s, .ok moved) => (s, moved)
              | (s, .error _) => (s, false)
          | .invalid => (s, false)

section NodeEventSpec

variable {s} {nEvent : NodeEvent}

theorem handleNodeEvent_unknown (hf : s.findNode nEvent.NodeName = none) :
    s.handleNodeEvent nEvent =
      ({ s with networkClock := s.networkClock.Witness nEvent.LTime }, false) := by
  have hf' : ({ s with networkClock := s.networkClock.Witness nEvent.LTime }).findNode
      nEvent.NodeName = none := hf
  dsimp only [handleNodeEvent]
  rw [hf']

theorem handleNodeEvent_stale {n : Node} {st : NodeState}
    (hf : s.findNode nEvent.NodeName = some (n, st)) (hle : nEvent.LTime ≤ n.ltime) :
    s.handleNodeEvent nEvent =
      ({ s with networkClock := s.networkClock.Witness nEvent.LTime }, false) := by
  have hf' : ({ s with networkClock := s.networkClock.Witness nEvent.LTime }).findNode
      nEvent.NodeName = some (n, st) := hf
  dsimp only [handleNodeEvent]
  rw [hf']
  dsimp only
  rw [if_pos hle]

theorem networkClock_handleNodeEvent (nEvent : NodeEvent) :
    (s.handleNodeEvent nEvent).1.networkClock = s.networkClock.Witness nEvent.LTime := by
  dsimp only [handleNodeEvent]
  split
  · rfl
  split
  · rfl
  split
  · simp
  -- the member moves through `changeNodeState`, which keeps the clock
  split
  · split <;> exact (networkClock_of_changeNodeState _ ‹_›).trans (by simp)
  · split <;> exact (networkClock_of_changeNodeState _ ‹_›).trans (by simp)
  · simp

end NodeEventSpec

/-- `handleNetworkEvent`: the state and whether to rebroadcast.  A first
join of a node creates its map of attachments even when the event is then
dropped. -/
def handleNetworkEvent (nEvent : NetworkEvent) : NetworkDB × Bool :=
  let s := { s with networkClock := s.networkClock.Witness nEvent.LTime }
  if nEvent.NodeName = s.config.NodeID then (s, false)
  else
    match s.networks nEvent.NodeName, nEvent.type with
    | none, .leave => (s, false)
    | nodeNetworks, _ =>
        let s := s.ensureNodeNetworks nEvent.NodeName
        match nodeNetworks.bind (· nEvent.NetworkID) with
        | some n =>
            if nEvent.LTime ≤ n.ltime then (s, false)
            else
              let leaving := nEvent.type = .leave
              let n := { n with ltime := nEvent.LTime, leaving := leaving }
              let n := if leaving then { n with reapTime := s.config.reapNetworkInterval } else n
              let s := s.setNetwork nEvent.NodeName nEvent.NetworkID n
              let s := if leaving then s.deleteNodeNetworkEntries nEvent.NetworkID nEvent.NodeName
                else s
              if nEvent.type = .leave then
                (s.deleteNetworkNode nEvent.NetworkID nEvent.NodeName, true)
              else (s.addNetworkNode nEvent.NetworkID nEvent.NodeName, true)
        | none =>
            if nEvent.type = .leave then (s, false)
            -- only a member known to memberlist joins
            else if (s.nodes nEvent.NodeName).isNone then (s, false)
            else
              let s := s.setNetwork nEvent.NodeName nEvent.NetworkID
                ⟨nEvent.NetworkID, nEvent.LTime, false, false, 0⟩
              (s.addNetworkNode nEvent.NetworkID nEvent.NodeName, true)

/-- `handleNetworkEvent` witnesses the event's time, and then either leaves
the attachments as they were, or writes the attachment of the remote node
that the event is about, one known already or one of a member, and updates
the network's list to match. -/
theorem handleNetworkEvent_cases (nEvent : NetworkEvent) :
    (s.handleNetworkEvent nEvent).1 =
        { s with networkClock := s.networkClock.Witness nEvent.LTime } ∨
      (s.handleNetworkEvent nEvent).1 =
        ({ s with networkClock := s.networkClock.Witness nEvent.LTime }).ensureNodeNetworks
          nEvent.NodeName ∨
      nEvent.NodeName ≠ s.config.NodeID ∧ ∃ n : Network,
        (s.handleNetworkEvent nEvent).1 =
          (if nEvent.type = .leave then
            ((({ s with networkClock := s.networkClock.Witness nEvent.LTime }).ensureNodeNetworks
              nEvent.NodeName).setNetwork nEvent.NodeName nEvent.NetworkID
                n).deleteNodeNetworkEntries nEvent.NetworkID nEvent.NodeName
              |>.deleteNetworkNode nEvent.NetworkID nEvent.NodeName
          else
            ((({ s with networkClock := s.networkClock.Witness nEvent.LTime }).ensureNodeNetworks
              nEvent.NodeName).setNetwork nEvent.NodeName nEvent.NetworkID n).addNetworkNode
                nEvent.NetworkID nEvent.NodeName) ∧
        n.leaving = decide (nEvent.type = .leave) ∧
        ((s.attachment nEvent.NodeName nEvent.NetworkID).isSome ∨
          (s.nodes nEvent.NodeName).isSome) := by
  dsimp only [handleNetworkEvent]
  split
  · exact .inl rfl
  split
  · exact .inl rfl
  rename_i hne _ _ _
  split
  · -- an attachment known already, rewritten by a newer event
    rename_i n hn
    split
    · exact .inr (.inl rfl)
    by_cases hl : nEvent.type = .leave
    · simp only [if_pos hl, decide_eq_true hl]
      exact .inr (.inr ⟨hne, _, rfl, rfl, .inl (by simp [attachment, hn])⟩)
    · simp only [if_neg hl, decide_eq_false hl]
      exact .inr (.inr ⟨hne, _, rfl, rfl, .inl (by simp [attachment, hn])⟩)
  · -- the first join of a member
    split
    · exact .inr (.inl rfl)
    split
    · exact .inr (.inl rfl)
    rename_i hl hnode
    simp only [decide_eq_false hl]
    have hknown : (s.nodes nEvent.NodeName).isSome :=
      Option.isSome_iff_ne_none.mpr (by simpa using hnode)
    exact .inr (.inr ⟨hne, _, rfl, rfl, .inr hknown⟩)

section NetworkEventSpec

variable {s} {nEvent : NetworkEvent}

theorem handleNetworkEvent_own
    (h : nEvent.NodeName = s.config.NodeID) :
    s.handleNetworkEvent nEvent =
      ({ s with networkClock := s.networkClock.Witness nEvent.LTime }, false) := by
  simp only [handleNetworkEvent]
  rw [if_pos h]

theorem handleNetworkEvent_unknown_leave
    (hnone : s.networks nEvent.NodeName = none) (hl : nEvent.type = .leave) :
    s.handleNetworkEvent nEvent =
      ({ s with networkClock := s.networkClock.Witness nEvent.LTime }, false) := by
  dsimp only [handleNetworkEvent]
  split
  · rfl
  · split
    · rfl
    · rename_i hmatch
      exact absurd hl (hmatch hnone)

section RemoteNetworkEvent

variable (hne : nEvent.NodeName ≠ s.config.NodeID)
include hne

theorem handleNetworkEvent_stale {n : Network}
    (hatt : s.attachment nEvent.NodeName nEvent.NetworkID = some n)
    (hle : nEvent.LTime ≤ n.ltime) :
    s.handleNetworkEvent nEvent =
      (({ s with networkClock := s.networkClock.Witness nEvent.LTime }).ensureNodeNetworks
        nEvent.NodeName, false) := by
  have hsome := isSome_networks_of_attachment hatt
  dsimp only [handleNetworkEvent]
  rw [if_neg hne]
  split
  · rename_i hnone _
    simp [hnone] at hsome
  · split
    · rename_i m hm
      have hm' : s.attachment nEvent.NodeName nEvent.NetworkID = some m := hm
      rw [hatt, Option.some.injEq] at hm'
      subst hm'
      rw [if_pos hle]
    · rename_i hm
      have hm' : s.attachment nEvent.NodeName nEvent.NetworkID = none := hm
      rw [hatt] at hm'
      cases hm'

theorem handleNetworkEvent_unattached_leave
    (hsome : (s.networks nEvent.NodeName).isSome)
    (hatt : s.attachment nEvent.NodeName nEvent.NetworkID = none)
    (hl : nEvent.type = .leave) :
    s.handleNetworkEvent nEvent =
      (({ s with networkClock := s.networkClock.Witness nEvent.LTime }).ensureNodeNetworks
        nEvent.NodeName, false) := by
  dsimp only [handleNetworkEvent]
  rw [if_neg hne]
  split
  · rename_i hnone _
    simp [hnone] at hsome
  · split
    · rename_i m hm
      have hm' : s.attachment nEvent.NodeName nEvent.NetworkID = some m := hm
      rw [hatt] at hm'
      cases hm'
    · rw [if_pos hl]

theorem handleNetworkEvent_unknown_join
    (hatt : s.attachment nEvent.NodeName nEvent.NetworkID = none)
    (hl : nEvent.type ≠ .leave) (hnode : s.nodes nEvent.NodeName = none) :
    s.handleNetworkEvent nEvent =
      (({ s with networkClock := s.networkClock.Witness nEvent.LTime }).ensureNodeNetworks
        nEvent.NodeName, false) := by
  dsimp only [handleNetworkEvent]
  rw [if_neg hne]
  split
  · rename_i hl'
    exact absurd hl' hl
  · split
    · rename_i m hm
      have hm' : s.attachment nEvent.NodeName nEvent.NetworkID = some m := hm
      rw [hatt] at hm'
      cases hm'
    · rw [if_neg hl, if_pos (by simpa using hnode)]

/-- The first join of an active member attaches it, live, at the event's
time. -/
theorem handleNetworkEvent_first_join
    (hatt : s.attachment nEvent.NodeName nEvent.NetworkID = none)
    (hl : nEvent.type ≠ .leave) (hnode : (s.nodes nEvent.NodeName).isSome) :
    s.handleNetworkEvent nEvent =
      (((({ s with networkClock := s.networkClock.Witness nEvent.LTime }).ensureNodeNetworks
        nEvent.NodeName).setNetwork nEvent.NodeName nEvent.NetworkID
          ⟨nEvent.NetworkID, nEvent.LTime, false, false, 0⟩).addNetworkNode nEvent.NetworkID
          nEvent.NodeName, true) := by
  dsimp only [handleNetworkEvent]
  rw [if_neg hne]
  split
  · rename_i hl'
    exact absurd hl' hl
  · split
    · rename_i m hm
      have hm' : s.attachment nEvent.NodeName nEvent.NetworkID = some m := hm
      rw [hatt] at hm'
      cases hm'
    · rw [if_neg hl, if_neg (by simpa [Option.isSome_iff_ne_none] using hnode)]

/-- A newer leave marks the attachment leaving, marks the node's entries of
the network deleted and takes the node out of the network's list. -/
theorem handleNetworkEvent_fresh_leave {n : Network}
    (hatt : s.attachment nEvent.NodeName nEvent.NetworkID = some n)
    (hlt : ¬nEvent.LTime ≤ n.ltime) (hl : nEvent.type = .leave) :
    s.handleNetworkEvent nEvent =
      ((((({ s with networkClock := s.networkClock.Witness nEvent.LTime }).ensureNodeNetworks
        nEvent.NodeName).setNetwork nEvent.NodeName nEvent.NetworkID
          { n with
            ltime := nEvent.LTime, leaving := true, reapTime := s.config.reapNetworkInterval }
          ).deleteNodeNetworkEntries nEvent.NetworkID nEvent.NodeName).deleteNetworkNode
          nEvent.NetworkID nEvent.NodeName, true) := by
  have hsome := isSome_networks_of_attachment hatt
  dsimp only [handleNetworkEvent]
  rw [if_neg hne]
  split
  · rename_i hnone _
    simp [hnone] at hsome
  · split
    · rename_i m hm
      have hm' : s.attachment nEvent.NodeName nEvent.NetworkID = some m := hm
      rw [hatt, Option.some.injEq] at hm'
      subst hm'
      simp only [if_neg hlt, if_pos hl, decide_eq_true hl]
      rfl
    · rename_i hm
      have hm' : s.attachment nEvent.NodeName nEvent.NetworkID = none := hm
      rw [hatt] at hm'
      cases hm'

/-- A newer join brings the attachment back live and the node into the
network's list. -/
theorem handleNetworkEvent_fresh_join {n : Network}
    (hatt : s.attachment nEvent.NodeName nEvent.NetworkID = some n)
    (hlt : ¬nEvent.LTime ≤ n.ltime) (hl : nEvent.type ≠ .leave) :
    s.handleNetworkEvent nEvent =
      (((({ s with networkClock := s.networkClock.Witness nEvent.LTime }).ensureNodeNetworks
        nEvent.NodeName).setNetwork nEvent.NodeName nEvent.NetworkID
          { n with ltime := nEvent.LTime, leaving := false }).addNetworkNode nEvent.NetworkID
          nEvent.NodeName, true) := by
  have hsome := isSome_networks_of_attachment hatt
  dsimp only [handleNetworkEvent]
  rw [if_neg hne]
  split
  · rename_i hnone _
    simp [hnone] at hsome
  · split
    · rename_i m hm
      have hm' : s.attachment nEvent.NodeName nEvent.NetworkID = some m := hm
      rw [hatt, Option.some.injEq] at hm'
      subst hm'
      simp only [if_neg hlt, if_neg hl, decide_eq_false hl]
    · rename_i hm
      have hm' : s.attachment nEvent.NodeName nEvent.NetworkID = none := hm
      rw [hatt] at hm'
      cases hm'

end RemoteNetworkEvent

end NetworkEventSpec

/-- `handleTableEvent`: the state and whether to rebroadcast. -/
def handleTableEvent (tEvent : TableEvent) (isBulkSync : Bool) : NetworkDB × Bool :=
  let s := { s with tableClock := s.tableClock.Witness tEvent.LTime }
  match s.attachment s.config.NodeID tEvent.NetworkID with
  | none => (s, false)
  | some network =>
      -- this node is out of the network, or the owner of the event is
      if network.leaving || !(s.networkNodes tEvent.NetworkID).contains tEvent.NodeName then
        (s, false)
      else
        let old := s.getEntry tEvent.TableName tEvent.NetworkID tEvent.Key
        let stale := match old with
          | some e => decide (tEvent.LTime ≤ e.ltime)
          | none => decide (tEvent.type = TableEventType.delete) && !isBulkSync
        if stale then (s, false)
        else
          let e := tEvent.toEntry s.config.reapEntryInterval
          let s := s.createOrUpdateEntry tEvent.NetworkID tEvent.TableName tEvent.Key e
          if old.isNone && decide (tEvent.type = TableEventType.delete) then
            (s, network.inSync && e.reapTime > s.config.reapEntryInterval.tdiv 6)
          else (s, network.inSync)

/-- The tests by which `handleTableEvent` drops an event: this node is not
in the network or is leaving it, the event's node is not in the network's
list, or the event is stale. -/
def tableEventDropped (tEvent : TableEvent) (isBulkSync : Bool) : Bool :=
  match s.attachment s.config.NodeID tEvent.NetworkID with
  | none => true
  | some network =>
      network.leaving || !(s.networkNodes tEvent.NetworkID).contains tEvent.NodeName ||
        match s.getEntry tEvent.TableName tEvent.NetworkID tEvent.Key with
        | some e => decide (tEvent.LTime ≤ e.ltime)
        | none => decide (tEvent.type = TableEventType.delete) && !isBulkSync

section TableEventDropped

variable {s} {tEvent : TableEvent} {isBulkSync : Bool}

theorem handleTableEvent_of_dropped (h : s.tableEventDropped tEvent isBulkSync = true) :
    s.handleTableEvent tEvent isBulkSync =
      ({ s with tableClock := s.tableClock.Witness tEvent.LTime }, false) := by
  have h' : ({ s with tableClock := s.tableClock.Witness tEvent.LTime }).tableEventDropped tEvent
      isBulkSync = true := h
  unfold tableEventDropped at h'
  dsimp only [handleTableEvent]
  split
  · rfl
  · rename_i network hnet
    rw [hnet, Bool.or_eq_true] at h'
    split
    · rfl
    · rename_i hcheck
      have hstale := h'.resolve_left hcheck
      split
      · rename_i e hold
        simp only [hold] at hstale
        rw [if_pos hstale]
      · rename_i hold
        simp only [hold] at hstale
        rw [if_pos hstale]

theorem handleTableEvent_of_not_dropped (h : s.tableEventDropped tEvent isBulkSync = false) :
    (s.handleTableEvent tEvent isBulkSync).1 =
      ({ s with tableClock := s.tableClock.Witness tEvent.LTime }).createOrUpdateEntry
        tEvent.NetworkID tEvent.TableName tEvent.Key
        (tEvent.toEntry s.config.reapEntryInterval) := by
  have h' : ({ s with tableClock := s.tableClock.Witness tEvent.LTime }).tableEventDropped tEvent
      isBulkSync = false := h
  unfold tableEventDropped at h'
  dsimp only [handleTableEvent]
  split
  · rename_i hnet
    rw [hnet] at h'
    cases h'
  · rename_i network hnet
    rw [hnet, Bool.or_eq_false_iff] at h'
    obtain ⟨hcheck, hfresh⟩ := h'
    rw [if_neg (by rw [hcheck]; decide)]
    split
    · rename_i e hold
      simp only [hold] at hfresh
      rw [if_neg (by rw [hfresh]; decide)]
      split <;> rfl
    · rename_i hold
      simp only [hold] at hfresh
      rw [if_neg (by rw [hfresh]; decide)]
      split <;> rfl

theorem tableEventDropped_of_stale {e : Entry}
    (he : s.getEntry tEvent.TableName tEvent.NetworkID tEvent.Key = some e)
    (hle : tEvent.LTime ≤ e.ltime) : s.tableEventDropped tEvent isBulkSync = true := by
  unfold tableEventDropped
  split
  · rfl
  · simp [he, hle]

end TableEventDropped

/-- `handleTableEvent` witnesses the event's time, then either drops the
event or stores its entry. -/
theorem handleTableEvent_cases (tEvent : TableEvent) (isBulkSync : Bool) :
    (s.handleTableEvent tEvent isBulkSync).1 =
        { s with tableClock := s.tableClock.Witness tEvent.LTime } ∨
      (s.handleTableEvent tEvent isBulkSync).1 =
        ({ s with tableClock := s.tableClock.Witness tEvent.LTime }).createOrUpdateEntry
          tEvent.NetworkID tEvent.TableName tEvent.Key
          (tEvent.toEntry s.config.reapEntryInterval) := by
  dsimp only [handleTableEvent]
  repeat' split
  all_goals first | exact .inl rfl | exact .inr rfl

/-- An event that changes the entry it is about passed the owner check: its
node is in the network's list. -/
theorem mem_networkNodes_of_handleTableEvent (tEvent : TableEvent) (isBulkSync : Bool)
    (h : (s.handleTableEvent tEvent isBulkSync).1.getEntry tEvent.TableName tEvent.NetworkID
      tEvent.Key ≠ s.getEntry tEvent.TableName tEvent.NetworkID tEvent.Key) :
    tEvent.NodeName ∈ s.networkNodes tEvent.NetworkID := by
  revert h
  dsimp only [handleTableEvent]
  split
  · exact fun h => absurd rfl h
  split
  · exact fun h => absurd rfl h
  · rename_i hcheck
    intro _
    simp only [Bool.or_eq_true, Bool.not_eq_true', not_or, Bool.not_eq_false] at hcheck
    exact List.mem_of_elem_eq_true hcheck.2

@[simp] theorem networks_handleTableEvent (tEvent : TableEvent) (isBulkSync : Bool) :
    (s.handleTableEvent tEvent isBulkSync).1.networks = s.networks := by
  rcases s.handleTableEvent_cases tEvent isBulkSync with h | h <;> rw [h]
  rfl

@[simp] theorem networkNodes_handleTableEvent (tEvent : TableEvent) (isBulkSync : Bool) :
    (s.handleTableEvent tEvent isBulkSync).1.networkNodes = s.networkNodes := by
  rcases s.handleTableEvent_cases tEvent isBulkSync with h | h <;> rw [h]
  rfl

@[simp] theorem config_handleTableEvent (tEvent : TableEvent) (isBulkSync : Bool) :
    (s.handleTableEvent tEvent isBulkSync).1.config = s.config := by
  rcases s.handleTableEvent_cases tEvent isBulkSync with h | h <;> rw [h]
  rfl

@[simp] theorem tableClock_handleTableEvent (tEvent : TableEvent) (isBulkSync : Bool) :
    (s.handleTableEvent tEvent isBulkSync).1.tableClock = s.tableClock.Witness tEvent.LTime := by
  rcases s.handleTableEvent_cases tEvent isBulkSync with h | h <;> rw [h]
  rfl

/-- `handleTableMessage`: events this node generated are ignored. -/
def handleTableMessage (tEvent : TableEvent) (isBulkSync : Bool) : NetworkDB :=
  if tEvent.NodeName = s.config.NodeID then s else (s.handleTableEvent tEvent isBulkSync).1

mutual

def handleMessage (nDB : NetworkDB) : Message → Bool → NetworkDB
  | .nodeEvent e, _ => (nDB.handleNodeEvent e).1
  | .networkEvent e, _ => (nDB.handleNetworkEvent e).1
  | .tableEvent e, isBulkSync => nDB.handleTableMessage e isBulkSync
  | .bulkSync ltime payload, _ =>
      let nDB := if ltime > 0 then { nDB with tableClock := nDB.tableClock.Witness ltime } else nDB
      handleMessage nDB payload true
  | .compound parts, isBulkSync => handleCompound nDB parts isBulkSync

/-- `handleCompound`: each part in turn. -/
def handleCompound (nDB : NetworkDB) : List Message → Bool → NetworkDB
  | [], _ => nDB
  | part :: parts, isBulkSync => handleCompound (handleMessage nDB part isBulkSync) parts isBulkSync

end

/-- `MergeRemoteState`: the remote node's join and its view of every
attachment, as events. -/
def MergeRemoteState (pp : NetworkPushPull) : NetworkDB :=
  let s := (s.handleNodeEvent ⟨.join, pp.LTime, pp.NodeName⟩).1
  pp.Networks.foldl (fun s n =>
    (s.handleNetworkEvent ⟨if n.Leaving then .leave else .join, n.LTime, n.NodeName,
      n.NetworkID⟩).1) s

/-- `updateLocalNetworkTime`: one new network time for every attachment of
this node. -/
def updateLocalNetworkTime : NetworkDB :=
  let ltime := s.networkClock.Increment.2
  { s with
    networkClock := s.networkClock.Increment.1
    networks := Function.update s.networks s.config.NodeID
      ((s.networks s.config.NodeID).map fun m nid => (m nid).map ({ · with ltime := ltime })) }

/-- `LocalState`: a join refreshes the times of this node's attachments. -/
def LocalState (join : Bool) : NetworkDB :=
  if join then s.updateLocalNetworkTime else s

/-! ## Membership notifications -/

/-- `NotifyJoin`, with the member its `purgeReincarnation` stops at. -/
def NotifyJoin (mn : MemberNode) (victim : Option String) : NetworkDB :=
  match s.changeNodeState mn.Name .active with
  | (s, .ok true) => s
  | (s, _) =>
      let s := (s.purgeReincarnation victim).1
      { s with nodes := Function.update s.nodes mn.Name (some ⟨mn, 0, 0⟩) }

/-- `NotifyLeave`: an active member that leaves without a word has failed. -/
def NotifyLeave (mn : MemberNode) : NetworkDB :=
  match s.findNode mn.Name with
  | some (_, .active) => (s.changeNodeState mn.Name .failed).1
  | _ => s

/-! ## The local API -/

def JoinNetwork (nid : String) : NetworkDB :=
  let ltime := s.networkClock.Increment.2
  let s := { s with networkClock := s.networkClock.Increment.1 }
  -- the network is marked in sync once the bulk sync is sent
  let s := s.setNetwork s.config.NodeID nid ⟨nid, ltime, true, false, 0⟩
  s.addNetworkNode nid s.config.NodeID

def LeaveNetwork (nid : String) : NetworkDB × Option NetworkDBError :=
  let ltime := s.networkClock.Increment.2
  let s := { s with networkClock := s.networkClock.Increment.1 }
  let s := s.deleteNetworkNode nid s.config.NodeID
  let s := s.deleteNodeNetworkEntries nid s.config.NodeID
  match s.networks s.config.NodeID with
  | none => (s, some (.leaveNoSelf nid))
  | some nodeNetworks =>
      match nodeNetworks nid with
      | none => (s, some (.leaveNoNetwork nid))
      | some n =>
          (s.setNetwork s.config.NodeID nid
            { n with ltime := ltime, reapTime := s.config.reapNetworkInterval, leaving := true },
            none)

/-- `CreateEntry`.  The source also tests that the old entry is not being
deleted, but only when the lookup failed, where there is no old entry: an
entry being deleted blocks a new one as well. -/
def CreateEntry (tname nid key : String) (value : List UInt8) :
    NetworkDB × Option NetworkDBError :=
  match s.getEntry tname nid key with
  | some _ => (s, some (.entryExists tname nid key))
  | none =>
      let ltime := s.tableClock.Increment.2
      let s := { s with tableClock := s.tableClock.Increment.1 }
      (s.createOrUpdateEntry nid tname key ⟨s.config.NodeID, ltime, value, false, 0⟩, none)

def UpdateEntry (tname nid key : String) (value : List UInt8) :
    NetworkDB × Option NetworkDBError :=
  match s.getEntry tname nid key with
  | none => (s, some (.updateMissing tname nid key))
  | some _ =>
      let ltime := s.tableClock.Increment.2
      let s := { s with tableClock := s.tableClock.Increment.1 }
      (s.createOrUpdateEntry nid tname key ⟨s.config.NodeID, ltime, value, false, 0⟩, none)

def DeleteEntry (tname nid key : String) : NetworkDB × Option NetworkDBError :=
  match s.getEntry tname nid key with
  | some oldEntry =>
      if oldEntry.deleting then (s, some (.deleteMissing tname nid key))
      else
        let ltime := s.tableClock.Increment.2
        let s := { s with tableClock := s.tableClock.Increment.1 }
        (s.createOrUpdateEntry nid tname key
          ⟨s.config.NodeID, ltime, oldEntry.value, true, s.config.reapEntryInterval⟩, none)
  | none => (s, some (.deleteMissing tname nid key))

/-! ## The reapers -/

/-- The step of `reapNetworks` at one attachment: a leaving one counts down,
then goes. -/
def reapNetwork (n : Network) : Option Network :=
  if n.leaving then
    if n.reapTime ≤ 0 then none else some { n with reapTime := n.reapTime - reapPeriod }
  else some n

theorem bind_reapNetwork_live (o : Option Network) :
    (∃ m, o.bind reapNetwork = some m ∧ m.leaving = false) ↔
      ∃ n, o = some n ∧ n.leaving = false := by
  cases o with
  | none => simp
  | some n =>
      cases hl : n.leaving
      · simp [reapNetwork, hl]
      · -- a leaving attachment stays leaving until it goes
        by_cases ht : n.reapTime ≤ 0 <;> simp [reapNetwork, hl, ht]

def reapNetworks : NetworkDB :=
  { s with networks := fun node => (s.networks node).map fun m nid => (m nid).bind reapNetwork }

@[simp] theorem attachment_reapNetworks (node nid : String) :
    s.reapNetworks.attachment node nid = (s.attachment node nid).bind reapNetwork := by
  unfold reapNetworks attachment
  dsimp only
  cases s.networks node <;> rfl

/-- The step of `reapDeadNode` at one left or failed member. -/
def reapNode : Option Node → Option Node
  | some n =>
      if n.reapTime > nodeReapPeriod then some { n with reapTime := n.reapTime - nodeReapPeriod }
      else none
  | none => none

theorem reapNode_eq_some {o : Option Node} {m : Node} (h : reapNode o = some m) :
    ∃ n, o = some n ∧ m.Name = n.Name := by
  cases o with
  | none => cases h
  | some n =>
      by_cases ht : n.reapTime > nodeReapPeriod
      · simp only [reapNode, if_pos ht, Option.some.injEq] at h
        exact ⟨n, rfl, by rw [← h]⟩
      · simp [reapNode, ht] at h

/-- `reapDeadNode`: left and failed members count down, then go. -/
def reapDeadNode : NetworkDB :=
  { s with
    failedNodes := fun name => reapNode (s.failedNodes name)
    leftNodes := fun name => reapNode (s.leftNodes name) }

theorem nodeMap_reapDeadNode (st : NodeState) (name : String) :
    s.reapDeadNode.nodeMap st name =
      if st = .active then s.nodeMap st name else reapNode (s.nodeMap st name) := by
  cases st <;> rfl

/-- `reapTableEntries`: for each network of this node, in the order of
`nodeNetworks` (the order its loop over `networks[NodeID]` takes), the walk
of the tree by network under `/nid`; `timeCompensation` is the time since the
start of the cycle when each entry is reached. -/
def reapTableEntries (nodeNetworks : List String)
    (timeCompensation : String → String → String → Int) : NetworkDB :=
  { s with indexes := s.indexes.reapTableEntries nodeNetworks timeCompensation }

end NetworkDB

/-! ## Runs -/

/-- The calls that change a NetworkDB. -/
inductive Call
  | notifyJoin (mn : MemberNode) (victim : Option String)
  | notifyLeave (mn : MemberNode)
  | notifyMsg (m : Message)
  | mergeRemoteState (pp : NetworkPushPull)
  | localState (join : Bool)
  | joinNetwork (nid : String)
  | leaveNetwork (nid : String)
  | createEntry (tname nid key : String) (value : List UInt8)
  | updateEntry (tname nid key : String) (value : List UInt8)
  | deleteEntry (tname nid key : String)
  | reapNetworks
  | reapDeadNode
  | reapTableEntries (nodeNetworks : List String) (timeCompensation : String → String → String → Int)

/-- The state after one call. -/
def NetworkDB.call (s : NetworkDB) : Call → NetworkDB
  | .notifyJoin mn victim => s.NotifyJoin mn victim
  | .notifyLeave mn => s.NotifyLeave mn
  | .notifyMsg m => s.handleMessage m false
  | .mergeRemoteState pp => s.MergeRemoteState pp
  | .localState join => s.LocalState join
  | .joinNetwork nid => s.JoinNetwork nid
  | .leaveNetwork nid => (s.LeaveNetwork nid).1
  | .createEntry tname nid key value => (s.CreateEntry tname nid key value).1
  | .updateEntry tname nid key value => (s.UpdateEntry tname nid key value).1
  | .deleteEntry tname nid key => (s.DeleteEntry tname nid key).1
  | .reapNetworks => s.reapNetworks
  | .reapDeadNode => s.reapDeadNode
  | .reapTableEntries nodeNetworks timeCompensation => s.reapTableEntries nodeNetworks timeCompensation

/-- A call the source can make in a state: a join purges a member its loops
can stop at, and the reaper walks each network of this node once. -/
def NetworkDB.Enabled (s : NetworkDB) : Call → Prop
  | .notifyJoin mn victim => s.PurgeVictim mn victim
  | .reapTableEntries nodeNetworks _ =>
      nodeNetworks.Nodup ∧ ∀ nid, nid ∈ nodeNetworks ↔ (s.attachment s.config.NodeID nid).isSome
  | _ => True

end Libnetwork.NetworkDb
