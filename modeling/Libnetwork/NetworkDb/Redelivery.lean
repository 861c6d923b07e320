import Libnetwork.NetworkDb.Membership

/-!
# Gossip delivered twice

memberlist gossips a broadcast to several nodes, and a node can get the same
event again from another peer, in a push/pull or in a bulk sync.  Handling a
node, network or table event a second time changes nothing and does not
rebroadcast it: the first handling leaves the event's time in the member, the
attachment or the entry it wrote, or drops the event on tests the first
handling did not change, so the second handling drops it; and a second
witness of the same time leaves the clock where the first left it.  Table and
network events are handled twice alike in any state; a node event needs the
members to be unique, so that the second handling finds the member the first
one wrote.
-/

namespace Libnetwork.NetworkDb

namespace NetworkDB

variable {s : NetworkDB}

theorem networkClock_rewitness {t : NetworkDB} {c : LamportClock} {v : UInt64}
    (h : t.networkClock = c.Witness v) :
    { t with networkClock := t.networkClock.Witness v } = t := by
  rw [h, LamportClock.Witness_Witness, ← h]

theorem tableClock_rewitness {t : NetworkDB} {c : LamportClock} {v : UInt64}
    (h : t.tableClock = c.Witness v) :
    { t with tableClock := t.tableClock.Witness v } = t := by
  rw [h, LamportClock.Witness_Witness, ← h]

/-- What a dropped network event leaves of a state that has the node's map
and has witnessed the event's time: the state itself. -/
theorem ensureNodeNetworks_rewitness {t : NetworkDB} {node : String} {c : LamportClock}
    {v : UInt64} (hc : t.networkClock = c.Witness v) (hn : (t.networks node).isSome) :
    ({ t with networkClock := t.networkClock.Witness v }).ensureNodeNetworks node = t := by
  rw [networkClock_rewitness hc, ensureNodeNetworks_of_isSome hn]

/-- A state that has witnessed an event's time, and holds an attachment of the
event's node at that time or later, drops the event and stays as it is. -/
theorem handleNetworkEvent_of_witnessed {t : NetworkDB} {nEvent : NetworkEvent} {c : LamportClock}
    {n : Network} (hne : nEvent.NodeName ≠ t.config.NodeID)
    (hc : t.networkClock = c.Witness nEvent.LTime)
    (hatt : t.attachment nEvent.NodeName nEvent.NetworkID = some n) (hle : nEvent.LTime ≤ n.ltime) :
    t.handleNetworkEvent nEvent = (t, false) := by
  rw [handleNetworkEvent_stale hne hatt hle,
    ensureNodeNetworks_rewitness hc (isSome_networks_of_attachment hatt)]

/-- **A table event delivered twice.**  The second handling finds the state
the first one left, drops the event and does not rebroadcast it. -/
theorem handleTableEvent_redeliver (tEvent : TableEvent) (isBulkSync : Bool) :
    (s.handleTableEvent tEvent isBulkSync).1.handleTableEvent tEvent isBulkSync =
      ((s.handleTableEvent tEvent isBulkSync).1, false) := by
  cases hd : s.tableEventDropped tEvent isBulkSync
  · -- the first handling stored the event's entry, so the second finds it stale
    rw [handleTableEvent_of_not_dropped hd]
    refine (handleTableEvent_of_dropped ?_).trans ?_
    · exact tableEventDropped_of_stale (e := tEvent.toEntry s.config.reapEntryInterval)
        (by simp) (UInt64.le_refl _)
    · congr 1
      exact tableClock_rewitness rfl
  · -- the tests the first handling failed read nothing it changed
    rw [handleTableEvent_of_dropped hd]
    refine (handleTableEvent_of_dropped ?_).trans ?_
    · exact hd
    · congr 1
      exact tableClock_rewitness rfl

/-- **A network event delivered twice.**  The second handling drops the
event and does not rebroadcast it: an attachment the first handling wrote
carries the event's time, and an event the first handling dropped fails the
same test again. -/
theorem handleNetworkEvent_redeliver (nEvent : NetworkEvent) :
    (s.handleNetworkEvent nEvent).1.handleNetworkEvent nEvent =
      ((s.handleNetworkEvent nEvent).1, false) := by
  by_cases hown : nEvent.NodeName = s.config.NodeID
  · rw [handleNetworkEvent_own hown]
    refine (handleNetworkEvent_own ?_).trans ?_
    · exact hown
    · congr 1
      exact networkClock_rewitness rfl
  cases hatt : s.attachment nEvent.NodeName nEvent.NetworkID with
  | none =>
      by_cases hl : nEvent.type = .leave
      · cases hnet : s.networks nEvent.NodeName with
        | none =>
            rw [handleNetworkEvent_unknown_leave hnet hl]
            refine (handleNetworkEvent_unknown_leave ?_ hl).trans ?_
            · exact hnet
            · congr 1
              exact networkClock_rewitness rfl
        | some m =>
            have hsome : (s.networks nEvent.NodeName).isSome := by simp [hnet]
            rw [handleNetworkEvent_unattached_leave hown hsome hatt hl]
            refine (handleNetworkEvent_unattached_leave ?_ ?_ ?_ hl).trans ?_
            · exact hown
            · simp
            · simp only [attachment_ensureNodeNetworks]
              exact hatt
            · congr 1
              exact ensureNodeNetworks_rewitness rfl (by simp)
      · cases hnode : s.nodes nEvent.NodeName with
        | none =>
            rw [handleNetworkEvent_unknown_join hown hatt hl hnode]
            refine (handleNetworkEvent_unknown_join ?_ ?_ hl ?_).trans ?_
            · exact hown
            · simp only [attachment_ensureNodeNetworks]
              exact hatt
            · exact hnode
            · congr 1
              exact ensureNodeNetworks_rewitness rfl (by simp)
        | some _ =>
            rw [handleNetworkEvent_first_join hown hatt hl (by simp [hnode])]
            exact handleNetworkEvent_of_witnessed (n := ⟨nEvent.NetworkID, nEvent.LTime, false, false, 0⟩)
              hown rfl (by simp) (UInt64.le_refl _)
  | some n =>
      by_cases hle : nEvent.LTime ≤ n.ltime
      · rw [handleNetworkEvent_stale hown hatt hle]
        refine handleNetworkEvent_of_witnessed hown rfl ?_ hle
        simp only [attachment_ensureNodeNetworks]
        exact hatt
      · -- the first handling rewrote the attachment at the event's time
        by_cases hl : nEvent.type = .leave
        · rw [handleNetworkEvent_fresh_leave hown hatt hle hl]
          exact handleNetworkEvent_of_witnessed
            (n := { n with
              ltime := nEvent.LTime
              leaving := true
              reapTime := s.config.reapNetworkInterval })
            hown rfl (by simp) (UInt64.le_refl _)
        · rw [handleNetworkEvent_fresh_join hown hatt hle hl]
          exact handleNetworkEvent_of_witnessed (n := { n with ltime := nEvent.LTime, leaving := false })
            hown rfl (by simp) (UInt64.le_refl _)

/-- A newer event about a member leaves it, in whatever map it ends in, at
the event's time. -/
theorem MembersConsistent.handleNodeEvent_fresh (h : MembersConsistent s) {nEvent : NodeEvent}
    {n : Node} {st : NodeState} (hf : s.findNode nEvent.NodeName = some (n, st))
    (hlt : ¬nEvent.LTime ≤ n.ltime) :
    ∃ st' m, (s.handleNodeEvent nEvent).1.nodeMap st' nEvent.NodeName = some m ∧
      m.ltime = nEvent.LTime := by
  have hn := s.nodeMap_of_findNode hf
  have hname : n.Name = nEvent.NodeName := h.named st _ n hn
  have hf' : ({ s with networkClock := s.networkClock.Witness nEvent.LTime }).findNode
      nEvent.NodeName = some (n, st) := hf
  have h₀ : MembersConsistent { s with networkClock := s.networkClock.Witness nEvent.LTime } :=
    h.of_entries s.indexes _ s.tableClock
  have hname' : ({ n with ltime := nEvent.LTime } : Node).Name = n.Name := rfl
  have h₁ := h₀.setNode hn hname'
  have hf₁ := h₁.findNode_eq (nodeMap_setNodeMap_update_self _ st nEvent.NodeName
    (some { n with ltime := nEvent.LTime }))
  dsimp only [NetworkDB.handleNodeEvent]
  rw [hf']
  dsimp only
  rw [if_neg hlt]
  split
  · exact ⟨st, { n with ltime := nEvent.LTime }, by simp, rfl⟩
  · rw [hname]
    split
    · obtain ⟨st', m, hm, hmt⟩ := changeNodeState_keeps_member _ hf₁ .active
      split <;> rename_i heq <;> rw [heq] at hm <;> exact ⟨st', m, hm, hmt⟩
    · obtain ⟨st', m, hm, hmt⟩ := changeNodeState_keeps_member _ hf₁ .left
      split <;> rename_i heq <;> rw [heq] at hm <;> exact ⟨st', m, hm, hmt⟩
    · exact ⟨st, { n with ltime := nEvent.LTime }, by simp, rfl⟩

/-- **A node event delivered twice**, members being unique: the second
handling finds the member at the event's time and drops the event. -/
theorem MembersConsistent.handleNodeEvent_redeliver (h : MembersConsistent s)
    (nEvent : NodeEvent) :
    (s.handleNodeEvent nEvent).1.handleNodeEvent nEvent =
      ((s.handleNodeEvent nEvent).1, false) := by
  cases hf : s.findNode nEvent.NodeName with
  | none =>
      rw [handleNodeEvent_unknown hf]
      refine (handleNodeEvent_unknown ?_).trans ?_
      · exact hf
      · congr 1
        exact networkClock_rewitness rfl
  | some p =>
      obtain ⟨n, st⟩ := p
      by_cases hle : nEvent.LTime ≤ n.ltime
      · rw [handleNodeEvent_stale hf hle]
        refine (handleNodeEvent_stale (?_ : _ = some (n, st)) hle).trans ?_
        · exact hf
        · congr 1
          exact networkClock_rewitness rfl
      · obtain ⟨st', m, hm, hmt⟩ := h.handleNodeEvent_fresh hf hle
        refine (handleNodeEvent_stale ((h.handleNodeEvent nEvent).findNode_eq hm)
          (hmt ▸ UInt64.le_refl _)).trans ?_
        congr 1
        exact networkClock_rewitness (networkClock_handleNodeEvent nEvent)

end NetworkDB

/-- **Gossip delivered twice is ignored.**  In every state reachable from
`New`, a node, network or table event handled a second time leaves the state
its first handling left and is not rebroadcast. -/
theorem gossip_redelivery_ignored {NodeID : String} {reapEntryInterval : Int} {s : NetworkDB}
    (hs : Transition.GuardedReachable NetworkDB.Enabled NetworkDB.call
      (NetworkDB.New NodeID reapEntryInterval) s) :
    (∀ nEvent : NodeEvent, (s.handleNodeEvent nEvent).1.handleNodeEvent nEvent =
      ((s.handleNodeEvent nEvent).1, false)) ∧
    (∀ nEvent : NetworkEvent, (s.handleNetworkEvent nEvent).1.handleNetworkEvent nEvent =
      ((s.handleNetworkEvent nEvent).1, false)) ∧
    ∀ (tEvent : TableEvent) (isBulkSync : Bool),
      (s.handleTableEvent tEvent isBulkSync).1.handleTableEvent tEvent isBulkSync =
        ((s.handleTableEvent tEvent isBulkSync).1, false) :=
  ⟨(NetworkDB.MembersConsistent.of_reachable hs).handleNodeEvent_redeliver,
    NetworkDB.handleNetworkEvent_redeliver, NetworkDB.handleTableEvent_redeliver⟩

/-- After a run in which a peer joins the cluster and a network and creates
an entry, every event is ignored the second time. -/
theorem gossip_redelivery_ignored_peerJoined :
    Transition.GuardedReachable NetworkDB.Enabled NetworkDB.call
        (NetworkDB.New "local" 1800000000000) peerJoined ∧
      (∀ nEvent : NodeEvent, (peerJoined.handleNodeEvent nEvent).1.handleNodeEvent nEvent =
        ((peerJoined.handleNodeEvent nEvent).1, false)) ∧
      (∀ nEvent : NetworkEvent, (peerJoined.handleNetworkEvent nEvent).1.handleNetworkEvent nEvent =
        ((peerJoined.handleNetworkEvent nEvent).1, false)) ∧
      ∀ (tEvent : TableEvent) (isBulkSync : Bool),
        (peerJoined.handleTableEvent tEvent isBulkSync).1.handleTableEvent tEvent isBulkSync =
          ((peerJoined.handleTableEvent tEvent isBulkSync).1, false) :=
  ⟨peerJoined_reachable, gossip_redelivery_ignored peerJoined_reachable⟩

end Libnetwork.NetworkDb
