import Mathlib
import Libnetwork.NetworkDb.Clock
import Libnetwork.Support.LastWriterWins

/-!
# Table events converge

For one key of a table, `handleTableEvent` is a last-writer-wins register
on Lamport times: an event replaces the stored entry unless the entry is at
least as new.  Delivered in a bulk sync to a node in the network, events on
one key that carry pairwise distinct times leave the same entry in every
order, the entry of the newest event unless the node already held one at
least as new; a tie with the held entry keeps the held one.  The clock ends
above every time delivered, unless one of them is the largest Lamport time,
whose witness wraps the clock to zero.
-/

namespace Libnetwork.NetworkDb

open LastWriterWins

namespace NetworkDB

/-- In a bulk sync to a node in the network, an event from a member of it
is offered to the register of its key. -/
theorem getEntry_handleTableEvent_bulk {s : NetworkDB} {tEvent : TableEvent} {n : Network}
    (hnet : s.attachment s.config.NodeID tEvent.NetworkID = some n) (hlive : n.leaving = false)
    (howner : tEvent.NodeName ∈ s.networkNodes tEvent.NetworkID) :
    (s.handleTableEvent tEvent true).1.getEntry tEvent.TableName tEvent.NetworkID tEvent.Key =
      absorb (fun e => e.ltime.toNat) (s.getEntry tEvent.TableName tEvent.NetworkID tEvent.Key)
        (tEvent.toEntry s.config.reapEntryInterval) := by
  have hnet' : ({ s with tableClock := s.tableClock.Witness tEvent.LTime } : NetworkDB).attachment
      s.config.NodeID tEvent.NetworkID = some n := hnet
  dsimp only [handleTableEvent]
  rw [hnet']
  simp only [hlive, howner, List.elem_eq_mem, decide_true, Bool.not_true, Bool.or_false,
    Bool.false_eq_true, if_false]
  have hkey : ((tEvent.toEntry s.config.reapEntryInterval).ltime) = tEvent.LTime := rfl
  cases hold : s.getEntry tEvent.TableName tEvent.NetworkID tEvent.Key with
  | none =>
      simp only [getEntry] at hold
      -- a delete of an unknown entry is kept in a bulk sync, like any other event
      simp only [hold, getEntry, Bool.and_false, Bool.false_eq_true, if_false]
      split <;> simp [createOrUpdateEntry, absorb]
  | some e =>
      simp only [getEntry] at hold
      by_cases hle : tEvent.LTime ≤ e.ltime
      · have hle' : tEvent.LTime.toNat ≤ e.ltime.toNat := hle
        simp [hold, hle, hle', hkey, absorb, getEntry]
      · have hle' : ¬tEvent.LTime.toNat ≤ e.ltime.toNat := hle
        simp [hold, hle, hle', hkey, absorb, getEntry, createOrUpdateEntry]

theorem attachment_handleTableEvent (s : NetworkDB) (tEvent : TableEvent) (isBulkSync : Bool)
    (node nid : String) :
    (s.handleTableEvent tEvent isBulkSync).1.attachment node nid = s.attachment node nid := by
  simp [attachment]

/-- Events on one key from members of a network this node is in: a bulk
delivery folds their entries into the register of the key. -/
theorem getEntry_run_handleTableEvent {s : NetworkDB} {evs : List TableEvent}
    {tname nid key : String} {n : Network}
    (hnet : s.attachment s.config.NodeID nid = some n) (hlive : n.leaving = false)
    (hevs : ∀ e ∈ evs, e.TableName = tname ∧ e.NetworkID = nid ∧ e.Key = key ∧
      e.NodeName ∈ s.networkNodes nid) :
    (Transition.run (fun s e => (s.handleTableEvent e true).1) s evs).getEntry tname nid key =
      (evs.map (TableEvent.toEntry s.config.reapEntryInterval)).foldl
        (absorb fun e => e.ltime.toNat) (s.getEntry tname nid key) := by
  -- the delivery never changes the attachments, the lists or the
  -- configuration, so every event meets the conditions in turn
  induction evs generalizing s with
  | nil => rfl
  | cons e evs ih =>
      obtain ⟨rfl, rfl, rfl, howner⟩ := hevs e List.mem_cons_self
      have hnet' : (s.handleTableEvent e true).1.attachment
          (s.handleTableEvent e true).1.config.NodeID e.NetworkID = some n := by
        rw [attachment_handleTableEvent, config_handleTableEvent, hnet]
      have hevs' : ∀ e' ∈ evs, e'.TableName = e.TableName ∧ e'.NetworkID = e.NetworkID ∧
          e'.Key = e.Key ∧
            e'.NodeName ∈ (s.handleTableEvent e true).1.networkNodes e.NetworkID := by
        intro e' he'
        rw [networkNodes_handleTableEvent]
        exact hevs e' (List.mem_cons_of_mem _ he')
      rw [Transition.run_cons, ih hnet' hevs', getEntry_handleTableEvent_bulk hnet hlive howner,
        config_handleTableEvent, List.map_cons, List.foldl_cons]

/-- Below the largest time, a delivery ends with the clock above every time
it delivered, and not below where it started. -/
theorem lt_tableClock_run_handleTableEvent {s : NetworkDB} {evs : List TableEvent}
    {isBulkSync : Bool} (hmax : ∀ e ∈ evs, e.LTime.toNat < 2 ^ 64 - 1) :
    s.tableClock.counter.toNat ≤
        (Transition.run (fun s e => (s.handleTableEvent e isBulkSync).1) s
          evs).tableClock.counter.toNat ∧
      ∀ e ∈ evs, e.LTime.toNat <
        (Transition.run (fun s e => (s.handleTableEvent e isBulkSync).1) s
          evs).tableClock.counter.toNat := by
  induction evs generalizing s with
  | nil => simp
  | cons e evs ih =>
      obtain ⟨hle, hlt⟩ := ih (s := (s.handleTableEvent e isBulkSync).1)
        fun e' he' => hmax e' (List.mem_cons_of_mem _ he')
      have hw := s.tableClock.toNat_Witness (hmax e List.mem_cons_self)
      rw [tableClock_handleTableEvent, hw] at hle
      rw [Transition.run_cons]
      refine ⟨by omega, fun e' he' => ?_⟩
      rcases List.mem_cons.mp he' with rfl | he'
      · omega
      · exact hlt e' he'

end NetworkDB

open NetworkDB

/-- **Table events converge.**  A node in network `nid` with every owner in
the network's list gets events on one key, with pairwise distinct times, in
a bulk sync.  In any two orders it ends with the same entry: the entry of the
newest event, unless it held one at least as new.  Below the largest time,
its clock ends above every time delivered. -/
theorem handleTableEvent_bulk_converges {s : NetworkDB} {evs evs' : List TableEvent}
    {tname nid key : String} {n : Network}
    (hnet : s.attachment s.config.NodeID nid = some n) (hlive : n.leaving = false)
    (hevs : ∀ e ∈ evs, e.TableName = tname ∧ e.NetworkID = nid ∧ e.Key = key ∧
      e.NodeName ∈ s.networkNodes nid)
    (hdistinct : (evs.map TableEvent.LTime).Nodup) (hperm : evs.Perm evs') :
    (Transition.run (fun s e => (s.handleTableEvent e true).1) s evs).getEntry tname nid key =
        (Transition.run (fun s e => (s.handleTableEvent e true).1) s
          evs').getEntry tname nid key ∧
      (∀ m ∈ evs, (∀ e ∈ evs, e.LTime ≤ m.LTime) →
        (Transition.run (fun s e => (s.handleTableEvent e true).1) s evs).getEntry tname nid key =
          absorb (fun e => e.ltime.toNat) (s.getEntry tname nid key)
            (m.toEntry s.config.reapEntryInterval)) ∧
      ((∀ e ∈ evs, e.LTime.toNat < 2 ^ 64 - 1) → ∀ e ∈ evs,
        e.LTime < (Transition.run (fun s e => (s.handleTableEvent e true).1) s
          evs).tableClock.Time ∧
        e.LTime < (Transition.run (fun s e => (s.handleTableEvent e true).1) s
          evs').tableClock.Time) := by
  have hevs' : ∀ e ∈ evs', e.TableName = tname ∧ e.NetworkID = nid ∧ e.Key = key ∧
      e.NodeName ∈ s.networkNodes nid := fun e he => hevs e (hperm.symm.subset he)
  have hstamps : ((evs.map (TableEvent.toEntry s.config.reapEntryInterval)).map
      fun e => e.ltime.toNat).Nodup := by
    have hmap : (evs.map (TableEvent.toEntry s.config.reapEntryInterval)).map
        (fun e => e.ltime.toNat) = (evs.map TableEvent.LTime).map UInt64.toNat := by
      simp only [List.map_map]
      rfl
    rw [hmap]
    exact hdistinct.map fun a b h => UInt64.toNat_inj.mp h
  refine ⟨?_, fun m hm hmax => ?_, fun hbound e he => ?_⟩
  · rw [getEntry_run_handleTableEvent hnet hlive hevs,
      getEntry_run_handleTableEvent hnet hlive hevs']
    exact foldl_absorb_perm _ (hperm.map _) hstamps
  · rw [getEntry_run_handleTableEvent hnet hlive hevs]
    refine foldl_absorb_of_max _ (List.mem_map_of_mem hm) ?_ hstamps
    intro y hy
    obtain ⟨e, he, rfl⟩ := List.mem_map.mp hy
    exact hmax e he
  · have hbound' : ∀ e ∈ evs', e.LTime.toNat < 2 ^ 64 - 1 :=
      fun e he => hbound e (hperm.symm.subset he)
    exact ⟨(lt_tableClock_run_handleTableEvent hbound).2 e he,
      (lt_tableClock_run_handleTableEvent hbound').2 e (hperm.subset he)⟩

/-- A create and the delete that supersedes it, delivered either way round:
a delete of an unknown entry is kept in a bulk sync, and the older create is
then dropped. -/
theorem handleTableEvent_bulk_converges_delete_first :
    (((NetworkDB.New "local" 1800000000000).JoinNetwork "n").addNetworkNode "n" "peer").attachment
        "local" "n" = some ⟨"n", 1, true, false, 0⟩ ∧
      (⟨"n", 1, true, false, 0⟩ : Network).leaving = false ∧
      (∀ e ∈ [(⟨.create, 1, "peer", "n", "t", "k", [1], 0⟩ : TableEvent),
          ⟨.delete, 2, "peer", "n", "t", "k", [1], 5⟩],
        e.TableName = "t" ∧ e.NetworkID = "n" ∧ e.Key = "k" ∧
          e.NodeName ∈ (((NetworkDB.New "local" 1800000000000).JoinNetwork "n").addNetworkNode
            "n" "peer").networkNodes "n") ∧
      ([(⟨.create, 1, "peer", "n", "t", "k", [1], 0⟩ : TableEvent),
          ⟨.delete, 2, "peer", "n", "t", "k", [1], 5⟩].map TableEvent.LTime).Nodup ∧
      [(⟨.create, 1, "peer", "n", "t", "k", [1], 0⟩ : TableEvent),
          ⟨.delete, 2, "peer", "n", "t", "k", [1], 5⟩].Perm
        [⟨.delete, 2, "peer", "n", "t", "k", [1], 5⟩,
          ⟨.create, 1, "peer", "n", "t", "k", [1], 0⟩] ∧
      (Transition.run (fun s e => (s.handleTableEvent e true).1)
          (((NetworkDB.New "local" 1800000000000).JoinNetwork "n").addNetworkNode "n" "peer")
          [⟨.create, 1, "peer", "n", "t", "k", [1], 0⟩,
            ⟨.delete, 2, "peer", "n", "t", "k", [1], 5⟩]).getEntry
          "t" "n" "k" =
        (Transition.run (fun s e => (s.handleTableEvent e true).1)
          (((NetworkDB.New "local" 1800000000000).JoinNetwork "n").addNetworkNode "n" "peer")
          [⟨.delete, 2, "peer", "n", "t", "k", [1], 5⟩,
            ⟨.create, 1, "peer", "n", "t", "k", [1], 0⟩]).getEntry
          "t" "n" "k" ∧
      (∀ m ∈ [(⟨.create, 1, "peer", "n", "t", "k", [1], 0⟩ : TableEvent),
          ⟨.delete, 2, "peer", "n", "t", "k", [1], 5⟩],
        (∀ e ∈ [(⟨.create, 1, "peer", "n", "t", "k", [1], 0⟩ : TableEvent),
          ⟨.delete, 2, "peer", "n", "t", "k", [1], 5⟩], e.LTime ≤ m.LTime) →
        (Transition.run (fun s e => (s.handleTableEvent e true).1)
          (((NetworkDB.New "local" 1800000000000).JoinNetwork "n").addNetworkNode "n" "peer")
          [⟨.create, 1, "peer", "n", "t", "k", [1], 0⟩,
            ⟨.delete, 2, "peer", "n", "t", "k", [1], 5⟩]).getEntry
          "t" "n" "k" =
          absorb (fun e => e.ltime.toNat)
            ((((NetworkDB.New "local" 1800000000000).JoinNetwork "n").addNetworkNode "n"
              "peer").getEntry "t" "n" "k")
            (m.toEntry (((NetworkDB.New "local" 1800000000000).JoinNetwork "n").addNetworkNode
              "n" "peer").config.reapEntryInterval)) ∧
      ((∀ e ∈ [(⟨.create, 1, "peer", "n", "t", "k", [1], 0⟩ : TableEvent),
          ⟨.delete, 2, "peer", "n", "t", "k", [1], 5⟩], e.LTime.toNat < 2 ^ 64 - 1) →
        ∀ e ∈ [(⟨.create, 1, "peer", "n", "t", "k", [1], 0⟩ : TableEvent),
          ⟨.delete, 2, "peer", "n", "t", "k", [1], 5⟩],
        e.LTime < (Transition.run (fun s e => (s.handleTableEvent e true).1)
          (((NetworkDB.New "local" 1800000000000).JoinNetwork "n").addNetworkNode "n" "peer")
          [⟨.create, 1, "peer", "n", "t", "k", [1], 0⟩,
            ⟨.delete, 2, "peer", "n", "t", "k", [1], 5⟩]).tableClock.Time ∧
        e.LTime < (Transition.run (fun s e => (s.handleTableEvent e true).1)
          (((NetworkDB.New "local" 1800000000000).JoinNetwork "n").addNetworkNode "n" "peer")
          [⟨.delete, 2, "peer", "n", "t", "k", [1], 5⟩,
            ⟨.create, 1, "peer", "n", "t", "k", [1], 0⟩]).tableClock.Time) := by
  have hnet : (((NetworkDB.New "local" 1800000000000).JoinNetwork "n").addNetworkNode "n"
      "peer").attachment "local" "n" = some ⟨"n", 1, true, false, 0⟩ := by decide
  have hevs : ∀ e ∈ [(⟨.create, 1, "peer", "n", "t", "k", [1], 0⟩ : TableEvent),
      ⟨.delete, 2, "peer", "n", "t", "k", [1], 5⟩],
      e.TableName = "t" ∧ e.NetworkID = "n" ∧ e.Key = "k" ∧
        e.NodeName ∈ (((NetworkDB.New "local" 1800000000000).JoinNetwork "n").addNetworkNode
          "n" "peer").networkNodes "n" := by decide
  have hdistinct : ([(⟨.create, 1, "peer", "n", "t", "k", [1], 0⟩ : TableEvent),
      ⟨.delete, 2, "peer", "n", "t", "k", [1], 5⟩].map TableEvent.LTime).Nodup := by decide
  have hperm : [(⟨.create, 1, "peer", "n", "t", "k", [1], 0⟩ : TableEvent),
      ⟨.delete, 2, "peer", "n", "t", "k", [1], 5⟩].Perm
      [⟨.delete, 2, "peer", "n", "t", "k", [1], 5⟩,
        ⟨.create, 1, "peer", "n", "t", "k", [1], 0⟩] :=
    List.Perm.swap _ _ _
  exact ⟨hnet, rfl, hevs, hdistinct, hperm,
    handleTableEvent_bulk_converges hnet rfl hevs hdistinct hperm⟩

/-- Two events a reachable state ignores although they are no older than the
entry: an event exactly as new as the held entry loses the tie, and the
largest time wraps the clock to zero, below every time delivered. -/
theorem table_event_tie_keeps_held_entry :
    ∃ s : NetworkDB,
      Transition.run NetworkDB.call (NetworkDB.New "local" 1800000000000)
          [.notifyJoin ⟨"peer", "10.0.0.2", 7946⟩ none, .joinNetwork "n",
            .notifyMsg (.networkEvent ⟨.join, 1, "peer", "n"⟩),
            .notifyMsg (.tableEvent ⟨.create, 5, "peer", "n", "t", "k", [1], 0⟩)] = s ∧
      s.attachment "local" "n" = some ⟨"n", 1, true, false, 0⟩ ∧
      "peer" ∈ s.networkNodes "n" ∧
      s.getEntry "t" "n" "k" = some ⟨"peer", 5, [1], false, 0⟩ ∧
      (s.handleTableEvent ⟨.update, 5, "peer", "n", "t", "k", [2], 0⟩ true).1.getEntry
          "t" "n" "k" = some ⟨"peer", 5, [1], false, 0⟩ ∧
      (s.handleTableEvent ⟨.update, 18446744073709551615, "peer", "n", "t", "k", [2], 0⟩
          true).1.tableClock.Time = 0 :=
  ⟨_, rfl, by decide +kernel, by decide +kernel, by decide +kernel, by decide +kernel,
    by decide +kernel⟩

end Libnetwork.NetworkDb
