import Libnetwork.NetworkDb.Handlers
import Libnetwork.Support.Transition

/-!
# Lamport times of the table entries

Entries take their times from the table clock: a local write stores the
clock's next value, a received event is first witnessed, so the clock passes
it.  Leaving a network is the exception: `deleteNodeNetworkEntries` marks
this node's own entries deleted one time unit after their last write, and
leaves the clock where it was.  The next local write of such an entry can
then reuse the time of the deleted version, and a node that holds that
version drops the write as stale.
-/

namespace Libnetwork.NetworkDb

namespace LamportClock

/-- Below the largest time, witnessing `v` raises the clock to at least
`v + 1`. -/
theorem toNat_Witness (l : LamportClock) {v : UInt64} (hv : v.toNat < 2 ^ 64 - 1) :
    (l.Witness v).counter.toNat = max l.counter.toNat (v.toNat + 1) := by
  unfold Witness
  split
  · rename_i hlt
    rw [UInt64.lt_iff_toNat_lt] at hlt
    omega
  · rename_i hge
    rw [UInt64.lt_iff_toNat_lt] at hge
    simp only [UInt64.toNat_add, UInt64.reduceToNat]
    omega

theorem Witness_max (l : LamportClock) : (l.Witness 18446744073709551615).counter = 0 := by
  have hlt : ¬(18446744073709551615 : UInt64) < l.counter := by
    rw [UInt64.lt_iff_toNat_lt]
    have := l.counter.toNat_lt
    simp only [UInt64.reduceToNat]
    omega
  simp only [Witness, hlt, if_false]
  rfl

end LamportClock

/-- A node writes an entry, leaves the network, rejoins and updates the
entry.  Leaving puts the deleted version one time unit above the clock, so
the update reuses that time; a peer that got the deleted version by bulk sync
drops the update as stale and keeps the entry deleted. -/
theorem leave_then_update_reuses_ltime :
    ∃ afterLeave afterUpdate peer : NetworkDB,
      Transition.run NetworkDB.call (NetworkDB.New "local" 1800000000000)
          [.joinNetwork "n", .createEntry "t" "n" "k" [1], .leaveNetwork "n"] = afterLeave ∧
      afterLeave.getEntry "t" "n" "k" = some ⟨"local", 2, [1], true, 1800000000000⟩ ∧
      afterLeave.tableClock.Time = 1 ∧
      Transition.run NetworkDB.call afterLeave [.joinNetwork "n", .updateEntry "t" "n" "k" [2]] =
        afterUpdate ∧
      afterUpdate.getEntry "t" "n" "k" = some ⟨"local", 2, [2], false, 0⟩ ∧
      Transition.run NetworkDB.call (NetworkDB.New "peer" 1800000000000)
          [.notifyJoin ⟨"local", "10.0.0.1", 7946⟩ none, .joinNetwork "n",
            .notifyMsg (.networkEvent ⟨.join, 1, "local", "n"⟩),
            .notifyMsg (.tableEvent ⟨.create, 1, "local", "n", "t", "k", [1], 0⟩),
            .notifyMsg (.networkEvent ⟨.leave, 2, "local", "n"⟩),
            .notifyMsg (.networkEvent ⟨.join, 3, "local", "n"⟩),
            .notifyMsg (.bulkSync 1
              (.compound [.tableEvent ⟨.delete, 2, "local", "n", "t", "k", [1], 1800⟩]))] =
        peer ∧
      peer.getEntry "t" "n" "k" = some ⟨"local", 2, [1], true, 1800000000000⟩ ∧
      (peer.handleTableEvent ⟨.update, 2, "local", "n", "t", "k", [2], 0⟩ false).2 = false ∧
      (peer.handleTableEvent ⟨.update, 2, "local", "n", "t", "k", [2], 0⟩ false).1.getEntry
        "t" "n" "k" = some ⟨"local", 2, [1], true, 1800000000000⟩ :=
  ⟨_, _, _, rfl, by decide +kernel, by decide +kernel, rfl, by decide +kernel, rfl,
    by decide +kernel, by decide +kernel, by decide +kernel⟩

end Libnetwork.NetworkDb
