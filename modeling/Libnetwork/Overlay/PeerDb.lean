import Mathlib
import Libnetwork.Overlay.Encryption

/-!
# The overlay peer table and the sandbox's neighbors

`drivers/overlay/peerdb.go` keeps, for each network, a set matrix from a
peer's address and MAC to the endpoints that announce them.  Several
endpoints may announce one pair for a while; only the first is programmed
into the sandbox, as an IP neighbor and a bridge fdb entry of
`osl/neigh_linux.go`.  `peerDeleteOp` removes the pair's entries and, when
the table still holds the pair, programs it again from a survivor found by
`peerDbSearch`.

The model is one network whose sandbox exists, for remote peers whose
subnet, VXLAN id and sandbox join are found, with the kernel's netlink calls
succeeding and no miss notifications (`l2Miss = l3Miss = false`).  The set
matrix is keyed by the text of the pair; the walk of `peerDbSearch` reads it
back with `net.ParseIP` and `net.ParseMAC`, and the model keeps the MAC's
bytes, which its text reads back to.  The walk visits the table in Go's map
order, which the model takes as an argument.
-/

namespace Libnetwork.Overlay

open GoNet

/-- `net.HardwareAddr`. -/
abbrev HardwareAddr := List UInt8

/-- `HardwareAddr.String`: two hex digits a byte, joined by colons. -/
def HardwareAddr.String (a : HardwareAddr) : String :=
  ":".intercalate (a.map fun b => hexString [b])

/-- `peerKey`. -/
structure PeerKey where
  peerIP : IP
  peerMac : HardwareAddr
  deriving DecidableEq, Repr

/-- `peerKey.String`: the key of the set matrix. -/
def PeerKey.String (k : PeerKey) : String :=
  IP.String k.peerIP ++ " " ++ HardwareAddr.String k.peerMac

/-- `net.ParseMAC` of `HardwareAddr.String`: the colon form of 6, 8 or 20
bytes reads back, and any other is refused and read as `nil`. -/
def HardwareAddr.readBack (a : HardwareAddr) : HardwareAddr :=
  if a.length = 6 ∨ a.length = 8 ∨ a.length = 20 then a else []

/-- `peerKey.Scan` of `peerKey.String`: the key as the walk reads it back. -/
def PeerKey.readBack (k : PeerKey) : PeerKey :=
  ⟨parseIP (IP.String k.peerIP), HardwareAddr.readBack k.peerMac⟩

/-- `peerEntryDB`: what the set matrix holds for an endpoint. -/
structure PeerEntryDB where
  eid : String
  vtep : String
  peerIPMaskOnes : ℕ
  peerIPMaskBits : ℕ
  isLocal : Bool
  deriving DecidableEq, Repr

/-- `peerEntry`. -/
structure PeerEntry where
  eid : String
  vtep : IP
  peerIPMask : IPMask
  isLocal : Bool

/-- `peerEntry.MarshalDB`. -/
def PeerEntry.MarshalDB (p : PeerEntry) : PeerEntryDB :=
  ⟨p.eid, IP.String p.vtep, (Size p.peerIPMask).1, (Size p.peerIPMask).2, p.isLocal⟩

/-- `peerEntryDB.UnMarshalDB`. -/
def PeerEntryDB.UnMarshalDB (p : PeerEntryDB) : PeerEntry :=
  ⟨p.eid, parseIP p.vtep, CIDRMask p.peerIPMaskOnes p.peerIPMaskBits, p.isLocal⟩

/-! ## The set matrix of a network -/

/-- A row of the set matrix: the key, as first inserted under its text, and
its set, without repeats, in the order of insertion. -/
structure PeerRow where
  key : PeerKey
  entries : List PeerEntryDB
  deriving DecidableEq, Repr

/-- `setMatrix.Insert`: whether the entry is new, and the set's size. -/
def insertPeer (db : List PeerRow) (k : PeerKey) (v : PeerEntryDB) : List PeerRow × Bool × ℕ :=
  match db.find? (·.key.String == k.String) with
  | none => (db ++ [⟨k, [v]⟩], true, 1)
  | some row =>
      if v ∈ row.entries then (db, false, row.entries.length)
      else
        (db.map (fun r => if r.key.String == k.String then { r with entries := r.entries ++ [v] }
          else r), true, row.entries.length + 1)

/-- `setMatrix.Remove`: whether the entry was there, and the size of the
set left; a set left empty is dropped. -/
def removePeer (db : List PeerRow) (k : PeerKey) (v : PeerEntryDB) : List PeerRow × Bool × ℕ :=
  match db.find? (·.key.String == k.String) with
  | none => (db, false, 0)
  | some row =>
      if v ∈ row.entries then
        let entries := row.entries.erase v
        (if entries.isEmpty then db.filter (·.key.String != k.String)
          else db.map fun r => if r.key.String == k.String then { r with entries } else r,
          true, entries.length)
      else (db, false, row.entries.length)

/-- The pairs a walk of the table visits: each key once, read back from its
text, with one entry of its set (`entryDBList[0]` of a set's slice), in any
order. -/
def IsWalk (db : List PeerRow) (visit : List (PeerKey × PeerEntryDB)) : Prop :=
  ∃ picks : List (PeerKey × PeerEntryDB),
    List.Forall₂ (fun row p => p.1 = row.key.readBack ∧ p.2 ∈ row.entries) db picks ∧
      visit.Perm picks

/-- `peerDbSearch` over the pairs its walk visits: the first whose address
is `peerIP`, whatever its MAC. -/
def peerDbSearch (visit : List (PeerKey × PeerEntryDB)) (peerIP : IP) :
    Option (PeerKey × PeerEntryDB) :=
  visit.find? fun p => Equal p.1.peerIP peerIP

/-! ## What the set matrix keeps -/

/-- The shape `setMatrix` keeps: one row a key text, every set non-empty and
without repeats. -/
structure PeerDbWF (db : List PeerRow) : Prop where
  keys : (db.map (·.key.String)).Nodup
  nonempty : ∀ r ∈ db, r.entries ≠ []
  nodup : ∀ r ∈ db, r.entries.Nodup

/-- `setMatrix.Cardinality`: the size of the set under a key, `0` for none. -/
def cardinality (db : List PeerRow) (k : PeerKey) : ℕ :=
  ((db.find? (·.key.String == k.String)).map (·.entries.length)).getD 0

/-- Rewriting the set under one key text leaves the other rows, and finds
the rewritten row where the old one was. -/
theorem find?_map_entries (db : List PeerRow) (k : PeerKey) (g : PeerRow → List PeerEntryDB) :
    (db.map fun r => if r.key.String == k.String then { r with entries := g r } else r).find?
        (·.key.String == k.String) =
      (db.find? (·.key.String == k.String)).map fun r => { r with entries := g r } := by
  induction db with
  | nil => rfl
  | cons r db ih =>
      simp only [beq_iff_eq] at ih
      by_cases h : r.key.String = k.String <;> simp [h, ih, -List.find?_map]

theorem map_key_map_entries (db : List PeerRow) (k : PeerKey) (g : PeerRow → List PeerEntryDB) :
    (db.map fun r => if r.key.String == k.String then { r with entries := g r } else r).map
        (·.key.String) = db.map (·.key.String) := by
  simp only [List.map_map]
  congr 1
  funext r
  by_cases h : r.key.String = k.String <;> simp [h]

theorem key_of_find? {db : List PeerRow} {k : PeerKey} {row : PeerRow}
    (hfind : db.find? (·.key.String == k.String) = some row) : row.key.String = k.String := by
  simpa using List.find?_some hfind

theorem PeerDbWF.eq_of_find? {db : List PeerRow} (hwf : PeerDbWF db) {k : PeerKey}
    {row r : PeerRow} (hfind : db.find? (·.key.String == k.String) = some row) (hr : r ∈ db)
    (hkey : r.key.String = k.String) : r = row := by
  have hrow : row ∈ db := List.mem_of_find?_eq_some hfind
  exact List.inj_on_of_nodup_map hwf.keys hr hrow (hkey.trans (key_of_find? hfind).symm)

theorem insertPeer_cardinality (db : List PeerRow) (k : PeerKey) (v : PeerEntryDB) :
    (insertPeer db k v).2.2 = cardinality (insertPeer db k v).1 k := by
  unfold insertPeer
  cases hfind : db.find? (·.key.String == k.String) with
  | none => simp [cardinality, List.find?_append, hfind]
  | some row =>
      by_cases hv : v ∈ row.entries
      · simp [hv, cardinality, hfind]
      · simp only [hv, if_false, cardinality]
        rw [find?_map_entries db k fun r => r.entries ++ [v], hfind]
        simp

theorem removePeer_cardinality (db : List PeerRow) (k : PeerKey) (v : PeerEntryDB) :
    (removePeer db k v).2.2 = cardinality (removePeer db k v).1 k := by
  unfold removePeer
  cases hfind : db.find? (·.key.String == k.String) with
  | none => simp [cardinality, hfind]
  | some row =>
      by_cases hv : v ∈ row.entries
      · by_cases hempty : (row.entries.erase v).isEmpty
        · -- the emptied set is dropped, and no row is left under the key
          have hnone : (db.filter (·.key.String != k.String)).find? (·.key.String == k.String) =
              none := List.find?_eq_none.mpr fun r hr => by simp_all
          simp only [hv, if_true, hempty, cardinality, hnone]
          simpa using hempty
        · simp only [hv, if_true, hempty, if_false, Bool.false_eq_true, cardinality]
          rw [find?_map_entries db k fun _ => row.entries.erase v, hfind]
          simp
      · simp [hv, cardinality, hfind]

theorem PeerDbWF.insertPeer {db : List PeerRow} (hwf : PeerDbWF db) (k : PeerKey)
    (v : PeerEntryDB) : PeerDbWF (insertPeer db k v).1 := by
  unfold Overlay.insertPeer
  cases hfind : db.find? (·.key.String == k.String) with
  | none =>
      have hnew : ∀ r ∈ db, ¬ r.key.String = k.String := by
        simpa using List.find?_eq_none.mp hfind
      refine ⟨?_, ?_, ?_⟩
      · simpa [List.nodup_append] using ⟨hwf.keys, hnew⟩
      · simp only [List.mem_append, List.mem_singleton]
        rintro r (hr | rfl)
        exacts [hwf.nonempty r hr, List.cons_ne_nil _ _]
      · simp only [List.mem_append, List.mem_singleton]
        rintro r (hr | rfl)
        exacts [hwf.nodup r hr, List.nodup_singleton _]
  | some row =>
      by_cases hv : v ∈ row.entries
      · simpa [hv] using hwf
      · simp only [hv, if_false]
        refine ⟨?_, ?_, ?_⟩
        · rw [map_key_map_entries db k fun r => r.entries ++ [v]]
          exact hwf.keys
        · simp only [List.mem_map]
          rintro _ ⟨r, hr, rfl⟩
          by_cases h : r.key.String = k.String <;> simp [h, hwf.nonempty r hr]
        · simp only [List.mem_map]
          rintro _ ⟨r, hr, rfl⟩
          by_cases h : r.key.String = k.String
          · -- the grown set is the found row's
            obtain rfl := hwf.eq_of_find? hfind hr h
            simpa [h, List.nodup_append] using ⟨hwf.nodup r hr, fun a ha hav => hv (hav ▸ ha)⟩
          · simpa [h] using hwf.nodup r hr

theorem PeerDbWF.removePeer {db : List PeerRow} (hwf : PeerDbWF db) (k : PeerKey)
    (v : PeerEntryDB) : PeerDbWF (removePeer db k v).1 := by
  unfold Overlay.removePeer
  cases hfind : db.find? (·.key.String == k.String) with
  | none => exact hwf
  | some row =>
      by_cases hv : v ∈ row.entries
      · by_cases hempty : (row.entries.erase v).isEmpty
        · simp only [hv, if_true, hempty]
          refine ⟨?_, ?_, ?_⟩
          · exact hwf.keys.sublist ((List.filter_sublist).map _)
          · exact fun r hr => hwf.nonempty r (List.mem_of_mem_filter hr)
          · exact fun r hr => hwf.nodup r (List.mem_of_mem_filter hr)
        · simp only [hv, if_true, hempty, if_false, Bool.false_eq_true]
          refine ⟨?_, ?_, ?_⟩
          · rw [map_key_map_entries db k fun _ => row.entries.erase v]
            exact hwf.keys
          · simp only [List.mem_map]
            rintro _ ⟨r, hr, rfl⟩
            by_cases h : r.key.String = k.String
            · simpa [h, List.isEmpty_iff] using hempty
            · simpa [h] using hwf.nonempty r hr
          · simp only [List.mem_map]
            rintro _ ⟨r, hr, rfl⟩
            by_cases h : r.key.String = k.String
            · simpa [h] using (hwf.nodup row (List.mem_of_find?_eq_some hfind)).erase v
            · simpa [h] using hwf.nodup r hr
      · simpa [hv] using hwf

section Walk

variable {db : List PeerRow} {visit : List (PeerKey × PeerEntryDB)}

/-- Every pair a walk visits is a key of the table, read back, with one of
its entries. -/
theorem IsWalk.mem (h : IsWalk db visit) {p : PeerKey × PeerEntryDB} (hp : p ∈ visit) :
    ∃ row ∈ db, p.1 = row.key.readBack ∧ p.2 ∈ row.entries := by
  obtain ⟨picks, hrows, hperm⟩ := h
  have hpick : p ∈ picks := hperm.mem_iff.mp hp
  clear hperm hp
  induction hrows with
  | nil => cases hpick
  | cons hrow _ ih =>
      rcases List.mem_cons.mp hpick with rfl | hpick
      · exact ⟨_, List.mem_cons_self, hrow⟩
      · obtain ⟨row, hmem, hrow⟩ := ih hpick
        exact ⟨row, List.mem_cons_of_mem _ hmem, hrow⟩

theorem IsWalk.exists_of_mem (h : IsWalk db visit) {row : PeerRow} (hrow : row ∈ db) :
    ∃ p ∈ visit, p.1 = row.key.readBack ∧ p.2 ∈ row.entries := by
  obtain ⟨picks, hrows, hperm⟩ := h
  suffices ∃ p ∈ picks, p.1 = row.key.readBack ∧ p.2 ∈ row.entries by
    obtain ⟨p, hp, hpick⟩ := this
    exact ⟨p, hperm.mem_iff.mpr hp, hpick⟩
  clear hperm
  induction hrows with
  | nil => cases hrow
  | cons hpick _ ih =>
      rcases List.mem_cons.mp hrow with rfl | hrow
      · exact ⟨_, List.mem_cons_self, hpick⟩
      · obtain ⟨p, hp, hpick⟩ := ih hrow
        exact ⟨p, List.mem_cons_of_mem _ hp, hpick⟩

/-- `peerDbSearch` answers a pair of the table whose address is the one
searched, with any MAC. -/
theorem IsWalk.peerDbSearch_sound (h : IsWalk db visit) {ip : IP} {k : PeerKey}
    {e : PeerEntryDB} (hs : peerDbSearch visit ip = some (k, e)) :
    Equal k.peerIP ip = true ∧ ∃ row ∈ db, k = row.key.readBack ∧ e ∈ row.entries :=
  ⟨by simpa using List.find?_some hs, h.mem (List.mem_of_find?_eq_some hs)⟩

theorem IsWalk.peerDbSearch_eq_none_iff (h : IsWalk db visit) {ip : IP} :
    peerDbSearch visit ip = none ↔ ∀ row ∈ db, Equal row.key.readBack.peerIP ip = false := by
  unfold peerDbSearch
  rw [List.find?_eq_none]
  constructor
  · intro hnone row hrow
    obtain ⟨p, hp, hkey, _⟩ := h.exists_of_mem hrow
    simpa [hkey] using hnone p hp
  · intro hall p hp
    obtain ⟨row, hrow, hkey, _⟩ := h.mem hp
    simp [hkey, hall row hrow]

end Walk

/-! ## The sandbox's neighbors -/

/-- `neigh`: an entry of the namespace's neighbor cache. -/
structure Neigh where
  dstIP : IP
  dstMac : HardwareAddr
  linkName : String
  family : ℕ
  deriving DecidableEq, Repr

/-- `syscall.AF_BRIDGE`: the family of an fdb entry. -/
def AF_BRIDGE : ℕ := 7

structure NeighborSearchError where
  ip : IP
  mac : HardwareAddr
  present : Bool
  deriving DecidableEq, Repr

def NeighborSearchError.Error (e : NeighborSearchError) : String :=
  "Search neighbor failed for IP " ++ IP.String e.ip ++ ", mac " ++ HardwareAddr.String e.mac ++
    ", present in db:" ++ toString e.present

/-- Whether a cache entry is for the address and the MAC. -/
def Neigh.matches (nh : Neigh) (dstIP : IP) (dstMac : HardwareAddr) : Bool :=
  Equal nh.dstIP dstIP && nh.dstMac == dstMac

/-- `findNeighbor`: the first entry for the address and the MAC, of either
family. -/
def findNeighbor (neighbors : List Neigh) (dstIP : IP) (dstMac : HardwareAddr) : Option Neigh :=
  neighbors.find? (·.matches dstIP dstMac)

/-- `DeleteNeighbor`: the first entry for the pair dropped from the cache. -/
def DeleteNeighbor (neighbors : List Neigh) (dstIP : IP) (dstMac : HardwareAddr) :
    List Neigh × Option NeighborSearchError :=
  match findNeighbor neighbors dstIP dstMac with
  | none => (neighbors, some ⟨dstIP, dstMac, false⟩)
  | some _ => (neighbors.eraseP (·.matches dstIP dstMac), none)

/-- `AddNeighbor`: a new entry for the pair; one that is present is
refused unless `force`, and then programmed again without a second entry. -/
def AddNeighbor (neighbors : List Neigh) (dstIP : IP) (dstMac : HardwareAddr) (force : Bool)
    (linkName : String) (family : ℕ) : List Neigh × Option NeighborSearchError :=
  match findNeighbor neighbors dstIP dstMac with
  | some _ => if !force then (neighbors, some ⟨dstIP, dstMac, true⟩) else (neighbors, none)
  | none => (neighbors ++ [⟨dstIP, dstMac, linkName, family⟩], none)

/-! ## The peer operations -/

/-- The errors of `peerAddOp` and `peerDeleteOp`. -/
inductive PeerOpError
  | invalidNetworkId
  | invalidEndpointId
  | neighborAdd (nid eid : String) (e : NeighborSearchError)
  | fdbAdd (nid eid : String) (e : NeighborSearchError)
  | fdbDelete (nid eid : String) (e : NeighborSearchError)
  | neighborDelete (nid eid : String) (e : NeighborSearchError)
  | peerNotFound (peerIP : IP)
  deriving DecidableEq, Repr

/-- The text of each error. -/
def PeerOpError.Error : PeerOpError → String
  | .invalidNetworkId => "invalid network id"
  | .invalidEndpointId => "invalid endpoint id"
  | .neighborAdd nid eid e =>
      "could not add neighbor entry for nid:" ++ nid ++ " eid:" ++ eid ++ " into the sandbox:" ++
        e.Error
  | .fdbAdd nid eid e =>
      "could not add fdb entry for nid:" ++ nid ++ " eid:" ++ eid ++ " into the sandbox:" ++
        e.Error
  | .fdbDelete nid eid e =>
      "could not delete fdb entry for nid:" ++ nid ++ " eid:" ++ eid ++ " into the sandbox:" ++
        e.Error
  | .neighborDelete nid eid e =>
      "could not delete neighbor entry for nid:" ++ nid ++ " eid:" ++ eid ++
        " into the sandbox:" ++ e.Error
  | .peerNotFound peerIP => "peer ip \"" ++ IP.String peerIP ++ "\" not found in peerdb"

def validateID (nid eid : String) : Option PeerOpError :=
  if nid == "" then some .invalidNetworkId
  else if eid == "" then some .invalidEndpointId
  else none

/-- The network's peer table and its sandbox's neighbor cache. -/
structure PeerState where
  db : List PeerRow
  neighbors : List Neigh
  deriving DecidableEq, Repr

/-- `peerAddOp` with no miss notification, on the network's VXLAN
interface `vxlanName`. -/
def PeerState.peerAddOp (s : PeerState) (nid eid : String) (peerIP : IP) (peerIPMask : IPMask)
    (peerMac : HardwareAddr) (vtep : IP) (updateDB localPeer : Bool) (vxlanName : String) :
    PeerState × Option PeerOpError :=
  match validateID nid eid with
  | some e => (s, some e)
  | none =>
      let (db, _, dbEntries) :=
        if updateDB then insertPeer s.db ⟨peerIP, peerMac⟩ ⟨eid, IP.String vtep,
          (Size peerIPMask).1, (Size peerIPMask).2, localPeer⟩
        else (s.db, false, 0)
      let s := { s with db }
      -- local peers need nothing more
      if localPeer then (s, none)
      else
        match AddNeighbor s.neighbors peerIP peerMac false vxlanName 0 with
        | (_, some e) =>
            -- a pair announced twice: only the first announcement is programmed
            if dbEntries > 1 then (s, none) else (s, some (.neighborAdd nid eid e))
        | (neighbors, none) =>
            match AddNeighbor neighbors vtep peerMac false vxlanName AF_BRIDGE with
            | (_, some e) => ({ s with neighbors }, some (.fdbAdd nid eid e))
            | (neighbors, none) => ({ s with neighbors }, none)

/-- The end of `peerDeleteOp`: with entries left under the key, one
configuration of the address is programmed again from the table. -/
def PeerState.restorePeer (s : PeerState) (nid : String) (peerIP : IP) (dbEntries : ℕ)
    (vxlanName : String) (visit : List (PeerKey × PeerEntryDB)) : PeerState × Option PeerOpError :=
  if dbEntries = 0 then (s, none)
  else
    match peerDbSearch visit peerIP with
    | none => (s, some (.peerNotFound peerIP))
    | some (k, e) =>
        let pe := e.UnMarshalDB
        s.peerAddOp nid pe.eid peerIP pe.peerIPMask k.peerMac pe.vtep false pe.isLocal vxlanName

/-- `peerDeleteOp`, with the pairs the walk of `peerDbSearch` visits. -/
def PeerState.peerDeleteOp (s : PeerState) (nid eid : String) (peerIP : IP)
    (peerIPMask : IPMask) (peerMac : HardwareAddr) (vtep : IP) (localPeer : Bool)
    (vxlanName : String) (visit : List (PeerKey × PeerEntryDB)) : PeerState × Option PeerOpError :=
  match validateID nid eid with
  | some e => (s, some e)
  | none =>
      let (db, _, dbEntries) := removePeer s.db ⟨peerIP, peerMac⟩ ⟨eid, IP.String vtep,
        (Size peerIPMask).1, (Size peerIPMask).2, localPeer⟩
      let s := { s with db }
      -- local peers have nothing programmed in the sandbox
      if localPeer then s.restorePeer nid peerIP dbEntries vxlanName visit
      else
        match DeleteNeighbor s.neighbors vtep peerMac with
        | (_, some e) =>
            -- an announcement that was never programmed
            if dbEntries > 0 then (s, none) else (s, some (.fdbDelete nid eid e))
        | (neighbors, none) =>
            match DeleteNeighbor neighbors peerIP peerMac with
            | (_, some e) => ({ s with neighbors }, some (.neighborDelete nid eid e))
            | (neighbors, none) => { s with neighbors }.restorePeer nid peerIP dbEntries vxlanName visit

/-- Three endpoints announce one address: two with one MAC, on two hosts,
and one with another MAC.  Deleting the programmed announcement of the first
MAC leaves the second under its key, but the walk meets the other MAC's key
first, whose neighbor is already there: the restore fails and the address
keeps no neighbor for the first MAC. -/
theorem peerDeleteOp_restores_other_mac :
    ∃ s₁ s₂ s₃ s₄ : PeerState,
      (PeerState.mk [] []).peerAddOp "n1" "e1" [10, 0, 0, 2] [255, 255, 255, 0]
          [2, 66, 10, 0, 0, 2] [192, 168, 0, 1] true false "vx" = (s₁, none) ∧
      s₁.peerAddOp "n1" "e2" [10, 0, 0, 2] [255, 255, 255, 0]
          [2, 66, 10, 0, 0, 2] [192, 168, 0, 2] true false "vx" = (s₂, none) ∧
      s₂.peerAddOp "n1" "e3" [10, 0, 0, 2] [255, 255, 255, 0]
          [2, 66, 10, 0, 0, 3] [192, 168, 0, 3] true false "vx" = (s₃, none) ∧
      s₃.peerDeleteOp "n1" "e1" [10, 0, 0, 2] [255, 255, 255, 0]
          [2, 66, 10, 0, 0, 2] [192, 168, 0, 1] false "vx"
          [(⟨IPv4 10 0 0 2, [2, 66, 10, 0, 0, 3]⟩, ⟨"e3", "192.168.0.3", 24, 32, false⟩),
            (⟨IPv4 10 0 0 2, [2, 66, 10, 0, 0, 2]⟩, ⟨"e2", "192.168.0.2", 24, 32, false⟩)] =
        (s₄, some (.neighborAdd "n1" "e3" ⟨[10, 0, 0, 2], [2, 66, 10, 0, 0, 3], true⟩)) ∧
      IsWalk s₄.db
          [(⟨IPv4 10 0 0 2, [2, 66, 10, 0, 0, 3]⟩, ⟨"e3", "192.168.0.3", 24, 32, false⟩),
            (⟨IPv4 10 0 0 2, [2, 66, 10, 0, 0, 2]⟩, ⟨"e2", "192.168.0.2", 24, 32, false⟩)] ∧
      (∃ row ∈ s₄.db, row.key = ⟨[10, 0, 0, 2], [2, 66, 10, 0, 0, 2]⟩ ∧ row.entries ≠ []) ∧
      findNeighbor s₄.neighbors [10, 0, 0, 2] [2, 66, 10, 0, 0, 2] = none := by
  refine ⟨_, _, _, _, rfl, rfl, rfl, rfl, ?_, by decide, rfl⟩
  refine ⟨[(⟨IPv4 10 0 0 2, [2, 66, 10, 0, 0, 2]⟩, ⟨"e2", "192.168.0.2", 24, 32, false⟩),
    (⟨IPv4 10 0 0 2, [2, 66, 10, 0, 0, 3]⟩, ⟨"e3", "192.168.0.3", 24, 32, false⟩)], ?_, ?_⟩
  · decide
  · exact List.Perm.swap _ _ []

end Libnetwork.Overlay
