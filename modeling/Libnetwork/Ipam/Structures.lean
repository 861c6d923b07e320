import Mathlib
import Libnetwork.Ipam.Net
import Libnetwork.Bitseq.Sequence

/-!
# The pool table of an address space

`ipam/structures.go` keys every pool of an address space by a `SubnetKey`:
its address space, its network and, for a sub-pool, the text of the
sub-range it was asked for.  A sub-pool points at its master through
`ParentKey` and holds an address range inside the master's bitmask; a master
created for a sub-pool alone (an implicit parent) looks like any other
master.  `RefCount` counts the holders of a pool: its explicit request and,
for a master, its sub-pools.

`updatePoolDBOnAdd` and `updatePoolDBOnRemoval` return a closure that the
caller runs after writing the table; here it is the master pool whose
bitmask the closure inserts or retrieves, if any.  The two walks up the
chain of parents loop in the source when the chain has a cycle; they take
one turn of fuel per pool and answer `none` (the call does not return) when
it runs out.  Go's `int` counts are `Int`: they move by one per request.
-/

namespace Libnetwork.Ipam

open Bitseq GoNet

structure SubnetKey where
  AddressSpace : String
  Subnet : String
  ChildSubnet : String
  deriving DecidableEq, Repr

/-- The zero `SubnetKey{}`: the `ParentKey` of a master pool. -/
def SubnetKey.zero : SubnetKey := ⟨"", "", ""⟩

/-- `SubnetKey.String()`: the pool id. -/
def SubnetKey.toString (s : SubnetKey) : String :=
  let k := s.AddressSpace ++ "/" ++ s.Subnet
  if s.ChildSubnet != "" then k ++ "/" ++ s.ChildSubnet else k

/-- `SubnetKey.FromString`: read a pool id back; `none` for the source's
error. -/
def SubnetKey.FromString (str : String) : Option SubnetKey :=
  if str == "" || !str.toList.contains '/' then none
  else
    match (str.toList.splitOn '/').map String.ofList with
    | [as, a, b] => some ⟨as, a ++ "/" ++ b, ""⟩
    | [as, a, b, c, d] => some ⟨as, a ++ "/" ++ b, c ++ "/" ++ d⟩
    | _ => none

/-- `AddressRange`: the sub-range of a sub-pool, as ordinals of the master's
bitmask. -/
structure AddressRange where
  Sub : IPNet
  Start : UInt64
  End : UInt64
  deriving DecidableEq, Repr

structure PoolData where
  ParentKey : SubnetKey
  Pool : IPNet
  Range : Option AddressRange
  RefCount : Int
  deriving DecidableEq, Repr

/-- The pools of an address space by key. -/
abbrev Subnets := AList fun _ : SubnetKey => PoolData

/-- `addrSpace` without a datastore: its pool table. -/
structure AddrSpace where
  subnets : Subnets

/-- The errors of the allocator, with the `ipamapi` ones first. -/
inductive IpamError
  | invalidAddressSpace
  | invalidPool
  | invalidSubPool
  | noAvailableIPs
  | ipAlreadyAllocated
  | ipOutOfRange
  | poolOverlap
  | badPool
  | predefinedPoolReserved (nw : String)
  | addressSpaceNotFound (as : String)
  | poolNotFound (poolID : String)
  | invalidPoolId (poolID : String)
  | invalidAddressNil
  | noDefaultPool
  | noPredefinedPool (v : ℕ)
  | parsePoolRequest (as pool subPool : String) (e : IpamError)
  | ipMaskIncompatible (context computation : String)
  | bitseq (e : BitseqError)
  deriving DecidableEq, Repr

/-- The text of each error. -/
def IpamError.message : IpamError → String
  | .invalidAddressSpace => "Invalid Address Space"
  | .invalidPool => "Invalid Address Pool"
  | .invalidSubPool => "Invalid Address SubPool"
  | .noAvailableIPs => "No available addresses on this pool"
  | .ipAlreadyAllocated => "Address already in use"
  | .ipOutOfRange => "Requested address is out of range"
  | .poolOverlap => "Pool overlaps with other one on this address space"
  | .badPool => "Address space does not contain specified address pool"
  | .predefinedPoolReserved nw => "predefined pool " ++ nw ++ " is already reserved"
  | .addressSpaceNotFound as =>
      "cannot find address space " ++ as ++
        " (most likely the backing datastore is not configured)"
  | .poolNotFound poolID => "cannot find address pool for poolID:" ++ poolID
  | .invalidPoolId poolID => "invalid pool id: " ++ poolID
  | .invalidAddressNil => "invalid address: nil"
  | .noDefaultPool => "no default pool available for non-default address spaces"
  | .noPredefinedPool v =>
      "could not find an available, non-overlapping IPv" ++ toString v ++
        " address pool among the defaults to assign to the network"
  | .parsePoolRequest as pool subPool e =>
      "failed to parse pool request for address space \"" ++ as ++ "\" pool \"" ++ pool ++
        "\" subpool \"" ++ subPool ++ "\": " ++ e.message
  | .ipMaskIncompatible context computation =>
      context ++ ": cannot compute " ++ computation ++
        " ip address because ip and mask are not compatible"
  | .bitseq e => e.message

/-! ## The table functions -/

/-- `contains`: a master pool of the address space overlaps `nw`. -/
def AddrSpace.contains (aSpace : AddrSpace) (space : String) (nw : IPNet) : Bool :=
  aSpace.subnets.entries.any fun e =>
    space == e.1.AddressSpace && e.1.ChildSubnet == "" &&
      (nw.Contains e.2.Pool.IP || e.2.Pool.Contains nw.IP)

/-- The loop of `incRefCount` from the pool at `key`: add `delta` to the
count of the pool and of each of its parents. -/
def incRefCountLoop (delta : Int) : ℕ → SubnetKey → Subnets → Option Subnets
  | 0, _, _ => none
  | fuel + 1, key, subnets =>
      match subnets.lookup key with
      | none => some subnets
      | some c =>
          incRefCountLoop delta fuel c.ParentKey
            (subnets.insert key { c with RefCount := c.RefCount + delta })

/-- `incRefCount`, from a pool of the table. -/
def incRefCount (subnets : Subnets) (key : SubnetKey) (delta : Int) : Option Subnets :=
  incRefCountLoop delta (subnets.entries.length + 1) key subnets

/-- `updatePoolDBOnAdd`: enter the pool `k`, its range `ipr` if it is a
sub-pool, and an implicit parent if its master is not in the table yet.
The second component is the master whose bitmask is to be inserted. -/
def AddrSpace.updatePoolDBOnAdd (aSpace : AddrSpace) (k : SubnetKey) (nw : IPNet)
    (ipr : Option AddressRange) (pdf : Bool) :
    Option (Except IpamError (AddrSpace × Option (SubnetKey × IPNet))) :=
  if k ∈ aSpace.subnets then
    if pdf then some (.error (.predefinedPoolReserved nw.String))
    else some (.error .poolOverlap)
  else
    match ipr with
    | none =>
        if aSpace.contains k.AddressSpace nw then some (.error .poolOverlap)
        else
          some (.ok (⟨aSpace.subnets.insert k ⟨SubnetKey.zero, nw, none, 1⟩⟩, some (k, nw)))
    | some ipr =>
        let parentKey : SubnetKey := ⟨k.AddressSpace, k.Subnet, ""⟩
        let subnets := aSpace.subnets.insert k ⟨parentKey, nw, some ipr, 1⟩
        match subnets.lookup parentKey with
        | some _ =>
            (incRefCount subnets parentKey 1).map fun subnets => .ok (⟨subnets⟩, none)
        | none =>
            some (.ok (⟨subnets.insert parentKey ⟨SubnetKey.zero, nw, none, 1⟩⟩,
              some (parentKey, nw)))

/-- The loop of `updatePoolDBOnRemoval` from key `k`: delete every pool of
the chain whose count has dropped to zero, and stop at the first master
deleted, whose bitmask is then retrieved. -/
def removalLoop : ℕ → SubnetKey → Subnets → Option (Subnets × Option (SubnetKey × IPNet))
  | 0, _, _ => none
  | fuel + 1, k, subnets =>
      match subnets.lookup k with
      | none => some (subnets, none)
      | some c =>
          if c.RefCount = 0 then
            match c.Range with
            | none => some (subnets.erase k, some (k, c.Pool))
            | some _ => removalLoop fuel c.ParentKey (subnets.erase k)
          else removalLoop fuel c.ParentKey subnets

/-- `updatePoolDBOnRemoval`: release one hold on pool `k`. -/
def AddrSpace.updatePoolDBOnRemoval (aSpace : AddrSpace) (k : SubnetKey) :
    Option (Except IpamError (AddrSpace × Option (SubnetKey × IPNet))) :=
  match aSpace.subnets.lookup k with
  | none => some (.error .badPool)
  | some _ =>
      match incRefCount aSpace.subnets k (-1) with
      | none => none
      | some subnets =>
          (removalLoop (subnets.entries.length + 1) k subnets).map fun r =>
            .ok (⟨r.1⟩, r.2)

theorem length_entries_pos {subnets : Subnets} {k : SubnetKey} {p : PoolData}
    (hk : subnets.lookup k = some p) : 0 < subnets.entries.length := by
  have hmem : k ∈ subnets := AList.lookup_isSome.mp (by simp [hk])
  rw [AList.mem_keys] at hmem
  exact List.length_pos_of_mem (List.mem_map.mp hmem).choose_spec.1

/-- Releasing a master that is held once deletes it and leaves every other
pool in the table: sub-pools that still point at it are then orphans. -/
theorem AddrSpace.updatePoolDBOnRemoval_master {aSpace : AddrSpace} {k : SubnetKey}
    {p : PoolData} (hk : aSpace.subnets.lookup k = some p) (hmaster : p.Range = none)
    (hone : p.RefCount = 1) (hparent : aSpace.subnets.lookup p.ParentKey = none) :
    ∃ subnets, aSpace.updatePoolDBOnRemoval k = some (.ok (⟨subnets⟩, some (k, p.Pool))) ∧
      subnets.lookup k = none ∧
      ∀ k', k' ≠ k → subnets.lookup k' = aSpace.subnets.lookup k' := by
  have hne : p.ParentKey ≠ k := by
    intro h
    rw [h, hk] at hparent
    cases hparent
  obtain ⟨n, hn⟩ : ∃ n, aSpace.subnets.entries.length = n + 1 :=
    ⟨_, (Nat.succ_pred_eq_of_pos (length_entries_pos hk)).symm⟩
  let dropped := aSpace.subnets.insert k { p with RefCount := p.RefCount + -1 }
  have hinc : incRefCount aSpace.subnets k (-1) = some dropped := by
    rw [incRefCount, hn, incRefCountLoop, hk]
    simp only
    rw [incRefCountLoop, AList.lookup_insert_ne hne, hparent]
  have hremove : removalLoop (dropped.entries.length + 1) k dropped =
      some (dropped.erase k, some (k, p.Pool)) := by
    rw [removalLoop, AList.lookup_insert]
    simp [hone, hmaster]
  refine ⟨dropped.erase k, ?_, AList.lookup_erase _ _, fun k' hk' => ?_⟩
  · rw [AddrSpace.updatePoolDBOnRemoval, hk]
    simp only
    rw [hinc]
    simp only
    rw [hremove]
    rfl
  · rw [AList.lookup_erase_ne hk', AList.lookup_insert_ne hk']

/-- The walk of `RequestAddress` and `ReleaseAddress` from a pool to its
master: `none` when a parent is missing (the source dereferences `nil`) or
the chain loops. -/
def masterLoop (subnets : Subnets) :
    ℕ → SubnetKey → PoolData → Option (SubnetKey × PoolData)
  | 0, _, _ => none
  | fuel + 1, k, c =>
      match c.Range with
      | none => some (k, c)
      | some _ =>
          match subnets.lookup c.ParentKey with
          | none => none
          | some parent => masterLoop subnets fuel c.ParentKey parent

/-- The master pool of pool `k`. -/
def AddrSpace.master (aSpace : AddrSpace) (k : SubnetKey) (p : PoolData) :
    Option (SubnetKey × PoolData) :=
  masterLoop aSpace.subnets (aSpace.subnets.entries.length + 1) k p

end Libnetwork.Ipam
