import Libnetwork.Ipam.Structures
import Libnetwork.Bitseq.Handle

/-!
# The IPAM allocator

`ipam/allocator.go` without datastores: the address spaces `LocalDefault`
and `GlobalDefault` with their pool tables, the predefined pools of each and
the bitmask of every master pool, one bit per address.  `refresh` and
`writeToStore` do nothing without a datastore, and `Destroy` of a bitmask
does nothing either, so a released master keeps its bitmask until a new
request for it inserts a fresh one.

`RequestPool` and `ReleasePool` update a table and then run the closure it
returned; `RequestAddress` and `ReleaseAddress` walk from the pool to its
master and work on the master's bitmask, at the ordinal of the host part.
A call answers `none` when it does not return: a walk dereferences a
missing parent, or loops.  Options of `RequestAddress` are read as the one
it looks at, `serial`; an address is a Go `net.IP`, `none` for `nil`.

The source retries `RequestPool` on the maskable error of a predefined pool
that is already reserved; `getPredefinedPool` never returns one, so the
error is returned as it is.
-/

namespace Libnetwork.Ipam

open Bitseq GoNet

def localAddressSpace : String := "LocalDefault"

def globalAddressSpace : String := "GlobalDefault"

/-- `Allocator` without datastores. -/
structure Allocator where
  predefined : String → List IPNet
  predefinedStartIndices : String → ℕ
  addrSpaces : String → Option AddrSpace
  addresses : SubnetKey → Option Handle

/-- `NewAllocator(nil, nil)`, with the predefined pools of each address
space. -/
def NewAllocator (predefined : String → List IPNet) : Allocator where
  predefined := predefined
  predefinedStartIndices := fun _ => 0
  addrSpaces := fun as =>
    if as = localAddressSpace ∨ as = globalAddressSpace then some ⟨∅⟩ else none
  addresses := fun _ => none

def Allocator.getAddrSpace (a : Allocator) (as : String) : Except IpamError AddrSpace :=
  match a.addrSpaces as with
  | some aSpace => .ok aSpace
  | none => .error (.addressSpaceNotFound as)

/-- Write the table of an address space back. -/
def Allocator.setAddrSpace (a : Allocator) (as : String) (aSpace : AddrSpace) : Allocator :=
  { a with addrSpaces := Function.update a.addrSpaces as (some aSpace) }

/-- `insertBitMask`: a fresh bitmask of the pool's addresses, with the
network address set, and for IPv4 the broadcast address. -/
def Allocator.insertBitMask (a : Allocator) (key : SubnetKey) (pool : IPNet) : Allocator :=
  let ipVer := getAddressVersion pool.IP
  let (ones, bits) := Size pool.Mask
  let numAddresses : UInt64 := goShiftLeft 1 (bits - ones)
  -- an IPv6 pool of 2^64 addresses or more gets 2^64 - 1 bits
  let numAddresses := if ipVer == .v6 && numAddresses == 0 then numAddresses - 1 else numAddresses
  let h := ((NewHandle numAddresses).Set 0).1
  let h := if ipVer == .v4 then (h.Set (numAddresses - 1)).1 else h
  { a with addresses := Function.update a.addresses key (some h) }

/-- `retrieveBitmask`: the bitmask of a master pool, inserted when missing. -/
def Allocator.retrieveBitmask (a : Allocator) (k : SubnetKey) (n : IPNet) :
    Allocator × Handle :=
  match a.addresses k with
  | some bm => (a, bm)
  | none =>
      let a := a.insertBitMask k n
      (a, (a.addresses k).getD (NewHandle 0))

/-- `getPredefineds`: the predefined pools, from the start index on and
around. -/
def Allocator.getPredefineds (a : Allocator) (as : String) : List IPNet :=
  let p := a.predefined as
  let i := a.predefinedStartIndices as
  let i := if i >= p.length then 0 else i
  p.drop i ++ p.take i

def Allocator.updateStartIndex (a : Allocator) (as : String) (amt : ℕ) : Allocator :=
  let i := a.predefinedStartIndices as + amt
  let i := if i >= (a.predefined as).length then 0 else i
  { a with predefinedStartIndices := Function.update a.predefinedStartIndices as i }

/-- The loop of `getPredefinedPool`: the first predefined pool, at position
`i` and on, that is neither taken nor overlapping. -/
def getPredefinedPoolLoop (aSpace : AddrSpace) (as : String) (v : IpVersion) :
    ℕ → List IPNet → Option (ℕ × IPNet)
  | _, [] => none
  | i, nw :: rest =>
      if v != getAddressVersion nw.IP then getPredefinedPoolLoop aSpace as v (i + 1) rest
      else if ⟨as, nw.String, ""⟩ ∈ aSpace.subnets then
        getPredefinedPoolLoop aSpace as v (i + 1) rest
      else if !aSpace.contains as nw then some (i, nw)
      else getPredefinedPoolLoop aSpace as v (i + 1) rest

def Allocator.getPredefinedPool (a : Allocator) (as : String) (ipV6 : Bool) :
    Except IpamError (Allocator × IPNet) :=
  if as != localAddressSpace && as != globalAddressSpace then .error .noDefaultPool
  else
    match a.getAddrSpace as with
    | .error e => .error e
    | .ok aSpace =>
        match getPredefinedPoolLoop aSpace as (if ipV6 then .v6 else .v4) 0
            (a.getPredefineds as) with
        | some (i, nw) => .ok (a.updateStartIndex as (i + 1), nw)
        | none => .error (.noPredefinedPool (if ipV6 then 6 else 4))

/-- `getAddressRange`: the ordinals of the sub-pool's first and last
addresses in the master's bitmask. -/
def getAddressRange (pool : String) (masterNw : IPNet) : Except IpamError AddressRange :=
  match GoNet.ParseCIDR pool with
  | none => .error .invalidSubPool
  | some (ip, nw) =>
      match GetHostPartIP nw.IP masterNw.Mask with
      | none =>
          .error (.ipMaskIncompatible "failed to compute range's lowest ip address" "host portion")
      | some lIP =>
          match GetBroadcastIP nw.IP nw.Mask with
          | none =>
              .error (.ipMaskIncompatible "failed to compute range's broadcast ip address"
                "broadcast")
          | some bIP =>
              match GetHostPartIP bIP masterNw.Mask with
              | none =>
                  .error (.ipMaskIncompatible "failed to compute range's highest ip address"
                    "host portion")
              | some hIP =>
                  .ok ⟨{ nw with IP := ip }, ipToUint64 (GetMinimalIP lIP),
                    ipToUint64 (GetMinimalIP hIP)⟩

/-- `parsePoolRequest`: the key, network and range of a request, `none` for
a request of a predefined pool. -/
def parsePoolRequest (addressSpace pool subPool : String) :
    Except IpamError (Option (SubnetKey × IPNet × Option AddressRange)) :=
  if addressSpace == "" then .error .invalidAddressSpace
  else if pool == "" && subPool != "" then .error .invalidSubPool
  else if pool == "" then .ok none
  else
    match GoNet.ParseCIDR pool with
    | none => .error .invalidPool
    | some (_, nw) =>
        if subPool != "" then
          match getAddressRange subPool nw with
          | .error e => .error e
          | .ok ipr => .ok (some (⟨addressSpace, nw.String, subPool⟩, nw, some ipr))
        else .ok (some (⟨addressSpace, nw.String, subPool⟩, nw, none))

/-- The closure of a table update: insert or retrieve the master's bitmask. -/
def Allocator.runInsert (a : Allocator) : Option (SubnetKey × IPNet) → Allocator
  | none => a
  | some (k, nw) => a.insertBitMask k nw

/-- `RequestPool`: the pool id and the network. -/
def Allocator.RequestPool (a : Allocator) (addressSpace pool subPool : String) (v6 : Bool) :
    Option (Allocator × Except IpamError (String × IPNet)) :=
  match parsePoolRequest addressSpace pool subPool with
  | .error e => some (a, .error (.parsePoolRequest addressSpace pool subPool e))
  | .ok req =>
      let pdf := req.isNone
      let picked : Except IpamError (Allocator × SubnetKey × IPNet × Option AddressRange) :=
        match req with
        | some (k, nw, ipr) => .ok (a, k, nw, ipr)
        | none =>
            match a.getPredefinedPool addressSpace v6 with
            | .error e => .error e
            | .ok (a, nw) => .ok (a, ⟨addressSpace, nw.String, ""⟩, nw, none)
      match picked with
      | .error e => some (a, .error e)
      | .ok (a, k, nw, ipr) =>
          match a.getAddrSpace addressSpace with
          | .error e => some (a, .error e)
          | .ok aSpace =>
              match aSpace.updatePoolDBOnAdd k nw ipr pdf with
              | none => none
              | some (.error e) => some (a, .error e)
              | some (.ok (aSpace, insert)) =>
                  some ((a.setAddrSpace addressSpace aSpace).runInsert insert,
                    .ok (k.toString, nw))

/-- `ReleasePool`: drop one hold on the pool. -/
def Allocator.ReleasePool (a : Allocator) (poolID : String) :
    Option (Allocator × Option IpamError) :=
  match SubnetKey.FromString poolID with
  | none => some (a, some (.invalidPoolId poolID))
  | some k =>
      match a.getAddrSpace k.AddressSpace with
      | .error e => some (a, some e)
      | .ok aSpace =>
          match aSpace.updatePoolDBOnRemoval k with
          | none => none
          | some (.error e) => some (a, some e)
          | some (.ok (aSpace, remove)) =>
              let a := a.setAddrSpace k.AddressSpace aSpace
              match remove with
              | none => some (a, none)
              | some (k, nw) => some ((a.retrieveBitmask k nw).1, none)

/-- `getAddress`: set a bit of the master's bitmask (the preferred address,
the first free one, or the first free one of the range) and build the
address. -/
def getAddress (nw : IPNet) (bitmask : Handle) (prefAddress : Option IP)
    (ipr : Option AddressRange) (serial : Bool) : Handle × Except IpamError IP :=
  if bitmask.unselected == 0 then (bitmask, .error .noAvailableIPs)
  else
    let r : Except IpamError (Handle × UInt64 × Option BitseqError) :=
      match ipr, prefAddress with
      | none, none => .ok (bitmask.SetAny serial)
      | _, some prefAddress =>
          match GetHostPartIP prefAddress nw.Mask with
          | none =>
              .error (.ipMaskIncompatible
                ("failed to allocate requested address " ++ IP.String prefAddress) "host portion")
          | some hostPart =>
              let ordinal := ipToUint64 (GetMinimalIP hostPart)
              let (bitmask, err) := bitmask.Set ordinal
              .ok (bitmask, ordinal, err)
      | some ipr, none => .ok (bitmask.SetAnyInRange ipr.Start ipr.End serial)
    match r with
    | .error e => (bitmask, .error e)
    | .ok (bitmask, ordinal, err) =>
        match err with
        | none => (bitmask, .ok (generateAddress ordinal nw))
        | some .bitAllocated => (bitmask, .error .ipAlreadyAllocated)
        | some .noBitAvailable => (bitmask, .error .noAvailableIPs)
        | some e => (bitmask, .error (.bitseq e))

/-- The pool of a pool id with its master, or the error of the lookup. -/
def Allocator.poolOf (a : Allocator) (poolID : String) :
    Except IpamError (SubnetKey × PoolData × AddrSpace) :=
  match SubnetKey.FromString poolID with
  | none => .error (.invalidPoolId poolID)
  | some k =>
      match a.getAddrSpace k.AddressSpace with
      | .error e => .error e
      | .ok aSpace =>
          match aSpace.subnets.lookup k with
          | none => .error (.poolNotFound poolID)
          | some p => .ok (k, p, aSpace)

/-- `RequestAddress`: an address of the pool, the preferred one if given. -/
def Allocator.RequestAddress (a : Allocator) (poolID : String)
    (prefAddress : Option IP) (serial : Bool) :
    Option (Allocator × Except IpamError IPNet) :=
  match a.poolOf poolID with
  | .error e => some (a, .error e)
  | .ok (k, p, aSpace) =>
      if prefAddress.isSome && !p.Pool.Contains (prefAddress.getD []) then
        some (a, .error .ipOutOfRange)
      else
        match aSpace.master k p with
        | none => none
        | some (k, c) =>
            let (a, bm) := a.retrieveBitmask k c.Pool
            let (bm, ip) := getAddress p.Pool bm prefAddress p.Range serial
            some ({ a with addresses := Function.update a.addresses k (some bm) },
              ip.map fun ip => ⟨ip, p.Pool.Mask⟩)

/-- `ReleaseAddress`: clear the bit of the address in the master's bitmask. -/
def Allocator.ReleaseAddress (a : Allocator) (poolID : String) (address : Option IP) :
    Option (Allocator × Option IpamError) :=
  match a.poolOf poolID with
  | .error e => some (a, some e)
  | .ok (k, p, aSpace) =>
      match address with
      | none => some (a, some .invalidAddressNil)
      | some address =>
          if !p.Pool.Contains address then some (a, some .ipOutOfRange)
          else
            match aSpace.master k p with
            | none => none
            | some (k, c) =>
                match GetHostPartIP address p.Pool.Mask with
                | none =>
                    some (a, some (.ipMaskIncompatible
                      ("failed to release address " ++ IP.String address) "host portion"))
                | some h =>
                    let (a, bm) := a.retrieveBitmask k c.Pool
                    let (bm, err) := bm.Unset (ipToUint64 h)
                    some ({ a with addresses := Function.update a.addresses k (some bm) },
                      err.map .bitseq)

/-! ## Releasing what the allocator holds for itself -/

/-- `ReleaseAddress` of the network address of a master pool clears the bit
`insertBitMask` set so that it is never handed out, and the next request
hands the network address out. -/
theorem releaseAddress_network_then_requestAddress :
    ∃ a₁ a₂ a₃,
      (NewAllocator fun _ => []).RequestPool "LocalDefault" "10.0.0.0/24" "" false =
        some (a₁, .ok ("LocalDefault/10.0.0.0/24", ⟨[10, 0, 0, 0], [255, 255, 255, 0]⟩)) ∧
      a₁.ReleaseAddress "LocalDefault/10.0.0.0/24" (some [10, 0, 0, 0]) = some (a₂, none) ∧
      a₂.RequestAddress "LocalDefault/10.0.0.0/24" none false =
        some (a₃, .ok ⟨[10, 0, 0, 0], [255, 255, 255, 0]⟩) :=
  ⟨_, _, _, rfl, rfl, rfl⟩

/-! ## Host parts wider than an ordinal -/

/-- In an IPv6 pool with more than 64 host bits, a preferred address whose
host part reaches above bit 63 is allocated at the ordinal of its low 64
bits: `RequestAddress` of `2001:db8:0:1::1` in `2001:db8::/32` hands out
`2001:db8::1`. -/
theorem requestAddress_wide_pool_returns_other_address :
    ∃ a,
      (NewAllocator fun _ => []).RequestPool "LocalDefault" "2001:db8::/32" "" true =
        some (a, .ok ("LocalDefault/2001:db8::/32",
          ⟨[0x20, 0x01, 0x0d, 0xb8, 0, 0, 0, 0, 0, 0, 0, 0, 0, 0, 0, 0],
            [0xff, 0xff, 0xff, 0xff, 0, 0, 0, 0, 0, 0, 0, 0, 0, 0, 0, 0]⟩)) ∧
      IPNet.Contains ⟨[0x20, 0x01, 0x0d, 0xb8, 0, 0, 0, 0, 0, 0, 0, 0, 0, 0, 0, 0],
          [0xff, 0xff, 0xff, 0xff, 0, 0, 0, 0, 0, 0, 0, 0, 0, 0, 0, 0]⟩
          [0x20, 0x01, 0x0d, 0xb8, 0, 0, 0, 1, 0, 0, 0, 0, 0, 0, 0, 1] = true ∧
      (a.RequestAddress "LocalDefault/2001:db8::/32"
          (some [0x20, 0x01, 0x0d, 0xb8, 0, 0, 0, 1, 0, 0, 0, 0, 0, 0, 0, 1]) false).map (·.2) =
        some (.ok ⟨[0x20, 0x01, 0x0d, 0xb8, 0, 0, 0, 0, 0, 0, 0, 0, 0, 0, 0, 1],
          [0xff, 0xff, 0xff, 0xff, 0, 0, 0, 0, 0, 0, 0, 0, 0, 0, 0, 0]⟩) := by
  refine ⟨_, rfl, rfl, ?_⟩
  decide +kernel

/-! ## Orphaned sub-pools -/

/-- Releasing the implicit parent of a sub-pool deletes it and leaves the
sub-pool pointing at the missing parent: `RequestAddress` in the sub-pool
then does not return. -/
theorem releasePool_implicit_parent_orphans_subpool :
    ∃ a₁ a₂,
      (NewAllocator fun _ => []).RequestPool "LocalDefault" "10.0.0.0/16" "10.0.1.0/24" false =
        some (a₁, .ok ("LocalDefault/10.0.0.0/16/10.0.1.0/24",
          ⟨[10, 0, 0, 0], [255, 255, 0, 0]⟩)) ∧
      a₁.ReleasePool "LocalDefault/10.0.0.0/16" = some (a₂, none) ∧
      ((a₂.addrSpaces "LocalDefault").bind fun aSpace =>
          (aSpace.subnets.lookup ⟨"LocalDefault", "10.0.0.0/16", "10.0.1.0/24"⟩).map
            PoolData.ParentKey) = some ⟨"LocalDefault", "10.0.0.0/16", ""⟩ ∧
      ((a₂.addrSpaces "LocalDefault").bind fun aSpace =>
          aSpace.subnets.lookup ⟨"LocalDefault", "10.0.0.0/16", ""⟩) = none ∧
      a₂.RequestAddress "LocalDefault/10.0.0.0/16/10.0.1.0/24" none false = none :=
  ⟨_, _, rfl, rfl, rfl, rfl, rfl⟩

end Libnetwork.Ipam
