import Libnetwork.Support.GoNet

/-!
# Addresses in the allocator

The helpers of `types/types.go` and `ipam/utils.go` that the allocator
applies to Go's `net` addresses: the host part and the broadcast address of
an address under a mask, which first align an address's IPv4 form with an
IPv4 mask or the IPv4 tail of a mask, the shortest form of an address, and
the conversions between an address and its ordinal in a pool.

`ipToUint64` adds each byte shifted by eight times its distance from the
last byte; Go shifts a `uint64` by 64 or more places to zero, so only the
last eight bytes count.  `addIntToIP` ors the low bytes of an ordinal into
the last bytes of an address.
-/

namespace Libnetwork.Ipam

open GoNet

/-- `ipVersion`. -/
inductive IpVersion
  | v4
  | v6
  deriving DecidableEq, Repr

def getAddressVersion (ip : IP) : IpVersion :=
  if (To4 ip).isEmpty then .v6 else .v4

/-- `GetMinimalIP`: the 4-byte form of an IPv4 address, any other address as
it is. -/
def GetMinimalIP (ip : IP) : IP :=
  if !ip.isEmpty && !(To4 ip).isEmpty then To4 ip else ip

/-- `v4inV6MaskPrefix`: twelve bytes of ones. -/
def v4inV6MaskPrefix : List UInt8 := List.replicate 12 0xff

/-- `compareIPMask`: where the address and the mask start, so that their
IPv4 parts line up; `none` for the source's error. -/
def compareIPMask (ip : IP) (mask : IPMask) : Option (ℕ × ℕ) :=
  let is := if ip.length == IPv6len && !(To4 ip).isEmpty then 12 else 0
  let ms :=
    if (ip.drop is).length == IPv4len && mask.length == IPv6len &&
        mask.take 12 == v4inV6MaskPrefix then 12
    else 0
  if (ip.drop is).length != (mask.drop ms).length then none else some (is, ms)

/-- Combine the bytes of the address from `is` on with the mask's bytes from
`ms` on, leaving the address's first bytes as they are. -/
def combineMasked (f : UInt8 → UInt8 → UInt8) (ip : IP) (mask : IPMask) (is ms : ℕ) : IP :=
  ip.take is ++ List.zipWith f (ip.drop is) (mask.drop ms)

/-- `GetHostPartIP`: the address's bits outside the mask. -/
def GetHostPartIP (ip : IP) (mask : IPMask) : Option IP :=
  (compareIPMask ip mask).map fun (is, ms) => combineMasked (fun b m => b &&& ~~~m) ip mask is ms

/-- `GetBroadcastIP`: the address with every bit outside the mask set. -/
def GetBroadcastIP (ip : IP) (mask : IPMask) : Option IP :=
  (compareIPMask ip mask).map fun (is, ms) => combineMasked (fun b m => b ||| ~~~m) ip mask is ms

/-- `types.ParseCIDR`: the network of `net.ParseCIDR` with the address as
written, not masked. -/
def ParseCIDR (cidr : String) : Option IPNet :=
  (GoNet.ParseCIDR cidr).map fun (ip, n) => { n with IP := ip }

/-- Go's `x << n` on a `uint64`: zero once `n` reaches 64. -/
def goShiftLeft (x : UInt64) (n : ℕ) : UInt64 :=
  if n < 64 then x <<< n.toUInt64 else 0

/-- `ipToUint64`: the ordinal of an address, from its shortest form. -/
def ipToUint64 (ip : IP) : UInt64 :=
  let cip := GetMinimalIP ip
  (List.range cip.length).foldl
    (fun value i => value + goShiftLeft (cip.getD i 0).toUInt64 (8 * (cip.length - 1 - i))) 0

/-- `addIntToIP`: or the ordinal's bytes into the address from its last byte
back. -/
def addIntToIP (array : List UInt8) (ordinal : UInt64) : List UInt8 :=
  (go array.reverse ordinal).reverse
where
  go : List UInt8 → UInt64 → List UInt8
    | [], _ => []
    | b :: rest, ordinal => (b ||| (ordinal &&& 0xff).toUInt8) :: go rest (ordinal >>> 8)

/-- `generateAddress`: the address of an ordinal in a network, as long as the
network's mask. -/
def generateAddress (ordinal : UInt64) (network : IPNet) : IP :=
  -- the network's address copied into sixteen zero bytes
  let source := if getAddressVersion network.IP = .v4 then To4 network.IP else network.IP
  let address := (source ++ List.replicate IPv6len 0).take IPv6len
  addIntToIP (address.take network.Mask.length) ordinal

example : ipToUint64 [0x20, 0x01, 0x0d, 0xb8, 0, 0, 0, 0, 0x7f, 0xff, 0xff, 0xff,
    0xff, 0xff, 0xff, 0xff] = 0x7fffffffffffffff := by
  decide

end Libnetwork.Ipam
