import Libnetwork.Support.GoNet

/-!
# The IPAM data of a network

`driverapi.IPAMData` is what a driver is given of each pool of a network:
the address space, the pool, the gateway and the auxiliary addresses, each
address a `*net.IPNet` that may be nil, and the auxiliary addresses a map
that may be nil.
-/

namespace Libnetwork.Driverapi

open GoNet

/-- `driverapi.IPAMData`. -/
structure IPAMData where
  AddressSpace : String
  Pool : Option IPNet
  Gateway : Option IPNet
  AuxAddresses : Option (List (String × Option IPNet))
  deriving DecidableEq, Repr

end Libnetwork.Driverapi
