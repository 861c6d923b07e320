import Libnetwork.Support.RunLength
import Libnetwork.Support.MsbBits
import Libnetwork.Support.Transition
import Libnetwork.Bitseq.Sequence
import Libnetwork.Bitseq.Handle
import Libnetwork.Bitseq.FindSequence
import Libnetwork.Bitseq.PushReservation
import Libnetwork.Bitseq.Invariant
import Libnetwork.Bitseq.Counter
import Libnetwork.Idm
import Libnetwork.PortAllocator
import Libnetwork.Ipam.Net
import Libnetwork.Ipam.Structures
import Libnetwork.Ipam.Allocator
import Libnetwork.NetworkDb.Handlers
import Libnetwork.Support.LastWriterWins
import Libnetwork.NetworkDb.Clock
import Libnetwork.NetworkDb.Convergence
import Libnetwork.NetworkDb.Membership
import Libnetwork.NetworkDb.Redelivery
import Libnetwork.Bitseq.Bitmask
import Libnetwork.Ipam.Store
import Libnetwork.Overlay.Encryption
import Libnetwork.Overlay.PeerDb
import Libnetwork.Support.Scan
import Libnetwork.Bitseq.FirstAvailable
import Libnetwork.Support.BigEndian
import Libnetwork.Bitseq.Serialize
import Libnetwork.Bitseq.Allocate
import Libnetwork.Bitseq.Consistency
import Libnetwork.Idm.Reserved
import Libnetwork.Support.GoStrconv
import Libnetwork.Support.GoMap
import Libnetwork.Driverapi.IpamData
import Libnetwork.Overlay.Ovmanager
import Libnetwork.Setmatrix
import Libnetwork.Service.Bindings
import Libnetwork.Service.Invariant
import Libnetwork.Support.ClassicBpf
import Libnetwork.Support.U32Match
import Libnetwork.Overlay.VniMatch
import Libnetwork.Support.GoNetBlocks
import Libnetwork.Ipam.Pools
import Libnetwork.Ipamutils
import Libnetwork.Netutils
import Libnetwork.Etchosts
import Libnetwork.Support.Regex
import Libnetwork.Resolvconf
import Libnetwork.Agent
import Libnetwork.Portmapper
import Libnetwork.Bridge.PortMapping
import Libnetwork.Driverapi.IpamDataJson
import Libnetwork.NetworkIpam
import Libnetwork.EndpointInfo
import Libnetwork.Support.RadixTree
import Libnetwork.Support.RadixWalk
import Libnetwork.NetworkDb.Index
import Libnetwork.NetworkDb.Walks
import Libnetwork.Support.Protobuf
import Libnetwork.NetworkDb.Wire
import Libnetwork.NetworkDb.Receive
