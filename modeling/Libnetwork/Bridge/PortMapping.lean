import Libnetwork.Portmapper

/-!
# Port bindings of the bridge driver

`drivers/bridge/port_mapping.go`: each binding of an endpoint is mapped once
for IPv4 and once for IPv6, on the mapper of its host address's family; when
one mapping fails, the bindings mapped before it are unmapped and the error
is returned.  `allocatePort` tries a dynamic port up to
`maxAllocatePortAttempts` times.

Whether the kernel can listen on IPv6, `IsV6Listenable`, is a parameter.
-/

namespace Libnetwork.Bridge

open GoNet Portmapper

/-- `types.Protocol`, an IP protocol number. -/
abbrev Protocol := UInt8

/-- `types.TCP`. -/
def TCP : Protocol := 6

/-- `types.UDP`. -/
def UDP : Protocol := 17

/-- `types.SCTP`. -/
def SCTP : Protocol := 132

/-- `types.PortBinding`. -/
structure PortBinding where
  Proto : Protocol
  IP : GoNet.IP
  Port : UInt16
  HostIP : GoNet.IP
  HostPort : UInt16
  HostPortEnd : UInt16
  deriving DecidableEq, Repr

/-- `int(x)` of a `uint16`. -/
def goInt (x : UInt16) : Int64 := x.toUInt64.toInt64

/-- `uint16(x)` of an `int`: its low sixteen bits. -/
def goUint16 (x : Int64) : UInt16 := x.toUInt64.toUInt16

/-- `ContainerAddr`, `none` for the error of a protocol of none of the
three kinds. -/
def PortBinding.ContainerAddr (p : PortBinding) : Option Addr :=
  if p.Proto = UDP then some (.udp p.IP (goInt p.Port))
  else if p.Proto = TCP then some (.tcp p.IP (goInt p.Port))
  else if p.Proto = SCTP then some (.sctp [p.IP] (goInt p.Port))
  else none

/-- `HostAddr`, `none` for the error of a protocol of none of the three
kinds. -/
def PortBinding.HostAddr (p : PortBinding) : Option Addr :=
  if p.Proto = UDP then some (.udp p.HostIP (goInt p.HostPort))
  else if p.Proto = TCP then some (.tcp p.HostIP (goInt p.HostPort))
  else if p.Proto = SCTP then some (.sctp [p.HostIP] (goInt p.HostPort))
  else none

/-- `net.IPv4zero`. -/
def IPv4zero : GoNet.IP := IPv4 0 0 0 0

/-- `net.IPv6zero`. -/
def IPv6zero : GoNet.IP := List.replicate 16 0

def maxAllocatePortAttempts : ℕ := 10

/-- The allocator all mappers share and the mappers of the two families. -/
structure Ports where
  Allocator : PortAllocator
  portMapper : PortMapper
  portMapperV6 : PortMapper

/-- The mapper of a host address: the IPv6 one for an address that is not
IPv4. -/
def Ports.mapper (st : Ports) (hostIP : GoNet.IP) : PortMapper :=
  if (To4 hostIP).isEmpty then st.portMapperV6 else st.portMapper

/-- The state with the mapper of a host address's family replaced. -/
def Ports.setMapper (st : Ports) (hostIP : GoNet.IP) (pm : PortMapper) : Ports :=
  if (To4 hostIP).isEmpty then { st with portMapperV6 := pm } else { st with portMapper := pm }

/-- `validatePortBindingIPv4`: the binding with its host address filled in and
the container's IPv4 address, `none` when it is no IPv4 binding. -/
def validatePortBindingIPv4 (bnd : PortBinding) (containerIPv4 defHostIP : GoNet.IP) :
    Option PortBinding :=
  if bnd.HostIP.length > 0 && (To4 bnd.HostIP).isEmpty then none
  else if bnd.HostIP.length = 0 then
    if (To4 defHostIP).isEmpty then none
    else some { bnd with HostIP := defHostIP, IP := containerIPv4 }
  else some { bnd with IP := containerIPv4 }

/-- `validatePortBindingIPv6`: the binding with its host address filled in and
the container's address, `none` when it is no IPv6 binding. -/
def validatePortBindingIPv6 (bnd : PortBinding) (containerIP defHostIP : GoNet.IP) :
    Option PortBinding :=
  if containerIP.isEmpty then none
  else if bnd.HostIP.length > 0 && !(To4 bnd.HostIP).isEmpty then none
  else if bnd.HostIP.length = 0 then
    if Equal defHostIP IPv4zero then some { bnd with HostIP := IPv6zero, IP := containerIP }
    else if (To4 defHostIP).isEmpty then some { bnd with HostIP := defHostIP, IP := containerIP }
    else none
  else some { bnd with IP := containerIP }

/-- The errors of `allocatePort`. -/
inductive BindError
  | invalidProtocolBinding (proto : Protocol)
  | map (e : MapError)
  deriving DecidableEq, Repr

/-- The retry loop of `allocatePort`, with the attempts left after this one:
stop at the first mapping made, and after the first failure when the host
port was chosen. -/
def mapRangeLoop (fx : Effects) (container : Addr) (bnd : PortBinding) (ulPxyEnabled : Bool) :
    ℕ → Ports → Option (Ports × Except MapError Addr)
  | retries, st =>
      match MapRange fx st.Allocator (st.mapper bnd.HostIP) container bnd.HostIP
          (goInt bnd.HostPort) (goInt bnd.HostPortEnd) ulPxyEnabled with
      | none => none
      | some (a, pm, r) =>
          let st := { st.setMapper bnd.HostIP pm with Allocator := a }
          match r, retries with
          | .ok host, _ => some (st, .ok host)
          | .error e, 0 => some (st, .error e)
          | .error e, retries + 1 =>
              if bnd.HostPort != 0 then some (st, .error e)
              else mapRangeLoop fx container bnd ulPxyEnabled retries st

/-- `allocatePort`: the binding with the host port it was given. -/
def allocatePort (fx : Effects) (st : Ports) (bnd : PortBinding) (ulPxyEnabled : Bool) :
    Option (Ports × Except BindError PortBinding) :=
  let bnd := if bnd.HostPortEnd = 0 then { bnd with HostPortEnd := bnd.HostPort } else bnd
  match bnd.ContainerAddr with
  | none => some (st, .error (.invalidProtocolBinding bnd.Proto))
  | some container =>
      match mapRangeLoop fx container bnd ulPxyEnabled (maxAllocatePortAttempts - 1) st with
      | none => none
      | some (st, .error e) => some (st, .error (.map e))
      | some (st, .ok host) => some (st, .ok { bnd with HostPort := goUint16 host.port })

/-- `releasePort`: unmap the host address of a binding; its error, if any. -/
def releasePort (st : Ports) (bnd : PortBinding) : Option (Ports × Option BindError) :=
  match bnd.HostAddr with
  | none => some (st, some (.invalidProtocolBinding bnd.Proto))
  | some host =>
      (Unmap st.Allocator (st.mapper bnd.HostIP) host).map fun (a, pm, e) =>
        ({ st.setMapper bnd.HostIP pm with Allocator := a }, e.map .map)

/-- `releasePortsInternal`: release every binding, not stopping at an
error; whether one failed. -/
def releasePortsInternal (st : Ports) : List PortBinding → Option (Ports × Bool)
  | [] => some (st, false)
  | bnd :: bindings =>
      match releasePort st bnd with
      | none => none
      | some (st, e) =>
          (releasePortsInternal st bindings).map fun (st, failed) => (st, failed || e.isSome)

/-- The loop of `allocatePortsInternal` over the bindings left, with the
bindings mapped so far. -/
def allocatePortsLoop (fx : Effects) (containerIPv4 containerIPv6 defHostIP : GoNet.IP)
    (ulPxyEnabled v6Listenable : Bool) :
    List PortBinding → Ports → List PortBinding →
      Option (Ports × Except BindError (List PortBinding))
  | [], st, bs => some (st, .ok bs)
  | c :: bindings, st, bs =>
      -- on a failure, the bindings mapped so far are released
      let fail (st : Ports) (bs : List PortBinding) (e : BindError) :=
        (releasePortsInternal st bs).map fun (st, _) => (st, .error e)
      let v4 : Option (Ports × Except BindError (List PortBinding)) :=
        match validatePortBindingIPv4 c containerIPv4 defHostIP with
        | none => some (st, .ok bs)
        | some bIPv4 =>
            match allocatePort fx st bIPv4 ulPxyEnabled with
            | none => none
            | some (st, .error e) => fail st bs e
            | some (st, .ok bIPv4) => some (st, .ok (bs ++ [bIPv4]))
      match v4 with
      | none => none
      | some (st, .error e) => some (st, .error e)
      | some (st, .ok bs) =>
          let isV6Binding := !c.HostIP.isEmpty && (To4 c.HostIP).isEmpty
          if !isV6Binding && !v6Listenable then
            allocatePortsLoop fx containerIPv4 containerIPv6 defHostIP ulPxyEnabled v6Listenable
              bindings st bs
          else
            let containerIP := if ulPxyEnabled && containerIPv6.isEmpty then containerIPv4
              else containerIPv6
            match validatePortBindingIPv6 c containerIP defHostIP with
            | none =>
                allocatePortsLoop fx containerIPv4 containerIPv6 defHostIP ulPxyEnabled
                  v6Listenable bindings st bs
            | some bIPv6 =>
                match allocatePort fx st bIPv6 ulPxyEnabled with
                | none => none
                -- `bs` holds the IPv4 binding of this turn
                | some (st, .error e) => fail st bs e
                | some (st, .ok bIPv6) =>
                    allocatePortsLoop fx containerIPv4 containerIPv6 defHostIP ulPxyEnabled
                      v6Listenable bindings st (bs ++ [bIPv6])

/-- `allocatePortsInternal`: the bindings as mapped, or the error. -/
def allocatePortsInternal (fx : Effects) (st : Ports) (bindings : List PortBinding)
    (containerIPv4 containerIPv6 defHostIP : GoNet.IP) (ulPxyEnabled v6Listenable : Bool) :
    Option (Ports × Except BindError (List PortBinding)) :=
  allocatePortsLoop fx containerIPv4 containerIPv6 defHostIP ulPxyEnabled v6Listenable
    bindings st []

/-! ## A userland proxy that cannot be created -/

/-- With the userland proxy enabled and no proxy binary to run, `newProxy`
fails inside the protocol switch of `MapRange`, before the release of the
port is deferred: mapping one TCP binding of host port 8080 returns the error
and leaves the port allocated. -/
theorem allocatePortsInternal_proxy_failure_keeps_port :
    (allocatePortsInternal ⟨fun _ _ _ => false, fun _ _ _ => true, fun _ _ _ => true⟩
        ⟨⟨fun _ => none, 49153, 65535⟩, ⟨fun _ => none⟩, ⟨fun _ => none⟩⟩
        [⟨TCP, [], 80, [], 8080, 0⟩] (IPv4 172 17 0 2) [] IPv4zero true false).map
      (fun (st, r) => (st.Allocator.allocated "0.0.0.0" "tcp" 8080, r)) =
      some (true, .error (.map .proxy)) ∧
    (⟨fun _ => none, 49153, 65535⟩ : PortAllocator).allocated "0.0.0.0" "tcp" 8080 = false := by
  constructor <;> decide

end Libnetwork.Bridge
