import Libnetwork.Driverapi.IpamDataJson

/-!
# The pools of a network

`network.ipamAllocate` of `network.go` asks the IPAM driver for a pool for
each IPAM configuration of the network, its gateway and its auxiliary
addresses, first for IPv4 and then, with IPv6 enabled, for IPv6;
`ipamRelease` gives them back.  The driver is any implementation of
`ipamapi.Ipam`, a state `σ` with its calls; `defaultIpam` is the built-in
allocator.  Finding the driver and the address space of the network is left
out: the model starts with both.

Each turn of the loop defers the release of its pool, to run when the
function's variable `err` holds an error as the function returns.  Several
returns build a fresh error without assigning `err`, and an auxiliary
address out of the driver's range leaves `err` holding `ErrIPOutOfRange`
after the loop goes on.  The loop state carries whether `err` holds an
error, and the pools whose release is deferred.

Whether a pool overlaps the host's routes and nameservers, which
`netutils.FindAvailableNetwork` reads from the host, is a parameter; the
pool loop of `requestPoolHelper` runs on a fuel, `none` once it is spent.
Auxiliary addresses are taken in the order of their list, where the source
ranges over a map.
-/

namespace Libnetwork.NetworkIpam

open GoNet Driverapi

/-- `ipamapi.Ipam` on a driver state `σ` with errors `ε`; a call that does
not return is `none`.  A failed `RequestAddress` returns no address. -/
structure IpamDriver (σ ε : Type) where
  RequestPool : σ → String → String → String → List (String × String) → Bool →
    Option (σ × Except ε (String × IPNet × Option (List (String × String))))
  ReleasePool : σ → String → Option (σ × Option ε)
  RequestAddress : σ → String → Option IP → List (String × String) →
    Option (σ × Except ε IPNet)
  ReleaseAddress : σ → String → Option IP → Option (σ × Option ε)
  /-- `ipamapi.ErrIPOutOfRange`. -/
  ErrIPOutOfRange : ε

/-- `ipamapi.RequestAddressType`. -/
def RequestAddressType : String := "RequestAddressType"

/-- `netlabel.Gateway`. -/
def netlabelGateway : String := "com.docker.network.gateway"

/-- `ipamapi.AllocSerialPrefix`. -/
def AllocSerialPrefix : String := "com.docker.network.ipam.serial"

/-- The built-in allocator as a driver: no meta data, and serial allocation
when the options ask for it. -/
def defaultIpam : IpamDriver Ipam.Allocator Ipam.IpamError where
  RequestPool a addressSpace pool subPool _ v6 :=
    (a.RequestPool addressSpace pool subPool v6).map fun (a, r) =>
      (a, r.map fun (poolID, nw) => (poolID, nw, none))
  ReleasePool a poolID := a.ReleasePool poolID
  RequestAddress a poolID prefAddress opts :=
    a.RequestAddress poolID prefAddress (opts.lookup AllocSerialPrefix == some "true")
  ReleaseAddress a poolID address := a.ReleaseAddress poolID address
  ErrIPOutOfRange := .ipOutOfRange

structure IpamConf where
  PreferredPool : String
  SubPool : String
  Gateway : String
  AuxAddresses : Option (List (String × String))
  deriving DecidableEq, Repr

structure IpamInfo where
  PoolID : String
  Meta : Option (List (String × String))
  IPAMData : IPAMData
  deriving DecidableEq, Repr

/-- `IpamInfo.MarshalJSON`.  The source writes the text of the IPAM data as a
string member; the model keeps the value that text denotes. -/
def IpamInfo.MarshalJSON (i : IpamInfo) : GoJson.Json :=
  .obj ([("IPAMData", i.IPAMData.MarshalJSON)] ++
    (match i.Meta with
      | some m => [("Meta", .obj ((m.map fun (k, v) => (k, GoJson.Json.str v)).insertionSort
          fun a b => a.1 ≤ b.1))]
      | none => []) ++
    [("PoolID", .str i.PoolID)])

/-- `IpamInfo.UnmarshalJSON` into the record `i`. -/
def IpamInfo.UnmarshalJSON (i : IpamInfo) (data : GoJson.Json) : Ipam.Reader IpamInfo := do
  let m ← Ipam.Reader.json (GoJson.decodeMap data)
  let PoolID ← Ipam.Reader.assert (GoJson.asString (GoJson.lookup m "PoolID"))
  let i := { i with PoolID }
  let i ← match GoJson.lookup m "Meta" with
    | some .null | none => pure i
    | some v => do pure { i with Meta := some (← Ipam.Reader.json (decodeStringMap v)) }
  match GoJson.lookup m "IPAMData" with
  | some v => do pure { i with IPAMData := ← i.IPAMData.UnmarshalJSON v }
  | none => pure i

/-- The zero record the store reads into. -/
def IpamInfo.zero : IpamInfo := ⟨"", none, IPAMData.zero⟩

/-- The errors of `ipamAllocate`, with the driver's errors. -/
inductive AllocError (ε : Type)
  | invalidGateway (gateway : String)
  | driver (e : ε)
  | preferredPoolOverlaps (pool : String)
  | gatewayParse (gws : String)
  | gatewayAllocate (gateway : String) (e : ε)
  | auxParse (k v name : String)
  | auxOutOfPool (k v pool : String)
  | auxAllocate (k v : String) (e : ε)
  deriving DecidableEq, Repr

/-- The text of each error, with the text of the driver's. -/
def AllocError.Error {ε : Type} (text : ε → String) : AllocError ε → String
  | .invalidGateway g => "invalid gateway address " ++ g ++ " in Ipam configuration"
  | .driver e => text e
  | .preferredPoolOverlaps p => "requested subnet " ++ p ++ " overlaps in the host"
  | .gatewayParse gws =>
      "failed to parse gateway address (" ++ gws ++ ") returned by ipam driver: invalid CIDR address: " ++ gws
  | .gatewayAllocate g e => "failed to allocate gateway (" ++ g ++ "): " ++ text e
  | .auxParse k v name =>
      "non parsable secondary ip address (" ++ k ++ ":" ++ v ++ ") passed for network " ++ name
  | .auxOutOfPool k v pool =>
      "auxiliary address: (" ++ k ++ ":" ++ v ++ ") must belong to the master pool: " ++ pool
  | .auxAllocate k v e => "failed to allocate secondary ip address (" ++ k ++ ":" ++ v ++ "): " ++ text e

def IpamConf.Validate {ε : Type} (c : IpamConf) : Option (AllocError ε) :=
  if c.Gateway != "" && (ParseIP c.Gateway.toList).isNone then some (.invalidGateway c.Gateway)
  else none

/-- `types.IsIPNetValid`. -/
def IsIPNetValid (nw : IPNet) : Bool := nw.String != "0.0.0.0/0"

section Driver

variable {σ ε : Type} [DecidableEq ε] (d : IpamDriver σ ε)

/-- Release pools in turn, their errors only logged. -/
def releasePools : σ → List String → Option σ
  | s, [] => some s
  | s, poolID :: rest => (d.ReleasePool s poolID).bind fun (s, _) => releasePools s rest

/-- The loop of `requestPoolHelper`, with the overlapping pools it holds;
they are released as it returns, the last held first. -/
def requestPoolLoop (global : Bool) (overlaps : IPNet → Bool)
    (addressSpace preferredPool subPool : String) (options : List (String × String)) (v6 : Bool) :
    ℕ → σ → List String →
      Option (σ × Except (AllocError ε) (String × IPNet × Option (List (String × String))))
  | 0, _, _ => none
  | fuel + 1, s, held =>
      match d.RequestPool s addressSpace preferredPool subPool options v6 with
      | none => none
      | some (s, .error e) => (releasePools d s held).map (·, .error (.driver e))
      | some (s, .ok (poolID, pool, poolMeta)) =>
          if global || preferredPool != "" || !IsIPNetValid pool || !overlaps pool then
            (releasePools d s held).map (·, .ok (poolID, pool, poolMeta))
          else if preferredPool != "" then
            (releasePools d s (poolID :: held)).map
              (·, .error (.preferredPoolOverlaps preferredPool))
          else
            requestPoolLoop global overlaps addressSpace preferredPool subPool options v6 fuel s
              (poolID :: held)

/-- The loop over the auxiliary addresses of one configuration, with
whether `err` holds an error and the addresses so far: the driver's state,
`err`, the addresses, and the error of a return; `none` when the driver does
not return. -/
def auxLoop (name poolID : String) (pool : IPNet) :
    σ → Bool → List (String × Option IPNet) → List (String × String) →
      Option (σ × Bool × List (String × Option IPNet) × Option (AllocError ε))
  | s, errSet, aux, [] => some (s, errSet, aux, none)
  | s, errSet, aux, (k, v) :: rest =>
      match ParseIP v.toList with
      -- these two returns leave `err` as it was
      | none => some (s, errSet, aux, some (.auxParse k v name))
      | some ip =>
          if !pool.Contains ip then some (s, errSet, aux, some (.auxOutOfPool k v pool.String))
          else
            match d.RequestAddress s poolID (some ip) [] with
            | none => none
            | some (s, .ok nw) => auxLoop name poolID pool s false (aux ++ [(k, some nw)]) rest
            | some (s, .error e) =>
                -- `ErrIPOutOfRange` is left in `err`, and the loop goes on
                if e = d.ErrIPOutOfRange then
                  auxLoop name poolID pool s true (aux ++ [(k, none)]) rest
                else some (s, true, aux ++ [(k, none)], some (.auxAllocate k v e))

/-- The state of the loop of `ipamAllocateVersion`: the driver's state, the
infos made so far, the pools whose release is deferred, the last first, and
whether the variable `err` holds an error. -/
structure AllocState (σ : Type) where
  ipam : σ
  infos : List IpamInfo
  deferred : List String
  errSet : Bool

/-- The gateway the driver's meta data names, read by `types.ParseCIDR`. -/
def metaGateway (poolMeta : Option (List (String × String))) :
    Except (AllocError ε) (Option IPNet) :=
  match poolMeta.bind (·.lookup netlabelGateway) with
  | none => .ok none
  | some gws =>
      match Ipam.ParseCIDR gws with
      | some g => .ok (some g)
      | none => .error (.gatewayParse gws)

/-- One turn of the loop of `ipamAllocateVersion`: the pool of `cfg`, its
gateway and its auxiliary addresses; the loop state and the error of a
return. -/
def allocateConf (global : Bool) (overlaps : IPNet → Bool) (addrSpace name : String)
    (options : List (String × String)) (v6 : Bool) (fuel : ℕ) (st : AllocState σ)
    (cfg : IpamConf) : Option (AllocState σ × Option (AllocError ε)) :=
  match cfg.Validate with
  | some e => some ({ st with errSet := true }, some e)
  | none =>
      -- `err` is now nil, whatever it held
      let info : IpamInfo := ⟨"", none, ⟨addrSpace, none, none, none⟩⟩
      match requestPoolLoop d global overlaps addrSpace cfg.PreferredPool cfg.SubPool options v6
          fuel st.ipam [] with
      | none => none
      | some (s, .error e) =>
          some ({ st with ipam := s, infos := st.infos ++ [info], errSet := true }, some e)
      | some (s, .ok (poolID, pool, poolMeta)) =>
          -- from here on the pool's release is deferred
          let st := { st with ipam := s, deferred := poolID :: st.deferred, errSet := false }
          let info : IpamInfo :=
            ⟨poolID, poolMeta, { info.IPAMData with Pool := some pool }⟩
          match metaGateway poolMeta with
          | .error e => some ({ st with infos := st.infos ++ [info], errSet := true }, some e)
          | .ok gateway =>
              let requested : Option (σ × Except (AllocError ε) (Option IPNet)) :=
                if cfg.Gateway != "" || gateway.isNone then
                  (d.RequestAddress st.ipam poolID (ParseIP cfg.Gateway.toList)
                      [(RequestAddressType, netlabelGateway)]).map fun (s, r) =>
                    (s, match r with
                      | .ok g => .ok (some g)
                      | .error e => .error (.gatewayAllocate cfg.Gateway e))
                else some (st.ipam, .ok gateway)
              match requested with
              | none => none
              | some (s, .error e) =>
                  some ({ st with ipam := s, infos := st.infos ++ [info], errSet := true }, some e)
              | some (s, .ok gateway) =>
                  let info := { info with IPAMData := { info.IPAMData with Gateway := gateway } }
                  match cfg.AuxAddresses with
                  | none => some ({ st with ipam := s, infos := st.infos ++ [info] }, none)
                  | some auxs =>
                      (auxLoop d name poolID pool s st.errSet [] auxs).map fun (s, errSet, aux, r) =>
                        let info : IpamInfo :=
                          ⟨poolID, poolMeta, { info.IPAMData with AuxAddresses := some aux }⟩
                        (⟨s, st.infos ++ [info], st.deferred, errSet⟩, r)

/-- The loop of `ipamAllocateVersion` over the configurations. -/
def allocateLoop (global : Bool) (overlaps : IPNet → Bool) (addrSpace name : String)
    (options : List (String × String)) (v6 : Bool) (fuel : ℕ) :
    AllocState σ → List IpamConf → Option (AllocState σ × Option (AllocError ε))
  | st, [] => some (st, none)
  | st, cfg :: rest =>
      match allocateConf d global overlaps addrSpace name options v6 fuel st cfg with
      | none => none
      | some (st, some e) => some (st, some e)
      | some (st, none) => allocateLoop global overlaps addrSpace name options v6 fuel st rest

/-- The configurations `ipamAllocateVersion` goes through: one empty one
when there is none. -/
def defaultConfigs (cfgList : List IpamConf) : List IpamConf :=
  if cfgList.isEmpty then [⟨"", "", "", none⟩] else cfgList

/-- `ipamAllocateVersion`: the driver's state, the configurations, the infos
(nil past the configuration that failed) and the error. -/
def ipamAllocateVersion (global : Bool) (overlaps : IPNet → Bool) (addrSpace name : String)
    (options : List (String × String)) (fuel : ℕ) (v6 : Bool) (cfgList : List IpamConf) (s : σ) :
    Option (σ × List IpamConf × List (Option IpamInfo) × Option (AllocError ε)) :=
  let cfgList := defaultConfigs cfgList
  match allocateLoop d global overlaps addrSpace name options v6 fuel ⟨s, [], [], false⟩ cfgList with
  | none => none
  | some (st, r) =>
      -- the deferred releases run when `err` holds an error, whatever is returned
      let released := if st.errSet then releasePools d st.ipam st.deferred else some st.ipam
      released.map fun s =>
        (s, cfgList, st.infos.map some ++ List.replicate (cfgList.length - st.infos.length) none, r)

/-- The release of the auxiliary addresses of an info that lie in its pool;
a nil address, or a nil pool, is dereferenced. -/
def releaseAux (poolID : String) (pool : Option IPNet) :
    σ → List (String × Option IPNet) → Option σ
  | s, [] => some s
  | _, (_, none) :: _ => none
  | s, (_, some nw) :: rest =>
      match pool with
      | none => none
      | some pool =>
          if pool.Contains nw.IP then
            (d.ReleaseAddress s poolID (some nw.IP)).bind fun (s, _) => releaseAux poolID (some pool) s rest
          else releaseAux poolID (some pool) s rest

/-- `ipamReleaseVersion` of an info list: each gateway, auxiliary address and
pool released, the errors logged; a nil info is dereferenced. -/
def ipamReleaseVersion : List (Option IpamInfo) → σ → Option σ
  | [], s => some s
  | none :: _, _ => none
  | some info :: rest, s => do
      let s ← match info.IPAMData.Gateway with
        | some g => (d.ReleaseAddress s info.PoolID (some g.IP)).map (·.1)
        | none => some s
      let s ← match info.IPAMData.AuxAddresses with
        | some aux => releaseAux d info.PoolID info.IPAMData.Pool s aux
        | none => some s
      let s ← (d.ReleasePool s info.PoolID).map (·.1)
      ipamReleaseVersion rest s

end Driver

/-- What `ipamAllocate` reads and writes of a network. -/
structure Network where
  name : String
  global : Bool
  addrSpace : String
  ipamOptions : List (String × String)
  enableIPv6 : Bool
  ipamV4Config : List IpamConf
  ipamV6Config : List IpamConf
  ipamV4Info : List (Option IpamInfo)
  ipamV6Info : List (Option IpamInfo)

section Network

variable {σ ε : Type} [DecidableEq ε] (d : IpamDriver σ ε) (overlaps : IPNet → Bool) (fuel : ℕ)

/-- `ipamAllocate`: the IPv4 pools, then the IPv6 ones; the IPv4 ones are
released when the IPv6 ones fail. -/
def ipamAllocate (n : Network) (s : σ) : Option (σ × Network × Option (AllocError ε)) :=
  match ipamAllocateVersion d n.global overlaps n.addrSpace n.name n.ipamOptions fuel false
      n.ipamV4Config s with
  | none => none
  | some (s, cfgs, infos, r) =>
      let n := { n with ipamV4Config := cfgs, ipamV4Info := infos }
      match r with
      | some e => some (s, n, some e)
      | none =>
          if !n.enableIPv6 then some (s, n, none)
          else
            match ipamAllocateVersion d n.global overlaps n.addrSpace n.name n.ipamOptions fuel true
                n.ipamV6Config s with
            | none => none
            | some (s, cfgs, infos, r) =>
                let n := { n with ipamV6Config := cfgs, ipamV6Info := infos }
                match r with
                | none => some (s, n, none)
                | some e =>
                    (ipamReleaseVersion d n.ipamV4Info s).map fun s =>
                      (s, { n with ipamV4Info := [] }, some e)

/-- `ipamRelease`: the IPv4 pools, then the IPv6 ones. -/
def ipamRelease (n : Network) (s : σ) : Option (σ × Network) := do
  let s ← ipamReleaseVersion d n.ipamV4Info s
  let s ← ipamReleaseVersion d n.ipamV6Info s
  return (s, { n with ipamV4Info := [], ipamV6Info := [] })

end Network

/-! ## An auxiliary address that does not parse -/

/-- A network whose one configuration asks for `10.0.0.0/24` with an
auxiliary address that is no address: the pool and its gateway are taken,
then the auxiliary address returns an error that `err` does not hold, so no
deferred release runs and the allocator keeps the pool. -/
theorem ipamAllocate_unparsable_aux_keeps_pool :
    ((ipamAllocate defaultIpam (fun _ => false) 1
        ⟨"net", false, "LocalDefault", [], false,
          [⟨"10.0.0.0/24", "", "", some [("h", "x")]⟩], [], [], []⟩
        (Ipam.NewAllocator fun _ => [])).map fun (a, _, r) =>
      ((a.addrSpaces "LocalDefault").map fun aSpace =>
        (aSpace.subnets.lookup ⟨"LocalDefault", "10.0.0.0/24", ""⟩).isSome, r)) =
      some (some true, some (.auxParse "h" "x" "net")) ∧
    ((Ipam.NewAllocator fun _ => []).addrSpaces "LocalDefault").map (fun aSpace =>
      (aSpace.subnets.lookup ⟨"LocalDefault", "10.0.0.0/24", ""⟩).isSome) = some false := by
  constructor
  · decide +kernel
  · decide +kernel

end Libnetwork.NetworkIpam
