import Libnetwork.PortAllocator
import Libnetwork.Support.GoNet

/-!
# The port mapper

`portmapper/mapper.go`: `MapRange` takes a host port from the port allocator,
creates the userland proxy (or the dummy one), appends the forwarding entry,
starts the proxy and records the mapping under the key of the host address;
`Unmap` forgets a mapping and gives its port back.  The allocator is shared by
every mapper, as `portallocator.Get()` is a singleton, so it is passed beside
the mapper.

The world outside is a set of answers, `Effects`: whether the userland proxy
can be created, whether a proxy starts and whether the forwarding entry is
appended, for a protocol, host ip and host port.  The dummy proxy is always
created for the three protocols.  A mapping keeps what later calls read of
it; the proxy itself is not kept.

The release of the port is deferred only after the protocol switch: an error
inside the switch, after the port was taken, returns with the port still
allocated.
-/

namespace Libnetwork.Portmapper

open GoNet

/-- `*net.TCPAddr`, `*net.UDPAddr` and `*sctp.SCTPAddr`, the addresses a
mapping joins. -/
inductive Addr
  | tcp (IP : GoNet.IP) (Port : Int64)
  | udp (IP : GoNet.IP) (Port : Int64)
  | sctp (IPAddrs : List GoNet.IP) (Port : Int64)
  deriving DecidableEq, Repr

/-- The protocol of the switch in `MapRange`. -/
def Addr.proto : Addr → String
  | .tcp _ _ => "tcp"
  | .udp _ _ => "udp"
  | .sctp _ _ => "sctp"

/-- The host address `MapRange` builds for the container's kind. -/
def Addr.withHost (container : Addr) (hostIP : GoNet.IP) (port : Int64) : Addr :=
  match container with
  | .tcp _ _ => .tcp hostIP port
  | .udp _ _ => .udp hostIP port
  | .sctp _ _ => .sctp [hostIP] port

/-- The port of an address. -/
def Addr.port : Addr → Int64
  | .tcp _ port | .udp _ port | .sctp _ port => port

/-- `getKey`: the text of a host address and its protocol. -/
def getKey : Addr → String
  | .tcp ip port => IP.String ip ++ ":" ++ toString port ++ "/tcp"
  | .udp ip port => IP.String ip ++ ":" ++ toString port ++ "/udp"
  | .sctp [] _ => ""
  | .sctp (ip :: _) port => IP.String ip ++ ":" ++ toString port ++ "/sctp"

/-- The ip as the allocator is given it: its text, `none` for a nil ip. -/
def allocatorIP (ip : GoNet.IP) : Option String :=
  if ip.isEmpty then none else some (IP.String ip)

/-- `mapping`, without its proxy. -/
structure Mapping where
  proto : String
  host : Addr
  container : Addr
  deriving DecidableEq, Repr

/-- `PortMapper`: the mappings by the key of their host address. -/
structure PortMapper where
  currentMappings : String → Option Mapping

/-- What the world outside answers. -/
structure Effects where
  newProxy : String → GoNet.IP → Int64 → Bool
  start : String → GoNet.IP → Int64 → Bool
  appendForwardingTableEntry : String → GoNet.IP → Int64 → Bool

/-- The errors `MapRange` and `Unmap` return. -/
inductive MapError
  | allocator (e : PortError)
  | proxy
  | sctpAddrNoIP
  | portMappedForIP
  | forwarding
  | start
  | portNotMapped
  deriving DecidableEq, Repr

/-- `MapRange`: the allocator and mapper after the call, and the host
address or the error; `none` when the allocator does not return. -/
def MapRange (fx : Effects) (a : PortAllocator) (pm : PortMapper) (container : Addr)
    (hostIP : GoNet.IP) (hostPortStart hostPortEnd : Int64) (useProxy : Bool) :
    Option (PortAllocator × PortMapper × Except MapError Addr) :=
  let proto := container.proto
  match a.RequestPortInRange (allocatorIP hostIP) proto hostPortStart hostPortEnd with
  | none => none
  | some (a, .error e) => some (a, pm, .error (.allocator e))
  | some (a, .ok port) =>
      let host := container.withHost hostIP port
      -- inside the switch: no release is deferred yet
      if useProxy && container matches .sctp [] _ then some (a, pm, .error .sctpAddrNoIP)
      else if useProxy && !fx.newProxy proto hostIP port then some (a, pm, .error .proxy)
      else
        let release (a : PortAllocator) := a.ReleasePort (allocatorIP hostIP) proto port
        let key := getKey host
        if (pm.currentMappings key).isSome then
          (release a).map fun a => (a, pm, .error .portMappedForIP)
        else if !fx.appendForwardingTableEntry proto hostIP port then
          (release a).map fun a => (a, pm, .error .forwarding)
        else if !fx.start proto hostIP port then
          -- the cleanup releases the port, and the deferred release again
          (release a).bind fun a => (release a).map fun a => (a, pm, .error .start)
        else
          some (a, ⟨Function.update pm.currentMappings key (some ⟨proto, host, container⟩)⟩,
            .ok host)

/-- `Unmap`: forget the mapping of a host address and release its port. -/
def Unmap (a : PortAllocator) (pm : PortMapper) (host : Addr) :
    Option (PortAllocator × PortMapper × Option MapError) :=
  let key := getKey host
  match pm.currentMappings key with
  | none => some (a, pm, some .portNotMapped)
  | some _ =>
      let pm : PortMapper := ⟨Function.update pm.currentMappings key none⟩
      match host with
      | .tcp ip port => (a.ReleasePort (allocatorIP ip) "tcp" port).map fun a => (a, pm, none)
      | .udp ip port => (a.ReleasePort (allocatorIP ip) "udp" port).map fun a => (a, pm, none)
      | .sctp [] _ => some (a, pm, some .sctpAddrNoIP)
      | .sctp (ip :: _) port =>
          (a.ReleasePort (allocatorIP ip) "sctp" port).map fun a => (a, pm, none)

/-! ## What a mapping leaves allocated -/

/-- `Unmap` of the host address of a mapping: forget it and release its
port. -/
theorem Unmap_withHost (a : PortAllocator) (pm : PortMapper) (container : Addr)
    (hostIP : GoNet.IP) (port : Int64) {m : Mapping}
    (hm : pm.currentMappings (getKey (container.withHost hostIP port)) = some m) :
    Unmap a pm (container.withHost hostIP port) =
      (a.ReleasePort (allocatorIP hostIP) container.proto port).map fun a =>
        (a, ⟨Function.update pm.currentMappings (getKey (container.withHost hostIP port)) none⟩,
          none) := by
  cases container <;> simp only [Addr.withHost] at hm ⊢ <;> simp [Unmap, hm, Addr.proto]

section MapRange

variable {fx : Effects} {a a' : PortAllocator} {pm pm' : PortMapper} {container : Addr}
  {hostIP : GoNet.IP} {hostPortStart hostPortEnd : Int64} {useProxy : Bool}

/-- The outcomes of `MapRange`, with what each leaves: the allocator's
refusal; an error inside the switch, the port still taken; an error after it,
the port released (twice when the proxy does not start); or the mapping,
recorded under a key that was free. -/
theorem MapRange_cases {r : Except MapError Addr}
    (h : MapRange fx a pm container hostIP hostPortStart hostPortEnd useProxy = some (a', pm', r)) :
    pm' = pm ∧ (∃ e, r = .error (.allocator e) ∧
        a.RequestPortInRange (allocatorIP hostIP) container.proto hostPortStart hostPortEnd =
          some (a', .error e)) ∨
    ∃ a₁ port, a.RequestPortInRange (allocatorIP hostIP) container.proto hostPortStart
        hostPortEnd = some (a₁, .ok port) ∧
      let release (a : PortAllocator) := a.ReleasePort (allocatorIP hostIP) container.proto port
      let key := getKey (container.withHost hostIP port)
      (pm' = pm ∧ (r = .error .sctpAddrNoIP ∨ r = .error .proxy) ∧ a' = a₁) ∨
      (pm' = pm ∧ (r = .error .portMappedForIP ∨ r = .error .forwarding) ∧ release a₁ = some a') ∨
      (pm' = pm ∧ r = .error .start ∧ ∃ a₂, release a₁ = some a₂ ∧ release a₂ = some a') ∨
      (r = .ok (container.withHost hostIP port) ∧ a' = a₁ ∧ pm.currentMappings key = none ∧
        pm' = ⟨Function.update pm.currentMappings key
          (some ⟨container.proto, container.withHost hostIP port, container⟩)⟩) := by
  unfold MapRange at h
  dsimp only at h
  split at h
  · cases h
  · rename_i a₁ e hrequest
    cases h
    exact .inl ⟨rfl, e, rfl, hrequest⟩
  rename_i a₁ port hrequest
  refine .inr ⟨a₁, port, hrequest, ?_⟩
  split_ifs at h with hsctp hproxy hmapped hforward hstart
  · cases h
    exact .inl ⟨rfl, .inl rfl, rfl⟩
  · cases h
    exact .inl ⟨rfl, .inr rfl, rfl⟩
  · obtain ⟨a₂, hrelease, h⟩ := Option.map_eq_some_iff.mp h
    cases h
    exact .inr (.inl ⟨rfl, .inl rfl, hrelease⟩)
  · obtain ⟨a₂, hrelease, h⟩ := Option.map_eq_some_iff.mp h
    cases h
    exact .inr (.inl ⟨rfl, .inr rfl, hrelease⟩)
  · obtain ⟨a₂, hrelease, h⟩ := Option.bind_eq_some_iff.mp h
    obtain ⟨a₃, hrelease', h⟩ := Option.map_eq_some_iff.mp h
    cases h
    exact .inr (.inr (.inl ⟨rfl, rfl, a₂, hrelease, hrelease'⟩))
  · cases h
    exact .inr (.inr (.inr ⟨rfl, rfl, Option.not_isSome_iff_eq_none.mp hmapped, rfl⟩))

/-- A failure after the protocol switch leaves the mapper and every port's
allocation as they were. -/
theorem MapRange_error_after_switch_keeps_allocation {err : MapError}
    (h : MapRange fx a pm container hostIP hostPortStart hostPortEnd useProxy =
      some (a', pm', .error err))
    (hswitch : err ≠ .sctpAddrNoIP ∧ err ≠ .proxy) :
    pm' = pm ∧ ∀ ip proto port, a'.allocated ip proto port = a.allocated ip proto port := by
  rcases MapRange_cases h with ⟨rfl, e, -, hrequest⟩ | ⟨a₁, port, hrequest, hcases⟩
  · exact ⟨rfl, PortAllocator.allocated_RequestPortInRange_error hrequest⟩
  have hfree := (PortAllocator.allocated_RequestPortInRange_ok hrequest).1
  rcases hcases with ⟨-, hr | hr, -⟩ | ⟨rfl, -, hrelease⟩ | ⟨rfl, -, a₂, hrelease, hrelease'⟩ | ⟨hr, -⟩
  · cases hr
    exact absurd rfl hswitch.1
  · cases hr
    exact absurd rfl hswitch.2
  · exact ⟨rfl, PortAllocator.allocated_ReleasePort_RequestPortInRange hrequest hrelease⟩
  · -- the port is released twice; the second release finds it free
    have hrestored := PortAllocator.allocated_ReleasePort_RequestPortInRange hrequest hrelease
    refine ⟨rfl, fun ip proto port' => ?_⟩
    rw [PortAllocator.allocated_ReleasePort_of_free hrelease' (by rw [hrestored, hfree]),
      hrestored]
  · cases hr

/-- A forwarding entry that cannot be appended, for one TCP port on a fresh
allocator. -/
theorem MapRange_forwarding_failure_keeps_allocation :
    ∃ a' pm', MapRange ⟨fun _ _ _ => true, fun _ _ _ => true, fun _ _ _ => false⟩
        ⟨fun _ => none, 49153, 65535⟩ ⟨fun _ => none⟩ (.tcp (IPv4 172 17 0 2) 80)
        (IPv4 0 0 0 0) 8080 8080 true = some (a', pm', .error .forwarding) ∧
      pm' = ⟨fun _ => none⟩ ∧ ∀ ip proto port,
        a'.allocated ip proto port = (⟨fun _ => none, 49153, 65535⟩ : PortAllocator).allocated ip proto port := by
  obtain ⟨a', pm', h⟩ : ∃ a' pm', MapRange ⟨fun _ _ _ => true, fun _ _ _ => true, fun _ _ _ => false⟩
      ⟨fun _ => none, 49153, 65535⟩ ⟨fun _ => none⟩ (.tcp (IPv4 172 17 0 2) 80)
      (IPv4 0 0 0 0) 8080 8080 true = some (a', pm', .error .forwarding) := ⟨_, _, rfl⟩
  exact ⟨a', pm', h, MapRange_error_after_switch_keeps_allocation h ⟨by decide, by decide⟩⟩

/-- An error inside the protocol switch returns with the port the allocator
handed out still allocated: the release is deferred only after the switch. -/
theorem MapRange_switch_error_keeps_port {err : MapError}
    (h : MapRange fx a pm container hostIP hostPortStart hostPortEnd useProxy =
      some (a', pm', .error err))
    (hswitch : err = .sctpAddrNoIP ∨ err = .proxy) :
    pm' = pm ∧ ∃ port,
      a.allocated ((allocatorIP hostIP).getD defaultIP) container.proto port = false ∧
      a'.allocated ((allocatorIP hostIP).getD defaultIP) container.proto port = true := by
  rcases MapRange_cases h with ⟨-, e, hr, -⟩ | ⟨a₁, port, hrequest, hcases⟩
  · rcases hswitch with rfl | rfl <;> cases hr
  obtain ⟨hfree, hmark⟩ := PortAllocator.allocated_RequestPortInRange_ok hrequest
  rcases hcases with ⟨rfl, -, rfl⟩ | ⟨-, hr | hr, -⟩ | ⟨-, hr, -⟩ | ⟨hr, -⟩
  · exact ⟨rfl, port, hfree, by simp [hmark]⟩
  -- the errors after the switch are none of the two
  all_goals rcases hswitch with rfl | rfl <;> cases hr

/-- A userland proxy that cannot be created, for one TCP port on a fresh
allocator. -/
theorem MapRange_proxy_failure_keeps_port :
    ∃ a' pm', MapRange ⟨fun _ _ _ => false, fun _ _ _ => true, fun _ _ _ => true⟩
        ⟨fun _ => none, 49153, 65535⟩ ⟨fun _ => none⟩ (.tcp (IPv4 172 17 0 2) 80)
        (IPv4 0 0 0 0) 8080 8080 true = some (a', pm', .error .proxy) ∧
      pm' = ⟨fun _ => none⟩ ∧ ∃ port,
        (⟨fun _ => none, 49153, 65535⟩ : PortAllocator).allocated "0.0.0.0" "tcp" port = false ∧
        a'.allocated "0.0.0.0" "tcp" port = true := by
  obtain ⟨a', pm', h⟩ : ∃ a' pm', MapRange ⟨fun _ _ _ => false, fun _ _ _ => true, fun _ _ _ => true⟩
      ⟨fun _ => none, 49153, 65535⟩ ⟨fun _ => none⟩ (.tcp (IPv4 172 17 0 2) 80)
      (IPv4 0 0 0 0) 8080 8080 true = some (a', pm', .error .proxy) := ⟨_, _, rfl⟩
  exact ⟨a', pm', h, MapRange_switch_error_keeps_port h (.inr rfl)⟩

/-- A mapping made and then unmapped leaves the mapper as it was and every
port's allocation as it was. -/
theorem MapRange_Unmap_round_trip {host : Addr}
    (h : MapRange fx a pm container hostIP hostPortStart hostPortEnd useProxy =
      some (a', pm', .ok host)) :
    ∃ a'', Unmap a' pm' host = some (a'', pm, none) ∧
      ∀ ip proto port, a''.allocated ip proto port = a.allocated ip proto port := by
  rcases MapRange_cases h with ⟨-, e, hr, -⟩ | ⟨a₁, port, hrequest, hcases⟩
  · cases hr
  rcases hcases with ⟨-, hr | hr, -⟩ | ⟨-, hr | hr, -⟩ | ⟨-, hr, -⟩ | ⟨hr, rfl, hfree, rfl⟩
  any_goals cases hr
  obtain ⟨a'', hrelease⟩ := Option.isSome_iff_exists.mp
    (PortAllocator.ReleasePort_isSome_of_RequestPortInRange hrequest port)
  refine ⟨a'', ?_, PortAllocator.allocated_ReleasePort_RequestPortInRange hrequest hrelease⟩
  -- the key was free before the mapping, so forgetting it restores the mapper
  have hforget : Function.update pm.currentMappings (getKey (container.withHost hostIP port)) none =
      pm.currentMappings :=
    Function.update_eq_self_iff.mpr hfree.symm
  rw [Unmap_withHost _ _ _ _ _ (Function.update_self ..), hrelease, Function.update_idem, hforget]
  rfl

/-- One TCP port mapped on a fresh allocator and unmapped. -/
theorem MapRange_Unmap_round_trip_tcp :
    ∃ a' pm', MapRange ⟨fun _ _ _ => true, fun _ _ _ => true, fun _ _ _ => true⟩
        ⟨fun _ => none, 49153, 65535⟩ ⟨fun _ => none⟩ (.tcp (IPv4 172 17 0 2) 80)
        (IPv4 0 0 0 0) 8080 8080 true = some (a', pm', .ok (.tcp (IPv4 0 0 0 0) 8080)) ∧
      ∃ a'', Unmap a' pm' (.tcp (IPv4 0 0 0 0) 8080) = some (a'', ⟨fun _ => none⟩, none) ∧
        ∀ ip proto port, a''.allocated ip proto port =
          (⟨fun _ => none, 49153, 65535⟩ : PortAllocator).allocated ip proto port := by
  obtain ⟨a', pm', h⟩ : ∃ a' pm', MapRange ⟨fun _ _ _ => true, fun _ _ _ => true, fun _ _ _ => true⟩
      ⟨fun _ => none, 49153, 65535⟩ ⟨fun _ => none⟩ (.tcp (IPv4 172 17 0 2) 80)
      (IPv4 0 0 0 0) 8080 8080 true = some (a', pm', .ok (.tcp (IPv4 0 0 0 0) 8080)) :=
    ⟨_, _, rfl⟩
  exact ⟨a', pm', h, MapRange_Unmap_round_trip h⟩

end MapRange
end Libnetwork.Portmapper
