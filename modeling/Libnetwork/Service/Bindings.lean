import Libnetwork.Setmatrix
import Libnetwork.Support.GoNet
import Libnetwork.Support.Transition

/-!
# Service bindings

The controller keeps, for each service key (the service id and the text of
its ingress ports), a service with one load balancer for each network it is
attached to; each load balancer has a firewall mark from a global 32-bit
counter and a backend for each endpoint, which `rmServiceBinding` may only
disable.  The service also indexes its endpoints by address in the set
matrix `ipToEndpoint`.  `addServiceBinding` creates what is missing and
records the endpoint; `rmServiceBinding` disables or removes it, removing an
empty load balancer, and a service left without load balancers;
`cleanupServiceBindings` removes every backend of a network.

Only this bookkeeping is modelled.  What the calls program into the
sandboxes (`addLBBackend`, `rmLBBackend`) and the name records they update
are left out, with the arguments only those read.  Each call is taken as one
step: the locks make the work of a call on one service atomic, and the
`deleted` flag is what makes that so for a call that looked the service up
before another deleted it.
-/

namespace Libnetwork.ServiceBindings

open GoNet GoMap

inductive PortConfig_Protocol
  | TCP
  | UDP
  | SCTP
  deriving DecidableEq, Repr

/-- `PortConfig_Protocol_name`. -/
def PortConfig_Protocol.name : PortConfig_Protocol → String
  | .TCP => "TCP"
  | .UDP => "UDP"
  | .SCTP => "SCTP"

/-- `PortConfig`, with the fields the service key reads. -/
structure PortConfig where
  Protocol : PortConfig_Protocol
  TargetPort : UInt32
  PublishedPort : UInt32
  deriving DecidableEq, Repr

/-- One port of `portConfigs.String`. -/
def PortConfig.text (pc : PortConfig) : String :=
  toString pc.PublishedPort ++ ":" ++ toString pc.TargetPort ++ "/" ++ pc.Protocol.name

/-- `portConfigs.String`. -/
def portConfigsString : List PortConfig → String
  | [] => ""
  | pc :: p => p.foldl (fun str pc => str ++ "," ++ pc.text) pc.text

/-- `serviceKey`. -/
structure ServiceKey where
  id : String
  ports : String
  deriving DecidableEq, Repr

/-- `lbBackend`. -/
structure LbBackend where
  ip : IP
  disabled : Bool
  deriving DecidableEq, Repr

/-- `loadBalancer`, without its pointer back to the service. -/
structure LoadBalancer where
  vip : IP
  fwMark : UInt32
  backEnds : List (String × LbBackend)
  deriving DecidableEq, Repr

/-- `service`. -/
structure Service where
  name : String
  id : String
  loadBalancers : List (String × LoadBalancer)
  ingressPorts : List PortConfig
  aliases : List String
  ipToEndpoint : List (String × List String)
  deleted : Bool
  deriving DecidableEq, Repr

def newService (name id : String) (ingressPorts : List PortConfig) (serviceAliases : List String) :
    Service :=
  ⟨name, id, [], ingressPorts, serviceAliases, [], false⟩

/-- The controller's bindings, the networks `NetworkByID` finds, and the
global counter `fwMarkCtr`. -/
structure Controller where
  networks : List String
  serviceBindings : List (ServiceKey × Service)
  fwMarkCtr : UInt32
  deriving DecidableEq, Repr

/-- `NetworkByID`: the error it returns, if any. -/
def Controller.NetworkByID (c : Controller) (id : String) : Option String :=
  if id = "" then some ("invalid id: " ++ id)
  else if id ∈ c.networks then none
  else some ("network " ++ id ++ " not found")

/-- The key of a service. -/
def serviceKeyOf (svcID : String) (ingressPorts : List PortConfig) : ServiceKey :=
  ⟨svcID, portConfigsString ingressPorts⟩

/-- The backend of `eID` at `ip` put in the load balancer `lb` of network
`nID`, and the address indexed. -/
def Service.addBackend (s : Service) (nID : String) (lb : LoadBalancer) (eID : String) (ip : IP) :
    Service :=
  { s with
    loadBalancers := set s.loadBalancers nID { lb with backEnds := set lb.backEnds eID ⟨ip, false⟩ }
    ipToEndpoint := (Setmatrix.Insert s.ipToEndpoint (IP.String ip) eID).1 }

/-- `addServiceBinding`: the controller and the error, or `none` when the
loop that looks the service up finds it deleted, which it then does
forever. -/
def Controller.addServiceBinding (c : Controller) (svcName svcID nID eID : String) (vip : IP)
    (ingressPorts : List PortConfig) (serviceAliases : List String) (ip : IP) :
    Option (Controller × Option String) :=
  match c.NetworkByID nID with
  | some err => some (c, some err)
  | none =>
      let skey := serviceKeyOf svcID ingressPorts
      let s := (get? c.serviceBindings skey).getD
        (newService svcName svcID ingressPorts serviceAliases)
      if s.deleted then none
      else
        -- the load balancer of the network, with the next mark when it is new
        let (lb, fwMarkCtr) : LoadBalancer × UInt32 :=
          match get? s.loadBalancers nID with
          | some lb => (lb, c.fwMarkCtr)
          | none => (⟨vip, c.fwMarkCtr, []⟩, c.fwMarkCtr + 1)
        some (⟨c.networks, set c.serviceBindings skey (s.addBackend nID lb eID ip), fwMarkCtr⟩, none)

/-- The backends once the backend `be` of `eID` is removed (`fullRemove`)
or disabled. -/
def rmBackEnds (backEnds : List (String × LbBackend)) (eID : String) (be : LbBackend)
    (fullRemove : Bool) : List (String × LbBackend) :=
  if fullRemove then delete backEnds eID else set backEnds eID { be with disabled := true }

/-- The load balancers once the backend `be` of `eID` in the load balancer
`lb` of network `nID` is removed or disabled; a load balancer left without
backends is removed. -/
def rmBackend (loadBalancers : List (String × LoadBalancer)) (nID : String) (lb : LoadBalancer)
    (eID : String) (be : LbBackend) (fullRemove : Bool) : List (String × LoadBalancer) :=
  let backEnds := rmBackEnds lb.backEnds eID be fullRemove
  if backEnds.length = 0 then delete loadBalancers nID
  else set loadBalancers nID { lb with backEnds }

/-- `rmServiceBinding`, which always returns nil. -/
def Controller.rmServiceBinding (c : Controller) (svcID nID eID : String)
    (ingressPorts : List PortConfig) (ip : IP) (fullRemove : Bool) : Controller :=
  let skey := serviceKeyOf svcID ingressPorts
  match get? c.serviceBindings skey with
  | none => c
  | some s =>
      match get? s.loadBalancers nID with
      | none => c
      | some lb =>
          match get? lb.backEnds eID with
          | none => c
          | some be =>
              let loadBalancers := rmBackend s.loadBalancers nID lb eID be fullRemove
              let ipToEndpoint := (Setmatrix.Remove s.ipToEndpoint (IP.String ip) eID).1
              -- a service left without load balancers is marked deleted and dropped
              let serviceBindings := if loadBalancers.length = 0 then delete c.serviceBindings skey
                else set c.serviceBindings skey { s with loadBalancers, ipToEndpoint }
              { c with serviceBindings }

/-- What one function of `cleanupServiceBindings` removes. -/
structure CleanupTarget where
  svcID : String
  ingressPorts : List PortConfig
  nID : String
  eID : String
  ip : IP
  deriving DecidableEq, Repr

/-- The functions `cleanupServiceBindings` collects: one for each backend of
each load balancer of the network (of every network when `cleanupNID` is
empty) of each service not deleted. -/
def Controller.cleanupTargets (c : Controller) (cleanupNID : String) : List CleanupTarget :=
  c.serviceBindings.flatMap fun e =>
    if e.2.deleted then []
    else e.2.loadBalancers.flatMap fun lb =>
      if cleanupNID ≠ "" ∧ lb.1 ≠ cleanupNID then []
      else lb.2.backEnds.map fun be => ⟨e.2.id, e.2.ingressPorts, lb.1, be.1, be.2.ip⟩

/-- `cleanupServiceBindings`, running the functions in the order `walk` of
the three map walks: each removes its backend with `fullRemove`. -/
def Controller.cleanupServiceBindings (c : Controller) (walk : List CleanupTarget) : Controller :=
  walk.foldl (fun c t => c.rmServiceBinding t.svcID t.nID t.eID t.ingressPorts t.ip true) c

/-- The calls on the bindings. -/
inductive Call
  | addServiceBinding (svcName svcID nID eID : String) (vip : IP) (ingressPorts : List PortConfig)
      (serviceAliases : List String) (ip : IP)
  | rmServiceBinding (svcID nID eID : String) (ingressPorts : List PortConfig) (ip : IP)
      (fullRemove : Bool)
  | cleanupServiceBindings (cleanupNID : String) (walk : List CleanupTarget)

/-- The controller after one call; an add that loops forever leaves it as
it was. -/
def Controller.call (c : Controller) : Call → Controller
  | .addServiceBinding svcName svcID nID eID vip ingressPorts serviceAliases ip =>
      match c.addServiceBinding svcName svcID nID eID vip ingressPorts serviceAliases ip with
      | some r => r.1
      | none => c
  | .rmServiceBinding svcID nID eID ingressPorts ip fullRemove =>
      c.rmServiceBinding svcID nID eID ingressPorts ip fullRemove
  | .cleanupServiceBindings _ walk => c.cleanupServiceBindings walk

/-- A cleanup runs its functions in an order of the map walks: some order of
the functions it collects. -/
def Controller.WalkEnabled (c : Controller) : Call → Prop
  | .cleanupServiceBindings cleanupNID walk => walk.Perm (c.cleanupTargets cleanupNID)
  | _ => True

/-- The controllers that calls lead to from one with no bindings. -/
def Controller.Reachable (c : Controller) : Prop :=
  ∃ networks, Transition.GuardedReachable Controller.WalkEnabled Controller.call ⟨networks, [], 256⟩ c

end Libnetwork.ServiceBindings
