import Libnetwork.NetworkIpam

/-!
# The join information of an endpoint in the datastore

`endpointJoinInfo.MarshalJSON` and `UnmarshalJSON` of `endpoint_info.go`.
The gateways go as the text of their addresses, the flag as a boolean and the
static routes as `json.Marshal` writes a slice of structs.  The reader
decodes the routes into a variable declared in an inner block, which hides
the one the routes are then copied from: whatever is stored, the routes read
back are none.  The driver's table entries are not stored and are left out.
-/

namespace Libnetwork.EndpointInfo

open GoNet GoJson Ipam

/-- `types.StaticRoute`. -/
structure StaticRoute where
  Destination : Option IPNet
  RouteType : Int64
  NextHop : GoNet.IP
  deriving DecidableEq, Repr

/-- `endpointJoinInfo`, without the driver's table entries. -/
structure endpointJoinInfo where
  gw : GoNet.IP
  gw6 : GoNet.IP
  StaticRoutes : List StaticRoute
  disableGatewayService : Bool
  deriving DecidableEq, Repr

/-- A `net.IP` as `json.Marshal` writes it, through `MarshalText`: empty for
a nil address. -/
def ipJson (ip : GoNet.IP) : Json := .str (if ip.isEmpty then "" else IP.String ip)

/-- A `*net.IPNet` as `json.Marshal` writes the struct. -/
def ipNetJson : Option IPNet → Json
  | none => .null
  | some n => .obj [("IP", ipJson n.IP), ("Mask", bytesJson n.Mask)]

/-- A `*types.StaticRoute` as `json.Marshal` writes the struct. -/
def StaticRoute.toJson (r : StaticRoute) : Json :=
  .obj [("Destination", ipNetJson r.Destination), ("RouteType", .num r.RouteType.toInt),
    ("NextHop", ipJson r.NextHop)]

/-- `endpointJoinInfo.MarshalJSON`: the members of the map `json.Marshal`
writes, sorted by key; a nil slice of routes is `null`. -/
def endpointJoinInfo.MarshalJSON (epj : endpointJoinInfo) : Json :=
  .obj ([("StaticRoutes",
      if epj.StaticRoutes.isEmpty then .null else .arr (epj.StaticRoutes.map StaticRoute.toJson)),
    ("disableGatewayService", .bool epj.disableGatewayService)] ++
    (if epj.gw.isEmpty then [] else [("gw", .str (IP.String epj.gw))]) ++
    (if epj.gw6.isEmpty then [] else [("gw6", .str (IP.String epj.gw6))]))

/-- `net.ParseIP` of a gateway's text, nil when it does not parse. -/
def parseGateway (s : String) : GoNet.IP := (ParseIP s.toList).getD []

/-- A gateway member, read by `net.ParseIP`; the record's own when the member
is missing. -/
def readGateway (epMap : List (String × Json)) (key : String) (current : GoNet.IP) :
    Reader GoNet.IP :=
  match lookup epMap key with
  | some v => do pure (parseGateway (← Reader.assert (asString (some v))))
  | none => pure current

/-- `endpointJoinInfo.UnmarshalJSON` into the record `epj`. -/
def endpointJoinInfo.UnmarshalJSON (epj : endpointJoinInfo) (b : Json) :
    Reader endpointJoinInfo := do
  let epMap ← Reader.json (decodeMap b)
  let gw ← readGateway epMap "gw" epj.gw
  let gw6 ← readGateway epMap "gw6" epj.gw6
  let disableGatewayService ← Reader.assert (asBool (lookup epMap "disableGatewayService"))
  -- the routes are decoded into a variable of an inner block, and the outer
  -- one, still nil, is copied
  pure ⟨gw, gw6, [], disableGatewayService⟩

/-- The zero record the store reads into. -/
def endpointJoinInfo.zero : endpointJoinInfo := ⟨[], [], [], false⟩

/-! ## Records that do not survive the store -/

open NetworkIpam Driverapi in
/-- Two records that do not come back as they were stored.  A driver that
answers `ErrIPOutOfRange` for an auxiliary address leaves a nil address in
the info `ipamAllocate` makes, which prints `<nil>` and does not parse back.
A join info with a static route comes back without it. -/
theorem store_records_lose_aux_and_routes :
    ((ipamAllocate
        { defaultIpam with
          RequestAddress := fun a poolID prefAddress opts =>
            if opts.isEmpty then some (a, .error .ipOutOfRange)
            else defaultIpam.RequestAddress a poolID prefAddress opts }
        (fun _ => false) 1
        ⟨"net", false, "LocalDefault", [], false,
          [⟨"10.0.0.0/24", "", "", some [("h", "10.0.0.5")]⟩], [], [], []⟩
        (Ipam.NewAllocator fun _ => [])).map fun (_, n, r) =>
      (n.ipamV4Info.map fun i => i.map fun i => (IpamInfo.zero.UnmarshalJSON i.MarshalJSON).run,
        r)) =
      some ([some (some (.error (.parseCIDR "<nil>")))], none) ∧
    (endpointJoinInfo.zero.UnmarshalJSON
        (endpointJoinInfo.MarshalJSON ⟨IPv4 172 17 0 1, [],
          [⟨some ⟨IPv4 10 1 0 0, [255, 255, 0, 0]⟩, 0, IPv4 172 17 0 1⟩], false⟩)).run =
      some (.ok ⟨IPv4 172 17 0 1, [], [], false⟩) := by
  constructor
  · decide +kernel
  · decide +kernel

end Libnetwork.EndpointInfo
