import Libnetwork.Driverapi.IpamData
import Libnetwork.Ipam.Store

/-!
# The IPAM data in the datastore

`IPAMData.MarshalJSON` and `IPAMData.UnmarshalJSON` of
`driverapi/ipamdata.go`.  Each address goes as the text `String` gives it,
and is read back by `types.ParseCIDR`; a nil auxiliary address prints
`<nil>`, which does not parse.  The auxiliary addresses are read back in the
order of their members, where the source ranges over a map.
-/

namespace Libnetwork.Driverapi

open GoNet GoJson Ipam

/-- `IPAMData.MarshalJSON`: the members of the map `json.Marshal` writes,
sorted by key. -/
def IPAMData.MarshalJSON (i : IPAMData) : Json :=
  .obj ([("AddressSpace", .str i.AddressSpace)] ++
    (match i.AuxAddresses with
      | some am =>
          let am := am.map fun (k, v) => (k, Json.str (ipNetPtrString v))
          [("AuxAddresses", .obj (am.insertionSort fun a b => a.1 ≤ b.1))]
      | none => []) ++
    (match i.Gateway with
      | some g => [("Gateway", .str g.String)]
      | none => []) ++
    (match i.Pool with
      | some p => [("Pool", .str p.String)]
      | none => []))

/-- `json.Unmarshal` into a `map[string]string`: `null` leaves it empty, a
`null` member is the empty string. -/
def decodeStringMap : Json → Except UnmarshalTypeError (List (String × String))
  | .null => .ok []
  | .obj members =>
      members.mapM fun (k, v) =>
        match v with
        | .str s => .ok (k, s)
        | .null => .ok (k, "")
        | j => .error ⟨j.kind, "string", "", ""⟩
  | j => .error ⟨j.kind, "map[string]string", "", ""⟩

/-- The text of an address member, read back by `types.ParseCIDR`. -/
def parseAddressMember (v : Json) : Reader IPNet := do
  Reader.parseCIDR (← Reader.assert (asString (some v)))

/-- `IPAMData.UnmarshalJSON` into the record `i`. -/
def IPAMData.UnmarshalJSON (i : IPAMData) (data : Json) : Reader IPAMData := do
  let m ← Reader.json (decodeMap data)
  let AddressSpace ← Reader.assert (asString (lookup m "AddressSpace"))
  let i := { i with AddressSpace }
  let i ← match lookup m "Pool" with
    | some v => do pure { i with Pool := some (← parseAddressMember v) }
    | none => pure i
  let i ← match lookup m "Gateway" with
    | some v => do pure { i with Gateway := some (← parseAddressMember v) }
    | none => pure i
  match lookup m "AuxAddresses" with
  | some v =>
      -- `json.Marshal(v)` writes the value back as it was read
      let am ← Reader.json (decodeStringMap v)
      let aux ← am.mapM fun (k, s) => do pure (k, some (← Reader.parseCIDR s))
      return { i with AuxAddresses := some aux }
  | none => pure i

/-- The zero record the store reads into. -/
def IPAMData.zero : IPAMData := ⟨"", none, none, none⟩

example :
    (IPAMData.zero.UnmarshalJSON
        (IPAMData.MarshalJSON ⟨"LocalDefault", some ⟨IPv4 10 0 0 0, [255, 255, 255, 0]⟩,
          some ⟨IPv4 10 0 0 1, [255, 255, 255, 0]⟩, some [("h", some ⟨IPv4 10 0 0 5, [255, 255, 255, 0]⟩)]⟩)).run =
      some (.ok ⟨"LocalDefault", some ⟨IPv4 10 0 0 0, [255, 255, 255, 0]⟩,
          some ⟨IPv4 10 0 0 1, [255, 255, 255, 0]⟩, some [("h", some ⟨IPv4 10 0 0 5, [255, 255, 255, 0]⟩)]⟩) := by
  decide +kernel

end Libnetwork.Driverapi
