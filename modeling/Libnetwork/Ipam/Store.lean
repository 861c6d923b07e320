import Mathlib
import Libnetwork.Ipam.Allocator
import Libnetwork.Support.GoJson

/-!
# The pool table in the datastore

`ipam/store.go` writes the pool table of an address space with
`json.Marshal` and reads it back with `SetValue`, through the codecs of
`ipam/structures.go`.  A pool is written under the text of its `SubnetKey`;
its network and the sub-network of its range go as text, and the range's
first and last ordinals as numbers, which `AddressRange.UnmarshalJSON`
reads as `float64`s.

`addrSpace.UnmarshalJSON` reads the table twice over: it decodes the whole
value into an `interface{}` map, writes its `Subnets` member back and
decodes that into the pools.  Each pool's key is what `FromString` makes of
its text, the zero key where that fails.  `json.Marshal` writes a map's
members sorted by key.

A nil `*net.IPNet` is the empty network `nilNet`, which `String` prints
`<nil>` as it prints nil.  A `null` pool, a nil `*PoolData` in the source,
is read as the zero pool.  When a record holds several errors, the reader
reports the first in field order.
-/

namespace Libnetwork.Ipam

open GoNet GoJson

/-- The empty network: a nil `*net.IPNet`. -/
def nilNet : IPNet := ⟨[], []⟩

/-! ## Writing -/

/-- A `SubnetKey` as `json.Marshal` writes a struct: its fields in order. -/
def SubnetKey.toJson (k : SubnetKey) : Json :=
  .obj [("AddressSpace", .str k.AddressSpace), ("Subnet", .str k.Subnet),
    ("ChildSubnet", .str k.ChildSubnet)]

def AddressRange.MarshalJSON (r : AddressRange) : Json :=
  .obj [("End", .num r.End.toNat), ("Start", .num r.Start.toNat), ("Sub", .str r.Sub.String)]

def PoolData.MarshalJSON (p : PoolData) : Json :=
  .obj ([("ParentKey", p.ParentKey.toJson)] ++
    (if p.Pool != nilNet then [("Pool", .str p.Pool.String)] else []) ++
    (match p.Range with
      | some r => [("Range", r.MarshalJSON)]
      | none => []) ++
    [("RefCount", .num p.RefCount)])

/-- `addrSpace.MarshalJSON`, with the scope the source keeps beside the
table. -/
def AddrSpace.MarshalJSON (aSpace : AddrSpace) (scope : String) : Json :=
  let s := aSpace.subnets.entries.map fun e => (e.1.toString, e.2.MarshalJSON)
  .obj [("Scope", .str scope), ("Subnets", .obj (s.insertionSort fun a b => a.1 ≤ b.1))]

/-- `addrSpace.Value`: the encoding cannot fail. -/
def AddrSpace.Value (aSpace : AddrSpace) (scope : String) : Json :=
  aSpace.MarshalJSON scope

/-! ## Reading -/

/-- The errors of reading a table back. -/
inductive StoreError
  | unmarshalType (e : UnmarshalTypeError)
  | parseCIDR (text : String)
  deriving DecidableEq, Repr

/-- The text of each error. -/
def StoreError.Error : StoreError → String
  | .unmarshalType e => e.Error
  | .parseCIDR text => "invalid CIDR address: " ++ text

/-- A reader of stored records: `none` where it panics. -/
abbrev Reader := ExceptT StoreError Option

theorem Reader.bind_ok {α β : Type} {r : Reader α} {f : α → Reader β} {b : β}
    (h : (r >>= f).run = some (.ok b)) : ∃ a, r.run = some (.ok a) ∧ (f a).run = some (.ok b) := by
  rcases hr : r.run with _ | (e | a)
  · simp [ExceptT.run_bind, hr] at h
  · simp [ExceptT.run_bind, hr] at h
  · exact ⟨a, rfl, by simpa [ExceptT.run_bind, hr] using h⟩

/-- A decoding step of `encoding/json`. -/
def Reader.json {α : Type} (r : Except UnmarshalTypeError α) : Reader α :=
  ExceptT.mk (some (r.mapError .unmarshalType))

/-- A type assertion: it panics on `none`. -/
def Reader.assert {α : Type} (v : Option α) : Reader α :=
  ExceptT.lift v

/-- `types.ParseCIDR`. -/
def Reader.parseCIDR (s : String) : Reader IPNet :=
  match Ipam.ParseCIDR s with
  | some n => pure n
  | none => throw (.parseCIDR s)

/-- The fields of a `SubnetKey` at field path `path`. -/
def subnetKeyOfMembers (path : String) (members : List (String × Json)) :
    Except UnmarshalTypeError SubnetKey := do
  let AddressSpace ← stringField "SubnetKey" path members "AddressSpace"
  let Subnet ← stringField "SubnetKey" path members "Subnet"
  let ChildSubnet ← stringField "SubnetKey" path members "ChildSubnet"
  return ⟨AddressSpace, Subnet, ChildSubnet⟩

/-- The `ParentKey` field of a pool record. -/
def parentKeyField (t : List (String × Json)) : Except UnmarshalTypeError SubnetKey :=
  match lookup t "ParentKey" with
  | none | some .null => .ok SubnetKey.zero
  | some (.obj members) => subnetKeyOfMembers "ParentKey." members
  | some j => .error ⟨j.kind, "ipam.SubnetKey", "", "ParentKey"⟩

def AddressRange.UnmarshalJSON (data : Json) : Reader AddressRange := do
  let m ← Reader.json (decodeMap data)
  let Sub ← Reader.parseCIDR (← Reader.assert (asString (lookup m "Sub")))
  let Start ← Reader.assert (asFloat64 (lookup m "Start"))
  let End ← Reader.assert (asFloat64 (lookup m "End"))
  return ⟨Sub, uint64OfFloat Start, uint64OfFloat End⟩

/-- The type of the record `PoolData.UnmarshalJSON` decodes into. -/
def poolRecordType : String :=
  "struct \x7b ParentKey ipam.SubnetKey; Pool string; " ++
    "Range *ipam.AddressRange \"json:\\\",omitempty\\\"\"; RefCount int \x7d"

def PoolData.UnmarshalJSON (data : Json) : Reader PoolData := do
  let t ← Reader.json (decodeStruct poolRecordType data)
  let ParentKey ← Reader.json (parentKeyField t)
  let Pool ← Reader.json (stringField "" "" t "Pool")
  let Range ← match lookup t "Range" with
    | none | some .null => pure none
    | some r => some <$> AddressRange.UnmarshalJSON r
  let RefCount ← Reader.json (intField "" "" t "RefCount")
  -- an empty `Pool` leaves the network nil
  let Pool ← if Pool != "" then Reader.parseCIDR Pool else pure nilNet
  return ⟨ParentKey, Pool, Range, RefCount⟩

/-- `json.Unmarshal` into a `map[string]*PoolData`: the pool of each
member. -/
def decodePools : Json → Reader (List (String × PoolData))
  | .null => pure []
  | .obj members => members.mapM fun m => do return (m.1, ← PoolData.UnmarshalJSON m.2)
  | j => Reader.json (.error ⟨j.kind, "map[string]*ipam.PoolData", "", ""⟩)

/-- The key a pool is read back under: `FromString` of its text, whose error
is ignored and leaves the key zero. -/
def keyOfString (ks : String) : SubnetKey :=
  (SubnetKey.FromString ks).getD SubnetKey.zero

/-- `addrSpace.UnmarshalJSON` on the fresh table of `SetValue`. -/
def AddrSpace.UnmarshalJSON (data : Json) : Reader Subnets := do
  let m ← Reader.json (decodeMap data)
  -- the scope must be a string; `SetValue` keeps the table only
  let _ ← Reader.assert (asString (lookup m "Scope"))
  match lookup m "Subnets" with
  | none => pure ∅
  | some v =>
      -- `json.Marshal(v)` writes the value back as it was read
      let s ← decodePools v
      return s.foldl (fun subnets p => subnets.insert (keyOfString p.1) p.2) ∅

/-- `addrSpace.SetValue`: the table read back, the address space as it was
on an error. -/
def AddrSpace.SetValue (aSpace : AddrSpace) (value : Json) :
    Option (AddrSpace × Option StoreError) :=
  match (AddrSpace.UnmarshalJSON value).run with
  | none => none
  | some (.error e) => some (aSpace, some e)
  | some (.ok subnets) => some (⟨subnets⟩, none)

/-- An IPv6 sub-pool whose range ends at ordinal `2^63 - 1` is read back
ending at `2^63`, the nearest `float64`; the rest of it and its implicit
parent are read back as they were written. -/
theorem setValue_rounds_ipv6_range_end :
    let sub : SubnetKey := ⟨"LocalDefault", "2001:db8::/64", "2001:db8::/65"⟩
    let parent : SubnetKey := ⟨"LocalDefault", "2001:db8::/64", ""⟩
    ∃ a nw aSpace,
      (NewAllocator fun _ => []).RequestPool "LocalDefault" "2001:db8::/64" "2001:db8::/65"
          true =
        some (a, .ok ("LocalDefault/2001:db8::/64/2001:db8::/65", nw)) ∧
      a.addrSpaces "LocalDefault" = some aSpace ∧
      ((aSpace.subnets.lookup sub).bind PoolData.Range).map AddressRange.End =
        some 0x7fffffffffffffff ∧
      (aSpace.SetValue (aSpace.Value "local")).map
          (fun r => (r.1.subnets.lookup sub, r.1.subnets.lookup parent, r.2)) =
        some ((aSpace.subnets.lookup sub).map
            (fun p => { p with Range := p.Range.map ({ · with End := 0x8000000000000000 }) }),
          aSpace.subnets.lookup parent, none) := by
  refine ⟨_, _, _, rfl, rfl, ?_, ?_⟩
  · decide +kernel
  · decide +kernel

end Libnetwork.Ipam
