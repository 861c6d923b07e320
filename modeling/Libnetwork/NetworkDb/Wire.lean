import Libnetwork.Support.Protobuf
import Libnetwork.NetworkDb.Handlers

/-!
# The wire format of NetworkDB's gossip

The messages of `networkdb.proto` with the code that gogo/protobuf generates
for them in `networkdb.pb.go`.  Each message is a Go struct; `MarshalTo` and
`Size` walk its fields in one order and write a field only when it is not the
default, and `Unmarshal` is the loop of `Protobuf` with the message's own
readers.  Strings are Go strings, so bytes; an enum is an `int32`, written as
its 64-bit sign extension.  `Marshal` is `MarshalTo` into a buffer of `Size`
bytes, which it fills exactly (`Size_eq_length`).

`message.go` frames every message in a `GossipMessage` with its type, and
packs several into one `CompoundMessage`.

The main results: every message reads back as it was written
(`NodeEvent.Unmarshal_MarshalTo` and its siblings), and a frame gives back
the type and the payload it was made of.
-/

namespace Libnetwork.NetworkDb.Wire

open Protobuf

inductive MessageType
  | invalid
  | networkEvent
  | tableEvent
  | pushPull
  | bulkSync
  | compound
  | nodeEvent
  deriving DecidableEq, Repr

/-- The value of a `MessageType` on the wire. -/
def MessageType.code : MessageType → Int32
  | .invalid => 0
  | .networkEvent => 1
  | .tableEvent => 2
  | .pushPull => 3
  | .bulkSync => 4
  | .compound => 5
  | .nodeEvent => 6

/-! ## `GossipMessage` -/

@[ext] structure GossipMessage where
  type : Int32 := 0
  Data : List UInt8 := []
  deriving DecidableEq, Repr

namespace GossipMessage

/-- The fields `MarshalTo` writes and `Size` counts, in order. -/
def wireFields (m : GossipMessage) : List WireField :=
  (if m.type ≠ 0 then [.varint 0x8 m.type.toInt64.toUInt64] else []) ++
  (if m.Data.length > 0 then [.lengthDelimited 0x12 m.Data.length m.Data] else [])

def MarshalTo (m : GossipMessage) : List UInt8 := m.wireFields.flatMap WireField.encode

def Size (m : GossipMessage) : ℕ := (m.wireFields.map WireField.size).sum

/-- The readers of `Unmarshal`, by field number. -/
def fields : ℕ → Option (FieldReader GossipMessage)
  | 1 => some (.varint fun v m => { m with type := v.toUInt32.toInt32 })
  | 2 => some (.lengthDelimited fun b m => some (.ok { m with Data := b }))
  | _ => none

def Unmarshal (dAtA : List UInt8) : Decoded GossipMessage := unmarshal fields {} dAtA

instance : Marshaler GossipMessage := ⟨MarshalTo⟩

@[simp] theorem Marshal_eq (m : GossipMessage) : Marshaler.Marshal m = m.MarshalTo := rfl

theorem wellFormed_wireFields (m : GossipMessage) : ∀ f ∈ m.wireFields, f.WellFormed := by
  intro f hf
  simp only [wireFields, List.mem_append] at hf
  rcases hf with hf | hf <;> split at hf <;> simp at hf <;> subst hf <;>
    simp [WireField.WellFormed]

theorem Size_eq_length (m : GossipMessage) : m.Size = m.MarshalTo.length := by
  rw [Size, MarshalTo, List.length_flatMap]
  congr 1
  exact List.map_congr_left fun f hf => WireField.size_eq_length (wellFormed_wireFields m f hf)

theorem Unmarshal_MarshalTo (m : GossipMessage) (hlen : m.MarshalTo.length < 2 ^ 63) :
    Unmarshal m.MarshalTo = some (.ok m) := by
  rw [Unmarshal, MarshalTo, unmarshal_flatMap fields {} (wellFormed_wireFields m) hlen, wireFields]
  simp only [applyAll_append, applyAll_ite_single, WireField.apply, WireField.num,
    UInt8.reduceToNat, Nat.reduceDiv, fields, Decoded.andThen_ok,
    toUInt32_toInt32_toUInt64, Decoded.ite_ok]
  congr 2
  ext <;> simp only [apply_ite GossipMessage.type, apply_ite GossipMessage.Data, ite_self,
    ite_ne_self, ite_length_pos_self]

end GossipMessage

/-! ## `NodeEvent` -/

@[ext] structure NodeEvent where
  type : Int32 := 0
  LTime : UInt64 := 0
  NodeName : List UInt8 := []
  deriving DecidableEq, Repr

namespace NodeEvent

/-- The fields `MarshalTo` writes and `Size` counts, in order. -/
def wireFields (m : NodeEvent) : List WireField :=
  (if m.type ≠ 0 then [.varint 0x8 m.type.toInt64.toUInt64] else []) ++
  (if m.LTime ≠ 0 then [.varint 0x10 m.LTime] else []) ++
  (if m.NodeName.length > 0 then [.lengthDelimited 0x1a m.NodeName.length m.NodeName] else [])

def MarshalTo (m : NodeEvent) : List UInt8 := m.wireFields.flatMap WireField.encode

def Size (m : NodeEvent) : ℕ := (m.wireFields.map WireField.size).sum

/-- The readers of `Unmarshal`, by field number. -/
def fields : ℕ → Option (FieldReader NodeEvent)
  | 1 => some (.varint fun v m => { m with type := v.toUInt32.toInt32 })
  | 2 => some (.varint fun v m => { m with LTime := v })
  | 3 => some (.lengthDelimited fun b m => some (.ok { m with NodeName := b }))
  | _ => none

def Unmarshal (dAtA : List UInt8) : Decoded NodeEvent := unmarshal fields {} dAtA

instance : Marshaler NodeEvent := ⟨MarshalTo⟩

@[simp] theorem Marshal_eq (m : NodeEvent) : Marshaler.Marshal m = m.MarshalTo := rfl

theorem wellFormed_wireFields (m : NodeEvent) : ∀ f ∈ m.wireFields, f.WellFormed := by
  intro f hf
  simp only [wireFields, List.mem_append] at hf
  rcases hf with (hf | hf) | hf <;> split at hf <;> simp at hf <;> subst hf <;>
    simp [WireField.WellFormed]

theorem Size_eq_length (m : NodeEvent) : m.Size = m.MarshalTo.length := by
  rw [Size, MarshalTo, List.length_flatMap]
  congr 1
  exact List.map_congr_left fun f hf => WireField.size_eq_length (wellFormed_wireFields m f hf)

theorem Unmarshal_MarshalTo (m : NodeEvent) (hlen : m.MarshalTo.length < 2 ^ 63) :
    Unmarshal m.MarshalTo = some (.ok m) := by
  rw [Unmarshal, MarshalTo, unmarshal_flatMap fields {} (wellFormed_wireFields m) hlen, wireFields]
  simp only [applyAll_append, applyAll_ite_single, WireField.apply, WireField.num,
    UInt8.reduceToNat, Nat.reduceDiv, fields, Decoded.andThen_ok,
    toUInt32_toInt32_toUInt64, Decoded.ite_ok]
  congr 2
  ext <;> simp only [apply_ite NodeEvent.type, apply_ite NodeEvent.LTime,
    apply_ite NodeEvent.NodeName, ite_self, ite_ne_self, ite_length_pos_self]

end NodeEvent

/-! ## `NetworkEvent` -/

@[ext] structure NetworkEvent where
  type : Int32 := 0
  LTime : UInt64 := 0
  NodeName : List UInt8 := []
  NetworkID : List UInt8 := []
  deriving DecidableEq, Repr

namespace NetworkEvent

/-- The fields `MarshalTo` writes and `Size` counts, in order. -/
def wireFields (m : NetworkEvent) : List WireField :=
  (if m.type ≠ 0 then [.varint 0x8 m.type.toInt64.toUInt64] else []) ++
  (if m.LTime ≠ 0 then [.varint 0x10 m.LTime] else []) ++
  (if m.NodeName.length > 0 then [.lengthDelimited 0x1a m.NodeName.length m.NodeName] else []) ++
  (if m.NetworkID.length > 0 then [.lengthDelimited 0x22 m.NetworkID.length m.NetworkID] else [])

def MarshalTo (m : NetworkEvent) : List UInt8 := m.wireFields.flatMap WireField.encode

def Size (m : NetworkEvent) : ℕ := (m.wireFields.map WireField.size).sum

/-- The readers of `Unmarshal`, by field number. -/
def fields : ℕ → Option (FieldReader NetworkEvent)
  | 1 => some (.varint fun v m => { m with type := v.toUInt32.toInt32 })
  | 2 => some (.varint fun v m => { m with LTime := v })
  | 3 => some (.lengthDelimited fun b m => some (.ok { m with NodeName := b }))
  | 4 => some (.lengthDelimited fun b m => some (.ok { m with NetworkID := b }))
  | _ => none

def Unmarshal (dAtA : List UInt8) : Decoded NetworkEvent := unmarshal fields {} dAtA

instance : Marshaler NetworkEvent := ⟨MarshalTo⟩

@[simp] theorem Marshal_eq (m : NetworkEvent) : Marshaler.Marshal m = m.MarshalTo := rfl

theorem wellFormed_wireFields (m : NetworkEvent) : ∀ f ∈ m.wireFields, f.WellFormed := by
  intro f hf
  simp only [wireFields, List.mem_append] at hf
  rcases hf with ((hf | hf) | hf) | hf <;> split at hf <;> simp at hf <;> subst hf <;>
    simp [WireField.WellFormed]

theorem Size_eq_length (m : NetworkEvent) : m.Size = m.MarshalTo.length := by
  rw [Size, MarshalTo, List.length_flatMap]
  congr 1
  exact List.map_congr_left fun f hf => WireField.size_eq_length (wellFormed_wireFields m f hf)

theorem Unmarshal_MarshalTo (m : NetworkEvent) (hlen : m.MarshalTo.length < 2 ^ 63) :
    Unmarshal m.MarshalTo = some (.ok m) := by
  rw [Unmarshal, MarshalTo, unmarshal_flatMap fields {} (wellFormed_wireFields m) hlen, wireFields]
  simp only [applyAll_append, applyAll_ite_single, WireField.apply, WireField.num,
    UInt8.reduceToNat, Nat.reduceDiv, fields, Decoded.andThen_ok,
    toUInt32_toInt32_toUInt64, Decoded.ite_ok]
  congr 2
  ext <;> simp only [apply_ite NetworkEvent.type, apply_ite NetworkEvent.LTime,
    apply_ite NetworkEvent.NodeName, apply_ite NetworkEvent.NetworkID, ite_self, ite_ne_self,
    ite_length_pos_self]

end NetworkEvent

/-! ## `NetworkEntry` and `NetworkPushPull` -/

@[ext] structure NetworkEntry where
  NetworkID : List UInt8 := []
  LTime : UInt64 := 0
  NodeName : List UInt8 := []
  Leaving : Bool := false
  deriving DecidableEq, Repr

namespace NetworkEntry

/-- The fields `MarshalTo` writes and `Size` counts, in order; a bool is the
varint `1`. -/
def wireFields (m : NetworkEntry) : List WireField :=
  (if m.NetworkID.length > 0 then [.lengthDelimited 0xa m.NetworkID.length m.NetworkID] else []) ++
  (if m.LTime ≠ 0 then [.varint 0x10 m.LTime] else []) ++
  (if m.NodeName.length > 0 then [.lengthDelimited 0x1a m.NodeName.length m.NodeName] else []) ++
  (if m.Leaving = true then [.varint 0x20 1] else [])

def MarshalTo (m : NetworkEntry) : List UInt8 := m.wireFields.flatMap WireField.encode

def Size (m : NetworkEntry) : ℕ := (m.wireFields.map WireField.size).sum

/-- The readers of `Unmarshal`, by field number. -/
def fields : ℕ → Option (FieldReader NetworkEntry)
  | 1 => some (.lengthDelimited fun b m => some (.ok { m with NetworkID := b }))
  | 2 => some (.varint fun v m => { m with LTime := v })
  | 3 => some (.lengthDelimited fun b m => some (.ok { m with NodeName := b }))
  | 4 => some (.varint fun v m => { m with Leaving := v != 0 })
  | _ => none

def Unmarshal (dAtA : List UInt8) : Decoded NetworkEntry := unmarshal fields {} dAtA

instance : Marshaler NetworkEntry := ⟨MarshalTo⟩

@[simp] theorem Marshal_eq (m : NetworkEntry) : Marshaler.Marshal m = m.MarshalTo := rfl

theorem wellFormed_wireFields (m : NetworkEntry) : ∀ f ∈ m.wireFields, f.WellFormed := by
  intro f hf
  simp only [wireFields, List.mem_append] at hf
  rcases hf with ((hf | hf) | hf) | hf <;> split at hf <;> simp at hf <;> subst hf <;>
    simp [WireField.WellFormed]

theorem Size_eq_length (m : NetworkEntry) : m.Size = m.MarshalTo.length := by
  rw [Size, MarshalTo, List.length_flatMap]
  congr 1
  exact List.map_congr_left fun f hf => WireField.size_eq_length (wellFormed_wireFields m f hf)

theorem Unmarshal_MarshalTo (m : NetworkEntry) (hlen : m.MarshalTo.length < 2 ^ 63) :
    Unmarshal m.MarshalTo = some (.ok m) := by
  rw [Unmarshal, MarshalTo, unmarshal_flatMap fields {} (wellFormed_wireFields m) hlen, wireFields]
  simp only [applyAll_append, applyAll_ite_single, WireField.apply, WireField.num,
    UInt8.reduceToNat, Nat.reduceDiv, fields, Decoded.andThen_ok,
    Decoded.ite_ok]
  congr 2
  ext <;> simp only [apply_ite NetworkEntry.NetworkID, apply_ite NetworkEntry.LTime,
    apply_ite NetworkEntry.NodeName, apply_ite NetworkEntry.Leaving, ite_self, ite_ne_self,
    ite_length_pos_self]
  simp

end NetworkEntry

@[ext] structure NetworkPushPull where
  LTime : UInt64 := 0
  Networks : List NetworkEntry := []
  NodeName : List UInt8 := []
  deriving DecidableEq, Repr

namespace NetworkPushPull

/-- The fields `MarshalTo` writes and `Size` counts, in order: each network is
an embedded message, its length given by its `Size`. -/
def wireFields (m : NetworkPushPull) : List WireField :=
  (if m.LTime ≠ 0 then [.varint 0x8 m.LTime] else []) ++
  m.Networks.map (fun msg => .lengthDelimited 0x12 msg.Size msg.MarshalTo) ++
  (if m.NodeName.length > 0 then [.lengthDelimited 0x1a m.NodeName.length m.NodeName] else [])

def MarshalTo (m : NetworkPushPull) : List UInt8 := m.wireFields.flatMap WireField.encode

def Size (m : NetworkPushPull) : ℕ := (m.wireFields.map WireField.size).sum

/-- The readers of `Unmarshal`, by field number: a network is appended, and
decoded with `NetworkEntry.Unmarshal`, whose error ends this one. -/
def fields : ℕ → Option (FieldReader NetworkPushPull)
  | 1 => some (.varint fun v m => { m with LTime := v })
  | 2 => some (.lengthDelimited fun b m =>
      (NetworkEntry.Unmarshal b).andThen fun e => some (.ok { m with Networks := m.Networks ++ [e] }))
  | 3 => some (.lengthDelimited fun b m => some (.ok { m with NodeName := b }))
  | _ => none

def Unmarshal (dAtA : List UInt8) : Decoded NetworkPushPull := unmarshal fields {} dAtA

instance : Marshaler NetworkPushPull := ⟨MarshalTo⟩

@[simp] theorem Marshal_eq (m : NetworkPushPull) : Marshaler.Marshal m = m.MarshalTo := rfl

theorem wellFormed_wireFields (m : NetworkPushPull) : ∀ f ∈ m.wireFields, f.WellFormed := by
  intro f hf
  simp only [wireFields, List.mem_append, List.mem_map] at hf
  rcases hf with (hf | ⟨e, -, rfl⟩) | hf
  · split at hf <;> simp at hf
    subst hf
    simp [WireField.WellFormed]
  · simp [WireField.WellFormed, NetworkEntry.Size_eq_length]
  · split at hf <;> simp at hf
    subst hf
    simp [WireField.WellFormed]

theorem Size_eq_length (m : NetworkPushPull) : m.Size = m.MarshalTo.length := by
  rw [Size, MarshalTo, List.length_flatMap]
  congr 1
  exact List.map_congr_left fun f hf => WireField.size_eq_length (wellFormed_wireFields m f hf)

theorem Unmarshal_MarshalTo (m : NetworkPushPull) (hlen : m.MarshalTo.length < 2 ^ 63) :
    Unmarshal m.MarshalTo = some (.ok m) := by
  have hentry : ∀ e ∈ m.Networks, ∀ s : NetworkPushPull,
      (WireField.lengthDelimited 0x12 e.Size e.MarshalTo).apply fields s =
        some (.ok { s with Networks := s.Networks ++ [e] }) := by
    intro e he s
    have hmem : WireField.lengthDelimited 0x12 e.Size e.MarshalTo ∈ m.wireFields := by
      simp only [wireFields, List.mem_append, List.mem_map]
      exact Or.inl (Or.inr ⟨e, he, rfl⟩)
    have hle := length_encode_le_of_mem hmem
    simp only [WireField.encode, List.length_cons, List.length_append] at hle
    simp only [WireField.apply, WireField.num, UInt8.reduceToNat, Nat.reduceDiv, fields]
    rw [NetworkEntry.Unmarshal_MarshalTo e (by rw [MarshalTo] at hlen; omega), Decoded.andThen_ok]
  rw [Unmarshal, MarshalTo, unmarshal_flatMap fields {} (wellFormed_wireFields m) hlen, wireFields]
  simp only [applyAll_append, applyAll_ite_single, WireField.apply, WireField.num,
    UInt8.reduceToNat, Nat.reduceDiv, fields, applyAll_map fields _ hentry,
    Decoded.andThen_ok,
    foldl_append_one (fun s : NetworkPushPull => s.Networks) (fun l s => { s with Networks := l })
      (fun _ _ => rfl) (fun _ _ _ => rfl) (fun _ => rfl), Decoded.ite_ok]
  congr 2
  ext <;> simp only [apply_ite NetworkPushPull.LTime, apply_ite NetworkPushPull.Networks,
    apply_ite NetworkPushPull.NodeName, ite_self, ite_ne_self, ite_length_pos_self, List.nil_append]

end NetworkPushPull

/-! ## `TableEvent` -/

@[ext] structure TableEvent where
  type : Int32 := 0
  LTime : UInt64 := 0
  NodeName : List UInt8 := []
  NetworkID : List UInt8 := []
  TableName : List UInt8 := []
  Key : List UInt8 := []
  Value : List UInt8 := []
  ResidualReapTime : Int32 := 0
  deriving DecidableEq, Repr

namespace TableEvent

/-- The fields `MarshalTo` writes and `Size` counts, in order. -/
def wireFields (m : TableEvent) : List WireField :=
  (if m.type ≠ 0 then [.varint 0x8 m.type.toInt64.toUInt64] else []) ++
  (if m.LTime ≠ 0 then [.varint 0x10 m.LTime] else []) ++
  (if m.NodeName.length > 0 then [.lengthDelimited 0x1a m.NodeName.length m.NodeName] else []) ++
  (if m.NetworkID.length > 0 then [.lengthDelimited 0x22 m.NetworkID.length m.NetworkID] else []) ++
  (if m.TableName.length > 0 then [.lengthDelimited 0x2a m.TableName.length m.TableName] else []) ++
  (if m.Key.length > 0 then [.lengthDelimited 0x32 m.Key.length m.Key] else []) ++
  (if m.Value.length > 0 then [.lengthDelimited 0x3a m.Value.length m.Value] else []) ++
  (if m.ResidualReapTime ≠ 0 then [.varint 0x40 m.ResidualReapTime.toInt64.toUInt64] else [])

def MarshalTo (m : TableEvent) : List UInt8 := m.wireFields.flatMap WireField.encode

def Size (m : TableEvent) : ℕ := (m.wireFields.map WireField.size).sum

/-- The readers of `Unmarshal`, by field number. -/
def fields : ℕ → Option (FieldReader TableEvent)
  | 1 => some (.varint fun v m => { m with type := v.toUInt32.toInt32 })
  | 2 => some (.varint fun v m => { m with LTime := v })
  | 3 => some (.lengthDelimited fun b m => some (.ok { m with NodeName := b }))
  | 4 => some (.lengthDelimited fun b m => some (.ok { m with NetworkID := b }))
  | 5 => some (.lengthDelimited fun b m => some (.ok { m with TableName := b }))
  | 6 => some (.lengthDelimited fun b m => some (.ok { m with Key := b }))
  | 7 => some (.lengthDelimited fun b m => some (.ok { m with Value := b }))
  | 8 => some (.varint fun v m => { m with ResidualReapTime := v.toUInt32.toInt32 })
  | _ => none

def Unmarshal (dAtA : List UInt8) : Decoded TableEvent := unmarshal fields {} dAtA

instance : Marshaler TableEvent := ⟨MarshalTo⟩

@[simp] theorem Marshal_eq (m : TableEvent) : Marshaler.Marshal m = m.MarshalTo := rfl

theorem wellFormed_wireFields (m : TableEvent) : ∀ f ∈ m.wireFields, f.WellFormed := by
  intro f hf
  simp only [wireFields, List.mem_append] at hf
  rcases hf with ((((((hf | hf) | hf) | hf) | hf) | hf) | hf) | hf <;> split at hf <;>
    simp at hf <;> subst hf <;> simp [WireField.WellFormed]

theorem Size_eq_length (m : TableEvent) : m.Size = m.MarshalTo.length := by
  rw [Size, MarshalTo, List.length_flatMap]
  congr 1
  exact List.map_congr_left fun f hf => WireField.size_eq_length (wellFormed_wireFields m f hf)

theorem Unmarshal_MarshalTo (m : TableEvent) (hlen : m.MarshalTo.length < 2 ^ 63) :
    Unmarshal m.MarshalTo = some (.ok m) := by
  rw [Unmarshal, MarshalTo, unmarshal_flatMap fields {} (wellFormed_wireFields m) hlen, wireFields]
  simp only [applyAll_append, applyAll_ite_single, WireField.apply, WireField.num,
    UInt8.reduceToNat, Nat.reduceDiv, fields, Decoded.andThen_ok,
    toUInt32_toInt32_toUInt64, Decoded.ite_ok]
  congr 2
  ext <;> simp only [apply_ite TableEvent.type, apply_ite TableEvent.LTime,
    apply_ite TableEvent.NodeName, apply_ite TableEvent.NetworkID, apply_ite TableEvent.TableName,
    apply_ite TableEvent.Key, apply_ite TableEvent.Value, apply_ite TableEvent.ResidualReapTime,
    ite_self, ite_ne_self, ite_length_pos_self]

end TableEvent

/-! ## `BulkSyncMessage` -/

@[ext] structure BulkSyncMessage where
  LTime : UInt64 := 0
  Unsolicited : Bool := false
  NodeName : List UInt8 := []
  Networks : List (List UInt8) := []
  Payload : List UInt8 := []
  deriving DecidableEq, Repr

namespace BulkSyncMessage

/-- The fields `MarshalTo` writes and `Size` counts, in order; the length of
each network is written by a loop of its own, the same as `encodeVarint`. -/
def wireFields (m : BulkSyncMessage) : List WireField :=
  (if m.LTime ≠ 0 then [.varint 0x8 m.LTime] else []) ++
  (if m.Unsolicited = true then [.varint 0x10 1] else []) ++
  (if m.NodeName.length > 0 then [.lengthDelimited 0x1a m.NodeName.length m.NodeName] else []) ++
  m.Networks.map (fun s => .lengthDelimited 0x22 s.length s) ++
  (if m.Payload.length > 0 then [.lengthDelimited 0x2a m.Payload.length m.Payload] else [])

def MarshalTo (m : BulkSyncMessage) : List UInt8 := m.wireFields.flatMap WireField.encode

def Size (m : BulkSyncMessage) : ℕ := (m.wireFields.map WireField.size).sum

/-- The readers of `Unmarshal`, by field number. -/
def fields : ℕ → Option (FieldReader BulkSyncMessage)
  | 1 => some (.varint fun v m => { m with LTime := v })
  | 2 => some (.varint fun v m => { m with Unsolicited := v != 0 })
  | 3 => some (.lengthDelimited fun b m => some (.ok { m with NodeName := b }))
  | 4 => some (.lengthDelimited fun b m => some (.ok { m with Networks := m.Networks ++ [b] }))
  | 5 => some (.lengthDelimited fun b m => some (.ok { m with Payload := b }))
  | _ => none

def Unmarshal (dAtA : List UInt8) : Decoded BulkSyncMessage := unmarshal fields {} dAtA

instance : Marshaler BulkSyncMessage := ⟨MarshalTo⟩

@[simp] theorem Marshal_eq (m : BulkSyncMessage) : Marshaler.Marshal m = m.MarshalTo := rfl

theorem wellFormed_wireFields (m : BulkSyncMessage) : ∀ f ∈ m.wireFields, f.WellFormed := by
  intro f hf
  simp only [wireFields, List.mem_append, List.mem_map] at hf
  rcases hf with (((hf | hf) | hf) | ⟨s, -, rfl⟩) | hf
  · split at hf <;> simp at hf
    subst hf
    simp [WireField.WellFormed]
  · split at hf <;> simp at hf
    subst hf
    simp [WireField.WellFormed]
  · split at hf <;> simp at hf
    subst hf
    simp [WireField.WellFormed]
  · simp [WireField.WellFormed]
  · split at hf <;> simp at hf
    subst hf
    simp [WireField.WellFormed]

theorem Size_eq_length (m : BulkSyncMessage) : m.Size = m.MarshalTo.length := by
  rw [Size, MarshalTo, List.length_flatMap]
  congr 1
  exact List.map_congr_left fun f hf => WireField.size_eq_length (wellFormed_wireFields m f hf)

theorem Unmarshal_MarshalTo (m : BulkSyncMessage) (hlen : m.MarshalTo.length < 2 ^ 63) :
    Unmarshal m.MarshalTo = some (.ok m) := by
  have hnetwork : ∀ s ∈ m.Networks, ∀ b : BulkSyncMessage,
      (WireField.lengthDelimited 0x22 s.length s).apply fields b =
        some (.ok { b with Networks := b.Networks ++ [s] }) := fun _ _ _ => rfl
  rw [Unmarshal, MarshalTo, unmarshal_flatMap fields {} (wellFormed_wireFields m) hlen, wireFields]
  simp only [applyAll_append, applyAll_ite_single, WireField.apply, WireField.num,
    UInt8.reduceToNat, Nat.reduceDiv, fields,
    applyAll_map fields _ hnetwork, Decoded.andThen_ok,
    foldl_append_one (fun s : BulkSyncMessage => s.Networks) (fun l s => { s with Networks := l })
      (fun _ _ => rfl) (fun _ _ _ => rfl) (fun _ => rfl), Decoded.ite_ok]
  congr 2
  ext <;> simp only [apply_ite BulkSyncMessage.LTime, apply_ite BulkSyncMessage.Unsolicited,
    apply_ite BulkSyncMessage.NodeName, apply_ite BulkSyncMessage.Networks,
    apply_ite BulkSyncMessage.Payload, ite_self, ite_ne_self, ite_length_pos_self, List.nil_append]
  simp

end BulkSyncMessage

/-! ## `CompoundMessage` -/

@[ext] structure CompoundMessage_SimpleMessage where
  Payload : List UInt8 := []
  deriving DecidableEq, Repr

namespace CompoundMessage_SimpleMessage

/-- The fields `MarshalTo` writes and `Size` counts. -/
def wireFields (m : CompoundMessage_SimpleMessage) : List WireField :=
  if m.Payload.length > 0 then [.lengthDelimited 0xa m.Payload.length m.Payload] else []

def MarshalTo (m : CompoundMessage_SimpleMessage) : List UInt8 :=
  m.wireFields.flatMap WireField.encode

def Size (m : CompoundMessage_SimpleMessage) : ℕ := (m.wireFields.map WireField.size).sum

/-- The readers of `Unmarshal`, by field number. -/
def fields : ℕ → Option (FieldReader CompoundMessage_SimpleMessage)
  | 1 => some (.lengthDelimited fun b m => some (.ok { m with Payload := b }))
  | _ => none

def Unmarshal (dAtA : List UInt8) : Decoded CompoundMessage_SimpleMessage :=
  unmarshal fields {} dAtA

theorem wellFormed_wireFields (m : CompoundMessage_SimpleMessage) :
    ∀ f ∈ m.wireFields, f.WellFormed := by
  intro f hf
  simp only [wireFields] at hf
  split at hf <;> simp at hf
  subst hf
  simp [WireField.WellFormed]

theorem Size_eq_length (m : CompoundMessage_SimpleMessage) : m.Size = m.MarshalTo.length := by
  rw [Size, MarshalTo, List.length_flatMap]
  congr 1
  exact List.map_congr_left fun f hf => WireField.size_eq_length (wellFormed_wireFields m f hf)

theorem Unmarshal_MarshalTo (m : CompoundMessage_SimpleMessage)
    (hlen : m.MarshalTo.length < 2 ^ 63) : Unmarshal m.MarshalTo = some (.ok m) := by
  rw [Unmarshal, MarshalTo, unmarshal_flatMap fields {} (wellFormed_wireFields m) hlen, wireFields]
  simp only [applyAll_ite_single, WireField.apply, WireField.num, UInt8.reduceToNat,
    Nat.reduceDiv, fields, Decoded.ite_ok]
  congr 2
  ext
  simp only [apply_ite CompoundMessage_SimpleMessage.Payload, ite_length_pos_self]

end CompoundMessage_SimpleMessage

@[ext] structure CompoundMessage where
  Messages : List CompoundMessage_SimpleMessage := []
  deriving DecidableEq, Repr

namespace CompoundMessage

/-- The fields `MarshalTo` writes and `Size` counts: each part is an embedded
message, its length given by its `Size`. -/
def wireFields (m : CompoundMessage) : List WireField :=
  m.Messages.map fun msg => .lengthDelimited 0xa msg.Size msg.MarshalTo

def MarshalTo (m : CompoundMessage) : List UInt8 := m.wireFields.flatMap WireField.encode

def Size (m : CompoundMessage) : ℕ := (m.wireFields.map WireField.size).sum

/-- The readers of `Unmarshal`, by field number: a part is appended, and
decoded with `CompoundMessage_SimpleMessage.Unmarshal`, whose error ends this
one. -/
def fields : ℕ → Option (FieldReader CompoundMessage)
  | 1 => some (.lengthDelimited fun b m =>
      (CompoundMessage_SimpleMessage.Unmarshal b).andThen fun msg =>
        some (.ok { m with Messages := m.Messages ++ [msg] }))
  | _ => none

def Unmarshal (dAtA : List UInt8) : Decoded CompoundMessage := unmarshal fields {} dAtA

instance : Marshaler CompoundMessage := ⟨MarshalTo⟩

@[simp] theorem Marshal_eq (m : CompoundMessage) : Marshaler.Marshal m = m.MarshalTo := rfl

theorem wellFormed_wireFields (m : CompoundMessage) : ∀ f ∈ m.wireFields, f.WellFormed := by
  intro f hf
  simp only [wireFields, List.mem_map] at hf
  obtain ⟨msg, -, rfl⟩ := hf
  simp [WireField.WellFormed, CompoundMessage_SimpleMessage.Size_eq_length]

theorem Size_eq_length (m : CompoundMessage) : m.Size = m.MarshalTo.length := by
  rw [Size, MarshalTo, List.length_flatMap]
  congr 1
  exact List.map_congr_left fun f hf => WireField.size_eq_length (wellFormed_wireFields m f hf)

theorem Unmarshal_MarshalTo (m : CompoundMessage) (hlen : m.MarshalTo.length < 2 ^ 63) :
    Unmarshal m.MarshalTo = some (.ok m) := by
  have hpart : ∀ msg ∈ m.Messages, ∀ s : CompoundMessage,
      (WireField.lengthDelimited 0xa msg.Size msg.MarshalTo).apply fields s =
        some (.ok { s with Messages := s.Messages ++ [msg] }) := by
    intro msg hmsg s
    have hmem : WireField.lengthDelimited 0xa msg.Size msg.MarshalTo ∈ m.wireFields :=
      List.mem_map.mpr ⟨msg, hmsg, rfl⟩
    have hle := length_encode_le_of_mem hmem
    simp only [WireField.encode, List.length_cons, List.length_append] at hle
    simp only [WireField.apply, WireField.num, UInt8.reduceToNat, Nat.reduceDiv, fields]
    rw [CompoundMessage_SimpleMessage.Unmarshal_MarshalTo msg (by rw [MarshalTo] at hlen; omega),
      Decoded.andThen_ok]
  rw [Unmarshal, MarshalTo, unmarshal_flatMap fields {} (wellFormed_wireFields m) hlen, wireFields,
    applyAll_map fields _ hpart]
  simp only [foldl_append_one (fun s : CompoundMessage => s.Messages)
    (fun l s => { s with Messages := l }) (fun _ _ => rfl) (fun _ _ _ => rfl) (fun _ => rfl)]
  rfl

end CompoundMessage

/-- **Every message of `networkdb.proto` reads back as it was written**, and
`Size` counts the bytes `MarshalTo` writes. -/
theorem messages_round_trip :
    (∀ m : GossipMessage, m.MarshalTo.length < 2 ^ 63 →
      GossipMessage.Unmarshal m.MarshalTo = some (.ok m) ∧ m.Size = m.MarshalTo.length) ∧
    (∀ m : NodeEvent, m.MarshalTo.length < 2 ^ 63 →
      NodeEvent.Unmarshal m.MarshalTo = some (.ok m) ∧ m.Size = m.MarshalTo.length) ∧
    (∀ m : NetworkEvent, m.MarshalTo.length < 2 ^ 63 →
      NetworkEvent.Unmarshal m.MarshalTo = some (.ok m) ∧ m.Size = m.MarshalTo.length) ∧
    (∀ m : NetworkEntry, m.MarshalTo.length < 2 ^ 63 →
      NetworkEntry.Unmarshal m.MarshalTo = some (.ok m) ∧ m.Size = m.MarshalTo.length) ∧
    (∀ m : NetworkPushPull, m.MarshalTo.length < 2 ^ 63 →
      NetworkPushPull.Unmarshal m.MarshalTo = some (.ok m) ∧ m.Size = m.MarshalTo.length) ∧
    (∀ m : TableEvent, m.MarshalTo.length < 2 ^ 63 →
      TableEvent.Unmarshal m.MarshalTo = some (.ok m) ∧ m.Size = m.MarshalTo.length) ∧
    (∀ m : BulkSyncMessage, m.MarshalTo.length < 2 ^ 63 →
      BulkSyncMessage.Unmarshal m.MarshalTo = some (.ok m) ∧ m.Size = m.MarshalTo.length) ∧
    (∀ m : CompoundMessage_SimpleMessage, m.MarshalTo.length < 2 ^ 63 →
      CompoundMessage_SimpleMessage.Unmarshal m.MarshalTo = some (.ok m) ∧
        m.Size = m.MarshalTo.length) ∧
    (∀ m : CompoundMessage, m.MarshalTo.length < 2 ^ 63 →
      CompoundMessage.Unmarshal m.MarshalTo = some (.ok m) ∧ m.Size = m.MarshalTo.length) :=
  ⟨fun m h => ⟨GossipMessage.Unmarshal_MarshalTo m h, GossipMessage.Size_eq_length m⟩,
    fun m h => ⟨NodeEvent.Unmarshal_MarshalTo m h, NodeEvent.Size_eq_length m⟩,
    fun m h => ⟨NetworkEvent.Unmarshal_MarshalTo m h, NetworkEvent.Size_eq_length m⟩,
    fun m h => ⟨NetworkEntry.Unmarshal_MarshalTo m h, NetworkEntry.Size_eq_length m⟩,
    fun m h => ⟨NetworkPushPull.Unmarshal_MarshalTo m h, NetworkPushPull.Size_eq_length m⟩,
    fun m h => ⟨TableEvent.Unmarshal_MarshalTo m h, TableEvent.Size_eq_length m⟩,
    fun m h => ⟨BulkSyncMessage.Unmarshal_MarshalTo m h, BulkSyncMessage.Size_eq_length m⟩,
    fun m h => ⟨CompoundMessage_SimpleMessage.Unmarshal_MarshalTo m h,
      CompoundMessage_SimpleMessage.Size_eq_length m⟩,
    fun m h => ⟨CompoundMessage.Unmarshal_MarshalTo m h, CompoundMessage.Size_eq_length m⟩⟩

/-- A bulk sync with every field set reads back. -/
theorem messages_round_trip_bulkSync :
    ({ LTime := 7, Unsolicited := true, NodeName := [110], Networks := [[49]], Payload := [8, 2] } :
      BulkSyncMessage).MarshalTo.length < 2 ^ 63 ∧
    BulkSyncMessage.Unmarshal
        ({ LTime := 7, Unsolicited := true, NodeName := [110], Networks := [[49]], Payload := [8, 2] } :
          BulkSyncMessage).MarshalTo =
      some (.ok
        { LTime := 7, Unsolicited := true, NodeName := [110], Networks := [[49]], Payload := [8, 2] }) :=
  ⟨by decide, (messages_round_trip.2.2.2.2.2.2.1 _ (by decide)).1⟩

/-! ## Frames -/

/-- `encodeRawMessage`: bytes framed with their type. -/
def encodeRawMessage (t : MessageType) (raw : List UInt8) : List UInt8 :=
  GossipMessage.MarshalTo { type := t.code, Data := raw }

/-- `encodeMessage`: a message framed with its type. -/
def encodeMessage {α : Type} [Marshaler α] (t : MessageType) (msg : α) : List UInt8 :=
  encodeRawMessage t (Marshaler.Marshal msg)

/-- `decodeMessage`: the type and the payload of a frame. -/
def decodeMessage (buf : List UInt8) : Decoded (Int32 × List UInt8) :=
  (GossipMessage.Unmarshal buf).andThen fun gMsg => some (.ok (gMsg.type, gMsg.Data))

/-- `makeCompoundMessage`: the messages packed into one compound frame. -/
def makeCompoundMessage (msgs : List (List UInt8)) : List UInt8 :=
  let cMsg : CompoundMessage := { Messages := msgs.map fun m => { Payload := m } }
  GossipMessage.MarshalTo { type := MessageType.compound.code, Data := cMsg.MarshalTo }

/-- `decodeCompoundMessage`: the messages of a compound payload. -/
def decodeCompoundMessage (buf : List UInt8) : Decoded (List (List UInt8)) :=
  (CompoundMessage.Unmarshal buf).andThen fun cMsg => some (.ok (cMsg.Messages.map (·.Payload)))

theorem decodeMessage_encodeRawMessage (t : MessageType) (raw : List UInt8)
    (hlen : (encodeRawMessage t raw).length < 2 ^ 63) :
    decodeMessage (encodeRawMessage t raw) = some (.ok (t.code, raw)) := by
  rw [decodeMessage, encodeRawMessage, GossipMessage.Unmarshal_MarshalTo _ hlen, Decoded.andThen_ok]

theorem GossipMessage.length_Data_lt {m : GossipMessage} (ht : m.type ≠ 0) :
    m.Data.length < m.MarshalTo.length := by
  rw [GossipMessage.MarshalTo, GossipMessage.wireFields, if_pos ht, List.flatMap_append,
    List.length_append]
  have hkey : 0 < ([WireField.varint 0x8 m.type.toInt64.toUInt64].flatMap WireField.encode).length :=
    by simp [WireField.encode]
  have hdata : m.Data.length ≤ ((if m.Data.length > 0 then
      [WireField.lengthDelimited 0x12 m.Data.length m.Data] else []).flatMap WireField.encode).length := by
    split_ifs
    · exact length_le_of_lengthDelimited_mem List.mem_cons_self
    · omega
  omega

theorem BulkSyncMessage.length_Payload_le_MarshalTo (m : BulkSyncMessage) :
    m.Payload.length ≤ m.MarshalTo.length := by
  by_cases hp : m.Payload.length > 0
  · apply length_le_of_lengthDelimited_mem (k := 0x2a) (n := m.Payload.length)
    simp [BulkSyncMessage.wireFields, hp]
  · omega

theorem CompoundMessage_SimpleMessage.length_Payload_le_MarshalTo
    (m : CompoundMessage_SimpleMessage) : m.Payload.length ≤ m.MarshalTo.length := by
  by_cases hp : m.Payload.length > 0
  · apply length_le_of_lengthDelimited_mem (k := 0xa) (n := m.Payload.length)
    simp [CompoundMessage_SimpleMessage.wireFields, hp]
  · omega

theorem length_le_compound {msgs : List (List UInt8)} {b : List UInt8} (hb : b ∈ msgs) :
    b.length ≤
      (CompoundMessage.MarshalTo { Messages := msgs.map fun m => { Payload := m } }).length := by
  let part : CompoundMessage_SimpleMessage := { Payload := b }
  have hmem : WireField.lengthDelimited 0xa part.Size part.MarshalTo ∈
      CompoundMessage.wireFields { Messages := msgs.map fun m => { Payload := m } } := by
    simp only [CompoundMessage.wireFields, List.map_map, List.mem_map]
    exact ⟨b, hb, rfl⟩
  exact (part.length_Payload_le_MarshalTo).trans (length_le_of_lengthDelimited_mem hmem)

theorem decodeMessage_encodeMessage {α : Type} [Marshaler α] (t : MessageType) (msg : α)
    (hlen : (encodeMessage t msg).length < 2 ^ 63) :
    decodeMessage (encodeMessage t msg) = some (.ok (t.code, Marshaler.Marshal msg)) :=
  decodeMessage_encodeRawMessage t _ hlen

theorem length_lt_encodeRawMessage {t : MessageType} (ht : t.code ≠ 0) (raw : List UInt8) :
    raw.length < (encodeRawMessage t raw).length :=
  GossipMessage.length_Data_lt (m := { type := t.code, Data := raw }) ht

/-- A compound frame gives back, once framed and unpacked, the messages it was
made of. -/
theorem decodeCompoundMessage_compound (msgs : List (List UInt8))
    (hlen : (CompoundMessage.MarshalTo { Messages := msgs.map fun m => { Payload := m } }).length <
      2 ^ 63) :
    decodeCompoundMessage (CompoundMessage.MarshalTo { Messages := msgs.map fun m => { Payload := m } }) =
      some (.ok msgs) := by
  rw [decodeCompoundMessage, CompoundMessage.Unmarshal_MarshalTo _ hlen, Decoded.andThen_ok,
    List.map_map]
  simp [Function.comp_def]

/-! ## A length that wraps -/

/-- A frame that starts with the data key and a length below `2^63` whose end
passes `2^63` makes `GossipMessage.Unmarshal` panic, whatever follows: the
generated code tests the end against the buffer's length only, and the end
has wrapped below zero. -/
theorem GossipMessage.Unmarshal_wrapped {L : UInt64} (rest : List UInt8) (hL : L.toNat < 2 ^ 63)
    (hwrap : 2 ^ 63 ≤ 1 + (encodeVarint L).length + L.toNat) :
    GossipMessage.Unmarshal (0x12 :: (encodeVarint L ++ rest)) = none := by
  have hv : (encodeVarint L).length ≤ 10 := length_encodeVarintLoop_le 9 L
  rw [GossipMessage.Unmarshal, unmarshal, List.length_cons]
  exact unmarshalLoop_wrappedLength GossipMessage.fields _ 0 {} rest (by decide) (by decide)
    (by decide) rfl hL (by omega) (by omega)

/-! ## Nested buffers are shorter

The handlers of a frame go on with the bytes it carries; these bound them, so
that the handlers stop. -/

theorem length_lt_of_decodeMessage {buf raw : List UInt8} {mType : Int32}
    (h : decodeMessage buf = some (.ok (mType, raw))) (hty : mType ≠ 0) :
    raw.length < buf.length := by
  obtain ⟨gMsg, hg, hk⟩ := Decoded.andThen_eq_ok.mp h
  simp only [Option.some.injEq, Except.ok.injEq, Prod.mk.injEq] at hk
  obtain ⟨rfl, rfl⟩ := hk
  -- the data is read from the frame, or is the default
  have hdata : gMsg.Data.length < buf.length ∨ gMsg.Data = [] := by
    refine unmarshal_invariant GossipMessage.fields
      (fun m => m.Data.length < buf.length ∨ m.Data = []) (Or.inr rfl) ?_ ?_ hg
    · intro k set hk v m hm
      unfold GossipMessage.fields at hk
      split at hk <;> cases hk
      exact hm
    · intro k set hk b m m' hb _ hset
      unfold GossipMessage.fields at hk
      split at hk <;> cases hk
      cases hset
      exact Or.inl hb
  cases buf with
  | nil =>
      -- an empty frame is the default message, whose type is zero
      rw [GossipMessage.Unmarshal, unmarshal, unmarshalLoop_nil] at hg
      cases hg
      exact absurd rfl hty
  | cons byte bytes =>
      rcases hdata with hlt | hnil
      · exact hlt
      · rw [hnil]
        simp

theorem BulkSyncMessage.length_Payload_le {buf : List UInt8} {bsm : BulkSyncMessage}
    (h : BulkSyncMessage.Unmarshal buf = some (.ok bsm)) : bsm.Payload.length ≤ buf.length := by
  refine unmarshal_invariant BulkSyncMessage.fields (fun m => m.Payload.length ≤ buf.length)
    (Nat.zero_le _) ?_ ?_ h
  · intro k set hk v m hm
    unfold BulkSyncMessage.fields at hk
    split at hk <;> cases hk <;> exact hm
  · intro k set hk b m m' hb hm hset
    unfold BulkSyncMessage.fields at hk
    split at hk <;> cases hk <;> cases hset
    · exact hm
    · exact hm
    · exact hb.le

theorem CompoundMessage_SimpleMessage.length_Payload_le {buf : List UInt8}
    {msg : CompoundMessage_SimpleMessage}
    (h : CompoundMessage_SimpleMessage.Unmarshal buf = some (.ok msg)) :
    msg.Payload.length ≤ buf.length := by
  refine unmarshal_invariant CompoundMessage_SimpleMessage.fields
    (fun m => m.Payload.length ≤ buf.length) (Nat.zero_le _) ?_ ?_ h
  · intro k set hk
    unfold CompoundMessage_SimpleMessage.fields at hk
    split at hk <;> cases hk
  · intro k set hk b m m' hb _ hset
    unfold CompoundMessage_SimpleMessage.fields at hk
    split at hk <;> cases hk
    cases hset
    exact hb.le

theorem length_le_of_mem_decodeCompoundMessage {buf part : List UInt8}
    {parts : List (List UInt8)} (h : decodeCompoundMessage buf = some (.ok parts))
    (hpart : part ∈ parts) : part.length ≤ buf.length := by
  obtain ⟨cMsg, hc, hk⟩ := Decoded.andThen_eq_ok.mp h
  simp only [Option.some.injEq, Except.ok.injEq] at hk
  subst hk
  have hmsgs : ∀ msg ∈ cMsg.Messages, msg.Payload.length ≤ buf.length := by
    refine unmarshal_invariant CompoundMessage.fields
      (fun m => ∀ msg ∈ m.Messages, msg.Payload.length ≤ buf.length) (by simp) ?_ ?_ hc
    · intro k set hk
      unfold CompoundMessage.fields at hk
      split at hk <;> cases hk
    · intro k set hk b m m' hb hm hset
      unfold CompoundMessage.fields at hk
      split at hk <;> cases hk
      obtain ⟨msg, hmsg, hset⟩ := Decoded.andThen_eq_ok.mp hset
      cases hset
      intro msg' hmsg'
      rcases List.mem_append.mp hmsg' with hold | hnew
      · exact hm msg' hold
      · rw [List.mem_singleton.mp hnew]
        exact (CompoundMessage_SimpleMessage.length_Payload_le hmsg).trans hb.le
  obtain ⟨msg, hmsg, rfl⟩ := List.mem_map.mp hpart
  exact hmsgs msg hmsg

end Libnetwork.NetworkDb.Wire
