import Mathlib
import Libnetwork.NetworkDb.Wire
import Libnetwork.NetworkDb.Walks
import Libnetwork.Support.Transition

/-!
# Receiving gossip

The handlers of `delegate.go` as they run on the bytes memberlist hands to
`NotifyMsg` and `MergeRemoteState`: each decodes its message with the
generated `Unmarshal` of `Wire` and goes on as the handler of `Handlers` does
with the decoded value.  A handler that cannot decode its bytes logs the error
and returns; a decoder that panics takes the daemon down, which is `none`.

A Go string is a string of bytes; the handlers' strings stand for them one
character per byte (`goString`), which keeps equality, the only thing the
handlers do with names.  An enum code the handlers do not test for acts as
`INVALID` in every one of them.

The main results: on every buffer the byte handlers either panic or do what
the handlers of `Handlers` do for some message (`handleMessage_view`), and a
frame a node sends is handled as the message it was made from.
-/

namespace Libnetwork.NetworkDb

/-! ## Go strings -/

/-- The string of the handlers that a Go string stands for: one character for
each byte. -/
def goString (b : List UInt8) : String := String.ofList (b.map fun x => Char.ofNat x.toNat)

/-- The bytes of a Go string. -/
def goBytes (s : String) : List UInt8 := s.toList.map fun c => c.toNat.toUInt8

/-- A string that stands for a Go string: each character is a byte. -/
def IsGoString (s : String) : Prop := ∀ c ∈ s.toList, c.toNat < 256

instance : DecidablePred IsGoString := fun s =>
  decidable_of_iff (s.toList.all (fun c => c.toNat < 256) = true) (by simp [IsGoString])

theorem toNat_ofNat_byte (x : UInt8) : (Char.ofNat x.toNat).toNat = x.toNat := by
  have hx := x.toNat_lt
  rw [Char.toNat_ofNat, if_pos (Or.inl (by omega))]

@[simp] theorem goBytes_goString (b : List UInt8) : goBytes (goString b) = b := by
  rw [goBytes, goString, String.toList_ofList, List.map_map]
  conv_rhs => rw [← List.map_id b]
  refine List.map_congr_left fun x _ => ?_
  simp only [Function.comp_apply, toNat_ofNat_byte, UInt8.ofNat_toNat, id]

theorem goString_goBytes {s : String} (h : IsGoString s) : goString (goBytes s) = s := by
  rw [goString, goBytes, List.map_map]
  conv_rhs => rw [← String.ofList_toList (s := s)]
  congr 1
  conv_rhs => rw [← List.map_id s.toList]
  refine List.map_congr_left fun c hc => ?_
  simp only [Function.comp_apply, id]
  rw [Nat.toUInt8, UInt8.toNat_ofNat', Nat.mod_eq_of_lt (h c hc), Char.ofNat_toNat]

theorem isGoString_goString (b : List UInt8) : IsGoString (goString b) := by
  intro c hc
  rw [goString, String.toList_ofList, List.mem_map] at hc
  obtain ⟨x, _, rfl⟩ := hc
  rw [toNat_ofNat_byte]
  exact x.toNat_lt

theorem goString_inj {a b : List UInt8} : goString a = goString b ↔ a = b := by
  constructor
  · intro h
    rw [← goBytes_goString a, h, goBytes_goString]
  · rintro rfl
    rfl

example : goString [106, 111, 105, 110] = "join" := by decide

/-! ## Enum codes -/

/-- The `NodeEvent_Type` code of a type. -/
def NodeEventType.code : NodeEventType → Int32
  | .invalid => 0
  | .join => 1
  | .leave => 2

/-- The type the handlers see for a code: `handleNodeEvent` tests for `JOIN`
and `LEAVE` only. -/
def NodeEventType.ofCode (c : Int32) : NodeEventType :=
  if c = 1 then .join else if c = 2 then .leave else .invalid

@[simp] theorem NodeEventType.ofCode_code (t : NodeEventType) : ofCode t.code = t := by
  cases t <;> rfl

/-- The `NetworkEvent_Type` code of a type. -/
def NetworkEventType.code : NetworkEventType → Int32
  | .invalid => 0
  | .join => 1
  | .leave => 2

/-- The type the handlers see for a code: `handleNetworkEvent` tests for
`LEAVE` only. -/
def NetworkEventType.ofCode (c : Int32) : NetworkEventType :=
  if c = 1 then .join else if c = 2 then .leave else .invalid

@[simp] theorem NetworkEventType.ofCode_code (t : NetworkEventType) : ofCode t.code = t := by
  cases t <;> rfl

/-- The `TableEvent_Type` code of a type. -/
def TableEventType.code : TableEventType → Int32
  | .invalid => 0
  | .create => 1
  | .update => 2
  | .delete => 3

/-- The type the handlers see for a code: `handleTableEvent` tests for
`DELETE` only, and the watchers' event for `CREATE` and `UPDATE`. -/
def TableEventType.ofCode (c : Int32) : TableEventType :=
  if c = 1 then .create else if c = 2 then .update else if c = 3 then .delete else .invalid

@[simp] theorem TableEventType.ofCode_code (t : TableEventType) : ofCode t.code = t := by
  cases t <;> rfl

namespace Wire

open Protobuf

/-! ## What the handlers read from a decoded message -/

/-- The event the handlers read from a decoded `NodeEvent`. -/
def NodeEvent.view (nEvent : NodeEvent) : NetworkDb.NodeEvent :=
  ⟨.ofCode nEvent.type, nEvent.LTime, goString nEvent.NodeName⟩

/-- The event the handlers read from a decoded `NetworkEvent`. -/
def NetworkEvent.view (nEvent : NetworkEvent) : NetworkDb.NetworkEvent :=
  ⟨.ofCode nEvent.type, nEvent.LTime, goString nEvent.NodeName, goString nEvent.NetworkID⟩

/-- The event the handlers read from a decoded `TableEvent`. -/
def TableEvent.view (tEvent : TableEvent) : NetworkDb.TableEvent :=
  ⟨.ofCode tEvent.type, tEvent.LTime, goString tEvent.NodeName, goString tEvent.NetworkID,
    goString tEvent.TableName, goString tEvent.Key, tEvent.Value, tEvent.ResidualReapTime⟩

/-- The entry the handlers read from a decoded `NetworkEntry`. -/
def NetworkEntry.view (n : NetworkEntry) : NetworkDb.NetworkEntry :=
  ⟨goString n.NetworkID, n.LTime, goString n.NodeName, n.Leaving⟩

/-- The state the handlers read from a decoded `NetworkPushPull`. -/
def NetworkPushPull.view (pp : NetworkPushPull) : NetworkDb.NetworkPushPull :=
  ⟨pp.LTime, pp.Networks.map NetworkEntry.view, goString pp.NodeName⟩

/-! ## What a sender writes for a decoded message -/

/-- The `NodeEvent` a sender fills in for an event. -/
def NodeEvent.ofView (e : NetworkDb.NodeEvent) : NodeEvent :=
  { type := e.type.code, LTime := e.LTime, NodeName := goBytes e.NodeName }

/-- The `NetworkEvent` a sender fills in for an event. -/
def NetworkEvent.ofView (e : NetworkDb.NetworkEvent) : NetworkEvent :=
  { type := e.type.code, LTime := e.LTime, NodeName := goBytes e.NodeName,
    NetworkID := goBytes e.NetworkID }

/-- The `TableEvent` a sender fills in for an event. -/
def TableEvent.ofView (e : NetworkDb.TableEvent) : TableEvent :=
  { type := e.type.code, LTime := e.LTime, NodeName := goBytes e.NodeName,
    NetworkID := goBytes e.NetworkID, TableName := goBytes e.TableName, Key := goBytes e.Key,
    Value := e.Value, ResidualReapTime := e.ResidualReapTime }

/-- The `NetworkEntry` a sender fills in for an entry. -/
def NetworkEntry.ofView (n : NetworkDb.NetworkEntry) : NetworkEntry :=
  { NetworkID := goBytes n.NetworkID, LTime := n.LTime, NodeName := goBytes n.NodeName,
    Leaving := n.Leaving }

/-- The `NetworkPushPull` a sender fills in for a state. -/
def NetworkPushPull.ofView (pp : NetworkDb.NetworkPushPull) : NetworkPushPull :=
  { LTime := pp.LTime, Networks := pp.Networks.map NetworkEntry.ofView,
    NodeName := goBytes pp.NodeName }

theorem NodeEvent.view_ofView {e : NetworkDb.NodeEvent} (h : IsGoString e.NodeName) :
    (NodeEvent.ofView e).view = e := by
  rw [NodeEvent.view, NodeEvent.ofView, NodeEventType.ofCode_code, goString_goBytes h]

theorem NetworkEvent.view_ofView {e : NetworkDb.NetworkEvent} (h₁ : IsGoString e.NodeName)
    (h₂ : IsGoString e.NetworkID) : (NetworkEvent.ofView e).view = e := by
  rw [NetworkEvent.view, NetworkEvent.ofView, NetworkEventType.ofCode_code, goString_goBytes h₁,
    goString_goBytes h₂]

/-- The four names of a table event are Go strings. -/
structure TableEventNames (e : NetworkDb.TableEvent) : Prop where
  nodeName : IsGoString e.NodeName
  networkID : IsGoString e.NetworkID
  tableName : IsGoString e.TableName
  key : IsGoString e.Key

theorem TableEvent.view_ofView {e : NetworkDb.TableEvent} (h : TableEventNames e) :
    (TableEvent.ofView e).view = e := by
  rw [TableEvent.view, TableEvent.ofView, TableEventType.ofCode_code, goString_goBytes h.nodeName,
    goString_goBytes h.networkID, goString_goBytes h.tableName, goString_goBytes h.key]

theorem NetworkEntry.view_ofView {n : NetworkDb.NetworkEntry} (h₁ : IsGoString n.NetworkID)
    (h₂ : IsGoString n.NodeName) : (NetworkEntry.ofView n).view = n := by
  rw [NetworkEntry.view, NetworkEntry.ofView, goString_goBytes h₁, goString_goBytes h₂]

theorem NetworkPushPull.view_ofView {pp : NetworkDb.NetworkPushPull}
    (hnode : IsGoString pp.NodeName)
    (hnets : ∀ n ∈ pp.Networks, IsGoString n.NetworkID ∧ IsGoString n.NodeName) :
    (NetworkPushPull.ofView pp).view = pp := by
  rw [NetworkPushPull.view, NetworkPushPull.ofView, List.map_map, goString_goBytes hnode]
  have hentries : pp.Networks.map (NetworkEntry.view ∘ NetworkEntry.ofView) = pp.Networks := by
    conv_rhs => rw [← List.map_id pp.Networks]
    exact List.map_congr_left fun n hn =>
      NetworkEntry.view_ofView (hnets n hn).1 (hnets n hn).2
  rw [hentries]

/-! ## The handlers -/

/-- `handleNodeMessage`; the rebroadcast of the bytes is left out. -/
def handleNodeMessage (nDB : NetworkDB) (buf : List UInt8) : Option NetworkDB :=
  match NodeEvent.Unmarshal buf with
  | none => none
  | some (.error _) => some nDB
  | some (.ok nEvent) => some (nDB.handleNodeEvent nEvent.view).1

/-- `handleNetworkMessage`; the rebroadcast of the bytes is left out. -/
def handleNetworkMessage (nDB : NetworkDB) (buf : List UInt8) : Option NetworkDB :=
  match NetworkEvent.Unmarshal buf with
  | none => none
  | some (.error _) => some nDB
  | some (.ok nEvent) => some (nDB.handleNetworkEvent nEvent.view).1

/-- `handleTableMessage`: the check for events of this node is that of
`NetworkDB.handleTableMessage`; the rebroadcast of the bytes is left out. -/
def handleTableMessage (nDB : NetworkDB) (buf : List UInt8) (isBulkSync : Bool) :
    Option NetworkDB :=
  match TableEvent.Unmarshal buf with
  | none => none
  | some (.error _) => some nDB
  | some (.ok tEvent) => some (nDB.handleTableMessage tEvent.view isBulkSync)

set_option linter.unusedVariables false in
mutual

/-- `handleBulkSync`: the sender's table time is witnessed and the payload is
handled as a bulk sync.  The ack of a solicited sync and the answer to an
unsolicited one change no state of the model and are left out. -/
def handleBulkSync (nDB : NetworkDB) (buf : List UInt8) : Option NetworkDB :=
  match h : BulkSyncMessage.Unmarshal buf with
  | none => none
  | some (.error _) => some nDB
  | some (.ok bsm) =>
      let nDB := if bsm.LTime > 0 then { nDB with tableClock := nDB.tableClock.Witness bsm.LTime }
        else nDB
      handleMessage nDB bsm.Payload true
termination_by 2 * buf.length + 1
decreasing_by
  have := BulkSyncMessage.length_Payload_le h
  omega

/-- `handleCompound`: each part in turn. -/
def handleCompound (nDB : NetworkDB) (buf : List UInt8) (isBulkSync : Bool) : Option NetworkDB :=
  match h : decodeCompoundMessage buf with
  | none => none
  | some (.error _) => some nDB
  | some (.ok parts) =>
      parts.attach.foldl
        (fun acc part => acc.bind fun nDB => handleMessage nDB part.1 isBulkSync) (some nDB)
termination_by 2 * buf.length + 1
decreasing_by
  have := length_le_of_mem_decodeCompoundMessage h part.2
  omega

/-- `handleMessage`: the frame's type says which handler reads its data; a
type it does not know is logged. -/
def handleMessage (nDB : NetworkDB) (buf : List UInt8) (isBulkSync : Bool) : Option NetworkDB :=
  match h : decodeMessage buf with
  | none => none
  | some (.error _) => some nDB
  | some (.ok (mType, data)) =>
      if mType = MessageType.nodeEvent.code then handleNodeMessage nDB data
      else if mType = MessageType.networkEvent.code then handleNetworkMessage nDB data
      else if mType = MessageType.tableEvent.code then handleTableMessage nDB data isBulkSync
      else if hb : mType = MessageType.bulkSync.code then handleBulkSync nDB data
      else if hc : mType = MessageType.compound.code then handleCompound nDB data isBulkSync
      else some nDB
termination_by 2 * buf.length
decreasing_by
  all_goals
    have := length_lt_of_decodeMessage h (by subst_vars; decide)
    omega

end

section Spec

variable (nDB : NetworkDB) (buf : List UInt8) (isBulkSync : Bool)

theorem handleMessage_eq : handleMessage nDB buf isBulkSync =
    match decodeMessage buf with
    | none => none
    | some (.error _) => some nDB
    | some (.ok (mType, data)) =>
        if mType = MessageType.nodeEvent.code then handleNodeMessage nDB data
        else if mType = MessageType.networkEvent.code then handleNetworkMessage nDB data
        else if mType = MessageType.tableEvent.code then handleTableMessage nDB data isBulkSync
        else if mType = MessageType.bulkSync.code then handleBulkSync nDB data
        else if mType = MessageType.compound.code then handleCompound nDB data isBulkSync
        else some nDB := by
  rw [handleMessage]
  split <;> next hd => simp only [hd, dite_eq_ite]

theorem handleBulkSync_eq : handleBulkSync nDB buf =
    match BulkSyncMessage.Unmarshal buf with
    | none => none
    | some (.error _) => some nDB
    | some (.ok bsm) =>
        handleMessage (if bsm.LTime > 0 then
          { nDB with tableClock := nDB.tableClock.Witness bsm.LTime } else nDB) bsm.Payload true := by
  rw [handleBulkSync]
  split <;> next hd => simp only [hd]

/-- `handleCompound` without the proofs its recursion carries: the parts in
turn. -/
theorem handleCompound_eq : handleCompound nDB buf isBulkSync =
    match decodeCompoundMessage buf with
    | none => none
    | some (.error _) => some nDB
    | some (.ok parts) =>
        parts.foldl (fun acc part => acc.bind fun nDB => handleMessage nDB part isBulkSync)
          (some nDB) := by
  rw [handleCompound]
  split
  · next hd => simp only [hd]
  · next hd => simp only [hd]
  · next parts hd =>
      simp only [hd]
      exact @List.foldl_attach (List UInt8) (Option NetworkDB) parts
        (fun acc part => acc.bind fun nDB => handleMessage nDB part isBulkSync) (some nDB)

end Spec


/-- `NotifyMsg`: an empty message is dropped. -/
def NotifyMsg (nDB : NetworkDB) (buf : List UInt8) : Option NetworkDB :=
  if buf.length = 0 then some nDB else handleMessage nDB buf false

/-- `MergeRemoteState`: a frame of another type than `PushPull` is only
logged, and read as a push/pull state all the same. -/
def MergeRemoteState (nDB : NetworkDB) (buf : List UInt8) : Option NetworkDB :=
  if buf.length = 0 then some nDB
  else
    match GossipMessage.Unmarshal buf with
    | none => none
    | some (.error _) => some nDB
    | some (.ok gMsg) =>
        match NetworkPushPull.Unmarshal gMsg.Data with
        | none => none
        | some (.error _) => some nDB
        | some (.ok pp) => some (nDB.MergeRemoteState pp.view)

/-! ## The byte handlers do what the handlers of decoded messages do -/

/-- What handling a message can leave: a panic, or the state the handlers of
`Handlers` leave for some message. -/
def Handles (nDB : NetworkDB) (isBulkSync : Bool) (r : Option NetworkDB) : Prop :=
  r = none ∨ ∃ m, r = some (nDB.handleMessage m isBulkSync)

section Handles

variable {nDB : NetworkDB} {isBulkSync : Bool}

theorem Handles.panic : Handles nDB isBulkSync none := .inl rfl

theorem Handles.unchanged : Handles nDB isBulkSync (some nDB) :=
  .inr ⟨.compound [], by rw [NetworkDB.handleMessage, NetworkDB.handleCompound]⟩

theorem Handles.message (m : Message) :
    Handles nDB isBulkSync (some (nDB.handleMessage m isBulkSync)) := .inr ⟨m, rfl⟩

theorem Handles.bulkSync (ltime : UInt64) {r : Option NetworkDB}
    (h : Handles (if ltime > 0 then { nDB with tableClock := nDB.tableClock.Witness ltime }
      else nDB) true r) : Handles nDB isBulkSync r := by
  rcases h with rfl | ⟨m, rfl⟩
  · exact .panic
  · exact .inr ⟨.bulkSync ltime m, by rw [NetworkDB.handleMessage]⟩

/-- Parts handled one after the other, each as a message or a panic, are
handled as a compound message.  The induction is on the parts, from any state. -/
theorem Handles.foldl (parts : List (List UInt8))
    (f : NetworkDB → List UInt8 → Option NetworkDB)
    (hparts : ∀ part ∈ parts, ∀ nDB, Handles nDB isBulkSync (f nDB part)) :
    ∀ nDB, Handles nDB isBulkSync
      (parts.foldl (fun acc part => acc.bind fun nDB => f nDB part) (some nDB)) := by
  induction parts with
  | nil =>
      intro nDB
      exact .unchanged
  | cons part parts ih =>
      intro nDB
      have ih := ih fun p hp => hparts p (List.mem_cons_of_mem part hp)
      rw [List.foldl_cons, Option.bind_some]
      rcases hparts part List.mem_cons_self nDB with hpanic | ⟨m, hm⟩
      · -- a panic in one part is the panic of the whole message
        have hnone : ∀ l : List (List UInt8),
            l.foldl (fun acc part => acc.bind fun nDB => f nDB part) none = none :=
          List.foldl_fixed' fun _ => rfl
        rw [hpanic, hnone]
        exact .panic
      · rw [hm]
        rcases ih (nDB.handleMessage m isBulkSync) with hpanic | ⟨m', hm'⟩
        · rw [hpanic]
          exact .panic
        · rw [hm']
          refine .inr ⟨.compound [m, m'], ?_⟩
          simp only [NetworkDB.handleMessage, NetworkDB.handleCompound]

theorem handles_handleNodeMessage (buf : List UInt8) :
    Handles nDB isBulkSync (handleNodeMessage nDB buf) := by
  rw [handleNodeMessage]
  split
  · exact .panic
  · exact .unchanged
  · next nEvent _ => exact .message (.nodeEvent nEvent.view)

theorem handles_handleNetworkMessage (buf : List UInt8) :
    Handles nDB isBulkSync (handleNetworkMessage nDB buf) := by
  rw [handleNetworkMessage]
  split
  · exact .panic
  · exact .unchanged
  · next nEvent _ => exact .message (.networkEvent nEvent.view)

theorem handles_handleTableMessage (buf : List UInt8) :
    Handles nDB isBulkSync (handleTableMessage nDB buf isBulkSync) := by
  rw [handleTableMessage]
  split
  · exact .panic
  · exact .unchanged
  · next tEvent _ => exact .message (.tableEvent tEvent.view)

theorem handles_handleBulkSync {data : List UInt8}
    (ih : ∀ payload : List UInt8, payload.length ≤ data.length →
      ∀ nDB, Handles nDB true (handleMessage nDB payload true)) :
    Handles nDB isBulkSync (handleBulkSync nDB data) := by
  rw [handleBulkSync_eq]
  split
  · exact .panic
  · exact .unchanged
  · next bsm h => exact .bulkSync bsm.LTime (ih _ (BulkSyncMessage.length_Payload_le h) _)

theorem handles_handleCompound {data : List UInt8}
    (ih : ∀ part : List UInt8, part.length ≤ data.length →
      ∀ nDB, Handles nDB isBulkSync (handleMessage nDB part isBulkSync)) :
    Handles nDB isBulkSync (handleCompound nDB data isBulkSync) := by
  rw [handleCompound_eq]
  split
  · exact .panic
  · exact .unchanged
  · next parts h =>
      exact Handles.foldl parts _
        (fun part hpart => ih part (length_le_of_mem_decodeCompoundMessage h hpart)) nDB

end Handles

/-- On every buffer `handleMessage` panics or does what the handlers of
`Handlers` do for some message.  The induction is on the length of the
buffer: a bulk sync's payload and a compound's parts are no longer than the
data of the frame, which is shorter than the frame. -/
theorem handles_handleMessage (buf : List UInt8) :
    ∀ nDB isBulkSync, Handles nDB isBulkSync (handleMessage nDB buf isBulkSync) := by
  induction hn : buf.length using Nat.strong_induction_on generalizing buf with
  | _ n ih =>
      intro nDB isBulkSync
      rw [handleMessage_eq]
      split
      · exact .panic
      · exact .unchanged
      · next mType data h =>
          -- the nested handlers see strictly shorter bytes
          have hshort : ∀ (hty : mType ≠ 0) (b : List UInt8), b.length ≤ data.length →
              ∀ nDB isBulkSync, Handles nDB isBulkSync (handleMessage nDB b isBulkSync) :=
            fun hty b hb => ih b.length
              (hn ▸ lt_of_le_of_lt hb (length_lt_of_decodeMessage h hty)) b rfl
          split_ifs with hnode hnet htable hbulk hcomp
          · exact handles_handleNodeMessage data
          · exact handles_handleNetworkMessage data
          · exact handles_handleTableMessage data
          · exact handles_handleBulkSync fun b hb nDB =>
              hshort (by rw [hbulk]; decide) b hb nDB true
          · exact handles_handleCompound fun b hb nDB =>
              hshort (by rw [hcomp]; decide) b hb nDB isBulkSync
          · exact .unchanged

theorem handles_NotifyMsg (nDB : NetworkDB) (buf : List UInt8) :
    NotifyMsg nDB buf = none ∨ ∃ m, NotifyMsg nDB buf = some (nDB.call (.notifyMsg m)) := by
  unfold NotifyMsg
  by_cases hempty : buf.length = 0
  · rw [if_pos hempty]
    exact Handles.unchanged
  · rw [if_neg hempty]
    exact handles_handleMessage buf nDB false

theorem MergeRemoteState_cases (nDB : NetworkDB) (buf : List UInt8) :
    MergeRemoteState nDB buf = none ∨ MergeRemoteState nDB buf = some nDB ∨
      ∃ pp, MergeRemoteState nDB buf = some (nDB.MergeRemoteState pp) := by
  unfold MergeRemoteState
  by_cases hempty : buf.length = 0
  · rw [if_pos hempty]
    exact .inr (.inl rfl)
  · rw [if_neg hempty]
    split
    · exact .inl rfl
    · exact .inr (.inl rfl)
    · split
      · exact .inl rfl
      · exact .inr (.inl rfl)
      · next pp _ => exact .inr (.inr ⟨pp.view, rfl⟩)

/-! ## What a node sends is handled as the message it was made from -/

/-- The frames a node sends for a message: an event framed by `encodeMessage`
as `sendNodeEvent`, `sendNetworkEvent` and `sendTableEvent` frame it; a bulk
sync framed whole, whatever its other fields, whose payload is sent for the
payload; and a compound frame of frames sent for its parts, as `gossip` and
`bulkSyncNode` make it. -/
inductive Sends : Message → List UInt8 → Prop
  | nodeEvent (e : NetworkDb.NodeEvent) : IsGoString e.NodeName →
      Sends (.nodeEvent e) (encodeMessage .nodeEvent (NodeEvent.ofView e))
  | networkEvent (e : NetworkDb.NetworkEvent) : IsGoString e.NodeName → IsGoString e.NetworkID →
      Sends (.networkEvent e) (encodeMessage .networkEvent (NetworkEvent.ofView e))
  | tableEvent (e : NetworkDb.TableEvent) : TableEventNames e →
      Sends (.tableEvent e) (encodeMessage .tableEvent (TableEvent.ofView e))
  | bulkSync (bsm : BulkSyncMessage) (payload : Message) : Sends payload bsm.Payload →
      Sends (.bulkSync bsm.LTime payload) (encodeMessage .bulkSync bsm)
  | compound (parts : List Message) (msgs : List (List UInt8)) : List.Forall₂ Sends parts msgs →
      Sends (.compound parts) (makeCompoundMessage msgs)

/-- Parts each handled as the message they were sent for are handled, one
after the other, as the compound message of those messages. -/
theorem foldl_handleMessage {R : Message → List UInt8 → Prop} {isBulkSync : Bool}
    {parts : List Message} {msgs : List (List UInt8)} (h : List.Forall₂ R parts msgs)
    (hpart : ∀ m buf, R m buf → buf ∈ msgs →
      ∀ nDB, handleMessage nDB buf isBulkSync = some (nDB.handleMessage m isBulkSync))
    (nDB : NetworkDB) :
    msgs.foldl (fun acc part => acc.bind fun nDB => handleMessage nDB part isBulkSync)
      (some nDB) = some (nDB.handleCompound parts isBulkSync) := by
  induction h generalizing nDB with
  | nil => rfl
  | cons hm _ ih =>
      rw [List.foldl_cons, Option.bind_some, hpart _ _ hm List.mem_cons_self nDB,
        ih fun m buf hr hb => hpart m buf hr (List.mem_cons_of_mem _ hb)]
      rfl

/-- A frame a node sends for a message, of fewer than `2^63` bytes, is handled
as that message.  The induction is on the length of the frame: the payload of
a bulk sync and the parts of a compound message are shorter. -/
theorem handleMessage_of_sends {m : Message} {buf : List UInt8} (h : Sends m buf)
    (hlen : buf.length < 2 ^ 63) (nDB : NetworkDB) (isBulkSync : Bool) :
    handleMessage nDB buf isBulkSync = some (nDB.handleMessage m isBulkSync) := by
  induction hn : buf.length using Nat.strong_induction_on generalizing buf m nDB isBulkSync with
  | _ n ih =>
  cases h with
  | nodeEvent e hname =>
      have hraw : (NodeEvent.ofView e).MarshalTo.length < (encodeMessage .nodeEvent (NodeEvent.ofView e)).length :=
        length_lt_encodeRawMessage (by decide) _
      rw [handleMessage_eq, decodeMessage_encodeMessage _ _ hlen]
      dsimp only
      rw [if_pos rfl,
        handleNodeMessage, NodeEvent.Marshal_eq, NodeEvent.Unmarshal_MarshalTo _ (by omega)]
      dsimp only
      rw [NodeEvent.view_ofView hname]
      rfl
  | networkEvent e hname hid =>
      have hraw : (NetworkEvent.ofView e).MarshalTo.length < (encodeMessage .networkEvent (NetworkEvent.ofView e)).length :=
        length_lt_encodeRawMessage (by decide) _
      rw [handleMessage_eq, decodeMessage_encodeMessage _ _ hlen]
      dsimp only
      rw [if_neg (by decide),
        if_pos rfl, handleNetworkMessage, NetworkEvent.Marshal_eq,
        NetworkEvent.Unmarshal_MarshalTo _ (by omega)]
      dsimp only
      rw [NetworkEvent.view_ofView hname hid]
      rfl
  | tableEvent e hnames =>
      have hraw : (TableEvent.ofView e).MarshalTo.length < (encodeMessage .tableEvent (TableEvent.ofView e)).length :=
        length_lt_encodeRawMessage (by decide) _
      rw [handleMessage_eq, decodeMessage_encodeMessage _ _ hlen]
      dsimp only
      rw [if_neg (by decide),
        if_neg (by decide), if_pos rfl, handleTableMessage, TableEvent.Marshal_eq,
        TableEvent.Unmarshal_MarshalTo _ (by omega)]
      dsimp only
      rw [TableEvent.view_ofView hnames]
      rfl
  | bulkSync bsm payload hp =>
      have hraw : bsm.MarshalTo.length < (encodeMessage .bulkSync bsm).length :=
        length_lt_encodeRawMessage (by decide) _
      have hpay := bsm.length_Payload_le_MarshalTo
      rw [handleMessage_eq, decodeMessage_encodeMessage _ _ hlen]
      dsimp only
      rw [if_neg (by decide), if_neg (by decide), if_neg (by decide), if_pos rfl,
        BulkSyncMessage.Marshal_eq, handleBulkSync_eq, BulkSyncMessage.Unmarshal_MarshalTo _ (by omega)]
      dsimp only
      rw [ih _ (by omega) hp (by omega) _ _ rfl]
      rfl
  | compound parts msgs hparts =>
      have hraw := length_lt_encodeRawMessage (t := .compound) (by decide)
        (CompoundMessage.MarshalTo { Messages := msgs.map fun m => { Payload := m } })
      have hframe : makeCompoundMessage msgs = encodeRawMessage .compound
          (CompoundMessage.MarshalTo { Messages := msgs.map fun m => { Payload := m } }) := rfl
      rw [hframe] at hlen hn ⊢
      rw [handleMessage_eq, decodeMessage_encodeRawMessage _ _ hlen]
      dsimp only
      rw [if_neg (by decide), if_neg (by decide), if_neg (by decide), if_neg (by decide), if_pos rfl,
        handleCompound_eq, decodeCompoundMessage_compound msgs (by omega)]
      exact foldl_handleMessage hparts (fun p b hs hb nDB =>
        have := length_le_compound hb
        ih _ (by omega) hs (by omega) _ _ rfl) nDB

theorem length_pos_of_sends {m : Message} {buf : List UInt8} (h : Sends m buf) : 0 < buf.length := by
  cases h <;> exact Nat.lt_of_le_of_lt (Nat.zero_le _) (length_lt_encodeRawMessage (by decide) _)

/-- A frame a node sends is not empty, so `NotifyMsg` hands it to
`handleMessage`. -/
theorem NotifyMsg_eq_handleMessage {m : Message} {buf : List UInt8} (h : Sends m buf)
    (nDB : NetworkDB) : NotifyMsg nDB buf = handleMessage nDB buf false := by
  rw [NotifyMsg, if_neg (Nat.pos_iff_ne_zero.mp (length_pos_of_sends h))]

/-- **What a node sends is what the other one handles.**  A frame sent for a
message, of fewer than `2^63` bytes, reaching `NotifyMsg`, is the call of
the decoded model that handles that message. -/
theorem NotifyMsg_of_sends {m : Message} {buf : List UInt8} (h : Sends m buf)
    (hlen : buf.length < 2 ^ 63) (nDB : NetworkDB) :
    NotifyMsg nDB buf = some (nDB.call (.notifyMsg m)) := by
  rw [NotifyMsg_eq_handleMessage h, handleMessage_of_sends h hlen]
  rfl

/-- A join sent by one node is handled by `NotifyMsg` of another as the join. -/
theorem NotifyMsg_of_sends_join :
    Sends (.nodeEvent ⟨.join, 1, "a"⟩) (encodeMessage .nodeEvent (NodeEvent.ofView ⟨.join, 1, "a"⟩)) ∧
      (encodeMessage .nodeEvent (NodeEvent.ofView ⟨.join, 1, "a"⟩)).length < 2 ^ 63 ∧
      NotifyMsg (NetworkDB.New "node" 0)
          (encodeMessage .nodeEvent (NodeEvent.ofView ⟨.join, 1, "a"⟩)) =
        some ((NetworkDB.New "node" 0).call (.notifyMsg (.nodeEvent ⟨.join, 1, "a"⟩))) :=
  ⟨.nodeEvent _ (by decide), by decide, NotifyMsg_of_sends (.nodeEvent _ (by decide)) (by decide) _⟩

/-- The push/pull state a node sends, of fewer than `2^63` bytes, is merged
by the other one as that state, once its names are Go strings. -/
theorem MergeRemoteState_encodeMessage (pp : NetworkDb.NetworkPushPull)
    (hnode : IsGoString pp.NodeName)
    (hnets : ∀ n ∈ pp.Networks, IsGoString n.NetworkID ∧ IsGoString n.NodeName)
    (hlen : (encodeMessage .pushPull (NetworkPushPull.ofView pp)).length < 2 ^ 63)
    (nDB : NetworkDB) :
    MergeRemoteState nDB (encodeMessage .pushPull (NetworkPushPull.ofView pp)) =
      some (nDB.call (.mergeRemoteState pp)) := by
  have hraw : (NetworkPushPull.ofView pp).MarshalTo.length <
      (encodeMessage .pushPull (NetworkPushPull.ofView pp)).length :=
    length_lt_encodeRawMessage (by decide) _
  rw [MergeRemoteState, if_neg (by omega), encodeMessage, encodeRawMessage,
    GossipMessage.Unmarshal_MarshalTo _ hlen]
  dsimp only
  rw [NetworkPushPull.Marshal_eq, NetworkPushPull.Unmarshal_MarshalTo _ (by omega)]
  dsimp only
  rw [NetworkPushPull.view_ofView hnode hnets]
  rfl

/-- A state with one attachment is merged as it was sent. -/
theorem MergeRemoteState_encodeMessage_one :
    IsGoString "a" ∧ (∀ n ∈ [(⟨"n1", 2, "a", false⟩ : NetworkDb.NetworkEntry)],
      IsGoString n.NetworkID ∧ IsGoString n.NodeName) ∧
    (encodeMessage .pushPull (NetworkPushPull.ofView ⟨1, [⟨"n1", 2, "a", false⟩], "a"⟩)).length <
      2 ^ 63 ∧
    MergeRemoteState (NetworkDB.New "node" 0)
        (encodeMessage .pushPull (NetworkPushPull.ofView ⟨1, [⟨"n1", 2, "a", false⟩], "a"⟩)) =
      some ((NetworkDB.New "node" 0).call (.mergeRemoteState ⟨1, [⟨"n1", 2, "a", false⟩], "a"⟩)) :=
  ⟨by decide, by decide, by decide,
    MergeRemoteState_encodeMessage _ (by decide) (by decide) (by decide) _⟩

/-! ## Runs on bytes -/

/-- The calls of a NetworkDB as they reach it: gossip messages and remote
push/pull states as the bytes memberlist hands over, the other calls with
their arguments. -/
inductive Call
  | notifyMsg (buf : List UInt8)
  | mergeRemoteState (buf : List UInt8)
  | decoded (c : NetworkDb.Call)

/-- The state after one call; `none` when a decoder panics. -/
def call (s : NetworkDB) : Call → Option NetworkDB
  | .notifyMsg buf => NotifyMsg s buf
  | .mergeRemoteState buf => MergeRemoteState s buf
  | .decoded c => some (s.call c)

/-- The calls the source can make in a state. -/
def Enabled (s : NetworkDB) : Call → Prop
  | .decoded c => s.Enabled c
  | _ => True

/-- A call on bytes that does not panic leaves the state as it was, or does
what an enabled call of the decoded model does. -/
theorem call_simulates {s s' : NetworkDB} {c : Call} (hen : Enabled s c)
    (h : call s c = some s') : s' = s ∨ ∃ c', s.Enabled c' ∧ s.call c' = s' := by
  cases c with
  | notifyMsg buf =>
      rcases handles_NotifyMsg s buf with hpanic | ⟨m, hm⟩
      · rw [call, hpanic] at h
        cases h
      · rw [call, hm] at h
        cases h
        exact .inr ⟨.notifyMsg m, trivial, rfl⟩
  | mergeRemoteState buf =>
      rcases MergeRemoteState_cases s buf with hpanic | hsame | ⟨pp, hpp⟩
      · rw [call, hpanic] at h
        cases h
      · rw [call, hsame] at h
        cases h
        exact .inl rfl
      · rw [call, hpp] at h
        cases h
        exact .inr ⟨.mergeRemoteState pp, trivial, rfl⟩
  | decoded c =>
      cases h
      exact .inr ⟨c, hen, rfl⟩

/-- **Every state a NetworkDB reaches on bytes is a state of the decoded
model.**  Whatever bytes arrive, a run of calls in which no decoder panics
leads only to states that the enabled calls of `NetworkDB.call` reach, so the
invariants proved of those hold of the daemon as it reads the wire. -/
theorem reachable_of_bytes {init s : NetworkDB}
    (h : Transition.PartialReachable Enabled call init s) :
    Transition.GuardedReachable NetworkDB.Enabled NetworkDB.call init s :=
  h.simulate fun _ _ _ _ hen hc => call_simulates hen hc

/-- A join that arrives as bytes reaches the state the decoded join reaches. -/
theorem reachable_of_bytes_join :
    Transition.PartialReachable Enabled call (NetworkDB.New "node" 0)
        ((NetworkDB.New "node" 0).call (.notifyMsg (.nodeEvent ⟨.join, 1, "a"⟩))) ∧
      Transition.GuardedReachable NetworkDB.Enabled NetworkDB.call (NetworkDB.New "node" 0)
        ((NetworkDB.New "node" 0).call (.notifyMsg (.nodeEvent ⟨.join, 1, "a"⟩))) :=
  have hs : Sends (.nodeEvent ⟨.join, 1, "a"⟩)
      (encodeMessage .nodeEvent (NodeEvent.ofView ⟨.join, 1, "a"⟩)) := .nodeEvent _ (by decide)
  have hcall : call (NetworkDB.New "node" 0)
      (.notifyMsg (encodeMessage .nodeEvent (NodeEvent.ofView ⟨.join, 1, "a"⟩))) =
      some ((NetworkDB.New "node" 0).call (.notifyMsg (.nodeEvent ⟨.join, 1, "a"⟩))) := by
    rw [call, NotifyMsg_eq_handleMessage hs, handleMessage_of_sends hs (by decide)]
    rfl
  have h : Transition.PartialReachable Enabled call (NetworkDB.New "node" 0)
      ((NetworkDB.New "node" 0).call (.notifyMsg (.nodeEvent ⟨.join, 1, "a"⟩))) :=
    .step (.notifyMsg (encodeMessage .nodeEvent (NodeEvent.ofView ⟨.join, 1, "a"⟩))) .init trivial hcall
  ⟨h, reachable_of_bytes h⟩

/-! ## A bulk sync, from one node to another -/

/-- The frame `bulkSyncNode` sends to `node`: each event of its walk framed by
`encodeMessage`, the frames packed by `makeCompoundMessage` into the payload of
a bulk sync with the table time and the id of this node; nothing to a node it
does not know.  The wait for the answer is left out. -/
def bulkSyncNode (s : NetworkDB) (networks : List String) (node : String)
    (unsolicited : Bool) : Option (List UInt8) :=
  match s.nodes node with
  | none => none
  | some _ =>
      let msgs := (s.indexes.bulkSyncNode s.nodes networks node).map fun tEvent =>
        encodeMessage .tableEvent (TableEvent.ofView tEvent)
      let bsm : BulkSyncMessage :=
        { LTime := s.tableClock.Time, Unsolicited := unsolicited,
          NodeName := goBytes s.config.NodeID, Networks := networks.map goBytes,
          Payload := makeCompoundMessage msgs }
      some (encodeMessage .bulkSync bsm)

/-- What `bulkSyncNode` sends is sent for the table events of its walk, in a
bulk sync with this node's table time. -/
theorem sends_bulkSyncNode {s : NetworkDB} {networks : List String}
    {node : String} {unsolicited : Bool} {buf : List UInt8}
    (h : bulkSyncNode s networks node unsolicited = some buf)
    (hnames : ∀ ev ∈ s.indexes.bulkSyncNode s.nodes networks node, TableEventNames ev) :
    Sends (.bulkSync s.tableClock.Time
      (.compound ((s.indexes.bulkSyncNode s.nodes networks node).map .tableEvent))) buf := by
  rw [bulkSyncNode] at h
  split at h
  · cases h
  · cases h
    have hparts : List.Forall₂ Sends ((s.indexes.bulkSyncNode s.nodes networks node).map .tableEvent)
        ((s.indexes.bulkSyncNode s.nodes networks node).map fun tEvent =>
          encodeMessage .tableEvent (TableEvent.ofView tEvent)) := by
      rw [List.forall₂_map_left_iff, List.forall₂_map_right_iff]
      exact List.forall₂_same.mpr fun ev hev => .tableEvent ev (hnames ev hev)
    exact .bulkSync
      { LTime := s.tableClock.Time, Unsolicited := unsolicited,
        NodeName := goBytes s.config.NodeID, Networks := networks.map goBytes,
        Payload := makeCompoundMessage ((s.indexes.bulkSyncNode s.nodes networks node).map fun tEvent =>
          encodeMessage .tableEvent (TableEvent.ofView tEvent)) } _ (.compound _ _ hparts)

/-- **A bulk sync is applied as the walk it was made from.**  The frame that
`bulkSyncNode` of one node sends, of fewer than `2^63` bytes, handled by
`NotifyMsg` of another node, witnesses the sender's table time and then
handles each table event of the sender's walk in turn, as a bulk sync. -/
theorem NotifyMsg_bulkSyncNode {s : NetworkDB} {networks : List String}
    {node : String} {unsolicited : Bool} {buf : List UInt8}
    (h : bulkSyncNode s networks node unsolicited = some buf)
    (hnames : ∀ ev ∈ s.indexes.bulkSyncNode s.nodes networks node, TableEventNames ev)
    (hlen : buf.length < 2 ^ 63) (r : NetworkDB) :
    NotifyMsg r buf = some ((if s.tableClock.Time > 0 then
        { r with tableClock := r.tableClock.Witness s.tableClock.Time } else r).handleCompound
      ((s.indexes.bulkSyncNode s.nodes networks node).map .tableEvent) true) := by
  have hs := sends_bulkSyncNode h hnames
  rw [NotifyMsg_eq_handleMessage hs, handleMessage_of_sends hs hlen]
  rfl

/-- A node that knows the peer `b`, at table time 3, with one entry of its own
in `net1`. -/
def syncSender : NetworkDB :=
  { (NetworkDB.New "a" 0).createOrUpdateEntry "net1" "t" "k" ⟨"a", 2, [7], false, 0⟩ with
    tableClock := ⟨3⟩
    nodes := fun n => if n = "b" then some ⟨⟨"b", "10.0.0.2", 7946⟩, 0, 0⟩ else none }

/-- The bulk sync of `net1` that `syncSender` sends to `b` carries the event of
its entry at a positive time, and `b` handles it by witnessing the time and
then the event. -/
theorem NotifyMsg_bulkSyncNode_one_entry :
    syncSender.tableClock.Time > 0 ∧
    syncSender.indexes.bulkSyncNode syncSender.nodes ["net1"] "b" =
      [⟨.create, 2, "a", "net1", "t", "k", [7], 0⟩] ∧
    ∃ buf, bulkSyncNode syncSender ["net1"] "b" true = some buf ∧ buf.length < 2 ^ 63 ∧
      NotifyMsg (NetworkDB.New "b" 0) buf = some ((if syncSender.tableClock.Time > 0 then
          { NetworkDB.New "b" 0 with
            tableClock := (NetworkDB.New "b" 0).tableClock.Witness syncSender.tableClock.Time }
        else NetworkDB.New "b" 0).handleCompound
        ((syncSender.indexes.bulkSyncNode syncSender.nodes ["net1"] "b").map .tableEvent) true) := by
  have hev : syncSender.indexes.bulkSyncNode syncSender.nodes ["net1"] "b" =
      [⟨.create, 2, "a", "net1", "t", "k", [7], 0⟩] := by decide +kernel
  have hnames : ∀ ev ∈ syncSender.indexes.bulkSyncNode syncSender.nodes ["net1"] "b",
      TableEventNames ev := by
    rw [hev]
    intro ev hmem
    obtain rfl := List.mem_singleton.mp hmem
    exact ⟨by decide, by decide, by decide, by decide⟩
  have hsome : (bulkSyncNode syncSender ["net1"] "b" true).isSome := by decide +kernel
  have hshort : (bulkSyncNode syncSender ["net1"] "b" true).all (·.length < 2 ^ 63) := by
    decide +kernel
  obtain ⟨buf, hbuf⟩ := Option.isSome_iff_exists.mp hsome
  have hlen : buf.length < 2 ^ 63 := by
    rw [hbuf] at hshort
    simpa using hshort
  exact ⟨by decide, hev, buf, hbuf, hlen, NotifyMsg_bulkSyncNode hbuf hnames hlen _⟩

/-! ## A crafted length crashes the receiver -/

/-- **A crafted length crashes the receiver.**  A gossip message or a remote
state that starts with the data key and a length `L` below `2^63` whose end
passes `2^63` panics in `NotifyMsg` and in `MergeRemoteState`, whatever
follows it and whatever the state: the generated decoder lacks the test for
an end that wrapped below zero. -/
theorem wrapped_length_panics (nDB : NetworkDB) {L : UInt64} (rest : List UInt8)
    (hL : L.toNat < 2 ^ 63) (hwrap : 2 ^ 63 ≤ 1 + (encodeVarint L).length + L.toNat) :
    NotifyMsg nDB (0x12 :: (encodeVarint L ++ rest)) = none ∧
      MergeRemoteState nDB (0x12 :: (encodeVarint L ++ rest)) = none := by
  have hg := GossipMessage.Unmarshal_wrapped rest hL hwrap
  have hd : decodeMessage (0x12 :: (encodeVarint L ++ rest)) = none := by
    rw [decodeMessage, hg, Decoded.andThen_none]
  constructor
  · rw [NotifyMsg, if_neg (by simp), handleMessage_eq, hd]
  · rw [MergeRemoteState, if_neg (by simp), hg]

/-- Ten bytes take down any node: the data key and the largest length. -/
theorem wrapped_length_panics_ten_bytes :
    (0x7fffffffffffffff : UInt64).toNat < 2 ^ 63 ∧
      2 ^ 63 ≤ 1 + (encodeVarint 0x7fffffffffffffff).length + (0x7fffffffffffffff : UInt64).toNat ∧
      (0x12 :: (encodeVarint 0x7fffffffffffffff ++ [])).length = 10 ∧
      NotifyMsg (NetworkDB.New "node" 0) (0x12 :: (encodeVarint 0x7fffffffffffffff ++ [])) = none ∧
      MergeRemoteState (NetworkDB.New "node" 0) (0x12 :: (encodeVarint 0x7fffffffffffffff ++ [])) =
        none :=
  ⟨by decide, by decide, by decide, wrapped_length_panics _ [] (by decide) (by decide)⟩

end Wire

end Libnetwork.NetworkDb
