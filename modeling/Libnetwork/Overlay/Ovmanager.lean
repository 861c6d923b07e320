import Mathlib
import Libnetwork.Idm.Reserved
import Libnetwork.Driverapi.IpamData
import Libnetwork.Support.GoStrconv
import Libnetwork.Support.GoMap

/-!
# The overlay network manager

`drivers/overlay/ovmanager` gives each subnet of an overlay network a VXLAN
id (VNI) from one id manager of `[0, 2^24 - 1]`: the VNI the option
`vxlanid_list` asks for, or, when it asks for none or for `0`, the next free
one of `[4096, 2^24 - 1]`.  `NetworkAllocate` releases the VNIs it obtained
when a later one fails or the network id is taken, and `NetworkFree`
releases all VNIs of the network.  The driver's other fields (its
configuration and its store) are not read by these calls and are left out,
as is the IPv6 data that `NetworkAllocate` is given and does not read.

A call returns the driver as it leaves it, also where it panics: an empty
non-nil `ipV4Data` reaches `n.subnets[0]` with no subnet.
-/

namespace Libnetwork.Ovmanager

open GoNet Driverapi

def vxlanIDStart : UInt64 := 4096

def vxlanIDEnd : UInt64 := ((1 : UInt64) <<< 24) - 1

/-- `netlabel.OverlayVxlanIDList`. -/
def OverlayVxlanIDList : String := "com.docker.network.driver.overlay.vxlanid_list"

/-- `subnet`. -/
structure Subnet where
  subnetIP : Option IPNet
  gwIP : Option IPNet
  vni : UInt32
  deriving DecidableEq, Repr

/-- `network`, without its pointer back to the driver. -/
structure Network where
  id : String
  subnets : List Subnet
  deriving DecidableEq, Repr

/-- `driver`: the networks by id and the id manager of the VNIs. -/
structure Driver where
  networks : List (String × Network)
  vxlanIdm : Idm
  deriving DecidableEq, Repr

/-- What a call gives back: its result, its error, or a panic. -/
inductive Outcome (α : Type) where
  | ok (a : α)
  | error (msg : String)
  | panic
  deriving DecidableEq, Repr

/-- `Init`, up to the registration of the driver. -/
def Init : Except String Driver :=
  match Idm.New "vxlan-id" 0 vxlanIDEnd with
  | .ok i => .ok ⟨[], i⟩
  | .error e => .error ("failed to initialize vxlan id manager: " ++ e.message)

/-- The VNIs the value of `vxlanid_list` asks for, each `uint32(vni)` of
what `Atoi` reads; the first text `Atoi` refuses is the error. -/
def parseVxlanIDList (val : String) : Except String (List UInt32) :=
  (val.toList.splitOn ',').mapM fun idStr =>
    match GoStrconv.Atoi idStr with
    | some vni => .ok (UInt32.ofInt vni)
    | none => .error ("invalid vxlan id value " ++ GoStrconv.Quote (String.ofList idStr) ++ " passed")

/-- The loop over `option`: the options passed on and the VNIs asked for. -/
def optionsLoop : List (String × String) → List (String × String) → List UInt32 →
    Except String (List (String × String) × List UInt32)
  | [], opts, vxlanIDList => .ok (opts, vxlanIDList)
  | (key, val) :: option, opts, vxlanIDList =>
      if key = OverlayVxlanIDList then
        match parseVxlanIDList val with
        | .ok vnis => optionsLoop option opts (vxlanIDList ++ vnis)
        | .error e => .error e
      else optionsLoop option (GoMap.set opts key val) vxlanIDList

/-- The subnet of the pool `ipd` at index `i`, with the VNI asked for. -/
def newSubnet (vxlanIDList : List UInt32) (i : ℕ) (ipd : IPAMData) : Subnet :=
  ⟨ipd.Pool, ipd.Gateway, vxlanIDList[i]?.getD 0⟩

/-- `obtainVxlanID`: reserve the VNI of `s`, or reserve one of
`[vxlanIDStart, vxlanIDEnd]` and give it to `s` when its VNI is `0`. -/
def obtainVxlanID (idm : Idm) (s : Subnet) : Idm × Subnet × Option IdmError :=
  let vni : UInt64 := s.vni.toUInt64
  if vni = 0 then
    let (idm, vni, err) := idm.GetIDInRange vxlanIDStart vxlanIDEnd true
    match err with
    | some e => (idm, s, some e)
    | none => (idm, { s with vni := vni.toUInt32 }, none)
  else
    let (idm, err) := idm.GetSpecificID vni
    (idm, s, err)

/-- `releaseVxlanID`: release the VNI of every subnet and set it to `0`. -/
def releaseVxlanID (idm : Idm) (n : Network) : Idm × Network :=
  ((n.subnets.map (·.vni)).foldl (fun idm vni => idm.Release vni.toUInt64) idm,
    { n with subnets := n.subnets.map fun s => { s with vni := 0 } })

/-- The error of a VNI that could not be obtained for `s`. -/
def obtainError (s : Subnet) (e : IdmError) : String :=
  "could not obtain vxlan id for pool " ++ ipNetPtrString s.subnetIP ++ ": " ++ e.message

/-- The loop over `ipV4Data` from index `i`: each pool gets a subnet and its
VNI, and the first failure releases the VNIs obtained before it. -/
def subnetsLoop (vxlanIDList : List UInt32) :
    Idm → Network → ℕ → List IPAMData → Idm × Except String Network
  | idm, n, _, [] => (idm, .ok n)
  | idm, n, i, ipd :: ipV4Data =>
      let s := newSubnet vxlanIDList i ipd
      match obtainVxlanID idm s with
      | (idm, _, some e) => ((releaseVxlanID idm n).1, .error (obtainError s e))
      | (idm, s, none) =>
          subnetsLoop vxlanIDList idm { n with subnets := n.subnets ++ [s] } (i + 1) ipV4Data

/-- The value of `vxlanid_list` that `NetworkAllocate` returns: the VNIs of
the subnets, comma separated. -/
def vxlanIDListText (s : Subnet) (rest : List Subnet) : String :=
  rest.foldl (fun val s => val ++ "," ++ toString s.vni) (toString s.vni)

/-- `NetworkAllocate(id, option, ipV4Data, ipV6Data)`; a nil `ipV4Data` is
`none`. -/
def Driver.NetworkAllocate (d : Driver) (id : String) (option : List (String × String))
    (ipV4Data : Option (List IPAMData)) : Driver × Outcome (List (String × String)) :=
  if id = "" then (d, .error "invalid network id for overlay network")
  else
    match ipV4Data with
    | none => (d, .error "empty ipv4 data passed during overlay network creation")
    | some ipV4Data =>
        match optionsLoop option [] [] with
        | .error e => (d, .error e)
        | .ok (opts, vxlanIDList) =>
            match subnetsLoop vxlanIDList d.vxlanIdm ⟨id, []⟩ 0 ipV4Data with
            | (idm, .error e) => ({ d with vxlanIdm := idm }, .error e)
            | (idm, .ok n) =>
                match n.subnets with
                | [] => ({ d with vxlanIdm := idm }, .panic)
                | s :: rest =>
                    let opts := GoMap.set opts OverlayVxlanIDList (vxlanIDListText s rest)
                    match GoMap.get? d.networks id with
                    | some _ =>
                        ({ d with vxlanIdm := (releaseVxlanID idm n).1 },
                          .error ("network " ++ id ++ " already exists"))
                    | none => (⟨GoMap.set d.networks id n, idm⟩, .ok opts)

/-- `NetworkFree(id)`. -/
def Driver.NetworkFree (d : Driver) (id : String) : Driver × Option String :=
  if id = "" then (d, some "invalid network id passed while freeing overlay network")
  else
    match GoMap.get? d.networks id with
    | none => (d, some ("overlay network with id " ++ id ++ " not found"))
    | some n => (⟨GoMap.delete d.networks id, (releaseVxlanID d.vxlanIdm n).1⟩, none)

/-- The calls of the manager. -/
inductive Call
  | networkAllocate (id : String) (option : List (String × String))
      (ipV4Data : Option (List IPAMData))
  | networkFree (id : String)

/-- The driver after one call. -/
def Driver.call (d : Driver) : Call → Driver
  | .networkAllocate id option ipV4Data => (d.NetworkAllocate id option ipV4Data).1
  | .networkFree id => (d.NetworkFree id).1

/-- The drivers that calls on the one `Init` makes lead to. -/
def Driver.Reachable (d : Driver) : Prop :=
  ∃ d₀, Init = .ok d₀ ∧ Transition.Reachable Driver.call d₀ d

/-! ## What the manager is for

Every VNI of a subnet is reserved in the id manager, once, and nothing else
is; a VNI the option did not ask for is one of `[vxlanIDStart, vxlanIDEnd]`.
-/

/-- The VNIs of the subnets of a network. -/
def Network.vnis (n : Network) : List ℕ :=
  n.subnets.map (·.vni.toNat)

/-- The VNIs of all subnets of all networks. -/
def Driver.vnis (d : Driver) : List ℕ :=
  d.networks.flatMap (·.2.vnis)

/-- The subnets the pools from index `i` on ask for. -/
def askedSubnets (vxlanIDList : List UInt32) : ℕ → List IPAMData → List Subnet
  | _, [] => []
  | i, ipd :: ipV4Data => newSubnet vxlanIDList i ipd :: askedSubnets vxlanIDList (i + 1) ipV4Data

/-- `s'` is the subnet `s` asked for, with its VNI: the one asked for, or
one of `[vxlanIDStart, vxlanIDEnd]` when it asked for `0`. -/
structure Subnet.Obtained (s s' : Subnet) : Prop where
  subnetIP : s'.subnetIP = s.subnetIP
  gwIP : s'.gwIP = s.gwIP
  asked : s.vni ≠ 0 → s'.vni = s.vni
  auto : s.vni = 0 → vxlanIDStart.toNat ≤ s'.vni.toNat ∧ s'.vni.toNat ≤ vxlanIDEnd.toNat

/-- An id manager of the VNIs, as `Init` makes it and the calls keep it. -/
structure VniIdm (idm : Idm) : Prop where
  wf : idm.WellFormed
  start : idm.start = 0
  stop : idm.stop = vxlanIDEnd

/-- What the driver keeps: each VNI of a subnet reserved once, and nothing
else reserved. -/
structure Driver.Owns (d : Driver) : Prop where
  idm : VniIdm d.vxlanIdm
  keys : (GoMap.keys d.networks).Nodup
  nodup : d.vnis.Nodup
  reserved : d.vxlanIdm.reserved = d.vnis.toFinset

/-! ## Obtaining and releasing VNIs -/

section Idm

variable {idm idm' : Idm}

theorem VniIdm.Release (h : VniIdm idm) (vni : UInt32) :
    VniIdm (idm.Release vni.toUInt64) ∧
      (idm.Release vni.toUInt64).reserved = idm.reserved.erase vni.toNat := by
  have hle : idm.start ≤ vni.toUInt64 := h.start ▸ UInt64.zero_le
  obtain ⟨hres, hwf, hstart, hstop⟩ := h.wf.Release hle
  exact ⟨⟨hwf, hstart ▸ h.start, hstop ▸ h.stop⟩, by rw [hres, UInt32.toNat_toUInt64]⟩

theorem VniIdm.foldl_Release (h : VniIdm idm) (vnis : List UInt32) :
    VniIdm (vnis.foldl (fun idm vni => idm.Release vni.toUInt64) idm) ∧
      (vnis.foldl (fun idm vni => idm.Release vni.toUInt64) idm).reserved =
        idm.reserved \ (vnis.map (·.toNat)).toFinset := by
  induction vnis generalizing idm with
  | nil => simp [h]
  | cons vni vnis ih =>
      obtain ⟨h', hres⟩ := h.Release vni
      obtain ⟨hv, hrest⟩ := ih h'
      refine ⟨hv, ?_⟩
      rw [List.foldl_cons, hrest, hres, List.map_cons, List.toFinset_cons, Finset.sdiff_insert,
        Finset.erase_sdiff_comm]

theorem VniIdm.releaseVxlanID (h : VniIdm idm) (n : Network) :
    VniIdm (releaseVxlanID idm n).1 ∧
      (releaseVxlanID idm n).1.reserved = idm.reserved \ n.vnis.toFinset := by
  have := h.foldl_Release (n.subnets.map (·.vni))
  rwa [List.map_map] at this

theorem obtainVxlanID_error {s s' : Subnet} {e : IdmError}
    (hob : obtainVxlanID idm s = (idm', s', some e)) : idm' = idm := by
  unfold obtainVxlanID at hob
  dsimp only at hob
  by_cases hzero : s.vni.toUInt64 = 0
  · rw [if_pos hzero] at hob
    cases hget : idm.GetIDInRange vxlanIDStart vxlanIDEnd true with
    | mk i rest =>
        obtain ⟨vni, err⟩ := rest
        rw [hget] at hob
        cases err with
        | none => cases hob
        | some e' =>
            cases hob
            exact Idm.GetIDInRange_error hget
  · rw [if_neg hzero] at hob
    cases hget : idm.GetSpecificID s.vni.toUInt64 with
    | mk i err =>
        rw [hget] at hob
        cases hob
        exact Idm.GetSpecificID_error hget

@[simp] theorem toNat_vxlanIDStart : vxlanIDStart.toNat = 4096 := rfl

@[simp] theorem toNat_vxlanIDEnd : vxlanIDEnd.toNat = 2 ^ 24 - 1 := rfl

theorem toNat_toUInt32_of_le_vxlanIDEnd {vni : UInt64} (h : vni ≤ vxlanIDEnd) :
    vni.toUInt32.toNat = vni.toNat := by
  rw [UInt64.le_iff_toNat_le, toNat_vxlanIDEnd] at h
  rw [UInt64.toNat_toUInt32, Nat.mod_eq_of_lt (by omega)]

theorem VniIdm.obtainVxlanID_ok (h : VniIdm idm) {s s' : Subnet}
    (hob : obtainVxlanID idm s = (idm', s', none)) :
    VniIdm idm' ∧ s'.vni.toNat ∉ idm.reserved ∧ idm'.reserved = insert s'.vni.toNat idm.reserved ∧
      s.Obtained s' := by
  unfold obtainVxlanID at hob
  dsimp only at hob
  by_cases hzero : s.vni.toUInt64 = 0
  · rw [if_pos hzero] at hob
    have hvni : s.vni = 0 := by
      have := congrArg UInt64.toNat hzero
      rw [UInt32.toNat_toUInt64, UInt64.toNat_zero] at this
      exact UInt32.toNat_inj.mp this
    cases hget : idm.GetIDInRange vxlanIDStart vxlanIDEnd true with
    | mk i rest =>
        obtain ⟨vni, err⟩ := rest
        rw [hget] at hob
        cases err with
        | some e => cases hob
        | none =>
            cases hob
            obtain ⟨hlo, hhi, hfree, hres, hwf, hstart, hstop⟩ := h.wf.GetIDInRange_ok hget
            have hfit := toNat_toUInt32_of_le_vxlanIDEnd hhi
            refine ⟨⟨hwf, hstart ▸ h.start, hstop ▸ h.stop⟩, hfit ▸ hfree, hfit ▸ hres,
              ⟨rfl, rfl, fun hne => absurd hvni hne, fun _ => ?_⟩⟩
            rw [hfit]
            exact ⟨UInt64.le_iff_toNat_le.mp hlo, UInt64.le_iff_toNat_le.mp hhi⟩
  · rw [if_neg hzero] at hob
    cases hget : idm.GetSpecificID s.vni.toUInt64 with
    | mk i err =>
        rw [hget] at hob
        cases hob
        obtain ⟨hfree, hres, hwf, hstart, hstop⟩ := h.wf.GetSpecificID_ok hget
        rw [UInt32.toNat_toUInt64] at hfree hres
        refine ⟨⟨hwf, hstart ▸ h.start, hstop ▸ h.stop⟩, hfree, hres,
          ⟨rfl, rfl, fun _ => rfl, fun hvni => absurd (by simp [hvni]) hzero⟩⟩

end Idm


/-! ## The loop over the pools -/

section Loop

variable {R : Finset ℕ} {idm idm' : Idm} {n n' : Network} {vxlanIDList : List UInt32}

/-- The loop's invariant: the VNIs of the subnets made so far are reserved
on top of the set `R` reserved before the call, each once. -/
structure LoopInv (R : Finset ℕ) (idm : Idm) (n : Network) : Prop where
  vniIdm : VniIdm idm
  nodup : n.vnis.Nodup
  disjoint : Disjoint R n.vnis.toFinset
  reserved : idm.reserved = R ∪ n.vnis.toFinset

theorem Network.vnis_push (n : Network) (s : Subnet) :
    ({ n with subnets := n.subnets ++ [s] } : Network).vnis = n.vnis ++ [s.vni.toNat] := by
  simp [Network.vnis]

theorem LoopInv.start (h : VniIdm idm) (id : String) : LoopInv idm.reserved idm ⟨id, []⟩ :=
  ⟨h, List.nodup_nil, by simp [Network.vnis], by simp [Network.vnis]⟩

theorem LoopInv.push (hinv : LoopInv R idm n) {s s' : Subnet}
    (hob : obtainVxlanID idm s = (idm', s', none)) :
    LoopInv R idm' { n with subnets := n.subnets ++ [s'] } := by
  obtain ⟨hidm, hfree, hres, -⟩ := hinv.vniIdm.obtainVxlanID_ok hob
  rw [hinv.reserved, Finset.mem_union, not_or, List.mem_toFinset] at hfree
  refine ⟨hidm, ?_, ?_, ?_⟩
  · rw [Network.vnis_push, ← List.concat_eq_append]
    exact hinv.nodup.concat hfree.2
  · rw [Network.vnis_push, List.toFinset_append, Finset.disjoint_union_right]
    exact ⟨hinv.disjoint, by simpa using hfree.1⟩
  · rw [hres, hinv.reserved, Network.vnis_push, List.toFinset_append, List.toFinset_cons,
      List.toFinset_nil, Finset.union_insert, Finset.union_empty, Finset.union_insert]

theorem LoopInv.release (hinv : LoopInv R idm n) :
    VniIdm (releaseVxlanID idm n).1 ∧ (releaseVxlanID idm n).1.reserved = R := by
  obtain ⟨h, hres⟩ := hinv.vniIdm.releaseVxlanID n
  exact ⟨h, by rw [hres, hinv.reserved, Finset.union_sdiff_cancel_right hinv.disjoint]⟩

theorem LoopInv.subnetsLoop_error (hinv : LoopInv R idm n) {i : ℕ} {ipds : List IPAMData}
    {e : String} (hloop : subnetsLoop vxlanIDList idm n i ipds = (idm', .error e)) :
    VniIdm idm' ∧ idm'.reserved = R := by
  induction ipds generalizing idm n i with
  | nil => cases hloop
  | cons ipd ipds ih =>
      unfold subnetsLoop at hloop
      dsimp only at hloop
      cases hob : obtainVxlanID idm (newSubnet vxlanIDList i ipd) with
      | mk idm₁ rest =>
          obtain ⟨s', err⟩ := rest
          rw [hob] at hloop
          cases err with
          | some e' =>
              cases hloop
              obtain rfl := obtainVxlanID_error hob
              exact hinv.release
          | none => exact ih (hinv.push hob) hloop

/-- A loop that succeeds has given each pool a subnet with the VNI it asked
for, or an automatic one. -/
theorem LoopInv.subnetsLoop_ok (hinv : LoopInv R idm n) {i : ℕ} {ipds : List IPAMData}
    (hloop : subnetsLoop vxlanIDList idm n i ipds = (idm', .ok n')) :
    LoopInv R idm' n' ∧ n'.id = n.id ∧ ∃ new, n'.subnets = n.subnets ++ new ∧
      List.Forall₂ Subnet.Obtained (askedSubnets vxlanIDList i ipds) new := by
  induction ipds generalizing idm n i with
  | nil =>
      cases hloop
      exact ⟨hinv, rfl, [], by simp, .nil⟩
  | cons ipd ipds ih =>
      unfold subnetsLoop at hloop
      dsimp only at hloop
      cases hob : obtainVxlanID idm (newSubnet vxlanIDList i ipd) with
      | mk idm₁ rest =>
          obtain ⟨s', err⟩ := rest
          rw [hob] at hloop
          cases err with
          | some e' => cases hloop
          | none =>
              obtain ⟨-, -, -, hobtained⟩ := hinv.vniIdm.obtainVxlanID_ok hob
              obtain ⟨hinv', hid, new, hsub, hrest⟩ := ih (hinv.push hob) hloop
              exact ⟨hinv', hid, s' :: new, by simp [hsub], .cons hobtained hrest⟩

end Loop

/-! ## The calls keep what the driver owns -/

section Driver

variable {d d' : Driver}

theorem Driver.Owns.with_vxlanIdm (hd : d.Owns) {idm : Idm} (hidm : VniIdm idm)
    (hres : idm.reserved = d.vxlanIdm.reserved) : ({ d with vxlanIdm := idm } : Driver).Owns :=
  ⟨hidm, hd.keys, hd.nodup, hres.trans hd.reserved⟩

theorem Driver.Owns.add_network (hd : d.Owns) {id : String}
    (hget : GoMap.get? d.networks id = none) {idm : Idm} {n : Network}
    (hinv : LoopInv d.vxlanIdm.reserved idm n) :
    (⟨GoMap.set d.networks id n, idm⟩ : Driver).Owns := by
  have hvnis : (⟨GoMap.set d.networks id n, idm⟩ : Driver).vnis = d.vnis ++ n.vnis := by
    simp [Driver.vnis, GoMap.set_of_get?_eq_none hget]
  have hdisj : d.vnis.Disjoint n.vnis := by
    rw [← List.disjoint_toFinset_iff_disjoint, ← hd.reserved]
    exact hinv.disjoint
  refine ⟨hinv.vniIdm, GoMap.nodup_keys_set_of_get?_eq_none hd.keys hget, ?_, ?_⟩
  · rw [hvnis]
    exact hd.nodup.append hinv.nodup hdisj
  · rw [hvnis, hinv.reserved, hd.reserved, List.toFinset_append]

theorem Driver.Owns.delete_network (hd : d.Owns) {id : String} {n : Network}
    (hget : GoMap.get? d.networks id = some n) :
    (⟨GoMap.delete d.networks id, (releaseVxlanID d.vxlanIdm n).1⟩ : Driver).Owns := by
  have hperm : d.vnis.Perm (n.vnis ++ (GoMap.delete d.networks id).flatMap (·.2.vnis)) := by
    have := (GoMap.perm_cons_delete hd.keys hget).flatMap_right (·.2.vnis)
    rw [List.flatMap_cons] at this
    exact this
  have hnodup := hperm.nodup_iff.mp hd.nodup
  obtain ⟨hidm, hres⟩ := hd.idm.releaseVxlanID n
  refine ⟨hidm, GoMap.nodup_keys_delete hd.keys, (List.nodup_append.mp hnodup).2.1, ?_⟩
  have hdisj := List.disjoint_toFinset_iff_disjoint.mpr (List.disjoint_of_nodup_append hnodup)
  rw [hres, hd.reserved, List.toFinset_eq_of_perm _ _ hperm, List.toFinset_append,
    Finset.union_sdiff_cancel_left hdisj]
  rfl

/-- What `NetworkAllocate` does on a driver that owns its VNIs: the driver
still owns them; a call that does not succeed changes neither the networks
nor the reserved VNIs; one that succeeds adds one network, whose subnets
have the VNIs asked for, or automatic ones. -/
def AllocateSpec (d d' : Driver) (id : String) (option : List (String × String))
    (ipV4Data : Option (List IPAMData)) (r : Outcome (List (String × String))) : Prop :=
  d'.Owns ∧
    ((∀ opts, r ≠ .ok opts) →
      d'.networks = d.networks ∧ d'.vxlanIdm.reserved = d.vxlanIdm.reserved) ∧
    ∀ opts, r = .ok opts → ∃ ipds vxlanIDList rest n, ipV4Data = some ipds ∧
      optionsLoop option [] [] = .ok (rest, vxlanIDList) ∧ d'.networks = d.networks ++ [(id, n)] ∧
      List.Forall₂ Subnet.Obtained (askedSubnets vxlanIDList 0 ipds) n.subnets

theorem AllocateSpec.of_not_ok {id : String} {option : List (String × String)}
    {ipV4Data : Option (List IPAMData)} {r : Outcome (List (String × String))} (hd' : d'.Owns)
    (hnet : d'.networks = d.networks) (hres : d'.vxlanIdm.reserved = d.vxlanIdm.reserved)
    (hr : ∀ opts, r ≠ .ok opts) : AllocateSpec d d' id option ipV4Data r :=
  ⟨hd', fun _ => ⟨hnet, hres⟩, fun opts h => absurd h (hr opts)⟩

theorem Driver.Owns.NetworkAllocate (hd : d.Owns) {id : String} {option : List (String × String)}
    {ipV4Data : Option (List IPAMData)} {r : Outcome (List (String × String))}
    (hcall : d.NetworkAllocate id option ipV4Data = (d', r)) :
    AllocateSpec d d' id option ipV4Data r := by
  unfold Driver.NetworkAllocate at hcall
  split at hcall
  · cases hcall
    exact .of_not_ok hd rfl rfl (fun _ h => by cases h)
  split at hcall
  · cases hcall
    exact .of_not_ok hd rfl rfl (fun _ h => by cases h)
  next ipds =>
  split at hcall
  · cases hcall
    exact .of_not_ok hd rfl rfl (fun _ h => by cases h)
  next opts vxlanIDList hopts =>
  split at hcall
  · next idm e hloop =>
      -- a pool whose VNI cannot be obtained: those before it are released
      cases hcall
      obtain ⟨hidm, hres⟩ := (LoopInv.start hd.idm id).subnetsLoop_error hloop
      exact .of_not_ok (hd.with_vxlanIdm hidm hres) rfl hres (fun _ h => by cases h)
  next idm n hloop =>
  obtain ⟨hinv, -, new, hsub, hobtained⟩ := (LoopInv.start hd.idm id).subnetsLoop_ok hloop
  split at hcall
  · next hnil =>
      -- no pool: `n.subnets[0]` panics before any VNI is reserved
      cases hcall
      have hres : idm.reserved = d.vxlanIdm.reserved := by
        rw [hinv.reserved, Network.vnis, hnil]
        simp
      exact .of_not_ok (hd.with_vxlanIdm hinv.vniIdm hres) rfl hres (fun _ h => by cases h)
  split at hcall
  · -- the network id is taken: every VNI obtained is released
    cases hcall
    obtain ⟨hidm, hres⟩ := hinv.release
    exact .of_not_ok (hd.with_vxlanIdm hidm hres) rfl hres (fun _ h => by cases h)
  next hget =>
  cases hcall
  refine ⟨hd.add_network hget hinv, fun hr => absurd rfl (hr _), fun _ _ => ?_⟩
  refine ⟨ipds, vxlanIDList, opts, n, rfl, hopts, GoMap.set_of_get?_eq_none hget, ?_⟩
  simpa [hsub] using hobtained

theorem Driver.Owns.NetworkFree (hd : d.Owns) {id : String} {err : Option String}
    (hcall : d.NetworkFree id = (d', err)) : d'.Owns ∧ ∀ e, err = some e → d' = d := by
  unfold Driver.NetworkFree at hcall
  split at hcall
  · cases hcall
    exact ⟨hd, fun _ _ => rfl⟩
  split at hcall
  · cases hcall
    exact ⟨hd, fun _ _ => rfl⟩
  next n hget =>
  cases hcall
  exact ⟨hd.delete_network hget, fun _ h => by cases h⟩

end Driver

/-! ## Runs -/

theorem Driver.owns_of_Init {d₀ : Driver} (hinit : Init = .ok d₀) : d₀.Owns := by
  unfold Init at hinit
  split at hinit
  · next i hnew =>
      cases hinit
      obtain ⟨hstart, hstop⟩ := Idm.start_stop_New hnew
      exact ⟨⟨wellFormed_New hnew (by simp), hstart, hstop⟩, List.nodup_nil, List.nodup_nil,
        Idm.reserved_New hnew⟩
  · cases hinit

theorem Driver.Reachable.owns {d : Driver} (h : d.Reachable) : d.Owns := by
  obtain ⟨d₀, hinit, hreach⟩ := h
  refine Transition.Reachable.invariant (Driver.owns_of_Init hinit) (fun s c _ hs => ?_) hreach
  cases c with
  | networkAllocate id option ipV4Data => exact (hs.NetworkAllocate rfl).1
  | networkFree id => exact (hs.NetworkFree rfl).1

/-- The VNIs the id manager has reserved are the VNIs of the subnets of the
networks, each reserved once; a call that fails or panics changes neither
the networks nor the reserved set; a network allocated gets the VNIs its
option asked for, and VNIs of `[vxlanIDStart, vxlanIDEnd]` where it asked
for none. -/
theorem vxlan_ids_owned_by_networks :
    (∀ d : Driver, d.Reachable → d.vxlanIdm.reserved = d.vnis.toFinset ∧ d.vnis.Nodup) ∧
    (∀ (d d' : Driver) id option ipV4Data r, d.Reachable →
      d.NetworkAllocate id option ipV4Data = (d', r) → (∀ opts, r ≠ .ok opts) →
        d'.networks = d.networks ∧ d'.vxlanIdm.reserved = d.vxlanIdm.reserved) ∧
    (∀ (d d' : Driver) id e, d.Reachable → d.NetworkFree id = (d', some e) → d' = d) ∧
    (∀ (d d' : Driver) id option ipV4Data opts, d.Reachable →
      d.NetworkAllocate id option ipV4Data = (d', .ok opts) →
        ∃ ipds vxlanIDList rest n, ipV4Data = some ipds ∧
          optionsLoop option [] [] = .ok (rest, vxlanIDList) ∧
          d'.networks = d.networks ++ [(id, n)] ∧
          List.Forall₂ Subnet.Obtained (askedSubnets vxlanIDList 0 ipds) n.subnets) := by
  refine ⟨fun d hd => ⟨hd.owns.reserved, hd.owns.nodup⟩, ?_, ?_, ?_⟩
  · intro d d' id option ipV4Data r hd hcall hr
    exact (hd.owns.NetworkAllocate hcall).2.1 hr
  · intro d d' id e hd hcall
    exact (hd.owns.NetworkFree hcall).2 e rfl
  · intro d d' id option ipV4Data opts hd hcall
    exact (hd.owns.NetworkAllocate hcall).2.2 opts rfl

/-- Two networks, one asking for VNI 5000, then a second allocation of the
first id, a free of an unknown id and an allocation of a third network. -/
theorem vxlan_ids_owned_two_networks :
    ∃ D : Driver, D = Transition.run Driver.call
        ⟨[], ⟨0, vxlanIDEnd, Bitseq.NewHandle (1 + vxlanIDEnd - 0)⟩⟩
        [.networkAllocate "n1" [(OverlayVxlanIDList, "5000")]
          (some [⟨"", none, none, none⟩, ⟨"", none, none, none⟩]),
         .networkAllocate "n2" [] (some [⟨"", none, none, none⟩])] ∧
      D.vxlanIdm.reserved = {5000, 4096, 4097} ∧
      (D.NetworkAllocate "n1" [] (some [⟨"", none, none, none⟩])).2 =
        .error "network n1 already exists" ∧
      (D.NetworkAllocate "n1" [] (some [⟨"", none, none, none⟩])).1.vxlanIdm.reserved =
        {5000, 4096, 4097} ∧
      (D.NetworkFree "n3").1 = D ∧
      ∃ ipds vxlanIDList rest n, some [⟨"", none, none, none⟩] = some ipds ∧
        optionsLoop [] [] [] = .ok (rest, vxlanIDList) ∧
        (D.NetworkAllocate "n3" [] (some [⟨"", none, none, none⟩])).1.networks =
          D.networks ++ [("n3", n)] ∧
        List.Forall₂ Subnet.Obtained (askedSubnets vxlanIDList 0 ipds) n.subnets := by
  have hinit : Init = .ok ⟨[], ⟨0, vxlanIDEnd, Bitseq.NewHandle (1 + vxlanIDEnd - 0)⟩⟩ := by
    decide
  have hreach : ∀ calls, (Transition.run Driver.call
      ⟨[], ⟨0, vxlanIDEnd, Bitseq.NewHandle (1 + vxlanIDEnd - 0)⟩⟩ calls).Reachable :=
    fun calls => ⟨_, hinit, Transition.reachable_run calls⟩
  have hres : ∀ calls, (Transition.run Driver.call
      ⟨[], ⟨0, vxlanIDEnd, Bitseq.NewHandle (1 + vxlanIDEnd - 0)⟩⟩ calls).vxlanIdm.reserved =
        (Transition.run Driver.call
          ⟨[], ⟨0, vxlanIDEnd, Bitseq.NewHandle (1 + vxlanIDEnd - 0)⟩⟩ calls).vnis.toFinset :=
    fun calls => (vxlan_ids_owned_by_networks.1 _ (hreach calls)).1
  refine ⟨_, rfl, ?_, by decide, ?_, ?_, ?_⟩
  · rw [hres]
    decide
  · refine ((vxlan_ids_owned_by_networks.2.1 _ _ _ _ _ _ (hreach _) (Prod.eta _).symm ?_).2).trans ?_
    · intro opts h
      change Outcome.error "network n1 already exists" = _ at h
      cases h
    · rw [hres]
      decide
  · exact vxlan_ids_owned_by_networks.2.2.1 _ _ "n3" "overlay network with id n3 not found"
      (hreach _) (Prod.ext rfl (by decide))
  · exact vxlan_ids_owned_by_networks.2.2.2 _ _ _ _ _ [(OverlayVxlanIDList, "4098")] (hreach _)
      (Prod.ext rfl (by decide))

end Libnetwork.Ovmanager
