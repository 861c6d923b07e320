import Libnetwork.Ipam.Allocator
import Libnetwork.Support.GoNetBlocks
import Libnetwork.Support.Transition

/-!
# The master pools `RequestPool` hands out

A request for a master pool is refused when the network shares an address
with a master pool of the same address space.  The table's test,
`addrSpace.contains`, looks only at the two network addresses: for CIDR
blocks, which is what `ParseCIDR` gives, that is the same as sharing an
address, in either family.
-/

namespace Libnetwork.Ipam

open GoNet

/-! ## Overlapping master pools -/

/-- Some master pool of the address space shares an address with `nw`. -/
def AddrSpace.Overlaps (aSpace : AddrSpace) (space : String) (nw : IPNet) : Prop :=
  ∃ e ∈ aSpace.subnets.entries, e.1.AddressSpace = space ∧ e.1.ChildSubnet = "" ∧
    ∃ ip, nw.Contains ip = true ∧ e.2.Pool.Contains ip = true

/-- The master pools of an address space are CIDR blocks. -/
def AddrSpace.MastersCIDR (aSpace : AddrSpace) (space : String) : Prop :=
  ∀ e ∈ aSpace.subnets.entries, e.1.AddressSpace = space → e.1.ChildSubnet = "" →
    e.2.Pool.IsCIDR

/-- The test of the two network addresses finds exactly the master pools
that share an address with a CIDR block. -/
theorem AddrSpace.contains_iff_overlaps {aSpace : AddrSpace} {space : String} {nw : IPNet}
    (hnw : nw.IsCIDR) (hmasters : aSpace.MastersCIDR space) :
    aSpace.contains space nw = true ↔ aSpace.Overlaps space nw := by
  rw [AddrSpace.contains, List.any_eq_true]
  constructor
  · rintro ⟨e, he, h⟩
    simp only [Bool.and_eq_true, beq_iff_eq, Bool.or_eq_true] at h
    obtain ⟨⟨hspace, hmaster⟩, hnet⟩ := h
    exact ⟨e, he, hspace.symm, hmaster,
      (hnw.overlap_iff (hmasters e he hspace.symm hmaster)).mpr hnet⟩
  · rintro ⟨e, he, hspace, hmaster, hshared⟩
    refine ⟨e, he, ?_⟩
    simp only [Bool.and_eq_true, beq_iff_eq, Bool.or_eq_true]
    exact ⟨⟨hspace.symm, hmaster⟩, (hnw.overlap_iff (hmasters e he hspace hmaster)).mp hshared⟩

/-- The master branch of `updatePoolDBOnAdd`: a key already in the table
or an overlap is `ErrPoolOverlap`, anything else enters the pool. -/
theorem AddrSpace.updatePoolDBOnAdd_master (aSpace : AddrSpace) (k : SubnetKey) (nw : IPNet) :
    aSpace.updatePoolDBOnAdd k nw none false =
      if k ∈ aSpace.subnets ∨ aSpace.contains k.AddressSpace nw = true then
        some (.error .poolOverlap)
      else some (.ok (⟨aSpace.subnets.insert k ⟨SubnetKey.zero, nw, none, 1⟩⟩, some (k, nw))) := by
  by_cases hk : k ∈ aSpace.subnets
  · simp [AddrSpace.updatePoolDBOnAdd, hk]
  · by_cases hc : aSpace.contains k.AddressSpace nw = true <;>
      simp [AddrSpace.updatePoolDBOnAdd, hk, hc]

/-- A request for a master pool by its text: the key of the pool and its
network. -/
theorem parsePoolRequest_master {as s : String} {ip : IP} {nw : IPNet} (has : as ≠ "")
    (hs : GoNet.ParseCIDR s = some (ip, nw)) :
    parsePoolRequest as s "" = .ok (some (⟨as, nw.String, ""⟩, nw, none)) := by
  have hne : s ≠ "" := by
    rintro rfl
    simp [GoNet.ParseCIDR] at hs
  simp [parsePoolRequest, has, hne, hs]

/-- `RequestPool` of a master pool runs the master branch of
`updatePoolDBOnAdd` on the table of its address space. -/
theorem Allocator.requestPool_master {a : Allocator} {as s : String} {ip : IP} {nw : IPNet}
    {aSpace : AddrSpace} (v6 : Bool) (has : as ≠ "") (hs : GoNet.ParseCIDR s = some (ip, nw))
    (haSpace : a.addrSpaces as = some aSpace) :
    a.RequestPool as s "" v6 =
      if (⟨as, nw.String, ""⟩ : SubnetKey) ∈ aSpace.subnets ∨ aSpace.contains as nw = true then
        some (a, .error .poolOverlap)
      else
        some ((a.setAddrSpace as ⟨aSpace.subnets.insert ⟨as, nw.String, ""⟩
            ⟨SubnetKey.zero, nw, none, 1⟩⟩).insertBitMask ⟨as, nw.String, ""⟩ nw,
          .ok ((⟨as, nw.String, ""⟩ : SubnetKey).toString, nw)) := by
  have hget : a.getAddrSpace as = .ok aSpace := by simp [Allocator.getAddrSpace, haSpace]
  rw [Allocator.RequestPool, parsePoolRequest_master has hs]
  simp only [Option.isNone_some, hget, AddrSpace.updatePoolDBOnAdd_master]
  by_cases hc : (⟨as, nw.String, ""⟩ : SubnetKey) ∈ aSpace.subnets ∨ aSpace.contains as nw = true
  · simp only [if_pos hc]
  · simp only [if_neg hc]
    rfl

/-! ## Every pool of a reachable allocator is a CIDR block -/

/-- Every pool of the table is a CIDR block. -/
def PoolsCIDR (subnets : Subnets) : Prop :=
  ∀ e ∈ subnets.entries, e.2.Pool.IsCIDR

section PoolsCIDR

variable {subnets : Subnets}

theorem poolsCIDR_empty : PoolsCIDR ∅ := fun _ he => by simp at he

theorem PoolsCIDR.insert (h : PoolsCIDR subnets) (k : SubnetKey) {p : PoolData}
    (hp : p.Pool.IsCIDR) : PoolsCIDR (subnets.insert k p) := by
  intro e he
  rw [AList.entries_insert, List.mem_cons] at he
  rcases he with rfl | he
  · exact hp
  · exact h e ((List.kerase_sublist _ _).subset he)

theorem PoolsCIDR.erase (h : PoolsCIDR subnets) (k : SubnetKey) : PoolsCIDR (subnets.erase k) :=
  fun e he => h e ((List.kerase_sublist _ _).subset he)

theorem PoolsCIDR.lookup (h : PoolsCIDR subnets) {k : SubnetKey} {p : PoolData}
    (hk : subnets.lookup k = some p) : p.Pool.IsCIDR :=
  h ⟨k, p⟩ (AList.mem_lookup_iff.mp hk)

theorem PoolsCIDR.incRefCountLoop (h : PoolsCIDR subnets) {delta : Int} {fuel : ℕ}
    {key : SubnetKey} {subnets' : Subnets} (hinc : incRefCountLoop delta fuel key subnets = some subnets') :
    PoolsCIDR subnets' := by
  induction fuel generalizing key subnets with
  | zero => cases hinc
  | succ fuel ih =>
      rw [incRefCountLoop] at hinc
      cases hk : subnets.lookup key with
      | none =>
          rw [hk] at hinc
          cases hinc
          exact h
      | some c =>
          rw [hk] at hinc
          dsimp only at hinc
          have hc : ({ c with RefCount := c.RefCount + delta } : PoolData).Pool.IsCIDR :=
            h.lookup (p := c) hk
          exact ih (h.insert key hc) hinc

theorem PoolsCIDR.removalLoop (h : PoolsCIDR subnets) {fuel : ℕ} {k : SubnetKey}
    {r : Subnets × Option (SubnetKey × IPNet)} (hrem : removalLoop fuel k subnets = some r) :
    PoolsCIDR r.1 := by
  induction fuel generalizing k subnets with
  | zero => cases hrem
  | succ fuel ih =>
      rw [removalLoop] at hrem
      cases hk : subnets.lookup k with
      | none =>
          rw [hk] at hrem
          cases hrem
          exact h
      | some c =>
          rw [hk] at hrem
          dsimp only at hrem
          split_ifs at hrem
          · cases hc : c.Range with
            | none =>
                rw [hc] at hrem
                cases hrem
                exact h.erase k
            | some _ =>
                rw [hc] at hrem
                exact ih (h.erase k) hrem
          · exact ih h hrem

/-- A pool `updatePoolDBOnAdd` enters is the network of the request, so when
that is a CIDR block every pool of the table stays one. -/
theorem PoolsCIDR.updatePoolDBOnAdd {aSpace aSpace' : AddrSpace} (h : PoolsCIDR aSpace.subnets)
    {k : SubnetKey} {nw : IPNet} (hnw : nw.IsCIDR) {ipr : Option AddressRange} {pdf : Bool}
    {ins : Option (SubnetKey × IPNet)}
    (hadd : aSpace.updatePoolDBOnAdd k nw ipr pdf = some (.ok (aSpace', ins))) :
    PoolsCIDR aSpace'.subnets := by
  unfold AddrSpace.updatePoolDBOnAdd at hadd
  by_cases hk : k ∈ aSpace.subnets
  · rw [if_pos hk] at hadd
    split_ifs at hadd <;> cases hadd
  rw [if_neg hk] at hadd
  cases ipr with
  | none =>
      dsimp only at hadd
      by_cases hc : aSpace.contains k.AddressSpace nw = true
      · rw [if_pos hc] at hadd
        cases hadd
      · rw [if_neg hc] at hadd
        cases hadd
        exact h.insert k hnw
  | some ipr =>
      dsimp only at hadd
      split at hadd
      · obtain ⟨subnets', hinc, heq⟩ := Option.map_eq_some_iff.mp hadd
        cases heq
        exact (h.insert k hnw).incRefCountLoop hinc
      · cases hadd
        exact (h.insert k hnw).insert _ hnw

theorem PoolsCIDR.updatePoolDBOnRemoval {aSpace aSpace' : AddrSpace} (h : PoolsCIDR aSpace.subnets)
    {k : SubnetKey} {rm : Option (SubnetKey × IPNet)}
    (hrem : aSpace.updatePoolDBOnRemoval k = some (.ok (aSpace', rm))) :
    PoolsCIDR aSpace'.subnets := by
  unfold AddrSpace.updatePoolDBOnRemoval at hrem
  split at hrem
  · cases hrem
  · split at hrem
    · cases hrem
    · next subnets hinc =>
        obtain ⟨r, hr, heq⟩ := Option.map_eq_some_iff.mp hrem
        cases heq
        exact (h.incRefCountLoop hinc).removalLoop hr

theorem AddrSpace.mastersCIDR_of_poolsCIDR {aSpace : AddrSpace} (h : PoolsCIDR aSpace.subnets)
    (space : String) : aSpace.MastersCIDR space :=
  fun e he _ _ => h e he

end PoolsCIDR

theorem mem_of_getPredefinedPoolLoop {aSpace : AddrSpace} {as : String} {v : IpVersion} :
    ∀ {i : ℕ} {l : List IPNet} {j : ℕ} {nw : IPNet},
      getPredefinedPoolLoop aSpace as v i l = some (j, nw) → nw ∈ l
  | _, [], _, _, h => by cases h
  | i, nw' :: rest, j, nw, h => by
      rw [getPredefinedPoolLoop] at h
      split_ifs at h
      · exact List.mem_cons_of_mem _ (mem_of_getPredefinedPoolLoop h)
      · exact List.mem_cons_of_mem _ (mem_of_getPredefinedPoolLoop h)
      · cases h
        exact List.mem_cons_self
      · exact List.mem_cons_of_mem _ (mem_of_getPredefinedPoolLoop h)

theorem Allocator.mem_predefined_of_mem_getPredefineds {a : Allocator} {as : String} {nw : IPNet}
    (h : nw ∈ a.getPredefineds as) : nw ∈ a.predefined as := by
  unfold Allocator.getPredefineds at h
  rcases List.mem_append.mp h with h | h
  · exact List.mem_of_mem_drop h
  · exact List.mem_of_mem_take h

theorem isCIDR_of_parsePoolRequest {as pool subPool : String} {k : SubnetKey} {nw : IPNet}
    {ipr : Option AddressRange} (h : parsePoolRequest as pool subPool = .ok (some (k, nw, ipr))) :
    nw.IsCIDR := by
  unfold parsePoolRequest at h
  split_ifs at h
  · cases h
  · -- a sub-pool, in the network of its pool
    split at h
    · cases h
    · next hparse =>
        split at h
        · cases h
        · cases h
          exact isCIDR_of_ParseCIDR hparse
  · split at h
    · cases h
    · next hparse =>
        cases h
        exact isCIDR_of_ParseCIDR hparse

/-- The pools an allocator can hand out or holds are CIDR blocks: its
predefined pools and every pool of every address space. -/
structure Allocator.PoolsAreCIDR (a : Allocator) : Prop where
  predefined : ∀ as, ∀ nw ∈ a.predefined as, nw.IsCIDR
  addrSpaces : ∀ as aSpace, a.addrSpaces as = some aSpace → PoolsCIDR aSpace.subnets

namespace Allocator.PoolsAreCIDR

variable {a a' : Allocator}

theorem of_eq (h : a.PoolsAreCIDR) (hp : a'.predefined = a.predefined)
    (hs : a'.addrSpaces = a.addrSpaces) : a'.PoolsAreCIDR :=
  ⟨hp ▸ h.predefined, hs ▸ h.addrSpaces⟩

theorem setAddrSpace (h : a.PoolsAreCIDR) (as : String) {aSpace : AddrSpace}
    (hs : PoolsCIDR aSpace.subnets) : (a.setAddrSpace as aSpace).PoolsAreCIDR := by
  refine ⟨h.predefined, fun as' aSpace' has' => ?_⟩
  by_cases has : as' = as
  · subst has
    simp only [Allocator.setAddrSpace, Function.update_self, Option.some.injEq] at has'
    rw [← has']
    exact hs
  · simp only [Allocator.setAddrSpace, Function.update_of_ne has] at has'
    exact h.addrSpaces as' aSpace' has'

theorem getAddrSpace (h : a.PoolsAreCIDR) {as : String} {aSpace : AddrSpace}
    (hg : a.getAddrSpace as = .ok aSpace) : PoolsCIDR aSpace.subnets := by
  unfold Allocator.getAddrSpace at hg
  split at hg
  · next aSpace' has =>
      cases hg
      exact h.addrSpaces as _ has
  · cases hg

theorem retrieveBitmask (h : a.PoolsAreCIDR) (k : SubnetKey) (n : IPNet) :
    (a.retrieveBitmask k n).1.PoolsAreCIDR := by
  unfold Allocator.retrieveBitmask
  split
  · exact h
  · exact h.of_eq rfl rfl

theorem getPredefinedPool (h : a.PoolsAreCIDR) {as : String} {v6 : Bool} {nw : IPNet}
    (hg : a.getPredefinedPool as v6 = .ok (a', nw)) : a'.PoolsAreCIDR ∧ nw.IsCIDR := by
  unfold Allocator.getPredefinedPool at hg
  by_cases hdef : (as != localAddressSpace && as != globalAddressSpace) = true
  · rw [if_pos hdef] at hg
    cases hg
  rw [if_neg hdef] at hg
  split at hg
  · cases hg
  · split at hg
    · next hloop =>
        cases hg
        exact ⟨h.of_eq rfl rfl, h.predefined as nw
          (Allocator.mem_predefined_of_mem_getPredefineds (mem_of_getPredefinedPoolLoop hloop))⟩
    · cases hg

theorem runInsert (h : a.PoolsAreCIDR) (ins : Option (SubnetKey × IPNet)) :
    (a.runInsert ins).PoolsAreCIDR := by
  cases ins with
  | none => exact h
  | some _ => exact h.of_eq rfl rfl

theorem requestPool (h : a.PoolsAreCIDR) {as pool subPool : String} {v6 : Bool}
    {r : Except IpamError (String × IPNet)} (hr : a.RequestPool as pool subPool v6 = some (a', r)) :
    a'.PoolsAreCIDR := by
  unfold Allocator.RequestPool at hr
  split at hr
  · cases hr
    exact h
  · next req hreq =>
      dsimp only at hr
      split at hr
      · cases hr
        exact h
      · next a₁ k nw ipr hpick =>
          have hpicked : a₁.PoolsAreCIDR ∧ nw.IsCIDR := by
            cases req with
            | some x =>
                obtain ⟨k', nw', ipr'⟩ := x
                cases hpick
                exact ⟨h, isCIDR_of_parsePoolRequest hreq⟩
            | none =>
                dsimp only at hpick
                split at hpick
                · cases hpick
                · next a₂ nw₂ hg =>
                    cases hpick
                    exact h.getPredefinedPool hg
          split at hr
          · cases hr
            exact hpicked.1
          · next aSpace hg =>
              split at hr
              · cases hr
              · cases hr
                exact hpicked.1
              · next aSpace' ins hadd =>
                  cases hr
                  exact (hpicked.1.setAddrSpace as
                    ((hpicked.1.getAddrSpace hg).updatePoolDBOnAdd hpicked.2 hadd)).runInsert ins

theorem releasePool (h : a.PoolsAreCIDR) {poolID : String} {r : Option IpamError}
    (hr : a.ReleasePool poolID = some (a', r)) : a'.PoolsAreCIDR := by
  unfold Allocator.ReleasePool at hr
  split at hr
  · cases hr
    exact h
  · next k hk =>
      split at hr
      · cases hr
        exact h
      · next aSpace hg =>
          split at hr
          · cases hr
          · cases hr
            exact h
          · next aSpace' rm hrem =>
              dsimp only at hr
              have h' := h.setAddrSpace k.AddressSpace
                ((h.getAddrSpace hg).updatePoolDBOnRemoval hrem)
              split at hr
              · cases hr
                exact h'
              · cases hr
                exact h'.retrieveBitmask _ _

theorem requestAddress (h : a.PoolsAreCIDR) {poolID : String} {prefAddress : Option IP}
    {serial : Bool} {r : Except IpamError IPNet}
    (hr : a.RequestAddress poolID prefAddress serial = some (a', r)) : a'.PoolsAreCIDR := by
  unfold Allocator.RequestAddress at hr
  split at hr
  · cases hr
    exact h
  · split_ifs at hr
    · cases hr
      exact h
    · split at hr
      · cases hr
      · next k c hm =>
          dsimp only at hr
          cases hr
          exact (h.retrieveBitmask k c.Pool).of_eq rfl rfl

theorem releaseAddress (h : a.PoolsAreCIDR) {poolID : String} {address : Option IP}
    {r : Option IpamError} (hr : a.ReleaseAddress poolID address = some (a', r)) :
    a'.PoolsAreCIDR := by
  unfold Allocator.ReleaseAddress at hr
  split at hr
  · cases hr
    exact h
  · split at hr
    · cases hr
      exact h
    · split_ifs at hr
      · cases hr
        exact h
      · split at hr
        · cases hr
        · next k c hm =>
            split at hr
            · cases hr
              exact h
            · dsimp only at hr
              cases hr
              exact (h.retrieveBitmask k c.Pool).of_eq rfl rfl

end Allocator.PoolsAreCIDR

/-- The calls of an allocator. -/
inductive Call
  | requestPool (addressSpace pool subPool : String) (v6 : Bool)
  | releasePool (poolID : String)
  | requestAddress (poolID : String) (prefAddress : Option IP) (serial : Bool)
  | releaseAddress (poolID : String) (address : Option IP)

/-- The allocator after a call, `none` where the source panics. -/
def Allocator.call (a : Allocator) : Call → Option Allocator
  | .requestPool addressSpace pool subPool v6 => (a.RequestPool addressSpace pool subPool v6).map Prod.fst
  | .releasePool poolID => (a.ReleasePool poolID).map Prod.fst
  | .requestAddress poolID prefAddress serial =>
      (a.RequestAddress poolID prefAddress serial).map Prod.fst
  | .releaseAddress poolID address => (a.ReleaseAddress poolID address).map Prod.fst

theorem Allocator.PoolsAreCIDR.call {a a' : Allocator} (h : a.PoolsAreCIDR) {c : Call}
    (hc : a.call c = some a') : a'.PoolsAreCIDR := by
  cases c with
  | requestPool addressSpace pool subPool v6 =>
      obtain ⟨⟨_, _⟩, hr, rfl⟩ := Option.map_eq_some_iff.mp hc
      exact h.requestPool hr
  | releasePool poolID =>
      obtain ⟨⟨_, _⟩, hr, rfl⟩ := Option.map_eq_some_iff.mp hc
      exact h.releasePool hr
  | requestAddress poolID prefAddress serial =>
      obtain ⟨⟨_, _⟩, hr, rfl⟩ := Option.map_eq_some_iff.mp hc
      exact h.requestAddress hr
  | releaseAddress poolID address =>
      obtain ⟨⟨_, _⟩, hr, rfl⟩ := Option.map_eq_some_iff.mp hc
      exact h.releaseAddress hr

theorem poolsAreCIDR_NewAllocator {predefined : String → List IPNet}
    (hpre : ∀ as, ∀ nw ∈ predefined as, nw.IsCIDR) : (NewAllocator predefined).PoolsAreCIDR := by
  refine ⟨hpre, fun as aSpace has => ?_⟩
  simp only [NewAllocator] at has
  split_ifs at has
  cases has
  exact poolsCIDR_empty

/-- Every allocator the calls reach from `NewAllocator` of CIDR predefined
pools holds only CIDR pools. -/
theorem Allocator.poolsAreCIDR_of_reachable {predefined : String → List IPNet}
    (hpre : ∀ as, ∀ nw ∈ predefined as, nw.IsCIDR) {a : Allocator}
    (h : Transition.PartialReachable (fun _ _ => True) Allocator.call (NewAllocator predefined) a) :
    a.PoolsAreCIDR :=
  h.invariant (poolsAreCIDR_NewAllocator hpre) fun _ _ _ _ hs hc => hs.call hc


/-- In an allocator the calls reach from `NewAllocator` of CIDR predefined
pools, for a network read by `ParseCIDR`, `contains` is true exactly when a
master pool shares an address with the network; `RequestPool` of the network
then fails with `ErrPoolOverlap`, as it does for a pool already entered under
the same key, and otherwise enters the pool and inserts its bitmask. -/
theorem requestPool_overlap_check_exact {predefined : String → List IPNet}
    (hpre : ∀ as, ∀ nw ∈ predefined as, nw.IsCIDR) {a : Allocator}
    (hreach : Transition.PartialReachable (fun _ _ => True) Allocator.call (NewAllocator predefined) a)
    {as s : String} {ip : IP} {nw : IPNet} {aSpace : AddrSpace} (v6 : Bool) (has : as ≠ "")
    (hs : GoNet.ParseCIDR s = some (ip, nw)) (haSpace : a.addrSpaces as = some aSpace) :
    (aSpace.contains as nw = true ↔ aSpace.Overlaps as nw) ∧
    (aSpace.Overlaps as nw ∨ (⟨as, nw.String, ""⟩ : SubnetKey) ∈ aSpace.subnets →
      a.RequestPool as s "" v6 = some (a, .error .poolOverlap)) ∧
    (¬ aSpace.Overlaps as nw → (⟨as, nw.String, ""⟩ : SubnetKey) ∉ aSpace.subnets →
      a.RequestPool as s "" v6 =
        some ((a.setAddrSpace as ⟨aSpace.subnets.insert ⟨as, nw.String, ""⟩
            ⟨SubnetKey.zero, nw, none, 1⟩⟩).insertBitMask ⟨as, nw.String, ""⟩ nw,
          .ok ((⟨as, nw.String, ""⟩ : SubnetKey).toString, nw))) := by
  have hmasters := AddrSpace.mastersCIDR_of_poolsCIDR
    ((Allocator.poolsAreCIDR_of_reachable hpre hreach).addrSpaces as aSpace haSpace) as
  have hiff := AddrSpace.contains_iff_overlaps (isCIDR_of_ParseCIDR hs) hmasters
  refine ⟨hiff, fun hbad => ?_, fun hfree hnew => ?_⟩
  · rw [Allocator.requestPool_master v6 has hs haSpace, if_pos (hbad.symm.imp_right hiff.mpr)]
  · rw [Allocator.requestPool_master v6 has hs haSpace, if_neg]
    rintro (hk | hc)
    · exact hnew hk
    · exact hfree (hiff.mp hc)

/-- Once `10.0.0.0/8` is entered, `10.1.0.0/16` overlaps it, and its request
fails. -/
theorem requestPool_overlap_check_exact_nested_pool :
    ∃ a aSpace, Transition.PartialReachable (fun _ _ => True) Allocator.call
        (NewAllocator fun _ => []) a ∧ a.addrSpaces "LocalDefault" = some aSpace ∧
      aSpace.Overlaps "LocalDefault" ⟨[10, 1, 0, 0], [255, 255, 0, 0]⟩ ∧
      a.RequestPool "LocalDefault" "10.1.0.0/16" "" false = some (a, .error .poolOverlap) := by
  have hreach : Transition.PartialReachable (fun _ _ => True) Allocator.call
      (NewAllocator fun _ => []) _ :=
    .step (.requestPool "LocalDefault" "10.0.0.0/8" "" false) .init trivial rfl
  have hs : GoNet.ParseCIDR "10.1.0.0/16" =
      some (IPv4 10 1 0 0, ⟨[10, 1, 0, 0], [255, 255, 0, 0]⟩) := by decide
  have hc := requestPool_overlap_check_exact (fun _ _ h => by cases h) hreach false
    (show "LocalDefault" ≠ "" by decide) hs rfl
  have hov := hc.1.mp (by decide)
  exact ⟨_, _, hreach, rfl, hov, hc.2.1 (.inl hov)⟩

/-! ## Rotating the predefined pools -/

/-- The start index of the predefined pools after a pool found past the end
of the list is reset to 0 rather than moved to the pool after the one handed
out.  With pools `172.17/16`, `172.18/16`, `172.19/16`, the first two handed
out, the first released and the third requested by name, the next request
scans from the third, hands out the first and sets the start index to 0,
not 1; once the first two are released, the first is handed out again while
the second is free. -/
theorem predefined_rotation_resets_start_index :
    ∃ a₁ a₂ a₃ a₄ a₅ a₆ a₇ a₈,
      (NewAllocator fun _ => [⟨[172, 17, 0, 0], [255, 255, 0, 0]⟩,
          ⟨[172, 18, 0, 0], [255, 255, 0, 0]⟩, ⟨[172, 19, 0, 0], [255, 255, 0, 0]⟩]).RequestPool
          "LocalDefault" "" "" false =
        some (a₁, .ok ("LocalDefault/172.17.0.0/16", ⟨[172, 17, 0, 0], [255, 255, 0, 0]⟩)) ∧
      a₁.RequestPool "LocalDefault" "" "" false =
        some (a₂, .ok ("LocalDefault/172.18.0.0/16", ⟨[172, 18, 0, 0], [255, 255, 0, 0]⟩)) ∧
      a₂.ReleasePool "LocalDefault/172.17.0.0/16" = some (a₃, none) ∧
      a₃.RequestPool "LocalDefault" "172.19.0.0/16" "" false =
        some (a₄, .ok ("LocalDefault/172.19.0.0/16", ⟨[172, 19, 0, 0], [255, 255, 0, 0]⟩)) ∧
      a₄.predefinedStartIndices "LocalDefault" = 2 ∧
      a₄.RequestPool "LocalDefault" "" "" false =
        some (a₅, .ok ("LocalDefault/172.17.0.0/16", ⟨[172, 17, 0, 0], [255, 255, 0, 0]⟩)) ∧
      a₅.predefinedStartIndices "LocalDefault" = 0 ∧
      a₅.ReleasePool "LocalDefault/172.17.0.0/16" = some (a₆, none) ∧
      a₆.ReleasePool "LocalDefault/172.18.0.0/16" = some (a₇, none) ∧
      a₇.RequestPool "LocalDefault" "" "" false =
        some (a₈, .ok ("LocalDefault/172.17.0.0/16", ⟨[172, 17, 0, 0], [255, 255, 0, 0]⟩)) :=
  ⟨_, _, _, _, _, _, _, _, rfl, rfl, rfl, rfl, rfl, rfl, rfl, rfl, rfl, rfl⟩

end Libnetwork.Ipam
