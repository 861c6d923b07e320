import Libnetwork.Ipam.Net

/-!
# Splitting the default address pools

`ipamutils/utils.go`: a default pool is a base network and a prefix length,
split into the networks of that length inside the base.  `splitNetwork`
computes the count `1 << (size - ones)` in a Go `int` and the offset of the
`i`-th network, `i << (bits - size)`, in a Go `uint`, both of 64 bits, and
ors the offset into a copy of the base address from its last byte back.
-/

namespace Libnetwork.Ipamutils

open GoNet

structure NetworkToSplit where
  Base : String
  Size : Int
  deriving DecidableEq, Repr

/-- Go's `1 << k` on an `int` of 64 bits: zero from 64 on, and `2^63` wraps
to the least `int`. -/
def goIntShiftOne (k : ℕ) : Int :=
  if k < 64 then Int.bmod (2 ^ k) (2 ^ 64) else 0

/-- `addIntToIP`, the same as the allocator's. -/
def addIntToIP (array : IP) (ordinal : UInt64) : IP := Ipam.addIntToIP array ordinal

/-- `splitNetwork`: the `n` networks of prefix length `size` from the base,
`n` as Go's `int` shift gives it; `none` where `make` panics on the negative
capacity of a shift by 63. -/
def splitNetwork (size : Int) (base : IPNet) : Option (List IPNet) :=
  let (one, bits) := Size base.Mask
  let mask := CIDRMask size.toNat bits
  let n := goIntShiftOne (size - (one : Int)).toNat
  -- `uint(bits - size)`, which wraps when the size is past the address length
  let s := (((bits : Int) - size) % 2 ^ 64).toNat
  if n < 0 then none
  else some ((List.range n.toNat).map fun i =>
    ⟨addIntToIP base.IP (Ipam.goShiftLeft (UInt64.ofNat i) s), mask⟩)

/-- `splitNetworks`: the networks of each default pool in order, or the
error of the first pool that is refused; `none` where a split panics. -/
def splitNetworks : List NetworkToSplit → Option (Except String (List IPNet))
  | [] => some (.ok [])
  | p :: rest =>
      match GoNet.ParseCIDR p.Base with
      | none =>
          some (.error ("invalid base pool \"" ++ p.Base ++ "\": invalid CIDR address: " ++ p.Base))
      | some (_, b) =>
          let (ones, _) := Size b.Mask
          if p.Size ≤ 0 ∨ p.Size < (ones : Int) then
            some (.error ("invalid pools size: " ++ toString p.Size))
          else
            match splitNetwork p.Size b with
            | none => none
            | some nets => (splitNetworks rest).map fun r => r.map (nets ++ ·)

example : splitNetworks [⟨"10.10.0.0/16", 18⟩] =
    some (.ok [⟨[10, 10, 0, 0], [255, 255, 192, 0]⟩, ⟨[10, 10, 64, 0], [255, 255, 192, 0]⟩,
      ⟨[10, 10, 128, 0], [255, 255, 192, 0]⟩, ⟨[10, 10, 192, 0], [255, 255, 192, 0]⟩]) := by
  decide

/-! ## Sizes the split does not handle -/

/-- `splitNetworks` takes a size past the address length, and a split whose
networks have 64 host bits or more: a base of `10.0.0.0/32` with size 33
gives the base twice with a nil mask, and `2001:db8::/63` with size 64
gives `2001:db8::/64` twice and never `2001:db8:0:1::/64`.  A split into
`2^63` networks, of `::/1` with size 64, panics. -/
theorem splitNetworks_wraps_offsets :
    splitNetworks [⟨"10.0.0.0/32", 33⟩] = some (.ok [⟨[10, 0, 0, 0], []⟩, ⟨[10, 0, 0, 0], []⟩]) ∧
    splitNetworks [⟨"2001:db8::/63", 64⟩] =
      some (.ok [⟨[0x20, 0x01, 0x0d, 0xb8, 0, 0, 0, 0, 0, 0, 0, 0, 0, 0, 0, 0],
          [0xff, 0xff, 0xff, 0xff, 0xff, 0xff, 0xff, 0xff, 0, 0, 0, 0, 0, 0, 0, 0]⟩,
        ⟨[0x20, 0x01, 0x0d, 0xb8, 0, 0, 0, 0, 0, 0, 0, 0, 0, 0, 0, 0],
          [0xff, 0xff, 0xff, 0xff, 0xff, 0xff, 0xff, 0xff, 0, 0, 0, 0, 0, 0, 0, 0]⟩]) ∧
    splitNetworks [⟨"::/1", 64⟩] = none := by
  refine ⟨by decide, by decide, by decide⟩

end Libnetwork.Ipamutils
