import Libnetwork.Support.GoNet

/-!
# The reverse form of an address

`netutils.ReverseIP`, which builds the key of the address-to-name table the
resolver answers PTR queries from.  An IPv4 address is its fields in reverse
order; an IPv6 address is split at its colons, each group padded to four hex
digits and each empty group replaced by the zero groups the `::` stands for,
counted as eight less the number of colons, and the nibbles are then written
in reverse order.  That count is right only when the `::` leaves exactly one
empty group after the split: a leading or trailing `::` leaves two.
-/

namespace Libnetwork.Netutils

open GoNet

/-- `strings.Repeat`, `none` for its panic on a negative count. -/
def goRepeat (s : List Char) (count : Int) : Option (List Char) :=
  if count < 0 then none else some (List.replicate count.toNat s).flatten

/-- One group of the IPv6 branch: an empty group becomes the zero groups of
the `::`, a short one is padded with zeros. -/
def expandGroup (colons : ℕ) (group : List Char) : Option (List Char) :=
  if group.length = 0 then goRepeat "0000".toList (8 - (colons : Int))
  else if group.length < 4 then some (List.replicate (4 - group.length) '0' ++ group)
  else some group

/-- `ReverseIP`, `none` for the panic of `strings.Repeat`. -/
def ReverseIP (IP : String) : Option String :=
  let cs := IP.toList
  if ((ParseIP cs).map fun ip => !(To4 ip).isEmpty) = some true then
    some (String.ofList (['.'].intercalate (cs.splitOn '.').reverse))
  else
    ((cs.splitOn ':').mapM (expandGroup (cs.count ':'))).map fun groups =>
      String.ofList (['.'].intercalate (groups.flatten.map fun c => [c]).reverse)

example : ReverseIP "10.1.2.3" = some "3.2.1.10" := by decide

example : ReverseIP "2001:db8::1" =
    some (String.ofList (['.'].intercalate
      ((("2001" ++ "0db8" ++ "00000000000000000000" ++ "0001").toList.map fun c => [c]).reverse))) := by
  decide

/-- The loopback address `::1` prints as `::1`, whose split leaves two empty
groups: each becomes six zero groups, and the reverse form has 52 nibbles
instead of the 32 of the name `handlePTRQuery` looks up. -/
theorem reverseIP_loopback_has_52_nibbles :
    IP.String [0, 0, 0, 0, 0, 0, 0, 0, 0, 0, 0, 0, 0, 0, 0, 1] = "::1" ∧
    ReverseIP "::1" = some (String.ofList (['.'].intercalate (['1'] :: List.replicate 51 ['0']))) ∧
    String.ofList (['.'].intercalate (['1'] :: List.replicate 51 ['0'])) ≠
      String.ofList (['.'].intercalate (['1'] :: List.replicate 31 ['0'])) := by
  refine ⟨by decide, by decide, ?_⟩
  intro h
  have := congrArg (fun s : String => s.toList.length) h
  simp at this

end Libnetwork.Netutils
