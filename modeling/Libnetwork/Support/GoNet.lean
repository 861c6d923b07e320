import Mathlib

/-!
# Go's `net` addresses

The part of Go's `net` package (Go 1.18) that addresses and networks go
through: an `IP` is a byte slice of length 4 or 16, an `IPMask` a byte
slice, and an `IPNet` the two together.  A nil slice is the empty list:
every function here reads a nil slice as one of length zero, as Go does.
`ParseIP` and `ParseCIDR` read an IPv4 address as the 16-byte IPv4-in-IPv6
form and put the 4-byte form in the network; `String` prints an address
that has a 4-byte form in dotted decimal and any other 16-byte address in
hex groups, the longest run of at least two zero groups (the first of equal
runs) written `::`.

Text is a list of characters.  Go scans bytes; the characters these
functions test for (digits, hex digits, `.`, `:`, `/`) are ASCII, and the
bytes of any other character are none of them, so both readings accept the
same texts and stop at the same places.
-/

namespace GoNet

/-- `net.IP`. -/
abbrev IP := List UInt8

/-- `net.IPMask`. -/
abbrev IPMask := List UInt8

/-- `net.IPNet`. -/
structure IPNet where
  IP : IP
  Mask : IPMask
  deriving DecidableEq, Repr

def IPv4len : ℕ := 4

def IPv6len : ℕ := 16

/-- `v4InV6Prefix`: the first twelve bytes of an IPv4-mapped address. -/
def v4InV6Prefix : List UInt8 := [0, 0, 0, 0, 0, 0, 0, 0, 0, 0, 0xff, 0xff]

/-- `IPv4(a, b, c, d)`: the 16-byte form. -/
def IPv4 (a b c d : UInt8) : IP := v4InV6Prefix ++ [a, b, c, d]

/-- `IP.To4`: the 4-byte form of an IPv4 address, nil for any other. -/
def To4 (ip : IP) : IP :=
  if ip.length == IPv4len then ip
  else if ip.length == IPv6len && ip.take 12 == v4InV6Prefix then ip.drop 12
  else []

/-- `IP.Equal`: the same address, in either form. -/
def Equal (ip x : IP) : Bool :=
  if ip.length == x.length then ip == x
  else if ip.length == IPv4len && x.length == IPv6len then
    x.take 12 == v4InV6Prefix && ip == x.drop 12
  else if ip.length == IPv6len && x.length == IPv4len then
    ip.take 12 == v4InV6Prefix && ip.drop 12 == x
  else false

/-- The byte of `CIDRMask` with `n` leading ones, `n < 8`. -/
def partialMaskByte (n : ℕ) : UInt8 := ~~~((0xff : UInt8) >>> n.toUInt8)

/-- The bytes of `CIDRMask` from `n` remaining ones, `l` bytes long. -/
def cidrMaskBytes : ℕ → ℕ → List UInt8
  | 0, _ => []
  | l + 1, n =>
      if n ≥ 8 then 0xff :: cidrMaskBytes l (n - 8)
      else partialMaskByte n :: cidrMaskBytes l 0

/-- `CIDRMask(ones, bits)`: nil unless `bits` is 32 or 128 and
`ones ≤ bits`. -/
def CIDRMask (ones bits : ℕ) : IPMask :=
  if bits != 8 * IPv4len && bits != 8 * IPv6len then []
  else if ones > bits then []
  else cidrMaskBytes (bits / 8) ones

def allFF (b : List UInt8) : Bool := b.all (· == 0xff)

/-- `IP.Mask`: the address under the mask, nil when their lengths do not
fit. -/
def Mask (ip : IP) (mask : IPMask) : IP :=
  let mask :=
    if mask.length == IPv6len && ip.length == IPv4len && allFF (mask.take 12) then mask.drop 12
    else mask
  let ip :=
    if mask.length == IPv4len && ip.length == IPv6len && ip.take 12 == v4InV6Prefix then
      ip.drop 12
    else ip
  if ip.length ≠ mask.length then [] else List.zipWith (· &&& ·) ip mask

/-- The ones of a byte of a simple mask, read from the top bit, and whether
the rest of the byte is zero. -/
def leadingOnes (v : UInt8) : ℕ × Bool :=
  let n := (List.range 8).findIdx fun k => v &&& ((0x80 : UInt8) >>> k.toUInt8) == 0
  (n, v &&& ((0xff : UInt8) >>> n.toUInt8) == 0)

/-- `simpleMaskLength`: the number of leading ones of a mask that is ones
then zeros, `none` (the source's `-1`) for any other. -/
def simpleMaskLength : IPMask → Option ℕ
  | [] => some 0
  | v :: rest =>
      if v == 0xff then (simpleMaskLength rest).map (· + 8)
      else
        let (n, zeroTail) := leadingOnes v
        if zeroTail && rest.all (· == 0) then some n else none

/-- `IPMask.Size`: the ones and bits of a simple mask, `(0, 0)` for any
other. -/
def Size (m : IPMask) : ℕ × ℕ :=
  match simpleMaskLength m with
  | some ones => (ones, m.length * 8)
  | none => (0, 0)

/-! ## Reading text -/

/-- `big`: the bound past which `dtoi` and `xtoi` give up. -/
def big : ℕ := 0xFFFFFF

/-- The value of a decimal digit. -/
def digitValue? (c : Char) : Option ℕ :=
  if '0' ≤ c && c ≤ '9' then some (c.toNat - '0'.toNat) else none

/-- The value of a hex digit, in either case. -/
def hexValue? (c : Char) : Option ℕ :=
  if '0' ≤ c && c ≤ '9' then some (c.toNat - '0'.toNat)
  else if 'a' ≤ c && c ≤ 'f' then some (c.toNat - 'a'.toNat + 10)
  else if 'A' ≤ c && c ≤ 'F' then some (c.toNat - 'A'.toNat + 10)
  else none

/-- The loop of `dtoi` and `xtoi` in base `base`: the value so far `n` and
the characters consumed `i`; it stops at the first character that is no
digit, and gives up once the value reaches `big`, answering `onBig`. -/
def digitsLoop (digit : Char → Option ℕ) (base onBig : ℕ) :
    List Char → ℕ → ℕ → ℕ × ℕ × Bool
  | [], n, i => (n, i, i != 0)
  | c :: s, n, i =>
      match digit c with
      | none => (n, i, i != 0)
      | some d =>
          let n := n * base + d
          if n ≥ big then (onBig, i, false) else digitsLoop digit base onBig s n (i + 1)

/-- `dtoi`: the decimal number at the start of `s`, the characters it
takes, and whether there was one below `big`. -/
def dtoi (s : List Char) : ℕ × ℕ × Bool := digitsLoop digitValue? 10 big s 0 0

/-- `xtoi`: the hex number at the start of `s`. -/
def xtoi (s : List Char) : ℕ × ℕ × Bool := digitsLoop hexValue? 16 0 s 0 0

/-- The fields loop of `parseIPv4`: field `i` of four, the bytes read so
far. -/
def parseIPv4Loop : ℕ → List Char → List UInt8 → Option (List UInt8 × List Char)
  | 0, s, p => some (p, s)
  | k + 1, s, p =>
      if s.isEmpty then none
      else
        let s? := if p.isEmpty then some s
          else if s.head? == some '.' then some s.tail else none
        match s? with
        | none => none
        | some s =>
            let (n, c, ok) := dtoi s
            if !ok || n > 0xFF then none
            -- a field of more than one digit must not start with a zero
            else if c > 1 && s.head? == some '0' then none
            else parseIPv4Loop k (s.drop c) (p ++ [n.toUInt8])

/-- `parseIPv4`: four decimal fields separated by dots, in the 16-byte
form. -/
def parseIPv4 (s : List Char) : Option IP :=
  match parseIPv4Loop IPv4len s [] with
  | some ([a, b, c, d], []) => some (IPv4 a b c d)
  | _ => none

/-- The state of the groups loop of `parseIPv6`: the bytes written, the
position of the ellipsis, the text left. -/
structure IPv6Scan where
  bytes : List UInt8
  ellipsis : Option ℕ
  rest : List Char

/-- The groups loop of `parseIPv6`: each turn reads a hex group, or an
IPv4 tail, and the colon or double colon after it; `none` where the source
returns nil.  A turn writes at least two bytes, so eight turns reach the
sixteen bytes the loop runs to. -/
def parseIPv6Loop : ℕ → IPv6Scan → Option IPv6Scan
  | 0, st => some st
  | fuel + 1, st =>
      if st.bytes.length ≥ IPv6len then some st
      else
        let s := st.rest
        let i := st.bytes.length
        let (n, c, ok) := xtoi s
        if !ok || n > 0xFFFF then none
        else if (s.drop c).head? == some '.' then
          -- the IPv4 tail, only in the last four bytes or after an ellipsis
          if st.ellipsis.isNone && i != IPv6len - IPv4len then none
          else if i + IPv4len > IPv6len then none
          else
            match parseIPv4 s with
            | none => none
            | some ip4 => some ⟨st.bytes ++ ip4.drop 12, st.ellipsis, []⟩
        else
          let bytes := st.bytes ++ [(n / 256).toUInt8, n.toUInt8]
          let s := s.drop c
          match s with
          | [] => some ⟨bytes, st.ellipsis, []⟩
          | ':' :: s@(_ :: _) =>
              match s with
              | ':' :: s =>
                  if st.ellipsis.isSome then none
                  else if s.isEmpty then some ⟨bytes, some bytes.length, []⟩
                  else parseIPv6Loop fuel ⟨bytes, some bytes.length, s⟩
              | _ => parseIPv6Loop fuel ⟨bytes, st.ellipsis, s⟩
          | _ => none

/-- `parseIPv6`: hex groups with at most one `::` and an optional IPv4
tail. -/
def parseIPv6 (s : List Char) : Option IP :=
  let st : IPv6Scan :=
    match s with
    | ':' :: ':' :: s => ⟨[], some 0, s⟩
    | _ => ⟨[], none, s⟩
  if st.ellipsis.isSome && st.rest.isEmpty then some (List.replicate IPv6len 0)
  else
    match parseIPv6Loop 8 st with
    | none => none
    | some ⟨bytes, ellipsis, rest⟩ =>
        if !rest.isEmpty then none
        else if bytes.length < IPv6len then
          -- the ellipsis stands for the missing zero groups
          match ellipsis with
          | none => none
          | some e =>
              some (bytes.take e ++ List.replicate (IPv6len - bytes.length) 0 ++ bytes.drop e)
        else if ellipsis.isSome then none
        else some bytes

/-- `ParseIP`: the first `.` or `:` decides the family. -/
def ParseIP (s : List Char) : Option IP :=
  match s.find? fun c => c == '.' || c == ':' with
  | some '.' => parseIPv4 s
  | some _ => parseIPv6 s
  | none => none

/-- `ParseCIDR`: the address and its network, the address masked; `none`
for the source's error. -/
def ParseCIDR (s : String) : Option (IP × IPNet) :=
  let cs := s.toList
  match cs.findIdx? (· == '/') with
  | none => none
  | some k =>
      let addr := cs.take k
      let mask := cs.drop (k + 1)
      let (iplen, ip) := match parseIPv4 addr with
        | some ip => (IPv4len, some ip)
        | none => (IPv6len, parseIPv6 addr)
      let (n, i, ok) := dtoi mask
      match ip with
      | none => none
      | some ip =>
          if !ok || i != mask.length || n > 8 * iplen then none
          else
            let m := CIDRMask n (8 * iplen)
            some (ip, ⟨Mask ip m, m⟩)

/-! ## Writing text -/

/-- `hexString`: two lowercase hex digits per byte. -/
def hexString (b : List UInt8) : String :=
  String.ofList (b.flatMap fun v =>
    [Nat.digitChar (v.toNat / 16), Nat.digitChar (v.toNat % 16)])

/-- The search of `IP.String` for the longest run of zero groups, from byte
`i`, with the best run `(e0, e1)` so far. -/
def zeroRunLoop (p : IP) : ℕ → ℕ → ℕ × ℕ → ℕ × ℕ
  | 0, _, best => best
  | fuel + 1, i, (e0, e1) =>
      if i ≥ IPv6len then (e0, e1)
      else
        -- `j` ends the run of zero groups from `i`
        let j := i + 2 * ((List.range ((IPv6len - i) / 2)).findIdx fun g =>
          !(p.getD (i + 2 * g) 0 == 0 && p.getD (i + 2 * g + 1) 0 == 0))
        if j > i && j - i > e1 - e0 then zeroRunLoop p fuel (j + 2) (i, j)
        else zeroRunLoop p fuel (i + 2) (e0, e1)

/-- The groups of `IP.String` from byte `i`, with the run `(e0, e1)` written
`::`. -/
def groupsLoop (p : IP) (e0 e1 : ℕ) : ℕ → ℕ → List Char
  | 0, _ => []
  | fuel + 1, i =>
      if i ≥ IPv6len then []
      else if i = e0 then
        ':' :: ':' :: (if e1 ≥ IPv6len then [] else groupText p e1 ++ groupsLoop p e0 e1 fuel (e1 + 2))
      else (if i > 0 then [':'] else []) ++ groupText p i ++ groupsLoop p e0 e1 fuel (i + 2)
where
  groupText (p : IP) (i : ℕ) : List Char :=
    Nat.toDigits 16 ((p.getD i 0).toNat * 256 + (p.getD (i + 1) 0).toNat)

def IP.String (ip : IP) : String :=
  if ip.isEmpty then "<nil>"
  else
    let p4 := To4 ip
    if p4.length == IPv4len then
      ".".intercalate (p4.map fun b => toString b.toNat)
    else if ip.length != IPv6len then "?" ++ hexString ip
    else
      -- the longest run of zero groups, forgotten if it is a single group
      let (e0, e1) := zeroRunLoop ip 8 0 (IPv6len + 1, IPv6len + 1)
      let (e0, e1) := if e1 - e0 ≤ 2 then (IPv6len + 1, IPv6len + 1) else (e0, e1)
      String.ofList (groupsLoop ip e0 e1 8 0)

/-- `networkNumberAndMask`: the network's address in its short form and
the mask cut to it, `none` for the source's nil pair. -/
def networkNumberAndMask (n : IPNet) : Option (IP × IPMask) :=
  let ip := if (To4 n.IP).isEmpty then n.IP else To4 n.IP
  if (To4 n.IP).isEmpty && ip.length != IPv6len then none
  else if n.Mask.length == IPv4len then
    if ip.length != IPv4len then none else some (ip, n.Mask)
  else if n.Mask.length == IPv6len then
    some (ip, if ip.length == IPv4len then n.Mask.drop 12 else n.Mask)
  else none

/-- `IPNet.String`: the address and the prefix length, or the mask in hex
when it is not ones then zeros. -/
def IPNet.String (n : IPNet) : String :=
  match networkNumberAndMask n with
  | none => "<nil>"
  | some (nn, m) =>
      match simpleMaskLength m with
      | some l => IP.String nn ++ "/" ++ toString l
      | none => IP.String nn ++ "/" ++ hexString m

/-- `String` of a `*IPNet`: a nil one prints `<nil>`. -/
def ipNetPtrString : Option IPNet → String
  | none => "<nil>"
  | some n => n.String

def IPNet.Contains (n : IPNet) (ip : GoNet.IP) : Bool :=
  let ip := if (To4 ip).isEmpty then ip else To4 ip
  let (nn, m) := (networkNumberAndMask n).getD ([], [])
  ip.length == nn.length &&
    (List.zip (List.zip nn m) ip).all fun ((a, k), b) => a &&& k == b &&& k

example : (ParseCIDR "10.0.1.7/24").map (fun p => (p.2.IP, p.2.Mask)) =
    some ([10, 0, 1, 0], [255, 255, 255, 0]) := by
  decide

example : (ParseCIDR "2001:db8::/64").map (fun p => IPNet.String p.2) = some "2001:db8::/64" := by
  decide

example : (parseIPv6 "1:0:0:1:0:0:0:1".toList).map IP.String = some "1:0:0:1::1" := by
  decide

end GoNet
