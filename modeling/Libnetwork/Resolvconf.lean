import Libnetwork.Support.Regex
import Libnetwork.Support.GoNet

/-!
# resolv.conf

`resolvconf/resolvconf.go`: the readers of the nameservers, search domains
and options of a resolv.conf, the filter that drops loopback and, without
IPv6, IPv6 nameservers, and the writer `Build`.  The regular expressions are
the source's, written as patterns; their groups are numbered in the order of
their opening parentheses, as Go numbers them.  The content is a list of
characters, and the hash that comes with a file is left out.

The readers take a line as `^\s*nameserver\s*<address>\s*$` after cutting it
at its first `#`; the filter removes, from the whole content, matches of
`(?m)^nameserver\s+<loopback>\s*\n*`, which start at the first column.
-/

namespace Libnetwork.Resolvconf

open Regex Regex.Pattern

/-! ## The patterns -/

/-- `[c₁-c₂]`. -/
def range (c₁ c₂ : Char) : Pattern := .char fun c => c₁ ≤ c ∧ c ≤ c₂

/-- `[0-9]`. -/
def digit : Pattern := range '0' '9'

/-- `[0-9A-Fa-f]`. -/
def hexDigit : Pattern := .char fun c => c.isDigit || ('A' ≤ c ∧ c ≤ 'F') || ('a' ≤ c ∧ c ≤ 'f')

/-- `\s`. -/
def space : Pattern := .char Regex.isSpace

/-- `ipv4NumBlock`, `(25[0-5]|2[0-4][0-9]|[01]?[0-9][0-9]?)`, as group `i`. -/
def ipv4NumBlock (i : ℕ) : Pattern :=
  .group i (.alt (.seq (lit "25") (range '0' '5'))
    (.alt (seqs [lit "2", range '0' '4', digit])
      (seqs [opt (.char fun c => c == '0' || c == '1'), digit, opt digit])))

/-- `ipv4Address`, `(<ipv4NumBlock>\.){3}<ipv4NumBlock>`, its groups from `i`. -/
def ipv4Address (i : ℕ) : Pattern :=
  .seq (Pattern.repeat (.group i (.seq (ipv4NumBlock (i + 1)) (lit "."))) 3 0) (ipv4NumBlock (i + 2))

/-- `ipv6Address`, `([0-9A-Fa-f]{0,4}:){2,7}([0-9A-Fa-f]{0,4})(%\w+)?`, its
groups from `i`. -/
def ipv6Address (i : ℕ) : Pattern :=
  seqs [Pattern.repeat (.group i (.seq (Pattern.repeat hexDigit 0 4) (lit ":"))) 2 5,
    .group (i + 1) (Pattern.repeat hexDigit 0 4),
    opt (.group (i + 2) (.seq (lit "%") (plus (.char isWord))))]

/-- `dns.IPLocalhost`, `((127\.([0-9]{1,3}\.){2}[0-9]{1,3})|(::1)$)`, its
groups from `i`; its `$` in the multi-line mode of the pattern it is put in. -/
def IPLocalhost (i : ℕ) (multiline : Bool) : Pattern :=
  .group i (.alt
    (.group (i + 1) (seqs [lit "127.", Pattern.repeat (.group (i + 2)
      (.seq (Pattern.repeat digit 1 2) (lit "."))) 2 0, Pattern.repeat digit 1 2]))
    (.seq (.group (i + 3) (lit "::1")) (.lineEnd multiline)))

/-- `localhostNSRegexp`, `(?m)^nameserver\s+<IPLocalhost>\s*\n*`. -/
def localhostNSRegexp : Pattern :=
  seqs [.lineStart true, lit "nameserver", plus space, IPLocalhost 1 true, .star space,
    .star (.char (· == '\n'))]

/-- `nsIPv6Regexp`, `(?m)^nameserver\s+<ipv6Address>\s*\n*`. -/
def nsIPv6Regexp : Pattern :=
  seqs [.lineStart true, lit "nameserver", plus space, ipv6Address 1, .star space,
    .star (.char (· == '\n'))]

/-- `nsRegexp`, `^\s*nameserver\s*((<ipv4Address>)|(<ipv6Address>))\s*$`. -/
def nsRegexp : Pattern :=
  seqs [.lineStart false, .star space, lit "nameserver", .star space,
    .group 1 (.alt (.group 2 (ipv4Address 3)) (.group 6 (ipv6Address 7))), .star space,
    .lineEnd false]

/-- `nsIPv6Regexpmatch`, `^\s*nameserver\s*((<ipv6Address>))\s*$`. -/
def nsIPv6Regexpmatch : Pattern :=
  seqs [.lineStart false, .star space, lit "nameserver", .star space,
    .group 1 (.group 2 (ipv6Address 3)), .star space, .lineEnd false]

/-- `nsIPv4Regexpmatch`, `^\s*nameserver\s*((<ipv4Address>))\s*$`. -/
def nsIPv4Regexpmatch : Pattern :=
  seqs [.lineStart false, .star space, lit "nameserver", .star space,
    .group 1 (.group 2 (ipv4Address 3)), .star space, .lineEnd false]

/-- The pattern of a keyword line, `^\s*<keyword>\s*(([^\s]+\s*)*)$`. -/
def keywordRegexp (keyword : String) : Pattern :=
  seqs [.lineStart false, .star space, lit keyword, .star space,
    .group 1 (.star (.group 2 (.seq (plus (.char fun c => !Regex.isSpace c)) (.star space)))),
    .lineEnd false]

def searchRegexp : Pattern := keywordRegexp "search"

def optionsRegexp : Pattern := keywordRegexp "options"

/-! ## Reading -/

/-- `unicode.IsSpace`, the separators of `strings.Fields`. -/
def goIsSpace (c : Char) : Bool :=
  c == '\t' || c == '\n' || c.toNat == 11 || c.toNat == 12 || c == '\r' || c == ' ' ||
    c.toNat == 0x85 || c.toNat == 0xA0 || c.toNat == 0x1680 ||
    (0x2000 ≤ c.toNat && c.toNat ≤ 0x200a) || c.toNat == 0x2028 || c.toNat == 0x2029 ||
    c.toNat == 0x202f || c.toNat == 0x205f || c.toNat == 0x3000

/-- `strings.Fields`: the words between runs of blanks. -/
def fields (s : List Char) : List (List Char) :=
  (s.splitOnP goIsSpace).filter (· ≠ [])

/-- `getLines` with the marker `#`: the lines, each cut at its first `#`. -/
def getLines (input : List Char) : List (List Char) :=
  (input.splitOn '\n').map (List.takeWhile (· != '#'))

/-- The kinds of address `GetNameservers` reads: `types.IP`, `types.IPv4`,
`types.IPv6`. -/
inductive IPKind
  | IP
  | IPv4
  | IPv6
  deriving DecidableEq, Repr

/-- The pattern `GetNameservers` reads a line with. -/
def IPKind.regexp : IPKind → Pattern
  | .IP => nsRegexp
  | .IPv4 => nsIPv4Regexpmatch
  | .IPv6 => nsIPv6Regexpmatch

/-- `GetNameservers`: the address of each nameserver line. -/
def GetNameservers (resolvConf : List Char) (kind : IPKind) : List String :=
  (getLines resolvConf).filterMap fun line =>
    (findSubmatch line kind.regexp 1).map String.ofList

/-- The words of the last line a keyword pattern matches, none when no line
does. -/
def lastKeywordLine (r : Pattern) (resolvConf : List Char) : List String :=
  (getLines resolvConf).foldl (fun acc line =>
    match findSubmatch line r 1 with
    | none => acc
    | some words => (fields words).map String.ofList) []

/-- `GetSearchDomains`: the domains of the last search line. -/
def GetSearchDomains (resolvConf : List Char) : List String :=
  lastKeywordLine searchRegexp resolvConf

/-- `GetOptions`: the options of the last options line. -/
def GetOptions (resolvConf : List Char) : List String :=
  lastKeywordLine optionsRegexp resolvConf

/-! ## Filtering and writing -/

def defaultIPv4Dns : List String := ["nameserver 8.8.8.8", "nameserver 8.8.4.4"]

def defaultIPv6Dns : List String :=
  ["nameserver 2001:4860:4860::8888", "nameserver 2001:4860:4860::8844"]

/-- `FilterResolvDNS`: the content without the loopback nameservers, and
without the IPv6 ones unless IPv6 is enabled; the default nameservers when
none is left. -/
def FilterResolvDNS (resolvConf : List Char) (ipv6Enabled : Bool) : List Char :=
  let cleaned := replaceAll resolvConf localhostNSRegexp []
  let cleaned := if !ipv6Enabled then replaceAll cleaned nsIPv6Regexp [] else cleaned
  if (GetNameservers cleaned .IP).length = 0 then
    let dns := if ipv6Enabled then defaultIPv4Dns ++ defaultIPv6Dns else defaultIPv4Dns
    cleaned ++ ('\n' :: ("\n".intercalate dns).toList)
  else cleaned

example : FilterResolvDNS "nameserver 127.0.0.1\nnameserver 8.8.8.8\n".toList true =
    "nameserver 8.8.8.8\n".toList := by
  decide

/-- `strings.Trim(s, " ")`. -/
def trimSpaces (s : List Char) : List Char :=
  ((s.dropWhile (· == ' ')).reverse.dropWhile (· == ' ')).reverse

/-- `Build`: a search line, a nameserver line for each server and an
options line. -/
def Build (dns dnsSearch dnsOptions : List String) : List Char :=
  let searchString := (" ".intercalate dnsSearch).toList
  let search :=
    if dnsSearch.length > 0 ∧ trimSpaces searchString ≠ ['.'] then
      "search ".toList ++ searchString ++ ['\n']
    else []
  let servers := (dns.map fun d => "nameserver ".toList ++ d.toList ++ ['\n']).flatten
  let optsString := (" ".intercalate dnsOptions).toList
  let options :=
    if dnsOptions.length > 0 ∧ trimSpaces optsString ≠ [] then
      "options ".toList ++ optsString ++ ['\n']
    else []
  search ++ servers ++ options

example : GetNameservers "# x\nnameserver 10.0.0.2 # y\n nameserver\t2001:db8::1\n".toList .IP =
    ["10.0.0.2", "2001:db8::1"] := by
  decide

/-! ## What the filter and the readers disagree on -/

/-- A nameserver line indented by a blank is read by `GetNameservers` but
not removed by the filter, whose pattern starts at the first column: the
loopback server stays in the filtered file, with IPv6 enabled or not. -/
theorem filterResolvDNS_keeps_indented_loopback :
    GetNameservers " nameserver 127.0.0.1\n".toList .IP = ["127.0.0.1"] ∧
    ∀ ipv6Enabled, GetNameservers (FilterResolvDNS " nameserver 127.0.0.1\n".toList ipv6Enabled)
      .IP = ["127.0.0.1"] := by
  refine ⟨by decide, fun ipv6Enabled => ?_⟩
  cases ipv6Enabled <;> decide

/-- An IPv6 address written with seven groups and a leading `::` has eight
colons, one more than `ipv6Address` allows: `Build` writes its nameserver
line and `GetNameservers` does not read it back. -/
theorem build_nameserver_not_read_back :
    (GoNet.ParseIP "::1:2:3:4:5:6:7".toList).isSome = true ∧
    Build ["::1:2:3:4:5:6:7"] [] [] = "nameserver ::1:2:3:4:5:6:7\n".toList ∧
    GetNameservers (Build ["::1:2:3:4:5:6:7"] [] []) .IP = [] := by
  refine ⟨by decide, by decide, by decide⟩

end Libnetwork.Resolvconf
