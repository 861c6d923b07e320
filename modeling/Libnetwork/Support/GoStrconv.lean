import Mathlib
import Libnetwork.Support.GoNet

/-!
# Go's `strconv`: `Atoi` and `Quote`

`Atoi` reads a decimal `int` of 64 bits: an optional sign, at least one
digit and nothing else, of a value in `[-2^63, 2^63 - 1]`.  Go answers a
syntax error or a range error; only that there was an error is kept.

`Quote` writes a string as a Go string literal, as `%q` prints it: the
double quote and the backslash escaped, the control characters of ASCII and
of Latin-1 escaped, every other character as it is.  Go also escapes the
non-ASCII characters that `unicode.IsPrint` rejects; those are kept here.
-/

namespace GoStrconv

/-- The value of the digits `s` read after the value `n` of those before. -/
def digitsValue (s : List Char) (n : ℕ) : Option ℕ :=
  s.foldl (fun acc c => acc.bind fun v => (GoNet.digitValue? c).map (10 * v + ·)) (some n)

/-- The sign of a number's text and the rest of it. -/
def splitSign : List Char → Bool × List Char
  | '-' :: s => (true, s)
  | '+' :: s => (false, s)
  | s => (false, s)

/-- `strconv.Atoi` with a 64-bit `int`. -/
def Atoi (s : List Char) : Option ℤ :=
  let (neg, digits) := splitSign s
  if digits.isEmpty then none
  else (digitsValue digits 0).bind fun n =>
    if neg then (if n ≤ 2 ^ 63 then some (-(n : ℤ)) else none)
    else if n < 2 ^ 63 then some (n : ℤ) else none

example : Atoi "-42".toList = some (-42) := by decide
example : Atoi "+7".toList = some 7 := by decide
example : Atoi "".toList = none := by decide
example : Atoi "4 2".toList = none := by decide
example : Atoi "9223372036854775808".toList = none := by decide

def backslash : Char := Char.ofNat 92

def doubleQuote : Char := Char.ofNat 34

/-- The two lowercase hex digits of a byte. -/
def hex2 (n : ℕ) : List Char := [Nat.digitChar (n / 16), Nat.digitChar (n % 16)]

/-- One character of `strconv.Quote`. -/
def quoteRune (c : Char) : List Char :=
  match c.toNat with
  | 7 => [backslash, 'a']
  | 8 => [backslash, 'b']
  | 9 => [backslash, 't']
  | 10 => [backslash, 'n']
  | 11 => [backslash, 'v']
  | 12 => [backslash, 'f']
  | 13 => [backslash, 'r']
  | 34 => [backslash, c]
  | 92 => [backslash, c]
  | n =>
      if n < 0x20 ∨ n = 0x7f then backslash :: 'x' :: hex2 n
      else if 0x80 ≤ n ∧ n < 0xa0 then backslash :: 'u' :: '0' :: '0' :: hex2 n
      else [c]

/-- `strconv.Quote`. -/
def Quote (s : String) : String :=
  String.ofList (doubleQuote :: s.toList.flatMap quoteRune ++ [doubleQuote])

example : (Quote "a\tb").toList = [doubleQuote, 'a', backslash, 't', 'b', doubleQuote] := by decide

end GoStrconv
