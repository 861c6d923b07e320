import Mathlib

/-!
# Go's `encoding/json`, over values

A JSON text as the value it denotes: the codecs of a program write values
and read them back, and the text between is left out.  An object keeps its
members in order; a reader that decodes it into a map or a struct takes the
last member of a key, and `lookup` reads it so.  Numbers are integers, which
is all the codecs here write.

`json.Unmarshal` into an `interface{}` reads every number as a `float64`,
the nearest binary64 value with ties to even, and reports a range error from
`2^1024` on.  `json.Marshal` of such a value writes a number that reads as
the same `float64` again; the value keeps the float's exact value for it.
Decoding into an `int` reads the number itself and rejects one outside
`int64`.  A type assertion that fails panics: the readers answer `none`
there, the call does not return.
-/

namespace GoJson

/-- A JSON value. -/
inductive Json where
  | null
  | bool (b : Bool)
  | num (n : ℤ)
  | str (s : String)
  | arr (elems : List Json)
  | obj (members : List (String × Json))
  deriving Repr

/-! ## Numbers as `float64` -/

/-- How many low binary digits of `n` go so that `p` remain; `fuel` bounds
the halvings, and `n` itself is enough. -/
def droppedDigits (p : ℕ) : ℕ → ℕ → ℕ
  | 0, _ => 0
  | fuel + 1, n => if n < 2 ^ p then 0 else droppedDigits p fuel (n / 2) + 1

/-- `n` rounded to `p` significant binary digits, to nearest and ties to
even, as a significand `q` and a scale `s`: the value `q * 2^s`. -/
def roundToDigits (p n : ℕ) : ℕ × ℕ :=
  let s := droppedDigits p n n
  let q := n / 2 ^ s
  let r := n % 2 ^ s
  -- past the half round up, and at the half to an even significand
  (if 2 * r > 2 ^ s ∨ (2 * r = 2 ^ s ∧ q % 2 = 1) then q + 1 else q, s)

/-- The number of binary digits of `n`. -/
def binaryDigits (n : ℕ) : ℕ := droppedDigits 0 n n

/-- The value of the `float64` nearest to `n`, `none` once it reaches
`2^1024`. -/
def float64OfInt (n : ℤ) : Option ℤ :=
  let (q, s) := roundToDigits 53 n.natAbs
  -- `q * 2^s` reaches `2^1024` when it has more than 1024 binary digits
  if binaryDigits q + s > 1024 then none else some (n.sign * (q * 2 ^ s))

/-- Go's `uint64(f)` of a `float64` value `f`: exact from `0` below `2^64`.
The source's conversion of any other value is implementation-dependent; the
model takes it modulo `2^64`. -/
def uint64OfFloat (f : ℤ) : UInt64 := UInt64.ofInt f

/-- Decoding a number into a Go `int` (64 bits): the number itself, `none`
outside the type. -/
def int64OfNumber? (n : ℤ) : Option ℤ :=
  if -2 ^ 63 ≤ n ∧ n < 2 ^ 63 then some n else none

theorem droppedDigits_of_lt {p n : ℕ} (h : n < 2 ^ p) : ∀ fuel, droppedDigits p fuel n = 0
  | 0 => rfl
  | _ + 1 => if_pos h

theorem roundToDigits_of_lt {p n : ℕ} (h : n < 2 ^ p) : roundToDigits p n = (n, 0) := by
  simp [roundToDigits, droppedDigits_of_lt h, Nat.mod_one]

theorem droppedDigits_zero_le : ∀ (fuel : ℕ) {p n : ℕ}, n < 2 ^ p → droppedDigits 0 fuel n ≤ p
  | 0, _, _, _ => Nat.zero_le _
  | fuel + 1, p, n, h => by
    rw [droppedDigits]
    split
    · exact Nat.zero_le _
    · -- `n` is positive, so it has a first digit and `n / 2` one digit less
      obtain ⟨p, rfl⟩ : ∃ q, p = q + 1 :=
        Nat.exists_eq_succ_of_ne_zero (by rintro rfl; omega)
      have hhalf : n / 2 < 2 ^ p := by
        rw [Nat.pow_succ] at h
        omega
      exact Nat.succ_le_succ (droppedDigits_zero_le fuel hhalf)

theorem binaryDigits_le {p n : ℕ} (h : n < 2 ^ p) : binaryDigits n ≤ p :=
  droppedDigits_zero_le n h

theorem float64OfInt_of_natAbs_lt {n : ℤ} (h : n.natAbs < 2 ^ 53) : float64OfInt n = some n := by
  have hdigits : binaryDigits n.natAbs ≤ 53 := binaryDigits_le h
  have hfinite : ¬ binaryDigits n.natAbs + 0 > 1024 := by omega
  simp only [float64OfInt, roundToDigits_of_lt h, hfinite, if_false, Int.pow_zero, Int.mul_one,
    Int.sign_mul_natAbs]

/-- On a natural number the model's conversion is Go's `uint64` of an
integer, modulo `2^64`. -/
theorem uint64OfFloat_natCast (n : ℕ) : uint64OfFloat n = n.toUInt64 := by
  apply UInt64.toNat_inj.mp
  simp only [uint64OfFloat, UInt64.ofInt, UInt64.toNat_ofNat', Nat.toUInt64_eq]
  omega

theorem int64OfNumber?_of_natAbs_lt {n : ℤ} (h : n.natAbs < 2 ^ 63) : int64OfNumber? n = some n := by
  have hrange : -2 ^ 63 ≤ n ∧ n < 2 ^ 63 := by omega
  rw [int64OfNumber?, if_pos hrange]

/-! ## Byte slices -/

def base64Alphabet : List Char :=
  "ABCDEFGHIJKLMNOPQRSTUVWXYZabcdefghijklmnopqrstuvwxyz0123456789+/".toList

/-- The base64 character of the low six bits of `v`. -/
def base64Char (v : UInt8) : Char := base64Alphabet.getD (v &&& 63).toNat '='

/-- The standard base64 text of some bytes: three bytes to four characters,
padded with `=`. -/
def base64 : List UInt8 → List Char
  | a :: b :: c :: rest =>
      [base64Char (a >>> 2), base64Char (((a &&& 3) <<< 4) ||| (b >>> 4)),
        base64Char (((b &&& 15) <<< 2) ||| (c >>> 6)), base64Char c] ++ base64 rest
  | [a, b] =>
      [base64Char (a >>> 2), base64Char (((a &&& 3) <<< 4) ||| (b >>> 4)),
        base64Char ((b &&& 15) <<< 2), '=']
  | [a] => [base64Char (a >>> 2), base64Char ((a &&& 3) <<< 4), '=', '=']
  | [] => []

example : String.ofList (base64 [255, 255, 255, 0]) = "////AA==" := by decide

/-- A `[]byte` as `json.Marshal` writes it: its base64 text, `null` for a nil
slice. -/
def bytesJson (b : List UInt8) : Json :=
  if b.isEmpty then .null else .str (String.ofList (base64 b))

/-! ## Decoding -/

/-- `json.UnmarshalTypeError`: a value of kind `Value` for the Go type
named `TypeName` (the source's `Type`, a keyword here), at the field path
`Field` of the struct `Struct` when it is a field. -/
structure UnmarshalTypeError where
  Value : String
  TypeName : String
  Struct : String
  Field : String
  deriving DecidableEq, Repr

def UnmarshalTypeError.Error (e : UnmarshalTypeError) : String :=
  if e.Struct != "" || e.Field != "" then
    "json: cannot unmarshal " ++ e.Value ++ " into Go struct field " ++ e.Struct ++ "." ++
      e.Field ++ " of type " ++ e.TypeName
  else "json: cannot unmarshal " ++ e.Value ++ " into Go value of type " ++ e.TypeName

/-- The kind of a value, as `UnmarshalTypeError` names it. -/
def Json.kind : Json → String
  | .null => "null"
  | .bool _ => "bool"
  | .num _ => "number"
  | .str _ => "string"
  | .arr _ => "array"
  | .obj _ => "object"

mutual

/-- A value decoded into an `interface{}`: its numbers read as `float64`. -/
def Json.toInterface : Json → Except UnmarshalTypeError Json
  | .num n =>
      match float64OfInt n with
      | some f => .ok (.num f)
      | none => .error ⟨"number " ++ toString n, "float64", "", ""⟩
  | .arr elems => (toInterfaceElems elems).map .arr
  | .obj members => (toInterfaceMembers members).map .obj
  | j => .ok j

/-- `Json.toInterface` of each element. -/
def toInterfaceElems : List Json → Except UnmarshalTypeError (List Json)
  | [] => .ok []
  | j :: rest => do
      let j ← j.toInterface
      let rest ← toInterfaceElems rest
      return j :: rest

/-- `Json.toInterface` of each member's value. -/
def toInterfaceMembers :
    List (String × Json) → Except UnmarshalTypeError (List (String × Json))
  | [] => .ok []
  | (k, j) :: rest => do
      let j ← j.toInterface
      let rest ← toInterfaceMembers rest
      return (k, j) :: rest

end

/-- `json.Unmarshal` into a `map[string]interface{}`: the members of an
object, read as `interface{}` values; `null` leaves the map empty. -/
def decodeMap : Json → Except UnmarshalTypeError (List (String × Json))
  | .null => .ok []
  | .obj members => toInterfaceMembers members
  | j => .error ⟨j.kind, "map[string]interface \x7b\x7d", "", ""⟩

/-- `json.Unmarshal` into a struct of type `goType`: the members of an
object; `null` leaves every field zero. -/
def decodeStruct (goType : String) : Json → Except UnmarshalTypeError (List (String × Json))
  | .null => .ok []
  | .obj members => .ok members
  | j => .error ⟨j.kind, goType, "", ""⟩

/-- The value a decoded map or struct holds for `key`: the last member of
the key. -/
def lookup (members : List (String × Json)) (key : String) : Option Json :=
  members.foldl (fun found m => if m.1 == key then some m.2 else found) none

/-- A `string` field of the struct `struct` at path `path`: zero when the
member is missing or `null`. -/
def stringField (struct path : String) (members : List (String × Json)) (field : String) :
    Except UnmarshalTypeError String :=
  match lookup members field with
  | none | some .null => .ok ""
  | some (.str s) => .ok s
  | some j => .error ⟨j.kind, "string", struct, path ++ field⟩

/-- An `int` field of the struct `struct` at path `path`: zero when the
member is missing or `null`. -/
def intField (struct path : String) (members : List (String × Json)) (field : String) :
    Except UnmarshalTypeError ℤ :=
  match lookup members field with
  | none | some .null => .ok 0
  | some (.num n) =>
      match int64OfNumber? n with
      | some n => .ok n
      | none => .error ⟨"number " ++ toString n, "int", struct, path ++ field⟩
  | some j => .error ⟨j.kind, "int", struct, path ++ field⟩

/-- The type assertion `v.(string)` on a map's value; `none` where it
panics. -/
def asString : Option Json → Option String
  | some (.str s) => some s
  | _ => none

/-- The type assertion `v.(float64)`. -/
def asFloat64 : Option Json → Option ℤ
  | some (.num f) => some f
  | _ => none

/-- The type assertion `v.(bool)`. -/
def asBool : Option Json → Option Bool
  | some (.bool b) => some b
  | _ => none

@[simp]
theorem lookup_nil (key : String) : lookup [] key = none := rfl

theorem lookup_append_cons_of_not_mem {members : List (String × Json)} {key : String}
    {v : Json} {rest : List (String × Json)} (hrest : ∀ m ∈ rest, m.1 ≠ key) :
    lookup (members ++ (key, v) :: rest) key = some v := by
  have hfold : ∀ (found : Option Json) (ms : List (String × Json)), (∀ m ∈ ms, m.1 ≠ key) →
      ms.foldl (fun found m => if m.1 == key then some m.2 else found) found = found := by
    intro found ms hms
    induction ms generalizing found with
    | nil => rfl
    | cons m ms ih =>
      have hm : (m.1 == key) = false := beq_false_of_ne (hms m (by simp))
      simp only [List.foldl_cons, hm, Bool.false_eq_true, if_false]
      exact ih found fun m' hm' => hms m' (List.mem_cons_of_mem _ hm')
  simp only [lookup, List.foldl_append, List.foldl_cons, beq_self_eq_true, if_true]
  exact hfold _ rest hrest

end GoJson
