import Libnetwork.Support.BigEndian

/-!
# The `u32` match of `iptables`

The expressions of the `u32` match, as `iptables` reads its argument and the
kernel tests a packet with them.  A test reads the 32-bit big-endian word at
a position of the packet, works on it with `&`, `<<`, `>>` and `@` (which
moves on by the value and reads the word at a number past it), and compares
the value with a list of ranges; an expression is tests joined by `&&`, and a
packet matches when every test succeeds.  A read past the end of the packet
makes the test fail.

The reader follows the one of `iptables`: blanks are skipped between
tokens, at most ten numbers, ten ranges and ten tests are allowed, and a
number is read as `strtoul` reads one in base 0 (hex after `0x`, octal after
a leading `0`, decimal otherwise), without a sign.  Shifts take their count
modulo 32, as the kernel's shifts do on the machines it runs on.
-/

namespace U32Match

/-- The operator before a number of a location. -/
inductive Op
  | And
  | LeftShift
  | RightShift
  | At
  deriving DecidableEq, Repr

/-- One test: the first position, the operators with their numbers, and
the ranges of values that pass. -/
structure Test where
  first : UInt32
  ops : List (Op × UInt32)
  ranges : List (UInt32 × UInt32)
  deriving DecidableEq, Repr

/-! ## Testing a packet -/

/-- The word at `pos`, `none` unless four bytes are there. -/
def word (pkt : List UInt8) (pos : ℕ) : Option UInt32 :=
  if pos + 4 ≤ pkt.length then some (UInt32.ofNat (BigEndian.ofBytes ((pkt.drop pos).take 4)))
  else none

/-- The operators from the base `base` and the value `val`. -/
def evalOps (pkt : List UInt8) : List (Op × UInt32) → ℕ → UInt32 → Option UInt32
  | [], _, val => some val
  | (.And, n) :: ops, base, val => evalOps pkt ops base (val &&& n)
  | (.LeftShift, n) :: ops, base, val => evalOps pkt ops base (val <<< n)
  | (.RightShift, n) :: ops, base, val => evalOps pkt ops base (val >>> n)
  | (.At, n) :: ops, base, val =>
      let base := base + val.toNat
      -- the kernel's checks that the base and the word after it do not wrap
      if base ≥ 2 ^ 32 ∨ base + 4 ≥ 2 ^ 32 then none
      else
        match word pkt (base + n.toNat) with
        | none => none
        | some val => evalOps pkt ops base val

/-- The value a test computes, `none` when a read falls outside. -/
def Test.value (t : Test) (pkt : List UInt8) : Option UInt32 :=
  match word pkt t.first.toNat with
  | none => none
  | some val => evalOps pkt t.ops 0 val

/-- A test succeeds when its value is in one of its ranges. -/
def Test.Matches (t : Test) (pkt : List UInt8) : Bool :=
  match t.value pkt with
  | none => false
  | some val => t.ranges.any fun r => r.1 ≤ val && val ≤ r.2

/-- A packet matches an expression when it passes each of its tests. -/
def Matches (tests : List Test) (pkt : List UInt8) : Bool :=
  tests.all (·.Matches pkt)

/-! ## Reading an expression -/

/-- `isspace`. -/
def isSpace (c : Char) : Bool :=
  c == ' ' || c == '\t' || c == '\n' || c == '\r' || c.toNat == 11 || c.toNat == 12

/-- The value of a digit in base 16, and of the digits below a smaller base. -/
def digitValue (c : Char) : Option ℕ :=
  if '0' ≤ c ∧ c ≤ '9' then some (c.toNat - '0'.toNat)
  else if 'a' ≤ c ∧ c ≤ 'f' then some (c.toNat - 'a'.toNat + 10)
  else if 'A' ≤ c ∧ c ≤ 'F' then some (c.toNat - 'A'.toNat + 10)
  else none

/-- The digits of base `base` at the start of a text: their value from
`acc`, how many there are, and the text after them. -/
def spanDigits (base : ℕ) : List Char → ℕ → ℕ → ℕ × ℕ × List Char
  | [], acc, k => (acc, k, [])
  | c :: s, acc, k =>
      match digitValue c with
      | some d => if d < base then spanDigits base s (base * acc + d) (k + 1) else (acc, k, c :: s)
      | none => (acc, k, c :: s)

/-- A digit of base `base`. -/
def isDigitOf (base : ℕ) (c : Char) : Bool :=
  match digitValue c with
  | some d => d < base
  | none => false

/-- The digits `strtoul` reads in base 0: hex after `0x`, octal after a
leading `0`, decimal otherwise. -/
def strtoulDigits : List Char → ℕ × ℕ × List Char
  | '0' :: x :: c :: rest =>
      if (x == 'x' || x == 'X') && isDigitOf 16 c then spanDigits 16 (c :: rest) 0 0
      else spanDigits 8 ('0' :: x :: c :: rest) 0 0
  | '0' :: rest => spanDigits 8 ('0' :: rest) 0 0
  | s => spanDigits 10 s 0 0

/-- `parse_number`: a number of at most 32 bits, read as `strtoul` in base
0 reads one after blanks, and the text after it. -/
def readNumber (s : List Char) : Option (UInt32 × List Char) :=
  let (n, k, rest) := strtoulDigits (s.dropWhile isSpace)
  if k = 0 ∨ n ≥ 2 ^ 32 then none else some (UInt32.ofNat n, rest)

/-- `XT_U32_MAXSIZE`. -/
def maxSize : ℕ := 10

/-- The operator at the start of a location's next step. -/
def readOp : List Char → Option (Op × List Char)
  | '&' :: s => some (.And, s)
  | '<' :: '<' :: s => some (.LeftShift, s)
  | '>' :: '>' :: s => some (.RightShift, s)
  | '@' :: s => some (.At, s)
  | _ => none

/-- What the reader has of the test it is in: the first number, the
operators after it, the ranges, and whether it reads the ranges. -/
structure Reading where
  first : Option UInt32
  ops : List (Op × UInt32)
  ranges : List (UInt32 × UInt32)
  values : Bool

/-- A test with nothing read yet. -/
def Reading.empty : Reading := ⟨none, [], [], false⟩

/-- The test read, once it has a number and a range. -/
def Reading.test (r : Reading) : Option Test :=
  match r.first with
  | some first => if r.ranges.isEmpty then none else some ⟨first, r.ops, r.ranges⟩
  | none => none

/-- The loop of `u32_parse`: the tests read so far, the one being read and
the text left; each turn takes at least one character. -/
def parseLoop : ℕ → List Test → Reading → List Char → Option (List Test)
  | 0, _, _, _ => none
  | fuel + 1, tests, r, s =>
      match s.dropWhile isSpace with
      | [] =>
          -- the end: only after a range
          if !r.values then none
          else
            match r.test with
            | none => none
            | some t => if tests.length + 1 > maxSize then none else some (tests ++ [t])
      | c :: rest =>
          if !r.values then
            if c == '=' then
              if r.first.isNone then none else parseLoop fuel tests { r with values := true } rest
            else
              match r.first with
              | none =>
                  match readNumber (c :: rest) with
                  | none => none
                  | some (n, s) => parseLoop fuel tests { r with first := some n } s
              | some _ =>
                  match readOp (c :: rest) with
                  | none => none
                  | some (op, s) =>
                      match readNumber s with
                      | none => none
                      | some (n, s) =>
                          if r.ops.length + 2 > maxSize then none
                          else parseLoop fuel tests { r with ops := r.ops ++ [(op, n)] } s
          else if c == '&' then
            match rest with
            | '&' :: s =>
                match r.test with
                | none => none
                | some t =>
                    if tests.length + 1 > maxSize then none
                    else parseLoop fuel (tests ++ [t]) Reading.empty s
            | _ => none
          else
            -- a range, after a comma unless it is the first
            let s? := if r.ranges.isEmpty then some (c :: rest)
              else if c == ',' then some rest else none
            match s? with
            | none => none
            | some s =>
                match readNumber s with
                | none => none
                | some (lo, s) =>
                    let s := s.dropWhile isSpace
                    let hi? := match s with
                      | ':' :: s => readNumber s
                      | _ => some (lo, s)
                    match hi? with
                    | none => none
                    | some (hi, s) =>
                        if r.ranges.length + 1 > maxSize then none
                        else parseLoop fuel tests { r with ranges := r.ranges ++ [(lo, hi)] } s

/-- The tests of a `u32` argument, `none` where `iptables` rejects it. -/
def parse (s : List Char) : Option (List Test) :=
  parseLoop (s.length + 1) [] Reading.empty s

example : parse "0>>22&0x3C@12&0xFFFFFF00=256".toList =
    some [⟨0, [(.RightShift, 22), (.And, 0x3C), (.At, 12), (.And, 0xFFFFFF00)], [(256, 256)]⟩] := by
  decide

/-! ## Numerals -/

theorem toNat_of_isDigit {c : Char} (h : c.isDigit = true) : 48 ≤ c.toNat ∧ c.toNat ≤ 57 := by
  simp only [Char.isDigit, Bool.and_eq_true, decide_eq_true_eq, UInt32.le_iff_toNat_le,
    ge_iff_le] at h
  have h0 : '0'.val.toNat = 48 := rfl
  have h9 : '9'.val.toNat = 57 := rfl
  simp only [Char.toNat]
  omega

theorem digitValue_of_isDigit {c : Char} (h : c.isDigit = true) :
    digitValue c = some (c.toNat - '0'.toNat) := by
  have h' : '0' ≤ c ∧ c ≤ '9' := by
    simp only [Char.isDigit, Bool.and_eq_true, decide_eq_true_eq] at h
    exact ⟨h.1, h.2⟩
  simp [digitValue, h']

theorem spanDigits_of_isDigit (ds : List Char) (hds : ∀ c ∈ ds, c.isDigit = true) (acc k : ℕ) :
    spanDigits 10 ds acc k = (Nat.ofDigitChars 10 ds acc, k + ds.length, []) := by
  induction ds generalizing acc k with
  | nil => simp [spanDigits]
  | cons c ds ih =>
      have hc := hds c (List.mem_cons_self ..)
      have hlt : c.toNat - '0'.toNat < 10 := by
        have := toNat_of_isDigit hc
        have h0 : '0'.toNat = 48 := rfl
        omega
      rw [spanDigits, digitValue_of_isDigit hc]
      dsimp only
      rw [if_pos hlt, ih (fun c hc => hds c (List.mem_cons_of_mem _ hc)), Nat.ofDigitChars_cons,
        List.length_cons, Nat.add_assoc, Nat.add_comm 1]

theorem isSpace_of_isDigit {c : Char} (hc : c.isDigit = true) : isSpace c = false := by
  have hb := toNat_of_isDigit hc
  simp only [isSpace, Bool.or_eq_false_iff, beq_eq_false_iff_ne, ne_eq]
  refine ⟨⟨⟨⟨⟨?_, ?_⟩, ?_⟩, ?_⟩, ?_⟩, ?_⟩
  all_goals first
    | (rintro rfl; simp at hb)
    | omega

theorem toDigits_head_ne_zero {n : ℕ} (hn : 0 < n) {c : Char} {cs : List Char}
    (h : Nat.toDigits 10 n = c :: cs) : c ≠ '0' := by
  induction n using Nat.strong_induction_on generalizing cs with
  | _ n ih =>
      rw [Nat.toDigits_eq_if (by decide)] at h
      split at h
      · obtain ⟨rfl, -⟩ := List.cons.inj h
        simpa using hn.ne'
      · next hge =>
          obtain ⟨c', cs', hcs⟩ := List.exists_cons_of_ne_nil (Nat.toDigits_ne_nil (b := 10) (n := n / 10))
          rw [hcs, List.cons_append] at h
          obtain ⟨rfl, -⟩ := List.cons.inj h
          exact ih (n / 10) (by omega) (by omega) hcs

theorem readNumber_toDigits {n : ℕ} (hn : n < 2 ^ 32) :
    readNumber (Nat.toDigits 10 n) = some (UInt32.ofNat n, []) := by
  have hdig : ∀ c ∈ Nat.toDigits 10 n, c.isDigit = true := fun c hc =>
    Nat.isDigit_of_mem_toDigits (by decide) (by decide) hc
  have hspan := spanDigits_of_isDigit _ hdig
  obtain ⟨c, cs, hcs⟩ := List.exists_cons_of_ne_nil (Nat.toDigits_ne_nil (b := 10) (n := n))
  have hc : c.isDigit = true := hdig c (hcs ▸ List.mem_cons_self ..)
  have hspace := isSpace_of_isDigit hc
  rcases Nat.eq_zero_or_pos n with rfl | hpos
  · rfl
  have hne := toDigits_head_ne_zero hpos hcs
  -- a numeral that does not start with `0` is read in base 10
  have hdec : strtoulDigits (c :: cs) = spanDigits 10 (c :: cs) 0 0 := by
    unfold strtoulDigits
    split
    · next heq => exact absurd (List.cons.inj heq).1 hne
    · next heq => exact absurd (List.cons.inj heq).1 hne
    · rfl
  unfold readNumber
  rw [hcs, List.dropWhile_cons_of_neg (by simp [hspace]), hdec, ← hcs, hspan,
    Nat.ofDigitChars_ten_toDigits]
  have hlen := Nat.length_toDigits_pos (b := 10) (n := n)
  simp only [Nat.zero_add, Nat.ne_of_gt hlen, false_or]
  rw [if_neg (Nat.not_le.mpr hn)]

/-! ## Reading the value of a test -/

/-- A test whose values are one number ends the expression after it: the
reader in its values mode, with no range yet, takes the number as the range
`v:v` and then the end. -/
theorem parseLoop_single_value {fuel : ℕ} {tests : List Test} {r : Reading} {first : UInt32}
    (hfirst : r.first = some first) (hvalues : r.values = true) (hranges : r.ranges = [])
    (hlen : tests.length < maxSize) {c : Char} {cs : List Char} {v : UInt32}
    (hc : c.isDigit = true) (hread : readNumber (c :: cs) = some (v, [])) :
    parseLoop (fuel + 2) tests r (c :: cs) = some (tests ++ [⟨first, r.ops, [(v, v)]⟩]) := by
  have hamp : (c == '&') = false := by
    have := toNat_of_isDigit hc
    rw [beq_eq_false_iff_ne]
    rintro rfl
    simp at this
  have hmax : ¬ tests.length + 1 > maxSize := by omega
  rw [parseLoop, List.dropWhile_cons_of_neg (by simp [isSpace_of_isDigit hc])]
  simp only [hvalues, Bool.not_true, Bool.false_eq_true, if_false, hamp, hranges,
    List.isEmpty_nil, if_true, hread, List.dropWhile_nil, List.length_nil, Nat.zero_add]
  rw [if_neg (by decide), parseLoop]
  simp only [List.dropWhile_nil, Bool.not_true, Bool.false_eq_true, if_false,
    Reading.test, hfirst, List.nil_append, List.isEmpty_cons, if_neg hmax]

end U32Match
