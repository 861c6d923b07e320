import Mathlib

/-!
# The protocol buffers wire format

The wire format as the code that gogo/protobuf generates writes and reads it.
A varint holds an integer seven bits to a byte, lowest first, with the top bit
set on every byte but the last.  A field is a key, a varint holding the field
number and a wire type, and then its value: a varint (type 0), eight or four
fixed bytes (types 1 and 5), or a varint length followed by that many bytes
(type 2).

A generated `Unmarshal` is one loop over the fields of a buffer: it reads a
key, hands a field it knows to the field's reader and skips one it does not
know.  Its positions are Go `int`s and its lengths come off the wire, so the
sums it forms can pass `2^63` and wrap below zero; the generated code does not
test for that, and the slice or the index that follows panics.  A decoder
here answers `none` for such a panic and `some (.error e)` for an error it
returns.

The main results: a varint reads back as the value written
(`readVarint_encodeVarint`), `sov` counts the bytes of a varint
(`sov_eq_length`), and the loop reads a sequence of fields as an encoder
writes them, known fields into their values and unknown ones skipped
(`unmarshalLoop_wireField`, `unmarshalLoop_flatMap`).
-/

namespace Protobuf

/-- The errors a decoder returns. -/
inductive DecodeError
  | intOverflow
  | unexpectedEOF
  | invalidLength
  | endGroup
  | illegalTag
  | wrongWireType
  | illegalWireType
  deriving DecidableEq, Repr

/-- What a decoder comes to: `none` when it panics, else what it returns. -/
abbrev Decoded (α : Type) := Option (Except DecodeError α)

/-! ## Varints -/

/-- The loop of `encodeVarint`, with one turn of fuel for each byte but the
last. -/
def encodeVarintLoop : ℕ → UInt64 → List UInt8
  | fuel + 1, v =>
      if v ≥ (1 : UInt64) <<< 7 then (v &&& 0x7f ||| 0x80).toUInt8 :: encodeVarintLoop fuel (v >>> 7)
      else [v.toUInt8]
  | 0, v => [v.toUInt8]

/-- `encodeVarint`: nine turns take any 64-bit value below `2^7`. -/
def encodeVarint (v : UInt64) : List UInt8 := encodeVarintLoop 9 v

/-- The loop of `sov`: one for each seven bits of `x`, and at least one. -/
def sovLoop : ℕ → UInt64 → ℕ
  | fuel + 1, x => if x >>> 7 = 0 then 1 else sovLoop fuel (x >>> 7) + 1
  | 0, _ => 1

/-- `sov`: the number of bytes of the varint of `x`. -/
def sov (x : UInt64) : ℕ := sovLoop 9 x

/-- The loop that reads a varint, as every decoder writes it out: the shift is
tested before each byte, the byte's low seven bits are put in at the shift,
and a byte below `0x80` ends the varint. -/
def readVarintLoop : ℕ → UInt64 → List UInt8 → Except DecodeError (UInt64 × List UInt8)
  | shift, acc, bs =>
      if shift ≥ 64 then .error .intOverflow
      else
        match bs with
        | [] => .error .unexpectedEOF
        | b :: rest =>
            let acc := acc ||| ((b.toUInt64 &&& 0x7f) <<< shift.toUInt64)
            if b < 0x80 then .ok (acc, rest) else readVarintLoop (shift + 7) acc rest
termination_by structural _ _ bs => bs

/-- A varint read from the start of `bs`, with the bytes after it. -/
def readVarint (bs : List UInt8) : Except DecodeError (UInt64 × List UInt8) :=
  readVarintLoop 0 0 bs

section VarintBytes

theorem toNat_shiftRight_seven (v : UInt64) : (v >>> 7).toNat = v.toNat / 128 := by
  rw [UInt64.toNat_shiftRight]
  simp [Nat.shiftRight_eq_div_pow]

/-- The byte of a turn that is not the last: the low seven bits, and the top
bit. -/
theorem toNat_continuationByte (v : UInt64) :
    (v &&& 0x7f ||| 0x80).toUInt8.toNat = v.toNat % 128 + 128 := by
  have h7f : (0x7f : UInt64).toNat = 2 ^ 7 - 1 := rfl
  have h80 : (0x80 : UInt64).toNat = 2 ^ 7 * 1 := rfl
  have hlow : v.toNat % 2 ^ 7 < 2 ^ 7 := Nat.mod_lt _ (by decide)
  rw [UInt64.toNat_toUInt8, UInt64.toNat_or, UInt64.toNat_and, h7f,
    Nat.and_two_pow_sub_one_eq_mod, h80, Nat.or_comm, ← Nat.two_pow_add_eq_or_of_lt hlow]
  omega

theorem encodeVarintLoop_succ (fuel : ℕ) (v : UInt64) :
    encodeVarintLoop (fuel + 1) v =
      if v.toNat < 128 then [UInt8.ofNat v.toNat]
      else UInt8.ofNat (v.toNat % 128 + 128) :: encodeVarintLoop fuel (v >>> 7) := by
  rw [encodeVarintLoop]
  by_cases hv : v.toNat < 128
  · have hlt : ¬ v ≥ (1 : UInt64) <<< 7 := by
      rw [GE.ge, UInt64.le_iff_toNat_le, show ((1 : UInt64) <<< 7).toNat = 128 by decide]
      omega
    have hbyte : v.toUInt8 = UInt8.ofNat v.toNat := by
      apply UInt8.toNat_inj.mp
      rw [UInt64.toNat_toUInt8, UInt8.toNat_ofNat']
    rw [if_neg hlt, if_pos hv, hbyte]
  · have hge : v ≥ (1 : UInt64) <<< 7 := by
      rw [GE.ge, UInt64.le_iff_toNat_le, show ((1 : UInt64) <<< 7).toNat = 128 by decide]
      omega
    have hbyte : (v &&& 0x7f ||| 0x80).toUInt8 = UInt8.ofNat (v.toNat % 128 + 128) := by
      apply UInt8.toNat_inj.mp
      rw [toNat_continuationByte, UInt8.toNat_ofNat']
      omega
    rw [if_pos hge, if_neg hv, hbyte]

theorem encodeVarintLoop_of_lt {v : UInt64} (hv : v.toNat < 128) (fuel : ℕ) :
    encodeVarintLoop fuel v = [UInt8.ofNat v.toNat] := by
  cases fuel with
  | zero =>
      rw [encodeVarintLoop]
      apply congrArg (· :: [])
      apply UInt8.toNat_inj.mp
      rw [UInt64.toNat_toUInt8, UInt8.toNat_ofNat']
  | succ fuel => rw [encodeVarintLoop_succ, if_pos hv]

theorem length_encodeVarintLoop_pos (fuel : ℕ) (v : UInt64) :
    0 < (encodeVarintLoop fuel v).length := by
  cases fuel with
  | zero => simp [encodeVarintLoop]
  | succ fuel =>
      rw [encodeVarintLoop_succ]
      split <;> simp

theorem length_encodeVarintLoop_le (fuel : ℕ) (v : UInt64) :
    (encodeVarintLoop fuel v).length ≤ fuel + 1 := by
  induction fuel generalizing v with
  | zero => simp [encodeVarintLoop]
  | succ fuel ih =>
      rw [encodeVarintLoop]
      split_ifs
      · simp only [List.length_cons]
        have := ih (v >>> 7)
        omega
      · simp

theorem sovLoop_eq_length (fuel : ℕ) (x : UInt64) :
    sovLoop fuel x = (encodeVarintLoop fuel x).length := by
  induction fuel generalizing x with
  | zero => simp [sovLoop, encodeVarintLoop]
  | succ fuel ih =>
      have hshift : x >>> 7 = 0 ↔ x.toNat < 128 := by
        rw [← UInt64.toNat_inj, toNat_shiftRight_seven]
        simp only [UInt64.toNat_zero]
        omega
      rw [sovLoop, encodeVarintLoop_succ]
      by_cases hx : x.toNat < 128
      · rw [if_pos (hshift.mpr hx), if_pos hx]
        rfl
      · rw [if_neg (fun h => hx (hshift.mp h)), if_neg hx, List.length_cons, ih]

theorem sov_eq_length (x : UInt64) : sov x = (encodeVarint x).length :=
  sovLoop_eq_length 9 x

theorem encodeVarint_of_lt {v : UInt64} (hv : v.toNat < 128) :
    encodeVarint v = [UInt8.ofNat v.toNat] :=
  encodeVarintLoop_of_lt hv 9

end VarintBytes

section ReadVarint

/-- Bits below `shift` and a number below `2^(64 - shift)` put above them fit
in 64 bits. -/
theorem add_mul_two_pow_lt {a x s : ℕ} (hs : s ≤ 64) (ha : a < 2 ^ s) (hx : x < 2 ^ (64 - s)) :
    a + x * 2 ^ s < 2 ^ 64 := by
  have h := Nat.mul_le_mul_right (2 ^ s) hx
  rw [← Nat.pow_add, Nat.sub_add_cancel hs, Nat.succ_mul] at h
  omega

/-- Putting in the low seven bits of a byte at `shift` adds them there, when
the accumulator holds nothing from `shift` up and they fit in 64 bits. -/
theorem toNat_or_shiftLeft {acc : UInt64} {shift : ℕ} (b : UInt8) (hs : shift < 64)
    (hacc : acc.toNat < 2 ^ shift) (hfit : b.toNat % 128 * 2 ^ shift < 2 ^ 64) :
    (acc ||| ((b.toUInt64 &&& 0x7f) <<< shift.toUInt64)).toNat =
      acc.toNat + b.toNat % 128 * 2 ^ shift := by
  have h7f : (0x7f : UInt64).toNat = 2 ^ 7 - 1 := rfl
  have hshift : shift.toUInt64.toNat = shift := by
    rw [Nat.toUInt64_eq, UInt64.toNat_ofNat']
    exact Nat.mod_eq_of_lt (by omega)
  rw [UInt64.toNat_or, UInt64.toNat_shiftLeft, UInt64.toNat_and, UInt8.toNat_toUInt64, h7f,
    Nat.and_two_pow_sub_one_eq_mod, hshift, Nat.mod_eq_of_lt hs, Nat.shiftLeft_eq,
    Nat.mod_eq_of_lt hfit, Nat.or_comm, Nat.mul_comm, ← Nat.two_pow_add_eq_or_of_lt hacc]
  omega

theorem or_shiftLeft_eq_ofNat {acc : UInt64} {shift : ℕ} (b : UInt8) (hs : shift < 64)
    (hacc : acc.toNat < 2 ^ shift) (hfit : b.toNat % 128 < 2 ^ (64 - shift)) :
    acc ||| ((b.toUInt64 &&& 0x7f) <<< shift.toUInt64) =
      UInt64.ofNat (acc.toNat + b.toNat % 128 * 2 ^ shift) := by
  have hlow : b.toNat % 128 * 2 ^ shift < 2 ^ 64 := by
    have := add_mul_two_pow_lt (a := 0) (by omega) (Nat.two_pow_pos shift) hfit
    omega
  rw [← UInt64.toNat_inj, toNat_or_shiftLeft b hs hacc hlow, UInt64.toNat_ofNat',
    Nat.mod_eq_of_lt (add_mul_two_pow_lt (by omega) hacc hfit)]

theorem readVarintLoop_last {acc : UInt64} {shift : ℕ} {b : UInt8} (hs : shift < 64)
    (hacc : acc.toNat < 2 ^ shift) (hb : b.toNat < 128) (hfit : b.toNat < 2 ^ (64 - shift))
    (rest : List UInt8) :
    readVarintLoop shift acc (b :: rest) =
      .ok (UInt64.ofNat (acc.toNat + b.toNat * 2 ^ shift), rest) := by
  have hmod : b.toNat % 128 = b.toNat := Nat.mod_eq_of_lt hb
  rw [readVarintLoop, if_neg (by omega)]
  simp only
  rw [if_pos (UInt8.lt_iff_toNat_lt.mpr (by simpa using hb)),
    or_shiftLeft_eq_ofNat b hs hacc (by rw [hmod]; exact hfit), hmod]

/-- A byte with its top bit set adds its low bits and the read goes on seven
bits higher. -/
theorem readVarintLoop_continue {acc : UInt64} {shift : ℕ} {b : UInt8} (hs : shift < 64)
    (hacc : acc.toNat < 2 ^ shift) (hb : 128 ≤ b.toNat) (hfit : b.toNat % 128 < 2 ^ (64 - shift))
    (rest : List UInt8) :
    readVarintLoop shift acc (b :: rest) =
      readVarintLoop (shift + 7) (UInt64.ofNat (acc.toNat + b.toNat % 128 * 2 ^ shift)) rest := by
  rw [readVarintLoop, if_neg (by omega)]
  simp only
  rw [if_neg (fun h => by have := UInt8.lt_iff_toNat_lt.mp h; simp at this; omega),
    or_shiftLeft_eq_ofNat b hs hacc hfit]

/-- A value of at least `2^7` below `2^(64 - shift)` leaves room for one more
byte after `shift`, and its higher bits fit there. -/
theorem shift_add_seven_lt {v shift : ℕ} (hv : 128 ≤ v) (hfit : v < 2 ^ (64 - shift)) :
    shift + 7 < 64 ∧ v / 128 < 2 ^ (64 - (shift + 7)) := by
  have h7 : 7 < 64 - shift := by
    by_contra hle
    have : 2 ^ (64 - shift) ≤ 2 ^ 7 := Nat.pow_le_pow_right (by decide) (by omega)
    omega
  refine ⟨by omega, (Nat.div_lt_iff_lt_mul (by decide)).mpr ?_⟩
  rw [show (128 : ℕ) = 2 ^ 7 from rfl, ← Nat.pow_add, show 64 - (shift + 7) + 7 = 64 - shift by
    omega]
  exact hfit

/-- The reader takes back what a run of the encoder wrote from `shift` on: the
value lands in the accumulator above the bits already there, and the bytes
after the varint are left.  The value must fit above `shift`, and the fuel
must cover its bytes. -/
theorem readVarintLoop_encodeVarintLoop (rest : List UInt8) :
    ∀ (fuel : ℕ) (v acc : UInt64) (shift : ℕ), shift < 64 → acc.toNat < 2 ^ shift →
      v.toNat < 2 ^ (64 - shift) → v.toNat < 2 ^ (7 * (fuel + 1)) →
      readVarintLoop shift acc (encodeVarintLoop fuel v ++ rest) =
        .ok (UInt64.ofNat (acc.toNat + v.toNat * 2 ^ shift), rest) := by
  intro fuel
  induction fuel with
  | zero =>
      intro v acc shift hs hacc hfit hfuel
      have hv : v.toNat < 128 := by simpa using hfuel
      have hb : (UInt8.ofNat v.toNat).toNat = v.toNat := by
        rw [UInt8.toNat_ofNat']
        omega
      rw [encodeVarintLoop_of_lt hv, List.singleton_append,
        readVarintLoop_last hs hacc (by omega) (by omega), hb]
  | succ fuel ih =>
      intro v acc shift hs hacc hfit hfuel
      have hb : (UInt8.ofNat (v.toNat % 128 + 128)).toNat = v.toNat % 128 + 128 := by
        rw [UInt8.toNat_ofNat']
        omega
      by_cases hv : v.toNat < 128
      · rw [encodeVarintLoop_succ, if_pos hv, List.singleton_append,
          readVarintLoop_last hs hacc (by rw [UInt8.toNat_ofNat']; omega)
            (by rw [UInt8.toNat_ofNat']; omega),
          UInt8.toNat_ofNat', Nat.mod_eq_of_lt (by omega : v.toNat < 2 ^ 8)]
      · obtain ⟨hs7, hhigh⟩ := shift_add_seven_lt (by omega) hfit
        have hacc' : acc.toNat + v.toNat % 128 * 2 ^ shift < 2 ^ (shift + 7) := by
          have : v.toNat % 128 * 2 ^ shift ≤ 127 * 2 ^ shift :=
            Nat.mul_le_mul_right _ (by omega)
          rw [Nat.pow_add]
          omega
        have hfuel' : v.toNat / 128 < 2 ^ (7 * (fuel + 1)) := by
          refine (Nat.div_lt_iff_lt_mul (by decide)).mpr ?_
          rw [show (128 : ℕ) = 2 ^ 7 from rfl, ← Nat.pow_add]
          exact hfuel
        have hsplit : v.toNat * 2 ^ shift =
            v.toNat % 128 * 2 ^ shift + v.toNat / 128 * 2 ^ (shift + 7) := by
          rw [Nat.pow_add]
          nth_rewrite 1 [← Nat.mod_add_div v.toNat 128]
          ring
        rw [encodeVarintLoop_succ, if_neg hv, List.cons_append,
          readVarintLoop_continue hs hacc (by omega)
            (by
              rw [hb, show (v.toNat % 128 + 128) % 128 = v.toNat % 128 by omega]
              exact lt_of_le_of_lt (Nat.mod_le _ _) hfit),
          hb, show (v.toNat % 128 + 128) % 128 = v.toNat % 128 by omega]
        have hacc'' : (UInt64.ofNat (acc.toNat + v.toNat % 128 * 2 ^ shift)).toNat =
            acc.toNat + v.toNat % 128 * 2 ^ shift := by
          rw [UInt64.toNat_ofNat']
          exact Nat.mod_eq_of_lt (lt_of_lt_of_le hacc' (Nat.pow_le_pow_right (by decide) (by omega)))
        rw [ih (v >>> 7) _ (shift + 7) hs7 (by rw [hacc'']; exact hacc')
            (by rw [toNat_shiftRight_seven]; exact hhigh) (by rw [toNat_shiftRight_seven]; exact hfuel'),
          hacc'', toNat_shiftRight_seven, hsplit, Nat.add_assoc]

/-- A varint reads back as the value written, and the bytes after it are
left. -/
theorem readVarint_encodeVarint (v : UInt64) (rest : List UInt8) :
    readVarint (encodeVarint v ++ rest) = .ok (v, rest) := by
  have hv := v.toNat_lt
  rw [readVarint, encodeVarint, readVarintLoop_encodeVarintLoop rest 9 v 0 0 (by decide)
    (by decide) (by simpa using hv) (by omega)]
  simp

theorem readVarint_key {key : UInt8} (hkey : key < 0x80) (rest : List UInt8) :
    readVarint (key :: rest) = .ok (key.toUInt64, rest) := by
  have hk : key.toUInt64.toNat < 128 := by
    rw [UInt8.toNat_toUInt64]
    exact UInt8.lt_iff_toNat_lt.mp hkey
  have henc : encodeVarint key.toUInt64 = [key] := by
    rw [encodeVarint_of_lt hk]
    apply congrArg (· :: [])
    apply UInt8.toNat_inj.mp
    rw [UInt8.toNat_ofNat', UInt8.toNat_toUInt64]
    exact Nat.mod_eq_of_lt key.toNat_lt
  have := readVarint_encodeVarint key.toUInt64 rest
  rwa [henc, List.singleton_append] at this

theorem length_lt_of_readVarintLoop {shift : ℕ} {acc v : UInt64} :
    ∀ {bs rest : List UInt8}, readVarintLoop shift acc bs = .ok (v, rest) →
      rest.length < bs.length := by
  intro bs
  induction bs generalizing shift acc with
  | nil =>
      intro rest h
      rw [readVarintLoop] at h
      split at h <;> cases h
  | cons b bs ih =>
      intro rest h
      rw [readVarintLoop] at h
      split at h
      · cases h
      · simp only at h
        split at h
        · cases h
          simp
        · have := ih h
          simp only [List.length_cons]
          omega

theorem length_lt_of_readVarint {bs rest : List UInt8} {v : UInt64}
    (h : readVarint bs = .ok (v, rest)) : rest.length < bs.length :=
  length_lt_of_readVarintLoop h

end ReadVarint

/-! ## Lengths and positions -/

/-- `int(v)`: the 64 bits of `v` as a Go `int`. -/
def goInt (v : UInt64) : ℤ := (v.toNat : ℤ).bmod (2 ^ 64)

/-- `a + b` on Go `int`s, which wraps. -/
def goAdd (a b : ℤ) : ℤ := (a + b).bmod (2 ^ 64)

/-- Go on with `k` after a step that returned a value; a panic or an error
ends the decoder there. -/
def Decoded.andThen {α β : Type} (d : Decoded α) (k : α → Decoded β) : Decoded β :=
  match d with
  | none => none
  | some (.error e) => some (.error e)
  | some (.ok a) => k a

@[simp] theorem Decoded.andThen_ok {α β : Type} (a : α) (k : α → Decoded β) :
    Decoded.andThen (some (.ok a)) k = k a := rfl

@[simp] theorem Decoded.andThen_error {α β : Type} (e : DecodeError) (k : α → Decoded β) :
    Decoded.andThen (some (.error e)) k = some (.error e) := rfl

@[simp] theorem Decoded.andThen_none {α β : Type} (k : α → Decoded β) :
    Decoded.andThen none k = none := rfl

theorem Decoded.andThen_assoc {α β γ : Type} (d : Decoded α) (k : α → Decoded β)
    (k' : β → Decoded γ) :
    (d.andThen k).andThen k' = d.andThen fun a => (k a).andThen k' := by
  rcases d with _ | _ | _ <;> rfl

@[simp] theorem Decoded.andThen_ok_right {α : Type} (d : Decoded α) :
    d.andThen (fun a => some (.ok a)) = d := by
  rcases d with _ | _ | _ <;> rfl

theorem Decoded.andThen_congr {α β : Type} (d : Decoded α) {k k' : α → Decoded β}
    (h : ∀ a, k a = k' a) : d.andThen k = d.andThen k' := by
  rw [funext h]

theorem Decoded.andThen_eq_ok {α β : Type} {d : Decoded α} {k : α → Decoded β} {b : β} :
    d.andThen k = some (.ok b) ↔ ∃ a, d = some (.ok a) ∧ k a = some (.ok b) := by
  rcases d with _ | _ | a
  · simp
  · simp
  · simp

/-- The reader of a length-delimited value at position `iNdEx`, `dAtA` being
the buffer from there on: the length as an `int`, then the bytes it covers and
the bytes after them.  The end `iNdEx + length` is an `int` too: when it wraps
below zero it passes the test against the buffer's length, and the slice
`dAtA[iNdEx:postIndex]` panics. -/
def readLengthDelimited (iNdEx : ℕ) (dAtA : List UInt8) : Decoded (List UInt8 × List UInt8) :=
  match readVarint dAtA with
  | .error e => some (.error e)
  | .ok (len, rest) =>
      let length := goInt len
      let iNdEx := iNdEx + (dAtA.length - rest.length)
      if length < 0 then some (.error .invalidLength)
      else
        let postIndex := goAdd iNdEx length
        if postIndex > ↑(iNdEx + rest.length) then some (.error .unexpectedEOF)
        else if postIndex < iNdEx then none
        else some (.ok (rest.take length.toNat, rest.drop length.toNat))

/-! ## Skipping a field -/

mutual

/-- The loop of `skip`: the length of the field at the start of `dAtA`, its
key included, as a Go `int`.  The fuel bounds the calls and the turns of the
group loop; `skip` gives two for each byte. -/
def skipLoop : ℕ → List UInt8 → Decoded ℤ
  | 0, _ => none
  -- the loop is entered on a field that is there; else it panics as unreachable
  | _ + 1, [] => none
  | fuel + 1, dAtA@(_ :: _) =>
      match readVarint dAtA with
      | .error e => some (.error e)
      | .ok (wire, rest) =>
          let iNdEx : ℤ := ↑(dAtA.length - rest.length)
          match (wire &&& 7).toNat with
          | 0 =>
              match readVarint rest with
              | .error e => some (.error e)
              | .ok (_, rest') => some (.ok ↑(dAtA.length - rest'.length))
          | 1 => some (.ok (iNdEx + 8))
          | 2 =>
              match readVarint rest with
              | .error e => some (.error e)
              | .ok (len, rest') =>
                  let length := goInt len
                  if length < 0 then some (.error .invalidLength)
                  else some (.ok (goAdd ↑(dAtA.length - rest'.length) length))
          | 3 => skipGroup fuel dAtA iNdEx
          | 4 => some (.ok iNdEx)
          | 5 => some (.ok (iNdEx + 4))
          | _ => some (.error .illegalWireType)

/-- The loop of `skip` over the fields of a group, each from its key at
`start`, up to the end-group key. -/
def skipGroup : ℕ → List UInt8 → ℤ → Decoded ℤ
  | 0, _, _ => none
  | fuel + 1, dAtA, start =>
      -- the key is read at `dAtA[start]`, which panics below zero
      if start < 0 then none
      else
        match readVarint (dAtA.drop start.toNat) with
        | .error e => some (.error e)
        | .ok (innerWire, rest) =>
            if (innerWire &&& 7).toNat = 4 then some (.ok ↑(dAtA.length - rest.length))
            else
              (skipLoop fuel (dAtA.drop start.toNat)).andThen fun next =>
                skipGroup fuel dAtA (goAdd start next)

end

def skip (dAtA : List UInt8) : Decoded ℤ := skipLoop (2 * dAtA.length + 1) dAtA

/-! ## The loop of `Unmarshal` -/

/-- What a decoder does with a field it knows: put a varint into the message,
or hand the bytes of a length-delimited value to the field's reader, which
can fail in turn when it decodes them as a message. -/
inductive FieldReader (σ : Type)
  | varint (set : UInt64 → σ → σ)
  | lengthDelimited (set : List UInt8 → σ → Decoded σ)

variable {σ : Type}

/-- The wire type a decoder expects for a field it knows. -/
def FieldReader.wireType : FieldReader σ → ℕ
  | .varint _ => 0
  | .lengthDelimited _ => 2

/-- The loop of a generated `Unmarshal` over `dAtA`, the buffer from position
`iNdEx` on, with the fields it knows by number.  Each turn reads at least a
key, so as many turns as there are bytes take it to the end. -/
def unmarshalLoop (fields : ℕ → Option (FieldReader σ)) : ℕ → ℕ → σ → List UInt8 → Decoded σ
  | 0, _, m, _ => some (.ok m)
  | _ + 1, _, m, [] => some (.ok m)
  | fuel + 1, iNdEx, m, dAtA@(_ :: _) =>
      match readVarint dAtA with
      | .error e => some (.error e)
      | .ok (wire, rest) =>
          let fieldNum := (wire >>> 3).toUInt32.toInt32
          let wireType := (wire &&& 7).toNat
          let next := iNdEx + (dAtA.length - rest.length)
          if wireType = 4 then some (.error .endGroup)
          else if fieldNum ≤ 0 then some (.error .illegalTag)
          else
            match fields fieldNum.toNatClampNeg with
            | some (.varint set) =>
                if wireType ≠ 0 then some (.error .wrongWireType)
                else
                  match readVarint rest with
                  | .error e => some (.error e)
                  | .ok (v, rest') =>
                      unmarshalLoop fields fuel (next + (rest.length - rest'.length)) (set v m) rest'
            | some (.lengthDelimited set) =>
                if wireType ≠ 2 then some (.error .wrongWireType)
                else
                  (readLengthDelimited next rest).andThen fun (b, rest') =>
                    (set b m).andThen fun m =>
                      unmarshalLoop fields fuel (next + (rest.length - rest'.length)) m rest'
            | none =>
                -- the default case skips the field from its key on
                (skip dAtA).andThen fun skippy =>
                  if skippy < 0 then some (.error .invalidLength)
                  else if goAdd iNdEx skippy > ↑(iNdEx + dAtA.length) then
                    some (.error .unexpectedEOF)
                  -- a wrapped position is below the length, and the next key read panics
                  else if goAdd iNdEx skippy < 0 then none
                  else unmarshalLoop fields fuel (iNdEx + skippy.toNat) m (dAtA.drop skippy.toNat)

/-- `Unmarshal` into the zero message `zero`. -/
def unmarshal (fields : ℕ → Option (FieldReader σ)) (zero : σ) (dAtA : List UInt8) : Decoded σ :=
  unmarshalLoop fields dAtA.length 0 zero dAtA

/-! ## Reading what an encoder wrote -/

section Reading

theorem bmod_of_lt {x : ℤ} (h0 : 0 ≤ x) (h : x < 2 ^ 63) : x.bmod (2 ^ 64) = x := by
  rw [Int.bmod_def, Int.emod_eq_of_lt h0 (by omega)]
  split <;> omega

theorem goInt_of_lt {v : UInt64} (h : v.toNat < 2 ^ 63) : goInt v = v.toNat :=
  bmod_of_lt (by omega) (by exact_mod_cast h)

theorem goAdd_of_lt {a b : ℤ} (ha : 0 ≤ a) (hb : 0 ≤ b) (h : a + b < 2 ^ 63) : goAdd a b = a + b :=
  bmod_of_lt (by omega) h

theorem toNat_toUInt64_of_lt {n : ℕ} (h : n < 2 ^ 64) : n.toUInt64.toNat = n := by
  rw [Nat.toUInt64_eq, UInt64.toNat_ofNat']
  exact Nat.mod_eq_of_lt h

theorem wireType_key (key : UInt8) : (key.toUInt64 &&& 7).toNat = key.toNat % 8 := by
  have h7 : (7 : UInt64).toNat = 2 ^ 3 - 1 := rfl
  rw [UInt64.toNat_and, UInt8.toNat_toUInt64, h7, Nat.and_two_pow_sub_one_eq_mod]

theorem fieldNum_key {key : UInt8} (hk : key < 0x80) :
    (key.toUInt64 >>> 3).toUInt32.toInt32 = Int32.ofNat (key.toNat / 8) := by
  have hk' : key.toNat < 128 := UInt8.lt_iff_toNat_lt.mp hk
  have h : (key.toUInt64 >>> 3).toUInt32 = UInt32.ofNat (key.toNat / 8) := by
    apply UInt32.toNat_inj.mp
    rw [UInt64.toNat_toUInt32, UInt64.toNat_shiftRight, UInt32.toNat_ofNat', UInt8.toNat_toUInt64]
    simp [Nat.shiftRight_eq_div_pow]
  rw [h, UInt32.toInt32_ofNat']

theorem ofNat_le_zero_iff {n : ℕ} (hn : n < 2 ^ 31) : Int32.ofNat n ≤ 0 ↔ n = 0 := by
  rw [Int32.le_iff_toInt_le, Int32.toInt_ofNat_of_lt hn]
  simp

/-- A length-delimited value reads back as the bytes written, when the buffer
is short enough that no position wraps. -/
theorem readLengthDelimited_encode (iNdEx : ℕ) (b rest : List UInt8)
    (hlen : iNdEx + (encodeVarint b.length.toUInt64 ++ (b ++ rest)).length < 2 ^ 63) :
    readLengthDelimited iNdEx (encodeVarint b.length.toUInt64 ++ (b ++ rest)) =
      some (.ok (b, rest)) := by
  simp only [List.length_append] at hlen
  have hb : b.length.toUInt64.toNat = b.length := toNat_toUInt64_of_lt (by omega)
  have hgo : goInt b.length.toUInt64 = b.length := by
    rw [goInt_of_lt (by omega), hb]
  have hpos : iNdEx + ((encodeVarint b.length.toUInt64).length + (b.length + rest.length) -
      (b.length + rest.length)) = iNdEx + (encodeVarint b.length.toUInt64).length := by omega
  rw [readLengthDelimited, readVarint_encodeVarint]
  simp only [hgo, List.length_append, hpos]
  rw [if_neg (by omega), goAdd_of_lt (by omega) (by omega) (by push_cast; omega),
    if_neg (by push_cast; omega), if_neg (by omega)]
  simp

theorem bmod_of_ge {x : ℤ} (h : 2 ^ 63 ≤ x) (h' : x < 2 ^ 64) : x.bmod (2 ^ 64) = x - 2 ^ 64 := by
  rw [Int.bmod_def, Int.emod_eq_of_lt (by omega) (by omega), if_neg (by omega)]
  norm_num

/-- A length below `2^63` whose end, from the position of the field's bytes,
is at or past `2^63` wraps the end below zero: it passes the test against the
buffer's length, and the slice panics. -/
theorem readLengthDelimited_wrapped (iNdEx : ℕ) {L : UInt64} (rest : List UInt8)
    (hL : L.toNat < 2 ^ 63) (hwrap : 2 ^ 63 ≤ iNdEx + (encodeVarint L).length + L.toNat)
    (hpos : iNdEx + (encodeVarint L).length < 2 ^ 63) :
    readLengthDelimited iNdEx (encodeVarint L ++ rest) = none := by
  have hpostIndex : goAdd ↑(iNdEx + (encodeVarint L).length) (L.toNat : ℤ) =
      ↑(iNdEx + (encodeVarint L).length) + L.toNat - 2 ^ 64 :=
    bmod_of_ge (by push_cast; omega) (by push_cast; omega)
  have hpos' : iNdEx + ((encodeVarint L ++ rest).length - rest.length) =
      iNdEx + (encodeVarint L).length := by
    simp only [List.length_append]
    omega
  rw [readLengthDelimited, readVarint_encodeVarint]
  simp only [goInt_of_lt hL, hpos', hpostIndex]
  rw [if_neg (by omega), if_neg (by push_cast; omega), if_pos (by push_cast; omega)]

end Reading

/-! ## Fields as an encoder writes them -/

/-- A field as an encoder writes it, after its key of one byte: a varint,
fixed bytes, or a length and bytes. -/
inductive WireField
  | varint (key : UInt8) (v : UInt64)
  | fixed (key : UInt8) (b : List UInt8)
  | lengthDelimited (key : UInt8) (len : ℕ) (b : List UInt8)
  deriving DecidableEq, Repr

namespace WireField

/-- The bytes of a field. -/
def encode : WireField → List UInt8
  | .varint key v => key :: encodeVarint v
  | .fixed key b => key :: b
  | .lengthDelimited key len b => key :: (encodeVarint len.toUInt64 ++ b)

/-- What `Size` counts for a field. -/
def size : WireField → ℕ
  | .varint _ v => 1 + sov v
  | .fixed _ b => 1 + b.length
  | .lengthDelimited _ len _ => 1 + len + sov len.toUInt64

/-- A field an encoder can write: a key of one byte with a field number of at
least one and the wire type of the value, fixed bytes as wide as their wire
type says, and a length that is that of the bytes. -/
def WellFormed : WireField → Prop
  | .varint key _ => key < 0x80 ∧ 8 ≤ key ∧ key % 8 = 0
  | .fixed key b => key < 0x80 ∧ 8 ≤ key ∧ (key % 8 = 1 ∧ b.length = 8 ∨ key % 8 = 5 ∧ b.length = 4)
  | .lengthDelimited key len b => key < 0x80 ∧ 8 ≤ key ∧ key % 8 = 2 ∧ len = b.length

instance : DecidablePred WellFormed := by
  intro f
  cases f <;> unfold WellFormed <;> infer_instance

/-- The field's number, which picks its reader. -/
def num : WireField → ℕ
  | .varint key _ | .fixed key _ | .lengthDelimited key _ _ => key.toNat / 8

/-- The key byte of a field. -/
def key : WireField → UInt8
  | .varint key _ | .fixed key _ | .lengthDelimited key _ _ => key

theorem encode_eq_cons (f : WireField) : f.encode = f.key :: f.encode.tail := by
  cases f <;> rfl

theorem num_eq (f : WireField) : f.num = f.key.toNat / 8 := by
  cases f <;> rfl

/-- The key of a field an encoder wrote is one byte, with a field number of at
least one and a wire type other than end-group. -/
theorem WellFormed.key {f : WireField} (hf : f.WellFormed) :
    f.key < 0x80 ∧ 8 ≤ f.key.toNat ∧ f.key.toNat % 8 ≠ 4 := by
  have hmod : ∀ {k : UInt8} {w : UInt8}, k % 8 = w → k.toNat % 8 = w.toNat := fun h => by
    simpa [UInt8.toNat_mod] using congrArg UInt8.toNat h
  cases f with
  | varint k v =>
      obtain ⟨hk, h8, h0⟩ := hf
      exact ⟨hk, UInt8.le_iff_toNat_le.mp h8, by rw [WireField.key, hmod h0]; decide⟩
  | fixed k b =>
      obtain ⟨hk, h8, ⟨h1, -⟩ | ⟨h5, -⟩⟩ := hf
      · exact ⟨hk, UInt8.le_iff_toNat_le.mp h8, by rw [WireField.key, hmod h1]; decide⟩
      · exact ⟨hk, UInt8.le_iff_toNat_le.mp h8, by rw [WireField.key, hmod h5]; decide⟩
  | lengthDelimited k len b =>
      obtain ⟨hk, h8, h2, -⟩ := hf
      exact ⟨hk, UInt8.le_iff_toNat_le.mp h8, by rw [WireField.key, hmod h2]; decide⟩

theorem WellFormed.wireType {f : WireField} (hf : f.WellFormed) :
    match f with
    | .varint .. => f.key.toNat % 8 = 0
    | .fixed .. => f.key.toNat % 8 = 1 ∨ f.key.toNat % 8 = 5
    | .lengthDelimited .. => f.key.toNat % 8 = 2 := by
  have hmod : ∀ {k : UInt8} {w : UInt8}, k % 8 = w → k.toNat % 8 = w.toNat := fun h => by
    simpa [UInt8.toNat_mod] using congrArg UInt8.toNat h
  cases f with
  | varint k v => exact hmod hf.2.2
  | fixed k b =>
      rcases hf.2.2 with ⟨h1, -⟩ | ⟨h5, -⟩
      · exact Or.inl (hmod h1)
      · exact Or.inr (hmod h5)
  | lengthDelimited k len b => exact hmod hf.2.2.1

/-- What a decoder that knows the fields `fields` makes of a field read whole
on top of `m`: a known field goes into the message and an unknown one is
skipped; a known field of another wire type is an error. -/
def apply (fields : ℕ → Option (FieldReader σ)) (m : σ) (f : WireField) : Decoded σ :=
  match f, fields f.num with
  | _, none => some (.ok m)
  | .varint _ v, some (.varint set) => some (.ok (set v m))
  | .lengthDelimited _ _ b, some (.lengthDelimited set) => set b m
  | _, some _ => some (.error .wrongWireType)

theorem size_eq_length {f : WireField} (hf : f.WellFormed) : f.size = f.encode.length := by
  cases f with
  | varint key v => simp [size, encode, sov_eq_length, Nat.add_comm]
  | fixed key b => simp [size, encode, Nat.add_comm]
  | lengthDelimited key len b =>
      obtain ⟨-, -, -, rfl⟩ := hf
      simp only [size, encode, sov_eq_length, List.length_cons, List.length_append]
      omega

theorem length_encode_pos (f : WireField) : 0 < f.encode.length := by
  cases f <;> simp [encode]

theorem skip_encode {f : WireField} (hf : f.WellFormed) (rest : List UInt8)
    (hlen : (f.encode ++ rest).length < 2 ^ 63) :
    skip (f.encode ++ rest) = some (.ok f.encode.length) := by
  cases f with
  | varint key v =>
      obtain ⟨hk, -, h0⟩ := hf
      have hw : (key.toNat % 8) = 0 := by simpa [UInt8.toNat_mod] using congrArg UInt8.toNat h0
      rw [encode, List.cons_append, skip, List.length_cons, show 2 * (_ + 1) + 1 = _ + 1 from rfl,
        skipLoop, readVarint_key hk]
      simp only [wireType_key, hw, readVarint_encodeVarint]
      simp
      omega
  | fixed key b =>
      obtain ⟨hk, -, hw⟩ := hf
      rw [encode, List.cons_append, skip, List.length_cons, show 2 * (_ + 1) + 1 = _ + 1 from rfl,
        skipLoop, readVarint_key hk]
      rcases hw with ⟨h1, hb⟩ | ⟨h5, hb⟩
      · have hw : (key.toNat % 8) = 1 := by simpa [UInt8.toNat_mod] using congrArg UInt8.toNat h1
        simp only [wireType_key, hw, List.length_cons, List.length_append, hb]
        simp
      · have hw : (key.toNat % 8) = 5 := by simpa [UInt8.toNat_mod] using congrArg UInt8.toNat h5
        simp only [wireType_key, hw, List.length_cons, List.length_append, hb]
        simp
  | lengthDelimited key len b =>
      obtain ⟨hk, -, h2, rfl⟩ := hf
      have hw : (key.toNat % 8) = 2 := by simpa [UInt8.toNat_mod] using congrArg UInt8.toNat h2
      simp only [encode, List.cons_append, List.length_cons, List.length_append] at hlen ⊢
      have hb : b.length.toUInt64.toNat = b.length := toNat_toUInt64_of_lt (by omega)
      rw [skip, List.length_cons, show 2 * (_ + 1) + 1 = _ + 1 from rfl, skipLoop, readVarint_key hk]
      simp only [wireType_key, hw, List.append_assoc, readVarint_encodeVarint,
        goInt_of_lt (show b.length.toUInt64.toNat < 2 ^ 63 by omega), hb]
      rw [if_neg (by omega), goAdd_of_lt (by omega) (by omega)
        (by simp only [List.length_cons, List.length_append]; push_cast; omega)]
      simp only [List.length_cons, List.length_append]
      congr 2
      push_cast
      omega

end WireField

section Turn

open WireField

variable (fields : ℕ → Option (FieldReader σ)) (fuel iNdEx : ℕ) (m : σ) (rest : List UInt8)

/-- The field number of a key of one byte with a number of at least one is
not below one. -/
theorem not_fieldNum_le_zero {key : UInt8} (hk : key < 0x80) (h8 : 8 ≤ key.toNat) :
    ¬ (key.toUInt64 >>> 3).toUInt32.toInt32 ≤ 0 := by
  have hk' := UInt8.lt_iff_toNat_lt.mp hk
  rw [fieldNum_key hk, ofNat_le_zero_iff (by simp at hk'; omega)]
  omega

theorem toNatClampNeg_fieldNum {key : UInt8} (hk : key < 0x80) :
    (key.toUInt64 >>> 3).toUInt32.toInt32.toNatClampNeg = key.toNat / 8 := by
  have hk' := UInt8.lt_iff_toNat_lt.mp hk
  rw [fieldNum_key hk, Int32.toNatClampNeg_ofNat_of_lt (by simp at hk'; omega)]

theorem unmarshalLoop_unknown {f : WireField} (hf : f.WellFormed) (hnone : fields f.num = none)
    (hlen : iNdEx + (f.encode ++ rest).length < 2 ^ 63) :
    unmarshalLoop fields (fuel + 1) iNdEx m (f.encode ++ rest) =
      unmarshalLoop fields fuel (iNdEx + f.encode.length) m rest := by
  obtain ⟨hk, h8, h4⟩ := hf.key
  have hskip := skip_encode hf rest (by omega)
  have hpos := length_encode_pos f
  rw [List.length_append] at hlen
  rw [encode_eq_cons, List.cons_append, unmarshalLoop, readVarint_key hk]
  simp only [wireType_key, h4, not_fieldNum_le_zero hk h8, toNatClampNeg_fieldNum hk, ← num_eq,
    hnone, if_false]
  -- the default case calls `skip` on the field from its key on
  simp only [← List.cons_append, ← encode_eq_cons]
  rw [hskip, Decoded.andThen_ok]
  simp only [List.length_append]
  rw [if_neg (by omega), goAdd_of_lt (by omega) (by omega) (by push_cast; omega),
    if_neg (by push_cast; omega), if_neg (by omega), Int.toNat_natCast, List.drop_left]

theorem unmarshalLoop_varint {key : UInt8} {v : UInt64} (hf : (varint key v).WellFormed)
    {set : UInt64 → σ → σ} (hset : fields (key.toNat / 8) = some (.varint set)) :
    unmarshalLoop fields (fuel + 1) iNdEx m ((varint key v).encode ++ rest) =
      unmarshalLoop fields fuel (iNdEx + (varint key v).encode.length) (set v m) rest := by
  obtain ⟨hk, h8, h4⟩ := hf.key
  have h0 : key.toNat % 8 = 0 := by
    simpa [UInt8.toNat_mod] using congrArg UInt8.toNat hf.2.2
  simp only [WireField.key] at hk h8 h4
  rw [encode, List.cons_append, unmarshalLoop, readVarint_key hk]
  simp only [wireType_key, h0, not_fieldNum_le_zero hk h8, toNatClampNeg_fieldNum hk, hset,
    if_false, ne_eq, not_true_eq_false, readVarint_encodeVarint, List.length_append,
    List.length_cons]
  rw [if_neg (by decide)]
  congr 1
  omega

theorem unmarshalLoop_lengthDelimited {key : UInt8} {len : ℕ} {b : List UInt8}
    (hf : (lengthDelimited key len b).WellFormed) {set : List UInt8 → σ → Decoded σ}
    (hset : fields (key.toNat / 8) = some (.lengthDelimited set))
    (hlen : iNdEx + ((lengthDelimited key len b).encode ++ rest).length < 2 ^ 63) :
    unmarshalLoop fields (fuel + 1) iNdEx m ((lengthDelimited key len b).encode ++ rest) =
      (set b m).andThen fun m' =>
        unmarshalLoop fields fuel (iNdEx + (lengthDelimited key len b).encode.length) m' rest := by
  obtain ⟨hk, h8, h4⟩ := hf.key
  obtain ⟨-, -, h2, rfl⟩ := hf
  have h2' : key.toNat % 8 = 2 := by
    simpa [UInt8.toNat_mod] using congrArg UInt8.toNat h2
  simp only [WireField.key] at hk h8 h4
  simp only [encode, List.cons_append, List.length_cons, List.length_append] at hlen ⊢
  rw [List.append_assoc, unmarshalLoop, readVarint_key hk]
  simp only [wireType_key, h2', not_fieldNum_le_zero hk h8, toNatClampNeg_fieldNum hk, hset,
    if_false, ne_eq, not_true_eq_false, List.length_append, List.length_cons,
    Nat.add_sub_cancel_left]
  rw [if_neg (by decide), readLengthDelimited_encode (iNdEx + 1) b rest (by
    simp only [List.length_append]
    omega), Decoded.andThen_ok]
  dsimp only
  congr 1
  funext m'
  congr 1
  omega

theorem unmarshalLoop_wrongWireType {f : WireField} (hf : f.WellFormed) {fld : FieldReader σ}
    (hfld : fields f.num = some fld) (hne : f.key.toNat % 8 ≠ fld.wireType) :
    unmarshalLoop fields (fuel + 1) iNdEx m (f.encode ++ rest) = some (.error .wrongWireType) := by
  obtain ⟨hk, h8, h4⟩ := hf.key
  rw [encode_eq_cons, List.cons_append, unmarshalLoop, readVarint_key hk]
  simp only [wireType_key, h4, not_fieldNum_le_zero hk h8, toNatClampNeg_fieldNum hk, ← num_eq,
    hfld, if_false]
  cases fld with
  | varint set => simp [FieldReader.wireType] at hne ⊢; simp [hne]
  | lengthDelimited set => simp [FieldReader.wireType] at hne ⊢; simp [hne]

/-- One field an encoder wrote takes one turn of the loop: the loop goes on
after it with what `apply` makes of it, or stops where `apply` does. -/
theorem unmarshalLoop_wireField {f : WireField} (hf : f.WellFormed)
    (hlen : iNdEx + (f.encode ++ rest).length < 2 ^ 63) :
    unmarshalLoop fields (fuel + 1) iNdEx m (f.encode ++ rest) =
      (f.apply fields m).andThen fun m' =>
        unmarshalLoop fields fuel (iNdEx + f.encode.length) m' rest := by
  have hw := hf.wireType
  rcases hfield : fields f.num with _ | ⟨set⟩ | ⟨set⟩
  · rw [unmarshalLoop_unknown fields fuel iNdEx m rest hf hfield hlen]
    simp [apply, hfield]
  · cases f with
    | varint key v =>
        rw [unmarshalLoop_varint fields fuel iNdEx m rest hf hfield]
        simp [apply, hfield]
    | fixed key b =>
        rw [unmarshalLoop_wrongWireType fields fuel iNdEx m rest hf hfield
          (by simp only [FieldReader.wireType] at hw ⊢; omega)]
        simp [apply, hfield]
    | lengthDelimited key len b =>
        rw [unmarshalLoop_wrongWireType fields fuel iNdEx m rest hf hfield
          (by simp only [FieldReader.wireType] at hw ⊢; omega)]
        simp [apply, hfield]
  · cases f with
    | varint key v =>
        rw [unmarshalLoop_wrongWireType fields fuel iNdEx m rest hf hfield
          (by simp only [FieldReader.wireType] at hw ⊢; omega)]
        simp [apply, hfield]
    | fixed key b =>
        rw [unmarshalLoop_wrongWireType fields fuel iNdEx m rest hf hfield
          (by simp only [FieldReader.wireType] at hw ⊢; omega)]
        simp [apply, hfield]
    | lengthDelimited key len b =>
        rw [unmarshalLoop_lengthDelimited fields fuel iNdEx m rest hf hfield hlen]
        simp [apply, hfield]

/-- A known length-delimited field whose length is below `2^63` but whose end
passes `2^63` makes the loop panic, whatever follows. -/
theorem unmarshalLoop_wrappedLength {key : UInt8} (hk : key < 0x80) (h8 : 8 ≤ key.toNat)
    (h2 : key.toNat % 8 = 2) {set : List UInt8 → σ → Decoded σ}
    (hset : fields (key.toNat / 8) = some (.lengthDelimited set)) {L : UInt64}
    (hL : L.toNat < 2 ^ 63) (hwrap : 2 ^ 63 ≤ iNdEx + 1 + (encodeVarint L).length + L.toNat)
    (hpos : iNdEx + 1 + (encodeVarint L).length < 2 ^ 63) :
    unmarshalLoop fields (fuel + 1) iNdEx m (key :: (encodeVarint L ++ rest)) = none := by
  rw [unmarshalLoop, readVarint_key hk]
  simp only [wireType_key, h2, not_fieldNum_le_zero hk h8, toNatClampNeg_fieldNum hk, hset,
    if_false, ne_eq, not_true_eq_false, List.length_cons, Nat.add_sub_cancel_left]
  rw [if_neg (by decide), readLengthDelimited_wrapped (iNdEx + 1) rest hL (by omega) hpos,
    Decoded.andThen_none]

end Turn

/-! ## Sequences of fields -/

section Sequences

open WireField

variable (fields : ℕ → Option (FieldReader σ))

/-- What a decoder makes of fields read one after another. -/
def applyAll : σ → List WireField → Decoded σ
  | m, [] => some (.ok m)
  | m, f :: fs => (f.apply fields m).andThen fun m' => applyAll m' fs

@[simp] theorem applyAll_nil (m : σ) : applyAll fields m [] = some (.ok m) := rfl

theorem applyAll_append (m : σ) (fs gs : List WireField) :
    applyAll fields m (fs ++ gs) = (applyAll fields m fs).andThen fun m' => applyAll fields m' gs := by
  induction fs generalizing m with
  | nil => rfl
  | cons f fs ih =>
      simp only [List.cons_append, applyAll, Decoded.andThen_assoc]
      exact Decoded.andThen_congr _ fun m' => ih m'

theorem applyAll_eq_foldl {fs : List WireField} {g : WireField → σ → σ}
    (hg : ∀ f ∈ fs, ∀ m, f.apply fields m = some (.ok (g f m))) (m : σ) :
    applyAll fields m fs = some (.ok (fs.foldl (fun m f => g f m) m)) := by
  induction fs generalizing m with
  | nil => rfl
  | cons f fs ih =>
      rw [applyAll, hg f List.mem_cons_self, Decoded.andThen_ok,
        ih fun f' hf' => hg f' (List.mem_cons_of_mem f hf')]
      rfl

theorem applyAll_unknown {us : List WireField} (hus : ∀ u ∈ us, fields u.num = none) (m : σ) :
    applyAll fields m us = some (.ok m) := by
  have h := @applyAll_eq_foldl σ fields us (fun _ m => m)
    (fun u hu m => by simp [apply, hus u hu]) m
  rwa [List.foldl_fixed] at h

@[simp] theorem unmarshalLoop_nil (fuel iNdEx : ℕ) (m : σ) :
    unmarshalLoop fields fuel iNdEx m [] = some (.ok m) := by
  cases fuel <;> rfl

/-- The loop reads fields an encoder wrote one turn each, as `applyAll` does,
and goes on after them. -/
theorem unmarshalLoop_flatMap {fs : List WireField} (hwf : ∀ f ∈ fs, f.WellFormed) :
    ∀ {fuel iNdEx : ℕ} {m : σ} {rest : List UInt8}, fs.length ≤ fuel →
      iNdEx + (fs.flatMap encode ++ rest).length < 2 ^ 63 →
      unmarshalLoop fields fuel iNdEx m (fs.flatMap encode ++ rest) =
        (applyAll fields m fs).andThen fun m' =>
          unmarshalLoop fields (fuel - fs.length) (iNdEx + (fs.flatMap encode).length) m' rest := by
  induction fs with
  | nil =>
      intro fuel iNdEx m rest _ _
      simp
  | cons f fs ih =>
      intro fuel iNdEx m rest hfuel hlen
      obtain ⟨fuel, rfl⟩ : ∃ fuel', fuel = fuel' + 1 := ⟨fuel - 1, by simp at hfuel; omega⟩
      have hf := hwf f List.mem_cons_self
      have hfs := fun f' hf' => hwf f' (List.mem_cons_of_mem f hf')
      simp only [List.flatMap_cons, List.append_assoc, List.length_append] at hlen ⊢
      rw [unmarshalLoop_wireField fields fuel iNdEx m _ hf (by simp only [List.length_append]; omega),
        applyAll, Decoded.andThen_assoc]
      refine Decoded.andThen_congr _ fun m' => ?_
      rw [ih hfs (by simp at hfuel; omega) (by simp only [List.length_append]; omega)]
      simp only [List.length_cons, Nat.add_sub_add_right, Nat.add_assoc]

/-- Every field takes at least its key, so a buffer of fields has at least as
many bytes as fields. -/
theorem length_le_length_flatMap (fs : List WireField) :
    fs.length ≤ (fs.flatMap encode).length := by
  induction fs with
  | nil => simp
  | cons f fs ih =>
      have := length_encode_pos f
      simp only [List.length_cons, List.flatMap_cons, List.length_append]
      omega

theorem length_encode_le_of_mem {fs : List WireField} {f : WireField} (hf : f ∈ fs) :
    f.encode.length ≤ (fs.flatMap encode).length := by
  induction fs with
  | nil => cases hf
  | cons g gs ih =>
      rw [List.flatMap_cons, List.length_append]
      rcases List.mem_cons.mp hf with rfl | h
      · omega
      · have := ih h
        omega

/-- The value of a length-delimited field is part of the buffer of the fields
it is one of. -/
theorem length_le_of_lengthDelimited_mem {fs : List WireField} {k : UInt8} {n : ℕ}
    {b : List UInt8} (hf : .lengthDelimited k n b ∈ fs) :
    b.length ≤ (fs.flatMap encode).length := by
  have := length_encode_le_of_mem hf
  simp only [encode, List.length_cons, List.length_append] at this
  omega

theorem unmarshal_flatMap (zero : σ) {fs : List WireField} (hwf : ∀ f ∈ fs, f.WellFormed)
    (hlen : (fs.flatMap encode).length < 2 ^ 63) :
    unmarshal fields zero (fs.flatMap encode) = applyAll fields zero fs := by
  have h := @unmarshalLoop_flatMap σ fields fs hwf _ 0 zero []
    (length_le_length_flatMap fs) (by simpa using hlen)
  rw [List.append_nil] at h
  rw [unmarshal, h]
  simp

/-- Fields the decoder does not know, written before and after the fields it
reads, change nothing: a buffer of a newer schema reads as the fields of this
one. -/
theorem unmarshal_unknown (zero : σ) {us fs vs : List WireField}
    (hwf : ∀ f ∈ us ++ fs ++ vs, f.WellFormed) (hus : ∀ u ∈ us ++ vs, fields u.num = none)
    (hlen : (us.flatMap encode ++ fs.flatMap encode ++ vs.flatMap encode).length < 2 ^ 63) :
    unmarshal fields zero (us.flatMap encode ++ fs.flatMap encode ++ vs.flatMap encode) =
      applyAll fields zero fs := by
  rw [← List.flatMap_append, ← List.flatMap_append] at hlen ⊢
  rw [unmarshal_flatMap fields zero hwf hlen, applyAll_append, applyAll_append,
    applyAll_unknown fields (fun u hu => hus u (List.mem_append_left _ hu)), Decoded.andThen_ok]
  conv_rhs => rw [← Decoded.andThen_ok_right (applyAll fields zero fs)]
  exact Decoded.andThen_congr _ fun m =>
    applyAll_unknown fields (fun v hv => hus v (List.mem_append_right _ hv)) m

end Sequences

/-! ## What a decoded message holds -/

section Invariant

variable (fields : ℕ → Option (FieldReader σ))

/-- The value of a length-delimited field, and what follows it, are shorter
than the bytes they are read from. -/
theorem length_lt_of_readLengthDelimited {iNdEx : ℕ} {dAtA b rest : List UInt8}
    (h : readLengthDelimited iNdEx dAtA = some (.ok (b, rest))) :
    b.length < dAtA.length ∧ rest.length < dAtA.length := by
  unfold readLengthDelimited at h
  split at h
  · cases h
  · next len rest₀ hread =>
      have hlt := length_lt_of_readVarint hread
      dsimp only at h
      -- every branch but the last returns an error or panics
      split_ifs at h
      all_goals simp only [reduceCtorEq, Option.some.injEq, Except.ok.injEq, Prod.mk.injEq] at h
      obtain ⟨rfl, rfl⟩ := h
      simp only [List.length_take, List.length_drop]
      omega

/-- A property of messages that each field the decoder knows keeps, when its
reader is given fewer than `n` bytes, holds of what the loop decodes from at most
`n` bytes.  The induction is on the fuel; each turn reads from a suffix of the
buffer. -/
theorem unmarshalLoop_invariant (P : σ → Prop) (n : ℕ)
    (hvar : ∀ k set, fields k = some (.varint set) → ∀ v m, P m → P (set v m))
    (hld : ∀ k set, fields k = some (.lengthDelimited set) →
      ∀ b m m', b.length < n → P m → set b m = some (.ok m') → P m') :
    ∀ fuel iNdEx m dAtA m', dAtA.length ≤ n → P m →
      unmarshalLoop fields fuel iNdEx m dAtA = some (.ok m') → P m' := by
  intro fuel
  induction fuel with
  | zero =>
      intro iNdEx m dAtA m' _ hm h
      rw [unmarshalLoop] at h
      cases h
      exact hm
  | succ fuel ih =>
      intro iNdEx m dAtA m' hn hm h
      cases dAtA with
      | nil =>
          rw [unmarshalLoop] at h
          cases h
          exact hm
      | cons byte bytes =>
          rw [unmarshalLoop] at h
          split at h
          · cases h
          · next wire rest hkey =>
              have hrest := length_lt_of_readVarint hkey
              simp only at h
              split at h
              · cases h
              split at h
              · cases h
              split at h
              · -- a varint field the decoder knows
                next set hfld =>
                  split at h
                  · cases h
                  split at h
                  · cases h
                  · next v rest' hv =>
                      have := length_lt_of_readVarint hv
                      exact ih _ _ _ _ (by omega) (hvar _ set hfld v m hm) h
              · -- a length-delimited field: its bytes go to the reader
                next set hfld =>
                  split at h
                  · cases h
                  obtain ⟨⟨b, rest'⟩, hread, h⟩ := Decoded.andThen_eq_ok.mp h
                  obtain ⟨m₁, hset, h⟩ := Decoded.andThen_eq_ok.mp h
                  have hb := length_lt_of_readLengthDelimited hread
                  exact ih _ _ _ _ (by dsimp only; omega) (hld _ set hfld b m m₁ (by omega) hm hset) h
              · -- a field it does not know is skipped
                obtain ⟨skippy, _, h⟩ := Decoded.andThen_eq_ok.mp h
                split at h
                · cases h
                split at h
                · cases h
                split at h
                · cases h
                · exact ih _ _ _ _ (by rw [List.length_drop]; omega) hm h

theorem unmarshal_invariant (P : σ → Prop) {zero m : σ} {dAtA : List UInt8}
    (hzero : P zero)
    (hvar : ∀ k set, fields k = some (.varint set) → ∀ v m, P m → P (set v m))
    (hld : ∀ k set, fields k = some (.lengthDelimited set) →
      ∀ b m m', b.length < dAtA.length → P m → set b m = some (.ok m') → P m')
    (h : unmarshal fields zero dAtA = some (.ok m)) : P m :=
  unmarshalLoop_invariant fields P dAtA.length hvar hld _ _ _ _ _ le_rfl hzero h

end Invariant

section Optional

open WireField

variable (fields : ℕ → Option (FieldReader σ))

theorem applyAll_ite_single (c : Prop) [Decidable c] (f : WireField) (m : σ) :
    applyAll fields m (if c then [f] else []) = if c then f.apply fields m else some (.ok m) := by
  by_cases hc : c <;> simp [hc, applyAll]

theorem Decoded.ite_ok {α : Type} (c : Prop) [Decidable c] (a b : α) :
    (if c then some (.ok a) else some (.ok b) : Decoded α) = some (.ok (if c then a else b)) := by
  by_cases hc : c <;> simp [hc]

theorem applyAll_map {β : Type} (mk : β → WireField) {xs : List β} {g : β → σ → σ}
    (hg : ∀ x ∈ xs, ∀ m, (mk x).apply fields m = some (.ok (g x m))) (m : σ) :
    applyAll fields m (xs.map mk) = some (.ok (xs.foldl (fun m x => g x m) m)) := by
  induction xs generalizing m with
  | nil => rfl
  | cons x xs ih =>
      rw [List.map_cons, applyAll, hg x List.mem_cons_self, Decoded.andThen_ok,
        ih fun x' hx' => hg x' (List.mem_cons_of_mem x hx')]
      rfl

theorem foldl_append_one {β : Type} (get : σ → List β) (set : List β → σ → σ)
    (hget : ∀ l m, get (set l m) = l) (hset : ∀ l l' m, set l (set l' m) = set l m)
    (hself : ∀ m, set (get m) m = m) (xs : List β) (m : σ) :
    xs.foldl (fun m x => set (get m ++ [x]) m) m = set (get m ++ xs) m := by
  induction xs generalizing m with
  | nil => simp [hself]
  | cons x xs ih => rw [List.foldl_cons, ih, hget, hset, List.append_assoc, List.singleton_append]

/-- A scalar is written only when it is not the default, and read back either
way. -/
theorem ite_ne_self {α : Type} [DecidableEq α] (x d : α) : (if x ≠ d then x else d) = x := by
  by_cases hx : x = d <;> simp [hx]

theorem ite_length_pos_self {α : Type} (l : List α) : (if l.length > 0 then l else []) = l := by
  cases l <;> simp

end Optional

/-- An `int32` field is written sign-extended to 64 bits and read back as its
low 32 bits. -/
theorem toUInt32_toInt32_toUInt64 (x : Int32) : x.toInt64.toUInt64.toUInt32.toInt32 = x := by
  apply Int32.toBitVec_inj.mp
  simp only [UInt32.toBitVec_toInt32, UInt64.toBitVec_toUInt32, Int64.toBitVec_toUInt64,
    Int32.toBitVec_toInt64]
  ext i hi
  simp only [BitVec.getElem_setWidth, BitVec.getLsbD_signExtend]
  simp [hi]
  omega

/-- `proto.Marshaler`: a message that writes its own bytes. -/
class Marshaler (α : Type) where
  Marshal : α → List UInt8

end Protobuf
