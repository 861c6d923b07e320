import Mathlib

/-!
# 32-bit words read most significant bit first

A word `w : UInt32` is read as the 32 bits `msb w 0, …, msb w 31`, bit `0`
being the most significant one, and a list of words as the concatenation of
their bits.  Bit `j` is selected by shifting the top bit right by `j` places;
shifts follow Go's rule for unsigned operands, under which a count of 32 or
more shifts every bit out.  The lemmas say how the selector, `|||` and
`&&& ~~~` (Go's `&^`) act on single bits, and how overwriting one word of a
list overwrites one position of the flat bit string.
-/

namespace MsbBits

/-- Bit `j` of a word, counting from the most significant bit. -/
def msb (w : UInt32) (j : ℕ) : Bool :=
  w.toBitVec.getMsbD j

/-- Go's `x >> k` for a `uint32` and an unsigned count `k`. -/
def goShiftRight (x : UInt32) (k : UInt64) : UInt32 :=
  if k < 32 then x >>> k.toUInt32 else 0

/-- The word whose only set bit is bit `j`: the top bit shifted right. -/
def selector (j : UInt64) : UInt32 :=
  goShiftRight 0x80000000 j

theorem eq_of_msb_eq {w w' : UInt32} (h : ∀ i < 32, msb w i = msb w' i) :
    w = w' :=
  UInt32.toBitVec_inj.mp (BitVec.eq_of_getMsbD_eq h)

theorem msb_eq_false_of_ge (w : UInt32) {i : ℕ} (hi : 32 ≤ i) :
    msb w i = false := by
  simp [msb, BitVec.getMsbD_eq_getLsbD, show ¬i < 32 by omega]

@[simp] theorem msb_or (w v : UInt32) (i : ℕ) :
    msb (w ||| v) i = (msb w i || msb v i) := by
  simp [msb]

theorem msb_andNot (w v : UInt32) {i : ℕ} (hi : i < 32) :
    msb (w &&& ~~~v) i = (msb w i && !msb v i) := by
  simp [msb, hi]

private theorem firstBit_eq_twoPow : (2147483648#32) = BitVec.twoPow 32 31 := by
  decide

theorem msb_selector {j : UInt64} (hj : j.toNat < 32) (i : ℕ) :
    msb (selector j) i = decide (i = j.toNat) := by
  have hlt : j < 32 := by
    rw [UInt64.lt_iff_toNat_lt]
    simpa using hj
  simp only [msb, selector, goShiftRight, if_pos hlt]
  simp [BitVec.getMsbD_ushiftRight, firstBit_eq_twoPow, BitVec.getMsbD_twoPow,
    Nat.mod_eq_of_lt hj]
  by_cases hij : i = j.toNat
  · simp [hij, hj]
  · simp [hij]
    omega

theorem selector_eq_zero {j : UInt64} (hj : 32 ≤ j.toNat) : selector j = 0 := by
  have hge : ¬j < 32 := by
    rw [UInt64.lt_iff_toNat_lt]
    simpa using hj
  simp [selector, goShiftRight, hge]

theorem and_selector_eq_zero_iff (w : UInt32) {j : UInt64}
    (hj : j.toNat < 32) :
    w &&& selector j = 0 ↔ msb w j.toNat = false := by
  constructor
  · intro h
    have h0 : msb (w &&& selector j) j.toNat = false := by
      simp [h, msb]
    have hsel : msb (selector j) j.toNat = true := by
      simp [msb_selector hj]
    simp only [msb, UInt32.toBitVec_and, BitVec.getMsbD_and] at h0 hsel ⊢
    simpa [hsel] using h0
  · intro h
    apply eq_of_msb_eq
    intro i hi
    have hsel := msb_selector hj i
    simp only [msb] at hsel h ⊢
    simp only [BitVec.getMsbD_and, UInt32.toBitVec_and, hsel]
    by_cases hij : i = j.toNat
    · simp [hij, h]
    · simp [hij]

theorem msb_or_selector (w : UInt32) {j : UInt64} (hj : j.toNat < 32)
    (i : ℕ) : msb (w ||| selector j) i = (msb w i || decide (i = j.toNat)) := by
  rw [msb_or, msb_selector hj]

theorem msb_andNot_selector (w : UInt32) {j : UInt64} (hj : j.toNat < 32)
    {i : ℕ} (hi : i < 32) :
    msb (w &&& ~~~selector j) i = (msb w i && !decide (i = j.toNat)) := by
  rw [msb_andNot w _ hi, msb_selector hj]

theorem or_selector_eq_self_iff (w : UInt32) {j : UInt64} (hj : j.toNat < 32) :
    w ||| selector j = w ↔ msb w j.toNat = true := by
  constructor
  · intro h
    have := congrArg (fun x => msb x j.toNat) h
    simpa [msb_or_selector w hj] using this.symm
  · intro h
    apply eq_of_msb_eq
    intro i _
    rw [msb_or_selector w hj]
    by_cases hij : i = j.toNat
    · simp [hij, h]
    · simp [hij]

theorem andNot_selector_eq_self_iff (w : UInt32) {j : UInt64}
    (hj : j.toNat < 32) :
    w &&& ~~~selector j = w ↔ msb w j.toNat = false := by
  constructor
  · intro h
    have := congrArg (fun x => msb x j.toNat) h
    simpa [msb_andNot_selector w hj hj] using this.symm
  · intro h
    apply eq_of_msb_eq
    intro i hi
    rw [msb_andNot_selector w hj hi]
    by_cases hij : i = j.toNat
    · simp [hij, h]
    · simp [hij]

/-! ## Flat bit strings -/

/-- The 32 bits of a word, most significant first. -/
def bits (w : UInt32) : List Bool :=
  List.ofFn fun j : Fin 32 => msb w j

/-- The bits of a list of words, word after word. -/
def flatten (ws : List UInt32) : List Bool :=
  ws.flatMap bits

@[simp] theorem length_bits (w : UInt32) : (bits w).length = 32 := by
  simp [bits]

@[simp] theorem flatten_nil : flatten [] = [] := rfl

@[simp] theorem flatten_cons (w : UInt32) (ws : List UInt32) :
    flatten (w :: ws) = bits w ++ flatten ws := by
  simp [flatten]

@[simp] theorem length_flatten (ws : List UInt32) :
    (flatten ws).length = 32 * ws.length := by
  induction ws with
  | nil => rfl
  | cons w ws ih => simp [ih]; omega

theorem getElem?_bits (w : UInt32) {j : ℕ} (hj : j < 32) :
    (bits w)[j]? = some (msb w j) := by
  rw [bits, List.getElem?_ofFn, dif_pos hj]

theorem getElem?_flatten (ws : List UInt32) (o : ℕ) :
    (flatten ws)[o]? = ws[o / 32]?.map fun w => msb w (o % 32) := by
  induction ws generalizing o with
  | nil => simp
  | cons w ws ih =>
      rw [flatten_cons, List.getElem?_append]
      by_cases ho : o < 32
      · rw [if_pos (by simpa using ho), getElem?_bits w ho,
          Nat.div_eq_of_lt ho, Nat.mod_eq_of_lt ho]
        simp
      · rw [if_neg (by simpa using ho), length_bits, ih]
        obtain ⟨k, rfl⟩ : ∃ k, o = k + 32 := ⟨o - 32, by omega⟩
        simp [Nat.add_div_right, Nat.add_mod_right]

theorem bits_injective {w w' : UInt32} (h : bits w = bits w') : w = w' := by
  apply eq_of_msb_eq
  intro i hi
  have := congrArg (fun l => l[i]?) h
  simpa [getElem?_bits _ hi] using this

theorem flatten_injective {ws ws' : List UInt32}
    (h : flatten ws = flatten ws') : ws = ws' := by
  induction ws generalizing ws' with
  | nil =>
      cases ws' with
      | nil => rfl
      | cons w' ws' =>
          have := congrArg List.length h
          simp at this
          omega
  | cons w ws ih =>
      cases ws' with
      | nil =>
          have := congrArg List.length h
          simp at this
      | cons w' ws' =>
          simp only [flatten_cons] at h
          obtain ⟨hw, hws⟩ := List.append_inj h (by simp)
          rw [bits_injective hw, ih hws]

/-- Replacing word `k` by a word that differs from it at bit `j` alone, where
that bit becomes `v`, overwrites position `32 * k + j` of the flat string. -/
theorem flatten_set {ws : List UInt32} {k j : ℕ} {w' : UInt32} {v : Bool}
    (hk : k < ws.length) (hj : j < 32)
    (hw' : ∀ i < 32, msb w' i = if i = j then v else msb ws[k] i) :
    flatten (ws.set k w') = (flatten ws).set (32 * k + j) v := by
  apply List.ext_getElem?
  intro o
  simp only [getElem?_flatten, List.getElem?_set, length_flatten]
  by_cases hko : o / 32 = k
  · have hmod : o % 32 < 32 := Nat.mod_lt _ (by decide)
    rw [if_pos hko.symm, if_pos hk, Option.map_some, hw' _ hmod]
    by_cases hjo : o % 32 = j
    · have hpos : 32 * k + j = o := by omega
      rw [if_pos hjo, if_pos hpos, if_pos (by omega)]
    · have hpos : 32 * k + j ≠ o := by omega
      rw [if_neg hjo, if_neg hpos, hko, List.getElem?_eq_getElem hk]
      rfl
  · have hpos : 32 * k + j ≠ o := by omega
    rw [if_neg (Ne.symm hko), if_neg hpos]

end MsbBits
