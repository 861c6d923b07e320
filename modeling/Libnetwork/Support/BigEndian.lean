import Mathlib

/-!
# Big-endian byte strings

`encoding/binary`'s `BigEndian` writes a number as its bytes most significant
first and reads them back.  Here a width-`k` encoding is `toBytes k n`, the
low `k` bytes of `n`, and `ofBytes` reads any string of bytes as a number.
Reading a string written at its own width gives the number back, and
writing a number read from `k` bytes gives the bytes back.
-/

namespace BigEndian

/-- The low `k` bytes of `n`, most significant first. -/
def toBytes : ℕ → ℕ → List UInt8
  | 0, _ => []
  | k + 1, n => toBytes k (n / 256) ++ [UInt8.ofNat (n % 256)]

/-- The number a string of bytes stands for, most significant first. -/
def ofBytes (bs : List UInt8) : ℕ :=
  bs.foldl (fun acc b => 256 * acc + b.toNat) 0

@[simp] theorem length_toBytes (k n : ℕ) : (toBytes k n).length = k := by
  induction k generalizing n with
  | zero => rfl
  | succ k ih => simp [toBytes, ih]

theorem ofBytes_append (bs cs : List UInt8) :
    ofBytes (bs ++ cs) = 256 ^ cs.length * ofBytes bs + ofBytes cs := by
  unfold ofBytes
  rw [List.foldl_append]
  generalize List.foldl (fun acc b => 256 * acc + b.toNat) 0 bs = a
  induction cs generalizing a with
  | nil => simp
  | cons c cs ih =>
      simp only [List.foldl_cons, List.length_cons, Nat.mul_zero, Nat.zero_add] at ih ⊢
      rw [ih, ih c.toNat, Nat.pow_succ]
      ring

theorem ofBytes_lt (bs : List UInt8) : ofBytes bs < 256 ^ bs.length := by
  induction bs using List.reverseRecOn with
  | nil => simp [ofBytes]
  | append_singleton bs b ih =>
      have hb : ofBytes [b] = b.toNat := by simp [ofBytes]
      have hlt : b.toNat < 256 := b.toNat_lt
      rw [ofBytes_append, List.length_append, List.length_singleton, hb, Nat.pow_one, Nat.pow_succ]
      -- `256 ^ |bs|` stands as one atom for `omega`
      generalize 256 ^ bs.length = P at ih ⊢
      omega

theorem ofBytes_toBytes {k n : ℕ} (h : n < 256 ^ k) : ofBytes (toBytes k n) = n := by
  induction k generalizing n with
  | zero =>
      simp at h
      subst h
      rfl
  | succ k ih =>
      have hdiv : n / 256 < 256 ^ k := by
        apply Nat.div_lt_of_lt_mul
        rwa [pow_succ, Nat.mul_comm] at h
      rw [toBytes, ofBytes_append, ih hdiv]
      have hbyte : ofBytes [UInt8.ofNat (n % 256)] = n % 256 := by
        simp [ofBytes]
      rw [hbyte, List.length_singleton, Nat.pow_one]
      omega

theorem toBytes_ofBytes (bs : List UInt8) : toBytes bs.length (ofBytes bs) = bs := by
  induction bs using List.reverseRecOn with
  | nil => rfl
  | append_singleton bs b ih =>
      have hb : ofBytes [b] = b.toNat := by simp [ofBytes]
      have hlt : b.toNat < 256 := b.toNat_lt
      rw [List.length_append, List.length_singleton, toBytes, ofBytes_append, hb,
        List.length_singleton, Nat.pow_one]
      have hdiv : (256 * ofBytes bs + b.toNat) / 256 = ofBytes bs := by omega
      have hmod : (256 * ofBytes bs + b.toNat) % 256 = b.toNat := by omega
      rw [hdiv, hmod, ih, UInt8.ofNat_toNat]

end BigEndian
