import Mathlib

/-!
# Indexing Go slices

The slice operations Go checks at run time, on a slice as a list and an
index as a Go `int`: reading `s[i]`, swapping two elements, and the
`append(s[:i], s[i+1:]...)` idiom that removes one.  Each answers `none`
where Go panics with an index out of range.

Every one of them commutes with mapping the slice, which is how a slice that
is computed element by element from another stays so after both go through
the same operations.
-/

namespace GoSlice

variable {α β : Type*}

/-- `s[i]`. -/
def index? (s : List α) (i : ℤ) : Option α :=
  if 0 ≤ i then s[i.toNat]? else none

/-- `s[i], s[j] = s[j], s[i]`: both reads first, then the two writes. -/
def swap (s : List α) (i j : ℤ) : Option (List α) := do
  let a ← index? s i
  let b ← index? s j
  return (s.set i.toNat b).set j.toNat a

/-- `append(s[:i], s[i+1:]...)`: `s` without its element `i`. -/
def removeAt (s : List α) (i : ℤ) : Option (List α) :=
  if 0 ≤ i ∧ i < s.length then some (s.eraseIdx i.toNat) else none

theorem index?_map (f : α → β) (s : List α) (i : ℤ) :
    index? (s.map f) i = (index? s i).map f := by
  unfold index?
  split <;> simp

theorem swap_map (f : α → β) (s : List α) (i j : ℤ) :
    swap (s.map f) i j = (swap s i j).map (List.map f) := by
  simp only [swap, index?_map]
  cases index? s i <;> cases index? s j <;> simp

theorem removeAt_map (f : α → β) (s : List α) (i : ℤ) :
    removeAt (s.map f) i = (removeAt s i).map (List.map f) := by
  unfold removeAt
  split <;> simp_all [List.eraseIdx_map]

theorem isSome_index?_iff {s : List α} {i : ℤ} :
    (index? s i).isSome ↔ 0 ≤ i ∧ i < s.length := by
  unfold index?
  split
  · simp only [isSome_getElem?]
    omega
  · simp only [Option.isSome_none, Bool.false_eq_true, false_iff]
    omega

theorem swap_self {s : List α} {i : ℤ} (h : 0 ≤ i ∧ i < s.length) : swap s i i = some s := by
  have hi : i.toNat < s.length := by omega
  have hget : index? s i = some s[i.toNat] := by simp [index?, h.1]
  simp [swap, hget]

theorem swap_length {s t : List α} {i j : ℤ} (h : swap s i j = some t) :
    t.length = s.length := by
  simp only [swap, Option.bind_eq_bind] at h
  cases hi : index? s i <;> cases hj : index? s j <;> simp_all [eq_comm]

theorem isSome_swap {s : List α} {i j : ℤ} (hi : 0 ≤ i ∧ i < s.length)
    (hj : 0 ≤ j ∧ j < s.length) : (swap s i j).isSome := by
  obtain ⟨a, ha⟩ := Option.isSome_iff_exists.mp (isSome_index?_iff.mpr hi)
  obtain ⟨b, hb⟩ := Option.isSome_iff_exists.mp (isSome_index?_iff.mpr hj)
  simp [swap, ha, hb]

theorem removeAt_eq_none_iff {s : List α} {i : ℤ} :
    removeAt s i = none ↔ ¬ (0 ≤ i ∧ i < s.length) := by
  unfold removeAt
  split <;> simp_all

end GoSlice
