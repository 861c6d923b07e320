import Mathlib

/-!
# The first match at or after a position

`firstFrom p v start` is the least index at or after `start` whose element
satisfies `p`, or `none`.  A search that walks a structure piece by piece is
proved against it by the append rule: the first match in `u ++ v` is the
first in `u`, or else the first in `v` shifted by the length of `u`.
-/

namespace Scan

variable {α : Type*} (p : α → Bool)

/-- The least index at or after `start` whose element satisfies `p`. -/
def firstFrom (v : List α) (start : ℕ) : Option ℕ :=
  ((v.drop start).findIdx? p).map (· + start)

variable {p}

theorem firstFrom_eq_some_iff {v : List α} {start o : ℕ} :
    firstFrom p v start = some o ↔
      start ≤ o ∧ (∃ a, v[o]? = some a ∧ p a = true) ∧
        ∀ i, start ≤ i → i < o → ∀ a, v[i]? = some a → p a = false := by
  simp only [firstFrom, Option.map_eq_some_iff, List.findIdx?_eq_some_iff_getElem]
  constructor
  · rintro ⟨k, ⟨hk, hpk, hbefore⟩, rfl⟩
    rw [List.length_drop] at hk
    refine ⟨by omega, ⟨_, List.getElem?_eq_getElem (by omega), ?_⟩, ?_⟩
    · simpa [List.getElem_drop, Nat.add_comm] using hpk
    · intro i hi hio a ha
      have hlt : i < v.length := (List.getElem?_eq_some_iff.mp ha).1
      have hskip := hbefore (i - start) (by omega)
      rw [List.getElem_drop] at hskip
      rw [List.getElem?_eq_getElem hlt, Option.some_inj] at ha
      simpa [show start + (i - start) = i by omega, ha] using hskip
  · rintro ⟨hle, ⟨a, ha, hpa⟩, hbefore⟩
    have ho : o < v.length := (List.getElem?_eq_some_iff.mp ha).1
    rw [List.getElem?_eq_getElem ho, Option.some_inj] at ha
    refine ⟨o - start, ⟨by simp; omega, ?_, ?_⟩, by omega⟩
    · simpa [List.getElem_drop, show start + (o - start) = o by omega, ha] using hpa
    · intro j hj
      rw [List.getElem_drop, Bool.not_eq_true]
      exact hbefore (start + j) (by omega) (by omega) _ (List.getElem?_eq_getElem _)

theorem firstFrom_eq_none_iff {v : List α} {start : ℕ} :
    firstFrom p v start = none ↔ ∀ i, start ≤ i → ∀ a, v[i]? = some a → p a = false := by
  simp only [firstFrom, Option.map_eq_none_iff, List.findIdx?_eq_none_iff]
  constructor
  · intro h i hi a ha
    have hidx : start + (i - start) = i := by omega
    exact h a (List.mem_iff_getElem?.mpr ⟨i - start, by simpa [hidx]⟩)
  · intro h a ha
    obtain ⟨k, hk⟩ := List.mem_iff_getElem?.mp ha
    rw [List.getElem?_drop] at hk
    exact h (start + k) (by omega) a hk

theorem firstFrom_append (u v : List α) (start : ℕ) :
    firstFrom p (u ++ v) start =
      (firstFrom p u start).or ((firstFrom p v (start - u.length)).map (· + u.length)) := by
  simp only [firstFrom, List.drop_append, List.findIdx?_append, Option.map_or, Option.map_map]
  congr 2
  funext i
  simp only [Function.comp, List.length_drop]
  omega

theorem firstFrom_append_of_le {u : List α} (v : List α) {start : ℕ} (h : u.length ≤ start) :
    firstFrom p (u ++ v) start = (firstFrom p v (start - u.length)).map (· + u.length) := by
  have hu : firstFrom p u start = none := by simp [firstFrom, List.drop_eq_nil_of_le h]
  rw [firstFrom_append, hu, Option.none_or]

theorem firstFrom_append_of_eq_some {u : List α} (v : List α) {start o : ℕ}
    (h : firstFrom p u start = some o) : firstFrom p (u ++ v) start = some o := by
  rw [firstFrom_append, h, Option.some_or]

theorem firstFrom_append_of_eq_none {u : List α} (v : List α) {start : ℕ} (hs : start ≤ u.length)
    (h : firstFrom p u start = none) :
    firstFrom p (u ++ v) start = (firstFrom p v 0).map (· + u.length) := by
  rw [firstFrom_append, h, Option.none_or, Nat.sub_eq_zero_of_le hs]

/-- One element at a time: a match at `start`, or the search from the next
index. -/
theorem firstFrom_eq_of_getElem? {v : List α} {start : ℕ} {a : α} (h : v[start]? = some a) :
    firstFrom p v start = if p a then some start else firstFrom p v (start + 1) := by
  have hlt : start < v.length := (List.getElem?_eq_some_iff.mp h).1
  rw [List.getElem?_eq_getElem hlt, Option.some_inj] at h
  unfold firstFrom
  rw [List.drop_eq_getElem_cons hlt, List.findIdx?_cons, h]
  split
  · simp
  · simp only [Option.map_map]
    congr 1
    funext i
    simp only [Function.comp]
    omega

theorem firstFrom_of_length_le {v : List α} {start : ℕ} (h : v.length ≤ start) :
    firstFrom p v start = none := by
  simp [firstFrom, List.drop_eq_nil_of_le h]

end Scan
