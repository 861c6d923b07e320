import Mathlib

/-!
# Last-writer-wins registers

A register holds at most one version of a value, each version carrying a
time stamp `key`.  Offering a version replaces the held one unless the held
one is at least as new.  Folding offers in sequence keeps the newest version
offered, unless the version held at the start is at least as new; when no two
offered versions share a stamp, the order of the offers does not matter.
-/

namespace LastWriterWins

variable {α β : Type*} [LinearOrder β] (key : α → β)

/-- Offer `x` to a register holding `cur`: the held version stays when it is
at least as new. -/
def absorb : Option α → α → Option α
  | some c, x => if key x ≤ key c then some c else some x
  | none, x => some x

/-- The newer of two versions, the first on a tie. -/
def newer (x y : α) : α :=
  if key y ≤ key x then x else y

/-- The newest version of a non-empty list, the first of the newest on a
tie. -/
def newest (x : α) (l : List α) : α :=
  l.foldl (newer key) x

variable {key}

theorem absorb_absorb (z : Option α) (x y : α) :
    absorb key (absorb key z x) y = absorb key z (newer key x y) := by
  cases z with
  | none =>
      by_cases hyx : key y ≤ key x <;> simp [absorb, newer, hyx]
  | some c =>
      by_cases hxc : key x ≤ key c
      · -- the held version stays against `x`, and against `y` exactly when
        -- it stays against the newer of the two
        by_cases hyx : key y ≤ key x
        · simp [absorb, newer, hxc, hyx, le_trans hyx hxc]
        · simp [absorb, newer, hxc, hyx]
      · have hcx : key c < key x := lt_of_not_ge hxc
        by_cases hyx : key y ≤ key x
        · simp [absorb, newer, hxc, hyx]
        · have hcy : ¬key y ≤ key c := fun h => hyx (le_trans h hcx.le)
          simp [absorb, newer, hxc, hyx, hcy]

theorem foldl_absorb (z : Option α) (x : α) (l : List α) :
    (x :: l).foldl (absorb key) z = absorb key z (newest key x l) := by
  induction l generalizing x with
  | nil => rfl
  | cons y l ih =>
      rw [List.foldl_cons, List.foldl_cons, absorb_absorb, ← List.foldl_cons, ih]
      rfl

theorem newer_eq_or (x y : α) : newer key x y = x ∨ newer key x y = y := by
  unfold newer
  split <;> simp

theorem le_key_newer_left (x y : α) : key x ≤ key (newer key x y) := by
  unfold newer
  split
  · exact le_rfl
  · exact (lt_of_not_ge ‹_›).le

theorem le_key_newer_right (x y : α) : key y ≤ key (newer key x y) := by
  unfold newer
  split
  · assumption
  · exact le_rfl

theorem newest_mem (x : α) (l : List α) : newest key x l ∈ x :: l := by
  induction l generalizing x with
  | nil => exact List.mem_singleton_self x
  | cons y l ih =>
      -- the newest of `x :: y :: l` is the newest of `newer x y :: l`
      have h : newest key x (y :: l) ∈ newer key x y :: l := ih (newer key x y)
      rcases List.mem_cons.mp h with h | h
      · have hxy : newer key x y = x ∨ newer key x y = y := newer_eq_or x y
        rcases hxy with hxy | hxy <;> rw [h, hxy] <;> simp
      · exact List.mem_cons_of_mem _ (List.mem_cons_of_mem _ h)

theorem le_key_newest (x : α) (l : List α) :
    ∀ y ∈ x :: l, key y ≤ key (newest key x l) := by
  induction l generalizing x with
  | nil => simp [newest]
  | cons z l ih =>
      intro y hy
      have hx := ih (newer key x z) _ List.mem_cons_self
      rcases List.mem_cons.mp hy with rfl | hy
      · exact (le_key_newer_left y z : key y ≤ key (newer key y z)).trans hx
      rcases List.mem_cons.mp hy with rfl | hy
      · exact (le_key_newer_right x y : key y ≤ key (newer key x y)).trans hx
      · exact ih (newer key x z) y (List.mem_cons_of_mem _ hy)

variable {l l' : List α} {m : α}

/-- When no two offers share a stamp, a run of offers ends on the newest one,
unless the register already held a version at least as new. -/
theorem foldl_absorb_of_max (z : Option α) (hm : m ∈ l) (hmax : ∀ y ∈ l, key y ≤ key m)
    (hnodup : (l.map key).Nodup) : l.foldl (absorb key) z = absorb key z m := by
  cases l with
  | nil => cases hm
  | cons x xs =>
      rw [foldl_absorb]
      have hmem : newest key x xs ∈ x :: xs := newest_mem x xs
      -- the newest and `m` have the same stamp, so they are the same offer
      have hkey : key (newest key x xs) = key m :=
        le_antisymm (hmax _ hmem) (le_key_newest x xs m hm)
      rw [List.inj_on_of_nodup_map hnodup hmem hm hkey]

/-- **The register converges.**  Offers with pairwise distinct stamps leave
the same version whatever order they arrive in. -/
theorem foldl_absorb_perm (z : Option α) (hp : l.Perm l') (hnodup : (l.map key).Nodup) :
    l.foldl (absorb key) z = l'.foldl (absorb key) z := by
  cases l with
  | nil => rw [← hp.nil_eq]
  | cons x xs =>
      have hmem : newest key x xs ∈ x :: xs := newest_mem x xs
      have hmax : ∀ y ∈ x :: xs, key y ≤ key (newest key x xs) := le_key_newest x xs
      rw [foldl_absorb_of_max z hmem hmax hnodup,
        foldl_absorb_of_max z (hp.subset hmem) (fun y hy => hmax y (hp.symm.subset hy))
          ((hp.map key).nodup_iff.mp hnodup)]

end LastWriterWins
