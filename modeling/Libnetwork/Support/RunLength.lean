import Mathlib

/-!
# Run-length encoded sequences

A run list `l : List (α × ℕ)` stands for the sequence in which every run
`(a, c)` contributes `c` consecutive copies of `a`.  This module collects the
facts about such encodings that do not depend on what is encoded: how
`expand` distributes over the list operations, how a single position of the
expansion is overwritten by splitting one run into three, the merge pass that
joins neighbouring runs with equal values, and the uniqueness of the normal
form (no empty run, no two neighbouring runs with equal values).
-/

namespace RunLength

variable {α : Type*}

/-- The sequence a run list stands for. -/
def expand (l : List (α × ℕ)) : List α :=
  l.flatMap fun r => List.replicate r.2 r.1

/-- The length of the sequence a run list stands for. -/
def total (l : List (α × ℕ)) : ℕ :=
  (l.map Prod.snd).sum

@[simp] theorem expand_nil : expand ([] : List (α × ℕ)) = [] := rfl

@[simp] theorem expand_cons (r : α × ℕ) (l : List (α × ℕ)) :
    expand (r :: l) = List.replicate r.2 r.1 ++ expand l := by
  simp [expand]

@[simp] theorem expand_append (l m : List (α × ℕ)) :
    expand (l ++ m) = expand l ++ expand m := by
  simp [expand]

@[simp] theorem total_nil : total ([] : List (α × ℕ)) = 0 := rfl

@[simp] theorem total_cons (r : α × ℕ) (l : List (α × ℕ)) :
    total (r :: l) = r.2 + total l := by
  simp [total]

@[simp] theorem total_append (l m : List (α × ℕ)) :
    total (l ++ m) = total l + total m := by
  simp [total]

@[simp] theorem total_reverse (l : List (α × ℕ)) :
    total l.reverse = total l := by
  simp [total, List.sum_reverse]

@[simp] theorem length_expand (l : List (α × ℕ)) :
    (expand l).length = total l := by
  induction l with
  | nil => rfl
  | cons r l ih => simp [ih]

/-! ## Overwriting one position -/

/-- Overwriting position `p` of a run of `c` copies of `a` leaves `p` copies,
the new value, and the remaining `c - 1 - p` copies. -/
theorem replicate_set {a : α} (b : α) {c p : ℕ} (hp : p < c) :
    (List.replicate c a).set p b =
      List.replicate p a ++ b :: List.replicate (c - 1 - p) a := by
  obtain ⟨k, rfl⟩ : ∃ k, c = p + 1 + k := ⟨c - 1 - p, by omega⟩
  rw [show p + 1 + k - 1 - p = k by omega, List.replicate_add,
    List.replicate_add, List.replicate_one, List.append_assoc,
    List.set_append_right _ _ (by simp), List.length_replicate,
    Nat.sub_self]
  rfl

/-- Splitting run `(a, c)` around its `p`-th copy and putting `b` there
overwrites exactly position `total pre + p` of the expansion. -/
theorem expand_split (pre post : List (α × ℕ)) (a b : α) {c p : ℕ}
    (hp : p < c) :
    expand (pre ++ (a, p) :: (b, 1) :: (a, c - 1 - p) :: post) =
      (expand (pre ++ (a, c) :: post)).set (total pre + p) b := by
  simp only [expand_append, expand_cons, List.replicate_one]
  rw [List.set_append_right _ _ (by simp), length_expand,
    Nat.add_sub_cancel_left, List.set_append_left _ _ (by simpa using hp),
    replicate_set b hp]
  simp

@[simp] theorem expand_cons_zero (a : α) (l : List (α × ℕ)) :
    expand ((a, 0) :: l) = expand l := by
  simp

/-! ## The normal form -/

/-- Every run of the list is non-empty. -/
def Positive (l : List (α × ℕ)) : Prop :=
  ∀ r ∈ l, 0 < r.2

/-- Neighbouring runs carry different values. -/
def Separated (l : List (α × ℕ)) : Prop :=
  l.IsChain fun r s => r.1 ≠ s.1

/-- The normal form of a run encoding. -/
structure Canonical (l : List (α × ℕ)) : Prop where
  positive : Positive l
  separated : Separated l

@[simp] theorem positive_nil : Positive ([] : List (α × ℕ)) := by
  simp [Positive]

@[simp] theorem positive_cons {r : α × ℕ} {l : List (α × ℕ)} :
    Positive (r :: l) ↔ 0 < r.2 ∧ Positive l := by
  simp [Positive]

@[simp] theorem positive_append {l m : List (α × ℕ)} :
    Positive (l ++ m) ↔ Positive l ∧ Positive m := by
  simp only [Positive, List.mem_append]
  constructor
  · intro h
    exact ⟨fun r hr => h r (.inl hr), fun r hr => h r (.inr hr)⟩
  · rintro ⟨hl, hm⟩ r (hr | hr)
    · exact hl r hr
    · exact hm r hr

theorem Canonical.tail {r : α × ℕ} {l : List (α × ℕ)}
    (h : Canonical (r :: l)) : Canonical l :=
  ⟨(positive_cons.mp h.positive).2, List.IsChain.tail h.separated⟩

theorem Separated.cons_count {a : α} {c c' : ℕ} {m : List (α × ℕ)}
    (h : Separated ((a, c) :: m)) : Separated ((a, c') :: m) := by
  cases m with
  | nil => exact List.isChain_singleton _
  | cons s m => exact List.isChain_cons_cons.mpr (List.isChain_cons_cons.mp h)

/-- Replacing the suffix of a separated list from a run of value `a` on by a
separated suffix that also starts with value `a` keeps the list separated. -/
theorem Separated.splice {l m m' : List (α × ℕ)} {a : α} {c c' : ℕ}
    (h : Separated (l ++ (a, c) :: m)) (h' : Separated ((a, c') :: m')) :
    Separated (l ++ (a, c') :: m') := by
  obtain ⟨hl, -, hlast⟩ := List.isChain_append.mp h
  refine List.IsChain.append hl h' ?_
  intro x hx y hy
  obtain rfl : y = (a, c') := by simpa using hy.symm
  exact hlast x hx (a, c) rfl

/-- The expansion of a run list that starts with a non-empty run starts with
that run's value. -/
theorem head?_expand_cons {a : α} {c : ℕ} (l : List (α × ℕ)) (hc : 0 < c) :
    (expand ((a, c) :: l)).head? = some a := by
  obtain ⟨k, rfl⟩ : ∃ k, c = k + 1 := ⟨c - 1, by omega⟩
  simp [List.replicate_succ]

theorem expand_eq_nil_of_positive {l : List (α × ℕ)} (hl : Positive l)
    (h : expand l = []) : l = [] := by
  cases l with
  | nil => rfl
  | cons r l =>
      have hr := (positive_cons.mp hl).1
      have := congrArg List.length h
      simp at this
      omega

/-- In a canonical list `(a, c) :: l`, the expansion of `l` does not start
with `a`. -/
theorem head?_expand_tail_ne {a : α} {c : ℕ} {l : List (α × ℕ)}
    (h : Canonical ((a, c) :: l)) : (expand l).head? ≠ some a := by
  cases l with
  | nil => simp
  | cons s l =>
      have hs : 0 < s.2 := (positive_cons.mp h.tail.positive).1
      have hne : a ≠ s.1 := (List.isChain_cons_cons.mp h.separated).1
      rw [show s = (s.1, s.2) from rfl, head?_expand_cons _ hs]
      exact fun h' => hne (Option.some.inj h').symm

/-- If `c < d` copies of `a` followed by `xs` equal `d` copies followed by
`ys`, then `xs` starts with `d - c` more copies. -/
theorem eq_replicate_append_of_lt {a : α} {c d : ℕ} {xs ys : List α}
    (hcd : c < d)
    (h : List.replicate c a ++ xs = List.replicate d a ++ ys) :
    xs = List.replicate (d - c) a ++ ys := by
  rw [show d = c + (d - c) by omega, List.replicate_add, List.append_assoc]
    at h
  rw [List.append_cancel_left h]

/-- A canonical list that expands to `replicate c a ++ xs` has a first run of
at least `c` copies, so the two first runs of canonical lists with the same
expansion have the same length. -/
theorem count_eq_of_expand_eq {a : α} {c d : ℕ} {l m : List (α × ℕ)}
    (hl : Canonical ((a, c) :: l)) (hm : Canonical ((a, d) :: m))
    (h : expand ((a, c) :: l) = expand ((a, d) :: m)) : c = d := by
  simp only [expand_cons] at h
  rcases lt_trichotomy c d with hcd | hcd | hcd
  · have hxs := eq_replicate_append_of_lt hcd h
    have hhead : (expand l).head? = some a := by
      rw [hxs, List.head?_append]
      obtain ⟨k, hk⟩ : ∃ k, d - c = k + 1 := ⟨d - c - 1, by omega⟩
      simp [hk, List.replicate_succ]
    exact absurd hhead (head?_expand_tail_ne hl)
  · exact hcd
  · have hys := eq_replicate_append_of_lt hcd h.symm
    have hhead : (expand m).head? = some a := by
      rw [hys, List.head?_append]
      obtain ⟨k, hk⟩ : ∃ k, c - d = k + 1 := ⟨c - d - 1, by omega⟩
      simp [hk, List.replicate_succ]
    exact absurd hhead (head?_expand_tail_ne hm)

/-- The normal form is unique: two canonical run lists with the same
expansion are equal. -/
theorem eq_of_expand_eq {l m : List (α × ℕ)} (hl : Canonical l)
    (hm : Canonical m) (h : expand l = expand m) : l = m := by
  induction l generalizing m with
  | nil =>
      exact (expand_eq_nil_of_positive hm.positive h.symm).symm
  | cons r l ih =>
      cases m with
      | nil => exact expand_eq_nil_of_positive hl.positive h
      | cons s m =>
          obtain ⟨a, c⟩ := r
          obtain ⟨b, d⟩ := s
          have hc : 0 < c := (positive_cons.mp hl.positive).1
          have hd : 0 < d := (positive_cons.mp hm.positive).1
          have hab : a = b := by
            have := congrArg List.head? h
            rwa [head?_expand_cons _ hc, head?_expand_cons _ hd,
              Option.some.injEq] at this
          subst hab
          have hcd := count_eq_of_expand_eq hl hm h
          subst hcd
          have htail : expand l = expand m := by
            simpa using h
          rw [ih hl.tail hm.tail htail]

/-! ## The merge pass -/

section Merge

variable [DecidableEq α]

/-- Absorb into run `r` every following run with the same value, then go on
from the first run with a different value. -/
def mergeInto (r : α × ℕ) : List (α × ℕ) → List (α × ℕ)
  | [] => [r]
  | s :: l => if r.1 = s.1 then mergeInto (r.1, r.2 + s.2) l
      else r :: mergeInto s l

/-- Join all neighbouring runs that carry the same value. -/
def merge : List (α × ℕ) → List (α × ℕ)
  | [] => []
  | r :: l => mergeInto r l

theorem expand_mergeInto (r : α × ℕ) (l : List (α × ℕ)) :
    expand (mergeInto r l) = expand (r :: l) := by
  induction l generalizing r with
  | nil => rfl
  | cons s l ih =>
      rw [mergeInto]
      split
      · next hrs =>
          rw [ih]
          obtain ⟨a, c⟩ := r
          obtain ⟨b, d⟩ := s
          simp only at hrs
          subst hrs
          simp only [expand_cons, List.replicate_add, List.append_assoc]
      · simp [ih]

theorem expand_merge (l : List (α × ℕ)) : expand (merge l) = expand l := by
  cases l with
  | nil => rfl
  | cons r l => exact expand_mergeInto r l

theorem mergeInto_eq_cons (r : α × ℕ) (l : List (α × ℕ)) :
    ∃ c t, mergeInto r l = (r.1, c) :: t := by
  induction l generalizing r with
  | nil => exact ⟨r.2, [], rfl⟩
  | cons s l ih =>
      rw [mergeInto]
      split
      · exact ih _
      · exact ⟨r.2, _, rfl⟩

theorem positive_mergeInto {r : α × ℕ} {l : List (α × ℕ)}
    (h : Positive (r :: l)) : Positive (mergeInto r l) := by
  induction l generalizing r with
  | nil => exact h
  | cons s l ih =>
      obtain ⟨hr, hs, hl⟩ : 0 < r.2 ∧ 0 < s.2 ∧ Positive l := by
        simpa using h
      rw [mergeInto]
      split
      · exact ih (positive_cons.mpr ⟨by simp; omega, hl⟩)
      · exact positive_cons.mpr ⟨hr, ih (positive_cons.mpr ⟨hs, hl⟩)⟩

theorem separated_mergeInto (r : α × ℕ) (l : List (α × ℕ)) :
    Separated (mergeInto r l) := by
  induction l generalizing r with
  | nil => exact List.isChain_singleton _
  | cons s l ih =>
      rw [mergeInto]
      split
      · exact ih _
      · next hrs =>
          obtain ⟨c, t, ht⟩ := mergeInto_eq_cons s l
          have hst := ih s
          rw [ht] at hst ⊢
          exact List.isChain_cons_cons.mpr ⟨hrs, hst⟩

theorem canonical_merge {l : List (α × ℕ)} (h : Positive l) :
    Canonical (merge l) := by
  cases l with
  | nil => exact ⟨positive_nil, List.isChain_nil⟩
  | cons r l => exact ⟨positive_mergeInto h, separated_mergeInto r l⟩

/-- Merging the runs from `(a, c')` on, behind positive runs that are
separated up to a run of value `a`, gives a canonical encoding. -/
theorem canonical_append_mergeInto {l m rs : List (α × ℕ)} {a : α} {c c' : ℕ}
    (hl : Positive l) (hsep : Separated (l ++ (a, c) :: m)) (hpos : Positive ((a, c') :: rs)) :
    Canonical (l ++ mergeInto (a, c') rs) := by
  obtain ⟨c'', t, hmerge⟩ := mergeInto_eq_cons (a, c') rs
  have hposMerge := positive_mergeInto hpos
  have hsepMerge := separated_mergeInto (a, c') rs
  rw [hmerge] at hposMerge hsepMerge ⊢
  exact ⟨positive_append.mpr ⟨hl, hposMerge⟩, hsep.splice hsepMerge⟩

theorem total_mergeInto (r : α × ℕ) (l : List (α × ℕ)) :
    total (mergeInto r l) = total (r :: l) := by
  rw [← length_expand, expand_mergeInto, length_expand]

end Merge

end RunLength
