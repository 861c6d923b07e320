import Libnetwork.Support.GoMap

/-!
# The set matrix

`internal/setmatrix` keeps a set of values for each key.  `Insert` adds a
value to the set of a key, creating the set; `Remove` takes it out and
drops a set left empty.  Each answers whether it changed the set, and the
size of the set after it.

A matrix is a Go map of its sets, each set the list of its values; values
are kept distinct, so a value is in the set of a key after `Insert` when it
was before or is the one inserted, and after `Remove` when it was before and
is not the one removed.
-/

namespace Libnetwork.Setmatrix

open GoMap

variable {α : Type} [DecidableEq α]

/-- `Insert(key, value)`: whether the value is new, and the size of the set. -/
def Insert (m : List (String × List α)) (key : String) (value : α) :
    List (String × List α) × Bool × ℕ :=
  match get? m key with
  | none => (set m key [value], true, 1)
  | some s =>
      if value ∈ s then (m, false, s.length)
      else (set m key (s ++ [value]), true, s.length + 1)

/-- `Remove(key, value)`: whether the value was there, and the size of the
set left; a set left empty is dropped. -/
def Remove (m : List (String × List α)) (key : String) (value : α) :
    List (String × List α) × Bool × ℕ :=
  match get? m key with
  | none => (m, false, 0)
  | some s =>
      if value ∈ s then
        let s := s.erase value
        (if s.length = 0 then delete m key else set m key s, true, s.length)
      else (m, false, s.length)

/-- `value` is in the set of `key`. -/
def Mem (m : List (String × List α)) (key : String) (value : α) : Prop :=
  value ∈ (get? m key).getD []

instance (m : List (String × List α)) (key : String) (value : α) : Decidable (Mem m key value) :=
  inferInstanceAs (Decidable (value ∈ (get? m key).getD []))

/-- A matrix as its calls keep it: one set a key, each of distinct values. -/
structure WF (m : List (String × List α)) : Prop where
  keys : (keys m).Nodup
  nodup : ∀ key s, get? m key = some s → s.Nodup

variable {m : List (String × List α)} {key key' : String} {value value' : α}

omit [DecidableEq α] in
theorem mem_iff {s : List α} (h : get? m key = some s) : Mem m key value ↔ value ∈ s := by
  simp [Mem, h]

omit [DecidableEq α] in
theorem not_mem_of_get?_eq_none (h : get? m key = none) : ¬Mem m key value := by
  simp [Mem, h]

omit [DecidableEq α] in
theorem mem_set {s : List α} :
    Mem (set m key s) key' value' ↔ if key' = key then value' ∈ s else Mem m key' value' := by
  unfold Mem
  rw [get?_set]
  split <;> rfl

theorem mem_Insert :
    Mem (Insert m key value).1 key' value' ↔ Mem m key' value' ∨ (key' = key ∧ value' = value) := by
  unfold Insert
  cases hget : get? m key with
  | none =>
      dsimp only
      rw [mem_set]
      by_cases hk : key' = key
      · subst hk
        simp [not_mem_of_get?_eq_none hget]
      · simp [hk]
  | some s =>
      dsimp only
      by_cases hv : value ∈ s
      · rw [if_pos hv]
        refine ⟨.inl, ?_⟩
        rintro (h | ⟨rfl, rfl⟩)
        · exact h
        · exact (mem_iff hget).mpr hv
      · rw [if_neg hv, mem_set]
        by_cases hk : key' = key
        · subst hk
          simp [mem_iff hget]
        · simp [hk]

theorem WF.Insert (hm : WF m) : WF (Insert m key value).1 := by
  unfold Setmatrix.Insert
  cases hget : get? m key with
  | none =>
      refine ⟨nodup_keys_set hm.keys, fun k s hs => ?_⟩
      rw [get?_set] at hs
      split at hs
      · cases hs
        exact List.nodup_singleton _
      · exact hm.nodup k s hs
  | some s =>
      dsimp only
      split
      · exact hm
      · next hv =>
          refine ⟨nodup_keys_set hm.keys, fun k s' hs => ?_⟩
          rw [get?_set] at hs
          split at hs
          · cases hs
            rw [← List.concat_eq_append]
            exact (hm.nodup _ _ hget).concat hv
          · exact hm.nodup k s' hs

theorem mem_Remove (hm : WF m) :
    Mem (Remove m key value).1 key' value' ↔ Mem m key' value' ∧ ¬(key' = key ∧ value' = value) := by
  unfold Remove
  cases hget : get? m key with
  | none =>
      dsimp only
      refine ⟨fun h => ⟨h, ?_⟩, fun h => h.1⟩
      rintro ⟨rfl, rfl⟩
      exact not_mem_of_get?_eq_none hget h
  | some s =>
      dsimp only
      by_cases hv : value ∈ s
      · rw [if_pos hv]
        -- the set without the value, dropped when it is left empty
        have herase : ∀ v, v ∈ s.erase value ↔ v ∈ s ∧ v ≠ value := fun v =>
          (hm.nodup _ _ hget).mem_erase_iff.trans and_comm
        have hmem : Mem (if (s.erase value).length = 0 then delete m key else set m key (s.erase value))
            key' value' ↔ if key' = key then value' ∈ s.erase value else Mem m key' value' := by
          split
          · next hlen =>
              rw [List.length_eq_zero_iff] at hlen
              unfold Mem
              rw [get?_delete]
              split
              · simp [hlen]
              · rfl
          · exact mem_set
        rw [hmem]
        by_cases hk : key' = key
        · subst hk
          simp [herase, mem_iff hget]
        · simp [hk]
      · rw [if_neg hv]
        refine ⟨fun h => ⟨h, ?_⟩, fun h => h.1⟩
        rintro ⟨rfl, rfl⟩
        exact hv ((mem_iff hget).mp h)

theorem WF.Remove (hm : WF m) : WF (Remove m key value).1 := by
  unfold Setmatrix.Remove
  cases hget : get? m key with
  | none => exact hm
  | some s =>
      dsimp only
      split
      · split
        · refine ⟨nodup_keys_delete hm.keys, fun k s' hs => ?_⟩
          rw [get?_delete] at hs
          split at hs
          · cases hs
          · exact hm.nodup k s' hs
        · refine ⟨nodup_keys_set hm.keys, fun k s' hs => ?_⟩
          rw [get?_set] at hs
          split at hs
          · cases hs
            exact (hm.nodup _ _ hget).erase _
          · exact hm.nodup k s' hs
      · exact hm

omit [DecidableEq α] in
theorem wf_nil : WF ([] : List (String × List α)) :=
  ⟨List.nodup_nil, fun _ _ h => by cases h⟩

end Libnetwork.Setmatrix
