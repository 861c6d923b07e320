import Mathlib

/-!
# Go maps as lists of entries

A Go map is the list of its entries, in an order that stands for one
iteration order, with distinct keys.  `get?` reads a key, `set` writes one
(in place when the key is there, at the end when it is not) and `delete`
removes it.  Both writes keep the keys distinct, and a map that holds `k` is,
up to order, its entry for `k` and the map without `k`.
-/

namespace GoMap

variable {κ ν : Type*} [DecidableEq κ]

/-- `m[k]` in the comma-ok form. -/
def get? (m : List (κ × ν)) (k : κ) : Option ν :=
  (m.find? (·.1 = k)).map Prod.snd

/-- `m[k] = v`. -/
def set (m : List (κ × ν)) (k : κ) (v : ν) : List (κ × ν) :=
  if m.any (·.1 = k) then m.map fun e => if e.1 = k then (k, v) else e
  else m ++ [(k, v)]

/-- `delete(m, k)`. -/
def delete (m : List (κ × ν)) (k : κ) : List (κ × ν) :=
  m.filter (·.1 ≠ k)

/-- The keys of a map. -/
def keys (m : List (κ × ν)) : List κ :=
  m.map Prod.fst

variable {m : List (κ × ν)} {k : κ} {v : ν}

@[simp] theorem get?_nil : get? ([] : List (κ × ν)) k = none := rfl

theorem get?_cons (e : κ × ν) (m : List (κ × ν)) :
    get? (e :: m) k = if e.1 = k then some e.2 else get? m k := by
  unfold get?
  by_cases he : e.1 = k <;> simp [he]

theorem get?_append (m m' : List (κ × ν)) (k : κ) : get? (m ++ m') k = (get? m k).or (get? m' k) := by
  unfold get?
  rw [List.find?_append]
  cases m.find? (·.1 = k) <;> rfl

omit [DecidableEq κ] in
@[simp] theorem keys_cons (e : κ × ν) (m : List (κ × ν)) : keys (e :: m) = e.1 :: keys m := rfl

theorem get?_eq_none_iff : get? m k = none ↔ ∀ e ∈ m, e.1 ≠ k := by
  simp [get?, List.find?_eq_none]

theorem not_mem_keys_of_get?_eq_none (h : get? m k = none) : k ∉ keys m := by
  intro hk
  obtain ⟨e, he, rfl⟩ := List.mem_map.mp hk
  exact get?_eq_none_iff.mp h e he rfl

theorem set_of_get?_eq_none (h : get? m k = none) : set m k v = m ++ [(k, v)] := by
  have hany : m.any (·.1 = k) = false :=
    List.any_eq_false.mpr (by simpa using get?_eq_none_iff.mp h)
  simp [set, hany]

theorem nodup_keys_set_of_get?_eq_none (hm : (keys m).Nodup) (h : get? m k = none) :
    (keys (set m k v)).Nodup := by
  rw [set_of_get?_eq_none h, keys, List.map_append, List.map_singleton, ← List.concat_eq_append]
  exact hm.concat (not_mem_keys_of_get?_eq_none h)

theorem mem_of_get? (h : get? m k = some v) : (k, v) ∈ m := by
  obtain ⟨e, he, rfl⟩ := Option.map_eq_some_iff.mp h
  have hk : e.1 = k := by simpa using List.find?_some he
  rw [← hk]
  exact List.mem_of_find?_eq_some he

theorem nodup_keys_set (hm : (keys m).Nodup) : (keys (set m k v)).Nodup := by
  unfold set
  split
  · -- rewriting entries in place keeps every key
    have hkeys : keys (m.map fun e => if e.1 = k then (k, v) else e) = keys m := by
      simp only [keys, List.map_map]
      congr 1
      funext e
      by_cases h : e.1 = k <;> simp [h]
    rw [hkeys]
    exact hm
  · next hany =>
      rw [keys, List.map_append, List.map_singleton, ← List.concat_eq_append]
      refine hm.concat fun hk => hany ?_
      obtain ⟨e, he, rfl⟩ := List.mem_map.mp hk
      exact List.any_eq_true.mpr ⟨e, he, by simp⟩

theorem get?_set (m : List (κ × ν)) (k : κ) (v : ν) (k' : κ) :
    get? (set m k v) k' = if k' = k then some v else get? m k' := by
  unfold set
  split
  · next hany =>
      unfold get?
      rw [List.find?_map, Option.map_map]
      by_cases hk : k' = k
      · subst hk
        have hp : ((fun e : κ × ν => decide (e.1 = k')) ∘ fun e => if e.1 = k' then (k', v) else e) =
            fun e => decide (e.1 = k') := by
          funext e
          by_cases h : e.1 = k' <;> simp [h]
        obtain ⟨x, hx, hxk⟩ := List.any_eq_true.mp hany
        obtain ⟨e, hfind⟩ : ∃ e, m.find? (·.1 = k') = some e :=
          Option.isSome_iff_exists.mp (List.find?_isSome.mpr ⟨x, hx, hxk⟩)
        have he : e.1 = k' := by simpa using List.find?_some hfind
        rw [hp, hfind, if_pos rfl]
        simp [he]
      · have hp : ((fun e : κ × ν => decide (e.1 = k')) ∘ fun e => if e.1 = k then (k, v) else e) =
            fun e => decide (e.1 = k') := by
          funext e
          by_cases h : e.1 = k
          · simp [h, Ne.symm hk]
          · simp [h]
        rw [hp, if_neg hk]
        cases hfind : m.find? (·.1 = k') with
        | none => rfl
        | some e =>
            have he : e.1 = k' := by simpa using List.find?_some hfind
            simp [he, hk]
  · next hany =>
      simp only [get?, List.find?_append]
      by_cases hk : k' = k
      · subst hk
        have hnone : m.find? (·.1 = k') = none :=
          List.find?_eq_none.mpr fun x hx hxk => hany (List.any_eq_true.mpr ⟨x, hx, hxk⟩)
        simp [hnone]
      · simp [hk, Ne.symm hk]

theorem get?_delete (m : List (κ × ν)) (k k' : κ) :
    get? (delete m k) k' = if k' = k then none else get? m k' := by
  unfold delete get?
  rw [List.find?_filter]
  by_cases hk : k' = k
  · subst hk
    simp
  · rw [if_neg hk]
    congr 2
    funext e
    by_cases h : e.1 = k' <;> simp [h, hk]
theorem mem_set {e : κ × ν} (h : e ∈ set m k v) : e = (k, v) ∨ e ∈ m := by
  unfold set at h
  split at h
  · obtain ⟨e', he', rfl⟩ := List.mem_map.mp h
    by_cases hk : e'.1 = k
    · exact .inl (by simp [hk])
    · exact .inr (by simpa [hk] using he')
  · rcases List.mem_append.mp h with h | h
    · exact .inr h
    · exact .inl (List.mem_singleton.mp h)

theorem mem_of_mem_delete {e : κ × ν} (h : e ∈ delete m k) : e ∈ m :=
  (List.mem_filter.mp h).1

theorem delete_append (m m' : List (κ × ν)) (k : κ) : delete (m ++ m') k = delete m k ++ delete m' k :=
  List.filter_append ..

theorem delete_of_get?_eq_none (h : get? m k = none) : delete m k = m :=
  List.filter_eq_self.mpr (by simpa using get?_eq_none_iff.mp h)

theorem delete_set_of_get?_eq_none (h : get? m k = none) : delete (set m k v) k = m := by
  rw [set_of_get?_eq_none h]
  unfold delete
  rw [List.filter_append, List.filter_eq_self.mpr (by simpa using get?_eq_none_iff.mp h)]
  simp

theorem set_ne_nil : set m k v ≠ [] := by
  unfold set
  split
  · next hany =>
      intro h
      rw [List.map_eq_nil_iff] at h
      simp [h] at hany
  · simp

theorem get?_of_mem (hm : (keys m).Nodup) (h : (k, v) ∈ m) : get? m k = some v := by
  induction m with
  | nil => cases h
  | cons e m ih =>
      rw [keys_cons, List.nodup_cons] at hm
      rw [get?_cons]
      rcases List.mem_cons.mp h with rfl | h
      · simp
      · -- the key is further on, so it is not the head's
        have hne : e.1 ≠ k := fun he => hm.1 (he ▸ List.mem_map_of_mem h)
        rw [if_neg hne]
        exact ih hm.2 h

theorem nodup_keys_delete (hm : (keys m).Nodup) : (keys (delete m k)).Nodup :=
  hm.sublist (List.filter_sublist.map Prod.fst)

theorem perm_cons_delete (hm : (keys m).Nodup) (h : get? m k = some v) :
    m.Perm ((k, v) :: delete m k) := by
  induction m with
  | nil => cases h
  | cons e m ih =>
      rw [keys_cons, List.nodup_cons] at hm
      rw [get?_cons] at h
      by_cases he : e.1 = k
      · -- the entry found is the head, and no other entry has its key
        rw [if_pos he, Option.some_inj] at h
        have hrest : delete m k = m := by
          refine List.filter_eq_self.mpr fun e' he' => ?_
          have : e'.1 ≠ k := fun h' => hm.1 (he ▸ h' ▸ List.mem_map_of_mem he')
          simpa using this
        have hhead : delete (e :: m) k = m := by
          simp only [delete, List.filter_cons, he, ne_eq, not_true_eq_false, decide_false,
            Bool.false_eq_true, if_false]
          exact hrest
        rw [hhead, ← h, ← he]
      · rw [if_neg he] at h
        have hhead : delete (e :: m) k = e :: delete m k := by
          simp [delete, he]
        rw [hhead]
        exact ((ih hm.2 h).cons e).trans (List.Perm.swap _ _ _)

/-! ## Passes over the entries of a map -/

omit [DecidableEq κ] in
/-- A pass over a list of entries whose step at an entry `e` changes only what
the key `f e.1` reads, as a function `G e` of what it read.  When the keys
`f e.1` are distinct, each key ends reading its entry's step applied to what
it read before the pass, and a key of no entry reads what it read. -/
theorem read_foldl_of_pointwise {σ κ' β : Type*} [DecidableEq κ'] (read : σ → κ' → β)
    (step : σ → κ × ν → σ) (f : κ → κ') (G : κ × ν → β → β) {m : List (κ × ν)}
    (hm : (m.map fun e => f e.1).Nodup)
    (hstep : ∀ s, ∀ e ∈ m, ∀ k', read (step s e) k' =
      if k' = f e.1 then G e (read s k') else read s k')
    (s : σ) (k' : κ') :
    read (m.foldl step s) k' =
      match m.find? (fun e => f e.1 = k') with
      | some e => G e (read s k')
      | none => read s k' := by
  induction m generalizing s with
  | nil => rfl
  | cons e m ih =>
      rw [List.map_cons, List.nodup_cons] at hm
      rw [List.foldl_cons, ih hm.2 (fun s e' he' => hstep s e' (List.mem_cons_of_mem _ he')),
        List.find?_cons, hstep s e List.mem_cons_self]
      by_cases hk : f e.1 = k'
      · -- the entry's own key: no later entry has it
        have hnone : m.find? (fun e => f e.1 = k') = none :=
          List.find?_eq_none.mpr fun e' he' h =>
            hm.1 (List.mem_map.mpr ⟨e', he', by simpa [hk] using h⟩)
        simp [hk, hnone]
      · have hk' : k' ≠ f e.1 := Ne.symm hk
        simp only [hk, hk', decide_false, if_false]

end GoMap
