import Mathlib
import Libnetwork.Support.GoMap

/-!
# Radix trees

The radix tree of `go-radix` (`radix.go`, vendored).  A node consumes a
prefix of the key, may hold the leaf of the key that ends there, and has
edges to its children in increasing order of label, the first letter of the
child's prefix.  `Get` follows the edges and consumes the prefixes; `Insert`
splits a node whose prefix the key leaves early; `Delete` takes the leaf off
its node and merges a node left with one edge with its child.

A well-formed node (`Node.WF`) holds its leaves in pre-order and in strictly
increasing order of key, and `Get`, `Insert` and `Delete` act on that list as
a lookup, a sorted insertion and a removal.  A `Tree` is a root of
well-formed edges, so every tree is well formed.

The last part is about keys made of segments joined by a separator that no
segment holds.  The first separator of such a key ends its first segment, so
two keys that agree up to a separator agree on the segment before it; and a
prefix that stops inside a segment, without the separator after it, is a
prefix of every key whose segment extends it, not only of the keys of that
segment.
-/

namespace RadixTree

universe u v w

/-- `node`: the leaf it holds (key and value), the prefix it consumes and its
edges, each a label and a child. -/
inductive Node (κ : Type u) (α : Type v) where
  | mk (leaf : Option (List κ × α)) (pfx : List κ) (edges : List (κ × Node κ α))

namespace Node

variable {κ : Type u} {α : Type v}

/-- The leaf of a node. -/
def leaf : Node κ α → Option (List κ × α)
  | .mk l _ _ => l

/-- The prefix a node consumes. -/
def pfx : Node κ α → List κ
  | .mk _ p _ => p

/-- The edges of a node. -/
def edges : Node κ α → List (κ × Node κ α)
  | .mk _ _ e => e

@[simp] theorem leaf_mk (l : Option (List κ × α)) (p : List κ) (e : List (κ × Node κ α)) :
    (Node.mk l p e).leaf = l := rfl

@[simp] theorem pfx_mk (l : Option (List κ × α)) (p : List κ) (e : List (κ × Node κ α)) :
    (Node.mk l p e).pfx = p := rfl

@[simp] theorem edges_mk (l : Option (List κ × α)) (p : List κ) (e : List (κ × Node κ α)) :
    (Node.mk l p e).edges = e := rfl

mutual
/-- The leaves under a node, in pre-order: its own, then those of each child
in the order of the edges. -/
def leaves : Node κ α → List (List κ × α)
  | .mk leaf _ edges => leaf.toList ++ edgesLeaves edges

/-- The leaves under a list of edges. -/
def edgesLeaves : List (κ × Node κ α) → List (List κ × α)
  | [] => []
  | (_, n) :: es => n.leaves ++ edgesLeaves es
end

@[simp] theorem leaves_mk (leaf : Option (List κ × α)) (pfx : List κ)
    (edges : List (κ × Node κ α)) : (Node.mk leaf pfx edges).leaves = leaf.toList ++ edgesLeaves edges := by
  rw [leaves]

@[simp] theorem edgesLeaves_nil : edgesLeaves ([] : List (κ × Node κ α)) = [] := by
  rw [edgesLeaves]

@[simp] theorem edgesLeaves_cons (l : κ) (n : Node κ α) (es : List (κ × Node κ α)) :
    edgesLeaves ((l, n) :: es) = n.leaves ++ edgesLeaves es := by
  rw [edgesLeaves]

end Node

open Node

section Operations

variable {κ : Type u} {α : Type v} [LinearOrder κ]

/-- `longestPrefix`: the length of the common prefix of two keys. -/
def longestPrefix : List κ → List κ → ℕ
  | a :: as, b :: bs => if a = b then longestPrefix as bs + 1 else 0
  | _, _ => 0

/-- `addEdge`: the edge appended and the edges sorted by label.  The labels of
a node are distinct, so the sort puts the new edge before the first greater
label. -/
def addEdge (e : κ × Node κ α) (edges : List (κ × Node κ α)) : List (κ × Node κ α) :=
  edges.orderedInsert (fun a b => a.1 ≤ b.1) e

/-- The merge of `Delete`, at a node that lost its leaf: a node of one edge
takes the prefix, the leaf and the edges of its child. -/
def mergeChild (pfx : List κ) : List (κ × Node κ α) → Node κ α
  | [(_, .mk leaf cpfx edges)] => .mk leaf (pfx ++ cpfx) edges
  | edges => .mk none pfx edges

mutual
/-- The loop of `Get` at node `n`, once the prefix of `n` is consumed, with
`search` the rest of the key. -/
def Node.get : Node κ α → List κ → Option α
  | .mk leaf _ _, [] => leaf.map Prod.snd
  | .mk _ _ edges, c :: rest => getEdges edges c rest

/-- The step of `Get` at the edges of a node: `getEdge(search[0])` on edges
sorted by label, then the prefix of the child, consumed when `search` starts
with it. -/
def getEdges : List (κ × Node κ α) → κ → List κ → Option α
  | [], _, _ => none
  | (l, m@(.mk _ pfx _)) :: es, c, rest =>
      if c < l then none
      else if c = l then
        if pfx <+: c :: rest then m.get ((c :: rest).drop pfx.length) else none
      else getEdges es c rest
end

mutual
/-- The loop of `Insert` of key `s` and value `v` at node `n`, with `search`
the rest of the key: the node after the insertion and the value it replaced.
A leaf already there keeps its key and takes the new value. -/
def Node.insert (s : List κ) (v : α) : Node κ α → List κ → Node κ α × Option α
  | .mk (some (k, old)) pfx edges, [] => (.mk (some (k, v)) pfx edges, some old)
  | .mk none pfx edges, [] => (.mk (some (s, v)) pfx edges, none)
  | .mk leaf pfx edges, c :: rest =>
      let r := insertEdges s v edges c rest
      (.mk leaf pfx r.1, r.2)

/-- The step of `Insert` at the edges of a node.  With no edge of label `c`,
`addEdge` puts a new leaf node before the first greater label.  The child of
label `c` is entered when `search` consumes its whole prefix; else it is
split at the end of the common prefix: a new node of that prefix takes its
place, with the child (its prefix cut) and the new leaf below it, or the new
leaf in it when the key ends there. -/
def insertEdges (s : List κ) (v : α) :
    List (κ × Node κ α) → κ → List κ → List (κ × Node κ α) × Option α
  | [], c, rest => ([(c, .mk (some (s, v)) (c :: rest) [])], none)
  | (l, m@(.mk leaf pfx edges)) :: es, c, rest =>
      if c < l then ((c, .mk (some (s, v)) (c :: rest) []) :: (l, m) :: es, none)
      else if c = l then
        match pfx.drop (longestPrefix (c :: rest) pfx),
            (c :: rest).drop (longestPrefix (c :: rest) pfx) with
        | [], search =>
            let r := m.insert s v search
            ((l, r.1) :: es, r.2)
        | d :: drest, [] =>
            ((l, .mk (some (s, v)) ((c :: rest).take (longestPrefix (c :: rest) pfx))
              [(d, .mk leaf (d :: drest) edges)]) :: es, none)
        | d :: drest, e :: erest =>
            ((l, .mk none ((c :: rest).take (longestPrefix (c :: rest) pfx))
              (addEdge (e, .mk (some (s, v)) (e :: erest) []) [(d, .mk leaf (d :: drest) edges)])) ::
              es, none)
      else
        let r := insertEdges s v es c rest
        ((l, m) :: r.1, r.2)
end

mutual
/-- The loop of `Delete` at node `n`, with `search` the rest of the key: the
node after the deletion and the value deleted.  The node of the key loses its
leaf and is merged with its child when it has one edge. -/
def Node.delete : Node κ α → List κ → Node κ α × Option α
  | .mk none pfx edges, [] => (.mk none pfx edges, none)
  | .mk (some (_, val)) pfx edges, [] => (mergeChild pfx edges, some val)
  | .mk leaf pfx edges, c :: rest =>
      let r := deleteEdges edges c rest
      (.mk leaf pfx r.1, r.2)

/-- The step of `Delete` at the edges of a node. -/
def deleteEdges : List (κ × Node κ α) → κ → List κ → List (κ × Node κ α) × Option α
  | [], _, _ => ([], none)
  | (l, m@(.mk _ pfx _)) :: es, c, rest =>
      if c < l then ((l, m) :: es, none)
      else if c = l then
        if pfx <+: c :: rest then
          let r := m.delete ((c :: rest).drop pfx.length)
          ((l, r.1) :: es, r.2)
        else ((l, m) :: es, none)
      else
        let r := deleteEdges es c rest
        ((l, m) :: r.1, r.2)
end


/-! ## Well-formed nodes -/

mutual
/-- A node reached after the prefixes `path` is well formed: its leaf is the
key of its full path, its edges are in increasing order of label, the prefix
of each child starts with its label, and each child is well formed. -/
def Node.WF : List κ → Node κ α → Prop
  | path, .mk leaf pfx edges => (∀ kv ∈ leaf, kv.1 = path ++ pfx) ∧ EdgesWF (path ++ pfx) edges

/-- The edges of a node of full path `path` are well formed. -/
def EdgesWF : List κ → List (κ × Node κ α) → Prop
  | _, [] => True
  | path, (l, m) :: es => m.pfx.head? = some l ∧ m.WF path ∧ (∀ e ∈ es, l < e.1) ∧ EdgesWF path es
end

section Spec

variable {leaf : Option (List κ × α)} {pfx path : List κ} {edges es : List (κ × Node κ α)}
  {l c : κ} {m : Node κ α} {rest : List κ}

theorem wf_mk : (Node.mk leaf pfx edges).WF path ↔
    (∀ kv ∈ leaf, kv.1 = path ++ pfx) ∧ EdgesWF (path ++ pfx) edges := by
  rw [Node.WF]

@[simp] theorem edgesWF_nil : EdgesWF path ([] : List (κ × Node κ α)) := by
  rw [EdgesWF]; trivial

theorem edgesWF_cons : EdgesWF path ((l, m) :: es) ↔
    m.pfx.head? = some l ∧ m.WF path ∧ (∀ e ∈ es, l < e.1) ∧ EdgesWF path es := by
  rw [EdgesWF]

theorem get_mk_nil : (Node.mk leaf pfx edges).get [] = leaf.map Prod.snd := by
  rw [Node.get]

theorem get_mk_cons : (Node.mk leaf pfx edges).get (c :: rest) = getEdges edges c rest := by
  rw [Node.get]

@[simp] theorem getEdges_nil : getEdges ([] : List (κ × Node κ α)) c rest = none := by
  rw [getEdges]

theorem getEdges_cons : getEdges ((l, m) :: es) c rest =
    if c < l then none
    else if c = l then (if m.pfx <+: c :: rest then m.get ((c :: rest).drop m.pfx.length) else none)
    else getEdges es c rest := by
  obtain ⟨_, _, _⟩ := m
  rw [getEdges]; rfl

end Spec

/-! ## The order of keys -/

section KeyOrder

theorem lt_append_cons (P : List κ) (c : κ) (x : List κ) : P < P ++ c :: x := by
  have h : P ++ [] < P ++ c :: x := List.append_left_lt (List.nil_lt_cons c x)
  rwa [List.append_nil] at h

theorem append_cons_lt_append_cons (P : List κ) {a b : κ} (h : a < b) (x y : List κ) :
    P ++ a :: x < P ++ b :: y :=
  List.append_left_lt (List.cons_lt_cons_iff.mpr (.inl h))

end KeyOrder

/-! ## The leaves of a well-formed node -/

section Leaves

omit [LinearOrder κ] in
/-- A child whose prefix starts with its label holds keys that continue the
path with the label. -/
theorem Node.exists_cons_of_prefix {path : List κ} {m : Node κ α} {l : κ} (hl : m.pfx.head? = some l)
    (hpre : ∀ kv ∈ m.leaves, path ++ m.pfx <+: kv.1) :
    ∀ kv ∈ m.leaves, ∃ x, kv.1 = path ++ l :: x := by
  intro kv hkv
  obtain ⟨t, ht⟩ := hpre kv hkv
  obtain ⟨p', hp'⟩ : ∃ p', m.pfx = l :: p' := by
    cases hm : m.pfx with
    | nil => rw [hm] at hl; cases hl
    | cons a p' => rw [hm, List.head?_cons, Option.some.injEq] at hl; exact ⟨p', by rw [hl]⟩
  exact ⟨p' ++ t, by rw [← ht, hp']; simp⟩

mutual
theorem Node.WF.prefix_leaves : ∀ {path : List κ} {n : Node κ α}, n.WF path →
    ∀ kv ∈ n.leaves, path ++ n.pfx <+: kv.1
  | _, .mk leaf pfx edges, h, kv, hkv => by
      rw [wf_mk] at h
      rw [leaves_mk, List.mem_append, Option.mem_toList] at hkv
      rcases hkv with hkv | hkv
      · rw [h.1 kv hkv]
        exact List.prefix_refl _
      · obtain ⟨e, -, x, hx⟩ := EdgesWF.exists_of_mem h.2 kv hkv
        rw [hx, pfx_mk]
        exact List.prefix_append _ _

theorem EdgesWF.exists_of_mem : ∀ {path : List κ} {es : List (κ × Node κ α)}, EdgesWF path es →
    ∀ kv ∈ edgesLeaves es, ∃ e ∈ es, ∃ x, kv.1 = path ++ e.1 :: x
  | _, [], _, kv, hkv => by simp at hkv
  | _, (l, m) :: es, h, kv, hkv => by
      rw [edgesWF_cons] at h
      rw [edgesLeaves_cons, List.mem_append] at hkv
      rcases hkv with hkv | hkv
      · obtain ⟨x, hx⟩ := Node.exists_cons_of_prefix h.1 (Node.WF.prefix_leaves h.2.1) kv hkv
        exact ⟨(l, m), List.mem_cons_self, x, hx⟩
      · obtain ⟨e, he, x, hx⟩ := EdgesWF.exists_of_mem h.2.2.2 kv hkv
        exact ⟨e, List.mem_cons_of_mem _ he, x, hx⟩
end

mutual
theorem Node.WF.sorted : ∀ {path : List κ} {n : Node κ α}, n.WF path → n.leaves.Pairwise (·.1 < ·.1)
  | _, .mk leaf pfx edges, h => by
      rw [wf_mk] at h
      rw [leaves_mk]
      refine List.pairwise_append.mpr ⟨?_, EdgesWF.sorted h.2, fun a ha b hb => ?_⟩
      · cases leaf <;> simp
      · -- the leaf is the full path, every key below extends it
        rw [Option.mem_toList] at ha
        obtain ⟨e, -, x, hx⟩ := EdgesWF.exists_of_mem h.2 b hb
        rw [h.1 a ha, hx]
        exact lt_append_cons _ _ _

theorem EdgesWF.sorted : ∀ {path : List κ} {es : List (κ × Node κ α)}, EdgesWF path es →
    (edgesLeaves es).Pairwise (·.1 < ·.1)
  | _, [], _ => by simp
  | _, (l, m) :: es, h => by
      rw [edgesWF_cons] at h
      rw [edgesLeaves_cons]
      refine List.pairwise_append.mpr ⟨Node.WF.sorted h.2.1, EdgesWF.sorted h.2.2.2,
        fun a ha b hb => ?_⟩
      obtain ⟨x, hx⟩ := Node.exists_cons_of_prefix h.1 (Node.WF.prefix_leaves h.2.1) a ha
      obtain ⟨e, he, y, hy⟩ := EdgesWF.exists_of_mem h.2.2.2 b hb
      rw [hx, hy]
      exact append_cons_lt_append_cons _ (h.2.2.1 e he) x y
end

theorem EdgesWF.get?_eq_none {path : List κ} {es : List (κ × Node κ α)} (h : EdgesWF path es)
    {c : κ} (hc : ∀ e ∈ es, e.1 ≠ c) (rest : List κ) :
    GoMap.get? (edgesLeaves es) (path ++ c :: rest) = none :=
  GoMap.get?_eq_none_iff.mpr fun kv hkv heq => by
    obtain ⟨e, he, y, hy⟩ := h.exists_of_mem kv hkv
    rw [hy, List.append_cancel_left_eq, List.cons.injEq] at heq
    exact hc e he heq.1

theorem Node.WF.get?_eq_none {path : List κ} {m : Node κ α} {l c : κ} (h : m.WF path)
    (hl : m.pfx.head? = some l) (hc : l ≠ c) (rest : List κ) :
    GoMap.get? m.leaves (path ++ c :: rest) = none :=
  GoMap.get?_eq_none_iff.mpr fun kv hkv heq => by
    obtain ⟨x, hx⟩ := Node.exists_cons_of_prefix hl h.prefix_leaves kv hkv
    rw [hx, List.append_cancel_left_eq, List.cons.injEq] at heq
    exact hc heq.1

mutual
/-- `Get` reads the leaves of a well-formed node: at node `n`, the rest
`search` of a key reads the leaf of the key that continues the full path of
`n` with `search`. -/
theorem Node.WF.get_eq : ∀ {path : List κ} {n : Node κ α}, n.WF path →
    ∀ search, n.get search = GoMap.get? n.leaves (path ++ n.pfx ++ search)
  | path, .mk leaf pfx edges, h, [] => by
      rw [wf_mk] at h
      have hbelow : GoMap.get? (edgesLeaves edges) (path ++ pfx) = none :=
        GoMap.get?_eq_none_iff.mpr fun kv hkv heq => by
          obtain ⟨e, -, x, hx⟩ := EdgesWF.exists_of_mem h.2 kv hkv
          simp [hx] at heq
      rw [get_mk_nil, leaves_mk, pfx_mk, List.append_nil, GoMap.get?_append, hbelow, Option.or_none]
      cases leaf with
      | none => rfl
      | some kv => simp [GoMap.get?_cons, h.1 kv rfl]
  | path, .mk leaf pfx edges, h, c :: rest => by
      rw [wf_mk] at h
      have hleaf : GoMap.get? leaf.toList (path ++ pfx ++ c :: rest) = none :=
        GoMap.get?_eq_none_iff.mpr fun kv hkv heq => by
          rw [h.1 kv (Option.mem_toList.mp hkv)] at heq
          simp at heq
      rw [get_mk_cons, EdgesWF.getEdges_eq h.2 c rest, leaves_mk, pfx_mk, GoMap.get?_append, hleaf,
        Option.none_or]

theorem EdgesWF.getEdges_eq : ∀ {path : List κ} {es : List (κ × Node κ α)}, EdgesWF path es →
    ∀ c rest, getEdges es c rest = GoMap.get? (edgesLeaves es) (path ++ c :: rest)
  | _, [], _, c, rest => by simp
  | path, (l, m) :: es, h, c, rest => by
      rw [edgesWF_cons] at h
      obtain ⟨hl, hm, hes, hwf⟩ := h
      rw [getEdges_cons, edgesLeaves_cons, GoMap.get?_append]
      by_cases hlt : c < l
      · -- every label is above `c`
        rw [if_pos hlt, hm.get?_eq_none hl (ne_of_gt hlt) rest,
          hwf.get?_eq_none (fun e he => ne_of_gt (hlt.trans (hes e he))) rest]
        rfl
      · by_cases heq : c = l
        · subst heq
          have hlater : GoMap.get? (edgesLeaves es) (path ++ c :: rest) = none :=
            hwf.get?_eq_none (fun e he => ne_of_gt (hes e he)) rest
          rw [if_neg hlt, if_pos rfl, hlater, Option.or_none]
          split_ifs with hp
          · -- the child's prefix is consumed
            rw [Node.WF.get_eq hm, List.append_assoc, List.prefix_iff_eq_append.mp hp]
          · -- a key of the child would start with its prefix
            refine (GoMap.get?_eq_none_iff.mpr fun kv hkv hkey => hp ?_).symm
            have hpre := hm.prefix_leaves kv hkv
            rw [hkey] at hpre
            exact (List.prefix_append_right_inj path).mp hpre
        · rw [if_neg hlt, if_neg heq, hm.get?_eq_none hl (Ne.symm heq) rest, Option.none_or]
          exact EdgesWF.getEdges_eq hwf c rest
end

/-- Keys under well-formed edges whose labels are all above `c` are above
every key that continues the path with `c`. -/
theorem EdgesWF.lt_of_mem {path : List κ} {es : List (κ × Node κ α)} (h : EdgesWF path es)
    {c : κ} (hc : ∀ e ∈ es, c < e.1) (x : List κ) :
    ∀ kv ∈ edgesLeaves es, path ++ c :: x < kv.1 := by
  intro kv hkv
  obtain ⟨e, he, y, hy⟩ := h.exists_of_mem kv hkv
  rw [hy]
  exact append_cons_lt_append_cons path (hc e he) x y

theorem Node.WF.exists_cons {path : List κ} {m : Node κ α} {l : κ} (h : m.WF path)
    (hl : m.pfx.head? = some l) : ∀ kv ∈ m.leaves, ∃ x, kv.1 = path ++ l :: x :=
  Node.exists_cons_of_prefix hl h.prefix_leaves

end Leaves

/-! ## `longestPrefix` -/

section LongestPrefix

theorem longestPrefix_le_right : ∀ a b : List κ, longestPrefix a b ≤ b.length
  | a :: as, b :: bs => by
      rw [longestPrefix]
      split_ifs
      · have := longestPrefix_le_right as bs
        simp only [List.length_cons]
        omega
      · exact Nat.zero_le _
  | [], _ => by simp [longestPrefix]
  | _ :: _, [] => by simp [longestPrefix]

theorem take_longestPrefix : ∀ a b : List κ, a.take (longestPrefix a b) = b.take (longestPrefix a b)
  | a :: as, b :: bs => by
      rw [longestPrefix]
      split_ifs with hab
      · rw [List.take_succ_cons, List.take_succ_cons, hab, take_longestPrefix as bs]
      · rfl
  | [], _ => by simp [longestPrefix]
  | _ :: _, [] => by simp [longestPrefix]

theorem longestPrefix_drop_ne : ∀ {a b : List κ} {x y : κ} {xs ys : List κ},
    a.drop (longestPrefix a b) = x :: xs → b.drop (longestPrefix a b) = y :: ys → x ≠ y
  | a :: as, b :: bs, x, y, xs, ys, ha, hb => by
      rw [longestPrefix] at ha hb
      split_ifs at ha hb with hab
      · exact longestPrefix_drop_ne ha hb
      · simp only [List.drop_zero, List.cons.injEq] at ha hb
        rw [← ha.1, ← hb.1]
        exact hab
  | [], _, _, _, _, _, ha, _ => by simp [longestPrefix] at ha
  | _ :: _, [], _, _, _, _, _, hb => by simp [longestPrefix] at hb

theorem longestPrefix_cons_self (c : κ) (a b : List κ) :
    longestPrefix (c :: a) (c :: b) = longestPrefix a b + 1 := by
  rw [longestPrefix, if_pos rfl]

end LongestPrefix

/-! ## `Insert` -/

/-- The insertion of a leaf into leaves sorted by key, in place of the leaf of
its key when there is one. -/
def insertLeaf (k : List κ) (v : α) : List (List κ × α) → List (List κ × α)
  | [] => [(k, v)]
  | l :: ls =>
      if k < l.1 then (k, v) :: l :: ls
      else if k = l.1 then (k, v) :: ls
      else l :: insertLeaf k v ls

section InsertLeaf

variable {k : List κ} {v : α} {ls ls' : List (List κ × α)}

theorem insertLeaf_of_forall_lt (h : ∀ kv ∈ ls, k < kv.1) : insertLeaf k v ls = (k, v) :: ls := by
  cases ls with
  | nil => rfl
  | cons l ls => rw [insertLeaf, if_pos (h l List.mem_cons_self)]

theorem insertLeaf_append_of_lt (h : ∀ kv ∈ ls, kv.1 < k) :
    insertLeaf k v (ls ++ ls') = ls ++ insertLeaf k v ls' := by
  induction ls with
  | nil => rfl
  | cons l ls ih =>
      have hl := h l List.mem_cons_self
      rw [List.cons_append, insertLeaf, if_neg (not_lt.mpr hl.le), if_neg (ne_of_gt hl),
        ih fun kv hkv => h kv (List.mem_cons_of_mem _ hkv), List.cons_append]

theorem insertLeaf_append_of_gt (h : ∀ kv ∈ ls', k < kv.1) :
    insertLeaf k v (ls ++ ls') = insertLeaf k v ls ++ ls' := by
  induction ls with
  | nil => rw [List.nil_append, insertLeaf_of_forall_lt h]; rfl
  | cons l ls ih =>
      rw [List.cons_append, insertLeaf, insertLeaf]
      split_ifs <;> simp [ih]

theorem insertLeaf_cons_self (old : α) : insertLeaf k v ((k, old) :: ls) = (k, v) :: ls := by
  rw [insertLeaf, if_neg (lt_irrefl k), if_pos rfl]

end InsertLeaf

section InsertSpec

variable {s : List κ} {v : α} {l c : κ} {rest : List κ} {leaf : Option (List κ × α)}
  {pfx : List κ} {edges es : List (κ × Node κ α)} {m : Node κ α}

theorem insert_some_nil (k : List κ) (old : α) :
    (Node.mk (some (k, old)) pfx edges).insert s v [] = (.mk (some (k, v)) pfx edges, some old) := by
  rw [Node.insert]

theorem insert_none_nil :
    (Node.mk none pfx edges).insert s v [] = (.mk (some (s, v)) pfx edges, none) := by
  rw [Node.insert]

theorem insert_cons : (Node.mk leaf pfx edges).insert s v (c :: rest) =
    (.mk leaf pfx (insertEdges s v edges c rest).1, (insertEdges s v edges c rest).2) := by
  rw [Node.insert]

theorem insertEdges_nil :
    insertEdges s v [] c rest = ([(c, .mk (some (s, v)) (c :: rest) [])], none) := by
  rw [insertEdges]

theorem insertEdges_lt (h : c < l) : insertEdges s v ((l, m) :: es) c rest =
    ((c, .mk (some (s, v)) (c :: rest) []) :: (l, m) :: es, none) := by
  obtain ⟨_, _, _⟩ := m
  rw [insertEdges, if_pos h]

theorem insertEdges_gt (h : l < c) : insertEdges s v ((l, m) :: es) c rest =
    ((l, m) :: (insertEdges s v es c rest).1, (insertEdges s v es c rest).2) := by
  obtain ⟨_, _, _⟩ := m
  rw [insertEdges, if_neg (not_lt.mpr h.le), if_neg (ne_of_gt h)]

theorem insertEdges_descend (hd : pfx.drop (longestPrefix (c :: rest) pfx) = []) :
    insertEdges s v ((c, .mk leaf pfx edges) :: es) c rest =
      ((c, ((Node.mk leaf pfx edges).insert s v
          ((c :: rest).drop (longestPrefix (c :: rest) pfx))).1) :: es,
        ((Node.mk leaf pfx edges).insert s v
          ((c :: rest).drop (longestPrefix (c :: rest) pfx))).2) := by
  rw [insertEdges, if_neg (lt_irrefl c), if_pos rfl]
  split <;> simp_all

theorem insertEdges_split_leaf {d : κ} {drest : List κ}
    (hd : pfx.drop (longestPrefix (c :: rest) pfx) = d :: drest)
    (he : (c :: rest).drop (longestPrefix (c :: rest) pfx) = []) :
    insertEdges s v ((c, .mk leaf pfx edges) :: es) c rest =
      ((c, .mk (some (s, v)) ((c :: rest).take (longestPrefix (c :: rest) pfx))
        [(d, .mk leaf (d :: drest) edges)]) :: es, none) := by
  rw [insertEdges, if_neg (lt_irrefl c), if_pos rfl]
  split <;> simp_all

theorem insertEdges_split {d e : κ} {drest erest : List κ}
    (hd : pfx.drop (longestPrefix (c :: rest) pfx) = d :: drest)
    (he : (c :: rest).drop (longestPrefix (c :: rest) pfx) = e :: erest) :
    insertEdges s v ((c, .mk leaf pfx edges) :: es) c rest =
      ((c, .mk none ((c :: rest).take (longestPrefix (c :: rest) pfx))
        (addEdge (e, .mk (some (s, v)) (e :: erest) []) [(d, .mk leaf (d :: drest) edges)])) :: es,
        none) := by
  rw [insertEdges, if_neg (lt_irrefl c), if_pos rfl]
  split <;> simp_all

theorem addEdge_single {d e : κ} (a b : Node κ α) :
    addEdge (e, a) [(d, b)] = if e ≤ d then [(e, a), (d, b)] else [(d, b), (e, a)] := by
  simp [addEdge, List.orderedInsert]

end InsertSpec

theorem eq_append_drop_longestPrefix {a b : List κ} (h : b.drop (longestPrefix a b) = []) :
    a = b ++ a.drop (longestPrefix a b) := by
  have hlen : longestPrefix a b = b.length :=
    le_antisymm (longestPrefix_le_right a b) (List.drop_eq_nil_iff.mp h)
  conv_lhs => rw [← List.take_append_drop (longestPrefix a b) a]
  rw [take_longestPrefix, hlen, List.take_length]

theorem eq_take_append_drop_longestPrefix (a b : List κ) :
    b = a.take (longestPrefix a b) ++ b.drop (longestPrefix a b) := by
  rw [take_longestPrefix, List.take_append_drop]

theorem wf_leafNode {path s : List κ} {c : κ} {rest : List κ} (v : α) (hs : s = path ++ c :: rest) :
    (Node.mk (some (s, v)) (c :: rest) []).WF path :=
  wf_mk.mpr ⟨fun kv hkv => by cases hkv; exact hs, edgesWF_nil⟩

theorem Node.WF.cut {path P q : List κ} {leaf : Option (List κ × α)} {edges : List (κ × Node κ α)}
    (h : (Node.mk leaf (P ++ q) edges).WF path) : (Node.mk leaf q edges).WF (path ++ P) := by
  rw [wf_mk] at h ⊢
  simpa only [List.append_assoc] using h

section InsertSpec

variable {s : List κ} {v : α}

theorem mem_insertEdges : ∀ {es : List (κ × Node κ α)} {c : κ} {rest : List κ},
    ∀ e ∈ (insertEdges s v es c rest).1, e.1 = c ∨ ∃ e' ∈ es, e'.1 = e.1
  | [], c, rest, e, he => by
      rw [insertEdges_nil] at he
      exact .inl (by cases List.mem_singleton.mp he; rfl)
  | (l, .mk leaf pfx edges) :: es, c, rest, e, he => by
      rcases lt_trichotomy c l with hlt | rfl | hgt
      · rw [insertEdges_lt hlt] at he
        rcases List.mem_cons.mp he with rfl | he
        · exact .inl rfl
        · exact .inr ⟨e, he, rfl⟩
      · -- the edge of label `c` keeps its label
        have hkeep : ∀ x : Node κ α, e ∈ (c, x) :: es → e.1 = c ∨ ∃ e' ∈ (c, Node.mk leaf pfx edges) :: es, e'.1 = e.1 := by
          intro x hx
          rcases List.mem_cons.mp hx with rfl | hx
          · exact .inl rfl
          · exact .inr ⟨e, List.mem_cons_of_mem _ hx, rfl⟩
        rcases hd : pfx.drop (longestPrefix (c :: rest) pfx) with _ | ⟨d, drest⟩
        · rw [insertEdges_descend hd] at he
          exact hkeep _ he
        · rcases he' : (c :: rest).drop (longestPrefix (c :: rest) pfx) with _ | ⟨e', erest⟩
          · rw [insertEdges_split_leaf hd he'] at he
            exact hkeep _ he
          · rw [insertEdges_split hd he'] at he
            exact hkeep _ he
      · rw [insertEdges_gt hgt] at he
        rcases List.mem_cons.mp he with rfl | he
        · exact .inr ⟨_, List.mem_cons_self, rfl⟩
        · rcases mem_insertEdges e he with h | ⟨e', he', h⟩
          · exact .inl h
          · exact .inr ⟨e', List.mem_cons_of_mem _ he', h⟩

mutual
/-- `Insert` at a well-formed node keeps it well formed, keeps its prefix,
and inserts the leaf into its leaves. -/
theorem Node.WF.insert : ∀ {path : List κ} {n : Node κ α}, n.WF path →
    ∀ {search : List κ}, s = path ++ n.pfx ++ search →
      (n.insert s v search).1.WF path ∧ (n.insert s v search).1.pfx = n.pfx ∧
        (n.insert s v search).1.leaves = insertLeaf s v n.leaves
  | path, .mk (some (k, old)) pfx edges, h, [], hs => by
      rw [wf_mk] at h
      have hk : k = s := by rw [hs, pfx_mk, List.append_nil]; exact h.1 (k, old) rfl
      rw [insert_some_nil]
      refine ⟨wf_mk.mpr ⟨fun kv hkv => ?_, h.2⟩, rfl, ?_⟩
      · cases hkv
        exact h.1 (k, old) rfl
      · rw [leaves_mk, leaves_mk, hk]
        exact (insertLeaf_cons_self old).symm
  | path, .mk none pfx edges, h, [], hs => by
      rw [wf_mk] at h
      rw [pfx_mk, List.append_nil] at hs
      rw [insert_none_nil]
      refine ⟨wf_mk.mpr ⟨fun kv hkv => by cases hkv; exact hs, h.2⟩, rfl, ?_⟩
      rw [leaves_mk, leaves_mk, insertLeaf_of_forall_lt fun kv hkv => ?_]
      · rfl
      · obtain ⟨e, -, x, hx⟩ := EdgesWF.exists_of_mem h.2 kv (by simpa using hkv)
        rw [hx, hs]
        exact lt_append_cons _ _ _
  | path, .mk leaf pfx edges, h, c :: rest, hs => by
      rw [wf_mk] at h
      rw [pfx_mk] at hs
      rw [insert_cons]
      obtain ⟨hwf, hleaves⟩ := EdgesWF.insertEdges h.2 hs
      refine ⟨wf_mk.mpr ⟨h.1, hwf⟩, rfl, ?_⟩
      rw [leaves_mk, leaves_mk, hleaves, insertLeaf_append_of_lt fun kv hkv => ?_]
      rw [h.1 kv (Option.mem_toList.mp hkv), hs]
      exact lt_append_cons _ _ _

/-- `Insert` at well-formed edges keeps them well formed and inserts the leaf
into their leaves. -/
theorem EdgesWF.insertEdges : ∀ {path : List κ} {es : List (κ × Node κ α)}, EdgesWF path es →
    ∀ {c : κ} {rest : List κ}, s = path ++ c :: rest →
      EdgesWF path (insertEdges s v es c rest).1 ∧
        edgesLeaves (insertEdges s v es c rest).1 = insertLeaf s v (edgesLeaves es)
  | path, [], _, c, rest, hs => by
      rw [insertEdges_nil]
      refine ⟨edgesWF_cons.mpr ⟨rfl, wf_leafNode v hs, by simp, edgesWF_nil⟩, ?_⟩
      simp [insertLeaf]
  | path, (l, .mk leaf pfx edges) :: es, h, c, rest, hs => by
      have hall := h
      rw [edgesWF_cons] at h
      obtain ⟨hl, hm, hes, hwf⟩ := h
      rcases lt_trichotomy c l with hlt | rfl | hgt
      · -- a new leaf before every edge
        rw [insertEdges_lt hlt]
        refine ⟨edgesWF_cons.mpr ⟨rfl, wf_leafNode v hs, fun e he => ?_, hall⟩, ?_⟩
        · rcases List.mem_cons.mp he with rfl | he
          · exact hlt
          · exact hlt.trans (hes e he)
        · rw [edgesLeaves_cons, leaves_mk, insertLeaf_of_forall_lt]
          · rfl
          · rw [hs]
            refine hall.lt_of_mem (fun e he => ?_) rest
            rcases List.mem_cons.mp he with rfl | he
            · exact hlt
            · exact hlt.trans (hes e he)
      · have hlater : ∀ kv ∈ edgesLeaves es, s < kv.1 := by
          rw [hs]
          exact hwf.lt_of_mem hes rest
        rcases hd : pfx.drop (longestPrefix (c :: rest) pfx) with _ | ⟨d, drest⟩
        · -- the prefix of the child is consumed: insert below it
          rw [insertEdges_descend hd]
          have hs' : s = path ++ (Node.mk leaf pfx edges).pfx ++
              (c :: rest).drop (longestPrefix (c :: rest) pfx) := by
            rw [hs, pfx_mk, List.append_assoc, ← eq_append_drop_longestPrefix hd]
          obtain ⟨hwf', hpfx', hleaves'⟩ := Node.WF.insert hm hs'
          refine ⟨edgesWF_cons.mpr ⟨by rw [hpfx']; exact hl, hwf', hes, hwf⟩, ?_⟩
          rw [edgesLeaves_cons, edgesLeaves_cons, hleaves', insertLeaf_append_of_gt hlater]
        · -- the child is split after the common prefix
          obtain ⟨P, hP⟩ : ∃ P, (c :: rest).take (longestPrefix (c :: rest) pfx) = P := ⟨_, rfl⟩
          have hpfx : pfx = P ++ d :: drest := by
            rw [← hP, ← hd]
            exact eq_take_append_drop_longestPrefix (c :: rest) pfx
          have hkeys : ∀ kv ∈ (Node.mk leaf pfx edges).leaves, ∃ t,
              kv.1 = path ++ P ++ d :: (drest ++ t) := by
            intro kv hkv
            obtain ⟨t, ht⟩ := hm.prefix_leaves kv hkv
            exact ⟨t, by rw [← ht, pfx_mk, hpfx]; simp⟩
          have hcut : (Node.mk leaf (d :: drest) edges).WF (path ++ P) :=
            Node.WF.cut (by rw [← hpfx]; exact hm)
          rcases he : (c :: rest).drop (longestPrefix (c :: rest) pfx) with _ | ⟨e, erest⟩
          · -- the key ends at the split: the new node holds its leaf
            have hcr : c :: rest = P := by
              rw [← hP]
              simpa [he] using (List.take_append_drop (longestPrefix (c :: rest) pfx) (c :: rest)).symm
            rw [insertEdges_split_leaf hd he, hP]
            refine ⟨edgesWF_cons.mpr ⟨by rw [pfx_mk, ← hcr]; rfl,
              wf_mk.mpr ⟨fun kv hkv => by cases hkv; rw [hs, ← hcr],
                edgesWF_cons.mpr ⟨rfl, hcut, by simp, edgesWF_nil⟩⟩, hes, hwf⟩, ?_⟩
            rw [edgesLeaves_cons, edgesLeaves_cons, leaves_mk, leaves_mk, edgesLeaves_cons,
              edgesLeaves_nil, List.append_nil, ← leaves_mk leaf pfx edges, insertLeaf_of_forall_lt]
            · rfl
            · intro kv hkv
              rcases List.mem_append.mp hkv with hkv | hkv
              · obtain ⟨t, ht⟩ := hkeys kv hkv
                rw [ht, hs, hcr]
                exact lt_append_cons _ _ _
              · exact hlater kv hkv
          · -- the key goes on after the split: the new node has two edges
            have hne : e ≠ d := longestPrefix_drop_ne he hd
            have hcr : c :: rest = P ++ e :: erest := by
              rw [← hP, ← he, List.take_append_drop]
            have hhead : P.head? = some c := by
              rw [← hP]
              obtain ⟨p', rfl⟩ : ∃ p', pfx = c :: p' := by
                cases pfx with
                | nil => cases hl
                | cons a p' =>
                    rw [pfx_mk, List.head?_cons, Option.some.injEq] at hl
                    exact ⟨p', by rw [hl]⟩
              rw [longestPrefix_cons_self, List.take_succ_cons, List.head?_cons]
            have hleaf : (Node.mk (some (s, v)) (e :: erest) []).WF (path ++ P) :=
              wf_leafNode v (by rw [hs, List.append_assoc, ← hcr])
            rw [insertEdges_split hd he, hP, addEdge_single]
            rcases lt_or_gt_of_ne hne with hed | hde
            · -- the new leaf comes first
              rw [if_pos hed.le]
              refine ⟨edgesWF_cons.mpr ⟨hhead, wf_mk.mpr ⟨by simp,
                edgesWF_cons.mpr ⟨rfl, hleaf, by simpa using hed,
                  edgesWF_cons.mpr ⟨rfl, hcut, by simp, edgesWF_nil⟩⟩⟩, hes, hwf⟩, ?_⟩
              rw [edgesLeaves_cons, edgesLeaves_cons, leaves_mk, edgesLeaves_cons, edgesLeaves_cons,
                edgesLeaves_nil, leaves_mk, leaves_mk, ← leaves_mk leaf pfx edges,
                insertLeaf_of_forall_lt]
              · simp
              · intro kv hkv
                rcases List.mem_append.mp hkv with hkv | hkv
                · obtain ⟨t, ht⟩ := hkeys kv hkv
                  rw [ht, hs, hcr, ← List.append_assoc]
                  exact append_cons_lt_append_cons _ hed _ _
                · exact hlater kv hkv
            · -- the new leaf comes after the child
              rw [if_neg (not_le.mpr hde)]
              refine ⟨edgesWF_cons.mpr ⟨hhead, wf_mk.mpr ⟨by simp,
                edgesWF_cons.mpr ⟨rfl, hcut, by simpa using hde,
                  edgesWF_cons.mpr ⟨rfl, hleaf, by simp, edgesWF_nil⟩⟩⟩, hes, hwf⟩, ?_⟩
              rw [edgesLeaves_cons, edgesLeaves_cons, leaves_mk, edgesLeaves_cons, edgesLeaves_cons,
                edgesLeaves_nil, leaves_mk, leaves_mk, ← leaves_mk leaf pfx edges,
                insertLeaf_append_of_lt, insertLeaf_of_forall_lt hlater]
              · simp
              · intro kv hkv
                obtain ⟨t, ht⟩ := hkeys kv hkv
                rw [ht, hs, hcr, ← List.append_assoc]
                exact append_cons_lt_append_cons _ hde _ _
      · -- past this edge
        rw [insertEdges_gt hgt]
        obtain ⟨hwf', hleaves'⟩ := EdgesWF.insertEdges hwf hs
        refine ⟨edgesWF_cons.mpr ⟨hl, hm, fun e he => ?_, hwf'⟩, ?_⟩
        · rcases mem_insertEdges e he with h | ⟨e', he', h⟩
          · rw [h]; exact hgt
          · rw [← h]; exact hes e' he'
        · rw [edgesLeaves_cons, edgesLeaves_cons, hleaves', insertLeaf_append_of_lt]
          intro kv hkv
          obtain ⟨x, hx⟩ := hm.exists_cons hl kv hkv
          rw [hx, hs]
          exact append_cons_lt_append_cons _ hgt _ _
end

end InsertSpec

/-! ## `Delete` -/

section DeleteSpec

variable {l c : κ} {rest : List κ} {leaf : Option (List κ × α)} {pfx : List κ}
  {edges es : List (κ × Node κ α)} {m : Node κ α}

theorem delete_none_nil : (Node.mk none pfx edges).delete [] = (.mk none pfx edges, none) := by
  rw [Node.delete]

theorem delete_some_nil (k : List κ) (val : α) :
    (Node.mk (some (k, val)) pfx edges).delete [] = (mergeChild pfx edges, some val) := by
  rw [Node.delete]

theorem delete_cons : (Node.mk leaf pfx edges).delete (c :: rest) =
    (.mk leaf pfx (deleteEdges edges c rest).1, (deleteEdges edges c rest).2) := by
  rw [Node.delete]

@[simp] theorem deleteEdges_nil : deleteEdges ([] : List (κ × Node κ α)) c rest = ([], none) := by
  rw [deleteEdges]

theorem deleteEdges_cons : deleteEdges ((l, m) :: es) c rest =
    if c < l then ((l, m) :: es, none)
    else if c = l then
      (if m.pfx <+: c :: rest then
        ((l, (m.delete ((c :: rest).drop m.pfx.length)).1) :: es,
          (m.delete ((c :: rest).drop m.pfx.length)).2)
      else ((l, m) :: es, none))
    else ((l, m) :: (deleteEdges es c rest).1, (deleteEdges es c rest).2) := by
  obtain ⟨_, _, _⟩ := m
  rw [deleteEdges]
  rfl

omit [LinearOrder κ] in
theorem leaves_mergeChild (pfx : List κ) (edges : List (κ × Node κ α)) :
    (mergeChild pfx edges).leaves = edgesLeaves edges := by
  unfold mergeChild
  split <;> simp

theorem Node.WF.mergeChild {path pfx : List κ} {edges : List (κ × Node κ α)}
    (h : EdgesWF (path ++ pfx) edges) : (mergeChild pfx edges).WF path := by
  unfold RadixTree.mergeChild
  split
  · rename_i l cleaf cpfx cedges
    rw [edgesWF_cons, wf_mk] at h
    rw [wf_mk, ← List.append_assoc]
    exact h.2.1
  · exact wf_mk.mpr ⟨by simp, h⟩

omit [LinearOrder κ] in
theorem head?_pfx_mergeChild (hp : pfx ≠ []) (edges : List (κ × Node κ α)) :
    (mergeChild pfx edges).pfx.head? = pfx.head? := by
  unfold mergeChild
  split
  · rw [pfx_mk, List.head?_append_of_ne_nil _ hp]
  · rfl

theorem map_fst_deleteEdges : ∀ (es : List (κ × Node κ α)) (c : κ) (rest : List κ),
    (deleteEdges es c rest).1.map Prod.fst = es.map Prod.fst
  | [], _, _ => by simp
  | (l, m) :: es, c, rest => by
      rw [deleteEdges_cons]
      split_ifs <;> simp [map_fst_deleteEdges es c rest]

mutual
/-- `Delete` at a well-formed node keeps it well formed, keeps the first
letter of its prefix unless the prefix is empty, and deletes the key from
its leaves. -/
theorem Node.WF.delete : ∀ {path : List κ} {n : Node κ α}, n.WF path → ∀ (search : List κ),
    (n.delete search).1.WF path ∧ (n.pfx ≠ [] → (n.delete search).1.pfx.head? = n.pfx.head?) ∧
      (n.delete search).1.leaves = GoMap.delete n.leaves (path ++ n.pfx ++ search)
  | path, .mk none pfx edges, h, [] => by
      rw [delete_none_nil, GoMap.delete_of_get?_eq_none]
      · exact ⟨h, fun _ => rfl, rfl⟩
      · rw [← Node.WF.get_eq h, get_mk_nil]
        rfl
  | path, .mk (some (k, val)) pfx edges, h, [] => by
      rw [wf_mk] at h
      rw [delete_some_nil]
      refine ⟨Node.WF.mergeChild h.2, fun hp => head?_pfx_mergeChild hp edges, ?_⟩
      have hbelow : GoMap.get? (edgesLeaves edges) (path ++ pfx) = none :=
        GoMap.get?_eq_none_iff.mpr fun kv hkv heq => by
          obtain ⟨e, -, x, hx⟩ := EdgesWF.exists_of_mem h.2 kv hkv
          simp [hx] at heq
      have hk : k = path ++ pfx := h.1 (k, val) rfl
      rw [leaves_mergeChild, leaves_mk, pfx_mk, List.append_nil, GoMap.delete_append,
        GoMap.delete_of_get?_eq_none hbelow, ← hk]
      simp [GoMap.delete]
  | path, .mk leaf pfx edges, h, c :: rest => by
      rw [wf_mk] at h
      rw [delete_cons]
      obtain ⟨hwf, hleaves⟩ := EdgesWF.deleteEdges h.2 c rest
      refine ⟨wf_mk.mpr ⟨h.1, hwf⟩, fun _ => rfl, ?_⟩
      have hleaf : GoMap.get? leaf.toList (path ++ pfx ++ c :: rest) = none :=
        GoMap.get?_eq_none_iff.mpr fun kv hkv heq => by
          rw [h.1 kv (Option.mem_toList.mp hkv)] at heq
          simp at heq
      rw [leaves_mk, leaves_mk, hleaves, pfx_mk, GoMap.delete_append,
        GoMap.delete_of_get?_eq_none hleaf]

/-- `Delete` at well-formed edges keeps them well formed and deletes the key
from their leaves. -/
theorem EdgesWF.deleteEdges : ∀ {path : List κ} {es : List (κ × Node κ α)}, EdgesWF path es →
    ∀ (c : κ) (rest : List κ),
      EdgesWF path (deleteEdges es c rest).1 ∧
        edgesLeaves (deleteEdges es c rest).1 = GoMap.delete (edgesLeaves es) (path ++ c :: rest)
  | _, [], _, c, rest => by simp [GoMap.delete]
  | path, (l, m) :: es, h, c, rest => by
      have hall := h
      rw [edgesWF_cons] at h
      obtain ⟨hl, hm, hes, hwf⟩ := h
      have hmiss : getEdges ((l, m) :: es) c rest = none →
          EdgesWF path ((l, m) :: es) ∧ edgesLeaves ((l, m) :: es) =
            GoMap.delete (edgesLeaves ((l, m) :: es)) (path ++ c :: rest) := fun hnone =>
        ⟨hall, (GoMap.delete_of_get?_eq_none (by rw [← hall.getEdges_eq c rest, hnone])).symm⟩
      rw [deleteEdges_cons]
      by_cases hlt : c < l
      · rw [if_pos hlt]
        exact hmiss (by rw [getEdges_cons, if_pos hlt])
      · rw [if_neg hlt]
        by_cases heq : c = l
        · subst heq
          rw [if_pos rfl]
          split_ifs with hp
          · -- the child's prefix is consumed: delete below it
            obtain ⟨hwf', hhead', hleaves'⟩ := Node.WF.delete hm ((c :: rest).drop m.pfx.length)
            have hne : m.pfx ≠ [] := fun h' => by rw [h'] at hl; cases hl
            refine ⟨edgesWF_cons.mpr ⟨by rw [hhead' hne]; exact hl, hwf', hes, hwf⟩, ?_⟩
            have hsplit : m.pfx ++ (c :: rest).drop m.pfx.length = c :: rest :=
              List.prefix_iff_eq_append.mp hp
            rw [edgesLeaves_cons, edgesLeaves_cons, hleaves', List.append_assoc, hsplit,
              GoMap.delete_append,
              GoMap.delete_of_get?_eq_none (hwf.get?_eq_none (fun e he => ne_of_gt (hes e he)) rest)]
          · exact hmiss (by rw [getEdges_cons, if_neg hlt, if_pos rfl, if_neg hp])
        · rw [if_neg heq]
          obtain ⟨hwf', hleaves'⟩ := EdgesWF.deleteEdges hwf c rest
          refine ⟨edgesWF_cons.mpr ⟨hl, hm, fun e he => ?_, hwf'⟩, ?_⟩
          · obtain ⟨e', he', hfst⟩ : ∃ e' ∈ es, e'.1 = e.1 := by
              have : e.1 ∈ (deleteEdges es c rest).1.map Prod.fst := List.mem_map_of_mem he
              rw [map_fst_deleteEdges] at this
              simpa using this
            rw [← hfst]
            exact hes e' he'
          · rw [edgesLeaves_cons, edgesLeaves_cons, hleaves', GoMap.delete_append,
              GoMap.delete_of_get?_eq_none (hm.get?_eq_none hl (Ne.symm heq) rest)]
end

end DeleteSpec

/-! ## Trees -/

/-- `Tree`: the edges of its root, a node of no prefix and no leaf (every key
stored is not empty). -/
structure Tree (κ : Type u) (α : Type v) [LinearOrder κ] where
  edges : List (κ × Node κ α)
  wf : EdgesWF [] edges

theorem get?_insertLeaf (k : List κ) (v : α) (ls : List (List κ × α)) (k' : List κ) :
    GoMap.get? (insertLeaf k v ls) k' = if k' = k then some v else GoMap.get? ls k' := by
  induction ls with
  | nil =>
      by_cases hk : k' = k
      · simp [insertLeaf, GoMap.get?_cons, hk]
      · simp [insertLeaf, GoMap.get?_cons, hk, Ne.symm hk]
  | cons l ls ih =>
      rw [insertLeaf]
      by_cases hlt : k < l.1
      · rw [if_pos hlt, GoMap.get?_cons]
        by_cases hk : k' = k
        · simp [hk]
        · simp [hk, Ne.symm hk]
      · rw [if_neg hlt]
        by_cases heq : k = l.1
        · -- the leaf replaced has the key written
          rw [if_pos heq, GoMap.get?_cons, GoMap.get?_cons, heq]
          by_cases hk : k' = l.1
          · simp [hk]
          · simp [hk, Ne.symm hk]
        · rw [if_neg heq, GoMap.get?_cons, ih, GoMap.get?_cons]
          by_cases hk : k' = k
          · simp [hk, Ne.symm heq]
          · simp [hk]

theorem Node.WF.edgesWF_root {n : Node κ α} (h : n.WF []) (hp : n.pfx = []) : EdgesWF [] n.edges := by
  obtain ⟨leaf, pfx, edges⟩ := n
  rw [wf_mk] at h
  rw [pfx_mk] at hp
  subst hp
  exact h.2

namespace Tree

variable (t : Tree κ α)

def root : Node κ α := .mk none [] t.edges

/-- The leaves of a tree, in pre-order. -/
def leaves : List (List κ × α) := t.root.leaves

theorem root_wf : t.root.WF [] := wf_mk.mpr ⟨by simp, by simpa using t.wf⟩

/-- `New`: the tree of no leaf. -/
def New : Tree κ α := ⟨[], edgesWF_nil⟩

/-- `Get`: the value stored under `k`. -/
def Get (k : List κ) : Option α := t.root.get k

theorem pfx_insert_root {k : List κ} (v : α) (hk : k ≠ []) : (t.root.insert k v k).1.pfx = [] := by
  obtain ⟨c, rest, rfl⟩ := List.exists_cons_of_ne_nil hk
  rw [root, insert_cons]
  rfl

/-- `Insert`: store `v` under the key `k`, which is not empty. -/
def Insert (k : List κ) (v : α) (hk : k ≠ []) : Tree κ α :=
  ⟨(t.root.insert k v k).1.edges,
    ((t.root_wf.insert (by simp [root])).1).edgesWF_root (t.pfx_insert_root v hk)⟩

theorem pfx_delete_root (k : List κ) : (t.root.delete k).1.pfx = [] := by
  cases k with
  | nil => rw [root, delete_none_nil]; rfl
  | cons c rest => rw [root, delete_cons]; rfl

/-- `Delete`: remove the leaf of `k`. -/
def Delete (k : List κ) : Tree κ α :=
  ⟨(t.root.delete k).1.edges, ((t.root_wf.delete k).1).edgesWF_root (t.pfx_delete_root k)⟩

theorem root_Insert {k : List κ} (v : α) (hk : k ≠ []) : (t.Insert k v hk).root = (t.root.insert k v k).1 := by
  obtain ⟨c, rest, rfl⟩ := List.exists_cons_of_ne_nil hk
  simp only [Insert, root, insert_cons, edges_mk]

theorem root_Delete (k : List κ) : (t.Delete k).root = (t.root.delete k).1 := by
  cases k with
  | nil => simp only [Delete, root, delete_none_nil, edges_mk]
  | cons c rest => simp only [Delete, root, delete_cons, edges_mk]

theorem Get_eq (k : List κ) : t.Get k = GoMap.get? t.leaves k := by
  rw [Get, t.root_wf.get_eq k, leaves]
  rfl

theorem sorted : t.leaves.Pairwise fun a b => a.1 < b.1 :=
  t.root_wf.sorted

theorem leaves_Insert {k : List κ} (v : α) (hk : k ≠ []) : (t.Insert k v hk).leaves = insertLeaf k v t.leaves := by
  rw [leaves, root_Insert, (t.root_wf.insert (by simp [root])).2.2]
  rfl

theorem leaves_Delete (k : List κ) : (t.Delete k).leaves = GoMap.delete t.leaves k := by
  rw [leaves, root_Delete, (t.root_wf.delete k).2.2]
  rfl

@[simp] theorem Get_New (k : List κ) : (New : Tree κ α).Get k = none := by
  rw [Get_eq]
  rfl

@[simp] theorem Get_Insert {k : List κ} (v : α) (hk : k ≠ []) (k' : List κ) :
    (t.Insert k v hk).Get k' = if k' = k then some v else t.Get k' := by
  rw [Get_eq, Get_eq, leaves_Insert, get?_insertLeaf]

@[simp] theorem Get_Delete (k k' : List κ) :
    (t.Delete k).Get k' = if k' = k then none else t.Get k' := by
  rw [Get_eq, Get_eq, leaves_Delete, GoMap.get?_delete]

theorem nodup_keys : (GoMap.keys t.leaves).Nodup :=
  (List.pairwise_map.mpr t.sorted).imp ne_of_lt

theorem Get_eq_some_iff {k : List κ} {v : α} : t.Get k = some v ↔ (k, v) ∈ t.leaves := by
  rw [Get_eq]
  exact ⟨GoMap.mem_of_get?, GoMap.get?_of_mem t.nodup_keys⟩

end Tree

end Operations

/-! ## Keys made of segments -/

section Segments

variable {σ : Type*} {sep : σ}

theorem append_cons_inj {a a' x y : List σ} (ha : sep ∉ a) (ha' : sep ∉ a') :
    a ++ sep :: x = a' ++ sep :: y ↔ a = a' ∧ x = y := by
  induction a generalizing a' with
  | nil =>
      cases a' with
      | nil => simp
      | cons b a' =>
          have hb : sep ≠ b := fun h => ha' (h ▸ List.mem_cons_self)
          simp [hb]
  | cons c a ih =>
      have hc : c ≠ sep := fun h => ha (h ▸ List.mem_cons_self)
      cases a' with
      | nil => simp [hc]
      | cons b a' =>
          rw [List.mem_cons, not_or] at ha ha'
          simp only [List.cons_append, List.cons.injEq, ih ha.2 ha'.2]
          tauto

theorem append_cons_prefix_iff {a a' x y : List σ} (ha : sep ∉ a) (ha' : sep ∉ a') :
    a ++ sep :: x <+: a' ++ sep :: y ↔ a = a' ∧ x <+: y := by
  induction a generalizing a' with
  | nil =>
      cases a' with
      | nil => simp
      | cons b a' =>
          have hb : sep ≠ b := fun h => ha' (h ▸ List.mem_cons_self)
          simp [hb]
  | cons c a ih =>
      have hc : c ≠ sep := fun h => ha (h ▸ List.mem_cons_self)
      cases a' with
      | nil => simp [hc]
      | cons b a' =>
          rw [List.mem_cons, not_or] at ha ha'
          simp only [List.cons_append, List.cons_prefix_cons, ih ha.2 ha'.2, List.cons.injEq]
          tauto

/-- A prefix with no separator is a prefix of a key exactly when it is one of
the key's first segment. -/
theorem prefix_append_cons_iff {a a' y : List σ} (ha : sep ∉ a) :
    a <+: a' ++ sep :: y ↔ a <+: a' := by
  refine ⟨fun h => ?_, fun h => h.trans (List.prefix_append _ _)⟩
  induction a generalizing a' with
  | nil => exact List.nil_prefix
  | cons c a ih =>
      have hc : c ≠ sep := fun h => ha (h ▸ List.mem_cons_self)
      cases a' with
      | nil => simp [hc] at h
      | cons b a' =>
          rw [List.cons_append, List.cons_prefix_cons] at h
          rw [List.cons_prefix_cons]
          exact ⟨h.1, ih (fun hs => ha (List.mem_cons_of_mem _ hs)) h.2⟩

end Segments

end RadixTree
