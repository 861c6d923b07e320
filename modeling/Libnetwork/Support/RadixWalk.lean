import Mathlib
import Libnetwork.Support.RadixTree

/-!
# Walks of a radix tree that write it

`Walk` and `WalkPrefix` call their function on the leaves of the tree, and a
function may write the tree while the walk goes on: an `Insert` that gives a
leaf a new value or a `Delete` of its key, made from the leaf's own key.  The
walk reads the edges of a node only once the function has returned, and a
`Delete` merges the node of the key with its only child: the walk then goes
on over the edges of that child and never calls its function on the child's
own leaf.

When what the function does at a leaf depends on the leaf alone, the walk is
its effect on the tree, `walked`, and the calls it makes, `visits`.  The
leaves the walk leaves are the old ones, each called with replaced by what
its effect leaves of it (`LeavesWalked`), and every leaf it skips lies under
one that it deleted.  When no key under the prefix is a proper prefix of
another, the walk calls its function on all of them.
-/

namespace RadixTree

universe u v w

/-- What the function of a walk does at the leaf it is called with: nothing,
an `Insert` of a new value under the leaf's key, or a `Delete` of the key. -/
inductive Effect (α : Type v) where
  | keep
  | set (v : α)
  | delete

/-- The value a leaf of value `v` holds after an effect, if it stays. -/
def Effect.value {α : Type v} : Effect α → α → Option α
  | .keep, v => some v
  | .set v', _ => some v'
  | .delete, _ => none

@[simp] theorem Effect.value_keep {α : Type v} (v : α) : Effect.keep.value v = some v := rfl

@[simp] theorem Effect.value_set {α : Type v} (v' v : α) : (Effect.set v').value v = some v' := rfl

@[simp] theorem Effect.value_delete {α : Type v} (v : α) : Effect.delete.value v = none := rfl

/-- What a key reads after an effect at it, from what it read. -/
def Effect.result {α : Type v} : Effect α → Option α → Option α
  | .keep, o => o
  | .set v, _ => some v
  | .delete, _ => none

@[simp] theorem Effect.result_some {α : Type v} (a : Effect α) (v : α) : a.result (some v) = a.value v := by
  cases a <;> rfl

open Node

section Walks

variable {κ : Type u} {α : Type v} [LinearOrder κ] {σ : Type w}

mutual
/-- `recursiveWalk`, with a function that never stops the walk and may write
the tree at the leaf it is called with.  The edges of the node are read once
the function has returned: when the function deleted the node's leaf and
`Delete` merged the node with its only child, the walk goes on over the
edges of that child, whose leaf it never visits. -/
def Node.recursiveWalk {σ : Type w} (fn : List κ → α → σ → Effect α × σ) :
    Node κ α → σ → Node κ α × σ
  | .mk none pfx edges, st =>
      let r := walkEdges fn edges st
      (.mk none pfx r.1, r.2)
  | .mk (some (k, v)) pfx edges, st =>
      match fn k v st with
      | (.keep, st) =>
          let r := walkEdges fn edges st
          (.mk (some (k, v)) pfx r.1, r.2)
      | (.set v', st) =>
          let r := walkEdges fn edges st
          (.mk (some (k, v')) pfx r.1, r.2)
      | (.delete, st) =>
          match edges with
          | [(_, .mk cleaf cpfx cedges)] =>
              let r := walkEdges fn cedges st
              (.mk cleaf (pfx ++ cpfx) r.1, r.2)
          | edges =>
              let r := walkEdges fn edges st
              (.mk none pfx r.1, r.2)

/-- The range over the edges of a node, each child walked in turn. -/
def walkEdges {σ : Type w} (fn : List κ → α → σ → Effect α × σ) :
    List (κ × Node κ α) → σ → List (κ × Node κ α) × σ
  | [], st => ([], st)
  | (l, m) :: es, st =>
      let r := m.recursiveWalk fn st
      let r' := walkEdges fn es r.2
      ((l, r.1) :: r'.1, r'.2)
end

mutual
/-- The loop of `WalkPrefix` at node `n`, once the prefix of `n` is consumed,
with `search` the rest of the prefix walked. -/
def Node.walkPrefix {σ : Type w} (fn : List κ → α → σ → Effect α × σ) :
    Node κ α → List κ → σ → Node κ α × σ
  | n, [], st => n.recursiveWalk fn st
  | .mk leaf pfx edges, c :: rest, st =>
      let r := walkPrefixEdges fn edges c rest st
      (.mk leaf pfx r.1, r.2)

/-- The step of `WalkPrefix` at the edges of a node: the child of label `c`
is entered when `search` consumes its prefix, and walked whole when its
prefix extends `search`. -/
def walkPrefixEdges {σ : Type w} (fn : List κ → α → σ → Effect α × σ) :
    List (κ × Node κ α) → κ → List κ → σ → List (κ × Node κ α) × σ
  | [], _, _, st => ([], st)
  | (l, m@(.mk _ pfx _)) :: es, c, rest, st =>
      if c < l then ((l, m) :: es, st)
      else if c = l then
        if pfx <+: c :: rest then
          let r := m.walkPrefix fn ((c :: rest).drop pfx.length) st
          ((l, r.1) :: es, r.2)
        else if c :: rest <+: pfx then
          let r := m.recursiveWalk fn st
          ((l, r.1) :: es, r.2)
        else ((l, m) :: es, st)
      else
        let r := walkPrefixEdges fn es c rest st
        ((l, m) :: r.1, r.2)
end


section Spec

omit [LinearOrder κ]

variable (fn : List κ → α → σ → Effect α × σ) {pfx : List κ} {edges : List (κ × Node κ α)}
  {st st' : σ}

theorem recursiveWalk_none : (Node.mk none pfx edges).recursiveWalk fn st =
    (.mk none pfx (walkEdges fn edges st).1, (walkEdges fn edges st).2) := by
  rw [Node.recursiveWalk]

theorem recursiveWalk_keep {k : List κ} {v : α} (h : fn k v st = (.keep, st')) :
    (Node.mk (some (k, v)) pfx edges).recursiveWalk fn st =
      (.mk (some (k, v)) pfx (walkEdges fn edges st').1, (walkEdges fn edges st').2) := by
  rw [Node.recursiveWalk, h]

theorem recursiveWalk_set {k : List κ} {v v' : α} (h : fn k v st = (.set v', st')) :
    (Node.mk (some (k, v)) pfx edges).recursiveWalk fn st =
      (.mk (some (k, v')) pfx (walkEdges fn edges st').1, (walkEdges fn edges st').2) := by
  rw [Node.recursiveWalk, h]

/-- A deleted leaf: the walk goes on over the edges of the node `Delete`
leaves, the node merged with its child when it had one edge. -/
theorem recursiveWalk_delete {k : List κ} {v : α} (h : fn k v st = (.delete, st')) :
    (Node.mk (some (k, v)) pfx edges).recursiveWalk fn st =
      (.mk (mergeChild pfx edges).leaf (mergeChild pfx edges).pfx
        (walkEdges fn (mergeChild pfx edges).edges st').1,
        (walkEdges fn (mergeChild pfx edges).edges st').2) := by
  rw [Node.recursiveWalk, h]
  rcases edges with _ | ⟨⟨l, ⟨cleaf, cpfx, cedges⟩⟩, _ | ⟨e, es⟩⟩ <;> rfl

@[simp] theorem walkEdges_nil : walkEdges fn ([] : List (κ × Node κ α)) st = ([], st) := by
  rw [walkEdges]

theorem walkEdges_cons (l : κ) (m : Node κ α) (es : List (κ × Node κ α)) :
    walkEdges fn ((l, m) :: es) st =
      ((l, (m.recursiveWalk fn st).1) :: (walkEdges fn es (m.recursiveWalk fn st).2).1,
        (walkEdges fn es (m.recursiveWalk fn st).2).2) := by
  rw [walkEdges]

end Spec


section Merge

omit [LinearOrder κ]

@[simp] theorem mergeChild_nil (pfx : List κ) : mergeChild pfx ([] : List (κ × Node κ α)) = .mk none pfx [] :=
  rfl

@[simp] theorem mergeChild_single (pfx : List κ) (l : κ) (cleaf : Option (List κ × α))
    (cpfx : List κ) (cedges : List (κ × Node κ α)) :
    mergeChild pfx [(l, .mk cleaf cpfx cedges)] = .mk cleaf (pfx ++ cpfx) cedges :=
  rfl

@[simp] theorem mergeChild_cons_cons (pfx : List κ) (e e' : κ × Node κ α) (es : List (κ × Node κ α)) :
    mergeChild pfx (e :: e' :: es) = .mk none pfx (e :: e' :: es) := by
  obtain ⟨l, ⟨_, _, _⟩⟩ := e
  rfl

end Merge

variable {fn : List κ → α → σ → Effect α × σ}

mutual
/-- A walk keeps a well-formed node well formed, and keeps the first letter
of its prefix unless the prefix is empty. -/
theorem Node.WF.recursiveWalk : ∀ {path : List κ} {n : Node κ α}, n.WF path → ∀ st : σ,
    (n.recursiveWalk fn st).1.WF path ∧
      (n.pfx ≠ [] → (n.recursiveWalk fn st).1.pfx.head? = n.pfx.head?)
  | _, .mk none pfx edges, h, st => by
      rw [wf_mk] at h
      rw [recursiveWalk_none]
      exact ⟨wf_mk.mpr ⟨by simp, (EdgesWF.walkEdges h.2 st).1⟩, fun _ => rfl⟩
  | _, .mk (some (k, v)) pfx edges, h, st => by
      rw [wf_mk] at h
      rcases hfn : fn k v st with ⟨_ | v' | _, st'⟩
      · rw [recursiveWalk_keep fn hfn]
        exact ⟨wf_mk.mpr ⟨h.1, (EdgesWF.walkEdges h.2 st').1⟩, fun _ => rfl⟩
      · rw [recursiveWalk_set fn hfn]
        refine ⟨wf_mk.mpr ⟨?_, (EdgesWF.walkEdges h.2 st').1⟩, fun _ => rfl⟩
        rintro _ hkv
        rw [← Option.mem_some_iff.mp hkv]
        exact h.1 (k, v) rfl
      · -- the node merged with its only child goes on with the child's edges
        rw [recursiveWalk_delete fn hfn]
        refine ⟨?_, fun hp => head?_pfx_mergeChild hp edges⟩
        have hm := Node.WF.mergeChild h.2
        rcases edges with _ | ⟨⟨l, ⟨cleaf, cpfx, cedges⟩⟩, _ | ⟨e, es⟩⟩ <;>
          simp only [mergeChild_nil, mergeChild_single, mergeChild_cons_cons, leaf_mk, pfx_mk,
            edges_mk, wf_mk] at hm ⊢
        · exact ⟨hm.1, (EdgesWF.walkEdges hm.2 st').1⟩
        · exact ⟨hm.1, (EdgesWF.walkEdges hm.2 st').1⟩
        · exact ⟨hm.1, (EdgesWF.walkEdges hm.2 st').1⟩

theorem EdgesWF.walkEdges : ∀ {path : List κ} {es : List (κ × Node κ α)}, EdgesWF path es →
    ∀ st : σ, EdgesWF path (walkEdges fn es st).1 ∧
      (walkEdges fn es st).1.map Prod.fst = es.map Prod.fst
  | _, [], _, st => by simp
  | _, (l, m) :: es, h, st => by
      rw [edgesWF_cons] at h
      obtain ⟨hl, hm, hlt, hes⟩ := h
      obtain ⟨hwf, hhead⟩ := Node.WF.recursiveWalk hm st
      obtain ⟨hwf', hfst⟩ := EdgesWF.walkEdges hes (m.recursiveWalk fn st).2
      have hne : m.pfx ≠ [] := fun h' => by rw [h'] at hl; cases hl
      rw [walkEdges_cons]
      refine ⟨edgesWF_cons.mpr ⟨by rw [hhead hne, hl], hwf, fun e he => ?_, hwf'⟩, by simp [hfst]⟩
      obtain ⟨e', he', hfst'⟩ : ∃ e' ∈ es, e'.1 = e.1 := by
        have : e.1 ∈ (walkEdges fn es (m.recursiveWalk fn st).2).1.map Prod.fst :=
          List.mem_map_of_mem he
        rw [hfst] at this
        simpa using this
      rw [← hfst']
      exact hlt e' he'
end


section PrefixSpec

variable (fn : List κ → α → σ → Effect α × σ) {pfx : List κ} {edges : List (κ × Node κ α)}
  {leaf : Option (List κ × α)} {st : σ}

theorem walkPrefix_nil (n : Node κ α) : n.walkPrefix fn [] st = n.recursiveWalk fn st := by
  rw [Node.walkPrefix]

theorem walkPrefix_cons (c : κ) (rest : List κ) :
    (Node.mk leaf pfx edges).walkPrefix fn (c :: rest) st =
      (.mk leaf pfx (walkPrefixEdges fn edges c rest st).1, (walkPrefixEdges fn edges c rest st).2) := by
  rw [Node.walkPrefix]

@[simp] theorem walkPrefixEdges_nil (c : κ) (rest : List κ) :
    walkPrefixEdges fn ([] : List (κ × Node κ α)) c rest st = ([], st) := by
  rw [walkPrefixEdges]

theorem walkPrefixEdges_cons (l c : κ) (m : Node κ α) (es : List (κ × Node κ α)) (rest : List κ) :
    walkPrefixEdges fn ((l, m) :: es) c rest st =
      if c < l then ((l, m) :: es, st)
      else if c = l then
        if m.pfx <+: c :: rest then
          ((l, (m.walkPrefix fn ((c :: rest).drop m.pfx.length) st).1) :: es,
            (m.walkPrefix fn ((c :: rest).drop m.pfx.length) st).2)
        else if c :: rest <+: m.pfx then
          ((l, (m.recursiveWalk fn st).1) :: es, (m.recursiveWalk fn st).2)
        else ((l, m) :: es, st)
      else ((l, m) :: (walkPrefixEdges fn es c rest st).1, (walkPrefixEdges fn es c rest st).2) := by
  obtain ⟨_, _, _⟩ := m
  rw [walkPrefixEdges]
  rfl

/-- A walk under a prefix from a node of no leaf leaves a node of no leaf and
the same prefix. -/
theorem walkPrefix_mk_none (search : List κ) :
    ((Node.mk none pfx edges).walkPrefix fn search st).1 =
      .mk none pfx ((Node.mk none pfx edges).walkPrefix fn search st).1.edges := by
  cases search with
  | nil => rw [walkPrefix_nil, recursiveWalk_none]; rfl
  | cons c rest => rw [walkPrefix_cons]; rfl

end PrefixSpec

theorem forall_lt_of_map_fst_eq {l : κ} {es es' : List (κ × Node κ α)}
    (h : es'.map Prod.fst = es.map Prod.fst) (hlt : ∀ e ∈ es, l < e.1) : ∀ e ∈ es', l < e.1 := by
  intro e he
  obtain ⟨e', he', hfst⟩ : ∃ e' ∈ es, e'.1 = e.1 := by
    have : e.1 ∈ es'.map Prod.fst := List.mem_map_of_mem he
    rw [h] at this
    simpa using this
  rw [← hfst]
  exact hlt e' he'

mutual
/-- A walk under a prefix keeps a well-formed node well formed, and keeps the
first letter of its prefix unless the prefix is empty. -/
theorem Node.WF.walkPrefix : ∀ {path : List κ} {n : Node κ α}, n.WF path → ∀ (search : List κ) (st : σ),
    (n.walkPrefix fn search st).1.WF path ∧
      (n.pfx ≠ [] → (n.walkPrefix fn search st).1.pfx.head? = n.pfx.head?)
  | _, n, h, [], st => by
      rw [walkPrefix_nil]
      exact h.recursiveWalk st
  | _, .mk leaf pfx edges, h, c :: rest, st => by
      rw [wf_mk] at h
      rw [walkPrefix_cons]
      exact ⟨wf_mk.mpr ⟨h.1, (EdgesWF.walkPrefixEdges h.2 c rest st).1⟩, fun _ => rfl⟩

/-- A walk under a prefix keeps well-formed edges well formed, with their
labels. -/
theorem EdgesWF.walkPrefixEdges : ∀ {path : List κ} {es : List (κ × Node κ α)}, EdgesWF path es →
    ∀ (c : κ) (rest : List κ) (st : σ), EdgesWF path (walkPrefixEdges fn es c rest st).1 ∧
      (walkPrefixEdges fn es c rest st).1.map Prod.fst = es.map Prod.fst
  | _, [], _, c, rest, st => by simp
  | _, (l, m) :: es, h, c, rest, st => by
      have hall := h
      rw [edgesWF_cons] at h
      obtain ⟨hl, hm, hlt, hes⟩ := h
      have hne : m.pfx ≠ [] := fun h' => by rw [h'] at hl; cases hl
      rw [walkPrefixEdges_cons]
      split_ifs
      · exact ⟨hall, rfl⟩
      · -- the child's prefix is consumed: walk on below it
        obtain ⟨hwf, hhead⟩ := Node.WF.walkPrefix hm ((c :: rest).drop m.pfx.length) st
        exact ⟨edgesWF_cons.mpr ⟨by rw [hhead hne, hl], hwf, hlt, hes⟩, rfl⟩
      · -- the child's prefix extends the rest of the prefix: walk it whole
        obtain ⟨hwf, hhead⟩ := hm.recursiveWalk st
        exact ⟨edgesWF_cons.mpr ⟨by rw [hhead hne, hl], hwf, hlt, hes⟩, rfl⟩
      · exact ⟨hall, rfl⟩
      · obtain ⟨hwf, hfst⟩ := EdgesWF.walkPrefixEdges hes c rest st
        exact ⟨edgesWF_cons.mpr ⟨hl, hm, forall_lt_of_map_fst_eq hfst hlt, hwf⟩, by simp [hfst]⟩
end


/-! ## Walks whose function acts by the leaf

The functions `networkdb` walks its trees with decide what to do at a leaf
from the leaf alone, and carry the rest of the database as their state.
Such a walk is its effect on the tree, `walked`, and the calls it makes, in
order, `visits`. -/

section ByLeaf

variable (eff : List κ → α → Effect α)

mutual
/-- The node a walk leaves when its function does `eff` at every leaf. -/
def Node.walked : Node κ α → Node κ α
  | .mk none pfx edges => .mk none pfx (edgesWalked edges)
  | .mk (some (k, v)) pfx edges =>
      match eff k v, edges with
      | .keep, edges => .mk (some (k, v)) pfx (edgesWalked edges)
      | .set v', edges => .mk (some (k, v')) pfx (edgesWalked edges)
      | .delete, [(_, .mk cleaf cpfx cedges)] => .mk cleaf (pfx ++ cpfx) (edgesWalked cedges)
      | .delete, edges => .mk none pfx (edgesWalked edges)

/-- The edges such a walk leaves. -/
def edgesWalked : List (κ × Node κ α) → List (κ × Node κ α)
  | [] => []
  | (l, m) :: es => (l, m.walked) :: edgesWalked es
end

mutual
/-- The leaves such a walk calls its function with, in order.  The leaf of
the only child of a node whose leaf is deleted is not among them. -/
def Node.visits : Node κ α → List (List κ × α)
  | .mk none _ edges => edgesVisits edges
  | .mk (some (k, v)) _ edges =>
      (k, v) :: match eff k v, edges with
        | .delete, [(_, .mk _ _ cedges)] => edgesVisits cedges
        | _, edges => edgesVisits edges

/-- The leaves such a walk of edges calls its function with. -/
def edgesVisits : List (κ × Node κ α) → List (List κ × α)
  | [] => []
  | (_, m) :: es => m.visits ++ edgesVisits es
end

/-- The function of a walk that does `eff` at each leaf and updates its
state by `g`. -/
def byLeaf (g : List κ → α → σ → σ) : List κ → α → σ → Effect α × σ :=
  fun k v st => (eff k v, g k v st)

/-- The state after calls of `g` on `leaves`, in order. -/
def visitAll (g : List κ → α → σ → σ) (leaves : List (List κ × α)) (st : σ) : σ :=
  leaves.foldl (fun st kv => g kv.1 kv.2 st) st

section Spec

omit [LinearOrder κ]

variable {eff} {pfx : List κ} {edges : List (κ × Node κ α)} {k : List κ} {v : α}

theorem walked_none : (Node.mk none pfx edges).walked eff = .mk none pfx (edgesWalked eff edges) := by
  rw [Node.walked]

theorem walked_keep (h : eff k v = .keep) :
    (Node.mk (some (k, v)) pfx edges).walked eff = .mk (some (k, v)) pfx (edgesWalked eff edges) := by
  unfold Node.walked
  rw [h]

theorem walked_set {v' : α} (h : eff k v = .set v') :
    (Node.mk (some (k, v)) pfx edges).walked eff = .mk (some (k, v')) pfx (edgesWalked eff edges) := by
  unfold Node.walked
  rw [h]

theorem walked_delete (h : eff k v = .delete) :
    (Node.mk (some (k, v)) pfx edges).walked eff =
      .mk (mergeChild pfx edges).leaf (mergeChild pfx edges).pfx
        (edgesWalked eff (mergeChild pfx edges).edges) := by
  unfold Node.walked
  rw [h]
  rcases edges with _ | ⟨⟨l, ⟨cleaf, cpfx, cedges⟩⟩, _ | ⟨e, es⟩⟩ <;> rfl

@[simp] theorem edgesWalked_nil : edgesWalked eff ([] : List (κ × Node κ α)) = [] := by
  rw [edgesWalked]

@[simp] theorem edgesWalked_cons (l : κ) (m : Node κ α) (es : List (κ × Node κ α)) :
    edgesWalked eff ((l, m) :: es) = (l, m.walked eff) :: edgesWalked eff es := by
  rw [edgesWalked]

theorem visits_none : (Node.mk none pfx edges).visits eff = edgesVisits eff edges := by
  rw [Node.visits]

theorem visits_of_ne_delete (h : eff k v ≠ .delete) :
    (Node.mk (some (k, v)) pfx edges).visits eff = (k, v) :: edgesVisits eff edges := by
  unfold Node.visits
  rcases h' : eff k v with _ | v' | _
  · rfl
  · rfl
  · exact absurd h' h

theorem visits_delete (h : eff k v = .delete) :
    (Node.mk (some (k, v)) pfx edges).visits eff =
      (k, v) :: edgesVisits eff (mergeChild pfx edges).edges := by
  unfold Node.visits
  rw [h]
  rcases edges with _ | ⟨⟨l, ⟨cleaf, cpfx, cedges⟩⟩, _ | ⟨e, es⟩⟩ <;> rfl

@[simp] theorem edgesVisits_nil : edgesVisits eff ([] : List (κ × Node κ α)) = [] := by
  rw [edgesVisits]

@[simp] theorem edgesVisits_cons (l : κ) (m : Node κ α) (es : List (κ × Node κ α)) :
    edgesVisits eff ((l, m) :: es) = m.visits eff ++ edgesVisits eff es := by
  rw [edgesVisits]

@[simp] theorem visitAll_nil (g : List κ → α → σ → σ) (st : σ) : visitAll g [] st = st := rfl

@[simp] theorem visitAll_cons (g : List κ → α → σ → σ) (kv : List κ × α)
    (leaves : List (List κ × α)) (st : σ) :
    visitAll g (kv :: leaves) st = visitAll g leaves (g kv.1 kv.2 st) := rfl

@[simp] theorem visitAll_append (g : List κ → α → σ → σ) (ls ls' : List (List κ × α)) (st : σ) :
    visitAll g (ls ++ ls') st = visitAll g ls' (visitAll g ls st) :=
  List.foldl_append

end Spec

omit [LinearOrder κ] in
theorem eq_byLeaf {fn : List κ → α → σ → Effect α × σ} (st₀ : σ)
    (h : ∀ k v st, (fn k v st).1 = (fn k v st₀).1) :
    fn = byLeaf (fun k v => (fn k v st₀).1) fun k v st => (fn k v st).2 := by
  funext k v st
  exact Prod.ext (h k v st) rfl

omit [LinearOrder κ] in
theorem byLeaf_apply (g : List κ → α → σ → σ) (k : List κ) (v : α) (st : σ) :
    byLeaf eff g k v st = (eff k v, g k v st) := rfl

variable {eff}

omit [LinearOrder κ] in
mutual
/-- A walk whose function acts by the leaf leaves `walked` and its state
after the calls on `visits`. -/
theorem Node.recursiveWalk_byLeaf (g : List κ → α → σ → σ) : ∀ (n : Node κ α) (st : σ),
    n.recursiveWalk (byLeaf eff g) st = (n.walked eff, visitAll g (n.visits eff) st)
  | .mk none pfx edges, st => by
      rw [recursiveWalk_none, walkEdges_byLeaf g edges st, walked_none, visits_none]
  | .mk (some (k, v)) pfx edges, st => by
      rcases h : eff k v with _ | v' | _
      · rw [recursiveWalk_keep _ (by rw [byLeaf_apply, h]), walkEdges_byLeaf g edges,
          walked_keep h, visits_of_ne_delete (by rw [h]; intro h'; cases h'), visitAll_cons]
      · rw [recursiveWalk_set _ (by rw [byLeaf_apply, h]), walkEdges_byLeaf g edges,
          walked_set h, visits_of_ne_delete (by rw [h]; intro h'; cases h'), visitAll_cons]
      · rw [recursiveWalk_delete _ (by rw [byLeaf_apply, h]), walked_delete h, visits_delete h,
          visitAll_cons]
        rcases edges with _ | ⟨⟨l, ⟨cleaf, cpfx, cedges⟩⟩, _ | ⟨e, es⟩⟩ <;>
          simp only [mergeChild_nil, mergeChild_single, mergeChild_cons_cons, leaf_mk, pfx_mk,
            edges_mk]
        · rw [walkEdges_byLeaf g []]
        · rw [walkEdges_byLeaf g cedges]
        · rw [walkEdges_byLeaf g ((l, ⟨cleaf, cpfx, cedges⟩) :: e :: es)]

theorem walkEdges_byLeaf (g : List κ → α → σ → σ) : ∀ (es : List (κ × Node κ α)) (st : σ),
    walkEdges (byLeaf eff g) es st = (edgesWalked eff es, visitAll g (edgesVisits eff es) st)
  | [], st => by simp
  | (l, m) :: es, st => by
      rw [walkEdges_cons, Node.recursiveWalk_byLeaf g m st, walkEdges_byLeaf g es, edgesWalked_cons,
        edgesVisits_cons, visitAll_append]
end

end ByLeaf


/-! ## The leaves a walk leaves -/

section LeavesWalked

variable (eff : List κ → α → Effect α)

/-- `after` is what a walk with effects `eff` leaves of the leaves `before`,
having called its function on `visits`: each leaf called with is replaced by
what its effect leaves of it, the others stay. -/
inductive LeavesWalked : List (List κ × α) → List (List κ × α) → List (List κ × α) → Prop
  | nil : LeavesWalked [] [] []
  | visit {k : List κ} {v : α} {b a vs : List (List κ × α)} : LeavesWalked b a vs →
      LeavesWalked ((k, v) :: b) (((eff k v).value v).toList.map (k, ·) ++ a) ((k, v) :: vs)
  | skip {kv : List κ × α} {b a vs : List (List κ × α)} : LeavesWalked b a vs →
      LeavesWalked (kv :: b) (kv :: a) vs

namespace LeavesWalked

omit [LinearOrder κ]

variable {eff} {b a vs b' a' vs' : List (List κ × α)}

theorem refl : ∀ b : List (List κ × α), LeavesWalked eff b b []
  | [] => .nil
  | _ :: b => (refl b).skip

theorem append (h : LeavesWalked eff b a vs) (h' : LeavesWalked eff b' a' vs') :
    LeavesWalked eff (b ++ b') (a ++ a') (vs ++ vs') := by
  induction h with
  | nil => exact h'
  | visit _ ih =>
      rw [List.append_assoc]
      exact ih.visit
  | skip _ ih => exact ih.skip

theorem sublist (h : LeavesWalked eff b a vs) : vs.Sublist b := by
  induction h with
  | nil => exact .slnil
  | visit _ ih => exact ih.cons_cons _
  | skip _ ih => exact ih.cons _

theorem keys_sublist (h : LeavesWalked eff b a vs) : (a.map Prod.fst).Sublist (b.map Prod.fst) := by
  induction h with
  | nil => exact .slnil
  | @visit k v _ _ _ _ ih =>
      cases (eff k v).value v with
      | none => exact ih.cons _
      | some _ => exact ih.cons_cons _
  | skip _ ih => exact ih.cons_cons _

/-- With distinct keys, a key reads after the walk what its effect leaves
of it when the function was called on its leaf, and what it read before
otherwise. -/
theorem get? [DecidableEq κ] (h : LeavesWalked eff b a vs) (hb : (b.map Prod.fst).Nodup) (k : List κ) :
    GoMap.get? a k =
      if k ∈ vs.map Prod.fst then (GoMap.get? b k).bind fun v => (eff k v).value v
      else GoMap.get? b k := by
  induction h with
  | nil => simp
  | @visit k' v b a vs hw ih =>
      rw [List.map_cons, List.nodup_cons] at hb
      have hk' : GoMap.get? a k' = none :=
        GoMap.get?_eq_none_iff.mpr fun e he hek => hb.1 (hw.keys_sublist.subset
          (List.mem_map.mpr ⟨e, he, hek⟩))
      rw [GoMap.get?_append, GoMap.get?_cons]
      by_cases hk : k' = k
      · subst hk
        have hR : GoMap.get? (((eff k' v).value v).toList.map (k', ·)) k' = (eff k' v).value v := by
          cases (eff k' v).value v <;> simp [GoMap.get?_cons]
        simp [hR, hk']
      · have hR : GoMap.get? (((eff k' v).value v).toList.map (k', ·)) k = none := by
          cases (eff k' v).value v <;> simp [GoMap.get?_cons, hk]
        have hmem : k ∈ ((k', v) :: vs).map Prod.fst ↔ k ∈ vs.map Prod.fst := by
          simp [Ne.symm hk]
        rw [hR, Option.none_or, ih hb.2, if_neg hk]
        simp only [hmem]
  | @skip kv b a vs hw ih =>
      rw [List.map_cons, List.nodup_cons] at hb
      rw [GoMap.get?_cons, GoMap.get?_cons, ih hb.2]
      by_cases hk : kv.1 = k
      · subst hk
        have hvs : kv.1 ∉ vs.map Prod.fst := fun hmem => hb.1 ((hw.sublist.map _).subset hmem)
        simp [hvs]
      · simp [hk]

end LeavesWalked

omit [LinearOrder κ] in
mutual
/-- A walk whose function acts by the leaf leaves of the leaves of a node what
`LeavesWalked` says, having called its function on `visits`. -/
theorem Node.leavesWalked : ∀ n : Node κ α, LeavesWalked eff n.leaves (n.walked eff).leaves (n.visits eff)
  | .mk none pfx edges => by
      rw [walked_none, visits_none, leaves_mk, leaves_mk]
      exact edgesLeavesWalked edges
  | .mk (some (k, v)) pfx edges => by
      rcases h : eff k v with _ | v' | _
      · rw [walked_keep h, visits_of_ne_delete (by rw [h]; intro h'; cases h'), leaves_mk, leaves_mk]
        have hw := (edgesLeavesWalked edges).visit (k := k) (v := v)
        rwa [h] at hw
      · rw [walked_set h, visits_of_ne_delete (by rw [h]; intro h'; cases h'), leaves_mk, leaves_mk]
        have hw := (edgesLeavesWalked edges).visit (k := k) (v := v)
        rwa [h] at hw
      · -- the leaf goes; a lone child moves up, its leaf not called with
        rw [walked_delete h, visits_delete h]
        rcases edges with _ | ⟨⟨l, ⟨cleaf, cpfx, cedges⟩⟩, _ | ⟨e, es⟩⟩ <;>
          simp only [mergeChild_nil, mergeChild_single, mergeChild_cons_cons, leaf_mk, pfx_mk,
            edges_mk, leaves_mk, edgesLeaves_cons, edgesLeaves_nil, Option.toList_some,
            List.singleton_append, List.append_nil]
        · have hw := (edgesLeavesWalked ([] : List (κ × Node κ α))).visit (k := k) (v := v)
          simpa [h] using hw
        · have hw := ((LeavesWalked.refl cleaf.toList).append (edgesLeavesWalked cedges)).visit
            (k := k) (v := v)
          simpa [h] using hw
        · have hw := (edgesLeavesWalked ((l, ⟨cleaf, cpfx, cedges⟩) :: e :: es)).visit
            (k := k) (v := v)
          simpa [h] using hw

theorem edgesLeavesWalked : ∀ es : List (κ × Node κ α),
    LeavesWalked eff (edgesLeaves es) (edgesLeaves (edgesWalked eff es)) (edgesVisits eff es)
  | [] => by simpa using LeavesWalked.nil
  | (l, m) :: es => by
      rw [edgesLeaves_cons, edgesWalked_cons, edgesLeaves_cons, edgesVisits_cons]
      exact (Node.leavesWalked m).append (edgesLeavesWalked es)
end

end LeavesWalked


omit [LinearOrder κ] in
mutual
theorem Node.visits_keep : ∀ n : Node κ α, n.visits (fun _ _ => .keep) = n.leaves
  | .mk none pfx edges => by
      rw [visits_none, leaves_mk, edgesVisits_keep edges]
      rfl
  | .mk (some (k, v)) pfx edges => by
      rw [visits_of_ne_delete (by intro h'; cases h'), leaves_mk, edgesVisits_keep edges]
      rfl

theorem edgesVisits_keep : ∀ es : List (κ × Node κ α),
    edgesVisits (fun _ _ => .keep) es = edgesLeaves es
  | [] => by simp
  | (l, m) :: es => by rw [edgesVisits_cons, edgesLeaves_cons, Node.visits_keep m, edgesVisits_keep es]
end

variable {eff : List κ → α → Effect α}

mutual
/-- A leaf of a well-formed node that a walk does not call its function with
lies under a leaf that it did call it with and deleted: it is the leaf of the
only child of that leaf's node, which the merge of `Delete` moved up into the
node the walk had passed. -/
theorem Node.WF.skipped : ∀ {path : List κ} {n : Node κ α}, n.WF path →
    ∀ kv ∈ n.leaves, kv.1 ∉ (n.visits eff).map Prod.fst →
      ∃ kv' ∈ n.visits eff, eff kv'.1 kv'.2 = .delete ∧ kv'.1 <+: kv.1 ∧ kv'.1 ≠ kv.1
  | _, .mk none pfx edges, h, kv, hkv, hnot => by
      rw [wf_mk] at h
      rw [leaves_mk, Option.toList_none, List.nil_append] at hkv
      rw [visits_none] at hnot ⊢
      exact EdgesWF.skipped h.2 kv hkv hnot
  | path, .mk (some (k, v)) pfx edges, h, kv, hkv, hnot => by
      rw [wf_mk] at h
      rw [leaves_mk, Option.toList_some, List.singleton_append, List.mem_cons] at hkv
      rcases hkv with rfl | hkv
      · -- the node's own leaf is called with first
        by_cases hd : eff k v = .delete
        · rw [visits_delete hd] at hnot
          simp at hnot
        · rw [visits_of_ne_delete hd] at hnot
          simp at hnot
      by_cases hd : eff k v = .delete
      · rw [visits_delete hd] at hnot ⊢
        rw [List.map_cons, List.mem_cons, not_or] at hnot
        rcases edges with _ | ⟨⟨l, ⟨cleaf, cpfx, cedges⟩⟩, _ | ⟨e, es⟩⟩
        · simp at hkv
        · -- a lone child: its leaf is skipped, the walk goes on below it
          simp only [mergeChild_single, edges_mk] at hnot ⊢
          rw [edgesWF_cons, wf_mk] at h
          obtain ⟨hk, hl, hc, -, -⟩ := h
          rw [pfx_mk] at hl
          rw [edgesLeaves_cons, edgesLeaves_nil, List.append_nil, leaves_mk, List.mem_append] at hkv
          rcases hkv with hkv | hkv
          · have hkey : kv.1 = path ++ pfx ++ cpfx := hc.1 kv (Option.mem_toList.mp hkv)
            have hcpfx : cpfx ≠ [] := fun h' => by rw [h'] at hl; cases hl
            refine ⟨(k, v), List.mem_cons_self, hd, ?_, ?_⟩
            · rw [hk (k, v) rfl, hkey]
              exact List.prefix_append _ _
            · rw [hk (k, v) rfl, hkey]
              simpa using hcpfx.symm
          · obtain ⟨kv', hkv', hdel, hpre, hne⟩ := EdgesWF.skipped hc.2 kv hkv hnot.2
            exact ⟨kv', List.mem_cons_of_mem _ hkv', hdel, hpre, hne⟩
        · simp only [mergeChild_cons_cons, edges_mk] at hnot ⊢
          obtain ⟨kv', hkv', hdel, hpre, hne⟩ := EdgesWF.skipped h.2 kv hkv hnot.2
          exact ⟨kv', List.mem_cons_of_mem _ hkv', hdel, hpre, hne⟩
      · rw [visits_of_ne_delete hd] at hnot ⊢
        rw [List.map_cons, List.mem_cons, not_or] at hnot
        obtain ⟨kv', hkv', hdel, hpre, hne⟩ := EdgesWF.skipped h.2 kv hkv hnot.2
        exact ⟨kv', List.mem_cons_of_mem _ hkv', hdel, hpre, hne⟩

theorem EdgesWF.skipped : ∀ {path : List κ} {es : List (κ × Node κ α)}, EdgesWF path es →
    ∀ kv ∈ edgesLeaves es, kv.1 ∉ (edgesVisits eff es).map Prod.fst →
      ∃ kv' ∈ edgesVisits eff es, eff kv'.1 kv'.2 = .delete ∧ kv'.1 <+: kv.1 ∧ kv'.1 ≠ kv.1
  | _, [], _, kv, hkv, _ => by simp at hkv
  | _, (l, m) :: es, h, kv, hkv, hnot => by
      rw [edgesWF_cons] at h
      rw [edgesLeaves_cons, List.mem_append] at hkv
      rw [edgesVisits_cons, List.map_append, List.mem_append, not_or] at hnot
      rw [edgesVisits_cons]
      rcases hkv with hkv | hkv
      · obtain ⟨kv', hkv', hrest⟩ := Node.WF.skipped h.2.1 kv hkv hnot.1
        exact ⟨kv', List.mem_append_left _ hkv', hrest⟩
      · obtain ⟨kv', hkv', hrest⟩ := EdgesWF.skipped h.2.2.2 kv hkv hnot.2
        exact ⟨kv', List.mem_append_right _ hkv', hrest⟩
end


/-! ## Where a walk under a prefix starts -/

mutual
/-- The node `WalkPrefix` walks whole, for the rest `search` of the prefix at
node `n`: the node reached once the prefix is consumed, or the child whose
prefix extends what is left of it. -/
def Node.seek : Node κ α → List κ → Option (Node κ α)
  | n, [] => some n
  | .mk _ _ edges, c :: rest => seekEdges edges c rest

/-- The node `WalkPrefix` walks whole, found from the edges of a node. -/
def seekEdges : List (κ × Node κ α) → κ → List κ → Option (Node κ α)
  | [], _, _ => none
  | (l, m@(.mk _ pfx _)) :: es, c, rest =>
      if c < l then none
      else if c = l then
        if pfx <+: c :: rest then m.seek ((c :: rest).drop pfx.length)
        else if c :: rest <+: pfx then some m
        else none
      else seekEdges es c rest
end

section SeekSpec

variable {leaf : Option (List κ × α)} {pfx : List κ} {edges : List (κ × Node κ α)}

theorem seek_nil (n : Node κ α) : n.seek [] = some n := by
  rw [Node.seek]

theorem seek_cons (c : κ) (rest : List κ) :
    (Node.mk leaf pfx edges).seek (c :: rest) = seekEdges edges c rest := by
  rw [Node.seek]

@[simp] theorem seekEdges_nil (c : κ) (rest : List κ) :
    seekEdges ([] : List (κ × Node κ α)) c rest = none := by
  rw [seekEdges]

theorem seekEdges_cons (l c : κ) (m : Node κ α) (es : List (κ × Node κ α)) (rest : List κ) :
    seekEdges ((l, m) :: es) c rest =
      if c < l then none
      else if c = l then
        if m.pfx <+: c :: rest then m.seek ((c :: rest).drop m.pfx.length)
        else if c :: rest <+: m.pfx then some m
        else none
      else seekEdges es c rest := by
  obtain ⟨_, _, _⟩ := m
  rw [seekEdges]
  rfl

end SeekSpec

variable (fn : List κ → α → σ → Effect α × σ)

mutual
/-- The state a walk under a prefix leaves is that of the walk of the node it
starts at, or the state it started with when there is none. -/
theorem Node.walkPrefix_snd : ∀ (n : Node κ α) (search : List κ) (st : σ),
    (n.walkPrefix fn search st).2 = ((n.seek search).map fun m => (m.recursiveWalk fn st).2).getD st
  | n, [], st => by rw [walkPrefix_nil, seek_nil]; rfl
  | .mk leaf pfx edges, c :: rest, st => by
      rw [walkPrefix_cons, seek_cons]
      exact walkPrefixEdges_snd edges c rest st

theorem walkPrefixEdges_snd : ∀ (es : List (κ × Node κ α)) (c : κ) (rest : List κ) (st : σ),
    (walkPrefixEdges fn es c rest st).2 =
      ((seekEdges es c rest).map fun m => (m.recursiveWalk fn st).2).getD st
  | [], c, rest, st => by simp
  | (l, m) :: es, c, rest, st => by
      rw [walkPrefixEdges_cons, seekEdges_cons]
      split_ifs
      · rfl
      · exact Node.walkPrefix_snd m _ st
      · rfl
      · rfl
      · exact walkPrefixEdges_snd es c rest st
end

variable {fn}

mutual
/-- A walk under a prefix whose function acts by the leaf leaves of the
leaves of a node what `LeavesWalked` says, having called its function on the
leaves `visits` gives at the node it starts at. -/
theorem Node.walkPrefix_leavesWalked (g : List κ → α → σ → σ) :
    ∀ (n : Node κ α) (search : List κ) (st : σ),
      LeavesWalked eff n.leaves (n.walkPrefix (byLeaf eff g) search st).1.leaves
        (((n.seek search).map (Node.visits eff)).getD [])
  | n, [], st => by
      rw [walkPrefix_nil, Node.recursiveWalk_byLeaf, seek_nil]
      exact n.leavesWalked eff
  | .mk leaf pfx edges, c :: rest, st => by
      rw [walkPrefix_cons, seek_cons, leaves_mk, leaves_mk]
      exact (LeavesWalked.refl _).append (walkPrefixEdges_leavesWalked g edges c rest st)

theorem walkPrefixEdges_leavesWalked (g : List κ → α → σ → σ) :
    ∀ (es : List (κ × Node κ α)) (c : κ) (rest : List κ) (st : σ),
      LeavesWalked eff (edgesLeaves es) (edgesLeaves (walkPrefixEdges (byLeaf eff g) es c rest st).1)
        (((seekEdges es c rest).map (Node.visits eff)).getD [])
  | [], c, rest, st => by simpa using LeavesWalked.nil
  | (l, m) :: es, c, rest, st => by
      rw [walkPrefixEdges_cons, seekEdges_cons]
      split_ifs
      · simpa using LeavesWalked.refl (edgesLeaves ((l, m) :: es))
      · have hw := (Node.walkPrefix_leavesWalked g m ((c :: rest).drop m.pfx.length) st).append
          (LeavesWalked.refl (edgesLeaves es))
        simpa using hw
      · have hw := (m.leavesWalked eff).append (LeavesWalked.refl (edgesLeaves es))
        simpa [Node.recursiveWalk_byLeaf] using hw
      · simpa using LeavesWalked.refl (edgesLeaves ((l, m) :: es))
      · have hw := (LeavesWalked.refl m.leaves).append (walkPrefixEdges_leavesWalked g es c rest st)
        simpa using hw
end


/-- Keys that leave the path by another letter than `c` are not under the
path continued with `c`. -/
theorem filter_prefix_eq_nil {path rest : List κ} {c : κ} {ls : List (List κ × α)}
    (h : ∀ kv ∈ ls, ∃ d x, d ≠ c ∧ kv.1 = path ++ d :: x) :
    ls.filter (fun kv => path ++ c :: rest <+: kv.1) = [] := by
  rw [List.filter_eq_nil_iff]
  intro kv hkv hpre
  obtain ⟨d, x, hne, hkey⟩ := h kv hkv
  rw [hkey, decide_eq_true_iff, List.prefix_append_right_inj, List.cons_prefix_cons] at hpre
  exact hne hpre.1.symm

mutual
/-- The node a walk under a prefix starts at holds exactly the leaves under
the prefix, and there are none when there is no such node. -/
theorem Node.WF.leaves_seek : ∀ {path : List κ} {n : Node κ α}, n.WF path → ∀ search : List κ,
    ((n.seek search).map Node.leaves).getD [] =
      n.leaves.filter (fun kv => path ++ n.pfx ++ search <+: kv.1)
  | path, n, h, [] => by
      rw [seek_nil, Option.map_some, Option.getD_some, List.append_nil, eq_comm, List.filter_eq_self]
      intro kv hkv
      exact decide_eq_true (h.prefix_leaves kv hkv)
  | path, .mk leaf pfx edges, h, c :: rest => by
      rw [wf_mk] at h
      rw [seek_cons, EdgesWF.leaves_seekEdges h.2 c rest, leaves_mk, List.filter_append, pfx_mk]
      have hleaf : leaf.toList.filter (fun kv => path ++ pfx ++ c :: rest <+: kv.1) = [] := by
        rw [List.filter_eq_nil_iff]
        intro kv hkv hpre
        rw [h.1 kv (Option.mem_toList.mp hkv), decide_eq_true_iff] at hpre
        have hlen := hpre.length_le
        simp at hlen
      rw [hleaf, List.nil_append]

theorem EdgesWF.leaves_seekEdges : ∀ {path : List κ} {es : List (κ × Node κ α)}, EdgesWF path es →
    ∀ (c : κ) (rest : List κ), ((seekEdges es c rest).map Node.leaves).getD [] =
      (edgesLeaves es).filter (fun kv => path ++ c :: rest <+: kv.1)
  | _, [], _, c, rest => by simp
  | path, (l, m) :: es, h, c, rest => by
      rw [edgesWF_cons] at h
      obtain ⟨hl, hm, hes, hwf⟩ := h
      rw [seekEdges_cons, edgesLeaves_cons, List.filter_append]
      have hmnil : c ≠ l → m.leaves.filter (fun kv => path ++ c :: rest <+: kv.1) = [] :=
        fun hne => filter_prefix_eq_nil fun kv hkv => by
          obtain ⟨x, hx⟩ := hm.exists_cons hl kv hkv
          exact ⟨l, x, Ne.symm hne, hx⟩
      have hesnil : (∀ e ∈ es, e.1 ≠ c) →
          (edgesLeaves es).filter (fun kv => path ++ c :: rest <+: kv.1) = [] :=
        fun hne => filter_prefix_eq_nil fun kv hkv => by
          obtain ⟨e, he, x, hx⟩ := hwf.exists_of_mem kv hkv
          exact ⟨e.1, x, hne e he, hx⟩
      split_ifs with hlt heq hp hp'
      · rw [hmnil (ne_of_lt hlt), hesnil fun e he => ne_of_gt (hlt.trans (hes e he))]
        rfl
      · -- the child's prefix is consumed: the walk starts below it
        subst heq
        rw [Node.WF.leaves_seek hm, List.append_assoc, List.prefix_iff_eq_append.mp hp,
          hesnil fun e he => ne_of_gt (hes e he), List.append_nil]
      · -- the child's prefix extends the rest of the prefix: all its leaves are under it
        subst heq
        rw [hesnil fun e he => ne_of_gt (hes e he), List.append_nil, Option.map_some,
          Option.getD_some, eq_comm, List.filter_eq_self]
        intro kv hkv
        exact decide_eq_true (((List.prefix_append_right_inj path).mpr hp').trans
          (hm.prefix_leaves kv hkv))
      · -- neither extends the other: no key of the child is under the prefix
        subst heq
        rw [hesnil fun e he => ne_of_gt (hes e he), List.append_nil, Option.map_none,
          Option.getD_none, eq_comm, List.filter_eq_nil_iff]
        intro kv hkv hpre
        rw [decide_eq_true_iff] at hpre
        rcases List.prefix_or_prefix_of_prefix (hm.prefix_leaves kv hkv) hpre with h' | h'
        · exact hp ((List.prefix_append_right_inj path).mp h')
        · exact hp' ((List.prefix_append_right_inj path).mp h')
      · rw [hmnil heq, List.nil_append]
        exact EdgesWF.leaves_seekEdges hwf c rest
end

mutual
theorem Node.WF.seek : ∀ {path : List κ} {n : Node κ α}, n.WF path →
    ∀ (search : List κ) (m : Node κ α), n.seek search = some m → ∃ path', m.WF path'
  | path, n, h, [], m, hs => by
      rw [seek_nil] at hs
      cases hs
      exact ⟨path, h⟩
  | _, .mk leaf pfx edges, h, c :: rest, m, hs => by
      rw [wf_mk] at h
      rw [seek_cons] at hs
      exact EdgesWF.seekEdges h.2 c rest m hs

theorem EdgesWF.seekEdges : ∀ {path : List κ} {es : List (κ × Node κ α)}, EdgesWF path es →
    ∀ (c : κ) (rest : List κ) (m : Node κ α), seekEdges es c rest = some m → ∃ path', m.WF path'
  | _, [], _, c, rest, m, hs => by simp at hs
  | path, (l, m') :: es, h, c, rest, m, hs => by
      rw [edgesWF_cons] at h
      rw [seekEdges_cons] at hs
      split_ifs at hs
      · exact Node.WF.seek h.2.1 _ m hs
      · cases hs
        exact ⟨path, h.2.1⟩
      · exact EdgesWF.seekEdges h.2.2.2 c rest m hs
end

omit [LinearOrder κ] in
theorem visitAll_collect (ls acc : List (List κ × α)) :
    visitAll (fun k v acc => acc ++ [(k, v)]) ls acc = acc ++ ls := by
  induction ls generalizing acc with
  | nil => simp
  | cons kv ls ih => rw [visitAll_cons, ih, List.append_assoc, List.singleton_append]

/-! ## Walks of a tree -/

namespace Tree

variable (t : Tree κ α)

/-- `Walk`: `recursiveWalk` of the root with `fn`, which may write the leaf
it is called with.  The root holds no leaf, so this is the walk of its
edges. -/
def Walk (fn : List κ → α → σ → Effect α × σ) (st : σ) : Tree κ α × σ :=
  (⟨(walkEdges fn t.edges st).1, (t.wf.walkEdges st).1⟩, (walkEdges fn t.edges st).2)

theorem walkPrefix_root_eq (fn : List κ → α → σ → Effect α × σ) (p : List κ) (st : σ) :
    (t.root.walkPrefix fn p st).1 = .mk none [] (t.root.walkPrefix fn p st).1.edges :=
  walkPrefix_mk_none fn p

/-- `WalkPrefix` with `fn`, which may write the leaf it is called with. -/
def WalkPrefixWith (p : List κ) (fn : List κ → α → σ → Effect α × σ) (st : σ) : Tree κ α × σ :=
  (⟨(t.root.walkPrefix fn p st).1.edges,
    ((t.root_wf.walkPrefix p st).1).edgesWF_root (by rw [walkPrefix_root_eq]; rfl)⟩,
    (t.root.walkPrefix fn p st).2)

/-- `WalkPrefix` with a function that collects the leaves it is called with:
the leaves under `p`, in the order of the walk. -/
def WalkPrefix (p : List κ) : List (List κ × α) :=
  (t.WalkPrefixWith p (byLeaf (fun _ _ => .keep) fun k v acc => acc ++ [(k, v)]) []).2

/-- The leaves a walk under `p` whose function does `eff` at each leaf calls
it with. -/
def visits (eff : List κ → α → Effect α) (p : List κ) : List (List κ × α) :=
  ((t.root.seek p).map (Node.visits eff)).getD []

/-- What an effect does to a tree at the key `k`: nothing, an `Insert` or a
`Delete`. -/
def write (k : List κ) (hk : k ≠ []) : Effect α → Tree κ α
  | .keep => t
  | .set v => t.Insert k v hk
  | .delete => t.Delete k

theorem Get_write (k : List κ) (hk : k ≠ []) (a : Effect α) (k' : List κ) :
    (t.write k hk a).Get k' = if k' = k then a.result (t.Get k') else t.Get k' := by
  cases a <;> by_cases h : k' = k <;> simp [write, Effect.result, h]

theorem Walk_eq (fn : List κ → α → σ → Effect α × σ) (st : σ) :
    t.Walk fn st = t.WalkPrefixWith [] fn st := by
  simp [Walk, WalkPrefixWith, walkPrefix_nil, root, recursiveWalk_none]

theorem root_WalkPrefixWith (p : List κ) (fn : List κ → α → σ → Effect α × σ) (st : σ) :
    (t.WalkPrefixWith p fn st).1.root = (t.root.walkPrefix fn p st).1 := by
  rw [walkPrefix_root_eq]
  rfl

theorem leaves_seek_root (p : List κ) :
    ((t.root.seek p).map Node.leaves).getD [] = t.leaves.filter (fun kv => p <+: kv.1) := by
  rw [t.root_wf.leaves_seek p]
  simp [root, leaves]

variable {eff : List κ → α → Effect α}

/-- A walk under `p` whose function acts by the leaf ends in the state its
function leaves after the calls on `visits`. -/
theorem snd_WalkPrefixWith (p : List κ) (g : List κ → α → σ → σ) (st : σ) :
    (t.WalkPrefixWith p (byLeaf eff g) st).2 = visitAll g (t.visits eff p) st := by
  rw [WalkPrefixWith, Node.walkPrefix_snd, visits]
  cases t.root.seek p <;> simp [Node.recursiveWalk_byLeaf]

theorem leavesWalked_WalkPrefixWith (p : List κ) (g : List κ → α → σ → σ) (st : σ) :
    LeavesWalked eff t.leaves (t.WalkPrefixWith p (byLeaf eff g) st).1.leaves (t.visits eff p) := by
  rw [leaves, leaves, root_WalkPrefixWith]
  exact Node.walkPrefix_leavesWalked g t.root p st

theorem visits_sublist (p : List κ) :
    (t.visits eff p).Sublist (t.leaves.filter (fun kv => p <+: kv.1)) := by
  rw [← leaves_seek_root, visits]
  cases t.root.seek p with
  | none => exact List.nil_sublist _
  | some m => exact (m.leavesWalked eff).sublist

theorem Get_of_mem_visits {p : List κ} {kv : List κ × α} (h : kv ∈ t.visits eff p) :
    t.Get kv.1 = some kv.2 := by
  have hmem := (t.visits_sublist p).subset h
  rw [List.mem_filter] at hmem
  exact t.Get_eq_some_iff.mpr hmem.1

/-- After a walk under `p` whose function acts by the leaf, a key reads what
its effect leaves of it when the walk called the function on its leaf, and
what it read before otherwise. -/
theorem Get_WalkPrefixWith (p : List κ) (g : List κ → α → σ → σ) (st : σ) (k : List κ) :
    (t.WalkPrefixWith p (byLeaf eff g) st).1.Get k =
      if k ∈ (t.visits eff p).map Prod.fst then (t.Get k).bind fun v => (eff k v).value v
      else t.Get k := by
  rw [Get_eq, Get_eq, (t.leavesWalked_WalkPrefixWith p g st).get? t.nodup_keys k]

/-- A leaf under `p` that the walk does not call its function with lies under
a leaf it called it with and deleted. -/
theorem skipped (p : List κ) {kv : List κ × α} (hkv : kv ∈ t.leaves) (hp : p <+: kv.1)
    (hnot : kv.1 ∉ (t.visits eff p).map Prod.fst) :
    ∃ kv' ∈ t.visits eff p, eff kv'.1 kv'.2 = .delete ∧ kv'.1 <+: kv.1 ∧ kv'.1 ≠ kv.1 := by
  have hmem : kv ∈ ((t.root.seek p).map Node.leaves).getD [] := by
    rw [leaves_seek_root, List.mem_filter]
    exact ⟨hkv, decide_eq_true hp⟩
  rw [visits] at hnot ⊢
  cases hs : t.root.seek p with
  | none => rw [hs] at hmem; cases hmem
  | some m =>
      rw [hs] at hmem hnot
      obtain ⟨path, hm⟩ := t.root_wf.seek p m hs
      exact hm.skipped kv hmem hnot

theorem WalkPrefix_eq (p : List κ) : t.WalkPrefix p = t.leaves.filter (fun kv => p <+: kv.1) := by
  rw [WalkPrefix, snd_WalkPrefixWith, visitAll_collect, List.nil_append, ← leaves_seek_root, visits]
  cases t.root.seek p <;> simp [Node.visits_keep]

theorem mem_WalkPrefix {p k : List κ} {v : α} :
    (k, v) ∈ t.WalkPrefix p ↔ p <+: k ∧ t.Get k = some v := by
  rw [WalkPrefix_eq, List.mem_filter, Get_eq_some_iff, decide_eq_true_iff]
  exact and_comm

/-- A walk whose function acts by the leaf adds no key: the keys under a
prefix after it are among those before. -/
theorem keys_WalkPrefix_WalkPrefixWith (p q : List κ) (g : List κ → α → σ → σ) (st : σ) :
    (((t.WalkPrefixWith p (byLeaf eff g) st).1.WalkPrefix q).map Prod.fst).Sublist
      ((t.WalkPrefix q).map Prod.fst) := by
  have hkeys : ∀ l : List (List κ × α),
      (l.filter fun kv => q <+: kv.1).map Prod.fst = (l.map Prod.fst).filter (q <+: ·) := by
    intro l
    rw [List.filter_map]
    rfl
  rw [WalkPrefix_eq, WalkPrefix_eq, hkeys, hkeys]
  exact ((t.leavesWalked_WalkPrefixWith p g st).keys_sublist).filter _

theorem sorted_WalkPrefix (p : List κ) : (t.WalkPrefix p).Pairwise fun a b => a.1 < b.1 := by
  rw [WalkPrefix_eq]
  exact t.sorted.sublist List.filter_sublist

theorem nodup_keys_WalkPrefix (p : List κ) : ((t.WalkPrefix p).map Prod.fst).Nodup :=
  (List.pairwise_map.mpr (t.sorted_WalkPrefix p)).imp ne_of_lt

theorem visits_sublist_WalkPrefix (p : List κ) : (t.visits eff p).Sublist (t.WalkPrefix p) := by
  rw [WalkPrefix_eq]
  exact t.visits_sublist p

theorem nodup_keys_visits (p : List κ) : ((t.visits eff p).map Prod.fst).Nodup :=
  (t.nodup_keys_WalkPrefix p).sublist ((t.visits_sublist_WalkPrefix p).map _)

/-- When no key under `p` is a proper prefix of another, a walk under `p`
whose function acts by the leaf calls it on every leaf under `p`. -/
theorem visits_eq_WalkPrefix (p : List κ)
    (hfree : ∀ kv ∈ t.WalkPrefix p, ∀ kv' ∈ t.WalkPrefix p, kv'.1 <+: kv.1 → kv'.1 = kv.1) :
    t.visits eff p = t.WalkPrefix p := by
  have hsub : (t.visits eff p).Sublist (t.WalkPrefix p) := t.visits_sublist_WalkPrefix p
  -- every leaf under `p` is called with: a skipped one would lie under another
  have hall : t.WalkPrefix p ⊆ t.visits eff p := by
    intro kv hkv
    have hkv' := hkv
    rw [WalkPrefix_eq, List.mem_filter, decide_eq_true_iff] at hkv'
    by_cases hin : kv.1 ∈ (t.visits eff p).map Prod.fst
    · -- the leaf called with under its key is the tree's leaf of that key
      obtain ⟨kv'', hkv'', hkey⟩ := List.mem_map.mp hin
      have hval : kv''.2 = kv.2 := by
        have h1 := t.Get_of_mem_visits hkv''
        rw [hkey, t.Get_eq_some_iff.mpr hkv'.1] at h1
        exact (Option.some.inj h1).symm
      rwa [← Prod.ext hkey hval]
    · obtain ⟨kv', hkv', -, hpre, hne⟩ := t.skipped p hkv'.1 hkv'.2 hin
      exact absurd (hfree kv hkv kv' (hsub.subset hkv') hpre) hne
  have hnodup : (t.WalkPrefix p).Nodup := (t.nodup_keys_WalkPrefix p).of_map _
  exact hsub.eq_of_length (le_antisymm hsub.length_le (hnodup.length_le_of_subset hall))

end Tree

end Walks

end RadixTree
