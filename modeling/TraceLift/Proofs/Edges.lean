/-
# Edges kept twice

An edge is kept twice, among the successors of its head and among the predecessors of its tail, and
the operations that edit a graph change the two lists in different ways.  `Consistent` says what
they keep: both halves of every edge are there and each is there once, both ends are blocks of the
graph, no block is listed twice, and the root is one of the blocks.

* **Each operation is said once**, as what it does to the edges: `mem_succs_addEdge`,
  `mem_succs_removeEdge`, and `Drops` for the removal of a block, which walks the very lists that
  it changes.
* **Each keeps consistency** (`Consistent.addEdge` to `Consistent.recalcPreds`).
* **Recomputed predecessors** are the old ones, at most in another order (`preds_recalcPreds`).
-/
import TraceLift.Graph.Reach
import TraceLift.Proofs.Converts

namespace TraceLift.Graph

/-! ## 1. Consistent graphs -/

/-- Both halves of every edge are there, and each is there once. -/
structure EdgesAgree (g : Graph) : Prop where
  agree : ∀ h t, t ∈ g.succs h ↔ h ∈ g.preds t
  nodup_succs : ∀ n, (g.succs n).Nodup
  nodup_preds : ∀ n, (g.preds n).Nodup

/-- The edges agree and join blocks of the graph, none of which is listed twice; the root is one of
them. -/
structure Consistent (g : Graph) : Prop extends EdgesAgree g where
  inside : ∀ h t, t ∈ g.succs h → h ∈ g.order ∧ t ∈ g.order
  nodup_order : g.order.Nodup
  exist : ∀ n ∈ g.order, n < g.blocks.length
  root : ∀ r ∈ g.root, r ∈ g.order

variable {g g' : Graph}

/-- A block that is not in a consistent graph has no edges. -/
theorem Consistent.edgeFree (h : g.Consistent) {n : Nat} (hn : n ∉ g.order) :
    g.succs n = [] ∧ g.preds n = [] := by
  constructor
  · refine List.eq_nil_iff_forall_not_mem.mpr fun t ht => ?_
    exact hn (h.inside n t ht).1
  · refine List.eq_nil_iff_forall_not_mem.mpr fun p hp => ?_
    exact hn (h.inside p n ((h.agree p n).mpr hp)).2

/-- A block that does not exist has no edges, so that finitely many blocks decide. -/
theorem edgesAgree_iff : g.EdgesAgree ↔ ∀ n < g.blocks.length,
    (∀ t ∈ g.succs n, n ∈ g.preds t) ∧ (∀ h ∈ g.preds n, n ∈ g.succs h) ∧
      (g.succs n).Nodup ∧ (g.preds n).Nodup := by
  have hout : ∀ n, ¬ n < g.blocks.length → g.succs n = [] ∧ g.preds n = [] := by
    intro n hn
    have hnone : g.block? n = none := List.getElem?_eq_none (Nat.le_of_not_lt hn)
    rw [succs, preds, hnone]
    exact ⟨rfl, rfl⟩
  constructor
  · intro hg n _
    exact ⟨fun t => (hg.agree n t).mp, fun h => (hg.agree h n).mpr, hg.nodup_succs n,
      hg.nodup_preds n⟩
  · intro hall
    refine ⟨fun h t => ⟨fun ht => ?_, fun hh => ?_⟩, fun n => ?_, fun n => ?_⟩
    · by_cases hlt : h < g.blocks.length
      · exact (hall h hlt).1 t ht
      · simp [(hout h hlt).1] at ht
    · by_cases hlt : t < g.blocks.length
      · exact (hall t hlt).2.1 h hh
      · simp [(hout t hlt).2] at hh
    · by_cases hlt : n < g.blocks.length
      · exact (hall n hlt).2.2.1
      · simp [(hout n hlt).1]
    · by_cases hlt : n < g.blocks.length
      · exact (hall n hlt).2.2.2
      · simp [(hout n hlt).2]

instance (g : Graph) : Decidable g.EdgesAgree := decidable_of_iff _ edgesAgree_iff.symm

/-! ## 2. Changing a block -/

theorem block?_modify (g : Graph) (n k : Nat) (f : Block → Block) :
    (g.modify n f).block? k = if n = k then (g.block? k).map f else g.block? k := by
  rw [block?, modify, List.getElem?_modify]
  split <;> simp [block?]

/-- A list that a block holds; it is empty where there is no block. -/
def listAt (field : Block → List Nat) (g : Graph) (n : Nat) : List Nat :=
  ((g.block? n).map field).getD []

theorem succs_eq (g : Graph) (n : Nat) : g.succs n = listAt (·.succs) g n := by
  unfold succs listAt
  cases g.block? n <;> rfl

theorem preds_eq (g : Graph) (n : Nat) : g.preds n = listAt (·.preds) g n := by
  unfold preds listAt
  cases g.block? n <;> rfl

section Modify

variable {field : Block → List Nat} {f : Block → Block} {e : List Nat → List Nat} {n : Nat}

/-- A change that leaves the list as it is. -/
theorem listAt_modify_of_eq (hf : ∀ b, field (f b) = field b) (k : Nat) :
    listAt field (g.modify n f) k = listAt field g k := by
  unfold listAt
  rw [block?_modify]
  split
  · simp [Function.comp_def, hf]
  · rfl

/-- A change of the list of one block.  Where there is no such block nothing changes. -/
theorem listAt_modify (hf : ∀ b, field (f b) = e (field b))
    (hn : n < g.blocks.length ∨ e [] = []) (k : Nat) :
    listAt field (g.modify n f) k =
      if n = k then e (listAt field g k) else listAt field g k := by
  unfold listAt
  rw [block?_modify]
  split
  · rename_i hnk
    subst hnk
    cases hb : g.block? n with
    | some b => simp [hf]
    | none =>
      rcases hn with hlt | he
      · exact absurd hb (by simp [block?, hlt])
      · simp [he]
  · rfl

end Modify

/-! ## 3. One edge -/

theorem mem_insertNew {a n : Nat} {l : List Nat} : a ∈ insertNew n l ↔ a ∈ l ∨ a = n := by
  unfold insertNew
  split
  · rename_i hn
    rw [List.contains_iff_mem] at hn
    constructor
    · exact .inl
    · rintro (ha | rfl)
      · exact ha
      · exact hn
  · simp

theorem nodup_insertNew {n : Nat} {l : List Nat} (h : l.Nodup) : (insertNew n l).Nodup := by
  unfold insertNew
  split
  · exact h
  · rename_i hn
    rw [List.contains_iff_mem] at hn
    refine List.nodup_append.mpr ⟨h, List.pairwise_singleton _ n, ?_⟩
    intro a ha b hb heq
    rw [heq, List.mem_singleton.mp hb] at ha
    exact hn ha

/-- Changes the successors of one block and the predecessors of another. -/
def editEdge (g : Graph) (h t : Nat) (onSuccs onPreds : List Nat → List Nat) : Graph :=
  (g.modify h fun b => { b with succs := onSuccs b.succs }).modify t
    fun b => { b with preds := onPreds b.preds }

section OneEdge

variable {h t : Nat} {onSuccs onPreds : List Nat → List Nat}

theorem succs_editEdge (hh : h < g.blocks.length ∨ onSuccs [] = []) (k : Nat) :
    (g.editEdge h t onSuccs onPreds).succs k =
      if h = k then onSuccs (g.succs k) else g.succs k := by
  let half := g.modify h fun b => { b with succs := onSuccs b.succs }
  calc (g.editEdge h t onSuccs onPreds).succs k
      = listAt (·.succs) (half.modify t fun b => { b with preds := onPreds b.preds }) k :=
        succs_eq ..
    _ = listAt (·.succs) half k := listAt_modify_of_eq (fun _ => by rfl) k
    _ = if h = k then onSuccs (listAt (·.succs) g k) else listAt (·.succs) g k :=
        listAt_modify (fun _ => rfl) hh k
    _ = if h = k then onSuccs (g.succs k) else g.succs k := by rw [succs_eq]

theorem preds_editEdge (ht : t < g.blocks.length ∨ onPreds [] = []) (k : Nat) :
    (g.editEdge h t onSuccs onPreds).preds k =
      if t = k then onPreds (g.preds k) else g.preds k := by
  let half := g.modify h fun b => { b with succs := onSuccs b.succs }
  have hhalf : listAt (·.preds) half k = g.preds k := by
    rw [preds_eq]
    exact listAt_modify_of_eq (fun _ => by rfl) k
  have hlength : half.blocks.length = g.blocks.length := List.length_modify ..
  calc (g.editEdge h t onSuccs onPreds).preds k
      = listAt (·.preds) (half.modify t fun b => { b with preds := onPreds b.preds }) k :=
        preds_eq ..
    _ = if t = k then onPreds (listAt (·.preds) half k) else listAt (·.preds) half k :=
        listAt_modify (fun _ => rfl) (by rwa [hlength]) k
    _ = if t = k then onPreds (g.preds k) else g.preds k := by rw [hhalf]

theorem succs_addEdge (hh : h < g.blocks.length) (k : Nat) :
    (g.addEdge h t).succs k = if h = k then insertNew t (g.succs k) else g.succs k :=
  succs_editEdge (.inl hh) k

theorem preds_addEdge (ht : t < g.blocks.length) (k : Nat) :
    (g.addEdge h t).preds k = if t = k then insertNew h (g.preds k) else g.preds k :=
  preds_editEdge (.inl ht) k

theorem removeEdge_eq (g : Graph) (h t : Nat) :
    g.removeEdge h t = g.editEdge h t (·.erase t) (·.erase h) := rfl

theorem succs_removeEdge (g : Graph) (h t k : Nat) :
    (g.removeEdge h t).succs k = if h = k then (g.succs k).erase t else g.succs k := by
  rw [removeEdge_eq]
  exact succs_editEdge (.inr rfl) k

theorem preds_removeEdge (g : Graph) (h t k : Nat) :
    (g.removeEdge h t).preds k = if t = k then (g.preds k).erase h else g.preds k := by
  rw [removeEdge_eq]
  exact preds_editEdge (.inr rfl) k

end OneEdge

/-- Adding an edge adds that edge. -/
theorem mem_succs_addEdge {h t x y : Nat} (hh : h < g.blocks.length) :
    y ∈ (g.addEdge h t).succs x ↔ y ∈ g.succs x ∨ (x = h ∧ y = t) := by
  rw [succs_addEdge hh]
  split
  · rename_i heq
    rw [mem_insertNew, and_iff_right heq.symm]
  · rename_i hne
    rw [or_iff_left fun heq => hne heq.1.symm]

namespace EdgesAgree

variable {h t x y : Nat}

/-- Removing an edge removes that edge. -/
theorem mem_succs_removeEdge (hg : g.EdgesAgree) :
    y ∈ (g.removeEdge h t).succs x ↔ y ∈ g.succs x ∧ ¬ (x = h ∧ y = t) := by
  rw [succs_removeEdge]
  split
  · rename_i heq
    rw [(hg.nodup_succs x).mem_erase_iff, and_comm, and_iff_right heq.symm]
  · rename_i hne
    rw [and_iff_left fun heq => hne heq.1.symm]

theorem addEdge (hg : g.EdgesAgree) (hh : h < g.blocks.length) (ht : t < g.blocks.length) :
    (g.addEdge h t).EdgesAgree := by
  constructor
  · intro x y
    rw [mem_succs_addEdge hh, preds_addEdge ht, hg.agree]
    split
    · rename_i heq
      rw [mem_insertNew, and_iff_left heq.symm]
    · rename_i hne
      rw [or_iff_left fun heq => hne heq.2.symm]
  · intro n
    rw [succs_addEdge hh]
    split
    · exact nodup_insertNew (hg.nodup_succs n)
    · exact hg.nodup_succs n
  · intro n
    rw [preds_addEdge ht]
    split
    · exact nodup_insertNew (hg.nodup_preds n)
    · exact hg.nodup_preds n

theorem removeEdge (hg : g.EdgesAgree) (h t : Nat) : (g.removeEdge h t).EdgesAgree := by
  constructor
  · intro x y
    rw [hg.mem_succs_removeEdge, preds_removeEdge, hg.agree]
    split
    · rename_i heq
      rw [(hg.nodup_preds y).mem_erase_iff, and_comm, and_iff_left heq.symm]
    · rename_i hne
      rw [and_iff_left fun heq => hne heq.2.symm]
  · intro n
    rw [succs_removeEdge]
    split
    · exact (hg.nodup_succs n).erase t
    · exact hg.nodup_succs n
  · intro n
    rw [preds_removeEdge]
    split
    · exact (hg.nodup_preds n).erase h
    · exact hg.nodup_preds n

end EdgesAgree

/-! ## 4. Removing a block -/

/-- Removes edges one after the other. -/
def removeEdges (g : Graph) (edges : List (Nat × Nat)) : Graph :=
  edges.foldl (fun g e => g.removeEdge e.1 e.2) g

/-- The second graph is the first without some edges, and is otherwise the same. -/
structure Removes (g : Graph) (edges : List (Nat × Nat)) (g' : Graph) : Prop extends
    EdgesAgree g' where
  mem_succs : ∀ x y, y ∈ g'.succs x ↔ y ∈ g.succs x ∧ (x, y) ∉ edges
  order : g'.order = g.order
  root : g'.root = g.root
  length : g'.blocks.length = g.blocks.length

theorem length_removeEdge (g : Graph) (h t : Nat) :
    (g.removeEdge h t).blocks.length = g.blocks.length := by
  rw [removeEdge, modify, List.length_modify, modify, List.length_modify]

theorem removes_removeEdges : ∀ (edges : List (Nat × Nat)) {g : Graph}, g.EdgesAgree →
    Removes g edges (g.removeEdges edges)
  | [], g, hg => ⟨hg, by simp [removeEdges], rfl, rfl, rfl⟩
  | (h, t) :: edges, g, hg => by
    have hrest := removes_removeEdges edges (hg.removeEdge h t)
    refine ⟨hrest.toEdgesAgree, ?_, hrest.order, hrest.root,
      hrest.length.trans (length_removeEdge g h t)⟩
    intro x y
    refine (hrest.mem_succs x y).trans ?_
    rw [hg.mem_succs_removeEdge, List.mem_cons, Prod.mk.injEq, not_or, and_assoc]

section Removes

variable {n x y : Nat}

/-- Without the edges from its predecessors, a block has none that arrive. -/
theorem Removes.arriving (hg : g.EdgesAgree) (h : Removes g ((g.preds n).map (·, n)) g') :
    y ∈ g'.succs x ↔ y ∈ g.succs x ∧ y ≠ n := by
  rw [h.mem_succs]
  refine and_congr_right fun hy => not_congr ?_
  constructor
  · intro hmem
    obtain ⟨p, -, heq⟩ := List.mem_map.mp hmem
    exact (Prod.mk.inj heq).2.symm
  · rintro rfl
    exact List.mem_map_of_mem ((hg.agree x y).mp hy)

/-- Without the edges to its successors, a block has none that leave. -/
theorem Removes.leaving (h : Removes g ((g.succs n).map (n, ·)) g') :
    y ∈ g'.succs x ↔ y ∈ g.succs x ∧ x ≠ n := by
  rw [h.mem_succs]
  refine and_congr_right fun hy => not_congr ?_
  constructor
  · intro hmem
    obtain ⟨s, -, heq⟩ := List.mem_map.mp hmem
    exact (Prod.mk.inj heq).1.symm
  · rintro rfl
    exact List.mem_map_of_mem hy

end Removes

/-- Removes the edges of a block: those that arrive and then those that leave. -/
def dropEdges (g : Graph) (n : Nat) : Graph :=
  let g := g.removeEdges ((g.preds n).map (·, n))
  g.removeEdges ((g.succs n).map (n, ·))

theorem EdgesAgree.dropEdges (hg : g.EdgesAgree) (n : Nat) : (g.dropEdges n).EdgesAgree ∧
    (∀ x y, y ∈ (g.dropEdges n).succs x ↔ y ∈ g.succs x ∧ y ≠ n ∧ x ≠ n) ∧
      (g.dropEdges n).order = g.order ∧ (g.dropEdges n).root = g.root ∧
        (g.dropEdges n).blocks.length = g.blocks.length := by
  have h₁ := removes_removeEdges ((g.preds n).map (·, n)) hg
  have h₂ := removes_removeEdges
    (((g.removeEdges ((g.preds n).map (·, n))).succs n).map (n, ·)) h₁.toEdgesAgree
  refine ⟨h₂.toEdgesAgree, ?_, h₂.order.trans h₁.order, h₂.root.trans h₁.root,
    h₂.length.trans h₁.length⟩
  intro x y
  exact h₂.leaving.trans (by rw [h₁.arriving hg, and_assoc])

theorem removeBlock_eq (g : Graph) (n : Nat) : g.removeBlock n =
    let g' := ({ g with root := if g.root = some n then none else g.root } : Graph).dropEdges n
    if g'.order.contains n then ({ g' with order := g'.order.erase n }, none)
    else (g', some .absentBlock) := by
  have hstart : (if g.root = some n then { g with root := none } else g) =
      { g with root := if g.root = some n then none else g.root } := by
    split <;> rfl
  simp only [removeBlock, hstart, dropEdges, removeEdges, List.foldl_map]

/-- The root, unless it is the block to remove. -/
theorem mem_unrooted {n r : Nat} {root : Option Nat} :
    r ∈ (if root = some n then none else root) ↔ r ∈ root ∧ r ≠ n := by
  split
  · rename_i heq
    subst heq
    refine iff_of_false (by simp) ?_
    rintro ⟨hr, hne⟩
    exact hne (Option.some.inj hr).symm
  · rename_i hne
    refine (and_iff_left_of_imp fun hr => ?_).symm
    rintro rfl
    exact hne hr

/-- The second graph is the first without some blocks and their edges. -/
structure Drops (g : Graph) (ns : List Nat) (g' : Graph) : Prop extends EdgesAgree g' where
  mem_succs : ∀ x y, y ∈ g'.succs x ↔ y ∈ g.succs x ∧ y ∉ ns ∧ x ∉ ns
  order : g'.order = g.order.filter (!ns.contains ·)
  root : ∀ r, r ∈ g'.root ↔ r ∈ g.root ∧ r ∉ ns
  length : g'.blocks.length = g.blocks.length

/-- **Removing a block** removes it and its edges, and fails if it is not in the graph. -/
theorem EdgesAgree.removeBlock (hg : g.EdgesAgree) (hnodup : g.order.Nodup) (n : Nat) :
    Drops g [n] (g.removeBlock n).1 ∧ ((g.removeBlock n).2 = none ↔ n ∈ g.order) := by
  obtain ⟨hagree, hsuccs, horder, hroot, hlength⟩ := EdgesAgree.dropEdges
    (g := { g with root := if g.root = some n then none else g.root })
    ⟨hg.agree, hg.nodup_succs, hg.nodup_preds⟩ n
  rw [removeBlock_eq]
  generalize ({ g with root := if g.root = some n then none else g.root } : Graph).dropEdges n = g₁
    at hagree hsuccs horder hroot hlength
  have hsuccs' : ∀ x y, y ∈ g₁.succs x ↔ y ∈ g.succs x ∧ y ∉ [n] ∧ x ∉ [n] := by
    intro x y
    rw [hsuccs, List.mem_singleton, List.mem_singleton]
    rfl
  have hroot' : ∀ r, r ∈ g₁.root ↔ r ∈ g.root ∧ r ∉ [n] := by
    intro r
    rw [hroot, List.mem_singleton]
    exact mem_unrooted
  have herase : g.order.erase n = g.order.filter (!List.contains [n] ·) := by
    rw [hnodup.erase_eq_filter]
    refine List.filter_congr fun k _ => ?_
    rw [List.contains_cons, List.contains_nil, Bool.or_false]
    rfl
  dsimp only at horder ⊢
  rw [List.contains_eq_mem, horder]
  by_cases hn : n ∈ g.order
  · rw [if_pos (decide_eq_true hn)]
    exact ⟨⟨⟨hagree.agree, hagree.nodup_succs, hagree.nodup_preds⟩, hsuccs', herase, hroot',
      hlength⟩, iff_of_true rfl hn⟩
  · rw [if_neg (by simpa using hn)]
    refine ⟨⟨hagree, hsuccs', ?_, hroot', hlength⟩, iff_of_false (by simp) hn⟩
    rw [horder, ← herase, List.erase_of_not_mem hn]

theorem Drops.trans {ns ns' : List Nat} {g'' : Graph} (h : Drops g ns g') (h' : Drops g' ns' g'') :
    Drops g (ns ++ ns') g'' where
  toEdgesAgree := h'.toEdgesAgree
  mem_succs x y := by
    rw [h'.mem_succs, h.mem_succs, List.mem_append, List.mem_append, not_or, not_or]
    constructor
    · rintro ⟨⟨hy, hyn, hxn⟩, hyn', hxn'⟩
      exact ⟨hy, ⟨hyn, hyn'⟩, hxn, hxn'⟩
    · rintro ⟨hy, ⟨hyn, hyn'⟩, hxn, hxn'⟩
      exact ⟨⟨hy, hyn, hxn⟩, hyn', hxn'⟩
  order := by
    rw [h'.order, h.order, List.filter_filter]
    refine List.filter_congr fun k _ => ?_
    simp [Bool.and_comm]
  root r := by rw [h'.root, h.root, List.mem_append, not_or, and_assoc]
  length := h'.length.trans h.length

/-- Removing blocks one after the other. -/
theorem EdgesAgree.removeBlocks : ∀ (ns : List Nat) {g : Graph}, g.EdgesAgree → g.order.Nodup →
    Drops g ns (ns.foldl (fun g n => (g.removeBlock n).1) g)
  | [], g, hg, _ =>
    ⟨hg, by simp, (List.filter_eq_self.mpr fun _ _ => rfl).symm, by simp, rfl⟩
  | n :: ns, g, hg, hnodup => by
    obtain ⟨hdrops, -⟩ := hg.removeBlock hnodup n
    have hnodup' : (g.removeBlock n).1.order.Nodup := by
      rw [hdrops.order]
      exact hnodup.filter _
    exact hdrops.trans (removeBlocks ns hdrops.toEdgesAgree hnodup')

theorem EdgesAgree.removeUnreachable (hg : g.EdgesAgree) (hnodup : g.order.Nodup)
    {addresses : List Int} {removed : List Nat}
    (h : g.removeUnreachable addresses = .ok (g', removed)) : Drops g removed g' := by
  obtain ⟨reached, -, h⟩ := bind_eq_ok_iff.mp h
  cases h
  exact hg.removeBlocks _ hnodup

/-! ## 5. What the operations keep -/

namespace Consistent

variable {h t : Nat}

theorem addEdge (hg : g.Consistent) (hh : h ∈ g.order) (ht : t ∈ g.order) :
    (g.addEdge h t).Consistent where
  toEdgesAgree := hg.toEdgesAgree.addEdge (hg.exist h hh) (hg.exist t ht)
  inside := by
    intro x y hy
    rcases (mem_succs_addEdge (hg.exist h hh)).mp hy with hy | ⟨rfl, rfl⟩
    · exact hg.inside x y hy
    · exact ⟨hh, ht⟩
  nodup_order := hg.nodup_order
  exist := by
    intro n hn
    rw [Graph.addEdge, modify, List.length_modify, modify, List.length_modify]
    exact hg.exist n hn
  root := hg.root

theorem removeEdge (hg : g.Consistent) (h t : Nat) : (g.removeEdge h t).Consistent where
  toEdgesAgree := hg.toEdgesAgree.removeEdge h t
  inside := by
    intro x y hy
    exact hg.inside x y (hg.mem_succs_removeEdge.mp hy).1
  nodup_order := hg.nodup_order
  exist := by
    intro n hn
    rw [length_removeEdge]
    exact hg.exist n hn
  root := hg.root

/-- A new block that has no edges, not yet in the graph. -/
theorem create (hg : g.Consistent) {b : Block} (hsuccs : b.succs = []) (hpreds : b.preds = []) :
    ({ g with blocks := g.blocks ++ [b] } : Graph).Consistent := by
  have hsame : ∀ {field : Block → List Nat}, field b = [] → ∀ n,
      listAt field { g with blocks := g.blocks ++ [b] } n = listAt field g n := by
    intro field hb n
    unfold listAt block?
    rw [List.getElem?_append]
    split
    · rfl
    · rename_i hlt
      rw [List.getElem?_eq_none (Nat.le_of_not_lt hlt)]
      cases hlast : [b][n - g.blocks.length]? with
      | none => rfl
      | some b' =>
        rw [List.mem_singleton.mp (List.mem_of_getElem? hlast), Option.map_some, hb]
        rfl
  have hsuccs' : ∀ n, ({ g with blocks := g.blocks ++ [b] } : Graph).succs n = g.succs n := by
    intro n
    rw [succs_eq, hsame hsuccs, succs_eq]
  have hpreds' : ∀ n, ({ g with blocks := g.blocks ++ [b] } : Graph).preds n = g.preds n := by
    intro n
    rw [preds_eq, hsame hpreds, preds_eq]
  constructor
  · constructor
    · intro x y
      rw [hsuccs', hpreds', hg.agree]
    · intro n
      rw [hsuccs']
      exact hg.nodup_succs n
    · intro n
      rw [hpreds']
      exact hg.nodup_preds n
  · intro x y hy
    rw [hsuccs'] at hy
    exact hg.inside x y hy
  · exact hg.nodup_order
  · intro n hn
    rw [List.length_append]
    exact Nat.lt_add_right _ (hg.exist n hn)
  · exact hg.root

theorem addBlock (hg : g.Consistent) {n : Nat} (hn : n < g.blocks.length) :
    (g.addBlock n).Consistent where
  toEdgesAgree := ⟨hg.agree, hg.nodup_succs, hg.nodup_preds⟩
  inside := by
    intro x y hy
    obtain ⟨hx, hy⟩ := hg.inside x y hy
    exact ⟨mem_insertNew.mpr (.inl hx), mem_insertNew.mpr (.inl hy)⟩
  nodup_order := nodup_insertNew hg.nodup_order
  exist := by
    intro k hk
    rcases mem_insertNew.mp hk with hk | rfl
    · exact hg.exist k hk
    · exact hn
  root := fun r hr => mem_insertNew.mpr (.inl (hg.root r hr))

/-- Without some of its blocks and their edges, a graph is still consistent. -/
theorem drops (hg : g.Consistent) {ns : List Nat} (h : Drops g ns g') : g'.Consistent := by
  have hmem : ∀ {k}, k ∈ g'.order ↔ k ∈ g.order ∧ k ∉ ns := by
    intro k
    rw [h.order, List.mem_filter]
    simp
  constructor
  · exact h.toEdgesAgree
  · intro x y hy
    obtain ⟨hy, hyn, hxn⟩ := (h.mem_succs x y).mp hy
    obtain ⟨hx, hy⟩ := hg.inside x y hy
    exact ⟨hmem.mpr ⟨hx, hxn⟩, hmem.mpr ⟨hy, hyn⟩⟩
  · rw [h.order]
    exact hg.nodup_order.filter _
  · intro k hk
    rw [h.length]
    exact hg.exist k (hmem.mp hk).1
  · intro r hr
    obtain ⟨hr, hrn⟩ := (h.root r).mp hr
    exact hmem.mpr ⟨hg.root r hr, hrn⟩

end Consistent

/-! ## 6. Recomputing the predecessors -/

/-- The second graph is the first with other predecessors. -/
structure Repreds (g : Graph) (preds : Nat → List Nat) (g' : Graph) : Prop where
  succs : ∀ n, g'.succs n = g.succs n
  preds : ∀ n, g'.preds n = preds n
  order : g'.order = g.order
  root : g'.root = g.root
  length : g'.blocks.length = g.blocks.length

theorem Repreds.trans {p p' : Nat → List Nat} {g'' : Graph} (h : Repreds g p g')
    (h' : Repreds g' p' g'') : Repreds g p' g'' where
  succs n := (h'.succs n).trans (h.succs n)
  preds := h'.preds
  order := h'.order.trans h.order
  root := h'.root.trans h.root
  length := h'.length.trans h.length

theorem repreds_modify (g : Graph) (n : Nat) {e : List Nat → List Nat}
    (hn : n < g.blocks.length ∨ e [] = []) :
    Repreds g (fun k => if n = k then e (g.preds k) else g.preds k)
      (g.modify n fun b => { b with preds := e b.preds }) where
  succs k := by
    rw [succs_eq, succs_eq]
    exact listAt_modify_of_eq (fun _ => by rfl) k
  preds k := by
    rw [preds_eq, preds_eq]
    exact listAt_modify (fun _ => by rfl) hn k
  order := rfl
  root := rfl
  length := List.length_modify ..

/-- Forgets the predecessors of some blocks. -/
theorem repreds_clear : ∀ (l : List Nat) (g : Graph),
    Repreds g (fun k => if k ∈ l then [] else g.preds k)
      (l.foldl (fun g n => g.modify n fun b => { b with preds := [] }) g)
  | [], g => ⟨fun _ => rfl, fun _ => by simp, rfl, rfl, rfl⟩
  | n :: l, g => by
    have hone := repreds_modify g n (e := fun _ => []) (.inr rfl)
    have hrest := repreds_clear l (g.modify n fun b => { b with preds := [] })
    have hall := hone.trans hrest
    refine ⟨hall.succs, ?_, hall.order, hall.root, hall.length⟩
    intro k
    refine (hall.preds k).trans ?_
    rw [hone.preds]
    by_cases hk : k ∈ l
    · simp [hk]
    · by_cases hnk : n = k
      · simp [hnk]
      · simp [hk, hnk, Ne.symm hnk]

/-- Makes one block the last predecessor of others. -/
theorem repreds_attach (n : Nat) : ∀ (ss : List Nat) (g : Graph), ss.Nodup →
    (∀ s ∈ ss, s < g.blocks.length) →
    Repreds g (fun k => g.preds k ++ if k ∈ ss then [n] else [])
      (ss.foldl (fun g s => g.modify s fun b => { b with preds := b.preds ++ [n] }) g)
  | [], g, _, _ => ⟨fun _ => rfl, fun _ => by simp, rfl, rfl, rfl⟩
  | s :: ss, g, hnodup, hlt => by
    obtain ⟨hs, hss⟩ := List.nodup_cons.mp hnodup
    obtain ⟨hslt, hsslt⟩ := List.forall_mem_cons.mp hlt
    have hone := repreds_modify g s (e := (· ++ [n])) (.inl hslt)
    have hrest := repreds_attach n ss (g.modify s fun b => { b with preds := b.preds ++ [n] }) hss
      (by
        rw [hone.length]
        exact hsslt)
    have hall := hone.trans hrest
    refine ⟨hall.succs, ?_, hall.order, hall.root, hall.length⟩
    intro k
    refine (hall.preds k).trans ?_
    rw [hone.preds]
    by_cases hk : k ∈ ss
    · have hne : s ≠ k := by
        rintro rfl
        exact hs hk
      simp [hk, hne]
    · by_cases hsk : s = k
      · simp [hsk, hk]
      · simp [hk, hsk, Ne.symm hsk]

/-- Adds the blocks of a list to the predecessors of their successors, in the order of the list. -/
theorem repreds_attachAll : ∀ (l : List Nat) (g : Graph), (∀ n, (g.succs n).Nodup) →
    (∀ n, ∀ s ∈ g.succs n, s < g.blocks.length) →
    Repreds g (fun k => g.preds k ++ l.filter (k ∈ g.succs ·))
      (l.foldl (fun g n => (g.succs n).foldl
        (fun g s => g.modify s fun b => { b with preds := b.preds ++ [n] }) g) g)
  | [], g, _, _ => ⟨fun _ => rfl, fun _ => by simp, rfl, rfl, rfl⟩
  | n :: l, g, hnodup, hlt => by
    have hone := repreds_attach n (g.succs n) g (hnodup n) (hlt n)
    have hrest := repreds_attachAll l ((g.succs n).foldl
        (fun g s => g.modify s fun b => { b with preds := b.preds ++ [n] }) g)
      (by
        intro k
        rw [hone.succs]
        exact hnodup k)
      (by
        intro k
        rw [hone.succs, hone.length]
        exact hlt k)
    have hall := hone.trans hrest
    refine ⟨hall.succs, ?_, hall.order, hall.root, hall.length⟩
    intro k
    refine (hall.preds k).trans ?_
    rw [hone.preds, List.append_assoc, List.filter_cons]
    simp only [hone.succs]
    by_cases hk : k ∈ g.succs n <;> simp [hk]

namespace Consistent

/-- **Recomputed predecessors** are the blocks of the graph that have the block as a successor, in
the order of the graph. -/
theorem repreds (hg : g.Consistent) :
    Repreds g (fun k => g.order.filter (k ∈ g.succs ·)) g.recalcPreds := by
  have hclear := repreds_clear g.order g
  have hattach := repreds_attachAll g.order
    (g.order.foldl (fun g n => g.modify n fun b => { b with preds := [] }) g)
    (by
      intro n
      rw [hclear.succs]
      exact hg.nodup_succs n)
    (by
      intro n s hs
      rw [hclear.succs] at hs
      rw [hclear.length]
      exact hg.exist s (hg.inside n s hs).2)
  have hall := hclear.trans hattach
  have hnone : ∀ k, (if k ∈ g.order then [] else g.preds k) = [] := by
    intro k
    split
    · rfl
    · rename_i hk
      exact (hg.edgeFree hk).2
  have hsame : g.recalcPreds =
      (g.order.foldl (fun g n => g.modify n fun b => { b with preds := [] }) g).order.foldl
        (fun g n => (g.succs n).foldl
          (fun g s => g.modify s fun b => { b with preds := b.preds ++ [n] }) g)
        (g.order.foldl (fun g n => g.modify n fun b => { b with preds := [] }) g) := rfl
  rw [hsame, hclear.order]
  refine ⟨hall.succs, ?_, hall.order, hall.root, hall.length⟩
  intro k
  refine (hall.preds k).trans ?_
  simp only [hclear.preds, hclear.succs, hnone, List.nil_append]

theorem recalcPreds (hg : g.Consistent) : g.recalcPreds.Consistent := by
  have hre := hg.repreds
  constructor
  · constructor
    · intro x y
      rw [hre.succs, hre.preds, List.mem_filter, decide_eq_true_iff]
      exact ⟨fun hy => ⟨(hg.inside x y hy).1, hy⟩, And.right⟩
    · intro n
      rw [hre.succs]
      exact hg.nodup_succs n
    · intro n
      rw [hre.preds]
      exact hg.nodup_order.filter _
  · intro x y hy
    rw [hre.succs] at hy
    rw [hre.order]
    exact hg.inside x y hy
  · rw [hre.order]
    exact hg.nodup_order
  · rw [hre.order, hre.length]
    exact hg.exist
  · rw [hre.root, hre.order]
    exact hg.root

/-- Recomputing the predecessors changes them at most in order. -/
theorem preds_recalcPreds (hg : g.Consistent) (n : Nat) :
    (g.recalcPreds.preds n).Perm (g.preds n) := by
  refine (List.perm_ext_iff_of_nodup (hg.recalcPreds.nodup_preds n) (hg.nodup_preds n)).mpr ?_
  intro p
  rw [← hg.recalcPreds.agree, hg.repreds.succs, hg.agree]

end Consistent

end TraceLift.Graph
