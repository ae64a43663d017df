/-
# Pruning keeps what can be reached

`removeUnreachable` collects what some addresses lead to and then removes the other blocks one after
the other.  Each removal takes apart the edges of one block, at both ends, by walking lists that it
changes on the way; some of the neighbours are kept and some were removed before.

* **One removal** (`Linked.removeBlock`).  The block and its edges are gone; each other block of the
  graph keeps the rest of its edges IN THEIR ORDER; blocks outside the graph are not touched, and
  everything but edges stays as it was.  The removed block is outside from then on, so that later
  removals do not touch it either.
* **All removals** (`Linked.removeBlocks`), by induction on the blocks to remove: what is left is
  linked again, which is what the next removal needs.
* **Nothing that is kept loses a successor**, since what a reached block leads to is reached.  So
  the same addresses lead to the same blocks afterwards, and pruning again removes nothing
  (`Pruned.removeUnreachable`).
-/
import TraceLift.Proofs.Closure

namespace TraceLift

/-- The block as it is apart from its edges. -/
def Block.withoutEdges (b : Block) : Block := { b with preds := [], succs := [] }

namespace Graph

variable {g g' : Graph}

/-! ## 1. Linked graphs -/

/-- Between the blocks of the graph both halves of every edge are there, and each is there once; its
blocks have edges only with one another, and none is listed twice.  What blocks outside the graph
hold does not matter. -/
structure Linked (g : Graph) : Prop where
  agree : ∀ h ∈ g.order, ∀ t ∈ g.order, t ∈ g.succs h ↔ h ∈ g.preds t
  succs_inside : ∀ n ∈ g.order, ∀ t ∈ g.succs n, t ∈ g.order
  preds_inside : ∀ n ∈ g.order, ∀ h ∈ g.preds n, h ∈ g.order
  nodup_succs : ∀ n ∈ g.order, (g.succs n).Nodup
  nodup_preds : ∀ n ∈ g.order, (g.preds n).Nodup
  nodup_order : g.order.Nodup

theorem linked_iff : g.Linked ↔ (∀ h ∈ g.order, ∀ t ∈ g.order, t ∈ g.succs h ↔ h ∈ g.preds t) ∧
    (∀ n ∈ g.order, (∀ t ∈ g.succs n, t ∈ g.order) ∧ (∀ h ∈ g.preds n, h ∈ g.order) ∧
      (g.succs n).Nodup ∧ (g.preds n).Nodup) ∧ g.order.Nodup := by
  constructor
  · intro h
    exact ⟨h.agree, fun n hn => ⟨h.succs_inside n hn, h.preds_inside n hn, h.nodup_succs n hn,
      h.nodup_preds n hn⟩, h.nodup_order⟩
  · rintro ⟨hagree, hblocks, hnodup⟩
    exact ⟨hagree, fun n hn => (hblocks n hn).1, fun n hn => (hblocks n hn).2.1,
      fun n hn => (hblocks n hn).2.2.1, fun n hn => (hblocks n hn).2.2.2, hnodup⟩

instance (g : Graph) : Decidable g.Linked := decidable_of_iff _ linked_iff.symm

/-- Paths do not leave a linked graph. -/
theorem Linked.mem_of_leads (hg : g.Linked) {a b : Nat} (h : g.Leads a b) (ha : a ∈ g.order) :
    b ∈ g.order :=
  h.mem_of_closed hg.succs_inside ha

/-! ## 2. Removing edges -/

theorem ite_erase_eq_filter {l : List Nat} (hl : l.Nodup) (c : Prop) [Decidable c] (a : Nat) :
    (if c then l.erase a else l) = l.filter fun b => ¬ (c ∧ b = a) := by
  split
  · rename_i hc
    rw [hl.erase_eq_filter]
    exact List.filter_congr fun b _ => by simp [hc, bne, Bool.beq_eq_decide_eq]
  · rename_i hc
    exact (List.filter_eq_self.mpr fun b _ => by simp [hc]).symm

/-- A list of neighbours, each the end of some edge, from which removing an edge takes its end: what
removing several edges leaves of it, in the order it had. -/
theorem read_removeEdges {read : Graph → List Nat} {edgeTo : Nat → Nat × Nat}
    (hread : ∀ (g : Graph) (e : Nat × Nat), (read g).Nodup →
      read (g.removeEdge e.1 e.2) = (read g).filter fun a => edgeTo a ≠ e)
    (edges : List (Nat × Nat)) (hnodup : (read g).Nodup) :
    read (g.removeEdges edges) = (read g).filter fun a => edgeTo a ∉ edges := by
  induction edges generalizing g with
  | nil => simp [removeEdges]
  | cons e edges ih =>
    have hone := hread g e hnodup
    have hrest : read (g.removeEdges (e :: edges)) =
        (read (g.removeEdge e.1 e.2)).filter fun a => edgeTo a ∉ edges :=
      ih (by
        rw [hone]
        exact hnodup.filter _)
    rw [hrest, hone, List.filter_filter]
    exact List.filter_congr fun a _ => by simp [Bool.and_comm]

theorem succs_removeEdges {k : Nat} (edges : List (Nat × Nat)) (h : (g.succs k).Nodup) :
    (g.removeEdges edges).succs k = (g.succs k).filter fun s => (k, s) ∉ edges := by
  have hone : ∀ (g : Graph) (e : Nat × Nat), (g.succs k).Nodup →
      (g.removeEdge e.1 e.2).succs k = (g.succs k).filter fun s => (k, s) ≠ e := by
    intro g e hnodup
    rw [succs_removeEdge, ite_erase_eq_filter hnodup]
    exact List.filter_congr fun s _ => by simp [Prod.ext_iff, eq_comm]
  exact read_removeEdges hone edges h

theorem preds_removeEdges {k : Nat} (edges : List (Nat × Nat)) (h : (g.preds k).Nodup) :
    (g.removeEdges edges).preds k = (g.preds k).filter fun p => (p, k) ∉ edges := by
  have hone : ∀ (g : Graph) (e : Nat × Nat), (g.preds k).Nodup →
      (g.removeEdge e.1 e.2).preds k = (g.preds k).filter fun p => (p, k) ≠ e := by
    intro g e hnodup
    rw [preds_removeEdge, ite_erase_eq_filter hnodup]
    exact List.filter_congr fun p _ => by simp [Prod.ext_iff, eq_comm, and_comm]
  exact read_removeEdges hone edges h

/-- Removing edges changes the edges of the blocks at their ends, and nothing else. -/
theorem frame_removeEdges (edges : List (Nat × Nat)) (g : Graph) :
    (g.removeEdges edges).order = g.order ∧ (g.removeEdges edges).root = g.root ∧
      (∀ k, (∀ e ∈ edges, e.1 ≠ k ∧ e.2 ≠ k) → (g.removeEdges edges).block? k = g.block? k) ∧
      ∀ k, ((g.removeEdges edges).block? k).map Block.withoutEdges =
        (g.block? k).map Block.withoutEdges := by
  induction edges generalizing g with
  | nil => exact ⟨rfl, rfl, fun _ _ => rfl, fun _ => rfl⟩
  | cons e edges ih =>
    obtain ⟨horder, hroot, hblock, hcontent⟩ := ih (g.removeEdge e.1 e.2)
    refine ⟨horder, hroot, fun k hk => ?_, fun k => ?_⟩
    · obtain ⟨he, hedges⟩ := List.forall_mem_cons.mp hk
      refine (hblock k hedges).trans ?_
      rw [removeEdge, block?_modify, if_neg he.2, block?_modify, if_neg he.1]
    · refine (hcontent k).trans ?_
      rw [removeEdge, block?_modify, block?_modify]
      cases g.block? k with
      | none => split <;> split <;> rfl
      | some b => split <;> split <;> rfl

/-! ## 3. Removing a block -/

namespace Linked

variable {n k : Nat}

/-- Without the edges that arrive at a block, it is the successor of none. -/
theorem succs_arriving (hg : g.Linked) (hn : n ∈ g.order) (hk : k ∈ g.order) :
    (g.removeEdges ((g.preds n).map (·, n))).succs k = (g.succs k).filter (· ∉ [n]) := by
  rw [succs_removeEdges _ (hg.nodup_succs k hk)]
  refine List.filter_congr fun s hs => decide_eq_decide.mpr (not_congr ?_)
  rw [List.mem_map, List.mem_singleton]
  constructor
  · rintro ⟨p, -, heq⟩
    exact (Prod.mk.inj heq).2.symm
  · rintro rfl
    exact ⟨k, (hg.agree k hk s hn).mp hs, rfl⟩

theorem preds_arriving (hg : g.Linked) (hk : k ∈ g.order) :
    (g.removeEdges ((g.preds n).map (·, n))).preds k = if k = n then [] else g.preds k := by
  rw [preds_removeEdges _ (hg.nodup_preds k hk)]
  split
  · rename_i heq
    subst heq
    refine List.filter_eq_nil_iff.mpr fun p hp => ?_
    simpa using hp
  · rename_i hne
    refine List.filter_eq_self.mpr fun p _ => ?_
    simp [Ne.symm hne]

theorem succs_dropEdges (hg : g.Linked) (hn : n ∈ g.order) (hk : k ∈ g.order) :
    (g.dropEdges n).succs k = if k = n then [] else (g.succs k).filter (· ∉ [n]) := by
  have harriving := hg.succs_arriving hn hk
  have hnodup : ((g.removeEdges ((g.preds n).map (·, n))).succs k).Nodup := by
    rw [harriving]
    exact (hg.nodup_succs k hk).filter _
  refine (succs_removeEdges _ hnodup).trans ?_
  split
  · rename_i heq
    subst heq
    refine List.filter_eq_nil_iff.mpr fun s hs => ?_
    simpa using hs
  · rename_i hne
    rw [harriving]
    refine List.filter_eq_self.mpr fun s _ => ?_
    simp [Ne.symm hne]

theorem preds_dropEdges (hg : g.Linked) (hn : n ∈ g.order) (hk : k ∈ g.order) :
    (g.dropEdges n).preds k = if k = n then [] else (g.preds k).filter (· ∉ [n]) := by
  have harriving := hg.preds_arriving (n := n) hk
  have hnodup : ((g.removeEdges ((g.preds n).map (·, n))).preds k).Nodup := by
    rw [harriving]
    split
    · exact List.nodup_nil
    · exact hg.nodup_preds k hk
  refine (preds_removeEdges _ hnodup).trans ?_
  rw [harriving]
  split
  · rfl
  · rename_i hne
    refine List.filter_congr fun p hp => decide_eq_decide.mpr (not_congr ?_)
    rw [List.mem_map, List.mem_singleton]
    constructor
    · rintro ⟨s, -, heq⟩
      exact (Prod.mk.inj heq).1.symm
    · rintro rfl
      -- the edge to `k` was not among those that arrive at `p`
      refine ⟨k, ?_, rfl⟩
      rw [hg.succs_arriving hn hn, List.mem_filter]
      exact ⟨(hg.agree p hn k hk).mpr hp, by simpa using hne⟩

theorem frame_dropEdges (hg : g.Linked) (hn : n ∈ g.order) :
    (g.dropEdges n).order = g.order ∧ (g.dropEdges n).root = g.root ∧
      (∀ k ∉ g.order, (g.dropEdges n).block? k = g.block? k) ∧
      ∀ k, ((g.dropEdges n).block? k).map Block.withoutEdges =
        (g.block? k).map Block.withoutEdges := by
  obtain ⟨horder, hroot, hblock, hcontent⟩ := frame_removeEdges ((g.preds n).map (·, n)) g
  obtain ⟨horder', hroot', hblock', hcontent'⟩ := frame_removeEdges
    (((g.removeEdges ((g.preds n).map (·, n))).succs n).map (n, ·))
    (g.removeEdges ((g.preds n).map (·, n)))
  refine ⟨horder'.trans horder, hroot'.trans hroot, fun k hk => ?_,
    fun k => (hcontent' k).trans (hcontent k)⟩
  -- both ends of every edge that is removed are blocks of the graph
  have hne : ∀ m ∈ g.order, m ≠ k := by
    rintro m hm rfl
    exact hk hm
  refine (hblock' k fun e he => ?_).trans (hblock k fun e he => ?_)
  · obtain ⟨s, hs, rfl⟩ := List.mem_map.mp he
    rw [hg.succs_arriving hn hn] at hs
    exact ⟨hne n hn, hne s (hg.succs_inside n hn s (List.mem_filter.mp hs).1)⟩
  · obtain ⟨p, hp, rfl⟩ := List.mem_map.mp he
    exact ⟨hne p (hg.preds_inside n hn p hp), hne n hn⟩

end Linked

/-- The second graph is the first without some of its blocks and their edges.  The other blocks keep
the rest of their edges in order; blocks outside the graph, and all but edges, are the same. -/
structure Without (g : Graph) (ns : List Nat) (g' : Graph) : Prop where
  order : g'.order = g.order.filter (· ∉ ns)
  root : ∀ r, r ∈ g'.root ↔ r ∈ g.root ∧ r ∉ ns
  bare : ∀ n ∈ ns, g'.succs n = [] ∧ g'.preds n = []
  succs : ∀ n ∈ g'.order, g'.succs n = (g.succs n).filter (· ∉ ns)
  preds : ∀ n ∈ g'.order, g'.preds n = (g.preds n).filter (· ∉ ns)
  outside : ∀ n ∉ g.order, g'.block? n = g.block? n
  content : ∀ n, (g'.block? n).map Block.withoutEdges = (g.block? n).map Block.withoutEdges

theorem Without.mem_order {ns : List Nat} {n : Nat} (h : Without g ns g') :
    n ∈ g'.order ↔ n ∈ g.order ∧ n ∉ ns := by
  rw [h.order, List.mem_filter, decide_eq_true_iff]

/-- **Removing one block.** -/
theorem Linked.removeBlock (hg : g.Linked) {n : Nat} (hn : n ∈ g.order) :
    Without g [n] (g.removeBlock n).1 := by
  let unrooted : Graph := { g with root := if g.root = some n then none else g.root }
  have hlinked : unrooted.Linked :=
    ⟨hg.agree, hg.succs_inside, hg.preds_inside, hg.nodup_succs, hg.nodup_preds, hg.nodup_order⟩
  obtain ⟨horder, hroot, houtside, hcontent⟩ := hlinked.frame_dropEdges hn
  have hremoved : (g.removeBlock n).1 =
      { unrooted.dropEdges n with order := g.order.erase n } := by
    have hin : (unrooted.dropEdges n).order.contains n = true := by
      rw [horder]
      exact List.contains_iff_mem.mpr hn
    rw [removeBlock_eq]
    dsimp only
    rw [if_pos hin, horder]
  have hsuccs : ∀ k ∈ g.order, (g.removeBlock n).1.succs k =
      if k = n then [] else (g.succs k).filter (· ∉ [n]) := by
    rw [hremoved]
    exact fun k hk => hlinked.succs_dropEdges hn hk
  have hpreds : ∀ k ∈ g.order, (g.removeBlock n).1.preds k =
      if k = n then [] else (g.preds k).filter (· ∉ [n]) := by
    rw [hremoved]
    exact fun k hk => hlinked.preds_dropEdges hn hk
  have hleft : (g.removeBlock n).1.order = g.order.filter (· ∉ [n]) := by
    rw [hremoved]
    refine hg.nodup_order.erase_eq_filter n |>.trans (List.filter_congr fun k _ => ?_)
    simp [bne, Bool.beq_eq_decide_eq]
  have hother : ∀ k ∈ (g.removeBlock n).1.order, k ∈ g.order ∧ k ≠ n := by
    intro k hk
    rw [hleft, List.mem_filter] at hk
    exact ⟨hk.1, by simpa using hk.2⟩
  refine ⟨hleft, fun r => ?_, fun k hk => ?_, fun k hk => ?_, fun k hk => ?_, ?_, ?_⟩
  · have hroot' : (g.removeBlock n).1.root = if g.root = some n then none else g.root := by
      rw [hremoved]
      exact hroot
    rw [hroot', List.mem_singleton]
    exact mem_unrooted
  · obtain rfl := List.mem_singleton.mp hk
    exact ⟨(hsuccs k hn).trans (if_pos rfl), (hpreds k hn).trans (if_pos rfl)⟩
  · obtain ⟨hk, hne⟩ := hother k hk
    exact (hsuccs k hk).trans (if_neg hne)
  · obtain ⟨hk, hne⟩ := hother k hk
    exact (hpreds k hk).trans (if_neg hne)
  · rw [hremoved]
    exact houtside
  · rw [hremoved]
    exact hcontent

/-- What is left of a linked graph is linked. -/
theorem Without.linked {ns : List Nat} (h : Without g ns g') (hg : g.Linked) : g'.Linked := by
  have hin : ∀ {n}, n ∈ g'.order → n ∈ g.order := fun hn => (h.mem_order.mp hn).1
  constructor
  · intro x hx y hy
    obtain ⟨hx', hxn⟩ := h.mem_order.mp hx
    obtain ⟨hy', hyn⟩ := h.mem_order.mp hy
    rw [h.succs x hx, h.preds y hy, List.mem_filter, List.mem_filter, hg.agree x hx' y hy']
    simp [hxn, hyn]
  · intro n hn t ht
    rw [h.succs n hn, List.mem_filter, decide_eq_true_iff] at ht
    exact h.mem_order.mpr ⟨hg.succs_inside n (hin hn) t ht.1, ht.2⟩
  · intro n hn p hp
    rw [h.preds n hn, List.mem_filter, decide_eq_true_iff] at hp
    exact h.mem_order.mpr ⟨hg.preds_inside n (hin hn) p hp.1, hp.2⟩
  · intro n hn
    rw [h.succs n hn]
    exact (hg.nodup_succs n (hin hn)).filter _
  · intro n hn
    rw [h.preds n hn]
    exact (hg.nodup_preds n (hin hn)).filter _
  · rw [h.order]
    exact hg.nodup_order.filter _

/-- A block is removed and others after it. -/
theorem Without.cons {n : Nat} {ns : List Nat} {g'' : Graph} (h : Without g [n] g')
    (h' : Without g' ns g'') : Without g (n :: ns) g'' := by
  have hn : n ∉ g'.order := fun hn => (h.mem_order.mp hn).2 List.mem_cons_self
  have hfilter : ∀ l : List Nat, (l.filter (· ∉ [n])).filter (· ∉ ns) =
      l.filter (· ∉ n :: ns) := by
    intro l
    rw [List.filter_filter]
    exact List.filter_congr fun k _ => by simp [Bool.and_comm]
  have hin : ∀ {k}, k ∈ g''.order → k ∈ g'.order := fun hk => (h'.mem_order.mp hk).1
  refine ⟨?_, fun r => ?_, fun k hk => ?_, fun k hk => ?_, fun k hk => ?_, fun k hk => ?_,
    fun k => ?_⟩
  · rw [h'.order, h.order, hfilter]
  · rw [h'.root, h.root, List.mem_singleton, List.mem_cons, not_or, and_assoc]
  · rcases List.mem_cons.mp hk with rfl | hk
    · -- the block is outside the graph by now, so that it stays as it is
      have hstays : g''.succs k = g'.succs k ∧ g''.preds k = g'.preds k := by
        simp only [Graph.succs, Graph.preds, h'.outside k hn, and_self]
      rw [hstays.1, hstays.2]
      exact h.bare k List.mem_cons_self
    · exact h'.bare k hk
  · rw [h'.succs k hk, h.succs k (hin hk), hfilter]
  · rw [h'.preds k hk, h.preds k (hin hk), hfilter]
  · exact (h'.outside k fun hk' => hk (h.mem_order.mp hk').1).trans (h.outside k hk)
  · exact (h'.content k).trans (h.content k)

/-- **Removing blocks one after the other.** -/
theorem Linked.removeBlocks (ns : List Nat) (hg : g.Linked) (hnodup : ns.Nodup)
    (hns : ∀ n ∈ ns, n ∈ g.order) :
    Without g ns (ns.foldl (fun g n => (g.removeBlock n).1) g) := by
  induction ns generalizing g with
  | nil =>
    have hall : ∀ l : List Nat, l = l.filter (· ∉ ([] : List Nat)) :=
      fun l => (List.filter_eq_self.mpr fun _ _ => by simp).symm
    exact ⟨hall _, by simp, by simp, fun _ _ => hall _, fun _ _ => hall _,
      fun _ _ => rfl, fun _ => rfl⟩
  | cons n ns ih =>
    obtain ⟨hn, hnodup⟩ := List.nodup_cons.mp hnodup
    obtain ⟨hfirst, hrest⟩ := List.forall_mem_cons.mp hns
    have hone := hg.removeBlock hfirst
    refine hone.cons (ih (hone.linked hg) hnodup fun k hk => ?_)
    refine hone.mem_order.mpr ⟨hrest k hk, ?_⟩
    rw [List.mem_singleton]
    rintro rfl
    exact hn hk

/-! ## 4. Pruning -/

/-- The second graph is the first without the blocks that are not of a kind: those are removed in
their order, and the others are left in theirs.  The blocks left have the edges they had with one
another, the removed ones have none; the root stays unless it is removed, and so does all else. -/
structure Pruned (g : Graph) (kept : Nat → Prop) (g' : Graph) (removed : List Nat) : Prop where
  removed_sublist : removed.Sublist g.order
  mem_removed : ∀ n, n ∈ removed ↔ n ∈ g.order ∧ ¬ kept n
  order_sublist : g'.order.Sublist g.order
  mem_order : ∀ n, n ∈ g'.order ↔ kept n
  succs : ∀ n ∈ g'.order, g'.succs n = g.succs n
  preds : ∀ n ∈ g'.order, g'.preds n = (g.preds n).filter (· ∈ g'.order)
  apart : ∀ n ∈ g'.order, ∀ k ∈ removed, k ∉ g'.succs n ∧ k ∉ g'.preds n
  bare : ∀ n ∈ removed, g'.succs n = [] ∧ g'.preds n = []
  root : ∀ r, r ∈ g'.root ↔ r ∈ g.root ∧ (r ∈ g.order → kept r)
  outside : ∀ n ∉ g.order, g'.block? n = g.block? n
  content : ∀ n, (g'.block? n).map Block.withoutEdges = (g.block? n).map Block.withoutEdges

/-- Removing what is not of a kind prunes a linked graph, if the kind is closed under successors. -/
theorem Without.pruned {kept : Nat → Prop} {removed : List Nat} (h : Without g removed g')
    (hg : g.Linked) (hsub : removed.Sublist g.order)
    (hremoved : ∀ n, n ∈ removed ↔ n ∈ g.order ∧ ¬ kept n) (hin : ∀ n, kept n → n ∈ g.order)
    (hclosed : ∀ n, kept n → ∀ s ∈ g.succs n, kept s) : Pruned g kept g' removed := by
  have hmem : ∀ n, n ∈ g'.order ↔ kept n := by
    intro n
    rw [h.mem_order, hremoved]
    constructor
    · rintro ⟨hn, hnot⟩
      exact not_not.mp fun hkept => hnot ⟨hn, hkept⟩
    · intro hkept
      exact ⟨hin n hkept, fun hnot => hnot.2 hkept⟩
  have hleft : ∀ n ∈ g'.order, n ∉ removed := fun n hn => (h.mem_order.mp hn).2
  have hsuccs : ∀ n ∈ g'.order, g'.succs n = g.succs n := by
    intro n hn
    rw [h.succs n hn]
    refine List.filter_eq_self.mpr fun s hs => decide_eq_true (hleft s ?_)
    exact (hmem s).mpr (hclosed n ((hmem n).mp hn) s hs)
  have hpreds : ∀ n ∈ g'.order, g'.preds n = (g.preds n).filter (· ∈ g'.order) := by
    intro n hn
    rw [h.preds n hn]
    refine List.filter_congr fun p hp => decide_eq_decide.mpr ?_
    rw [h.mem_order, and_iff_right]
    exact hg.preds_inside n (h.mem_order.mp hn).1 p hp
  refine ⟨hsub, hremoved, ?_, hmem, hsuccs, hpreds, fun n hn k hk => ⟨fun hs => ?_, fun hp => ?_⟩,
    h.bare, fun r => ?_, h.outside, h.content⟩
  · rw [h.order]
    exact List.filter_sublist
  · rw [hsuccs n hn] at hs
    exact hleft k ((hmem k).mpr (hclosed n ((hmem n).mp hn) k hs)) hk
  · rw [hpreds n hn, List.mem_filter, decide_eq_true_iff] at hp
    exact hleft k hp.2 hk
  · rw [h.root, hremoved, not_and, not_not]

/-- Pruning succeeds, and leaves what the addresses lead to. -/
theorem Linked.removeUnreachable (hg : g.Linked) (hknown : g.BoundsKnown)
    (addresses : List Int) : ∃ g' removed, g.removeUnreachable addresses = .ok (g', removed) ∧
      Pruned g (g.ReachedFrom addresses) g' removed := by
  obtain ⟨queue, reached, hqueue, hreached, -, hmem⟩ := exists_closureLoop hknown addresses
  have hremoved : ∀ n, n ∈ g.order.filter (!reached.contains ·) ↔
      n ∈ g.order ∧ ¬ g.ReachedFrom addresses n := by
    intro n
    rw [List.mem_filter, ← hmem]
    simp
  have hwithout := hg.removeBlocks (g.order.filter (!reached.contains ·))
    (hg.nodup_order.filter _) fun n hn => (List.mem_filter.mp hn).1
  refine ⟨_, _, ?_, hwithout.pruned hg List.filter_sublist hremoved ?_ ?_⟩
  · rw [Graph.removeUnreachable, closure_eq hqueue hreached]
    rfl
  · rintro n ⟨o, ⟨pc, -, ho⟩, hlead⟩
    exact hg.mem_of_leads hlead ho.1
  · rintro n ⟨o, ho, hlead⟩ s hs
    exact ⟨o, ho, hlead.next hs⟩

section Again

variable {addresses : List Int} {removed : List Nat}

/-- The bounds of the blocks are what they were. -/
theorem Pruned.head {kept : Nat → Prop} (h : Pruned g kept g' removed) (n : Nat) :
    (g'.block? n).map (·.toBlockHead) = (g.block? n).map (·.toBlockHead) := by
  have hheads := congrArg (Option.map (·.toBlockHead)) (h.content n)
  rwa [Option.map_map, Option.map_map] at hheads

theorem Pruned.boundsKnown {kept : Nat → Prop} (h : Pruned g kept g' removed)
    (hknown : g.BoundsKnown) : g'.BoundsKnown := by
  rintro ⟨n, b'⟩ hmember
  obtain ⟨hn, hb'⟩ := mem_members.mp hmember
  have hhead := h.head n
  rw [hb', Option.map_some] at hhead
  obtain ⟨b, hb, hsame⟩ := Option.map_eq_some_iff.mp hhead.symm
  have hold := hknown (n, b) (mem_members.mpr ⟨h.order_sublist.subset hn, hb⟩)
  dsimp only at hold ⊢
  rwa [← hsame]

/-- What is left is reached from the same addresses, along the same edges. -/
theorem Pruned.reachedFrom (h : Pruned g (g.ReachedFrom addresses) g' removed) {n : Nat}
    (hn : n ∈ g'.order) : g'.ReachedFrom addresses n := by
  obtain ⟨o, ⟨pc, hpc, ho⟩, hlead⟩ := (h.mem_order n).mp hn
  have hspans : g'.SpansAt o pc := by
    obtain ⟨-, b, hb, hbounds⟩ := id ho
    have hhead := h.head o
    rw [hb, Option.map_some] at hhead
    obtain ⟨b', hb', hsame⟩ := Option.map_eq_some_iff.mp hhead
    refine ⟨(h.mem_order o).mpr ⟨o, ⟨pc, hpc, ho⟩, .rfl⟩, b', hb', ?_⟩
    rwa [hsame]
  refine ⟨o, ⟨pc, hpc, hspans⟩, ?_⟩
  clear hn
  induction hlead with
  | refl => exact .rfl
  | @tail m s hfirst hedge ih =>
    have hm : m ∈ g'.order := (h.mem_order m).mpr ⟨o, ⟨pc, hpc, ho⟩, hfirst⟩
    exact ih.next ((h.succs m hm).symm ▸ hedge)

/-- **Pruning again removes nothing.** -/
theorem Pruned.removeUnreachable (h : Pruned g (g.ReachedFrom addresses) g' removed)
    (hknown : g.BoundsKnown) : g'.removeUnreachable addresses = .ok (g', []) := by
  obtain ⟨queue, reached, hqueue, hreached, -, hmem⟩ :=
    exists_closureLoop (h.boundsKnown hknown) addresses
  have hnone : g'.order.filter (!reached.contains ·) = [] := by
    refine List.filter_eq_nil_iff.mpr fun n hn => ?_
    simpa using (hmem n).mpr (h.reachedFrom hn)
  rw [Graph.removeUnreachable, closure_eq hqueue hreached]
  refine congrArg Except.ok ?_
  rw [hnone, List.foldl_nil]

end Again

end Graph

/-- **Pruning keeps exactly what can be reached.**  For every graph whose edges are kept twice and
lead from its blocks to its blocks, with known bounds, and for all addresses: pruning succeeds; what
it removes and what it leaves, with all that happens to edges and root, is as `Pruned` says of the
blocks that the addresses lead to; and pruning the result again changes nothing. -/
theorem pruning_keeps_reachable {g : Graph} (hg : g.Linked) (hknown : g.BoundsKnown)
    (addresses : List Int) : ∃ g' removed, g.removeUnreachable addresses = .ok (g', removed) ∧
      g.Pruned (g.ReachedFrom addresses) g' removed ∧
      g'.removeUnreachable addresses = .ok (g', []) := by
  obtain ⟨g', removed, hdone, hpruned⟩ := hg.removeUnreachable hknown addresses
  exact ⟨g', removed, hdone, hpruned, hpruned.removeUnreachable hknown⟩

/-- Two blocks in a loop, and two more that lead into it, one of them also to itself. -/
def twoLoops : Graph :=
  { blocks :=
      [{ entry := some 0, exit := some 1, ops := [], succs := [1], preds := [1] },
       { entry := some 2, exit := some 3, ops := [], succs := [0], preds := [2, 0] },
       { entry := some 5, exit := some 6, ops := [], succs := [1, 3], preds := [3] },
       { entry := some 7, exit := some 7, ops := [], succs := [3, 2], preds := [2, 3] }],
    order := [2, 0, 3, 1], root := some 0 }

theorem pruned_twoLoops : twoLoops.Linked ∧ twoLoops.BoundsKnown ∧
    ∃ g', twoLoops.removeUnreachable [0] = .ok (g', [2, 3]) ∧ g'.order = [0, 1] ∧
      g'.edges = [(0, 1), (1, 0)] ∧ g'.preds 1 = [0] ∧ g'.root = some 0 ∧
      twoLoops.ReachedFrom [0] 1 ∧ ¬ twoLoops.ReachedFrom [0] 2 := by
  have hlinked : twoLoops.Linked := by decide
  have hknown : twoLoops.BoundsKnown := by decide
  have hread : (twoLoops.removeUnreachable [0]).toOption.map (fun x =>
      (x.2, x.1.order, x.1.edges, x.1.preds 1, x.1.root)) =
        some ([2, 3], [0, 1], [(0, 1), (1, 0)], [0], some 0) := by rfl
  obtain ⟨g', removed, hdone, hpruned, -⟩ := pruning_keeps_reachable hlinked hknown [0]
  rw [hdone, Except.toOption, Option.map_some, Option.some.injEq] at hread
  simp only [Prod.mk.injEq] at hread
  obtain ⟨rfl, horder, hedges, hpreds, hroot⟩ := hread
  have hkept : 1 ∈ g'.order := by
    rw [horder]
    decide
  exact ⟨hlinked, hknown, g', hdone, horder, hedges, hpreds, hroot, (hpruned.mem_order 1).mp hkept,
    ((hpruned.mem_removed 2).mp (by decide)).2⟩

end TraceLift
