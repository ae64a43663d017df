/-
# Editing a graph

The graph of a trace is a chain: its blocks are joined in order (`chain_of_ofTraceBlocks`).  From
there a graph can be edited at will: edges and blocks added and removed, what cannot be reached cut
off, the predecessors recomputed.  A chain is consistent, and every edit keeps consistency; so
every graph that editing leads to is consistent (`Edited.consistent`).
-/
import TraceLift.Proofs.Edges

namespace TraceLift.Graph

variable {g g' : Graph}

/-! ## 1. Chains -/

/-- All blocks belong to the graph, in the order of their numbers, and each is joined to the
next. -/
structure Chain (g : Graph) : Prop where
  order : g.order = List.range g.blocks.length
  succs : ∀ n, g.succs n = if n + 1 < g.blocks.length then [n + 1] else []
  preds : ∀ n, g.preds n = if 0 < n ∧ n < g.blocks.length then [n - 1] else []
  root : ∀ r ∈ g.root, r < g.blocks.length

theorem Chain.mem_succs (h : g.Chain) {x y : Nat} :
    y ∈ g.succs x ↔ y = x + 1 ∧ x + 1 < g.blocks.length := by
  rw [h.succs]
  split <;> simp [*]

theorem Chain.consistent (h : g.Chain) : g.Consistent := by
  constructor
  · constructor
    · intro x y
      rw [h.mem_succs, h.preds]
      split
      · rw [List.mem_singleton]
        omega
      · rename_i hnot
        rw [iff_false_right List.not_mem_nil]
        rintro ⟨rfl, hlt⟩
        exact hnot ⟨Nat.succ_pos x, hlt⟩
    · intro n
      rw [h.succs]
      split <;> simp
    · intro n
      rw [h.preds]
      split <;> simp
  · intro x y hy
    obtain ⟨rfl, hlt⟩ := h.mem_succs.mp hy
    rw [h.order, List.mem_range, List.mem_range]
    omega
  · rw [h.order]
    exact List.nodup_range
  · intro n hn
    rwa [h.order, List.mem_range] at hn
  · intro r hr
    rw [h.order, List.mem_range]
    exact h.root r hr

/-- The edges of a chain join consecutive blocks. -/
theorem Chain.consecutive (h : g.Chain) {x y : Nat} :
    y ∈ g.succs x ↔ ∃ i, g.order[i]? = some x ∧ g.order[i + 1]? = some y := by
  rw [h.mem_succs, h.order]
  constructor
  · rintro ⟨rfl, hlt⟩
    exact ⟨x, List.getElem?_range (by omega), List.getElem?_range hlt⟩
  · rintro ⟨i, hx, hy⟩
    obtain ⟨hilt, hi⟩ := List.getElem?_eq_some_iff.mp hx
    obtain ⟨hjlt, hj⟩ := List.getElem?_eq_some_iff.mp hy
    rw [List.getElem_range] at hi hj
    rw [List.length_range] at hjlt
    omega

/-! ## 2. Joining blocks -/

section Fold

variable {α : Type} (key : α → Nat) (f : α → Block → Block)

/-- Changes blocks one after the other. -/
def modifyAll (g : Graph) (l : List α) : Graph := l.foldl (fun g a => g.modify (key a) (f a)) g

theorem frame_modifyAll : ∀ (l : List α) (g : Graph),
    (g.modifyAll key f l).order = g.order ∧ (g.modifyAll key f l).root = g.root ∧
      (g.modifyAll key f l).blocks.length = g.blocks.length
  | [], _ => ⟨rfl, rfl, rfl⟩
  | a :: l, g => by
    obtain ⟨horder, hroot, hlength⟩ := frame_modifyAll l (g.modify (key a) (f a))
    exact ⟨horder, hroot, hlength.trans (List.length_modify ..)⟩

/-- Blocks that no change is about stay as they are. -/
theorem block?_modifyAll_of_not_mem {k : Nat} : ∀ (l : List α) (g : Graph), k ∉ l.map key →
    (g.modifyAll key f l).block? k = g.block? k
  | [], _, _ => rfl
  | a :: l, g, hk => by
    rw [List.map_cons, List.mem_cons, not_or] at hk
    refine (block?_modifyAll_of_not_mem l _ hk.2).trans ?_
    rw [block?_modify, if_neg (Ne.symm hk.1)]

/-- Changes to different blocks are all made. -/
theorem block?_modifyAll {a : α} : ∀ (l : List α) (g : Graph), (l.map key).Nodup → a ∈ l →
    (g.modifyAll key f l).block? (key a) = (g.block? (key a)).map (f a)
  | [], _, _, ha => absurd ha (List.not_mem_nil)
  | b :: l, g, hnodup, ha => by
    rw [List.map_cons, List.nodup_cons] at hnodup
    rcases List.mem_cons.mp ha with rfl | ha
    · refine (block?_modifyAll_of_not_mem key f l _ hnodup.1).trans ?_
      rw [block?_modify, if_pos rfl]
    · have hne : key b ≠ key a := by
        intro heq
        exact hnodup.1 (heq ▸ List.mem_map_of_mem ha)
      refine (block?_modifyAll l _ hnodup.2 ha).trans ?_
      rw [block?_modify, if_neg hne]

end Fold

/-- The blocks of a graph with what joining gives them: a block before and a block after. -/
def neighbours (g : Graph) : List ((Option Nat × Nat) × Option Nat) :=
  ((none :: g.order.map some).zip g.order).zip ((g.order.drop 1).map some ++ [none])

theorem connect_eq (g : Graph) (hlong : 1 < g.order.length) : g.connect =
    g.modifyAll (·.1.2) (fun x b => { b with preds := x.1.1.toList, succs := x.2.toList })
      g.neighbours := by
  unfold connect
  rw [if_neg (Nat.not_le_of_lt hlong)]
  rfl

theorem getElem?_neighbours {N n : Nat} (horder : g.order = List.range N) (hn : n < N) :
    g.neighbours[n]? = some ((if 0 < n then some (n - 1) else none, n),
      if n + 1 < N then some (n + 1) else none) := by
  have hbefore : (none :: (List.range N).map some)[n]? =
      some (if 0 < n then some (n - 1) else none) := by
    cases n with
    | zero => rfl
    | succ n => simp [List.getElem?_range (show n < N by omega)]
  have hafter : (((List.range N).drop 1).map some ++ [none])[n]? =
      some (if n + 1 < N then some (n + 1) else none) := by
    have hlength : (((List.range N).drop 1).map some).length = N - 1 := by simp
    by_cases hlast : n + 1 < N
    · rw [if_pos hlast, List.getElem?_append_left (by omega), List.getElem?_map, List.getElem?_drop,
        Nat.add_comm, List.getElem?_range hlast, Option.map_some]
    · have hn' : n - (N - 1) = 0 := by omega
      rw [if_neg hlast, List.getElem?_append_right (by omega), hlength, hn',
        List.getElem?_cons_zero]
  rw [neighbours, horder]
  exact List.getElem?_zip_eq_some.mpr
    ⟨List.getElem?_zip_eq_some.mpr ⟨hbefore, List.getElem?_range hn⟩, hafter⟩

theorem map_key_neighbours {N : Nat} (horder : g.order = List.range N) :
    g.neighbours.map (·.1.2) = List.range N := by
  have hlength : g.neighbours.length = N := by
    simp only [neighbours, horder, List.length_zip, List.length_cons, List.length_map,
      List.length_range, List.length_append, List.length_drop, List.length_nil]
    omega
  refine List.ext_getElem? fun n => ?_
  rw [List.getElem?_map]
  by_cases hn : n < N
  · rw [getElem?_neighbours horder hn, List.getElem?_range hn, Option.map_some]
  · rw [List.getElem?_eq_none (by omega), List.getElem?_eq_none (by simpa using hn),
      Option.map_none]

/-- What joining makes of each block. -/
theorem block?_connect (horder : g.order = List.range g.blocks.length) (hlong : 1 < g.order.length)
    (n : Nat) : g.connect.block? n = (g.block? n).map fun b =>
      { b with preds := (if 0 < n then some (n - 1) else none).toList,
               succs := (if n + 1 < g.blocks.length then some (n + 1) else none).toList } := by
  have hkeys := map_key_neighbours horder
  rw [connect_eq g hlong]
  by_cases hn : n < g.blocks.length
  · refine block?_modifyAll _ _ _ g ?_ (List.mem_of_getElem? (getElem?_neighbours horder hn))
    rw [hkeys]
    exact List.nodup_range
  · have hnone : g.block? n = none := List.getElem?_eq_none (Nat.le_of_not_lt hn)
    rw [hnone, Option.map_none, ← hnone]
    refine block?_modifyAll_of_not_mem _ _ _ g ?_
    rwa [hkeys, List.mem_range]

/-- **Joining blocks** that have no edges makes them a chain. -/
theorem chain_connect (horder : g.order = List.range g.blocks.length)
    (hsuccs : ∀ n, g.succs n = []) (hpreds : ∀ n, g.preds n = [])
    (hroot : ∀ r ∈ g.root, r < g.blocks.length) : g.connect.Chain := by
  by_cases hlong : 1 < g.order.length
  · have hblock := block?_connect horder hlong
    obtain ⟨horder', hroot', hlength⟩ : g.connect.order = g.order ∧ g.connect.root = g.root ∧
        g.connect.blocks.length = g.blocks.length := by
      rw [connect_eq g hlong]
      exact frame_modifyAll ..
    refine ⟨?_, ?_, ?_, ?_⟩
    · rw [horder', hlength, horder]
    · intro n
      rw [succs_eq, listAt, hblock, hlength]
      cases hb : g.block? n with
      | some b => by_cases hlast : n + 1 < g.blocks.length <;> simp [hlast]
      | none =>
        have hlast : ¬ n + 1 < g.blocks.length := by
          have hle := List.getElem?_eq_none_iff.mp hb
          omega
        simp [hlast]
    · intro n
      rw [preds_eq, listAt, hblock, hlength]
      cases hb : g.block? n with
      | some b =>
        have hlt := (List.getElem?_eq_some_iff.mp hb).1
        by_cases hn : 0 < n <;> simp [hn, hlt]
      | none =>
        have hle := List.getElem?_eq_none_iff.mp hb
        simp [Nat.not_lt.mpr hle]
    · rw [hroot', hlength]
      exact hroot
  · have hlength : g.blocks.length ≤ 1 := by
      rw [horder, List.length_range] at hlong
      omega
    have hsame : g.connect = g := by
      unfold connect
      rw [if_pos (Nat.le_of_not_lt hlong)]
    rw [hsame]
    refine ⟨horder, ?_, ?_, hroot⟩
    · intro n
      rw [hsuccs, if_neg (by omega)]
    · intro n
      rw [hpreds, if_neg (by omega)]

theorem edgeFree_numberBlocks : ∀ (bs : List Block) (first : Nat),
    (∀ b ∈ bs, b.succs = [] ∧ b.preds = []) →
    ∀ b ∈ numberBlocks first bs, b.succs = [] ∧ b.preds = []
  | [], _, _, _, hb => absurd hb (List.not_mem_nil)
  | a :: bs, first, hfree, b, hb => by
    obtain ⟨ha, hbs⟩ := List.forall_mem_cons.mp hfree
    rcases List.mem_cons.mp hb with rfl | hb
    · exact ha
    · exact edgeFree_numberBlocks bs _ hbs b hb

/-- A list that no block holds anything in. -/
theorem listAt_eq_nil {field : Block → List Nat} (h : ∀ b ∈ g.blocks, field b = []) (n : Nat) :
    listAt field g n = [] := by
  unfold listAt
  cases hb : g.block? n with
  | none => rfl
  | some b => rw [Option.map_some, h b (List.mem_of_getElem? hb), Option.getD_some]

/-- **The graph of a trace is a chain.** -/
theorem chain_of_ofTraceBlocks {bs : List TraceBlock} (h : ofTraceBlocks bs = .ok g) :
    g.Chain := by
  obtain ⟨⟨c, ts⟩, -, h⟩ := bind_eq_ok_iff.mp h
  have hfree : ∀ b ∈ numberBlocks 0 (ts.mapIdx fun i t => ofTacBlock c.frames i t),
      b.succs = [] ∧ b.preds = [] := by
    refine edgeFree_numberBlocks _ 0 ?_
    intro b hb
    obtain ⟨i, _, rfl⟩ := List.mem_mapIdx.mp hb
    exact ⟨rfl, rfl⟩
  dsimp only at h
  generalize numberBlocks 0 (ts.mapIdx fun i t => ofTacBlock c.frames i t) = blocks at h hfree
  split at h
  · rename_i g₁ happly
    obtain rfl : g₁.connect = g := Except.ok.inj h
    obtain ⟨rfl, -⟩ := Prod.mk.inj happly
    refine chain_connect rfl ?_ ?_ ?_
    · intro n
      rw [succs_eq]
      exact listAt_eq_nil (fun b hb => (hfree b hb).1) n
    · intro n
      rw [preds_eq]
      exact listAt_eq_nil (fun b hb => (hfree b hb).2) n
    · intro r hr
      exact (List.findIdx?_eq_some_iff_getElem.mp hr).1
  · exact absurd h (by simp)

/-! ## 3. Edits -/

/-- What can be done to a graph.  Edges are added and removed between blocks of the graph; a block
that is new has no edges, and neither has a block that is outside the graph when it is added. -/
inductive Edits (g : Graph) : Graph → Prop
  | addEdge {h t : Nat} (hh : h ∈ g.order) (ht : t ∈ g.order) : Edits g (g.addEdge h t)
  | removeEdge {h t : Nat} (hh : h ∈ g.order) (ht : t ∈ g.order) : Edits g (g.removeEdge h t)
  | create {b : Block} (hsuccs : b.succs = []) (hpreds : b.preds = []) :
      Edits g { g with blocks := g.blocks ++ [b] }
  | addBlock {n : Nat} (hn : n < g.blocks.length) (hsuccs : g.succs n = [])
      (hpreds : g.preds n = []) : Edits g (g.addBlock n)
  | removeBlock {n : Nat} (hn : n ∈ g.order) : Edits g (g.removeBlock n).1
  | removeUnreachable {addresses : List Int} {removed : List Nat} {g' : Graph}
      (hg' : g.removeUnreachable addresses = .ok (g', removed)) : Edits g g'
  | recalcPreds : Edits g g.recalcPreds

/-- One edit keeps consistency. -/
theorem Edits.consistent (h : Edits g g') (hg : g.Consistent) : g'.Consistent := by
  cases h with
  | addEdge hh ht => exact hg.addEdge hh ht
  | removeEdge => exact hg.removeEdge _ _
  | create hsuccs hpreds => exact hg.create hsuccs hpreds
  | addBlock hn => exact hg.addBlock hn
  | removeBlock => exact hg.drops (hg.toEdgesAgree.removeBlock hg.nodup_order _).1
  | removeUnreachable hg' => exact hg.drops (hg.toEdgesAgree.removeUnreachable hg.nodup_order hg')
  | recalcPreds => exact hg.recalcPreds

/-- Edits one after the other. -/
inductive Edited (g₀ : Graph) : Graph → Prop
  | start : Edited g₀ g₀
  | edit {g g' : Graph} (run : Edited g₀ g) (last : Edits g g') : Edited g₀ g'

/-- Any number of edits keeps consistency. -/
theorem Edited.consistent {g₀ : Graph} (h : Edited g₀ g) (hg₀ : g₀.Consistent) :
    g.Consistent := by
  induction h with
  | start => exact hg₀
  | edit _ last ih => exact last.consistent ih

/-- Each edit changes the edges, and the blocks, as it is meant to and in no other way. -/
structure EditsExact (g : Graph) : Prop where
  addEdge : ∀ h ∈ g.order, ∀ t ∈ g.order, ∀ x y,
    y ∈ (g.addEdge h t).succs x ↔ y ∈ g.succs x ∨ (x = h ∧ y = t)
  removeEdge : ∀ h t x y, y ∈ (g.removeEdge h t).succs x ↔ y ∈ g.succs x ∧ ¬ (x = h ∧ y = t)
  removeBlock : ∀ n ∈ g.order, (g.removeBlock n).2 = none ∧ Drops g [n] (g.removeBlock n).1
  removeUnreachable : ∀ addresses g' removed,
    g.removeUnreachable addresses = .ok (g', removed) → Drops g removed g'
  recalcPreds : ∀ n, g.recalcPreds.succs n = g.succs n ∧
    (g.recalcPreds.preds n).Perm (g.preds n)

theorem Consistent.editsExact (hg : g.Consistent) : g.EditsExact where
  addEdge h hh t _ x y := mem_succs_addEdge (hg.exist h hh)
  removeEdge h t x y := hg.mem_succs_removeEdge
  removeBlock n hn := by
    obtain ⟨hdrops, hnone⟩ := hg.toEdgesAgree.removeBlock hg.nodup_order n
    exact ⟨hnone.mpr hn, hdrops⟩
  removeUnreachable _ _ _ := hg.toEdgesAgree.removeUnreachable hg.nodup_order
  recalcPreds n := ⟨hg.repreds.succs n, hg.preds_recalcPreds n⟩

end TraceLift.Graph

namespace TraceLift

/-- **Edges stay consistent.**  The graph of a trace has the edges between consecutive blocks and no
others.  However it is edited, the graph is consistent at every point, and what is done to it next
does what it is meant to; in particular, recomputing the predecessors changes them at most in
order. -/
theorem edges_stay_consistent {bs : List TraceBlock} {g₀ : Graph}
    (hg₀ : Graph.ofTraceBlocks bs = .ok g₀) :
    (∀ h t, t ∈ g₀.succs h ↔ ∃ i : Nat, g₀.order[i]? = some h ∧ g₀.order[i + 1]? = some t) ∧
      ∀ g, Graph.Edited g₀ g → g.Consistent ∧ g.EditsExact := by
  have hchain := Graph.chain_of_ofTraceBlocks hg₀
  constructor
  · intro h t
    exact hchain.consecutive
  · intro g hedited
    have hg := hedited.consistent hchain.consistent
    exact ⟨hg, hg.editsExact⟩

/-- A frame that creates a contract and is resumed: three blocks. -/
def createsContract : List TraceBlock :=
  blocksOf [{ pc := 0, opcode := .push 1, value := some 5 }, { pc := 0, opcode := .stop },
    { pc := 7, opcode := .create, value := some 9 }, { pc := 8, opcode := .stop }]

/-- The graph with a loop at its last block and an edge back to the first, its middle block
removed. -/
def withoutMiddle (g : Graph) : Graph := (((g.addEdge 2 2).addEdge 2 0).removeBlock 1).1

theorem consistent_createsContract : ∃ g₀, Graph.ofTraceBlocks createsContract = .ok g₀ ∧
    Graph.Edited g₀ (withoutMiddle g₀) ∧ (withoutMiddle g₀).edges = [(2, 2), (2, 0)] ∧
      (withoutMiddle g₀).Consistent := by
  have hread : (Graph.ofTraceBlocks createsContract).toOption.map (fun g =>
      (g.order, (withoutMiddle g).edges)) = some ([0, 1, 2], [(2, 2), (2, 0)]) := by decide +kernel
  cases hg₀ : Graph.ofTraceBlocks createsContract with
  | error e => simp [hg₀, Except.toOption] at hread
  | ok g₀ =>
    rw [hg₀, Except.toOption, Option.map_some, Option.some.injEq, Prod.mk.injEq] at hread
    have hmem : ∀ n < 3, n ∈ g₀.order := by
      rw [hread.1]
      decide
    have hedited : Graph.Edited g₀ (withoutMiddle g₀) :=
      .edit (.edit (.edit .start (.addEdge (hmem 2 (by decide)) (hmem 2 (by decide))))
        (.addEdge (hmem 2 (by decide)) (hmem 0 (by decide)))) (.removeBlock (hmem 1 (by decide)))
    exact ⟨g₀, rfl, hedited, hread.2, ((edges_stay_consistent hg₀).2 _ hedited).1⟩

end TraceLift
