/-
# How the graph of a trace comes about

The graph of a trace is made in three moves: the blocks are converted, their operations are
numbered and carried out in order, and consecutive blocks are joined.  Numbering and joining do not
touch what a block holds.  So a graph that was made holds the converted blocks, up to the numbers
of their operations and their edges, and its machine is where the pass over the operations ends
(`madeFrom_of_ofTrace`).

* **Carrying out** ignores numbers (`run_map_unnumbered`) and goes through blocks as through one
  list (`run_of_runBlocks`).
* **Joining** changes neither what a block holds nor the machine (`sameCode_connect`).
* **Fillers.**  An operation that is not from the trace is a `NOP`, which the pass skips
  (`run_fromTrace`).
-/
import TraceLift.Graph.Basic
import TraceLift.Proofs.BlockSteps
import TraceLift.Proofs.Turns

namespace TraceLift

open Conversion

/-! ## 1. The pass over a list and over blocks -/

/-- An operation without its number. -/
def TacOp.unnumbered (op : TacOp) : TacOp := { op with serial := 0 }

/-- What a block holds, the numbers of its operations and its edges left out. -/
def Block.content (b : Block) : Block :=
  { b with ops := b.ops.map (·.unnumbered), preds := [], succs := [] }

/-- Lists that differ in numbers only have operations that say the same. -/
theorem TacOp.exists_of_unnumbered {l l' : List TacOp}
    (h : l.map (·.unnumbered) = l'.map (·.unnumbered)) {a : TacOp} (ha : a ∈ l) :
    ∃ b ∈ l', b.opcode = a.opcode ∧ b.args = a.args ∧ b.pc = a.pc ∧ b.place = a.place := by
  obtain ⟨b, hb, hsame⟩ := List.mem_map.mp (h ▸ List.mem_map_of_mem ha)
  obtain ⟨hopcode, hargs, hpc, -, -, hplace, -⟩ := TacOp.mk.inj hsame
  exact ⟨b, hb, hopcode, hargs, hpc, hplace⟩

namespace Machine

theorem run_append_eq_none_iff {useSets : Bool} {m' : Machine} :
    ∀ {xs ys : List TacOp} {m : Machine},
    m.run useSets (xs ++ ys) = (m', none) ↔
      ∃ m₁, m.run useSets xs = (m₁, none) ∧ m₁.run useSets ys = (m', none)
  | [], ys, m => by simp [run]
  | x :: xs, ys, m => by
    simp only [List.cons_append, run]
    split
    · exact run_append_eq_none_iff
    · simp

theorem run_map_unnumbered (useSets : Bool) : ∀ (ops : List TacOp) (m : Machine),
    m.run useSets (ops.map (·.unnumbered)) = m.run useSets ops
  | [], _ => rfl
  | op :: ops, m => by
    have hstep : m.step useSets op.unnumbered = m.step useSets op := rfl
    simp only [List.map_cons, run, hstep, run_map_unnumbered useSets ops]

/-- A `NOP` does nothing. -/
theorem step_nop {m : Machine} {op : TacOp} (h : op.opcode = Opcode.nop) (useSets : Bool) :
    m.step useSets op = .ok m := by
  unfold step
  rw [h]
  rfl

/-- Operations that are not from the trace can be left out of the pass. -/
theorem run_fromTrace {useSets : Bool} : ∀ {ops : List TacOp} {m : Machine},
    (∀ op ∈ ops, op.place = none → op.opcode = Opcode.nop) →
    m.run useSets (fromTrace ops) = m.run useSets ops
  | [], _, _ => rfl
  | op :: ops, m, h => by
    obtain ⟨hop, hops⟩ := List.forall_mem_cons.mp h
    cases hplace : op.place with
    | none =>
      have hskip : fromTrace (op :: ops) = fromTrace ops := by simp [fromTrace, hplace]
      rw [hskip, run_fromTrace hops, run, step_nop (hop hplace)]
    | some p =>
      have hkeep : fromTrace (op :: ops) = op :: fromTrace ops := by simp [fromTrace, hplace]
      rw [hkeep, run, run]
      split
      · exact run_fromTrace hops
      · rfl

end Machine

namespace Graph

/-- Carrying out blocks to the end carries out their operations in a row. -/
theorem run_of_runBlocks {useSets : Bool} {m' : Machine} : ∀ {bs : List Block} {m : Machine},
    runBlocks useSets m bs = (m', none) →
    m.run useSets (bs.map (·.ops)).flatten = (m', none)
  | [], _, h => h
  | b :: bs, m, h => by
    rw [List.map_cons, List.flatten_cons, Machine.run_append_eq_none_iff]
    simp only [runBlocks] at h
    split at h
    · simp at h
    · rename_i m₁ hm₁
      split at h
      · simp at h
      · exact ⟨m₁, hm₁, run_of_runBlocks h⟩

/-! ## 2. Numbering and joining -/

theorem unnumbered_numberOps (b : Block) (first : Nat) :
    (b.numberOps first).ops.map (·.unnumbered) = b.ops.map (·.unnumbered) := by
  calc (b.numberOps first).ops.map (·.unnumbered)
      = ((b.ops.zipIdx first).map Prod.fst).map (·.unnumbered) := by
        simp only [Block.numberOps, List.map_map]
        rfl
    _ = b.ops.map (·.unnumbered) := by rw [List.zipIdx_map_fst]

theorem content_numberBlocks : ∀ (bs : List Block) (first : Nat),
    (numberBlocks first bs).map (·.content) = bs.map (·.content)
  | [], _ => rfl
  | b :: bs, first => by
    have hb : (b.numberOps first).content = b.content := by
      simp only [Block.content, unnumbered_numberOps]
      rfl
    simp only [numberBlocks, List.map_cons, hb, content_numberBlocks bs]

/-- The blocks of a graph that has all of them in the order of their numbers. -/
theorem map_snd_members {g : Graph} (h : g.order = List.range g.blocks.length) :
    g.members.map (·.2) = g.blocks := by
  rw [members, List.map_filterMap, h]
  simp only [Option.map_map, Function.comp_def, Option.map_id', block?]
  exact filterMap_getElem?_range g.blocks

/-- Two graphs that differ in the numbers of operations and the edges of their blocks at most. -/
structure SameCode (g g' : Graph) : Prop where
  machine : g'.machine = g.machine
  order : g'.order = g.order
  content : g'.blocks.map (·.content) = g.blocks.map (·.content)

theorem SameCode.trans {g₁ g₂ g₃ : Graph} (h : SameCode g₁ g₂) (h' : SameCode g₂ g₃) :
    SameCode g₁ g₃ :=
  ⟨h'.machine.trans h.machine, h'.order.trans h.order, h'.content.trans h.content⟩

theorem sameCode_modify (g : Graph) (n : Nat) {f : Block → Block}
    (hf : ∀ b, (f b).content = b.content) : SameCode g (g.modify n f) where
  machine := rfl
  order := rfl
  content := by
    refine List.ext_getElem? fun i => ?_
    rw [modify, List.getElem?_map, List.getElem?_map, List.getElem?_modify]
    cases g.blocks[i]? with
    | none => rfl
    | some b => split <;> simp [hf]

/-- Joining the blocks of a graph changes their edges only. -/
theorem sameCode_connect (g : Graph) : SameCode g g.connect := by
  unfold connect
  split
  · exact ⟨rfl, rfl, rfl⟩
  · refine List.foldlRecOn (motive := SameCode g) _ _ ⟨rfl, rfl, rfl⟩ ?_
    rintro g' h ⟨⟨pred, n⟩, succ⟩ -
    exact h.trans (sameCode_modify g' n fun _ => rfl)

/-! ## 3. The graph of a trace -/

/-- A pass that reaches the end changes the machine only. -/
theorem apply_eq_none {g g' : Graph} {useSets : Bool} (h : g.apply useSets = (g', none))
    (horder : g.order = List.range g.blocks.length) :
    g' = { g with machine := g'.machine } ∧
      g.machine.run useSets (g.blocks.map (·.ops)).flatten = (g'.machine, none) := by
  rw [apply, map_snd_members horder] at h
  obtain ⟨hgraph, hfault⟩ := Prod.mk.inj h
  rw [← hgraph]
  exact ⟨rfl, run_of_runBlocks (Prod.ext rfl hfault)⟩

/-- A graph was made from converted blocks: it has all of them, in order, and its machine is where
the pass over their operations ended. -/
structure MadeFrom (g : Graph) (c : Conversion) (ts : List TacBlock) : Prop where
  order : g.order = List.range g.blocks.length
  content : g.blocks.map (·.content) =
    (ts.mapIdx fun i t => ofTacBlock c.frames i t).map (·.content)
  pass : Machine.run false { store := c.store } (ts.flatMap (·.ops)) = (g.machine, none)

/-- What is known of a block of a graph from what it was made of. -/
theorem MadeFrom.exists_tacBlock {g : Graph} {c : Conversion} {ts : List TacBlock}
    (h : g.MadeFrom c ts) {b : Block} (hb : b ∈ g.blocks) :
    ∃ t ∈ ts, ∃ i, b.content = (ofTacBlock c.frames i t).content := by
  have hmem := List.mem_map_of_mem (f := (·.content)) hb
  rw [h.content, List.mem_map] at hmem
  obtain ⟨_, hmem, hcontent⟩ := hmem
  obtain ⟨i, hi, rfl⟩ := List.mem_mapIdx.mp hmem
  exact ⟨ts[i], List.getElem_mem hi, i, hcontent.symm⟩

/-- Blocks that hold what converted blocks hold: what is read of a block whatever its operations'
numbers and its edges is, for all of them in order, read of the converted ones. -/
theorem map_eq_of_content {bs : List Block} {frames : Array (Stack Operand)} {ts : List TacBlock}
    {α : Type} (h : bs.map (·.content) =
      (ts.mapIdx fun i t => ofTacBlock frames i t).map (·.content))
    {f : Block → α} {k : TacBlock → α} (hf : ∀ b, f b.content = f b)
    (hk : ∀ i t, f (ofTacBlock frames i t) = k t) : bs.map f = ts.map k := by
  have hcontent : ∀ bs : List Block, bs.map f = (bs.map (·.content)).map f := fun bs => by
    simp [Function.comp_def, hf]
  rw [hcontent bs, h, ← hcontent]
  refine List.ext_getElem? fun i => ?_
  cases ht : ts[i]? <;> simp [ht, hk]

/-- Block by block, the operations are the converted ones up to their numbers. -/
theorem unnumbered_blocks_of_content {bs : List Block} {frames : Array (Stack Operand)}
    {ts : List TacBlock} (h : bs.map (·.content) =
      (ts.mapIdx fun i t => ofTacBlock frames i t).map (·.content)) :
    bs.map (fun b => b.ops.map (·.unnumbered)) = ts.map fun t => t.ops.map (·.unnumbered) :=
  map_eq_of_content h (fun b => by simp [Block.content, TacOp.unnumbered]) fun _ _ => rfl

theorem unnumbered_of_content {bs : List Block} {frames : Array (Stack Operand)}
    {ts : List TacBlock} (h : bs.map (·.content) =
      (ts.mapIdx fun i t => ofTacBlock frames i t).map (·.content)) :
    (bs.map (·.ops)).flatten.map (·.unnumbered) = (ts.flatMap (·.ops)).map (·.unnumbered) := by
  rw [List.map_flatten, List.map_map, List.map_flatMap, List.flatMap_def]
  exact congrArg List.flatten (unnumbered_blocks_of_content h)

/-- **What a graph holds.**  The blocks of the trace were converted, and the graph was made from
what came out. -/
theorem madeFrom_of_ofTrace {ops : List TraceOp} {g : Graph} (h : ofTrace ops = .ok g) :
    ∃ c ts, convertBlocks {} (blocksOf ops) = .ok (c, ts) ∧ g.MadeFrom c ts := by
  obtain ⟨⟨c, ts⟩, hconvert, h⟩ := bind_eq_ok_iff.mp h
  refine ⟨c, ts, hconvert, ?_⟩
  dsimp only at h
  split at h
  · rename_i g₁ happly
    obtain ⟨hgraph, hrun⟩ := apply_eq_none happly rfl
    obtain rfl : g₁.connect = g := Except.ok.inj h
    have hsame := sameCode_connect g₁
    have hblocks : g₁.blocks = numberBlocks 0 (ts.mapIdx fun i t => ofTacBlock c.frames i t) :=
      congrArg Graph.blocks hgraph
    have hcontent : g₁.blocks.map (·.content) =
        (ts.mapIdx fun i t => ofTacBlock c.frames i t).map (·.content) := by
      rw [hblocks, content_numberBlocks]
    have hlength : g₁.connect.blocks.length = g₁.blocks.length := by
      simpa using congrArg List.length hsame.content
    constructor
    case order =>
      rw [hsame.order, hlength, hblocks]
      exact congrArg Graph.order hgraph
    case content => rw [hsame.content, hcontent]
    case pass =>
      have hops : (g₁.blocks.map (·.ops)).flatten.map (·.unnumbered) =
          (ts.flatMap (·.ops)).map (·.unnumbered) := unnumbered_of_content hcontent
      rw [hsame.machine, ← hrun, ← Machine.run_map_unnumbered, ← hops, hblocks,
        Machine.run_map_unnumbered]
  · exact absurd h (by simp)

/-- The operations of a graph are the converted ones, up to their numbers. -/
theorem MadeFrom.ops {g : Graph} {c : Conversion} {ts : List TacBlock} (h : g.MadeFrom c ts) :
    g.ops.map (·.unnumbered) = (ts.flatMap (·.ops)).map (·.unnumbered) := by
  rw [Graph.ops, ← List.flatMap_map, map_snd_members h.order, List.flatMap_def]
  exact unnumbered_of_content h.content

/-- What is the same for all converted blocks holds of all blocks of the graph. -/
theorem MadeFrom.forall_members {g : Graph} {c : Conversion} {ts : List TacBlock}
    (h : g.MadeFrom c ts) {α : Type} {f : Block → α} {a : α} (hf : ∀ b, f b.content = f b)
    (hk : ∀ i t, f (ofTacBlock c.frames i t) = a) :
    ∀ m ∈ g.members, f m.2 = a := by
  have hall : g.blocks.map f = ts.map fun _ => a := map_eq_of_content h.content hf hk
  intro m hm
  have hblock : m.2 ∈ g.blocks := map_snd_members h.order ▸ List.mem_map_of_mem hm
  have hmem : f m.2 ∈ ts.map fun _ => a := hall ▸ List.mem_map_of_mem hblock
  obtain ⟨_, -, heq⟩ := List.mem_map.mp hmem
  exact heq.symm

/-- No block of a graph has an empty place. -/
theorem MadeFrom.gap {g : Graph} {c : Conversion} {ts : List TacBlock} (h : g.MadeFrom c ts) :
    g.members.any (·.2.gap) = false := by
  rw [List.any_eq_false]
  intro m hm
  rw [h.forall_members (f := (·.gap)) (a := false) (fun _ => rfl) (fun _ _ => rfl) m hm]
  exact Bool.false_ne_true

/-- The graph has the operations that came out of the conversion, and its machine is where the
pass over them ended. -/
theorem ofTrace_eq_ok {ops : List TraceOp} {g : Graph} (h : ofTrace ops = .ok g) :
    ∃ c ts, convertBlocks {} (blocksOf ops) = .ok (c, ts) ∧
      g.ops.map (·.unnumbered) = (ts.flatMap (·.ops)).map (·.unnumbered) ∧
      Machine.run false { store := c.store } (ts.flatMap (·.ops)) = (g.machine, none) := by
  obtain ⟨c, ts, hconvert, hmade⟩ := madeFrom_of_ofTrace h
  exact ⟨c, ts, hconvert, hmade.ops, hmade.pass⟩

end Graph

/-! ## 4. Operations that are not from the trace -/

namespace Conversion

theorem nop_of_convertBlock {c c' : Conversion} {b : TraceBlock} {tb : TacBlock}
    (h : c.convertBlock b = .ok (c', tb)) {t : TacOp} (ht : t ∈ tb.ops) (hplace : t.place = none) :
    t.opcode = Opcode.nop := by
  obtain ⟨first, _, _, _, tacs, hstep⟩ := blockStep_of_convertBlock h
  rw [hstep.ops, orFiller] at ht
  split at ht
  · rw [List.mem_singleton.mp ht]
    rfl
  · rw [← fromTrace_convertOps hstep.converts, fromTrace, List.mem_filter, hplace] at ht
    exact absurd ht.2 (by simp)

/-- A converted operation that has no place in the trace fills an empty block. -/
theorem nop_of_convertBlocks : ∀ {bs : List TraceBlock} {c c' : Conversion} {ts : List TacBlock},
    convertBlocks c bs = .ok (c', ts) →
    ∀ t ∈ ts.flatMap (·.ops), t.place = none → t.opcode = Opcode.nop
  | [], _, _, _, h => by
    cases h
    simp
  | b :: bs, _, _, _, h => by
    obtain ⟨c₁, tb, ts, hb, hbs, rfl⟩ := convertBlocks_cons_ok h
    intro t ht hplace
    rw [List.flatMap_cons, List.mem_append] at ht
    rcases ht with ht | ht
    · exact nop_of_convertBlock hb ht hplace
    · exact nop_of_convertBlocks hbs t ht hplace

end Conversion

end TraceLift
