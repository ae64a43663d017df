/-
# Blocks of the trace and blocks of the graph

The blocks of a graph stand for the blocks of its trace one by one (`standsFor_of_ofTrace`): they
hold its operations as their source, and operations with their outlines.  So what ends the trace ends
the graph (`lastOp_of_ofTrace`).
-/
import Mathlib.Data.List.Forall2
import TraceLift.Proofs.FrameStacks
import TraceLift.Proofs.Outline
import TraceLift.Proofs.Rows

namespace TraceLift

open Conversion

/-! ## 1. Outlines of blocks -/

namespace TraceBlock

variable {tb : TraceBlock} {o : Outline}

/-- What is left of a block that does more than rearrange the stack comes from its operations. -/
theorem exists_of_mem_outline (hacts : ∃ op ∈ tb.ops, op.opcode.rearranges = false)
    (h : o ∈ tb.outline) : ∃ op ∈ tb.ops, o = op.outline := by
  obtain ⟨op, hop, hmoves⟩ := hacts
  rw [outline_eq hop hmoves] at h
  obtain ⟨op', hop', rfl⟩ := List.mem_map.mp h
  exact ⟨op', List.mem_of_mem_filter hop', rfl⟩

theorem pc_of_mem_outline (h : o ∈ tb.outline) : ∃ op ∈ tb.ops, o.pc = op.pc := by
  unfold outline at h
  dsimp only at h
  split at h
  · obtain ⟨op, hop, rfl⟩ := List.mem_map.mp h
    exact ⟨op, List.mem_of_head? (Option.mem_toList.mp hop), rfl⟩
  · obtain ⟨op, hop, rfl⟩ := List.mem_map.mp h
    exact ⟨op, List.mem_of_mem_filter hop, rfl⟩

theorem getLast?_outline {op : PlacedOp} (hlast : tb.ops.getLast? = some op)
    (hacts : op.opcode.rearranges = false) : tb.outline.getLast? = some op.outline := by
  obtain ⟨front, hfront⟩ := List.getLast?_eq_some_iff.mp hlast
  have hkept : tb.ops.filter (!·.opcode.rearranges) =
      front.filter (!·.opcode.rearranges) ++ [op] := by
    rw [hfront, List.filter_append, List.filter_singleton, hacts]
    rfl
  rw [outline_eq (List.mem_of_getLast? hlast) hacts, hkept, List.map_append, List.map_singleton,
    List.getLast?_concat]

end TraceBlock

/-! ## 2. Blocks that stand for blocks -/

namespace Graph

variable {g : Graph} {ops : List TraceOp}

/-- A block of a graph stands for a block of the trace: it has its operations as source, and
operations with their outlines. -/
structure StandsFor (b : Block) (tb : TraceBlock) : Prop where
  source : b.source = tb.ops
  outline : b.ops.map (·.outline) = tb.outline
  nonempty : b.ops ≠ []
  gap : b.gap = false

/-- **Block by block**, a graph stands for its trace. -/
theorem standsFor_of_ofTrace (hlegal : ∀ op ∈ ops, op.opcode.Legal) (hg : ofTrace ops = .ok g) :
    List.Forall₂ StandsFor g.blocks (blocksOf ops) := by
  obtain ⟨c, ts, hconvert, hmade⟩ := madeFrom_of_ofTrace hg
  have hsource : g.blocks.map (·.source) = (blocksOf ops).map (·.ops) := by
    rw [← source_convertBlocks hconvert]
    exact map_eq_of_content hmade.content (fun _ => rfl) fun _ _ => rfl
  have houtline : g.blocks.map (fun b => b.ops.map (·.outline)) = (blocksOf ops).map (·.outline) := by
    rw [← outline_members hlegal hconvert hmade, ← map_snd_members hmade.order, List.map_map]
    rfl
  refine List.forall₂_iff_get.mpr
    ⟨by simpa using congrArg List.length hsource, fun i hi hi' => ?_⟩
  obtain ⟨t, ht, j, hcontent⟩ := hmade.exists_tacBlock (List.get_mem g.blocks ⟨i, hi⟩)
  have hnonempty : t.ops ≠ [] := forall_of_convertBlocks (P := fun t => t.ops ≠ []) (by
    intro c c' b t hblock
    obtain ⟨first, _, _, _, tacs, hstep⟩ := blockStep_of_convertBlock hblock
    rw [hstep.ops, orFiller]
    split <;> simp_all) hconvert t ht
  constructor
  case source => simpa [hi, hi'] using congrArg (·[i]?) hsource
  case outline => simpa [hi, hi'] using congrArg (·[i]?) houtline
  case nonempty =>
    intro hnil
    have hops : (g.blocks.get ⟨i, hi⟩).ops.map (·.unnumbered) = t.ops.map (·.unnumbered) :=
      congrArg Block.ops hcontent
    rw [hnil] at hops
    exact hnonempty (List.map_eq_nil_iff.mp hops.symm)
  case gap => exact congrArg Block.gap hcontent

theorem StandsFor.source_ne_nil {b : Block} {tb : TraceBlock} (h : StandsFor b tb) : tb.ops ≠ [] := by
  intro hnil
  have houtline := h.outline
  rw [TraceBlock.outline, hnil] at houtline
  exact h.nonempty (List.map_eq_nil_iff.mp houtline)

end Graph

/-! ## 3. The last operation -/

/-- The last block of a trace that is held as a whole ends with the last operation. -/
theorem exists_last_block {ops front : List TraceOp} {last : TraceOp} (hops : ops = front ++ [last])
    (hkeeps : keepsLast ops = true) (hblocks : ∀ tb ∈ blocksOf ops, tb.ops ≠ []) :
    ∃ tbs tb op, blocksOf ops = tbs ++ [tb] ∧ tb.ops.getLast? = some op ∧ op.toTraceOp = last ∧
      op.place.loc = front.length ∧ ∀ b ∈ tbs, ∀ op ∈ b.ops, op.toTraceOp ∈ front := by
  have hcount : coveredCount (blocksOf ops) = front.length + 1 := by
    rw [(coveredCount_eq_length_iff ops).mpr (.inr hkeeps), hops, List.length_append,
      List.length_singleton]
  have hflat : ((blocksOf ops).flatMap (·.ops)).map (·.toTraceOp) = front ++ [last] := by
    rw [List.map_flatMap, toTraceOp_blocksOf, (coveredCount_eq_length_iff ops).mpr (.inr hkeeps),
      List.take_length, hops]
  have hlocs := locs_blocksOf ops
  rw [hcount, List.range_succ] at hlocs
  rcases List.eq_nil_or_concat (blocksOf ops) with hnil | ⟨tbs, tb, hconcat⟩
  · simp [hnil] at hflat
  rw [List.concat_eq_append] at hconcat
  rw [hconcat] at hblocks hflat hlocs
  obtain ⟨l, op, hl⟩ := List.eq_nil_or_concat tb.ops |>.resolve_left (hblocks tb (by simp))
  rw [List.concat_eq_append] at hl
  simp only [List.flatMap_append, List.flatMap_singleton, hl, ← List.append_assoc,
    List.map_append, List.map_singleton] at hflat hlocs
  obtain ⟨hfront, hlast⟩ := List.append_inj' hflat rfl
  obtain ⟨-, hloc⟩ := List.append_inj' hlocs rfl
  refine ⟨tbs, tb, op, hconcat, by rw [hl, List.getLast?_concat], List.singleton_inj.mp hlast,
    List.singleton_inj.mp hloc, fun b hb x hx => ?_⟩
  rw [← hfront]
  exact List.mem_append_left _ (List.mem_map_of_mem (List.mem_flatMap.mpr ⟨b, hb, hx⟩))
namespace Graph

variable {g : Graph} {ops : List TraceOp}

/-- The greatest of several is the last one, if it is greater than all before. -/
theorem foldl_greatest {t : TacOp} : ∀ {ts : List TacOp} {best : TacOp}, best.pc < t.pc →
    (∀ x ∈ ts, x.pc < t.pc) →
    (ts ++ [t]).foldl (fun best op => if best.pc < op.pc then op else best) best = t
  | [], best, hbest, _ => by simp [hbest]
  | x :: ts, best, hbest, hts => by
    obtain ⟨hx, hts⟩ := List.forall_mem_cons.mp hts
    rw [List.cons_append, List.foldl_cons]
    refine foldl_greatest ?_ hts
    split <;> assumption

/-- The last operation of a block, which must have one. -/
def finalOp (b : Block) : Except Fault TacOp :=
  match b.lastOp? with
  | some op => .ok op
  | none => .error .noLastOperation

theorem exists_finalOps : ∀ {bs : List Block} {pc : Int},
    (∀ b ∈ bs, ∃ t, finalOp b = .ok t ∧ t.pc < pc) →
    ∃ ts : List TacOp, bs.map finalOp = ts.map .ok ∧ ∀ t ∈ ts, t.pc < pc
  | [], _, _ => ⟨[], rfl, by simp⟩
  | b :: bs, pc, h => by
    obtain ⟨⟨t, ht, hlt⟩, hbs⟩ := List.forall_mem_cons.mp h
    obtain ⟨ts, hts, hall⟩ := exists_finalOps hbs
    exact ⟨t :: ts, by rw [List.map_cons, ht, hts, List.map_cons],
      List.forall_mem_cons.mpr ⟨hlt, hall⟩⟩

/-- The last operation of a graph is that of its last block, if that has the greatest program
counter. -/
theorem lastOp_of_greatest (horder : g.order = List.range g.blocks.length) {bs : List Block}
    {b : Block} {t : TacOp} (hblocks : g.blocks = bs ++ [b]) (hb : finalOp b = .ok t)
    (hbs : ∀ b ∈ bs, ∃ t', finalOp b = .ok t' ∧ t'.pc < t.pc) : g.lastOp = .ok t := by
  obtain ⟨ts, hts, hall⟩ := exists_finalOps hbs
  have hlasts : g.members.mapM (fun m => finalOp m.2) = .ok (ts ++ [t]) := by
    refine mapM_eq_ok ?_
    calc g.members.map (fun m => finalOp m.2)
        = (g.members.map (·.2)).map finalOp := by rw [List.map_map]; rfl
      _ = (ts ++ [t]).map .ok := by
        rw [map_snd_members horder, hblocks, List.map_append, hts, List.map_singleton, hb,
          List.map_append, List.map_singleton]
  show (g.members.mapM (fun m => finalOp m.2) >>= _) = _
  rw [hlasts]
  cases ts with
  | nil => rfl
  | cons x ts =>
    obtain ⟨hx, hall⟩ := List.forall_mem_cons.mp hall
    exact congrArg Except.ok (foldl_greatest hx hall)

/-- The last operation of a block that stands for one of the trace. -/
theorem StandsFor.exists_finalOp {b : Block} {tb : TraceBlock} (h : StandsFor b tb) :
    ∃ t, finalOp b = .ok t ∧ b.ops.getLast? = some t ∧ tb.outline.getLast? = some t.outline := by
  have hlast := List.getLast?_eq_some_getLast h.nonempty
  refine ⟨b.ops.getLast h.nonempty, by simp [finalOp, Block.lastOp?, h.gap, hlast], hlast, ?_⟩
  rw [← h.outline, List.getLast?_map, hlast]
  rfl

/-- **The last operation of a trace is the last of the graph**, if it does more than rearrange the
stack and its program counter is the greatest. -/
theorem lastOp_of_ofTrace (hlegal : ∀ op ∈ ops, op.opcode.Legal) (hg : ofTrace ops = .ok g)
    {front : List TraceOp} {last : TraceOp} (hops : ops = front ++ [last])
    (hkeeps : keepsLast ops = true) (hacts : last.opcode.rearranges = false)
    (hpcs : ∀ op ∈ front, op.pc < last.pc) :
    ∃ t, g.lastOp = .ok t ∧ g.ops.getLast? = some t ∧ t.opcode = last.opcode.lifted ∧
      t.pc = last.pc ∧ t.loc? = some front.length := by
  obtain ⟨c, ts, -, hmade⟩ := madeFrom_of_ofTrace hg
  have hstands := standsFor_of_ofTrace hlegal hg
  have hblocks : ∀ tb ∈ blocksOf ops, tb.ops ≠ [] := by
    intro tb htb
    obtain ⟨b, -, hb⟩ := exists_of_forall₂ hstands.flip tb htb
    exact hb.source_ne_nil
  obtain ⟨tbs, tb, op, hconcat, hlast, rfl, hloc, hbefore⟩ :=
    exists_last_block hops hkeeps hblocks
  rw [hconcat] at hstands
  obtain ⟨bs, b, hsplit, hfront, hb⟩ := exists_concat_of_forall₂ hstands
  obtain ⟨t, hfinal, hget, houtline⟩ := hb.exists_finalOp
  rw [TraceBlock.getLast?_outline hlast hacts] at houtline
  obtain ⟨hopcode, hpc, hplace⟩ := Outline.mk.inj (Option.some.inj houtline)
  refine ⟨t, lastOp_of_greatest hmade.order hsplit hfinal fun b' hb' => ?_, ?_, hopcode.symm,
    hpc.symm, by rw [TacOp.loc?, ← hplace, Option.map_some, hloc]⟩
  · -- the other blocks lie before the last operation of the trace
    obtain ⟨tb', htb', hstands'⟩ := exists_of_forall₂ hfront b' hb'
    obtain ⟨t', hfinal', -, houtline'⟩ := hstands'.exists_finalOp
    obtain ⟨op', hop', hpc'⟩ := TraceBlock.pc_of_mem_outline (List.mem_of_getLast? houtline')
    refine ⟨t', hfinal', ?_⟩
    have hlt := hpcs _ (hbefore tb' htb' op' hop')
    rw [← hpc]
    exact lt_of_eq_of_lt hpc' hlt
  · rw [Graph.ops, ← List.flatMap_map, map_snd_members hmade.order, hsplit, List.flatMap_append,
      List.flatMap_singleton, List.getLast?_append, hget]
    rfl

end Graph

end TraceLift
