/-
# The operations of a graph are those of the trace

Leave the operands and the results out of an operation, and what stays is its outline: opcode,
program counter and place in the trace.  This module says what outlines a graph has, without a
word about stacks or variables.  Read the blocks of the trace, leave out the operations that only
rearrange the stack, and rename the others: `PUSHn` becomes `CONST` and `LOGn` becomes `LOG`.  A
block of which nothing is left has one `NOP` instead, at the block's first program counter, which
is not from the trace.

* The families are given here by their members; that they are the ranges of codes that the
  conversion looks at is a fact about legal opcodes (`Legal.lifted_eq`).
* **Block by block** (`outline_convertBlocks`) the converted operations have the outlines of the
  operations they come from.
* **Positions ascend** (`locs_blocksOf`): the blocks hold consecutive operations of the trace, so
  what is left of them, across blocks and frames, is in the order of the trace.
-/
import TraceLift.Proofs.GraphOfTrace
import TraceLift.Proofs.ReadBack

namespace TraceLift

open Conversion

/-! ## 1. Opcodes that are left out and opcodes that are renamed -/

namespace Opcode

def pushFamily : List Opcode := (List.range' 1 32).map push

def dupFamily : List Opcode := (List.range' 1 16).map dup

def swapFamily : List Opcode := (List.range' 1 16).map swap

def logFamily : List Opcode := (List.range 5).map logN

/-- Only rearranges the stack: `POP`, a `DUPn` or a `SWAPn`. -/
def rearranges (op : Opcode) : Bool := op = pop || op ∈ dupFamily || op ∈ swapFamily

/-- The opcode that an opcode has in three-address code. -/
def lifted (op : Opcode) : Opcode :=
  if op ∈ pushFamily then const else if op ∈ logFamily then log else op

/-- A stand-in is no opcode of the table. -/
theorem standIn_not_mem_table {code : Int} (h : ofCode? code = none) : standIn code ∉ table := by
  intro hmem
  have hmissing : (standIn code).isMissing = false := not_isMissing_of_mem_table _ hmem
  simp [isMissing, standIn, h] at hmissing

/-- The families are parts of the table. -/
theorem mem_table_of_mem_family {op : Opcode}
    (h : op ∈ pushFamily ∨ op ∈ dupFamily ∨ op ∈ swapFamily ∨ op ∈ logFamily) : op ∈ table := by
  unfold table
  rcases h with h | h | h | h
  · exact List.mem_append_left _ (List.mem_append_left _ (List.mem_append_left _
      (List.mem_append_left _ (List.mem_append_right _ h))))
  · exact List.mem_append_left _ (List.mem_append_left _ (List.mem_append_left _
      (List.mem_append_right _ h)))
  · exact List.mem_append_left _ (List.mem_append_left _ (List.mem_append_right _ h))
  · exact List.mem_append_left _ (List.mem_append_right _ h)

/-- A stand-in stays, under its own name. -/
theorem rearranges_standIn {code : Int} (h : ofCode? code = none) :
    (standIn code).rearranges = false ∧ (standIn code).lifted = standIn code := by
  have hout := standIn_not_mem_table h
  have hpop : standIn code ≠ pop := fun heq => hout (heq ▸ by decide +kernel)
  have hfamilies := mt mem_table_of_mem_family hout
  simp only [not_or] at hfamilies
  obtain ⟨hpush, hdup, hswap, hlog⟩ := hfamilies
  exact ⟨by simp [rearranges, hpop, hdup, hswap], by simp [lifted, hpush, hlog]⟩

/-- A legal opcode rearranges the stack exactly if its code is that of an exchange, a copy or a
`POP`. -/
theorem Legal.rearranges_eq {op : Opcode} (h : op.Legal) :
    op.rearranges = (op.isSwap || op.isDup || op.same pop) := by
  refine h.rec_on (P := fun op => op.rearranges = (op.isSwap || op.isDup || op.same pop)) ?_ ?_
  · decide +kernel
  · intro code hcode
    obtain ⟨-, hdup, hswap, -⟩ :=
      no_family_of_unknown (show ofCode? (standIn code).code = none from hcode)
    have hpop : (standIn code).same pop = false := by
      rw [same, beq_eq_false_iff_ne]
      rintro rfl
      exact absurd hcode (by decide +kernel)
    rw [(rearranges_standIn hcode).1, hdup, hswap, hpop]
    rfl

/-- The conversion renames a legal opcode as it should. -/
theorem Legal.lifted_eq {op : Opcode} (h : op.Legal) : tacOpcode op = op.lifted := by
  refine h.rec_on (P := fun op => tacOpcode op = op.lifted) ?_ ?_
  · decide +kernel
  · intro code hcode
    obtain ⟨hpush, -, -, hlog, -⟩ :=
      no_family_of_unknown (show ofCode? (standIn code).code = none from hcode)
    rw [(rearranges_standIn hcode).2, tacOpcode, hpush, hlog]
    rfl

theorem Legal.lifted {op : Opcode} (h : op.Legal) : op.lifted.Legal := by
  have hknown : const ∈ table ∧ log ∈ table := by decide +kernel
  unfold Opcode.lifted
  split
  · exact .inl hknown.1
  split
  · exact .inl hknown.2
  · exact h

end Opcode

/-! ## 2. Outlines -/

/-- An operation, its operands and its result left out. -/
structure Outline where
  opcode : Opcode
  pc : Int
  /-- The place in the trace; none for an operation that the trace does not have. -/
  place : Option Placement
  deriving DecidableEq

/-- The position in the trace. -/
def Outline.loc? (o : Outline) : Option Nat := o.place.map (·.loc)

/-- The row of `op` that an outline gives. -/
def Outline.row (o : Outline) : OpRow := { pc := o.pc, opcode := o.opcode.name, loc := o.loc? }

def TacOp.outline (t : TacOp) : Outline := { opcode := t.opcode, pc := t.pc, place := t.place }

/-- The outline that an operation of the trace has in three-address code. -/
def PlacedOp.outline (op : PlacedOp) : Outline :=
  { opcode := op.opcode.lifted, pc := op.pc, place := some op.place }

/-- The outlines that a block of the trace has in three-address code. -/
def TraceBlock.outline (b : TraceBlock) : List Outline :=
  let kept := b.ops.filter (!·.opcode.rearranges)
  if kept.isEmpty then
    b.ops.head?.toList.map fun first => { opcode := Opcode.nop, pc := first.pc, place := none }
  else kept.map (·.outline)

/-- Of a block that does more than rearrange the stack, the operations that do more are left. -/
theorem TraceBlock.outline_eq {b : TraceBlock} {op : PlacedOp} (hop : op ∈ b.ops)
    (hacts : op.opcode.rearranges = false) :
    b.outline = (b.ops.filter (!·.opcode.rearranges)).map (·.outline) := by
  have hkept : ¬ (b.ops.filter (!·.opcode.rearranges)).isEmpty = true := by
    rw [List.isEmpty_iff]
    exact List.ne_nil_of_mem (List.mem_filter.mpr ⟨hop, by rw [hacts]; rfl⟩)
  rw [outline, if_neg hkept]

/-- The outlines of a block have legal opcodes if its operations have. -/
theorem TraceBlock.legal_outline {b : TraceBlock} (h : ∀ op ∈ b.ops, op.opcode.Legal) :
    ∀ o ∈ b.outline, o.opcode.Legal := by
  unfold outline
  dsimp only
  split
  · refine List.forall_mem_map.mpr fun first _ => .inl ?_
    exact (show Opcode.nop ∈ Opcode.table by decide +kernel)
  · exact List.forall_mem_map.mpr fun op hop => (h op (List.mem_filter.mp hop).1).lifted

/-! ## 3. The conversion keeps outlines -/

namespace Conversion

/-- One operation leaves nothing if it rearranges the stack, and one operation with its outline
if it does not. -/
theorem outline_of_converts {block : Nat} {store store' : Store} {stack stack' : Stack Operand}
    {op : PlacedOp} {tac : Option TacOp} (hlegal : op.opcode.Legal)
    (h : Converts block store stack op store' stack' tac) :
    tac.toList.map (·.outline) = if op.opcode.rearranges then [] else [op.outline] := by
  have hmoves := hlegal.rearranges_eq
  have houtline : op.outline = ⟨tacOpcode op.opcode, op.pc, op.place⟩ := by
    rw [PlacedOp.outline, hlegal.lifted_eq]
  cases h with
  | swap hop => simp [hmoves, hop]
  | dup _ hop => simp [hmoves, hop]
  | drop _ _ hop => simp [hmoves, hop]
  | act hop =>
    rw [hmoves, hop.1, hop.2.1, hop.2.2, houtline]
    rfl
  | bind hop =>
    rw [hmoves, hop.1, hop.2.1, hop.2.2, houtline]
    rfl

theorem outline_convertOps {block : Nat} : ∀ {ops : List PlacedOp} {store store' : Store}
    {stack stack' : Stack Operand} {tacs : List TacOp}, (∀ op ∈ ops, op.opcode.Legal) →
    convertOps block store stack ops = .ok (store', stack', tacs) →
    tacs.map (·.outline) = (ops.filter (!·.opcode.rearranges)).map (·.outline)
  | [], _, _, _, _, _, _, h => by
    cases h
    rfl
  | op :: ops, _, _, _, _, _, hlegal, h => by
    obtain ⟨hlop, hlops⟩ := List.forall_mem_cons.mp hlegal
    obtain ⟨_, _, tac, rest, hop, hops, rfl⟩ := convertOps_cons_eq_ok_iff.mp h
    rw [List.map_append, outline_of_converts hlop hop, outline_convertOps hlops hops]
    cases hmoves : op.opcode.rearranges <;> simp [hmoves]

theorem outline_convertBlock {c c' : Conversion} {b : TraceBlock} {t : TacBlock}
    (hlegal : ∀ op ∈ b.ops, op.opcode.Legal) (h : c.convertBlock b = .ok (c', t)) :
    t.ops.map (·.outline) = b.outline := by
  obtain ⟨first, _, _, _, tacs, hstep⟩ := blockStep_of_convertBlock h
  have hkept := outline_convertOps hlegal hstep.converts
  -- one side is empty exactly if the other is
  have hempty : tacs.isEmpty = (b.ops.filter (!·.opcode.rearranges)).isEmpty := by
    rw [← List.isEmpty_map (f := TacOp.outline), hkept, List.isEmpty_map]
  rw [hstep.ops, orFiller, TraceBlock.outline, hstep.head, hempty]
  split
  · rfl
  · exact hkept

/-- **Block by block**, the converted operations have the outlines of the trace. -/
theorem outline_convertBlocks : ∀ {bs : List TraceBlock} {c c' : Conversion} {ts : List TacBlock},
    (∀ b ∈ bs, ∀ op ∈ b.ops, op.opcode.Legal) → convertBlocks c bs = .ok (c', ts) →
    ts.map (fun t => t.ops.map (·.outline)) = bs.map (·.outline)
  | [], _, _, _, _, h => by
    cases h
    rfl
  | b :: bs, _, _, _, hlegal, h => by
    obtain ⟨hlb, hlbs⟩ := List.forall_mem_cons.mp hlegal
    obtain ⟨c₁, t, ts, hb, hbs, rfl⟩ := convertBlocks_cons_ok h
    rw [List.map_cons, List.map_cons, outline_convertBlock hlb hb, outline_convertBlocks hlbs hbs]

end Conversion

/-! ## 4. Positions ascend -/

/-- **The blocks hold the trace from its first operation on**, position by position. -/
theorem locs_blocksOf (ops : List TraceOp) :
    ((blocksOf ops).flatMap (·.ops)).map (·.place.loc) =
      List.range (coveredCount (blocksOf ops)) := by
  refine List.ext_getElem (by simp [coveredCount]) fun i hi hi' => ?_
  rw [List.length_map] at hi
  obtain ⟨m, hm, -, hplace⟩ := getElem?_ops_blocksOf (List.getElem?_eq_getElem hi)
  rw [List.getElem_map, List.getElem_range, hplace, (starts_iff_splitsAt hm).1]

/-- The positions that a block keeps are positions of its operations, in their order. -/
theorem TraceBlock.locs_outline (b : TraceBlock) :
    (b.outline.filterMap (·.loc?)).Sublist (b.ops.map (·.place.loc)) := by
  have hkept : ∀ l : List PlacedOp, (l.map (·.outline)).filterMap (·.loc?) =
      l.map (·.place.loc) := by
    intro l
    rw [List.filterMap_map, ← List.filterMap_eq_map]
    rfl
  unfold TraceBlock.outline
  dsimp only
  split
  · cases b.ops.head? <;> simp [Outline.loc?]
  · rw [hkept]
    exact List.filter_sublist.map _

/-- What is left of the blocks is in the order of the trace, across blocks and frames. -/
theorem ascending_outline (ops : List TraceOp) :
    (((blocksOf ops).flatMap (·.outline)).filterMap (·.loc?)).Pairwise (· < ·) := by
  have hsub : ∀ bs : List TraceBlock, ((bs.flatMap (·.outline)).filterMap (·.loc?)).Sublist
      ((bs.flatMap (·.ops)).map (·.place.loc)) := by
    intro bs
    induction bs with
    | nil => exact List.Sublist.refl _
    | cons b bs ih =>
      rw [List.flatMap_cons, List.flatMap_cons, List.filterMap_append, List.map_append]
      exact b.locs_outline.append ih
  refine List.Pairwise.sublist (hsub _) ?_
  rw [locs_blocksOf]
  exact List.pairwise_lt_range

/-! ## 5. The graph -/

namespace Graph

open Text.Tsv

/-- The operations of a graph's blocks have the outlines of the trace. -/
theorem outline_members {ops : List TraceOp} (hlegal : ∀ op ∈ ops, op.opcode.Legal) {g : Graph}
    {c : Conversion} {ts : List TacBlock} (hconvert : convertBlocks {} (blocksOf ops) = .ok (c, ts))
    (h : g.MadeFrom c ts) :
    g.members.map (fun m => m.2.ops.map (·.outline)) = (blocksOf ops).map (·.outline) := by
  have hblocks : g.blocks.map (fun b => b.ops.map (·.outline)) =
      ts.map fun t => t.ops.map (·.outline) :=
    map_eq_of_content h.content (fun b => by
      rw [Block.content, List.map_map]
      rfl) fun _ _ => rfl
  rw [← outline_convertBlocks (fun b hb op hop => hlegal _ (toTraceOp_mem_of_mem_blocksOf hb hop))
    hconvert, ← hblocks, ← map_snd_members h.order, List.map_map]
  rfl

theorem opRows_of_madeFrom {ops : List TraceOp} (hlegal : ∀ op ∈ ops, op.opcode.Legal) {g : Graph}
    {c : Conversion} {ts : List TacBlock} (hconvert : convertBlocks {} (blocksOf ops) = .ok (c, ts))
    (h : g.MadeFrom c ts) : g.opRows = ((blocksOf ops).flatMap (·.outline)).map (·.row) := by
  rw [List.flatMap_def, ← outline_members hlegal hconvert h, ← List.flatMap_def, ← List.map_flatMap,
    List.map_map]
  rfl

/-- The relation of all operations is read back. -/
theorem read_opRows {ops : List TraceOp} (hlegal : ∀ op ∈ ops, op.opcode.Legal) {g : Graph}
    (hg : ofTrace ops = .ok g) :
    read (file (g.opRows.map (·.fields))) = g.opRows.map (·.fields) := by
  obtain ⟨c, ts, hconvert, hmade⟩ := madeFrom_of_ofTrace hg
  refine read_file_map (fun _ => List.cons_ne_nil _ _) ?_
  rw [opRows_of_madeFrom hlegal hconvert hmade]
  refine List.forall_mem_map.mpr fun o ho => OpRow.bare_fields (bare_name ?_)
  obtain ⟨b, hb, ho⟩ := List.mem_flatMap.mp ho
  exact TraceBlock.legal_outline
    (fun op hop => hlegal _ (toTraceOp_mem_of_mem_blocksOf hb hop)) o ho

end Graph

/-- **The graph is the trace.**  Block by block the operations of the graph are those of the trace
that do not only rearrange the stack, each with its program counter, its place and its opcode, the
opcode renamed if it is a push or a log; a block without such operations has one `NOP`.  So the
file of operations lists these in this order, the positions it gives ascend, and a reader of the
file gets the outlines of the trace: program counter, name and position. -/
theorem graph_outlines_trace (ops : List TraceOp) (hlegal : ∀ op ∈ ops, op.opcode.Legal)
    {g : Graph} (hg : Graph.ofTrace ops = .ok g) :
    g.members.map (fun m => m.2.ops.map (·.outline)) = (blocksOf ops).map (·.outline) ∧
      g.opRows = ((blocksOf ops).flatMap (·.outline)).map (·.row) ∧
      (g.opRows.filterMap (·.loc)).Pairwise (· < ·) ∧
      g.opFiles [] = .ok [("op.facts", Text.Tsv.file (g.opRows.map (·.fields)))] ∧
      Text.Tsv.read (Text.Tsv.file (g.opRows.map (·.fields))) =
        ((blocksOf ops).flatMap (·.outline)).map fun o =>
          [Text.hex o.pc, o.opcode.name, numberField o.loc?] := by
  obtain ⟨c, ts, hconvert, hmade⟩ := Graph.madeFrom_of_ofTrace hg
  have hmembers := Graph.outline_members hlegal hconvert hmade
  have hrows := Graph.opRows_of_madeFrom hlegal hconvert hmade
  refine ⟨hmembers, hrows, ?_, ?_, ?_⟩
  · have hlocs := ascending_outline ops
    rw [hrows, List.filterMap_map]
    exact hlocs
  · rw [Graph.opFiles, hmade.gap]
    rfl
  · rw [Graph.read_opRows hlegal hg, hrows, List.map_map]
    rfl

/-- A frame calls another one that only drops an item, and then writes a log. -/
def idleCallee : List TraceOp :=
  [{ pc := 0, opcode := .push 1, value := some 5 }, { pc := 2, opcode := .dup 1 },
    { pc := 0, opcode := .pop },
    { pc := 7, opcode := .call, value := some 1 }, { pc := 8, opcode := .logN 1 },
    { pc := 9, opcode := .stop }]

theorem opRows_idleCallee : (∀ op ∈ idleCallee, op.opcode.Legal) ∧
    ∃ g, Graph.ofTrace idleCallee = .ok g ∧
      g.opRows = [⟨0, "CONST", some 0⟩, ⟨0, "NOP", none⟩, ⟨7, "CALL", some 3⟩, ⟨8, "LOG", some 4⟩,
        ⟨9, "STOP", some 5⟩] ∧
      Text.Tsv.read (Text.Tsv.file (g.opRows.map (·.fields))) =
        [["0x0", "CONST", "0"], ["0x0", "NOP", ""], ["0x7", "CALL", "3"], ["0x8", "LOG", "4"],
          ["0x9", "STOP", "5"]] := by
  have hlegal : ∀ op ∈ idleCallee, op.opcode.Legal := by decide +kernel
  refine ⟨hlegal, ?_⟩
  have hmade : (Graph.ofTrace idleCallee).toBool = true := by decide +kernel
  cases hg : Graph.ofTrace idleCallee with
  | error e => simp [hg, Except.toBool] at hmade
  | ok g =>
    obtain ⟨-, hrows, -, -, hread⟩ := graph_outlines_trace idleCallee hlegal hg
    refine ⟨g, rfl, hrows.trans ?_, hread.trans ?_⟩
    · decide +kernel
    · decide +kernel

end TraceLift
