/-
# The graphs of samples

Every sample has a graph, and all of them look alike (`exists_graph_sample`).

* **Blocks** (`fills_pieces`).  A sample is cut where a call enters a frame and where it leaves it, so
  that the pieces are at depth 1 and at depth 2 in turn (`levelAt`).
* **The end** (`endsAt_trace`).  A sample ends with an `INVALID` that has the greatest program counter:
  the program counters of the called contracts start over, but their code is shorter than what the
  first contract runs before the calls.
* **Text** (`ofLines_lines`).  The lines of a sample are read back as the sample.
-/
import TraceLift.Proofs.Editing
import TraceLift.Proofs.LastOperation
import TraceLift.Proofs.SampleRuns
import TraceLift.Proofs.TraceLines

namespace TraceLift

open Conversion StackMachine

/-! ## 1. The blocks of a sample -/

/-- The depth and the number that the operations of a block have. -/
structure Level where
  depth : Int
  number : Nat

namespace Level

/-- All marks are at one level. -/
def Has (l : Level) (ms : List Mark) : Prop :=
  ∀ m ∈ ms, m.place.depth = l.depth ∧ m.place.number = l.number

/-- All marks are at one level, and one of them is of an operation that does more than rearrange
the stack. -/
def Fills (l : Level) (ms : List Mark) : Prop :=
  l.Has ms ∧ ∃ m ∈ ms, m.op.opcode.rearranges = false

/-- Marks are cut into pieces at these levels.  What is in front of the first piece is not known
yet, so it may turn out to be filled later. -/
def Cuts (ls : List Level) (ms : List Mark) : Prop :=
  ∃ l rest p ps, ls = l :: rest ∧ pieces ms = p :: ps ∧ l.Has p ∧ List.Forall₂ Fills rest ps

variable {l : Level} {ls : List Level} {m : Mark} {ms : List Mark}

theorem cuts_nil (l : Level) : Cuts [l] [] := ⟨l, [], [], [], rfl, rfl, by simp [Has], .nil⟩

theorem Has.cons {p : List Mark} (hm : l.Has [m]) (hp : l.Has p) : l.Has (m :: p) :=
  List.forall_mem_cons.mpr ⟨hm m (List.mem_singleton_self m), hp⟩

/-- A mark at the level of the first piece is added to it. -/
theorem Cuts.run (h : Cuts (l :: ls) ms) (hm : m.starts = false) (hlevel : l.Has [m]) :
    Cuts (l :: ls) (m :: ms) := by
  obtain ⟨_, _, p, ps, heq, hpieces, hp, hps⟩ := h
  obtain ⟨rfl, rfl⟩ := List.cons.inj heq
  exact ⟨_, _, m :: p, ps, rfl, by rw [pieces_cons hpieces, hm]; rfl, hlevel.cons hp, hps⟩

/-- A mark in the first piece fills it. -/
theorem Cuts.fill (h : Cuts (l :: ls) ms) (hm : m.starts = false) (hlevel : l.Has [m])
    (hacts : m.op.opcode.rearranges = false) :
    List.Forall₂ Fills (l :: ls) (pieces (m :: ms)) := by
  obtain ⟨_, _, p, ps, heq, hpieces, hp, hps⟩ := h
  obtain ⟨rfl, rfl⟩ := List.cons.inj heq
  rw [pieces_cons hpieces, hm]
  exact .cons ⟨hlevel.cons hp, m, List.mem_cons_self, hacts⟩ hps

/-- A mark that starts a block ends the piece before it. -/
theorem Cuts.start (h : Cuts (l :: ls) ms) (hm : m.starts = true) (hlevel : l.Has [m])
    (hacts : m.op.opcode.rearranges = false) (l' : Level) : Cuts (l' :: l :: ls) (m :: ms) := by
  obtain ⟨_, _, p, ps, heq, hpieces, hp, hps⟩ := h
  obtain ⟨rfl, rfl⟩ := List.cons.inj heq
  refine ⟨_, _, [], (m :: p) :: ps, rfl, by rw [pieces_cons hpieces, hm]; rfl, by simp [Has], ?_⟩
  exact .cons ⟨hlevel.cons hp, m, List.mem_cons_self, hacts⟩ hps

/-- Operations in a row stay in the first piece. -/
theorem Cuts.runs {chain : List Nat} {entered : Nat} {tail : List TraceStep} :
    ∀ {ops : List TraceOp} {loc : Nat}, Cuts (⟨chain.length, entered - 1⟩ :: ls)
      (annotate (loc + ops.length) entered tail) →
    Cuts (⟨chain.length, entered - 1⟩ :: ls) (annotate loc entered
      ((ops.map fun op => { op, chain, role := .running }) ++ tail))
  | [], _, h => h
  | op :: ops, loc, h => by
    rw [List.length_cons, Nat.add_comm ops.length, ← Nat.add_assoc] at h
    refine h.runs.run (by simp [TraceStep.mark]) fun m hm => ?_
    rw [List.mem_singleton.mp hm]
    exact ⟨rfl, rfl⟩

end Level

namespace Sample

open Instruction

/-- The level of the block at a position of a sample. -/
def levelAt (k : Nat) : Level := ⟨1 + (k % 2 : Nat), (k + 1) / 2⟩

theorem levelAt_even (n : Nat) : levelAt (2 * n) = ⟨([0] : List Nat).length, n + 1 - 1⟩ := by
  simp only [levelAt, List.length_singleton, Level.mk.injEq]
  omega

theorem levelAt_odd (n : Nat) :
    levelAt (2 * n + 1) = ⟨([n + 1, 0] : List Nat).length, n + 1 + 1 - 1⟩ := by
  simp only [levelAt, List.length_cons, List.length_nil, Level.mk.injEq]
  omega

theorem cuts_callsBody (arith : Nat) : ∀ (calls pc number made loc : Nat), 0 < loc →
    Level.Cuts ((List.range' (2 * made) (2 * calls + 1)).map levelAt)
      (annotate loc (made + 1) ((callsBody arith pc number calls).steps [0] (made + 1)))
  | 0, pc, _, made, loc, _ => by
    rw [callsBody, FrameBody.steps_runs]
    show Level.Cuts [levelAt (2 * made)] _
    rw [levelAt_even]
    exact .runs (Level.cuts_nil _)
  | calls + 1, pc, number, made, loc, hloc => by
    have hlevels : (List.range' (2 * made) (2 * (calls + 1) + 1)).map levelAt =
        levelAt (2 * made) :: levelAt (2 * made + 1) :: levelAt (2 * (made + 1)) ::
          (List.range' (2 * (made + 1) + 1) (2 * calls)).map levelAt := rfl
    have hcall := (callKinds_spec _ (callOf_mem number)).2.1
    rw [hlevels, callsBody]
    simp only [FrameBody.steps_runs, FrameBody.steps, FrameBody.frames_runs, FrameBody.frames,
      List.append_nil, Nat.add_zero]
    -- the operands belong to the block before, the called contract and the rest are blocks
    rw [levelAt_even made, levelAt_odd, levelAt_even (made + 1)]
    refine .runs (.start (.runs (.start (.runs ?_) ?_ ?_ hcall _)) ?_ ?_ rfl _)
    · rw [← levelAt_even]
      exact cuts_callsBody arith calls _ (number + 1) (made + 1) _ (by omega)
    · simp [TraceStep.mark]
    · exact List.forall_mem_singleton.mpr ⟨rfl, rfl⟩
    · simp [TraceStep.mark, hloc.ne']
    · exact List.forall_mem_singleton.mpr ⟨rfl, rfl⟩

/-- **The pieces of a sample** are at the levels of their positions. -/
theorem fills_pieces (arith calls : Nat) :
    List.Forall₂ Level.Fills ((List.range (2 * calls + 1)).map levelAt)
      (pieces (marks (trace arith calls))) := by
  have hmarks := marks_eq_annotate (fun _ _ hhalts hcontinues => hcontinues.2 hhalts)
    (wellNested_frame arith calls)
  rw [ops_frame, Frame.steps, frame, FrameBody.steps_runs] at hmarks
  have hlevels : (List.range (2 * calls + 1)).map levelAt =
      levelAt (2 * 0) :: (List.range' 1 (2 * calls)).map levelAt := by
    rw [List.range_eq_range']
    rfl
  rw [hmarks, hlevels, levelAt_even]
  refine Level.Cuts.fill (.runs ?_) rfl (List.forall_mem_singleton.mpr ⟨rfl, rfl⟩) rfl
  rw [← levelAt_even]
  exact cuts_callsBody arith calls _ 0 0 _ (by omega)

end Sample

/-! ## 2. The end of a sample -/

namespace Sample

open Instruction

/-- The instructions that samples are made of. -/
def instructions : List Instruction :=
  opening ++ arithmetic ++ endings.flatten ++ callKinds ++ [plain .invalid]

theorem mem_instructions_start {arith : Nat} :
    ∀ i ∈ opening ++ arithmeticTimes arith, i ∈ instructions := by
  intro i hi
  rcases List.mem_append.mp hi with hi | hi
  · simp [instructions, hi]
  · simp [instructions, mem_arithmeticTimes hi]

theorem mem_instructions_operandsOf {call : Instruction} :
    ∀ i ∈ operandsOf call, i ∈ instructions := by
  intro i hi
  rw [List.eq_of_mem_replicate hi]
  simp [instructions, opening, world]

theorem mem_instructions_callee {arith number : Nat} :
    ∀ i ∈ callee arith number, i ∈ instructions := by
  intro i hi
  simp only [callee, List.mem_append, List.mem_cons, List.not_mem_nil, or_false] at hi
  rcases hi with ((rfl | hi) | rfl) | hi
  · simp [instructions, opening, memory]
  · exact mem_instructions_start i (List.mem_append_right _ hi)
  · simp [instructions, arithmetic]
  · have hmem := List.mem_flatten_of_mem (ending_mem number) hi
    simp [instructions, -List.mem_flatten, hmem]

theorem mem_instructions_call {number : Nat} :
    ∀ i ∈ [callOf number, plain .pop], i ∈ instructions := by
  intro i hi
  simp only [List.mem_cons, List.not_mem_nil, or_false] at hi
  rcases hi with rfl | rfl
  · simp [instructions, callOf_mem number]
  · simp [instructions, arithmetic]

theorem codeSize_arithmeticTimes : ∀ n, codeSize (arithmeticTimes n) = 69 * n
  | 0 => rfl
  | n + 1 => by
    have hsize := arithmetic_spec.2.2.2
    rw [arithmeticTimes_succ, codeSize_append, codeSize_arithmeticTimes n, hsize]
    omega

theorem codeSize_start (arith : Nat) :
    codeSize (opening ++ arithmeticTimes arith) = 169 + 69 * arith := by
  rw [codeSize_append, codeSize_arithmeticTimes, opening_spec.2.2]

theorem codeSize_callee_le (arith number : Nat) : codeSize (callee arith number) ≤ 69 * arith + 8 := by
  have hend := (endings_spec _ (ending_mem number)).2.2.2
  have hpush : codeSize [push1 1] = 2 := rfl
  have hpop : codeSize [plain .pop] = 1 := rfl
  rw [callee_eq, codeSize_append, codeSize_append, codeSize_append, codeSize_arithmeticTimes, hpush,
    hpop]
  omega

/-- Operations end with an `INVALID` that lies behind all of them. -/
def EndsAt (p : Nat) (ops : List TraceOp) : Prop :=
  ∃ front, ops = front ++ [(plain .invalid).placed p] ∧
    ∀ op ∈ front, ∃ i ∈ instructions, ∃ q < p, op = i.placed q

theorem EndsAt.append {p pc : Nat} {ops : List TraceOp} {code : List Instruction}
    (h : EndsAt p ops) (hcode : ∀ i ∈ code, i ∈ instructions) (hp : pc + codeSize code ≤ p) :
    EndsAt p (layOut pc code ++ ops) := by
  obtain ⟨front, rfl, hfront⟩ := h
  refine ⟨layOut pc code ++ front, (List.append_assoc ..).symm, fun op hop => ?_⟩
  rcases List.mem_append.mp hop with hop | hop
  · obtain ⟨i, hi, q, rfl, -, hq⟩ := exists_of_mem_layOut hop
    exact ⟨i, hcode i hi, q, by omega, rfl⟩
  · exact hfront op hop

/-- The called contracts are no longer than what lies before the calls, so that the program counters
in them are passed as well. -/
theorem endsAt_callsFrom (arith : Nat) : ∀ (calls pc number : Nat), 69 * arith + 8 ≤ pc →
    ∃ p, pc ≤ p ∧ p ≤ pc + 16 * calls ∧ EndsAt p (callsFrom arith pc number calls)
  | 0, pc, _, _ => ⟨pc, Nat.le_refl pc, by omega, [], rfl, by simp⟩
  | calls + 1, pc, number, hpc => by
    have hcall := (callKinds_spec _ (callOf_mem number)).2.2.1
    have hcallee := codeSize_callee_le arith number
    obtain ⟨p, hle, hbound, hend⟩ := endsAt_callsFrom arith calls
      (pc + codeSize (operandsOf (callOf number)) + codeSize [callOf number, plain .pop])
      (number + 1) (by omega)
    refine ⟨p, by omega, by omega, ?_⟩
    rw [callsFrom, List.append_assoc, List.append_assoc]
    exact ((hend.append mem_instructions_call hle).append mem_instructions_callee (by omega)).append
      mem_instructions_operandsOf (by omega)

theorem endsAt_trace (arith calls : Nat) :
    ∃ p, 0 < p ∧ p ≤ 169 + 69 * arith + 16 * calls ∧ EndsAt p (trace arith calls) := by
  have hsize := codeSize_start arith
  obtain ⟨p, hle, hbound, hend⟩ :=
    endsAt_callsFrom arith calls (codeSize (opening ++ arithmeticTimes arith)) 0 (by omega)
  exact ⟨p, by omega, by omega, hend.append mem_instructions_start (by omega)⟩

theorem EndsAt.exists_placed {p : Nat} {ops : List TraceOp} (h : EndsAt p ops) :
    ∀ op ∈ ops, ∃ i ∈ instructions, ∃ q ≤ p, op = i.placed q := by
  obtain ⟨front, rfl, hfront⟩ := h
  intro op hop
  rcases List.mem_append.mp hop with hop | hop
  · obtain ⟨i, hi, q, hq, rfl⟩ := hfront op hop
    exact ⟨i, hi, q, hq.le, rfl⟩
  · exact ⟨plain .invalid, by simp [instructions], p, Nat.le_refl p, List.mem_singleton.mp hop⟩

end Sample

/-! ## 3. Samples as text -/

namespace Sample

open Instruction

theorem mem_table (arith calls : Nat) : ∀ op ∈ trace arith calls, op.opcode ∈ Opcode.table := by
  intro op hop
  obtain ⟨s, hs, rfl⟩ := List.mem_map.mp ((frame arith calls).map_op_steps ▸ ops_frame .. ▸ hop)
  exact ((feasible_frame arith calls).of_mem _ (List.mem_map_of_mem hs)).1

theorem proper_placed {i : Instruction} (hi : i ∈ instructions) (hmem : i.opcode ∈ Opcode.table)
    {q : Nat} (hq : Text.Readable q) : (i.placed q).record.Proper := by
  have hall : ∀ i ∈ instructions, (∀ v ∈ i.value, Text.Readable v) ∧
      (∀ x ∈ i.extra, Text.Readable x) ∧ (i.value = none → i.extra = none) := by decide +kernel
  obtain ⟨hvalue, hextra, hpaired⟩ := hall i hi
  have hknown : i.opcode.name ∈ Opcode.names.map (·.1) :=
    List.mem_map.mpr ⟨_, List.mem_append_left _ (List.mem_map_of_mem hmem), rfl⟩
  exact ⟨hknown, hq, hvalue, hextra, hpaired⟩

/-- The program counters of a sample have at most three digits more than its size. -/
theorem readable_pc {arith calls d q : Nat} (hd : d + 3 ≤ Text.maxDecimalDigits)
    (hsize : arith + calls < 10 ^ d) (hq : q ≤ 169 + 69 * arith + 16 * calls) : Text.Readable q := by
  refine Text.readable_of_lt (Nat.succ_pos (d + 2)) hd ?_
  have hpow : Nat.pow 10 (d + 3) = 10 ^ d * 10 ^ 3 := pow_add 10 d 3
  rw [hpow]
  omega

/-- **A sample is read back from its lines**, if its program counters do not get too long. -/
theorem ofLines_lines {arith calls : Nat} (h : arith + calls < 10 ^ 4297) :
    Graph.ofLines (lines arith calls) = Graph.ofTrace (trace arith calls) := by
  obtain ⟨p, -, hbound, hend⟩ := endsAt_trace arith calls
  have hparse : TraceOp.parseLines (lines arith calls) = .ok (trace arith calls) := by
    refine TraceOp.parseLines_line fun op hop => ?_
    have hmem := mem_table arith calls op hop
    obtain ⟨i, hi, q, hq, rfl⟩ := hend.exists_placed op hop
    exact ⟨hmem, proper_placed hi hmem (readable_pc (by decide) h (hq.trans hbound))⟩
  rw [Graph.ofLines, hparse]
  rfl

end Sample

/-! ## 4. The graph of a sample -/

/-- All operations of a block are at one level, both those of the trace and those of the code. -/
structure Level.Holds (l : Level) (b : Block) : Prop where
  nonempty : b.ops ≠ []
  source : ∀ op ∈ b.source, op.place.depth = l.depth ∧ op.place.number = l.number
  ops : ∀ op ∈ b.ops, op.depth? = some l.depth ∧ op.number? = some l.number

namespace Sample

open Instruction

variable {arith calls : Nat} {g : Graph}

theorem keepsLast_trace (arith calls : Nat) : keepsLast (trace arith calls) = true := by
  obtain ⟨p, hp, -, front, hfront, -⟩ := endsAt_trace arith calls
  refine (keepsLast_iff _).mpr ⟨_, by rw [hfront, List.getLast?_concat], ?_, rfl⟩
  show (p : Int) ≠ 0
  omega

theorem blocksOf_trace (arith calls : Nat) :
    blocksOf (trace arith calls) = blocksFrom 0 0 (pieces (marks (trace arith calls))) := by
  rw [blocksOf_eq, keptPieces, if_pos (keepsLast_trace arith calls)]

theorem standsFor_blocks (hg : Graph.ofTrace (trace arith calls) = .ok g) :
    List.Forall₂ Graph.StandsFor g.blocks (blocksOf (trace arith calls)) :=
  Graph.standsFor_of_ofTrace (fun op hop => .inl (mem_table arith calls op hop)) hg

theorem length_blocks (hg : Graph.ofTrace (trace arith calls) = .ok g) :
    g.blocks.length = 2 * calls + 1 := by
  rw [(standsFor_blocks hg).length_eq, blocksOf_trace, length_blocksFrom,
    ← (fills_pieces arith calls).length_eq, List.length_map, List.length_range]

theorem holds_levelAt (hg : Graph.ofTrace (trace arith calls) = .ok g) {k : Nat} {b : Block}
    (hb : g.blocks[k]? = some b) : (levelAt k).Holds b := by
  obtain ⟨tb, htb, hstands⟩ := exists_getElem?_of_forall₂ (standsFor_blocks hg) hb
  rw [blocksOf_trace, getElem?_blocksFrom, Option.map_eq_some_iff] at htb
  obtain ⟨p, hp, rfl⟩ := htb
  obtain ⟨l, hl, hlevel, m, hm, hacts⟩ :=
    exists_getElem?_of_forall₂ (fills_pieces arith calls).flip hp
  obtain rfl : levelAt k = l := by
    obtain ⟨_, rfl⟩ := List.getElem?_eq_some_iff.mp hl
    rw [List.getElem_map, List.getElem_range]
  refine ⟨hstands.nonempty, ?_, ?_⟩
  · rw [hstands.source]
    exact List.forall_mem_map.mpr hlevel
  · intro t ht
    have houtline : t.outline ∈ (TraceBlock.ofPiece _ _ p).outline :=
      hstands.outline ▸ List.mem_map_of_mem ht
    obtain ⟨op, hop, heq⟩ := TraceBlock.exists_of_mem_outline
      ⟨_, List.mem_map_of_mem hm, hacts⟩ houtline
    obtain ⟨m', hm', rfl⟩ := List.mem_map.mp hop
    obtain ⟨-, -, hplace⟩ := Outline.mk.inj heq
    rw [TacOp.depth?, TacOp.number?, hplace]
    exact ⟨congrArg some (hlevel m' hm').1, congrArg some (hlevel m' hm').2⟩

/-- The graph of a sample.  The first contract runs in the blocks at even positions, at depth 1, and
the called contracts run in the others, at depth 2; the number of calls goes up with each of these. -/
structure IsGraph (arith calls : Nat) (g : Graph) : Prop where
  size : g.blocks.length = 2 * calls + 1
  order : g.order = List.range (2 * calls + 1)
  levels : ∀ k b, g.blocks[k]? = some b → (levelAt k).Holds b
  succs : ∀ k, g.succs k = if k < 2 * calls then [k + 1] else []
  preds : ∀ k, g.preds k = if 0 < k ∧ k ≤ 2 * calls then [k - 1] else []
  last : ∃ op, g.lastOp = .ok op ∧ g.ops.getLast? = some op ∧ op.opcode = .invalid ∧
    op.loc? = some ((trace arith calls).length - 1)
  constant : ∀ op ∈ g.ops, op.isAssignment → ∃ id v w, op.target? = some id ∧
    g.machine.store[id]? = some v ∧ v.values.const? = some w

theorem exists_lastOp (hg : Graph.ofTrace (trace arith calls) = .ok g) :
    ∃ op, g.lastOp = .ok op ∧ g.ops.getLast? = some op ∧ op.opcode = .invalid ∧
      op.loc? = some ((trace arith calls).length - 1) := by
  obtain ⟨p, -, -, front, hfront, hbefore⟩ := endsAt_trace arith calls
  obtain ⟨t, hlast, hget, hopcode, -, hloc⟩ := Graph.lastOp_of_ofTrace
    (fun op hop => .inl (mem_table arith calls op hop)) hg hfront (keepsLast_trace arith calls) rfl
    (fun op hop => by
      obtain ⟨i, -, q, hq, rfl⟩ := hbefore op hop
      exact Int.ofNat_lt.mpr hq)
  refine ⟨t, hlast, hget, hopcode, ?_⟩
  rw [hloc, hfront, List.length_append, List.length_singleton, Nat.add_sub_cancel]

end Sample

/-- **The graph of every sample.**  Whatever the number of calls and the amount of arithmetic, a
sample has a graph: two blocks for each call and one more, joined in a row, at depth 1 and 2 in turn,
each call raising the number by one.  The last operation of the graph is the `INVALID` at the end of
the sample, and all results are constants.  It is also the graph of the lines of the sample, as long
as their numbers do not have more than the 4300 digits that can be read. -/
theorem exists_graph_sample (arith calls : Nat) :
    ∃ g, Graph.ofTrace (Sample.trace arith calls) = .ok g ∧ Sample.IsGraph arith calls g ∧
      (arith + calls < 10 ^ 4297 → Graph.ofLines (Sample.lines arith calls) = .ok g) := by
  obtain ⟨p, -, -, hend⟩ := Sample.endsAt_trace arith calls
  obtain ⟨g, hg, hconst⟩ := exists_graph (Sample.wellNested_frame arith calls)
    (Sample.feasible_frame arith calls) (by
      intro op hop
      obtain ⟨i, -, q, -, rfl⟩ := hend.exists_placed op (Sample.ops_frame .. ▸ hop)
      exact Int.natCast_nonneg q)
  rw [Sample.ops_frame] at hg
  have hchain := Graph.chain_of_ofTraceBlocks hg
  have hsize := Sample.length_blocks hg
  refine ⟨g, hg, ⟨hsize, hsize ▸ hchain.order, fun k b hb => Sample.holds_levelAt hg hb, ?_, ?_,
    Sample.exists_lastOp hg, ?_⟩, fun h => (Sample.ofLines_lines h).trans hg⟩
  · intro k
    rw [hchain.succs, hsize]
    simp only [Nat.add_lt_add_iff_right]
  · intro k
    rw [hchain.preds, hsize]
    simp only [Nat.lt_add_one_iff]
  · intro op hop hassign
    obtain ⟨b, hb⟩ := Option.isSome_iff_exists.mp hassign
    obtain ⟨v, w, hv, hvalues⟩ := hconst op hop b hb
    exact ⟨b.target, v, w, by rw [TacOp.target?, hb]; rfl, hv, by rw [hvalues]; rfl⟩

/-- Seven calls are of all kinds and end in all ways. -/
theorem exists_graph_sevenCalls :
    ∃ g, Graph.ofLines (Sample.lines 2 7) = .ok g ∧ Sample.IsGraph 2 7 g := by
  obtain ⟨g, -, hgraph, hlines⟩ := exists_graph_sample 2 7
  have hsmall : ∀ d, d ≠ 0 → 2 + 7 < 10 ^ d := fun d hd =>
    Nat.lt_of_lt_of_le (by decide : 2 + 7 < 10) (Nat.le_self_pow hd 10)
  exact ⟨g, hlines (hsmall 4297 (by decide)), hgraph⟩

end TraceLift
