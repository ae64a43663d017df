/-
# Single assignment

In the relations of a graph every variable is defined once, in the order of the numbers, and every
use of a variable comes after its definition in the trace.  What else is used is an item of a
frame's entry stack, or the recorded value of a code that the table does not have.

Both halves are read off the lifting of the trace.  Its results are numbered in order, so the `k`-th
definition is that of `Vk`; an operation that uses variable `k` was converted when more than `k`
variables were bound, so variable `k` is the result of an operation before it, and positions ascend
along the operations.
-/
import TraceLift.Proofs.Outline
import TraceLift.Proofs.Rows

namespace TraceLift

open Conversion

/-! ## 1. Definitions -/

/-- The definitions name the results of the operations. -/
theorem names_defs (tacs : List TacOp) :
    (tacs.flatMap (·.defs)).map (·.name) = (Conversion.targets tacs).map varName := by
  induction tacs with
  | nil => rfl
  | cons t tacs ih =>
    rw [List.flatMap_cons, List.map_append, ih, t.names_defs, targets_cons, List.map_append,
      Option.toList_map]

theorem nodup_varNames (n : Nat) : ((List.range n).map varName).Nodup := by
  rw [List.nodup_iff_pairwise_ne, List.pairwise_map]
  exact List.nodup_range.imp fun hne heq => hne (varName_injective heq)

/-! ## 2. Uses -/

/-- What a row of the uses can be about, given the trace and the definitions. -/
inductive UseRow.Justified (ops : List TraceOp) (defs : List DefRow) (u : UseRow) : Prop
  /-- A variable with one definition, which comes before. -/
  | bound (k i j : Nat) (d : DefRow) (hname : u.name = varName k)
      (honly : (defs.filter fun d => d.name = u.name) = [d]) (hdef : d.loc = some i)
      (huse : u.loc = some j) (hbefore : i < j)
  /-- An item of the entry stack. -/
  | entry (position : Nat) (hname : u.name = "S" ++ toString position)
  /-- The recorded value of an unknown code. -/
  | literal (i : Nat) (op : TraceOp) (hname : u.name = Operand.literalName) (huse : u.loc = some i)
      (hop : ops[i]? = some op) (hmissing : op.opcode.isMissing = true)

/-- An operation of a block is the one at its position in the trace. -/
theorem getElem?_of_mem_blocksOf {ops : List TraceOp} {op : PlacedOp}
    (h : op ∈ (blocksOf ops).flatMap (·.ops)) : ops[op.place.loc]? = some op.toTraceOp := by
  obtain ⟨b, hb, hop⟩ := List.mem_flatMap.mp h
  obtain ⟨m, hm, hop, hplace, -⟩ := mem_ops_blocksOf hb hop
  rw [hplace, hop, ← map_op_marks ops, List.getElem?_map, hm, Option.map_some]

namespace Graph.Readable

variable {g : Graph} {ops : List TraceOp}

/-- The positions of the operations ascend. -/
theorem ascending (h : g.Readable ops) : (g.ops.filterMap (·.loc?)).Pairwise (· < ·) := by
  have hlocs := h.lifted.locs
  rw [locs_blocksOf] at hlocs
  exact List.pairwise_lt_range.sublist hlocs

theorem names_defs (h : g.Readable ops) : (g.ops.flatMap (·.defs)).map (·.name) =
    (List.range g.machine.store.size).map varName := by
  rw [TraceLift.names_defs, h.lifted.targets.2, Nat.sub_zero, ← List.range_eq_range']

/-- **Defined before used.**  A variable that an operation uses is the result of an operation with
a smaller position. -/
theorem defined_before (h : g.Readable ops) {pre post : List TacOp} {t : TacOp}
    (hsplit : g.ops = pre ++ t :: post) {j m k : Nat} (hloc : t.loc? = some j)
    (hpre : Conversion.targets pre = List.range m) (hk : k < m) :
    ∃ d ∈ g.ops, d.target? = some k ∧ ∃ i, d.loc? = some i ∧ i < j := by
  have hmem : k ∈ Conversion.targets pre := hpre ▸ List.mem_range.mpr hk
  obtain ⟨d, hd, htarget⟩ := List.mem_filterMap.mp hmem
  have hdg : d ∈ g.ops := hsplit ▸ List.mem_append_left _ hd
  refine ⟨d, hdg, htarget, ?_⟩
  rcases h.lifted.cases_of_mem hdg with hfills | ⟨n, op, -, -, hy⟩
  · rw [hfills.target] at htarget
    exact absurd htarget (by simp)
  · refine ⟨op.place.loc, by rw [TacOp.loc?, hy.place, Option.map_some], ?_⟩
    have hascending := h.ascending
    rw [hsplit, List.pairwise_filterMap, List.pairwise_append] at hascending
    refine hascending.2.2 d hd t List.mem_cons_self op.place.loc ?_ j hloc
    rw [TacOp.loc?, hy.place, Option.map_some]

theorem justified (h : g.Readable ops) {u : UseRow} (hu : u ∈ g.ops.flatMap (·.uses)) :
    u.Justified ops (g.ops.flatMap (·.defs)) := by
  obtain ⟨t, ht, hu⟩ := List.mem_flatMap.mp hu
  obtain ⟨hconst, huloc, a, ha, hname⟩ := TacOp.mem_uses hu
  obtain ⟨pre, post, hsplit⟩ := List.append_of_mem ht
  have hlifted := h.lifted
  rw [hsplit] at hlifted
  rcases hlifted.cases_of_split with hfills | ⟨m, op, hop, hpre, -, hy⟩
  · rw [hfills.args] at ha
    exact absurd ha (List.not_mem_nil)
  have hloc : t.loc? = some op.place.loc := by rw [TacOp.loc?, hy.place, Option.map_some]
  rw [hloc] at huloc
  by_cases hliteral : op.opcode.isPush = true ∨ op.opcode.isMissing = true
  · -- the operand is written in the code: not that of a push, which is a constant by now
    obtain ⟨w, hw⟩ := hy.literal hliteral
    rw [hw, List.mem_singleton] at ha
    rw [ha] at hname
    rcases hliteral with hpush | hmissing
    · rw [hy.opcode, tacOpcode, if_pos hpush] at hconst
      exact absurd hconst (by decide)
    · exact .literal _ op.toTraceOp hname huloc (getElem?_of_mem_blocksOf hop) hmissing
  · have hstacked := (hy.stacked hliteral).2 a ha
    cases a with
    | literal | blank => exact hstacked.elim
    | entry position => exact .entry position hname
    | var k =>
      obtain ⟨d, hd, htarget, i, hi, hbefore⟩ := h.defined_before hsplit hloc hpre hstacked
      have hrow : ⟨varName k, d.pc, d.loc?, d.depth?, d.number?⟩ ∈ g.ops.flatMap (·.defs) :=
        List.mem_flatMap.mpr ⟨d, hd, by simp [TacOp.defs, htarget]⟩
      refine .bound k i op.place.loc ⟨varName k, d.pc, d.loc?, d.depth?, d.number?⟩ hname ?_ hi
        huloc hbefore
      rw [hname]
      exact filter_eq_of_nodup (h.names_defs ▸ nodup_varNames _) hrow

end Graph.Readable

/-! ## 3. The relations -/

open Text.Tsv

/-- **Single assignment.**  For every trace whose graph can be made the relations exist, and their
rows are read back from their files, column by column.  The `k`-th row of the definitions is for
`Vk`, every name that is used is justified, and every variable that has a value has a definition. -/
theorem facts_single_assignment {ops : List TraceOp} {g : Graph} (hg : Graph.ofTrace ops = .ok g) :
    ∃ flow, g.flowFacts = .ok flow ∧
      g.flowFiles = .ok [("def.facts", file (flow.defs.map (·.fields))),
        ("use.facts", file (flow.uses.map (·.fields))),
        ("value.facts", file (flow.values.map (·.fields)))] ∧
      read (file (flow.defs.map (·.fields))) = (flow.defs.map fun d =>
        [d.name, Text.hex d.pc, numberField d.loc, numberField d.depth, numberField d.number]) ∧
      read (file (flow.uses.map (·.fields))) = (flow.uses.map fun u =>
        [u.name, Text.hex u.pc, toString u.position, numberField u.loc, numberField u.depth,
          numberField u.number]) ∧
      read (file (flow.values.map (·.fields))) = (flow.values.map fun v =>
        [v.name, Text.hex v.value]) ∧
      flow.defs.map (·.name) = (List.range flow.defs.length).map varName ∧
      (flow.defs.map (·.name)).Nodup ∧
      (∀ u ∈ flow.uses, u.Justified ops flow.defs) ∧
      ∀ v ∈ flow.values, ∃ d ∈ flow.defs, d.name = v.name := by
  have hread := Graph.readable_of_ofTrace hg
  obtain ⟨flow, hflow, hdefs, huses, hvalues⟩ := hread.flowFacts_eq
  have hnames := hread.names_defs
  rw [← hdefs] at hnames
  have hlength : flow.defs.length = g.machine.store.size := by
    simpa using congrArg List.length hnames
  obtain ⟨hreadDefs, hreadUses, hreadValues⟩ := hread.read_flow hflow
  refine ⟨flow, hflow, ?_, hreadDefs, hreadUses, hreadValues, ?_, ?_, ?_, ?_⟩
  · rw [Graph.flowFiles, hflow]
    rfl
  · rw [hlength, hnames]
  · rw [hnames]
    exact nodup_varNames _
  · intro u hu
    rw [hdefs]
    exact hread.justified (huses ▸ hu)
  · intro v hv
    obtain ⟨t, ht, hrow⟩ := List.mem_flatMap.mp (hvalues ▸ hv)
    have hname := TacOp.name_of_mem_valueRows hrow
    rw [TacOp.resultName?_eq hread.numbered (hread.within ht), Option.map_eq_some_iff] at hname
    obtain ⟨k, htarget, hk⟩ := hname
    rw [hdefs]
    exact ⟨_, List.mem_flatMap.mpr ⟨t, ht, List.mem_map_of_mem (Option.mem_toList.mpr htarget)⟩, hk⟩

/-- A sum of a constant and an unknown item, and then a code that the table does not have. -/
def unknownCode : List TraceOp :=
  [{ pc := 0, opcode := .push 1, value := some 5 }, { pc := 2, opcode := .add },
    { pc := 3, opcode := .standIn 0x0c, value := some 7 }]

theorem facts_unknownCode : ∃ g flow, Graph.ofTrace unknownCode = .ok g ∧
    g.flowFacts = .ok flow ∧ flow.defs.map (·.name) = ["V0", "V1"] ∧
    flow.uses.map (·.name) = ["V0", "S0", "C"] ∧
    read (file (flow.uses.map (·.fields))) = [["V0", "0x2", "1", "1", "1", "0"],
      ["S0", "0x2", "2", "1", "1", "0"], ["C", "0x3", "1", "2", "1", "0"]] ∧
    ∀ u ∈ flow.uses, u.Justified unknownCode flow.defs := by
  have hnames : (((Graph.ofTrace unknownCode).bind (·.flowFacts)).toOption.map fun flow =>
      (flow.defs.map (·.name), flow.uses.map (·.name), flow.uses.map (·.fields))) =
        some (["V0", "V1"], ["V0", "S0", "C"], [["V0", "0x2", "1", "1", "1", "0"],
          ["S0", "0x2", "2", "1", "1", "0"], ["C", "0x3", "1", "2", "1", "0"]]) := by
    decide +kernel
  cases hg : Graph.ofTrace unknownCode with
  | error e => simp [hg, Except.bind, Except.toOption] at hnames
  | ok g =>
    obtain ⟨flow, hflow, -, -, hread, -, -, -, huses, -⟩ := facts_single_assignment hg
    rw [hg, Except.bind, hflow, Except.toOption, Option.map_some, Option.some.injEq,
      Prod.mk.injEq, Prod.mk.injEq] at hnames
    obtain ⟨hdefs, hnames, hfields⟩ := hnames
    exact ⟨g, flow, rfl, hflow, hdefs, hnames, hread.trans hfields, huses⟩

end TraceLift
