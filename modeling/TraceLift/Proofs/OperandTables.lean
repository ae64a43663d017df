/-
# The relations of opcodes

For each opcode that was asked for there is a relation with one row to an operation.  This module
says that the rows are those of the operations of that opcode, in the order of the relation of all
operations, that they all have the number of columns that the opcode calls for, and that their names
are those that the relations of uses and definitions give for the same position of the trace.

* **Shape** (`shape_of_mem`).  An operation of a graph is a constant with its word, an unknown code
  with its recorded value, a log, or an opcode of the table with as many operands and results as the
  table says.  A `CONST` in the trace itself would have neither a word nor a result; the pass over
  the operations does not survive it (`bound_of_run`).
* **Position** (`filter_flatMap_at`).  Different operations that have rows have different positions,
  so the rows at the position of an operation are the rows of that operation.
-/
import TraceLift.Proofs.FactFiles
import TraceLift.Proofs.SingleAssignment

namespace TraceLift

open Conversion

/-! ## 1. The shape of an operation -/

/-- What an operation of a graph looks like. -/
inductive TacOp.Shape (t : TacOp) : Prop
  | constant (hopcode : t.opcode = Opcode.const) (hargs : t.labels = [Operand.literalName])
      (htarget : t.target?.toList.length = 1)
  | unknown (code : Int) (hcode : Opcode.ofCode? code = none)
      (hopcode : t.opcode = Opcode.standIn code) (hargs : t.args.length = 1)
      (htarget : t.target? = none)
  | log (hopcode : t.opcode = Opcode.log)
  | counted (hmem : t.opcode ∈ Opcode.table) (hconst : t.opcode ≠ Opcode.const)
      (hargs : (t.args.length : Int) = t.opcode.pops)
      (htarget : (t.target?.toList.length : Int) = t.opcode.pushes)

/-- A constant that was carried out has a result. -/
theorem Machine.bound_of_run : ∀ {ops : List TacOp} {m m' : Machine}, m.run false ops = (m', none) →
    ∀ t ∈ ops, t.opcode = Opcode.const → t.target? ≠ none
  | [], _, _, _ => fun t ht => absurd ht (List.not_mem_nil)
  | op :: ops, m, m', h => by
    rw [run] at h
    split at h
    · rename_i m₁ hstep
      intro t ht hconst
      rcases List.mem_cons.mp ht with rfl | ht
      · obtain ⟨_, _, -, -, hassign⟩ := step_const (by rw [hconst]; rfl) hstep
        obtain ⟨b, _, _, hb, -⟩ := assignResult_ok hassign
        simp [TacOp.target?, hb]
      · exact bound_of_run h t ht hconst
    · exact absurd h (by simp)

/-- What is neither copied nor exchanged takes and leaves a number of items, one at most. -/
theorem Opcode.counts_of_mem_table : ∀ op ∈ table, op.isSwap = false → op.isDup = false →
    0 ≤ op.pops ∧ (op.pushes = 0 ∨ op.pushes = 1) := by decide +kernel

theorem Conversion.Yields.shape {n : Nat} {op : PlacedOp} {t : TacOp} (h : Yields n op t)
    (hlegal : op.opcode.Legal) (hbound : t.opcode = Opcode.const → t.target? ≠ none) : t.Shape := by
  have htarget := h.target
  by_cases hpush : op.opcode.isPush = true
  · obtain ⟨w, hw⟩ := h.literal (.inl hpush)
    rw [if_pos (hlegal.push_counts hpush).2] at htarget
    refine .constant ?_ ?_ ?_
    · rw [h.opcode, tacOpcode, if_pos hpush]
    · rw [TacOp.labels, hw]
      rfl
    · rw [htarget]
      rfl
  by_cases hmissing : op.opcode.isMissing = true
  · obtain ⟨w, hw⟩ := h.literal (.inr hmissing)
    rw [(hlegal.missing_counts hmissing).2, if_neg (by decide)] at htarget
    rcases hlegal with hmem | ⟨hnone, hop⟩
    · rw [Opcode.not_isMissing_of_mem_table _ hmem] at hmissing
      exact absurd hmissing (by simp)
    · obtain ⟨-, -, -, hlog, -⟩ := Opcode.no_family_of_unknown hnone
      refine .unknown op.opcode.code hnone ?_ ?_ htarget
      · rw [h.opcode, tacOpcode, if_neg hpush, hlog, if_neg Bool.false_ne_true]
        exact hop
      · rw [hw]
        rfl
  by_cases hlog : op.opcode.isLog = true
  · refine .log ?_
    rw [h.opcode, tacOpcode, if_neg hpush, if_pos hlog]
  -- what is left keeps its opcode, and the table says how many items it takes and leaves
  have hopcode : t.opcode = op.opcode := by
    rw [h.opcode, tacOpcode, if_neg hpush, if_neg hlog]
  have hmem : op.opcode ∈ Opcode.table := hlegal.mem_table (by simpa using hmissing)
  obtain ⟨hpops, hpushes⟩ := Opcode.counts_of_mem_table _ hmem h.acts.1 h.acts.2.1
  obtain ⟨hlength, -⟩ := h.stacked (fun hor => hor.elim hpush hmissing)
  refine .counted (hopcode ▸ hmem) ?_ ?_ ?_
  · intro hconst
    refine hbound hconst ?_
    rw [htarget, ← hopcode, hconst]
    rfl
  · rw [hlength, hopcode]
    exact Int.toNat_of_nonneg hpops
  · rw [hopcode, htarget]
    rcases hpushes with hpushes | hpushes <;> rw [hpushes] <;> rfl

/-- **Shape.** -/
theorem Graph.Readable.shape_of_mem {g : Graph} {ops : List TraceOp} (h : g.Readable ops)
    (hlegal : ∀ op ∈ ops, op.opcode.Legal) {t : TacOp} (ht : t ∈ g.ops) : t.Shape := by
  rcases h.lifted.cases_of_mem ht with hfills | ⟨n, op, hop, -, hy⟩
  · refine .counted ?_ ?_ ?_ ?_
    · rw [hfills.opcode]
      decide +kernel
    · rw [hfills.opcode]
      decide
    · rw [hfills.args, hfills.opcode]
      rfl
    · rw [hfills.target, hfills.opcode]
      rfl
  · obtain ⟨m, hrun⟩ := h.pass
    obtain ⟨b, hb, hop⟩ := List.mem_flatMap.mp hop
    have hlegalOp := hlegal _ (toTraceOp_mem_of_mem_blocksOf hb hop)
    exact hy.shape hlegalOp (Machine.bound_of_run hrun t ht)

/-! ## 2. The number of columns -/

/-- The number of columns of an opcode's relation: the program counter, the operands and the
results, and the place in the trace. -/
def Opcode.columns (x : String) : Int :=
  if x = const.name then 6
  else if x = "MISSING" then 5
  else
    match table.find? (·.name == x) with
    | some op => 4 + op.pops + op.pushes
    | none => 0

theorem Opcode.find?_name : ∀ op ∈ table, table.find? (·.name == op.name) = some op := by
  decide +kernel

theorem Opcode.name_ne_missing : ∀ op ∈ table, op.name ≠ "MISSING" := by decide +kernel

/-- No other opcode of the table is called like a constant. -/
theorem Opcode.name_ne_const {op : Opcode} (hmem : op ∈ table) (hconst : op ≠ const) :
    op.name ≠ const.name := by
  intro heq
  have hfind := find?_name op hmem
  rw [heq, find?_name const (by decide +kernel)] at hfind
  exact hconst (Option.some.inj hfind).symm

/-- The number of columns of an opcode that the table has. -/
theorem Opcode.columns_of_mem_table {op : Opcode} (hmem : op ∈ table) (hconst : op ≠ const) :
    columns op.name = 4 + op.pops + op.pushes := by
  rw [columns, if_neg (name_ne_const hmem hconst), if_neg (name_ne_missing op hmem),
    find?_name op hmem]

theorem TacOp.length_fields_listing (t : TacOp) :
    t.listing.fields.length = 4 + t.args.length + t.target?.toList.length := by
  have hresult : (t.target?.map varName).toList.length = t.target?.toList.length := by
    cases t.target? <;> rfl
  simp only [listing, OperandRow.fields, List.cons_append, List.length_cons, List.length_append,
    hresult, labels, List.length_map, List.length_nil]
  omega

/-- Every row but that of a log has the columns that its opcode calls for. -/
theorem TacOp.Shape.columns {t : TacOp} (h : t.Shape) (hlog : t.opcode.name ≠ Opcode.log.name) :
    (t.listing.fields.length : Int) = Opcode.columns t.opcode.name := by
  rw [t.length_fields_listing]
  cases h with
  | constant hopcode hargs htarget =>
    have hlength : t.args.length = 1 := by
      simpa [TacOp.labels] using congrArg List.length hargs
    rw [hopcode, hlength, htarget]
    decide
  | unknown code _ hopcode hargs htarget =>
    rw [hopcode, hargs, htarget]
    rfl
  | log hopcode => exact absurd (congrArg Opcode.name hopcode) hlog
  | counted hmem hconst hargs htarget =>
    rw [Opcode.columns_of_mem_table hmem hconst, ← hargs, ← htarget]
    push_cast
    rfl

/-- An operation is called a constant exactly if it is one, and then it has its word. -/
theorem TacOp.Shape.const_cases {t : TacOp} (h : t.Shape) :
    (t.opcode.name = Opcode.const.name ∧ t.labels = [Operand.literalName]) ∨
      (t.opcode.name ≠ Opcode.const.name ∧ t.opcode.same Opcode.const = false) := by
  cases h with
  | constant hopcode hargs => exact .inl ⟨congrArg Opcode.name hopcode, hargs⟩
  | unknown code hcode hopcode =>
    refine .inr ?_
    rw [hopcode, Opcode.same, beq_eq_false_iff_ne]
    refine ⟨by simp [Opcode.standIn, Opcode.const], ?_⟩
    rintro rfl
    exact absurd hcode (by decide +kernel)
  | log hopcode =>
    rw [hopcode]
    exact .inr (by decide)
  | counted hmem hconst =>
    have hcodes : ∀ op ∈ Opcode.table, op ≠ Opcode.const → op.same Opcode.const = false := by
      decide +kernel
    exact .inr ⟨Opcode.name_ne_const hmem hconst, hcodes _ hmem hconst⟩

/-! ## 3. Rows of one position -/

/-- **Position.**  If positions ascend and only operations that have one have rows, the rows at the
position of an operation are its own. -/
theorem filter_flatMap_at {α : Type} {rows : TacOp → List α} {loc : α → Option Nat}
    {tacs : List TacOp} (hloc : ∀ t, ∀ r ∈ rows t, loc r = t.loc?)
    (hplaced : ∀ t ∈ tacs, t.loc? = none → rows t = [])
    (hascending : (tacs.filterMap (·.loc?)).Pairwise (· < ·)) {t : TacOp} (ht : t ∈ tacs) :
    ((tacs.flatMap rows).filter fun r => loc r = t.loc?) = rows t := by
  obtain ⟨pre, post, rfl⟩ := List.append_of_mem ht
  rw [List.pairwise_filterMap, List.pairwise_append, List.pairwise_cons] at hascending
  obtain ⟨-, ⟨hafter, -⟩, hbefore⟩ := hascending
  -- an operation before or after has no row here
  have hother : ∀ t' ∈ pre ++ post, ((rows t').filter fun r => loc r = t.loc?) = [] := by
    intro t' ht'
    rw [List.filter_eq_nil_iff]
    intro r hr heq
    have hsame : t'.loc? = t.loc? := (hloc t' r hr).symm.trans (of_decide_eq_true heq)
    cases hi : t.loc? with
    | none =>
      have hmem : t' ∈ pre ++ t :: post := by
        rcases List.mem_append.mp ht' with h | h
        · exact List.mem_append_left _ h
        · exact List.mem_append_right _ (List.mem_cons_of_mem _ h)
      rw [hplaced t' hmem (hsame.trans hi)] at hr
      exact absurd hr (List.not_mem_nil)
    | some i =>
      rcases List.mem_append.mp ht' with h | h
      · exact absurd (hbefore t' h t List.mem_cons_self i (hsame.trans hi) i hi) (Nat.lt_irrefl i)
      · exact absurd (hafter t' h i hi i (hsame.trans hi)) (Nat.lt_irrefl i)
  have hnone : ∀ l : List TacOp, (∀ t' ∈ l, t' ∈ pre ++ post) →
      ((l.flatMap rows).filter fun r => loc r = t.loc?) = [] := by
    intro l hl
    rw [List.filter_flatMap, List.flatMap_eq_nil_iff]
    exact fun t' ht' => hother t' (hl t' ht')
  have hown : ((rows t).filter fun r => loc r = t.loc?) = rows t :=
    List.filter_eq_self.mpr fun r hr => decide_eq_true (hloc t r hr)
  rw [List.flatMap_append, List.flatMap_cons, List.filter_append, List.filter_append,
    hnone pre fun _ => List.mem_append_left _, hnone post fun _ => List.mem_append_right _, hown,
    List.nil_append, List.append_nil]

namespace Graph.Readable

variable {g : Graph} {ops : List TraceOp}

/-- An operation without a position has no operands and no result. -/
theorem fills_of_loc? (h : g.Readable ops) {t : TacOp} (ht : t ∈ g.ops) (hloc : t.loc? = none) :
    t.Fills := by
  rcases h.lifted.cases_of_mem ht with hfills | ⟨n, op, -, -, hy⟩
  · exact hfills
  · rw [TacOp.loc?, hy.place] at hloc
    exact absurd hloc (by simp)

theorem uses_at (h : g.Readable ops) {t : TacOp} (ht : t ∈ g.ops) :
    ((g.ops.flatMap (·.uses)).filter fun u => u.loc = t.loc?) = t.uses := by
  refine filter_flatMap_at (fun t u hu => (TacOp.mem_uses hu).2.1) ?_ h.ascending ht
  intro t ht hloc
  have hfills := h.fills_of_loc? ht hloc
  rw [TacOp.uses, TacOp.labels, hfills.args]
  split <;> rfl

theorem defs_at (h : g.Readable ops) {t : TacOp} (ht : t ∈ g.ops) :
    ((g.ops.flatMap (·.defs)).filter fun d => d.loc = t.loc?) = t.defs := by
  refine filter_flatMap_at (fun t d hd => ?_) ?_ h.ascending ht
  · obtain ⟨k, -, rfl⟩ := List.mem_map.mp hd
    rfl
  · intro t ht hloc
    rw [TacOp.defs, (h.fills_of_loc? ht hloc).target]
    rfl

end Graph.Readable

/-! ## 4. The relations -/

/-- The rows of the relation of an opcode are faithful to the other relations. -/
structure OperandTable (g : Graph) (flow : FlowFacts) (x : String) (rows : List OperandRow) :
    Prop where
  /-- One row for each row of all operations that has the opcode, in the same order. -/
  listed : rows.map (fun r => (r.pc, r.loc)) =
    (g.opRows.filter (·.opcode == x)).map fun r => (r.pc, r.loc)
  /-- Each with the place of its operation. -/
  places : rows.map (fun r => (r.loc, r.depth, r.number)) =
    (g.ops.filter (·.opcode.name == x)).map fun t => (t.loc?, t.depth?, t.number?)
  /-- The rows of an opcode other than `LOG` have one number of columns. -/
  columns : x ≠ Opcode.log.name → ∀ r ∈ rows, (r.fields.length : Int) = Opcode.columns x
  /-- The names are those used at the position and then the one defined there. -/
  names : x ≠ Opcode.const.name → ∀ r ∈ rows, r.names =
    (flow.uses.filter fun u => u.loc = r.loc).map (·.name) ++
      (flow.defs.filter fun d => d.loc = r.loc).map (·.name)
  /-- A constant has its word in place of uses. -/
  constant : x = Opcode.const.name → ∀ r ∈ rows, r.names =
    Operand.literalName :: (flow.defs.filter fun d => d.loc = r.loc).map (·.name)
  /-- The uses are numbered as the operands. -/
  positions : ∀ r ∈ rows, (flow.uses.filter fun u => u.loc = r.loc).map (·.position) =
    List.range' 1 (flow.uses.filter fun u => u.loc = r.loc).length
  /-- At most one name is defined at a position. -/
  result : ∀ r ∈ rows, (flow.defs.filter fun d => d.loc = r.loc).length ≤ 1

theorem TacOp.names_uses {t : TacOp} (h : t.opcode.same Opcode.const = false) :
    t.uses.map (·.name) = t.labels := by
  rw [uses, h, if_neg Bool.false_ne_true]
  exact List.ext_getElem? fun i => by simp [Function.comp_def]

theorem TacOp.positions_uses (t : TacOp) :
    t.uses.map (·.position) = List.range' 1 t.uses.length := by
  unfold uses
  split
  · rfl
  · refine List.ext_getElem (by simp) fun i hi hi' => ?_
    simp [Nat.add_comm]

theorem Graph.Readable.operandTable {g : Graph} {ops : List TraceOp} (h : g.Readable ops)
    (hlegal : ∀ op ∈ ops, op.opcode.Legal) {flow : FlowFacts}
    (hdefs : flow.defs = g.ops.flatMap (·.defs)) (huses : flow.uses = g.ops.flatMap (·.uses))
    (x : String) :
    OperandTable g flow x ((g.ops.filter (·.opcode.name == x)).map (·.listing)) := by
  -- every row is that of an operation, which has the rows at that position to itself
  have hrow : ∀ r ∈ (g.ops.filter (·.opcode.name == x)).map (·.listing),
      ∃ t : TacOp, t.opcode.name = x ∧ t.Shape ∧ r = t.listing ∧
        (flow.uses.filter fun u => u.loc = r.loc) = t.uses ∧
        (flow.defs.filter fun d => d.loc = r.loc) = t.defs := by
    intro r hr
    obtain ⟨t, ht, rfl⟩ := List.mem_map.mp hr
    obtain ⟨ht, hx⟩ := List.mem_filter.mp ht
    refine ⟨t, beq_iff_eq.mp hx, h.shape_of_mem hlegal ht, rfl, ?_, ?_⟩
    · rw [huses]
      exact h.uses_at ht
    · rw [hdefs]
      exact h.defs_at ht
  constructor
  case listed =>
    rw [opRows, List.filter_map, List.map_map, List.map_map]
    rfl
  case places =>
    rw [List.map_map]
    rfl
  case columns =>
    intro hx r hr
    obtain ⟨t, rfl, hshape, rfl, -, -⟩ := hrow r hr
    exact hshape.columns hx
  case names =>
    intro hx r hr
    obtain ⟨t, rfl, hshape, rfl, husesAt, hdefsAt⟩ := hrow r hr
    rw [husesAt, hdefsAt, t.names_defs]
    rcases hshape.const_cases with ⟨hname, -⟩ | ⟨-, hconst⟩
    · exact absurd hname hx
    · rw [TacOp.names_uses hconst]
      rfl
  case constant =>
    intro hx r hr
    obtain ⟨t, rfl, hshape, rfl, -, hdefsAt⟩ := hrow r hr
    rw [hdefsAt, t.names_defs]
    rcases hshape.const_cases with ⟨-, hlabels⟩ | ⟨hname, -⟩
    · rw [TacOp.listing, hlabels]
      rfl
    · exact absurd hx hname
  case positions =>
    intro r hr
    obtain ⟨t, -, -, -, husesAt, -⟩ := hrow r hr
    rw [husesAt]
    exact t.positions_uses
  case result =>
    intro r hr
    obtain ⟨t, -, -, -, -, hdefsAt⟩ := hrow r hr
    rw [hdefsAt, TacOp.defs, List.length_map]
    cases t.target? <;> simp

open Text.Tsv

/-- **The relations of opcodes are faithful.**  For every trace whose graph can be made and every
list of names, known or not, once or several times, as long as they can be part of a file name: all
files are written, each under a name of its own, the file of each name asked for has the rows
that `OperandTable` describes, and the rows are read back from the files, column by column. -/
theorem operand_tables_faithful (ops : List TraceOp) (hlegal : ∀ op ∈ ops, op.opcode.Legal)
    {g : Graph} (hg : Graph.ofTrace ops = .ok g) (opcodes : List String)
    (hopcodes : ∀ x ∈ opcodes, Graph.Usable x) :
    ∃ files flow, g.factFiles opcodes = .ok files ∧ g.flowFacts = .ok flow ∧
      (files.map (·.1)).Nodup ∧
      ("op.facts", file (g.opRows.map (·.fields))) ∈ files ∧
      ("def.facts", file (flow.defs.map (·.fields))) ∈ files ∧
      ("use.facts", file (flow.uses.map (·.fields))) ∈ files ∧
      read (file (g.opRows.map (·.fields))) = (g.opRows.map fun r =>
        [Text.hex r.pc, r.opcode, numberField r.loc]) ∧
      read (file (flow.defs.map (·.fields))) = (flow.defs.map fun d =>
        [d.name, Text.hex d.pc, numberField d.loc, numberField d.depth, numberField d.number]) ∧
      read (file (flow.uses.map (·.fields))) = (flow.uses.map fun u =>
        [u.name, Text.hex u.pc, toString u.position, numberField u.loc, numberField u.depth,
          numberField u.number]) ∧
      ∀ x ∈ opcodes, ∃ rows, OperandTable g flow x rows ∧
        (Graph.opcodeFile x, file (rows.map (·.fields))) ∈ files ∧
        read (file (rows.map (·.fields))) = (rows.map fun r => Text.hex r.pc :: r.names ++
          [numberField r.loc, numberField r.depth, numberField r.number]) := by
  have hread := Graph.readable_of_ofTrace hg
  obtain ⟨flow, hflow, hdefs, huses, -⟩ := hread.flowFacts_eq
  obtain ⟨hreadDefs, hreadUses, -⟩ := hread.read_flow hflow
  refine ⟨g.relationFiles opcodes flow, flow, hread.factFiles_eq hopcodes hflow, hflow,
    Graph.nodup_relationFiles, ?_, ?_, ?_, Graph.read_opRows hlegal hg, hreadDefs, hreadUses, ?_⟩
  · exact List.mem_append_left _ List.mem_cons_self
  · exact List.mem_append_right _ (by simp [Graph.flowRelations])
  · exact List.mem_append_right _ (by simp [Graph.flowRelations])
  · intro x hx
    refine ⟨_, hread.operandTable hlegal hdefs huses x, List.mem_append_left _ ?_,
      TacOp.read_listings _⟩
    exact List.mem_cons_of_mem _ (List.mem_map.mpr ⟨x, List.mem_eraseDups.mpr hx, rfl⟩)

/-- A sum, a store of it, a log and a code that the table does not have. -/
def sumAndLog : List TraceOp :=
  [{ pc := 0, opcode := .push 1, value := some 5 }, { pc := 2, opcode := .dup 1 },
    { pc := 3, opcode := .dup 1 }, { pc := 4, opcode := .add }, { pc := 5, opcode := .swap 1 },
    { pc := 6, opcode := .sstore }, { pc := 7, opcode := .logN 1 },
    { pc := 8, opcode := .standIn 0x0c, value := some 7 }]

theorem operandTable_sumAndLog : (∀ op ∈ sumAndLog, op.opcode.Legal) ∧
    (∀ x ∈ ["ADD", "CONST", "ADD", "WHAT?"], Graph.Usable x) ∧
    ∃ g files flow rows, Graph.ofTrace sumAndLog = .ok g ∧
      g.factFiles ["ADD", "CONST", "ADD", "WHAT?"] = .ok files ∧
      ("op_ADD.facts", file (rows.map (·.fields))) ∈ files ∧
      read (file (rows.map (·.fields))) = rows.map (·.fields) ∧
      OperandTable g flow "ADD" rows ∧ rows.map (fun r => (r.pc, r.loc)) = [(4, some 3)] ∧
      ∀ r ∈ rows, r.fields.length = 7 := by
  have hlegal : ∀ op ∈ sumAndLog, op.opcode.Legal := by decide +kernel
  have husable : ∀ x ∈ ["ADD", "CONST", "ADD", "WHAT?"], Graph.Usable x := by decide +kernel
  refine ⟨hlegal, husable, ?_⟩
  have hrows : ((Graph.ofTrace sumAndLog).toOption.map fun g =>
      (g.opRows.filter (·.opcode == "ADD")).map fun r => (r.pc, r.loc)) = some [(4, some 3)] := by
    decide +kernel
  cases hg : Graph.ofTrace sumAndLog with
  | error e => simp [hg, Except.toOption] at hrows
  | ok g =>
    obtain ⟨files, flow, hfiles, -, -, -, -, -, -, -, -, htables⟩ :=
      operand_tables_faithful sumAndLog hlegal hg ["ADD", "CONST", "ADD", "WHAT?"] husable
    obtain ⟨rows, htable, hmem, hread⟩ := htables "ADD" (by decide)
    rw [hg, Except.toOption, Option.map_some, Option.some.injEq, ← htable.listed] at hrows
    refine ⟨g, files, flow, rows, rfl, hfiles, hmem, hread, htable, hrows, fun r hr => ?_⟩
    have hcolumns := htable.columns (by decide) r hr
    rw [show Opcode.columns "ADD" = 7 by decide +kernel] at hcolumns
    exact Int.ofNat_inj.mp hcolumns

end TraceLift
