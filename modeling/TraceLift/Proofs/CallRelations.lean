/-
# The relations of calls

The logic program that reads the relations declares the four relations of calls alike, with the
twelve columns of `callColumns`.  The rows are made elsewhere, from the number of operands that the
table of opcodes gives, and there `DELEGATECALL` and `STATICCALL` have one operand less: they
transfer no value.

* **Reading back** (`read_listings`).  All fields of these relations are bare, so that cutting the
  text at line feeds and tabs gives the rows that were written.
* **Columns** (`Shape.fits`).  A row gives the columns of `writtenOperands` their values, which
  are the declared ones for `CALL` and `CALLCODE`, and lack the value for the other two.
-/
import Mathlib.Data.List.Forall2
import TraceLift.Proofs.OperandTables

namespace TraceLift

open Text.Tsv

/-! ## 1. Columns -/

/-- The operands that are declared for a call. -/
def callOperands : List String :=
  ["gas", "target", "value", "data_start", "data_length", "return_start", "return_length"]

/-- The columns of a call with the given operands. -/
def callColumns (operands : List String) : List String :=
  "stmt" :: operands ++ ["success", "loc", "call_depth", "call_number"]

/-- The opcodes whose relations are declared with these columns. -/
def callNames : List String := ["CALL", "CALLCODE", "DELEGATECALL", "STATICCALL"]

/-- Those of them that transfer a value. -/
def valueCalls : List String := ["CALL", "CALLCODE"]

/-- The operands that a row of an opcode has. -/
def writtenOperands (x : String) : List String :=
  if x ∈ valueCalls then callOperands else callOperands.erase "value"

/-- What an operation that is a call says in each column. -/
def TacOp.callRecord (operands : List String) (t : TacOp) (success : VarId) :
    List (String × String) :=
  ("stmt", Text.hex t.pc) :: operands.zip t.labels ++
    [("success", varName success), ("loc", numberField t.loc?),
      ("call_depth", numberField t.depth?), ("call_number", numberField t.number?)]

/-- A row has exactly the columns of a call with the given operands, and in each of them what the
operation says there. -/
structure Fits (operands : List String) (t : TacOp) (row : List String) : Prop where
  length : row.length = (callColumns operands).length
  record : ∃ success ∈ t.target?, (callColumns operands).zip row = t.callRecord operands success

/-- The opcode table has an operand for each column that is written. -/
theorem pops_of_callNames : ∀ op ∈ Opcode.table, op.name ∈ callNames →
    op.pops = (writtenOperands op.name).length ∧ op.pushes = 1 := by decide +kernel

theorem TacOp.fits_of_counts {t : TacOp} {operands : List String} {success : VarId}
    (hargs : t.args.length = operands.length) (htarget : t.target? = some success) :
    Fits operands t t.listing.fields := by
  have hlabels : operands.length = t.labels.length := by rw [labels, List.length_map, hargs]
  have hfields : t.listing.fields = Text.hex t.pc :: (t.labels ++ [varName success,
      numberField t.loc?, numberField t.depth?, numberField t.number?]) := by
    simp [listing, OperandRow.fields, htarget]
  constructor
  · rw [hfields, callColumns]
    simp [hlabels]
  · refine ⟨success, htarget, ?_⟩
    rw [hfields, callColumns, List.cons_append, List.zip_cons_cons, List.zip_append hlabels]
    rfl

/-- **Columns.** -/
theorem TacOp.Shape.fits {t : TacOp} (h : t.Shape) (hx : t.opcode.name ∈ callNames) :
    Fits (writtenOperands t.opcode.name) t t.listing.fields := by
  cases h with
  | constant hopcode => exact absurd (hopcode ▸ hx) (by decide)
  | unknown code _ hopcode => exact absurd (hopcode ▸ hx) (by simp [Opcode.standIn, callNames])
  | log hopcode => exact absurd (hopcode ▸ hx) (by decide)
  | counted hmem hconst hargs htarget =>
    obtain ⟨hpops, hpushes⟩ := pops_of_callNames _ hmem hx
    rw [hpushes] at htarget
    cases hsuccess : t.target? with
    | none => exact absurd htarget (by simp [hsuccess])
    | some success => exact fits_of_counts (by omega) hsuccess

/-- Without the value a row is one column short. -/
theorem length_callColumns_written {x : String} :
    (callColumns (writtenOperands x)).length = (callColumns callOperands).length ↔
      x ∈ valueCalls := by
  unfold writtenOperands
  split
  · simp [*]
  · simp only [*, iff_false]
    decide

/-! ## 2. The relations -/

theorem Graph.lookup_relationFiles {g : Graph} {opcodes : List String} {flow : FlowFacts}
    {x : String} (hx : x ∈ opcodes) :
    (g.relationFiles opcodes flow).lookup (opcodeFile x) =
      some (file (((g.ops.filter (·.opcode.name == x)).map (·.listing)).map (·.fields))) := by
  refine lookup_of_mem nodup_relationFiles (List.mem_append_left _ (List.mem_cons_of_mem _ ?_))
  exact List.mem_map.mpr ⟨x, List.mem_eraseDups.mpr hx, rfl⟩

/-- **The columns of calls.**  For every trace whose graph can be made and every list of names that
has the four calls: the file of each of them can be read back, and has a row for each operation of
that name, in order, with the columns that are written.  All rows have the number of columns that is
declared exactly if the call transfers a value or there is no such operation. -/
theorem call_relations_declared_iff (ops : List TraceOp) (hlegal : ∀ op ∈ ops, op.opcode.Legal)
    {g : Graph} (hg : Graph.ofTrace ops = .ok g) (opcodes : List String)
    (hopcodes : ∀ x ∈ opcodes, Graph.Usable x) (hcalls : ∀ x ∈ callNames, x ∈ opcodes) :
    ∃ files, g.factFiles opcodes = .ok files ∧ ∀ x ∈ callNames, ∃ text,
      files.lookup (Graph.opcodeFile x) = some text ∧
      List.Forall₂ (Fits (writtenOperands x)) (g.ops.filter (·.opcode.name == x)) (read text) ∧
      ((∀ row ∈ read text, row.length = (callColumns callOperands).length) ↔
        x ∈ valueCalls ∨ ∀ r ∈ g.opRows, r.opcode ≠ x) := by
  have hread := Graph.readable_of_ofTrace hg
  obtain ⟨flow, hflow, -⟩ := hread.flowFacts_eq
  refine ⟨_, hread.factFiles_eq hopcodes hflow, fun x hx =>
    ⟨_, Graph.lookup_relationFiles (hcalls x hx), ?_⟩⟩
  have hfits : ∀ t ∈ g.ops.filter (·.opcode.name == x),
      Fits (writtenOperands x) t t.listing.fields := by
    intro t ht
    obtain ⟨hmem, hname⟩ := List.mem_filter.mp ht
    obtain rfl := beq_iff_eq.mp hname
    exact (hread.shape_of_mem hlegal hmem).fits hx
  rw [TacOp.read_listings, List.map_map]
  refine ⟨List.forall₂_map_right_iff.mpr (List.forall₂_same.mpr hfits), ?_⟩
  rw [List.forall_mem_map]
  constructor
  · intro hall
    refine or_iff_not_imp_right.mpr fun hsome => ?_
    -- the row of an operation of that name tells
    obtain ⟨r, hr, hname⟩ : ∃ r ∈ g.opRows, r.opcode = x := by simpa using hsome
    obtain ⟨t, ht, rfl⟩ := List.mem_map.mp hr
    have hmem : t ∈ g.ops.filter (·.opcode.name == x) :=
      List.mem_filter.mpr ⟨ht, beq_iff_eq.mpr hname⟩
    exact length_callColumns_written.mp ((hfits t hmem).length.symm.trans (hall t hmem))
  · rintro (hvalue | hnone) t ht
    · exact (hfits t ht).length.trans (length_callColumns_written.mpr hvalue)
    · obtain ⟨ht, hname⟩ := List.mem_filter.mp ht
      exact absurd (beq_iff_eq.mp hname) (hnone _ (List.mem_map_of_mem ht))

/-- The rows of a file of relations, if all goes well. -/
def rowsInFile (ops : List TraceOp) (opcodes : List String) (name : String) :
    Option (List (List String)) := do
  let g ← (Graph.ofTrace ops).toOption
  let files ← (g.factFiles opcodes).toOption
  return read (← files.lookup name)

theorem exists_of_rowsInFile {ops : List TraceOp} {opcodes : List String} {name : String}
    {rows : List (List String)} (h : rowsInFile ops opcodes name = some rows) :
    ∃ g files text, Graph.ofTrace ops = .ok g ∧ g.factFiles opcodes = .ok files ∧
      files.lookup name = some text ∧ read text = rows := by
  have hok : ∀ {α : Type} {x : Except Fault α} {a : α}, x.toOption = some a → x = .ok a := by
    rintro α (e | b) a ha
    · exact absurd ha (by simp [Except.toOption])
    · exact congrArg Except.ok (Option.some.inj ha)
  obtain ⟨g, hg, h⟩ := Option.bind_eq_some_iff.mp h
  obtain ⟨files, hfiles, h⟩ := Option.bind_eq_some_iff.mp h
  obtain ⟨text, htext, h⟩ := Option.bind_eq_some_iff.mp h
  exact ⟨g, files, text, hok hg, hok hfiles, htext, Option.some.inj h⟩

/-- A call that transfers a value, and one that does not. -/
def callsBothWays : List TraceOp :=
  [{ pc := 0, opcode := .call, value := some 1 }, { pc := 0, opcode := .stop },
    { pc := 1, opcode := .staticcall, value := some 1 }, { pc := 0, opcode := .stop },
    { pc := 2, opcode := .stop }]

theorem declared_callsBothWays : (∀ op ∈ callsBothWays, op.opcode.Legal) ∧
    (∀ x ∈ callNames, Graph.Usable x) ∧
    ∃ g files text, Graph.ofTrace callsBothWays = .ok g ∧ g.factFiles callNames = .ok files ∧
      files.lookup "op_CALL.facts" = some text ∧
      read text = [["0x0", "S0", "S1", "S2", "S3", "S4", "S5", "S6", "V0", "0", "1", "0"]] ∧
      List.Forall₂ (Fits callOperands) (g.ops.filter (·.opcode.name == "CALL")) (read text) := by
  have hlegal : ∀ op ∈ callsBothWays, op.opcode.Legal := by decide +kernel
  have husable : ∀ x ∈ callNames, Graph.Usable x := by decide +kernel
  obtain ⟨g, files, text, hg, hfiles, htext, hrows⟩ := exists_of_rowsInFile
    (show rowsInFile callsBothWays callNames "op_CALL.facts" = some
      [["0x0", "S0", "S1", "S2", "S3", "S4", "S5", "S6", "V0", "0", "1", "0"]] by decide +kernel)
  obtain ⟨files', hfiles', hcolumns⟩ :=
    call_relations_declared_iff callsBothWays hlegal hg callNames husable (fun _ => id)
  obtain rfl : files = files' := Except.ok.inj (hfiles.symm.trans hfiles')
  obtain ⟨text', htext', hfits, -⟩ := hcolumns "CALL" (by decide)
  obtain rfl : text = text' := Option.some.inj (htext.symm.trans htext')
  exact ⟨hlegal, husable, g, files, text, hg, hfiles, htext, hrows, hfits⟩

/-- The row of the other call has eleven columns, not the twelve that are declared. -/
theorem not_declared_callsBothWays : ∃ g files text, Graph.ofTrace callsBothWays = .ok g ∧
    g.factFiles callNames = .ok files ∧ files.lookup "op_STATICCALL.facts" = some text ∧
      read text = [["0x1", "V0", "S7", "S8", "S9", "S10", "S11", "V1", "2", "1", "1"]] ∧
      ¬ ∀ row ∈ read text, row.length = (callColumns callOperands).length := by
  obtain ⟨g, files, text, hg, hfiles, htext, hrows⟩ := exists_of_rowsInFile
    (show rowsInFile callsBothWays callNames "op_STATICCALL.facts" = some
      [["0x1", "V0", "S7", "S8", "S9", "S10", "S11", "V1", "2", "1", "1"]] by decide +kernel)
  refine ⟨g, files, text, hg, hfiles, htext, hrows, ?_⟩
  rw [hrows]
  decide

end TraceLift
