/-
# Where results are defined

A result variable that is yet to be computed is made with one definition site: the program counter
of its operation, in the block that is being converted.  A result that the trace recorded gets a
variable of its own, with the recorded value and without a site.  So a result knows where it was
defined exactly if it was not recorded, whatever the trace and the block.

* The recorded results are given here by the opcodes that have them (`recordedFamily`); that these
  are the ones whose value the conversion takes from the trace is a fact about legal opcodes
  (`Legal.recordedFamily_spec`).
* **Conversion** (`sited_of_convertBlocks`).  The block at position `i` is converted when `i` blocks
  have been, and what is converted later does not touch the variables that there are.
* **The pass** gives variables values and never a site (`Sited.revises`).
-/
import TraceLift.Proofs.Closure
import TraceLift.Proofs.Outline
import TraceLift.Proofs.Rows

namespace TraceLift

open Conversion

/-! ## 1. Opcodes whose result is recorded -/

namespace Opcode

/-- The opcodes whose result the trace records: what a load finds, what the environment and the
world say, and how a call or a creation ends. -/
def recordedFamily : List Opcode :=
  [sload, mload, address, origin, caller, callvalue, calldatasize, codesize, gasprice,
    returndatasize, coinbase, timestamp, number, difficulty, gaslimit, pc, msize, gas, sha3, balance,
    calldataload, extcodesize, blockhash, call, callcode, delegatecall, staticcall, create, create2]

/-- **Recorded results.**  The conversion takes the result of a legal opcode from the trace exactly
if the opcode is in the family.  No other opcode is renamed to one of the family, and none of the
family only rearranges the stack. -/
theorem Legal.recordedFamily_spec {op : Opcode} (h : op.Legal) :
    (resultKind op = .known ↔ op ∈ recordedFamily) ∧
      (tacOpcode op ∈ recordedFamily ↔ op ∈ recordedFamily) ∧
      (op ∈ recordedFamily → Acts op) := by
  refine h.rec_on (P := fun op => (resultKind op = .known ↔ op ∈ recordedFamily) ∧
      (tacOpcode op ∈ recordedFamily ↔ op ∈ recordedFamily) ∧
      (op ∈ recordedFamily → Acts op)) ?_ ?_
  · decide +kernel
  · intro code hcode
    have hnames : ∀ op ∈ recordedFamily, op.name ≠ "MISSING" := by decide
    have hout : standIn code ∉ recordedFamily := fun hmem => hnames _ hmem rfl
    have hkind : resultKind (standIn code) = .none :=
      resultKind_eq_none_iff.mpr (show (0 : Int) ≠ 1 by decide)
    have hname : tacOpcode (standIn code) = standIn code :=
      (Legal.lifted_eq (.inr ⟨hcode, rfl⟩)).trans (rearranges_standIn hcode).2
    rw [hkind, hname]
    simp [hout]

end Opcode

/-! ## 2. The sites of a result -/

/-- The definition sites of the variable that receives the result of an operation. -/
def TacOp.resultSites? (store : Store) (t : TacOp) : Option Sites :=
  t.target?.bind fun k => store[k]?.map (·.sites)

/-- The sites that the result of an operation is given: the operation's program counter in its
block, or none if the result is recorded. -/
def TacOp.sitesIn (block : Nat) (t : TacOp) : Sites :=
  if t.opcode ∈ Opcode.recordedFamily then .bottom else .finite [.location (some block) t.pc]

namespace Conversion

/-- The variable that an operation of a block binds has the sites that the operation gives it. -/
def Sited (block : Nat) (t : TacOp) (store : Store) : Prop :=
  ∀ k ∈ t.target?, store[k]?.map (·.sites) = some (t.sitesIn block)

variable {block : Nat} {t : TacOp} {store store' : Store}

theorem Sited.resultSites? (h : Sited block t store) (ht : t.isAssignment = true) :
    t.resultSites? store = some (t.sitesIn block) := by
  obtain ⟨b, hb⟩ := Option.isSome_iff_exists.mp ht
  have htarget : t.target? = some b.target := by rw [TacOp.target?, hb, Option.map_some]
  rw [TacOp.resultSites?, htarget, Option.bind_some, h b.target htarget]

theorem sited_of_unbound (ht : t.target? = none) (store : Store) : Sited block t store := by
  intro k hk
  rw [ht] at hk
  exact absurd hk (by simp)

/-- Adding a variable does not change the sites of another. -/
theorem extends_sited (block : Nat) (t : TacOp) : Extends (Sited block t) := by
  intro store _ _ w hsited hw k hk
  obtain ⟨v, hv, hsites⟩ := Option.map_eq_some_iff.mp (hsited k hk)
  rw [extends_getElem? k v hv hw, Option.map_some, hsites]

/-- A variable that gets other values keeps its sites. -/
theorem Sited.revises (hrevises : Machine.Revises store store') (h : Sited block t store) :
    Sited block t store' := by
  have hsites : store'.toList.map (·.sites) = store.toList.map (·.sites) :=
    hrevises.map_eq fun _ _ => rfl
  intro k hk
  rw [← h k hk]
  simpa using congrArg (·[k]?) hsites

/-! ## 3. Conversion -/

variable {stack stack' : Stack Operand}

theorem sites_of_resultVariable {number : Nat} {op : TraceOp} {v : Variable}
    (hv : resultVariable number block op = .ok v) :
    v.sites = if resultKind op.opcode = .known then .bottom
      else .finite [.location (some block) op.pc] := by
  unfold resultVariable at hv
  dsimp only at hv
  split at hv
  · rename_i hkind
    rw [if_pos hkind]
    split at hv
    · rw [← Except.ok.inj hv]
      rfl
    · exact absurd hv (by simp)
  · rename_i hkind
    rw [if_neg hkind, ← Except.ok.inj hv]
    rfl

/-- **One operation** gives its result its sites. -/
theorem sited_of_converts {op : PlacedOp} {tac : Option TacOp} (hlegal : op.opcode.Legal)
    (h : Converts block store stack op store' stack' tac) : ∀ t ∈ tac, Sited block t store' := by
  cases h with
  | swap | dup | drop => exact fun t ht => absurd ht (by simp)
  | act =>
    rintro t ⟨⟩
    exact sited_of_unbound rfl _
  | bind _ _ _ hv =>
    rintro t ⟨⟩ k ⟨⟩
    obtain ⟨hknown, hrenamed, -⟩ := hlegal.recordedFamily_spec
    have hsites := sites_of_resultVariable hv
    simp only [hknown, ← hrenamed] at hsites
    rw [bindingOf, Array.getElem?_push_size, Option.map_some, hsites]
    rfl

theorem sited_of_convertOps : ∀ {ops : List PlacedOp} {store store' : Store}
    {stack stack' : Stack Operand} {tacs : List TacOp}, (∀ op ∈ ops, op.opcode.Legal) →
    convertOps block store stack ops = .ok (store', stack', tacs) →
    ∀ t ∈ tacs, Sited block t store'
  | [], _, _, _, _, _, _, h => by
    cases h
    exact fun t ht => absurd ht (List.not_mem_nil)
  | op :: ops, _, _, _, _, _, hlegal, h => by
    obtain ⟨hlop, hlops⟩ := List.forall_mem_cons.mp hlegal
    obtain ⟨_, _, tac, rest, hop, hops, rfl⟩ := convertOps_cons_eq_ok_iff.mp h
    intro t ht
    rcases List.mem_append.mp ht with ht | ht
    · exact (extends_sited block t).convertOps
        (sited_of_converts hlop hop t (Option.mem_toList.mp ht)) hops
    · exact sited_of_convertOps hlops hops t ht

theorem sited_of_convertBlock {c c' : Conversion} {b : TraceBlock} {tb : TacBlock}
    (hlegal : ∀ op ∈ b.ops, op.opcode.Legal) (h : c.convertBlock b = .ok (c', tb)) :
    c'.count = c.count + 1 ∧ ∀ t ∈ tb.ops, Sited c.count t c'.store := by
  obtain ⟨first, _, _, _, tacs, hstep⟩ := blockStep_of_convertBlock h
  have hsited := sited_of_convertOps hlegal hstep.converts
  rw [hstep.enters.count] at hsited
  refine ⟨by rw [hstep.count, hstep.enters.count], ?_⟩
  rw [hstep.ops, orFiller]
  split
  · intro t ht
    rw [List.mem_singleton.mp ht]
    exact sited_of_unbound rfl _
  · exact hsited

/-- **Conversion**: when `c.count` blocks have been converted, the block at position `i` of the
rest is the one of number `c.count + i`. -/
theorem sited_of_convertBlocks : ∀ {bs : List TraceBlock} {c c' : Conversion} {ts : List TacBlock},
    (∀ b ∈ bs, ∀ op ∈ b.ops, op.opcode.Legal) → convertBlocks c bs = .ok (c', ts) →
    ∀ (i : Nat) (tb : TacBlock), ts[i]? = some tb → ∀ t ∈ tb.ops, Sited (c.count + i) t c'.store
  | [], _, _, _, _, h => by
    cases h
    exact fun i tb htb => absurd htb (by simp)
  | b :: bs, c, _, _, hlegal, h => by
    obtain ⟨hlb, hlbs⟩ := List.forall_mem_cons.mp hlegal
    obtain ⟨c₁, tb₁, ts, hb, hbs, rfl⟩ := convertBlocks_cons_ok h
    obtain ⟨hcount, hfirst⟩ := sited_of_convertBlock hlb hb
    intro i tb htb t ht
    cases i with
    | zero =>
      obtain rfl : tb₁ = tb := Option.some.inj htb
      exact (extends_sited c.count t).convertBlocks (hfirst t ht) hbs
    | succ i =>
      have hnumber : c.count + (i + 1) = c₁.count + i := by omega
      rw [hnumber]
      exact sited_of_convertBlocks hlbs hbs i tb htb t ht

end Conversion

/-! ## 4. The graph -/

namespace Graph

variable {ops : List TraceOp} {g : Graph}

/-- The result of an operation has exactly one definition site: the operation's program counter in
the block. -/
def DefinedIn (g : Graph) (n : Nat) (t : TacOp) : Prop :=
  t.resultSites? g.machine.store = some (.finite [.location (some n) t.pc])

/-- Every result variable knows where it was defined. -/
def KnowsDefinitions (g : Graph) : Prop :=
  ∀ m ∈ g.members, ∀ t ∈ m.2.ops, t.isAssignment = true → g.DefinedIn m.1 t

instance (g : Graph) (n : Nat) (t : TacOp) : Decidable (g.DefinedIn n t) :=
  inferInstanceAs (Decidable (_ = _))

instance (g : Graph) : Decidable g.KnowsDefinitions :=
  inferInstanceAs (Decidable (∀ m ∈ g.members, ∀ t ∈ m.2.ops, t.isAssignment = true →
    g.DefinedIn m.1 t))

/-- Every operation of the graph's blocks has given its result its sites. -/
theorem MadeFrom.sited {c : Conversion} {ts : List TacBlock} (h : g.MadeFrom c ts)
    (hlegal : ∀ op ∈ ops, op.opcode.Legal)
    (hconvert : convertBlocks {} (blocksOf ops) = .ok (c, ts)) :
    ∀ m ∈ g.members, ∀ t ∈ m.2.ops, Sited m.1 t g.machine.store := by
  rintro ⟨n, b⟩ hm t ht
  have hblock : g.blocks[n]? = some b := (mem_members.mp hm).2
  -- the operation that it was before the operations were numbered
  have hsame := congrArg (·[n]?) (unnumbered_blocks_of_content h.content)
  simp only [List.getElem?_map, hblock, Option.map_some] at hsame
  obtain ⟨tb, htb, hops⟩ := Option.map_eq_some_iff.mp hsame.symm
  obtain ⟨t', ht', heq⟩ := List.mem_map.mp (hops ▸ List.mem_map_of_mem ht)
  have hsited := sited_of_convertBlocks
    (fun b hb op hop => hlegal _ (toTraceOp_mem_of_mem_blocksOf hb hop)) hconvert n tb htb t' ht'
  rw [Nat.zero_add] at hsited
  have hpass := Machine.keeps_of_run Sited.revises h.pass hsited
  have hunnumbered : Sited n t'.unnumbered g.machine.store := hpass
  rw [heq] at hunnumbered
  exact hunnumbered

/-- What the sites that a result was given say. -/
theorem definedIn_iff_of_sited {n : Nat} {t : TacOp} (h : Sited n t g.machine.store)
    (ht : t.isAssignment = true) :
    (g.DefinedIn n t ↔ t.opcode ∉ Opcode.recordedFamily) ∧
      (t.opcode ∈ Opcode.recordedFamily → t.resultSites? g.machine.store = some .bottom) := by
  rw [DefinedIn, h.resultSites? ht, TacOp.sitesIn]
  by_cases hrecorded : t.opcode ∈ Opcode.recordedFamily <;> simp [hrecorded, Sites.bottom]

/-- An operation with a recorded result comes from an operation of the trace with the same
opcode, and binds its result. -/
theorem source_of_recorded (hlegal : ∀ op ∈ ops, op.opcode.Legal) (hg : ofTrace ops = .ok g)
    {t : TacOp} (ht : t ∈ g.ops) (hrecorded : t.opcode ∈ Opcode.recordedFamily) :
    t.isAssignment = true ∧
      ∃ b ∈ blocksOf ops, ∃ op ∈ b.ops, op.opcode ∈ Opcode.recordedFamily := by
  rcases (readable_of_ofTrace hg).lifted.cases_of_mem ht with hfills | ⟨k, op, hop, -, hy⟩
  · rw [hfills.opcode] at hrecorded
    exact absurd hrecorded (by decide +kernel)
  · obtain ⟨b, hb, hop⟩ := List.mem_flatMap.mp hop
    have hlop := hlegal _ (toTraceOp_mem_of_mem_blocksOf hb hop)
    obtain ⟨hknown, hrenamed, -⟩ := hlop.recordedFamily_spec
    rw [hy.opcode, hrenamed] at hrecorded
    have hpushes : op.opcode.pushes = 1 := pushes_of_resultKind (by
      rw [hknown.mpr hrecorded]
      decide)
    have htarget : t.target?.isSome = true := by rw [hy.target, if_pos hpushes, Option.isSome_some]
    rw [TacOp.target?, Option.isSome_map] at htarget
    exact ⟨htarget, b, hb, op, hop, hrecorded⟩

/-- An operation of the trace with a recorded result is an operation of the graph. -/
theorem exists_of_recorded (hlegal : ∀ op ∈ ops, op.opcode.Legal) (hg : ofTrace ops = .ok g)
    {b : TraceBlock} (hb : b ∈ blocksOf ops) {op : PlacedOp} (hop : op ∈ b.ops)
    (hrecorded : op.opcode ∈ Opcode.recordedFamily) :
    ∃ m ∈ g.members, ∃ t ∈ m.2.ops, t.opcode ∈ Opcode.recordedFamily := by
  obtain ⟨c, ts, hconvert, hmade⟩ := madeFrom_of_ofTrace hg
  have hlop := hlegal _ (toTraceOp_mem_of_mem_blocksOf hb hop)
  obtain ⟨-, hrenamed, hacts⟩ := hlop.recordedFamily_spec
  have hmoves : op.opcode.rearranges = false := by
    obtain ⟨hswap, hdup, hpop⟩ := hacts hrecorded
    rw [hlop.rearranges_eq, hswap, hdup, hpop]
    rfl
  have hmem : op.outline ∈ b.outline := by
    rw [TraceBlock.outline_eq hop hmoves]
    exact List.mem_map_of_mem (List.mem_filter.mpr ⟨hop, by rw [hmoves]; rfl⟩)
  have houtlines := outline_members hlegal hconvert hmade
  obtain ⟨m, hm, hops⟩ := List.mem_map.mp (houtlines ▸ List.mem_map_of_mem hb)
  obtain ⟨t, ht, houtline⟩ := List.mem_map.mp (hops ▸ hmem)
  refine ⟨m, hm, t, ht, ?_⟩
  have hopcode : t.opcode = op.opcode.lifted := congrArg Outline.opcode houtline
  rw [hopcode, ← hlop.lifted_eq]
  exact hrenamed.mpr hrecorded

end Graph

/-- **Where results are defined.**  In the graph of a trace the result of an operation has exactly
one definition site, the operation's program counter in its own block, if and only if it is not
recorded; a recorded result has no definition site at all.  So all results of a graph know where
they were defined exactly if the blocks of the trace hold no operation with a recorded result. -/
theorem definitions_known_iff (ops : List TraceOp) (hlegal : ∀ op ∈ ops, op.opcode.Legal)
    {g : Graph} (hg : Graph.ofTrace ops = .ok g) :
    (∀ m ∈ g.members, ∀ t ∈ m.2.ops, t.isAssignment = true →
      (g.DefinedIn m.1 t ↔ t.opcode ∉ Opcode.recordedFamily) ∧
      (t.opcode ∈ Opcode.recordedFamily → t.resultSites? g.machine.store = some .bottom)) ∧
    (g.KnowsDefinitions ↔
      ∀ b ∈ blocksOf ops, ∀ op ∈ b.ops, op.opcode ∉ Opcode.recordedFamily) := by
  obtain ⟨c, ts, hconvert, hmade⟩ := Graph.madeFrom_of_ofTrace hg
  have heach := fun m hm t ht hassign =>
    Graph.definedIn_iff_of_sited (hmade.sited hlegal hconvert m hm t ht) hassign
  have hops : ∀ m ∈ g.members, ∀ t ∈ m.2.ops, t ∈ g.ops := fun m hm t ht =>
    List.mem_flatMap.mpr ⟨m, hm, ht⟩
  refine ⟨heach, ?_, ?_⟩
  · intro hknows b hb op hop hrecorded
    obtain ⟨m, hm, t, ht, hrecorded⟩ := Graph.exists_of_recorded hlegal hg hb hop hrecorded
    have hassign := (Graph.source_of_recorded hlegal hg (hops m hm t ht) hrecorded).1
    exact (heach m hm t ht hassign).1.mp (hknows m hm t ht hassign) hrecorded
  · intro hnone m hm t ht hassign
    refine (heach m hm t ht hassign).1.mpr fun hrecorded => ?_
    obtain ⟨-, b, hb, op, hop, hrecorded⟩ :=
      Graph.source_of_recorded hlegal hg (hops m hm t ht) hrecorded
    exact hnone b hb op hop hrecorded

/-- The definition sites of the results of a trace's graph, block by block. -/
def sitesOfTrace (ops : List TraceOp) : Option (List (List (Option Sites))) :=
  (Graph.ofTrace ops).toOption.map fun g =>
    g.members.map fun m => m.2.ops.map (·.resultSites? g.machine.store)

/-- A word is negated, and a second frame does the same at the same program counters. -/
def negatesTwice : List TraceOp :=
  [{ pc := 0, opcode := .push 1, value := some 5 }, { pc := 2, opcode := .not },
    { pc := 0, opcode := .push 1, value := some 6 }, { pc := 2, opcode := .not },
    { pc := 3, opcode := .stop }]

theorem knowsDefinitions_negatesTwice : (∀ op ∈ negatesTwice, op.opcode.Legal) ∧
    sitesOfTrace negatesTwice = some [
      [some (.finite [.location (some 0) 0]), some (.finite [.location (some 0) 2])],
      [some (.finite [.location (some 1) 0]), some (.finite [.location (some 1) 2]), none]] ∧
    ∃ g, Graph.ofTrace negatesTwice = .ok g ∧ g.KnowsDefinitions := by
  have hlegal : ∀ op ∈ negatesTwice, op.opcode.Legal := by decide +kernel
  refine ⟨hlegal, by decide +kernel, ?_⟩
  have hmade : (Graph.ofTrace negatesTwice).toBool = true := by decide +kernel
  cases hg : Graph.ofTrace negatesTwice with
  | error e => simp [hg, Except.toBool] at hmade
  | ok g => exact ⟨g, rfl, (definitions_known_iff negatesTwice hlegal hg).2.mpr (by decide +kernel)⟩

/-- A constant, and the storage slot of that number. -/
def loadsSlot : List TraceOp :=
  [{ pc := 0, opcode := .push 1, value := some 0 }, { pc := 2, opcode := .sload, value := some 7 },
    { pc := 3, opcode := .stop }]

/-- The constant has its definition site, and what was loaded has none. -/
theorem not_knowsDefinitions_loadsSlot : (∀ op ∈ loadsSlot, op.opcode.Legal) ∧
    sitesOfTrace loadsSlot =
      some [[some (.finite [.location (some 0) 0]), some .bottom, none]] ∧
    ∃ g, Graph.ofTrace loadsSlot = .ok g ∧ ¬ g.KnowsDefinitions := by
  refine ⟨by decide +kernel, by decide +kernel, ?_⟩
  have hfails : (Graph.ofTrace loadsSlot).toOption.map (fun g => decide g.KnowsDefinitions) =
      some false := by decide +kernel
  cases hg : Graph.ofTrace loadsSlot with
  | error e => simp [hg, Except.toOption] at hfails
  | ok g =>
    rw [hg, Except.toOption, Option.map_some, Option.some.injEq, decide_eq_false_iff_not] at hfails
    exact ⟨g, rfl, hfails⟩

end TraceLift
