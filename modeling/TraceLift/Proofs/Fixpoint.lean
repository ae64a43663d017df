/-
# One pass is enough

A graph's operations are carried out once when it is made.  What is then known of each variable can
be read off the operation that binds it (`TacOp.Folded`): the word that the trace recorded, the
value of the arithmetic function, or nothing.  Carrying the operations out again, any number of
times, on single values or on sets, teaches nothing new.

The first half follows operation by operation.  An operation of the graph is settled, so the result
of arithmetic is that of its operands as they are now (`TacOp.Settled.computed`); a constant has the
recorded word as its operand, and a result that only the run could know has it from the start
(`valuesAt_of_binds`).  The second half is a property of the graph that a pass keeps (`Stable`).
-/
import TraceLift.Proofs.Settled
import TraceLift.Proofs.SingleAssignment

namespace TraceLift

open Conversion StackMachine

/-! ## 1. Results of arithmetic -/

/-- The values of a variable of a store. -/
def valuesAt (store : Store) (k : VarId) : Option ValueSet := store[k]?.map (·.values)

/-- What is known of the variable that an operation binds.  A result that is not computed has the
value that the trace recorded at the operation's position; a result that is computed from constants
is the value of the opcode's function; of any other result nothing is known. -/
structure TacOp.Folded (ops : List TraceOp) (store : Store) (t : TacOp) (k : VarId) : Prop where
  recorded : t.opcode.isArithmetic = false → ∃ (i : Nat) (op : TraceOp) (w : Int),
    t.loc? = some i ∧ ops[i]? = some op ∧ op.value = some w ∧
      valuesAt store k = some (.single (Word.reduce w))
  computed : t.opcode.isArithmetic = true → t.hasConstArgs store = .ok true →
    ∃ (ws : List Int) (f : Arith) (x : Int),
      t.args.mapM (·.values store) = .ok (ws.map .single) ∧
      Arith.ofName t.opcode.name = .ok f ∧ f.eval ws = .ok x ∧
      valuesAt store k = some (.single (Word.reduce x))
  unknown : t.opcode.isArithmetic = true → t.hasConstArgs store ≠ .ok true →
    valuesAt store k = some .top

/-- A function of one value each, of which the result is one word. -/
theorem exists_eval_of_arith {fn name : String} {ws : List Int} {v : Variable}
    (h : Variable.arith fn (ws.map ValueSet.single) name = .ok v) :
    ∃ f x, Arith.ofName fn = .ok f ∧ f.eval ws = .ok x ∧
      v.values = .single (Word.reduce x) := by
  have hvalues := arith_of_singletons h
  unfold Variable.arith Variable.evalSets at h
  unfold StackMachine.arithmetic at hvalues
  cases hfn : Arith.ofName fn with
  | error e => simp [hfn] at h
  | ok f =>
    simp only [hfn, ValueSet.lift_singles] at h hvalues
    cases hx : f.eval ws with
    | error e => simp [hx, Except.map] at h
    | ok x =>
      rw [hx] at hvalues
      exact ⟨f, x, rfl, hx, hvalues⟩

namespace Machine

variable {m m₁ : Machine} {op : TacOp} {k : VarId}

/-- The word that was assigned is the value of the bound variable. -/
theorem valuesAt_of_assignResult {w : Int} (h : m.assignResult op (.single w) = .ok m₁)
    (hk : k ∈ op.target?) : valuesAt m₁.store k = some (.single (Word.reduce w)) := by
  obtain ⟨b, v, l, hb, hv, hl, hstore⟩ := assignResult_ok h
  obtain rfl : b.target = k := by
    rw [TacOp.target?, hb] at hk
    exact Option.some.inj hk
  have hlt := (Array.getElem?_eq_some_iff.mp hv).1
  rw [ValueSet.members_single] at hl
  rw [valuesAt, hstore, Array.getElem?_setIfInBounds_self_of_lt hlt, ← Except.ok.inj hl]
  rfl

end Machine

/-- **The result of arithmetic.**  When an operation is settled, its result is known exactly if its
operands are, and then it is the value of the function. -/
theorem TacOp.Settled.computed {store : Store} {t : TacOp} {k : VarId} (h : t.Settled store)
    (hdef : Definite store) (hmem : t.opcode ∈ Opcode.table)
    (harith : t.opcode.isArithmetic = true) (hk : k ∈ t.target?) :
    ∃ sets, t.args.mapM (·.values store) = .ok sets ∧
      ((sets.all (·.isConst) = true ∧ ∃ ws f x, sets = ws.map .single ∧
          Arith.ofName t.opcode.name = .ok f ∧ f.eval ws = .ok x ∧
          valuesAt store k = some (.single (Word.reduce x))) ∨
        (sets.all (·.isConst) = false ∧ valuesAt store k = some .top)) := by
  obtain ⟨m, m₁, hstep, hargs, htarget⟩ := h
  rw [Machine.step_arithmetic hmem harith] at hstep
  obtain ⟨sets, hsets, hcases⟩ := Machine.compute_cases hstep
  have hsame : valuesAt store k = valuesAt m₁.store k := by
    rw [valuesAt, htarget k hk, valuesAt]
  have hagain : ∀ a ∈ t.args, a.lookup ({ store } : Machine).store = a.lookup m.store := hargs
  rw [← Machine.mapM_values_again hagain] at hsets
  refine ⟨sets, hsets, ?_⟩
  rcases hcases with ⟨hconst, v, hv, hassign⟩ | ⟨hconst, b, v, hb, hv, rfl⟩
  · obtain ⟨ws, rfl⟩ := ValueSet.exists_singles (hdef.args hsets) hconst
    obtain ⟨f, x, hf, hx, hvalues⟩ := exists_eval_of_arith hv
    rw [hvalues] at hassign
    refine .inl ⟨hconst, ws, f, x, rfl, hf, hx, ?_⟩
    rw [hsame, Machine.valuesAt_of_assignResult hassign hk, reduce_reduce]
  · obtain rfl : b.target = k := by
      rw [TacOp.target?, hb] at hk
      exact Option.some.inj hk
    have hlt := (Array.getElem?_eq_some_iff.mp hv).1
    refine .inr ⟨hconst, ?_⟩
    rw [hsame, valuesAt, Array.getElem?_setIfInBounds_self_of_lt hlt]
    rfl

/-! ## 2. Recorded results -/

namespace Conversion

/-- How the variable `k` is bound by an operation of the trace, with the value that the trace
recorded: it is the operand of a push, and the value of the variable if only the run could know
it. -/
structure Binds (store : Store) (op : PlacedOp) (t : TacOp) (k : VarId) : Prop where
  opcode : t.opcode = tacOpcode op.opcode
  place : t.place = some op.place
  pushes : op.opcode.pushes = 1
  pushed : op.opcode.isPush = true → ∃ w, recorded op.toTraceOp = .ok w ∧ t.args = [.literal w]
  known : resultKind op.opcode = .known →
    op.value.isSome = true ∧ valuesAt store k = some (.single op.word)

theorem value_of_recorded {op : TraceOp} {w : Int} (h : recorded op = .ok w) :
    ∃ x, op.value = some x ∧ w = Word.reduce x := by
  unfold recorded at h
  split at h
  · rename_i x hx
    exact ⟨x, hx, (Except.ok.inj h).symm⟩
  · exact absurd h (by simp)

theorem extends_valuesAt (k : VarId) (values : ValueSet) :
    Extends fun store => valuesAt store k = some values := by
  intro store _ _ _ hvalues hv
  obtain ⟨v, hk, rfl⟩ := Option.map_eq_some_iff.mp hvalues
  rw [valuesAt, extends_getElem? k v hk hv, Option.map_some]

theorem extends_binds (op : PlacedOp) (t : TacOp) (k : VarId) :
    Extends fun store => Binds store op t k := by
  intro store _ _ _ h hv
  exact ⟨h.opcode, h.place, h.pushes, h.pushed, fun hkind =>
    ⟨(h.known hkind).1, extends_valuesAt k _ (h.known hkind).2 hv⟩⟩

/-- A result variable is known exactly if the trace recorded it, and not at all otherwise. -/
theorem extends_definite : Extends Definite := by
  intro store block op v hstore hv
  refine hstore.push ?_
  cases hkind : resultKind op.opcode with
  | known => exact .inr ⟨op.word, values_of_known hkind hv⟩
  | none | computed =>
    simp only [resultVariable, hkind] at hv
    rw [← Except.ok.inj hv]
    exact .inl rfl

theorem binds_of_converts {block : Nat} {store store' : Store} {stack stack' : Stack Operand}
    {op : PlacedOp} {t : TacOp} (h : Converts block store stack op store' stack' (some t))
    {k : VarId} (hk : k ∈ t.target?) : Binds store' op t k := by
  cases h with
  | act => exact absurd hk (by simp [TacOp.target?, tacOf])
  | @bind args _ v hop hargs hkind hv =>
    obtain rfl : store.size = k := Option.some.inj hk
    refine ⟨rfl, rfl, pushes_of_resultKind hkind, ?_, ?_⟩
    · intro hpush
      unfold operands at hargs
      rw [hpush, Bool.true_or, if_pos rfl] at hargs
      split at hargs
      · rename_i w hw
        cases hargs
        exact ⟨w, hw, rfl⟩
      · exact absurd hargs (by simp)
    · intro hknown
      refine ⟨?_, ?_⟩
      · obtain ⟨w, hw⟩ := exists_resultVariable_iff.mp ⟨v, hv⟩ hknown
        obtain ⟨x, hx, -⟩ := value_of_recorded hw
        exact hx ▸ rfl
      · rw [valuesAt, Array.getElem?_push_size, Option.map_some, values_of_known hknown hv]

theorem binds_of_convertOps {block : Nat} : ∀ {ops : List PlacedOp} {store store' : Store}
    {stack stack' : Stack Operand} {tacs : List TacOp},
    convertOps block store stack ops = .ok (store', stack', tacs) →
    ∀ t ∈ tacs, ∀ k ∈ t.target?, ∃ op ∈ ops, Binds store' op t k
  | [], _, _, _, _, _, h, t, ht, _, _ => by
    cases h
    exact absurd ht (List.not_mem_nil)
  | op :: ops, _, _, _, _, _, h, t, ht, k, hk => by
    obtain ⟨store₁, _, tac, rest, hop, hops, rfl⟩ := convertOps_cons_eq_ok_iff.mp h
    rcases List.mem_append.mp ht with ht | ht
    · rw [Option.mem_toList.mp ht] at hop
      exact ⟨op, List.mem_cons_self,
        (extends_binds op t k).convertOps (binds_of_converts hop hk) hops⟩
    · obtain ⟨op', hop', hbinds⟩ := binds_of_convertOps hops t ht k hk
      exact ⟨op', List.mem_cons_of_mem _ hop', hbinds⟩

/-- **Every result comes from the trace**, with what was recorded there. -/
theorem binds_of_convertBlocks : ∀ {bs : List TraceBlock} {c c' : Conversion} {ts : List TacBlock},
    convertBlocks c bs = .ok (c', ts) →
    ∀ t ∈ ts.flatMap (·.ops), ∀ k ∈ t.target?, ∃ op ∈ bs.flatMap (·.ops), Binds c'.store op t k
  | [], _, _, _, h, t, ht, _, _ => by
    cases h
    exact absurd ht (List.not_mem_nil)
  | b :: bs, _, _, _, h, t, ht, k, hk => by
    obtain ⟨c₁, tb, ts, hb, hbs, rfl⟩ := convertBlocks_cons_ok h
    rw [List.flatMap_cons, List.mem_append] at ht
    rw [List.flatMap_cons]
    rcases ht with ht | ht
    · obtain ⟨first, _, _, _, tacs, hstep⟩ := blockStep_of_convertBlock hb
      have htacs : t ∈ tacs := by
        rw [hstep.ops, orFiller] at ht
        split at ht
        · rw [List.mem_singleton.mp ht] at hk
          exact absurd hk (by simp [TacOp.target?, filler])
        · exact ht
      obtain ⟨op, hop, hbinds⟩ := binds_of_convertOps hstep.converts t htacs k hk
      exact ⟨op, List.mem_append_left _ hop, (extends_binds op t k).convertBlocks hbinds hbs⟩
    · obtain ⟨op, hop, hbinds⟩ := binds_of_convertBlocks hbs t ht k hk
      exact ⟨op, List.mem_append_right _ hop, hbinds⟩

end Conversion

/-- **The result of any other operation** is the word that the trace recorded: a constant assigns
it, and otherwise the variable has it from the start and is not touched. -/
theorem valuesAt_of_binds {initial : Store} {placed : List PlacedOp} {tacs : List TacOp} {n : Nat}
    {m' : Machine} {op : PlacedOp} {t : TacOp} {k : VarId} (hlegal : op.opcode.Legal)
    (hlifted : Lifted 0 placed tacs n)
    (hpass : Machine.run false { store := initial } tacs = (m', none)) (ht : t ∈ tacs)
    (hk : k ∈ t.target?) (hbinds : Binds initial op t k)
    (harith : t.opcode.isArithmetic = false) :
    ∃ w, op.value = some w ∧ valuesAt m'.store k = some (.single (Word.reduce w)) := by
  rcases result_cases hlegal hbinds.pushes with ⟨hpush, -⟩ | ⟨-, -, hop, -, hself⟩ |
    ⟨hkind, hconst, -⟩
  · obtain ⟨w, hw, hargs⟩ := hbinds.pushed hpush
    obtain ⟨x, hx, rfl⟩ := value_of_recorded hw
    have hconst : t.opcode.same Opcode.const = true := by
      rw [hbinds.opcode, tacOpcode, if_pos hpush]
      rfl
    obtain ⟨m, m₁, hstep, -, htarget⟩ := hlifted.settled hpass ht
    obtain ⟨a, values, ha, hvalues, hassign⟩ := Machine.step_const hconst hstep
    have hsingle : (Operand.literal (Word.reduce x)).values m.store =
      .ok (.single (Word.reduce (Word.reduce x))) := rfl
    rw [TacOp.arg, hargs] at ha
    rw [← Except.ok.inj ha, hsingle] at hvalues
    rw [← Except.ok.inj hvalues] at hassign
    refine ⟨x, hx, ?_⟩
    rw [valuesAt, htarget k hk, ← valuesAt, Machine.valuesAt_of_assignResult hassign hk,
      reduce_reduce, reduce_reduce]
  · rw [hbinds.opcode, hself, hop] at harith
    exact absurd harith (by simp)
  · obtain ⟨hsome, hvalues⟩ := hbinds.known hkind
    obtain ⟨x, hx⟩ := Option.isSome_iff_exists.mp hsome
    obtain ⟨pre, post, rfl⟩ := List.append_of_mem ht
    obtain ⟨m, m₁, hpre, hstep, hpost⟩ := Machine.run_split hpass
    obtain ⟨hbefore, hafter⟩ := hlifted.target_fresh hk
    rw [← hbinds.opcode] at hconst
    refine ⟨x, hx, ?_⟩
    rw [valuesAt, Machine.run_frame hpost hafter, Machine.step_other hconst harith hstep,
      Machine.run_frame hpre hbefore, ← valuesAt, hvalues, TraceOp.word, hx, Option.getD_some]

/-! ## 3. Passes over a graph -/

namespace Graph

/-- Carries out the operations of all blocks several times, on sets where it says so, up to the
first failure. -/
def applyAll (g : Graph) : List Bool → Graph × Option Fault
  | [] => (g, none)
  | useSets :: rest =>
    match g.apply useSets with
    | (g, none) => g.applyAll rest
    | (g, some e) => (g, some e)

/-- Blocks without empty places whose operations are settled. -/
theorem runBlocks_of_settled (useSets : Bool) : ∀ {bs : List Block} {m : Machine},
    Definite m.store → (∀ b ∈ bs, b.gap = false) → (∀ b ∈ bs, ∀ t ∈ b.ops, t.Settled m.store) →
    ∃ m', runBlocks useSets m bs = (m', none) ∧ m'.store = m.store
  | [], m, _, _, _ => ⟨m, rfl, rfl⟩
  | b :: bs, m, hdef, hgap, hsettled => by
    obtain ⟨hb, hbs⟩ := List.forall_mem_cons.mp hgap
    obtain ⟨hops, hrest⟩ := List.forall_mem_cons.mp hsettled
    obtain ⟨m₁, hrun, hstore₁⟩ := Machine.run_of_settled hops
    rw [← hstore₁] at hdef hrest
    obtain ⟨m', hblocks, hstore'⟩ := runBlocks_of_settled useSets hdef hbs hrest
    refine ⟨m', ?_, hstore'.trans hstore₁⟩
    rw [hstore₁] at hdef
    rw [runBlocks, (Machine.run_useSets useSets b.ops hdef).1, hrun]
    simp only [hb, Bool.false_eq_true, if_false]
    exact hblocks

/-- What makes a pass over a graph change nothing. -/
structure Stable (g : Graph) : Prop where
  definite : Definite g.machine.store
  gap : ∀ m ∈ g.members, m.2.gap = false
  settled : ∀ t ∈ g.ops, t.Settled g.machine.store

theorem Stable.apply {g : Graph} (h : g.Stable) (useSets : Bool) :
    ∃ machine, g.apply useSets = ({ g with machine }, none) ∧
      machine.store = g.machine.store := by
  have hgap : ∀ b ∈ g.members.map (·.2), b.gap = false := by
    intro b hb
    obtain ⟨m, hm, rfl⟩ := List.mem_map.mp hb
    exact h.gap m hm
  have hsettled : ∀ b ∈ g.members.map (·.2), ∀ t ∈ b.ops, t.Settled g.machine.store := by
    intro b hb t ht
    obtain ⟨m, hm, rfl⟩ := List.mem_map.mp hb
    exact h.settled t (List.mem_flatMap.mpr ⟨m, hm, ht⟩)
  obtain ⟨m', hrun, hstore⟩ := runBlocks_of_settled useSets h.definite hgap hsettled
  exact ⟨m', by rw [Graph.apply, hrun], hstore⟩

theorem Stable.of_machine {g : Graph} (h : g.Stable) {machine : Machine}
    (hstore : machine.store = g.machine.store) : ({ g with machine } : Graph).Stable :=
  ⟨hstore ▸ h.definite, h.gap, fun t ht => hstore ▸ h.settled t ht⟩

/-- **Further passes** over a stable graph go through and change no variable. -/
theorem Stable.applyAll : ∀ (passes : List Bool) {g : Graph}, g.Stable →
    ∃ machine, g.applyAll passes = ({ g with machine }, none) ∧ machine.store = g.machine.store
  | [], g, _ => ⟨g.machine, rfl, rfl⟩
  | useSets :: rest, g, h => by
    obtain ⟨m₁, happly, hstore₁⟩ := h.apply useSets
    obtain ⟨m', hrest, hstore'⟩ := Stable.applyAll rest (h.of_machine hstore₁)
    refine ⟨m', ?_, hstore'.trans hstore₁⟩
    rw [Graph.applyAll, happly]
    exact hrest

theorem stable_of_ofTrace {ops : List TraceOp} {g : Graph} (hg : ofTrace ops = .ok g) :
    g.Stable := by
  obtain ⟨c, ts, hconvert, hmade⟩ := madeFrom_of_ofTrace hg
  have hread := readable_of_ofTrace hg
  have hstart : Definite c.store := by
    refine extends_definite.convertBlocks ?_ hconvert
    intro k v hv
    exact absurd hv (by simp)
  obtain ⟨m, hpass⟩ := hread.pass
  constructor
  · have hdef :=
      (Machine.run_useSets false (m := { store := c.store }) (ts.flatMap (·.ops)) hstart).2
    rwa [hmade.pass] at hdef
  · intro m hm
    simpa using List.any_eq_false.mp hread.gap m hm
  · intro t ht
    exact hread.lifted.settled hpass ht

theorem folded_of_ofTrace {ops : List TraceOp} {g : Graph} (hlegal : ∀ op ∈ ops, op.opcode.Legal)
    (hg : ofTrace ops = .ok g) {t : TacOp} (ht : t ∈ g.ops) {k : VarId} (hk : k ∈ t.target?) :
    t.Folded ops g.machine.store k := by
  obtain ⟨c, ts, hconvert, hmade⟩ := madeFrom_of_ofTrace hg
  have hread := readable_of_ofTrace hg
  have hstable := stable_of_ofTrace hg
  have hpass : Machine.run false { store := c.store } g.ops = (g.machine, none) := by
    rw [← Machine.run_map_unnumbered, hmade.ops, Machine.run_map_unnumbered, hmade.pass]
  -- the converted operation differs from this one in its number only
  obtain ⟨op, hop, hbinds⟩ : ∃ op ∈ (blocksOf ops).flatMap (·.ops), Binds c.store op t k := by
    obtain ⟨t', ht', hsame⟩ := List.mem_map.mp (hmade.ops ▸ List.mem_map_of_mem ht)
    obtain ⟨hopcode, hargs, -, hbinding, -, hplace, -⟩ := TacOp.mk.inj hsame
    have hk' : k ∈ t'.target? := by
      rw [TacOp.target?, hbinding]
      exact hk
    obtain ⟨op, hop, h⟩ := binds_of_convertBlocks hconvert t' ht' k hk'
    exact ⟨op, hop, hopcode ▸ h.opcode, hplace ▸ h.place, h.pushes, hargs ▸ h.pushed, h.known⟩
  have hget := getElem?_of_mem_blocksOf hop
  have hlegalOp : op.opcode.Legal := hlegal _ (List.mem_of_getElem? hget)
  have hmem := mem_table_of_tacOpcode hlegalOp
  rw [← hbinds.opcode] at hmem
  constructor
  case recorded =>
    intro harith
    obtain ⟨w, hw, hvalues⟩ :=
      valuesAt_of_binds hlegalOp hread.lifted hpass ht hk hbinds harith
    refine ⟨op.place.loc, op.toTraceOp, w, ?_, hget, hw, hvalues⟩
    rw [TacOp.loc?, hbinds.place, Option.map_some]
  case computed =>
    intro harith hconst
    obtain ⟨sets, hsets, ⟨-, ws, f, x, rfl, hf, hx, hvalues⟩ | ⟨hnot, -⟩⟩ :=
      (hstable.settled t ht).computed hstable.definite (hmem harith) harith hk
    · exact ⟨ws, f, x, hsets, hf, hx, hvalues⟩
    · rw [TacOp.hasConstArgs, hsets] at hconst
      exact absurd (hnot.symm.trans (Except.ok.inj hconst)) (by simp)
  case unknown =>
    intro harith hconst
    obtain ⟨sets, hsets, ⟨hall, -⟩ | ⟨-, hvalues⟩⟩ :=
      (hstable.settled t ht).computed hstable.definite (hmem harith) harith hk
    · refine absurd ?_ hconst
      rw [TacOp.hasConstArgs, hsets]
      exact congrArg Except.ok hall
    · exact hvalues

end Graph

/-- **One pass is enough.**  When the graph of a trace is made, each variable is known as the
operation that binds it says; and carrying the operations out again, any number of times, on single
values or on sets, goes through and changes nothing of any variable, nor of the graph. -/
theorem folding_reaches_fixpoint {ops : List TraceOp} {g : Graph}
    (hlegal : ∀ op ∈ ops, op.opcode.Legal) (hg : Graph.ofTrace ops = .ok g) :
    (∀ t ∈ g.ops, ∀ k ∈ t.target?, t.Folded ops g.machine.store k) ∧
      ∀ passes : List Bool, ∃ machine, g.applyAll passes = ({ g with machine }, none) ∧
        machine.store = g.machine.store := by
  constructor
  · intro t ht k hk
    exact Graph.folded_of_ofTrace hlegal hg ht hk
  · intro passes
    exact (Graph.stable_of_ofTrace hg).applyAll passes

/-- A sum of constants, a recorded word, its difference from an item of the entry stack, and a sum
of which one operand is that difference. -/
def knownAndUnknown : List TraceOp :=
  [{ pc := 0, opcode := .push 1, value := some 2 }, { pc := 2, opcode := .push 1, value := some 3 },
    { pc := 4, opcode := .add }, { pc := 5, opcode := .caller, value := some (Word.card + 7) },
    { pc := 6, opcode := .dup 3 }, { pc := 7, opcode := .sub }, { pc := 8, opcode := .dup 2 },
    { pc := 9, opcode := .add }, { pc := 10, opcode := .sstore }]

theorem fixpoint_knownAndUnknown : (∀ op ∈ knownAndUnknown, op.opcode.Legal) ∧
    ∃ g, Graph.ofTrace knownAndUnknown = .ok g ∧
      g.machine.store.toList.map (·.values) =
        [.single 2, .single 3, .single 5, .single 7, .top, .top] ∧
      (∀ t ∈ g.ops, ∀ k ∈ t.target?, t.Folded knownAndUnknown g.machine.store k) ∧
      ∃ machine, g.applyAll [true, false, true] = ({ g with machine }, none) ∧
        machine.store = g.machine.store := by
  have hlegal : ∀ op ∈ knownAndUnknown, op.opcode.Legal := by decide +kernel
  have hvalues : ((Graph.ofTrace knownAndUnknown).toOption.map
      (·.machine.store.toList.map (·.values))) =
        some [.single 2, .single 3, .single 5, .single 7, .top, .top] := by decide +kernel
  cases hg : Graph.ofTrace knownAndUnknown with
  | error e => simp [hg, Except.toOption] at hvalues
  | ok g =>
    obtain ⟨hfolded, hpasses⟩ := folding_reaches_fixpoint hlegal hg
    rw [hg, Except.toOption, Option.map_some, Option.some.injEq] at hvalues
    exact ⟨hlegal, g, rfl, hvalues, hfolded, hpasses [true, false, true]⟩

end TraceLift
