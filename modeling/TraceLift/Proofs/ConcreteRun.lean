/-
# The graph of a trace computes the run

For a well-nested trace whose run fits the stack, the graph is a correct picture of the run: after
the pass every operand of every operation has exactly one value, and that value is the word that
the stack machine takes there (`graph_computes_run`).

The proof puts the parts together.  A graph that was made is a conversion followed by a pass
(`Graph.ofTrace_eq_ok`); the conversion of a well-nested trace is a run of frames
(`run_of_convertBlocks`), which gives a word to each variable (`run_explained`); the pass finds
these words (`run_agrees`), and they are what is read at the end (`args_of_explained`).
-/
import TraceLift.Proofs.Folding
import TraceLift.Proofs.GraphOfTrace

namespace TraceLift

open Conversion StackMachine

/-! ## 1. From the steps of a trace to the operations of its graph -/

/-- The operations of the blocks are the steps of the trace, each in its frame. -/
theorem Frame.follow (t : Frame) :
    Follow t.steps t.frameAt 0 ((blocksOf t.ops).flatMap (·.ops)) := by
  intro j op hop
  rw [Nat.zero_add]
  obtain ⟨m, hm, htrace, hplace⟩ := getElem?_ops_blocksOf hop
  have hstep : t.steps[j]?.map (·.op) = some m.op := by
    rw [← List.getElem?_map, t.map_op_steps, ← map_op_marks t.ops, List.getElem?_map, hm]
    rfl
  obtain ⟨s, hs, hsop⟩ := Option.map_eq_some_iff.mp hstep
  refine ⟨by rw [hplace, (starts_iff_splitsAt hm).1], s, hs, by rw [htrace, hsop], ?_⟩
  rw [frameAt, hs]
  rfl

/-- Every operation that does more than move stack items becomes a three-address operation. -/
theorem Conversion.Run.exists_of_acts {frameOf : Nat → Nat} {S S' : Store}
    {stackOf stackOf' : Nat → Stack Operand} {ops : List PlacedOp} {tacs : List TacOp}
    (h : Run frameOf S stackOf ops S' stackOf' tacs) {op : PlacedOp} (hop : op ∈ ops)
    (hacts : Acts op.opcode) :
    ∃ t ∈ tacs, t.place = some op.place ∧ t.opcode = tacOpcode op.opcode := by
  induction h with
  | nil => simp at hop
  | cons hconverts _ ih =>
    rcases List.mem_cons.mp hop with rfl | hop
    · cases hconverts with
      | swap hswap => exact absurd hacts.1 (by simp [hswap])
      | dup _ hdup => exact absurd hacts.2.1 (by simp [hdup])
      | drop _ _ hpop => exact absurd hacts.2.2 (by simp [hpop])
      | act => exact ⟨_, List.mem_append_left _ (List.mem_singleton_self _), rfl, rfl⟩
      | bind => exact ⟨_, List.mem_append_left _ (List.mem_singleton_self _), rfl, rfl⟩
    · obtain ⟨t, ht, htac⟩ := ih hop
      exact ⟨t, List.mem_append_right _ ht, htac⟩

theorem isPush_of_tacOpcode {opcode : Opcode} (h : (tacOpcode opcode).same Opcode.const = false) :
    opcode.isPush = false := by
  refine Bool.eq_false_iff.mpr fun hpush => ?_
  rw [tacOpcode, if_pos hpush] at h
  exact absurd h (by decide)

theorem isMissing_of_tacOpcode {opcode : Opcode} (h : (tacOpcode opcode).isMissing = false) :
    opcode.isMissing = false := by
  refine Bool.eq_false_iff.mpr fun hmissing => ?_
  obtain ⟨hpush, -, -, hlog, -⟩ :=
    Opcode.no_family_of_unknown (Option.isNone_iff_eq_none.mp hmissing)
  rw [tacOpcode, hpush, hlog] at h
  exact absurd hmissing (by simpa using h)

section Converted

variable {t : Frame} {c : Conversion} {ts : List TacBlock}

/-- The conversion of a well-nested trace is a run of its frames, all on empty stacks at first. -/
theorem run_of_wellNested
    (ht : t.WellNested (fun prev => ¬ prev.Halting) (fun last _ => last.Halting))
    (hconvert : convertBlocks {} (blocksOf t.ops) = .ok (c, ts)) :
    ∃ stackOf stackOf', (∀ f, ∃ d, stackOf f = { depth := d }) ∧
      Run t.frameAt #[] stackOf ((blocksOf t.ops).flatMap (·.ops)) c.store stackOf'
        (fromTrace (ts.flatMap (·.ops))) := by
  have hschedule := ht.schedule fun last resume hhalts hcontinues => hcontinues.2 hhalts
  obtain ⟨stackOf, stackOf', hholds, hrun⟩ := run_of_convertBlocks hschedule .start hconvert
  exact ⟨stackOf, stackOf', fun f => hholds.empty f (Nat.zero_le _), hrun⟩

/-- **After the pass.**  A converted operation comes from a step of the trace, and is read as the
words that the machine takes there. -/
theorem values_after_pass
    (ht : t.WellNested (fun prev => ¬ prev.Halting) (fun last _ => last.Halting))
    (hlegal : ∀ op ∈ t.ops, op.opcode.Legal) (hfits : Fits t.steps)
    (hconvert : convertBlocks {} (blocksOf t.ops) = .ok (c, ts)) {m : Machine}
    (hpass : Machine.run false { store := c.store } (ts.flatMap (·.ops)) = (m, none)) {tac : TacOp}
    (htac : tac ∈ ts.flatMap (·.ops)) (hfiller : tac.opcode.same Opcode.nop = false) :
    ∃ i s, tac.loc? = some i ∧ t.steps[i]? = some s ∧ tac.pc = s.op.pc ∧
      tac.opcode = tacOpcode s.op.opcode ∧
      (s.op.opcode.isPush = false → s.op.opcode.isMissing = false →
        tac.args.map (·.values m.store) =
          (taken s.op (found t.steps i s)).map fun w => .ok (.single w)) := by
  obtain ⟨stackOf, stackOf', hempty, hrun⟩ := run_of_wellNested ht hconvert
  have hops : ∀ op ∈ (blocksOf t.ops).flatMap (·.ops), op.opcode.Legal := by
    intro op hop
    obtain ⟨b, hb, hop⟩ := List.mem_flatMap.mp hop
    exact hlegal _ (toTraceOp_mem_of_mem_blocksOf hb hop)
  have hsteps : ∀ s ∈ t.steps, s.op.opcode.Legal := fun s hs =>
    hlegal s.op (t.map_op_steps ▸ List.mem_map_of_mem hs)
  have hmodels : ∀ f, Models [] (stackOf f) (after (t.steps.take 0) f) := by
    intro f
    obtain ⟨d, hd⟩ := hempty f
    rw [hd]
    exact ⟨rfl, rfl⟩
  obtain ⟨vals, -, -, hexplained⟩ := run_explained hfits hrun 0 [] t.follow hops rfl hmodels
  have hnop := nop_of_convertBlocks hconvert
  have hagrees := run_agrees hsteps hexplained (.start c.store vals)
    ((Machine.run_fromTrace hnop).trans hpass)
  have hplaced : tac.place.isSome = true := by
    refine Option.isSome_iff_ne_none.mpr fun hnone => ?_
    rw [hnop tac htac hnone] at hfiller
    exact absurd hfiller (by decide)
  exact args_of_explained hexplained hagrees (List.mem_filter.mpr ⟨htac, hplaced⟩)

end Converted

/-! ## 2. The run and the graph -/

/-- **The graph computes the run of a trace.**  The operands of each operation, constants, fillers
and unknown opcodes apart, have one value each after the pass: the words that the stack machine
takes at the step that the operation comes from.  And no step of the blocks is left out that does
more than move stack items. -/
structure ComputesRun (t : Frame) (g : Graph) : Prop where
  operands : ∀ op ∈ g.ops, op.opcode.same Opcode.const = false → op.opcode.same Opcode.nop = false →
    op.opcode.isMissing = false →
    ∃ i s, op.loc? = some i ∧ t.steps[i]? = some s ∧ op.pc = s.op.pc ∧
      op.opcode = tacOpcode s.op.opcode ∧
      op.args.map (·.values g.machine.store) =
        (taken s.op (found t.steps i s)).map fun w => .ok (.single w)
  complete : ∀ i s, t.steps[i]? = some s → i < coveredCount (blocksOf t.ops) →
    Acts s.op.opcode → ∃ op ∈ g.ops, op.loc? = some i ∧ op.opcode = tacOpcode s.op.opcode

/-- A trace of frames nested to any depth, each entered after an operation that does not halt and
left by a halt, whose run never takes from an empty stack and never leaves more than 1024 words: if
its graph can be made, the graph computes the run. -/
theorem graph_computes_run (t : Frame)
    (ht : t.WellNested (fun prev => ¬ prev.Halting) (fun last _ => last.Halting))
    (hlegal : ∀ op ∈ t.ops, op.opcode.Legal) (hfits : Fits t.steps) {g : Graph}
    (hg : Graph.ofTrace t.ops = .ok g) : ComputesRun t g := by
  obtain ⟨c, ts, hconvert, hops, hpass⟩ := Graph.ofTrace_eq_ok hg
  constructor
  case operands =>
    intro op hop hconst hfiller hmissing
    obtain ⟨tac, htac, hopcode, hargs, hpc, hplace⟩ := TacOp.exists_of_unnumbered hops hop
    obtain ⟨i, s, hloc, hs, hpc', hopcode', hvalues⟩ :=
      values_after_pass ht hlegal hfits hconvert hpass htac (by rwa [hopcode])
    rw [TacOp.loc?, hplace] at hloc
    rw [hopcode] at hopcode'
    rw [hopcode'] at hconst hmissing
    refine ⟨i, s, hloc, hs, hpc.symm.trans hpc', hopcode', ?_⟩
    rw [← hargs]
    exact hvalues (isPush_of_tacOpcode hconst) (isMissing_of_tacOpcode hmissing)
  case complete =>
    intro i s hs hi hacts
    obtain ⟨stackOf, stackOf', -, hrun⟩ := run_of_wellNested ht hconvert
    rw [coveredCount] at hi
    obtain ⟨hloc, s', hs', htrace, -⟩ := t.follow i _ (List.getElem?_eq_getElem hi)
    rw [Nat.zero_add] at hloc hs'
    obtain rfl : s = s' := Option.some.inj (hs.symm.trans hs')
    rw [← htrace] at hacts
    obtain ⟨tac, htac, hplace, hopcode⟩ := hrun.exists_of_acts (List.getElem_mem hi) hacts
    obtain ⟨op, hop, hopcode', -, -, hplace'⟩ :=
      TacOp.exists_of_unnumbered hops.symm (List.mem_filter.mp htac).1
    refine ⟨op, hop, by rw [TacOp.loc?, hplace', hplace, Option.map_some, hloc], ?_⟩
    rw [hopcode', hopcode, htrace]

/-- A frame that computes the operands of a call, makes the call, and uses what it returns; the
callee computes on a stack of its own. -/
def computedCall : Frame where
  first := { pc := 0, opcode := .push 1, value := some 5 }
  body :=
    .step { pc := 2, opcode := .push 1, value := some 7 }
      (.step { pc := 4, opcode := .mul }
      (.step { pc := 5, opcode := .dup 1 }
      (.step { pc := 6, opcode := .dup 1 }
      (.step { pc := 7, opcode := .dup 1 }
      (.step { pc := 8, opcode := .dup 1 }
      (.step { pc := 9, opcode := .dup 1 }
      (.step { pc := 10, opcode := .dup 1 }
      (.call { pc := 0, opcode := .push 1, value := some 3 }
          (.step { pc := 2, opcode := .caller, value := some 9 }
          (.step { pc := 3, opcode := .swap 1 }
          (.step { pc := 4, opcode := .sub }
          (.step { pc := 5, opcode := .stop } .done))))
          { pc := 11, opcode := .call, value := some 1 }
        (.step { pc := 12, opcode := .iszero }
        (.step { pc := 13, opcode := .stop } .done))))))))))

theorem operands_of_computedCall :
    (computedCall.WellNested (fun prev => ¬ prev.Halting) (fun last _ => last.Halting) ∧
      (∀ op ∈ computedCall.ops, op.opcode.Legal) ∧ Fits computedCall.steps) ∧
    ∃ g, Graph.ofTrace computedCall.ops = .ok g ∧ ∃ op ∈ g.ops, op.opcode = .call ∧
      op.args.map (·.values g.machine.store) = List.replicate 7 (.ok (.single 35)) := by
  have hnested : computedCall.WellNested (fun prev => ¬ prev.Halting)
      (fun last _ => last.Halting) := by decide +kernel
  have hlegal : ∀ op ∈ computedCall.ops, op.opcode.Legal := by decide +kernel
  have hfits : Fits computedCall.steps := by decide +kernel
  refine ⟨⟨hnested, hlegal, hfits⟩, ?_⟩
  have hmade : (Graph.ofTrace computedCall.ops).toBool = true := by decide +kernel
  obtain ⟨g, hg⟩ : ∃ g, Graph.ofTrace computedCall.ops = .ok g := by
    cases hg : Graph.ofTrace computedCall.ops with
    | error e => simp [hg, Except.toBool] at hmade
    | ok g => exact ⟨g, rfl⟩
  have hrun := graph_computes_run computedCall hnested hlegal hfits hg
  -- the call is the fifteenth operation of the trace
  have hcall : ∀ s ∈ computedCall.steps[14]?, s.op.opcode = .call ∧
      taken s.op (found computedCall.steps 14 s) = List.replicate 7 35 := by decide +kernel
  obtain ⟨s, hs⟩ : ∃ s, computedCall.steps[14]? = some s := ⟨_, rfl⟩
  obtain ⟨hopcode, htaken⟩ := hcall s hs
  obtain ⟨op, hop, hloc, htac⟩ := hrun.complete 14 s hs (by decide +kernel) (by
    rw [hopcode]
    exact ⟨rfl, rfl, rfl⟩)
  have hopcall : op.opcode = .call := by
    rw [htac, hopcode]
    rfl
  obtain ⟨i, s', hloc', hs', -, -, hvalues⟩ := hrun.operands op hop (by rw [hopcall]; rfl)
    (by rw [hopcall]; rfl) (by rw [hopcall]; decide +kernel)
  obtain rfl : 14 = i := Option.some.inj (hloc.symm.trans hloc')
  obtain rfl : s = s' := Option.some.inj (hs.symm.trans hs')
  refine ⟨g, hg, op, hop, hopcall, ?_⟩
  rw [hvalues, htaken, List.map_replicate]

end TraceLift
