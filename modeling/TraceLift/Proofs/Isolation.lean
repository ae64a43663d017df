/-
# Frames do not disturb each other

A frame is converted as if it were alone.  Its operations are spread over many blocks, and the
blocks of other frames lie between them; but a frame's stack is touched by its own operations
only, so what they become is what they become when they are converted in a row on an empty stack.
Only the numbers of the variables differ: all frames share one store, and the numbers of the
isolated conversion are spread out, in order, over those of the whole.

The isolated conversion is carried along beside the run of all frames (`Run.alone`): its stack is
that of the frame with other variables, and an operation of another frame moves neither.  The
renaming is read off the results that the frame binds, which are numbered in the order of the
operations (`Run.targets_tacsOf`).  The result is `frames_isolated`.
-/
import Mathlib.Order.Monotone.Defs
import Mathlib.Order.Nat
import TraceLift.Proofs.Turns

namespace TraceLift

namespace Conversion

variable {frameOf : Nat → Nat} {S S' : Store} {stackOf stackOf' : Nat → Stack Operand}
  {ops : List PlacedOp} {tacs : List TacOp}

/-! ## 1. One frame alone -/

/-- The operations of one frame. -/
def opsOf (frameOf : Nat → Nat) (frame : Nat) (ops : List PlacedOp) : List PlacedOp :=
  ops.filter fun op => frameOf op.place.loc = frame

/-- The three-address operations that come from one frame. -/
def tacsOf (frameOf : Nat → Nat) (frame : Nat) (tacs : List TacOp) : List TacOp :=
  tacs.filter fun tac => tac.loc?.map frameOf = some frame

theorem tacsOf_cons {frame block : Nat} {store store' : Store} {stack stack' : Stack Operand}
    {op : PlacedOp} {tac : Option TacOp}
    (h : Converts block store stack op store' stack' tac) (tacs : List TacOp) :
    tacsOf frameOf frame (tac.toList ++ tacs) =
      (if frameOf op.place.loc = frame then tac.toList else []) ++ tacsOf frameOf frame tacs := by
  rw [tacsOf, List.filter_append, ← tacsOf]
  congr 1
  cases tac with
  | none => simp [tacsOf]
  | some t =>
    have hloc : t.loc? = some op.place.loc := by simp [TacOp.loc?, place_of_converts h t rfl]
    by_cases hframe : frameOf op.place.loc = frame <;> simp [tacsOf, hloc, hframe]

/-- **A frame is converted as if it were alone.**  Along the run of all frames the operations of
one frame are converted in a row, on a stack that differs from the frame's own only in the
variables.  The renaming `r` is fixed beforehand, by the variables that the frame binds in the
run. -/
theorem Run.alone (h : Run frameOf S stackOf ops S' stackOf' tacs) (frame : Nat)
    (r : VarId → VarId) : ∀ (S₀ : Store) (s₀ : Stack Operand) (d : Option Int),
    stackOf frame = s₀.relabel (·.rename r) d →
    (∀ (j : Nat) (x : VarId), (Conversion.targets (tacsOf frameOf frame tacs))[j]? = some x →
      r (S₀.size + j) = x) →
    ∃ S₁ s₁ alone, convertOps 0 S₀ s₀ (opsOf frameOf frame ops) = .ok (S₁, s₁, alone) ∧
      tacsOf frameOf frame tacs = alone.map (·.rename r) := by
  induction h with
  | nil => exact fun S₀ s₀ _ _ _ => ⟨S₀, s₀, [], rfl, rfl⟩
  | @cons block S stackOf op ops S₁ stack₁ tac S' stackOf' tacs hop _ ih =>
    intro S₀ s₀ d hstack hr
    rw [tacsOf_cons hop] at hr ⊢
    by_cases hframe : frameOf op.place.loc = frame
    · subst hframe
      rw [if_pos rfl, targets_append] at hr
      rw [hstack] at hop
      obtain ⟨S₂, s₂, tac₂, hop₂, rfl, rfl, hsize⟩ := hop.of_relabel 0 S₀ (by
        intro t ht b hb
        exact hr 0 b.target (by simp [Option.mem_def.mp ht, TacOp.target?, Option.mem_def.mp hb]))
      have hlength : ((tac₂.map (·.rename r)).bind (·.target?)).toList.length =
          (tac₂.bind (·.target?)).toList.length := by
        cases tac₂ with
        | none => rfl
        | some t => cases hb : t.binding <;> simp [TacOp.target?, TacOp.rename, hb]
      obtain ⟨S₃, s₃, alone, hops, htacs⟩ := ih S₂ s₂ d (Function.update_self ..) (by
        intro j x hx
        rw [hsize, Nat.add_assoc, ← hlength]
        exact hr _ x (by rwa [List.getElem?_append_right (by omega), Nat.add_sub_cancel_left]))
      refine ⟨S₃, s₃, tac₂.toList ++ alone, ?_, ?_⟩
      · rw [opsOf, List.filter_cons_of_pos (by simp)]
        exact convertOps_cons_eq_ok_iff.mpr ⟨S₂, s₂, tac₂, alone, hop₂, hops, rfl⟩
      · rw [if_pos rfl, htacs, List.map_append]
        cases tac₂ <;> rfl
    · rw [if_neg hframe, List.nil_append] at hr ⊢
      rw [opsOf, List.filter_cons_of_neg (by simpa using hframe)]
      exact ih S₀ s₀ d (by rwa [Function.update_of_ne (Ne.symm hframe)]) hr

theorem tacsOf_fromTrace (frame : Nat) (tacs : List TacOp) :
    tacsOf frameOf frame (fromTrace tacs) = tacsOf frameOf frame tacs := by
  rw [tacsOf, fromTrace, List.filter_filter, tacsOf]
  congr 1
  funext t
  cases hplace : t.place <;> simp [TacOp.loc?, hplace]

/-- Ascending numbers are the values of a renaming that keeps the order. -/
theorem exists_renaming {ids : List Nat} {bound : Nat} (hsorted : ids.Pairwise (· < ·))
    (hbound : ∀ k ∈ ids, k < bound) :
    ∃ r : Nat → Nat, StrictMono r ∧ ∀ (j x : Nat), ids[j]? = some x → r j = x := by
  refine ⟨fun j => ids.getD j (bound + j), fun i j hij => ?_, fun j x hx => by simp [hx]⟩
  rcases Nat.lt_or_ge j ids.length with hj | hj
  · have hi := Nat.lt_trans hij hj
    simpa [hi, hj] using List.pairwise_iff_getElem.mp hsorted i j hi hj hij
  · rcases Nat.lt_or_ge i ids.length with hi | hi
    · have := hbound ids[i] (List.getElem_mem hi)
      simp only [List.getD_eq_getElem?_getD, List.getElem?_eq_none hj, List.getElem?_eq_getElem hi,
        Option.getD_some, Option.getD_none]
      omega
    · simpa [hi, hj] using hij

/-- The variables that a frame binds ascend, and lie in the store. -/
theorem Run.targets_tacsOf (h : Run frameOf S stackOf ops S' stackOf' tacs) (frame : Nat) :
    (Conversion.targets (tacsOf frameOf frame tacs)).Pairwise (· < ·) ∧
      ∀ k ∈ Conversion.targets (tacsOf frameOf frame tacs), k < S'.size := by
  obtain ⟨k, hsize, htargets⟩ := h.targets
  have hsub : (Conversion.targets (tacsOf frameOf frame tacs)).Sublist (List.range' S.size k) := by
    rw [← htargets]
    exact List.filter_sublist.filterMap _
  refine ⟨(List.pairwise_lt_range' ..).sublist hsub, fun x hx => ?_⟩
  rw [hsize]
  exact (List.mem_range'_1.mp (hsub.subset hx)).2

end Conversion

/-! ## 2. The whole trace -/

open Conversion

/-- **Frames do not disturb each other.**  Take a trace of frames nested to any depth, each entered
after an operation that does not halt, and each left either by a halt or to a call that does not
adjoin its last operation; let the opcodes be legal and the values recorded.  Its blocks are
converted, unless a program counter is negative: the conversion never runs out of suspended
frames and never finds a block without one.  And the operations of each frame become what they
become alone, in a row on an empty stack, up to a renaming of the variables that keeps their
order. -/
theorem frames_isolated (t : Frame)
    (ht : t.WellNested (fun prev => ¬ prev.Halting)
      (fun last resume => last.Halting ∨ ¬ resume.Adjoins last))
    (hlegal : ∀ op ∈ t.ops, op.opcode.Legal) (hrecorded : ∀ op ∈ t.ops, op.Recorded) :
    (∃ c ts, convertBlocks {} (blocksOf t.ops) = .ok (c, ts) ∧ ∀ frame, ∃ S s alone r,
      convertOps 0 #[] {} (opsOf t.frameAt frame ((blocksOf t.ops).flatMap (·.ops))) =
        .ok (S, s, alone) ∧
      tacsOf t.frameAt frame (ts.flatMap (·.ops)) = alone.map (·.rename r) ∧ StrictMono r) ∨
    (∃ e, convertBlocks {} (blocksOf t.ops) = .error e ∧
      (e = .negativeEntry ∨ e = .negativeExit) ∧ ∃ op ∈ t.ops, op.pc < 0) := by
  have hleaves : ∀ last resume : TraceOp, last.Halting ∨ ¬ resume.Adjoins last →
      ¬ resume.Continues last := by
    rintro last resume (hhalts | hapart) ⟨hadjoins, hruns⟩
    · exact hruns hhalts
    · exact hapart hadjoins
  have hschedule := ht.schedule hleaves
  cases hconvert : convertBlocks {} (blocksOf t.ops) with
  | error e =>
    have hops : ∀ b ∈ blocksOf t.ops, ∀ op ∈ b.ops, op.opcode.Legal ∧ op.toTraceOp.Recorded := by
      intro b hb op hop
      have hmem := toTraceOp_mem_of_mem_blocksOf hb hop
      exact ⟨hlegal _ hmem, hrecorded _ hmem⟩
    obtain ⟨hfault, b, hb, op, hop, hneg⟩ := error_of_convertBlocks hschedule .start hops hconvert
    exact .inr ⟨e, rfl, hfault, _, toTraceOp_mem_of_mem_blocksOf hb hop, hneg⟩
  | ok r =>
    obtain ⟨c, ts⟩ := r
    obtain ⟨stackOf, stackOf', hholds, hrun⟩ := run_of_convertBlocks hschedule .start hconvert
    refine .inl ⟨c, ts, rfl, fun frame => ?_⟩
    obtain ⟨hsorted, hbound⟩ := hrun.targets_tacsOf frame
    obtain ⟨r, hmono, hr⟩ := exists_renaming hsorted hbound
    obtain ⟨d, hempty⟩ := hholds.empty frame (Nat.zero_le _)
    obtain ⟨S, s, alone, halone, htacs⟩ := hrun.alone frame r #[] {} d hempty (by
      intro j x hx
      rw [← hr j x hx]
      exact congrArg r (Nat.zero_add j))
    exact ⟨S, s, alone, r, halone, by rw [← htacs, tacsOf_fromTrace], hmono⟩

/-- A frame with two calls: the first callee dies without a halt, the second one makes a call
itself. -/
def callsTwice : Frame where
  first := { pc := 0, opcode := .push 1, value := some 5 }
  body :=
    .call { pc := 0, opcode := .push 1, value := some 7 }
        (.step { pc := 2, opcode := .sload, value := some 9 } .done)
        { pc := 40, opcode := .call, value := some 1 }
      (.step { pc := 41, opcode := .add }
        (.call { pc := 0, opcode := .push 2, value := some 3 }
            (.call { pc := 0, opcode := .caller, value := some 8 }
                (.step { pc := 1, opcode := .stop } .done)
                { pc := 30, opcode := .create, value := some 6 }
              (.step { pc := 31, opcode := .revert } .done))
            { pc := 60, opcode := .staticcall, value := some 0 }
          (.step { pc := 61, opcode := .stop } .done)))

theorem callsTwice_isolated :
    (callsTwice.WellNested (fun prev => ¬ prev.Halting)
        (fun last resume => last.Halting ∨ ¬ resume.Adjoins last) ∧
      (∀ op ∈ callsTwice.ops, op.opcode.Legal) ∧ (∀ op ∈ callsTwice.ops, op.Recorded)) ∧
    ∃ c ts, convertBlocks {} (blocksOf callsTwice.ops) = .ok (c, ts) ∧ ∀ frame, ∃ S s alone r,
      convertOps 0 #[] {}
        (opsOf callsTwice.frameAt frame ((blocksOf callsTwice.ops).flatMap (·.ops))) =
          .ok (S, s, alone) ∧
      tacsOf callsTwice.frameAt frame (ts.flatMap (·.ops)) = alone.map (·.rename r) ∧
      StrictMono r := by
  have hnested : callsTwice.WellNested (fun prev => ¬ prev.Halting)
      (fun last resume => last.Halting ∨ ¬ resume.Adjoins last) := by decide +kernel
  have hlegal : ∀ op ∈ callsTwice.ops, op.opcode.Legal := by decide +kernel
  have hrecorded : ∀ op ∈ callsTwice.ops, op.Recorded := by decide +kernel
  have hpcs : ∀ op ∈ callsTwice.ops, 0 ≤ op.pc := by decide +kernel
  refine ⟨⟨hnested, hlegal, hrecorded⟩, ?_⟩
  rcases frames_isolated callsTwice hnested hlegal hrecorded with h | ⟨_, -, -, op, hop, hneg⟩
  · exact h
  · exact absurd (hpcs op hop) (Int.not_le.mpr hneg)

end TraceLift
