/-
# Well-nested traces, and what their marks say

A transaction runs a tree of frames.  A frame starts at program counter zero; what it executes
after that are operations of its own and frames that it enters, and after each of those the call
or creation that control comes back to.  The trace shows the tree flattened, and nothing in it
says where a frame ends.

This module gives the tree (`Frame`), its flattening (`Frame.ops`), and what each operation of the
flat list is in the tree (`Frame.steps`): the frames that are active there, innermost first, and
whether it opens a frame, runs on in one, or resumes one.

* **One step.**  `Trail` says what may follow what in the flat list.  It knows the tree only through
  the active frames, so it is a relation between neighbours, and `FrameBody.trail` is the one
  induction over the tree.
* **The marks.**  Along a trail the running counters of `markFrom` are the size of the chain of
  active frames and the number of frames entered (`markFrom_of_trail`).

Hence `marks_of_wellNested`: position, depth, number and block starts of every operation of a
well-nested trace are those of the tree.  What has to stand in front of a nested frame, and what
has to stand at its end, is left open (`enters`, `leaves`); the marks need only that the call that
control comes back to does not continue the last operation of the frame.
-/
import TraceLift.Proofs.Partition

namespace TraceLift

/-! ## 1. Frames -/

/-- What a frame executes after its first operation. -/
inductive FrameBody where
  /-- Nothing more. -/
  | done
  /-- An operation of the frame itself. -/
  | step (op : TraceOp) (rest : FrameBody)
  /-- A frame entered from here, given by its first operation and what follows it, and the call or
  creation that control comes back to. -/
  | call (first : TraceOp) (callee : FrameBody) (resume : TraceOp) (rest : FrameBody)

/-- A frame: its first operation and what it executes after that. -/
structure Frame where
  first : TraceOp
  body : FrameBody

namespace FrameBody

/-- The operations in the order of the trace. -/
def ops : FrameBody → List TraceOp
  | done => []
  | step op rest => op :: rest.ops
  | call first callee resume rest => first :: (callee.ops ++ resume :: rest.ops)

/-- The last operation of the frame, given the one before. -/
def lastOp (prev : TraceOp) : FrameBody → TraceOp
  | done => prev
  | step op rest => rest.lastOp op
  | call _ _ resume rest => rest.lastOp resume

/-- The number of frames entered, at any depth. -/
def frames : FrameBody → Nat
  | done => 0
  | step _ rest => rest.frames
  | call _ callee _ rest => 1 + callee.frames + rest.frames

end FrameBody

/-- The operations in the order of the trace. -/
def Frame.ops (t : Frame) : List TraceOp := t.first :: t.body.ops

section WellNested

variable (enters : TraceOp → Prop) (leaves : TraceOp → TraceOp → Prop)

/-- What a frame may execute after an operation: an operation at a program counter other than
zero, which if it is a call or creation continues the one before; or a whole frame, which starts
at program counter zero with neither a call nor a creation, and then a call or creation at a
program counter other than zero.  `enters` holds of the operation before a nested frame, `leaves`
of the last operation in it and the call that control comes back to. -/
def FrameBody.WellNested (prev : TraceOp) : FrameBody → Prop
  | .done => True
  | .step op rest =>
    op.pc ≠ 0 ∧ (op.opcode.opensFrame = true → op.Continues prev) ∧ rest.WellNested op
  | .call first callee resume rest =>
    enters prev ∧ (first.pc = 0 ∧ first.opcode.opensFrame = false ∧ callee.WellNested first) ∧
      leaves (callee.lastOp first) resume ∧
      (resume.pc ≠ 0 ∧ resume.opcode.opensFrame = true) ∧ rest.WellNested resume

/-- A frame starts at program counter zero with neither a call nor a creation. -/
def Frame.WellNested (t : Frame) : Prop :=
  t.first.pc = 0 ∧ t.first.opcode.opensFrame = false ∧
    t.body.WellNested enters leaves t.first

variable [DecidablePred enters] [DecidableRel leaves]

instance FrameBody.decidableWellNested : (prev : TraceOp) → (b : FrameBody) →
    Decidable (b.WellNested enters leaves prev)
  | _, .done => .isTrue trivial
  | _, .step op rest =>
    have := decidableWellNested op rest
    inferInstanceAs (Decidable (_ ∧ _ ∧ _))
  | _, .call first callee resume rest =>
    have := decidableWellNested first callee
    have := decidableWellNested resume rest
    inferInstanceAs (Decidable (_ ∧ (_ ∧ _ ∧ _) ∧ _ ∧ (_ ∧ _) ∧ _))

instance (t : Frame) : Decidable (t.WellNested enters leaves) :=
  inferInstanceAs (Decidable (_ ∧ _ ∧ _))

end WellNested

/-! ## 2. The flat list knows the tree -/

/-- What an operation does in its frame. -/
inductive Role where
  /-- It is the first one. -/
  | opening
  /-- It runs on. -/
  | running
  /-- It is the call or creation that control comes back to. -/
  | resuming
  deriving DecidableEq

/-- An operation of a trace and its place in the tree. -/
structure TraceStep where
  op : TraceOp
  /-- The frames that are active, innermost first.  Frames are numbered in the order in which they
  are entered. -/
  chain : List Nat
  role : Role

namespace TraceStep

/-- The frame that the operation belongs to. -/
def frame (s : TraceStep) : Nat := s.chain.headD 0

/-- How deep the frame is nested. -/
def depth (s : TraceStep) : Nat := s.chain.length

/-- The mark that an operation should have at a position, after so many frames were entered. -/
def mark (s : TraceStep) (loc entered : Nat) : Mark :=
  { op := s.op, place := { loc, depth := s.depth, number := entered - 1 },
    starts := loc != 0 && s.role != .running }

end TraceStep

/-- The number of frames that operations open. -/
def openings (steps : List TraceStep) : Nat := steps.countP (·.role == .opening)

/-- The operations after the first one of a frame, in trace order.  `chain` are the frames active
there and `next` is the number that the next frame gets. -/
def FrameBody.steps (chain : List Nat) (next : Nat) : FrameBody → List TraceStep
  | done => []
  | step op rest => { op, chain, role := .running } :: rest.steps chain next
  | call first callee resume rest =>
    { op := first, chain := next :: chain, role := .opening } ::
      (callee.steps (next :: chain) (next + 1) ++
        { op := resume, chain, role := .resuming } ::
          rest.steps chain (next + 1 + callee.frames))

/-- The operations of a frame, in trace order. -/
def Frame.steps (t : Frame) : List TraceStep :=
  { op := t.first, chain := [0], role := .opening } :: t.body.steps [0] 1

theorem FrameBody.map_op_steps : ∀ (b : FrameBody) (chain : List Nat) (next : Nat),
    (b.steps chain next).map (·.op) = b.ops
  | done, _, _ => rfl
  | step op rest, chain, next => by simp [steps, ops, map_op_steps rest]
  | call first callee resume rest, chain, next => by
    simp [steps, ops, map_op_steps callee, map_op_steps rest]

/-- The steps are the operations of the trace. -/
theorem Frame.map_op_steps (t : Frame) : t.steps.map (·.op) = t.ops := by
  simp [steps, ops, t.body.map_op_steps]

/-! ## 3. What may follow what -/

section Trail

variable (enters : TraceOp → Prop) (leaves : TraceOp → TraceOp → Prop)

/-- `Trail enters leaves n prev chain steps`: after the operation `prev`, with the frames `chain`
active and `n` frames entered so far, the trace may go on as `steps`.  Each step leaves the active
frames alone, puts the frame with the next number in front of them, or takes the first of them
away. -/
inductive Trail : Nat → TraceOp → List Nat → List TraceStep → Prop
  | nil {n prev chain} : Trail n prev chain []
  | run {n prev chain steps op} (hpc : op.pc ≠ 0)
      (hnext : op.opcode.opensFrame = true → op.Continues prev) (rest : Trail n op chain steps) :
      Trail n prev chain ({ op, chain, role := .running } :: steps)
  | enter {n prev chain steps op} (henters : enters prev) (hpc : op.pc = 0)
      (hplain : op.opcode.opensFrame = false) (rest : Trail (n + 1) op (n :: chain) steps) :
      Trail n prev chain ({ op, chain := n :: chain, role := .opening } :: steps)
  | resume {n prev callee frame chain steps op} (hleaves : leaves prev op) (hpc : op.pc ≠ 0)
      (hcall : op.opcode.opensFrame = true) (rest : Trail n op (frame :: chain) steps) :
      Trail n prev (callee :: frame :: chain)
        ({ op, chain := frame :: chain, role := .resuming } :: steps)

variable {enters leaves}

/-- **The flattened tree is a trail.**  This is the induction over the tree: what comes after the
frame is carried along as `tail`, so that the two frames of a call are joined at the call. -/
theorem FrameBody.trail : ∀ (b : FrameBody) {n : Nat} {prev : TraceOp} {frame : Nat}
    {chain : List Nat} {tail : List TraceStep}, b.WellNested enters leaves prev →
    Trail enters leaves (n + b.frames) (b.lastOp prev) (frame :: chain) tail →
    Trail enters leaves n prev (frame :: chain) (b.steps (frame :: chain) n ++ tail)
  | done, _, _, _, _, _, _, htail => htail
  | step op rest, _, _, _, _, _, ⟨hpc, hnext, hrest⟩, htail =>
    .run hpc hnext (trail rest hrest htail)
  | call first callee resume rest, n, _, frame, chain, tail,
      ⟨henters, ⟨hpc, hplain, hcallee⟩, hleaves, ⟨hrpc, hrcall⟩, hrest⟩, htail => by
    have hcount : n + (call first callee resume rest).frames =
        n + 1 + callee.frames + rest.frames := by
      simp only [frames]
      omega
    rw [hcount] at htail
    simp only [steps, List.cons_append, List.append_assoc]
    refine .enter henters hpc hplain (trail callee hcallee ?_)
    exact .resume hleaves hrpc hrcall (trail rest hrest htail)

theorem Frame.WellNested.trail {t : Frame} (ht : t.WellNested enters leaves) :
    Trail enters leaves 1 t.first [0] (t.body.steps [0] 1) := by
  rw [← List.append_nil (t.body.steps [0] 1)]
  exact t.body.trail ht.2.2 Trail.nil

end Trail

/-! ## 4. The marks of a well-nested trace -/

/-- The marks that steps should have from position `loc` on, after `entered` frames were
entered. -/
def annotate (loc entered : Nat) : List TraceStep → List Mark
  | [] => []
  | s :: steps =>
    s.mark loc (entered + openings [s]) :: annotate (loc + 1) (entered + openings [s]) steps

/-- **Along a trail the running counters are those of the tree**: the depth is the number of
active frames, the number is one less than the frames entered, and a block starts where a frame is
entered or resumed. -/
theorem markFrom_of_trail {enters : TraceOp → Prop} {leaves : TraceOp → TraceOp → Prop}
    (hleaves : ∀ last resume, leaves last resume → ¬ resume.Continues last)
    {n : Nat} {prev : TraceOp} {chain : List Nat} {steps : List TraceStep}
    (h : Trail enters leaves (n + 1) prev chain steps) (loc : Nat) :
    markFrom prev n (loc + 1) n chain.length (steps.map (·.op)) =
      annotate (loc + 1) (n + 1) steps := by
  generalize hm : n + 1 = m at h
  induction h generalizing n loc with
  | nil => rfl
  | run hpc hnext _ ih =>
    subst hm
    rename_i op _
    by_cases hcall : op.opcode.opensFrame = true
    · have hfollows := TraceOp.follows_iff.mpr (hnext hcall)
      simp [markFrom, annotate, hpc, hcall, hfollows, TraceStep.mark, TraceStep.depth, openings,
        ← ih]
    · simp [markFrom, annotate, hpc, hcall, TraceStep.mark, TraceStep.depth, openings, ← ih]
  | enter _ hpc _ _ ih =>
    subst hm
    simp [markFrom, annotate, hpc, TraceStep.mark, TraceStep.depth, openings, ← ih (loc + 1) rfl]
  | resume hl hpc hcall _ ih =>
    subst hm
    have hfollows := hleaves _ _ hl
    rw [← TraceOp.follows_iff] at hfollows
    simp [markFrom, annotate, hpc, hcall, hfollows, TraceStep.mark, TraceStep.depth, openings, ← ih]

theorem getElem?_annotate : ∀ (steps : List TraceStep) (loc entered i : Nat),
    (annotate loc entered steps)[i]? =
      steps[i]?.map fun s => s.mark (loc + i) (entered + openings (steps.take (i + 1)))
  | [], _, _, _ => rfl
  | s :: steps, loc, entered, 0 => by simp [annotate]
  | s :: steps, loc, entered, i + 1 => by
    have hopenings : openings ((s :: steps).take (i + 1 + 1)) =
        openings [s] + openings (steps.take (i + 1)) := by
      rw [List.take_succ_cons, openings, ← List.singleton_append, List.countP_append]
      rfl
    rw [annotate, List.getElem?_cons_succ, getElem?_annotate steps, List.getElem?_cons_succ,
      hopenings, show loc + 1 + i = loc + (i + 1) by omega, Nat.add_assoc]

/-- The marks of a well-nested trace are those that its steps should have. -/
theorem marks_eq_annotate {enters : TraceOp → Prop} {leaves : TraceOp → TraceOp → Prop}
    (hleaves : ∀ last resume, leaves last resume → ¬ resume.Continues last)
    {t : Frame} (ht : t.WellNested enters leaves) : marks t.ops = annotate 0 0 t.steps := by
  obtain ⟨depth, starts, hmarks, hstarts, hdepth⟩ := marks_cons t.first t.body.ops
  have hrest := markFrom_of_trail hleaves ht.trail 0
  rw [t.body.map_op_steps] at hrest
  -- a trace that starts at program counter zero is not cut in front of its first operation
  have hfirst : starts = false := by
    have hpc : ¬ SplitsAt (t.first :: t.body.ops) 0 := by
      rintro ⟨op, last, hop, -, hpc, -⟩
      obtain rfl : t.first = op := by simpa using hop
      exact hpc ht.1
    simpa using mt hstarts.mp hpc
  rw [Frame.ops, hmarks, hdepth ht.1, hfirst]
  exact congrArg _ hrest

/-- The positions where the trace passes from one frame to another: the first operation of each
nested frame, and the call or creation that control comes back to after it. -/
def turns (steps : List TraceStep) : List Nat :=
  (List.range steps.length).filter fun i => i != 0 && steps[i]?.any (·.role != .running)

theorem startPositions_annotate (steps : List TraceStep) :
    startPositions (annotate 0 0 steps) = turns steps := by
  have hlength : ∀ (steps : List TraceStep) (loc entered : Nat),
      (annotate loc entered steps).length = steps.length := by
    intro steps
    induction steps with
    | nil => simp [annotate]
    | cons s steps ih => simp [annotate, ih]
  rw [startPositions, turns, hlength]
  congr 1
  funext i
  rw [getElem?_annotate]
  cases steps[i]? <;> simp [TraceStep.mark]

/-- **The call structure is recovered exactly.**  In a trace whose nested frames end in a halt,
every operation is marked with its position, with the depth of its frame and with the number of
frames entered so far less one; the blocks start at the first operation and where the trace passes
from one frame to another, nowhere else, and the one still open at the end is left out; and the
operations of the blocks are placed as they are marked. -/
theorem marks_of_wellNested (t : Frame)
    (ht : t.WellNested (fun _ => True) (fun last _ => last.Halting)) :
    (∀ i : Nat, (marks t.ops)[i]? =
      t.steps[i]?.map fun s => s.mark i (openings (t.steps.take (i + 1)))) ∧
    (blocksOf t.ops).map (·.entry) =
      (let entries := (0 :: turns t.steps).map fun (i : Nat) => (i : Int)
       if keepsLast t.ops then entries else entries.dropLast) ∧
    (∀ b ∈ blocksOf t.ops, ∀ op ∈ b.ops, ∃ (i : Nat) (s : TraceStep),
      t.steps[i]? = some s ∧ op.toTraceOp = s.op ∧
      op.place = (s.mark i (openings (t.steps.take (i + 1)))).place) := by
  have hmarks : marks t.ops = annotate 0 0 t.steps :=
    marks_eq_annotate (fun _ _ hhalts hcontinues => hcontinues.2 hhalts) ht
  have hget : ∀ i : Nat, (marks t.ops)[i]? =
      t.steps[i]?.map fun s => s.mark i (openings (t.steps.take (i + 1))) := by
    intro i
    rw [hmarks, getElem?_annotate]
    simp only [Nat.zero_add]
  refine ⟨hget, ?_, fun b hb op hop => ?_⟩
  · rw [entry_blocksOf, hmarks, startPositions_annotate]
  · obtain ⟨m, hm, hop, hplace, -⟩ := mem_ops_blocksOf hb hop
    rw [hget, Option.map_eq_some_iff] at hm
    obtain ⟨s, hs, hmark⟩ := hm
    exact ⟨m.place.loc, s, hs, hop.trans (congrArg Mark.op hmark).symm,
      hplace.trans (congrArg Mark.place hmark).symm⟩

/-- A frame that enters a frame that enters a frame, and later makes a call of its own. -/
def nestedTwice : Frame where
  first := { pc := 0, opcode := .push 1, value := some 5 }
  body :=
    .call { pc := 0, opcode := .push 1, value := some 7 }
        (.call { pc := 0, opcode := .stop } .done { pc := 2, opcode := .call, value := some 1 }
          (.step { pc := 3, opcode := .revert } .done))
        { pc := 2, opcode := .create, value := some 0 }
      (.step { pc := 3, opcode := .add }
        (.step { pc := 4, opcode := .staticcall, value := some 1 }
          (.step { pc := 5, opcode := .stop } .done)))

theorem entry_blocksOf_nestedTwice :
    nestedTwice.WellNested (fun _ => True) (fun last _ => last.Halting) ∧
      (blocksOf nestedTwice.ops).map (·.entry) = [0, 1, 2, 3, 5] := by
  have hnested : nestedTwice.WellNested (fun _ => True) (fun last _ => last.Halting) := by
    decide +kernel
  obtain ⟨-, hentries, -⟩ := marks_of_wellNested nestedTwice hnested
  exact ⟨hnested, hentries.trans (by decide +kernel)⟩

end TraceLift
