/-
# What comes later changes an earlier place only through the first operation

The marks of a trace are made in one pass from left to right, so what comes later in a trace should
never change how an earlier operation was placed.  The pass itself keeps this: from any state it
marks a front part of the trace in the same way whatever follows (`take_markFrom_append`).

The start does not.  The operation before the first one is taken to be the LAST one, and a call or
creation at the start that happens to continue the last operation is not counted as a return from a
frame.  Appending operations changes which one is the last.  The depth of the first operation then
changes by one, and with it the depth of every operation after it (`markFrom_deepen`), since the
pass only ever adds to the depth that it is given.

Positions and numbers of frames are not touched, and no trace that starts at program counter zero
is affected.  `places_causal_iff` says exactly which traces are.
-/
import TraceLift.Proofs.Partition

namespace TraceLift

/-! ## 1. The pass -/

/-- A place at a depth that differs by `shift`. -/
def Placement.deepen (shift : Int) (p : Placement) : Placement :=
  { p with depth := p.depth + shift }

/-- A mark with its depth moved by `shift`. -/
def Mark.deepen (shift : Int) (m : Mark) : Mark := { m with place := m.place.deepen shift }

/-- **The pass does not look ahead.** -/
theorem take_markFrom_append (xs ys : List TraceOp) (prev : TraceOp) (pn loc number : Nat)
    (depth : Int) :
    (markFrom prev pn loc number depth (xs ++ ys)).take xs.length =
      markFrom prev pn loc number depth xs := by
  induction xs generalizing prev pn loc number depth with
  | nil => rfl
  | cons op xs ih =>
    simp only [List.cons_append, markFrom, List.length_cons, List.take_succ_cons, ih]

/-- **The pass resumes from any mark.**  What it still needs to know after an operation is written
in the mark of that operation. -/
theorem drop_markFrom {ops : List TraceOp} {prev : TraceOp} {pn loc number : Nat} {depth : Int}
    {i : Nat} {m : Mark} (h : (markFrom prev pn loc number depth ops)[i]? = some m) :
    (markFrom prev pn loc number depth ops).drop (i + 1) =
      markFrom m.op m.place.number (loc + i + 1) m.place.number m.place.depth
        (ops.drop (i + 1)) := by
  induction ops generalizing prev pn loc number depth i with
  | nil => simp [markFrom] at h
  | cons op ops ih =>
    cases i with
    | zero =>
      simp only [markFrom, List.getElem?_cons_zero, Option.some.injEq] at h
      subst h
      rfl
    | succ i =>
      simp only [markFrom, List.getElem?_cons_succ] at h
      rw [show loc + (i + 1) + 1 = loc + 1 + i + 1 by omega]
      exact ih h

theorem drop_marks {ops : List TraceOp} {i : Nat} {m : Mark} (h : (marks ops)[i]? = some m) :
    (marks ops).drop (i + 1) =
      markFrom m.op m.place.number (i + 1) m.place.number m.place.depth (ops.drop (i + 1)) := by
  unfold marks at h ⊢
  split at h
  · rw [drop_markFrom h, Nat.zero_add]
  · simp at h

/-- **After the first operation the depth is only added to**, so a pass from another depth gives
the same marks at depths that differ by as much. -/
theorem markFrom_deepen (shift : Int) (ops : List TraceOp) (prev : TraceOp) (pn loc number : Nat)
    (depth : Int) :
    markFrom prev pn (loc + 1) number (depth + shift) ops =
      (markFrom prev pn (loc + 1) number depth ops).map (·.deepen shift) := by
  induction ops generalizing prev pn loc number depth with
  | nil => rfl
  | cons op ops ih =>
    have hup : depth + shift + 1 = depth + 1 + shift := by omega
    have hdown : depth + shift - 1 = depth - 1 + shift := by omega
    by_cases hpc : op.pc = 0
    · simp [markFrom, hpc, hup, ih, Mark.deepen, Placement.deepen]
    · by_cases hcall : op.opcode.opensFrame = true
      · by_cases hnext : pn = number ∧ op.follows prev = true
        · simp [markFrom, hpc, hcall, hnext, ih, Mark.deepen, Placement.deepen]
        · simp [markFrom, hpc, hcall, hnext, hdown, ih, Mark.deepen, Placement.deepen]
      · simp [markFrom, hpc, hcall, ih, Mark.deepen, Placement.deepen]

/-! ## 2. The first operation -/

namespace TraceOp

/-- The first operation of a trace continues the last one, and no frame is entered in between. -/
def Wraps (op : TraceOp) (rest : List TraceOp) : Prop :=
  frameCount (op :: rest) = 0 ∧ op.Continues (rest.getLast?.getD op)

instance (op : TraceOp) (rest : List TraceOp) : Decidable (op.Wraps rest) :=
  inferInstanceAs (Decidable (_ ∧ _))

/-- The depth at which a trace starts. -/
def firstDepth (op : TraceOp) (rest : List TraceOp) : Int :=
  if op.pc = 0 then 1
  else if op.opcode.opensFrame = true ∧ ¬ op.Wraps rest then -1
  else 0

/-- Two traces with the same first operation start at the same depth unless that operation is
compared with the last one, and with different results. -/
theorem firstDepth_eq_iff (op : TraceOp) (xs ys : List TraceOp) :
    op.firstDepth xs = op.firstDepth ys ↔
      op.pc = 0 ∨ op.opcode.opensFrame = false ∨ (op.Wraps xs ↔ op.Wraps ys) := by
  unfold firstDepth
  by_cases hpc : op.pc = 0
  · simp [hpc]
  · by_cases hcall : op.opcode.opensFrame = true
    · by_cases hxs : op.Wraps xs <;> by_cases hys : op.Wraps ys <;> simp [hpc, hcall, hxs, hys]
    · simp [hpc, hcall]

theorem firstDepth_sub_le (op : TraceOp) (xs ys : List TraceOp) :
    (op.firstDepth xs - op.firstDepth ys).natAbs ≤ 1 := by
  unfold firstDepth
  by_cases hpc : op.pc = 0
  · simp [hpc]
  · rw [if_neg hpc, if_neg hpc]
    split <;> split <;> decide

end TraceOp

/-- The marks of a trace, with the depth of the first one. -/
theorem marks_firstDepth (op : TraceOp) (rest : List TraceOp) :
    ∃ starts, marks (op :: rest) =
      { op, place := { loc := 0, depth := op.firstDepth rest, number := 0 }, starts } ::
        markFrom op 0 1 0 (op.firstDepth rest) rest := by
  have hlast : (op :: rest).getLast? = some (rest.getLast?.getD op) := List.getLast?_cons
  simp only [marks, hlast, markFrom, TraceOp.firstDepth]
  by_cases hpc : op.pc = 0
  · simp [hpc]
  · by_cases hcall : op.opcode.opensFrame = true
    · by_cases hwraps : op.Wraps rest
      · have hfollows := TraceOp.follows_iff.mpr hwraps.2
        simp [hpc, hcall, hwraps, hwraps.1, hfollows]
      · have hfollows : ¬ (frameCount (op :: rest) = 0 ∧
            op.follows (rest.getLast?.getD op) = true) := by
          rw [TraceOp.follows_iff]
          exact hwraps
        simp [hpc, hcall, hwraps, hfollows]
    · simp [hpc, hcall]

/-! ## 3. Causality -/

/-- The places that the operations of a trace get. -/
def places (ops : List TraceOp) : List Placement := (marks ops).map (·.place)

/-- A front part of a trace is placed as it is alone, except for the depth. -/
theorem take_places_append (op : TraceOp) (xs ys : List TraceOp) :
    (places (op :: xs ++ ys)).take (op :: xs).length =
      (places (op :: xs)).map
        (·.deepen (op.firstDepth (xs ++ ys) - op.firstDepth xs)) := by
  obtain ⟨starts, halone⟩ := marks_firstDepth op xs
  obtain ⟨starts', hlonger⟩ := marks_firstDepth op (xs ++ ys)
  have hdepth : op.firstDepth (xs ++ ys) =
      op.firstDepth xs + (op.firstDepth (xs ++ ys) - op.firstDepth xs) := by omega
  have hrest : (markFrom op 0 1 0 (op.firstDepth (xs ++ ys)) (xs ++ ys)).take xs.length =
      (markFrom op 0 1 0 (op.firstDepth xs) xs).map
        (·.deepen (op.firstDepth (xs ++ ys) - op.firstDepth xs)) := by
    rw [take_markFrom_append, ← markFrom_deepen, ← hdepth]
  rw [places, places, List.cons_append, hlonger, halone, ← List.map_take, List.length_cons,
    List.take_succ_cons, hrest]
  simp [Mark.deepen, Placement.deepen, ← hdepth]

/-- **Causality.**  For every trace that is not empty and every continuation of it: in the longer
trace its operations have the positions and the numbers of frames that they have alone, and their
depths differ by the same amount, which is at most one.  They are placed exactly as alone if and
only if the first operation is at program counter zero, or is neither a call nor a creation, or
continues the last operation of both traces or of neither, where entering a frame later counts as
not continuing it. -/
theorem places_causal_iff (op : TraceOp) (xs ys : List TraceOp) :
    (∃ shift : Int, shift.natAbs ≤ 1 ∧
      (places (op :: xs ++ ys)).take (op :: xs).length =
        (places (op :: xs)).map (·.deepen shift)) ∧
    ((places (op :: xs ++ ys)).take (op :: xs).length = places (op :: xs) ↔
      op.pc = 0 ∨ op.opcode.opensFrame = false ∨ (op.Wraps xs ↔ op.Wraps (xs ++ ys))) := by
  refine ⟨⟨_, op.firstDepth_sub_le (xs ++ ys) xs, take_places_append op xs ys⟩, ?_⟩
  rw [take_places_append, ← TraceOp.firstDepth_eq_iff]
  constructor
  · intro heq
    -- the first place has the depth at which the trace starts
    obtain ⟨starts, hmarks⟩ := marks_firstDepth op xs
    rw [places, hmarks, List.map_cons, List.map_cons, List.cons.injEq] at heq
    have hdepth := congrArg Placement.depth heq.1
    simp only [Placement.deepen] at hdepth
    omega
  · intro heq
    rw [← heq, Int.sub_self]
    simp [Placement.deepen]

/-- A call that no operation precedes. -/
def leadingCall : TraceOp := { pc := 2, opcode := .call, value := some 1 }

/-- The call alone returns from a frame.  With an operation after it that it happens to continue, it
does not. -/
theorem not_causal_leadingCall :
    places [leadingCall] = [{ loc := 0, depth := -1, number := 0 }] ∧
      places ([leadingCall] ++ [{ pc := 1, opcode := .jumpdest }]) =
        [{ loc := 0, depth := 0, number := 0 }, { loc := 1, depth := 0, number := 0 }] ∧
      ¬ ∀ xs ys : List TraceOp, xs ≠ [] →
        (places (xs ++ ys)).take xs.length = places xs := by
  refine ⟨by decide +kernel, by decide +kernel, fun h => ?_⟩
  have hplaces := h [leadingCall] [{ pc := 1, opcode := .jumpdest }] (by simp)
  exact absurd hplaces (by decide +kernel)

end TraceLift
