/-
# A call right after a wide push is taken for a return

A call or creation that is the next instruction of the same code after an operation that does not
end the frame enters no frame that the trace shows.  It should start no block and keep the depth.

Whether it is the next instruction is decided by the distance of the two program counters.  An
instruction is one byte long, and a push also carries its operand, so the distance should be
`1 + pushLength`.  What is compared with is `pcGap`, which reads ONE digit of the width off the
name of the push.  The two agree on all opcodes but `PUSH10` to `PUSH32` (`Legal.pcGap_eq_iff`).

So the call goes on in its block unless it follows one of these (`direct_call_stays_iff`).  If it
does, the trace is cut in front of it, and since the pass only adds to the depth it is given
(`markFrom_deepen`), the call and ALL operations after it are placed one level less deep than they
are.
-/
import TraceLift.Proofs.Causality
import TraceLift.Proofs.Legal

namespace TraceLift

/-! ## 1. The length of an instruction -/

/-- **One digit of the width is enough for the narrow pushes only.** -/
theorem Opcode.Legal.pcGap_eq_iff {op : Opcode} (h : op.Legal) :
    op.pcGap = .ok (1 + op.pushLength) ↔ op.pushLength < 10 := by
  refine h.rec_on (P := fun op => op.pcGap = .ok (1 + op.pushLength) ↔ op.pushLength < 10) ?_ ?_
  · have hall : ∀ op ∈ table,
        op.pcGap.toOption = some (1 + op.pushLength) ↔ op.pushLength < 10 := by decide +kernel
    intro op hop
    rw [← hall op hop]
    cases op.pcGap <;> simp [Except.toOption]
  · intro code hcode
    have hpush := (no_family_of_unknown (show ofCode? (standIn code).code = none from hcode)).1
    simp [pcGap, pushLength, hpush]

/-- An operation is the next instruction of the same code after another: the earlier one does not
end the frame, and the program counters are as far apart as it is long. -/
structure TraceOp.IsNext (op prev : TraceOp) : Prop where
  goes_on : ¬ prev.Halting
  pc : op.pc = prev.pc + 1 + prev.opcode.pushLength

instance (op prev : TraceOp) : Decidable (op.IsNext prev) :=
  decidable_of_iff (¬ prev.Halting ∧ op.pc = prev.pc + 1 + prev.opcode.pushLength)
    ⟨fun h => ⟨h.1, h.2⟩, fun h => ⟨h.goes_on, h.pc⟩⟩

/-- The next instruction is recognised as such exactly after the narrow instructions. -/
theorem TraceOp.IsNext.continues_iff {op prev : TraceOp} (h : op.IsNext prev)
    (hlegal : prev.opcode.Legal) : op.Continues prev ↔ prev.opcode.pushLength < 10 := by
  have hdistance : op.pc - prev.pc = 1 + prev.opcode.pushLength := by
    have := h.pc
    omega
  rw [Continues, Adjoins, hdistance, hlegal.pcGap_eq_iff]
  exact and_iff_left h.goes_on

/-! ## 2. One step of the pass -/

/-- Every operation has a mark. -/
theorem exists_mark {ops : List TraceOp} {i : Nat} {op : TraceOp} (hop : ops[i]? = some op) :
    ∃ m, (marks ops)[i]? = some m ∧ m.op = op := by
  rw [← map_op_marks ops, List.getElem?_map] at hop
  exact Option.map_eq_some_iff.mp hop

/-- In front of a call after the first operation the trace is cut unless the call continues the
operation before. -/
theorem splitsAt_call_iff {ops : List TraceOp} {i : Nat} {prev op : TraceOp}
    (hprev : ops[i]? = some prev) (hop : ops[i + 1]? = some op) (hpc : op.pc ≠ 0)
    (hcall : op.opcode.opensFrame = true) : SplitsAt ops (i + 1) ↔ ¬ op.Continues prev := by
  constructor
  · rintro ⟨prev', op', hprev', hop', hcut⟩
    obtain rfl : prev = prev' := by simpa [hprev] using hprev'
    obtain rfl : op = op' := by simpa [hop] using hop'
    exact (hcut.resolve_left hpc).2
  · intro hcut
    exact ⟨prev, op, hprev, hop, .inr ⟨hcall, hcut⟩⟩

/-- The marks from the next operation on if that operation keeps the depth and the number of the
one before. -/
def Mark.onward (m : Mark) (op : TraceOp) (starts : Bool) (rest : List TraceOp) : List Mark :=
  { op, place := { m.place with loc := m.place.loc + 1 }, starts } ::
    markFrom op m.place.number (m.place.loc + 2) m.place.number m.place.depth rest

/-- **One step at a call.**  A call that continues the operation before keeps the depth.  Any other
starts a block, and the marks from it on are one level less deep. -/
theorem drop_marks_call {ops : List TraceOp} {i : Nat} {m : Mark} {op : TraceOp}
    (hm : (marks ops)[i]? = some m) (hop : ops[i + 1]? = some op) (hpc : op.pc ≠ 0)
    (hcall : op.opcode.opensFrame = true) :
    (marks ops).drop (i + 1) =
      if op.Continues m.op then m.onward op false (ops.drop (i + 2))
      else (m.onward op true (ops.drop (i + 2))).map (·.deepen (-1)) := by
  obtain ⟨hlt, hget⟩ := List.getElem?_eq_some_iff.mp hop
  rw [drop_marks hm, List.drop_eq_getElem_cons hlt, hget, Mark.onward, Mark.onward,
    (starts_iff_splitsAt hm).1, List.map_cons, ← markFrom_deepen]
  split
  · rename_i hcontinues
    simp [markFrom, hpc, hcall, TraceOp.follows_iff.mpr hcontinues]
  · rename_i hcontinues
    rw [← TraceOp.follows_iff] at hcontinues
    simp [markFrom, hpc, hcall, hcontinues, Mark.deepen, Placement.deepen, Int.sub_eq_add_neg]

/-- Where no block starts after the first operation, no block of the trace has its entry. -/
theorem entry_ne_of_not_starts {ops : List TraceOp} {i : Nat} {m : Mark}
    (hm : (marks ops)[i + 1]? = some m) (hstarts : m.starts = false) {b : TraceBlock}
    (hb : b ∈ blocksOf ops) : b.entry ≠ (i + 1 : Nat) := by
  intro hentry
  have hmem : b.entry ∈ (0 :: startPositions (marks ops)).map fun (i : Nat) => (i : Int) := by
    have hentries := entry_blocksOf ops
    have hbs := List.mem_map_of_mem (f := TraceBlock.entry) hb
    rw [hentries] at hbs
    dsimp only at hbs
    split at hbs
    · exact hbs
    · exact (List.dropLast_sublist _).subset hbs
  rw [hentry] at hmem
  obtain ⟨j, hj, hji⟩ := List.mem_map.mp hmem
  obtain rfl : j = i + 1 := by omega
  rcases List.mem_cons.mp hj with hzero | hj
  · omega
  · simp [startPositions, hm, hstarts] at hj

/-! ## 3. Direct calls -/

/-- The trace goes on at the position after `i`: no block starts there, and the operation has the
depth of the one before. -/
structure GoesOn (ops : List TraceOp) (i : Nat) : Prop where
  /-- The trace is not cut in front of the operation. -/
  uncut : ¬ SplitsAt ops (i + 1)
  /-- No block starts at the operation. -/
  no_entry : ∀ b ∈ blocksOf ops, b.entry ≠ (i + 1 : Nat)
  /-- The depth stays. -/
  same_depth : (places ops)[i + 1]?.map (·.depth) = (places ops)[i]?.map (·.depth)

/-- **A direct call opens no frame, except after a wide push.**  Let a call or creation off program
counter zero be the next instruction of the same code after an operation.  The trace goes on there
if and only if that operation is not one of `PUSH10` to `PUSH32`.  If it is one, the trace is cut in
front of the call, and the call and all that follows it are marked as they would be if the call kept
the depth, but one level less deep. -/
theorem direct_call_stays_iff {ops : List TraceOp} {i : Nat} {prev op : TraceOp}
    (hlegal : ∀ o ∈ ops, o.opcode.Legal) (hprev : ops[i]? = some prev)
    (hop : ops[i + 1]? = some op) (hpc : op.pc ≠ 0) (hcall : op.opcode.opensFrame = true)
    (hnext : op.IsNext prev) :
    (GoesOn ops i ↔ prev.opcode.pushLength < 10) ∧
    (10 ≤ prev.opcode.pushLength → SplitsAt ops (i + 1) ∧
      ∃ m, (marks ops)[i]? = some m ∧
        (marks ops).drop (i + 1) =
          (m.onward op true (ops.drop (i + 2))).map (·.deepen (-1))) := by
  have hcontinues := hnext.continues_iff (hlegal prev (List.mem_of_getElem? hprev))
  have hsplit := splitsAt_call_iff hprev hop hpc hcall
  obtain ⟨m, hm, rfl⟩ := exists_mark hprev
  have hdrop := drop_marks_call hm hop hpc hcall
  refine ⟨⟨fun hgoes => ?_, fun hnarrow => ?_⟩, fun hwide => ?_⟩
  · have huncut := hgoes.uncut
    rw [hsplit, Decidable.not_not] at huncut
    exact hcontinues.mp huncut
  · have hstays := hcontinues.mpr hnarrow
    rw [if_pos hstays] at hdrop
    have hm' := congrArg (·[0]?) hdrop
    simp only [List.getElem?_drop, Nat.add_zero, Mark.onward, List.getElem?_cons_zero] at hm'
    refine ⟨fun hcut => hsplit.mp hcut hstays, fun b hb => entry_ne_of_not_starts hm' rfl hb, ?_⟩
    simp [places, hm, hm']
  · have hcut : ¬ op.Continues m.op := by
      intro hstays
      have := hcontinues.mp hstays
      omega
    rw [if_neg hcut] at hdrop
    exact ⟨hsplit.mpr hcut, m, hm, hdrop⟩

/-- A call right after the widest push that the distance is known of. -/
def narrowPushThenCall : List TraceOp :=
  [{ pc := 0, opcode := .push 9, value := some 5 }, { pc := 10, opcode := .call, value := some 1 },
    { pc := 11, opcode := .stop }]

theorem goesOn_narrowPushThenCall :
    (∀ o ∈ narrowPushThenCall, o.opcode.Legal) ∧ GoesOn narrowPushThenCall 0 := by
  have hlegal : ∀ o ∈ narrowPushThenCall, o.opcode.Legal := by decide +kernel
  exact ⟨hlegal, (direct_call_stays_iff hlegal rfl rfl (by decide) (by decide +kernel)
    (by decide +kernel)).1.mpr (by decide +kernel)⟩

/-- A call right after `PUSH10`, which is eleven bytes long and counts as two. -/
def widePushThenCall : List TraceOp :=
  [{ pc := 0, opcode := .push 10, value := some 5 }, { pc := 11, opcode := .call, value := some 1 },
    { pc := 12, opcode := .stop }]

/-- The call is the next instruction, yet a block starts at it, and it and the operation after it
are placed outside the frame. -/
theorem not_goesOn_widePushThenCall :
    (blocksOf widePushThenCall).map (·.entry) = [0, 1] ∧
      (places widePushThenCall).map (·.depth) = [1, 0, 0] ∧
      ¬ ∀ (ops : List TraceOp) (i : Nat) (prev op : TraceOp),
        (∀ o ∈ ops, o.opcode.Legal) → ops[i]? = some prev → ops[i + 1]? = some op → op.pc ≠ 0 →
        op.opcode.opensFrame = true → op.IsNext prev → GoesOn ops i := by
  refine ⟨by decide +kernel, by decide +kernel, fun h => ?_⟩
  have hgoes := h widePushThenCall 0 _ _ (by decide +kernel) rfl rfl (by decide) (by decide +kernel)
    (by decide +kernel)
  exact absurd hgoes.same_depth (by decide +kernel)

end TraceLift
