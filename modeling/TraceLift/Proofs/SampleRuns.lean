/-
# Samples are runs

A sample is the trace of a run of frames: the first contract runs, and with each call a frame is
entered and left (`ops_frame`).  The two facts about this run hold for all sizes.

* **Nesting** (`wellNested_frame`).  Where a frame is entered the frame before did not halt, and
  where one is left it did, whichever way the called contract ends.
* **Feasibility** (`feasible_frame`).  Every instruction finds its operands.  Arithmetic leaves the
  stack as it was, so that it may be repeated (`perform_arithmeticTimes`), and each kind of call takes
  the operands that were pushed for it (`callKinds_spec`).  What is left to look at is a fixed number
  of short pieces of code, and these are performed.
-/
import TraceLift.Proofs.FeasibleRuns
import TraceLift.Proofs.Outline
import TraceLift.Sample.Trace

namespace TraceLift

open Conversion StackMachine

/-! ## 1. Operations in a row -/

namespace FrameBody

/-- A frame executes operations of its own one after the other, and then goes on. -/
def runs (ops : List TraceOp) (rest : FrameBody) : FrameBody := ops.foldr step rest

variable (ops : List TraceOp) (rest : FrameBody)

theorem ops_runs : (runs ops rest).ops = ops ++ rest.ops := by
  induction ops with
  | nil => rfl
  | cons op l ih => exact congrArg (op :: ·) ih

theorem steps_runs (chain : List Nat) (next : Nat) : (runs ops rest).steps chain next =
    (ops.map fun op => { op, chain, role := .running }) ++ rest.steps chain next := by
  induction ops with
  | nil => rfl
  | cons op l ih => exact congrArg (_ :: ·) ih

theorem frames_runs : (runs ops rest).frames = rest.frames := by
  induction ops with
  | nil => rfl
  | cons op l ih => exact ih

theorem lastOp_runs (prev : TraceOp) :
    (runs ops rest).lastOp prev = rest.lastOp (ops.getLastD prev) := by
  induction ops generalizing prev with
  | nil => rfl
  | cons op l ih => rw [List.getLastD_cons]; exact ih op

variable {ops rest}

theorem wellNested_runs {enters : TraceOp → Prop} {leaves : TraceOp → TraceOp → Prop}
    {prev : TraceOp} (hops : ∀ op ∈ ops, op.pc ≠ 0 ∧ op.opcode.opensFrame = false)
    (hrest : rest.WellNested enters leaves (ops.getLastD prev)) :
    (runs ops rest).WellNested enters leaves prev := by
  induction ops generalizing prev with
  | nil => exact hrest
  | cons op l ih =>
    obtain ⟨⟨hpc, hplain⟩, hl⟩ := List.forall_mem_cons.mp hops
    rw [List.getLastD_cons] at hrest
    exact ⟨hpc, fun hcall => absurd hcall (by simp [hplain]), ih hl hrest⟩

end FrameBody

namespace Sample

/-! ## 2. Code laid out -/

/-- An instruction at a program counter. -/
def Instruction.placed (i : Instruction) (pc : Nat) : TraceOp :=
  { pc, opcode := i.opcode, value := i.value, extra := i.extra }

open Instruction

theorem layOut_cons (pc : Nat) (i : Instruction) (code : List Instruction) :
    layOut pc (i :: code) = i.placed pc :: layOut (pc + i.size) code := rfl

theorem codeSize_eq (code : List Instruction) : codeSize code = (code.map size).sum := by
  rw [codeSize, List.sum_eq_foldl]

theorem codeSize_cons (i : Instruction) (code : List Instruction) :
    codeSize (i :: code) = i.size + codeSize code := by
  simp [codeSize_eq]

theorem codeSize_append (a b : List Instruction) : codeSize (a ++ b) = codeSize a + codeSize b := by
  simp [codeSize_eq]

theorem layOut_append : ∀ (a b : List Instruction) (pc : Nat),
    layOut pc (a ++ b) = layOut pc a ++ layOut (pc + codeSize a) b
  | [], _, _ => rfl
  | i :: a, b, pc => by
    rw [List.cons_append, layOut_cons, layOut_append a, layOut_cons, codeSize_cons, Nat.add_assoc,
      List.cons_append]

/-- What lies in code laid out: an instruction at a program counter inside. -/
theorem exists_of_mem_layOut : ∀ {code : List Instruction} {pc : Nat} {op : TraceOp},
    op ∈ layOut pc code → ∃ i ∈ code, ∃ p, op = i.placed p ∧ pc ≤ p ∧ p < pc + codeSize code
  | [], _, _, h => by simp [layOut] at h
  | i :: code, pc, op, h => by
    have hsize := codeSize_cons i code
    have hpos : 0 < i.size := by rw [size]; omega
    rcases List.mem_cons.mp (layOut_cons pc i code ▸ h) with rfl | h
    · exact ⟨i, List.mem_cons_self, pc, rfl, Nat.le_refl pc, by omega⟩
    · obtain ⟨j, hj, p, rfl, hle, hlt⟩ := exists_of_mem_layOut h
      exact ⟨j, List.mem_cons_of_mem i hj, p, rfl, by omega, by omega⟩

theorem getLastD_layOut (code : List Instruction) (i : Instruction) (pc : Nat) (prev : TraceOp) :
    (layOut pc (code ++ [i])).getLastD prev = i.placed (pc + codeSize code) := by
  have hlast : layOut (pc + codeSize code) [i] = [i.placed (pc + codeSize code)] := rfl
  rw [layOut_append, hlast, List.getLastD_eq_getLast?, List.getLast?_concat]
  rfl

/-- The stack that code leaves of a stack of words, if each instruction is feasible. -/
def perform (ws : List Int) (code : List Instruction) : Option (List Int) :=
  code.foldlM (fun ws i =>
    if Feasible (i.placed 0) ws then some (next (i.placed 0) ws) else none) ws

theorem perform_append (ws : List Int) (a b : List Instruction) :
    perform ws (a ++ b) = (perform ws a).bind fun ws' => perform ws' b :=
  List.foldlM_append

/-! ## 3. The pieces -/

theorem arithmeticTimes_succ (n : Nat) :
    arithmeticTimes (n + 1) = arithmetic ++ arithmeticTimes n := rfl

theorem callee_eq (arith number : Nat) : callee arith number =
    [push1 1] ++ (arithmeticTimes arith ++ ([plain .pop] ++ cycle [] endings number)) := by
  simp [callee]

theorem cycle_mem {α : Type} {fallback : α} {l : List α} (hl : l ≠ []) (n : Nat) :
    cycle fallback l n ∈ l := by
  have hlt : n % l.length < l.length := Nat.mod_lt _ (List.length_pos_iff.mpr hl)
  rw [cycle, List.getD_eq_getElem?_getD, List.getElem?_eq_getElem hlt]
  exact List.getElem_mem hlt

theorem callOf_mem (number : Nat) : callOf number ∈ callKinds := cycle_mem (by decide) number

theorem ending_mem (number : Nat) : cycle [] endings number ∈ endings :=
  cycle_mem (by decide) number

theorem mem_arithmeticTimes {n : Nat} {i : Instruction} (h : i ∈ arithmeticTimes n) :
    i ∈ arithmetic := by
  obtain ⟨l, hl, hi⟩ := List.mem_flatten.mp h
  rwa [List.eq_of_mem_replicate hl] at hi

/-- An instruction that neither opens a frame nor ends one. -/
def Instruction.Quiet (i : Instruction) : Prop :=
  i.opcode.opensFrame = false ∧ i.opcode.possiblyHalts = false

instance (i : Instruction) : Decidable i.Quiet := inferInstanceAs (Decidable (_ ∧ _))

/-- The opening leaves nothing on the stack. -/
theorem opening_spec : (∀ i ∈ opening, i.Quiet) ∧ perform [] opening = some [] ∧
    codeSize opening = 169 := by decide +kernel

/-- The arithmetic leaves the stack as it was. -/
theorem arithmetic_spec : (∀ i ∈ arithmetic, i.Quiet) ∧ perform [] arithmetic = some [] ∧
    perform [1] arithmetic = some [1] ∧ codeSize arithmetic = 69 := by decide +kernel

/-- A called contract makes no calls and ends in a halt. -/
theorem endings_spec : ∀ e ∈ endings, (∀ i ∈ e, i.opcode.opensFrame = false) ∧
    (∃ i ∈ e.getLast?, i.opcode.possiblyHalts = true) ∧ (perform [] e).isSome ∧
    codeSize e ≤ 5 := by decide +kernel

/-- A call takes exactly its operands. -/
theorem callKinds_spec : ∀ c ∈ callKinds, c.opcode.opensFrame = true ∧
    c.opcode.rearranges = false ∧ codeSize (operandsOf c) + codeSize [c, plain .pop] ≤ 16 ∧
    ∃ ws ∈ perform [] (operandsOf c), perform ws [c, plain .pop] = some [] := by decide +kernel

/-- What joins the other pieces. -/
theorem perform_joints : perform [] [push1 1] = some [1] ∧ perform [1] [plain .pop] = some [] ∧
    perform [] [plain .invalid] = some [] := by decide +kernel

/-! ## 4. Samples as frames -/

/-- The code of a called contract after its first instruction. -/
def calleeRest (arith number : Nat) : List Instruction :=
  arithmeticTimes arith ++ [plain .pop] ++ cycle [] endings number

/-- What the first contract does from a program counter on, with so many calls to make. -/
def callsBody (arith : Nat) : Nat → Nat → Nat → FrameBody
  | pc, _, 0 => .runs (layOut pc [plain .invalid]) .done
  | pc, number, calls + 1 =>
    let call := callOf number
    let before := operandsOf call
    .runs (layOut pc before) <|
      .call ((push1 1).placed 0) (.runs (layOut 2 (calleeRest arith number)) .done)
        (call.placed (pc + codeSize before)) <|
      .runs (layOut (pc + codeSize before + call.size) [plain .pop]) <|
        callsBody arith (pc + codeSize before + codeSize [call, plain .pop]) (number + 1) calls

/-- The run that a sample is the trace of. -/
def frame (arith calls : Nat) : Frame where
  first := (push1 96).placed 0
  body := .runs (layOut 2 (opening.tail ++ arithmeticTimes arith))
    (callsBody arith (codeSize (opening ++ arithmeticTimes arith)) 0 calls)

theorem ops_callsBody (arith : Nat) : ∀ (calls pc number : Nat),
    (callsBody arith pc number calls).ops = callsFrom arith pc number calls
  | 0, pc, _ => by
    rw [callsBody, FrameBody.ops_runs]
    exact List.append_nil _
  | calls + 1, pc, number => by
    have hcallee : layOut 0 (callee arith number) =
        (push1 1).placed 0 :: layOut 2 (calleeRest arith number) := rfl
    simp only [callsBody, callsFrom, FrameBody.ops_runs, FrameBody.ops, ops_callsBody arith calls,
      hcallee, layOut, List.append_nil, List.append_assoc, List.cons_append, List.nil_append]
    rfl

/-- A sample is the trace of its frame. -/
theorem ops_frame (arith calls : Nat) : (frame arith calls).ops = trace arith calls := by
  have hstart : layOut 0 (opening ++ arithmeticTimes arith) =
      (push1 96).placed 0 :: layOut 2 (opening.tail ++ arithmeticTimes arith) := rfl
  rw [trace, hstart, Frame.ops, frame, FrameBody.ops_runs, ops_callsBody]
  rfl

/-! ## 5. Samples are well nested -/

theorem quiet_start (arith : Nat) : ∀ i ∈ opening ++ arithmeticTimes arith, i.Quiet := by
  intro i hi
  rcases List.mem_append.mp hi with hi | hi
  · exact opening_spec.1 i hi
  · exact arithmetic_spec.1 i (mem_arithmeticTimes hi)

theorem quiet_operandsOf (call : Instruction) : ∀ i ∈ operandsOf call, i.Quiet := by
  intro i hi
  rw [List.eq_of_mem_replicate hi]
  decide

theorem opensFrame_calleeRest {arith number : Nat} :
    ∀ i ∈ calleeRest arith number, i.opcode.opensFrame = false := by
  intro i hi
  simp only [calleeRest, List.mem_append, List.mem_singleton] at hi
  rcases hi with (hi | rfl) | hi
  · exact (quiet_start arith i (List.mem_append_right _ hi)).1
  · rfl
  · exact (endings_spec _ (ending_mem number)).1 i hi

theorem halting_calleeRest (arith number pc : Nat) (prev : TraceOp) :
    ((layOut pc (calleeRest arith number)).getLastD prev).Halting := by
  obtain ⟨-, ⟨i, hi, hhalts⟩, -⟩ := endings_spec _ (ending_mem number)
  obtain ⟨front, hfront⟩ := List.getLast?_eq_some_iff.mp hi
  rw [calleeRest, hfront, ← List.append_assoc, getLastD_layOut]
  exact hhalts

theorem not_halting_layOut {code : List Instruction} {pc : Nat} {prev : TraceOp}
    (hprev : ¬ prev.Halting) (hcode : ∀ i ∈ code, i.Quiet) :
    ¬ ((layOut pc code).getLastD prev).Halting := by
  have hmem : (layOut pc code).getLastD prev ∈ prev :: layOut pc code := List.getLastD_mem_cons
  rcases List.mem_cons.mp hmem with heq | hmem
  · rwa [heq]
  · obtain ⟨i, hi, p, hplaced, -⟩ := exists_of_mem_layOut hmem
    rw [hplaced]
    exact Bool.eq_false_iff.mp (hcode i hi).2

/-- Code past its first instruction runs on in its frame. -/
theorem plain_layOut {code : List Instruction} {pc : Nat} (hpc : 0 < pc)
    (hcode : ∀ i ∈ code, i.opcode.opensFrame = false) :
    ∀ op ∈ layOut pc code, op.pc ≠ 0 ∧ op.opcode.opensFrame = false := by
  intro op hop
  obtain ⟨i, hi, p, rfl, hle, -⟩ := exists_of_mem_layOut hop
  refine ⟨?_, hcode i hi⟩
  show (p : Int) ≠ 0
  omega

theorem wellNested_callsBody (arith : Nat) : ∀ (calls pc number : Nat) (prev : TraceOp), 0 < pc →
    ¬ prev.Halting → (callsBody arith pc number calls).WellNested (fun prev => ¬ prev.Halting)
      (fun last _ => last.Halting) prev
  | 0, pc, _, _, hpc, _ => by
    exact FrameBody.wellNested_runs (plain_layOut hpc (by decide)) trivial
  | calls + 1, pc, number, prev, hpc, hprev => by
    have hquiet := quiet_operandsOf (callOf number)
    have hcall := (callKinds_spec _ (callOf_mem number)).1
    have hresume : ((callOf number).placed (pc + codeSize (operandsOf (callOf number)))).pc ≠ 0 := by
      show ((pc + codeSize (operandsOf (callOf number)) : Nat) : Int) ≠ 0
      omega
    refine FrameBody.wellNested_runs (plain_layOut hpc fun i hi => (hquiet i hi).1)
      ⟨not_halting_layOut hprev hquiet, ⟨rfl, rfl, ?_⟩, ?_, ⟨hresume, hcall⟩, ?_⟩
    · exact FrameBody.wellNested_runs (plain_layOut (by decide) opensFrame_calleeRest) trivial
    · rw [FrameBody.lastOp_runs]
      exact halting_calleeRest ..
    · refine FrameBody.wellNested_runs (plain_layOut (by omega) (by decide)) ?_
      exact wellNested_callsBody arith calls _ _ _ (by omega)
        (by decide : ¬ ((plain .pop).placed 0).Halting)

theorem wellNested_frame (arith calls : Nat) : (frame arith calls).WellNested
    (fun prev => ¬ prev.Halting) (fun last _ => last.Halting) := by
  have hquiet : ∀ i ∈ opening.tail ++ arithmeticTimes arith, i.Quiet := fun i hi =>
    quiet_start arith i <|
      List.mem_append.mpr ((List.mem_append.mp hi).imp_left List.mem_of_mem_tail)
  have hsize := opening_spec.2.2
  refine ⟨rfl, rfl, FrameBody.wellNested_runs
    (plain_layOut (by decide) fun i hi => (hquiet i hi).1) ?_⟩
  refine wellNested_callsBody arith calls _ _ _ ?_
    (not_halting_layOut (by decide : ¬ ((push1 96).placed 0).Halting) hquiet)
  rw [codeSize_append]
  omega

/-! ## 6. Samples are feasible -/

/-- Where an instruction lies makes no difference. -/
theorem feasible_placed {i : Instruction} {p : Nat} {ws : List Int}
    (h : Feasible (i.placed p) ws) (q : Nat) : Feasible (i.placed q) ws := by
  obtain ⟨hmem, hrecorded, ⟨hpops, hroom, hready⟩ | hidle⟩ := h
  · exact ⟨hmem, hrecorded, .inl ⟨hpops, hroom, hready.plain, hready.copy, hready.store,
      hready.arith⟩⟩
  · exact ⟨hmem, hrecorded, .inr hidle⟩

/-- Code that can be performed is feasible wherever it lies, in any frame. -/
theorem feasibleFrom_layOut {f : Nat} {rest : List (Nat × TraceOp)} :
    ∀ {code : List Instruction} {stackOf : Nat → List Int} {ws : List Int} {pc : Nat},
    perform (stackOf f) code = some ws → FeasibleFrom (Function.update stackOf f ws) rest →
    FeasibleFrom stackOf ((layOut pc code).map (fun op => (f, op)) ++ rest)
  | [], stackOf, ws, _, hcode, hrest => by
    obtain rfl : stackOf f = ws := Option.some.inj hcode
    rwa [Function.update_eq_self] at hrest
  | i :: code, stackOf, ws, pc, hcode, hrest => by
    rw [perform, List.foldlM_cons] at hcode
    split at hcode
    · rename_i hfeasible
      have hcode' : perform (Function.update stackOf f (next (i.placed pc) (stackOf f)) f) code =
          some ws := by
        rw [Function.update_self]
        exact hcode
      exact ⟨feasible_placed hfeasible pc,
        feasibleFrom_layOut hcode' (by rwa [Function.update_idem])⟩
    · exact absurd hcode (by simp)

theorem perform_arithmeticTimes {ws : List Int} (h : perform ws arithmetic = some ws) :
    ∀ n, perform ws (arithmeticTimes n) = some ws
  | 0 => rfl
  | n + 1 => by
    rw [arithmeticTimes_succ, perform_append, h]
    exact perform_arithmeticTimes h n

theorem perform_start (arith : Nat) : perform [] (opening ++ arithmeticTimes arith) = some [] := by
  rw [perform_append, opening_spec.2.1]
  exact perform_arithmeticTimes arithmetic_spec.2.1 arith

theorem exists_perform_callee (arith number : Nat) :
    ∃ ws, perform [] (callee arith number) = some ws := by
  have harith : perform [1] (arithmeticTimes arith) = some [1] :=
    perform_arithmeticTimes arithmetic_spec.2.2.1 arith
  obtain ⟨ws, hws⟩ := Option.isSome_iff_exists.mp (endings_spec _ (ending_mem number)).2.2.1
  refine ⟨ws, ?_⟩
  rw [callee_eq, perform_append, perform_joints.1, Option.bind_some, perform_append, harith,
    Option.bind_some, perform_append, perform_joints.2.1, Option.bind_some, hws]

theorem map_steps_runs (ops : List TraceOp) (rest : FrameBody) (f : Nat) (chain : List Nat)
    (next : Nat) : ((FrameBody.runs ops rest).steps (f :: chain) next).map
        (fun s => (s.frame, s.op)) =
      ops.map (fun op => (f, op)) ++ (rest.steps (f :: chain) next).map fun s => (s.frame, s.op) := by
  rw [FrameBody.steps_runs, List.map_append, List.map_map]
  rfl

/-- The steps of a call: its operands, the called contract, and the call. -/
theorem map_steps_callsBody (arith calls pc number n : Nat) :
    ((callsBody arith pc number (calls + 1)).steps [0] n).map (fun s => (s.frame, s.op)) =
      (layOut pc (operandsOf (callOf number))).map (fun op => (0, op)) ++
        ((layOut 0 (callee arith number)).map (fun op => (n, op)) ++
          ((layOut (pc + codeSize (operandsOf (callOf number)))
            [callOf number, plain .pop]).map (fun op => (0, op)) ++
            ((callsBody arith (pc + codeSize (operandsOf (callOf number)) +
              codeSize [callOf number, plain .pop]) (number + 1) calls).steps [0] (n + 1)).map
                fun s => (s.frame, s.op))) := by
  rw [callsBody, map_steps_runs]
  simp only [FrameBody.steps, List.map_cons, List.map_append, map_steps_runs, FrameBody.frames_runs,
    FrameBody.frames, List.map_nil, List.append_nil, Nat.add_zero]
  rfl

theorem feasible_callsBody (arith : Nat) : ∀ (calls pc number n : Nat) (stackOf : Nat → List Int),
    0 < n → stackOf 0 = [] → (∀ f, n ≤ f → stackOf f = []) →
    FeasibleFrom stackOf
      (((callsBody arith pc number calls).steps [0] n).map fun s => (s.frame, s.op))
  | 0, pc, _, n, stackOf, _, hroot, _ => by
    have hend : perform (stackOf 0) [plain .invalid] = some [] := by
      rw [hroot]
      exact perform_joints.2.2
    rw [callsBody, map_steps_runs]
    exact feasibleFrom_layOut hend trivial
  | calls + 1, pc, number, n, stackOf, hn, hroot, hfresh => by
    obtain ⟨-, -, -, ws, hoperands, hcall⟩ := callKinds_spec _ (callOf_mem number)
    obtain ⟨ws', hcallee⟩ := exists_perform_callee arith number
    rw [map_steps_callsBody]
    refine feasibleFrom_layOut (by rw [hroot]; exact hoperands) ?_
    have hcallee' : perform (Function.update stackOf 0 ws n) (callee arith number) = some ws' := by
      rw [Function.update_of_ne (by omega), hfresh n (Nat.le_refl n)]
      exact hcallee
    have hcall' : perform (Function.update (Function.update stackOf 0 ws) n ws' 0)
        [callOf number, plain .pop] = some [] := by
      rw [Function.update_of_ne (by omega), Function.update_self]
      exact hcall
    refine feasibleFrom_layOut hcallee' (feasibleFrom_layOut hcall' ?_)
    refine feasible_callsBody arith calls _ _ _ _ (by omega) (Function.update_self ..) ?_
    intro f hf
    rw [Function.update_of_ne (by omega), Function.update_of_ne (by omega),
      Function.update_of_ne (by omega), hfresh f (by omega)]

theorem feasible_frame (arith calls : Nat) :
    FeasibleFrom (fun _ => []) ((frame arith calls).steps.map fun s => (s.frame, s.op)) := by
  have hcode : (frame arith calls).steps.map (fun s => (s.frame, s.op)) =
      (layOut 0 (opening ++ arithmeticTimes arith)).map (fun op => (0, op)) ++
        ((callsBody arith (codeSize (opening ++ arithmeticTimes arith)) 0 calls).steps [0] 1).map
          fun s => (s.frame, s.op) := by
    rw [Frame.steps, List.map_cons, frame, map_steps_runs]
    rfl
  rw [hcode]
  refine feasibleFrom_layOut (perform_start arith) ?_
  exact feasible_callsBody arith calls _ _ _ _ (by decide) (Function.update_self ..) fun f hf =>
    Function.update_of_ne (by omega) ..

end Sample

end TraceLift
