/-
# Frames take turns

The conversion of a well-nested trace keeps one list of suspended frames for all of them, and
every block takes from it and adds to it.  This module says what the list is: after each block it
is the chain of active frames, innermost first, less the innermost one if the block ended in a
halt.  So a new frame always finds the chain complete, and a frame that is resumed is on top, or
right below the one frame that died without a halt; that one is recognised by its depth, which is
one more, and skipped.

* `Schedule` is the nesting as the blocks show it, and a well-nested trace has one
  (`Frame.WellNested.schedule`).
* `Awaits` is the invariant and `turn_of_schedule` the one step: each block finds its frame.
* `Run` is the conversion with the blocks forgotten: each operation works on the stack of its own
  frame, and nothing else passes between frames but the numbering of the variables.

Hence a conversion that succeeds is such a run (`run_of_convertBlocks`), and one that fails does so
over an operation or the bounds of a block, never for want of a frame
(`error_of_convertBlocks`).
-/
import Mathlib.Logic.Function.Basic
import TraceLift.Proofs.Converts
import TraceLift.Proofs.Nesting

namespace TraceLift

/-! ## 1. The nesting, block by block -/

/-- A block belongs to one frame. -/
structure TraceBlock.RunsIn (frameOf : Nat → Nat) (b : TraceBlock) (frame depth : Nat)
    (first last : PlacedOp) : Prop where
  head : b.ops.head? = some first
  last : b.ops.getLast? = some last
  own : ∀ op ∈ b.ops, frameOf op.place.loc = frame
  depth : first.place.depth = depth

/-- `Schedule frameOf n halted chain bs`: with `n` frames entered so far, of which `chain` are
active, the blocks `bs` may follow a block that ended in a halt (`halted`) or did not.  Each one
enters the next frame or resumes the one that its callee was entered from; a frame is not entered
right after a halt. -/
inductive Schedule (frameOf : Nat → Nat) : Nat → Bool → List Nat → List TraceBlock → Prop
  | nil {n halted chain} : Schedule frameOf n halted chain []
  | enter {n chain b bs first last}
      (runs : b.RunsIn frameOf n (chain.length + 1) first last)
      (hpc : first.pc = 0) (hplain : first.opcode.opensFrame = false)
      (rest : Schedule frameOf (n + 1) last.opcode.possiblyHalts (n :: chain) bs) :
      Schedule frameOf n false chain (b :: bs)
  | resume {n halted callee frame outer b bs first last}
      (runs : b.RunsIn frameOf frame (outer.length + 1) first last)
      (hpc : first.pc ≠ 0) (hcall : first.opcode.opensFrame = true)
      (rest : Schedule frameOf n last.opcode.possiblyHalts (frame :: outer) bs) :
      Schedule frameOf n halted (callee :: frame :: outer) (b :: bs)

/-- A schedule may stop after any block. -/
theorem Schedule.take {frameOf : Nat → Nat} {n : Nat} {halted : Bool} {chain : List Nat}
    {bs : List TraceBlock} (h : Schedule frameOf n halted chain bs) :
    ∀ k, Schedule frameOf n halted chain (bs.take k) := by
  induction h with
  | nil => intro k; rw [List.take_nil]; exact .nil
  | enter runs hpc hplain _ ih =>
    intro k
    cases k with
    | zero => exact .nil
    | succ k => exact .enter runs hpc hplain (ih k)
  | resume runs hpc hcall _ ih =>
    intro k
    cases k with
    | zero => exact .nil
    | succ k => exact .resume runs hpc hcall (ih k)

/-- The frame of the operation at a position. -/
def Frame.frameAt (t : Frame) (i : Nat) : Nat := (t.steps[i]?.map TraceStep.frame).getD 0

/-- The block of a piece runs in the frame that its marks belong to. -/
theorem TraceBlock.runsIn_ofPiece {frameOf : Nat → Nat} {frame depth : Nat} (id entry : Nat)
    {m : Mark} {p : List Mark} (hm : m.place.depth = depth)
    (hown : ∀ x ∈ m :: p, frameOf x.place.loc = frame) :
    ∃ first last, (ofPiece id entry (m :: p)).RunsIn frameOf frame depth first last ∧
      first.toTraceOp = m.op ∧ last.opcode = ((p.map (·.op)).getLast?.getD m.op).opcode := by
  let placed : Mark → PlacedOp := fun m => { m.op with place := m.place, owner := id }
  refine ⟨placed m, placed (p.getLast?.getD m), ⟨rfl, ?_, ?_, hm⟩, rfl, ?_⟩
  · simp [ofPiece, placed, List.getLast?_cons]
  · intro op hop
    obtain ⟨x, hx, rfl⟩ := List.mem_map.mp hop
    exact hown x hx
  · cases hlast : p.getLast? <;> simp [placed, hlast]

theorem frameOf_tail {frameOf : Nat → Nat} {loc : Nat} {s : TraceStep} {steps : List TraceStep}
    (h : ∀ (i : Nat) (x : TraceStep), (s :: steps)[i]? = some x → frameOf (loc + 1 + i) = x.frame) :
    ∀ (i : Nat) (x : TraceStep), steps[i]? = some x → frameOf (loc + 1 + 1 + i) = x.frame := by
  intro i x hx
  rw [← h (i + 1) x hx]
  congr 1
  omega

/-- **A trail is a schedule once it is cut into blocks.**  The first piece still belongs to the
frame that was active before. -/
theorem Trail.schedule (frameOf : Nat → Nat) {leaves : TraceOp → TraceOp → Prop} {n : Nat}
    {prev : TraceOp} {chain : List Nat} {steps : List TraceStep}
    (h : Trail (fun op => ¬ op.Halting) leaves n prev chain steps) :
    ∀ loc, (∀ (i : Nat) (s : TraceStep), steps[i]? = some s → frameOf (loc + 1 + i) = s.frame) →
      ∃ p ps, pieces (annotate (loc + 1) n steps) = p :: ps ∧
        (∀ m ∈ p, frameOf m.place.loc = chain.headD 0) ∧
        ∀ id entry, Schedule frameOf n
          ((p.map (·.op)).getLast?.getD prev).opcode.possiblyHalts chain
          (blocksFrom id entry ps) := by
  induction h with
  | nil => exact fun loc _ => ⟨[], [], rfl, by simp, fun _ _ => .nil⟩
  | @run n prev chain steps op _ _ _ ih =>
    intro loc hframe
    obtain ⟨p, ps, hpieces, hown, hrest⟩ := ih (loc + 1) (frameOf_tail hframe)
    refine ⟨_, ps, pieces_cons hpieces, ?_, ?_⟩
    · exact List.forall_mem_cons.mpr ⟨hframe 0 _ rfl, hown⟩
    · simpa [List.getLast?_cons, TraceStep.mark] using hrest
  | @enter n prev chain steps op henters hpc hplain _ ih =>
    intro loc hframe
    obtain ⟨p, ps, hpieces, hown, hrest⟩ := ih (loc + 1) (frameOf_tail hframe)
    refine ⟨[], _, pieces_cons hpieces, by simp, fun id entry => ?_⟩
    obtain ⟨first, last, hruns, hfirst, hlast⟩ := TraceBlock.runsIn_ofPiece id entry
      (m := TraceStep.mark { op, chain := n :: chain, role := .opening } (loc + 1) (n + 1)) rfl
      (List.forall_mem_cons.mpr ⟨hframe 0 _ rfl, hown⟩)
    rw [show (([] : List Mark).map (·.op)).getLast?.getD prev = prev from rfl,
      show prev.opcode.possiblyHalts = false from Bool.eq_false_iff.mpr henters]
    refine .enter hruns (by rw [hfirst]; exact hpc) (by rw [hfirst]; exact hplain) ?_
    rw [hlast]
    exact hrest _ _
  | @resume n prev callee frame chain steps op _ hpc hcall _ ih =>
    intro loc hframe
    obtain ⟨p, ps, hpieces, hown, hrest⟩ := ih (loc + 1) (frameOf_tail hframe)
    refine ⟨[], _, pieces_cons hpieces, by simp, fun id entry => ?_⟩
    obtain ⟨first, last, hruns, hfirst, hlast⟩ := TraceBlock.runsIn_ofPiece id entry
      (m := TraceStep.mark { op, chain := frame :: chain, role := .resuming } (loc + 1) n) rfl
      (List.forall_mem_cons.mpr ⟨hframe 0 _ rfl, hown⟩)
    refine .resume hruns (by rw [hfirst]; exact hpc) (by rw [hfirst]; exact hcall) ?_
    rw [hlast]
    exact hrest _ _

/-- The blocks of a well-nested trace, the root frame being entered like any other. -/
theorem Frame.WellNested.schedule {t : Frame} {leaves : TraceOp → TraceOp → Prop}
    (hleaves : ∀ last resume, leaves last resume → ¬ resume.Continues last)
    (ht : t.WellNested (fun op => ¬ op.Halting) leaves) :
    Schedule t.frameAt 0 false [] (blocksOf t.ops) := by
  obtain ⟨p, ps, hpieces, hown, hrest⟩ := ht.trail.schedule t.frameAt 0 (by
    intro i s hs
    rw [Frame.frameAt, Frame.steps, Nat.zero_add, Nat.add_comm, List.getElem?_cons_succ, hs]
    rfl)
  have hall : pieces (marks t.ops) =
      (TraceStep.mark { op := t.first, chain := [0], role := .opening } 0 1 :: p) :: ps := by
    rw [marks_eq_annotate hleaves ht]
    exact pieces_cons hpieces
  have hblocks : Schedule t.frameAt 0 false [] (blocksFrom 0 0 (pieces (marks t.ops))) := by
    obtain ⟨first, last, hruns, hfirst, hlast⟩ := TraceBlock.runsIn_ofPiece 0 0
      (m := TraceStep.mark { op := t.first, chain := [0], role := .opening } 0 1) rfl
      (List.forall_mem_cons.mpr ⟨rfl, hown⟩)
    rw [hall]
    refine .enter hruns (by rw [hfirst]; exact ht.1) (by rw [hfirst]; exact ht.2.1) ?_
    rw [hlast]
    exact hrest _ _
  rw [blocksOf_eq, keptPieces]
  split
  · exact hblocks
  · rw [blocksFrom_dropLast, List.dropLast_eq_take]
    exact hblocks.take _

/-! ## 2. The suspended frames -/

namespace Conversion

/-- The depths of the frames of a chain, innermost first, count down to one. -/
def ChainDepths (c : Conversion) (chain : List Nat) : Prop :=
  ∀ frame outer, (frame :: outer) <:+ chain →
    c.frameDepth frame = some ((outer.length + 1 : Nat) : Int)

/-- **The invariant between blocks**: `n` frames were entered, those of `chain` are active, and
the last block ended in a halt or did not. -/
structure Awaits (c : Conversion) (n : Nat) (halted : Bool) (chain : List Nat) : Prop where
  size : c.frames.size = n
  depths : c.ChainDepths chain
  suspended : c.suspended = if halted then chain.tail else chain

theorem Awaits.start : Awaits {} 0 false [] where
  size := rfl
  depths := by
    rintro frame outer ⟨_, h⟩
    simp at h
  suspended := rfl

/-- Inside a block of a frame: those it was entered from are suspended. -/
structure Inside (c : Conversion) (n : Nat) (frame : Nat) (outer : List Nat) : Prop where
  size : c.frames.size = n
  depths : c.ChainDepths (frame :: outer)
  suspended : c.suspended = outer

theorem frameDepth_eq {c : Conversion} {frame : Nat} {s : Stack Operand}
    (h : c.frames[frame]? = some s) : c.frameDepth frame = s.depth := by
  simp [frameDepth, h]

/-- Depths are kept if stacks are. -/
theorem ChainDepths.mono {c c' : Conversion} {chain : List Nat} (h : c.ChainDepths chain)
    (hstacks : ∀ (f : Nat) (s : Stack Operand), c.frames[f]? = some s →
      ∃ s', c'.frames[f]? = some s' ∧ s'.depth = s.depth) : c'.ChainDepths chain := by
  intro frame outer hsuffix
  have hdepth := h frame outer hsuffix
  unfold frameDepth at hdepth
  split at hdepth
  · rename_i s hs
    obtain ⟨s', hs', heq⟩ := hstacks frame s hs
    rw [frameDepth_eq hs', heq, hdepth]
  · exact absurd hdepth (by simp)

theorem ChainDepths.tail {c : Conversion} {frame : Nat} {chain : List Nat}
    (h : c.ChainDepths (frame :: chain)) : c.ChainDepths chain :=
  fun f outer hsuffix => h f outer (hsuffix.trans (List.suffix_cons frame chain))

/-- The stack of a new frame is empty. -/
theorem make_empty (d : Option Int) : Stack.make ([] : List Operand) 1024 20 d = { depth := d } :=
  rfl

/-- How the stacks change when a block finds its frame: those there are stay, and one that is
added is empty. -/
structure Grows (c c₁ : Conversion) : Prop where
  store : c₁.store = c.store
  count : c₁.count = c.count
  older : ∀ (f : Nat) (s : Stack Operand), c.frames[f]? = some s → c₁.frames[f]? = some s
  fresh : ∀ (f : Nat) (s : Stack Operand), c.frames.size ≤ f → c₁.frames[f]? = some s →
    ∃ d, s = { depth := d }

/-- A block at program counter zero opens the next frame on top of the chain. -/
theorem Awaits.enter_new {c : Conversion} {n : Nat} {chain : List Nat} {first : PlacedOp}
    (h : c.Awaits n false chain) (hpc : first.pc = 0)
    (hdepth : first.place.depth = (chain.length + 1 : Nat)) :
    ∃ c₁, c.enter first = .ok (n, c₁) ∧ c₁.Inside (n + 1) n chain ∧ c.Grows c₁ := by
  have hget : ∀ f : Nat, (c.frames.push { depth := some first.place.depth })[f]? =
      if f = c.frames.size then some { depth := some first.place.depth } else c.frames[f]? :=
    fun f => Array.getElem?_push
  refine ⟨{ c with frames := c.frames.push { depth := some first.place.depth } }, ?_, ?_, ?_⟩
  · rw [enter, if_pos hpc, make_empty, h.size]
  · refine ⟨by simp [h.size], fun frame outer hsuffix => ?_, by simp [h.suspended]⟩
    rcases List.suffix_cons_iff.mp hsuffix with heq | hsuffix
    · obtain ⟨rfl, rfl⟩ := List.cons.inj heq
      rw [frameDepth_eq (by rw [hget, if_pos h.size.symm]), hdepth]
    · refine ChainDepths.mono h.depths (fun f s hs => ⟨s, ?_, rfl⟩) frame outer hsuffix
      have hlt := (Array.getElem?_eq_some_iff.mp hs).1
      rw [hget, if_neg (Nat.ne_of_lt hlt), hs]
  · refine ⟨rfl, rfl, fun f s hs => ?_, fun f s hf hs => ?_⟩
    · have hlt := (Array.getElem?_eq_some_iff.mp hs).1
      rw [hget, if_neg (Nat.ne_of_lt hlt), hs]
    · rw [hget] at hs
      split at hs
      · exact ⟨_, (Option.some.inj hs).symm⟩
      · exact absurd (Array.getElem?_eq_some_iff.mp hs).1 (by omega)

/-- A block that starts with a call resumes the frame that its callee was entered from.  The callee
is still suspended unless it ended in a halt, and is then skipped: its depth is one more. -/
theorem Awaits.enter_old {c : Conversion} {n : Nat} {halted : Bool} {callee frame : Nat}
    {outer : List Nat} {first : PlacedOp} (h : c.Awaits n halted (callee :: frame :: outer))
    (hpc : first.pc ≠ 0) (hcall : first.opcode.opensFrame = true)
    (hdepth : first.place.depth = (outer.length + 1 : Nat)) :
    ∃ c₁, c.enter first = .ok (frame, c₁) ∧ c₁.Inside n frame outer ∧ c.Grows c₁ := by
  have hframe : c.frameDepth frame = some ((outer.length + 1 : Nat) : Int) :=
    h.depths frame outer (List.suffix_cons ..)
  have hcallee : c.frameDepth callee ≠ some ((outer.length + 1 : Nat) : Int) := by
    rw [h.depths callee (frame :: outer) (List.suffix_refl _), List.length_cons]
    intro heq
    have := Option.some.inj heq
    omega
  refine ⟨{ c with suspended := outer }, ?_, ⟨h.size, h.depths.tail, rfl⟩,
    ⟨rfl, rfl, fun _ _ hs => hs, fun f s hf hs => ?_⟩⟩
  · rw [enter, if_neg hpc, if_pos hcall, h.suspended, hdepth]
    cases halted with
    | true => simp [resume, hframe, bind, Except.bind, pure, Except.pure]
    | false => simpa [resume, bind, Except.bind, pure, Except.pure] using hcallee
  · exact absurd (Array.getElem?_eq_some_iff.mp hs).1 (Nat.not_lt.mpr hf)

/-- What happens when a block finds its frame. -/
structure Turn (frameOf : Nat → Nat) (c : Conversion) (b : TraceBlock) (n frame : Nat)
    (outer : List Nat) (first last : PlacedOp) (c₁ : Conversion) : Prop where
  runs : b.RunsIn frameOf frame (outer.length + 1) first last
  enters : c.enter first = .ok (frame, c₁)
  inside : c₁.Inside n frame outer
  grows : c.Grows c₁
  suspends : suspend outer frame first last =
    if last.opcode.possiblyHalts then outer else frame :: outer

/-- **Each block finds its frame.** -/
theorem turn_of_schedule {frameOf : Nat → Nat} {c : Conversion} {n : Nat} {halted : Bool}
    {chain : List Nat} {b : TraceBlock} {bs : List TraceBlock}
    (h : Schedule frameOf n halted chain (b :: bs)) (hc : c.Awaits n halted chain) :
    ∃ n' frame outer first last c₁, Turn frameOf c b n' frame outer first last c₁ ∧
      Schedule frameOf n' last.opcode.possiblyHalts (frame :: outer) bs := by
  cases h with
  | enter runs hpc hplain rest =>
    obtain ⟨c₁, henter, hinside, hgrows⟩ := hc.enter_new hpc runs.depth
    exact ⟨_, _, _, _, _, c₁, ⟨runs, henter, hinside, hgrows, by simp [suspend, hpc, hplain]⟩,
      rest⟩
  | resume runs hpc hcall rest =>
    obtain ⟨c₁, henter, hinside, hgrows⟩ := hc.enter_old hpc hcall runs.depth
    exact ⟨_, _, _, _, _, c₁, ⟨runs, henter, hinside, hgrows, by simp [suspend, hpc, hcall]⟩,
      rest⟩

/-! ## 3. One block -/

theorem place_of_converts {block : Nat} {store store' : Store} {stack stack' : Stack Operand}
    {op : PlacedOp} {tac : Option TacOp}
    (h : Converts block store stack op store' stack' tac) :
    ∀ t ∈ tac, t.place = some op.place := by
  cases h with
  | swap | dup | drop => simp
  | act | bind => simp [tacOf]

/-- The operations that come from the trace, without those that fill empty blocks. -/
def fromTrace (ops : List TacOp) : List TacOp := ops.filter (·.place.isSome)

theorem fromTrace_convertOps {block : Nat} : ∀ {ops : List PlacedOp} {store store' : Store}
    {stack stack' : Stack Operand} {tacs : List TacOp},
    convertOps block store stack ops = .ok (store', stack', tacs) → fromTrace tacs = tacs
  | [], _, _, _, _, _, h => by cases h; rfl
  | op :: ops, _, _, _, _, _, h => by
    obtain ⟨_, _, tac, rest, hop, hops, rfl⟩ := convertOps_cons_eq_ok_iff.mp h
    have hrest : fromTrace rest = rest := fromTrace_convertOps hops
    cases tac with
    | none => simpa using hrest
    | some t =>
      have hplace : t.place.isSome = true := by simp [place_of_converts hop t rfl]
      have hcons : fromTrace (t :: rest) = t :: fromTrace rest := by
        simp only [fromTrace, List.filter_cons, hplace, if_true]
      rw [Option.toList_some, List.singleton_append, hcons, hrest]

theorem keeps_convertOps {block : Nat} : ∀ {ops : List PlacedOp} {store store' : Store}
    {stack stack' : Stack Operand} {tacs : List TacOp},
    convertOps block store stack ops = .ok (store', stack', tacs) → stack.Keeps stack'
  | [], _, _, _, _, _, h => by cases h; exact .rfl
  | op :: ops, _, _, _, _, _, h => by
    obtain ⟨_, _, _, _, hop, hops, -⟩ := convertOps_cons_eq_ok_iff.mp h
    exact hop.keeps.trans (keeps_convertOps hops)

section Block

variable {frameOf : Nat → Nat} {c c₁ c' : Conversion} {b : TraceBlock} {n frame : Nat}
  {outer : List Nat} {first last : PlacedOp} {tb : TacBlock}

/-- The frame that a block found has a stack. -/
theorem Inside.stack (h : c₁.Inside n frame outer) : ∃ s, c₁.frames[frame]? = some s := by
  have hdepth := h.depths frame outer (List.suffix_refl _)
  unfold frameDepth at hdepth
  split at hdepth
  · exact ⟨_, by assumption⟩
  · exact absurd hdepth (by simp)

/-- Leaving a block restores the invariant. -/
theorem Turn.awaits (h : Turn frameOf c b n frame outer first last c₁) {s s' : Stack Operand}
    (hs : c₁.frames[frame]? = some s) (hkeeps : s.Keeps s') (store : Store) (count : Nat) :
    Awaits { store, frames := c₁.frames.setIfInBounds frame s', count,
             suspended := suspend c₁.suspended frame first last } n
      last.opcode.possiblyHalts (frame :: outer) := by
  refine ⟨by simp [h.inside.size], h.inside.depths.mono fun f t ht => ?_, ?_⟩
  · by_cases hf : frame = f
    · subst hf
      obtain rfl : s = t := by simpa [hs] using ht
      have hlt := (Array.getElem?_eq_some_iff.mp hs).1
      exact ⟨s', by simp [hlt], hkeeps.depth⟩
    · exact ⟨t, by simp [hf, ht], rfl⟩
  · rw [h.inside.suspended, h.suspends]
    rfl

/-- **What converting a block comes to** once it has found its frame: its operations are converted
on the stack of the frame. -/
theorem Turn.convertBlock_eq (h : Turn frameOf c b n frame outer first last c₁)
    {s : Stack Operand} (hs : c₁.frames[frame]? = some s) :
    c.convertBlock b = (do
      let (store, stack, ops) ← convertOps c.count c.store s b.ops
      let ops := if ops.isEmpty then [{ opcode := Opcode.nop, args := [], pc := first.pc }] else ops
      let exit := last.pc + last.opcode.pushLength
      let _ ← BlockHead.make (some first.pc) (some exit)
      return ({ store, frames := c₁.frames.setIfInBounds frame stack,
                suspended := suspend c₁.suspended frame first last, count := c.count + 1 },
        { entry := first.pc, exit, ops, source := b.ops, frame })) := by
  have hstack : c₁.frames.getD frame {} = s := by
    rw [Array.getD_eq_getD_getElem?, hs]
    rfl
  simp only [convertBlock, h.runs.head, h.runs.last, h.enters, bind, Except.bind, hstack,
    h.grows.store, h.grows.count]

/-- A block that is converted: what it does is what its operations do on the stack of its frame. -/
theorem Turn.convertBlock_ok (h : Turn frameOf c b n frame outer first last c₁)
    (hok : c.convertBlock b = .ok (c', tb)) :
    ∃ s s' tacs, c₁.frames[frame]? = some s ∧
      convertOps c.count c.store s b.ops = .ok (c'.store, s', tacs) ∧ fromTrace tb.ops = tacs ∧
      c'.frames = c₁.frames.setIfInBounds frame s' ∧
      c'.Awaits n last.opcode.possiblyHalts (frame :: outer) := by
  obtain ⟨s, hs⟩ := h.inside.stack
  rw [h.convertBlock_eq hs] at hok
  obtain ⟨⟨store, s', tacs⟩, hops, hok⟩ := bind_eq_ok_iff.mp hok
  obtain ⟨_, -, hok⟩ := bind_eq_ok_iff.mp hok
  cases hok
  refine ⟨s, s', tacs, hs, hops, ?_, rfl, h.awaits hs (keeps_convertOps hops) store _⟩
  cases tacs with
  | nil => rfl
  | cons t ts => exact fromTrace_convertOps hops

/-- A block that is refused: over one of its operations, or over its bounds. -/
theorem Turn.convertBlock_error (h : Turn frameOf c b n frame outer first last c₁) {e : Fault}
    (herror : c.convertBlock b = .error e) :
    (∃ s, convertOps c.count c.store s b.ops = .error e) ∨
      BlockHead.make (some first.pc) (some (last.pc + last.opcode.pushLength)) = .error e := by
  obtain ⟨s, hs⟩ := h.inside.stack
  rw [h.convertBlock_eq hs] at herror
  cases hops : convertOps c.count c.store s b.ops with
  | error e' =>
    rw [hops] at herror
    obtain rfl : e' = e := Except.error.inj herror
    exact Or.inl ⟨s, hops⟩
  | ok r =>
    rw [hops] at herror
    cases hmake : BlockHead.make (some first.pc) (some (last.pc + last.opcode.pushLength)) with
    | error e' =>
      simp only [bind, Except.bind, hmake] at herror
      exact Or.inr (congrArg _ (Except.error.inj herror))
    | ok head => simp [bind, Except.bind, hmake, pure, Except.pure] at herror

end Block

/-! ## 4. The whole trace -/

/-- A run of frames: each operation is converted on the stack of its own frame, and leaves the
stacks of all others as they are. -/
inductive Run (frameOf : Nat → Nat) : Store → (Nat → Stack Operand) → List PlacedOp →
    Store → (Nat → Stack Operand) → List TacOp → Prop
  | nil {store stackOf} : Run frameOf store stackOf [] store stackOf []
  | cons {block store stackOf op ops store₁ stack₁ tac store' stackOf' tacs}
      (hop : Converts block store (stackOf (frameOf op.place.loc)) op store₁ stack₁ tac)
      (rest : Run frameOf store₁ (Function.update stackOf (frameOf op.place.loc) stack₁) ops
        store' stackOf' tacs) :
      Run frameOf store stackOf (op :: ops) store' stackOf' (tac.toList ++ tacs)

variable {frameOf : Nat → Nat}

theorem Run.append {S S' S'' : Store} {stackOf stackOf' stackOf'' : Nat → Stack Operand}
    {ops ops' : List PlacedOp} {tacs tacs' : List TacOp}
    (h : Run frameOf S stackOf ops S' stackOf' tacs)
    (h' : Run frameOf S' stackOf' ops' S'' stackOf'' tacs') :
    Run frameOf S stackOf (ops ++ ops') S'' stackOf'' (tacs ++ tacs') := by
  induction h with
  | nil => exact h'
  | cons hop _ ih =>
    rw [List.append_assoc]
    exact .cons hop (ih h')

/-- Operations of one frame, converted in a row, are a run that changes the stack of that frame. -/
theorem run_of_convertOps {block frame : Nat} : ∀ {ops : List PlacedOp} {S S' : Store}
    {stackOf : Nat → Stack Operand} {s' : Stack Operand} {tacs : List TacOp},
    (∀ op ∈ ops, frameOf op.place.loc = frame) →
    convertOps block S (stackOf frame) ops = .ok (S', s', tacs) →
    Run frameOf S stackOf ops S' (Function.update stackOf frame s') tacs
  | [], _, _, stackOf, _, _, _, h => by
    cases h
    rw [Function.update_eq_self]
    exact .nil
  | op :: ops, _, _, stackOf, s', _, hown, h => by
    obtain ⟨S₁, s₁, tac, rest, hop, hops, rfl⟩ := convertOps_cons_eq_ok_iff.mp h
    obtain ⟨hframe, hown⟩ := List.forall_mem_cons.mp hown
    subst hframe
    have hidem : Function.update (Function.update stackOf (frameOf op.place.loc) s₁)
        (frameOf op.place.loc) s' = Function.update stackOf (frameOf op.place.loc) s' :=
      Function.update_idem ..
    rw [← hidem]
    exact .cons hop (run_of_convertOps hown (by rwa [Function.update_self]))

/-- The variables that operations bind, in order. -/
def targets (tacs : List TacOp) : List VarId := tacs.filterMap (·.target?)

theorem targets_append (tac : Option TacOp) (tacs : List TacOp) :
    targets (tac.toList ++ tacs) = (tac.bind (·.target?)).toList ++ targets tacs := by
  cases tac with
  | none => rfl
  | some t => cases h : t.target? <;> simp [targets, h]

/-- **Results are numbered consecutively.** -/
theorem Run.targets {S S' : Store} {stackOf stackOf' : Nat → Stack Operand}
    {ops : List PlacedOp} {tacs : List TacOp} (h : Run frameOf S stackOf ops S' stackOf' tacs) :
    ∃ k, S'.size = S.size + k ∧ targets tacs = List.range' S.size k := by
  induction h with
  | nil => exact ⟨0, rfl, rfl⟩
  | cons hop _ ih =>
    obtain ⟨k, hsize, htargets⟩ := ih
    rw [targets_append, htargets]
    rcases hop.target with ⟨htarget, hstep⟩ | ⟨htarget, hstep⟩
    · exact ⟨k, by omega, by simp [htarget, hstep]⟩
    · exact ⟨k + 1, by omega, by simp [htarget, hstep, List.range'_succ]⟩

/-- The stacks of all frames agree with those that the conversion has, and the others are empty. -/
structure Holds (c : Conversion) (stackOf : Nat → Stack Operand) : Prop where
  known : ∀ (f : Nat) (s : Stack Operand), c.frames[f]? = some s → stackOf f = s
  empty : ∀ f, c.frames.size ≤ f → ∃ d, stackOf f = { depth := d }

/-- The stacks before a block, from those after it. -/
theorem Turn.holds {c c₁ : Conversion} {b : TraceBlock} {n frame : Nat} {outer : List Nat}
    {first last : PlacedOp} (h : Turn frameOf c b n frame outer first last c₁)
    {c' : Conversion} {s s' : Stack Operand} {stackOf : Nat → Stack Operand}
    (hs : c₁.frames[frame]? = some s) (hframes : c'.frames = c₁.frames.setIfInBounds frame s')
    (hstacks : c'.Holds stackOf) :
    c.Holds (Function.update stackOf frame s) ∧ stackOf frame = s' := by
  have hlt := (Array.getElem?_eq_some_iff.mp hs).1
  have hother : ∀ f, f ≠ frame → c'.frames[f]? = c₁.frames[f]? := by
    intro f hf
    rw [hframes, Array.getElem?_setIfInBounds_ne (Ne.symm hf)]
  refine ⟨⟨fun f t ht => ?_, fun f hf => ?_⟩, hstacks.known frame s' (by rw [hframes]; simp [hlt])⟩
  · have ht₁ := h.grows.older f t ht
    by_cases hf : f = frame
    · subst hf
      rw [Function.update_self]
      exact Option.some.inj (hs.symm.trans ht₁)
    · rw [Function.update_of_ne hf]
      exact hstacks.known f t (by rw [hother f hf, ht₁])
  · by_cases hf' : f = frame
    · subst hf'
      rw [Function.update_self]
      exact h.grows.fresh f s hf hs
    · rw [Function.update_of_ne hf']
      rcases Nat.lt_or_ge f c₁.frames.size with hin | hout
      · have hget := Array.getElem?_eq_getElem hin
        obtain ⟨d, hd⟩ := h.grows.fresh f _ hf hget
        exact ⟨d, (hstacks.known f _ (by rw [hother f hf', hget])).trans hd⟩
      · exact hstacks.empty f (by rw [hframes]; simpa using hout)

/-- **A conversion that succeeds is a run of frames.** -/
theorem run_of_convertBlocks : ∀ {bs : List TraceBlock} {c c' : Conversion} {n : Nat}
    {halted : Bool} {chain : List Nat} {ts : List TacBlock},
    Schedule frameOf n halted chain bs → c.Awaits n halted chain →
    convertBlocks c bs = .ok (c', ts) →
    ∃ stackOf stackOf', c.Holds stackOf ∧ Run frameOf c.store stackOf (bs.flatMap (·.ops)) c'.store
      stackOf' (fromTrace (ts.flatMap (·.ops)))
  | [], c, _, _, _, _, _, _, _, hok => by
    cases hok
    refine ⟨fun f => c.frames.getD f {}, _, ⟨fun f s hs => ?_, fun f hf => ⟨none, ?_⟩⟩, .nil⟩
    · simp only [Array.getD_eq_getD_getElem?, hs, Option.getD_some]
    · simp only [Array.getD_eq_getD_getElem?, Array.getElem?_eq_none hf, Option.getD_none]
  | b :: bs, c, c', _, _, _, ts, hschedule, hawaits, hok => by
    obtain ⟨n', frame, outer, first, last, c₁, hturn, hrest⟩ := turn_of_schedule hschedule hawaits
    obtain ⟨⟨c₂, tb⟩, hb, hok⟩ := bind_eq_ok_iff.mp hok
    obtain ⟨⟨c₃, ts'⟩, hbs, hok⟩ := bind_eq_ok_iff.mp hok
    cases hok
    obtain ⟨s, s', tacs, hs, hops, htacs, hframes, hawaits⟩ := hturn.convertBlock_ok hb
    obtain ⟨stackOf, stackOf', hstacks, hrun⟩ := run_of_convertBlocks hrest hawaits hbs
    -- stacks are found from the end of the trace backwards: a block changes that of its own frame
    obtain ⟨hbefore, hafter⟩ := hturn.holds hs hframes hstacks
    refine ⟨_, stackOf', hbefore, ?_⟩
    have hblock : Run frameOf c.store (Function.update stackOf frame s) b.ops c₂.store stackOf
        tacs := by
      have hown : Run frameOf c.store (Function.update stackOf frame s) b.ops c₂.store
          (Function.update (Function.update stackOf frame s) frame s') tacs :=
        run_of_convertOps hturn.runs.own (by rwa [Function.update_self])
      rwa [Function.update_idem, ← hafter, Function.update_eq_self] at hown
    rw [List.flatMap_cons, List.flatMap_cons, fromTrace, List.filter_append, ← fromTrace,
      ← fromTrace, htacs]
    exact hblock.append hrun

/-- Operations with legal opcodes and recorded values are never refused. -/
theorem exists_convertOps (block : Nat) : ∀ (ops : List PlacedOp) (store : Store)
    (stack : Stack Operand),
    (∀ op ∈ ops, op.opcode.Legal ∧ op.toTraceOp.Recorded) →
    ∃ store' stack' tacs, convertOps block store stack ops = .ok (store', stack', tacs)
  | [], store, stack, _ => ⟨store, stack, [], rfl⟩
  | op :: ops, store, stack, h => by
    obtain ⟨⟨hlegal, hrecorded⟩, hops⟩ := List.forall_mem_cons.mp h
    obtain ⟨store₁, stack₁, tac, hop⟩ := exists_converts block store stack hlegal hrecorded
    obtain ⟨store', stack', tacs, hrest⟩ := exists_convertOps block ops store₁ stack₁ hops
    exact ⟨store', stack', tac.toList ++ tacs,
      convertOps_cons_eq_ok_iff.mpr ⟨store₁, stack₁, tac, tacs, hop, hrest, rfl⟩⟩

theorem make_eq_error {entry exit : Int} {e : Fault}
    (h : BlockHead.make (some entry) (some exit) = .error e) :
    (e = .negativeEntry ∧ entry < 0) ∨ (e = .negativeExit ∧ exit < 0) := by
  unfold BlockHead.make at h
  split at h
  · rename_i hneg
    exact Or.inl ⟨(Except.error.inj h).symm, by simpa using hneg⟩
  · split at h
    · rename_i hneg
      exact Or.inr ⟨(Except.error.inj h).symm, by simpa using hneg⟩
    · exact absurd h (by simp)

/-- **A conversion never fails for want of a frame.**  If no operation is refused, only a negative
program counter stops it, when the bounds of a block are set. -/
theorem error_of_convertBlocks : ∀ {bs : List TraceBlock} {c : Conversion} {n : Nat}
    {halted : Bool} {chain : List Nat} {e : Fault},
    Schedule frameOf n halted chain bs → c.Awaits n halted chain →
    (∀ b ∈ bs, ∀ op ∈ b.ops, op.opcode.Legal ∧ op.toTraceOp.Recorded) →
    convertBlocks c bs = .error e →
    (e = .negativeEntry ∨ e = .negativeExit) ∧ ∃ b ∈ bs, ∃ op ∈ b.ops, op.pc < 0
  | [], _, _, _, _, _, _, _, _, herror => by cases herror
  | b :: bs, c, _, _, _, e, hschedule, hawaits, hlegal, herror => by
    obtain ⟨n', frame, outer, first, last, c₁, hturn, hrest⟩ := turn_of_schedule hschedule hawaits
    obtain ⟨hb, hbs⟩ := List.forall_mem_cons.mp hlegal
    cases hblock : c.convertBlock b with
    | error e' =>
      simp only [convertBlocks, hblock, bind, Except.bind] at herror
      obtain rfl : e' = e := Except.error.inj herror
      rcases hturn.convertBlock_error hblock with ⟨s, hops⟩ | hmake
      · obtain ⟨_, _, _, hok⟩ := exists_convertOps c.count b.ops c.store s hb
        exact absurd (hops.symm.trans hok) (by simp)
      · have hfirst : first ∈ b.ops := List.mem_of_head? hturn.runs.head
        have hlast : last ∈ b.ops := List.mem_of_getLast? hturn.runs.last
        have hlength := last.opcode.pushLength_nonneg
        rcases make_eq_error hmake with ⟨rfl, hneg⟩ | ⟨rfl, hneg⟩
        · exact ⟨.inl rfl, b, List.mem_cons_self, first, hfirst, hneg⟩
        · exact ⟨.inr rfl, b, List.mem_cons_self, last, hlast, by omega⟩
    | ok r =>
      obtain ⟨c₂, tb⟩ := r
      obtain ⟨_, _, _, -, -, -, -, hawaits⟩ := hturn.convertBlock_ok hblock
      cases hlater : convertBlocks c₂ bs with
      | error e' =>
        simp only [convertBlocks, hblock, hlater, bind, Except.bind] at herror
        obtain rfl : e' = e := Except.error.inj herror
        obtain ⟨hfault, b', hb', hneg⟩ := error_of_convertBlocks hrest hawaits hbs hlater
        exact ⟨hfault, b', List.mem_cons_of_mem b hb', hneg⟩
      | ok r => simp [convertBlocks, hblock, hlater, bind, Except.bind, pure, Except.pure] at herror

end Conversion

end TraceLift
