/-
# What a block's stack describes

A block of a graph has a stack: the items it leaves and the number of items it takes from below.
One would expect it to be what the block's own operations do to an empty stack (`Block.Describes`).
That holds of a frame's only block.  A frame that is suspended and resumed has several blocks, and
the conversion goes on with the stack that it has, so every one of them gets the stack that the
last one leaves: what ALL blocks of the frame do to an empty stack, one after the other.

* `Stack.executeAll` carries out operations of the trace on a symbolic stack.  It is defined without
  the conversion, which does the same (`executeAll_of_convertOps`), and a list in two parts is
  carried out part by part (`executeAll_append`).
* `Tracks` is the invariant: after some blocks, the stack of each frame is what the frame's blocks
  so far do to an empty stack.

So a block's stack describes the block exactly if the other blocks of its frame make no difference
(`delta_describes_iff`), and `resumedFrame` is a trace where they do.
-/
import TraceLift.Proofs.GraphOfTrace

namespace TraceLift

open Conversion

/-! ## 1. Carrying out operations on a stack -/

namespace Stack

/-- What is known of a stack: the items from the top down, and how many were taken from below. -/
def contents {α : Type} (s : Stack α) : List α × Nat := (s.items, s.emptyPops)

/-- Carries out an operation, given the variable that it binds, if it binds one. -/
def execute (s : Stack Operand) (opcode : Opcode) (result : Option VarId) :
    Except Fault (Stack Operand) :=
  if opcode.isSwap then s.swap opcode.pops.toNat
  else if opcode.isDup then s.dup opcode.pops.toNat
  else
    let rest := (s.popMany opcode.pops.toNat).2
    match result with
    | some k => .ok (rest.push (.var k))
    | none => .ok rest

/-- Carries out operations one after the other.  Those that leave one item bind the variables of
the list, in order. -/
def executeAll (s : Stack Operand) : List PlacedOp → List VarId → Except Fault (Stack Operand)
  | [], _ => .ok s
  | op :: ops, vars =>
    if op.opcode.pushes = 1 then do
      let s ← s.execute op.opcode vars.head?
      executeAll s ops vars.tail
    else do
      let s ← s.execute op.opcode none
      executeAll s ops vars

/-- The number of operations that bind a variable. -/
def resultCount (ops : List PlacedOp) : Nat := ops.countP fun op => op.opcode.pushes = 1

/-- **Part by part.** -/
theorem executeAll_append : ∀ {ops : List PlacedOp} {vars : List VarId} (s : Stack Operand)
    (ops' : List PlacedOp) (vars' : List VarId), vars.length = resultCount ops →
    s.executeAll (ops ++ ops') (vars ++ vars') = do
      let s ← s.executeAll ops vars
      s.executeAll ops' vars'
  | [], vars, s, ops', vars', h => by
    rw [List.eq_nil_of_length_eq_zero h]
    rfl
  | op :: ops, vars, s, ops', vars', h => by
    rw [resultCount, List.countP_cons] at h
    rw [List.cons_append, executeAll, executeAll]
    split
    · rename_i hpushes
      rw [hpushes, if_pos (by decide)] at h
      obtain ⟨v, rest, rfl⟩ := List.exists_cons_of_length_eq_add_one h
      have ih := fun s : Stack Operand => executeAll_append s ops' vars' (Nat.succ.inj h)
      rw [List.cons_append, List.head?_cons, List.head?_cons, List.tail_cons, List.tail_cons,
        bind_assoc]
      simp only [ih]
    · rename_i hpushes
      rw [if_neg (by simpa using hpushes), Nat.add_zero] at h
      have ih := fun s : Stack Operand => executeAll_append s ops' vars' h
      rw [bind_assoc]
      simp only [ih]

/-- The depth of the frame does not matter. -/
theorem execute_relabel (s : Stack Operand) (d : Option Int) (opcode : Opcode)
    (result : Option VarId) :
    (s.relabel id d).execute opcode result = (s.execute opcode result).map (·.relabel id d) := by
  unfold execute
  split
  · exact rearrange_relabel d (fun _ => rfl) uniform_exchangeEnds _ s
  split
  · exact rearrange_relabel d (fun _ => rfl) uniform_copyLast _ s
  · rw [popMany_relabel d fun _ => rfl]
    cases result with
    | none => rfl
    | some k => exact congrArg Except.ok (push_relabel id d _ (Operand.var k))

theorem executeAll_relabel (d : Option Int) : ∀ (ops : List PlacedOp) (vars : List VarId)
    (s : Stack Operand),
    (s.relabel id d).executeAll ops vars = (s.executeAll ops vars).map (·.relabel id d)
  | [], _, _ => rfl
  | op :: ops, vars, s => by
    rw [executeAll, executeAll, execute_relabel, execute_relabel]
    split
    · cases s.execute op.opcode vars.head? with
      | error => rfl
      | ok s' => exact executeAll_relabel d ops vars.tail s'
    · cases s.execute op.opcode none with
      | error => rfl
      | ok s' => exact executeAll_relabel d ops vars s'

theorem contents_relabel {α : Type} (s : Stack α) (d : Option Int) :
    (s.relabel id d).contents = s.contents := by
  simp [contents, relabel]

theorem exists_execute (s : Stack Operand) {opcode : Opcode} (hlegal : opcode.Legal)
    (result : Option VarId) : ∃ s', s.execute opcode result = .ok s' := by
  unfold execute
  split
  · rename_i hswap
    refine s.exists_swap ?_
    rw [(hlegal.swap_counts hswap).1]
    omega
  split
  · rename_i hdup
    exact s.exists_dup (hlegal.dup_counts hdup).2
  · cases result with
    | none => exact ⟨_, rfl⟩
    | some k => exact ⟨_, rfl⟩

theorem exists_executeAll : ∀ (ops : List PlacedOp) (vars : List VarId) (s : Stack Operand),
    (∀ op ∈ ops, op.opcode.Legal) → ∃ s', s.executeAll ops vars = .ok s'
  | [], _, s, _ => ⟨s, rfl⟩
  | op :: ops, vars, s, hlegal => by
    obtain ⟨hop, hops⟩ := List.forall_mem_cons.mp hlegal
    rw [executeAll]
    split
    · obtain ⟨s₁, h₁⟩ := s.exists_execute hop vars.head?
      rw [h₁]
      exact exists_executeAll ops vars.tail s₁ hops
    · obtain ⟨s₁, h₁⟩ := s.exists_execute hop none
      rw [h₁]
      exact exists_executeAll ops vars s₁ hops

end Stack

/-! ## 2. The conversion carries out the operations -/

namespace Conversion

open Stack

/-- Exchanges, copies and `POP` do not leave one item. -/
theorem pushes_of_moves {opcode : Opcode} (hlegal : opcode.Legal)
    (h : opcode.isSwap = true ∨ opcode.isDup = true ∨ opcode.same Opcode.pop = true) :
    opcode.pushes ≠ 1 := by
  have hall : ∀ op ∈ Opcode.table, op.isSwap = true ∨ op.isDup = true → op.pushes ≠ 1 := by
    decide +kernel
  rcases h with h | h | h
  · exact hall _ (hlegal.mem_table_of_family (.inr (.inr (.inl h)))) (.inl h)
  · exact hall _ (hlegal.mem_table_of_family (.inr (.inl h))) (.inr h)
  · rw [(hlegal.pop_counts h).2]
    decide

/-- The stack below the operands. -/
theorem popMany_of_operands {stack stack' : Stack Operand} {op : TraceOp} {args : List Operand}
    (hlegal : op.opcode.Legal) (h : operands stack op = .ok (args, stack')) :
    (stack.popMany op.opcode.pops.toNat).2 = stack' := by
  unfold operands at h
  split at h
  · rename_i hliteral
    rw [Bool.or_eq_true] at hliteral
    -- neither a push nor an unknown code takes anything
    have hpops : op.opcode.pops = 0 := by
      rcases hliteral with hpush | hmissing
      · exact (hlegal.push_counts hpush).1
      · exact (hlegal.missing_counts hmissing).1
    rw [hpops]
    split at h
    · exact congrArg Prod.snd (Except.ok.inj h)
    · exact absurd h (by simp)
  · exact congrArg Prod.snd (Except.ok.inj h)

/-- One operation: the conversion carries it out, and it binds a variable exactly if it leaves one
item. -/
theorem execute_of_converts {block : Nat} {store store' : Store} {stack stack' : Stack Operand}
    {op : PlacedOp} {tac : Option TacOp} (hlegal : op.opcode.Legal)
    (h : Converts block store stack op store' stack' tac) :
    stack.execute op.opcode (tac.bind (·.target?)) = .ok stack' ∧
      ((tac.bind (·.target?)).isSome = true ↔ op.opcode.pushes = 1) := by
  cases h with
  | swap hop hs =>
    refine ⟨by rw [execute, if_pos hop, hs], ?_⟩
    simpa using pushes_of_moves hlegal (.inl hop)
  | dup hswap hop hs =>
    refine ⟨by rw [execute, hswap, if_neg Bool.false_ne_true, if_pos hop, hs], ?_⟩
    simpa using pushes_of_moves hlegal (.inr (.inl hop))
  | drop hswap hdup hop =>
    refine ⟨?_, by simpa using pushes_of_moves hlegal (.inr (.inr hop))⟩
    rw [execute, hswap, hdup, if_neg Bool.false_ne_true, if_neg Bool.false_ne_true,
      (hlegal.pop_counts hop).1]
    rfl
  | act hop hargs hkind =>
    refine ⟨?_, by simpa [TacOp.target?, tacOf] using resultKind_eq_none_iff.mp hkind⟩
    rw [execute, hop.1, hop.2.1, if_neg Bool.false_ne_true, if_neg Bool.false_ne_true,
      popMany_of_operands hlegal hargs]
    rfl
  | bind hop hargs hkind =>
    have hpushes := pushes_of_resultKind hkind
    refine ⟨?_, by simp [TacOp.target?, hpushes]⟩
    rw [execute, hop.1, hop.2.1, if_neg Bool.false_ne_true, if_neg Bool.false_ne_true,
      popMany_of_operands hlegal hargs]
    rfl

theorem executeAll_of_convertOps {block : Nat} : ∀ {ops : List PlacedOp} {store store' : Store}
    {stack stack' : Stack Operand} {tacs : List TacOp}, (∀ op ∈ ops, op.opcode.Legal) →
    convertOps block store stack ops = .ok (store', stack', tacs) →
    stack.executeAll ops (targets tacs) = .ok stack' ∧ (targets tacs).length = resultCount ops
  | [], _, _, _, _, _, _, h => by
    cases h
    exact ⟨rfl, rfl⟩
  | op :: ops, _, _, _, _, _, hlegal, h => by
    obtain ⟨hlop, hlops⟩ := List.forall_mem_cons.mp hlegal
    obtain ⟨_, stack₁, tac, rest, hop, hops, rfl⟩ := convertOps_cons_eq_ok_iff.mp h
    obtain ⟨hone, hbinds⟩ := execute_of_converts hlop hop
    obtain ⟨hrest, hcount⟩ := executeAll_of_convertOps hlops hops
    rw [targets_append, executeAll, resultCount, List.countP_cons]
    cases hresult : tac.bind (·.target?) with
    | none =>
      rw [hresult] at hone hbinds
      have hpushes : op.opcode.pushes ≠ 1 := by simpa using hbinds
      rw [if_neg hpushes, if_neg (by simpa using hpushes), hone]
      exact ⟨hrest, hcount⟩
    | some k =>
      rw [hresult] at hone hbinds
      have hpushes : op.opcode.pushes = 1 := by simpa using hbinds
      rw [if_pos hpushes, if_pos (by simpa using hpushes)]
      refine ⟨?_, congrArg Nat.succ hcount⟩
      rw [Option.toList_some, List.singleton_append, List.head?_cons, hone]
      exact hrest

/-! ## 3. The stacks of frames -/

/-- The operations of the blocks of a frame. -/
def frameSource (frame : Nat) (ts : List TacBlock) : List PlacedOp :=
  (ts.filter (·.frame == frame)).flatMap (·.source)

/-- The variables that the blocks of a frame bind. -/
def frameTargets (frame : Nat) (ts : List TacBlock) : List VarId :=
  (ts.filter (·.frame == frame)).flatMap fun t => targets t.ops

/-- One block more. -/
theorem frameSource_concat (frame : Nat) (ts : List TacBlock) (t : TacBlock) :
    frameSource frame (ts ++ [t]) =
      frameSource frame ts ++ if t.frame = frame then t.source else [] := by
  rw [frameSource, List.filter_append, List.flatMap_append, ← frameSource]
  by_cases hframe : t.frame = frame <;> simp [hframe]

theorem frameTargets_concat (frame : Nat) (ts : List TacBlock) (t : TacBlock) :
    frameTargets frame (ts ++ [t]) =
      frameTargets frame ts ++ if t.frame = frame then targets t.ops else [] := by
  rw [frameTargets, List.filter_append, List.flatMap_append, ← frameTargets]
  by_cases hframe : t.frame = frame <;> simp [hframe]

/-- The operation that fills a block binds nothing. -/
theorem targets_orFiller (pc : Int) (tacs : List TacOp) :
    targets (orFiller pc tacs) = targets tacs := by
  unfold orFiller
  split
  · rename_i hempty
    rw [List.isEmpty_iff.mp hempty]
    rfl
  · rfl

/-- After the blocks `ts` the stack of each frame is what the frame's blocks do to an empty
stack. -/
structure Tracks (c : Conversion) (ts : List TacBlock) : Prop where
  stack : ∀ (f : Nat) (s : Stack Operand), c.frames[f]? = some s →
    ∃ d, ({ depth := d } : Stack Operand).executeAll (frameSource f ts) (frameTargets f ts) = .ok s
  counted : ∀ t ∈ ts, (targets t.ops).length = resultCount t.source
  inside : ∀ t ∈ ts, t.frame < c.frames.size
  waiting : ∀ f ∈ c.suspended, f < c.frames.size

theorem Tracks.start : Tracks {} [] := by
  constructor <;> simp

theorem length_frameTargets {ts : List TacBlock}
    (h : ∀ t ∈ ts, (targets t.ops).length = resultCount t.source) (frame : Nat) :
    (frameTargets frame ts).length = resultCount (frameSource frame ts) := by
  unfold frameTargets frameSource
  induction ts with
  | nil => rfl
  | cons t ts ih =>
    obtain ⟨ht, hts⟩ := List.forall_mem_cons.mp h
    have ih := ih hts
    rw [List.filter_cons]
    split
    · rw [List.flatMap_cons, List.flatMap_cons, List.length_append, ht, ih]
      exact List.countP_append.symm
    · exact ih

/-- A block finds its frame among those that there are then. -/
theorem Enters.tracks {c c₁ : Conversion} {first : PlacedOp} {frame : Nat} {ts : List TacBlock}
    (h : Enters c first frame c₁) (hc : c.Tracks ts) : c₁.Tracks ts ∧ frame < c₁.frames.size := by
  cases h with
  | opened =>
    have hlt : ∀ {f : Nat}, f < c.frames.size →
        f < (c.frames.push { depth := some first.place.depth }).size := by
      intro f hf
      rw [Array.size_push]
      omega
    refine ⟨⟨?_, hc.counted, fun t ht => hlt (hc.inside t ht), fun f hf => hlt (hc.waiting f hf)⟩,
      by simp⟩
    intro f s hs
    rw [Array.getElem?_push] at hs
    split at hs
    · -- the frame is new, so no block belongs to it yet
      rename_i hf
      have hnone : ts.filter (·.frame == f) = [] := by
        rw [List.filter_eq_nil_iff]
        intro t ht heq
        have hinside := hc.inside t ht
        rw [beq_iff_eq.mp heq, hf] at hinside
        exact absurd hinside (Nat.lt_irrefl _)
      rw [← Option.some.inj hs, frameSource, frameTargets, hnone]
      exact ⟨_, rfl⟩
    · exact hc.stack f s hs
  | resumed hsuspended =>
    refine ⟨⟨hc.stack, hc.counted, hc.inside, ?_⟩, ?_⟩
    · exact fun f hf => hc.waiting f (hsuspended.subset (List.mem_cons_of_mem _ hf))
    · exact hc.waiting _ (hsuspended.subset List.mem_cons_self)

theorem mem_suspend {suspended : List Nat} {frame f : Nat} {first last : PlacedOp}
    (h : f ∈ suspend suspended frame first last) : f = frame ∨ f ∈ suspended := by
  unfold suspend at h
  dsimp only at h
  split at h
  · exact .inr h
  · split at h <;> split at h <;> simp_all

/-- **One block.** -/
theorem Tracks.convertBlock {c c' : Conversion} {b : TraceBlock} {t : TacBlock} {ts : List TacBlock}
    (hc : c.Tracks ts) (hlegal : ∀ op ∈ b.ops, op.opcode.Legal)
    (h : c.convertBlock b = .ok (c', t)) : c'.Tracks (ts ++ [t]) := by
  obtain ⟨first, last, c₁, stack, tacs, hstep⟩ := blockStep_of_convertBlock h
  obtain ⟨hc₁, hframe⟩ := hstep.enters.tracks hc
  obtain ⟨hexecute, hcount⟩ := executeAll_of_convertOps hlegal hstep.converts
  rw [← hstep.source, ← targets_orFiller first.pc tacs, ← hstep.ops] at hexecute
  rw [← hstep.source, ← targets_orFiller first.pc tacs, ← hstep.ops] at hcount
  have hsize : c'.frames.size = c₁.frames.size := by rw [hstep.frames, Array.size_setIfInBounds]
  constructor
  case stack =>
    intro f s hs
    rw [hstep.frames, Array.getElem?_setIfInBounds] at hs
    rw [frameSource_concat, frameTargets_concat]
    by_cases hf : t.frame = f
    · subst hf
      rw [if_pos rfl, if_pos hframe] at hs
      rw [if_pos rfl, if_pos rfl, ← Option.some.inj hs]
      obtain ⟨d, hbefore⟩ := hc₁.stack t.frame _ (Array.getElem?_eq_getElem hframe)
      refine ⟨d, ?_⟩
      rw [executeAll_append _ _ _ (length_frameTargets hc₁.counted t.frame), hbefore]
      rw [Array.getD_eq_getD_getElem?, Array.getElem?_eq_getElem hframe] at hexecute
      exact hexecute
    · rw [if_neg hf] at hs
      rw [if_neg hf, if_neg hf, List.append_nil, List.append_nil]
      exact hc₁.stack f s hs
  case counted =>
    intro t' ht'
    rcases List.mem_append.mp ht' with ht' | ht'
    · exact hc₁.counted t' ht'
    · rw [List.mem_singleton.mp ht']
      exact hcount
  case inside =>
    intro t' ht'
    rw [hsize]
    rcases List.mem_append.mp ht' with ht' | ht'
    · exact hc₁.inside t' ht'
    · rw [List.mem_singleton.mp ht']
      exact hframe
  case waiting =>
    intro f hf
    rw [hsize]
    rw [hstep.suspended] at hf
    rcases mem_suspend hf with rfl | hf
    · exact hframe
    · exact hc₁.waiting f hf

/-- All blocks, one after the other. -/
theorem Tracks.convertBlocks : ∀ {bs : List TraceBlock} {c c' : Conversion}
    {before ts : List TacBlock}, c.Tracks before → (∀ b ∈ bs, ∀ op ∈ b.ops, op.opcode.Legal) →
    Conversion.convertBlocks c bs = .ok (c', ts) → c'.Tracks (before ++ ts)
  | [], _, _, before, _, hc, _, h => by
    cases h
    rw [List.append_nil]
    exact hc
  | b :: bs, _, _, before, _, hc, hlegal, h => by
    obtain ⟨hlb, hlbs⟩ := List.forall_mem_cons.mp hlegal
    obtain ⟨c₁, t, ts, hb, hbs, rfl⟩ := convertBlocks_cons_ok h
    rw [List.append_cons]
    exact (hc.convertBlock hlb hb).convertBlocks hlbs hbs

/-- A block stands for the operations that it was made from. -/
theorem source_convertBlocks : ∀ {bs : List TraceBlock} {c c' : Conversion} {ts : List TacBlock},
    Conversion.convertBlocks c bs = .ok (c', ts) → ts.map (·.source) = bs.map (·.ops)
  | [], _, _, _, h => by
    cases h
    rfl
  | b :: bs, _, _, _, h => by
    obtain ⟨c₁, t, ts, hb, hbs, rfl⟩ := convertBlocks_cons_ok h
    obtain ⟨_, _, _, _, _, hstep⟩ := blockStep_of_convertBlock hb
    rw [List.map_cons, List.map_cons, hstep.source, source_convertBlocks hbs]

end Conversion

/-! ## 4. Blocks of a graph -/

/-- The frames that the blocks of a trace run in, block by block. -/
def blockFrames (ops : List TraceOp) : Except Fault (List Nat) :=
  (convertBlocks {} (blocksOf ops)).map fun r => r.2.map (·.frame)

namespace Block

/-- What the operations of blocks do to an empty stack, one block after the other. -/
def effect (bs : List Block) : Except Fault (List Operand × Nat) :=
  (({} : Stack Operand).executeAll (bs.flatMap (·.source))
    (bs.flatMap fun b => targets b.ops)).map (·.contents)

/-- The stack of a block is what its own operations do. -/
def Describes (b : Block) : Prop := effect [b] = .ok b.delta.contents

end Block

/-- The blocks of a graph that run in a frame, given the frames of all blocks. -/
def Graph.inFrame (g : Graph) (frames : List Nat) (frame : Nat) : List Block :=
  ((g.blocks.zip frames).filter (·.2 == frame)).map (·.1)

theorem Block.exists_effect {b : Block} (h : ∀ op ∈ b.source, op.opcode.Legal) :
    ∃ own, effect [b] = .ok own := by
  obtain ⟨s, hs⟩ := Stack.exists_executeAll ([b].flatMap (·.source))
    ([b].flatMap fun b => targets b.ops) {} (by rwa [List.flatMap_singleton])
  refine ⟨s.contents, ?_⟩
  rw [effect, hs]
  rfl

namespace Graph

/-- What is read of the blocks of a frame is read of the converted ones. -/
theorem map_inFrame {α : Type} {k : Block → α} {k' : TacBlock → α} (frame : Nat) :
    ∀ {bs : List Block} {ts : List TacBlock}, bs.map k = ts.map k' →
    (((bs.zip (ts.map (·.frame))).filter (·.2 == frame)).map (·.1)).map k =
      (ts.filter (·.frame == frame)).map k'
  | [], [], _ => rfl
  | [], _ :: _, h => absurd h (by simp)
  | _ :: _, [], h => absurd h (by simp)
  | b :: bs, t :: ts, h => by
    obtain ⟨hb, hbs⟩ := List.cons.inj h
    have ih := map_inFrame frame hbs
    rw [List.map_cons, List.zip_cons_cons, List.filter_cons, List.filter_cons]
    split
    · rw [List.map_cons, List.map_cons, List.map_cons, ih, hb]
    · exact ih

theorem targets_map_unnumbered (tacs : List TacOp) :
    targets (tacs.map (·.unnumbered)) = targets tacs := by
  rw [targets, List.filterMap_map]
  rfl

/-- The blocks of a frame do what the conversion keeps track of. -/
theorem MadeFrom.effect_inFrame {g : Graph} {c : Conversion} {ts : List TacBlock}
    (h : g.MadeFrom c ts) (hc : c.Tracks ts) {frame : Nat} (hframe : frame < c.frames.size) :
    Block.effect (g.inFrame (ts.map (·.frame)) frame) = .ok (c.frames.getD frame {}).contents := by
  have hblocks : g.blocks.map (fun b => (b.source, targets b.ops)) =
      ts.map fun t => (t.source, targets t.ops) :=
    map_eq_of_content h.content
      (fun b => by rw [Block.content, targets_map_unnumbered]) fun _ _ => rfl
  have hread := map_inFrame frame hblocks
  have hsource : (g.inFrame (ts.map (·.frame)) frame).flatMap (·.source) =
      frameSource frame ts := by
    simpa [inFrame, frameSource, List.flatMap_map] using congrArg (List.flatMap Prod.fst) hread
  have hbound : ((g.inFrame (ts.map (·.frame)) frame).flatMap fun b => targets b.ops) =
      frameTargets frame ts := by
    simpa [inFrame, frameTargets, List.flatMap_map] using congrArg (List.flatMap Prod.snd) hread
  obtain ⟨d, hstack⟩ := hc.stack frame _ (Array.getElem?_eq_getElem hframe)
  -- on a stack of no depth the same happens
  have hplain : ({ depth := d } : Stack Operand) = ({} : Stack Operand).relabel id d := rfl
  rw [hplain, Stack.executeAll_relabel, map_eq_ok_iff] at hstack
  obtain ⟨s, hs, heq⟩ := hstack
  rw [Block.effect, hsource, hbound, hs, Array.getD_eq_getD_getElem?,
    Array.getElem?_eq_getElem hframe, Option.getD_some, ← heq, Stack.contents_relabel]
  rfl

theorem MadeFrom.delta_eq {g : Graph} {c : Conversion} {ts : List TacBlock} (h : g.MadeFrom c ts)
    {i : Nat} {b : Block} {t : TacBlock} (hb : g.blocks[i]? = some b) (ht : ts[i]? = some t) :
    b.delta = c.frames.getD t.frame {} := by
  have hdeltas : g.blocks.map (·.delta) = ts.map fun t => c.frames.getD t.frame {} :=
    map_eq_of_content h.content (fun _ => rfl) fun _ _ => rfl
  simpa [hb, ht] using congrArg (·[i]?) hdeltas

/-- The operations that a block stands for are operations of the trace. -/
theorem MadeFrom.toTraceOp_mem_of_mem_source {ops : List TraceOp} {g : Graph} {c : Conversion}
    {ts : List TacBlock} (h : g.MadeFrom c ts)
    (hconvert : convertBlocks {} (blocksOf ops) = .ok (c, ts)) {b : Block} (hb : b ∈ g.blocks)
    {op : PlacedOp} (hop : op ∈ b.source) : op.toTraceOp ∈ ops := by
  have hsources : g.blocks.map (·.source) = ts.map (·.source) :=
    map_eq_of_content h.content (fun _ => rfl) fun _ _ => rfl
  have hmem : b.source ∈ (blocksOf ops).map (·.ops) := by
    rw [← source_convertBlocks hconvert, ← hsources]
    exact List.mem_map_of_mem hb
  obtain ⟨tb, htb, heq⟩ := List.mem_map.mp hmem
  exact toTraceOp_mem_of_mem_blocksOf htb (heq ▸ hop)

/-- A block whose frame has no other is all blocks of its frame. -/
theorem inFrame_eq_singleton {g : Graph} {frames : List Nat}
    (hlength : frames.length = g.blocks.length) {i frame : Nat} {b : Block}
    (hb : g.blocks[i]? = some b) (hframe : frames[i]? = some frame)
    (hcount : frames.count frame = 1) : g.inFrame frames frame = [b] := by
  have hmem : (b, frame) ∈ (g.blocks.zip frames).filter (·.2 == frame) := by
    refine List.mem_filter.mpr ⟨List.mem_of_getElem? (i := i) ?_, beq_self_eq_true frame⟩
    rw [List.getElem?_zip_eq_some]
    exact ⟨hb, hframe⟩
  have hone : ((g.blocks.zip frames).filter (·.2 == frame)).length = 1 := by
    have hsnd : (g.blocks.zip frames).map (·.2) = frames :=
      List.map_snd_zip (Nat.le_of_eq hlength)
    calc ((g.blocks.zip frames).filter (·.2 == frame)).length
        = ((g.blocks.zip frames).map (·.2)).count frame := by
          rw [← List.countP_eq_length_filter, List.count, List.countP_map]
          rfl
      _ = 1 := by rw [hsnd, hcount]
  obtain ⟨p, hp⟩ := List.length_eq_one_iff.mp hone
  rw [inFrame, hp]
  rw [hp, List.mem_singleton] at hmem
  rw [← hmem]
  rfl

end Graph

/-- **When a block's stack describes the block.**  The stack of every block is what all blocks of
its frame do to an empty stack, one after the other.  So it describes the block exactly if the
block alone does the same; the only block of a frame is described. -/
theorem delta_describes_iff (ops : List TraceOp) (hlegal : ∀ op ∈ ops, op.opcode.Legal) {g : Graph}
    (hg : Graph.ofTrace ops = .ok g) :
    ∃ frames, blockFrames ops = .ok frames ∧ frames.length = g.blocks.length ∧
      ∀ (i : Nat) (b : Block) (frame : Nat), g.blocks[i]? = some b → frames[i]? = some frame →
        Block.effect (g.inFrame frames frame) = .ok b.delta.contents ∧
        (∃ own, Block.effect [b] = .ok own ∧
          (b.Describes ↔ Block.effect (g.inFrame frames frame) = .ok own)) ∧
        (frames.count frame = 1 → b.Describes) := by
  obtain ⟨c, ts, hconvert, hmade⟩ := Graph.madeFrom_of_ofTrace hg
  have htracks : c.Tracks ts := Tracks.start.convertBlocks
    (fun b hb op hop => hlegal _ (toTraceOp_mem_of_mem_blocksOf hb hop)) hconvert
  have hlength : ts.length = g.blocks.length := by
    simpa using (congrArg List.length hmade.content).symm
  refine ⟨ts.map (·.frame), ?_, by rw [List.length_map, hlength], ?_⟩
  · rw [blockFrames, hconvert]
    rfl
  intro i b frame hb hframe
  rw [List.getElem?_map, Option.map_eq_some_iff] at hframe
  obtain ⟨t, ht, rfl⟩ := hframe
  have hsource : ∀ op ∈ b.source, op.opcode.Legal := fun op hop =>
    hlegal _ (hmade.toTraceOp_mem_of_mem_source hconvert (List.mem_of_getElem? hb) hop)
  have heffect := hmade.effect_inFrame htracks (htracks.inside t (List.mem_of_getElem? ht))
  rw [← hmade.delta_eq hb ht] at heffect
  refine ⟨heffect, ?_, ?_⟩
  · obtain ⟨own, hown⟩ := Block.exists_effect hsource
    refine ⟨own, hown, ?_, ?_⟩
    · intro hdescribes
      rw [heffect, ← hdescribes, hown]
    · intro hsame
      rw [Block.Describes, hown, ← hsame, heffect]
  · intro hcount
    rw [Graph.inFrame_eq_singleton (by rw [List.length_map, hlength]) hb
      (by rw [List.getElem?_map, ht, Option.map_some]) hcount] at heffect
    exact heffect

/-- A frame pushes a word, a callee stops at once, and the frame creates a contract and stops. -/
def resumedFrame : List TraceOp :=
  [{ pc := 0, opcode := .push 1, value := some 5 }, { pc := 0, opcode := .stop },
    { pc := 7, opcode := .create, value := some 9 }, { pc := 8, opcode := .stop }]

theorem describes_callee_resumedFrame : (∀ op ∈ resumedFrame, op.opcode.Legal) ∧
    ∃ g b, Graph.ofTrace resumedFrame = .ok g ∧ g.blocks[1]? = some b ∧ b.Describes := by
  have hlegal : ∀ op ∈ resumedFrame, op.opcode.Legal := by decide +kernel
  refine ⟨hlegal, ?_⟩
  have hframes : (blockFrames resumedFrame).toOption = some [0, 1, 0] := by decide +kernel
  have hmade : (Graph.ofTrace resumedFrame).toBool = true := by decide +kernel
  cases hg : Graph.ofTrace resumedFrame with
  | error e => simp [hg, Except.toBool] at hmade
  | ok g =>
    obtain ⟨frames, hok, hlength, hall⟩ := delta_describes_iff resumedFrame hlegal hg
    rw [hok] at hframes
    obtain rfl : frames = [0, 1, 0] := Option.some.inj hframes
    have hlt : 1 < g.blocks.length := by
      rw [← hlength]
      decide
    refine ⟨g, g.blocks[1], rfl, List.getElem?_eq_getElem hlt, ?_⟩
    exact (hall 1 _ 1 (List.getElem?_eq_getElem hlt) rfl).2.2 (by decide)

/-- The frame's first block pushes one item, and its stack says that it takes two and leaves
another one: what the creation left. -/
theorem not_describes_resumedFrame : (∀ op ∈ resumedFrame, op.opcode.Legal) ∧
    ∃ g b, Graph.ofTrace resumedFrame = .ok g ∧ g.blocks[0]? = some b ∧
      Block.effect [b] = .ok ([.var 0], 0) ∧ b.delta.contents = ([.var 1], 2) ∧ ¬ b.Describes := by
  refine ⟨by decide +kernel, ?_⟩
  have hvalues : ((Graph.ofTrace resumedFrame).toOption.bind (·.blocks[0]?)).map
      (fun b => ((Block.effect [b]).toOption, b.delta.contents)) =
        some (some ([.var 0], 0), ([.var 1], 2)) := by decide +kernel
  cases hg : Graph.ofTrace resumedFrame with
  | error e => simp [hg, Except.toOption] at hvalues
  | ok g =>
    rw [hg, Except.toOption, Option.bind_some, Option.map_eq_some_iff] at hvalues
    obtain ⟨b, hb, hvalues⟩ := hvalues
    obtain ⟨hown, hdelta⟩ := Prod.mk.inj hvalues
    have heffect : Block.effect [b] = .ok ([.var 0], 0) := by
      cases he : Block.effect [b] with
      | error e => simp [he, Except.toOption] at hown
      | ok own =>
        rw [he] at hown
        rw [Option.some.inj hown]
    refine ⟨g, b, rfl, hb, heffect, hdelta, ?_⟩
    rw [Block.Describes, heffect, hdelta]
    simp

end TraceLift
