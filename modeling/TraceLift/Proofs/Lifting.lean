/-
# Operands are defined before they are used

The conversion numbers result variables in the order in which it meets them, and what it puts on a
stack stays there until it is taken.  So when `n` variables are bound, every item of every frame's
stack is one of these `n` or stands for an item of the frame's entry stack (`Operand.Stacked`), and
the operands of the next operation are such items.

* `Yields n op t` says what an operation of the trace leaves when `n` variables are bound: its
  operands, as many as it takes, and its result, which is variable `n`.
* `Lifted n ops tacs n'` follows a list of operations from the first to the last, with the stacks
  forgotten: the count of variables is all that is passed on.
* **Conversions are liftings** (`lifted_of_convertBlocks`), whatever the trace, so the operations
  of a graph are one (`lifted_of_madeFrom`).

From a lifting one reads off that results are numbered in order (`Lifted.targets`), that positions
stay those of the trace (`Lifted.locs`), and what each single operation is like
(`Lifted.cases_of_split`).
-/
import TraceLift.Proofs.GraphOfTrace

namespace TraceLift

open Conversion

/-! ## 1. What an operation leaves -/

/-- What a stack can hold when `n` variables are bound: one of these, or an item of the frame's
entry stack. -/
def Operand.Stacked (n : Nat) : Operand → Prop
  | var k => k < n
  | entry _ => True
  | literal _ | blank => False

theorem Operand.Stacked.mono {m n : Nat} (hmn : m ≤ n) {a : Operand} (h : a.Stacked m) :
    a.Stacked n := by
  cases a with
  | var k => exact Nat.lt_of_lt_of_le h hmn
  | entry => trivial
  | literal | blank => exact h

theorem Operand.stacked_below (n position : Nat) :
    (StackItem.below position : Operand).Stacked n := trivial

/-- An operation that the trace does not have. -/
structure TacOp.Fills (t : TacOp) : Prop where
  opcode : t.opcode = Opcode.nop
  args : t.args = []
  target : t.target? = none
  place : t.place = none

namespace Conversion

/-- What an operation of the trace leaves when it is converted with `n` variables bound. -/
structure Yields (n : Nat) (op : PlacedOp) (t : TacOp) : Prop where
  acts : Acts op.opcode
  opcode : t.opcode = tacOpcode op.opcode
  pc : t.pc = op.pc
  place : t.place = some op.place
  /-- A push and an unknown code have one operand, written in the code. -/
  literal : op.opcode.isPush = true ∨ op.opcode.isMissing = true → ∃ w, t.args = [.literal w]
  /-- Any other operation takes its operands from the stack. -/
  stacked : ¬ (op.opcode.isPush = true ∨ op.opcode.isMissing = true) →
    t.args.length = op.opcode.pops.toNat ∧ ∀ a ∈ t.args, a.Stacked n
  /-- The result is the next variable. -/
  target : t.target? = if op.opcode.pushes = 1 then some n else none

variable {block : Nat} {store store' : Store} {stack stack' : Stack Operand}

/-- Where operands come from, and what is left on the stack. -/
theorem operands_cases {n : Nat} {op : TraceOp} {args : List Operand}
    (hstack : stack.All (·.Stacked n)) (h : operands stack op = .ok (args, stack')) :
    (op.opcode.isPush = true ∨ op.opcode.isMissing = true → ∃ w, args = [.literal w]) ∧
    (¬ (op.opcode.isPush = true ∨ op.opcode.isMissing = true) →
      args.length = op.opcode.pops.toNat ∧ ∀ a ∈ args, a.Stacked n) ∧
    stack'.All (·.Stacked n) := by
  unfold operands at h
  split at h
  · rename_i hop
    rw [Bool.or_eq_true] at hop
    split at h
    · rename_i w _
      cases h
      exact ⟨fun _ => ⟨w, rfl⟩, fun hnot => absurd hop hnot, hstack⟩
    · exact absurd h (by simp)
  · rename_i hop
    rw [Bool.or_eq_true] at hop
    have hlength := Stack.length_popMany op.opcode.pops.toNat stack
    obtain ⟨htaken, hleft⟩ :=
      hstack.popMany (Operand.stacked_below n) op.opcode.pops.toNat
    rw [Except.ok.inj h] at hlength htaken hleft
    exact ⟨fun hyes => absurd hyes hop, fun _ => ⟨hlength, htaken⟩, hleft⟩

/-- **One operation.**  On a stack that holds bound variables only it leaves such a stack, and what
it leaves besides is nothing, if it rearranges the stack, or as `Yields` says. -/
theorem yields_of_converts {op : PlacedOp} {tac : Option TacOp}
    (hstack : stack.All (·.Stacked store.size))
    (h : Converts block store stack op store' stack' tac) :
    stack'.All (·.Stacked store'.size) ∧
      ((tac = none ∧ ¬ Acts op.opcode ∧ store'.size = store.size) ∨
        ∃ t, tac = some t ∧ Yields store.size op t ∧
          store'.size = store.size + t.target?.toList.length) := by
  have hbelow := Operand.stacked_below store.size
  cases h with
  | swap hop hs =>
    exact ⟨hstack.rearrange hbelow Stack.uniform_exchangeEnds hs,
      .inl ⟨rfl, fun hacts => by simp [hacts.1] at hop, rfl⟩⟩
  | dup _ hop hs =>
    exact ⟨hstack.rearrange hbelow Stack.uniform_copyLast hs,
      .inl ⟨rfl, fun hacts => by simp [hacts.2.1] at hop, rfl⟩⟩
  | drop _ _ hop =>
    exact ⟨(hstack.pop hbelow).2, .inl ⟨rfl, fun hacts => by simp [hacts.2.2] at hop, rfl⟩⟩
  | act hop hargs hkind =>
    obtain ⟨hliteral, hstacked, hleft⟩ := operands_cases hstack hargs
    have hpushes := resultKind_eq_none_iff.mp hkind
    refine ⟨hleft, .inr ⟨_, rfl, ⟨hop, rfl, rfl, rfl, hliteral, hstacked, ?_⟩, rfl⟩⟩
    rw [if_neg hpushes]
    rfl
  | @bind args _ v hop hargs hkind _ =>
    obtain ⟨hliteral, hstacked, hleft⟩ := operands_cases hstack hargs
    have hpushes := pushes_of_resultKind hkind
    refine ⟨?_, .inr ⟨_, rfl, ⟨hop, rfl, rfl, rfl, hliteral, hstacked, ?_⟩, ?_⟩⟩
    · rw [Array.size_push]
      exact (hleft.mono fun _ => Operand.Stacked.mono (Nat.le_succ _)).push (Nat.lt_succ_self _)
    · rw [if_pos hpushes]
      rfl
    · rw [Array.size_push]
      rfl

/-! ## 2. Lists of operations -/

/-- What a list of operations of the trace leaves, from `n` bound variables to `n'`. -/
inductive Lifted : Nat → List PlacedOp → List TacOp → Nat → Prop
  | nil {n} : Lifted n [] [] n
  | moves {n n' op ops tacs} (hop : ¬ Acts op.opcode) (rest : Lifted n ops tacs n') :
      Lifted n (op :: ops) tacs n'
  | yields {n n' op ops t tacs} (hop : Yields n op t)
      (rest : Lifted (n + t.target?.toList.length) ops tacs n') :
      Lifted n (op :: ops) (t :: tacs) n'
  | fills {n n' ops t tacs} (hop : t.Fills) (rest : Lifted n ops tacs n') :
      Lifted n ops (t :: tacs) n'

namespace Lifted

variable {n n' : Nat} {ops : List PlacedOp} {tacs : List TacOp}

theorem append {m : Nat} {ops' : List PlacedOp} {tacs' : List TacOp} (h : Lifted n ops tacs m)
    (h' : Lifted m ops' tacs' n') : Lifted n (ops ++ ops') (tacs ++ tacs') n' := by
  induction h with
  | nil => exact h'
  | moves hop _ ih => exact .moves hop (ih h')
  | yields hop _ ih => exact .yields hop (ih h')
  | fills hop _ ih => exact .fills hop (ih h')

/-- Numbers do not matter. -/
theorem of_unnumbered (h : Lifted n ops tacs n') : ∀ {tacs' : List TacOp},
    tacs'.map (·.unnumbered) = tacs.map (·.unnumbered) → Lifted n ops tacs' n' := by
  have hread : ∀ {t t' : TacOp}, t'.unnumbered = t.unnumbered → t'.opcode = t.opcode ∧
      t'.args = t.args ∧ t'.pc = t.pc ∧ t'.place = t.place ∧ t'.target? = t.target? := by
    intro t t' heq
    obtain ⟨hopcode, hargs, hpc, hbinding, -, hplace, -⟩ := TacOp.mk.inj heq
    exact ⟨hopcode, hargs, hpc, hplace, congrArg (Option.map _) hbinding⟩
  induction h with
  | nil =>
    intro tacs' heq
    rw [List.map_nil, List.map_eq_nil_iff] at heq
    rw [heq]
    exact .nil
  | moves hop _ ih => exact fun heq => .moves hop (ih heq)
  | yields hop _ ih =>
    intro tacs' heq
    obtain ⟨t', rest', rfl, ht, hrest⟩ := List.map_eq_cons_iff.mp heq
    obtain ⟨hopcode, hargs, hpc, hplace, htarget⟩ := hread ht
    refine .yields ⟨hop.acts, ?_, ?_, ?_, ?_, ?_, ?_⟩ (htarget ▸ ih hrest)
    · rw [hopcode, hop.opcode]
    · rw [hpc, hop.pc]
    · rw [hplace, hop.place]
    · rw [hargs]
      exact hop.literal
    · rw [hargs]
      exact hop.stacked
    · rw [htarget, hop.target]
  | fills hop _ ih =>
    intro tacs' heq
    obtain ⟨t', rest', rfl, ht, hrest⟩ := List.map_eq_cons_iff.mp heq
    obtain ⟨hopcode, hargs, -, hplace, htarget⟩ := hread ht
    exact .fills ⟨hopcode ▸ hop.opcode, hargs ▸ hop.args, htarget ▸ hop.target,
      hplace ▸ hop.place⟩ (ih hrest)

/-- **Results are numbered in order.** -/
theorem targets (h : Lifted n ops tacs n') :
    n ≤ n' ∧ Conversion.targets tacs = List.range' n (n' - n) := by
  induction h with
  | nil => simp [Conversion.targets]
  | moves _ _ ih => exact ih
  | fills hop _ ih =>
    refine ⟨ih.1, ?_⟩
    rw [Conversion.targets, List.filterMap_cons_none hop.target]
    exact ih.2
  | @yields n n' op ops t tacs hop _ ih =>
    obtain ⟨hle, htargets⟩ := ih
    cases ht : t.target? with
    | none =>
      rw [ht] at hle htargets
      refine ⟨hle, ?_⟩
      rw [Conversion.targets, List.filterMap_cons_none ht]
      exact htargets
    | some k =>
      rw [ht] at hle htargets
      simp only [Option.toList_some, List.length_singleton] at hle htargets
      have hk : k = n := by
        have htarget := hop.target
        rw [ht] at htarget
        split at htarget <;> simp_all
      have hsplit : n' - n = n' - (n + 1) + 1 := by omega
      refine ⟨by omega, ?_⟩
      rw [Conversion.targets, List.filterMap_cons_some ht, hsplit, List.range'_succ, hk]
      exact congrArg (n :: ·) htargets

/-- **Positions stay those of the trace.** -/
theorem locs (h : Lifted n ops tacs n') :
    (tacs.filterMap (·.loc?)).Sublist (ops.map (·.place.loc)) := by
  induction h with
  | nil => exact List.Sublist.refl _
  | moves _ _ ih => exact ih.cons _
  | yields hop _ ih =>
    rw [List.filterMap_cons_some (by rw [TacOp.loc?, hop.place, Option.map_some])]
    exact ih.cons_cons _
  | fills hop _ ih =>
    rw [List.filterMap_cons_none (by rw [TacOp.loc?, hop.place, Option.map_none])]
    exact ih

/-- The lifting of the operations up to one of them. -/
theorem split : ∀ {pre post : List TacOp}, Lifted n ops (pre ++ post) n' →
    ∃ m ops₁ ops₂, ops = ops₁ ++ ops₂ ∧ Lifted n ops₁ pre m ∧ Lifted m ops₂ post n' := by
  intro pre post h
  generalize htacs : pre ++ post = tacs at h
  induction h generalizing pre with
  | @nil n =>
    obtain ⟨rfl, rfl⟩ := List.append_eq_nil_iff.mp htacs
    exact ⟨n, [], [], rfl, .nil, .nil⟩
  | moves hop _ ih =>
    obtain ⟨m, ops₁, ops₂, rfl, h₁, h₂⟩ := ih htacs
    exact ⟨m, _ :: ops₁, ops₂, rfl, .moves hop h₁, h₂⟩
  | @yields n n' op ops t tacs hop rest ih =>
    cases pre with
    | nil =>
      rw [List.nil_append] at htacs
      exact ⟨n, [], op :: ops, rfl, .nil, htacs ▸ .yields hop rest⟩
    | cons t' pre =>
      rw [List.cons_append] at htacs
      obtain ⟨rfl, hrest⟩ := List.cons.inj htacs
      obtain ⟨m, ops₁, ops₂, rfl, h₁, h₂⟩ := ih hrest
      exact ⟨m, op :: ops₁, ops₂, rfl, .yields hop h₁, h₂⟩
  | @fills n n' ops t tacs hop rest ih =>
    cases pre with
    | nil =>
      rw [List.nil_append] at htacs
      exact ⟨n, [], ops, rfl, .nil, htacs ▸ .fills hop rest⟩
    | cons t' pre =>
      rw [List.cons_append] at htacs
      obtain ⟨rfl, hrest⟩ := List.cons.inj htacs
      obtain ⟨m, ops₁, ops₂, rfl, h₁, h₂⟩ := ih hrest
      exact ⟨m, ops₁, ops₂, rfl, .fills hop h₁, h₂⟩

theorem cases_head {t : TacOp} (h : Lifted n ops (t :: tacs) n') :
    t.Fills ∨ ∃ op ∈ ops, Yields n op t := by
  generalize htacs : t :: tacs = l at h
  induction h with
  | nil => exact absurd htacs (by simp)
  | moves _ _ ih =>
    refine (ih htacs).imp_right ?_
    rintro ⟨op, hop, hy⟩
    exact ⟨op, List.mem_cons_of_mem _ hop, hy⟩
  | yields hop =>
    obtain ⟨rfl, -⟩ := List.cons.inj htacs
    exact .inr ⟨_, List.mem_cons_self, hop⟩
  | fills hop =>
    obtain ⟨rfl, -⟩ := List.cons.inj htacs
    exact .inl hop

/-- **Each operation** fills an empty block, or comes from an operation of the trace; then the
variables that it can use are those bound before it. -/
theorem cases_of_split {pre post : List TacOp} {t : TacOp}
    (h : Lifted 0 ops (pre ++ t :: post) n') :
    t.Fills ∨ ∃ m, ∃ op ∈ ops, Conversion.targets pre = List.range m ∧ m ≤ n' ∧ Yields m op t := by
  obtain ⟨m, ops₁, ops₂, rfl, hpre, hpost⟩ := h.split
  refine hpost.cases_head.imp_right fun ⟨op, hop, hy⟩ => ?_
  refine ⟨m, op, List.mem_append_right _ hop, ?_, hpost.targets.1, hy⟩
  rw [hpre.targets.2, Nat.sub_zero, List.range_eq_range']

theorem cases_of_mem {t : TacOp} (h : Lifted 0 ops tacs n') (ht : t ∈ tacs) :
    t.Fills ∨ ∃ m, ∃ op ∈ ops, m ≤ n' ∧ Yields m op t := by
  obtain ⟨pre, post, rfl⟩ := List.append_of_mem ht
  exact h.cases_of_split.imp_right fun ⟨m, op, hop, _, hm, hy⟩ => ⟨m, op, hop, hm, hy⟩

end Lifted

/-! ## 3. Conversions are liftings -/

theorem lifted_of_convertOps : ∀ {ops : List PlacedOp} {store store' : Store}
    {stack stack' : Stack Operand} {tacs : List TacOp}, stack.All (·.Stacked store.size) →
    convertOps block store stack ops = .ok (store', stack', tacs) →
    stack'.All (·.Stacked store'.size) ∧ Lifted store.size ops tacs store'.size
  | [], _, _, _, _, _, hstack, h => by
    cases h
    exact ⟨hstack, .nil⟩
  | op :: ops, store, store', _, _, _, hstack, h => by
    obtain ⟨store₁, stack₁, tac, rest, hop, hops, rfl⟩ := convertOps_cons_eq_ok_iff.mp h
    obtain ⟨hstack₁, hone⟩ := yields_of_converts hstack hop
    obtain ⟨hstack', hrest⟩ := lifted_of_convertOps hstack₁ hops
    refine ⟨hstack', ?_⟩
    rcases hone with ⟨rfl, hmoves, hsize⟩ | ⟨t, rfl, hy, hsize⟩
    · exact .moves hmoves (hsize ▸ hrest)
    · exact .yields hy (hsize ▸ hrest)

/-- Every stack holds bound variables only. -/
def Scoped (c : Conversion) : Prop :=
  ∀ (f : Nat) (s : Stack Operand), c.frames[f]? = some s → s.All (·.Stacked c.store.size)

theorem Enters.scoped {c c₁ : Conversion} {first : PlacedOp} {frame : Nat}
    (h : Enters c first frame c₁) (hc : c.Scoped) : c₁.Scoped := by
  cases h with
  | resumed => exact hc
  | opened =>
    intro f s hs
    rw [Array.getElem?_push] at hs
    split at hs
    · cases hs
      exact fun a ha => absurd ha (List.not_mem_nil)
    · exact hc f s hs

/-- The stack that a block works on. -/
theorem Scoped.getD {c : Conversion} (hc : c.Scoped) (f : Nat) :
    (c.frames.getD f {}).All (·.Stacked c.store.size) := by
  rw [Array.getD_eq_getD_getElem?]
  cases hs : c.frames[f]? with
  | none => exact fun a ha => absurd ha (List.not_mem_nil)
  | some s => exact hc f s hs

theorem lifted_of_convertBlock {c c' : Conversion} {b : TraceBlock} {t : TacBlock}
    (hc : c.Scoped) (h : c.convertBlock b = .ok (c', t)) :
    c'.Scoped ∧ Lifted c.store.size b.ops t.ops c'.store.size := by
  obtain ⟨first, last, c₁, stack, tacs, hstep⟩ := blockStep_of_convertBlock h
  have hc₁ := hstep.enters.scoped hc
  obtain ⟨hstack, hlifted⟩ := lifted_of_convertOps (hc₁.getD t.frame) hstep.converts
  have hstore := hstep.enters.store
  constructor
  · intro f s hs
    rw [hstep.frames, Array.getElem?_setIfInBounds] at hs
    split at hs
    · split at hs
      · cases hs
        exact hstack
      · exact absurd hs (by simp)
    · exact (hc₁ f s hs).mono fun _ => Operand.Stacked.mono hlifted.targets.1
  · rw [hstep.ops, orFiller, ← hstore]
    split
    · rename_i hempty
      rw [List.isEmpty_iff.mp hempty] at hlifted
      exact .fills ⟨rfl, rfl, rfl, rfl⟩ hlifted
    · exact hlifted

/-- **Conversions are liftings.** -/
theorem lifted_of_convertBlocks : ∀ {bs : List TraceBlock} {c c' : Conversion} {ts : List TacBlock},
    c.Scoped → convertBlocks c bs = .ok (c', ts) →
    Lifted c.store.size (bs.flatMap (·.ops)) (ts.flatMap (·.ops)) c'.store.size
  | [], _, _, _, _, h => by
    cases h
    exact .nil
  | b :: bs, _, _, _, hc, h => by
    obtain ⟨c₁, t, ts, hb, hbs, rfl⟩ := convertBlocks_cons_ok h
    obtain ⟨hc₁, hlifted⟩ := lifted_of_convertBlock hc hb
    exact hlifted.append (lifted_of_convertBlocks hc₁ hbs)

end Conversion

/-- The operations of a graph are a lifting of the operations of the trace's blocks. -/
theorem Graph.lifted_of_madeFrom {ops : List TraceOp} {g : Graph} {c : Conversion}
    {ts : List TacBlock} (hconvert : convertBlocks {} (blocksOf ops) = .ok (c, ts))
    (h : g.MadeFrom c ts) : Lifted 0 ((blocksOf ops).flatMap (·.ops)) g.ops c.store.size := by
  have hstart : Scoped {} := by
    intro f s hs
    exact absurd hs (by simp)
  exact (lifted_of_convertBlocks hstart hconvert).of_unnumbered h.ops

end TraceLift
