/-
# One operation, converted

`Converts` lists what the conversion of one operation can do, one rule for each branch:
rearrange the stack, or take operands and leave a three-address operation, with or without a
result.  `convertOp_eq_ok_iff` says that the rules are the function, so nothing after it has to
open the function again.

Three facts follow, rule by rule.

* **Naming does not matter** (`Converts.of_relabel`).  The conversion only moves operands about;
  it never looks at them.  So what it does on a stack with other variables in the same places is
  what it does here, with the variables exchanged.
* **A stack stays its frame's** (`Converts.keeps`): its depth and its capacity do not change.
* **Nothing is refused** (`exists_converts`) if the opcode is legal and the value is recorded where
  it is taken from the trace.
-/
import TraceLift.Proofs.Legal
import TraceLift.Proofs.StackMoves
import TraceLift.Tac.Convert

namespace TraceLift

/-! ## 1. The rules -/

namespace Conversion

/-- The opcode neither exchanges nor copies nor drops stack items. -/
def Acts (opcode : Opcode) : Prop :=
  opcode.isSwap = false ∧ opcode.isDup = false ∧ opcode.same Opcode.pop = false

instance (opcode : Opcode) : Decidable (Acts opcode) := inferInstanceAs (Decidable (_ ∧ _ ∧ _))

/-- The three-address operation of an operation of a trace, given its operands. -/
def tacOf (op : PlacedOp) (args : List Operand) : TacOp :=
  { opcode := tacOpcode op.opcode, args, pc := op.pc, place := some op.place }

/-- The binding of a result. -/
def bindingOf (op : TraceOp) (target : VarId) : Binding :=
  { target, showsName := !hidesName op.opcode,
    extra := if op.opcode.isMessageCall then op.extra else none }

/-- What the conversion of an operation can do to the variables and the stack, and what it
leaves. -/
inductive Converts (block : Nat) (store : Store) (stack : Stack Operand) (op : PlacedOp) :
    Store → Stack Operand → Option TacOp → Prop
  | swap {stack'} (hop : op.opcode.isSwap = true)
      (hstack : stack.swap op.opcode.pops.toNat = .ok stack') :
      Converts block store stack op store stack' none
  | dup {stack'} (hswap : op.opcode.isSwap = false) (hop : op.opcode.isDup = true)
      (hstack : stack.dup op.opcode.pops.toNat = .ok stack') :
      Converts block store stack op store stack' none
  | drop (hswap : op.opcode.isSwap = false) (hdup : op.opcode.isDup = false)
      (hop : op.opcode.same Opcode.pop = true) :
      Converts block store stack op store stack.pop.2 none
  | act {args stack'} (hop : Acts op.opcode)
      (hargs : operands stack op.toTraceOp = .ok (args, stack'))
      (hkind : resultKind op.opcode = .none) :
      Converts block store stack op store stack'
        (some { tacOf op args with value := if op.opcode.isCopy then op.value else none })
  | bind {args stack' v} (hop : Acts op.opcode)
      (hargs : operands stack op.toTraceOp = .ok (args, stack'))
      (hkind : resultKind op.opcode ≠ .none)
      (hv : resultVariable store.size block op.toTraceOp = .ok v) :
      Converts block store stack op (store.push v) (stack'.push (.var store.size))
        (some { tacOf op args with binding := some (bindingOf op.toTraceOp store.size) })

variable {block : Nat} {store store' : Store} {stack stack' : Stack Operand} {op : PlacedOp}
  {tac : Option TacOp}

/-- **The rules are the function.** -/
theorem convertOp_eq_ok_iff : convertOp block store stack op = .ok (store', stack', tac) ↔
    Converts block store stack op store' stack' tac := by
  constructor
  · intro h
    unfold convertOp at h
    by_cases hswap : op.opcode.isSwap = true
    · rw [if_pos hswap] at h
      obtain ⟨s, hs, hr⟩ := bind_eq_ok_iff.mp h
      cases hr
      exact .swap hswap hs
    rw [if_neg hswap] at h
    by_cases hdup : op.opcode.isDup = true
    · rw [if_pos hdup] at h
      obtain ⟨s, hs, hr⟩ := bind_eq_ok_iff.mp h
      cases hr
      exact .dup (by simpa using hswap) hdup hs
    rw [if_neg hdup] at h
    by_cases hpop : op.opcode.same Opcode.pop = true
    · rw [if_pos hpop] at h
      cases h
      exact .drop (by simpa using hswap) (by simpa using hdup) hpop
    rw [if_neg hpop] at h
    have hacts : Acts op.opcode := ⟨by simpa using hswap, by simpa using hdup, by simpa using hpop⟩
    obtain ⟨⟨args, s⟩, hargs, h⟩ := bind_eq_ok_iff.mp h
    by_cases hkind : resultKind op.opcode = .none
    · simp only [hkind, if_true] at h
      cases h
      exact .act hacts hargs hkind
    · simp only [hkind, if_false] at h
      obtain ⟨v, hv, hr⟩ := bind_eq_ok_iff.mp h
      cases hr
      exact .bind hacts hargs hkind hv
  · intro h
    cases h with
    | swap hop hs => simp [convertOp, hop, hs, bind, Except.bind, pure, Except.pure]
    | dup hswap hop hs => simp [convertOp, hswap, hop, hs, bind, Except.bind, pure, Except.pure]
    | drop hswap hdup hop => simp [convertOp, hswap, hdup, hop]
    | act hop hargs hkind =>
      simp [convertOp, hop.1, hop.2.1, hop.2.2, hargs, hkind, tacOf, bind, Except.bind, pure,
        Except.pure]
    | bind hop hargs hkind hv =>
      simp [convertOp, hop.1, hop.2.1, hop.2.2, hargs, hkind, hv, tacOf, bindingOf, bind,
        Except.bind, pure, Except.pure]

/-- A list of operations is converted one after the other. -/
theorem convertOps_cons_eq_ok_iff {ops : List PlacedOp} {tacs : List TacOp} :
    convertOps block store stack (op :: ops) = .ok (store', stack', tacs) ↔
      ∃ store₁ stack₁ tac rest, Converts block store stack op store₁ stack₁ tac ∧
        convertOps block store₁ stack₁ ops = .ok (store', stack', rest) ∧
        tacs = tac.toList ++ rest := by
  simp only [convertOps, bind_eq_ok_iff, Prod.exists, convertOp_eq_ok_iff]
  constructor
  · rintro ⟨S, s, tac, hop, S', s', rest, hops, heq⟩
    cases heq
    exact ⟨S, s, tac, rest, hop, hops, rfl⟩
  · rintro ⟨S, s, tac, rest, hop, hops, rfl⟩
    exact ⟨S, s, tac, hop, store', stack', rest, hops, rfl⟩

/-! ## 2. What follows from the rules -/

theorem keeps_operands {args : List Operand} {op : TraceOp}
    (h : operands stack op = .ok (args, stack')) : stack.Keeps stack' := by
  unfold operands at h
  split at h
  · split at h
    · cases h
      exact .rfl
    · exact absurd h (by simp)
  · have hrest : (stack.popMany op.opcode.pops.toNat).2 = stack' :=
      congrArg Prod.snd (Except.ok.inj h)
    rw [← hrest]
    exact (Stack.moves_popMany _ _).keeps

/-- A frame's stack stays one of that frame. -/
theorem Converts.keeps (h : Converts block store stack op store' stack' tac) :
    stack.Keeps stack' := by
  cases h with
  | swap _ hs => exact (Stack.moves_rearrange hs).keeps
  | dup _ _ hs => exact (Stack.moves_rearrange hs).keeps
  | drop => exact (Stack.Move.pop stack).keeps
  | act _ hargs => exact keeps_operands hargs
  | bind _ hargs => exact (keeps_operands hargs).trans (Stack.Move.push _ _).keeps

/-- An operation binds the next free variable or none. -/
theorem Converts.target (h : Converts block store stack op store' stack' tac) :
    (tac.bind (·.target?) = none ∧ store'.size = store.size) ∨
      (tac.bind (·.target?) = some store.size ∧ store'.size = store.size + 1) := by
  cases h with
  | swap | dup | drop => exact .inl ⟨rfl, rfl⟩
  | act => exact .inl ⟨rfl, rfl⟩
  | bind => exact .inr ⟨rfl, by simp⟩

theorem Converts.size (h : Converts block store stack op store' stack' tac) :
    store'.size = store.size + (tac.bind (·.target?)).toList.length := by
  rcases h.target with ⟨htarget, hsize⟩ | ⟨htarget, hsize⟩ <;> rw [htarget, hsize] <;> rfl

/-- Exactly the operations that do not leave one item have no result. -/
theorem resultKind_eq_none_iff {opcode : Opcode} :
    resultKind opcode = .none ↔ opcode.pushes ≠ 1 := by
  unfold resultKind
  by_cases hpushes : opcode.pushes ≠ 1
  · simp [hpushes]
  · rw [if_neg hpushes]
    refine ⟨fun h => ?_, fun h => absurd h hpushes⟩
    split at h
    · cases h
    · split at h <;> cases h

theorem pushes_of_resultKind {opcode : Opcode} (h : resultKind opcode ≠ .none) :
    opcode.pushes = 1 :=
  Decidable.not_not.mp fun hne => h (resultKind_eq_none_iff.mpr hne)

/-- A result variable can be made unless its value should have been recorded and was not; where
it is stored and in which block does not matter. -/
theorem exists_resultVariable_iff {number block : Nat} {op : TraceOp} :
    (∃ v, resultVariable number block op = .ok v) ↔
      (resultKind op.opcode = .known → ∃ w, recorded op = .ok w) := by
  unfold resultVariable
  cases hkind : resultKind op.opcode with
  | known => cases hrec : recorded op <;> simp
  | none => simp
  | computed => simp

end Conversion

/-! ## 3. Naming does not matter -/

/-- The operand with its variable exchanged for another. -/
def Operand.rename (r : VarId → VarId) : Operand → Operand
  | var k => var (r k)
  | literal w => literal w
  | entry n => entry n
  | blank => blank

/-- The operation with its variables exchanged for others. -/
def TacOp.rename (r : VarId → VarId) (op : TacOp) : TacOp :=
  { op with args := op.args.map (·.rename r),
            binding := op.binding.map fun b => { b with target := r b.target } }

namespace Conversion

variable {block : Nat} {store store' : Store} {stack stack' : Stack Operand} {op : PlacedOp}
  {tac : Option TacOp}

theorem rename_below (r : VarId → VarId) (n : Nat) :
    (StackItem.below n : Operand).rename r = StackItem.below n := rfl

theorem operands_relabel (r : VarId → VarId) (d : Option Int) (s : Stack Operand)
    (op : TraceOp) :
    operands (s.relabel (·.rename r) d) op =
      (operands s op).map fun x => (x.1.map (·.rename r), x.2.relabel (·.rename r) d) := by
  unfold operands
  split
  · cases recorded op <;> rfl
  · rw [Stack.popMany_relabel d (rename_below r)]
    rfl

/-- **Naming does not matter.**  An operation that is converted on a stack whose variables were
exchanged is converted on the stack itself, with the same outcome but for the names; its result,
if it has one, takes the next free place of the other store. -/
theorem Converts.of_relabel {r : VarId → VarId} {d : Option Int} {s : Stack Operand}
    (h : Converts block store (s.relabel (·.rename r) d) op store' stack' tac)
    (block₀ : Nat) (store₀ : Store)
    (hr : ∀ t ∈ tac, ∀ b ∈ t.binding, r store₀.size = b.target) :
    ∃ store₁ s₁ tac₁, Converts block₀ store₀ s op store₁ s₁ tac₁ ∧
      stack' = s₁.relabel (·.rename r) d ∧ tac = tac₁.map (·.rename r) ∧
      store₁.size = store₀.size + (tac₁.bind (·.target?)).toList.length := by
  cases h with
  | swap hop hs =>
    rw [Stack.swap, Stack.rearrange_relabel d (rename_below r) Stack.uniform_exchangeEnds,
      map_eq_ok_iff] at hs
    obtain ⟨s₁, hs, rfl⟩ := hs
    exact ⟨store₀, s₁, none, .swap hop hs, rfl, rfl, rfl⟩
  | dup hswap hop hs =>
    rw [Stack.dup, Stack.rearrange_relabel d (rename_below r) Stack.uniform_copyLast,
      map_eq_ok_iff] at hs
    obtain ⟨s₁, hs, rfl⟩ := hs
    exact ⟨store₀, s₁, none, .dup hswap hop hs, rfl, rfl, rfl⟩
  | drop hswap hdup hop =>
    refine ⟨store₀, s.pop.2, none, .drop hswap hdup hop, ?_, rfl, rfl⟩
    rw [Stack.pop_relabel d (rename_below r)]
  | act hop hargs hkind =>
    rw [operands_relabel, map_eq_ok_iff] at hargs
    obtain ⟨⟨args, s₁⟩, hargs, heq⟩ := hargs
    obtain ⟨rfl, rfl⟩ := Prod.mk.inj heq
    exact ⟨store₀, s₁, _, .act hop hargs hkind, rfl, rfl, rfl⟩
  | bind hop hargs hkind hv =>
    rw [operands_relabel, map_eq_ok_iff] at hargs
    obtain ⟨⟨args, s₁⟩, hargs, heq⟩ := hargs
    obtain ⟨rfl, rfl⟩ := Prod.mk.inj heq
    obtain ⟨v₀, hv₀⟩ := exists_resultVariable_iff.mpr (exists_resultVariable_iff.mp ⟨_, hv⟩)
    have hsize : r store₀.size = store.size := hr _ rfl _ rfl
    refine ⟨store₀.push v₀, s₁.push (.var store₀.size), _, .bind hop hargs hkind hv₀, ?_, ?_, ?_⟩
    · rw [← Stack.push_relabel, Operand.rename, hsize]
    · simp [TacOp.rename, tacOf, bindingOf, hsize]
    · simp [TacOp.target?]

/-! ## 4. Nothing is refused -/

end Conversion

/-- An operation whose conversion takes a value from the trace has that value: a push, a code that
is not in the table, and an operation whose result only the run could know. -/
def TraceOp.Recorded (op : TraceOp) : Prop :=
  op.opcode.isPush = true ∨ op.opcode.isMissing = true ∨
    Conversion.resultKind op.opcode = .known → op.value.isSome = true

instance (op : TraceOp) : Decidable op.Recorded :=
  inferInstanceAs (Decidable (_ → _))

namespace Conversion

theorem exists_recorded {op : TraceOp} (h : op.value.isSome = true) :
    ∃ w, recorded op = .ok w := by
  obtain ⟨v, hv⟩ := Option.isSome_iff_exists.mp h
  exact ⟨Word.reduce v, by simp [recorded, hv]⟩

theorem exists_operands (stack : Stack Operand) {op : TraceOp} (h : op.Recorded) :
    ∃ args stack', operands stack op = .ok (args, stack') := by
  unfold operands
  split
  · rename_i hop
    rw [Bool.or_eq_true] at hop
    obtain ⟨w, hw⟩ := exists_recorded (h (hop.imp_right Or.inl))
    exact ⟨[.literal w], stack, by rw [hw]⟩
  · exact ⟨_, _, rfl⟩

/-- **Nothing is refused**: an operation with a legal opcode that has its recorded value is
converted, whatever the stack. -/
theorem exists_converts (block : Nat) (store : Store) (stack : Stack Operand) {op : PlacedOp}
    (hlegal : op.opcode.Legal) (hrecorded : op.toTraceOp.Recorded) :
    ∃ store' stack' tac, Converts block store stack op store' stack' tac := by
  by_cases hswap : op.opcode.isSwap = true
  · obtain ⟨s, hs⟩ := stack.exists_swap (n := op.opcode.pops.toNat) (by
      rw [(hlegal.swap_counts hswap).1]
      omega)
    exact ⟨_, _, _, .swap hswap hs⟩
  rw [Bool.not_eq_true] at hswap
  by_cases hdup : op.opcode.isDup = true
  · obtain ⟨s, hs⟩ := stack.exists_dup (hlegal.dup_counts hdup).2
    exact ⟨_, _, _, .dup hswap hdup hs⟩
  rw [Bool.not_eq_true] at hdup
  by_cases hpop : op.opcode.same Opcode.pop = true
  · exact ⟨_, _, _, .drop hswap hdup hpop⟩
  rw [Bool.not_eq_true] at hpop
  obtain ⟨args, s, hargs⟩ := exists_operands stack hrecorded
  by_cases hkind : resultKind op.opcode = .none
  · exact ⟨_, _, _, .act ⟨hswap, hdup, hpop⟩ hargs hkind⟩
  · obtain ⟨v, hv⟩ : ∃ v, resultVariable store.size block op.toTraceOp = .ok v :=
      exists_resultVariable_iff.mpr fun hknown => exists_recorded (hrecorded (.inr (.inr hknown)))
    exact ⟨_, _, _, .bind ⟨hswap, hdup, hpop⟩ hargs hkind hv⟩

end Conversion

end TraceLift
