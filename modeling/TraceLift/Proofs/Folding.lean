/-
# Folding finds the words

The three-address operations of a run are carried out once, in order.  A constant gives its
variable the pushed word and an arithmetic operation computes its result; the variables that the
trace recorded have their word from the start.  Since an operation is carried out after those that
bind its operands, and no variable is bound twice, every variable ends with the one word that it
stands for.

* **One value.**  On sets of one value the set operations are those on words
  (`arith_of_singletons`).
* **One operation** (`step_agrees`).  Only the variable that the operation binds can change; it
  gets the word that the stack machine leaves.
* **The pass** (`run_agrees`), and what is read after it (`args_of_explained`).
-/
import TraceLift.Proofs.StackMachine
import TraceLift.Tac.Fold

namespace TraceLift

open Conversion StackMachine

/-! ## 1. One value -/

namespace ValueSet

theorem members_single (w : Int) : (single w).members = .ok [w] := rfl

theorem isConst_single (w : Int) : (single w).isConst = true := rfl

theorem lists?_singles : ∀ ws : List Int, lists? (ws.map single) = some (ws.map fun w => [w])
  | [] => rfl
  | w :: ws => by
    have hcons : lists? ((w :: ws).map single) = (lists? (ws.map single)).map ([w] :: ·) := rfl
    rw [hcons, lists?_singles ws]
    rfl

theorem tuples_singles : ∀ ws : List Int, tuples (ws.map fun w => [w]) = [ws]
  | [] => rfl
  | w :: ws => by simp [tuples, tuples_singles ws]

/-- A function of sets of one value each has one value. -/
theorem lift_singles (f : List Int → Except Fault Int) (ws : List Int) :
    lift f (ws.map single) = (f ws).map single := by
  simp only [lift, lists?_singles, tuples_singles]
  cases hf : f ws <;>
    simp [hf, Except.map, bind, Except.bind, pure, Except.pure, Functor.map, single]

end ValueSet

theorem reduce_arithmetic (name : String) (args : List Int) :
    Word.reduce (arithmetic name args) = arithmetic name args := by
  unfold arithmetic
  split
  · rfl
  · split
    · rfl
    · exact reduce_reduce _

/-- Arithmetic on sets of one value each gives the word that the stack machine computes. -/
theorem arith_of_singletons {fn name : String} {ws : List Int} {v : Variable}
    (h : Variable.arith fn (ws.map ValueSet.single) name = .ok v) :
    v.values = ValueSet.single (arithmetic fn ws) := by
  unfold Variable.arith Variable.evalSets at h
  unfold arithmetic
  cases hfn : Arith.ofName fn with
  | error e => simp [hfn] at h
  | ok f =>
    simp only [hfn, ValueSet.lift_singles] at h
    cases hx : f.eval ws with
    | error e => simp [hx, Except.map] at h
    | ok x =>
      simp only [hx, Except.map, ValueSet.members_single] at h
      rw [← Except.ok.inj h]
      simp only [hx]
      rfl

/-! ## 2. One operation -/

namespace Machine

variable {m m' : Machine} {op : TacOp}

theorem target_ok {id : VarId} {v : Variable} {store : Store}
    (h : op.target store = .ok (id, v)) :
    ∃ b, op.binding = some b ∧ b.target = id ∧ store[id]? = some v := by
  unfold TacOp.target at h
  split at h
  · exact absurd h (by simp)
  · rename_i b hb
    split at h
    · rename_i v' hv
      obtain ⟨rfl, rfl⟩ := Prod.mk.inj (Except.ok.inj h)
      exact ⟨b, hb, rfl, hv⟩
    · exact absurd h (by simp)

/-- The variable that an operation binds was given a word, and no other variable changed. -/
def Assigns (m : Machine) (op : TacOp) (w : Int) (m' : Machine) : Prop :=
  ∃ b v, op.binding = some b ∧ m.store[b.target]? = some v ∧
    m'.store = m.store.setIfInBounds b.target (v.assign [w])

/-- Assigning a result changes the bound variable and nothing else. -/
theorem assignResult_ok {values : ValueSet} (h : m.assignResult op values = .ok m') :
    ∃ b v l, op.binding = some b ∧ m.store[b.target]? = some v ∧ values.members = .ok l ∧
      m'.store = m.store.setIfInBounds b.target (v.assign l) := by
  obtain ⟨⟨id, v⟩, htarget, h⟩ := bind_eq_ok_iff.mp h
  obtain ⟨v', hassign, h⟩ := bind_eq_ok_iff.mp h
  obtain ⟨b, hb, hid, hv⟩ := target_ok htarget
  subst hid
  unfold Variable.assignSet at hassign
  split at hassign
  · rename_i l hl
    rw [← Except.ok.inj hassign] at h
    exact ⟨b, v, l, hb, hv, hl, by rw [← Except.ok.inj h]⟩
  · exact absurd hassign (by simp)

theorem copyBytes_store {i j : Nat} (h : m.copyBytes op i j = .ok m') : m'.store = m.store := by
  obtain ⟨_, -, h⟩ := bind_eq_ok_iff.mp h
  obtain ⟨_, -, h⟩ := bind_eq_ok_iff.mp h
  obtain ⟨_, -, h⟩ := bind_eq_ok_iff.mp h
  obtain ⟨_, -, h⟩ := bind_eq_ok_iff.mp h
  split at h
  · exact absurd h (by simp)
  · obtain ⟨_, -, h⟩ := bind_eq_ok_iff.mp h
    rw [← Except.ok.inj h]

theorem storeBytes_store {i j : Int} (h : m.storeBytes op i j = .ok m') : m'.store = m.store := by
  obtain ⟨_, -, h⟩ := bind_eq_ok_iff.mp h
  obtain ⟨_, -, h⟩ := bind_eq_ok_iff.mp h
  obtain ⟨_, -, h⟩ := bind_eq_ok_iff.mp h
  obtain ⟨_, -, h⟩ := bind_eq_ok_iff.mp h
  obtain ⟨_, -, h⟩ := bind_eq_ok_iff.mp h
  rw [← Except.ok.inj h]

theorem storeSlot_store (h : m.storeSlot op = .ok m') : m'.store = m.store := by
  obtain ⟨_, -, h⟩ := bind_eq_ok_iff.mp h
  obtain ⟨_, -, h⟩ := bind_eq_ok_iff.mp h
  obtain ⟨_, -, h⟩ := bind_eq_ok_iff.mp h
  obtain ⟨_, -, h⟩ := bind_eq_ok_iff.mp h
  rw [← Except.ok.inj h]

/-- A constant assigns its operand to the variable that it binds. -/
theorem step_const (hop : op.opcode.same Opcode.const = true) (h : m.step false op = .ok m') :
    ∃ a values, op.arg 0 = .ok a ∧ a.values m.store = .ok values ∧
      m.assignResult op values = .ok m' := by
  simp only [step, hop, if_true] at h
  obtain ⟨a, ha, h⟩ := bind_eq_ok_iff.mp h
  obtain ⟨values, hvalues, h⟩ := bind_eq_ok_iff.mp h
  exact ⟨a, values, ha, hvalues, h⟩

/-- A constant gives the bound variable the word that its operand stands for. -/
theorem step_literal {w : Int} (hop : op.opcode.same Opcode.const = true)
    (hargs : op.args = [.literal w]) (h : m.step false op = .ok m') :
    m.Assigns op (Word.reduce w) m' := by
  obtain ⟨a, values, ha, hvalues, h⟩ := step_const hop h
  obtain ⟨b, v, l, hb, hv, hl, hstore⟩ := assignResult_ok h
  have hsingle : (Operand.literal w).values m.store = .ok (.single (Word.reduce w)) := rfl
  rw [TacOp.arg, hargs] at ha
  rw [← Except.ok.inj ha, hsingle] at hvalues
  rw [← Except.ok.inj hvalues, ValueSet.members_single] at hl
  rw [← Except.ok.inj hl] at hstore
  exact ⟨b, v, hb, hv, hstore⟩

/-- No other kind of operation comes before arithmetic in the pass. -/
theorem step_arithmetic (hmem : op.opcode ∈ Opcode.table) (hop : op.opcode.isArithmetic = true) :
    m.step false op = m.compute op false := by
  have hall : ∀ opcode ∈ Opcode.table, opcode.isArithmetic = true →
      opcode.same Opcode.const = false ∧
      (opcode.same Opcode.calldatacopy || opcode.same Opcode.codecopy ||
        opcode.same Opcode.returndatacopy) = false ∧
      opcode.same Opcode.extcodecopy = false ∧
      (opcode.readsEnvironment || opcode.readsWorld) = false ∧
      (opcode.same Opcode.mload || opcode.same Opcode.sload) = false ∧
      opcode.same Opcode.sstore = false ∧ opcode.same Opcode.mstore = false ∧
      opcode.same Opcode.mstore8 = false := by decide +kernel
  obtain ⟨h1, h2, h3, h4, h5, h6, h7, h8⟩ := hall op.opcode hmem hop
  simp only [step, h1, h2, h3, h4, h5, h6, h7, h8, hop, if_true, if_false, Bool.false_eq_true]

/-- What an operation can do to the variables: a constant assigns, arithmetic computes, and any
other leaves them as they are. -/
theorem step_cases (h : m.step false op = .ok m') : m'.store = m.store ∨
    (op.opcode.same Opcode.const = true ∧ ∃ values, m.assignResult op values = .ok m') ∨
    (op.opcode.isArithmetic = true ∧ m.compute op false = .ok m') := by
  cases hconst : op.opcode.same Opcode.const with
  | true =>
    obtain ⟨_, values, -, -, h⟩ := step_const hconst h
    exact .inr (.inl ⟨rfl, values, h⟩)
  | false =>
    simp only [step, hconst, if_false, Bool.false_eq_true] at h
    split at h
    · exact .inl (copyBytes_store h)
    split at h
    · exact .inl (copyBytes_store h)
    split at h
    · exact .inl (by rw [Except.ok.inj h])
    split at h
    · exact .inl (by rw [Except.ok.inj h])
    split at h
    · exact .inl (storeSlot_store h)
    split at h
    · exact .inl (storeBytes_store h)
    split at h
    · exact .inl (storeBytes_store h)
    split at h
    · rename_i harith
      exact .inr (.inr ⟨harith, h⟩)
    · exact .inl (by rw [Except.ok.inj h])

theorem step_other (hconst : op.opcode.same Opcode.const = false)
    (harith : op.opcode.isArithmetic = false) (h : m.step false op = .ok m') :
    m'.store = m.store := by
  rcases step_cases h with hstore | ⟨hop, -⟩ | ⟨hop, -⟩
  · exact hstore
  · simp [hconst] at hop
  · simp [harith] at hop

/-- How an arithmetic operation is carried out: on constants it is computed, and otherwise its
result is forgotten. -/
theorem compute_cases (h : m.compute op false = .ok m') :
    ∃ args, op.args.mapM (·.values m.store) = .ok args ∧
      ((args.all (·.isConst) = true ∧ ∃ v,
          Variable.arith op.opcode.name args Variable.resultName = .ok v ∧
          m.assignResult op v.values = .ok m') ∨
        (args.all (·.isConst) = false ∧ ∃ b v, op.binding = some b ∧
          m.store[b.target]? = some v ∧
          m' = { m with store := m.store.setIfInBounds b.target v.widen })) := by
  obtain ⟨args, hargs, h⟩ := bind_eq_ok_iff.mp h
  refine ⟨args, hargs, ?_⟩
  rw [Bool.and_false, Bool.or_false] at h
  split at h
  · rename_i hconst
    obtain ⟨v, hv, h⟩ := bind_eq_ok_iff.mp h
    exact .inl ⟨hconst, v, hv, h⟩
  · rename_i hconst
    obtain ⟨⟨id, v⟩, htarget, h⟩ := bind_eq_ok_iff.mp h
    obtain ⟨b, hb, rfl, hv⟩ := target_ok htarget
    exact .inr ⟨by simpa using hconst, b, v, hb, hv, (Except.ok.inj h).symm⟩

/-- Arithmetic on operands of one value each gives the bound variable the computed word. -/
theorem compute_ok {ws : List Int} (h : m.compute op false = .ok m')
    (hargs : op.args.mapM (·.values m.store) = .ok (ws.map ValueSet.single)) :
    m.Assigns op (arithmetic op.opcode.name ws) m' := by
  have hconst : (ws.map ValueSet.single).all (·.isConst) = true := by
    simp [ValueSet.isConst_single]
  obtain ⟨args, hsame, hcases⟩ := compute_cases h
  obtain rfl : ws.map ValueSet.single = args := Except.ok.inj (hargs.symm.trans hsame)
  rcases hcases with ⟨-, v, hv, h⟩ | ⟨hnot, -⟩
  · obtain ⟨b, old, l, hb, hold, hl, hstore⟩ := assignResult_ok h
    rw [arith_of_singletons hv, ValueSet.members_single] at hl
    rw [← Except.ok.inj hl] at hstore
    exact ⟨b, old, hb, hold, hstore⟩
  · exact absurd (hnot.symm.trans hconst) (by simp)

theorem compute_bound (h : m.compute op false = .ok m') : op.binding ≠ none := by
  obtain ⟨_, -, ⟨-, _, -, h⟩ | ⟨-, b, _, hb, -⟩⟩ := compute_cases h
  · obtain ⟨b, _, _, hb, -⟩ := assignResult_ok h
    simp [hb]
  · simp [hb]

/-- An operation that binds nothing changes no variable. -/
theorem step_unbound (hmem : op.opcode.isArithmetic = true → op.opcode ∈ Opcode.table)
    (hop : op.binding = none) (h : m.step false op = .ok m') : m'.store = m.store := by
  cases hconst : op.opcode.same Opcode.const with
  | true =>
    obtain ⟨_, _, -, -, h⟩ := step_const hconst h
    obtain ⟨b, _, _, hb, -⟩ := assignResult_ok h
    rw [hop] at hb
    exact absurd hb (by simp)
  | false =>
    cases harith : op.opcode.isArithmetic with
    | true =>
      rw [step_arithmetic (hmem harith) harith] at h
      exact absurd hop (compute_bound h)
    | false => exact step_other hconst harith h

end Machine

/-! ## 3. The words of the variables -/

/-- A store agrees with the words given to the variables: those of the first `k`, and those that
were known at the start. -/
def Agrees (initial : Store) (vals : List Int) (k : Nat) (store : Store) : Prop :=
  ∀ (j : Nat) (w : Int), vals[j]? = some w →
    j < k ∨ initial[j]?.map (·.values) = some (.single w) →
    store[j]?.map (·.values) = some (.single w)

namespace Agrees

variable {initial store : Store} {vals : List Int} {k : Nat}

theorem start (initial : Store) (vals : List Int) : Agrees initial vals 0 initial := by
  rintro j w - (hlt | hknown)
  · exact absurd hlt (Nat.not_lt_zero j)
  · exact hknown

theorem mono {n : Nat} (h : Agrees initial vals n store) (hk : k ≤ n) :
    Agrees initial vals k store :=
  fun j w hw hj => h j w hw (hj.imp_left (Nat.lt_of_lt_of_le · hk))

/-- Giving the next variable its word keeps the others. -/
theorem assign {m m' : Machine} {op : TacOp} {w : Int} (h : Agrees initial vals k m.store)
    (hassigns : m.Assigns op w m') (htarget : ∀ b ∈ op.binding, b.target = k)
    (hw : vals[k]? = some w) (hword : Word.reduce w = w) :
    Agrees initial vals (k + 1) m'.store := by
  obtain ⟨b, v, hb, hv, hstore⟩ := hassigns
  rw [htarget b hb] at hv hstore
  rw [hstore]
  intro j w' hw' hj
  by_cases hjk : j = k
  · subst hjk
    obtain rfl : w = w' := Option.some.inj (hw.symm.trans hw')
    have hlt := (Array.getElem?_eq_some_iff.mp hv).1
    rw [Array.getElem?_setIfInBounds_self_of_lt hlt, Option.map_some]
    exact congrArg (some ∘ ValueSet.single) hword
  · rw [Array.getElem?_setIfInBounds_ne (Ne.symm hjk)]
    exact h j w' hw' (hj.imp_left fun hlt => by omega)

/-- The next variable may have been known at the start. -/
theorem succ (h : Agrees initial vals k store) {w : Int} (hw : vals[k]? = some w)
    (hknown : initial[k]?.map (·.values) = some (.single w)) :
    Agrees initial vals (k + 1) store := by
  intro j w' hw' hj
  by_cases hjk : j = k
  · subst hjk
    obtain rfl : w = w' := Option.some.inj (hw.symm.trans hw')
    exact h j w hw' (.inr hknown)
  · exact h j w' hw' (hj.imp_left fun hlt => by omega)

/-- An operand that stands for a word among the first `k` has that one value. -/
theorem values (h : Agrees initial vals k store) {a : Operand} {w : Int}
    (ha : a.denote (vals.take k) = some w) : a.values store = .ok (.single w) := by
  cases a with
  | var j =>
    have hget : (vals.take k)[j]? = some w := ha
    have hlt : j < k :=
      Nat.lt_of_lt_of_le (List.getElem?_eq_some_iff.mp hget).1 (List.length_take_le k vals)
    rw [List.getElem?_take_of_lt hlt] at hget
    obtain ⟨v, hv, hvalues⟩ := Option.map_eq_some_iff.mp (h j w hget (.inl hlt))
    simp [Operand.values, Operand.lookup, hv, hvalues]
  | literal x =>
    rw [← Option.some.inj ha]
    rfl
  | entry n => simp [Operand.denote] at ha
  | blank => simp [Operand.denote] at ha

theorem map_values (h : Agrees initial vals k store) : ∀ {args : List Operand} {ws : List Int},
    args.map (·.denote (vals.take k)) = ws.map some →
    args.map (·.values store) = ws.map fun w => .ok (.single w)
  | [], [], _ => rfl
  | [], _ :: _, hargs => by simp at hargs
  | _ :: _, [], hargs => by simp at hargs
  | a :: args, w :: ws, hargs => by
    obtain ⟨ha, hrest⟩ := List.cons.inj hargs
    rw [List.map_cons, List.map_cons, h.values ha, map_values h hrest]

end Agrees

/-! ## 4. The pass -/

/-- A result is pushed, computed, or known from the start; in the last case the pass does not touch
it. -/
theorem result_cases {opcode : Opcode} (hlegal : opcode.Legal) (h : opcode.pushes = 1) :
    (opcode.isPush = true ∧ opcode.isArithmetic = false) ∨
    (opcode.isPush = false ∧ opcode.isMissing = false ∧ opcode.isArithmetic = true ∧
      opcode ∈ Opcode.table ∧ tacOpcode opcode = opcode) ∨
    (resultKind opcode = .known ∧ (tacOpcode opcode).same Opcode.const = false ∧
      (tacOpcode opcode).isArithmetic = false) := by
  have hmem : opcode ∈ Opcode.table := by
    refine hlegal.mem_table (Bool.eq_false_iff.mpr fun hmissing => ?_)
    rw [(hlegal.missing_counts hmissing).2] at h
    exact absurd h (by decide)
  clear hlegal
  revert h
  revert hmem
  revert opcode
  decide +kernel

/-- Only opcodes of the table are computed. -/
theorem mem_table_of_tacOpcode {opcode : Opcode} (hlegal : opcode.Legal)
    (h : (tacOpcode opcode).isArithmetic = true) : tacOpcode opcode ∈ Opcode.table := by
  unfold tacOpcode at h ⊢
  split
  · decide +kernel
  split
  · decide +kernel
  · rename_i hpush hlog
    rw [if_neg hpush, if_neg hlog] at h
    exact hlegal.mem_table_of_family (.inr (.inr (.inr h)))

theorem pushes_of_results {op : TraceOp} {args : List Int} {w : Int}
    (h : results op args = [w]) : op.opcode.pushes = 1 := by
  by_contra hne
  rw [results, if_pos hne] at h
  exact absurd h (by simp)

variable {initial : Store} {vals ws : List Int} {k : Nat} {op : TraceOp} {t : TacOp}
  {m m' : Machine}

/-- **One operation of the pass.**  The variable that it binds gets the word that the machine
leaves, and the others keep theirs. -/
theorem step_agrees (hlegal : op.opcode.Legal) (reads : Reads initial vals k op ws t)
    (h : Agrees initial vals k m.store) (hstep : m.step false t = .ok m') :
    Agrees initial vals (k + t.target?.toList.length) m'.store := by
  cases hb : t.binding with
  | none =>
    have hmem := mem_table_of_tacOpcode hlegal
    rw [← reads.opcode] at hmem
    have hcount : t.target?.toList.length = 0 := by simp [TacOp.target?, hb]
    rw [Machine.step_unbound hmem hb hstep, hcount, Nat.add_zero]
    exact h
  | some b =>
    obtain ⟨-, w, hw, hresults, hknown⟩ := reads.result b hb
    have htarget : ∀ b ∈ t.binding, b.target = k := fun b hb => (reads.result b hb).1
    have hcount : t.target?.toList.length = 1 := by simp [TacOp.target?, hb]
    have hpushes := pushes_of_results hresults
    rw [results, if_neg (not_not.mpr hpushes)] at hresults
    rw [hcount]
    -- a pushed word is the operand itself; a computed one has operands bound earlier, which agree
    -- by now; a recorded one has been there from the start
    rcases result_cases hlegal hpushes with ⟨hpush, harith⟩ |
      ⟨hpush, hmissing, harith, hmem, hself⟩ | ⟨hkind, hconst, harith⟩
    · obtain rfl : op.word = w := by simpa [harith] using hresults
      have hopcode : t.opcode.same Opcode.const = true := by
        rw [reads.opcode, tacOpcode, if_pos hpush]
        rfl
      have hassigns := Machine.step_literal hopcode (reads.pushed hpush) hstep
      rw [reduce_word] at hassigns
      exact h.assign hassigns htarget hw (reduce_word op)
    · obtain rfl : arithmetic op.opcode.name (taken op ws) = w := by simpa [harith] using hresults
      have hopcode : t.opcode = op.opcode := reads.opcode.trans hself
      have hargs : t.args.mapM (·.values m.store) = .ok ((taken op ws).map .single) := by
        refine mapM_eq_ok ?_
        rw [h.map_values (reads.args hpush hmissing), List.map_map]
        rfl
      rw [Machine.step_arithmetic (by rwa [hopcode]) (by rwa [hopcode])] at hstep
      have hassigns := Machine.compute_ok hstep hargs
      rw [hopcode] at hassigns
      exact h.assign hassigns htarget hw (reduce_arithmetic ..)
    · rw [← reads.opcode] at hconst harith
      rw [Machine.step_other hconst harith hstep]
      exact h.succ hw (hknown hkind)

theorem targets_cons (t : TacOp) (tacs : List TacOp) :
    targets (t :: tacs) = t.target?.toList ++ targets tacs :=
  targets_append (some t) tacs

/-- **The pass.**  When it has reached the end, every variable that the operations bind has the one
word that it stands for. -/
theorem run_agrees {steps : List TraceStep} (hlegal : ∀ s ∈ steps, s.op.opcode.Legal)
    {tacs : List TacOp} (hexplained : Explained steps initial vals k tacs) :
    ∀ {m : Machine}, Agrees initial vals k m.store → Machine.run false m tacs = (m', none) →
      Agrees initial vals (k + (targets tacs).length) m'.store := by
  induction hexplained with
  | nil =>
    intro m h hrun
    obtain rfl : m = m' := congrArg Prod.fst hrun
    exact h
  | @cons k t ts i s _ hstep reads _ ih =>
    intro m h hrun
    simp only [Machine.run] at hrun
    split at hrun
    · rename_i m₁ hm₁
      have h₁ := step_agrees (hlegal s (List.mem_of_getElem? hstep)) reads h hm₁
      rw [targets_cons, List.length_append, ← Nat.add_assoc]
      exact ih h₁ hrun
    · simp at hrun

/-- What is read of an operation after the pass: the words that the machine took. -/
theorem args_of_explained {steps : List TraceStep} {tacs : List TacOp} {store : Store}
    (hexplained : Explained steps initial vals k tacs)
    (h : Agrees initial vals (k + (targets tacs).length) store) (ht : t ∈ tacs) :
    ∃ i s, t.loc? = some i ∧ steps[i]? = some s ∧ t.pc = s.op.pc ∧
      t.opcode = tacOpcode s.op.opcode ∧
      (s.op.opcode.isPush = false → s.op.opcode.isMissing = false →
        t.args.map (·.values store) =
          (taken s.op (found steps i s)).map fun w => .ok (.single w)) := by
  induction hexplained with
  | nil => simp at ht
  | @cons k t' ts i s hloc hstep reads _ ih =>
    rw [targets_cons, List.length_append, ← Nat.add_assoc] at h
    rcases List.mem_cons.mp ht with rfl | ht
    · refine ⟨i, s, hloc, hstep, reads.pc, reads.opcode, fun hpush hmissing => ?_⟩
      exact (h.mono (by omega)).map_values (reads.args hpush hmissing)
    · exact ih h ht

end TraceLift
