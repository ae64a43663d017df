/-
# Carrying out an operation again

Once a pass over the operations of a trace has ended, no operation has anything left to do.  Two
things make it so.

* **Values are definite** (`run_useSets`).  A variable is known exactly or not at all, so an
  arithmetic operation whose operands are all restricted has constant operands, and a pass on sets
  is a pass on single values.
* **Operations are settled** (`Lifted.settled`).  The operands of an operation are bound before it,
  and no variable is bound twice; so they are, when the pass has ended, what they were when the
  operation was carried out, and so is its result.  Carrying out a settled operation again goes
  through and changes no variable (`TacOp.Settled.step`).
-/
import TraceLift.Proofs.Rows

namespace TraceLift

open Conversion

/-! ## 1. What an operation leaves alone -/

namespace Machine

variable {m m' : Machine} {op : TacOp}

/-- An operation changes no variable but the one that it binds. -/
theorem step_frame (h : m.step false op = .ok m') {k : VarId} (hk : op.target? ≠ some k) :
    m'.store[k]? = m.store[k]? := by
  have hwrite : ∀ (b : Binding) (v : Variable), op.binding = some b →
      m'.store = m.store.setIfInBounds b.target v → m'.store[k]? = m.store[k]? := by
    intro b v hb hstore
    have hne : b.target ≠ k := fun heq => hk (by rw [TacOp.target?, hb, Option.map_some, heq])
    rw [hstore, Array.getElem?_setIfInBounds_ne hne]
  have hassign : ∀ values, m.assignResult op values = .ok m' → m'.store[k]? = m.store[k]? := by
    intro values h
    obtain ⟨b, v, l, hb, -, -, hstore⟩ := assignResult_ok h
    exact hwrite b _ hb hstore
  rcases step_cases h with hstore | ⟨-, values, h⟩ | ⟨-, h⟩
  · rw [hstore]
  · exact hassign values h
  · obtain ⟨args, -, ⟨-, v, -, h⟩ | ⟨-, b, v, hb, -, rfl⟩⟩ := compute_cases h
    · exact hassign v.values h
    · exact hwrite b _ hb rfl

/-- A pass changes no variable but those that its operations bind. -/
theorem run_frame {k : VarId} : ∀ {ops : List TacOp} {m m' : Machine},
    m.run false ops = (m', none) → k ∉ Conversion.targets ops → m'.store[k]? = m.store[k]?
  | [], _, _, h, _ => by
    cases h
    rfl
  | op :: ops, m, m', h, hk => by
    rw [targets_cons, List.mem_append, not_or] at hk
    rw [run] at h
    split at h
    · rename_i m₁ hstep
      rw [run_frame h hk.2, step_frame hstep fun heq => hk.1 (by simp [heq])]
    · exact absurd h (by simp)

end Machine

/-! ## 2. Values are definite -/

/-- Known exactly, or not at all. -/
def ValueSet.Definite (a : ValueSet) : Prop := a = .top ∨ ∃ w, a = .single w

namespace ValueSet

/-- What is definite and restricted is constant. -/
theorem Definite.not_isTop {a : ValueSet} (h : a.Definite) : (!a.isTop) = a.isConst := by
  rcases h with rfl | ⟨w, rfl⟩ <;> rfl

theorem Definite.eq_single {a : ValueSet} (h : a.Definite) (hconst : a.isConst = true) :
    ∃ w, a = .single w := by
  rcases h with rfl | h
  · exact absurd hconst (by decide)
  · exact h

/-- Sets that are definite and constant are given by their values. -/
theorem exists_singles : ∀ {l : List ValueSet}, (∀ a ∈ l, a.Definite) →
    l.all (·.isConst) = true → ∃ ws : List Int, l = ws.map single
  | [], _, _ => ⟨[], rfl⟩
  | a :: l, hdef, hconst => by
    obtain ⟨ha, hl⟩ := List.forall_mem_cons.mp hdef
    rw [List.all_cons, Bool.and_eq_true] at hconst
    obtain ⟨w, rfl⟩ := ha.eq_single hconst.1
    obtain ⟨ws, rfl⟩ := exists_singles hl hconst.2
    exact ⟨w :: ws, rfl⟩

end ValueSet

/-- All variables of a store are definite. -/
def Definite (store : Store) : Prop :=
  ∀ (k : Nat) (v : Variable), store[k]? = some v → v.values.Definite

theorem Definite.set {store : Store} (h : Definite store) {v : Variable} (hv : v.values.Definite)
    (k : Nat) : Definite (store.setIfInBounds k v) := by
  intro j w hw
  rw [Array.getElem?_setIfInBounds] at hw
  split at hw
  · split at hw
    · rw [← Option.some.inj hw]
      exact hv
    · exact absurd hw (by simp)
  · exact h j w hw

theorem Definite.push {store : Store} (h : Definite store) {v : Variable}
    (hv : v.values.Definite) : Definite (store.push v) := by
  intro j w hw
  rw [Array.getElem?_push] at hw
  split at hw
  · rw [← Option.some.inj hw]
    exact hv
  · exact h j w hw

theorem Definite.values {store : Store} (h : Definite store) {a : Operand} {values : ValueSet}
    (ha : a.values store = .ok values) : values.Definite := by
  unfold Operand.values at ha
  split at ha
  · rename_i v hv
    rw [← Except.ok.inj ha]
    cases a with
    | var k =>
      rw [Operand.lookup] at hv
      split at hv
      · rename_i v' hk
        rw [← Except.ok.inj hv]
        exact h k v' hk
      · exact absurd hv (by simp)
    | literal w =>
      rw [← Except.ok.inj hv]
      exact .inr ⟨Word.reduce w, rfl⟩
    | entry position =>
      rw [← Except.ok.inj hv]
      exact .inl rfl
    | blank => exact absurd hv (by simp [Operand.lookup])
  · exact absurd ha (by simp)

theorem Definite.args {store : Store} (h : Definite store) {args : List Operand}
    {sets : List ValueSet} (hargs : args.mapM (·.values store) = .ok sets) :
    ∀ a ∈ sets, a.Definite := by
  intro a ha
  obtain ⟨_, -, hvalues⟩ := mem_of_mapM hargs a ha
  exact h.values hvalues

namespace Machine

variable {m m' : Machine} {op : TacOp}

theorem definite_of_assignResult (h : Definite m.store) {values : ValueSet}
    (hvalues : values.Definite) (hassign : m.assignResult op values = .ok m') :
    Definite m'.store := by
  obtain ⟨b, v, l, -, -, hl, hstore⟩ := assignResult_ok hassign
  rw [hstore]
  refine h.set ?_ b.target
  rcases hvalues with rfl | ⟨w, rfl⟩
  · exact absurd hl (by simp [ValueSet.members])
  · rw [ValueSet.members_single] at hl
    rw [← Except.ok.inj hl]
    exact .inr ⟨Word.reduce w, rfl⟩

/-- One operation keeps all variables definite. -/
theorem definite_of_step (h : Definite m.store) (hstep : m.step false op = .ok m') :
    Definite m'.store := by
  cases hconst : op.opcode.same Opcode.const with
  | true =>
    obtain ⟨a, values, -, hvalues, hassign⟩ := step_const hconst hstep
    exact definite_of_assignResult h (h.values hvalues) hassign
  | false =>
    rcases step_cases hstep with hstore | ⟨hop, -⟩ | ⟨-, hcompute⟩
    · rw [hstore]
      exact h
    · exact absurd hop (by simp [hconst])
    · obtain ⟨args, hargs, ⟨hall, v, hv, hassign⟩ | ⟨-, b, v, -, -, rfl⟩⟩ := compute_cases hcompute
      · obtain ⟨ws, rfl⟩ := ValueSet.exists_singles (h.args hargs) hall
        exact definite_of_assignResult h (.inr ⟨_, arith_of_singletons hv⟩) hassign
      · exact h.set (.inl rfl) b.target

/-- With definite variables it makes no difference whether the pass works on sets. -/
theorem step_useSets (h : Definite m.store) (useSets : Bool) :
    m.step useSets op = m.step false op := by
  have hcompute : m.compute op useSets = m.compute op false := by
    unfold compute
    cases hargs : op.args.mapM (·.values m.store) with
    | error e => rfl
    | ok args =>
      have hsame : args.all (!·.isTop) = args.all (·.isConst) := by
        rw [Bool.eq_iff_iff, List.all_eq_true, List.all_eq_true]
        exact forall₂_congr fun a ha => by rw [(h.args hargs a ha).not_isTop]
      simp only [bind, Except.bind, hsame]
      cases args.all (·.isConst) <;> rfl
  unfold step
  rw [hcompute]

/-- **A pass on sets is a pass on single values**, and leaves definite variables. -/
theorem run_useSets (useSets : Bool) : ∀ (ops : List TacOp) {m : Machine}, Definite m.store →
    m.run useSets ops = m.run false ops ∧ Definite (m.run false ops).1.store
  | [], _, h => ⟨rfl, h⟩
  | op :: ops, m, h => by
    rw [run, run, step_useSets h useSets]
    cases hstep : m.step false op with
    | error e => exact ⟨rfl, h⟩
    | ok m₁ => exact run_useSets useSets ops (definite_of_step h hstep)

end Machine

/-! ## 3. Operations are settled -/

/-- An operation is settled: it was carried out on operands as they are now, and its result is as
it was left. -/
def TacOp.Settled (store : Store) (t : TacOp) : Prop :=
  ∃ m m₁ : Machine, m.step false t = .ok m₁ ∧
    (∀ a ∈ t.args, a.lookup store = a.lookup m.store) ∧
    ∀ k ∈ t.target?, store[k]? = m₁.store[k]?

/-- Writing a variable over itself changes nothing. -/
theorem setIfInBounds_of_getElem? {store : Store} {k : Nat} {v : Variable}
    (h : store[k]? = some v) : store.setIfInBounds k v = store := by
  refine Array.ext_getElem? fun i => ?_
  rw [Array.getElem?_setIfInBounds]
  split
  · rename_i hi
    subst hi
    rw [if_pos (Array.getElem?_eq_some_iff.mp h).1, h]
  · rfl

/-- Whether a number can be written does not depend on what was written before. -/
theorem Memory.exists_write {memory written : Memory} {offset span width value : Int}
    (h : memory.write offset span width value = .ok written) (memory' : Memory) :
    ∃ written', memory'.write offset span width value = .ok written' := by
  unfold write at h ⊢
  split at h
  · exact ⟨_, rfl⟩
  · exact absurd h (by simp)

namespace Machine

variable {m m₁ m₂ : Machine} {op : TacOp}

theorem mem_args_of_arg {i : Nat} {a : Operand} (h : op.arg i = .ok a) : a ∈ op.args := by
  unfold TacOp.arg at h
  split at h
  · rename_i a' ha
    rw [← Except.ok.inj h]
    exact List.mem_of_getElem? ha
  · exact absurd h (by simp)

/-- The result of an operation, looked up again. -/
theorem target_again {b : Binding} {v : Variable} (hb : op.binding = some b)
    (h : m₂.store[b.target]? = some v) : op.target m₂.store = .ok (b.target, v) := by
  simp only [TacOp.target, hb, h]

/-- Giving a result again what it has changes nothing. -/
theorem assignResult_again {values : ValueSet} (h : m.assignResult op values = .ok m₁)
    (htarget : ∀ k ∈ op.target?, m₂.store[k]? = m₁.store[k]?) :
    m₂.assignResult op values = .ok m₂ := by
  obtain ⟨b, v, l, hb, hv, hl, hstore⟩ := assignResult_ok h
  have hlt := (Array.getElem?_eq_some_iff.mp hv).1
  have hnow : m₂.store[b.target]? = some (v.assign l) := by
    rw [htarget b.target (by rw [TacOp.target?, hb]; rfl), hstore,
      Array.getElem?_setIfInBounds_self_of_lt hlt]
  simp only [assignResult, target_again hb hnow, Variable.assignSet, hl, bind, Except.bind, pure,
    Except.pure]
  exact congrArg (fun s => Except.ok { m₂ with store := s }) (setIfInBounds_of_getElem? hnow)

section Again

variable (hargs : ∀ a ∈ op.args, a.lookup m₂.store = a.lookup m.store)
include hargs

theorem values_again {a : Operand} (ha : a ∈ op.args) : a.values m₂.store = a.values m.store := by
  rw [Operand.values, hargs a ha, Operand.values]

theorem mapM_values_again : op.args.mapM (·.values m₂.store) = op.args.mapM (·.values m.store) := by
  have hmap : ∀ store : Store,
      op.args.mapM (·.values store) = (op.args.map (·.values store)).mapM id := by
    intro store
    rw [List.mapM_map]
    rfl
  rw [hmap, hmap, List.map_congr_left fun a ha => values_again hargs ha]

theorem readOperand_again {a : Operand} (ha : a ∈ op.args) :
    readOperand m₂.store a = readOperand m.store a := by
  rw [readOperand, Operand.render, hargs a ha, readOperand, Operand.render]

/-- Computing a result again from the same operands changes nothing. -/
theorem compute_again (h : m.compute op false = .ok m₁)
    (htarget : ∀ k ∈ op.target?, m₂.store[k]? = m₁.store[k]?) :
    m₂.compute op false = .ok m₂ := by
  obtain ⟨args, hvalues, hcases⟩ := compute_cases h
  rw [← mapM_values_again hargs] at hvalues
  rw [compute, hvalues]
  rcases hcases with ⟨hconst, v, hv, hassign⟩ | ⟨hconst, b, v, hb, hv, rfl⟩
  · simp only [bind, Except.bind, hconst, hv, Bool.true_or, if_true]
    exact assignResult_again hassign htarget
  · have hlt := (Array.getElem?_eq_some_iff.mp hv).1
    have hnow : m₂.store[b.target]? = some v.widen := by
      rw [htarget b.target (by rw [TacOp.target?, hb]; rfl),
        Array.getElem?_setIfInBounds_self_of_lt hlt]
    have hwiden : v.widen.widen = v.widen := rfl
    simp only [bind, Except.bind, hconst, Bool.and_false, Bool.or_false, Bool.false_eq_true,
      if_false, target_again hb hnow, hwiden, setIfInBounds_of_getElem? hnow, pure, Except.pure]

theorem copyBytes_again {i j : Nat} (h : m.copyBytes op i j = .ok m₁) :
    ∃ m', m₂.copyBytes op i j = .ok m' ∧ m'.store = m₂.store := by
  obtain ⟨a, ha, h⟩ := bind_eq_ok_iff.mp h
  obtain ⟨offset, hoffset, h⟩ := bind_eq_ok_iff.mp h
  obtain ⟨b, hb, h⟩ := bind_eq_ok_iff.mp h
  obtain ⟨length, hlength, h⟩ := bind_eq_ok_iff.mp h
  rw [← readOperand_again hargs (mem_args_of_arg ha)] at hoffset
  rw [← readOperand_again hargs (mem_args_of_arg hb)] at hlength
  simp only [copyBytes, ha, hb, hoffset, hlength, bind, Except.bind]
  split at h
  · exact absurd h (by simp)
  · rename_i value hvalue
    obtain ⟨written, hwrite, -⟩ := bind_eq_ok_iff.mp h
    obtain ⟨written', hwrite'⟩ := Memory.exists_write hwrite m₂.memory
    simp only [hwrite']
    exact ⟨_, rfl, rfl⟩

theorem storeBytes_again {span width : Int} (h : m.storeBytes op span width = .ok m₁) :
    ∃ m', m₂.storeBytes op span width = .ok m' ∧ m'.store = m₂.store := by
  obtain ⟨a, ha, h⟩ := bind_eq_ok_iff.mp h
  obtain ⟨offset, hoffset, h⟩ := bind_eq_ok_iff.mp h
  obtain ⟨b, hb, h⟩ := bind_eq_ok_iff.mp h
  obtain ⟨value, hvalue, h⟩ := bind_eq_ok_iff.mp h
  obtain ⟨written, hwrite, -⟩ := bind_eq_ok_iff.mp h
  rw [← readOperand_again hargs (mem_args_of_arg ha)] at hoffset
  rw [← readOperand_again hargs (mem_args_of_arg hb)] at hvalue
  obtain ⟨written', hwrite'⟩ := Memory.exists_write hwrite m₂.memory
  simp only [storeBytes, ha, hb, hoffset, hvalue, hwrite', bind, Except.bind]
  exact ⟨_, rfl, rfl⟩

theorem storeSlot_again (h : m.storeSlot op = .ok m₁) :
    ∃ m', m₂.storeSlot op = .ok m' ∧ m'.store = m₂.store := by
  obtain ⟨a, ha, h⟩ := bind_eq_ok_iff.mp h
  obtain ⟨slot, hslot, h⟩ := bind_eq_ok_iff.mp h
  obtain ⟨b, hb, h⟩ := bind_eq_ok_iff.mp h
  obtain ⟨v, hv, -⟩ := bind_eq_ok_iff.mp h
  rw [Operand.render, ← hargs a (mem_args_of_arg ha), ← Operand.render] at hslot
  rw [← hargs b (mem_args_of_arg hb)] at hv
  simp only [storeSlot, ha, hb, hslot, hv, bind, Except.bind]
  exact ⟨_, rfl, rfl⟩

end Again

end Machine

/-- Where two machines branch on the same condition, it is enough to compare the branches. -/
theorem exists_ite {c : Prop} [Decidable c] {x y x' y' : Except Fault Machine} {m₁ : Machine}
    {P : Machine → Prop} (h : (if c then x else y) = .ok m₁)
    (hx : x = .ok m₁ → ∃ m', x' = .ok m' ∧ P m') (hy : y = .ok m₁ → ∃ m', y' = .ok m' ∧ P m') :
    ∃ m', (if c then x' else y') = .ok m' ∧ P m' := by
  by_cases hc : c
  · rw [if_pos hc] at h ⊢
    exact hx h
  · rw [if_neg hc] at h ⊢
    exact hy h

/-- **Carrying out a settled operation again** goes through and changes no variable. -/
theorem TacOp.Settled.step {m : Machine} {t : TacOp} (h : t.Settled m.store) :
    ∃ m', m.step false t = .ok m' ∧ m'.store = m.store := by
  obtain ⟨m₀, m₁, hstep, hargs, htarget⟩ := h
  cases hconst : t.opcode.same Opcode.const with
  | true =>
    obtain ⟨a, values, ha, hvalues, hassign⟩ := Machine.step_const hconst hstep
    rw [← Machine.values_again hargs (Machine.mem_args_of_arg ha)] at hvalues
    simp only [Machine.step, hconst, if_true, ha, hvalues, bind, Except.bind]
    exact ⟨m, Machine.assignResult_again hassign htarget, rfl⟩
  | false =>
    simp only [Machine.step, hconst, if_false, Bool.false_eq_true] at hstep ⊢
    -- the two copies
    refine exists_ite hstep (Machine.copyBytes_again hargs) fun hstep => ?_
    refine exists_ite hstep (Machine.copyBytes_again hargs) fun hstep => ?_
    -- what is known from the run, and loads
    refine exists_ite hstep (fun _ => ⟨m, rfl, rfl⟩) fun hstep => ?_
    refine exists_ite hstep (fun _ => ⟨m, rfl, rfl⟩) fun hstep => ?_
    -- stores
    refine exists_ite hstep (Machine.storeSlot_again hargs) fun hstep => ?_
    refine exists_ite hstep (Machine.storeBytes_again hargs) fun hstep => ?_
    refine exists_ite hstep (Machine.storeBytes_again hargs) fun hstep => ?_
    -- arithmetic, and all else
    refine exists_ite hstep (fun hstep => ?_) (fun _ => ⟨m, rfl, rfl⟩)
    exact ⟨m, Machine.compute_again hargs hstep htarget, rfl⟩

/-! ## 4. Every operation is settled when the pass has ended -/

theorem Operand.lookup_congr {store store' : Store} {a : Operand}
    (h : ∀ k, a = .var k → store[k]? = store'[k]?) : a.lookup store = a.lookup store' := by
  cases a with
  | var k => rw [lookup, lookup, h k rfl]
  | literal | entry | blank => rfl

namespace Machine

variable {m m₀ m' : Machine} {pre post : List TacOp} {t : TacOp}

/-- A pass, cut at one of its operations. -/
theorem run_split (h : m₀.run false (pre ++ t :: post) = (m', none)) :
    ∃ m m₁, m₀.run false pre = (m, none) ∧ m.step false t = .ok m₁ ∧
      m₁.run false post = (m', none) := by
  obtain ⟨m, hpre, h⟩ := run_append_eq_none_iff.mp h
  rw [run] at h
  split at h
  · rename_i m₁ hstep
    exact ⟨m, m₁, hpre, hstep, h⟩
  · exact absurd h (by simp)

/-- An operation is settled if the pass binds nothing that it uses, neither there nor later, and
does not bind its result again. -/
theorem settled_of_split (h : m₀.run false (pre ++ t :: post) = (m', none))
    (hargs : ∀ k, .var k ∈ t.args → k ∉ Conversion.targets (t :: post))
    (htarget : ∀ k ∈ t.target?, k ∉ Conversion.targets post) : t.Settled m'.store := by
  obtain ⟨m, m₁, -, hstep, hpost⟩ := run_split h
  refine ⟨m, m₁, hstep, ?_, fun k hk => run_frame hpost (htarget k hk)⟩
  intro a ha
  refine Operand.lookup_congr fun k hk => ?_
  have hfresh := hargs k (hk ▸ ha)
  rw [targets_cons, List.mem_append, not_or] at hfresh
  rw [run_frame hpost hfresh.2, step_frame hstep fun heq => hfresh.1 (by simp [heq])]

/-- **A pass over settled operations** goes through and changes no variable. -/
theorem run_of_settled : ∀ {ops : List TacOp} {m : Machine}, (∀ t ∈ ops, t.Settled m.store) →
    ∃ m', m.run false ops = (m', none) ∧ m'.store = m.store
  | [], m, _ => ⟨m, rfl, rfl⟩
  | t :: ops, m, h => by
    obtain ⟨ht, hops⟩ := List.forall_mem_cons.mp h
    obtain ⟨m₁, hstep, hstore₁⟩ := ht.step
    rw [← hstore₁] at hops
    obtain ⟨m', hrun, hstore'⟩ := run_of_settled hops
    refine ⟨m', ?_, hstore'.trans hstore₁⟩
    rw [run, hstep]
    exact hrun

end Machine

namespace Conversion.Lifted

variable {n : Nat} {ops : List PlacedOp} {pre post tacs : List TacOp} {t : TacOp}

/-- No variable is bound twice. -/
theorem nodup_targets (h : Lifted 0 ops tacs n) : (Conversion.targets tacs).Nodup := by
  rw [h.targets.2]
  exact List.nodup_range'

/-- What an operation uses is bound before it, so not there and not later. -/
theorem args_fresh (h : Lifted 0 ops (pre ++ t :: post) n) {k : VarId} (hk : .var k ∈ t.args) :
    k ∉ Conversion.targets (t :: post) := by
  have hnodup := h.nodup_targets
  rw [Conversion.targets, List.filterMap_append, List.nodup_append] at hnodup
  have hbefore : k ∈ Conversion.targets pre := by
    rcases h.cases_of_split with hfills | ⟨m, op, -, hpre, -, hy⟩
    · rw [hfills.args] at hk
      exact absurd hk (List.not_mem_nil)
    · by_cases hliteral : op.opcode.isPush = true ∨ op.opcode.isMissing = true
      · obtain ⟨w, hw⟩ := hy.literal hliteral
        rw [hw, List.mem_singleton] at hk
        exact absurd hk (by simp)
      · rw [hpre]
        exact List.mem_range.mpr ((hy.stacked hliteral).2 _ hk)
  exact fun hafter => hnodup.2.2 k hbefore k hafter rfl

/-- The result of an operation is bound neither before nor after it. -/
theorem target_fresh (h : Lifted 0 ops (pre ++ t :: post) n) {k : VarId} (hk : k ∈ t.target?) :
    k ∉ Conversion.targets pre ∧ k ∉ Conversion.targets post := by
  have hnodup := h.nodup_targets
  rw [Conversion.targets, List.filterMap_append, List.filterMap_cons_some hk, List.nodup_append,
    List.nodup_cons] at hnodup
  exact ⟨fun hbefore => hnodup.2.2 k hbefore k List.mem_cons_self rfl, hnodup.2.1.1⟩

/-- **Every operation of a lifting is settled** when the pass over it has ended. -/
theorem settled (h : Lifted 0 ops tacs n) {m₀ m' : Machine}
    (hpass : m₀.run false tacs = (m', none)) (ht : t ∈ tacs) : t.Settled m'.store := by
  obtain ⟨pre, post, rfl⟩ := List.append_of_mem ht
  exact Machine.settled_of_split hpass (fun _ hk => h.args_fresh hk)
    fun _ hk => (h.target_fresh hk).2

end Conversion.Lifted

end TraceLift
