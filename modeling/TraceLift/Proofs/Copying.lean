/-
# Copying blocks

A copy of a block has operations and variables of its own.  The copier remembers where the copy of
each variable is, so a variable that is mentioned twice is copied once.

* **Variables** (`Faithful`).  The variables that there were stay as they are, and the copy of one
  is equal to it.  Each move of the copier keeps this (`Advances`), so the copies of operands denote
  what the operands denote.
* **Operations** (`CopyOf`).  A copied operation says the same (`Alike`) and has lost what was
  recorded of it: its place in the trace, the bytes that it copied, and the second value of a call.
* **Files** (`factFiles_congr`).  The relations of a graph depend on its operations only through
  what these say and on their places.
-/
import Mathlib.Data.List.Forall2
import TraceLift.Graph.Copy
import TraceLift.Proofs.CallRelations

namespace TraceLift

open Conversion

/-! ## 1. Operations that say the same -/

namespace TacOp

/-- The name and the possible values of the result, if there is one. -/
def result? (op : TacOp) (store : Store) : Option (String × ValueSet) :=
  match op.target store with
  | .ok (_, v) => some (v.name, v.values)
  | .error _ => none

/-- The second recorded value of a call. -/
def extra? (op : TacOp) : Option Int := op.binding.bind (·.extra)

/-- Two operations, each with the store that its variables are in, say the same. -/
structure Alike (store : Store) (op : TacOp) (store' : Store) (op' : TacOp) : Prop where
  opcode : op'.opcode = op.opcode
  pc : op'.pc = op.pc
  names : op'.args.map (·.name store') = op.args.map (·.name store)
  values : op'.args.map (·.values store') = op.args.map (·.values store)
  result : op'.result? store' = op.result? store

/-- What was recorded of two operations is the same. -/
structure SameRecord (op op' : TacOp) : Prop where
  value : op'.value = op.value
  extra : op'.extra? = op.extra?
  place : op'.place = op.place

/-- The operation without what was recorded of it. -/
def unrecorded (op : TacOp) : TacOp :=
  { op with value := none, place := none,
            binding := op.binding.map fun b => { b with extra := none } }

variable {store store' : Store} {op op' : TacOp}

theorem alike_unrecorded (op : TacOp) (store : Store) : Alike store op store op.unrecorded := by
  refine ⟨rfl, rfl, rfl, rfl, ?_⟩
  unfold result? target unrecorded
  cases op.binding <;> rfl

theorem target?_unrecorded (op : TacOp) : op.unrecorded.target? = op.target? := by
  unfold target? unrecorded
  cases op.binding <;> rfl

theorem resultName?_eq_result? (op : TacOp) (store : Store) :
    op.resultName? store = (op.result? store).map (·.1) := by
  unfold resultName? result?
  cases op.target store <;> rfl

theorem valueRows_eq_result? (op : TacOp) (store : Store) :
    op.valueRows store = (op.result? store).elim [] fun r => rowsOfValues r.1 r.2 := by
  unfold valueRows result?
  cases op.target store <;> rfl

/-! The rows of an operation depend on what it says and on its place. -/

theorem Alike.opRow (h : Alike store op store' op') (hplace : op'.place = op.place) :
    op'.opRow = op.opRow := by
  simp only [TacOp.opRow, loc?, h.opcode, h.pc, hplace]

theorem Alike.operandRow (h : Alike store op store' op') (hplace : op'.place = op.place) :
    op'.operandRow store' = op.operandRow store := by
  simp only [TacOp.operandRow, mapM_of_map_eq h.names, resultName?_eq_result?, h.result, h.pc, loc?,
    depth?, number?, hplace]

theorem Alike.defRows (h : Alike store op store' op') (hplace : op'.place = op.place) :
    op'.defRows store' = op.defRows store := by
  simp only [TacOp.defRows, resultName?_eq_result?, h.result, h.pc, loc?, depth?, number?, hplace]

theorem Alike.valueRows (h : Alike store op store' op') :
    op'.valueRows store' = op.valueRows store := by
  simp only [valueRows_eq_result?, h.result]

theorem Alike.useRows (h : Alike store op store' op') (hplace : op'.place = op.place) :
    op'.useRows store' = op.useRows store := by
  simp only [TacOp.useRows, h.opcode, mapM_of_map_eq h.names, h.pc, loc?, depth?, number?, hplace]

end TacOp

/-! ## 2. Graphs that tell the same -/

/-- Two operations have the same rows. -/
def Tells (store store' : Store) (op op' : TacOp) : Prop :=
  TacOp.Alike store op store' op' ∧ op'.place = op.place

/-- Two blocks without entry stacks have the same rows. -/
structure Block.Tells (store store' : Store) (b b' : Block) : Prop where
  gap : b'.gap = b.gap
  entryStack : b.entryStack.items = []
  entryStack' : b'.entryStack.items = []
  ops : List.Forall₂ (TraceLift.Tells store store') b.ops b'.ops

namespace Graph

variable {g g' : Graph}

theorem blockFacts_congr {b b' : Block} (h : b.Tells g.machine.store g'.machine.store b')
    (last last' : Option TacOp) : g'.blockFacts last' b' = g.blockFacts last b := by
  have huses := forall₂_mapM h.ops fun _ _ ho => ho.1.useRows ho.2
  have hdefs := forall₂_flatMap_eq h.ops fun _ _ ho => ho.1.defRows ho.2
  have hvalues := forall₂_flatMap_eq h.ops fun _ _ ho => ho.1.valueRows
  simp only [blockFacts, huses, hdefs, hvalues, h.entryStack, h.entryStack']
  rfl

theorem flowFactsFrom_congr {bs bs' : List Block}
    (h : List.Forall₂ (Block.Tells g.machine.store g'.machine.store) bs bs') :
    ∀ last last', g'.flowFactsFrom last' bs' = g.flowFactsFrom last bs := by
  induction h with
  | nil => exact fun _ _ => rfl
  | cons hb _ ih =>
    intro last last'
    simp only [flowFactsFrom, blockFacts_congr hb last last']
    rw [ih]

/-- **Graphs whose blocks tell the same have the same files.** -/
theorem factFiles_congr (h : List.Forall₂ (Block.Tells g.machine.store g'.machine.store)
    (g.members.map (·.2)) (g'.members.map (·.2))) (opcodes : List String) :
    g'.factFiles opcodes = g.factFiles opcodes := by
  have hops : List.Forall₂ (Tells g.machine.store g'.machine.store) g.ops g'.ops := by
    have hflat := List.rel_flatMap h (fun _ _ hb => Block.Tells.ops hb)
    simp only [Function.swap, List.flatMap_map] at hflat
    exact hflat
  have hgap : g'.members.any (·.2.gap) = g.members.any (·.2.gap) := by
    have hgaps := congrArg (List.any · id) (forall₂_map_eq h fun _ _ hb => hb.gap)
    rwa [List.map_map, List.map_map, List.any_map, List.any_map] at hgaps
  have hrows : ∀ x, g'.operandRows x = g.operandRows x := by
    intro x
    refine forall₂_mapM (List.rel_filter (fun o o' ho => ?_) hops) fun _ _ ho =>
      ho.1.operandRow ho.2
    simp only [ho.1.opcode]
  have hopRows : g'.opRows = g.opRows := forall₂_map_eq hops fun _ _ ho => ho.1.opRow ho.2
  have hopFiles : g'.opFiles opcodes = g.opFiles opcodes := by
    simp only [opFiles, hgap, hrows, hopRows]
  have hflowFiles : g'.flowFiles = g.flowFiles := by
    simp only [flowFiles, flowFacts, flowFactsFrom_congr h none none]
  simp only [factFiles, writeFacts, hopFiles, hflowFiles]

end Graph

/-! ## 3. Copying variables -/

/-- Everything that is in a store is still there. -/
def Store.Grows (store store' : Store) : Prop :=
  ∀ (k : VarId) (v : Variable), store[k]? = some v → store'[k]? = some v

theorem Store.Grows.rfl {store : Store} : store.Grows store := fun _ _ h => h

theorem Store.Grows.trans {s t u : Store} (h : s.Grows t) (h' : t.Grows u) : s.Grows u :=
  fun k v hv => h' k v (h k v hv)

theorem Store.grows_push (store : Store) (v : Variable) : Store.Grows store (store.push v) := by
  intro k w hw
  have hlt := (Array.getElem?_eq_some_iff.mp hw).1
  rw [Array.getElem?_push_lt hlt, ← hw, Array.getElem?_eq_getElem hlt]

namespace Copying

/-- What has been copied from a store is as it was there. -/
structure Faithful (base : Store) (c : Copying) : Prop where
  size : base.size ≤ c.store.size
  grows : base.Grows c.store
  proper : ∀ v ∈ c.store, v.Proper
  copies : ∀ p ∈ c.copies, ∀ v, base[p.1]? = some v →
    base.size ≤ p.2 ∧ c.store[p.2]? = some v

/-- One move of the copier that copies no operation. -/
structure Advances (base : Store) (c c' : Copying) : Prop where
  faithful : Faithful base c'
  grows : c.store.Grows c'.store
  opCopies : c'.opCopies = c.opCopies

variable {base : Store} {c c' c'' : Copying}

theorem Faithful.rfl (h : Faithful base c) : Advances base c c := ⟨h, .rfl, Eq.refl _⟩

theorem Advances.trans (h : Advances base c c') (h' : Advances base c' c'') : Advances base c c'' :=
  ⟨h'.faithful, h.grows.trans h'.grows, h'.opCopies.trans h.opCopies⟩

theorem copy_of_proper {v : Variable} (h : v.Proper) : v.copy = v := by
  rw [Variable.copy, h.1]

/-- **The copy of a variable** is equal to it and is not among the variables that there were. -/
theorem advances_variableCopy (h : Faithful base c) (id : VarId) :
    Advances base c (c.variableCopy id).2 ∧ ∀ v, base[id]? = some v →
      base.size ≤ (c.variableCopy id).1 ∧
      (c.variableCopy id).2.store[(c.variableCopy id).1]? = some v := by
  unfold variableCopy
  split
  · rename_i new hnew
    obtain ⟨l₁, l₂, hl, -⟩ := List.lookup_eq_some_iff.mp hnew
    exact ⟨h.rfl, h.copies (id, new) (by rw [hl]; simp)⟩
  · split
    · rename_i v hv
      have hproper : v.Proper := h.proper v (Array.mem_of_getElem? hv)
      have hgrows := c.store.grows_push v.copy
      rw [copy_of_proper hproper] at hgrows ⊢
      have hbase : ∀ w, base[id]? = some w →
          base.size ≤ c.store.size ∧ (c.store.push v)[c.store.size]? = some w := by
        intro w hw
        rw [Array.getElem?_push_size, ← hv]
        exact ⟨h.size, h.grows id w hw⟩
      refine ⟨⟨⟨?_, h.grows.trans hgrows, ?_, ?_⟩, hgrows, rfl⟩, hbase⟩
      · rw [Array.size_push]
        exact Nat.le_succ_of_le h.size
      · intro w hw
        rcases Array.mem_push.mp hw with hw | rfl
        · exact h.proper w hw
        · exact hproper
      · intro p hp w hw
        rcases List.mem_cons.mp hp with rfl | hp
        · exact hbase w hw
        · exact ⟨(h.copies p hp w hw).1, hgrows _ _ (h.copies p hp w hw).2⟩
    · rename_i hnone
      refine ⟨h.rfl, fun v hv => ?_⟩
      rw [h.grows id v hv] at hnone
      exact absurd hnone (by simp)

/-- An operand and its copy denote the same. -/
def Twins (base store : Store) (a a' : Operand) : Prop :=
  ∃ v, a.lookup base = .ok v ∧ a'.lookup store = .ok v

theorem Twins.grow {store store' : Store} {a a' : Operand} (h : Twins base store a a')
    (hgrows : store.Grows store') : Twins base store' a a' := by
  obtain ⟨v, hv, hv'⟩ := h
  refine ⟨v, hv, ?_⟩
  cases a' with
  | var k =>
    simp only [Operand.lookup] at hv' ⊢
    cases hk : store[k]? with
    | none => simp [hk] at hv'
    | some w =>
      rw [hk] at hv'
      rw [hgrows k w hk]
      exact hv'
  | literal | entry | blank => exact hv'

theorem advances_operand (h : Faithful base c) (a : Operand) :
    Advances base c (c.operand a).2 ∧ (a.Known base.size →
      Twins base (c.operand a).2.store a (c.operand a).1) := by
  cases a with
  | var id =>
    obtain ⟨hadvances, hcopy⟩ := advances_variableCopy h id
    refine ⟨hadvances, fun hknown => ?_⟩
    have hid : id < base.size := by
      rcases hknown with hstacked | ⟨w, hw⟩
      · exact hstacked
      · cases hw
    have hv := Array.getElem?_eq_getElem hid
    refine ⟨base[id], by simp only [Operand.lookup, hv], ?_⟩
    simp only [operand, Operand.lookup, (hcopy _ hv).2]
  | literal w => exact ⟨h.rfl, fun _ => ⟨_, rfl, rfl⟩⟩
  | entry n => exact ⟨h.rfl, fun _ => ⟨_, rfl, rfl⟩⟩
  | blank =>
    refine ⟨h.rfl, fun hknown => ?_⟩
    rcases hknown with hstacked | ⟨w, hw⟩
    · exact hstacked.elim
    · cases hw

theorem advances_operands : ∀ (l : List Operand) {c : Copying}, Faithful base c →
    Advances base c (c.operands l).2 ∧ ((∀ a ∈ l, a.Known base.size) →
      List.Forall₂ (Twins base (c.operands l).2.store) l (c.operands l).1)
  | [], _, h => ⟨h.rfl, fun _ => .nil⟩
  | a :: l, c, h => by
    obtain ⟨hfirst, hcopy⟩ := advances_operand h a
    obtain ⟨hrest, hcopies⟩ := advances_operands l hfirst.faithful
    refine ⟨hfirst.trans hrest, fun hknown => ?_⟩
    obtain ⟨ha, hl⟩ := List.forall_mem_cons.mp hknown
    exact .cons ((hcopy ha).grow hrest.grows) (hcopies hl)

/-! ## 4. Copying operations -/

/-- The result of an operation and that of its copy are equal variables, the second a new one, and
the copy of a binding has no second value. -/
inductive BindingCopy (base store : Store) : Option Binding → Option Binding → Prop
  | none : BindingCopy base store none none
  | some {b b' : Binding} {v : Variable} (hb : base[b.target]? = some v)
      (hb' : store[b'.target]? = some v) (hnew : base.size ≤ b'.target) (hextra : b'.extra = none) :
      BindingCopy base store (some b) (some b')

theorem BindingCopy.grow {store store' : Store} {b b' : Option Binding}
    (h : BindingCopy base store b b') (hgrows : store.Grows store') :
    BindingCopy base store' b b' := by
  cases h with
  | none => exact .none
  | some hb hb' hnew hextra => exact .some hb (hgrows _ _ hb') hnew hextra

/-- An operation and its copy. -/
structure CopyOf (base store : Store) (op op' : TacOp) : Prop where
  opcode : op'.opcode = op.opcode
  pc : op'.pc = op.pc
  value : op'.value = none
  place : op'.place = none
  args : List.Forall₂ (Twins base store) op.args op'.args
  binding : BindingCopy base store op.binding op'.binding

theorem CopyOf.grow {store store' : Store} {op op' : TacOp} (h : CopyOf base store op op')
    (hgrows : store.Grows store') : CopyOf base store' op op' where
  opcode := h.opcode
  pc := h.pc
  value := h.value
  place := h.place
  args := h.args.imp fun _ _ ha => ha.grow hgrows
  binding := h.binding.grow hgrows

theorem advances_binding (h : Faithful base c) {b : Option Binding}
    (hb : ∀ k ∈ b.map (·.target), k < base.size) :
    Advances base c (c.binding b).2 ∧ BindingCopy base (c.binding b).2.store b (c.binding b).1 := by
  cases b with
  | none => exact ⟨h.rfl, .none⟩
  | some b =>
    obtain ⟨hadvances, hcopy⟩ := advances_variableCopy h b.target
    have hv := Array.getElem?_eq_getElem (hb b.target rfl)
    obtain ⟨hnew, hcopied⟩ := hcopy _ hv
    exact ⟨hadvances, .some hv hcopied hnew rfl⟩

/-- **The copy of an operation** that was not copied before. -/
theorem copyOf_op (h : Faithful base c) {op : TacOp} (hop : op.Within base.size)
    (hnone : c.opCopies.lookup op.serial = none) :
    Faithful base (c.op op).2 ∧ c.store.Grows (c.op op).2.store ∧
      (c.op op).2.opCopies = (op.serial, (c.op op).1) :: c.opCopies ∧
      CopyOf base (c.op op).2.store op (c.op op).1 := by
  obtain ⟨hbinding, hbindings⟩ := advances_binding h hop.target
  obtain ⟨hargs, htwins⟩ := advances_operands op.args hbinding.faithful
  have hboth := hbinding.trans hargs
  simp only [Copying.op, hnone]
  refine ⟨⟨hboth.faithful.size, hboth.faithful.grows, hboth.faithful.proper,
    hboth.faithful.copies⟩, hboth.grows, ?_, ?_⟩
  · rw [hboth.opCopies]
  · exact ⟨rfl, rfl, rfl, rfl, htwins hop.args, hbindings.grow hargs.grows⟩

/-- **The copies of operations** with different numbers. -/
theorem copyOf_ops : ∀ {l : List TacOp} {c : Copying}, Faithful base c →
    (∀ op ∈ l, op.Within base.size) → (l.map (·.serial)).Nodup →
    (∀ op ∈ l, ∀ p ∈ c.opCopies, op.serial ≠ p.1) →
    Faithful base (c.ops l).2 ∧ List.Forall₂ (CopyOf base (c.ops l).2.store) l (c.ops l).1 ∧
      c.store.Grows (c.ops l).2.store
  | [], _, h, _, _, _ => ⟨h, .nil, .rfl⟩
  | op :: l, c, h, hwithin, hnodup, hnone => by
    obtain ⟨hop, hl⟩ := List.forall_mem_cons.mp hwithin
    obtain ⟨hopNone, hlNone⟩ := List.forall_mem_cons.mp hnone
    rw [List.map_cons, List.nodup_cons] at hnodup
    obtain ⟨hfaithful, hgrows, hcopies, hcopy⟩ := copyOf_op h hop
      (List.lookup_eq_none_iff.mpr fun p hp => bne_iff_ne.mpr (hopNone p hp))
    have hstill : ∀ o ∈ l, ∀ p ∈ (c.op op).2.opCopies, o.serial ≠ p.1 := by
      intro o ho
      have hne : o.serial ≠ op.serial := fun heq =>
        hnodup.1 (heq ▸ List.mem_map_of_mem (f := (·.serial)) ho)
      rw [hcopies]
      exact List.forall_mem_cons.mpr ⟨hne, hlNone o ho⟩
    obtain ⟨hfaithful', hrest, hgrows'⟩ := copyOf_ops hfaithful hl hnodup.2 hstill
    exact ⟨hfaithful', .cons (hcopy.grow hgrows') hrest, hgrows.trans hgrows'⟩

/-! ## 5. Definition sites -/

/-- Stores whose variables are the same but for the definition sites of those from `n` on. -/
structure Relocated (n : Nat) (store store' : Store) : Prop where
  kept : ∀ k < n, store'[k]? = store[k]?
  resited : ∀ (k : VarId) (v : Variable), store[k]? = some v →
    ∃ sites, store'[k]? = some { v with sites }
  proper : ∀ v ∈ store', v.Proper

variable {n : Nat} {store store' store'' : Store}

theorem Relocated.trans (h : Relocated n store store') (h' : Relocated n store' store'') :
    Relocated n store store'' where
  kept k hk := (h'.kept k hk).trans (h.kept k hk)
  resited k v hv := by
    obtain ⟨sites, hsites⟩ := h.resited k v hv
    obtain ⟨sites', hsites'⟩ := h'.resited k _ hsites
    exact ⟨sites', hsites'⟩
  proper := h'.proper

theorem relocated_set (hproper : ∀ v ∈ store, v.Proper) {k : VarId} (hk : n ≤ k) {v : Variable}
    (hv : store[k]? = some v) {sites : Sites} (hsites : sites ≠ .top) :
    Relocated n store (store.setIfInBounds k { v with sites }) := by
  have hlt := (Array.getElem?_eq_some_iff.mp hv).1
  have hget : ∀ j, (store.setIfInBounds k { v with sites })[j]? =
      if k = j then some { v with sites } else store[j]? := by
    intro j
    rw [Array.getElem?_setIfInBounds]
    by_cases hj : k = j
    · rw [if_pos hj, if_pos hj, if_pos (hj ▸ hlt)]
    · rw [if_neg hj, if_neg hj]
  constructor
  case kept =>
    intro j hj
    rw [hget, if_neg (Nat.ne_of_gt (Nat.lt_of_lt_of_le hj hk))]
  case resited =>
    intro j w hw
    rw [hget]
    by_cases hj : k = j
    · subst hj
      obtain rfl : v = w := Option.some.inj (hv.symm.trans hw)
      exact ⟨sites, if_pos rfl⟩
    · exact ⟨w.sites, by rw [if_neg hj, hw]⟩
  case proper =>
    intro w hw
    obtain ⟨j, hj⟩ := Array.mem_iff_getElem?.mp hw
    rw [hget] at hj
    split at hj
    · rw [← Option.some.inj hj]
      exact ⟨(hproper v (Array.mem_of_getElem? hv)).1, hsites⟩
    · exact hproper w (Array.mem_of_getElem? hj)

theorem claim_cons (store : Store) (block : Nat) (op : TacOp) (ops : List TacOp) :
    claim store block (op :: ops) = (claim store block [op] >>= fun store => claim store block ops) := by
  simp only [claim, List.foldlM_cons, List.foldlM_nil, bind_pure]

theorem exists_claim_one (block : Nat) {op : TacOp} (hproper : ∀ v ∈ store, v.Proper)
    (htarget : ∀ k ∈ op.target?, n ≤ k) :
    ∃ store', claim store block [op] = .ok store' ∧ Relocated n store store' := by
  have hsame : Relocated n store store := ⟨fun _ _ => rfl, fun _ v hv => ⟨v.sites, hv⟩, hproper⟩
  simp only [claim, List.foldlM_cons, List.foldlM_nil, bind_pure]
  cases hb : op.binding with
  | none => exact ⟨store, rfl, hsame⟩
  | some b =>
    cases hv : store[b.target]? with
    | none => exact ⟨store, by simp only [hv], hsame⟩
    | some v =>
      have hk : n ≤ b.target := htarget b.target (by simp [TacOp.target?, hb])
      cases hsites : v.sites with
      | top => exact absurd hsites (hproper v (Array.mem_of_getElem? hv)).2
      | finite l =>
        simp only [hv, hsites, Sites.inBlock]
        exact ⟨_, rfl, relocated_set hproper hk hv (by simp)⟩

/-- **Sites can always be moved** into the copy, since all are known. -/
theorem exists_claim (block : Nat) : ∀ {ops : List TacOp} {store : Store},
    (∀ v ∈ store, v.Proper) → (∀ op ∈ ops, ∀ k ∈ op.target?, n ≤ k) →
    ∃ store', claim store block ops = .ok store' ∧ Relocated n store store'
  | [], store, hproper, _ => ⟨store, rfl, fun _ _ => rfl, fun _ v hv => ⟨v.sites, hv⟩, hproper⟩
  | op :: ops, store, hproper, htargets => by
    obtain ⟨hop, hops⟩ := List.forall_mem_cons.mp htargets
    obtain ⟨store₁, hfirst, hrelocated⟩ := exists_claim_one block hproper hop
    obtain ⟨store₂, hrest, hrelocated'⟩ := exists_claim block hrelocated.proper hops
    refine ⟨store₂, ?_, hrelocated.trans hrelocated'⟩
    rw [claim_cons, hfirst]
    exact hrest

/-- What an operand denotes is the same but for its definition sites. -/
theorem Relocated.lookup (h : Relocated n store store') {a : Operand} {v : Variable}
    (hv : a.lookup store = .ok v) : ∃ sites, a.lookup store' = .ok { v with sites } := by
  cases a with
  | var k =>
    simp only [Operand.lookup] at hv ⊢
    cases hk : store[k]? with
    | none => simp [hk] at hv
    | some w =>
      rw [hk] at hv
      obtain ⟨sites, hsites⟩ := h.resited k w hk
      rw [hsites]
      exact ⟨sites, by rw [← Except.ok.inj hv]⟩
  | literal | entry => exact ⟨v.sites, hv⟩
  | blank => exact absurd hv (by simp [Operand.lookup])

/-- **A copied operation says the same**, wherever its result is said to be defined. -/
theorem CopyOf.alike {op op' : TacOp} (h : CopyOf base store op op')
    (hrelocated : Relocated n store store') : TacOp.Alike base op store' op' := by
  have htwins : ∀ a a', Twins base store a a' →
      a'.name store' = a.name base ∧ a'.values store' = a.values base := by
    rintro a a' ⟨v, hv, hv'⟩
    obtain ⟨sites, hsites⟩ := hrelocated.lookup hv'
    simp only [Operand.name, Operand.values, hv, hsites, and_self]
  refine ⟨h.opcode, h.pc, forall₂_map_eq h.args fun _ _ ha => (htwins _ _ ha).1,
    forall₂_map_eq h.args fun _ _ ha => (htwins _ _ ha).2, ?_⟩
  have hbinding := h.binding
  unfold TacOp.result? TacOp.target
  generalize op.binding = b, op'.binding = b' at hbinding
  cases hbinding with
  | none => rfl
  | some hb hb' =>
    obtain ⟨sites, hsites⟩ := hrelocated.resited _ _ hb'
    simp only [hb, hsites]

end Copying

/-! ## 6. Copying a block -/

/-- What is left of the records of an operation in its copy. -/
structure TacOp.Unrecorded (op : TacOp) : Prop where
  value : op.value = none
  extra : op.extra? = none
  place : op.place = none

theorem TacOp.unrecorded_unrecorded (op : TacOp) : op.unrecorded.Unrecorded := by
  refine ⟨rfl, ?_, rfl⟩
  unfold extra? TacOp.unrecorded
  cases op.binding <;> rfl

theorem TacOp.Unrecorded.sameRecord {op op' : TacOp} (h : op.Unrecorded) (h' : op'.Unrecorded) :
    op.SameRecord op' :=
  ⟨h'.value.trans h.value.symm, h'.extra.trans h.extra.symm, h'.place.trans h.place.symm⟩

namespace Copying

variable {base store store' : Store} {op op' : TacOp}

theorem CopyOf.unrecorded (h : CopyOf base store op op') : op'.Unrecorded := by
  refine ⟨h.value, ?_, h.place⟩
  have hbinding := h.binding
  unfold TacOp.extra?
  generalize op.binding = b, op'.binding = b' at hbinding
  cases hbinding with
  | none => rfl
  | some _ _ _ hextra => exact hextra

theorem CopyOf.target (h : CopyOf base store op op') : ∀ k ∈ op'.target?, base.size ≤ k := by
  have hbinding := h.binding
  unfold TacOp.target?
  generalize op.binding = b, op'.binding = b' at hbinding
  cases hbinding with
  | none => exact fun k hk => absurd hk (by simp)
  | some _ _ hnew =>
    intro k hk
    rw [← Option.some.inj hk]
    exact hnew

end Copying

namespace Graph

/-- A block that can be copied, once it is known where it falls through to. -/
structure Copiable (g : Graph) (b : Block) : Prop where
  head : ∃ head, BlockHead.make b.entry b.exit = .ok head
  gap : b.gap = false
  entryStack : b.entryStack.items = []
  exitStack : b.exitStack.items = []
  within : ∀ op ∈ b.ops, op.Within g.machine.store.size
  serials : (b.ops.map (·.serial)).Nodup

/-- What a graph is like after a block of it was copied. -/
structure Copied (g : Graph) (b : Block) (g' : Graph) (copy : Block) : Prop where
  order : g'.order = g.order
  blocks : g'.blocks = g.blocks ++ [copy]
  store : ∀ k < g.machine.store.size, g'.machine.store[k]? = g.machine.store[k]?
  source : copy.source = b.source
  gap : copy.gap = false
  entryStack : copy.entryStack.items = []
  ops : List.Forall₂ (fun op op' => TacOp.Alike g.machine.store op g'.machine.store op' ∧
    op'.Unrecorded) b.ops copy.ops

/-- **A block is copied.**  The copy says the same and has no records. -/
theorem exists_copied {g : Graph} {n : Nat} {b : Block} (hb : g.block? n = some b)
    (hproper : ∀ v ∈ g.machine.store, v.Proper) (h : g.Copiable b) {next : Option Nat}
    (hnext : b.fallthrough = some next) :
    ∃ g' copy, g.copyBlock n = .ok (g', g.blocks.length) ∧ g.Copied b g' copy := by
  obtain ⟨head, hhead⟩ := h.head
  have hstart : Copying.Faithful g.machine.store
      { store := g.machine.store, serials := g.serials } :=
    ⟨Nat.le_refl _, .rfl, hproper, fun p hp => absurd hp (by simp)⟩
  obtain ⟨hfaithful, hcopies, hgrows⟩ := Copying.copyOf_ops hstart h.within h.serials
    (fun _ _ p hp => absurd hp (by simp))
  obtain ⟨hdelta, -⟩ := Copying.advances_operands b.delta.items hfaithful
  generalize hops : ({ store := g.machine.store, serials := g.serials } : Copying).ops b.ops = r
    at hfaithful hcopies hgrows hdelta
  obtain ⟨ops, c₁⟩ := r
  generalize hitems : c₁.operands b.delta.items = r at hdelta
  obtain ⟨items, c₂⟩ := r
  have hcopies : List.Forall₂ (Copying.CopyOf g.machine.store c₂.store) b.ops ops :=
    hcopies.imp fun _ _ hop => hop.grow hdelta.grows
  have htargets : ∀ op' ∈ ops, ∀ k ∈ op'.target?, g.machine.store.size ≤ k :=
    forall_right hcopies fun _ _ hop => hop.target
  obtain ⟨store, hclaim, hrelocated⟩ :=
    Copying.exists_claim g.blocks.length hdelta.faithful.proper htargets
  have hmade : g.copyBlock n = .ok
      ({ g with machine := { g.machine with store }, serials := c₂.serials,
                blocks := g.blocks ++ [{ b with
                  ops, gap := false, delta := { b.delta with items },
                  entryStack := { b.entryStack with items := [] },
                  exitStack := { b.exitStack with items := [] },
                  fallthrough := some next, index := none }] }, g.blocks.length) := by
    simp only [copyBlock, hb, hops, hitems, hhead, h.entryStack, h.exitStack, hnext, h.gap,
      Copying.items, bind, Except.bind, hclaim]
    rfl
  refine ⟨_, _, hmade, rfl, rfl, ?_, rfl, rfl, rfl, ?_⟩
  · intro k hk
    rw [hrelocated.kept k hk, Array.getElem?_eq_getElem hk]
    exact hdelta.faithful.grows k _ (Array.getElem?_eq_getElem hk)
  · exact hcopies.imp fun _ _ hop => ⟨hop.alike hrelocated, hop.unrecorded⟩

end Graph

end TraceLift
