/-
# What the relations say

The rows of a graph name variables by looking them up in the store that the pass over the
operations leaves.  The pass gives variables values and never a name (`names_of_run`), so the
variable at position `k` is still called `Vk`, and the name of an operand can be read off the
operand (`Operand.label`).  With that, each row is a function of its operation alone, and the
relations of a graph that was made from a trace always exist (`flowFacts_eq`,
`operandRows_eq`): no entry stack has anything on it, and no operand is unknown to the store.  All
names are bare, so the relations can be read back from their files (`read_flow`, `read_listings`).
-/
import TraceLift.Proofs.Folding
import TraceLift.Proofs.Lifting
import TraceLift.Proofs.ReadBack

namespace TraceLift

open Conversion

/-! ## 1. The pass keeps names and kinds -/

/-- The names of the variables of a store, in order. -/
def variableNames (store : Store) : List String := store.toList.map (·.name)

/-- A plain variable with known sites, as results of operations are. -/
def Variable.Proper (v : Variable) : Prop := v.kind = .plain ∧ v.sites ≠ .top

namespace Machine

/-- A store with the same variables, one of which may have other values. -/
def Revises (store store' : Store) : Prop :=
  store' = store ∨ ∃ (k : Nat) (v : Variable) (values : ValueSet), store[k]? = some v ∧
    store' = store.setIfInBounds k { v with values }

/-- What is read of a variable whatever its values stays the same. -/
theorem Revises.map_eq {store store' : Store} (h : Revises store store') {α : Type}
    {f : Variable → α} (hf : ∀ (v : Variable) (values : ValueSet), f { v with values } = f v) :
    store'.toList.map f = store.toList.map f := by
  rcases h with rfl | ⟨k, v, values, hv, rfl⟩
  · rfl
  · refine List.ext_getElem? fun i => ?_
    simp only [List.getElem?_map, Array.getElem?_toList, Array.getElem?_setIfInBounds]
    by_cases hik : k = i
    · subst hik
      have hlt := (Array.getElem?_eq_some_iff.mp hv).1
      rw [if_pos rfl, if_pos hlt, hv, Option.map_some, Option.map_some, hf]
    · rw [if_neg hik]

theorem Revises.names {store store' : Store} (h : Revises store store') :
    variableNames store' = variableNames store :=
  h.map_eq fun _ _ => rfl

theorem Revises.proper {store store' : Store} (h : Revises store store')
    (hstore : ∀ v ∈ store, v.Proper) : ∀ v ∈ store', v.Proper := by
  rcases h with rfl | ⟨k, v, values, hv, rfl⟩
  · exact hstore
  · intro w hw
    rcases Array.mem_or_eq_of_mem_setIfInBounds hw with hw | rfl
    · exact hstore w hw
    · exact hstore v (Array.mem_of_getElem? hv)

variable {m m' : Machine} {op : TacOp}

theorem revises_of_assignResult {values : ValueSet} (h : m.assignResult op values = .ok m') :
    Revises m.store m'.store := by
  obtain ⟨b, v, l, -, hv, -, hstore⟩ := assignResult_ok h
  exact .inr ⟨b.target, v, _, hv, hstore⟩

theorem revises_of_compute (h : m.compute op false = .ok m') : Revises m.store m'.store := by
  obtain ⟨_, -, ⟨-, _, -, h⟩ | ⟨-, b, v, -, hv, rfl⟩⟩ := compute_cases h
  · exact revises_of_assignResult h
  · exact .inr ⟨b.target, v, .top, hv, rfl⟩

theorem revises_of_step (h : m.step false op = .ok m') : Revises m.store m'.store := by
  rcases step_cases h with hstore | ⟨-, values, h⟩ | ⟨-, h⟩
  · exact .inl hstore
  · exact revises_of_assignResult h
  · exact revises_of_compute h

/-- **The pass revises variables, one at a time**, so it keeps what a revision keeps. -/
theorem keeps_of_run {P : Store → Prop}
    (hP : ∀ {store store' : Store}, Revises store store' → P store → P store') :
    ∀ {ops : List TacOp} {m m' : Machine}, m.run false ops = (m', none) → P m.store → P m'.store
  | [], _, _, h, hm => by
    cases h
    exact hm
  | op :: ops, m, m', h, hm => by
    rw [run] at h
    split at h
    · rename_i m₁ hstep
      exact keeps_of_run hP h (hP (revises_of_step hstep) hm)
    · exact absurd h (by simp)

/-- The pass keeps names. -/
theorem names_of_run {ops : List TacOp} {m m' : Machine} (h : m.run false ops = (m', none)) :
    variableNames m'.store = variableNames m.store :=
  keeps_of_run (P := fun store => variableNames store = variableNames m.store)
    (fun hrevises hnames => hrevises.names.trans hnames) h rfl

/-- The pass keeps what kind of variable each one is. -/
theorem proper_of_run {ops : List TacOp} {m m' : Machine} (h : m.run false ops = (m', none))
    (hstore : ∀ v ∈ m.store, v.Proper) : ∀ v ∈ m'.store, v.Proper :=
  keeps_of_run Revises.proper h hstore

end Machine

/-! ## 2. Variables are named by number -/

/-- The name of the variable at a position of the store. -/
def varName (k : Nat) : String := "V" ++ toString k

theorem varName_injective {j k : Nat} (h : varName j = varName k) : j = k := by
  have hdigits : Nat.toDigits 10 j = Nat.toDigits 10 k := by
    rwa [varName, varName, String.append_right_inj, Nat.toString_eq_repr, Nat.toString_eq_repr,
      Nat.repr_eq_ofList_toDigits, Nat.repr_eq_ofList_toDigits, String.ofList_inj] at h
  have hread := fun n => Nat.ofDigitChars_toDigits (b := 10) (n := n) (by decide) (by decide)
  rw [← hread j, hdigits, hread k]

/-- Every variable is named by its position. -/
def Numbered (store : Store) : Prop := variableNames store = (List.range store.size).map varName

theorem Numbered.push {store : Store} (h : Numbered store) {v : Variable}
    (hv : v.name = varName store.size) : Numbered (store.push v) := by
  unfold Numbered at h ⊢
  unfold variableNames at h ⊢
  rw [Array.toList_push, List.map_append, h, Array.size_push, List.range_succ, List.map_append,
    List.map_singleton, List.map_singleton, hv]

/-- The variable at a position has the name of the position. -/
theorem Numbered.name {store : Store} (h : Numbered store) {k : Nat} {v : Variable}
    (hv : store[k]? = some v) : v.name = varName k := by
  have hlt := (Array.getElem?_eq_some_iff.mp hv).1
  have hget : (variableNames store)[k]? = some v.name := by
    rw [variableNames, List.getElem?_map, Array.getElem?_toList, hv, Option.map_some]
  rw [h, List.getElem?_map, List.getElem?_range hlt, Option.map_some] at hget
  exact (Option.some.inj hget).symm

namespace Conversion

theorem name_of_resultVariable {number block : Nat} {op : TraceOp} {v : Variable}
    (h : resultVariable number block op = .ok v) : v.name = varName number := by
  unfold resultVariable at h
  dsimp only at h
  split at h
  · split at h
    · rw [← Except.ok.inj h]
      rfl
    · exact absurd h (by simp)
  · rw [← Except.ok.inj h]
    rfl

/-- Result variables are named by number. -/
theorem extends_numbered : Extends Numbered :=
  fun _ _ _ _ hstore hv => hstore.push (name_of_resultVariable hv)

theorem proper_of_resultVariable {number block : Nat} {op : TraceOp} {v : Variable}
    (h : resultVariable number block op = .ok v) : v.Proper := by
  unfold resultVariable at h
  dsimp only at h
  split at h
  · split at h
    · rw [← Except.ok.inj h]
      exact ⟨rfl, by simp [Variable.ofValues, Sites.bottom]⟩
    · exact absurd h (by simp)
  · rw [← Except.ok.inj h]
    exact ⟨rfl, by simp [Variable.top]⟩

theorem extends_proper : Extends fun store => ∀ v ∈ store, v.Proper := by
  intro store _ _ v hstore hv w hw
  rcases Array.mem_push.mp hw with hw | rfl
  · exact hstore w hw
  · exact proper_of_resultVariable hv

end Conversion

/-! ## 3. The rows of an operation -/

/-- The name that an operand has in the relations. -/
def Operand.label : Operand → String
  | var k => varName k
  | literal _ => literalName
  | entry position => "S" ++ toString position
  | blank => ""

/-- An operand that a store of `n` variables knows. -/
def Operand.Known (n : Nat) (a : Operand) : Prop := a.Stacked n ∨ ∃ w, a = .literal w

theorem Operand.name_eq_label {store : Store} (hstore : Numbered store) {a : Operand}
    (ha : a.Known store.size) : a.name store = .ok a.label := by
  rcases ha with hstacked | ⟨w, rfl⟩
  · cases a with
    | var k =>
      have hlt : k < store.size := hstacked
      have hk := Array.getElem?_eq_getElem hlt
      simp only [name, lookup, hk, label, hstore.name hk]
    | entry => rfl
    | literal | blank => exact hstacked.elim
  · rfl

/-- The rows of an operation name variables that a store of `n` variables has. -/
structure TacOp.Within (n : Nat) (t : TacOp) : Prop where
  args : ∀ a ∈ t.args, a.Known n
  target : ∀ k ∈ t.target?, k < n

namespace TacOp

variable {store : Store} {t : TacOp}

/-- The names of the operands. -/
def labels (t : TacOp) : List String := t.args.map (·.label)

/-- Where an operation defines its result. -/
def defs (t : TacOp) : List DefRow :=
  t.target?.toList.map fun k =>
    { name := varName k, pc := t.pc, loc := t.loc?, depth := t.depth?, number := t.number? }

theorem names_defs (t : TacOp) : t.defs.map (·.name) = (t.target?.map varName).toList := by
  rw [defs, List.map_map]
  cases t.target? <;> rfl

/-- Where an operation uses its operands. -/
def uses (t : TacOp) : List UseRow :=
  if t.opcode.same Opcode.const then []
  else t.labels.mapIdx fun i name =>
    { name, pc := t.pc, position := i + 1, loc := t.loc?, depth := t.depth?, number := t.number? }

/-- The row of an operation in the relation of its opcode. -/
def listing (t : TacOp) : OperandRow :=
  { pc := t.pc, names := t.labels ++ (t.target?.map varName).toList, loc := t.loc?,
    depth := t.depth?, number := t.number? }

theorem mapM_name (hstore : Numbered store) (ht : t.Within store.size) :
    t.args.mapM (·.name store) = .ok t.labels := by
  refine mapM_eq_ok ?_
  rw [labels, List.map_map]
  exact List.map_congr_left fun a ha => Operand.name_eq_label hstore (ht.args a ha)

theorem resultName?_eq (hstore : Numbered store) (ht : t.Within store.size) :
    t.resultName? store = t.target?.map varName := by
  unfold resultName? TacOp.target
  cases hb : t.binding with
  | none => simp [target?, hb]
  | some b =>
    have hlt : b.target < store.size := ht.target b.target (by simp [target?, hb])
    have hk := Array.getElem?_eq_getElem hlt
    simp [target?, hb, hlt, hstore.name hk]

theorem defRows_eq (hstore : Numbered store) (ht : t.Within store.size) :
    t.defRows store = t.defs := by
  rw [defRows, resultName?_eq hstore ht, defs]
  cases t.target? <;> rfl

theorem useRows_eq (hstore : Numbered store) (ht : t.Within store.size) :
    t.useRows store = .ok t.uses := by
  rw [useRows, mapM_name hstore ht, uses]
  split <;> rfl

theorem operandRow_eq (hstore : Numbered store) (ht : t.Within store.size) :
    t.operandRow store = .ok t.listing := by
  rw [operandRow, mapM_name hstore ht, resultName?_eq hstore ht]
  rfl

/-- A row of the uses is about an operand of its operation, which is no constant. -/
theorem mem_uses {u : UseRow} (h : u ∈ t.uses) :
    t.opcode.same Opcode.const = false ∧ u.loc = t.loc? ∧ ∃ a ∈ t.args, u.name = a.label := by
  unfold uses at h
  split at h
  · exact absurd h (List.not_mem_nil)
  · rename_i hconst
    obtain ⟨i, hi, rfl⟩ := List.mem_mapIdx.mp h
    refine ⟨by simpa using hconst, rfl, ?_⟩
    obtain ⟨a, ha, heq⟩ := List.mem_map.mp (List.getElem_mem hi)
    exact ⟨a, ha, heq.symm⟩

/-- A variable that has values in a row is the result of the operation. -/
theorem name_of_mem_valueRows {r : ValueRow} (h : r ∈ t.valueRows store) :
    t.resultName? store = some r.name := by
  unfold valueRows at h
  unfold resultName?
  split at h
  · rename_i v _
    cases hvalues : v.values with
    | top => simp [rowsOfValues, hvalues] at h
    | finite s =>
      simp only [rowsOfValues, hvalues] at h
      obtain ⟨x, -, rfl⟩ := List.mem_map.mp h
      rfl
  · exact absurd h (List.not_mem_nil)

end TacOp

/-! ## 4. The names are bare -/

open Text.Tsv

theorem bare_varName (k : Nat) : Bare (varName k) := Bare.append (by decide) (bare_toString k)

theorem Operand.bare_label : ∀ a : Operand, Bare a.label
  | var k => bare_varName k
  | literal _ => show Bare literalName by decide
  | entry position => Bare.append (by decide) (bare_toString position)
  | blank => show Bare "" by decide

namespace TacOp

variable {t : TacOp}

theorem bare_names_listing (t : TacOp) : ∀ name ∈ t.listing.names, Bare name := by
  simp only [listing, labels, List.forall_mem_append, List.forall_mem_map]
  refine ⟨fun a _ => a.bare_label, fun name hname => ?_⟩
  obtain ⟨k, -, rfl⟩ := Option.map_eq_some_iff.mp (Option.mem_toList.mp hname)
  exact bare_varName k

theorem bare_name_of_mem_defs {r : DefRow} (h : r ∈ t.defs) : Bare r.name := by
  obtain ⟨k, -, rfl⟩ := List.mem_map.mp h
  exact bare_varName k

theorem bare_name_of_mem_uses {r : UseRow} (h : r ∈ t.uses) : Bare r.name := by
  obtain ⟨-, -, a, -, hname⟩ := mem_uses h
  exact hname ▸ a.bare_label

theorem bare_name_of_mem_valueRows {store : Store} (hstore : Numbered store)
    (ht : t.Within store.size) {r : ValueRow} (h : r ∈ t.valueRows store) : Bare r.name := by
  have hname := name_of_mem_valueRows h
  rw [resultName?_eq hstore ht, Option.map_eq_some_iff] at hname
  obtain ⟨k, -, hk⟩ := hname
  exact hk ▸ bare_varName k

/-- The relation of an opcode is read back. -/
theorem read_listings (ts : List TacOp) :
    read (file ((ts.map (·.listing)).map (·.fields))) = (ts.map (·.listing)).map (·.fields) :=
  read_file_map (fun _ => List.cons_ne_nil _ _)
    (List.forall_mem_map.mpr fun t _ => OperandRow.bare_fields t.bare_names_listing)

end TacOp

/-! ## 5. The rows of a graph -/

namespace Graph

variable {g : Graph}

/-- What the relations of a graph rest on: its variables are named by number, its operations are a
lifting of a trace up to all these variables and can be carried out, and no block has an entry
stack or an empty place. -/
structure Readable (g : Graph) (ops : List TraceOp) : Prop where
  numbered : Numbered g.machine.store
  lifted : Lifted 0 ((blocksOf ops).flatMap (·.ops)) g.ops g.machine.store.size
  pass : ∃ m : Machine, m.run false g.ops = (g.machine, none)
  entryStack : ∀ m ∈ g.members, m.2.entryStack.items = []
  gap : g.members.any (·.2.gap) = false

theorem readable_of_ofTrace {ops : List TraceOp} (h : ofTrace ops = .ok g) : g.Readable ops := by
  obtain ⟨c, ts, hconvert, hmade⟩ := madeFrom_of_ofTrace h
  have hnames : variableNames g.machine.store = variableNames c.store :=
    Machine.names_of_run hmade.pass
  have hsize : g.machine.store.size = c.store.size := by
    simpa [variableNames] using congrArg List.length hnames
  have hstore : Numbered c.store := extends_numbered.convertBlocks (show Numbered #[] from rfl) hconvert
  constructor
  · rw [Numbered, hnames, hsize]
    exact hstore
  · rw [hsize]
    exact lifted_of_madeFrom hconvert hmade
  · refine ⟨{ store := c.store }, ?_⟩
    rw [← Machine.run_map_unnumbered, hmade.ops, Machine.run_map_unnumbered]
    exact hmade.pass
  · exact hmade.forall_members (f := (·.entryStack.items)) (fun _ => rfl) fun _ _ => rfl
  · exact hmade.gap

/-- The variables that an operation mentions are in the store. -/
theorem Readable.within {ops : List TraceOp} (h : g.Readable ops) {t : TacOp} (ht : t ∈ g.ops) :
    t.Within g.machine.store.size := by
  constructor
  · rcases h.lifted.cases_of_mem ht with hfills | ⟨m, op, -, hm, hy⟩
    · rw [hfills.args]
      exact fun a ha => absurd ha (List.not_mem_nil)
    · intro a ha
      by_cases hliteral : op.opcode.isPush = true ∨ op.opcode.isMissing = true
      · obtain ⟨w, hw⟩ := hy.literal hliteral
        rw [hw] at ha
        exact .inr ⟨w, List.mem_singleton.mp ha⟩
      · exact .inl (((hy.stacked hliteral).2 a ha).mono hm)
  · intro k hk
    have hmem : k ∈ Conversion.targets g.ops := List.mem_filterMap.mpr ⟨t, ht, hk⟩
    rw [h.lifted.targets.2, Nat.sub_zero, ← List.range_eq_range'] at hmem
    exact List.mem_range.mp hmem

/-- The rows of blocks without entry stacks are those of their operations. -/
theorem flowFactsFrom_eq (hstore : Numbered g.machine.store) : ∀ (bs : List Block)
    (last : Option TacOp), (∀ b ∈ bs, b.entryStack.items = []) →
    (∀ b ∈ bs, ∀ t ∈ b.ops, t.Within g.machine.store.size) →
    ∃ flow, g.flowFactsFrom last bs = .ok flow ∧
      flow.defs = (bs.flatMap (·.ops)).flatMap (·.defs) ∧
      flow.uses = (bs.flatMap (·.ops)).flatMap (·.uses) ∧
      flow.values = (bs.flatMap (·.ops)).flatMap (·.valueRows g.machine.store)
  | [], _, _, _ => ⟨{}, rfl, rfl, rfl, rfl⟩
  | b :: bs, last, hentry, hwithin => by
    obtain ⟨hb, hbs⟩ := List.forall_mem_cons.mp hentry
    obtain ⟨hops, hrest⟩ := List.forall_mem_cons.mp hwithin
    obtain ⟨flow, hflow, hdefs, huses, hvalues⟩ :=
      flowFactsFrom_eq hstore bs (b.lastOp? <|> last) hbs hrest
    have husesOf : b.ops.mapM (·.useRows g.machine.store) = .ok (b.ops.map (·.uses)) := by
      refine mapM_eq_ok ?_
      rw [List.map_map]
      exact List.map_congr_left fun t ht => TacOp.useRows_eq hstore (hops t ht)
    have hdefsOf : b.ops.flatMap (·.defRows g.machine.store) = b.ops.flatMap (·.defs) := by
      rw [List.flatMap_def, List.flatMap_def]
      exact congrArg _ (List.map_congr_left fun t ht => TacOp.defRows_eq hstore (hops t ht))
    have hblock : g.blockFacts last b = .ok
        { defs := b.ops.flatMap (·.defs), uses := b.ops.flatMap (·.uses),
          values := b.ops.flatMap (·.valueRows g.machine.store) } := by
      simp only [blockFacts, husesOf, hb, hdefsOf]
      simp [entryStackRows, bind, Except.bind, pure, Except.pure, List.flatMap_def]
    refine ⟨_, by
      rw [flowFactsFrom, hblock, hflow]
      rfl, ?_⟩
    simp [hdefs, huses, hvalues]

/-- **The flow relations exist**, and list what the operations say, in order. -/
theorem Readable.flowFacts_eq {ops : List TraceOp} (h : g.Readable ops) :
    ∃ flow, g.flowFacts = .ok flow ∧ flow.defs = g.ops.flatMap (·.defs) ∧
      flow.uses = g.ops.flatMap (·.uses) ∧
      flow.values = g.ops.flatMap (·.valueRows g.machine.store) := by
  have hops : (g.members.map (·.2)).flatMap (·.ops) = g.ops := by
    rw [Graph.ops, List.flatMap_map]
  rw [← hops]
  refine flowFactsFrom_eq h.numbered _ none ?_ ?_
  · intro b hb
    obtain ⟨m, hm, rfl⟩ := List.mem_map.mp hb
    exact h.entryStack m hm
  · intro b hb t ht
    refine h.within ?_
    rw [← hops]
    exact List.mem_flatMap.mpr ⟨b, hb, ht⟩

/-- The flow relations are read back. -/
theorem Readable.read_flow {ops : List TraceOp} (h : g.Readable ops) {flow : FlowFacts}
    (hflow : g.flowFacts = .ok flow) :
    read (file (flow.defs.map (·.fields))) = flow.defs.map (·.fields) ∧
      read (file (flow.uses.map (·.fields))) = flow.uses.map (·.fields) ∧
      read (file (flow.values.map (·.fields))) = flow.values.map (·.fields) := by
  obtain ⟨_, hflow', hdefs, huses, hvalues⟩ := h.flowFacts_eq
  obtain rfl := Except.ok.inj (hflow.symm.trans hflow')
  rw [hdefs, huses, hvalues]
  refine ⟨read_file_map (fun _ => List.cons_ne_nil _ _) fun r hr => ?_,
    read_file_map (fun _ => List.cons_ne_nil _ _) fun r hr => ?_,
    read_file_map (fun _ => List.cons_ne_nil _ _) fun r hr => ?_⟩
  all_goals obtain ⟨t, ht, hr⟩ := List.mem_flatMap.mp hr
  · exact DefRow.bare_fields (TacOp.bare_name_of_mem_defs hr)
  · exact UseRow.bare_fields (TacOp.bare_name_of_mem_uses hr)
  · exact ValueRow.bare_fields (TacOp.bare_name_of_mem_valueRows h.numbered (h.within ht) hr)

/-- **The relations of opcodes exist**, and list the operations of each in order. -/
theorem Readable.operandRows_eq {ops : List TraceOp} (h : g.Readable ops) (x : String) :
    g.operandRows x = .ok ((g.ops.filter (·.opcode.name == x)).map (·.listing)) := by
  refine mapM_eq_ok ?_
  rw [List.map_map]
  exact List.map_congr_left fun t ht =>
    TacOp.operandRow_eq h.numbered (h.within (List.mem_filter.mp ht).1)

end Graph

end TraceLift
