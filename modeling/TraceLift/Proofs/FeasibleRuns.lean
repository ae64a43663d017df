/-
# Runs that can be carried out have a graph

Other modules say what a graph holds IF it was made.  This one says when it is.  The stack machine
decides: an operation is `Feasible` on the words it finds if its recorded values are there and the
pass can do with those words what it has to do, write a number that fits or compute a result.  A
trace all of whose operations are feasible, one after the other, each on the stack of its own
frame, has a graph, and in the graph every result is known.

* **One operation** (`exists_step`).  What the pass reads of a feasible operation are the words
  that the machine takes, so it finds what it needs.
* **The plan** (`plan_of_run`).  The conversion leaves operations that the pass can carry out in
  their order.
* **The pass** (`Plan.run`), and the graph (`exists_graph`).

An operation that the pass does nothing for, and that leaves no word, may take from below the
bottom of its stack: nobody looks at what it takes.
-/
import TraceLift.Proofs.ByteArrays
import TraceLift.Proofs.ConcreteRun
import TraceLift.Proofs.Rows

namespace TraceLift

open Conversion StackMachine

/-! ## 1. What is feasible -/

/-- The pass does something for operations of this opcode. -/
def Opcode.IsCarriedOut (opcode : Opcode) : Prop :=
  opcode.same .const = true ∨ (∃ c ∈ copies, opcode.same c.1 = true) ∨ opcode.same .sstore = true ∨
    (∃ c ∈ stores, opcode.same c.1 = true) ∨ opcode.isArithmetic = true

instance (opcode : Opcode) : Decidable opcode.IsCarriedOut :=
  inferInstanceAs (Decidable (_ ∨ _ ∨ _ ∨ _ ∨ _))

/-- There is a number, and a width that it can be written with. -/
def Memory.Writable : Option Int → Option Int → Prop
  | some value, some width => (encode value width).toBool = true
  | _, _ => False

instance : ∀ value width, Decidable (Memory.Writable value width)
  | some _, some _ => inferInstanceAs (Decidable (_ = true))
  | none, _ => .isFalse id
  | some _, none => .isFalse id

/-- The arithmetic function of a name has a value. -/
def Arith.Defined (name : String) (args : List Int) : Prop :=
  (ofName name >>= fun f => f.eval args).toBool = true

instance (name : String) (args : List Int) : Decidable (Arith.Defined name args) :=
  inferInstanceAs (Decidable (_ = true))

namespace StackMachine

/-- The pass can carry an operation out on the words that it takes. -/
structure Ready (op : TraceOp) (args : List Int) : Prop where
  plain : op.opcode.same .const = false
  copy : ∀ c ∈ Opcode.copies, c.1 = op.opcode → Memory.Writable op.value args[c.2.2]?
  store : ∀ c ∈ Opcode.stores, c.1 = op.opcode → Memory.Writable args[1]? (some c.2.2)
  arith : op.opcode.isArithmetic = true → Arith.Defined op.opcode.name args

instance (op : TraceOp) (args : List Int) : Decidable (Ready op args) :=
  decidable_of_iff (op.opcode.same .const = false ∧
      (∀ c ∈ Opcode.copies, c.1 = op.opcode → Memory.Writable op.value args[c.2.2]?) ∧
      (∀ c ∈ Opcode.stores, c.1 = op.opcode → Memory.Writable args[1]? (some c.2.2)) ∧
      (op.opcode.isArithmetic = true → Arith.Defined op.opcode.name args))
    ⟨fun ⟨h₁, h₂, h₃, h₄⟩ => ⟨h₁, h₂, h₃, h₄⟩, fun h => ⟨h.1, h.2, h.3, h.4⟩⟩

/-- An operation takes words that are there, leaves no more than fit, and can be carried out. -/
def Performs (op : TraceOp) (ws : List Int) : Prop :=
  op.opcode.pops.toNat ≤ ws.length ∧ (next op ws).length ≤ 1024 ∧ Ready op (taken op ws)

/-- An operation for which the pass does nothing, and which leaves no word. -/
def Idles (op : TraceOp) : Prop :=
  Acts op.opcode ∧ op.opcode.pushes ≠ 1 ∧ ¬ (tacOpcode op.opcode).IsCarriedOut

/-- An operation can be converted and carried out on a stack of words. -/
def Feasible (op : TraceOp) (ws : List Int) : Prop :=
  op.opcode ∈ Opcode.table ∧ op.Recorded ∧ (Performs op ws ∨ Idles op)

instance (op : TraceOp) (ws : List Int) : Decidable (Feasible op ws) :=
  inferInstanceAs (Decidable (_ ∧ _ ∧ ((_ ∧ _ ∧ _) ∨ (_ ∧ _ ∧ _))))

/-- Operations are feasible one after the other, each on the stack of its frame, from the stacks
of all frames on. -/
def FeasibleFrom (stackOf : Nat → List Int) : List (Nat × TraceOp) → Prop
  | [] => True
  | (f, op) :: rest =>
    Feasible op (stackOf f) ∧ FeasibleFrom (Function.update stackOf f (next op (stackOf f))) rest

theorem FeasibleFrom.front : ∀ {l l' : List (Nat × TraceOp)} {stackOf : Nat → List Int},
    FeasibleFrom stackOf (l ++ l') → FeasibleFrom stackOf l
  | [], _, _, _ => trivial
  | _ :: _, _, _, ⟨hop, hrest⟩ => ⟨hop, hrest.front⟩

theorem FeasibleFrom.of_mem : ∀ {l : List (Nat × TraceOp)} {stackOf : Nat → List Int},
    FeasibleFrom stackOf l → ∀ p ∈ l, p.2.opcode ∈ Opcode.table ∧ p.2.Recorded
  | [], _, _ => by simp
  | _ :: _, _, ⟨⟨htable, hrecorded, _⟩, hrest⟩ =>
    List.forall_mem_cons.mpr ⟨⟨htable, hrecorded⟩, hrest.of_mem⟩

end StackMachine

/-! ## 2. One operation of the pass -/

/-- What a pass does for an opcode that stands for itself: the copies, the stores, `SSTORE` and
arithmetic, or nothing. -/
theorem Opcode.pass_cases {opcode : Opcode} (hmem : opcode ∈ table)
    (hconst : opcode.same .const = false) (hpush : opcode.isPush = false) :
    (∃ c ∈ copies, c.1 = opcode ∧ opcode.isCopy = true ∧ opcode.pushes ≠ 1 ∧
        (c.2.1 : Int) < opcode.pops ∧ (c.2.2 : Int) < opcode.pops ∧ tacOpcode opcode = opcode) ∨
    (∃ c ∈ stores, c.1 = opcode ∧ opcode.pops = 2 ∧ tacOpcode opcode = opcode) ∨
    (opcode = .sstore) ∨
    (opcode.isArithmetic = true ∧ opcode.pushes = 1 ∧ tacOpcode opcode = opcode) ∨
    ¬ (tacOpcode opcode).IsCarriedOut := by
  revert hpush
  revert hconst
  revert hmem
  revert opcode
  decide +kernel

namespace Machine

variable {m : Machine} {t : TacOp}

theorem step_of_not_carriedOut (h : ¬ t.opcode.IsCarriedOut) (useSets : Bool) :
    m.step useSets t = .ok m := by
  simp only [Opcode.IsCarriedOut, Opcode.copies, Opcode.stores, List.mem_cons, List.not_mem_nil,
    or_false, exists_eq_or_imp, exists_eq_left, not_or, Bool.not_eq_true] at h
  obtain ⟨h₁, ⟨h₂, h₃, h₄, h₅⟩, h₆, ⟨h₇, h₈⟩, h₉⟩ := h
  simp only [step, h₁, h₂, h₃, h₄, h₅, h₆, h₇, h₈, h₉, Bool.or_self, if_false, Bool.false_eq_true,
    ite_self]

theorem exists_assignResult {b : Binding} {v : Variable} (hb : t.binding = some b)
    (hv : m.store[b.target]? = some v) (w : Int) :
    ∃ m', m.assignResult t (.single w) = .ok m' := by
  have htarget : t.target m.store = .ok (b.target, v) := by simp [TacOp.target, hb, hv]
  have hassign : v.assignSet (.single w) = .ok (v.assign [w]) := rfl
  simp only [assignResult, htarget, hassign, bind, Except.bind]
  exact ⟨_, rfl⟩

theorem exists_compute {b : Binding} {v : Variable} (hb : t.binding = some b)
    (hv : m.store[b.target]? = some v) {ws : List Int}
    (hargs : t.args.mapM (·.values m.store) = .ok (ws.map ValueSet.single))
    (hdefined : Arith.Defined t.opcode.name ws) :
    ∃ m', m.compute t false = .ok m' := by
  have hconst : (ws.map ValueSet.single).all (·.isConst) = true := by
    simp [ValueSet.isConst_single]
  obtain ⟨w, hw⟩ : ∃ v, Variable.arith t.opcode.name (ws.map ValueSet.single)
      Variable.resultName = .ok v := by
    unfold Arith.Defined at hdefined
    simp only [Variable.arith, Variable.evalSets]
    cases hf : Arith.ofName t.opcode.name with
    | error e => simp [hf, bind, Except.bind, Except.toBool] at hdefined
    | ok f =>
      cases hx : f.eval ws with
      | error e => simp [hf, hx, bind, Except.bind, Except.toBool] at hdefined
      | ok x =>
        simp only [ValueSet.lift_singles, hx, Except.map, ValueSet.members_single]
        exact ⟨_, rfl⟩
  obtain ⟨m', hm'⟩ := exists_assignResult hb hv (arithmetic t.opcode.name ws)
  refine ⟨m', ?_⟩
  simp only [compute, hargs, bind, Except.bind, hconst, Bool.true_or, if_true, hw,
    arith_of_singletons hw]
  exact hm'

theorem exists_copyBytes {i j : Nat} {a b : Operand} {offset width : Nat}
    (hoffset : t.args[i]? = some a) (ha : a.IsConst m.store offset)
    (hwidth : t.args[j]? = some b) (hb : b.IsConst m.store width)
    (hvalue : Memory.Writable t.value (some width)) : ∃ m', m.copyBytes t i j = .ok m' := by
  cases hv : t.value with
  | none => simp [hv, Memory.Writable] at hvalue
  | some value =>
    rw [copyBytes_of_const hoffset ha hwidth hb hv, Memory.write]
    rw [hv] at hvalue
    cases hencode : Memory.encode value width with
    | error e => simp [Memory.Writable, hencode, Except.toBool] at hvalue
    | ok bytes => exact ⟨_, rfl⟩

theorem exists_storeBytes {a b : Operand} {offset value : Nat} {span width : Int}
    (hoffset : t.args[0]? = some a) (ha : a.IsConst m.store offset)
    (hvalue : t.args[1]? = some b) (hb : b.IsConst m.store value)
    (hwrite : Memory.Writable (some value) (some width)) :
    ∃ m', m.storeBytes t span width = .ok m' := by
  rw [storeBytes_of_const hoffset hvalue ha hb, Memory.write]
  cases hencode : Memory.encode value width with
  | error e => simp [Memory.Writable, hencode, Except.toBool] at hwrite
  | ok bytes => exact ⟨_, rfl⟩

theorem exists_storeSlot {a b : Operand} {slot value : Nat} (hslot : t.args[0]? = some a)
    (ha : a.IsConst m.store slot) (hvalue : t.args[1]? = some b) (hb : b.IsConst m.store value) :
    ∃ m', m.storeSlot t = .ok m' := by
  obtain ⟨v, hlookup, -, -⟩ := ha
  obtain ⟨v', hlookup', -, -⟩ := hb
  have harg₀ : t.arg 0 = .ok a := by rw [TacOp.arg, hslot]
  have harg₁ : t.arg 1 = .ok b := by rw [TacOp.arg, hvalue]
  simp only [storeSlot, harg₀, harg₁, bind, Except.bind, Operand.render, hlookup, hlookup']
  exact ⟨_, rfl⟩

end Machine

namespace StackMachine

/-- The variables during a pass: as many as words were given, each of a plain kind, and the first
`k` with their words. -/
structure Progress (initial : Store) (vals : List Int) (k : Nat) (store : Store) : Prop where
  size : store.size = vals.length
  words : ∀ w ∈ vals, 0 ≤ w
  proper : ∀ v ∈ store, v.Proper
  agrees : Agrees initial vals k store

/-- A three-address operation that the pass can carry out: it reads the words that an operation of
the trace takes, and has what was recorded of it. -/
structure Carries (initial : Store) (vals : List Int) (k : Nat) (op : TraceOp) (ws : List Int)
    (t : TacOp) : Prop extends Reads initial vals k op ws t where
  mem : op.opcode ∈ Opcode.table
  enough : op.opcode.pops.toNat ≤ ws.length
  ready : Ready op (taken op ws)
  value : op.opcode.isCopy = true → op.opcode.pushes ≠ 1 → t.value = op.value
  bound : op.opcode.pushes = 1 → t.binding ≠ none

section Carries

variable {initial store : Store} {vals ws : List Int} {k : Nat} {op : TraceOp} {t : TacOp}
  {m m' : Machine}

/-- An operand that stands for a word among the first `k` is that constant. -/
theorem Progress.isConst (h : Progress initial vals k store) {a : Operand} {w : Int}
    (ha : a.denote (vals.take k) = some w) : ∃ n : Nat, w = n ∧ a.IsConst store n := by
  cases a with
  | var j =>
    have hget : (vals.take k)[j]? = some w := ha
    have hlt : j < k :=
      Nat.lt_of_lt_of_le (List.getElem?_eq_some_iff.mp hget).1 (List.length_take_le k vals)
    rw [List.getElem?_take_of_lt hlt] at hget
    obtain ⟨v, hv, hvalues⟩ := Option.map_eq_some_iff.mp (h.agrees j w hget (.inl hlt))
    obtain ⟨n, rfl⟩ := Int.eq_ofNat_of_zero_le (h.words w (List.mem_of_getElem? hget))
    refine ⟨n, rfl, v, ?_, (h.proper v (Array.mem_of_getElem? hv)).1, by rw [hvalues]; rfl⟩
    simp [Operand.lookup, hv]
  | literal x =>
    obtain ⟨n, hn⟩ := Int.eq_ofNat_of_zero_le (Int.emod_nonneg x (by decide : Word.card ≠ 0))
    have hword : Word.reduce x = n := hn
    refine ⟨n, (Option.some.inj ha).symm.trans hword, _, rfl, rfl, ?_⟩
    rw [← hword]
    rfl
  | entry n => simp [Operand.denote] at ha
  | blank => simp [Operand.denote] at ha

namespace Carries

/-- The words that are taken, one by one: each has its operand, and the operand is constant. -/
theorem operand (h : Carries initial vals k op ws t) (hpush : op.opcode.isPush = false)
    (hm : Progress initial vals k m.store) {i : Nat} (hi : (i : Int) < op.opcode.pops) :
    ∃ (a : Operand) (n : Nat), t.args[i]? = some a ∧ (taken op ws)[i]? = some (n : Int) ∧
      a.IsConst m.store n := by
  have hlength : i < (taken op ws).length := by
    have := h.enough
    rw [taken, List.length_take]
    omega
  have hargs := congrArg (·[i]?) (h.args hpush (Opcode.not_isMissing_of_mem_table _ h.mem))
  simp only [List.getElem?_map, List.getElem?_eq_getElem hlength, Option.map_some] at hargs
  obtain ⟨a, ha, hdenote⟩ := Option.map_eq_some_iff.mp hargs
  obtain ⟨n, hn, hconst⟩ := hm.isConst hdenote
  exact ⟨a, n, ha, by rw [List.getElem?_eq_getElem hlength, hn], hconst⟩

/-- The variable that receives the result is there. -/
theorem target (h : Carries initial vals k op ws t) (hm : Progress initial vals k m.store)
    (hpushes : op.opcode.pushes = 1) :
    ∃ b v, t.binding = some b ∧ m.store[b.target]? = some v := by
  obtain ⟨b, hb⟩ := Option.ne_none_iff_exists'.mp (h.bound hpushes)
  obtain ⟨htarget, w, hw, -⟩ := h.result b hb
  have hlt : b.target < m.store.size := by
    rw [htarget, hm.size]
    exact (List.getElem?_eq_some_iff.mp hw).1
  exact ⟨b, _, hb, Array.getElem?_eq_getElem hlt⟩

theorem exists_step_push (h : Carries initial vals k op ws t)
    (hm : Progress initial vals k m.store) (hpush : op.opcode.isPush = true) :
    ∃ m', m.step false t = .ok m' := by
  have hopcode : t.opcode.same .const = true := by
    rw [h.opcode, tacOpcode, if_pos hpush]
    rfl
  have harg : t.arg 0 = .ok (.literal op.word) := by
    rw [TacOp.arg, h.pushed hpush]
    rfl
  have hvalues : (Operand.literal op.word).values m.store = .ok (.single (Word.reduce op.word)) :=
    rfl
  obtain ⟨b, v, hb, hv⟩ := h.target hm (Opcode.Legal.push_counts (.inl h.mem) hpush).2
  obtain ⟨m', hm'⟩ := Machine.exists_assignResult hb hv (Word.reduce op.word)
  refine ⟨m', ?_⟩
  simp only [Machine.step, hopcode, if_true, harg, hvalues, bind, Except.bind]
  exact hm'

/-- **One operation.**  The pass finds what it needs. -/
theorem exists_step (h : Carries initial vals k op ws t) (hm : Progress initial vals k m.store) :
    ∃ m', m.step false t = .ok m' := by
  cases hpush : op.opcode.isPush with
  | true => exact h.exists_step_push hm hpush
  | false =>
    have hopcode := h.opcode
    rcases Opcode.pass_cases h.mem h.ready.plain hpush with
      ⟨⟨_, i, j⟩, hc, rfl, hcopy, hpushes, hi, hj, hself⟩ |
      ⟨⟨_, span, width⟩, hc, rfl, hpops, hself⟩ | hop | ⟨harith, hpushes, hself⟩ | hnot
    · obtain ⟨a, offset, ha, -, hoffset⟩ := h.operand hpush hm hi
      obtain ⟨b, length, hb, hword, hlength⟩ := h.operand hpush hm hj
      have hwrite := h.ready.copy _ hc rfl
      rw [← h.value hcopy hpushes, hword] at hwrite
      rw [Machine.step_copy (by rw [hopcode, hself]; exact hc)]
      exact Machine.exists_copyBytes ha hoffset hb hlength hwrite
    · obtain ⟨a, offset, ha, -, hoffset⟩ := h.operand hpush hm (i := 0) (by omega)
      obtain ⟨b, value, hb, hword, hvalue⟩ := h.operand hpush hm (i := 1) (by omega)
      have hwrite := h.ready.store _ hc rfl
      rw [hword] at hwrite
      rw [Machine.step_store (by rw [hopcode, hself]; exact hc)]
      exact Machine.exists_storeBytes ha hoffset hb hvalue hwrite
    · obtain ⟨a, slot, ha, -, hslot⟩ := h.operand hpush hm (i := 0) (by rw [hop]; decide)
      obtain ⟨b, value, hb, -, hvalue⟩ := h.operand hpush hm (i := 1) (by rw [hop]; decide)
      have hstep : m.step false t = m.storeSlot t := by
        unfold Machine.step
        rw [hopcode, hop]
        rfl
      rw [hstep]
      exact Machine.exists_storeSlot ha hslot hb hvalue
    · rw [hself] at hopcode
      obtain ⟨b, v, hb, hv⟩ := h.target hm hpushes
      have hargs : t.args.mapM (·.values m.store) = .ok ((taken op ws).map .single) := by
        refine mapM_eq_ok ?_
        rw [hm.agrees.map_values (h.args hpush (Opcode.not_isMissing_of_mem_table _ h.mem)),
          List.map_map]
        rfl
      rw [Machine.step_arithmetic (by rw [hopcode]; exact h.mem) (by rw [hopcode]; exact harith)]
      exact Machine.exists_compute hb hv hargs (by rw [hopcode]; exact h.ready.arith harith)
    · exact ⟨m, Machine.step_of_not_carriedOut (by rwa [hopcode]) false⟩

end Carries

/-- What is known of the variables grows with each operation. -/
theorem Progress.step (hm : Progress initial vals k m.store) (h : Carries initial vals k op ws t)
    (hstep : m.step false t = .ok m') :
    Progress initial vals (k + t.target?.toList.length) m'.store where
  size := by
    have hnames := congrArg List.length (Machine.revises_of_step hstep).names
    simp only [variableNames, List.length_map, Array.length_toList] at hnames
    rw [hnames, hm.size]
  words := hm.words
  proper := (Machine.revises_of_step hstep).proper hm.proper
  agrees := step_agrees (.inl h.mem) h.toReads hm.agrees hstep

end Carries

/-! ## 3. The plan -/

/-- Operations that the pass can carry out one after the other, the first when `k` variables have
their words and the last of them leaving `k'` with theirs. -/
inductive Plan (initial : Store) (vals : List Int) : Nat → List TacOp → Nat → Prop
  | nil {k} : Plan initial vals k [] k
  | idle {k t ts k'} (hopcode : ¬ t.opcode.IsCarriedOut) (hbinding : t.binding = none)
      (rest : Plan initial vals k ts k') : Plan initial vals k (t :: ts) k'
  | carry {k op ws t ts k'} (carries : Carries initial vals k op ws t)
      (rest : Plan initial vals (k + t.target?.toList.length) ts k') :
      Plan initial vals k (t :: ts) k'

section Plan

variable {initial : Store} {vals : List Int} {k k' : Nat} {ts : List TacOp}

/-- **The pass.**  It carries out a plan to the end. -/
theorem Plan.run (h : Plan initial vals k ts k') :
    ∀ {m : Machine}, Progress initial vals k m.store →
      ∃ m', m.run false ts = (m', none) ∧ Progress initial vals k' m'.store := by
  induction h with
  | nil => exact fun hm => ⟨_, rfl, hm⟩
  | idle hopcode _ _ ih =>
    intro m hm
    obtain ⟨m', hrun, hm'⟩ := ih hm
    refine ⟨m', ?_, hm'⟩
    simp only [Machine.run, Machine.step_of_not_carriedOut hopcode, hrun]
  | carry carries _ ih =>
    intro m hm
    obtain ⟨m₁, hstep⟩ := carries.exists_step hm
    obtain ⟨m', hrun, hm'⟩ := ih (hm.step carries hstep)
    refine ⟨m', ?_, hm'⟩
    simp only [Machine.run, hstep, hrun]

end Plan

end StackMachine

namespace StackMachine

section Converts

variable {block : Nat} {S S' : Store} {stack stack' : Stack Operand} {op : PlacedOp}
  {tac : Option TacOp} {vals ws : List Int}

/-- An idle operation drops what there is of the words it takes. -/
theorem models_of_idles (h : Converts block S stack op S' stack' tac)
    (hidle : Idles op.toTraceOp) (hmem : op.opcode ∈ Opcode.table) (hmodels : Models vals stack ws) :
    S' = S ∧ Models vals stack' (next op.toTraceOp ws) ∧
      ∀ t ∈ tac, t.opcode = tacOpcode op.opcode ∧ t.binding = none := by
  obtain ⟨hacts, hpushes, -⟩ := hidle
  have hnext : next op.toTraceOp ws = ws.drop op.opcode.pops.toNat := by
    rw [next_of_acts hacts, results, if_pos hpushes, List.nil_append]
  cases h with
  | swap hop => exact absurd hacts.1 (by simp [hop])
  | dup _ hop => exact absurd hacts.2.1 (by simp [hop])
  | drop _ _ hop => exact absurd hacts.2.2 (by simp [hop])
  | bind _ _ hkind => exact absurd (resultKind_eq_none_iff.mpr hpushes) hkind
  | act _ hargs _ =>
    refine ⟨rfl, ?_, by rintro t ⟨rfl⟩; exact ⟨rfl, rfl⟩⟩
    rw [hnext]
    unfold operands at hargs
    split at hargs
    · rename_i hconst
      have hpush : op.opcode.isPush = false := Bool.eq_false_iff.mpr fun hpush =>
        hpushes (Opcode.Legal.push_counts (.inl hmem) hpush).2
      simp [hpush, Opcode.not_isMissing_of_mem_table _ hmem] at hconst
    · obtain ⟨rfl, rfl⟩ := Prod.mk.inj (Except.ok.inj hargs)
      exact ⟨by rw [(Stack.moves_popMany _ _).keeps.maxSize, hmodels.room],
        by rw [Stack.items_popMany, List.map_drop, hmodels.items, List.map_drop]⟩

/-- What the conversion keeps of the records of an operation. -/
theorem record_of_converts (h : Converts block S stack op S' stack' tac) {t : TacOp}
    (ht : t ∈ tac) : (op.opcode.isCopy = true → op.opcode.pushes ≠ 1 → t.value = op.value) ∧
      (op.opcode.pushes = 1 → t.binding ≠ none) := by
  cases h with
  | swap | dup | drop => simp at ht
  | act _ _ hkind =>
    obtain rfl := Option.mem_some_iff.mp ht
    exact ⟨fun hcopy _ => by simp [hcopy],
      fun hpushes => absurd hpushes (resultKind_eq_none_iff.mp hkind)⟩
  | bind _ _ hkind =>
    obtain rfl := Option.mem_some_iff.mp ht
    exact ⟨fun _ hpushes => absurd (pushes_of_resultKind hkind) hpushes, fun _ => by simp⟩

theorem nonneg_of_results {op : TraceOp} {args : List Int} {w : Int}
    (h : results op args = [w]) : 0 ≤ w := by
  have hword : ∀ x, 0 ≤ Word.reduce x := fun x => Int.emod_nonneg x (by decide)
  rw [results, if_neg (not_not.mpr (pushes_of_results h))] at h
  split at h
  · rw [← (List.cons.inj h).1, ← reduce_arithmetic]
    exact hword _
  · rw [← (List.cons.inj h).1]
    exact hword _

/-- The words that one operation adds are words. -/
theorem nonneg_of_converts (h : Converts block S stack op S' stack' tac) {new : List Int}
    (hsize : vals.length = S.size) (hsize' : (vals ++ new).length = S'.size)
    (hreads : ∀ t ∈ tac, Reads S' (vals ++ new) S.size op.toTraceOp ws t) : ∀ w ∈ new, 0 ≤ w := by
  rw [List.length_append, hsize] at hsize'
  rcases h.target with ⟨-, hsame⟩ | ⟨htarget, hmore⟩
  · obtain rfl : new = [] := List.eq_nil_of_length_eq_zero (by omega)
    simp
  · obtain ⟨t, ht, htarget⟩ := Option.bind_eq_some_iff.mp htarget
    obtain ⟨b, hb, -⟩ := Option.map_eq_some_iff.mp htarget
    obtain ⟨-, w, hw, hresults, -⟩ := (hreads t ht).result b hb
    obtain ⟨x, rfl⟩ := List.length_eq_one_iff.mp (by omega : new.length = 1)
    have hx : x = w := by simpa [← hsize] using hw
    simpa [hx] using nonneg_of_results hresults

/-- **One operation of the trace** leaves one that the pass can carry out or need not. -/
theorem exists_plan_step (h : Converts block S stack op S' stack' tac)
    (hfeasible : Feasible op.toTraceOp ws) (hmodels : Models vals stack ws)
    (hsize : vals.length = S.size) (hwords : ∀ w ∈ vals, 0 ≤ w) :
    ∃ new, (vals ++ new).length = S'.size ∧ (∀ w ∈ vals ++ new, 0 ≤ w) ∧
      Models (vals ++ new) stack' (next op.toTraceOp ws) ∧
      ∀ t ∈ tac, (¬ t.opcode.IsCarriedOut ∧ t.binding = none) ∨
        Carries S' (vals ++ new) S.size op.toTraceOp ws t := by
  obtain ⟨hmem, -, ⟨hpops, hfits, hready⟩ | hidle⟩ := hfeasible
  · obtain ⟨new, hsize', hmodels', hreads⟩ :=
      converts_models h (.inl hmem) hmodels hsize hpops hfits
    have hnew := nonneg_of_converts h hsize hsize' hreads
    refine ⟨new, hsize', ?_, hmodels', fun t ht => .inr ?_⟩
    · exact List.forall_mem_append.mpr ⟨hwords, hnew⟩
    · obtain ⟨hvalue, hbound⟩ := record_of_converts h ht
      exact ⟨hreads t ht, hmem, hpops, hready, hvalue, hbound⟩
  · obtain ⟨rfl, hmodels', hrecord⟩ := models_of_idles h hidle hmem hmodels
    refine ⟨[], by simpa using hsize, by simpa using hwords, by simpa using hmodels', ?_⟩
    intro t ht
    obtain ⟨hopcode, hbinding⟩ := hrecord t ht
    exact .inl ⟨hopcode ▸ hidle.2.2, hbinding⟩

end Converts

/-- An operation can still be carried out when more variables are bound. -/
theorem Carries.mono {S S' : Store} {vals vals' : List Int} {k : Nat} {op : TraceOp}
    {ws : List Int} {t : TacOp} (h : Carries S vals k op ws t) (hk : k ≤ vals.length)
    (hvals : vals <+: vals')
    (hstore : ∀ (j : Nat) (v : Variable), S[j]? = some v → S'[j]? = some v) :
    Carries S' vals' k op ws t :=
  { h with toReads := h.toReads.mono hk hvals hstore }

/-- **The plan.**  If the symbolic stacks of all frames stand for stacks of words on which the
operations are feasible, the conversion leaves a plan. -/
theorem plan_of_run {frameOf : Nat → Nat} {S S' : Store} {stackOf stackOf' : Nat → Stack Operand}
    {ops : List PlacedOp} {tacs : List TacOp} (h : Run frameOf S stackOf ops S' stackOf' tacs) :
    ∀ {wordsOf : Nat → List Int} {vals : List Int},
      FeasibleFrom wordsOf (ops.map fun op => (frameOf op.place.loc, op.toTraceOp)) →
      vals.length = S.size → (∀ w ∈ vals, 0 ≤ w) → (∀ f, Models vals (stackOf f) (wordsOf f)) →
      ∃ vals', vals <+: vals' ∧ vals'.length = S'.size ∧ (∀ w ∈ vals', 0 ≤ w) ∧
        Plan S' vals' S.size tacs S'.size := by
  induction h with
  | nil => exact fun _ hsize hwords _ => ⟨_, List.prefix_refl _, hsize, hwords, .nil⟩
  | @cons block S stackOf op ops S₁ stack₁ tac S' stackOf' tacs hop hrun ih =>
    rintro wordsOf vals ⟨hfeasible, hrest⟩ hsize hwords hmodels
    obtain ⟨new, hsize₁, hwords₁, hmodels₁, hstep⟩ :=
      exists_plan_step hop hfeasible (hmodels _) hsize hwords
    have hprefix := List.prefix_append vals new
    obtain ⟨vals', hvals', hsize', hwords', hplan⟩ := ih hrest hsize₁ hwords₁ (by
      -- the frame of the operation moves on, and the others keep what they stand for
      intro f
      by_cases hf : f = frameOf op.place.loc
      · subst hf
        rw [Function.update_self, Function.update_self]
        exact hmodels₁
      · rw [Function.update_of_ne hf, Function.update_of_ne hf]
        exact (hmodels f).mono hprefix)
    refine ⟨vals', hprefix.trans hvals', hsize', hwords', ?_⟩
    rw [hop.size] at hplan
    cases tac with
    | none => exact hplan
    | some t =>
      rcases hstep t rfl with ⟨hopcode, hbinding⟩ | hcarries
      · refine .idle hopcode hbinding ?_
        simpa [TacOp.target?, hbinding] using hplan
      · have hbound : S.size ≤ (vals ++ new).length := by
          rw [List.length_append, hsize]
          exact Nat.le_add_right ..
        exact .carry (hcarries.mono hbound hvals' fun _ _ => run_store_grows hrun) hplan

end StackMachine

/-! ## 4. The graph -/

namespace Graph

/-- Carrying out the operations of blocks in a row carries out the blocks, if none has an empty
place. -/
theorem runBlocks_of_run {useSets : Bool} {m' : Machine} : ∀ {bs : List Block} {m : Machine},
    (∀ b ∈ bs, b.gap = false) → m.run useSets (bs.map (·.ops)).flatten = (m', none) →
    runBlocks useSets m bs = (m', none)
  | [], _, _, h => h
  | b :: bs, m, hgap, h => by
    obtain ⟨hb, hbs⟩ := List.forall_mem_cons.mp hgap
    rw [List.map_cons, List.flatten_cons, Machine.run_append_eq_none_iff] at h
    obtain ⟨m₁, hm₁, hrest⟩ := h
    simp only [runBlocks, hm₁, hb, Bool.false_eq_true, if_false]
    exact runBlocks_of_run hbs hrest

/-- A conversion and a pass make a graph. -/
theorem exists_ofTraceBlocks {bs : List TraceBlock} {c : Conversion} {ts : List TacBlock}
    {m : Machine} (hconvert : convertBlocks {} bs = .ok (c, ts))
    (hpass : Machine.run false { store := c.store } (ts.flatMap (·.ops)) = (m, none)) :
    ∃ g, ofTraceBlocks bs = .ok g := by
  have hcontent := content_numberBlocks (ts.mapIdx fun i t => ofTacBlock c.frames i t) 0
  have hgap : ∀ b ∈ numberBlocks 0 (ts.mapIdx fun i t => ofTacBlock c.frames i t),
      b.gap = false := by
    have hall := map_eq_of_content hcontent (f := Block.gap) (k := fun _ => false) (fun _ => rfl)
      fun _ _ => rfl
    intro b hb
    obtain ⟨_, -, heq⟩ := List.mem_map.mp (hall ▸ List.mem_map_of_mem (f := Block.gap) hb)
    exact heq.symm
  have hrun : runBlocks false { store := c.store }
      (numberBlocks 0 (ts.mapIdx fun i t => ofTacBlock c.frames i t)) = (m, none) := by
    refine runBlocks_of_run hgap ?_
    rw [← Machine.run_map_unnumbered, unnumbered_of_content hcontent, Machine.run_map_unnumbered,
      hpass]
  simp only [ofTraceBlocks, hconvert, bind, Except.bind, apply, map_snd_members, hrun]
  exact ⟨_, rfl⟩

end Graph

/-- The operations of the blocks are steps of the trace, each in its frame. -/
theorem Frame.map_blocksOf (t : Frame) :
    ((blocksOf t.ops).flatMap (·.ops)).map (fun op => (t.frameAt op.place.loc, op.toTraceOp)) <+:
      t.steps.map fun s => (s.frame, s.op) := by
  refine List.prefix_iff_getElem?.mpr fun i hi => ?_
  rw [List.length_map] at hi
  obtain ⟨hloc, s, hs, htrace, hframe⟩ := t.follow i _ (List.getElem?_eq_getElem hi)
  rw [Nat.zero_add] at hloc hs hframe
  rw [List.getElem?_map, hs, List.getElem_map, hloc, hframe, htrace]
  rfl

section Feasible

variable {t : Frame}
  (ht : t.WellNested (fun prev => ¬ prev.Halting) (fun last _ => last.Halting))
  (hfeasible : FeasibleFrom (fun _ => []) (t.steps.map fun s => (s.frame, s.op)))

include ht hfeasible

/-- A feasible run is converted. -/
theorem exists_conversion (hpcs : ∀ op ∈ t.ops, 0 ≤ op.pc) :
    ∃ c ts, convertBlocks {} (blocksOf t.ops) = .ok (c, ts) := by
  have hops : ∀ op ∈ t.ops, op.opcode.Legal ∧ op.Recorded := by
    intro op hop
    obtain ⟨s, hs, rfl⟩ := List.mem_map.mp (t.map_op_steps ▸ hop)
    exact (hfeasible.of_mem _ (List.mem_map_of_mem hs)).imp_left .inl
  have hblocks : ∀ b ∈ blocksOf t.ops, ∀ op ∈ b.ops, op.toTraceOp ∈ t.ops :=
    fun b hb op hop => toTraceOp_mem_of_mem_blocksOf hb hop
  cases hconvert : convertBlocks {} (blocksOf t.ops) with
  | ok r => exact ⟨r.1, r.2, rfl⟩
  | error e =>
    have hschedule := ht.schedule fun last resume hhalts hcontinues => hcontinues.2 hhalts
    obtain ⟨-, b, hb, op, hop, hneg⟩ := error_of_convertBlocks hschedule .start
      (fun b hb op hop => hops _ (hblocks b hb op hop)) hconvert
    have := hpcs _ (hblocks b hb op hop)
    omega

/-- The pass over the conversion of a feasible run reaches the end, and finds all words. -/
theorem exists_pass {c : Conversion} {ts : List TacBlock}
    (hconvert : convertBlocks {} (blocksOf t.ops) = .ok (c, ts)) :
    ∃ m vals, Machine.run false { store := c.store } (ts.flatMap (·.ops)) = (m, none) ∧
      Progress c.store vals vals.length m.store := by
  obtain ⟨stackOf, stackOf', hempty, hrun⟩ := run_of_wellNested ht hconvert
  obtain ⟨rest, hrest⟩ := t.map_blocksOf
  rw [← hrest] at hfeasible
  have hmodels : ∀ f, Models [] (stackOf f) [] := by
    intro f
    obtain ⟨d, hd⟩ := hempty f
    rw [hd]
    exact ⟨rfl, rfl⟩
  obtain ⟨vals, -, hsize, hwords, hplan⟩ :=
    plan_of_run hrun hfeasible.front rfl (by simp) hmodels
  have hproper : ∀ v ∈ c.store, v.Proper :=
    extends_proper.convertBlocks (c := {}) (fun v hv => absurd hv (by simp)) hconvert
  obtain ⟨m, hpass, hm⟩ :=
    hplan.run (m := { store := c.store }) ⟨hsize.symm, hwords, hproper, .start _ _⟩
  rw [Machine.run_fromTrace (nop_of_convertBlocks hconvert)] at hpass
  exact ⟨m, vals, hpass, hsize ▸ hm⟩

/-- **A feasible run has a graph**, in which every result has one value. -/
theorem exists_graph (hpcs : ∀ op ∈ t.ops, 0 ≤ op.pc) :
    ∃ g, Graph.ofTrace t.ops = .ok g ∧ ∀ op ∈ g.ops, ∀ b ∈ op.binding,
      ∃ v w, g.machine.store[b.target]? = some v ∧ v.values = .single w := by
  obtain ⟨c, ts, hconvert⟩ := exists_conversion ht hfeasible hpcs
  obtain ⟨m, vals, hpass, hm⟩ := exists_pass ht hfeasible hconvert
  obtain ⟨g, hg⟩ := Graph.exists_ofTraceBlocks hconvert hpass
  refine ⟨g, hg, fun op hop b hb => ?_⟩
  -- the pass that made the graph is the one that reached the end
  obtain ⟨c', ts', hconvert', hmade⟩ := Graph.madeFrom_of_ofTrace hg
  obtain ⟨rfl, rfl⟩ := Prod.mk.inj (Except.ok.inj (hconvert.symm.trans hconvert'))
  obtain rfl : m = g.machine := congrArg Prod.fst (hpass.symm.trans hmade.pass)
  have hlt : b.target < vals.length := by
    rw [← hm.size]
    exact ((Graph.readable_of_ofTrace hg).within hop).target _ (by rw [TacOp.target?, hb]; rfl)
  have hget := List.getElem?_eq_getElem hlt
  obtain ⟨v, hv, hvalues⟩ := Option.map_eq_some_iff.mp (hm.agrees _ _ hget (.inl hlt))
  exact ⟨v, _, hv, hvalues⟩

end Feasible

end TraceLift
