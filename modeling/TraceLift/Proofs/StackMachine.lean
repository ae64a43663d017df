/-
# A stack machine for traces, and the conversion as its symbolic form

The machine of this module runs a trace on integers, one stack to a frame.  A push leaves the
recorded word, `DUPn` and `SWAPn` rearrange the top of the stack, an arithmetic operation leaves
its function of the words it takes, and any other operation that leaves one word leaves the
recorded one.

The conversion does the same on variables.  So if a word is given to each variable, the symbolic
stacks are those of the machine (`Models`), as long as no operation takes from below the bottom or
pushes beyond the capacity, where a symbolic stack makes up an item or drops one.

* **Stack operations** on lists: with enough items and enough room, the symbolic operations are
  `duplicate`, `exchange`, `take` and `drop`.
* **One operation** (`converts_models`).  The word of the variable that it binds is the one that
  the machine pushes.
* **The run** (`run_explained`).  Every three-address operation is explained by a step of the trace:
  its operands stand for the words that the machine takes there.
-/
import TraceLift.Proofs.BlockSteps
import TraceLift.Proofs.Turns

namespace TraceLift

/-! ## 1. The machine -/

/-- The word recorded with an operation; zero if there is none. -/
def TraceOp.word (op : TraceOp) : Int := Word.reduce (op.value.getD 0)

namespace StackMachine

/-- `DUPn`: copies item `n`, counted from one at the top, onto the top. -/
def duplicate {α : Type} (n : Nat) (l : List α) : List α := l[n - 1]?.toList ++ l

/-- `SWAPn`: exchanges the top item with the one `n` places below it. -/
def exchange {α : Type} (n : Nat) (l : List α) : List α :=
  match l[0]?, l[n]? with
  | some a, some b => (l.set 0 b).set n a
  | _, _ => l

/-- The word that an arithmetic function gives; zero where it gives none. -/
def arithmetic (name : String) (args : List Int) : Int :=
  match Arith.ofName name with
  | .error _ => 0
  | .ok f =>
    match f.eval args with
    | .error _ => 0
    | .ok x => Word.reduce x

/-- The words that an operation takes, the top one first. -/
def taken (op : TraceOp) (stack : List Int) : List Int := stack.take op.opcode.pops.toNat

/-- The words that an operation leaves for those it takes. -/
def results (op : TraceOp) (args : List Int) : List Int :=
  if op.opcode.pushes ≠ 1 then []
  else if op.opcode.isArithmetic then [arithmetic op.opcode.name args]
  else [op.word]

/-- The stack after an operation. -/
def next (op : TraceOp) (stack : List Int) : List Int :=
  if op.opcode.isDup then duplicate (op.opcode.code - 0x7f).toNat stack
  else if op.opcode.isSwap then exchange (op.opcode.code - 0x8f).toNat stack
  else results op (taken op stack) ++ stack.drop op.opcode.pops.toNat

/-- The stacks of all frames after the steps of a trace. -/
def after (steps : List TraceStep) : Nat → List Int :=
  steps.foldl (fun stackOf s => Function.update stackOf s.frame (next s.op (stackOf s.frame)))
    fun _ => []

/-- The stack that a step finds, which is at a position of the trace. -/
def found (steps : List TraceStep) (i : Nat) (s : TraceStep) : List Int :=
  after (steps.take i) s.frame

/-- No step takes from an empty stack, and none leaves more than 1024 words. -/
def Fits (steps : List TraceStep) : Prop :=
  ∀ (i : Nat) (s : TraceStep), steps[i]? = some s →
    s.op.opcode.pops.toNat ≤ (found steps i s).length ∧
      (next s.op (found steps i s)).length ≤ 1024

instance (steps : List TraceStep) : Decidable (Fits steps) :=
  decidable_of_iff (∀ i < steps.length, ∀ s ∈ steps[i]?,
      s.op.opcode.pops.toNat ≤ (found steps i s).length ∧
        (next s.op (found steps i s)).length ≤ 1024)
    ⟨fun h i s hs => h i (List.getElem?_eq_some_iff.mp hs).1 s hs, fun h i _ s hs => h i s hs⟩

theorem after_take_succ {steps : List TraceStep} {i : Nat} {s : TraceStep}
    (h : steps[i]? = some s) :
    after (steps.take (i + 1)) =
      Function.update (after (steps.take i)) s.frame (next s.op (found steps i s)) := by
  rw [List.take_add_one, h, after, List.foldl_append]
  rfl

theorem duplicate_map {α β : Type} (f : α → β) (n : Nat) (l : List α) :
    duplicate n (l.map f) = (duplicate n l).map f := by
  cases h : l[n - 1]? <;> simp [duplicate, h]

theorem exchange_map {α β : Type} (f : α → β) (n : Nat) (l : List α) :
    exchange n (l.map f) = (exchange n l).map f := by
  simp only [exchange, List.getElem?_map]
  cases l[0]? with
  | none => rfl
  | some a => cases l[n]? <;> simp [List.map_set]

end StackMachine

/-! ## 2. Symbolic stacks with enough items and enough room -/

namespace Stack

open StackMachine

variable {α : Type}

theorem exists_exchanged {n : Nat} {l : List α} (hn : 0 < n) (h : n + 1 ≤ l.length) :
    ∃ a mid b tail, n = mid.length + 1 ∧ l = a :: (mid ++ b :: tail) := by
  cases l with
  | nil => simp at h
  | cons a rest =>
    have hlt : n - 1 < rest.length := by
      rw [List.length_cons] at h
      omega
    refine ⟨a, rest.take (n - 1), rest[n - 1], rest.drop n, ?_, ?_⟩
    · rw [List.length_take]
      omega
    · have hdrop := List.drop_eq_getElem_cons hlt
      rw [Nat.sub_add_cancel hn] at hdrop
      rw [← hdrop, List.take_append_drop]

variable [StackItem α]

theorem dup_eq (s : Stack α) {n : Nat} (hn : 0 < n) (hitems : n ≤ s.items.length)
    (hroom : s.HasRoom 1) : s.dup n = .ok { s with items := duplicate n s.items } := by
  have hlast : (s.items.take n).getLast? = some s.items[n - 1] := by
    rw [List.getLast?_eq_getElem?, List.length_take, Nat.min_eq_left hitems,
      List.getElem?_take_of_lt (by omega), List.getElem?_eq_getElem (by omega)]
  have hcopy : copyLast (s.popMany n).1 = some (s.items[n - 1] :: s.items.take n) := by
    rw [popMany_eq n s hitems, copyLast, hlast, Option.map_some]
  rw [dup, rearrange_eq hcopy, popMany_eq n s hitems]
  · simp [duplicate, List.getElem?_eq_getElem (show n - 1 < s.items.length by omega)]
  · rw [HasRoom] at hroom ⊢
    rw [popMany_eq n s hitems]
    simp only [List.length_drop, List.length_cons, List.length_take]
    omega

theorem swap_eq (s : Stack α) {n : Nat} (hn : 0 < n) (hitems : n + 1 ≤ s.items.length)
    (hroom : s.HasRoom 0) : s.swap (n + 1) = .ok { s with items := exchange n s.items } := by
  obtain ⟨a, mid, b, tail, rfl, hsplit⟩ := exists_exchanged hn hitems
  have hitems' : s.items = (a :: (mid ++ [b])) ++ tail := by simp [hsplit]
  have hpop : s.popMany (mid.length + 1 + 1) =
      (a :: (mid ++ [b]), { s with items := tail }) := by
    rw [popMany_eq _ s hitems, hitems', List.take_left' (by simp), List.drop_left' (by simp)]
  have hexchange : exchangeEnds (s.popMany (mid.length + 1 + 1)).1 = some (b :: (mid ++ [a])) := by
    rw [hpop, exchangeEnds, ← List.cons_append, List.getLast?_concat]
    simp
  rw [swap, rearrange_eq hexchange, hpop]
  · simp [exchange, hsplit]
  · rw [HasRoom, hsplit] at hroom
    rw [HasRoom, hpop]
    simp only [List.length_cons, List.length_append, List.length_nil] at hroom ⊢
    omega

end Stack

/-! ## 3. Symbolic stacks and stacks of words -/

/-- The word that an operand stands for, given the words of the variables. -/
def Operand.denote (vals : List Int) : Operand → Option Int
  | var k => vals[k]?
  | literal w => some (Word.reduce w)
  | entry _ => none
  | blank => none

theorem Operand.denote_mono {vals vals' : List Int} (h : vals <+: vals') {a : Operand} {w : Int}
    (ha : a.denote vals = some w) : a.denote vals' = some w := by
  cases a with
  | var k => exact getElem?_of_isPrefix h ha
  | literal w' => exact ha
  | entry n => simp [denote] at ha
  | blank => simp [denote] at ha

theorem map_denote_mono {vals vals' : List Int} (h : vals <+: vals') {l : List Operand}
    {ws : List Int} (hl : l.map (·.denote vals) = ws.map some) :
    l.map (·.denote vals') = ws.map some := by
  rw [← hl]
  refine List.map_congr_left fun a ha => ?_
  obtain ⟨w, -, hw⟩ := List.mem_map.mp (hl ▸ List.mem_map_of_mem ha : a.denote vals ∈ ws.map some)
  rw [Operand.denote_mono h hw.symm, hw]

namespace StackMachine

/-- A symbolic stack stands for a stack of words, and has the usual capacity. -/
structure Models (vals : List Int) (s : Stack Operand) (ws : List Int) : Prop where
  room : s.maxSize = 1024
  items : s.items.map (·.denote vals) = ws.map some

namespace Models

variable {vals vals' : List Int} {s s' : Stack Operand} {ws : List Int}

theorem length (h : Models vals s ws) : s.items.length = ws.length := by
  simpa using congrArg List.length h.items

theorem mono (hvals : vals <+: vals') (h : Models vals s ws) : Models vals' s ws :=
  ⟨h.room, map_denote_mono hvals h.items⟩

/-- What depends on the places of the items alone is done to the words as well. -/
theorem map_items {k : ∀ α : Type, List α → List α}
    (hk : ∀ {α β : Type} (f : α → β) (l : List α), k β (l.map f) = (k α l).map f)
    (h : Models vals s ws) : Models vals { s with items := k Operand s.items } (k Int ws) :=
  ⟨h.room, by rw [← hk, h.items, hk]⟩

theorem popMany (h : Models vals s ws) {n : Nat} (hn : n ≤ ws.length) :
    (s.popMany n).1.map (·.denote vals) = (ws.take n).map some ∧
      Models vals (s.popMany n).2 (ws.drop n) := by
  rw [Stack.popMany_eq n s (by rw [h.length]; exact hn)]
  refine ⟨?_, h.map_items (k := fun _ => List.drop n) fun _ _ => List.map_drop.symm⟩
  rw [List.map_take, h.items, List.map_take]

theorem push (h : Models vals s ws) {a : Operand} {w : Int} (ha : a.denote vals = some w)
    (hroom : ws.length < 1024) : Models vals (s.push a) (w :: ws) := by
  rw [Stack.push, if_pos (by rw [h.length, h.room]; omega)]
  exact ⟨h.room, by rw [List.map_cons, ha, h.items, List.map_cons]⟩

theorem hasRoom (h : Models vals s ws) {k : Nat} (hk : ws.length + k ≤ 1024) : s.HasRoom k := by
  rw [Stack.HasRoom, h.length, h.room]
  omega

theorem dup (h : Models vals s ws) {n : Nat} (hn : 0 < n) (hitems : n ≤ ws.length)
    (hroom : (duplicate n ws).length ≤ 1024) (hdup : s.dup n = .ok s') :
    Models vals s' (duplicate n ws) := by
  have hlength : (duplicate n ws).length = ws.length + 1 := by
    rw [duplicate, List.getElem?_eq_getElem (by omega)]
    simp
  rw [s.dup_eq hn (by rw [h.length]; exact hitems) (h.hasRoom (by omega))] at hdup
  rw [← Except.ok.inj hdup]
  exact h.map_items (k := fun _ => duplicate n) fun f l => duplicate_map f n l

theorem swap (h : Models vals s ws) {n : Nat} (hn : 0 < n) (hitems : n + 1 ≤ ws.length)
    (hroom : (exchange n ws).length ≤ 1024) (hswap : s.swap (n + 1) = .ok s') :
    Models vals s' (exchange n ws) := by
  have hlength : (exchange n ws).length = ws.length := by
    unfold exchange
    split <;> simp
  rw [s.swap_eq hn (by rw [h.length]; exact hitems) (h.hasRoom (by omega))] at hswap
  rw [← Except.ok.inj hswap]
  exact h.map_items (k := fun _ => exchange n) fun f l => exchange_map f n l

end Models

end StackMachine

/-! ## 4. One operation -/

/-- The set of one value. -/
def ValueSet.single (w : Int) : ValueSet := ValueSet.ofList [w]

namespace StackMachine

open Conversion

/-- A three-address operation comes from an operation that finds a stack of words, when `k`
variables have been bound: its operands stand for the words taken, and its result, if it has one,
is variable `k` and stands for the word left.  What the trace recorded is in the store already. -/
structure Reads (store : Store) (vals : List Int) (k : Nat) (op : TraceOp) (ws : List Int)
    (t : TacOp) : Prop where
  opcode : t.opcode = tacOpcode op.opcode
  pc : t.pc = op.pc
  pushed : op.opcode.isPush = true → t.args = [.literal op.word]
  args : op.opcode.isPush = false → op.opcode.isMissing = false →
    t.args.map (·.denote (vals.take k)) = (taken op ws).map some
  result : ∀ b ∈ t.binding, b.target = k ∧ ∃ w, vals[k]? = some w ∧ results op (taken op ws) = [w] ∧
    (resultKind op.opcode = .known →
      store[k]?.map (·.values) = some (.single w))

/-- An operation goes on reading the same words when more variables are bound. -/
theorem Reads.mono {store store' : Store} {vals vals' : List Int} {k : Nat} {op : TraceOp}
    {ws : List Int} {t : TacOp} (h : Reads store vals k op ws t) (hk : k ≤ vals.length)
    (hvals : vals <+: vals')
    (hstore : ∀ (j : Nat) (v : Variable), store[j]? = some v → store'[j]? = some v) :
    Reads store' vals' k op ws t where
  opcode := h.opcode
  pc := h.pc
  pushed := h.pushed
  args := by
    obtain ⟨rest, rfl⟩ := hvals
    rw [List.take_append_of_le_length hk]
    exact h.args
  result := by
    intro b hb
    obtain ⟨htarget, w, hw, hresults, hknown⟩ := h.result b hb
    refine ⟨htarget, w, getElem?_of_isPrefix hvals hw, hresults, fun hkind => ?_⟩
    obtain ⟨v, hv, hvalues⟩ := Option.map_eq_some_iff.mp (hknown hkind)
    rw [hstore k v hv, Option.map_some, hvalues]

theorem recorded_eq_word {op : TraceOp} {w : Int} (h : recorded op = .ok w) : w = op.word := by
  unfold recorded at h
  split at h
  · rename_i v hv
    rw [← Except.ok.inj h, TraceOp.word, hv]
    rfl
  · exact absurd h (by simp)

variable {block : Nat} {store store' : Store} {stack stack' : Stack Operand} {op : PlacedOp}
  {tac : Option TacOp} {vals ws : List Int}

/-- The operands of an operation stand for the words that the machine takes. -/
theorem operands_models {op : TraceOp} (hlegal : op.opcode.Legal) {args : List Operand}
    (h : operands stack op = .ok (args, stack')) (hmodels : Models vals stack ws)
    (hpops : op.opcode.pops.toNat ≤ ws.length) :
    Models vals stack' (ws.drop op.opcode.pops.toNat) ∧
      (op.opcode.isPush = true → args = [.literal op.word]) ∧
      (op.opcode.isPush = false → op.opcode.isMissing = false →
        args.map (·.denote vals) = (taken op ws).map some) := by
  unfold operands at h
  split at h
  · rename_i hconst
    rw [Bool.or_eq_true] at hconst
    have hnone : op.opcode.pops = 0 := by
      rcases hconst with hpush | hmissing
      · exact (hlegal.push_counts hpush).1
      · exact (hlegal.missing_counts hmissing).1
    split at h
    · rename_i w hw
      obtain ⟨rfl, rfl⟩ := Prod.mk.inj (Except.ok.inj h)
      refine ⟨by simpa [hnone] using hmodels, fun _ => by rw [recorded_eq_word hw], ?_⟩
      intro hpush hmissing
      simp [hpush, hmissing] at hconst
    · exact absurd h (by simp)
  · rename_i hplain
    obtain ⟨hargs, hrest⟩ := hmodels.popMany hpops
    obtain ⟨rfl, rfl⟩ := Prod.mk.inj (Except.ok.inj h)
    refine ⟨hrest, fun hpush => ?_, fun _ _ => hargs⟩
    simp [hpush] at hplain

theorem reduce_reduce (w : Int) : Word.reduce (Word.reduce w) = Word.reduce w :=
  Int.emod_emod_of_dvd _ (Int.dvd_refl _)

theorem reduce_word (op : TraceOp) : Word.reduce op.word = op.word := reduce_reduce _

/-- A recorded result is not computed. -/
theorem not_isArithmetic_of_known {opcode : Opcode} (hlegal : opcode.Legal)
    (h : resultKind opcode = .known) : opcode.isArithmetic = false := by
  have hall : ∀ op ∈ Opcode.table, resultKind op = .known → op.isArithmetic = false := by
    decide +kernel
  cases harith : opcode.isArithmetic with
  | false => rfl
  | true =>
    have := hall opcode (hlegal.mem_table_of_family (.inr (.inr (.inr harith)))) h
    rw [harith] at this
    exact absurd this (by simp)

/-- The value of a recorded result is in the store when the result is bound. -/
theorem values_of_known {number block : Nat} {op : TraceOp} {v : Variable}
    (hkind : resultKind op.opcode = .known) (h : resultVariable number block op = .ok v) :
    v.values = .single op.word := by
  simp only [resultVariable, hkind] at h
  split at h
  · rename_i w hw
    rw [← Except.ok.inj h, recorded_eq_word hw]
    simp [Variable.ofValues, Variable.words, reduce_word, ValueSet.single]
  · exact absurd h (by simp)

theorem next_of_acts {op : TraceOp} (h : Acts op.opcode) (ws : List Int) :
    next op ws = results op (taken op ws) ++ ws.drop op.opcode.pops.toNat := by
  simp [next, h.1, h.2.1]

/-- **One operation.**  The conversion moves symbolic stacks as the machine moves words, once the
variable it binds, if any, is given the word that the machine leaves. -/
theorem converts_models (h : Converts block store stack op store' stack' tac)
    (hlegal : op.opcode.Legal) (hmodels : Models vals stack ws) (hsize : vals.length = store.size)
    (hpops : op.opcode.pops.toNat ≤ ws.length) (hfits : (next op.toTraceOp ws).length ≤ 1024) :
    ∃ new, (vals ++ new).length = store'.size ∧
      Models (vals ++ new) stack' (next op.toTraceOp ws) ∧
      ∀ t ∈ tac, Reads store' (vals ++ new) store.size op.toTraceOp ws t := by
  cases h with
  | swap hop hstack =>
    obtain ⟨hcount, hpos⟩ := hlegal.swap_counts hop
    have hdup : op.opcode.isDup = false := by
      simp only [Opcode.isSwap, Opcode.isDup, Bool.and_eq_true, decide_eq_true_eq] at hop ⊢
      simp only [Bool.and_eq_false_iff, decide_eq_false_iff_not]
      omega
    have hnext : next op.toTraceOp ws = exchange (op.opcode.code - 0x8f).toNat ws := by
      simp [next, hdup, hop]
    rw [hcount] at hstack hpops
    rw [hnext] at hfits ⊢
    refine ⟨[], by simpa using hsize, ?_, by simp⟩
    rw [List.append_nil]
    exact hmodels.swap hpos hpops hfits hstack
  | dup _ hop hstack =>
    obtain ⟨hcount, hpos⟩ := hlegal.dup_counts hop
    have hnext : next op.toTraceOp ws = duplicate op.opcode.pops.toNat ws := by
      simp [next, hop, hcount]
    rw [hnext] at hfits ⊢
    refine ⟨[], by simpa using hsize, ?_, by simp⟩
    rw [List.append_nil]
    exact hmodels.dup hpos hpops hfits hstack
  | drop hswap hdup hop =>
    obtain ⟨hone, hnone⟩ := hlegal.pop_counts hop
    have hnext : next op.toTraceOp ws = ws.drop 1 := by
      simp [next, hswap, hdup, results, hone, hnone]
    rw [hnext]
    refine ⟨[], by simpa using hsize, ?_, by simp⟩
    rw [List.append_nil]
    exact (hmodels.popMany (by simpa [hone] using hpops)).2
  | act hop hargs hkind =>
    obtain ⟨hstack, hpushed, hread⟩ := operands_models hlegal hargs hmodels hpops
    have hresults : results op.toTraceOp (taken op.toTraceOp ws) = [] := by
      rw [results, if_pos (resultKind_eq_none_iff.mp hkind)]
    refine ⟨[], by simpa using hsize, ?_, ?_⟩
    · rw [List.append_nil, next_of_acts hop, hresults, List.nil_append]
      exact hstack
    · rintro t ⟨rfl⟩
      refine ⟨rfl, rfl, hpushed, ?_, by simp [tacOf]⟩
      rw [List.append_nil, ← hsize, List.take_length]
      exact hread
  | @bind args stack₁ v hop hargs hkind hv =>
    obtain ⟨hstack, hpushed, hread⟩ := operands_models hlegal hargs hmodels hpops
    have hpushes : ¬ op.opcode.pushes ≠ 1 := mt resultKind_eq_none_iff.mpr hkind
    obtain ⟨w, hw⟩ : ∃ w, results op.toTraceOp (taken op.toTraceOp ws) = [w] := by
      rw [results, if_neg hpushes]
      split <;> exact ⟨_, rfl⟩
    have hget : (vals ++ [w])[store.size]? = some w := by simp [← hsize]
    rw [next_of_acts hop, hw] at hfits ⊢
    refine ⟨[w], by simp [hsize], ?_, ?_⟩
    · refine (hstack.mono (List.prefix_append vals [w])).push hget ?_
      simp only [List.length_append, List.length_singleton] at hfits
      omega
    · rintro t ⟨rfl⟩
      refine ⟨rfl, rfl, hpushed, ?_, ?_⟩
      · rw [List.take_append_of_le_length (Nat.le_of_eq hsize.symm), ← hsize, List.take_length]
        exact hread
      · rintro b ⟨rfl⟩
        refine ⟨rfl, w, hget, hw, fun hknown => ?_⟩
        have harith := not_isArithmetic_of_known hlegal hknown
        have hword : w = op.toTraceOp.word := by
          rw [results, if_neg hpushes, harith] at hw
          exact (List.cons.inj hw).1.symm
        rw [Array.getElem?_push_size, Option.map_some, values_of_known hknown hv, hword]

/-! ## 5. The run -/

/-- Operations one after the other, each of them from a step of the trace, when `k` variables have
been bound before. -/
inductive Explained (steps : List TraceStep) (store : Store) (vals : List Int) :
    Nat → List TacOp → Prop
  | nil {k} : Explained steps store vals k []
  | cons {k t ts i s} (hloc : t.loc? = some i) (hstep : steps[i]? = some s)
      (reads : Reads store vals k s.op (found steps i s) t)
      (rest : Explained steps store vals (k + t.target?.toList.length) ts) :
      Explained steps store vals k (t :: ts)

/-- Placed operations are the steps of a trace from a position on. -/
def Follow (steps : List TraceStep) (frameOf : Nat → Nat) (i : Nat) (ops : List PlacedOp) : Prop :=
  ∀ (j : Nat) (op : PlacedOp), ops[j]? = some op → op.place.loc = i + j ∧
    ∃ s, steps[i + j]? = some s ∧ op.toTraceOp = s.op ∧ frameOf (i + j) = s.frame

theorem Follow.tail {steps : List TraceStep} {frameOf : Nat → Nat} {i : Nat} {op : PlacedOp}
    {ops : List PlacedOp} (h : Follow steps frameOf i (op :: ops)) :
    Follow steps frameOf (i + 1) ops := by
  intro j op' hop'
  rw [Nat.add_assoc, Nat.add_comm 1 j]
  exact h (j + 1) op' hop'

theorem run_store_grows {frameOf : Nat → Nat} {S S' : Store}
    {stackOf stackOf' : Nat → Stack Operand} {ops : List PlacedOp} {tacs : List TacOp}
    (h : Run frameOf S stackOf ops S' stackOf' tacs)
    {k : VarId} {v : Variable} (hv : S[k]? = some v) : S'[k]? = some v := by
  induction h with
  | nil => exact hv
  | cons hop _ ih => exact ih ((extends_getElem? _ _).converts hv hop)

/-- **The whole run.**  If the symbolic stacks of all frames stand for those of the machine at a
position, then words can be given to the variables bound from there on so that every operation is
explained. -/
theorem run_explained {steps : List TraceStep} (hfits : Fits steps) {frameOf : Nat → Nat}
    {S S' : Store} {stackOf stackOf' : Nat → Stack Operand} {ops : List PlacedOp}
    {tacs : List TacOp} (h : Run frameOf S stackOf ops S' stackOf' tacs) :
    ∀ (i : Nat) (vals : List Int), Follow steps frameOf i ops → (∀ op ∈ ops, op.opcode.Legal) →
      vals.length = S.size → (∀ f, Models vals (stackOf f) (after (steps.take i) f)) →
      ∃ vals', vals <+: vals' ∧ vals'.length = S'.size ∧ Explained steps S' vals' S.size tacs := by
  induction h with
  | nil => exact fun i vals _ _ hsize _ => ⟨vals, List.prefix_refl vals, hsize, .nil⟩
  | @cons block S stackOf op ops S₁ stack₁ tac S' stackOf' tacs hop hrun ih =>
    intro i vals hfollow hlegal hsize hmodels
    obtain ⟨hop_legal, hops_legal⟩ := List.forall_mem_cons.mp hlegal
    obtain ⟨hloc, s, hs, htrace, hframe⟩ := hfollow 0 op rfl
    rw [Nat.add_zero] at hloc hs hframe
    rw [hloc, hframe] at hop hrun ih
    obtain ⟨hpops, hroom⟩ := hfits i s hs
    rw [← htrace] at hpops hroom
    obtain ⟨new, hsize₁, hmodels₁, hreads⟩ :=
      converts_models hop hop_legal (hmodels s.frame) hsize hpops hroom
    have hprefix := List.prefix_append vals new
    obtain ⟨vals', hvals', hsize', hexplained⟩ := ih (i + 1) (vals ++ new) hfollow.tail hops_legal
      hsize₁ (by
        -- the frame of the operation moves on, and the others keep what they stand for
        intro f
        rw [after_take_succ hs]
        by_cases hf : f = s.frame
        · subst hf
          rw [Function.update_self, Function.update_self, ← htrace]
          exact hmodels₁
        · rw [Function.update_of_ne hf, Function.update_of_ne hf]
          exact (hmodels f).mono hprefix)
    refine ⟨vals', hprefix.trans hvals', hsize', ?_⟩
    rw [hop.size] at hexplained
    cases tac with
    | none => exact hexplained
    | some t =>
      have hplace : t.loc? = some i := by
        rw [TacOp.loc?, place_of_converts hop t rfl, Option.map_some, hloc]
      have hbound : S.size ≤ (vals ++ new).length := by
        rw [List.length_append, hsize]
        exact Nat.le_add_right ..
      have hread := (hreads t rfl).mono hbound hvals' fun _ _ => run_store_grows hrun
      rw [htrace] at hread
      exact .cons hplace hs hread hexplained

end StackMachine

end TraceLift
