/-
# Arithmetic on sets of words

A variable has a finite set of possible values, all of them words.  An arithmetic operation on such
variables is carried out for every choice of one value from each of them, so the values of the
result should be exactly what the machine leaves for some choice.  They are (`arith_values_eq`), and
there is a result: none of the choices makes the function fail.

* **Choices.**  The tuples that are formed are the lists that take one member from each set
  (`mem_tuples`), and these are words (`exists_words_of_mem_tuples`).
* **Lifting** (`arith_of_evals`).  If a function has a result for every choice, then the lifted one
  has a result, and its values are the results reduced to words.

What the function does to one choice is the subject of `computes_machineFunctions`.
-/
import Mathlib.Data.List.Forall2
import Mathlib.Tactic.Choose
import TraceLift.Proofs.Folding
import TraceLift.Proofs.MachineWords

namespace TraceLift

/-! ## 1. Choices -/

/-- The possible values of a variable are known, and all of them are words. -/
def Variable.HoldsWords (v : Variable) : Prop :=
  ∃ s, v.values = .finite s ∧ ∀ x ∈ s, 0 ≤ x ∧ x < Word.card

theorem Variable.holdsWords_ofValues (l : List Int) (name : String) (sites : Sites) :
    (ofValues l name sites).HoldsWords := by
  refine ⟨_, rfl, fun x hx => ?_⟩
  obtain ⟨i, -, rfl⟩ := List.mem_map.mp (IntSet.mem_ofList.mp hx)
  have hcard : 0 < Word.card := by decide
  exact ⟨Int.emod_nonneg i (Int.ne_of_gt hcard), Int.emod_lt_of_pos i hcard⟩

/-- The words are one possible value of each variable. -/
def Chosen (ws : List MachineWord) (args : List Variable) : Prop :=
  List.Forall₂ (fun w v => v.values.Mem w.toNat) ws args

namespace ValueSet

instance (x : Int) : (a : ValueSet) → Decidable (a.Mem x)
  | top => .isTrue trivial
  | finite s => inferInstanceAs (Decidable (x ∈ s))

theorem mem_tuples {t : List Int} {ls : List (List Int)} :
    t ∈ tuples ls ↔ List.Forall₂ (· ∈ ·) t ls := by
  induction ls generalizing t with
  | nil => simp [tuples]
  | cons l ls ih =>
    simp only [tuples, List.mem_flatMap, List.mem_map, ih, List.forall₂_cons_right_iff]
    constructor
    · rintro ⟨x, hx, rest, hrest, rfl⟩
      exact ⟨x, rest, hx, hrest, rfl⟩
    · rintro ⟨x, rest, hx, hrest, rfl⟩
      exact ⟨x, hx, rest, hrest, rfl⟩

theorem lists?_finite (ss : List IntSet) :
    lists? (ss.map finite) = some (ss.map (·.toList)) := by
  induction ss with
  | nil => rfl
  | cons s ss ih => simp [lists?, ih]

theorem lift_finite {f : List Int → Except Fault Int} {result : List Int → Int} {ss : List IntSet}
    (h : ∀ t ∈ tuples (ss.map (·.toList)), f t = .ok (result t)) :
    lift f (ss.map finite) = .ok (ofList ((tuples (ss.map (·.toList))).map result)) := by
  have hall : (tuples (ss.map (·.toList))).mapM f =
      .ok ((tuples (ss.map (·.toList))).map result) := by
    refine mapM_eq_ok ?_
    rw [List.map_map]
    exact List.map_congr_left h
  simp only [lift, lists?_finite, hall]
  rfl

end ValueSet

open ValueSet

theorem Word.exists_toNat_eq {x : Int} (h : 0 ≤ x ∧ x < card) : ∃ w : MachineWord, w.toNat = x := by
  refine ⟨.ofInt 256 x, ?_⟩
  rw [← reduce_eq]
  exact Int.emod_eq_of_lt h.1 h.2

theorem exists_words_of_mem_tuples {ss : List IntSet} {t : List Int}
    (hwords : ∀ s ∈ ss, ∀ x ∈ s, 0 ≤ x ∧ x < Word.card) (ht : t ∈ tuples (ss.map (·.toList))) :
    ∃ ws : List MachineWord, ws.map (fun w => (w.toNat : Int)) = t := by
  rw [mem_tuples, List.forall₂_map_right_iff] at ht
  induction ht with
  | nil => exact ⟨[], rfl⟩
  | cons hx _ ih =>
    obtain ⟨hs, hss⟩ := List.forall_mem_cons.mp hwords
    obtain ⟨w, rfl⟩ := Word.exists_toNat_eq (hs _ hx)
    obtain ⟨ws, rfl⟩ := ih hss
    exact ⟨w :: ws, rfl⟩

/-- The sets of values of some variables. -/
theorem exists_sets {args : List Variable} (h : ∀ v ∈ args, v.HoldsWords) :
    ∃ ss : List IntSet, args.map (·.values) = ss.map .finite ∧
      ∀ s ∈ ss, ∀ x ∈ s, 0 ≤ x ∧ x < Word.card := by
  induction args with
  | nil => exact ⟨[], rfl, by simp⟩
  | cons v args ih =>
    obtain ⟨⟨s, hv, hs⟩, hargs⟩ := List.forall_mem_cons.mp h
    obtain ⟨ss, hvalues, hss⟩ := ih hargs
    refine ⟨s :: ss, by simp [hv, hvalues], List.forall_mem_cons.mpr ⟨hs, hss⟩⟩

theorem chosen_iff_mem_tuples {ws : List MachineWord} {args : List Variable} {ss : List IntSet}
    (h : args.map (·.values) = ss.map .finite) :
    Chosen ws args ↔ ws.map (fun w => (w.toNat : Int)) ∈ tuples (ss.map (·.toList)) := by
  rw [mem_tuples, List.forall₂_map_left_iff, List.forall₂_map_right_iff, Chosen,
    ← List.forall₂_map_right_iff (f := Variable.values), h, List.forall₂_map_right_iff]
  rfl

/-! ## 2. Lifting -/

/-- **Lifting.** -/
theorem arith_of_evals {fn : String} (name : String) {f : Arith} {ss : List IntSet}
    (hfn : Arith.ofName fn = .ok f)
    (h : ∀ t ∈ tuples (ss.map (·.toList)), ∃ x, f.eval t = .ok x) :
    ∃ v s, Variable.arith fn (ss.map .finite) name = .ok v ∧ v.name = name ∧ v.values = .finite s ∧
      ∀ x, x ∈ s ↔ ∃ t ∈ tuples (ss.map (·.toList)), ∃ y, f.eval t = .ok y ∧ Word.reduce y = x := by
  choose! result hresult using h
  have hvalues := lift_finite hresult
  generalize tuples (ss.map (·.toList)) = choices at *
  refine ⟨.ofValues (IntSet.ofList (choices.map result)).toList name .bottom, _, ?_, rfl, rfl, ?_⟩
  · simp only [Variable.arith, Variable.evalSets, hfn, hvalues]
    rfl
  · intro x
    rw [IntSet.mem_ofList, List.mem_map]
    constructor
    · rintro ⟨y, hy, hx⟩
      obtain ⟨t, ht, rfl⟩ := List.mem_map.mp (IntSet.mem_ofList.mp hy)
      exact ⟨t, ht, _, hresult t ht, hx⟩
    · rintro ⟨t, ht, y, hy, hx⟩
      obtain rfl := Except.ok.inj ((hresult t ht).symm.trans hy)
      exact ⟨_, IntSet.mem_ofList.mpr (List.mem_map_of_mem ht), hx⟩

/-- The opcode table has an operation with as many operands for each function. -/
theorem exists_opcode_machineFunctions :
    ∀ p ∈ machineFunctions, ∃ op ∈ Opcode.table, op.name = p.1 ∧ op.pops = p.2.arity := by
  decide +kernel

/-- **Lifted arithmetic.**  Each function of the machine is an opcode with as many operands, and for
all variables whose values are words, as many as it takes, the operation has a result.  The values
of the result are exactly the words that the function gives for some choice of one value of each
variable. -/
theorem arith_values_eq {fn : String} {g : WordFn} (hfn : (fn, g) ∈ machineFunctions) :
    (∃ op ∈ Opcode.table, op.name = fn ∧ op.pops = g.arity) ∧
      ∀ (args : List Variable) (name : String), args.length = g.arity →
        (∀ v ∈ args, v.HoldsWords) →
        ∃ v s, Variable.arith fn (args.map (·.values)) name = .ok v ∧ v.name = name ∧
          v.values = .finite s ∧
          ∀ x, x ∈ s ↔ ∃ ws w, Chosen ws args ∧ g.apply ws = some w ∧ x = w.toNat := by
  refine ⟨exists_opcode_machineFunctions _ hfn, fun args name harity hwords => ?_⟩
  obtain ⟨f, hf, hcomputes⟩ := computes_machineFunctions _ hfn
  obtain ⟨ss, hvalues, hss⟩ := exists_sets hwords
  -- every choice has a result, since it is a choice of words
  have heval : ∀ ws, Chosen ws args → ∃ w x, g.apply ws = some w ∧
      f.eval (ws.map fun w => (w.toNat : Int)) = .ok x ∧ Word.reduce x = w.toNat :=
    fun ws hws => hcomputes.eval (hws.length_eq.trans harity)
  have htuple : ∀ t ∈ tuples (ss.map (·.toList)),
      ∃ ws, Chosen ws args ∧ ws.map (fun w => (w.toNat : Int)) = t := by
    intro t ht
    obtain ⟨ws, rfl⟩ := exists_words_of_mem_tuples hss ht
    exact ⟨ws, (chosen_iff_mem_tuples hvalues).mpr ht, rfl⟩
  obtain ⟨v, s, hv, hname, hs, hmem⟩ := arith_of_evals name hf fun t ht => by
    obtain ⟨ws, hws, rfl⟩ := htuple t ht
    obtain ⟨-, x, -, hx, -⟩ := heval ws hws
    exact ⟨x, hx⟩
  refine ⟨v, s, by rw [hvalues, hv], hname, hs, fun x => ?_⟩
  rw [hmem]
  constructor
  · rintro ⟨t, ht, y, hy, rfl⟩
    obtain ⟨ws, hws, rfl⟩ := htuple t ht
    obtain ⟨w, x, hw, hx, hreduce⟩ := heval ws hws
    obtain rfl := Except.ok.inj (hx.symm.trans hy)
    exact ⟨ws, w, hws, hw, hreduce⟩
  · rintro ⟨ws, w, hws, hw, rfl⟩
    obtain ⟨w', x, hw', hx, hreduce⟩ := heval ws hws
    obtain rfl := Option.some.inj (hw'.symm.trans hw)
    exact ⟨_, (chosen_iff_mem_tuples hvalues).mp hws, x, hx, hreduce⟩

/-- The least signed word, or seven. -/
def leastOrSeven : Variable := .ofValues [7, -(2 ^ 255)] "V0" .bottom

/-- Minus one, or zero. -/
def minusOneOrZero : Variable := .ofValues [-1, 0] "V1" .bottom

theorem arith_leastOrSeven : ∃ v s,
    Variable.arith "SDIV" ([leastOrSeven, minusOneOrZero].map (·.values)) "V2" = .ok v ∧
      v.values = .finite s ∧ ((BitVec.intMin 256).toNat : Int) ∈ s := by
  have hmem : ("SDIV", WordFn.binary fun l r =>
      if r = 0 then 0 else .ofInt 256 (l.toInt.tdiv r.toInt)) ∈ machineFunctions := by
    simp [machineFunctions]
  obtain ⟨-, hvalues⟩ := arith_values_eq hmem
  obtain ⟨v, s, hv, -, hs, hresults⟩ := hvalues [leastOrSeven, minusOneOrZero] "V2" rfl (by
    simp only [List.forall_mem_cons]
    exact ⟨Variable.holdsWords_ofValues .., Variable.holdsWords_ofValues .., by simp⟩)
  refine ⟨v, s, hv, hs, (hresults _).mpr ⟨[BitVec.intMin 256, -1], _, ?_, rfl, by decide +kernel⟩⟩
  exact .cons (by decide +kernel) (.cons (by decide +kernel) .nil)

end TraceLift
