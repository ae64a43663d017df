/-
# Arithmetic on unknown operands

Where one operand of an arithmetic operation can be anything, nothing is known of the result.  The
lattice says so: `ValueSet.lift` gives `top` exactly if one of the sets is `top`
(`lift_eq_top_iff`), whatever the others are, the empty set included.

`Variable.arith` does not pass this on.  It builds a variable from the MEMBERS of the lifted set,
and `top` has none that could be listed, so it fails.  `Variable.meet` and `Variable.join`, which
build variables from sets in the same way, have a case of their own for `top`.

The failure is one of its own kind.  No arithmetic function fails with it
(`Arith.eval_ne_topEnumerated`), so it shows that an operand was unknown, and for known operands the
variable is the one that the lattice gives.  `arith_unknown_iff` puts this together.
-/
import TraceLift.Opcode.Basic
import TraceLift.Proofs.Computations
import TraceLift.Variable

namespace TraceLift

/-! ## 1. The lattice -/

namespace ValueSet

theorem lists?_eq_none_iff {l : List ValueSet} : lists? l = none ↔ top ∈ l := by
  induction l with
  | nil => simp [lists?]
  | cons a l ih =>
    cases a with
    | top => simp [lists?]
    | finite s => simp [lists?, ih]

variable {f : List Int → Except Fault Int} {l : List ValueSet}

/-- **Unknown arguments give an unknown result**, and nothing else does. -/
theorem lift_eq_top_iff : lift f l = .ok top ↔ top ∈ l := by
  rw [← lists?_eq_none_iff, lift]
  cases lists? l with
  | none => simp
  | some ls =>
    simp only [reduceCtorEq, iff_false]
    cases (tuples ls).mapM f <;> simp [Functor.map, Except.map, ofList]

/-- Lifting fails only where the function does. -/
theorem lift_eq_error {e : Fault} (h : lift f l = .error e) : ∃ t, f t = .error e := by
  rw [lift] at h
  split at h
  · exact absurd h (by simp)
  · rename_i ls _
    cases hresults : (tuples ls).mapM f with
    | ok ys =>
      rw [hresults] at h
      exact absurd h (by simp [Functor.map, Except.map])
    | error e' =>
      rw [hresults] at h
      obtain rfl : e' = e := Except.error.inj h
      obtain ⟨t, -, ht⟩ := mapM_eq_error hresults
      exact ⟨t, ht⟩

end ValueSet

/-! ## 2. The functions -/

/-- **No function complains about unknown operands**: what it is given are integers. -/
theorem Arith.eval_ne_topEnumerated (f : Arith) (t : List Int) :
    f.eval t ≠ .error .topEnumerated := by
  have hexp : ∀ b e, Word.exp b e ≠ .error .topEnumerated := by
    intro b e
    unfold Word.exp
    repeat' split
    all_goals simp
  have hextend : ∀ b v, Word.signExtend b v ≠ .error .topEnumerated := by
    intro b v
    unfold Word.signExtend
    dsimp only
    repeat' split
    all_goals simp
  have hbyte : ∀ b v, Word.byteAt b v ≠ .error .topEnumerated := by
    intro b v
    unfold Word.byteAt
    split <;> simp
  unfold eval
  split <;> simp [hexp, hextend, hbyte]

/-- There is a function for every arithmetic opcode. -/
theorem Arith.exists_ofName {op : Opcode} (hop : op ∈ Opcode.table)
    (harith : op.isArithmetic = true) : ∃ f, ofName op.name = .ok f := by
  have hall : ∀ op ∈ Opcode.table, op.isArithmetic = true →
      (ofName op.name).toOption.isSome = true := by decide +kernel
  have hsome := hall op hop harith
  cases hname : ofName op.name with
  | ok f => exact ⟨f, rfl⟩
  | error e => simp [hname, Except.toOption] at hsome

/-! ## 3. Variables -/

namespace Variable

/-- A named variable with the values of a set, known or not: what `meet` and `join` build. -/
def ofResult (name : String) (values : ValueSet) : Variable :=
  { ofSet values Sites.bottom with name }

variable {fn : String} {f : Arith} {args : List ValueSet}

theorem evalSets_eq (hfn : Arith.ofName fn = .ok f) :
    evalSets fn args = ValueSet.lift f.eval args := by
  simp only [evalSets, hfn]

/-- An arithmetic operation with an unknown operand fails. -/
theorem arith_of_top (hfn : Arith.ofName fn = .ok f) (htop : .top ∈ args) (name : String) :
    arith fn args name = .error .topEnumerated := by
  simp only [arith, evalSets_eq hfn, ValueSet.lift_eq_top_iff.mpr htop]
  rfl

/-- An arithmetic operation on known operands gives the variable of the lifted set. -/
theorem arith_of_known (hfn : Arith.ofName fn = .ok f) (hknown : .top ∉ args) (name : String) :
    arith fn args name = (evalSets fn args).map (ofResult name) := by
  simp only [arith]
  cases hvalues : evalSets fn args with
  | error e => rfl
  | ok values =>
    cases values with
    | top =>
      rw [evalSets_eq hfn, ValueSet.lift_eq_top_iff] at hvalues
      exact absurd hvalues hknown
    | finite s => rfl

theorem ne_topEnumerated_of_known (hfn : Arith.ofName fn = .ok f) (hknown : .top ∉ args)
    (name : String) : arith fn args name ≠ .error .topEnumerated := by
  rw [arith_of_known hfn hknown]
  intro herror
  cases hvalues : evalSets fn args with
  | ok values => simp [hvalues, Except.map] at herror
  | error e =>
    obtain rfl : e = .topEnumerated := by simpa [hvalues, Except.map] using herror
    rw [evalSets_eq hfn] at hvalues
    obtain ⟨t, ht⟩ := ValueSet.lift_eq_error hvalues
    exact f.eval_ne_topEnumerated t ht

theorem top_mem_values_iff {vs : List Variable} :
    .top ∈ vs.map (·.values) ↔ ∃ v ∈ vs, v.isTop = true := by
  rw [List.mem_map]
  refine exists_congr fun v => and_congr_right fun _ => ?_
  cases hvalues : v.values <;> simp [isTop, ValueSet.isTop, hvalues]

end Variable

/-- **Arithmetic on unknown operands.**  For every arithmetic opcode and all variables: the lattice
gives the unknown set exactly if one of them is unknown, and exactly then the operation fails, with
the fault of listing that set.  The operation gives the variable with the values of the lifted set
if and only if none of the variables is unknown. -/
theorem arith_unknown_iff {op : Opcode} (hop : op ∈ Opcode.table) (harith : op.isArithmetic = true)
    (args : List Variable) (name : String) :
    (Variable.evalSets op.name (args.map (·.values)) = .ok .top ↔ ∃ v ∈ args, v.isTop = true) ∧
    (Variable.arith op.name (args.map (·.values)) name = .error .topEnumerated ↔
      ∃ v ∈ args, v.isTop = true) ∧
    (Variable.arith op.name (args.map (·.values)) name =
        (Variable.evalSets op.name (args.map (·.values))).map (Variable.ofResult name) ↔
      ∀ v ∈ args, v.isTop = false) := by
  obtain ⟨f, hf⟩ := Arith.exists_ofName hop harith
  have hlift : Variable.evalSets op.name (args.map (·.values)) = .ok .top ↔
      ∃ v ∈ args, v.isTop = true := by
    rw [Variable.evalSets_eq hf, ValueSet.lift_eq_top_iff, Variable.top_mem_values_iff]
  refine ⟨hlift, ?_⟩
  by_cases hunknown : ∃ v ∈ args, v.isTop = true
  · have hfails := Variable.arith_of_top hf (Variable.top_mem_values_iff.mpr hunknown) name
    refine ⟨⟨fun _ => hunknown, fun _ => hfails⟩, fun hsame => ?_, fun hknown => ?_⟩
    · rw [hfails, hlift.mpr hunknown] at hsame
      exact absurd hsame (by simp [Except.map])
    · obtain ⟨v, hv, htop⟩ := hunknown
      rw [hknown v hv] at htop
      exact absurd htop Bool.false_ne_true
  · have hknown := mt Variable.top_mem_values_iff.mp hunknown
    refine ⟨⟨fun hfails => ?_, fun h => absurd h hunknown⟩, fun _ v hv => ?_, fun _ => ?_⟩
    · exact absurd hfails (Variable.ne_topEnumerated_of_known hf hknown name)
    · exact Bool.eq_false_iff.mpr fun htop => hunknown ⟨v, hv, htop⟩
    · exact Variable.arith_of_known hf hknown name

/-- An unknown variable, one without values and a constant. -/
def mixedOperands : List Variable :=
  [.top "V0" .bottom, .bottom "V1" .bottom, .ofValues [5] "V2" .bottom]

theorem addmod_mixedOperands :
    Opcode.addmod ∈ Opcode.table ∧ Opcode.addmod.isArithmetic = true ∧
      (mixedOperands.length : Int) = Opcode.addmod.pops ∧
      Variable.evalSets "ADDMOD" (mixedOperands.map (·.values)) = .ok .top ∧
      Variable.arith "ADDMOD" (mixedOperands.map (·.values)) "V3" = .error .topEnumerated := by
  have hop : Opcode.addmod ∈ Opcode.table := by decide +kernel
  have harith : Opcode.addmod.isArithmetic = true := by decide
  obtain ⟨hlift, hfails, -⟩ := arith_unknown_iff hop harith mixedOperands "V3"
  have hunknown : ∃ v ∈ mixedOperands, v.isTop = true :=
    ⟨.top "V0" .bottom, List.mem_cons_self, rfl⟩
  exact ⟨hop, harith, rfl, hlift.mpr hunknown, hfails.mpr hunknown⟩

/-- The sum of an unknown variable and one is unknown; there is no variable for it. -/
theorem not_unknown_sum :
    Variable.evalSets "ADD" [.top, .ofList [1]] = .ok .top ∧
      Variable.arith "ADD" [.top, .ofList [1]] "Res" = .error .topEnumerated ∧
      ¬ ∀ op ∈ Opcode.table, op.isArithmetic = true →
        ∀ (args : List Variable) (name : String), (args.length : Int) = op.pops →
          (∃ v ∈ args, v.isTop = true) →
          ∃ v, Variable.arith op.name (args.map (·.values)) name = .ok v ∧ v.isTop = true := by
  have hfails : Variable.arith "ADD" [.top, .ofList [1]] "Res" = .error .topEnumerated := rfl
  refine ⟨rfl, hfails, fun h => ?_⟩
  obtain ⟨v, hv, -⟩ := h .add (by decide +kernel) (by decide)
    [.top "V0" .bottom, .ofValues [1] "V1" .bottom] "Res" rfl
    ⟨.top "V0" .bottom, List.mem_cons_self, rfl⟩
  exact absurd (hfails.symm.trans hv) (by simp)

end TraceLift
