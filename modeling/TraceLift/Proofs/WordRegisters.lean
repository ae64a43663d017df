/-
# Variables stay words

Whatever is done to variables, each of them is unknown or holds words only, and an operation that
fails changes none of them.

An operation runs through several steps, any of which can fail, and a failure takes nothing back
(`VariableOp.act`); so this rests on the order of the steps.  Every operation first READS
(`Reads`): it fetches variables and computes from them, which changes nothing and may fail.  Then it
WRITES once, which does not fail.  Reading and then acting in an orderly way is orderly
(`Reads.bind`), and all operations are built like that (`VariableOp.orderly`).

That words are written is a matter of where integers come from.

* Integers from outside, images under functions and results of arithmetic are reduced when a
  variable is made of them (`isWords_words`), and so are the members of meets and joins.
* Copies, and images of what is unknown, are variables that were there before; for these it is
  needed that the registers held words (`Reads` gives words for what was fetched).

The top element is no set of integers, so that it is reduced to nothing else.
-/
import TraceLift.Proofs.StackLattice
import TraceLift.VariableOps

namespace TraceLift

/-! ## 1. What the operations make -/

namespace Variable

variable {v w : Variable}

theorem isWords_copy (h : v.values.IsWords) : v.copy.values.IsWords := by
  unfold copy
  split
  · exact h
  · trivial
  · trivial

theorem isWords_ofImages (kind : VarKind) (images : List Int) :
    (ofImages kind images).values.IsWords := by
  cases kind with
  | plain => exact isWords_words images
  | standIn payload => trivial
  | misnamed integers => trivial

theorem isWords_tryMap {f : Int → Except Fault Int} (hv : v.values.IsWords)
    (h : v.tryMap f = .ok w) : w.values.IsWords := by
  unfold tryMap at h
  split at h
  · rwa [← Except.ok.inj h]
  · rename_i s _
    cases himages : s.toList.mapM f with
    | error e =>
      rw [himages] at h
      exact absurd h (by simp [Functor.map, Except.map])
    | ok images =>
      rw [himages] at h
      rw [← Except.ok.inj h]
      exact isWords_ofImages v.kind images

theorem isWords_assignSet {a : ValueSet} (h : v.assignSet a = .ok w) : w.values.IsWords := by
  unfold assignSet at h
  split at h
  · rename_i l _
    rw [← Except.ok.inj h]
    exact isWords_words l
  · exact absurd h (by simp)

theorem isWords_arith {fn name : String} {args : List ValueSet} (h : arith fn args name = .ok w) :
    w.values.IsWords := by
  unfold arith at h
  split at h
  · exact absurd h (by simp)
  · split at h
    · exact absurd h (by simp)
    · rename_i l _
      rw [← Except.ok.inj h]
      exact isWords_words l

theorem isWords_meetAll (l : List Variable) : (meetAll l).values.IsWords := by
  rcases l.eq_nil_or_concat' with rfl | ⟨l, v, rfl⟩
  · trivial
  · rw [meetAll, List.foldl_append]
    exact isWords_ofSet _ _

theorem isWords_joinAll (l : List Variable) : (joinAll l).values.IsWords := by
  rcases l.eq_nil_or_concat' with rfl | ⟨l, v, rfl⟩
  · exact isWords_words []
  · rw [joinAll, List.foldl_append]
    exact isWords_ofSet _ _

end Variable

/-! ## 2. Reading and writing -/

namespace Registers

/-- All variables, named or not, are unknown or hold words. -/
def Words (r : Registers Variable) : Prop := ∀ v ∈ r.cells, v.values.IsWords

/-- An action writes nothing, and what it gives has a property. -/
def Reads {β : Type} (x : Action Variable β) (P : β → Prop) : Prop :=
  ∀ r, r.Words → (perform x r).2 = r ∧ ∀ b, (perform x r).1 = .ok b → P b

/-- An action leaves words, and what it finds if it fails. -/
def Orderly (x : Action Variable Unit) : Prop :=
  ∀ r, r.Words → (perform x r).2.Words ∧ ∀ e, (perform x r).1 = .error e → (perform x r).2 = r

section Actions

variable {α β γ : Type} {x : Action Variable β} {P : β → Prop} {v : Variable}

theorem reads_fetch (name : String) : Reads (fetch name) (·.values.IsWords) := by
  intro r hr
  rw [perform_fetch]
  refine ⟨rfl, fun v hv => ?_⟩
  unfold get at hv
  split at hv
  · rename_i a ha
    obtain rfl := Except.ok.inj hv
    obtain ⟨i, -, hi⟩ := Option.bind_eq_some_iff.mp ha
    exact hr a (Array.mem_of_getElem? hi)
  · exact absurd hv (by simp)

theorem reads_ofExcept {result : Except Fault β} (h : ∀ b, result = .ok b → P b) :
    Reads (MonadExcept.ofExcept result) P := by
  intro r _
  rw [perform_ofExcept]
  exact ⟨rfl, h⟩

theorem reads_pure {b : β} (h : P b) : Reads (pure b) P := by
  intro r _
  rw [perform_pure]
  exact ⟨rfl, fun c hc => Except.ok.inj hc ▸ h⟩

/-- Where reading leads: it fails, or it goes on in the registers that it found. -/
theorem Reads.cases (hx : Reads x P) {r : Registers Variable} (hr : r.Words) :
    (∃ e, perform x r = (.error e, r)) ∨ ∃ b, P b ∧ perform x r = (.ok b, r) := by
  obtain ⟨hsame, hP⟩ := hx r hr
  cases hresult : perform x r with
  | mk result r' =>
    rw [hresult] at hsame hP
    obtain rfl : r' = r := hsame
    cases result with
    | error e => exact .inl ⟨e, rfl⟩
    | ok b => exact .inr ⟨b, hP b rfl, rfl⟩

theorem Reads.bind {k : β → Action Variable γ} {Q : γ → Prop} (hx : Reads x P)
    (hk : ∀ b, P b → Reads (k b) Q) : Reads (x >>= k) Q := by
  intro r hr
  rcases hx.cases hr with ⟨e, he⟩ | ⟨b, hb, hx⟩
  · rw [perform_bind_error he]
    exact ⟨rfl, fun c hc => absurd hc (by simp)⟩
  · rw [perform_bind_ok hx]
    exact hk b hb r hr

theorem Reads.mapM {f : α → Action Variable β} (hf : ∀ a, Reads (f a) P) (l : List α) :
    Reads (l.mapM f) fun _ => True := by
  induction l with
  | nil =>
    rw [List.mapM_nil]
    exact reads_pure trivial
  | cons a l ih =>
    rw [List.mapM_cons]
    exact (hf a).bind fun b _ => ih.bind fun bs _ => reads_pure trivial

/-- **Reading first.**  What is orderly stays so if something is read before. -/
theorem Reads.orderly {k : β → Action Variable Unit} (hx : Reads x P)
    (hk : ∀ b, P b → Orderly (k b)) : Orderly (x >>= k) := by
  intro r hr
  rcases hx.cases hr with ⟨e, he⟩ | ⟨b, hb, hx⟩
  · rw [perform_bind_error he]
    exact ⟨hr, fun _ _ => rfl⟩
  · rw [perform_bind_ok hx]
    exact hk b hb r hr

theorem Words.put {r : Registers Variable} (hr : r.Words) (name : String)
    (hv : v.values.IsWords) : (r.put name v).Words := by
  intro w hw
  rcases Array.mem_push.mp hw with hw | rfl
  · exact hr w hw
  · exact hv

theorem Words.update {r : Registers Variable} (hr : r.Words) (name : String)
    (hv : v.values.IsWords) : (r.update name v).Words := by
  unfold Registers.update
  split
  · intro w hw
    rcases Array.mem_or_eq_of_mem_setIfInBounds hw with hw | rfl
    · exact hr w hw
    · exact hv
  · exact hr.put name hv

/-- Writing does not fail. -/
theorem orderly_store (name : String) (hv : v.values.IsWords) : Orderly (store name v) := by
  intro r hr
  rw [perform_store]
  exact ⟨hr.put name hv, fun e he => absurd he (by simp)⟩

theorem orderly_overwrite (name : String) (hv : v.values.IsWords) :
    Orderly (overwrite name v) := by
  intro r hr
  rw [perform_overwrite]
  exact ⟨hr.update name hv, fun e he => absurd he (by simp)⟩

end Actions

end Registers

/-! ## 3. The operations -/

namespace VariableOp

open Registers

/-- **One operation** leaves words, and what it finds if it fails. -/
theorem orderly (op : VariableOp) : Orderly op.act := by
  cases op with
  | ofValues target values name sites => exact orderly_store target (Variable.isWords_words values)
  | top target name sites => exact orderly_store target trivial
  | standIn target name payload sites => exact orderly_store target trivial
  | assign target values =>
    refine (reads_fetch target).orderly fun v _ => ?_
    exact orderly_overwrite target (Variable.isWords_words values)
  | assignFrom target source =>
    refine (reads_fetch target).orderly fun v _ => (reads_fetch source).orderly fun w _ => ?_
    refine (reads_ofExcept fun _ => Variable.isWords_assignSet).orderly fun v' hv' => ?_
    exact orderly_overwrite target hv'
  | widen target =>
    refine (reads_fetch target).orderly fun v _ => ?_
    exact orderly_overwrite target trivial
  | meet target left right =>
    refine (reads_fetch left).orderly fun v _ => (reads_fetch right).orderly fun w _ => ?_
    exact orderly_store target (Variable.isWords_ofSet _ _)
  | join target left right =>
    refine (reads_fetch left).orderly fun v _ => (reads_fetch right).orderly fun w _ => ?_
    exact orderly_store target (Variable.isWords_ofSet _ _)
  | meetAll target sources =>
    refine (Reads.mapM reads_fetch sources).orderly fun l _ => ?_
    exact orderly_store target (Variable.isWords_meetAll l)
  | joinAll target sources =>
    refine (Reads.mapM reads_fetch sources).orderly fun l _ => ?_
    exact orderly_store target (Variable.isWords_joinAll l)
  | map target source f =>
    -- an unknown variable is its own image, so its being words is used here
    refine (reads_fetch source).orderly fun v hv => ?_
    refine (reads_ofExcept fun _ => Variable.isWords_tryMap hv).orderly fun w hw => ?_
    exact orderly_store target hw
  | arith target function args =>
    refine (Reads.mapM reads_fetch args).orderly fun l _ => ?_
    refine (reads_ofExcept fun _ => Variable.isWords_arith).orderly fun w hw => ?_
    exact orderly_store target hw
  | copy target source =>
    refine (reads_fetch source).orderly fun v hv => ?_
    exact orderly_store target (Variable.isWords_copy hv)

/-- **A run of operations**, of which some may fail, leaves words. -/
theorem words_run {r : Registers Variable} (hr : r.Words) (ops : List VariableOp) :
    (run r ops).Words := by
  induction ops generalizing r with
  | nil => exact hr
  | cons op ops ih => exact ih (op.orderly r hr).1

end VariableOp

/-- **Variables stay words.**  After any operations on variables, made in any order from no variable
at all and whether they succeeded or failed, every variable is unknown or all its values are words;
and a further operation that fails leaves the registers, and so every variable, as they were. -/
theorem variables_stay_words (ops : List VariableOp) :
    (∀ v ∈ (VariableOp.run {} ops).cells, v.values.IsWords) ∧
    ∀ (op : VariableOp) (e : Fault),
      (Registers.perform op.act (VariableOp.run {} ops)).1 = .error e →
      (Registers.perform op.act (VariableOp.run {} ops)).2 = VariableOp.run {} ops := by
  have hwords : (VariableOp.run {} ops).Words := by
    refine VariableOp.words_run ?_ ops
    intro v hv
    exact absurd hv (Array.not_mem_empty v)
  refine ⟨hwords, ?_⟩
  intro op e he
  exact (op.orderly _ hwords).2 e he

/-- Integers outside the range of words, a stand-in that is given their words and then mapped, and
the sum of the first variable with the result, which is unknown. -/
def outOfRange : List VariableOp :=
  [.ofValues "a" [-1, Word.card + 3] "V0" .bottom, .standIn "b" "S0" (some 0) .bottom,
    .assignFrom "b" "a", .map "c" "b" fun x => .ok (x * x), .arith "d" "ADD" ["a", "c"]]

theorem outOfRange_stays_words :
    (∀ v ∈ (VariableOp.run {} outOfRange).cells, v.values.IsWords) ∧
    (VariableOp.run {} outOfRange).cells.map (·.values) =
      #[.ofList [3, Word.card - 1], .ofList [3, Word.card - 1], .top] ∧
    (Registers.perform (VariableOp.assignFrom "a" "c").act (VariableOp.run {} outOfRange)).1 =
      .error .topEnumerated ∧
    (Registers.perform (VariableOp.assignFrom "a" "c").act (VariableOp.run {} outOfRange)).2 =
      VariableOp.run {} outOfRange := by
  obtain ⟨hwords, hunchanged⟩ := variables_stay_words outOfRange
  have hfails : (Registers.perform (VariableOp.assignFrom "a" "c").act
      (VariableOp.run {} outOfRange)).1 = .error .topEnumerated := rfl
  exact ⟨hwords, by decide +kernel, hfails, hunchanged _ _ hfails⟩

end TraceLift
