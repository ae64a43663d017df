/-
# Lifting respects joins

A function of several integers is lifted to sets of values through all combinations of their
members.  To know less of one argument is then to know less of the result, and no more than that: if
an argument is the join of two sets, then the result is the join of the two results
(`lift_set_join`).

What makes this uniform is that the result can be said without a case for `top`.  A value is
possible for the result exactly if some argument is `top`, or if the function takes that value at
some choice of one member of each set (`exists_lift`).  Both halves of this split along a join at
one place:

* the arguments contain `top` exactly if they do with one of the two sets in that place
  (`top_mem_set_join`), also when another argument is empty and there is nothing to combine;
* a choice of members picks, in that place, a member of one of the two sets (`picks_set_join`).

That lifting is monotone in each argument follows, since `a` lies below `b` when `b` is their join.
-/
import TraceLift.Proofs.LiftedArithmetic
import TraceLift.Proofs.UnknownOperands
import TraceLift.Proofs.ValueLattice

namespace TraceLift.ValueSet

variable {f : List Int → Except Fault Int} {l : List ValueSet} {t : List Int} {i : Nat}
  {a b : ValueSet}

/-! ## 1. Choices -/

/-- The integers are one possible value from each set. -/
def Picks (t : List Int) (l : List ValueSet) : Prop := List.Forall₂ (fun x a => a.Mem x) t l

/-- A choice from sets with a join among them is a choice from one of the two. -/
theorem picks_set_join (hi : i < l.length) :
    Picks t (l.set i (a.join b)) ↔ Picks t (l.set i a) ∨ Picks t (l.set i b) := by
  induction l generalizing i t with
  | nil => exact absurd hi (Nat.not_lt_zero i)
  | cons c l ih =>
    cases i with
    | zero =>
      simp only [Picks, List.set_cons_zero, List.forall₂_cons_right_iff, mem_join]
      constructor
      · rintro ⟨x, rest, ha | hb, hrest, rfl⟩
        · exact .inl ⟨x, rest, ha, hrest, rfl⟩
        · exact .inr ⟨x, rest, hb, hrest, rfl⟩
      · rintro (⟨x, rest, ha, hrest, rfl⟩ | ⟨x, rest, hb, hrest, rfl⟩)
        · exact ⟨x, rest, .inl ha, hrest, rfl⟩
        · exact ⟨x, rest, .inr hb, hrest, rfl⟩
    | succ i =>
      have htail : ∀ rest, Picks rest (l.set i (a.join b)) ↔
          Picks rest (l.set i a) ∨ Picks rest (l.set i b) :=
        fun rest => ih (Nat.lt_of_succ_lt_succ hi)
      simp only [Picks] at htail
      simp only [Picks, List.set_cons_succ, List.forall₂_cons_right_iff, htail]
      constructor
      · rintro ⟨x, rest, hx, ha | hb, rfl⟩
        · exact .inl ⟨x, rest, hx, ha, rfl⟩
        · exact .inr ⟨x, rest, hx, hb, rfl⟩
      · rintro (⟨x, rest, hx, ha, rfl⟩ | ⟨x, rest, hx, hb, rfl⟩)
        · exact ⟨x, rest, hx, .inl ha, rfl⟩
        · exact ⟨x, rest, hx, .inr hb, rfl⟩

theorem join_eq_top_iff : a.join b = top ↔ a = top ∨ b = top := by
  cases a <;> cases b <;> simp [join]

theorem top_mem_set_join (hi : i < l.length) :
    top ∈ l.set i (a.join b) ↔ top ∈ l.set i a ∨ top ∈ l.set i b := by
  simp only [List.set_eq_take_append_cons_drop, if_pos hi, List.mem_append, List.mem_cons,
    eq_comm (a := top), join_eq_top_iff]
  tauto

/-! ## 2. The lifted function -/

theorem exists_finite_of_known (h : top ∉ l) : ∃ ss : List IntSet, l = ss.map finite := by
  induction l with
  | nil => exact ⟨[], rfl⟩
  | cons a l ih =>
    rw [List.mem_cons, not_or] at h
    obtain ⟨ss, rfl⟩ := ih h.2
    cases a with
    | top => exact absurd rfl h.1
    | finite s => exact ⟨s :: ss, rfl⟩

/-- **What a lifted function gives.**  It has a result, and a value is possible for it exactly if
nothing is known of some argument, or if the function takes that value somewhere. -/
theorem exists_lift (hf : ∀ t : List Int, t.length = l.length → ∃ y, f t = .ok y) :
    ∃ u, lift f l = .ok u ∧ ∀ y, u.Mem y ↔ top ∈ l ∨ ∃ t, Picks t l ∧ f t = .ok y := by
  by_cases htop : top ∈ l
  · exact ⟨top, lift_eq_top_iff.mpr htop, fun y => iff_of_true trivial (.inl htop)⟩
  · obtain ⟨ss, rfl⟩ := exists_finite_of_known htop
    have hpicks : ∀ t, t ∈ tuples (ss.map (·.toList)) ↔ Picks t (ss.map finite) := by
      intro t
      rw [mem_tuples, Picks, List.forall₂_map_right_iff, List.forall₂_map_right_iff]
      rfl
    have hvalue : ∀ t ∈ tuples (ss.map (·.toList)), ∃ y, f t = .ok y :=
      fun t ht => hf t ((hpicks t).mp ht).length_eq
    choose! result hresult using hvalue
    refine ⟨_, lift_finite hresult, fun y => ?_⟩
    rw [or_iff_right htop]
    constructor
    · intro hy
      obtain ⟨t, ht, rfl⟩ := List.mem_map.mp (IntSet.mem_ofList.mp hy)
      exact ⟨t, (hpicks t).mp ht, hresult t ht⟩
    · rintro ⟨t, ht, hy⟩
      have hmem := (hpicks t).mpr ht
      obtain rfl := Except.ok.inj ((hresult t hmem).symm.trans hy)
      exact IntSet.mem_ofList.mpr (List.mem_map_of_mem hmem)

/-- **Lifting respects joins.** -/
theorem lift_set_join (hf : ∀ t : List Int, t.length = l.length → ∃ y, f t = .ok y)
    (hi : i < l.length) (a b : ValueSet) :
    ∃ u v, lift f (l.set i a) = .ok u ∧ lift f (l.set i b) = .ok v ∧
      lift f (l.set i (a.join b)) = .ok (u.join v) := by
  have hlift : ∀ c : ValueSet, ∃ u, lift f (l.set i c) = .ok u ∧
      ∀ y, u.Mem y ↔ top ∈ l.set i c ∨ ∃ t, Picks t (l.set i c) ∧ f t = .ok y := by
    intro c
    refine exists_lift fun t ht => hf t ?_
    rwa [List.length_set] at ht
  obtain ⟨u, hu, humem⟩ := hlift a
  obtain ⟨v, hv, hvmem⟩ := hlift b
  obtain ⟨w, hw, hwmem⟩ := hlift (a.join b)
  have hwjoin : w = u.join v := by
    refine ext_mem fun y => ?_
    rw [mem_join, humem, hvmem, hwmem, top_mem_set_join hi]
    simp only [picks_set_join hi, or_and_right, exists_or]
    exact or_or_or_comm
  exact ⟨u, v, hu, hv, by rw [hw, hwjoin]⟩

/-- A function of one integer, as one that takes a list of arguments. -/
def unary (g : Int → Int) : List Int → Except Fault Int
  | [x] => .ok (g x)
  | _ => .error .wrongArity

theorem lift_unary (g : Int → Int) (a : ValueSet) : lift (unary g) [a] = .ok (a.map g) := by
  cases a with
  | top => rfl
  | finite s =>
    have htuples : tuples [s.toList] = s.toList.map fun x => [x] := by
      simp [tuples, List.map_eq_flatMap]
    have hresult : ∀ t ∈ tuples ([s].map (·.toList)), unary g t = .ok (g (t.headD 0)) := by
      intro t ht
      rw [List.map_singleton, htuples] at ht
      obtain ⟨x, -, rfl⟩ := List.mem_map.mp ht
      rfl
    have hlift := lift_finite hresult
    rw [List.map_singleton, List.map_singleton, htuples, List.map_map] at hlift
    exact hlift

end ValueSet

/-- **Lifting a function to sets of values respects joins.**  Take any function that has a value for
all lists of `n` integers, any `n` sets, and a place among them.  Then the lifted function has a
result whatever set stands in that place, and its result for the join of two sets is the join of its
results for each; so a greater set there gives a greater result.  For a function of one integer, its
images are the lifted function. -/
theorem lifting_respects_joins :
    (∀ (n : Nat) (f : List Int → Except Fault Int),
      (∀ t : List Int, t.length = n → ∃ y, f t = .ok y) →
      ∀ l : List ValueSet, l.length = n → ∀ i, i < n → ∀ a b : ValueSet,
        ∃ u v, ValueSet.lift f (l.set i a) = .ok u ∧ ValueSet.lift f (l.set i b) = .ok v ∧
          ValueSet.lift f (l.set i (a.join b)) = .ok (u.join v) ∧ (a ≤ b → u ≤ v)) ∧
    ∀ (g : Int → Int) (a : ValueSet), ValueSet.lift (ValueSet.unary g) [a] = .ok (a.map g) := by
  refine ⟨?_, ValueSet.lift_unary⟩
  rintro n f hf l rfl i hi a b
  obtain ⟨u, v, hu, hv, hjoin⟩ := ValueSet.lift_set_join hf hi a b
  refine ⟨u, v, hu, hv, hjoin, fun hab => ?_⟩
  have hb : a.join b = b := sup_eq_right.mpr hab
  rw [hb, hv] at hjoin
  exact sup_eq_right.mp (Except.ok.inj hjoin).symm

/-- The sum of two numbers modulo five, of which the second is to be filled in. -/
def sumsModFive : List ValueSet := [.ofList [1, 2], .bottom, .ofList [5]]

theorem lifting_sumsModFive :
    (∀ t : List Int, t.length = 3 → ∃ y, Arith.addmod.eval t = .ok y) ∧
    sumsModFive.length = 3 ∧
    (ValueSet.lift Arith.addmod.eval
        (sumsModFive.set 1 (ValueSet.join (.ofList [2]) (.ofList [7, 9]))) =
      .ok (ValueSet.join (.ofList [3, 4]) (.ofList [0, 1, 3, 4]))) ∧
    ∃ u v, ValueSet.lift Arith.addmod.eval (sumsModFive.set 0 .bottom) = .ok u ∧
      ValueSet.lift Arith.addmod.eval (sumsModFive.set 0 .top) = .ok v ∧ u ≤ v := by
  have htotal : ∀ t : List Int, t.length = 3 → ∃ y, Arith.addmod.eval t = .ok y := by
    intro t ht
    obtain ⟨x, y, m, rfl⟩ := List.length_eq_three.mp ht
    exact ⟨_, rfl⟩
  obtain ⟨hjoins, -⟩ := lifting_respects_joins
  obtain ⟨u, v, hu, hv, hjoin, -⟩ := hjoins 3 _ htotal sumsModFive rfl 1 (by decide)
    (.ofList [2]) (.ofList [7, 9])
  obtain ⟨u', v', hu', hv', -, hmono⟩ := hjoins 3 _ htotal sumsModFive rfl 0 (by decide)
    .bottom .top
  have hu_eq : ValueSet.ofList [3, 4] = u := Except.ok.inj hu
  have hv_eq : ValueSet.ofList [0, 1, 3, 4] = v := Except.ok.inj hv
  exact ⟨htotal, rfl, by rw [hjoin, hu_eq, hv_eq], u', v', hu', hv', hmono bot_le⟩

end TraceLift
