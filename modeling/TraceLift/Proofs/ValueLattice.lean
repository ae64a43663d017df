/-
# Value sets form a lattice

A value set is known by the integers that it allows (`Mem`): `top` allows all of them, and no
finite set does, so two value sets that allow the same integers are equal (`ext_mem`).  Ordered by
inclusion the value sets are a lattice with meet and join for infimum and supremum, a least element
and a greatest one; its laws are those of any lattice.
-/
import Mathlib.Data.Set.Finite.Basic
import Mathlib.Order.BoundedOrder.Lattice
import TraceLift.Lattice.ValueSet

namespace TraceLift.ValueSet

variable {a b : ValueSet} {x : Int}

@[simp] theorem mem_meet : (a.meet b).Mem x ↔ a.Mem x ∧ b.Mem x := by
  cases a with
  | top => simp [meet, Mem]
  | finite s =>
    cases b with
    | top => simp [meet, Mem]
    | finite t => simp [meet, Mem]

@[simp] theorem mem_join : (a.join b).Mem x ↔ a.Mem x ∨ b.Mem x := by
  cases a with
  | top => simp [join, Mem]
  | finite s =>
    cases b with
    | top => simp [join, Mem]
    | finite t => simp [join, Mem]

/-- There is an integer outside every finite set. -/
theorem exists_not_mem (s : IntSet) : ∃ x, ¬ (finite s).Mem x := by
  obtain ⟨x, hx⟩ := Infinite.exists_notMem_finset s.toList.toFinset
  exact ⟨x, fun hmem => hx (List.mem_toFinset.mpr hmem)⟩

/-- Value sets that allow the same integers are equal. -/
theorem ext_mem (h : ∀ x, a.Mem x ↔ b.Mem x) : a = b := by
  cases a with
  | top =>
    cases b with
    | top => rfl
    | finite t =>
      obtain ⟨x, hx⟩ := exists_not_mem t
      exact absurd ((h x).mp trivial) hx
  | finite s =>
    cases b with
    | top =>
      obtain ⟨x, hx⟩ := exists_not_mem s
      exact absurd ((h x).mpr trivial) hx
    | finite t => exact congrArg finite (IntSet.ext_mem h)

instance : Lattice ValueSet where
  le a b := ∀ x, a.Mem x → b.Mem x
  le_refl _ _ := id
  le_trans _ _ _ hab hbc x hx := hbc x (hab x hx)
  le_antisymm _ _ hab hba := ext_mem fun x => ⟨hab x, hba x⟩
  sup := join
  le_sup_left _ _ _ hx := mem_join.mpr (.inl hx)
  le_sup_right _ _ _ hx := mem_join.mpr (.inr hx)
  sup_le _ _ _ hac hbc x hx := (mem_join.mp hx).elim (hac x) (hbc x)
  inf := meet
  inf_le_left _ _ _ hx := (mem_meet.mp hx).1
  inf_le_right _ _ _ hx := (mem_meet.mp hx).2
  le_inf _ _ _ hab hac x hx := mem_meet.mpr ⟨hab x hx, hac x hx⟩

instance : BoundedOrder ValueSet where
  top := top
  le_top _ _ _ := trivial
  bot := bottom
  bot_le _ _ hx := absurd hx IntSet.not_mem_empty

theorem isBottom_iff : a.isBottom = true ↔ a = ⊥ := by
  constructor
  · intro h
    cases a with
    | top => exact absurd h (by simp [isBottom])
    | finite s =>
      refine congrArg finite (IntSet.ext_mem fun x => ?_)
      rw [IntSet.mem_def, List.isEmpty_iff.mp h]
      simp
  · rintro rfl
    rfl

end TraceLift.ValueSet
