/-
# Folds over the value lattices

There are two lattices of values: an integer that is known, unknown or contradictory (`Flat`), and a
set of possible integers (`ValueSet`).  Both have a meet, a join and two bounds, and both fold their
operations over lists, starting from the bound that changes nothing.

* **The flat lattice.**  Its order is given outright: `bottom` lies below everything, `top` above
  everything, and an integer only below itself.  Meet and join are the infimum and the supremum of
  this order (`le_meet_iff`, `join_le_iff`).  It is not distributive: three integers are enough.
* **Sets of values** are ordered by inclusion, and intersection distributes over union.
* **Folds.**  In any lattice with bounds the fold of a list is the bound of its members
  (`isGLB_foldl_inf`, `isLUB_foldl_sup`), so it does not depend on their order or on how often one
  occurs (`foldsBound_of_lattice`).

`value_lattices_bound_lists` puts this together for both.
-/
import Mathlib.Order.Bounds.Basic
import Mathlib.Order.BoundedOrder.Lattice
import TraceLift.Lattice.Flat
import TraceLift.Proofs.ValueLattice

namespace TraceLift

/-! ## 1. The flat lattice -/

namespace Flat

variable {a b c : Flat} {i : Int}

/-- The order: the bounds are below and above everything, integers below themselves. -/
instance : LE Flat where
  le a b := a = bottom ∨ b = top ∨ a = b

theorem le_def : a ≤ b ↔ a = bottom ∨ b = top ∨ a = b := Iff.rfl

@[simp] theorem bottom_le : bottom ≤ a := .inl rfl

@[simp] theorem le_top : a ≤ top := .inr (.inl rfl)

@[simp] theorem top_le_iff : top ≤ a ↔ a = top := by simp [le_def, eq_comm]

@[simp] theorem le_bottom_iff : a ≤ bottom ↔ a = bottom := by simp [le_def]

/-- Above an integer lie itself and `top`, and no other integer. -/
theorem int_le_iff : int i ≤ a ↔ a = top ∨ a = int i := by simp [le_def, eq_comm]

/-- Below an integer lie itself and `bottom`. -/
theorem le_int_iff : a ≤ int i ↔ a = bottom ∨ a = int i := by simp [le_def]

theorem le_meet_iff : c ≤ a.meet b ↔ c ≤ a ∧ c ≤ b := by
  cases a with
  | bottom => simp +contextual [meet]
  | top => cases b <;> simp [meet]
  | int i =>
    cases b with
    | bottom => simp +contextual [meet]
    | top => simp [meet]
    | int j =>
      by_cases hij : i = j
      · simp [meet, hij]
      · -- nothing but `bottom` lies below two integers
        simp only [meet, if_neg hij, le_bottom_iff, le_int_iff]
        constructor
        · intro hc
          exact ⟨.inl hc, .inl hc⟩
        · rintro ⟨hc | hi, hc | hj⟩
          · exact hc
          · exact hc
          · exact hc
          · exact absurd (int.inj (hi.symm.trans hj)) hij

theorem join_le_iff : a.join b ≤ c ↔ a ≤ c ∧ b ≤ c := by
  cases a with
  | top => simp +contextual [join]
  | bottom => cases b <;> simp [join]
  | int i =>
    cases b with
    | top => simp +contextual [join]
    | bottom => simp [join]
    | int j =>
      by_cases hij : i = j
      · simp [join, hij]
      · -- nothing but `top` lies above two integers
        simp only [join, if_neg hij, top_le_iff, int_le_iff]
        constructor
        · intro hc
          exact ⟨.inl hc, .inl hc⟩
        · rintro ⟨hc | hi, hc | hj⟩
          · exact hc
          · exact hc
          · exact hc
          · exact absurd (int.inj (hi.symm.trans hj)) hij

instance : PartialOrder Flat where
  le_refl _ := .inr (.inr rfl)
  le_trans a b c hab hbc := by
    rcases hab with rfl | rfl | rfl
    · exact bottom_le
    · obtain rfl := top_le_iff.mp hbc
      exact le_top
    · exact hbc
  le_antisymm a b hab hba := by
    rcases hab with rfl | rfl | rfl
    · exact (le_bottom_iff.mp hba).symm
    · exact top_le_iff.mp hba
    · rfl

instance : Lattice Flat where
  sup := join
  le_sup_left _ _ := (join_le_iff.mp le_rfl).1
  le_sup_right _ _ := (join_le_iff.mp le_rfl).2
  sup_le _ _ _ hac hbc := join_le_iff.mpr ⟨hac, hbc⟩
  inf := meet
  inf_le_left _ _ := (le_meet_iff.mp le_rfl).1
  inf_le_right _ _ := (le_meet_iff.mp le_rfl).2
  le_inf _ _ _ hab hac := le_meet_iff.mpr ⟨hab, hac⟩

instance : BoundedOrder Flat where
  top := top
  le_top _ := le_top
  bot := bottom
  bot_le _ := bottom_le

end Flat

/-! ## 2. Folds over lists -/

section Folds

variable {α : Type} [Lattice α] {c : α}

theorem le_foldl_inf_iff (a : α) (l : List α) :
    c ≤ l.foldl (· ⊓ ·) a ↔ c ≤ a ∧ ∀ b ∈ l, c ≤ b := by
  induction l generalizing a with
  | nil => simp
  | cons b l ih => rw [List.foldl_cons, ih, le_inf_iff, List.forall_mem_cons, and_assoc]

variable [BoundedOrder α]

/-- The meets of a list are its greatest lower bound. -/
theorem isGLB_foldl_inf (l : List α) : IsGLB {a | a ∈ l} (l.foldl (· ⊓ ·) ⊤) := by
  refine isGLB_iff_le_iff.mpr fun c => ?_
  rw [le_foldl_inf_iff, and_iff_right le_top]
  rfl

/-- The joins of a list are its least upper bound, which is the same in the opposite order. -/
theorem isLUB_foldl_sup (l : List α) : IsLUB {a | a ∈ l} (l.foldl (· ⊔ ·) ⊥) :=
  isGLB_foldl_inf (α := αᵒᵈ) l

end Folds

/-! ## 3. The laws -/

/-- The laws of a lattice with bounds, for two operations and two elements. -/
structure LatticeLaws {α : Type} (meet join : α → α → α) (top bottom : α) : Prop where
  meet_comm : ∀ a b, meet a b = meet b a
  join_comm : ∀ a b, join a b = join b a
  meet_assoc : ∀ a b c, meet (meet a b) c = meet a (meet b c)
  join_assoc : ∀ a b c, join (join a b) c = join a (join b c)
  meet_self : ∀ a, meet a a = a
  join_self : ∀ a, join a a = a
  meet_join_self : ∀ a b, meet a (join a b) = a
  join_meet_self : ∀ a b, join a (meet a b) = a
  top_meet : ∀ a, meet top a = a
  bottom_join : ∀ a, join bottom a = a
  bottom_meet : ∀ a, meet bottom a = bottom
  top_join : ∀ a, join top a = top

/-- Two functions on lists give the greatest lower and the least upper bound in the order of a meet.
Only the members of a list matter, and the empty list has the bounds of the lattice. -/
structure FoldsBound {α : Type} [PartialOrder α] (meet : α → α → α) (top bottom : α)
    (meetAll joinAll : List α → α) : Prop where
  le_iff : ∀ a b, a ≤ b ↔ meet a b = a
  isGLB : ∀ l, IsGLB {a | a ∈ l} (meetAll l)
  isLUB : ∀ l, IsLUB {a | a ∈ l} (joinAll l)
  meetAll_congr : ∀ l l', (∀ a, a ∈ l ↔ a ∈ l') → meetAll l = meetAll l'
  joinAll_congr : ∀ l l', (∀ a, a ∈ l ↔ a ∈ l') → joinAll l = joinAll l'
  meetAll_nil : meetAll [] = top
  joinAll_nil : joinAll [] = bottom

section Laws

variable (α : Type) [Lattice α] [BoundedOrder α]

theorem latticeLaws_of_lattice : LatticeLaws (α := α) (· ⊓ ·) (· ⊔ ·) ⊤ ⊥ where
  meet_comm := inf_comm
  join_comm := sup_comm
  meet_assoc := inf_assoc
  join_assoc := sup_assoc
  meet_self := inf_idem
  join_self := sup_idem
  meet_join_self _ _ := inf_sup_self
  join_meet_self _ _ := sup_inf_self
  top_meet := top_inf_eq
  bottom_join := bot_sup_eq
  bottom_meet := bot_inf_eq
  top_join := top_sup_eq

theorem foldsBound_of_lattice : FoldsBound (α := α) (· ⊓ ·) ⊤ ⊥
    (fun l => l.foldl (· ⊓ ·) ⊤) (fun l => l.foldl (· ⊔ ·) ⊥) where
  le_iff _ _ := inf_eq_left.symm
  isGLB := isGLB_foldl_inf
  isLUB := isLUB_foldl_sup
  meetAll_congr l l' h := by
    have hmembers : {a | a ∈ l} = {a | a ∈ l'} := Set.ext h
    exact (isGLB_foldl_inf l).unique (hmembers ▸ isGLB_foldl_inf l')
  joinAll_congr l l' h := by
    have hmembers : {a | a ∈ l} = {a | a ∈ l'} := Set.ext h
    exact (isLUB_foldl_sup l).unique (hmembers ▸ isLUB_foldl_sup l')
  meetAll_nil := rfl
  joinAll_nil := rfl

end Laws

namespace ValueSet

variable (a b c : ValueSet)

theorem meet_join_distrib : a.meet (b.join c) = (a.meet b).join (a.meet c) := by
  refine ext_mem fun x => ?_
  simp only [mem_meet, mem_join]
  exact and_or_left

theorem join_meet_distrib : a.join (b.meet c) = (a.join b).meet (a.join c) := by
  refine ext_mem fun x => ?_
  simp only [mem_meet, mem_join]
  exact or_and_left

end ValueSet

/-- **Both value lattices are lattices, and their folds are bounds.**  For flat integers and for
sets of integers, bounds included, meet and join satisfy the laws of a lattice with bounds, and for
sets each distributes over the other.  In the order in which `a` lies below `b` when their meet is
`a`, the meet of a list is the greatest lower bound of its members and the join the least upper
bound, whatever their order and however often they occur; the empty list has `top` and `bottom`. -/
theorem value_lattices_bound_lists :
    (LatticeLaws Flat.meet Flat.join .top .bottom ∧
      FoldsBound Flat.meet .top .bottom Flat.meetAll Flat.joinAll) ∧
    (LatticeLaws ValueSet.meet ValueSet.join .top .bottom ∧
      FoldsBound ValueSet.meet .top .bottom ValueSet.meetAll ValueSet.joinAll) ∧
    ∀ a b c : ValueSet, a.meet (b.join c) = (a.meet b).join (a.meet c) ∧
      a.join (b.meet c) = (a.join b).meet (a.join c) := by
  refine ⟨⟨?_, ?_⟩, ⟨?_, ?_⟩, ?_⟩
  · exact latticeLaws_of_lattice Flat
  · exact foldsBound_of_lattice Flat
  · exact latticeLaws_of_lattice ValueSet
  · exact foldsBound_of_lattice ValueSet
  · intro a b c
    exact ⟨a.meet_join_distrib b c, a.join_meet_distrib b c⟩

/-- Three integers show that the flat lattice is not distributive. -/
example : Flat.meet (.int 0) (.join (.int 1) (.int 2)) = .int 0 ∧
    Flat.join (.meet (.int 0) (.int 1)) (.meet (.int 0) (.int 2)) = .bottom := by decide

end TraceLift
