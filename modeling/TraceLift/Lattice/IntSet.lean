/-
# Finite sets of integers

A finite set is kept as the strictly ascending list of its members.  Each set has one such
list, so two sets with the same members are equal (`ext_mem`), and a set is printed and
enumerated in ascending order.  Everything an operation does is said by one membership lemma.
-/

namespace TraceLift

/-- A finite set of integers: its members in strictly ascending order. -/
structure IntSet where
  /-- The members, ascending. -/
  toList : List Int
  sorted : toList.Pairwise (· < ·)
  deriving DecidableEq

namespace IntSet

/-! ## 1. Ascending lists -/

/-- Puts an integer in its place in an ascending list, unless it is there already. -/
def place (a : Int) : List Int → List Int
  | [] => [a]
  | b :: l => if a < b then a :: b :: l else if a = b then b :: l else b :: place a l

theorem mem_place {a x : Int} {l : List Int} : x ∈ place a l ↔ x = a ∨ x ∈ l := by
  induction l with
  | nil => simp [place]
  | cons b l ih =>
    unfold place
    split
    · simp
    · split
      · rename_i h; subst h; simp
      · simp only [List.mem_cons, ih]
        constructor
        · rintro (h | h | h)
          · exact Or.inr (Or.inl h)
          · exact Or.inl h
          · exact Or.inr (Or.inr h)
        · rintro (h | h | h)
          · exact Or.inr (Or.inl h)
          · exact Or.inl h
          · exact Or.inr (Or.inr h)

theorem pairwise_place {a : Int} {l : List Int} (h : l.Pairwise (· < ·)) :
    (place a l).Pairwise (· < ·) := by
  induction l with
  | nil => simp [place]
  | cons b l ih =>
    rw [List.pairwise_cons] at h
    unfold place
    split
    · rename_i hab
      refine List.pairwise_cons.mpr ⟨fun x hx => ?_, List.pairwise_cons.mpr h⟩
      rcases List.mem_cons.mp hx with rfl | hx
      · exact hab
      · exact Int.lt_trans hab (h.1 x hx)
    · split
      · exact List.pairwise_cons.mpr h
      · rename_i h1 h2
        refine List.pairwise_cons.mpr ⟨fun x hx => ?_, ih h.2⟩
        rcases mem_place.mp hx with rfl | hx
        · omega
        · exact h.1 x hx

/-- The ascending list of the members of any list. -/
def arrange (l : List Int) : List Int := l.foldr place []

theorem mem_arrange {x : Int} {l : List Int} : x ∈ arrange l ↔ x ∈ l := by
  induction l with
  | nil => simp [arrange]
  | cons a l ih =>
    have : arrange (a :: l) = place a (arrange l) := rfl
    rw [this, mem_place, ih, List.mem_cons]

theorem pairwise_arrange (l : List Int) : (arrange l).Pairwise (· < ·) := by
  induction l with
  | nil => exact List.Pairwise.nil
  | cons a l ih => exact pairwise_place ih

/-- An ascending list is determined by its members. -/
theorem eq_of_mem_iff : ∀ {l m : List Int}, l.Pairwise (· < ·) → m.Pairwise (· < ·) →
    (∀ x, x ∈ l ↔ x ∈ m) → l = m
  | [], [], _, _, _ => rfl
  | [], b :: m, _, _, h => absurd ((h b).mpr (List.mem_cons_self ..)) (List.not_mem_nil)
  | a :: l, [], _, _, h => absurd ((h a).mp (List.mem_cons_self ..)) (List.not_mem_nil)
  | a :: l, b :: m, hl, hm, h => by
    rw [List.pairwise_cons] at hl hm
    have hab : a = b := by
      rcases List.mem_cons.mp ((h a).mp (List.mem_cons_self ..)) with e | ha
      · exact e
      · rcases List.mem_cons.mp ((h b).mpr (List.mem_cons_self ..)) with e | hb
        · exact e.symm
        · have h1 := hm.1 a ha
          have h2 := hl.1 b hb
          omega
    subst hab
    have : l = m := by
      refine eq_of_mem_iff hl.2 hm.2 fun x => ?_
      constructor
      · intro hx
        rcases List.mem_cons.mp ((h x).mp (List.mem_cons_of_mem _ hx)) with e | hx'
        · subst e; exact absurd (hl.1 x hx) (Int.lt_irrefl x)
        · exact hx'
      · intro hx
        rcases List.mem_cons.mp ((h x).mpr (List.mem_cons_of_mem _ hx)) with e | hx'
        · subst e; exact absurd (hm.1 x hx) (Int.lt_irrefl x)
        · exact hx'
    rw [this]

/-! ## 2. Sets -/

instance : Membership Int IntSet := ⟨fun s x => x ∈ s.toList⟩

instance (x : Int) (s : IntSet) : Decidable (x ∈ s) :=
  inferInstanceAs (Decidable (x ∈ s.toList))

theorem mem_def {x : Int} {s : IntSet} : x ∈ s ↔ x ∈ s.toList := Iff.rfl

/-- Sets with the same members are equal. -/
theorem ext_mem {s t : IntSet} (h : ∀ x, x ∈ s ↔ x ∈ t) : s = t := by
  cases s; cases t
  simp only [IntSet.mk.injEq]
  exact eq_of_mem_iff (by assumption) (by assumption) h

/-- The set of the members of a list. -/
def ofList (l : List Int) : IntSet := ⟨arrange l, pairwise_arrange l⟩

@[simp] theorem mem_ofList {x : Int} {l : List Int} : x ∈ ofList l ↔ x ∈ l := mem_arrange

/-- The empty set. -/
def empty : IntSet := ⟨[], List.Pairwise.nil⟩

@[simp] theorem not_mem_empty {x : Int} : ¬ x ∈ empty := List.not_mem_nil

/-- The number of members. -/
def size (s : IntSet) : Nat := s.toList.length

/-- The members of both sets. -/
def inter (s t : IntSet) : IntSet :=
  ⟨s.toList.filter (· ∈ t.toList), s.sorted.filter _⟩

@[simp] theorem mem_inter {x : Int} {s t : IntSet} : x ∈ inter s t ↔ x ∈ s ∧ x ∈ t := by
  simp [mem_def, inter]

/-- The members of either set. -/
def union (s t : IntSet) : IntSet := ofList (s.toList ++ t.toList)

@[simp] theorem mem_union {x : Int} {s t : IntSet} : x ∈ union s t ↔ x ∈ s ∨ x ∈ t := by
  simp [union, mem_def (s := s), mem_def (s := t)]

/-- The images of the members under a function. -/
def map (f : Int → Int) (s : IntSet) : IntSet := ofList (s.toList.map f)

@[simp] theorem mem_map {x : Int} {f : Int → Int} {s : IntSet} :
    x ∈ map f s ↔ ∃ y, y ∈ s ∧ f y = x := by
  simp [map, mem_def (s := s)]

end IntSet

end TraceLift
