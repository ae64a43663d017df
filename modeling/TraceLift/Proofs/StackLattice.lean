/-
# Stacks form a lattice

A stack stands for an infinite one: below its items lie empty slots, and an empty slot counts as a
variable without values.  What a stack says is therefore the sequence of value sets from the top
down (`slot`), and meet and join are those of value sets, slot by slot.

Stacks are compared by their number of items, too, and a stack may well end in items without values,
so the slots do not determine a stack.  The two operations treat its base differently.

* **Join** has as many items as the longer stack (`size_join`), whatever their values, so every law
  of join is a law of its slots and of the greater of two numbers.
* **Meet** drops the items without values at the base.  What is left is `Reduced`, and reduced
  stacks with the same slots have as many items (`sameValues_of_reduced`); so an equation between
  meets is one between slots, and a stack that comes back from a meet comes back without its empty
  base.
* **Capacity.**  Results are rebuilt with a capacity, the greater one for a join and the smaller one
  for a meet.  Neither cuts anything off a stack that keeps its own (`Fits`), and both keep it.
-/
import Mathlib.Data.List.DropRight
import Mathlib.Data.List.GetD
import Mathlib.Data.List.Induction
import TraceLift.Proofs.ValueLattice
import TraceLift.Stack.Lattice

namespace TraceLift

/-! ## 1. Variables hold words -/

namespace ValueSet

variable {a b : ValueSet}

/-- All values are words, unless nothing is known. -/
def IsWords : ValueSet → Prop
  | top => True
  | finite s => ∀ x ∈ s.toList, 0 ≤ x ∧ x < Word.card

instance : (a : ValueSet) → Decidable a.IsWords
  | top => .isTrue trivial
  | finite s => inferInstanceAs (Decidable (∀ x ∈ s.toList, 0 ≤ x ∧ x < Word.card))

theorem IsWords.meet (ha : a.IsWords) (hb : b.IsWords) : (a.meet b).IsWords := by
  cases a with
  | top => exact hb
  | finite s =>
    cases b with
    | top => exact ha
    | finite t => exact fun x hx => ha x (IntSet.mem_inter.mp hx).1

theorem IsWords.join (ha : a.IsWords) (hb : b.IsWords) : (a.join b).IsWords := by
  cases a with
  | top => trivial
  | finite s =>
    cases b with
    | top => trivial
    | finite t =>
      intro x hx
      rcases IntSet.mem_union.mp hx with hx | hx
      · exact ha x hx
      · exact hb x hx

end ValueSet

namespace Variable

variable {v w : Variable}

/-- Whatever integers a variable is given, it holds words. -/
theorem isWords_words (l : List Int) : (words l).IsWords := by
  intro x hx
  obtain ⟨i, -, rfl⟩ := List.mem_map.mp (IntSet.mem_ofList.mp hx)
  have hcard : 0 < Word.card := by decide
  exact ⟨Int.emod_nonneg i (Int.ne_of_gt hcard), Int.emod_lt_of_pos i hcard⟩

theorem isWords_ofSet (a : ValueSet) (sites : Sites) : (ofSet a sites).values.IsWords := by
  cases a with
  | top => trivial
  | finite s => exact isWords_words s.toList

/-- A variable that is made from words has them for its values. -/
theorem values_ofSet {a : ValueSet} (h : a.IsWords) (sites : Sites) :
    (ofSet a sites).values = a := by
  cases a with
  | top => rfl
  | finite s =>
    have hreduce : s.toList.map Word.reduce = s.toList := by
      refine (List.map_congr_left fun x hx => ?_).trans (List.map_id _)
      exact Int.emod_eq_of_lt (h x hx).1 (h x hx).2
    refine congrArg ValueSet.finite (IntSet.ext_mem fun x => ?_)
    rw [hreduce, IntSet.mem_ofList, IntSet.mem_def]

theorem values_meet (hv : v.values.IsWords) (hw : w.values.IsWords) :
    (v.meet w).values = v.values ⊓ w.values := values_ofSet (hv.meet hw) _

theorem values_join (hv : v.values.IsWords) (hw : w.values.IsWords) :
    (v.join w).values = v.values ⊔ w.values := values_ofSet (hv.join hw) _

end Variable

namespace Stack

/-! ## 2. Slots -/

/-- The values in a slot, counted from the top of a list of items: none where there is no item. -/
def slotOf (items : List Variable) (i : Nat) : ValueSet := (items.map (·.values)).getD i ⊥

/-- The values in a slot of a stack, counted from the top. -/
def slot (s : Stack Variable) (i : Nat) : ValueSet := slotOf s.items i

section Slots

variable {l m : List Variable} {v : Variable}

@[simp] theorem slotOf_nil (i : Nat) : slotOf [] i = ⊥ := rfl

@[simp] theorem slotOf_cons_zero : slotOf (v :: l) 0 = v.values := rfl

@[simp] theorem slotOf_cons_succ (i : Nat) : slotOf (v :: l) (i + 1) = slotOf l i := by
  simp [slotOf]

/-- The slots below the items are empty. -/
theorem slotOf_of_le {i : Nat} (h : l.length ≤ i) : slotOf l i = ⊥ := by
  simp [slotOf, h]

theorem slotOf_concat (i : Nat) :
    slotOf (l ++ [v]) i = if i = l.length then v.values else slotOf l i := by
  induction l generalizing i with
  | nil => cases i <;> simp
  | cons u l ih => cases i <;> simp [ih]

/-- **Equal stacks** have as many items and the same slots. -/
theorem sameValues_iff {s t : Stack Variable} :
    s.sameValues t = true ↔ s.size = t.size ∧ ∀ i, s.slot i = t.slot i := by
  rw [sameValues, beq_iff_eq]
  constructor
  · intro h
    refine ⟨by simpa [size] using congrArg List.length h, fun i => ?_⟩
    rw [slot, slot, slotOf, slotOf, h]
  · rintro ⟨hsize, hslot⟩
    refine List.ext_getElem (by simpa [size] using hsize) fun i hs ht => ?_
    have hi := hslot i
    rwa [slot, slot, slotOf, slotOf, List.getD_eq_getElem _ _ hs,
      List.getD_eq_getElem _ _ ht] at hi

end Slots

/-! ## 3. Working slot by slot -/

section Zip

variable {fill : Variable} {f : Variable → Variable → Variable}
  {op : ValueSet → ValueSet → ValueSet}

theorem length_zipLongest (l m : List Variable) :
    (zipLongest fill f l m).length = max l.length m.length := by
  fun_induction zipLongest fill f l m with
  | case1 => rfl
  | case2 a l ih => simp [ih]
  | case3 b m ih => simp [ih]
  | case4 a l b m ih =>
    simp only [List.length_cons, ih]
    omega

theorem exists_of_mem_zipLongest {l m : List Variable} {v : Variable}
    (h : v ∈ zipLongest fill f l m) : ∃ a b, v = f a b := by
  fun_induction zipLongest fill f l m with
  | case1 => exact absurd h List.not_mem_nil
  | case2 a l ih => exact (List.mem_cons.mp h).elim (fun hv => ⟨_, _, hv⟩) ih
  | case3 b m ih => exact (List.mem_cons.mp h).elim (fun hv => ⟨_, _, hv⟩) ih
  | case4 a l b m ih => exact (List.mem_cons.mp h).elim (fun hv => ⟨_, _, hv⟩) ih

/-- An operation on variables that is one on their values works slot by slot, if it leaves a slot
empty that is empty in both stacks. -/
theorem slotOf_zipLongest
    (hf : ∀ v w, v.values.IsWords → w.values.IsWords → (f v w).values = op v.values w.values)
    (hempty : op ⊥ ⊥ = ⊥) {l m : List Variable} (hl : ∀ v ∈ l, v.values.IsWords)
    (hm : ∀ v ∈ m, v.values.IsWords) (i : Nat) :
    slotOf (zipLongest emptySlot f l m) i = op (slotOf l i) (slotOf m i) := by
  have hslot : emptySlot.values.IsWords := by decide
  have hbottom : emptySlot.values = ⊥ := rfl
  fun_induction zipLongest emptySlot f l m generalizing i with
  | case1 => exact hempty.symm
  | case2 a l ih =>
    obtain ⟨ha, hl⟩ := List.forall_mem_cons.mp hl
    cases i with
    | zero => rw [slotOf_cons_zero, hf a emptySlot ha hslot, hbottom, slotOf_cons_zero, slotOf_nil]
    | succ i => rw [slotOf_cons_succ, ih hl hm, slotOf_cons_succ, slotOf_nil, slotOf_nil]
  | case3 b m ih =>
    obtain ⟨hb, hm⟩ := List.forall_mem_cons.mp hm
    cases i with
    | zero => rw [slotOf_cons_zero, hf emptySlot b hslot hb, hbottom, slotOf_cons_zero, slotOf_nil]
    | succ i => rw [slotOf_cons_succ, ih hl hm, slotOf_cons_succ, slotOf_nil, slotOf_nil]
  | case4 a l b m ih =>
    obtain ⟨ha, hl⟩ := List.forall_mem_cons.mp hl
    obtain ⟨hb, hm⟩ := List.forall_mem_cons.mp hm
    cases i with
    | zero => rw [slotOf_cons_zero, hf a b ha hb, slotOf_cons_zero, slotOf_cons_zero]
    | succ i => rw [slotOf_cons_succ, ih hl hm, slotOf_cons_succ, slotOf_cons_succ]

end Zip

/-! ## 4. The base of a stack -/

/-- The lowest item has values. -/
def Reduced (l : List Variable) : Prop := ∀ v ∈ l.getLast?, v.values ≠ ⊥

/-- A stack without the items at its base that have no values. -/
def withoutEmptyBase (s : Stack Variable) : Stack Variable :=
  { s with items := s.items.rdropWhile (·.values.isBottom) }

section Base

variable {l m : List Variable}

theorem trimBase_eq (l : List Variable) : trimBase l = l.rdropWhile (·.values.isBottom) := rfl

theorem reduced_rdropWhile (l : List Variable) :
    Reduced (l.rdropWhile (·.values.isBottom)) := by
  intro v hv hbottom
  obtain ⟨hne, rfl⟩ := List.mem_getLast?_eq_getLast hv
  exact List.rdropWhile_last_not _ l hne (ValueSet.isBottom_iff.mpr hbottom)

/-- Dropping items without values leaves all slots as they are. -/
theorem slotOf_rdropWhile (l : List Variable) (i : Nat) :
    slotOf (l.rdropWhile (·.values.isBottom)) i = slotOf l i := by
  induction l using List.reverseRecOn with
  | nil => rfl
  | append_singleton l v ih =>
    by_cases hv : v.values.isBottom = true
    · rw [List.rdropWhile_concat_pos (fun w : Variable => w.values.isBottom) l v hv, ih,
        slotOf_concat]
      split
      · rename_i hi
        rw [slotOf_of_le (Nat.le_of_eq hi.symm), ValueSet.isBottom_iff.mp hv]
      · rfl
    · rw [List.rdropWhile_concat_neg (fun w : Variable => w.values.isBottom) l v hv]

/-- A reduced list ends before the slots that are empty from there on. -/
theorem length_le_of_reduced (hl : Reduced l) {n : Nat} (h : ∀ i, n ≤ i → slotOf l i = ⊥) :
    l.length ≤ n := by
  rcases List.eq_nil_or_concat' l with rfl | ⟨rest, v, rfl⟩
  · exact Nat.zero_le n
  · by_contra hlong
    rw [List.length_append, List.length_singleton] at hlong
    have hlast := h rest.length (by omega)
    rw [slotOf_concat, if_pos rfl] at hlast
    exact hl v (by simp) hlast

/-- Reduced stacks are determined by their slots. -/
theorem sameValues_of_reduced {s t : Stack Variable} (hs : Reduced s.items)
    (ht : Reduced t.items) (h : ∀ i, s.slot i = t.slot i) : s.sameValues t = true := by
  refine sameValues_iff.mpr ⟨Nat.le_antisymm ?_ ?_, h⟩
  · refine length_le_of_reduced hs fun i hi => ?_
    exact (h i).trans (slotOf_of_le hi)
  · refine length_le_of_reduced ht fun i hi => ?_
    exact (h i).symm.trans (slotOf_of_le hi)

end Base

/-! ## 5. Meet and join -/

/-- A stack that keeps its capacity and whose items hold words. -/
structure Fits (s : Stack Variable) : Prop where
  size : (s.size : Int) ≤ s.maxSize
  words : ∀ v ∈ s.items, v.values.IsWords

variable {s t u : Stack Variable}

/-- Rebuilding a stack whose items the capacity suffices for loses none. -/
theorem items_ofTopDown {items : List Variable} {maxSize : Int}
    (h : (items.length : Int) ≤ maxSize) : (ofTopDown items maxSize).items = items := by
  have hpos : 0 < max 20 maxSize := by omega
  simp only [ofTopDown, make, setMaxSize, clip, if_pos hpos, List.reverse_reverse]
  exact List.take_of_length_le (by omega)

theorem fits_ofTopDown {items : List Variable} {maxSize : Int}
    (h : (items.length : Int) ≤ maxSize) (hwords : ∀ v ∈ items, v.values.IsWords) :
    (ofTopDown items maxSize).Fits := by
  have hitems := items_ofTopDown h
  constructor
  · rw [Stack.size, hitems]
    change (items.length : Int) ≤ max 20 maxSize
    omega
  · rwa [hitems]

section Join

/-- The capacity of a join is the greater one, and the joined items do not exceed it. -/
theorem length_join_le (hs : s.Fits) (ht : t.Fits) :
    ((zipLongest emptySlot Variable.join s.items t.items).length : Int) ≤
      if s.maxSize > t.maxSize then s.maxSize else t.maxSize := by
  have hsize := hs.size
  have hsize' := ht.size
  rw [Stack.size] at hsize hsize'
  rw [length_zipLongest]
  split <;> omega

theorem size_join (hs : s.Fits) (ht : t.Fits) : (s.join t).size = max s.size t.size := by
  rw [Stack.size, join, items_ofTopDown (length_join_le hs ht), length_zipLongest]
  rfl

theorem slot_join (hs : s.Fits) (ht : t.Fits) (i : Nat) :
    (s.join t).slot i = s.slot i ⊔ t.slot i := by
  rw [slot, join, items_ofTopDown (length_join_le hs ht)]
  exact slotOf_zipLongest (fun _ _ => Variable.values_join) (sup_idem _) hs.words ht.words i

theorem Fits.join (hs : s.Fits) (ht : t.Fits) : (s.join t).Fits := by
  refine fits_ofTopDown (length_join_le hs ht) fun v hv => ?_
  obtain ⟨a, b, rfl⟩ := exists_of_mem_zipLongest hv
  exact Variable.isWords_ofSet _ _

end Join

section Meet

theorem slotOf_meet (hs : s.Fits) (ht : t.Fits) (i : Nat) :
    slotOf (trimBase (zipLongest emptySlot Variable.meet s.items t.items)) i =
      s.slot i ⊓ t.slot i := by
  rw [trimBase_eq, slotOf_rdropWhile]
  exact slotOf_zipLongest (fun _ _ => Variable.values_meet) (inf_idem _) hs.words ht.words i

/-- Behind the items of either stack the meet is empty. -/
theorem length_meet_le (hs : s.Fits) (ht : t.Fits) :
    (trimBase (zipLongest emptySlot Variable.meet s.items t.items)).length ≤
      min s.size t.size := by
  refine length_le_of_reduced (reduced_rdropWhile _) fun i hi => (slotOf_meet hs ht i).trans ?_
  rcases min_le_iff.mp hi with hi | hi
  · rw [show s.slot i = ⊥ from slotOf_of_le hi, bot_inf_eq]
  · rw [show t.slot i = ⊥ from slotOf_of_le hi, inf_bot_eq]

/-- The capacity of a meet is the smaller one, and the items that are left do not exceed it. -/
theorem items_meet (hs : s.Fits) (ht : t.Fits) : (s.meet t).items =
    trimBase (zipLongest emptySlot Variable.meet s.items t.items) := by
  have hlength := length_meet_le hs ht
  have hsize := hs.size
  have hsize' := ht.size
  refine items_ofTopDown ?_
  split <;> omega

theorem size_meet_le (hs : s.Fits) (ht : t.Fits) : (s.meet t).size ≤ min s.size t.size := by
  rw [Stack.size, items_meet hs ht]
  exact length_meet_le hs ht

theorem reduced_meet (hs : s.Fits) (ht : t.Fits) : Reduced (s.meet t).items := by
  rw [items_meet hs ht]
  exact reduced_rdropWhile _

theorem slot_meet (hs : s.Fits) (ht : t.Fits) (i : Nat) :
    (s.meet t).slot i = s.slot i ⊓ t.slot i := by
  rw [slot, items_meet hs ht]
  exact slotOf_meet hs ht i

theorem Fits.meet (hs : s.Fits) (ht : t.Fits) : (s.meet t).Fits := by
  have hlength := length_meet_le hs ht
  have hsize := hs.size
  have hsize' := ht.size
  refine fits_ofTopDown ?_ fun v hv => ?_
  · split <;> omega
  · rw [trimBase_eq] at hv
    obtain ⟨a, b, rfl⟩ := exists_of_mem_zipLongest ((List.rdropWhile_prefix _ _).subset hv)
    exact Variable.isWords_ofSet _ _

end Meet

/-! ## 6. The laws -/

section Laws

theorem join_comm (hs : s.Fits) (ht : t.Fits) : (s.join t).sameValues (t.join s) = true := by
  refine sameValues_iff.mpr ⟨?_, fun i => ?_⟩
  · rw [size_join hs ht, size_join ht hs, max_comm]
  · rw [slot_join hs ht, slot_join ht hs, sup_comm]

theorem join_assoc (hs : s.Fits) (ht : t.Fits) (hu : u.Fits) :
    ((s.join t).join u).sameValues (s.join (t.join u)) = true := by
  have hst := hs.join ht
  have htu := ht.join hu
  refine sameValues_iff.mpr ⟨?_, fun i => ?_⟩
  · rw [size_join hst hu, size_join hs ht, size_join hs htu, size_join ht hu, max_assoc]
  · rw [slot_join hst hu, slot_join hs ht, slot_join hs htu, slot_join ht hu, sup_assoc]

theorem join_self (hs : s.Fits) : (s.join s).sameValues s = true := by
  refine sameValues_iff.mpr ⟨?_, fun i => ?_⟩
  · rw [size_join hs hs, max_self]
  · rw [slot_join hs hs, sup_idem]

theorem meet_comm (hs : s.Fits) (ht : t.Fits) : (s.meet t).sameValues (t.meet s) = true := by
  refine sameValues_of_reduced (reduced_meet hs ht) (reduced_meet ht hs) fun i => ?_
  rw [slot_meet hs ht, slot_meet ht hs, inf_comm]

theorem meet_assoc (hs : s.Fits) (ht : t.Fits) (hu : u.Fits) :
    ((s.meet t).meet u).sameValues (s.meet (t.meet u)) = true := by
  have hst := hs.meet ht
  have htu := ht.meet hu
  refine sameValues_of_reduced (reduced_meet hst hu) (reduced_meet hs htu) fun i => ?_
  rw [slot_meet hst hu, slot_meet hs ht, slot_meet hs htu, slot_meet ht hu, inf_assoc]

/-- A reduced stack with the slots of another one is that one without its empty base. -/
theorem sameValues_withoutEmptyBase (ht : Reduced t.items) (h : ∀ i, t.slot i = s.slot i) :
    t.sameValues s.withoutEmptyBase = true := by
  refine sameValues_of_reduced ht (reduced_rdropWhile s.items) fun i => ?_
  exact (h i).trans (slotOf_rdropWhile s.items i).symm

theorem meet_self (hs : s.Fits) : (s.meet s).sameValues s.withoutEmptyBase = true := by
  refine sameValues_withoutEmptyBase (reduced_meet hs hs) fun i => ?_
  rw [slot_meet hs hs, inf_idem]

/-- The meet has no more items, so the join with it has as many. -/
theorem join_meet_self (hs : s.Fits) (ht : t.Fits) :
    (s.join (s.meet t)).sameValues s = true := by
  have hst := hs.meet ht
  have hsize := size_meet_le hs ht
  refine sameValues_iff.mpr ⟨?_, fun i => ?_⟩
  · rw [size_join hs hst]
    omega
  · rw [slot_join hs hst, slot_meet hs ht, sup_inf_self]

theorem meet_join_self (hs : s.Fits) (ht : t.Fits) :
    (s.meet (s.join t)).sameValues s.withoutEmptyBase = true := by
  have hst := hs.join ht
  refine sameValues_withoutEmptyBase (reduced_meet hs hst) fun i => ?_
  rw [slot_meet hs hst, slot_join hs ht, inf_sup_self]

end Laws

/-! ## 7. The join of a list -/

/-- One stack lies below another: it has at most as many items, and nothing more in any slot. -/
def Below (s t : Stack Variable) : Prop := s.size ≤ t.size ∧ ∀ i, s.slot i ≤ t.slot i

theorem Below.rfl : s.Below s := ⟨Nat.le_refl _, fun _ => le_rfl⟩

theorem sameValues_iff_below : s.sameValues t = true ↔ s.Below t ∧ t.Below s := by
  rw [sameValues_iff]
  constructor
  · rintro ⟨hsize, hslot⟩
    exact ⟨⟨hsize.le, fun i => (hslot i).le⟩, hsize.ge, fun i => (hslot i).ge⟩
  · rintro ⟨h, h'⟩
    exact ⟨Nat.le_antisymm h.1 h'.1, fun i => le_antisymm (h.2 i) (h'.2 i)⟩

/-- Equal stacks lie below the same ones. -/
theorem Below.of_sameValues (h : t.Below u) (hst : s.sameValues t = true) : s.Below u := by
  obtain ⟨hsize, hslot⟩ := sameValues_iff.mp hst
  exact ⟨hsize.le.trans h.1, fun i => (hslot i).le.trans (h.2 i)⟩

/-- The join is the least stack above both. -/
theorem join_below_iff (hs : s.Fits) (ht : t.Fits) :
    (s.join t).Below u ↔ s.Below u ∧ t.Below u := by
  simp only [Below, size_join hs ht, slot_join hs ht, max_le_iff, sup_le_iff, forall_and]
  tauto

theorem foldl_join_below_iff {l : List (Stack Variable)} (hs : s.Fits) (hl : ∀ t ∈ l, t.Fits) :
    (l.foldl join s).Below u ↔ s.Below u ∧ ∀ t ∈ l, t.Below u := by
  induction l generalizing s with
  | nil => simp
  | cons t l ih =>
    obtain ⟨ht, hl⟩ := List.forall_mem_cons.mp hl
    rw [List.foldl_cons, ih (hs.join ht) hl, join_below_iff hs ht, List.forall_mem_cons, and_assoc]

/-- **The join of a list is the least stack above all of its members.** -/
theorem joinAll_below_iff {l : List (Stack Variable)} (hl : ∀ t ∈ l, t.Fits) :
    (joinAll l).Below u ↔ ∀ t ∈ l, t.Below u := by
  have hstart : (ofItems [] : Stack Variable).Fits :=
    ⟨by decide, fun _ hv => absurd hv List.not_mem_nil⟩
  have hbelow : (ofItems [] : Stack Variable).Below u := ⟨Nat.zero_le _, fun _ => bot_le⟩
  rw [joinAll, foldl_join_below_iff hstart hl, and_iff_right hbelow]

/-- Lists with the same members, up to equality of stacks, have the same join. -/
theorem joinAll_below {l l' : List (Stack Variable)} (hl : ∀ s ∈ l, s.Fits)
    (hl' : ∀ s ∈ l', s.Fits) (h : ∀ s ∈ l, ∃ t ∈ l', s.sameValues t = true) :
    (joinAll l).Below (joinAll l') := by
  refine (joinAll_below_iff hl).mpr fun s hs => ?_
  obtain ⟨t, ht, hst⟩ := h s hs
  exact ((joinAll_below_iff hl').mp .rfl t ht).of_sameValues hst

end Stack

/-- **Stacks form a lattice.**  For stacks that keep their capacities, with any items and of any
lengths, and up to equality of stacks: join is commutative, associative and idempotent and has as
many items as the longer stack; meet is commutative and associative, has at most as many items as
the shorter one, and the meet of a stack with itself is the stack without its empty base; a stack
absorbs its meets, and its joins but for its empty base.  The join of a list depends on its members
alone, not on their order or number, and is empty for the empty list. -/
theorem stacks_form_lattice {a b c : Stack Variable} (ha : a.Fits) (hb : b.Fits) (hc : c.Fits)
    {l l' : List (Stack Variable)} (hl : ∀ s ∈ l, s.Fits) (hl' : ∀ s ∈ l', s.Fits)
    (hsub : ∀ s ∈ l, ∃ t ∈ l', s.sameValues t) (hsup : ∀ t ∈ l', ∃ s ∈ l, t.sameValues s) :
    ((a.join b).sameValues (b.join a) ∧
      ((a.join b).join c).sameValues (a.join (b.join c)) ∧
      (a.join a).sameValues a ∧
      (a.join b).size = max a.size b.size) ∧
    ((a.meet b).sameValues (b.meet a) ∧
      ((a.meet b).meet c).sameValues (a.meet (b.meet c)) ∧
      (a.meet a).sameValues a.withoutEmptyBase ∧
      (a.meet b).size ≤ min a.size b.size) ∧
    ((a.join (a.meet b)).sameValues a ∧
      (a.meet (a.join b)).sameValues a.withoutEmptyBase) ∧
    ((Stack.joinAll l).sameValues (Stack.joinAll l') ∧ (Stack.joinAll []).items = []) := by
  have hjoinAll := Stack.joinAll_below hl hl' hsub
  have hjoinAll' := Stack.joinAll_below hl' hl hsup
  refine ⟨⟨?_, ?_, ?_, Stack.size_join ha hb⟩, ⟨?_, ?_, ?_, Stack.size_meet_le ha hb⟩, ?_, ?_, rfl⟩
  · exact Stack.join_comm ha hb
  · exact Stack.join_assoc ha hb hc
  · exact Stack.join_self ha
  · exact Stack.meet_comm ha hb
  · exact Stack.meet_assoc ha hb hc
  · exact Stack.meet_self ha
  · exact ⟨Stack.join_meet_self ha hb, Stack.meet_join_self ha hb⟩
  · exact Stack.sameValues_iff_below.mpr ⟨hjoinAll, hjoinAll'⟩

/-- Nothing known on top, two values, and an item without values at the base. -/
def mixedStack : Stack Variable :=
  { items := [.top "a" .bottom, .ofValues [1, 2] "b" .bottom, .bottom "c" .bottom], maxSize := 3 }

/-- An item without values inside a stack, which is longer than `mixedStack`. -/
def deepStack : Stack Variable :=
  { items := [.ofValues [2, 3] "d" .bottom, .bottom "e" .bottom, .top "f" .bottom,
      .ofValues [7] "g" .bottom] }

theorem stacks_form_lattice_mixed :
    (mixedStack.Fits ∧ deepStack.Fits) ∧
    ((mixedStack.join deepStack).size = 4 ∧
      (mixedStack.meet deepStack).size ≤ 3 ∧
      ((mixedStack.meet deepStack).meet mixedStack).sameValues
        (mixedStack.meet (deepStack.meet mixedStack))) ∧
    ((mixedStack.meet mixedStack).sameValues mixedStack.withoutEmptyBase ∧
      (mixedStack.meet (mixedStack.join deepStack)).sameValues mixedStack.withoutEmptyBase ∧
      mixedStack.withoutEmptyBase.size = 2) ∧
    (Stack.joinAll [mixedStack, deepStack, mixedStack]).sameValues
      (Stack.joinAll [deepStack, mixedStack]) := by
  have hm : mixedStack.Fits := ⟨by decide, by decide⟩
  have hd : deepStack.Fits := ⟨by decide, by decide⟩
  have hl : ∀ s ∈ [mixedStack, deepStack, mixedStack], s.Fits := by simp [hm, hd]
  have hl' : ∀ s ∈ [deepStack, mixedStack], s.Fits := by simp [hm, hd]
  obtain ⟨⟨-, -, -, hjoin⟩, ⟨-, hassoc, hself, hmeet⟩, ⟨-, habsorb⟩, hall, -⟩ :=
    stacks_form_lattice hm hd hm hl hl' (by decide) (by decide)
  exact ⟨⟨hm, hd⟩, ⟨hjoin, hmeet, hassoc⟩, ⟨hself, habsorb, by decide⟩, hall⟩

end TraceLift
