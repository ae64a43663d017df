/-
# Sorting rearranges

Whatever the comparison, be it an order or not, sorting a list gives the same items, each as often
(`sortBy_perm`).  Which items are compared, how long the runs are and when a merge switches to
searching does not matter for this: at each point an item is taken from one place and put in
another.  So the argument follows the items as a multiset: through a merge of two runs
(`coe_merge`), through the runs that wait (`Merging.items`), and through the cutting of the list
into runs, which takes at least one item at a time (`items_addRuns`).
-/
import Mathlib.Algebra.BigOperators.Group.List.Basic
import Mathlib.Algebra.Order.Group.Multiset
import Mathlib.Tactic.Abel
import TraceLift.Order.Sort

namespace TraceLift.Order

variable {α : Type}

/-! ## 1. The items of a list -/

theorem coe_append (l m : List α) : ((l ++ m : List α) : Multiset α) = l + m :=
  (Multiset.coe_add l m).symm

theorem coe_cons (x : α) (l : List α) :
    ((x :: l : List α) : Multiset α) = {x} + (l : Multiset α) := rfl

/-- What is taken off the front of a list and what is left are the items of the list. -/
theorem coe_split (l : List α) (i : Nat) :
    (l : Multiset α) = (l.take i : List α) + (l.drop i : List α) := by
  rw [Multiset.coe_add, List.take_append_drop]

/-! ## 2. Merging two runs

In the cases of a search a part of each run goes over at once; what the search found does not
matter, so the run is split there and the two parts are added up. -/

theorem coe_mergeUp (lt : α → α → Bool) (fuel patience : Nat) (pace : Pace) (a b done : List α) :
    ((mergeUp lt fuel patience pace a b done).1 : Multiset α) = done + (a + b : Multiset α) := by
  fun_induction mergeUp lt fuel patience pace a b done
  case case1 | case2 | case3 | case4 =>
    simp only [coe_append, Multiset.coe_reverse, Multiset.coe_nil]
    abel
  case case5 ih | case6 ih =>
    rw [ih]
    simp only [coe_cons]
    abel
  case case7 x a y b _ _ _ i _ hdrop | case8 x a y b _ _ _ i _ _ hdrop =>
    rw [coe_split (x :: a) i, hdrop]
    simp +zetaDelta only [coe_append, Multiset.coe_reverse, Multiset.coe_nil]
    abel
  case case9 x a y b _ _ _ i _ _ j _ _ hb _ ha =>
    rw [coe_split (x :: a) i, coe_cons y b, coe_split b j, ha, hb]
    simp +zetaDelta only [coe_append, coe_cons, Multiset.coe_reverse, Multiset.coe_nil]
    abel
  case case10 x a y b _ _ _ i _ _ j _ _ _ ha _ =>
    rw [coe_split (x :: a) i, coe_cons y b, coe_split b j, ha]
    simp +zetaDelta only [coe_append, coe_cons, Multiset.coe_reverse, Multiset.coe_nil]
    abel
  case case11 x a y b _ _ _ i _ _ j _ _ _ _ _ ha _ ih |
      case12 x a y b _ _ _ i _ _ j _ _ _ _ _ ha _ ih =>
    rw [ih, coe_split (x :: a) i, coe_cons y b, coe_split b j, ha]
    simp +zetaDelta only [coe_append, coe_cons, Multiset.coe_reverse]
    abel

theorem coe_mergeDown (lt : α → α → Bool) (fuel patience : Nat) (pace : Pace) (a b done : List α) :
    ((mergeDown lt fuel patience pace a b done).1 : Multiset α) = done + (a + b : Multiset α) := by
  fun_induction mergeDown lt fuel patience pace a b done
  case case1 | case2 | case3 | case4 =>
    simp only [coe_append, coe_cons, Multiset.coe_reverse, Multiset.coe_nil]
    abel
  case case5 ih | case6 ih =>
    rw [ih]
    simp only [coe_cons]
    abel
  case case7 x a y _ _ _ i _ b ha _ =>
    rw [coe_split (x :: a) i, ha]
    simp +zetaDelta only [coe_append, Multiset.coe_reverse, Multiset.coe_nil]
    abel
  case case8 x a y _ _ _ i _ _ _ _ =>
    rw [coe_split (x :: a) i]
    simp +zetaDelta only [coe_append, coe_cons, Multiset.coe_reverse, Multiset.coe_nil]
    abel
  case case9 x a y _ _ _ i _ _ b _ _ j _ _ hb _ ha |
      case10 x a y _ _ _ i _ _ b _ _ j _ _ _ hb _ ha =>
    rw [coe_split (x :: a) i, coe_cons y b, coe_split b j, ha, hb]
    simp +zetaDelta only [coe_append, coe_cons, Multiset.coe_reverse, Multiset.coe_nil]
    abel
  case case11 x a y _ _ _ i _ _ b _ _ j _ _ ha _ _ =>
    rw [coe_split (x :: a) i, coe_cons y b, coe_split b j, ha]
    simp +zetaDelta only [coe_append, coe_cons, Multiset.coe_reverse, Multiset.coe_nil]
    abel
  case case12 x a y _ _ _ i _ _ b _ _ j _ _ _ _ _ ha _ _ ih |
      case13 x a y _ _ _ i _ _ b _ _ j _ _ _ _ _ ha _ _ ih =>
    rw [ih, coe_split (x :: a) i, coe_cons y b, coe_split b j, ha]
    simp +zetaDelta only [coe_append, coe_cons, Multiset.coe_reverse]
    abel

/-- Merging two runs gives the items of both. -/
theorem coe_merge (lt : α → α → Bool) (patience : Nat) (a b : List α) :
    ((merge lt patience a b).1 : Multiset α) = (a + b : Multiset α) := by
  cases b with
  | nil => simp [merge]
  | cons y rest =>
    simp only [merge]
    generalize gallop (notGreaterAt lt a.toArray y) a.length 0 = k
    split
    · rename_i hnone
      rw [coe_split a k, List.reverse_eq_nil_iff.mp hnone]
      simp only [coe_append, Multiset.coe_nil, add_zero]
    · rename_i x ra hra
      have hback : ((a.drop k : List α) : Multiset α) = (x :: ra : List α) := by
        rw [← hra, Multiset.coe_reverse]
      generalize gallop (lessAt lt (y :: rest).toArray x) (y :: rest).length
        ((y :: rest).length - 1) = m
      split
      · rename_i hnone
        rw [coe_split a k, coe_split (y :: rest) m, hnone]
        simp only [coe_append, Multiset.coe_nil, zero_add]
      · rename_i y' rest' hsome
        generalize hfuel : (a.drop k).length + ((y :: rest).take m).length + 1 = fuel
        have hmerged : (((if (a.drop k).length ≤ ((y :: rest).take m).length then
            mergeUp lt fuel patience (.single 0 0) (a.drop k) rest' [y']
          else mergeDown lt fuel patience (.single 0 0) ra ((y :: rest).take m).reverse [x]).1 :
            List α) : Multiset α) = (a.drop k : List α) + ((y :: rest).take m : List α) := by
          split
          · rw [coe_mergeUp, hsome]
            simp only [coe_cons, Multiset.coe_nil]
            abel
          · rw [coe_mergeDown, hback, Multiset.coe_reverse]
            simp only [coe_cons, Multiset.coe_nil]
            abel
        rw [coe_split a k, coe_split (y :: rest) m]
        simp only [coe_append, hmerged]
        abel

/-! ## 3. The runs that wait -/

namespace Merging

/-- The items of the runs that wait. -/
def items (m : Merging α) : Multiset α := (m.waiting.map fun w => (w.run : Multiset α)).sum

/-- Merging two of the runs that wait keeps their items. -/
theorem coe_of_merge {lt : α → α → Bool} {patience patience' : Nat} {a b run : List α}
    (h : merge lt patience a b = (run, patience')) : (run : Multiset α) = (a + b : Multiset α) := by
  rw [← coe_merge lt patience a b, h]

theorem items_closeTo (lt : α → α → Bool) (depth fuel : Nat) (m : Merging α) :
    (m.closeTo lt depth fuel).items = m.items := by
  fun_induction closeTo lt depth fuel m with
  | case1 => rfl
  | case2 fuel m b a rest hwaiting hdepth run patience hmerge ih =>
    rw [ih]
    simp only [items, hwaiting, List.map_cons, List.sum_cons, coe_of_merge hmerge]
    abel
  | case3 => rfl
  | case4 => rfl

theorem items_add (lt : α → α → Bool) (n : Nat) (m : Merging α) (start : Nat) (run : List α) :
    (m.add lt n start run).items = m.items + (run : Multiset α) := by
  unfold add
  split
  · rename_i hwaiting
    simp [items, hwaiting]
  · rename_i w _ hwaiting
    have hclose := items_closeTo lt (w.depthBefore run.length n) m.waiting.length m
    dsimp only
    split
    · rename_i hnone
      rw [← hclose]
      simp [items, hnone]
    · rename_i w' rest hsome
      rw [← hclose]
      simp only [items, hsome, List.map_cons, List.sum_cons]
      abel

theorem coe_flatten_runs : ∀ ws : List (Waiting α),
    (((ws.map (·.run)).flatten : List α) : Multiset α) =
      (ws.map fun w => (w.run : Multiset α)).sum
  | [] => rfl
  | w :: ws => by
    rw [List.map_cons, List.flatten_cons, coe_append, coe_flatten_runs ws, List.map_cons,
      List.sum_cons]

theorem coe_close (lt : α → α → Bool) (fuel : Nat) (m : Merging α) :
    (m.close lt fuel : Multiset α) = m.items := by
  fun_induction close lt fuel m with
  | case1 m =>
    rw [coe_flatten_runs, List.map_reverse, List.sum_reverse, items]
  | case2 _ m hwaiting => simp [items, hwaiting]
  | case3 _ m w hwaiting => simp [items, hwaiting]
  | case4 _ m b a hwaiting =>
    simp only [coe_merge, items, hwaiting, List.map_cons, List.sum_cons, List.map_nil,
      List.sum_nil]
    abel
  | case5 _ m c b a rest hwaiting _ run patience hmerge ih =>
    rw [ih]
    simp only [items, hwaiting, List.map_cons, List.sum_cons, coe_of_merge hmerge]
    abel
  | case6 _ m c b a rest hwaiting _ run patience hmerge ih =>
    rw [ih]
    simp only [items, hwaiting, List.map_cons, List.sum_cons, coe_of_merge hmerge]
    abel

end Merging

/-! ## 4. Cutting a list into runs -/

theorem append_ascendingRun (lt : α → α → Bool) (a : α) (l : List α) :
    (ascendingRun lt a l).1 ++ (ascendingRun lt a l).2 = l := by
  fun_induction ascendingRun lt a l with
  | case1 => rfl
  | case2 => rfl
  | case3 a b l hlt run rest hrun ih =>
    rw [hrun] at ih
    rw [List.cons_append, ih]

theorem append_descendingRun (lt : α → α → Bool) (a : α) (l : List α) :
    (descendingRun lt a l).1 ++ (descendingRun lt a l).2 = l := by
  fun_induction descendingRun lt a l with
  | case1 => rfl
  | case2 a b l hlt run rest hrun ih =>
    rw [hrun] at ih
    rw [List.cons_append, ih]
  | case3 => rfl

/-- A list falls into its first run and the rest. -/
theorem coe_headRun (lt : α → α → Bool) (l : List α) :
    ((headRun lt l).1 : Multiset α) + ((headRun lt l).2 : Multiset α) = l := by
  fun_cases headRun lt l with
  | case1 => rfl
  | case2 a => simp
  | case3 a b l _ run rest hrun =>
    have happend := append_descendingRun lt a (b :: l)
    rw [hrun] at happend
    rw [← happend]
    simp only [Multiset.coe_reverse, coe_append, coe_cons]
    abel
  | case4 a b l _ run rest hrun =>
    have happend := append_ascendingRun lt a (b :: l)
    rw [hrun] at happend
    rw [← happend]
    simp only [coe_append, coe_cons]
    abel

theorem headRun_ne_nil (lt : α → α → Bool) {l : List α} (h : l ≠ []) : (headRun lt l).1 ≠ [] := by
  fun_cases headRun lt l <;> simp_all

/-- Something is taken off a list with its first run. -/
theorem length_headRun_lt (lt : α → α → Bool) {l : List α} (h : l ≠ []) :
    (headRun lt l).2.length < l.length := by
  have hcard := congrArg Multiset.card (coe_headRun lt l)
  have hpos := List.length_pos_iff.mpr (headRun_ne_nil lt h)
  simp only [Multiset.card_add, Multiset.coe_card] at hcard
  omega

theorem coe_insertByHalving (lt : α → α → Bool) (sorted : List α) (x : α) :
    (insertByHalving lt sorted x : Multiset α) = (sorted : Multiset α) + {x} := by
  simp only [insertByHalving]
  generalize halve (notGreaterAt lt sorted.toArray x) (sorted.length + 1) 0 sorted.length = i
  rw [coe_append, coe_cons, coe_split sorted i]
  abel

theorem coe_insertAll (lt : α → α → Bool) : ∀ l sorted : List α,
    ((l.foldl (insertByHalving lt) sorted : List α) : Multiset α) = (sorted + l : Multiset α)
  | [], sorted => by simp
  | x :: l, sorted => by
    rw [List.foldl_cons, coe_insertAll lt l, coe_insertByHalving, coe_cons, add_assoc]

/-- All items of a list are added, if there is a round for each of them. -/
theorem items_addRuns (lt : α → α → Bool) (n : Nat) : ∀ (fuel : Nat) (m : Merging α) (l : List α),
    l.length ≤ fuel → (addRuns lt n fuel m l).items = m.items + (l : Multiset α)
  | 0, m, l, hl => by
    rw [List.length_eq_zero_iff.mp (Nat.le_zero.mp hl)]
    simp [addRuns]
  | fuel + 1, m, [], _ => by simp [addRuns]
  | fuel + 1, m, a :: l, hl => by
    have hrun := coe_headRun lt (a :: l)
    have hlt := length_headRun_lt lt (List.cons_ne_nil a l)
    rw [addRuns, items_addRuns lt n fuel, Merging.items_add, coe_insertAll, ← hrun]
    · generalize leastRun n - (headRun lt (a :: l)).1.length = missing
      rw [coe_split (headRun lt (a :: l)).2 missing]
      abel
    · rw [List.length_drop]
      omega
    · simp

/-- **Sorting rearranges**: whatever the comparison, the result has the items of the list, each as
often as the list. -/
theorem sortBy_perm (lt : α → α → Bool) (l : List α) : (sortBy lt l).Perm l := by
  rw [← Multiset.coe_eq_coe, sortBy, Merging.coe_close,
    items_addRuns lt l.length l.length {} l le_rfl]
  simp [Merging.items]

end TraceLift.Order
