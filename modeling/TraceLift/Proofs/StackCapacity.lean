/-
# Stacks keep their capacity

A stack has a capacity, and a least value below which the capacity never falls.  What is pushed on a
full stack is dropped without notice, so an operation that takes items and puts them back, one more
than it took or in another order, could lose some at the limit.

* **Moves.**  Copies, exchanges and the operations on several items are made of single pushes and
  pops.  A single one leaves the capacity alone, keeps the stack within it, and counts the items
  taken from below the bottom upwards only; so does every operation that is made of them
  (`Moves.keepsBounds`).
* **Capacities.**  Setting the capacity keeps the topmost items that it has room for
  (`items_setMaxSize`).  This needs a least capacity of one: without it, a capacity of zero would
  keep all of them.  Meet and join build their results in this way, whatever they are given.
* **At the limit** a copy finds no room for its one item more, which it pushes last, so the stack is
  the one it was (`dup_of_full`).  An exchange puts back as many as it took (`exchange_perm`).

`stacks_keep_capacity` says this of every stack that comes from such operations (`Built`).
-/
import Mathlib.Data.List.Perm.Basic
import TraceLift.Proofs.EntryStack
import TraceLift.Stack.Lattice

namespace TraceLift

/-! ## 1. Moves -/

namespace Stack

/-- A stack with a least capacity of one that keeps within its capacity. -/
structure Bounded {α : Type} (s : Stack α) : Prop where
  least : 1 ≤ s.minMaxSize
  within : (s.size : Int) ≤ s.maxSize

/-- From one stack to another the bounds were kept, and no item from below was forgotten. -/
structure KeepsBounds {α : Type} (s s' : Stack α) : Prop where
  bounded : s.Bounded → s'.Bounded
  emptyPops : s.emptyPops ≤ s'.emptyPops

theorem KeepsBounds.rfl {α : Type} {s : Stack α} : s.KeepsBounds s := ⟨id, Nat.le_refl _⟩

theorem KeepsBounds.trans {α : Type} {s t u : Stack α} (h : s.KeepsBounds t)
    (h' : t.KeepsBounds u) : s.KeepsBounds u :=
  ⟨fun hs => h'.bounded (h.bounded hs), Nat.le_trans h.emptyPops h'.emptyPops⟩

section Moves

variable {α : Type} [StackItem α]

theorem Move.keepsBounds {s s' : Stack α} (h : Move s s') : s.KeepsBounds s' := by
  cases h with
  | push a =>
    unfold Stack.push
    split
    · rename_i hroom
      refine ⟨fun hs => ⟨hs.least, ?_⟩, Nat.le_refl _⟩
      simp only [size, List.length_cons]
      omega
    · exact .rfl
  | pop =>
    unfold Stack.pop
    split
    · rename_i a rest hitems
      refine ⟨fun hs => ⟨hs.least, ?_⟩, Nat.le_refl _⟩
      have hwithin := hs.within
      simp only [size, hitems, List.length_cons] at hwithin ⊢
      omega
    · exact ⟨fun hs => ⟨hs.least, hs.within⟩, Nat.le_succ _⟩

/-- **A run of moves** does what each of them does. -/
theorem Moves.keepsBounds {s s' : Stack α} (h : Moves s s') : s.KeepsBounds s' := by
  induction h with
  | refl => exact .rfl
  | tail _ hmove ih => exact ih.trans hmove.keepsBounds

end Moves

/-! ## 2. Capacities -/

section Capacity

variable {α : Type} {s : Stack α}

/-- Setting the capacity keeps the topmost items. -/
theorem items_setMaxSize (h : 1 ≤ s.minMaxSize) (k : Int) :
    (s.setMaxSize k).items = s.items.take (max s.minMaxSize k).toNat := by
  have hpos : 0 < max s.minMaxSize k := by omega
  simp only [setMaxSize, clip, if_pos hpos]

theorem bounded_setMaxSize (h : 1 ≤ s.minMaxSize) (k : Int) : (s.setMaxSize k).Bounded := by
  refine ⟨h, ?_⟩
  rw [size, items_setMaxSize h, List.length_take]
  change _ ≤ max s.minMaxSize k
  omega

theorem bounded_make (items : List α) (maxSize : Int) {minMaxSize : Int} (h : 1 ≤ minMaxSize)
    (depth : Option Int) : (make items maxSize minMaxSize depth).Bounded :=
  bounded_setMaxSize h maxSize

theorem Bounded.copy (h : s.Bounded) : s.copy.Bounded := ⟨by simp [Stack.copy], h.within⟩

end Capacity

theorem length_standInFrom (l : List Variable) (position : Nat) :
    (standInFrom position l).length = l.length := by
  induction l generalizing position with
  | nil => rfl
  | cons v l ih => rw [standInFrom, List.length_cons, List.length_cons, ih]

theorem Bounded.toStandIns {s : Stack Variable} (h : s.Bounded) : s.toStandIns.Bounded := by
  refine ⟨h.least, ?_⟩
  rw [size, Stack.toStandIns, length_standInFrom]
  exact h.within

/-- A meet is bounded whatever it is made of, since it is built with a capacity of its own. -/
theorem bounded_meet (s t : Stack Variable) : (s.meet t).Bounded := bounded_make _ _ (by decide) _

theorem bounded_join (s t : Stack Variable) : (s.join t).Bounded := bounded_make _ _ (by decide) _

theorem bounded_joinAll (l : List (Stack Variable)) : (joinAll l).Bounded := by
  rcases l.eq_nil_or_concat' with rfl | ⟨l, s, rfl⟩
  · exact bounded_make _ _ (by decide) _
  · rw [joinAll, List.foldl_append]
    exact bounded_join _ s

/-! ## 3. At the limit -/

section Limit

variable {α : Type} {s : Stack α} {n : Nat}

theorem push_of_full (h : (s.size : Int) = s.maxSize) (a : α) : s.push a = s := by
  rw [push, if_neg]
  rw [← h]
  exact Int.lt_irrefl _

theorem pushMany_append (l m : List α) : s.pushMany (l ++ m) = (s.pushMany l).pushMany m :=
  List.foldl_append

theorem exchange_perm {l : List α} (hn : 0 < n) (h : n + 1 ≤ l.length) :
    (StackMachine.exchange n l).Perm l := by
  obtain ⟨a, mid, b, tail, rfl, rfl⟩ := exists_exchanged hn h
  have hexchange : StackMachine.exchange (mid.length + 1) (a :: (mid ++ b :: tail)) =
      b :: (mid ++ a :: tail) := by simp [StackMachine.exchange]
  rw [hexchange]
  calc List.Perm (b :: (mid ++ a :: tail)) (b :: a :: (mid ++ tail)) := List.perm_middle.cons b
    List.Perm _ (a :: b :: (mid ++ tail)) := .swap a b _
    List.Perm _ (a :: (mid ++ b :: tail)) := List.perm_middle.symm.cons a

variable [StackItem α]

/-- Items that were taken fit when they are put back. -/
theorem pushMany_taken (hn : n ≤ s.size) (h : (s.size : Int) ≤ s.maxSize) :
    (s.popMany n).2.pushMany (s.items.take n).reverse = s := by
  rw [popMany_eq n s hn, pushMany_eq]
  · simp
  · rw [size] at h hn
    simp only [HasRoom, List.length_drop, List.length_reverse, List.length_take]
    omega

/-- **Copying on a full stack** changes nothing. -/
theorem dup_of_full (hn : 1 ≤ n) (hsize : n ≤ s.size) (hfull : (s.size : Int) = s.maxSize) :
    s.dup n = .ok s := by
  have hne : s.items.take n ≠ [] := by
    rw [← List.length_pos_iff, List.length_take]
    rw [size] at hsize
    omega
  have hitems : (s.popMany n).1 = s.items.take n := by rw [popMany_eq n s hsize]
  simp only [dup, rearrange, copyLast, hitems, List.getLast?_eq_some_getLast hne, Option.map_some]
  -- the items come back first, and then there is no room left
  rw [List.reverse_cons, pushMany_append, pushMany_taken hsize (Int.le_of_eq hfull)]
  exact congrArg Except.ok (push_of_full hfull _)

/-- **Exchanging items of a stack** loses none. -/
theorem exists_swap_perm (hn : 2 ≤ n) (hsize : n ≤ s.size) (hs : s.Bounded) :
    ∃ s', s.swap n = .ok s' ∧ s'.items.Perm s.items := by
  obtain ⟨m, rfl⟩ : ∃ m, n = m + 1 := ⟨n - 1, by omega⟩
  exact ⟨_, swap_eq s (by omega) hsize hs.within, exchange_perm (by omega) hsize⟩

end Limit

end Stack

/-! ## 4. Runs -/

/-- An operation that changes a stack, or goes on with a copy of it. -/
inductive StackEdit where
  | op (o : StackOp)
  | pushMany (l : List Variable)
  | popMany (n : Nat)
  | setMaxSize (k : Int)
  | toStandIns
  | copy

namespace StackEdit

/-- Carries out an operation. -/
def perform (s : Stack Variable) : StackEdit → Except Fault (Stack Variable)
  | op o => o.perform s
  | pushMany l => .ok (s.pushMany l)
  | popMany n => .ok (s.popMany n).2
  | setMaxSize k => .ok (s.setMaxSize k)
  | toStandIns => .ok s.toStandIns
  | copy => .ok s.copy

/-- A copy is of some item, and an exchange is of two. -/
def Counts : StackEdit → Prop
  | op (.dup n) => 1 ≤ n
  | op (.swap n) => 2 ≤ n
  | _ => True

theorem exists_perform {e : StackEdit} (h : e.Counts) (s : Stack Variable) :
    ∃ s', e.perform s = .ok s' := by
  rcases e with (v | _ | n | n) | l | n | k | _ | _
  case op.dup => exact s.exists_dup h
  case op.swap => exact s.exists_swap (Nat.lt_of_lt_of_le Nat.zero_lt_two h)
  all_goals exact ⟨_, rfl⟩

/-- **One operation** keeps the bounds and forgets no item from below. -/
theorem keepsBounds_of_perform {e : StackEdit} {s s' : Stack Variable} (h : e.perform s = .ok s') :
    s.KeepsBounds s' := by
  rcases e with (v | _ | n | n) | l | n | k | _ | _
  case op.dup => exact (Stack.moves_rearrange h).keepsBounds
  case op.swap => exact (Stack.moves_rearrange h).keepsBounds
  all_goals obtain rfl := Except.ok.inj h
  case op.push => exact (Stack.Move.push s v).keepsBounds
  case op.pop => exact (Stack.Move.pop s).keepsBounds
  case pushMany => exact (Stack.moves_pushMany l s).keepsBounds
  case popMany => exact (Stack.moves_popMany n s).keepsBounds
  case setMaxSize => exact ⟨fun hs => Stack.bounded_setMaxSize hs.least k, Nat.le_refl _⟩
  case toStandIns => exact ⟨Stack.Bounded.toStandIns, Nat.le_refl _⟩
  case copy => exact ⟨Stack.Bounded.copy, Nat.le_refl _⟩

/-- **A run of operations** can be carried out and does what each of them does. -/
theorem exists_run {edits : List StackEdit} (h : ∀ e ∈ edits, e.Counts) (s : Stack Variable) :
    ∃ s', edits.foldlM perform s = .ok s' ∧ s.KeepsBounds s' := by
  induction edits generalizing s with
  | nil => exact ⟨s, rfl, .rfl⟩
  | cons e edits ih =>
    obtain ⟨he, hedits⟩ := List.forall_mem_cons.mp h
    obtain ⟨t, ht⟩ := exists_perform he s
    obtain ⟨s', hs', hkeeps⟩ := ih hedits t
    refine ⟨s', ?_, (keepsBounds_of_perform ht).trans hkeeps⟩
    rw [List.foldlM_cons, ht]
    exact hs'

end StackEdit

/-- A stack that was made with a least capacity of one or more, or comes from such stacks by
operations, meets and joins. -/
inductive Built : Stack Variable → Prop
  | make (items : List Variable) (maxSize : Int) {minMaxSize : Int} (least : 1 ≤ minMaxSize)
      (depth : Option Int) : Built (.make items maxSize minMaxSize depth)
  | edit {s s' : Stack Variable} {e : StackEdit} (before : Built s) (counts : e.Counts)
      (performed : e.perform s = .ok s') : Built s'
  | meet {s t : Stack Variable} (left : Built s) (right : Built t) : Built (s.meet t)
  | join {s t : Stack Variable} (left : Built s) (right : Built t) : Built (s.join t)
  | joinAll {l : List (Stack Variable)} (members : ∀ s ∈ l, Built s) : Built (.joinAll l)

theorem Built.bounded {s : Stack Variable} (h : Built s) : s.Bounded := by
  induction h with
  | make items maxSize least depth => exact Stack.bounded_make items maxSize least depth
  | edit _ _ performed ih => exact (StackEdit.keepsBounds_of_perform performed).bounded ih
  | @meet s t _ _ _ _ => exact Stack.bounded_meet s t
  | @join s t _ _ _ _ => exact Stack.bounded_join s t
  | @joinAll l _ _ => exact Stack.bounded_joinAll l

/-- **Stacks keep their capacity.**  Every stack that comes from one with a least capacity of one or
more, by operations, meets and joins, has at most as many items as its capacity.  Any further
operations on it can be carried out, leave it within its capacity, and never count the items taken
from below downwards.  Setting the capacity to `k` keeps the topmost items, as many as the greater
of `k` and the least capacity.  On a full stack a copy of one of its items leaves it as it was, and
an exchange of two of its items loses none. -/
theorem stacks_keep_capacity {s : Stack Variable} (h : Built s) :
    (s.size : Int) ≤ s.maxSize ∧
    (∀ edits : List StackEdit, (∀ e ∈ edits, e.Counts) →
      ∃ s', edits.foldlM StackEdit.perform s = .ok s' ∧ (s'.size : Int) ≤ s'.maxSize ∧
        s.emptyPops ≤ s'.emptyPops) ∧
    (∀ k, (s.setMaxSize k).maxSize = max s.minMaxSize k ∧
      (s.setMaxSize k).items = s.items.take (max s.minMaxSize k).toNat) ∧
    (∀ n, 1 ≤ n → n ≤ s.size → (s.size : Int) = s.maxSize → s.dup n = .ok s) ∧
    ∀ n, 2 ≤ n → n ≤ s.size → ∃ s', s.swap n = .ok s' ∧ s'.items.Perm s.items := by
  have hbounded := h.bounded
  refine ⟨hbounded.within, fun edits hedits => ?_, fun k => ⟨rfl, ?_⟩, fun n => ?_, fun n => ?_⟩
  · obtain ⟨s', hrun, hkeeps⟩ := StackEdit.exists_run hedits s
    exact ⟨s', hrun, (hkeeps.bounded hbounded).within, hkeeps.emptyPops⟩
  · exact Stack.items_setMaxSize hbounded.least k
  · exact Stack.dup_of_full
  · intro hn hsize
    exact Stack.exists_swap_perm hn hsize hbounded

/-- Three items where there is room for two, and the least capacity is one. -/
def fullStack : Stack Variable :=
  .make [.top "a" .bottom, fiveVar, .bottom "b" .bottom] 2 1 none

/-- The same stack after five items were taken, three of them from below. -/
def drainedStack : Stack Variable := (fullStack.popMany 5).2

/-- Copies an item from below at the least capacity, and goes on with a copy of the stack, which has
the usual least capacity. -/
def refill : List StackEdit :=
  [.setMaxSize (-3), .op (.dup 2), .copy, .pushMany [fiveVar, fiveVar], .op (.swap 4),
    .setMaxSize 0, .toStandIns]

theorem fullStack_keeps_capacity :
    (Built fullStack ∧ Built drainedStack) ∧
    ((fullStack.size : Int) = fullStack.maxSize ∧ fullStack.dup 2 = .ok fullStack ∧
      (∃ s', fullStack.swap 2 = .ok s' ∧ s'.items.Perm fullStack.items) ∧
      (fullStack.setMaxSize (-7)).items = fullStack.items.take 1) ∧
    (drainedStack.emptyPops = 3 ∧
      ∃ s', refill.foldlM StackEdit.perform drainedStack = .ok s' ∧
        (s'.size : Int) ≤ s'.maxSize ∧ 3 ≤ s'.emptyPops) := by
  have hfull : Built fullStack := .make _ 2 (Int.le_refl 1) none
  have hdrained : Built drainedStack := hfull.edit (e := .popMany 5) trivial rfl
  have hcounts : ∀ e ∈ refill, e.Counts := by simp [refill, StackEdit.Counts]
  obtain ⟨-, -, hset, hdup, hswap⟩ := stacks_keep_capacity hfull
  obtain ⟨-, hrun, -⟩ := stacks_keep_capacity hdrained
  have hsize : (fullStack.size : Int) = fullStack.maxSize := by decide
  refine ⟨⟨hfull, hdrained⟩, ⟨hsize, ?_, ?_, (hset (-7)).2⟩, rfl, hrun refill hcounts⟩
  · exact hdup 2 (by decide) (by decide) hsize
  · exact hswap 2 (by decide) (by decide)

end TraceLift
