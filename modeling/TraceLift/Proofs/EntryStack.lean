/-
# What a symbolic stack stands for

A symbolic stack lies on a stack of which it knows nothing, the ENTRY STACK, which goes down for
ever.  A stand-in for position `p` stands for entry `p`, and every other variable stands for itself.
So on a given entry stack a symbolic stack stands for one sequence without end (`Stack.readOn`): its
items from the top down, and then the entries that were not taken yet.

Each operation is then an operation on that sequence (`StackOp.act`), whether it finds all its items
on the symbolic stack or has to make some up.

* **Taking and putting back.**  Items taken one after the other are the front of the sequence, and
  what is left is the rest of it (`readOn_popMany`); items that are put on a stack stand in front of
  its sequence (`readOn_append`).  A copy and an exchange are made of these two.
* **One operation** (`readOn_perform`), and **a run** from an empty stack (`readOn_of_reached`): the
  symbolic stack follows the sequence as long as no item is pushed on a full stack, where it would
  be dropped.
-/
import Mathlib.Data.List.Basic
import Mathlib.Data.Stream.Init
import Mathlib.Logic.Equiv.Basic
import TraceLift.Proofs.StackMachine

namespace TraceLift

open Stream'

/-! ## 1. Sequences -/

/-- What a variable stands for on an entry stack: a stand-in for the entry at its position, any
other variable for itself. -/
def Variable.readOn (E : Stream' Variable) (v : Variable) : Variable :=
  match v.kind with
  | .standIn (some p) => E.get p.toNat
  | _ => v

/-- The sequence that a stack stands for on an entry stack. -/
def Stack.readOn (E : Stream' Variable) (s : Stack Variable) : Stream' Variable :=
  s.items.map (·.readOn E) ++ₛ E.drop s.emptyPops

/-- A sequence with the top element and the one `n` places below it exchanged. -/
def exchanged {α : Type} (n : Nat) (d : Stream' α) : Stream' α := fun i => d.get (Equiv.swap 0 n i)

/-- An operation on a stack.  Copies and exchanges count from one at the top. -/
inductive StackOp where
  | push (v : Variable)
  | pop
  | dup (n : Nat)
  | swap (n : Nat)

namespace StackOp

/-- Carries out an operation on a symbolic stack. -/
def perform (s : Stack Variable) : StackOp → Except Fault (Stack Variable)
  | push v => .ok (s.push v)
  | pop => .ok s.pop.2
  | dup n => s.dup n
  | swap n => s.swap n

/-- What an operation does to a sequence. -/
def act (d : Stream' Variable) : StackOp → Stream' Variable
  | push v => v :: d
  | pop => d.tail
  | dup n => d.get (n - 1) :: d
  | swap n => exchanged (n - 1) d

/-- An operation pushes no stand-in, copies some item or exchanges two, and no item that it pushes
meets a full stack.  A copy puts back one item more than it takes. -/
def Fits (s : Stack Variable) : StackOp → Prop
  | push v => v.kind = .plain ∧ s.HasRoom 1
  | pop => True
  | dup n => 1 ≤ n ∧ (s.popMany n).2.HasRoom (n + 1)
  | swap n => 2 ≤ n ∧ (s.popMany n).2.HasRoom n

instance (s : Stack Variable) : (op : StackOp) → Decidable (op.Fits s)
  | push _ => inferInstanceAs (Decidable (_ ∧ _))
  | pop => inferInstanceAs (Decidable True)
  | dup _ => inferInstanceAs (Decidable (_ ∧ _))
  | swap _ => inferInstanceAs (Decidable (_ ∧ _))

end StackOp

/-- A stack comes from an empty one by operations that fit. -/
inductive Reached : List StackOp → Stack Variable → Prop
  | start (maxSize minMaxSize : Int) (depth : Option Int) :
      Reached [] (Stack.make [] maxSize minMaxSize depth)
  | step {ops : List StackOp} {op : StackOp} {s s' : Stack Variable} (before : Reached ops s)
      (fits : op.Fits s) (performed : op.perform s = .ok s') : Reached (ops ++ [op]) s'

/-! ## 2. Taking and putting back -/

variable (E : Stream' Variable)

theorem Variable.readOn_plain {v : Variable} (h : v.kind = .plain) : v.readOn E = v := by
  simp [readOn, h]

@[simp] theorem Variable.readOn_below (n : Nat) :
    (StackItem.below n : Variable).readOn E = E.get n := rfl

namespace Stack

theorem readOn_pop (s : Stack Variable) :
    s.readOn E = s.pop.1.readOn E :: s.pop.2.readOn E := by
  unfold pop
  split
  · rename_i a rest hitems
    simp [readOn, hitems, cons_append_stream]
  · rename_i hitems
    -- the entry on top is taken, and the sequence begins with it
    simp only [readOn, hitems, List.map_nil, nil_append_stream, Variable.readOn_below]
    rw [← head_drop, ← tail_drop', Stream'.eta]

theorem readOn_popMany (n : Nat) (s : Stack Variable) :
    s.readOn E = (s.popMany n).1.map (·.readOn E) ++ₛ (s.popMany n).2.readOn E := by
  induction n generalizing s with
  | zero => rfl
  | succ n ih =>
    rw [s.readOn_pop E, ih s.pop.2]
    rfl

/-- Items that are put on a stack stand in front of its sequence. -/
theorem readOn_append (l : List Variable) (s : Stack Variable) :
    readOn E { s with items := l ++ s.items } = l.map (·.readOn E) ++ₛ s.readOn E := by
  rw [readOn, readOn, List.map_append, append_append_stream]

theorem readOn_dup {s : Stack Variable} {n : Nat} (hn : 1 ≤ n)
    (hroom : (s.popMany n).2.HasRoom (n + 1)) :
    ∃ s', s.dup n = .ok s' ∧ s'.readOn E = (s.readOn E).get (n - 1) :: s.readOn E := by
  have hwhole := s.readOn_popMany E n
  have hlength := length_popMany n s
  rcases (s.popMany n).1.eq_nil_or_concat' with hnil | ⟨front, a, htaken⟩
  · rw [hnil, List.length_nil] at hlength
    omega
  rw [htaken] at hwhole hlength
  have hcopy : copyLast (s.popMany n).1 = some (a :: (front ++ [a])) := by
    rw [htaken, copyLast, List.getLast?_concat, Option.map_some]
  have hfront : n - 1 = (front.map (·.readOn E)).length := by
    rw [← hlength, List.length_append, List.length_map]
    rfl
  -- the last item taken is the element that is copied
  have hlast : (s.readOn E).get (n - 1) = a.readOn E := by
    rw [hwhole, hfront, List.map_append, append_append_stream, get_append_length]
    rfl
  refine ⟨_, rearrange_eq hcopy (by rwa [List.length_cons, hlength]), ?_⟩
  rw [readOn_append, List.map_cons, cons_append_stream, ← hwhole, hlast]

theorem get_exchanged {α : Type} (n i : Nat) (d : Stream' α) :
    (exchanged n d).get i = d.get (Equiv.swap 0 n i) := rfl

/-- Exchanging the ends of the front of a sequence permutes the sequence. -/
theorem append_exchanged {α : Type} (a b : α) (mid : List α) (d : Stream' α) :
    (b :: (mid ++ [a])) ++ₛ d = exchanged (mid.length + 1) ((a :: (mid ++ [b])) ++ₛ d) := by
  have hsplit : ∀ x y : α, (x :: (mid ++ [y])) ++ₛ d = x :: (mid ++ₛ y :: d) := by
    intro x y
    rw [cons_append_stream, append_append_stream]
    rfl
  rw [hsplit, hsplit]
  ext i
  rw [get_exchanged]
  cases i with
  | zero => simp [Equiv.swap_apply_left]
  | succ j =>
    rcases Nat.lt_trichotomy j mid.length with hj | rfl | hj
    · rw [Equiv.swap_apply_of_ne_of_ne (by omega) (by omega), get_succ_cons, get_succ_cons,
        get_append_left j mid _ hj, get_append_left j mid _ hj]
    · simp [Equiv.swap_apply_right]
    · obtain ⟨m, rfl⟩ := Nat.exists_eq_add_of_lt hj
      rw [Equiv.swap_apply_of_ne_of_ne (by omega) (by omega), get_succ_cons, get_succ_cons,
        Nat.add_assoc, get_append_right, get_append_right, get_succ_cons, get_succ_cons]

theorem readOn_swap {s : Stack Variable} {n : Nat} (hn : 2 ≤ n)
    (hroom : (s.popMany n).2.HasRoom n) :
    ∃ s', s.swap n = .ok s' ∧ s'.readOn E = exchanged (n - 1) (s.readOn E) := by
  have hwhole := s.readOn_popMany E n
  have hlength := length_popMany n s
  rcases htaken : (s.popMany n).1 with _ | ⟨a, l⟩
  · rw [htaken, List.length_nil] at hlength
    omega
  rcases l.eq_nil_or_concat' with rfl | ⟨mid, b, rfl⟩
  · rw [htaken, List.length_singleton] at hlength
    omega
  rw [htaken] at hwhole hlength
  have hexchange : exchangeEnds (s.popMany n).1 = some (b :: (mid ++ [a])) := by
    rw [htaken, exchangeEnds, ← List.cons_append, List.getLast?_concat]
    simp
  have hmid : n - 1 = (mid.map (·.readOn E)).length + 1 := by
    rw [← hlength, List.length_cons, List.length_append, List.length_map]
    rfl
  have hput : (s.popMany n).2.HasRoom (b :: (mid ++ [a])).length := by
    simpa [← hlength] using hroom
  refine ⟨_, rearrange_eq hexchange hput, ?_⟩
  rw [readOn_append, hwhole, hmid, List.map_cons, List.map_cons, List.map_append, List.map_append]
  exact append_exchanged (a.readOn E) (b.readOn E) (mid.map (·.readOn E))
    ((s.popMany n).2.readOn E)

theorem readOn_peek (s : Stack Variable) (n : Nat) :
    ∃ v, s.peek n = .ok v ∧ v.readOn E = (s.readOn E).get n := by
  unfold peek
  split
  · rename_i hbelow
    obtain ⟨m, rfl⟩ := Nat.exists_eq_add_of_le (by omega : s.items.length ≤ n)
    refine ⟨_, rfl, ?_⟩
    have hget := get_append_right m (s.items.map (·.readOn E)) (E.drop s.emptyPops)
    rw [List.length_map, get_drop, Nat.add_comm s.emptyPops] at hget
    have hdepth : ((s.items.length + m : Nat) - s.items.length : Int).toNat = m := by omega
    rw [hdepth, Variable.readOn_below, readOn, hget]
  · rename_i hinside
    have hlt : n < s.items.length := by omega
    refine ⟨s.items[n], by simp [hlt], ?_⟩
    rw [readOn, get_append_left n _ _ (by simpa using hlt), List.getElem_map]

end Stack

/-! ## 3. Runs -/

/-- **One operation.**  It can be carried out, and does to the sequence what it should. -/
theorem StackOp.readOn_perform {s : Stack Variable} {op : StackOp} (h : op.Fits s) :
    ∃ s', op.perform s = .ok s' ∧ s'.readOn E = op.act (s.readOn E) := by
  cases op with
  | push v =>
    refine ⟨s.push v, rfl, ?_⟩
    have hpush : s.push v = { s with items := [v] ++ s.items } := Stack.pushMany_eq (l := [v]) h.2
    rw [hpush, Stack.readOn_append, List.map_singleton, Variable.readOn_plain E h.1]
    rfl
  | pop => exact ⟨_, rfl, by rw [s.readOn_pop E]; rfl⟩
  | dup n => exact Stack.readOn_dup E h.1 h.2
  | swap n => exact Stack.readOn_swap E h.1 h.2

/-- **A run.**  From an empty stack the sequence is what the operations make of the entry stack. -/
theorem readOn_of_reached {ops : List StackOp} {s : Stack Variable} (h : Reached ops s) :
    s.readOn E = ops.foldl StackOp.act E := by
  induction h with
  | start maxSize minMaxSize depth => simp [Stack.make, Stack.setMaxSize, Stack.clip, Stack.readOn]
  | step _ fits performed ih =>
    obtain ⟨s', hs', hread⟩ := StackOp.readOn_perform E fits
    rw [performed] at hs'
    rw [Except.ok.inj hs', hread, List.foldl_append, ih]
    rfl

/-- **The symbolic stack follows the sequence.**  Every stack that comes from an empty one by
operations that fit stands, on every entry stack, for what these operations make of the entry stack.
Whatever fits next can be carried out on it and does the same to the sequence; the item that is
taken is the head of the sequence; and looking so many places down finds the element there. -/
theorem stack_follows_entries {ops : List StackOp} {s : Stack Variable} (h : Reached ops s)
    (E : Stream' Variable) :
    s.readOn E = ops.foldl StackOp.act E ∧
      (∀ op : StackOp, op.Fits s →
        ∃ s', op.perform s = .ok s' ∧ s'.readOn E = op.act (s.readOn E)) ∧
      s.pop.1.readOn E = (s.readOn E).head ∧
      ∀ n : Nat, ∃ v, s.peek n = .ok v ∧ v.readOn E = (s.readOn E).get n :=
  ⟨readOn_of_reached E h, fun _ hfits => StackOp.readOn_perform E hfits,
    by rw [s.readOn_pop E]; rfl, s.readOn_peek E⟩

/-- A variable with the value five. -/
def fiveVar : Variable := .ofValues [5] "V0" .bottom

/-- An entry is dropped, and a copy reaches below the one item that was pushed. -/
def copyFromBelow : List StackOp := [.pop, .push fiveVar, .dup 3, .swap 2]

/-- The stack after these.  Entries 0 to 2 are gone from below, and entry 2 is there twice. -/
def copiedStack : Stack Variable :=
  { items := [fiveVar, .ofPosition 2 .bottom, .ofPosition 1 .bottom, .ofPosition 2 .bottom],
    emptyPops := 3 }

theorem copiedStack_follows : Reached copyFromBelow copiedStack ∧ ∀ E : Stream' Variable,
    copiedStack.readOn E = exchanged 1 (E.get 2 :: fiveVar :: E.tail) ∧
      ∃ v, copiedStack.peek 6 = .ok v ∧ v.readOn E = E.get 5 := by
  have hdropped : Reached [.pop] { emptyPops := 1 } := .step (.start 1024 20 none) trivial rfl
  have hpushed : Reached [.pop, .push fiveVar] { items := [fiveVar], emptyPops := 1 } :=
    .step hdropped (by decide) rfl
  have hcopied : Reached [.pop, .push fiveVar, .dup 3]
      { items := [.ofPosition 2 .bottom, fiveVar, .ofPosition 1 .bottom, .ofPosition 2 .bottom],
        emptyPops := 3 } := .step hpushed (by decide) rfl
  have hreached : Reached copyFromBelow copiedStack := .step hcopied (by decide) rfl
  refine ⟨hreached, fun E => ?_⟩
  obtain ⟨hread, -, -, hpeek⟩ := stack_follows_entries hreached E
  exact ⟨hread, hpeek 6⟩

end TraceLift
