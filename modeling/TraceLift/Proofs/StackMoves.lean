/-
# Stack operations are made of moves

Copies, exchanges and the operations on several items take items one by one and put them back one
by one.  So what is known of a single push and a single pop is known of all of them, and an account
of stacks has to look at these two only.

* **Moves** (`Moves`).  What a single move leaves alone, every operation does (`Moves.keeps`).
* **Stacks handled alike** (`Respects`).  A relation between two kinds of stacks that a push of
  related items and a pop respect is respected by every operation (`Respects.rearrange`): what is
  put back depends on the PLACES of the items that were taken, never on what they are (`Uniform`).
  Two relations of this kind are used below, a stack with other items in the same places
  (`relabel`) and a stack all of whose items have a property (`All`).
* **Enough room** (`rearrange_eq`).  If no push meets a full stack, the items that are put back lie
  on those that were not taken.
-/
import Mathlib.Logic.Relation
import TraceLift.Proofs.Computations
import TraceLift.Stack.Basic

namespace TraceLift.Stack

/-! ## 1. Moves -/

section Moves

variable {α : Type}

/-- One stack is of the same frame as another: it has its depth and its capacity. -/
structure Keeps (s s' : Stack α) : Prop where
  depth : s'.depth = s.depth
  maxSize : s'.maxSize = s.maxSize

theorem Keeps.rfl {s : Stack α} : s.Keeps s := ⟨Eq.refl _, Eq.refl _⟩

theorem Keeps.trans {s t u : Stack α} (h : s.Keeps t) (h' : t.Keeps u) : s.Keeps u :=
  ⟨h'.depth.trans h.depth, h'.maxSize.trans h.maxSize⟩

variable [StackItem α] {s s' : Stack α}

/-- One item is put on a stack, or one is taken. -/
inductive Move : Stack α → Stack α → Prop
  | push (s : Stack α) (a : α) : Move s (s.push a)
  | pop (s : Stack α) : Move s s.pop.2

/-- Items are put on a stack and taken, one after the other. -/
abbrev Moves : Stack α → Stack α → Prop := Relation.ReflTransGen Move

theorem moves_pushMany : ∀ (l : List α) (s : Stack α), Moves s (s.pushMany l)
  | [], _ => .refl
  | a :: l, s => (moves_pushMany l (s.push a)).head (.push s a)

theorem moves_popMany : ∀ (n : Nat) (s : Stack α), Moves s (s.popMany n).2
  | 0, _ => .refl
  | n + 1, s => (moves_popMany n s.pop.2).head (.pop s)

theorem moves_rearrange {n : Nat} {f : List α → Option (List α)}
    (h : s.rearrange n f = .ok s') : Moves s s' := by
  simp only [rearrange] at h
  split at h
  · rw [← Except.ok.inj h]
    exact (moves_popMany n s).trans (moves_pushMany _ _)
  · exact absurd h (by simp)

theorem Move.keeps (h : Move s s') : s.Keeps s' := by
  cases h with
  | push a =>
    unfold Stack.push
    split <;> exact ⟨rfl, rfl⟩
  | pop =>
    unfold Stack.pop
    split <;> exact ⟨rfl, rfl⟩

theorem Moves.keeps (h : Moves s s') : s.Keeps s' := by
  induction h with
  | refl => exact .rfl
  | tail _ hmove ih => exact ih.trans hmove.keeps

end Moves

/-! ## 2. Stacks handled alike -/

/-- Two computations have related results, or fail in the same way. -/
inductive Alike {ε σ τ : Type} (S : σ → τ → Prop) : Except ε σ → Except ε τ → Prop
  | ok {s : σ} {t : τ} (h : S s t) : Alike S (.ok s) (.ok t)
  | error (e : ε) : Alike S (.error e) (.error e)

/-- What is made of a list depends on the places of its items alone. -/
def Uniform (f : ∀ α : Type, List α → Option (List α)) : Prop :=
  ∀ {α β : Type} {R : α → β → Prop} {l : List α} {m : List β}, List.Forall₂ R l m →
    Option.Rel (List.Forall₂ R) (f α l) (f β m)

theorem uniform_copyLast : Uniform @copyLast := by
  intro α β R l m h
  have hlast := rel_getLast? h
  unfold copyLast
  generalize l.getLast? = a?, m.getLast? = b? at hlast
  cases hlast with
  | none => exact .none
  | some hab => exact .some (.cons hab h)

theorem uniform_exchangeEnds : Uniform @exchangeEnds := by
  intro α β R l m h
  have hlast := rel_getLast? h
  cases h with
  | nil => exact .none
  | @cons a b l m hab hlm =>
    rw [List.getLast?_cons, List.getLast?_cons] at hlast
    cases hlast with
    | some hlast =>
      simp only [exchangeEnds, List.head?_cons, List.getLast?_cons, List.drop_one, List.tail_cons]
      exact .some (.cons hlast (List.rel_append (rel_dropLast hlm) (.cons hab .nil)))

section Respects

variable {α β : Type} [StackItem α] [StackItem β]

/-- A relation between stacks is kept when related items are pushed and when items are taken, which
are related then. -/
structure Respects (R : α → β → Prop) (S : Stack α → Stack β → Prop) : Prop where
  push : ∀ {s t a b}, S s t → R a b → S (s.push a) (t.push b)
  pop : ∀ {s t}, S s t → R s.pop.1 t.pop.1 ∧ S s.pop.2 t.pop.2

namespace Respects

variable {R : α → β → Prop} {S : Stack α → Stack β → Prop} (h : Respects R S)
include h

theorem pushMany {l : List α} {m : List β} (hlm : List.Forall₂ R l m) :
    ∀ {s t}, S s t → S (s.pushMany l) (t.pushMany m) := by
  induction hlm with
  | nil => exact id
  | cons hab _ ih => exact fun hst => ih (h.push hst hab)

theorem popMany : ∀ (n : Nat) {s t}, S s t →
    List.Forall₂ R (s.popMany n).1 (t.popMany n).1 ∧ S (s.popMany n).2 (t.popMany n).2
  | 0, _, _, hst => ⟨.nil, hst⟩
  | n + 1, _, _, hst => by
    obtain ⟨hfirst, hrest⟩ := h.pop hst
    obtain ⟨hitems, hleft⟩ := popMany n hrest
    exact ⟨.cons hfirst hitems, hleft⟩

/-- **An operation that takes items and puts them back** respects the relation. -/
theorem rearrange {f : ∀ α : Type, List α → Option (List α)} (hf : Uniform f) {s : Stack α}
    {t : Stack β} (hst : S s t) (n : Nat) :
    Alike S (s.rearrange n (f α)) (t.rearrange n (f β)) := by
  obtain ⟨hitems, hrest⟩ := h.popMany n hst
  have hback := hf hitems
  simp only [Stack.rearrange]
  generalize f α (s.popMany n).1 = l?, f β (t.popMany n).1 = m? at hback
  cases hback with
  | none => exact .error _
  | some hlm => exact .ok (h.pushMany (List.rel_reverse hlm) hrest)

end Respects

end Respects

/-! ## 3. Stacks under other names -/

section Relabel

variable {α β : Type} {g : α → β} (d : Option Int)

/-- The stack with other items in the same places, as the stack of a frame of some depth. -/
def relabel (g : α → β) (depth : Option Int) (s : Stack α) : Stack β :=
  { items := s.items.map g, emptyPops := s.emptyPops, maxSize := s.maxSize,
    minMaxSize := s.minMaxSize, depth }

theorem push_relabel (g : α → β) (d : Option Int) (s : Stack α) (a : α) :
    (s.relabel g d).push (g a) = (s.push a).relabel g d := by
  simp only [push, relabel, List.length_map]
  split <;> rfl

variable [StackItem α] [StackItem β] (hg : ∀ n, g (StackItem.below n) = StackItem.below n)
include hg

theorem pop_relabel (s : Stack α) : (s.relabel g d).pop = (g s.pop.1, s.pop.2.relabel g d) := by
  obtain ⟨items, emptyPops, maxSize, minMaxSize, depth⟩ := s
  cases items with
  | nil => simp [pop, relabel, hg]
  | cons a rest => simp [pop, relabel]

theorem respects_relabel :
    Respects (fun a b => b = g a) (fun s t => t = s.relabel g d) where
  push := by
    rintro s t a b rfl rfl
    exact push_relabel g d s a
  pop := by
    rintro s t rfl
    rw [pop_relabel d hg]
    exact ⟨rfl, rfl⟩

theorem popMany_relabel (n : Nat) (s : Stack α) :
    (s.relabel g d).popMany n = ((s.popMany n).1.map g, (s.popMany n).2.relabel g d) := by
  obtain ⟨hitems, hrest⟩ := (respects_relabel d hg).popMany n (Eq.refl (s.relabel g d))
  have hmap : ((s.relabel g d).popMany n).1.map id = (s.popMany n).1.map g :=
    forall₂_map_eq hitems fun _ _ hab => hab
  rw [List.map_id] at hmap
  exact Prod.ext hmap hrest

theorem rearrange_relabel {f : ∀ α : Type, List α → Option (List α)} (hf : Uniform f) (n : Nat)
    (s : Stack α) : (s.relabel g d).rearrange n (f β) =
      (s.rearrange n (f α)).map (·.relabel g d) := by
  have halike := (respects_relabel d hg).rearrange hf (Eq.refl (s.relabel g d)) n
  generalize s.rearrange n (f α) = r, (s.relabel g d).rearrange n (f β) = r' at halike
  cases halike with
  | ok heq =>
    rw [heq]
    rfl
  | error e => rfl

end Relabel

/-! ## 4. What all items of a stack are like -/

section All

variable {α : Type} {P : α → Prop} {s s' : Stack α}

/-- All items of the stack have a property. -/
def All (P : α → Prop) (s : Stack α) : Prop := ∀ a ∈ s.items, P a

theorem All.mono {Q : α → Prop} (h : s.All P) (hPQ : ∀ a, P a → Q a) : s.All Q :=
  fun a ha => hPQ a (h a ha)

theorem All.push (h : s.All P) {a : α} (ha : P a) : (s.push a).All P := by
  unfold Stack.push
  split
  · exact List.forall_mem_cons.mpr ⟨ha, h⟩
  · exact h

variable [StackItem α] (hbelow : ∀ n, P (StackItem.below n))
include hbelow

theorem All.pop (h : s.All P) : P s.pop.1 ∧ s.pop.2.All P := by
  obtain ⟨items, emptyPops, maxSize, minMaxSize, depth⟩ := s
  cases items with
  | nil => exact ⟨hbelow emptyPops, h⟩
  | cons a rest => exact List.forall_mem_cons.mp h

theorem respects_all :
    Respects (fun a b => a = b ∧ P b) (fun s t : Stack α => s = t ∧ t.All P) where
  push := by
    rintro s t a b ⟨rfl, hs⟩ ⟨rfl, ha⟩
    exact ⟨rfl, hs.push ha⟩
  pop := by
    rintro s t ⟨rfl, hs⟩
    exact ⟨⟨rfl, (hs.pop hbelow).1⟩, rfl, (hs.pop hbelow).2⟩

theorem All.popMany (n : Nat) (h : s.All P) :
    (∀ a ∈ (s.popMany n).1, P a) ∧ (s.popMany n).2.All P := by
  obtain ⟨hitems, -, hrest⟩ := (respects_all hbelow).popMany n ⟨Eq.refl s, h⟩
  exact ⟨forall_right hitems fun _ _ hab => hab.2, hrest⟩

theorem All.rearrange {f : ∀ α : Type, List α → Option (List α)} (hf : Uniform f) {n : Nat}
    (h : s.All P) (hs : s.rearrange n (f α) = .ok s') : s'.All P := by
  have halike := (respects_all hbelow).rearrange hf ⟨Eq.refl s, h⟩ n
  rw [hs] at halike
  cases halike with
  | ok h => exact h.2

end All

/-! ## 5. Items taken, and enough room -/

section Items

variable {α : Type}

/-- So many items can be pushed, and none of them meets a full stack. -/
def HasRoom (s : Stack α) (k : Nat) : Prop := ((s.items.length + k : Nat) : Int) ≤ s.maxSize

instance (s : Stack α) (k : Nat) : Decidable (s.HasRoom k) := inferInstanceAs (Decidable (_ ≤ _))

theorem isSome_copyLast (l : List α) (h : l ≠ []) : (copyLast l).isSome := by
  simp [copyLast, List.getLast?_eq_some_getLast h]

theorem isSome_exchangeEnds (l : List α) (h : l ≠ []) : (exchangeEnds l).isSome := by
  simp [exchangeEnds, List.getLast?_eq_some_getLast h, List.head?_eq_some_head h]

theorem pushMany_eq : ∀ {l : List α} {s : Stack α}, s.HasRoom l.length →
    s.pushMany l = { s with items := l.reverse ++ s.items }
  | [], s, _ => rfl
  | a :: l, s, h => by
    rw [HasRoom, List.length_cons] at h
    have hpush : s.push a = { s with items := a :: s.items } := by
      rw [push, if_pos (by omega)]
    have hroom : (s.push a).HasRoom l.length := by
      rw [hpush, HasRoom, List.length_cons]
      simp only
      omega
    have hrest := pushMany_eq hroom
    rw [hpush] at hrest
    simp only [pushMany, List.foldl_cons, hpush, List.reverse_cons, List.append_assoc,
      List.singleton_append] at hrest ⊢
    exact hrest

variable [StackItem α]

theorem length_popMany : ∀ (n : Nat) (s : Stack α), (s.popMany n).1.length = n
  | 0, _ => rfl
  | n + 1, s => by simp [popMany, length_popMany n]

theorem items_popMany : ∀ (n : Nat) (s : Stack α), (s.popMany n).2.items = s.items.drop n
  | 0, _ => rfl
  | n + 1, s => by
    have hpop : s.pop.2.items = s.items.drop 1 := by
      unfold pop
      split <;> simp_all
    have hcons : (s.popMany (n + 1)).2 = (s.pop.2.popMany n).2 := rfl
    rw [hcons, items_popMany n, hpop, List.drop_drop, Nat.add_comm]

/-- Items that are there are taken from the top, and nothing from below. -/
theorem popMany_eq : ∀ (n : Nat) (s : Stack α), n ≤ s.items.length →
    s.popMany n = (s.items.take n, { s with items := s.items.drop n })
  | 0, s, _ => by simp [popMany]
  | n + 1, s, h => by
    obtain ⟨items, emptyPops, maxSize, minMaxSize, depth⟩ := s
    cases items with
    | nil => simp at h
    | cons a rest =>
      have hrest := popMany_eq n { items := rest, emptyPops, maxSize, minMaxSize, depth }
        (by simpa using h)
      simp [popMany, pop, hrest]

/-- **With room for what is put back**, it lies on what was not taken. -/
theorem rearrange_eq {s : Stack α} {n : Nat} {f : List α → Option (List α)} {l : List α}
    (hl : f (s.popMany n).1 = some l) (hroom : (s.popMany n).2.HasRoom l.length) :
    s.rearrange n f =
      .ok { (s.popMany n).2 with items := l ++ (s.popMany n).2.items } := by
  simp only [rearrange, hl]
  rw [pushMany_eq (by rwa [List.length_reverse]), List.reverse_reverse]

theorem exists_rearrange (s : Stack α) {n : Nat} {f : List α → Option (List α)}
    (hf : ∀ l ≠ [], (f l).isSome) (hn : 0 < n) : ∃ s', s.rearrange n f = .ok s' := by
  have hne : (s.popMany n).1 ≠ [] := by
    rw [← List.length_pos_iff, length_popMany]
    exact hn
  obtain ⟨l, hl⟩ := Option.isSome_iff_exists.mp (hf _ hne)
  simp only [rearrange, hl]
  exact ⟨_, rfl⟩

theorem exists_dup (s : Stack α) {n : Nat} (hn : 0 < n) : ∃ s', s.dup n = .ok s' :=
  s.exists_rearrange isSome_copyLast hn

theorem exists_swap (s : Stack α) {n : Nat} (hn : 0 < n) : ∃ s', s.swap n = .ok s' :=
  s.exists_rearrange isSome_exchangeEnds hn

end Items

end TraceLift.Stack
