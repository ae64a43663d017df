/-
# The search for a path

`reaches` looks for a path with a stack.  It marks a block only when it takes it off the stack, so a
block that several others lead to lies there several times and is looked at each time.  Two things
have to be shown, and each needs an invariant of its own.

* **The search ends.**  The stack may grow while nothing new is marked, so neither its length nor
  the number of unmarked blocks goes down.  What goes down is the length of the stack together with
  the successors of the blocks not yet looked at (`openEdges`), as long as a block that is looked at
  AGAIN adds nothing.  It does not, because the stack is last in, first out (`Stacked`): whatever a
  block added lies above its other copies, and is gone before they come to the top.
* **The answer is right.**  All on the stack can be reached, and the blocks looked at lead to
  nothing but themselves and the stack; when the stack is empty they are all there is
  (`Searching`, `Leads.mem_of_closed`).
-/
import Mathlib.Algebra.BigOperators.Group.Finset.Basic
import Mathlib.Logic.Relation
import TraceLift.Graph.Reach

namespace TraceLift.Graph

variable {g : Graph}

/-! ## 1. Paths -/

/-- There is a path of successor edges from one block to another. -/
def Leads (g : Graph) : Nat → Nat → Prop := Relation.ReflTransGen fun a b => b ∈ g.succs a

theorem Leads.rfl {n : Nat} : g.Leads n n := Relation.ReflTransGen.refl

theorem Leads.trans {a b c : Nat} (h : g.Leads a b) (h' : g.Leads b c) : g.Leads a c :=
  Relation.ReflTransGen.trans h h'

theorem Leads.next {a b c : Nat} (h : g.Leads a b) (hc : c ∈ g.succs b) : g.Leads a c :=
  Relation.ReflTransGen.tail h hc

/-- Blocks that lead to nothing but one another are all that each of them leads to. -/
theorem Leads.mem_of_closed {ns : List Nat} (hclosed : ∀ m ∈ ns, ∀ s ∈ g.succs m, s ∈ ns)
    {a b : Nat} (h : g.Leads a b) (ha : a ∈ ns) : b ∈ ns := by
  induction h with
  | refl => exact ha
  | tail _ hedge ih => exact hclosed _ ih _ hedge

/-! ## 2. The edges that are still to be followed -/

/-- How many edges leave the blocks that were not looked at. -/
def openEdges (g : Graph) (seen : List Nat) : Nat :=
  ∑ n ∈ Finset.range g.blocks.length with n ∉ seen, (g.succs n).length

theorem succs_of_not_lt {n : Nat} (hn : ¬ n < g.blocks.length) : g.succs n = [] := by
  have hnone : g.block? n = none := List.getElem?_eq_none (Nat.le_of_not_lt hn)
  rw [succs, hnone]

/-- Looking at a block for the first time follows its edges. -/
theorem openEdges_of_new {seen seen' : List Nat} {n : Nat} (hn : n ∉ seen)
    (hseen : ∀ m, m ∈ seen' ↔ m ∈ seen ∨ m = n) :
    (g.succs n).length + g.openEdges seen' = g.openEdges seen := by
  have herase : (Finset.range g.blocks.length).filter (· ∉ seen') =
      ((Finset.range g.blocks.length).filter (· ∉ seen)).erase n := by
    ext m
    rw [Finset.mem_erase, Finset.mem_filter, Finset.mem_filter, hseen]
    tauto
  rw [openEdges, herase]
  by_cases hlt : n < g.blocks.length
  · refine Finset.add_sum_erase _ (fun m => (g.succs m).length) ?_
    exact Finset.mem_filter.mpr ⟨Finset.mem_range.mpr hlt, hn⟩
  · -- a block that does not exist has no edges to follow
    rw [succs_of_not_lt hlt, List.length_nil, Nat.zero_add, Finset.erase_eq_of_notMem]
    · rfl
    · intro hmem
      exact hlt (Finset.mem_range.mp (Finset.mem_filter.mp hmem).1)

theorem openEdges_congr {seen seen' : List Nat} (hseen : ∀ m, m ∈ seen' ↔ m ∈ seen) :
    g.openEdges seen' = g.openEdges seen := by
  simp only [openEdges, hseen]

/-- At the start all edges are still to be followed. -/
theorem openEdges_nil (g : Graph) : g.openEdges [] = g.edgeCount := by
  have hmap : g.blocks.map (·.succs.length) =
      (List.range g.blocks.length).map fun n => (g.succs n).length := by
    refine List.ext_getElem? fun n => ?_
    rw [List.getElem?_map, List.getElem?_map]
    by_cases hlt : n < g.blocks.length
    · rw [List.getElem?_range hlt, List.getElem?_eq_getElem hlt]
      simp [succs, block?, hlt]
    · rw [List.getElem?_eq_none (by omega), List.getElem?_eq_none (by simpa using hlt)]
      rfl
  have hall : (Finset.range g.blocks.length).filter (· ∉ ([] : List Nat)) =
      Finset.range g.blocks.length := by simp
  rw [openEdges, hall, edgeCount, hmap, ← List.sum_eq_foldl]
  rfl

/-! ## 3. Last in, first out -/

theorem mem_fresh {seen : List Nat} {n s : Nat} :
    s ∈ g.fresh seen n ↔ s ∈ g.succs n ∧ s ∉ seen := by
  simp [fresh]

theorem length_fresh_le (g : Graph) (seen : List Nat) (n : Nat) :
    (g.fresh seen n).length ≤ (g.succs n).length := by
  rw [fresh, List.length_reverse]
  exact List.length_filter_le _ _

/-- The successors of a block that was looked at and lies on the stack once more were looked at, or
lie above it. -/
def Stacked (g : Graph) (seen stack : List Nat) : Prop :=
  ∀ above n below, stack = above ++ n :: below → n ∈ seen →
    ∀ s ∈ g.succs n, s ∈ seen ∨ s ∈ above

/-- **A block that is looked at again adds nothing.** -/
theorem Stacked.fresh_eq_nil {seen stack : List Nat} {n : Nat} (h : g.Stacked seen (n :: stack))
    (hn : n ∈ seen) : g.fresh (n :: seen) n = [] := by
  refine List.eq_nil_iff_forall_not_mem.mpr fun s hs => ?_
  obtain ⟨hsucc, hnew⟩ := mem_fresh.mp hs
  rcases h [] n stack rfl hn s hsucc with hs | hs
  · exact hnew (List.mem_cons_of_mem n hs)
  · exact absurd hs List.not_mem_nil

theorem Stacked.step {seen stack : List Nat} {n : Nat} (h : g.Stacked seen (n :: stack)) :
    g.Stacked (n :: seen) (g.fresh (n :: seen) n ++ stack) := by
  intro above m below hsplit hm s hs
  -- nothing that was just added was looked at, so `m` is one of the blocks below
  have hold : ∃ upper, above = g.fresh (n :: seen) n ++ upper ∧ stack = upper ++ m :: below := by
    rcases List.append_eq_append_iff.mp hsplit with ⟨upper, habove, hstack⟩ | ⟨rest, hadded, hrest⟩
    · exact ⟨upper, habove, hstack⟩
    · cases rest with
      | nil => exact ⟨[], by simpa using hadded.symm, by simpa using hrest.symm⟩
      | cons m' rest =>
        obtain ⟨rfl, -⟩ := List.cons.inj hrest
        have hadd : m ∈ g.fresh (n :: seen) n := by simp [hadded]
        exact absurd hm (mem_fresh.mp hadd).2
  obtain ⟨upper, rfl, rfl⟩ := hold
  rcases List.mem_cons.mp hm with rfl | hm
  · by_cases hnew : s ∈ m :: seen
    · exact .inl hnew
    · exact .inr (List.mem_append_left _ (mem_fresh.mpr ⟨hs, hnew⟩))
  · rcases h (n :: upper) m below rfl hm s hs with hseen | habove
    · exact .inl (List.mem_cons_of_mem n hseen)
    · rcases List.mem_cons.mp habove with rfl | hupper
      · exact .inl List.mem_cons_self
      · exact .inr (List.mem_append_right _ hupper)

/-- **Each round brings the search nearer to its end.** -/
theorem Stacked.work_lt {seen stack : List Nat} {n : Nat} (h : g.Stacked seen (n :: stack)) :
    (g.fresh (n :: seen) n ++ stack).length + g.openEdges (n :: seen) <
      (n :: stack).length + g.openEdges seen := by
  rw [List.length_append, List.length_cons]
  by_cases hn : n ∈ seen
  · have hsame : g.openEdges (n :: seen) = g.openEdges seen := by
      refine openEdges_congr fun m => ⟨fun hm => ?_, List.mem_cons_of_mem n⟩
      rcases List.mem_cons.mp hm with rfl | hm
      · exact hn
      · exact hm
    rw [h.fresh_eq_nil hn, List.length_nil]
    omega
  · have hseen : ∀ m, m ∈ n :: seen ↔ m ∈ seen ∨ m = n := by
      intro m
      rw [List.mem_cons, or_comm]
    have hopen := openEdges_of_new (g := g) hn hseen
    have hfresh := length_fresh_le g (n :: seen) n
    omega

/-! ## 4. The search -/

/-- The state of a search that has found nothing yet. -/
structure Searching (g : Graph) (targets : List Nat) (start : Nat) (stack seen : List Nat) :
    Prop where
  stacked : g.Stacked seen stack
  sound : ∀ n ∈ stack, g.Leads start n
  begun : start ∈ seen ∨ start ∈ stack
  followed : ∀ m ∈ seen, ∀ s ∈ g.succs m, s ∈ seen ∨ s ∈ stack
  missed : ∀ m ∈ seen, ∀ t ∈ targets, t ∉ g.succs m

section Search

variable {targets stack seen : List Nat} {start n : Nat}

theorem searching_singleton (g : Graph) (targets : List Nat) (n : Nat) :
    g.Searching targets n [n] [] where
  stacked := by simp [Stacked]
  sound m hm := by
    rw [List.mem_singleton.mp hm]
    exact .rfl
  begun := .inr List.mem_cons_self
  followed := by simp
  missed := by simp

/-- One round of the search. -/
theorem Searching.step (h : g.Searching targets start (n :: stack) seen)
    (hmiss : ∀ t ∈ targets, t ∉ g.succs n) :
    g.Searching targets start (g.fresh (n :: seen) n ++ stack) (n :: seen) := by
  -- what was on the stack is still there, or is the block just looked at
  have hstays : ∀ m, m ∈ seen ∨ m ∈ n :: stack →
      m ∈ n :: seen ∨ m ∈ g.fresh (n :: seen) n ++ stack := by
    intro m hm
    rw [List.mem_cons] at hm ⊢
    rw [List.mem_append]
    tauto
  constructor
  · exact h.stacked.step
  · intro m hm
    rcases List.mem_append.mp hm with hm | hm
    · exact (h.sound n List.mem_cons_self).next (mem_fresh.mp hm).1
    · exact h.sound m (List.mem_cons_of_mem n hm)
  · exact hstays _ h.begun
  · intro m hm s hs
    rcases List.mem_cons.mp hm with rfl | hm
    · by_cases hnew : s ∈ m :: seen
      · exact .inl hnew
      · exact .inr (List.mem_append_left _ (mem_fresh.mpr ⟨hs, hnew⟩))
    · exact hstays s (h.followed m hm s hs)
  · intro m hm
    rcases List.mem_cons.mp hm with rfl | hm
    · exact hmiss
    · exact h.missed m hm

/-- A search whose stack is empty has looked at everything, and there was no target. -/
theorem Searching.finished (h : g.Searching targets start [] seen) :
    ¬ ∃ t ∈ targets, Relation.TransGen (fun a b => b ∈ g.succs a) start t := by
  rintro ⟨t, ht, hpath⟩
  obtain ⟨m, hlead, hedge⟩ := Relation.TransGen.tail'_iff.mp hpath
  have hclosed : ∀ m ∈ seen, ∀ s ∈ g.succs m, s ∈ seen := by
    intro m hm s hs
    simpa using h.followed m hm s hs
  have hstart : start ∈ seen := by simpa using h.begun
  exact h.missed m (Leads.mem_of_closed hclosed hlead hstart) t ht hedge

/-- **The search ends with the right answer.** -/
theorem Searching.reachesLoop {fuel : Nat} (h : g.Searching targets start stack seen)
    (hfuel : stack.length + g.openEdges seen < fuel) :
    ∃ answer, g.reachesLoop targets fuel stack seen = some answer ∧
      (answer = true ↔ ∃ t ∈ targets, Relation.TransGen (fun a b => b ∈ g.succs a) start t) := by
  induction fuel generalizing stack seen with
  | zero => exact absurd hfuel (Nat.not_lt_zero _)
  | succ fuel ih =>
    cases stack with
    | nil => exact ⟨false, rfl, iff_of_false Bool.false_ne_true h.finished⟩
    | cons n stack =>
      rw [Graph.reachesLoop]
      by_cases hany : targets.any ((g.succs n).contains ·) = true
      · obtain ⟨t, ht, hedge⟩ := List.any_eq_true.mp hany
        have hpath := Relation.TransGen.tail' (h.sound n List.mem_cons_self)
          (List.contains_iff_mem.mp hedge)
        exact ⟨true, if_pos hany, iff_of_true rfl ⟨t, ht, hpath⟩⟩
      · rw [if_neg hany]
        have hmiss : ∀ t ∈ targets, t ∉ g.succs n := by simpa using hany
        have hwork := h.stacked.work_lt
        exact ih (h.step hmiss) (by omega)

end Search

/-- The search from one block, for as many rounds as there are edges and two more. -/
theorem exists_reachesLoop (g : Graph) (n : Nat) (targets : List Nat) {fuel : Nat}
    (hfuel : g.edgeCount + 2 ≤ fuel) :
    ∃ answer, g.reachesLoop targets fuel [n] [] = some answer ∧
      (answer = true ↔ ∃ t ∈ targets, Relation.TransGen (fun a b => b ∈ g.succs a) n t) := by
  refine (searching_singleton g targets n).reachesLoop ?_
  rw [openEdges_nil, List.length_singleton]
  omega

/-- What the search finds can be reached from where it started. -/
theorem leads_of_reaches {n : Nat} {targets : List Nat} (h : g.reaches n targets = true) :
    ∃ t ∈ targets, g.Leads n t := by
  obtain ⟨answer, hanswer, hpath⟩ := exists_reachesLoop g n targets (Nat.le_refl _)
  rw [reaches, hanswer, Bool.or_eq_true, beq_iff_eq, Option.some.injEq, hpath] at h
  rcases h with h | ⟨t, ht, h⟩
  · exact ⟨n, List.contains_iff_mem.mp h, .rfl⟩
  · exact ⟨t, ht, h.to_reflTransGen⟩

/-- A successor is found in the first round. -/
theorem reaches_of_mem_succs {n t : Nat} {targets : List Nat} (ht : t ∈ targets)
    (hsucc : t ∈ g.succs n) : g.reaches n targets = true := by
  have hany : targets.any ((g.succs n).contains ·) = true :=
    List.any_eq_true.mpr ⟨t, ht, List.contains_iff_mem.mpr hsucc⟩
  rw [reaches, reachesLoop, if_pos hany, Bool.or_eq_true]
  exact .inr (beq_self_eq_true _)

end TraceLift.Graph

namespace TraceLift

/-- **The search for a path ends and decides.**  In every graph, with loops, repeated edges and
edges that leave it, the search from a block comes to an answer, and more rounds than it needs do
not change it; the answer is yes if and only if the block is a target or some path of one edge or
more leads from it to a target. -/
theorem reaches_decides_paths (g : Graph) (n : Nat) (targets : List Nat) :
    (∃ answer, ∀ fuel, g.edgeCount + 2 ≤ fuel →
        g.reachesLoop targets fuel [n] [] = some answer) ∧
      (g.reaches n targets = true ↔
        n ∈ targets ∨ ∃ t ∈ targets, Relation.TransGen (fun a b => b ∈ g.succs a) n t) := by
  obtain ⟨answer, hanswer, hpath⟩ := g.exists_reachesLoop n targets (Nat.le_refl _)
  constructor
  · refine ⟨answer, fun fuel hfuel => ?_⟩
    obtain ⟨answer', hanswer', hpath'⟩ := g.exists_reachesLoop n targets hfuel
    rw [hanswer', Bool.eq_iff_iff.mpr (hpath'.trans hpath.symm)]
  · rw [Graph.reaches, hanswer, Bool.or_eq_true, beq_iff_eq, Option.some.injEq, hpath,
      List.contains_iff_mem]

/-- Two blocks that span address zero and one behind them, joined in two loops with one edge given
twice, and a block before all of them. -/
def overlapping : Graph :=
  { blocks :=
      [{ entry := some 0, exit := some 2, ops := [], succs := [1] },
       { entry := some 0, exit := some 0, ops := [], succs := [2, 2, 0] },
       { entry := some 5, exit := some 6, ops := [], succs := [1] },
       { entry := some 7, exit := some 9, ops := [], succs := [0] }],
    order := [0, 1, 2, 3] }

example : overlapping.reaches 3 [2] = true ∧ overlapping.reaches 0 [3] = false := by decide

end TraceLift
