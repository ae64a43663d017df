/-
# What addresses lead to

`closure` starts from the blocks that span one of some addresses and collects all that they lead to.
Many blocks span one address (all that start a frame span zero), and a block that several others
lead to is met several times.  Two tests keep the list free of repetitions: nothing is queued that
is queued or reached.

* **Origins.**  If all bounds are known, the blocks that span an address can be found, and are
  queued once each (`exists_origins`).
* **Rounds.**  A round moves one block from the queue to the reached ones and queues its new
  successors (`Closing.step`).  As no block is reached twice, the edges and the blocks queued at
  first bound the rounds (`Closing.work_lt`, by the measure of the search for a path).
-/
import TraceLift.Proofs.Edges
import TraceLift.Proofs.Reaching

namespace TraceLift.Graph

variable {g : Graph}

/-! ## 1. Blocks that span an address -/

/-- Both bounds of every block of the graph are known. -/
def BoundsKnown (g : Graph) : Prop := ∀ m ∈ g.members, m.2.entry.isSome ∧ m.2.exit.isSome

instance (g : Graph) : Decidable g.BoundsKnown :=
  inferInstanceAs (Decidable (∀ m ∈ g.members, m.2.entry.isSome ∧ m.2.exit.isSome))

/-- The block belongs to the graph, and the address lies between its bounds. -/
def SpansAt (g : Graph) (n : Nat) (pc : Int) : Prop :=
  n ∈ g.order ∧ ∃ b, g.block? n = some b ∧ (∃ e ∈ b.entry, e ≤ pc) ∧ ∃ x ∈ b.exit, pc ≤ x

/-- The block can be reached, by no edge or by some, from a block of the graph that spans one of the
addresses. -/
def ReachedFrom (g : Graph) (addresses : List Int) (n : Nat) : Prop :=
  ∃ o, (∃ pc ∈ addresses, g.SpansAt o pc) ∧ g.Leads o n

theorem mem_members {n : Nat} {b : Block} :
    (n, b) ∈ g.members ↔ n ∈ g.order ∧ g.block? n = some b := by
  simp only [members, List.mem_filterMap, Option.map_eq_some_iff, Prod.mk.injEq]
  constructor
  · rintro ⟨k, hk, b', hb', rfl, rfl⟩
    exact ⟨hk, hb'⟩
  · rintro ⟨hn, hb⟩
    exact ⟨n, hn, b, hb, rfl, rfl⟩

theorem exists_blocksAt (h : g.BoundsKnown) (pc : Int) :
    ∃ ns, g.blocksAt pc = .ok ns ∧ ∀ n, n ∈ ns ↔ g.SpansAt n pc := by
  have hspans : ∀ m ∈ g.members,
      m.2.spans pc = .ok (m.2.entry.any (· ≤ pc) && m.2.exit.any (pc ≤ ·)) := by
    intro m hm
    obtain ⟨hentry, hexit⟩ := h m hm
    obtain ⟨e, he⟩ := Option.isSome_iff_exists.mp hentry
    obtain ⟨x, hx⟩ := Option.isSome_iff_exists.mp hexit
    simp [BlockHead.spans, he, hx]
  have hfound : g.blocksAt pc = .ok ((g.members.filter fun m =>
      m.2.entry.any (· ≤ pc) && m.2.exit.any (pc ≤ ·)).map (·.1)) := by
    rw [blocksAt, filterM_eq_ok hspans]
    rfl
  refine ⟨_, hfound, fun n => ?_⟩
  rw [List.mem_map]
  constructor
  · rintro ⟨⟨k, b⟩, hmem, rfl⟩
    obtain ⟨hmember, hbounds⟩ := List.mem_filter.mp hmem
    obtain ⟨hk, hb⟩ := mem_members.mp hmember
    exact ⟨hk, b, hb, by simpa [Option.any_eq_true] using hbounds⟩
  · rintro ⟨hn, b, hb, hbounds⟩
    refine ⟨(n, b), List.mem_filter.mpr ⟨mem_members.mpr ⟨hn, hb⟩, ?_⟩, rfl⟩
    simpa [Option.any_eq_true] using hbounds

/-! ## 2. The queue -/

section Enqueue

variable {reached : List Nat}

theorem mem_enqueue {a : Nat} {queue ns : List Nat} :
    a ∈ enqueue reached queue ns ↔ a ∈ queue ∨ (a ∈ ns ∧ a ∉ reached) := by
  induction ns generalizing queue with
  | nil => simp [enqueue]
  | cons n ns ih =>
    have hone : a ∈ (if reached.contains n then queue else insertNew n queue) ↔
        a ∈ queue ∨ (a = n ∧ a ∉ reached) := by
      split
      · rename_i hn
        rw [List.contains_iff_mem] at hn
        refine (or_iff_left ?_).symm
        rintro ⟨rfl, hnot⟩
        exact hnot hn
      · rename_i hn
        rw [List.contains_iff_mem] at hn
        rw [mem_insertNew]
        refine or_congr_right ⟨?_, And.left⟩
        rintro rfl
        exact ⟨rfl, hn⟩
    have hrest : a ∈ enqueue reached queue (n :: ns) ↔
        a ∈ (if reached.contains n then queue else insertNew n queue) ∨ (a ∈ ns ∧ a ∉ reached) :=
      ih
    rw [hrest, hone, List.mem_cons, or_and_right, or_assoc]

theorem nodup_enqueue {queue : List Nat} (h : queue.Nodup) (ns : List Nat) :
    (enqueue reached queue ns).Nodup := by
  induction ns generalizing queue with
  | nil => exact h
  | cons n ns ih =>
    refine ih ?_
    dsimp only
    split
    · exact h
    · exact nodup_insertNew h

theorem length_enqueue_le (reached queue ns : List Nat) :
    (enqueue reached queue ns).length ≤ queue.length + ns.length := by
  induction ns generalizing queue with
  | nil => exact Nat.le_refl _
  | cons n ns ih =>
    have hone : (if reached.contains n then queue else insertNew n queue).length ≤
        queue.length + 1 := by
      unfold insertNew
      split
      · omega
      · split <;> simp
    have hrest := ih (if reached.contains n then queue else insertNew n queue)
    calc (enqueue reached queue (n :: ns)).length
        ≤ (if reached.contains n then queue else insertNew n queue).length + ns.length := hrest
      _ ≤ queue.length + (n :: ns).length := by
        rw [List.length_cons]
        omega

end Enqueue

/-- **The blocks that the collection starts from.** -/
theorem exists_origins (h : g.BoundsKnown) (addresses : List Int) :
    ∃ queue, g.origins addresses = .ok queue ∧ queue.Nodup ∧
      ∀ n, n ∈ queue ↔ ∃ pc ∈ addresses, g.SpansAt n pc := by
  have hall : ∃ nss, addresses.mapM g.blocksAt = .ok nss ∧
      ∀ n, n ∈ nss.flatten ↔ ∃ pc ∈ addresses, g.SpansAt n pc := by
    induction addresses with
    | nil => exact ⟨[], rfl, by simp⟩
    | cons pc addresses ih =>
      obtain ⟨ns, hns, hmem⟩ := exists_blocksAt h pc
      obtain ⟨nss, hnss, hrest⟩ := ih
      refine ⟨ns :: nss, by rw [List.mapM_cons, hns, hnss]; rfl, fun n => ?_⟩
      rw [List.flatten_cons, List.mem_append, hmem, hrest, List.exists_mem_cons_iff]
  obtain ⟨nss, hnss, hmem⟩ := hall
  refine ⟨enqueue [] [] nss.flatten, by rw [origins, hnss]; rfl, nodup_enqueue List.nodup_nil _,
    fun n => ?_⟩
  rw [mem_enqueue, ← hmem]
  simp

/-! ## 3. The collection -/

/-- The state of a collection that starts from some blocks. -/
structure Closing (g : Graph) (starts queue reached : List Nat) : Prop where
  nodup_queue : queue.Nodup
  nodup_reached : reached.Nodup
  disjoint : ∀ n ∈ queue, n ∉ reached
  sound : ∀ n, n ∈ queue ∨ n ∈ reached → ∃ o ∈ starts, g.Leads o n
  begun : ∀ o ∈ starts, o ∈ queue ∨ o ∈ reached
  followed : ∀ m ∈ reached, ∀ s ∈ g.succs m, s ∈ queue ∨ s ∈ reached

section Collection

variable {starts queue reached : List Nat} {n : Nat}

theorem closing_start (h : starts.Nodup) : g.Closing starts starts [] where
  nodup_queue := h
  nodup_reached := List.nodup_nil
  disjoint := by simp
  sound n hn := ⟨n, by simpa using hn, .rfl⟩
  begun o ho := .inl ho
  followed := by simp

/-- One round of the collection. -/
theorem Closing.step (h : g.Closing starts (queue ++ [n]) reached) :
    g.Closing starts (enqueue (reached ++ [n]) queue (g.succs n)) (reached ++ [n]) := by
  obtain ⟨hqueue, -, hlast⟩ := List.nodup_append.mp h.nodup_queue
  have hn : n ∉ reached := h.disjoint n (by simp)
  -- what was queued is still queued, or is the block just reached
  have hstays : ∀ m, m ∈ queue ++ [n] ∨ m ∈ reached →
      m ∈ enqueue (reached ++ [n]) queue (g.succs n) ∨ m ∈ reached ++ [n] := by
    intro m hm
    rw [List.mem_append] at hm ⊢
    rw [mem_enqueue]
    tauto
  constructor
  · exact nodup_enqueue hqueue _
  · refine List.nodup_append.mpr ⟨h.nodup_reached, List.nodup_singleton n, ?_⟩
    rintro a ha b hb rfl
    exact hn (List.mem_singleton.mp hb ▸ ha)
  · intro m hm hreached
    rcases mem_enqueue.mp hm with hm | ⟨-, hnew⟩
    · rcases List.mem_append.mp hreached with hreached | hsame
      · exact h.disjoint m (List.mem_append_left _ hm) hreached
      · exact hlast m hm n List.mem_cons_self (List.mem_singleton.mp hsame)
    · exact hnew hreached
  · intro m hm
    obtain ⟨o, ho, hlead⟩ := h.sound n (.inl (by simp))
    rw [mem_enqueue, List.mem_append, List.mem_singleton] at hm
    rcases hm with (hm | ⟨hedge, -⟩) | (hm | rfl)
    · exact h.sound m (.inl (List.mem_append_left _ hm))
    · exact ⟨o, ho, hlead.next hedge⟩
    · exact h.sound m (.inr hm)
    · exact ⟨o, ho, hlead⟩
  · exact fun o ho => hstays o (h.begun o ho)
  · intro m hm s hs
    rcases List.mem_append.mp hm with hm | hm
    · exact hstays s (h.followed m hm s hs)
    · rw [List.mem_singleton.mp hm] at hs
      by_cases hnew : s ∈ reached ++ [n]
      · exact .inr hnew
      · exact .inl (mem_enqueue.mpr (.inr ⟨hs, hnew⟩))

/-- **Each round brings the collection nearer to its end.** -/
theorem Closing.work_lt (h : g.Closing starts (queue ++ [n]) reached) :
    (enqueue (reached ++ [n]) queue (g.succs n)).length + g.openEdges (reached ++ [n]) <
      (queue ++ [n]).length + g.openEdges reached := by
  have hn : n ∉ reached := h.disjoint n (by simp)
  have hseen : ∀ m, m ∈ reached ++ [n] ↔ m ∈ reached ∨ m = n := by simp
  have hopen := openEdges_of_new (g := g) hn hseen
  have hqueue := length_enqueue_le (reached ++ [n]) queue (g.succs n)
  rw [List.length_append, List.length_singleton]
  omega

/-- **The collection ends with what the starting blocks lead to**, each block once. -/
theorem Closing.closureLoop {fuel : Nat} (h : g.Closing starts queue reached)
    (hfuel : queue.length + g.openEdges reached < fuel) :
    ∃ result, g.closureLoop fuel queue reached = some result ∧ result.Nodup ∧
      ∀ m, m ∈ result ↔ ∃ o ∈ starts, g.Leads o m := by
  induction fuel generalizing queue reached with
  | zero => exact absurd hfuel (Nat.not_lt_zero _)
  | succ fuel ih =>
    rw [Graph.closureLoop]
    cases hlast : queue.getLast? with
    | none =>
      obtain rfl := List.getLast?_eq_none_iff.mp hlast
      refine ⟨reached, rfl, h.nodup_reached, fun m => ⟨fun hm => h.sound m (.inr hm), ?_⟩⟩
      rintro ⟨o, ho, hlead⟩
      refine hlead.mem_of_closed (fun k hk s hs => ?_) ?_
      · simpa using h.followed k hk s hs
      · simpa using h.begun o ho
    | some n =>
      obtain ⟨front, rfl⟩ := List.getLast?_eq_some_iff.mp hlast
      have hwork := h.work_lt
      simp only [List.dropLast_concat]
      exact ih h.step (by omega)

/-- More rounds than are needed change nothing. -/
theorem closureLoop_of_le {fuel fuel' : Nat} {result : List Nat} (hle : fuel ≤ fuel')
    (h : g.closureLoop fuel queue reached = some result) :
    g.closureLoop fuel' queue reached = some result := by
  induction fuel generalizing fuel' queue reached with
  | zero => exact absurd h (by simp [Graph.closureLoop])
  | succ fuel ih =>
    obtain ⟨fuel', rfl⟩ : ∃ k, fuel' = k + 1 := ⟨fuel' - 1, by omega⟩
    rw [Graph.closureLoop] at h ⊢
    cases hlast : queue.getLast? with
    | none => simpa only [hlast] using h
    | some n =>
      simp only [hlast] at h ⊢
      exact ih (by omega) h

end Collection

/-- The collection from the blocks that span some addresses. -/
theorem exists_closureLoop (h : g.BoundsKnown) (addresses : List Int) :
    ∃ queue reached, g.origins addresses = .ok queue ∧
      g.closureLoop (g.edgeCount + queue.length + 1) queue [] = some reached ∧ reached.Nodup ∧
        ∀ n, n ∈ reached ↔ g.ReachedFrom addresses n := by
  obtain ⟨queue, hqueue, hnodup, hmem⟩ := exists_origins h addresses
  have hfuel : queue.length + g.openEdges [] < g.edgeCount + queue.length + 1 := by
    rw [openEdges_nil]
    omega
  obtain ⟨reached, hreached, hnodup, hleads⟩ := (closing_start hnodup).closureLoop hfuel
  refine ⟨queue, reached, hqueue, hreached, hnodup, fun n => (hleads n).trans ?_⟩
  simp only [hmem, ReachedFrom]

theorem closure_eq {addresses : List Int} {queue reached : List Nat}
    (hqueue : g.origins addresses = .ok queue)
    (hreached : g.closureLoop (g.edgeCount + queue.length + 1) queue [] = some reached) :
    g.closure addresses = .ok reached := by
  have hdone : g.closure addresses =
      .ok ((g.closureLoop (g.edgeCount + queue.length + 1) queue []).getD []) := by
    rw [closure, hqueue]
    rfl
  rw [hdone, hreached, Option.getD_some]

end TraceLift.Graph

namespace TraceLift

/-- **Collecting ends with what the addresses lead to.**  In every graph whose blocks have known
bounds, whatever edges they have, and for all addresses: the collection comes to an end, and more
rounds than it needs do not change what it yields; it yields every block that a block spanning one
of the addresses leads to, no other block, and none twice. -/
theorem closure_collects_reachable {g : Graph} (hknown : g.BoundsKnown) (addresses : List Int) :
    ∃ queue reached, g.origins addresses = .ok queue ∧
      (∀ fuel, g.edgeCount + queue.length + 1 ≤ fuel →
        g.closureLoop fuel queue [] = some reached) ∧
      g.closure addresses = .ok reached ∧ reached.Nodup ∧
        ∀ n, n ∈ reached ↔ g.ReachedFrom addresses n := by
  obtain ⟨queue, reached, hqueue, hreached, hspec⟩ := Graph.exists_closureLoop hknown addresses
  refine ⟨queue, reached, hqueue, fun fuel hfuel => ?_, Graph.closure_eq hqueue hreached, hspec⟩
  exact Graph.closureLoop_of_le hfuel hreached

theorem closure_overlapping : overlapping.BoundsKnown ∧ overlapping.closure [0, 1] = .ok [1, 2, 0] ∧
    overlapping.ReachedFrom [0, 1] 2 ∧ ¬ overlapping.ReachedFrom [0, 1] 3 := by
  have hknown : overlapping.BoundsKnown := by decide
  have hyields : overlapping.closure [0, 1] = .ok [1, 2, 0] := by rfl
  obtain ⟨queue, reached, -, -, hclosure, -, hmem⟩ := closure_collects_reachable hknown [0, 1]
  obtain rfl : reached = [1, 2, 0] := Except.ok.inj (hclosure.symm.trans hyields)
  exact ⟨hknown, hyields, (hmem 2).mp (by decide), fun h => absurd ((hmem 3).mpr h) (by decide)⟩

end TraceLift
