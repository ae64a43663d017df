/-
# Tables

A table is a list of entries, each with a key, in the order in which the keys were first set.  The
entry of a key is the first one that has it (`List.lookup`).
-/

namespace TraceLift

variable {κ α : Type} [DecidableEq κ]

/-- Sets the entry of a key; a new key comes last. -/
def setEntry (key : κ) (value : α) : List (κ × α) → List (κ × α)
  | [] => [(key, value)]
  | (k, v) :: rest => if k = key then (k, value) :: rest else (k, v) :: setEntry key value rest

theorem lookup_cons (key : κ) (value : α) (l : List (κ × α)) (k : κ) :
    ((key, value) :: l).lookup k = if k = key then some value else l.lookup k := by
  rw [List.lookup_cons]
  by_cases h : k = key
  · simp [h]
  · simp [h, beq_false_of_ne h]

/-- **A key has the value that was set last**, and every other key the one that it had. -/
theorem lookup_setEntry (key : κ) (value : α) (k : κ) :
    ∀ l : List (κ × α),
      (setEntry key value l).lookup k = if k = key then some value else l.lookup k
  | [] => lookup_cons key value [] k
  | (first, v) :: rest => by
    by_cases hfirst : first = key
    · subst hfirst
      rw [setEntry, if_pos rfl, lookup_cons, lookup_cons]
      split <;> rfl
    · rw [setEntry, if_neg hfirst, lookup_cons, lookup_cons, lookup_setEntry key value k rest]
      by_cases h : k = first
      · subst h
        rw [if_pos rfl, if_neg hfirst, if_pos rfl]
      · rw [if_neg h, if_neg h]

theorem mem_setEntry {key : κ} {value : α} {p : κ × α} : ∀ {l : List (κ × α)},
    p ∈ setEntry key value l → p ∈ l ∨ p = (key, value)
  | [], h => .inr (List.mem_singleton.mp h)
  | (k, v) :: rest, h => by
    rw [setEntry] at h
    split at h
    · rename_i hk
      rcases List.mem_cons.mp h with rfl | h
      · exact .inr (by rw [hk])
      · exact .inl (List.mem_cons_of_mem _ h)
    · rcases List.mem_cons.mp h with rfl | h
      · exact .inl List.mem_cons_self
      · exact (mem_setEntry h).imp_left (List.mem_cons_of_mem _)

theorem lookup_of_mem {l : List (κ × α)} {k : κ} {v : α} (hnodup : (l.map (·.1)).Nodup)
    (hmem : (k, v) ∈ l) : l.lookup k = some v := by
  obtain ⟨pre, post, rfl⟩ := List.append_of_mem hmem
  refine List.lookup_eq_some_iff.mpr ⟨pre, post, rfl, fun p hp => ?_⟩
  rw [List.map_append, List.map_cons, List.nodup_append] at hnodup
  have hne : p.1 ≠ k := hnodup.2.2 p.1 (List.mem_map_of_mem hp) k List.mem_cons_self
  simpa using hne.symm

end TraceLift
