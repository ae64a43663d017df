/-
# How often a body lists a block

Marking the functions of a graph appends the number of a function to its blocks, once for each time
the body lists the block (`block?_markFunctions`).

* **Public functions** list each block once (`nodup_publicFunction`): whatever is added is looked up
  first.
* **Private functions** need not.  A round of their search passes over calls and comes to a block.
  That block is looked up, and added and followed if it is new; the calling blocks passed on the
  way are added as they are.  So the body consists of the blocks explored, each once, and of the
  calling blocks passed from wherever the search was sent (`Collects`), and two ways to one calling
  block list it twice.
-/
import Mathlib.Data.List.Nodup
import Mathlib.Data.List.Perm.Basic
import TraceLift.Proofs.FunctionBodies

namespace TraceLift.Graph

open Conversion

variable {g : Graph}

/-! ## 1. Private functions -/

/-- Where the search for a body goes on from a block that it explores. -/
def onward (g : Graph) (returns : List Nat) (n : Nat) : List Nat :=
  (g.succs n).filter (!returns.contains ·)

/-- Where the search for a body is sent if it explores some blocks: to the start, and onward from
each of them. -/
def sentTo (g : Graph) (returns : List Nat) (start : Nat) (explored : List Nat) : List Nat :=
  start :: explored.flatMap (g.onward returns)

/-- The calling blocks that are passed over from each of some blocks. -/
def passedFrom (calls : List (List (Nat × Nat))) (l : List Nat) : List Nat :=
  l.flatMap fun n => (skipCalls calls n).1

/-- The search for a body under way: it was sent to some blocks and has been to those of `visited`.
It lists the blocks that it explores, once, and the calling blocks that it passes over.  What it
explores are the blocks that it comes to, if they lead to a block that the function returns to. -/
structure Collects (g : Graph) (returns : List Nat) (calls : List (List (Nat × Nat)))
    (visited explored body : List Nat) : Prop where
  once : explored.Nodup
  listed : body.Perm (explored ++ passedFrom calls visited)
  comesTo : ∀ n ∈ explored, g.reaches n returns = true ∧ ∃ q ∈ visited, (skipCalls calls q).2 = n
  complete : ∀ q ∈ visited, g.reaches (skipCalls calls q).2 returns = true →
    (skipCalls calls q).2 ∈ body

section Private

variable {returns : List Nat} {calls : List (List (Nat × Nat))} {visited explored body : List Nat}

theorem passedFrom_concat (calls : List (List (Nat × Nat))) (l : List Nat) (n : Nat) :
    passedFrom calls (l ++ [n]) = passedFrom calls l ++ (skipCalls calls n).1 := by
  simp [passedFrom]

namespace Collects

theorem nil (g : Graph) (returns : List Nat) (calls : List (List (Nat × Nat))) :
    g.Collects returns calls [] [] [] where
  once := List.nodup_nil
  listed := .rfl
  comesTo := fun _ hn => absurd hn List.not_mem_nil
  complete := fun _ hq => absurd hq List.not_mem_nil

/-- The order in which the search was sent to blocks does not matter. -/
theorem perm (h : g.Collects returns calls visited explored body) {visited' : List Nat}
    (hperm : visited.Perm visited') : g.Collects returns calls visited' explored body where
  once := h.once
  listed := h.listed.trans ((hperm.flatMap_right _).append_left _)
  comesTo := by
    intro n hn
    obtain ⟨hreaches, q, hq, hlast⟩ := h.comesTo n hn
    exact ⟨hreaches, q, hperm.mem_iff.mp hq, hlast⟩
  complete := fun q hq => h.complete q (hperm.mem_iff.mpr hq)

/-- A round that comes to a new block. -/
theorem explore (h : g.Collects returns calls visited explored body) {n last : Nat}
    {passed : List Nat} (hskip : skipCalls calls n = (passed, last))
    (hnew : last ∉ body ++ passed) (hreaches : g.reaches last returns = true) :
    g.Collects returns calls (visited ++ [n]) (explored ++ [last]) (body ++ passed ++ [last]) where
  once := by
    rw [← List.concat_eq_append]
    refine h.once.concat fun hlast => hnew (List.mem_append_left _ ?_)
    exact h.listed.mem_iff.mpr (List.mem_append_left _ hlast)
  listed := by
    rw [passedFrom_concat, hskip]
    calc body ++ passed ++ [last]
      _ |>.Perm (explored ++ passedFrom calls visited ++ passed ++ [last]) :=
        (h.listed.append_right _).append_right _
      _ = explored ++ (passedFrom calls visited ++ passed ++ [last]) := by simp
      _ |>.Perm (explored ++ ([last] ++ (passedFrom calls visited ++ passed))) :=
        List.perm_append_comm.append_left _
      _ = explored ++ [last] ++ (passedFrom calls visited ++ passed) := by simp
  comesTo := by
    intro k hk
    rcases List.mem_append.mp hk with hk | hk
    · obtain ⟨hk, q, hq, hlast⟩ := h.comesTo k hk
      exact ⟨hk, q, List.mem_append_left _ hq, hlast⟩
    · rw [List.mem_singleton.mp hk]
      exact ⟨hreaches, n, List.mem_append_right _ List.mem_cons_self, by rw [hskip]⟩
  complete := by
    intro q hq hq'
    rcases List.mem_append.mp hq with hq | hq
    · exact List.mem_append_left _ (List.mem_append_left _ (h.complete q hq hq'))
    · rw [List.mem_singleton.mp hq, hskip]
      exact List.mem_append_right _ List.mem_cons_self

/-- A round that comes to no new block, or to one that leads nowhere. -/
theorem pass (h : g.Collects returns calls visited explored body) {n last : Nat}
    {passed : List Nat} (hskip : skipCalls calls n = (passed, last))
    (hold : last ∈ body ++ passed ∨ g.reaches last returns = false) :
    g.Collects returns calls (visited ++ [n]) explored (body ++ passed) where
  once := h.once
  listed := by
    rw [passedFrom_concat, hskip, ← List.append_assoc]
    exact h.listed.append_right _
  comesTo := by
    intro k hk
    obtain ⟨hreaches, q, hq, hlast⟩ := h.comesTo k hk
    exact ⟨hreaches, q, List.mem_append_left _ hq, hlast⟩
  complete := by
    intro q hq hq'
    rcases List.mem_append.mp hq with hq | hq
    · exact List.mem_append_left _ (h.complete q hq hq')
    · rw [List.mem_singleton.mp hq, hskip] at hq' ⊢
      exact hold.resolve_right (by simp [hq'])

/-- A body lists a block twice exactly if it is passed over twice, or passed over and explored. -/
theorem nodup_iff (h : g.Collects returns calls visited explored body) :
    body.Nodup ↔ (passedFrom calls visited).Nodup ∧
      ∀ n ∈ explored, n ∉ passedFrom calls visited := by
  rw [h.listed.nodup_iff, List.nodup_append', and_iff_right h.once]
  rfl

/-- A block that is passed over from nowhere is listed at most once. -/
theorem count_le_one (h : g.Collects returns calls visited explored body) {n : Nat}
    (hn : n ∉ passedFrom calls visited) : body.count n ≤ 1 := by
  rw [h.listed.count_eq, List.count_append, List.count_eq_zero.mpr hn]
  exact List.nodup_iff_count_le_one.mp h.once n

end Collects

/-- **The whole search** is sent onward from each of the blocks that it explores. -/
theorem exists_collects_of_bodyLoop {start rounds : Nat} {ended : Bool}
    (h : g.bodyLoop returns calls rounds [start] [] false = .ok (body, ended)) :
    ∃ explored, g.Collects returns calls (g.sentTo returns start explored) explored body := by
  -- what was visited and what is still to be visited is all that the search was sent to
  let P : List Nat → List Nat → Bool → Prop := fun queue body _ => ∃ visited explored,
    (visited ++ queue).Perm (g.sentTo returns start explored) ∧
      g.Collects returns calls visited explored body
  have hrun : P [] body ended := by
    refine bodyLoop_run (P := P) ?_ ?_ h ⟨[], [], .rfl, .nil g returns calls⟩
    · rintro n queue body _ passed last hskip hnew hreaches ⟨visited, explored, hsent, hcollects⟩
      refine ⟨visited ++ [n], explored ++ [last], ?_, hcollects.explore hskip hnew hreaches⟩
      have hsplit : g.sentTo returns start (explored ++ [last]) =
          g.sentTo returns start explored ++ g.onward returns last := by simp [sentTo]
      rw [hsplit, List.append_assoc, ← List.append_assoc [n]]
      rw [← List.append_assoc visited]
      exact hsent.append_right _
    · rintro n queue body _ passed last hskip hold ⟨visited, explored, hsent, hcollects⟩
      refine ⟨visited ++ [n], explored, ?_, hcollects.pass hskip hold⟩
      rwa [List.append_assoc]
  obtain ⟨visited, explored, hsent, hcollects⟩ := hrun
  rw [List.append_nil] at hsent
  exact ⟨explored, hcollects.perm hsent⟩

/-- Only blocks that call are passed over. -/
theorem exists_of_mem_skipCalls {n k : Nat} (h : k ∈ (skipCalls calls n).1) :
    ∃ pairs ∈ calls, pairs.lookup k ≠ none := by
  induction calls generalizing n with
  | nil => exact absurd h List.not_mem_nil
  | cons pairs calls ih =>
    rw [skipCalls] at h
    split at h
    · rename_i m hm
      rcases List.mem_cons.mp h with rfl | h
      · exact ⟨pairs, List.mem_cons_self, by simp [hm]⟩
      · obtain ⟨pairs', hmem, hlookup⟩ := ih h
        exact ⟨pairs', List.mem_cons_of_mem _ hmem, hlookup⟩
    · obtain ⟨pairs', hmem, hlookup⟩ := ih h
      exact ⟨pairs', List.mem_cons_of_mem _ hmem, hlookup⟩

/-- Recording calls one after the other forgets no block that calls. -/
theorem lookup_foldl_setEntry_eq_none {l acc : List (Nat × Nat)} {n : Nat}
    (h : (l.foldl (fun acc (k, v) => setEntry k v acc) acc).lookup n = none) :
    acc.lookup n = none ∧ ∀ p ∈ l, n ≠ p.1 := by
  induction l generalizing acc with
  | nil => exact ⟨h, fun p hp => absurd hp List.not_mem_nil⟩
  | cons p l ih =>
    obtain ⟨hacc, hl⟩ := ih h
    rw [lookup_setEntry] at hacc
    split at hacc
    · exact absurd hacc (by simp)
    · rename_i hn
      exact ⟨hacc, List.forall_mem_cons.mpr ⟨hn, hl⟩⟩

theorem body_of_privateFunction? {start : Nat} {f : Function}
    (h : g.privateFunction? start returns calls = .ok (some f)) : f.start = start ∧
      ∃ ended, g.bodyLoop returns calls (g.edgeCount + 2) [start] [] false =
        .ok (f.body, ended) := by
  obtain ⟨⟨body, ended⟩, hloop, h⟩ := bind_eq_ok_iff.mp h
  dsimp only at h
  split at h
  · split at h
    · exact absurd h (by simp)
    · cases h
      exact ⟨rfl, ended, hloop⟩
  · exact absurd h (by simp)

end Private

/-- The private functions come from the blocks that start one, each with the calls of all. -/
theorem starts_of_privateFunctions {fs : List Function} {returns : List (Nat × Nat)}
    (h : g.privateFunctions = .ok (fs, returns)) : ∃ starts, g.privateStarts = .ok starts ∧
      (∀ f ∈ fs, ∃ pairs, (f.start, pairs) ∈ starts ∧
        ∃ explored, g.Collects (pairs.map (·.2)) (starts.map (·.2))
          (g.sentTo (pairs.map (·.2)) f.start explored) explored f.body) ∧
      ∀ n, returns.lookup n = none → ∀ pairs ∈ starts.map (·.2), pairs.lookup n = none := by
  obtain ⟨starts, hstarts, h⟩ := bind_eq_ok_iff.mp h
  obtain ⟨found, hfound, h⟩ := bind_eq_ok_iff.mp h
  obtain ⟨rfl, rfl⟩ := Prod.mk.inj (Except.ok.inj h)
  refine ⟨starts, hstarts, ?_, ?_⟩
  · intro f hf
    obtain ⟨f?, hf?, hid⟩ := List.mem_filterMap.mp (List.mem_filter.mp hf).1
    obtain ⟨⟨n, pairs⟩, hs, hsome⟩ := mem_of_mapM hfound f? hf?
    rw [show f? = some f from hid] at hsome
    obtain ⟨rfl, ended, hloop⟩ := body_of_privateFunction? hsome
    exact ⟨pairs, hs, exists_collects_of_bodyLoop hloop⟩
  · intro n hn pairs hpairs
    have hall := (lookup_foldl_setEntry_eq_none hn).2
    refine List.lookup_eq_none_iff.mpr fun p hp => ?_
    exact bne_iff_ne.mpr (hall p (List.mem_flatten_of_mem hpairs hp))

/-! ## 2. Public functions -/

theorem nodup_body_passCall (x : Extraction) (s : BodySearch) (n : Nat) (h : s.body.Nodup) :
    (passCall x s n).2.body.Nodup := by
  unfold passCall
  split
  · exact nodup_insertNew h
  · exact h

theorem nodup_publicFunction {x : Extraction} {start : Nat} {signature : String} {f : Function}
    (h : g.publicFunction x start signature = .ok f) : f.body.Nodup := by
  obtain ⟨s, hs, h⟩ := bind_eq_ok_iff.mp h
  cases h
  refine publicLoop_run (P := fun _ s => s.body.Nodup) (fun _ h => h) ?_ hs List.nodup_nil
  intro n queue s k jumped _ hs m s' hcall
  have hnodup := nodup_body_passCall x { s with jumped } k hs
  rw [hcall] at hnodup
  exact nodup_insertNew hnodup

theorem nodup_publicFunctions {x : Extraction} {fs : List Function}
    (h : g.publicFunctions x = .ok fs) : ∀ f ∈ fs, f.body.Nodup := by
  intro f hf
  obtain ⟨start, signature, hf⟩ := exists_publicFunction h hf
  exact nodup_publicFunction hf

/-! ## 3. Marks -/

/-- What marking appends to a block: the number of each function, as often as its body lists the
block. -/
def marksOf (x : Extraction) (n : Nat) : List String :=
  (x.functions.mapIdx fun i f => (i, f)).flatMap fun (i, f) =>
    List.replicate (f.body.count n) ("_F" ++ toString i)

/-- Appends texts to the suffix of a block, one after the other. -/
def addMarks (l : List String) (b : Block) : Block := { b with suffix := l.foldl (· ++ ·) b.suffix }

theorem addMarks_append (l m : List String) (b : Block) :
    addMarks (l ++ m) b = addMarks m (addMarks l b) := by
  simp [addMarks, List.foldl_append]

/-- Marking a body. -/
theorem block?_markBody (i n : Nat) (body : List Nat) (g : Graph) :
    (body.foldl (fun g n => g.modify n fun b => { b with suffix := b.suffix ++ "_F" ++ toString i })
      g).block? n =
      (g.block? n).map (addMarks (List.replicate (body.count n) ("_F" ++ toString i))) := by
  induction body generalizing g with
  | nil => exact (congrFun Option.map_id _).symm
  | cons k body ih =>
    rw [List.foldl_cons, ih, block?_modify, List.count_cons]
    by_cases hk : k = n
    · rw [if_pos hk, Option.map_map, beq_iff_eq.mpr hk, if_pos rfl, List.replicate_succ]
      refine congrArg (fun f => (g.block? n).map f) (funext fun b => ?_)
      simp [addMarks, String.append_assoc]
    · simp [hk]

/-- **Marking the functions of a graph** appends the number of a function to a block as often as the
body lists it. -/
theorem block?_markFunctions (g : Graph) (x : Extraction) (n : Nat) :
    (g.markFunctions x).block? n = (g.block? n).map (addMarks (marksOf x n)) := by
  rw [markFunctions, marksOf]
  generalize x.functions.mapIdx (fun i f => (i, f)) = l
  induction l generalizing g with
  | nil => exact (congrFun Option.map_id _).symm
  | cons p l ih =>
    obtain ⟨i, f⟩ := p
    rw [List.foldl_cons, ih, block?_markBody, Option.map_map, List.flatMap_cons]
    exact congrArg (fun f => (g.block? n).map f) (funext fun b => (addMarks_append _ _ b).symm)

end TraceLift.Graph

namespace TraceLift

/-- **Only calls are listed again.**  If the extraction comes to an end, a public function lists
each of its blocks once.  A private one lists the blocks that it explores once, and a calling block
each time that it passes over it: so no other block is listed twice, and none at all exactly if the
calling blocks passed over are all different and unexplored.  Marking appends the number of a
function to a block as often as the body lists it. -/
theorem only_calls_are_listed_again {g : Graph} {x : Extraction} (hx : g.extract = .ok x) :
    (∀ f ∈ x.publicFunctions, f.body.Nodup) ∧
    (∃ starts, g.privateStarts = .ok starts ∧
      ∀ f ∈ x.privateFunctions, ∃ pairs explored, (f.start, pairs) ∈ starts ∧
        let calls := starts.map (·.2)
        let visited := g.sentTo (pairs.map (·.2)) f.start explored
        g.Collects (pairs.map (·.2)) calls visited explored f.body ∧
        (∀ n, x.returns.lookup n = none → f.body.count n ≤ 1) ∧
        (f.body.Nodup ↔ (Graph.passedFrom calls visited).Nodup ∧
          ∀ n ∈ explored, n ∉ Graph.passedFrom calls visited)) ∧
    ∀ n, (g.markFunctions x).block? n = (g.block? n).map (Graph.addMarks (Graph.marksOf x n)) := by
  obtain ⟨⟨privates, returns⟩, hprivate, hx⟩ := bind_eq_ok_iff.mp hx
  obtain ⟨publics, hpublic, hx⟩ := bind_eq_ok_iff.mp hx
  cases hx
  refine ⟨Graph.nodup_publicFunctions hpublic, ?_, Graph.block?_markFunctions g _⟩
  obtain ⟨starts, hstarts, hbodies, hreturns⟩ := Graph.starts_of_privateFunctions hprivate
  refine ⟨starts, hstarts, fun f hf => ?_⟩
  obtain ⟨pairs, hmem, explored, hcollects⟩ := hbodies f hf
  refine ⟨pairs, explored, hmem, hcollects, fun n hn => ?_, hcollects.nodup_iff⟩
  refine hcollects.count_le_one fun hpassed => ?_
  obtain ⟨q, -, hq⟩ := List.mem_flatMap.mp hpassed
  obtain ⟨pairs', hpairs', hlookup⟩ := Graph.exists_of_mem_skipCalls hq
  exact hlookup (hreturns n hn pairs' hpairs')

/-- Blocks `1` and `2` call the private function of `4`, `5`, `6` and `9`, and return to `10` and
`11`. In it two ways, from `4` and from `5`, meet at `6`, which calls the private function of `7`
and `8` and returns to `9`, as `3` does and returns to `12`.  Block `0` compares the signature. -/
def meetingAtCall : Graph :=
  let pushes : List PlacedOp := List.replicate 2
    { pc := 0, opcode := .push 1, place := ⟨0, 1, 0⟩, owner := 0 }
  let compare : List TacOp :=
    [{ opcode := .calldataload, args := [.literal 0], pc := 0, binding := some { target := 0 } },
      { opcode := .eq, args := [.var 0, .literal 0xab], pc := 1, binding := some { target := 1 } }]
  let plain (n : Nat) (preds succs : List Nat) : Block :=
    { entry := some n, exit := some n, ops := [], preds, succs }
  let call (n back : Nat) (preds succs : List Nat) : Block :=
    { plain n preds succs with source := pushes, delta := { items := [.literal back] } }
  { blocks := [
      { plain 0 [] [1, 2, 3] with ops := compare, fallthrough := some (some 3) },
      call 1 10 [0] [4], call 2 11 [0] [4], call 3 12 [0] [7],
      plain 4 [1, 2] [5, 6], plain 5 [4] [6], call 6 9 [4, 5] [7],
      plain 7 [3, 6] [8], plain 8 [7] [9, 12],
      plain 9 [8] [10, 11], plain 10 [9] [], plain 11 [9] [], plain 12 [8] []],
    order := List.range 13 }

/-- Its functions.  The second private one lists block `6` twice. -/
def meetingAtCallFunctions : Extraction where
  publicFunctions :=
    [{ body := [1, 10], start := 1, finish := some 10, signature := "0xab" },
      { body := [2, 11], start := 2, finish := some 11, signature := "0xab" },
      { body := [3, 12], start := 3, finish := some 12 }]
  privateFunctions :=
    [{ body := [7, 8], start := 7, finish := some 8, isPrivate := true, preds := [3, 6],
       succs := [9, 12] },
      { body := [4, 5, 6, 9, 6], start := 4, finish := some 9, isPrivate := true, preds := [1, 2],
        succs := [10, 11] }]
  returns := [(3, 12), (6, 9), (1, 10), (2, 11)]

theorem meetingAtCall_listed_again : meetingAtCall.extract = .ok meetingAtCallFunctions ∧
    (∀ f ∈ meetingAtCallFunctions.publicFunctions, f.body.Nodup) ∧
    (∀ f ∈ meetingAtCallFunctions.privateFunctions,
      ∀ n, meetingAtCallFunctions.returns.lookup n = none → f.body.count n ≤ 1) ∧
    (meetingAtCall.markFunctions meetingAtCallFunctions).block? 6 =
      (meetingAtCall.block? 6).map (Graph.addMarks ["_F4", "_F4"]) := by
  have hextract : meetingAtCall.extract = .ok meetingAtCallFunctions := by decide +kernel
  obtain ⟨hpublic, ⟨starts, -, hprivate⟩, hmarks⟩ := only_calls_are_listed_again hextract
  refine ⟨hextract, hpublic, fun f hf => ?_, hmarks 6⟩
  obtain ⟨pairs, explored, -, -, hcount, -⟩ := hprivate f hf
  exact hcount

/-- Where two ways meet at a call, the body lists the calling block twice and it is marked twice,
even if the edges agree. -/
theorem not_nodup_meetingAtCall : meetingAtCall.EdgesAgree ∧
    meetingAtCall.extract = .ok meetingAtCallFunctions ∧
    (¬∀ f ∈ meetingAtCallFunctions.functions, f.body.Nodup) ∧
    ((meetingAtCall.markFunctions meetingAtCallFunctions).block? 6).map (·.suffix) =
      some "_F4_F4" := by
  decide +kernel

end TraceLift
