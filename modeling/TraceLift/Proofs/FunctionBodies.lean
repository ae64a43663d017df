/-
# Functions are subgraphs

The functions of a graph are found by searches that start with a block, follow successor edges, and
pass over other functions: by a call, which leads from the calling block to the one it returns to,
or by a search of its own.  Each of these is a path (`Leads`), so a body holds only blocks that the
start leads to.

* **Calls lead** (`callsLead_of_privateStart?`).  A call is recorded only if the block that it
  returns to can be reached.
* **Private functions** (`privateSound_of_privateFunction?`).  The search ends well if some block
  has all blocks that the function returns to among its successors; as edges are kept twice, that
  block is then among the candidates for the end (`exists_privateFunction?`), so there always is
  one.
* **Public functions** (`publicSound_of_publicFunction`).  The end is a block of the body from which
  nothing leads on.
-/
import TraceLift.Proofs.SearchesEnd
import TraceLift.Proofs.Sorting

namespace TraceLift.Graph

open Conversion

variable {g : Graph}

theorem sortBlocks_perm (g : Graph) (l : List Nat) : (g.sortBlocks l).Perm l :=
  Order.sortBy_perm g.before l

/-! ## 1. Calls -/

/-- Each of the calling blocks leads to the block that the call returns to. -/
def CallsLead (g : Graph) (pairs : List (Nat × Nat)) : Prop := ∀ p ∈ pairs, g.Leads p.1 p.2

theorem CallsLead.setEntry {pairs : List (Nat × Nat)} (h : g.CallsLead pairs) {key value : Nat}
    (hlead : g.Leads key value) : g.CallsLead (setEntry key value pairs) := by
  intro p hp
  rcases mem_setEntry hp with hp | rfl
  · exact h p hp
  · exact hlead

theorem CallsLead.lookup {pairs : List (Nat × Nat)} (h : g.CallsLead pairs) {n m : Nat}
    (hm : pairs.lookup n = some m) : g.Leads n m := by
  obtain ⟨before, after, rfl, -⟩ := List.lookup_eq_some_iff.mp hm
  exact h (n, m) (List.mem_append_right _ List.mem_cons_self)

/-- The block that a call returns to can be reached from the calling block. -/
theorem leads_of_returnBlock? {pred n : Nat} {items : List Operand}
    (h : g.returnBlock? pred items = .ok (some n)) : g.Leads pred n := by
  induction items with
  | nil => exact absurd h (by simp [returnBlock?])
  | cons a rest ih =>
    obtain ⟨found, -, h⟩ := bind_eq_ok_iff.mp h
    split at h
    · rename_i m
      split at h
      · rename_i hreaches
        obtain ⟨t, ht, hlead⟩ := leads_of_reaches hreaches
        cases h
        rwa [List.mem_singleton.mp ht] at hlead
      · exact ih h
    · exact ih h

theorem callsLead_of_callPairs {start : Nat} {preds : List Nat} {pairs pairs' : List (Nat × Nat)}
    (hpairs : g.CallsLead pairs) (h : g.callPairs start pairs preds = .ok (some pairs')) :
    g.CallsLead pairs' := by
  induction preds generalizing pairs with
  | nil =>
    cases h
    exact hpairs
  | cons p preds ih =>
    rw [callPairs] at h
    split at h
    · exact ih hpairs h
    split at h
    · exact absurd h (by simp)
    split at h
    · exact absurd h (by simp)
    split at h
    · exact absurd h (by simp)
    · obtain ⟨found, hfound, h⟩ := bind_eq_ok_iff.mp h
      split at h
      · exact ih (hpairs.setEntry (leads_of_returnBlock? hfound)) h
      · exact ih hpairs h

/-- **Where a private function starts** several blocks come together, and at least two of them are
calls. -/
theorem callsLead_of_privateStart? {n : Nat} {pairs : List (Nat × Nat)}
    (h : g.privateStart? n = .ok (some pairs)) :
    2 ≤ (g.preds n).length ∧ 1 < pairs.length ∧ g.CallsLead pairs := by
  simp only [privateStart?] at h
  split at h
  · exact absurd h (by simp)
  · rename_i hmany
    obtain ⟨found, hfound, h⟩ := bind_eq_ok_iff.mp h
    obtain ⟨hsome, hlong⟩ := Option.filter_eq_some_iff.mp (Except.ok.inj h)
    have hlength := (g.sortBlocks_perm (g.preds n)).length_eq
    rw [Bool.or_eq_true, not_or, decide_eq_true_iff] at hmany
    rw [hsome] at hfound
    refine ⟨by omega, of_decide_eq_true hlong, ?_⟩
    exact callsLead_of_callPairs (fun p hp => absurd hp (List.not_mem_nil)) hfound

/-! ## 2. Private functions -/

section Private

variable {returns : List Nat} {calls : List (List (Nat × Nat))}

/-- Passing over calls follows paths. -/
theorem leads_of_skipCalls (hcalls : ∀ pairs ∈ calls, g.CallsLead pairs) {n last : Nat}
    {passed : List Nat} (h : skipCalls calls n = (passed, last)) :
    g.Leads n last ∧ ∀ k ∈ passed, g.Leads n k := by
  induction calls generalizing n last passed with
  | nil =>
    cases h
    exact ⟨.rfl, fun k hk => absurd hk (List.not_mem_nil)⟩
  | cons pairs calls ih =>
    obtain ⟨hpairs, hrest⟩ := List.forall_mem_cons.mp hcalls
    rw [skipCalls] at h
    split at h
    · rename_i m hm
      have hlead := hpairs.lookup hm
      cases h
      obtain ⟨hlast, hpassed⟩ := ih hrest (Prod.eta (skipCalls calls m)).symm
      refine ⟨hlead.trans hlast, ?_⟩
      intro k hk
      rcases List.mem_cons.mp hk with rfl | hk
      · exact .rfl
      · exact hlead.trans (hpassed k hk)
    · exact ih hrest h

/-- The first block passed is the one that it starts from. -/
theorem skipCalls_cases (calls : List (List (Nat × Nat))) (n : Nat) :
    n ∈ (skipCalls calls n).1 ∨ skipCalls calls n = ([], n) := by
  induction calls with
  | nil => exact .inr rfl
  | cons pairs calls ih =>
    rw [skipCalls]
    split
    · exact .inl List.mem_cons_self
    · exact ih

/-- **What every round of the search for a body keeps, the whole search keeps.**  A round adds the
block that it comes to, if that is new and leads to a block that the function returns to. -/
theorem bodyLoop_run {P : List Nat → List Nat → Bool → Prop}
    (hnew : ∀ {n queue body ended passed last}, skipCalls calls n = (passed, last) →
      last ∉ body ++ passed → g.reaches last returns = true → P (n :: queue) body ended →
      P (queue ++ (g.succs last).filter (!returns.contains ·)) (body ++ passed ++ [last])
        (ended || returns.all ((g.succs last).contains ·)))
    (hold : ∀ {n queue body ended passed last}, skipCalls calls n = (passed, last) →
      last ∈ body ++ passed ∨ g.reaches last returns = false → P (n :: queue) body ended →
      P queue (body ++ passed) (ended || returns.all ((g.succs last).contains ·)))
    {rounds : Nat} {queue body body' : List Nat} {ended ended' : Bool}
    (h : g.bodyLoop returns calls rounds queue body ended = .ok (body', ended'))
    (hP : P queue body ended) : P [] body' ended' := by
  induction rounds generalizing queue body ended with
  | zero => exact absurd h (by simp [bodyLoop])
  | succ rounds ih =>
    cases queue with
    | nil =>
      cases h
      exact hP
    | cons n queue =>
      obtain ⟨⟨passed, last⟩, hskip⟩ : ∃ x, skipCalls calls n = x := ⟨_, rfl⟩
      rw [bodyLoop_cons hskip] at h
      split at h
      · rename_i hcond
        simp only [Bool.and_eq_true, Bool.not_eq_true', List.contains_eq_mem,
          decide_eq_false_iff_not] at hcond
        exact ih h (hnew hskip hcond.1 hcond.2 hP)
      · rename_i hcond
        simp only [Bool.and_eq_true, Bool.not_eq_true', List.contains_eq_mem,
          decide_eq_false_iff_not, not_and_or, not_not, Bool.not_eq_true] at hcond
        exact ih h (hold hskip hcond hP)

/-- The body holds blocks that the start leads to. -/
theorem leads_of_mem_bodyLoop (hcalls : ∀ pairs ∈ calls, g.CallsLead pairs) {start rounds : Nat}
    {body : List Nat} {ended : Bool}
    (h : g.bodyLoop returns calls rounds [start] [] false = .ok (body, ended)) :
    ∀ k ∈ body, g.Leads start k := by
  let P : List Nat → List Nat → Bool → Prop := fun queue body _ =>
    (∀ q ∈ queue, g.Leads start q) ∧ ∀ k ∈ body, g.Leads start k
  have hround : ∀ {n queue body passed last}, skipCalls calls n = (passed, last) →
      (∀ q ∈ n :: queue, g.Leads start q) → (∀ k ∈ body, g.Leads start k) →
      g.Leads start last ∧ (∀ q ∈ queue, g.Leads start q) ∧
        ∀ k ∈ body ++ passed, g.Leads start k := by
    intro n queue body passed last hskip hqueue hbody
    obtain ⟨hn, hrest⟩ := List.forall_mem_cons.mp hqueue
    obtain ⟨hlast, hpassed⟩ := leads_of_skipCalls hcalls hskip
    refine ⟨hn.trans hlast, hrest, fun k hk => ?_⟩
    rcases List.mem_append.mp hk with hk | hk
    · exact hbody k hk
    · exact hn.trans (hpassed k hk)
  have hrun : P [] body ended := by
    refine bodyLoop_run (P := P) ?_ ?_ h ?_
    · rintro n queue body _ passed last hskip - - ⟨hqueue, hbody⟩
      obtain ⟨hlead, hrest, hbody'⟩ := hround hskip hqueue hbody
      constructor
      · intro q hq
        rcases List.mem_append.mp hq with hq | hq
        · exact hrest q hq
        · exact hlead.next (List.mem_filter.mp hq).1
      · intro k hk
        rcases List.mem_append.mp hk with hk | hk
        · exact hbody' k hk
        · rw [List.mem_singleton.mp hk]
          exact hlead
    · rintro n queue body _ passed last hskip - ⟨hqueue, hbody⟩
      exact (hround hskip hqueue hbody).2
    · refine ⟨fun q hq => ?_, fun k hk => absurd hk List.not_mem_nil⟩
      rw [List.mem_singleton.mp hq]
      exact .rfl
  exact hrun.2

/-- The search ends well only if some block has all the blocks that the function returns to among
its successors. -/
theorem exists_of_bodyLoop_ended {start rounds : Nat} {body : List Nat}
    (h : g.bodyLoop returns calls rounds [start] [] false = .ok (body, true)) :
    ∃ n, ∀ r ∈ returns, r ∈ g.succs n := by
  let P : List Nat → List Nat → Bool → Prop := fun _ _ ended =>
    ended = true → ∃ n, ∀ r ∈ returns, r ∈ g.succs n
  have hround : ∀ {ended : Bool} {last : Nat}, P [] [] ended →
      P [] [] (ended || returns.all ((g.succs last).contains ·)) := by
    intro ended last hP hor
    rcases Bool.or_eq_true _ _ ▸ hor with hended | hall
    · exact hP hended
    · refine ⟨last, fun r hr => ?_⟩
      exact List.contains_iff_mem.mp (List.all_eq_true.mp hall r hr)
  refine bodyLoop_run (P := P) ?_ ?_ h (by simp [P]) rfl
  · exact fun _ _ _ hP => hround hP
  · exact fun _ _ hP => hround hP

/-- If the search ends well the start is in the body: it is passed over as a call, or it leads to a
block that the function returns to. -/
theorem start_mem_bodyLoop (hreturns : returns ≠ []) {start rounds : Nat} {body : List Nat}
    (h : g.bodyLoop returns calls rounds [start] [] false = .ok (body, true)) : start ∈ body := by
  -- until its first round the search has nothing; a search that goes no further does not end well
  let P : List Nat → List Nat → Bool → Prop := fun queue body ended =>
    start ∈ body ∨ (ended = false ∧ (queue = [] ∨ queue = [start]))
  have hrun : P [] body true := by
    refine bodyLoop_run (P := P) ?_ ?_ h (.inr ⟨rfl, .inr rfl⟩)
    · rintro n queue body ended passed last hskip - - (hbody | ⟨rfl, hqueue | hqueue⟩)
      · exact .inl (List.mem_append_left _ (List.mem_append_left _ hbody))
      · exact absurd hqueue (List.cons_ne_nil _ _)
      · obtain ⟨rfl, rfl⟩ := List.cons.inj hqueue
        refine .inl ?_
        rcases skipCalls_cases calls n with hpassed | hnone
        · rw [hskip] at hpassed
          exact List.mem_append_left _ (List.mem_append_right _ hpassed)
        · obtain ⟨-, rfl⟩ := Prod.mk.inj (hskip.symm.trans hnone)
          exact List.mem_append_right _ List.mem_cons_self
    · rintro n queue body ended passed last hskip hcond (hbody | ⟨rfl, hqueue | hqueue⟩)
      · exact .inl (List.mem_append_left _ hbody)
      · exact absurd hqueue (List.cons_ne_nil _ _)
      · obtain ⟨rfl, rfl⟩ := List.cons.inj hqueue
        rcases skipCalls_cases calls n with hpassed | hnone
        · rw [hskip] at hpassed
          exact .inl (List.mem_append_right _ hpassed)
        · obtain ⟨rfl, rfl⟩ := Prod.mk.inj (hskip.symm.trans hnone)
          rcases hcond with hmem | hnot
          · exact .inl hmem
          · refine .inr ⟨?_, .inl rfl⟩
            rw [Bool.false_or, Bool.eq_false_iff]
            intro hall
            obtain ⟨r, hr⟩ := List.exists_mem_of_ne_nil returns hreturns
            have hsucc := List.contains_iff_mem.mp (List.all_eq_true.mp hall r hr)
            exact absurd (reaches_of_mem_succs hr hsucc) (by simp [hnot])
  rcases hrun with hbody | ⟨hended, -⟩
  · exact hbody
  · exact absurd hended (by simp)

theorem mem_commonPreds {p : Nat} :
    p ∈ g.commonPreds returns ↔ returns ≠ [] ∧ ∀ r ∈ returns, p ∈ g.preds r := by
  cases returns with
  | nil => simp [commonPreds]
  | cons r rest =>
    rw [commonPreds, List.mem_filter, (g.sortBlocks_perm _).mem_iff, List.all_eq_true]
    simp only [List.contains_iff_mem]
    constructor
    · rintro ⟨-, hall⟩
      exact ⟨List.cons_ne_nil _ _, hall⟩
    · rintro ⟨-, hall⟩
      exact ⟨hall r List.mem_cons_self, hall⟩

/-- **There always is an end.**  Whether a private function is found or not, the search does not
fail; if one is found, its end has all the blocks that it returns to among its successors. -/
theorem exists_privateFunction? (hg : g.EdgesAgree) (hreturns : returns ≠ []) (start : Nat)
    (calls : List (List (Nat × Nat))) :
    g.privateFunction? start returns calls = .ok none ∨
      ∃ body finish, (∀ r ∈ returns, r ∈ g.succs finish) ∧
        g.bodyLoop returns calls (g.edgeCount + 2) [start] [] false = .ok (body, true) ∧
        g.privateFunction? start returns calls = .ok (some
          { body, start, finish := some finish, isPrivate := true,
            preds := g.sortBlocks (g.preds start), succs := g.sortBlocks returns }) := by
  obtain ⟨⟨body, ended⟩, hfound⟩ := exists_bodyLoop g returns calls start
  have hloop := hfound _ (Nat.le_refl _)
  rw [privateFunction?, hloop]
  cases ended with
  | false => exact .inl rfl
  | true =>
    obtain ⟨n, hn⟩ := exists_of_bodyLoop_ended hloop
    have hcommon : n ∈ g.sortBlocks (g.commonPreds returns) := by
      rw [(g.sortBlocks_perm _).mem_iff, mem_commonPreds]
      exact ⟨hreturns, fun r hr => (hg.agree n r).mp (hn r hr)⟩
    obtain ⟨finish, hfinish⟩ : ∃ finish,
        (g.sortBlocks (g.commonPreds returns)).getLast? = some finish :=
      ⟨_, List.getLast?_eq_some_getLast (List.ne_nil_of_mem hcommon)⟩
    have hmem := List.mem_of_getLast? hfinish
    rw [(g.sortBlocks_perm _).mem_iff, mem_commonPreds] at hmem
    refine .inr ⟨body, finish, fun r hr => (hg.agree finish r).mpr (hmem.2 r hr), rfl, ?_⟩
    simp only [bind, Except.bind, if_true, hfinish]

end Private

/-- What holds of a private function: its start leads to all of its blocks and is one of them;
blocks come together there; and the end has every block that the function returns to, which are
those of the calls that enter it, among its successors. -/
structure PrivateSound (g : Graph) (f : Function) : Prop where
  reached : ∀ n ∈ f.body, g.Leads f.start n
  start : f.start ∈ f.body
  joins : 2 ≤ (g.preds f.start).length
  returns : ∃ pairs, g.privateStart? f.start = .ok (some pairs) ∧
    f.succs.Perm (pairs.map (·.2))
  finish : ∃ n, f.finish = some n ∧ ∀ r ∈ f.succs, r ∈ g.succs n

theorem returns_ne_nil {n : Nat} {pairs : List (Nat × Nat)}
    (h : g.privateStart? n = .ok (some pairs)) : pairs.map (·.2) ≠ [] := by
  have hlong := (callsLead_of_privateStart? h).2.1
  rw [← List.length_pos_iff, List.length_map]
  omega

theorem privateSound_of_privateFunction? (hg : g.EdgesAgree) {calls : List (List (Nat × Nat))}
    (hcalls : ∀ pairs ∈ calls, g.CallsLead pairs) {n : Nat} {pairs : List (Nat × Nat)}
    (hstart : g.privateStart? n = .ok (some pairs)) {f : Function}
    (h : g.privateFunction? n (pairs.map (·.2)) calls = .ok (some f)) : g.PrivateSound f := by
  have hreturns := returns_ne_nil hstart
  rcases exists_privateFunction? hg hreturns n calls with
    hnone | ⟨body, finish, hfinish, hended, hsome⟩
  · rw [hnone] at h
    exact absurd h (by simp)
  · rw [hsome] at h
    obtain rfl := Option.some.inj (Except.ok.inj h)
    have hperm := g.sortBlocks_perm (pairs.map (·.2))
    constructor
    case reached => exact leads_of_mem_bodyLoop hcalls hended
    case start => exact start_mem_bodyLoop hreturns hended
    case joins => exact (callsLead_of_privateStart? hstart).1
    case returns => exact ⟨pairs, hstart, hperm⟩
    case finish =>
      refine ⟨finish, rfl, ?_⟩
      intro r hr
      exact hfinish r (hperm.mem_iff.mp hr)

theorem privateSound_of_privateFunctions (hg : g.EdgesAgree) {fs : List Function}
    {returns : List (Nat × Nat)} (h : g.privateFunctions = .ok (fs, returns)) :
    (∀ f ∈ fs, g.PrivateSound f) ∧ g.CallsLead returns := by
  obtain ⟨starts, hstarts, h⟩ := bind_eq_ok_iff.mp h
  obtain ⟨found, hfound, h⟩ := bind_eq_ok_iff.mp h
  obtain ⟨rfl, rfl⟩ := Prod.mk.inj (Except.ok.inj h)
  have hstart : ∀ s ∈ starts, g.privateStart? s.1 = .ok (some s.2) := by
    intro s hs
    obtain ⟨n, -, hn⟩ := mem_of_filterMapM hstarts s hs
    obtain ⟨pairs?, hpairs, hn⟩ := bind_eq_ok_iff.mp hn
    obtain ⟨pairs, rfl, rfl⟩ := Option.map_eq_some_iff.mp (Except.ok.inj hn)
    exact hpairs
  have hcalls : ∀ pairs ∈ starts.map (·.2), g.CallsLead pairs := by
    intro pairs hpairs
    obtain ⟨s, hs, rfl⟩ := List.mem_map.mp hpairs
    exact (callsLead_of_privateStart? (hstart s hs)).2.2
  constructor
  · intro f hf
    obtain ⟨f?, hf?, hid⟩ := List.mem_filterMap.mp (List.mem_filter.mp hf).1
    obtain ⟨s, hs, hsome⟩ := mem_of_mapM hfound f? hf?
    rw [show f? = some f from hid] at hsome
    exact privateSound_of_privateFunction? hg hcalls (hstart s hs) hsome
  · refine List.foldlRecOn (motive := g.CallsLead) _ _ (fun p hp => absurd hp (List.not_mem_nil)) ?_
    intro pairs hpairs p hp
    obtain ⟨l, hl, hp⟩ := List.mem_flatten.mp hp
    exact hpairs.setEntry (hcalls l hl p hp)

/-! ## 3. Public functions -/

section Public

variable {x : Extraction} {start : Nat}

/-- The way out of functions is a path. -/
theorem leads_of_leaveLoop {body : List Nat} {stack : List Char} {rounds n : Nat}
    {queue seen : List Nat} (hqueue : ∀ q ∈ queue, g.Leads start q)
    (h : g.leaveLoop x body stack rounds queue seen = .ok (some n)) : g.Leads start n := by
  induction rounds generalizing queue seen with
  | zero => exact absurd h (by simp [leaveLoop])
  | succ rounds ih =>
    cases queue with
    | nil => exact absurd h (by simp [leaveLoop])
    | cons k queue =>
      obtain ⟨hk, hrest⟩ := List.forall_mem_cons.mp hqueue
      rw [leaveLoop] at h
      split at h
      · cases h
        exact hk
      · obtain ⟨outside, -, h⟩ := bind_eq_ok_iff.mp h
        cases outside with
        | true =>
          cases h
          exact hk
        | false =>
          refine ih ?_ h
          intro q hq
          rcases List.mem_append.mp hq with hq | hq
          · exact hk.next (mem_fresh.mp hq).1
          · exact hrest q hq

theorem leads_of_passFunctions {body : List Nat} {prev : Option Nat} {caller : Nat}
    {fs : List Function} {current current' : Option Nat} {jumped jumped' : Bool}
    (hcurrent : ∀ n ∈ current, g.Leads start n)
    (h : g.passFunctions x body prev caller fs current jumped = .ok (current', jumped')) :
    ∀ n ∈ current', g.Leads start n := by
  induction fs generalizing current jumped with
  | nil =>
    cases h
    exact hcurrent
  | cons f fs ih =>
    cases current with
    | none =>
      cases h
      exact hcurrent
    | some n =>
      have hn := hcurrent n rfl
      rw [passFunctions] at h
      split at h
      · split at h
        · exact absurd h (by simp)
        split at h
        · exact absurd h (by simp)
        · rename_i next hnext
          refine ih ?_ h
          rintro k rfl
          refine hn.trans (leads_of_leaveLoop ?_ hnext)
          intro q hq
          rw [List.mem_singleton.mp hq]
          exact .rfl
      · exact ih hcurrent h

/-- **What every round of the search for a body keeps, the whole search keeps.**  A round finds no
way out of the functions that it passes over, or it arrives at a block, perhaps behind a call. -/
theorem publicLoop_run {P : List Nat → BodySearch → Prop}
    (hnone : ∀ {n queue s jumped},
      g.passFunctions x s.body s.current s.caller x.functions (some n) s.jumped =
        .ok (none, jumped) →
      P (n :: queue) s → P queue { s with current := none, jumped })
    (hsome : ∀ {n queue s k jumped},
      g.passFunctions x s.body s.current s.caller x.functions (some n) s.jumped =
        .ok (some k, jumped) →
      P (n :: queue) s → ∀ m s', passCall x { s with jumped } k = (m, s') →
      P (if s'.body.contains m then queue else queue ++ g.succs m) (g.arrive s' m))
    {rounds : Nat} {queue : List Nat} {s s' : BodySearch}
    (h : g.publicLoop x rounds queue s = .ok s') (hP : P queue s) : P [] s' := by
  induction rounds generalizing queue s with
  | zero => exact absurd h (by simp [publicLoop])
  | succ rounds ih =>
    cases queue with
    | nil =>
      cases h
      exact hP
    | cons n queue =>
      obtain ⟨⟨current, jumped⟩, hpass, h⟩ := bind_eq_ok_iff.mp h
      cases current with
      | none => exact ih h (hnone hpass hP)
      | some k => exact ih h (hsome hpass hP _ _ rfl)

/-- What holds during the search for the body of a public function. -/
structure Searches (g : Graph) (start : Nat) (s : BodySearch) : Prop where
  reached : ∀ n ∈ s.body, g.Leads start n
  finish : ∀ n ∈ s.finish, n ∈ s.body ∧ g.succs n = []

theorem Searches.arrive {s : BodySearch} {n : Nat} (h : g.Searches start s)
    (hn : g.Leads start n) : g.Searches start (g.arrive s n) where
  reached := by
    intro k hk
    rcases mem_insertNew.mp hk with hk | rfl
    · exact h.reached k hk
    · exact hn
  finish := by
    intro k hk
    simp only [Graph.arrive] at hk
    split at hk
    · rename_i hempty
      obtain rfl : n = k := Option.some.inj hk
      exact ⟨mem_insertNew.mpr (.inr rfl), List.isEmpty_iff.mp hempty⟩
    · exact ⟨mem_insertNew.mpr (.inl (h.finish k hk).1), (h.finish k hk).2⟩

/-- A call that is passed over is in the body, too, and leads on. -/
theorem Searches.passCall (hreturns : g.CallsLead x.returns) {s : BodySearch} {n : Nat}
    (h : g.Searches start s) (hn : g.Leads start n) :
    g.Leads start (passCall x s n).1 ∧ g.Searches start (passCall x s n).2 := by
  unfold Graph.passCall
  split
  · rename_i m hm
    refine ⟨hn.trans (hreturns.lookup hm), ?_, ?_⟩
    · intro k hk
      rcases mem_insertNew.mp hk with hk | rfl
      · exact h.reached k hk
      · exact hn
    · intro k hk
      exact ⟨mem_insertNew.mpr (.inl (h.finish k hk).1), (h.finish k hk).2⟩
  · exact ⟨hn, h⟩

theorem searches_of_publicLoop (hreturns : g.CallsLead x.returns) {rounds : Nat} {s : BodySearch}
    (h : g.publicLoop x rounds [start] { caller := start } = .ok s) : g.Searches start s := by
  let P : List Nat → BodySearch → Prop := fun queue s =>
    (∀ q ∈ queue, g.Leads start q) ∧ g.Searches start s
  have hrun : P [] s := by
    refine publicLoop_run (P := P) ?_ ?_ h ?_
    · rintro n queue s jumped - ⟨hqueue, hs⟩
      exact ⟨(List.forall_mem_cons.mp hqueue).2, hs.reached, hs.finish⟩
    · rintro n queue s k jumped hpass ⟨hqueue, hs⟩ m s' hcall
      obtain ⟨hn, hrest⟩ := List.forall_mem_cons.mp hqueue
      have hk : g.Leads start k := by
        refine leads_of_passFunctions ?_ hpass k rfl
        rintro _ ⟨⟩
        exact hn
      have hjumped : g.Searches start { s with jumped } := ⟨hs.reached, hs.finish⟩
      obtain ⟨hlast, hsearch⟩ := hjumped.passCall hreturns hk
      rw [hcall] at hlast hsearch
      refine ⟨fun q hq => ?_, hsearch.arrive hlast⟩
      split at hq
      · exact hrest q hq
      · rcases List.mem_append.mp hq with hq | hq
        · exact hrest q hq
        · exact hlast.next hq
    · refine ⟨fun q hq => ?_, fun n hn => absurd hn List.not_mem_nil, fun n hn => ?_⟩
      · rw [List.mem_singleton.mp hq]
        exact .rfl
      · exact absurd hn (by simp)
  exact hrun.2

end Public

/-- What holds of a public function: its start leads to all of its blocks, and its end, if it has
one, is a block of it without successors. -/
structure PublicSound (g : Graph) (f : Function) : Prop where
  reached : ∀ n ∈ f.body, g.Leads f.start n
  finish : ∀ n, f.finish = some n → n ∈ f.body ∧ g.succs n = []

theorem publicSound_of_publicFunction {x : Extraction} (hreturns : g.CallsLead x.returns)
    {start : Nat} {signature : String} {f : Function}
    (h : g.publicFunction x start signature = .ok f) : g.PublicSound f := by
  obtain ⟨s, hs, h⟩ := bind_eq_ok_iff.mp h
  cases h
  have hsearches := searches_of_publicLoop hreturns hs
  exact ⟨hsearches.reached, hsearches.finish⟩

/-- Every public function comes from a search of its own. -/
theorem exists_publicFunction {x : Extraction} {fs : List Function}
    (h : g.publicFunctions x = .ok fs) {f : Function} (hf : f ∈ fs) :
    ∃ start signature, g.publicFunction x start signature = .ok f := by
  obtain ⟨signature, -, h⟩ := bind_eq_ok_iff.mp h
  split at h
  · cases h
    exact absurd hf List.not_mem_nil
  · obtain ⟨found, -, h⟩ := bind_eq_ok_iff.mp h
    obtain ⟨entry, -, hf⟩ := mem_of_mapM h f hf
    exact ⟨_, _, hf⟩

theorem publicSound_of_publicFunctions {x : Extraction} (hreturns : g.CallsLead x.returns)
    {fs : List Function} (h : g.publicFunctions x = .ok fs) : ∀ f ∈ fs, g.PublicSound f := by
  intro f hf
  obtain ⟨start, signature, hf⟩ := exists_publicFunction h hf
  exact publicSound_of_publicFunction hreturns hf

end TraceLift.Graph

namespace TraceLift

/-! ## 4. Extraction -/

/-- **Extracted functions are subgraphs.**  If the edges of a graph agree, the search for a private
function from a block that starts one never runs out of candidates for the end; and if the
extraction comes to an end, the functions that it yields are sound. -/
theorem functions_are_subgraphs {g : Graph} (hg : g.EdgesAgree) :
    (∀ n pairs calls, g.privateStart? n = .ok (some pairs) →
      ∃ f, g.privateFunction? n (pairs.map (·.2)) calls = .ok f) ∧
    ∀ x, g.extract = .ok x → (∀ f ∈ x.publicFunctions, g.PublicSound f) ∧
      ∀ f ∈ x.privateFunctions, g.PrivateSound f := by
  constructor
  · intro n pairs calls hstart
    rcases Graph.exists_privateFunction? hg (Graph.returns_ne_nil hstart) n calls with
      hnone | ⟨body, finish, -, -, hsome⟩
    · exact ⟨none, hnone⟩
    · exact ⟨_, hsome⟩
  · intro x hx
    obtain ⟨⟨privates, returns⟩, hprivate, hx⟩ := bind_eq_ok_iff.mp hx
    obtain ⟨publics, hpublic, hx⟩ := bind_eq_ok_iff.mp hx
    cases hx
    obtain ⟨hsound, hreturns⟩ := Graph.privateSound_of_privateFunctions hg hprivate
    exact ⟨Graph.publicSound_of_publicFunctions hreturns hpublic, hsound⟩

/-- Block `0` compares the signature and goes on to `1` or `2`.  Both push where they want to be
resumed, at `5` and at `6`, and call the private function of `3` and `4`. -/
def sharedCallee : Graph :=
  let pushes : List PlacedOp := List.replicate 2
    { pc := 0, opcode := .push 1, place := ⟨0, 1, 0⟩, owner := 0 }
  let compare : List TacOp :=
    [{ opcode := .calldataload, args := [.literal 0], pc := 0, binding := some { target := 0 } },
      { opcode := .eq, args := [.var 0, .literal 0xab], pc := 1, binding := some { target := 1 } }]
  { blocks := [
      { entry := some 0, exit := some 0, ops := compare, succs := [1, 2],
        fallthrough := some (some 2) },
      { entry := some 1, exit := some 1, ops := [], source := pushes,
        delta := { items := [.literal 5] }, preds := [0], succs := [3] },
      { entry := some 2, exit := some 2, ops := [], source := pushes,
        delta := { items := [.literal 6] }, preds := [0], succs := [3] },
      { entry := some 3, exit := some 3, ops := [], preds := [1, 2], succs := [4] },
      { entry := some 4, exit := some 4, ops := [], preds := [3], succs := [5, 6] },
      { entry := some 5, exit := some 5, ops := [], preds := [4] },
      { entry := some 6, exit := some 6, ops := [], preds := [4] }],
    order := List.range 7 }

/-- Its functions: the private one, and one for each way to go on. -/
def sharedCalleeFunctions : Extraction where
  publicFunctions :=
    [{ body := [1, 5], start := 1, finish := some 5, signature := "0xab" },
      { body := [2, 6], start := 2, finish := some 6 }]
  privateFunctions :=
    [{ body := [3, 4], start := 3, finish := some 4, isPrivate := true, preds := [1, 2],
       succs := [5, 6] }]
  returns := [(1, 5), (2, 6)]

theorem sharedCallee_functions : sharedCallee.EdgesAgree ∧
    sharedCallee.privateStart? 3 = .ok (some [(1, 5), (2, 6)]) ∧
    (∃ f, sharedCallee.privateFunction? 3 [5, 6] [[(1, 5), (2, 6)]] = .ok f) ∧
    sharedCallee.extract = .ok sharedCalleeFunctions ∧
      (∀ f ∈ sharedCalleeFunctions.publicFunctions, sharedCallee.PublicSound f) ∧
      ∀ f ∈ sharedCalleeFunctions.privateFunctions, sharedCallee.PrivateSound f := by
  have hagree : sharedCallee.EdgesAgree := by decide +kernel
  have hstart : sharedCallee.privateStart? 3 = .ok (some [(1, 5), (2, 6)]) := by decide +kernel
  have hextract : sharedCallee.extract = .ok sharedCalleeFunctions := by decide +kernel
  obtain ⟨hfunction, hsound⟩ := functions_are_subgraphs hagree
  exact ⟨hagree, hstart, hfunction 3 _ _ hstart, hextract, hsound _ hextract⟩

end TraceLift
