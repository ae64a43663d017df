/-
# The searches for functions end

Three searches find the functions of a graph, and each keeps a list of blocks still to be looked at
to which it adds the same block several times.  A search says so when its rounds do not suffice
(`Fault.unfinished`); here it is shown that this never happens, whatever the graph, the functions
already known and the calls to be passed over.

* **The body of a private function, and of a public one.**  A block that is looked at may be
  replaced by another one, behind a call or behind whole functions, so the block that is taken off
  the queue is not the one that is marked.  What goes down is the length of the queue together with
  the edges that leave blocks outside the body (`openEdges`): successors are queued only for a
  block that is new to the body, and the calls that enter the body on the way queue nothing.
* **The way out of functions.**  Blocks are marked when they are taken off, last in, first out, so
  the argument is that of the search for a path (`Stacked`).

A search that ended does not change with more rounds (`bodyLoop_add`, `leaveLoop_add`,
`publicLoop_add`), so the number of rounds that the program gives decides nothing.
-/
import Mathlib.Algebra.Order.BigOperators.Group.Finset
import TraceLift.Graph.Functions
import TraceLift.Proofs.Edges
import TraceLift.Proofs.Reaching

namespace TraceLift

namespace Graph

variable {g : Graph}

/-! ## 1. The bodies of private functions -/

theorem openEdges_anti {seen seen' : List Nat} (h : ∀ m ∈ seen, m ∈ seen') :
    g.openEdges seen' ≤ g.openEdges seen := by
  refine Finset.sum_le_sum_of_subset ?_
  intro m hm
  obtain ⟨hlt, hnot⟩ := Finset.mem_filter.mp hm
  exact Finset.mem_filter.mpr ⟨hlt, fun hseen => hnot (h m hseen)⟩

/-- **A block that is new to the body pays for what it queues.** -/
theorem work_le_of_new (queue : List Nat) {body body' added : List Nat} {n : Nat} (hn : n ∉ body)
    (hadded : added.length ≤ (g.succs n).length) (hbody : ∀ m, m ∈ body' ↔ m ∈ body ∨ m = n) :
    (queue ++ added).length + g.openEdges body' ≤ queue.length + g.openEdges body := by
  have hopen := openEdges_of_new (g := g) hn hbody
  rw [List.length_append]
  omega

section Private

variable {returns : List Nat} {calls : List (List (Nat × Nat))} {queue body passed : List Nat}
  {ended : Bool} {n last : Nat}

/-- One round of the search for a body. -/
theorem bodyLoop_cons {rounds : Nat} (hskip : skipCalls calls n = (passed, last)) :
    g.bodyLoop returns calls (rounds + 1) (n :: queue) body ended =
      if !(body ++ passed).contains last && g.reaches last returns then
        g.bodyLoop returns calls rounds (queue ++ (g.succs last).filter (!returns.contains ·))
          (body ++ passed ++ [last]) (ended || returns.all ((g.succs last).contains ·))
      else g.bodyLoop returns calls rounds queue (body ++ passed)
        (ended || returns.all ((g.succs last).contains ·)) := by
  rw [bodyLoop, hskip]

theorem exists_bodyLoop_of_lt {rounds : Nat}
    (hrounds : queue.length + g.openEdges body < rounds) :
    ∃ found, g.bodyLoop returns calls rounds queue body ended = .ok found := by
  induction rounds generalizing queue body ended with
  | zero => exact absurd hrounds (Nat.not_lt_zero _)
  | succ rounds ih =>
    cases queue with
    | nil => exact ⟨_, rfl⟩
    | cons n queue =>
      obtain ⟨⟨passed, last⟩, hskip⟩ : ∃ r, skipCalls calls n = r := ⟨_, rfl⟩
      have hpassed : g.openEdges (body ++ passed) ≤ g.openEdges body :=
        openEdges_anti fun m => List.mem_append_left _
      rw [List.length_cons] at hrounds
      rw [bodyLoop_cons hskip]
      split
      · rename_i hnew
        simp only [Bool.and_eq_true, Bool.not_eq_true', List.contains_eq_mem,
          decide_eq_false_iff_not] at hnew
        have hbody : ∀ m, m ∈ body ++ passed ++ [last] ↔ m ∈ body ++ passed ∨ m = last := by
          simp [or_assoc]
        have hwork := work_le_of_new queue hnew.1
          (List.length_filter_le (!returns.contains ·) (g.succs last)) hbody
        exact ih (by omega)
      · exact ih (by omega)

/-- More rounds do not change what was found. -/
theorem bodyLoop_add {rounds : Nat} {found : List Nat × Bool}
    (h : g.bodyLoop returns calls rounds queue body ended = .ok found) (more : Nat) :
    g.bodyLoop returns calls (rounds + more) queue body ended = .ok found := by
  induction rounds generalizing queue body ended with
  | zero => exact absurd h (by simp [bodyLoop])
  | succ rounds ih =>
    rw [Nat.succ_add]
    cases queue with
    | nil => exact h
    | cons n queue =>
      obtain ⟨⟨passed, last⟩, hskip⟩ : ∃ r, skipCalls calls n = r := ⟨_, rfl⟩
      rw [bodyLoop_cons hskip] at h ⊢
      split at h
      · rename_i hnew
        rw [if_pos hnew]
        exact ih h
      · rename_i hold
        rw [if_neg hold]
        exact ih h

/-- **The search for the body of a private function ends**, for as many rounds as there are edges
and two more, and any greater number. -/
theorem exists_bodyLoop (g : Graph) (returns : List Nat) (calls : List (List (Nat × Nat)))
    (start : Nat) : ∃ found, ∀ rounds, g.edgeCount + 2 ≤ rounds →
      g.bodyLoop returns calls rounds [start] [] false = .ok found := by
  obtain ⟨found, hfound⟩ : ∃ found,
      g.bodyLoop returns calls (g.edgeCount + 2) [start] [] false = .ok found := by
    refine exists_bodyLoop_of_lt ?_
    rw [openEdges_nil, List.length_singleton]
    omega
  refine ⟨found, fun rounds hrounds => ?_⟩
  obtain ⟨more, rfl⟩ := Nat.exists_eq_add_of_le hrounds
  exact bodyLoop_add hfound more

end Private

/-! ## 2. The way out of functions -/

section Leaving

variable {x : Extraction} {body queue seen : List Nat} {stack : List Char}

theorem ends_ident (g : Graph) (n : Nat) : Ends (g.ident n) := by
  unfold ident
  split
  · rename_i b _
    unfold BlockHead.ident
    split
    · exact .ok _
    · exact .error (by simp)
  · exact .error (by simp)

theorem ends_isOutside (n : Nat) : Ends (g.isOutside x body stack n) := by
  unfold isOutside
  split
  · exact .ok _
  · exact (ends_ident g n).bind fun _ => .ok _

theorem ends_leaveLoop {rounds : Nat} (hstacked : g.Stacked seen queue)
    (hrounds : queue.length + g.openEdges seen < rounds) :
    Ends (g.leaveLoop x body stack rounds queue seen) := by
  induction rounds generalizing queue seen with
  | zero => exact absurd hrounds (Nat.not_lt_zero _)
  | succ rounds ih =>
    cases queue with
    | nil => exact .ok _
    | cons n queue =>
      rw [leaveLoop]
      split
      · exact .ok _
      · refine (ends_isOutside n).bind fun outside => ?_
        cases outside with
        | true => exact .ok _
        | false =>
          have hwork := hstacked.work_lt
          exact ih hstacked.step (by omega)

/-- More rounds do not change the way out. -/
theorem leaveLoop_add {rounds : Nat} (h : Ends (g.leaveLoop x body stack rounds queue seen))
    (more : Nat) : g.leaveLoop x body stack (rounds + more) queue seen =
      g.leaveLoop x body stack rounds queue seen := by
  induction rounds generalizing queue seen with
  | zero => exact absurd rfl h
  | succ rounds ih =>
    rw [Nat.succ_add]
    cases queue with
    | nil => rfl
    | cons n queue =>
      rw [leaveLoop] at h ⊢
      rw [leaveLoop]
      split
      · rfl
      · rename_i hsuccs
        rw [if_neg hsuccs] at h
        refine h.bind_congr fun outside hends => ?_
        cases outside with
        | true => rfl
        | false => exact ih hends

/-- **The search for the way out ends.** -/
theorem exists_leaveLoop (g : Graph) (x : Extraction) (body : List Nat) (stack : List Char)
    (n : Nat) : ∃ out, Ends out ∧ ∀ rounds, g.edgeCount + 2 ≤ rounds →
      g.leaveLoop x body stack rounds [n] [] = out := by
  have hends : Ends (g.leaveLoop x body stack (g.edgeCount + 2) [n] []) := by
    refine ends_leaveLoop (by simp [Stacked]) ?_
    rw [openEdges_nil, List.length_singleton]
    omega
  refine ⟨_, hends, fun rounds hrounds => ?_⟩
  obtain ⟨more, rfl⟩ := Nat.exists_eq_add_of_le hrounds
  exact leaveLoop_add hends more

theorem ends_leaveFunctions (n : Nat) (exitStack : Stack Variable) :
    Ends (g.leaveFunctions x body n exitStack) := by
  obtain ⟨out, hends, hout⟩ := exists_leaveLoop g x body exitStack.render.toList n
  rw [leaveFunctions, hout _ (Nat.le_refl _)]
  exact hends

end Leaving

/-! ## 3. The bodies of public functions -/

section Public

variable {x : Extraction} {queue : List Nat} {s : BodySearch}

theorem ends_passFunctions {body : List Nat} {prev : Option Nat} {caller : Nat}
    (fs : List Function) {current : Option Nat} {jumped : Bool} :
    Ends (g.passFunctions x body prev caller fs current jumped) := by
  induction fs generalizing current jumped with
  | nil => exact .ok _
  | cons f fs ih =>
    cases current with
    | none => exact .ok _
    | some n =>
      rw [passFunctions]
      split
      · split
        · rename_i e he
          unfold exitStack at he
          split at he
          · exact absurd he (by simp)
          · rw [← Except.error.inj he]
            exact .error (by simp)
        · rename_i stack _
          have hleave : Ends (g.leaveFunctions x body n stack) := ends_leaveFunctions n stack
          split
          · rename_i e he
            rw [he] at hleave
            exact .error fun hunfinished => hleave (congrArg Except.error hunfinished)
          · exact ih
      · exact ih

/-- Going on behind a call leaves every block in the body. -/
theorem mem_body_passCall {n m : Nat} (hm : m ∈ s.body) : m ∈ (passCall x s n).2.body := by
  unfold passCall
  split
  · exact mem_insertNew.mpr (.inl hm)
  · exact hm

theorem mem_body_arrive {n m : Nat} : m ∈ (g.arrive s n).body ↔ m ∈ s.body ∨ m = n :=
  mem_insertNew

/-- **Arriving at a block brings the search nearer to its end.** -/
theorem work_arrive_le (g : Graph) (queue : List Nat) (s : BodySearch) (n : Nat) :
    (if s.body.contains n then queue else queue ++ g.succs n).length +
      g.openEdges (g.arrive s n).body ≤ queue.length + g.openEdges s.body := by
  split
  · exact Nat.add_le_add_left (openEdges_anti fun m hm => mem_body_arrive.mpr (.inl hm)) _
  · rename_i hnew
    rw [List.contains_iff_mem] at hnew
    exact work_le_of_new queue hnew (Nat.le_refl _) fun m => mem_body_arrive

theorem ends_publicLoop {rounds : Nat} (hrounds : queue.length + g.openEdges s.body < rounds) :
    Ends (g.publicLoop x rounds queue s) := by
  induction rounds generalizing queue s with
  | zero => exact absurd hrounds (Nat.not_lt_zero _)
  | succ rounds ih =>
    cases queue with
    | nil => exact .ok _
    | cons n queue =>
      rw [List.length_cons] at hrounds
      rw [publicLoop]
      refine (ends_passFunctions x.functions).bind ?_
      rintro ⟨current, jumped⟩
      cases current with
      | none => exact ih (by dsimp only; omega)
      | some k =>
        obtain ⟨⟨m, s'⟩, hcall⟩ : ∃ r, passCall x { s with jumped } k = r := ⟨_, rfl⟩
        have hpassed : g.openEdges s'.body ≤ g.openEdges s.body := by
          refine openEdges_anti fun m hm => ?_
          have hmem := mem_body_passCall (x := x) (s := { s with jumped }) (n := k) hm
          rwa [hcall] at hmem
        have hwork := work_arrive_le g queue s' m
        dsimp only
        rw [hcall]
        dsimp only
        exact ih (by omega)

/-- More rounds do not change what was found. -/
theorem publicLoop_add {rounds : Nat} (h : Ends (g.publicLoop x rounds queue s)) (more : Nat) :
    g.publicLoop x (rounds + more) queue s = g.publicLoop x rounds queue s := by
  induction rounds generalizing queue s with
  | zero => exact absurd rfl h
  | succ rounds ih =>
    rw [Nat.succ_add]
    cases queue with
    | nil => rfl
    | cons n queue =>
      rw [publicLoop] at h ⊢
      rw [publicLoop]
      refine h.bind_congr ?_
      rintro ⟨current, jumped⟩ hends
      cases current with
      | none => exact ih hends
      | some k => exact ih hends

/-- **The search for the body of a public function ends.** -/
theorem exists_publicLoop (g : Graph) (x : Extraction) (start : Nat) :
    ∃ out, Ends out ∧ ∀ rounds, g.edgeCount + 2 ≤ rounds →
      g.publicLoop x rounds [start] { caller := start } = out := by
  have hends : Ends (g.publicLoop x (g.edgeCount + 2) [start] { caller := start }) := by
    refine ends_publicLoop ?_
    rw [openEdges_nil, List.length_singleton]
    omega
  refine ⟨_, hends, fun rounds hrounds => ?_⟩
  obtain ⟨more, rfl⟩ := Nat.exists_eq_add_of_le hrounds
  exact publicLoop_add hends more

theorem ends_publicFunction (start : Nat) (signature : String) :
    Ends (g.publicFunction x start signature) := by
  obtain ⟨out, hends, hout⟩ := exists_publicLoop g x start
  rw [publicFunction, hout _ (Nat.le_refl _)]
  exact hends.bind fun _ => .ok _

end Public

/-! ## 4. Extraction -/

theorem ends_blockNamed? (g : Graph) (name : String) : Ends (g.blockNamed? name) := by
  unfold blockNamed?
  induction g.members with
  | nil => exact .ok _
  | cons m rest ih =>
    obtain ⟨n, b⟩ := m
    rw [findNamed]
    have hident : Ends b.ident := by
      unfold BlockHead.ident
      split
      · exact .ok _
      · exact .error (by simp)
    refine hident.bind fun ident => ?_
    split
    · exact .ok _
    · exact ih

theorem ends_returnBlock? (pred : Nat) (items : List Operand) :
    Ends (g.returnBlock? pred items) := by
  induction items with
  | nil => exact .ok _
  | cons a rest ih =>
    rw [returnBlock?]
    refine (ends_blockNamed? g _).bind fun found => ?_
    cases found with
    | none => exact ih
    | some n =>
      dsimp only
      split
      · exact .ok _
      · exact ih

theorem ends_callPairs (start : Nat) (preds : List Nat) {pairs : List (Nat × Nat)} :
    Ends (g.callPairs start pairs preds) := by
  induction preds generalizing pairs with
  | nil => exact .ok _
  | cons p preds ih =>
    rw [callPairs]
    split
    · exact ih
    split
    · exact .ok _
    split
    · exact .ok _
    split
    · exact .ok _
    · refine (ends_returnBlock? p _).bind fun found => ?_
      cases found with
      | none => exact ih
      | some n => exact ih

theorem ends_privateStart? (g : Graph) (n : Nat) : Ends (g.privateStart? n) := by
  unfold privateStart?
  dsimp only
  split
  · exact .ok _
  · exact (ends_callPairs n _).bind fun _ => .ok _

theorem ends_privateFunction? (start : Nat) (returns : List Nat)
    (calls : List (List (Nat × Nat))) : Ends (g.privateFunction? start returns calls) := by
  obtain ⟨⟨body, ended⟩, hfound⟩ := exists_bodyLoop g returns calls start
  rw [privateFunction?, hfound _ (Nat.le_refl _)]
  dsimp only [bind, Except.bind]
  split
  · split
    · exact .error (by simp)
    · exact .ok _
  · exact .ok _

theorem ends_privateFunctions (g : Graph) : Ends g.privateFunctions := by
  have hstarts : Ends g.privateStarts :=
    Ends.filterMapM (fun n => (ends_privateStart? g n).bind fun _ => .ok _) _
  unfold privateFunctions
  refine hstarts.bind fun starts => Ends.bind (Ends.mapM ?_ starts) fun _ => .ok _
  rintro ⟨n, pairs⟩
  exact ends_privateFunction? n _ _

theorem ends_values (store : Store) (a : Operand) : Ends (a.values store) := by
  have hlookup : Ends (a.lookup store) := by
    cases a with
    | var id =>
      rw [Operand.lookup]
      split
      · exact .ok _
      · exact .error (by simp)
    | literal word => exact .ok _
    | entry position => exact .ok _
    | blank => exact .error (by simp)
  unfold Operand.values
  split
  · exact .ok _
  · rename_i e he
    rw [he] at hlookup
    exact .error fun hunfinished => hlookup (congrArg Except.error hunfinished)

theorem ends_loadsSignature (op : TacOp) : Ends (g.loadsSignature op) := by
  unfold loadsSignature
  split
  · refine Ends.bind ?_ fun a => (ends_values _ a).bind fun _ => .ok _
    unfold TacOp.arg
    split
    · exact .ok _
    · exact .error (by simp)
  · exact .ok _

theorem ends_signatureLoad? (ns : List Nat) : Ends (g.signatureLoad? ns) := by
  induction ns with
  | nil => exact .ok _
  | cons n ns ih =>
    rw [signatureLoad?]
    split
    · exact ih
    · rename_i b _
      refine (Ends.filterM ends_loadsSignature _).bind fun loads => ?_
      cases b.gap with
      | true => exact Ends.error (e := .noLastOperation) (by simp)
      | false =>
        cases loads with
        | nil => exact ih
        | cons op _ =>
          cases hv : op.target? with
          | some v =>
            simp only [hv]
            exact Ends.ok (some (b, v))
          | none =>
            simp only [hv]
            exact Ends.error (e := .noResult) (by simp)

theorem ends_comparison (b : Block) (op : TacOp) (v : VarId) : Ends (g.comparison b op v) := by
  unfold comparison
  split
  · exact .error (by simp)
  · refine (ends_values _ _).bind fun values => ?_
    split
    · exact .error (by simp)
    · refine (Ends.mapM (fun s => ?_) _).bind fun _ => .ok _
      unfold namedBy
      split
      · exact .ok _
      · exact .error (by simp)

theorem ends_publicFunctions (x : Extraction) : Ends (g.publicFunctions x) := by
  have hsignature : Ends g.signature? := (ends_signatureLoad? _).bind fun _ => .ok _
  refine hsignature.bind fun signature => ?_
  cases signature with
  | none => exact .ok _
  | some v =>
    refine Ends.bind (Ends.mapM ?_ _) fun found => Ends.mapM ?_ _
    · rintro ⟨b, op⟩
      exact ends_comparison b op v
    · rintro ⟨n, signature⟩
      exact ends_publicFunction n signature

theorem ends_extract (g : Graph) : Ends g.extract := by
  refine (ends_privateFunctions g).bind fun privates => ?_
  exact (ends_publicFunctions _).bind fun _ => .ok _

end Graph

/-- **Extraction ends.**  In every graph, with any loops and shared successors: the search for a
path, the search for the body of a private function, whatever blocks it returns to and whatever
calls it passes over, the search for the way out of functions and the search for the body of a
public function, whatever functions and calls are known, all end within as many rounds as there are
edges and two more, and more rounds change nothing; so the extraction yields functions or fails for
a reason of its own. -/
theorem extraction_ends (g : Graph) :
    (∀ n targets, ∃ answer, ∀ rounds, g.edgeCount + 2 ≤ rounds →
      g.reachesLoop targets rounds [n] [] = some answer) ∧
    (∀ returns calls start, ∃ found, ∀ rounds, g.edgeCount + 2 ≤ rounds →
      g.bodyLoop returns calls rounds [start] [] false = .ok found) ∧
    (∀ x body stack n, ∃ out, Ends out ∧ ∀ rounds, g.edgeCount + 2 ≤ rounds →
      g.leaveLoop x body stack rounds [n] [] = out) ∧
    (∀ x start, ∃ out, Ends out ∧ ∀ rounds, g.edgeCount + 2 ≤ rounds →
      g.publicLoop x rounds [start] { caller := start } = out) ∧
    Ends g.extract := by
  refine ⟨fun n targets => ?_, g.exists_bodyLoop, g.exists_leaveLoop, g.exists_publicLoop,
    g.ends_extract⟩
  obtain ⟨answer, -, hanswer⟩ := g.exists_reachesLoop n targets (Nat.le_refl _)
  refine ⟨answer, fun rounds hrounds => ?_⟩
  obtain ⟨answer', hanswer', hpath⟩ := g.exists_reachesLoop n targets hrounds
  rw [hanswer', Bool.eq_iff_iff.mpr (hpath.trans hanswer.symm)]

end TraceLift
