/-
# When the extraction of functions succeeds

The blocks of a trace follow one another, and once they are known to fall through to no other block
little of the extraction can fail (`Straight`).

* **Private functions** there are none: they start where blocks come together.
* **The signature.**  Every load of call data has an operand and a result, so the variable that the
  signature ends up in is found if there is one (`succeeds_signature?`).
* **Bodies.**  With no function and no call to pass over, the search for a body does nothing that
  can fail, and it ends (`succeeds_publicFunction`).
* **Comparisons.**  What is left is what the signature is compared with (`comparison_cases`).
  There has to be something else than the signature itself, and, if the block leads on to a
  function, it has to be a constant.
-/
import TraceLift.Proofs.Closure
import TraceLift.Proofs.Editing
import TraceLift.Proofs.FunctionBodies
import TraceLift.Proofs.OperandTables

namespace TraceLift

open Conversion

/-! ## 1. Operations of a trace -/

/-- Reading a trace yields legal opcodes. -/
theorem TraceOp.legal_of_ofFields {pc name args : String} {op : TraceOp}
    (h : ofFields pc name args = .ok op) : op.opcode.Legal := by
  unfold ofFields at h
  split at h
  · obtain ⟨n, -, h⟩ := bind_eq_ok_iff.mp h
    obtain ⟨opcode, hopcode, h⟩ := bind_eq_ok_iff.mp h
    cases h
    exact Opcode.legal_of_ofName hopcode
  split at h
  · split at h
    · obtain ⟨n, -, h⟩ := bind_eq_ok_iff.mp h
      obtain ⟨opcode, hopcode, h⟩ := bind_eq_ok_iff.mp h
      obtain ⟨v, -, h⟩ := bind_eq_ok_iff.mp h
      obtain ⟨w, -, h⟩ := bind_eq_ok_iff.mp h
      cases h
      exact Opcode.legal_of_ofName hopcode
    · exact absurd h (by simp)
  · obtain ⟨opcode, hopcode, h⟩ := bind_eq_ok_iff.mp h
    split at h
    · obtain ⟨v, -, h⟩ := bind_eq_ok_iff.mp h
      obtain ⟨n, -, h⟩ := bind_eq_ok_iff.mp h
      cases h
      exact Opcode.legal_of_ofName hopcode
    · obtain ⟨n, -, h⟩ := bind_eq_ok_iff.mp h
      obtain ⟨v, -, h⟩ := bind_eq_ok_iff.mp h
      cases h
      exact Opcode.legal_of_ofName hopcode

theorem TraceOp.legal_of_parseLines {lines : List String} {ops : List TraceOp}
    (h : parseLines lines = .ok ops) : ∀ op ∈ ops, op.opcode.Legal := by
  induction lines generalizing ops with
  | nil =>
    cases h
    exact fun op hop => absurd hop List.not_mem_nil
  | cons l lines ih =>
    simp only [parseLines] at h
    split at h
    · exact ih h
    · obtain ⟨op, hop, h⟩ := bind_eq_ok_iff.mp h
      obtain ⟨rest, hrest, h⟩ := bind_eq_ok_iff.mp h
      cases h
      refine List.forall_mem_cons.mpr ⟨?_, ih hrest⟩
      unfold parseLine at hop
      split at hop
      · exact legal_of_ofFields hop
      · exact absurd hop (by simp)

/-- The opcodes that the search for the signature looks at have operands and a result. -/
theorem TacOp.Shape.counts {t : TacOp} (h : t.Shape) {opcode : Opcode}
    (hopcode : opcode ∈ [Opcode.calldataload, Opcode.eq]) (hsame : t.opcode.same opcode = true) :
    (t.args.length : Int) = opcode.pops ∧ t.target? ≠ none := by
  have hknown : ∀ opcode ∈ [Opcode.calldataload, Opcode.eq],
      Opcode.const.same opcode = false ∧ Opcode.log.same opcode = false ∧
      Opcode.ofCode? opcode.code ≠ none ∧
      ∀ o ∈ Opcode.table, o.same opcode = true → o.pops = opcode.pops ∧ o.pushes = 1 := by
    decide +kernel
  obtain ⟨hconst, hlog, hcode, htable⟩ := hknown opcode hopcode
  cases h with
  | constant h =>
    rw [h, hconst] at hsame
    exact absurd hsame Bool.false_ne_true
  | unknown code hnone h =>
    rw [h, Opcode.same, beq_iff_eq] at hsame
    exact absurd (hsame ▸ hnone) hcode
  | log h =>
    rw [h, hlog] at hsame
    exact absurd hsame Bool.false_ne_true
  | counted hmem _ hargs htarget =>
    obtain ⟨hpops, hpushes⟩ := htable _ hmem hsame
    refine ⟨hargs.trans hpops, fun hnone => ?_⟩
    rw [hnone, hpushes] at htarget
    exact absurd htarget (by decide)

theorem Operand.Known.values {store : Store} {a : Operand} (h : a.Known store.size) :
    Succeeds (a.values store) := by
  rcases h with hstacked | ⟨w, rfl⟩
  · cases a with
    | var k =>
      have hk := Array.getElem?_eq_getElem (show k < store.size from hstacked)
      simp only [Operand.values, lookup, hk]
      exact .ok _
    | entry => exact .ok _
    | literal | blank => exact hstacked.elim
  · exact .ok _

namespace Graph

variable {g : Graph}

/-! ## 2. Graphs of traces -/

/-- What the extraction finds in the graph of a trace: no blocks come together, none falls through
to another, none has an empty place, and the operations are as a trace leaves them. -/
structure Straight (g : Graph) : Prop where
  order : g.order = List.range g.blocks.length
  preds : ∀ n, (g.preds n).length ≤ 1
  fallthrough : ∀ b ∈ g.blocks, b.fallthrough = some none
  gap : ∀ b ∈ g.blocks, b.gap = false
  shape : ∀ b ∈ g.blocks, ∀ op ∈ b.ops, op.Shape
  within : ∀ b ∈ g.blocks, ∀ op ∈ b.ops, op.Within g.machine.store.size

theorem preds_withoutFallthrough (g : Graph) (n : Nat) :
    g.withoutFallthrough.preds n = g.preds n := by
  simp only [preds, block?, withoutFallthrough, List.getElem?_map]
  cases g.blocks[n]? <;> rfl

/-- **The graph of a trace is straight** once its blocks are known to fall through to no other. -/
theorem straight_of_ofLines {lines : List String} (h : ofLines lines = .ok g) :
    g.withoutFallthrough.Straight := by
  obtain ⟨ops, hops, h⟩ := bind_eq_ok_iff.mp h
  have hlegal := TraceOp.legal_of_parseLines hops
  have hread := readable_of_ofTrace h
  have hchain := chain_of_ofTraceBlocks h
  have hmembers := map_snd_members hchain.order
  have hgap : ∀ b ∈ g.blocks, b.gap = false := by
    intro b hb
    obtain ⟨m, hm, rfl⟩ := List.mem_map.mp (hmembers ▸ hb)
    exact Bool.eq_false_iff.mpr (List.any_eq_false.mp hread.gap m hm)
  have hmem : ∀ b ∈ g.blocks, ∀ op ∈ b.ops, op ∈ g.ops := by
    intro b hb op hop
    obtain ⟨m, hm, rfl⟩ := List.mem_map.mp (hmembers ▸ hb)
    exact List.mem_flatMap.mpr ⟨m, hm, hop⟩
  constructor
  case order => simp [withoutFallthrough, hchain.order]
  case preds =>
    intro n
    rw [preds_withoutFallthrough, hchain.preds]
    split <;> simp
  all_goals
    intro b hb
    obtain ⟨b₀, hb₀, rfl⟩ := List.mem_map.mp hb
  case fallthrough => rfl
  case gap => exact hgap b₀ hb₀
  case shape => exact fun op hop => hread.shape_of_mem hlegal (hmem b₀ hb₀ op hop)
  case within => exact fun op hop => hread.within (hmem b₀ hb₀ op hop)

theorem Straight.privateFunctions_eq (h : g.Straight) : g.privateFunctions = .ok ([], []) := by
  have hnone : ∀ n, g.privateStart? n = .ok none := by
    intro n
    have hpreds : (g.sortBlocks (g.preds n)).length ≤ 1 := by
      rw [(g.sortBlocks_perm _).length_eq]
      exact h.preds n
    simp [privateStart?, hpreds]
  have hstarts : ∀ l : List Nat, (l.filterMapM fun n => do
      return (← g.privateStart? n).map fun pairs => (n, pairs)) = Except.ok [] := by
    intro l
    induction l with
    | nil => rfl
    | cons n l ih =>
      rw [List.filterMapM_cons, hnone]
      exact ih
  rw [privateFunctions, privateStarts, hstarts]
  rfl

/-! ## 3. Bodies -/

/-- With nothing to pass over, the search for a body fails only for want of rounds. -/
theorem publicLoop_cases (g : Graph) (rounds : Nat) (queue : List Nat) (s : BodySearch) :
    Succeeds (g.publicLoop {} rounds queue s) ∨
      g.publicLoop {} rounds queue s = .error .unfinished := by
  induction rounds generalizing queue s with
  | zero => exact .inr rfl
  | succ rounds ih =>
    cases queue with
    | nil => exact .inl (.ok s)
    | cons n queue => exact ih _ _

theorem succeeds_publicFunction (g : Graph) (start : Nat) (signature : String) :
    Succeeds (g.publicFunction {} start signature) := by
  have hends := ends_publicFunction (g := g) (x := {}) start signature
  rcases publicLoop_cases g (g.edgeCount + 2) [start] { caller := start } with hok | hunfinished
  · obtain ⟨s, hs⟩ := hok
    exact succeeds_bind_iff.mpr ⟨s, hs, .ok _⟩
  · rw [publicFunction, hunfinished] at hends
    exact absurd rfl hends

/-! ## 4. The signature -/

theorem succeeds_loadsSignature {op : TacOp} (hshape : op.Shape)
    (hwithin : op.Within g.machine.store.size) : Succeeds (g.loadsSignature op) := by
  unfold loadsSignature
  split
  · rename_i hload
    obtain ⟨hargs, -⟩ := hshape.counts (by simp) hload
    obtain ⟨a, rest, hcons⟩ : ∃ a rest, op.args = a :: rest := by
      refine List.exists_cons_of_ne_nil fun hnil => ?_
      rw [hnil] at hargs
      exact absurd hargs (by decide)
    have harg : op.arg 0 = .ok a := by rw [TacOp.arg, hcons, List.getElem?_cons_zero]
    obtain ⟨values, hvalues⟩ := (hwithin.args a (hcons ▸ List.mem_cons_self)).values
    exact succeeds_bind_iff.mpr ⟨a, harg, succeeds_bind_iff.mpr ⟨values, hvalues, .ok _⟩⟩
  · exact .ok false

theorem target_of_loadsSignature {op : TacOp} (hshape : op.Shape)
    (h : g.loadsSignature op = .ok true) : op.target? ≠ none := by
  unfold loadsSignature at h
  split at h
  · rename_i hload
    exact (hshape.counts (by simp) hload).2
  · exact absurd h (by simp)

theorem Straight.succeeds_signatureLoad? (h : g.Straight) (ns : List Nat) :
    Succeeds (g.signatureLoad? ns) := by
  induction ns with
  | nil => exact .ok none
  | cons n ns ih =>
    rw [signatureLoad?]
    split
    · exact ih
    · rename_i b hblock
      have hb : b ∈ g.blocks := List.mem_of_getElem? hblock
      obtain ⟨loads, hloads, hkept⟩ := filterM_of_succeeds fun op hop =>
        succeeds_loadsSignature (h.shape b hb op hop) (h.within b hb op hop)
      refine succeeds_bind_iff.mpr ⟨loads, hloads, ?_⟩
      rw [h.gap b hb]
      cases loads with
      | nil => exact ih
      | cons op _ =>
        obtain ⟨hop, hload⟩ := hkept op List.mem_cons_self
        obtain ⟨v, hv⟩ := Option.ne_none_iff_exists'.mp
          (target_of_loadsSignature (h.shape b hb op hop) hload)
        simp only [hv]
        exact .ok (some (b, v))

theorem Straight.succeeds_signature? (h : g.Straight) : Succeeds g.signature? := by
  obtain ⟨load, hload⟩ := h.succeeds_signatureLoad? (g.sortBlocks g.order)
  exact succeeds_bind_iff.mpr ⟨load, hload, .ok _⟩

/-! ## 5. Comparisons -/

/-- A comparison of a variable tells something: the variable is compared with something else, and
with a constant if the block leads on. -/
def Tells (g : Graph) (b : Block) (op : TacOp) (v : VarId) : Prop :=
  ∃ a ∈ op.args, a ≠ .var v ∧ ∃ values, a.values g.machine.store = .ok values ∧
    (b.succs ≠ [] → values.isConst = true)

/-- Of two operands one of which is a variable, the other one is the variable, too, or the only one
that is not. -/
theorem filter_ne_cases {args : List Operand} {v : VarId} (hlength : args.length = 2)
    (hv : .var v ∈ args) :
    ((∀ a ∈ args, a = .var v) ∧ args.filter (· != .var v) = []) ∨
      ∃ other ∈ args, other ≠ .var v ∧ (∀ a ∈ args, a ≠ .var v → a = other) ∧
        args.filter (· != .var v) = [other] := by
  obtain ⟨p, q, rfl⟩ := List.length_eq_two.mp hlength
  simp only [List.mem_cons, List.not_mem_nil, or_false] at hv
  by_cases hp : p = .var v
  · by_cases hq : q = .var v
    · exact .inl (by simp [hp, hq])
    · exact .inr ⟨q, by simp, hq, by simp [hp], by simp [hp, hq]⟩
  · have hq : q = .var v := (hv.resolve_left (Ne.symm hp)).symm
    exact .inr ⟨p, by simp, hp, by simp [hq], by simp [hp, hq]⟩

/-- A comparison tells something and succeeds, or does not and fails in one of two ways. -/
theorem Straight.comparison_cases (h : g.Straight) {b : Block} (hb : b ∈ g.blocks) {op : TacOp}
    (hop : op ∈ b.ops) {v : VarId} (huses : uses op v = true)
    (heq : op.opcode.same Opcode.eq = true) :
    (Succeeds (g.comparison b op v) ∧ g.Tells b op v) ∨
      ¬g.Tells b op v ∧ (g.comparison b op v = .error .indexOutOfRange ∨
        g.comparison b op v = .error .unknownQuantity) := by
  obtain ⟨hlength, -⟩ := (h.shape b hb op hop).counts (by simp) heq
  have hlength : op.args.length = 2 := Int.ofNat_inj.mp hlength
  have hmem : .var v ∈ op.args := by
    simp only [uses, Bool.and_eq_true, List.contains_iff_mem] at huses
    exact huses.2
  rcases filter_ne_cases hlength hmem with ⟨hself, hfilter⟩ | ⟨a, ha, hne, honly, hfilter⟩
  · refine .inr ⟨?_, .inl (by rw [comparison, hfilter])⟩
    rintro ⟨a, ha, hne, -⟩
    exact hne (hself a ha)
  · obtain ⟨values, hvalues⟩ := ((h.within b hb op hop).args a ha).values
    have hsuccs : b.succs.filter (fun s => some s != none) = b.succs :=
      List.filter_eq_self.mpr fun _ _ => rfl
    -- what is left of the comparison once its operand and the block's fallthrough are known
    have hrest : g.comparison b op v =
        b.succs.mapM (namedBy values) >>= fun entered => .ok (entered, none) := by
      simp only [comparison, hfilter, hvalues, h.fallthrough b hb, bind, Except.bind, hsuccs]
      rfl
    have htells : g.Tells b op v ↔ (b.succs ≠ [] → values.isConst = true) := by
      constructor
      · rintro ⟨a', ha', hne', values', hvalues', hconst⟩
        rw [honly a' ha' hne', hvalues] at hvalues'
        rwa [Except.ok.inj hvalues']
      · exact fun hconst => ⟨a, ha, hne, values, hvalues, hconst⟩
    rw [htells, hrest, succeeds_bind_iff]
    cases hconst : values.const? with
    | some i =>
      have hnamed : ∀ s ∈ b.succs, Succeeds (namedBy values s) := by
        intro s _
        rw [namedBy, hconst]
        exact .ok (s, Text.hex i)
      obtain ⟨entered, hentered⟩ := succeeds_mapM_iff.mpr hnamed
      exact .inl ⟨⟨entered, hentered, .ok _⟩, fun _ => by simp [ValueSet.isConst, hconst]⟩
    | none =>
      cases hcons : b.succs with
      | nil => exact .inl ⟨⟨[], rfl, .ok _⟩, fun hne => absurd rfl hne⟩
      | cons s rest =>
        refine .inr ⟨fun htold => ?_, .inr ?_⟩
        · simpa [ValueSet.isConst, hconst] using htold (List.cons_ne_nil s rest)
        · rw [List.mapM_cons, namedBy, hconst]
          rfl

theorem Straight.mem_comparisons (h : g.Straight) {v : VarId} {b : Block} {op : TacOp} :
    (b, op) ∈ g.comparisons v ↔ b ∈ g.blocks ∧ op ∈ b.ops ∧ uses op v = true ∧
      op.opcode.same Opcode.eq = true := by
  have hmembers : b ∈ g.blocks ↔ ∃ m ∈ g.members, m.2 = b := by
    rw [← map_snd_members h.order, List.mem_map]
  rw [hmembers, comparisons, List.mem_filter, List.mem_flatMap, Bool.and_eq_true]
  constructor
  · rintro ⟨⟨m, hm, hop⟩, huses⟩
    obtain ⟨op', hop', heq⟩ := List.mem_map.mp hop
    obtain ⟨rfl, rfl⟩ := Prod.mk.inj heq
    exact ⟨⟨m, hm, rfl⟩, hop', huses⟩
  · rintro ⟨⟨m, hm, rfl⟩, hop, huses⟩
    exact ⟨⟨m, hm, List.mem_map_of_mem hop⟩, huses⟩

/-- A comparison succeeds exactly if it tells something. -/
theorem Straight.succeeds_comparison_iff (h : g.Straight) {v : VarId} {c : Block × TacOp}
    (hc : c ∈ g.comparisons v) : Succeeds (g.comparison c.1 c.2 v) ↔ g.Tells c.1 c.2 v := by
  obtain ⟨hb, hop, huses, heq⟩ := h.mem_comparisons.mp hc
  rcases h.comparison_cases hb hop huses heq with ⟨hok, htells⟩ | ⟨hnot, hfail⟩
  · exact iff_of_true hok htells
  · refine iff_of_false ?_ hnot
    rintro ⟨r, hr⟩
    rcases hfail with hfail | hfail <;> exact absurd (hr.symm.trans hfail) (by simp)

/-- A comparison that fails lacks an operand or does not know a value. -/
theorem Straight.comparison_eq_error (h : g.Straight) {v : VarId} {c : Block × TacOp}
    (hc : c ∈ g.comparisons v) {e : Fault} (he : g.comparison c.1 c.2 v = .error e) :
    e = .indexOutOfRange ∨ e = .unknownQuantity := by
  obtain ⟨hb, hop, huses, heq⟩ := h.mem_comparisons.mp hc
  rcases h.comparison_cases hb hop huses heq with ⟨⟨r, hr⟩, -⟩ | ⟨-, hfail⟩
  · exact absurd (hr.symm.trans he) (by simp)
  · exact hfail.imp (fun hfail => Except.error.inj (he.symm.trans hfail))
      fun hfail => Except.error.inj (he.symm.trans hfail)

/-! ## 6. Extraction -/

theorem succeeds_functionsOf (g : Graph) (found : List (List (Nat × String) × Option Nat)) :
    Succeeds (g.functionsOf {} found) :=
  succeeds_mapM_iff.mpr fun p _ => succeeds_publicFunction g p.1 p.2

/-- What the extraction comes to: the comparisons of the signature, and the bodies of the functions
that they lead to. -/
theorem Straight.extract_eq (h : g.Straight) {v : VarId} (hv : g.signature? = .ok (some v)) :
    g.extract = ((g.comparisons v).mapM fun c => g.comparison c.1 c.2 v) >>= fun found =>
      g.functionsOf {} found >>= fun fs => .ok { publicFunctions := fs } := by
  rw [extract, h.privateFunctions_eq, ← bind_assoc]
  change (g.publicFunctions {} >>= fun fs => _) = _
  rw [publicFunctions, hv]
  rfl

/-- The extraction succeeds if there is no signature, and otherwise if all its comparisons do; it
fails as one of them does. -/
theorem Straight.extract_cases (h : g.Straight) :
    (g.signature? = .ok none ∧ Succeeds g.extract) ∨
      ∃ v, g.signature? = .ok (some v) ∧
        (Succeeds g.extract ↔ ∀ c ∈ g.comparisons v, Succeeds (g.comparison c.1 c.2 v)) ∧
        ∀ e, g.extract = .error e → ∃ c ∈ g.comparisons v, g.comparison c.1 c.2 v = .error e := by
  obtain ⟨signature, hsignature⟩ := h.succeeds_signature?
  cases signature with
  | none =>
    refine .inl ⟨hsignature, {}, ?_⟩
    rw [extract, h.privateFunctions_eq]
    change (g.publicFunctions {} >>= fun fs => _) = _
    rw [publicFunctions, hsignature]
    rfl
  | some v =>
    refine .inr ⟨v, hsignature, ?_⟩
    have hlater : ∀ found, Succeeds (g.functionsOf {} found >>= fun fs =>
        .ok ({ publicFunctions := fs } : Extraction)) := fun found =>
      (succeeds_bind_iff_of_succeeds fun _ => .ok _).mpr (g.succeeds_functionsOf found)
    rw [h.extract_eq hsignature]
    constructor
    · rw [succeeds_bind_iff_of_succeeds hlater, succeeds_mapM_iff]
    · intro e he
      exact mapM_eq_error (eq_error_of_bind hlater he)

end Graph

/-- **When extraction succeeds.**  Let the graph of a trace be told that its blocks fall through to
no other.  Then the variable that the signature ends up in is found, if there is one, and functions
are extracted exactly if every comparison of it tells something: it is not a comparison with
itself, and it is one with a constant if the block leads on.  Otherwise an operand is missing, or a
value is not known; nothing else can go wrong. -/
theorem extraction_succeeds_iff {lines : List String} {g : Graph}
    (hg : Graph.ofLines lines = .ok g) :
    (∃ v?, g.withoutFallthrough.signature? = .ok v?) ∧
    ((∃ x, g.withoutFallthrough.extract = .ok x) ↔
      ∀ v, g.withoutFallthrough.signature? = .ok (some v) →
        ∀ b ∈ g.withoutFallthrough.blocks, ∀ op ∈ b.ops, Graph.uses op v = true →
          op.opcode.same Opcode.eq = true → g.withoutFallthrough.Tells b op v) ∧
    ∀ e, g.withoutFallthrough.extract = .error e →
      e = .indexOutOfRange ∨ e = .unknownQuantity := by
  have h := Graph.straight_of_ofLines hg
  generalize g.withoutFallthrough = g at h ⊢
  refine ⟨h.succeeds_signature?, ?_⟩
  rcases h.extract_cases with ⟨hnone, x, hx⟩ | ⟨v, hv, hiff, herror⟩
  · constructor
    · refine iff_of_true ⟨x, hx⟩ fun v hv => ?_
      exact absurd (hnone.symm.trans hv) (by simp)
    · intro e he
      exact absurd (hx.symm.trans he) (by simp)
  · constructor
    · refine hiff.trans ⟨fun hall w hw b hb op hop huses heq => ?_, fun hall c hc => ?_⟩
      · obtain rfl : v = w := Option.some.inj (Except.ok.inj (hv.symm.trans hw))
        have hc := h.mem_comparisons.mpr ⟨hb, hop, huses, heq⟩
        exact (h.succeeds_comparison_iff hc).mp (hall _ hc)
      · obtain ⟨hb, hop, huses, heq⟩ := h.mem_comparisons.mp hc
        exact (h.succeeds_comparison_iff hc).mpr (hall v hv c.1 hb c.2 hop huses heq)
    · intro e he
      obtain ⟨c, hc, hfail⟩ := herror e he
      exact h.comparison_eq_error hc hfail

/-- A trace that compares the signature with a constant and enters another frame. -/
def comparedWithConstant : List String :=
  ["0;PUSH1;0", "2;CALLDATALOAD;171", "3;PUSH1;171", "5;EQ;", "6;STOP;", "0;PUSH1;0", "2;STOP;",
    "0;STOP;"]

/-- A trace that compares the signature with itself. -/
def comparedWithItself : List String :=
  ["0;PUSH1;0", "2;CALLDATALOAD;171", "3;DUP1;", "4;EQ;", "5;STOP;"]

/-- A trace that compares the signature with an item from below and enters another frame. -/
def comparedWithUnknown : List String :=
  ["0;PUSH1;0", "2;CALLDATALOAD;171", "3;EQ;", "4;STOP;", "0;PUSH1;0", "2;STOP;", "0;STOP;"]

theorem tells_comparedWithConstant : ∃ g, Graph.ofLines comparedWithConstant = .ok g ∧
    g.withoutFallthrough.extract = .ok
      { publicFunctions := [{ body := [1], start := 1, finish := some 1, signature := "0xab" }] } ∧
    g.withoutFallthrough.signature? = .ok (some 1) ∧
    (∃ b ∈ g.withoutFallthrough.blocks, b.succs ≠ [] ∧ ∃ op ∈ b.ops, Graph.uses op 1 = true ∧
      op.opcode.same Opcode.eq = true ∧ g.withoutFallthrough.Tells b op 1) := by
  have hread : (Graph.ofLines comparedWithConstant).toOption.map (fun g =>
      (g.withoutFallthrough.extract, g.withoutFallthrough.signature?,
        decide (∃ b ∈ g.withoutFallthrough.blocks, b.succs ≠ [] ∧ ∃ op ∈ b.ops,
          Graph.uses op 1 = true ∧ op.opcode.same Opcode.eq = true))) = some
      (.ok { publicFunctions :=
          [{ body := [1], start := 1, finish := some 1, signature := "0xab" }] },
        .ok (some 1), true) := by decide +kernel
  cases hg : Graph.ofLines comparedWithConstant with
  | error e => simp [hg, Except.toOption] at hread
  | ok g =>
    rw [hg, Except.toOption, Option.map_some, Option.some.injEq, Prod.mk.injEq,
      Prod.mk.injEq] at hread
    obtain ⟨hextract, hsignature, hcompared⟩ := hread
    obtain ⟨b, hb, hsuccs, op, hop, huses, heq⟩ := of_decide_eq_true hcompared
    have htells := (extraction_succeeds_iff hg).2.1.mp ⟨_, hextract⟩ 1 hsignature
    exact ⟨g, rfl, hextract, hsignature, b, hb, hsuccs, op, hop, huses, heq,
      htells b hb op hop huses heq⟩

/-- Compared with itself, the signature has no other operand; compared with an unknown item, it has
none to name a function by. -/
theorem not_succeeds_comparedWithItself :
    (∃ g, Graph.ofLines comparedWithItself = .ok g ∧
      g.withoutFallthrough.extract = .error .indexOutOfRange) ∧
    ∃ g, Graph.ofLines comparedWithUnknown = .ok g ∧
      g.withoutFallthrough.extract = .error .unknownQuantity := by
  have hfails : ∀ {lines : List String} {e : Fault}, (Graph.ofLines lines).toOption.map
      (fun g => g.withoutFallthrough.extract) = some (.error e) →
      ∃ g, Graph.ofLines lines = .ok g ∧ g.withoutFallthrough.extract = .error e := by
    intro lines e h
    cases hg : Graph.ofLines lines with
    | error e => simp [hg, Except.toOption] at h
    | ok g => exact ⟨g, rfl, by simpa [hg, Except.toOption] using h⟩
  exact ⟨hfails (by decide +kernel), hfails (by decide +kernel)⟩

end TraceLift
