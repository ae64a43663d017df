/-
# One block, converted

Any trace, nested or not, is converted block by block, and each block does the same few things: it
finds a frame, converts its operations on the stack of that frame, puts the stack back, and
suspends the frame or drops it.  `BlockStep` says so for a block that was converted, and `Enters`
lists the two ways to find a frame: open one, or take one from the suspended frames.  Nothing after
this module opens `convertBlock` or `enter` again.

What a conversion does to the variables is said once, too: it adds result variables, and what
adding one keeps it keeps (`Extends.convertBlocks`).
-/
import TraceLift.Proofs.Converts

namespace TraceLift.Conversion

/-! ## 1. Finding a frame -/

/-- How a block finds its frame: it opens the next one, on an empty stack, or it takes a suspended
one and drops those above. -/
inductive Enters (c : Conversion) (first : PlacedOp) : Nat → Conversion → Prop
  | opened (hpc : first.pc = 0) : Enters c first c.frames.size
      { c with frames := c.frames.push { depth := some first.place.depth } }
  | resumed {frame rest} (hsuspended : frame :: rest <:+ c.suspended) :
      Enters c first frame { c with suspended := rest }

variable {c c' c₁ : Conversion} {first : PlacedOp} {frame : Nat}

theorem resume_ok {suspended rest : List Nat} (h : resume suspended = .ok (frame, rest)) :
    suspended = frame :: rest := by
  unfold resume at h
  split at h
  · cases h
    rfl
  · exact absurd h (by simp)

theorem enters_of_enter (h : c.enter first = .ok (frame, c₁)) : Enters c first frame c₁ := by
  unfold enter at h
  split at h
  · rename_i hpc
    cases h
    exact .opened hpc
  split at h
  · obtain ⟨⟨f, rest⟩, hresume, h⟩ := bind_eq_ok_iff.mp h
    have hsuspended := resume_ok hresume
    dsimp only at h
    split at h
    · cases h
      exact .resumed (hsuspended ▸ List.suffix_refl _)
    · obtain ⟨⟨f', rest'⟩, hresume', h⟩ := bind_eq_ok_iff.mp h
      cases h
      refine .resumed ?_
      rw [hsuspended, ← resume_ok hresume']
      exact List.suffix_cons f rest
  · exact absurd h (by simp)

/-- Finding a frame binds no variable. -/
theorem Enters.store (h : Enters c first frame c₁) : c₁.store = c.store := by
  cases h <;> rfl

theorem Enters.count (h : Enters c first frame c₁) : c₁.count = c.count := by
  cases h <;> rfl

/-! ## 2. One block -/

/-- The operation that stands for a block whose operations leave none. -/
def filler (pc : Int) : TacOp := { opcode := Opcode.nop, args := [], pc }

/-- What a block holds, given what its operations left. -/
def orFiller (pc : Int) (tacs : List TacOp) : List TacOp :=
  if tacs.isEmpty then [filler pc] else tacs

/-- What happens when a block is converted: starting from `c`, it finds its frame in `c₁`, leaves
`stack` there, and its operations leave `tacs`. -/
structure BlockStep (c : Conversion) (b : TraceBlock) (c' : Conversion) (t : TacBlock)
    (first last : PlacedOp) (c₁ : Conversion) (stack : Stack Operand) (tacs : List TacOp) :
    Prop where
  head : b.ops.head? = some first
  getLast : b.ops.getLast? = some last
  enters : Enters c first t.frame c₁
  converts : convertOps c₁.count c₁.store (c₁.frames.getD t.frame {}) b.ops =
    .ok (c'.store, stack, tacs)
  frames : c'.frames = c₁.frames.setIfInBounds t.frame stack
  suspended : c'.suspended = suspend c₁.suspended t.frame first last
  ops : t.ops = orFiller first.pc tacs
  source : t.source = b.ops
  count : c'.count = c₁.count + 1

theorem blockStep_of_convertBlock {b : TraceBlock} {t : TacBlock}
    (h : c.convertBlock b = .ok (c', t)) :
    ∃ first last c₁ stack tacs, BlockStep c b c' t first last c₁ stack tacs := by
  unfold convertBlock at h
  split at h
  · rename_i first last hhead hlast
    obtain ⟨⟨frame, c₁⟩, henter, h⟩ := bind_eq_ok_iff.mp h
    obtain ⟨⟨store, stack, tacs⟩, hops, h⟩ := bind_eq_ok_iff.mp h
    obtain ⟨_, -, h⟩ := bind_eq_ok_iff.mp h
    cases h
    exact ⟨first, last, c₁, stack, tacs, hhead, hlast, enters_of_enter henter, hops, rfl, rfl, rfl,
      rfl, rfl⟩
  · exact absurd h (by simp)

theorem convertBlocks_cons_ok {b : TraceBlock} {bs : List TraceBlock} {ts : List TacBlock}
    (h : convertBlocks c (b :: bs) = .ok (c', ts)) :
    ∃ c₁ t rest, c.convertBlock b = .ok (c₁, t) ∧ convertBlocks c₁ bs = .ok (c', rest) ∧
      ts = t :: rest := by
  obtain ⟨⟨c₁, t⟩, hb, h⟩ := bind_eq_ok_iff.mp h
  obtain ⟨⟨c₂, rest⟩, hbs, h⟩ := bind_eq_ok_iff.mp h
  cases h
  exact ⟨c₁, t, rest, hb, hbs, rfl⟩

/-- What holds of a block however it is converted holds of all converted blocks. -/
theorem forall_of_convertBlocks {P : TacBlock → Prop}
    (hP : ∀ {c c' : Conversion} {b : TraceBlock} {t : TacBlock},
      c.convertBlock b = .ok (c', t) → P t) :
    ∀ {bs : List TraceBlock} {c c' : Conversion} {ts : List TacBlock},
      convertBlocks c bs = .ok (c', ts) → ∀ t ∈ ts, P t
  | [], _, _, _, h => by
    cases h
    exact fun t ht => absurd ht (by simp)
  | _ :: _, _, _, _, h => by
    obtain ⟨_, _, _, hb, hbs, rfl⟩ := convertBlocks_cons_ok h
    exact List.forall_mem_cons.mpr ⟨hP hb, forall_of_convertBlocks hP hbs⟩

/-! ## 3. The variables

Stores grow by one result variable at a time, so what adding one keeps a conversion keeps. -/

/-- A property of stores that adding a result variable keeps. -/
def Extends (P : Store → Prop) : Prop :=
  ∀ ⦃store : Store⦄ ⦃block : Nat⦄ ⦃op : TraceOp⦄ ⦃v : Variable⦄,
    P store → resultVariable store.size block op = .ok v → P (store.push v)

section Extends

variable {P : Store → Prop}

theorem Extends.converts (hP : Extends P) {block : Nat} {store store' : Store}
    {stack stack' : Stack Operand} {op : PlacedOp} {tac : Option TacOp} (hstore : P store)
    (h : Converts block store stack op store' stack' tac) : P store' := by
  cases h with
  | swap | dup | drop | act => exact hstore
  | bind _ _ _ hv => exact hP hstore hv

theorem Extends.convertOps (hP : Extends P) {block : Nat} : ∀ {ops : List PlacedOp}
    {store store' : Store} {stack stack' : Stack Operand} {tacs : List TacOp}, P store →
    convertOps block store stack ops = .ok (store', stack', tacs) → P store'
  | [], _, _, _, _, _, hstore, h => by
    cases h
    exact hstore
  | _ :: _, _, _, _, _, _, hstore, h => by
    obtain ⟨_, _, _, _, hop, hops, -⟩ := convertOps_cons_eq_ok_iff.mp h
    exact hP.convertOps (hP.converts hstore hop) hops

theorem Extends.convertBlock (hP : Extends P) {b : TraceBlock} {t : TacBlock} (hstore : P c.store)
    (h : c.convertBlock b = .ok (c', t)) : P c'.store := by
  obtain ⟨_, _, c₁, _, _, hstep⟩ := blockStep_of_convertBlock h
  rw [← hstep.enters.store] at hstore
  exact hP.convertOps hstore hstep.converts

theorem Extends.convertBlocks (hP : Extends P) : ∀ {bs : List TraceBlock} {c c' : Conversion}
    {ts : List TacBlock}, P c.store → convertBlocks c bs = .ok (c', ts) → P c'.store
  | [], _, _, _, hstore, h => by
    cases h
    exact hstore
  | _ :: _, _, _, _, hstore, h => by
    obtain ⟨_, _, _, hb, hbs, -⟩ := convertBlocks_cons_ok h
    exact hP.convertBlocks (hP.convertBlock hstore hb) hbs

end Extends

/-- The variables that there are stay as they are. -/
theorem extends_getElem? (k : VarId) (v : Variable) : Extends fun store => store[k]? = some v := by
  intro store _ _ w hv _
  have hlt := (Array.getElem?_eq_some_iff.mp hv).1
  rw [Array.getElem?_push_lt hlt, ← hv, Array.getElem?_eq_getElem hlt]

end TraceLift.Conversion
