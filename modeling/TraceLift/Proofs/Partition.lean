/-
# A trace is cut into blocks without loss

Blocks are consecutive: the first starts at position 0, each next one right after the one before,
and each holds exactly the operations between its bounds, marked as its own.  Nothing is
duplicated or reordered, and only one thing can be dropped: the block that is still open when the
trace ends.  It is dropped exactly when the last operation opens or resumes a frame, and it
starts at the last place where the trace was cut.

* **Pieces.**  Cutting loses no operation (`flatten_pieces`), and it cuts in front of exactly the
  operations that start a block (`pieces_shape`).
* **Marks.**  Where blocks start is read off two neighbouring operations (`starts_iff_splitsAt`).
  Only the first operation is different: it is compared with the LAST one of the trace.
* **Blocks.**  A block is a piece with its number and its bounds (`getElem?_blocksFrom`).

The result is `partitions_blocksOf`, for every list of operations, nested or not.
-/
import TraceLift.Trace.Blocks

namespace TraceLift

/-! ## 1. Pieces -/

theorem pieces_cons {m : Mark} {ms p : List Mark} {ps : List (List Mark)}
    (h : pieces ms = p :: ps) :
    pieces (m :: ms) = if m.starts then [] :: (m :: p) :: ps else (m :: p) :: ps := by
  simp only [pieces, h]

/-- There is always a first piece: cutting nothing gives one empty piece. -/
theorem exists_pieces : ∀ ms : List Mark, ∃ p ps, pieces ms = p :: ps
  | [] => ⟨[], [], rfl⟩
  | m :: ms => by
    obtain ⟨p, ps, h⟩ := exists_pieces ms
    rw [pieces_cons h]
    split
    · exact ⟨[], (m :: p) :: ps, rfl⟩
    · exact ⟨m :: p, ps, rfl⟩

/-- **Cutting loses nothing**: the pieces one after the other are what was cut. -/
theorem flatten_pieces : ∀ ms : List Mark, (pieces ms).flatten = ms
  | [] => rfl
  | m :: ms => by
    obtain ⟨p, ps, h⟩ := exists_pieces ms
    have ih : p ++ ps.flatten = ms := by
      have := flatten_pieces ms
      rwa [h] at this
    rw [pieces_cons h]
    split <;> simp [ih]

/-- **Where the cuts are.**  No operation of the first piece starts a block.  Every later piece
starts with one that does, and has no other. -/
theorem pieces_shape : ∀ {ms p : List Mark} {ps : List (List Mark)}, pieces ms = p :: ps →
    (∀ m ∈ p, m.starts = false) ∧
      ∀ q ∈ ps, ∃ m r, q = m :: r ∧ m.starts = true ∧ ∀ x ∈ r, x.starts = false
  | [], p, ps, h => by
    obtain ⟨rfl, rfl⟩ : [] = p ∧ [] = ps := by simpa [pieces] using h
    simp
  | m :: ms, p, ps, h => by
    obtain ⟨p', ps', h'⟩ := exists_pieces ms
    obtain ⟨hp, hps⟩ := pieces_shape h'
    rw [pieces_cons h'] at h
    split at h
    · rename_i hm
      obtain ⟨rfl, rfl⟩ := List.cons.inj h
      refine ⟨by simp, fun q hq => ?_⟩
      rcases List.mem_cons.mp hq with rfl | hq
      · exact ⟨m, p', rfl, hm, hp⟩
      · exact hps q hq
    · rename_i hm
      obtain ⟨rfl, rfl⟩ := List.cons.inj h
      refine ⟨fun x hx => ?_, hps⟩
      rcases List.mem_cons.mp hx with rfl | hx
      · simpa using hm
      · exact hp x hx

/-! ## 2. Marks -/

namespace TraceOp

/-- The operation ends its frame, or may. -/
def Halting (op : TraceOp) : Prop := op.opcode.possiblyHalts = true

instance (op : TraceOp) : Decidable op.Halting :=
  inferInstanceAs (Decidable (op.opcode.possiblyHalts = true))

/-- The program counters are as far apart as the earlier operation is long. -/
def Adjoins (op prev : TraceOp) : Prop := prev.opcode.pcGap = .ok (op.pc - prev.pc)

instance (op prev : TraceOp) : Decidable (op.Adjoins prev) :=
  decidable_of_iff (prev.opcode.pcGap.toOption = some (op.pc - prev.pc)) (by
    unfold Adjoins
    cases prev.opcode.pcGap <;> simp [Except.toOption])

/-- An operation is the next one of the same code after another: it adjoins it, and the earlier
one does not end the frame. -/
def Continues (op prev : TraceOp) : Prop := op.Adjoins prev ∧ ¬ prev.Halting

instance (op prev : TraceOp) : Decidable (op.Continues prev) :=
  inferInstanceAs (Decidable (op.Adjoins prev ∧ ¬ prev.Halting))

theorem follows_iff {op prev : TraceOp} : op.follows prev = true ↔ op.Continues prev := by
  unfold follows Continues Adjoins Halting
  cases prev.opcode.pcGap with
  | ok gap =>
    simp only [Bool.and_eq_true, beq_iff_eq, Bool.not_eq_true', Except.ok.injEq,
      Bool.not_eq_true]
    exact and_congr_left' eq_comm
  | error e => simp

end TraceOp

/-- Where a trace is cut.  After the first operation: in front of one at program counter zero, and
in front of a call or creation that does not continue the operation before it.  In front of the
first operation: if it is a call or creation, unless no frame is entered later and it continues
the LAST operation of the trace. -/
def SplitsAt (ops : List TraceOp) : Nat → Prop
  | 0 => ∃ op last, ops.head? = some op ∧ ops.getLast? = some last ∧ op.pc ≠ 0 ∧
      op.opcode.opensFrame = true ∧ ¬ (frameCount ops = 0 ∧ op.Continues last)
  | i + 1 => ∃ prev op, ops[i]? = some prev ∧ ops[i + 1]? = some op ∧
      (op.pc = 0 ∨ op.opcode.opensFrame = true ∧ ¬ op.Continues prev)

theorem map_op_markFrom : ∀ (ops : List TraceOp) (prev : TraceOp) (pn loc number : Nat)
    (depth : Int), (markFrom prev pn loc number depth ops).map (·.op) = ops
  | [], _, _, _, _, _ => rfl
  | op :: ops, _, _, _, _, _ => by simp [markFrom, map_op_markFrom ops]

/-- Every operation is marked, in order. -/
theorem map_op_marks (ops : List TraceOp) : (marks ops).map (·.op) = ops := by
  unfold marks
  split
  · exact map_op_markFrom ..
  · rename_i h
    rw [List.getLast?_eq_none_iff.mp h]
    rfl

theorem length_marks (ops : List TraceOp) : (marks ops).length = ops.length := by
  rw [← List.length_map (·.op), map_op_marks]

/-- After the first operation each mark is decided by the operation and the one before it, and
the running number of frames never differs between the two when it matters. -/
theorem getElem?_markFrom : ∀ (ops : List TraceOp) (prev : TraceOp) (loc number : Nat)
    (depth : Int) (i : Nat) (m : Mark),
    (markFrom prev number (loc + 1) number depth ops)[i]? = some m →
      m.place.loc = loc + 1 + i ∧
        ∃ prev', (prev :: ops)[i]? = some prev' ∧
          (m.starts = true ↔ m.op.pc = 0 ∨ m.op.opcode.opensFrame = true ∧ ¬ m.op.Continues prev')
  | [], _, _, _, _, _, _, h => by simp [markFrom] at h
  | op :: ops, prev, loc, number, depth, 0, m, h => by
    simp only [markFrom, List.getElem?_cons_zero, Option.some.injEq] at h
    subst h
    refine ⟨rfl, prev, rfl, ?_⟩
    by_cases hpc : op.pc = 0
    · simp [hpc]
    · by_cases hcall : op.opcode.opensFrame = true
      · simp only [hpc, hcall, ← TraceOp.follows_iff]
        by_cases hf : op.follows prev = true <;> simp [hf]
      · simp [hpc, hcall]
  | op :: ops, prev, loc, number, depth, i + 1, m, h => by
    simp only [markFrom, List.getElem?_cons_succ] at h ⊢
    obtain ⟨hloc, hstarts⟩ := getElem?_markFrom ops op (loc + 1) _ _ i m h
    exact ⟨by omega, hstarts⟩

/-- The marks of a trace: the first one, and those after it. -/
theorem marks_cons (op : TraceOp) (ops : List TraceOp) :
    ∃ depth starts, marks (op :: ops) = { op, place := { loc := 0, depth, number := 0 }, starts } ::
        markFrom op 0 1 0 depth ops ∧ (starts = true ↔ SplitsAt (op :: ops) 0) ∧
        (op.pc = 0 → depth = 1) := by
  obtain ⟨last, hlast⟩ : ∃ last, (op :: ops).getLast? = some last :=
    ⟨_, List.getLast?_eq_some_getLast (by simp)⟩
  have hsplit : SplitsAt (op :: ops) 0 ↔ op.pc ≠ 0 ∧ op.opcode.opensFrame = true ∧
      ¬ (frameCount (op :: ops) = 0 ∧ op.follows last = true) := by
    constructor
    · rintro ⟨op', last', hop, hl, hrest⟩
      obtain rfl : op = op' := by simpa using hop
      obtain rfl : last = last' := by simpa [hlast] using hl
      simpa only [TraceOp.follows_iff] using hrest
    · intro h
      exact ⟨op, last, rfl, hlast, by simpa only [TraceOp.follows_iff] using h⟩
  simp only [marks, hlast, markFrom, hsplit]
  by_cases hpc : op.pc = 0
  · simp [hpc]
  · by_cases hcall : op.opcode.opensFrame = true
    · by_cases hf : frameCount (op :: ops) = 0 ∧ op.follows last = true
      · simp [hpc, hcall, hf]
      · simp [hpc, hcall, hf]
    · simp [hpc, hcall]

/-- **A block starts where the trace is cut**, and the mark at a position bears that position. -/
theorem starts_iff_splitsAt {ops : List TraceOp} {i : Nat} {m : Mark}
    (h : (marks ops)[i]? = some m) :
    m.place.loc = i ∧ (m.starts = true ↔ SplitsAt ops i) := by
  cases ops with
  | nil => simp [marks] at h
  | cons op ops =>
    obtain ⟨depth, starts, hmarks, hzero, -⟩ := marks_cons op ops
    rw [hmarks] at h
    cases i with
    | zero =>
      obtain rfl : _ = m := by simpa using h
      exact ⟨rfl, hzero⟩
    | succ i =>
      have hop : (op :: ops)[i + 1]? = some m.op := by
        have := congrArg (Option.map (·.op)) h
        rw [← List.getElem?_map] at this
        simpa [map_op_markFrom] using this
      obtain ⟨hloc, prev, hprev, hstarts⟩ :=
        getElem?_markFrom ops op 0 0 depth i m (by simpa using h)
      refine ⟨by omega, hstarts.trans ⟨fun hs => ⟨prev, m.op, hprev, hop, hs⟩, ?_⟩⟩
      rintro ⟨prev', op', hprev', hop', hs⟩
      obtain rfl : prev = prev' := by simpa [hprev] using hprev'
      obtain rfl : m.op = op' := by simpa [hop] using hop'
      exact hs

/-! ## 3. Blocks -/

/-- The block of a piece. -/
def TraceBlock.ofPiece (id entry : Nat) (p : List Mark) : TraceBlock :=
  { id, entry, exit := (entry : Int) + p.length - 1,
    ops := p.map fun m => { m.op with place := m.place, owner := id } }

/-- The operations of a trace from one position to another. -/
def slice (ops : List TraceOp) (entry exit : Int) : List TraceOp :=
  (ops.drop entry.toNat).take (exit + 1 - entry).toNat

/-- The number of operations that blocks hold. -/
def coveredCount (bs : List TraceBlock) : Nat := (bs.flatMap (·.ops)).length

theorem TraceBlock.toTraceOp_ofPiece (id entry : Nat) (p : List Mark) :
    (ofPiece id entry p).ops.map (·.toTraceOp) = p.map (·.op) := by
  simp [ofPiece]

theorem length_blocksFrom : ∀ (ps : List (List Mark)) (id entry : Nat),
    (blocksFrom id entry ps).length = ps.length
  | [], _, _ => rfl
  | _ :: ps, id, _ => congrArg (· + 1) (length_blocksFrom ps (id + 1) _)

/-- **A block is a piece with its number and its bounds.** -/
theorem getElem?_blocksFrom : ∀ (ps : List (List Mark)) (id entry i : Nat),
    (blocksFrom id entry ps)[i]? =
      ps[i]?.map (TraceBlock.ofPiece (id + i) (entry + (ps.take i).flatten.length))
  | [], _, _, _ => by simp [blocksFrom]
  | p :: ps, id, entry, 0 => by simp [blocksFrom, TraceBlock.ofPiece]
  | p :: ps, id, entry, i + 1 => by
    simp only [blocksFrom, List.getElem?_cons_succ, getElem?_blocksFrom ps, List.take_succ_cons,
      List.flatten_cons, List.length_append]
    congr 2 <;> omega

/-- What is read of the operations of all blocks is read of the marks in the pieces. -/
theorem map_ops_blocksFrom {α : Type} {f : PlacedOp → α} {g : Mark → α}
    (h : ∀ (m : Mark) (id : Nat), f { m.op with place := m.place, owner := id } = g m) :
    ∀ (ps : List (List Mark)) (id entry : Nat),
      ((blocksFrom id entry ps).flatMap (·.ops)).map f = ps.flatten.map g
  | [], _, _ => rfl
  | p :: ps, id, entry => by
    have hcons : blocksFrom id entry (p :: ps) =
        TraceBlock.ofPiece id entry p :: blocksFrom (id + 1) (entry + p.length) ps := rfl
    have hpiece : (TraceBlock.ofPiece id entry p).ops.map f = p.map g := by
      rw [TraceBlock.ofPiece, List.map_map]
      exact List.map_congr_left fun m _ => h m id
    rw [hcons, List.flatMap_cons, List.map_append, hpiece, map_ops_blocksFrom h ps,
      List.flatten_cons, List.map_append]

theorem toTraceOp_blocksFrom (ps : List (List Mark)) (id entry : Nat) :
    (blocksFrom id entry ps).flatMap (fun b => b.ops.map (·.toTraceOp)) =
      ps.flatten.map (·.op) := by
  rw [← map_ops_blocksFrom (f := PlacedOp.toTraceOp) (fun _ _ => rfl) ps id entry, List.map_flatMap]

theorem coveredCount_blocksFrom (ps : List (List Mark)) (id entry : Nat) :
    coveredCount (blocksFrom id entry ps) = ps.flatten.length := by
  have h := map_ops_blocksFrom (f := PlacedOp.toTraceOp) (fun _ _ => rfl) ps id entry
  simpa only [coveredCount, List.length_map] using congrArg List.length h

/-- The pieces that become blocks: all of them, or all but the last one. -/
def keptPieces (ops : List TraceOp) : List (List Mark) :=
  if keepsLast ops then pieces (marks ops) else (pieces (marks ops)).dropLast

theorem blocksOf_eq (ops : List TraceOp) : blocksOf ops = blocksFrom 0 0 (keptPieces ops) := rfl

/-- The pieces that become blocks cover a front part of the trace. -/
theorem flatten_keptPieces (ops : List TraceOp) :
    ∃ rest, (keptPieces ops).flatten ++ rest = marks ops := by
  unfold keptPieces
  split
  · exact ⟨[], by rw [List.append_nil, flatten_pieces]⟩
  · rcases List.eq_nil_or_concat (pieces (marks ops)) with h | ⟨front, last, h⟩
    · exact ⟨marks ops, by simp [h]⟩
    · refine ⟨last, ?_⟩
      have hflat := flatten_pieces (marks ops)
      rw [h] at hflat
      simpa [h] using hflat

/-- The operations of all blocks in a row are the marks of the trace, as far as they go. -/
theorem getElem?_ops_blocksOf {ops : List TraceOp} {j : Nat} {op : PlacedOp}
    (h : ((blocksOf ops).flatMap (·.ops))[j]? = some op) :
    ∃ m, (marks ops)[j]? = some m ∧ op.toTraceOp = m.op ∧ op.place = m.place := by
  obtain ⟨rest, hrest⟩ := flatten_keptPieces ops
  have hmap := map_ops_blocksFrom (f := fun op => (op.toTraceOp, op.place))
    (g := fun m => (m.op, m.place)) (fun _ _ => rfl) (keptPieces ops) 0 0
  have hget := congrArg (·[j]?) hmap
  simp only [← blocksOf_eq, List.getElem?_map, h, Option.map_some] at hget
  obtain ⟨m, hm, hpair⟩ := Option.map_eq_some_iff.mp hget.symm
  obtain ⟨hop, hplace⟩ := Prod.mk.inj hpair
  refine ⟨m, ?_, hop.symm, hplace.symm⟩
  rw [← hrest, List.getElem?_append_left (List.getElem?_eq_some_iff.mp hm).1, hm]

/-- **Where a block lies in the trace.**  The block at position `i` is the piece there, and what
lies before it are the pieces before. -/
theorem getElem?_blocksOf {ops : List TraceOp} {i : Nat} {b : TraceBlock}
    (h : (blocksOf ops)[i]? = some b) :
    ∃ p rest, (keptPieces ops)[i]? = some p ∧
      marks ops = ((keptPieces ops).take i).flatten ++ (p ++ rest) ∧
      b = TraceBlock.ofPiece i ((keptPieces ops).take i).flatten.length p := by
  rw [blocksOf_eq, getElem?_blocksFrom, Option.map_eq_some_iff] at h
  obtain ⟨p, hp, rfl⟩ := h
  obtain ⟨rest, hrest⟩ := flatten_keptPieces ops
  obtain ⟨hi, hget⟩ := List.getElem?_eq_some_iff.mp hp
  have hsplit : (keptPieces ops).take i ++ p :: (keptPieces ops).drop (i + 1) = keptPieces ops := by
    rw [← hget, ← List.drop_eq_getElem_cons hi, List.take_append_drop]
  refine ⟨p, ((keptPieces ops).drop (i + 1)).flatten ++ rest, hp, ?_, by simp⟩
  have hflat := congrArg List.flatten hsplit
  rw [List.flatten_append, List.flatten_cons] at hflat
  rw [← hrest, ← hflat]
  simp

/-- A block's operations are marks of the trace, handed over to the block. -/
theorem mem_ops_blocksOf {ops : List TraceOp} {b : TraceBlock} (hb : b ∈ blocksOf ops)
    {op : PlacedOp} (hop : op ∈ b.ops) :
    ∃ m : Mark, (marks ops)[m.place.loc]? = some m ∧ op.toTraceOp = m.op ∧ op.place = m.place ∧
      op.owner = b.id := by
  obtain ⟨i, hi⟩ := List.getElem?_of_mem hb
  obtain ⟨p, rest, -, hmarks, rfl⟩ := getElem?_blocksOf hi
  obtain ⟨m, hm, rfl⟩ := List.mem_map.mp hop
  obtain ⟨j, hj⟩ := List.getElem?_of_mem (by rw [hmarks]; simp [hm] : m ∈ marks ops)
  refine ⟨m, ?_, rfl, rfl, rfl⟩
  rw [(starts_iff_splitsAt hj).1]
  exact hj

theorem toTraceOp_mem_of_mem_blocksOf {ops : List TraceOp} {b : TraceBlock} (hb : b ∈ blocksOf ops)
    {op : PlacedOp} (hop : op ∈ b.ops) : op.toTraceOp ∈ ops := by
  obtain ⟨m, hm, hop, -⟩ := mem_ops_blocksOf hb hop
  rw [hop, ← map_op_marks ops]
  exact List.mem_map_of_mem (List.mem_of_getElem? hm)

/-- The positions of the marks that start a block. -/
def startPositions (ms : List Mark) : List Nat :=
  (List.range ms.length).filter fun i => ms[i]?.any (·.starts)

theorem startPositions_cons (m : Mark) (ms : List Mark) :
    startPositions (m :: ms) =
      (if m.starts then [0] else []) ++ (startPositions ms).map (· + 1) := by
  unfold startPositions
  rw [List.length_cons, List.range_succ_eq_map, List.filter_cons, List.filter_map]
  have hshift : ((fun i => (m :: ms)[i]?.any (·.starts)) ∘ Nat.succ) =
      fun i => ms[i]?.any (·.starts) := by
    funext i
    simp
  rw [hshift]
  cases hm : m.starts <;> simp [hm]

/-- The blocks after the first one start at the marks that start a block. -/
theorem entry_blocksFrom_tail : ∀ {ms p : List Mark} {ps : List (List Mark)},
    pieces ms = p :: ps → ∀ id loc : Nat, (blocksFrom id (loc + p.length) ps).map (·.entry) =
      (startPositions ms).map fun i => ((loc + i : Nat) : Int)
  | [], p, ps, h, id, loc => by
    obtain ⟨rfl, rfl⟩ : [] = p ∧ [] = ps := by simpa [pieces] using h
    rfl
  | m :: ms, p, ps, h, id, loc => by
    obtain ⟨p', ps', h'⟩ := exists_pieces ms
    have ih : ∀ id, (blocksFrom id (loc + (p'.length + 1)) ps').map (·.entry) =
        ((startPositions ms).map (· + 1)).map fun i => ((loc + i : Nat) : Int) := by
      intro id
      rw [show loc + (p'.length + 1) = loc + 1 + p'.length by omega,
        entry_blocksFrom_tail h' id (loc + 1), List.map_map]
      exact List.map_congr_left fun i _ => by simp only [Function.comp]; omega
    rw [pieces_cons h'] at h
    rw [startPositions_cons, List.map_append]
    split at h
    · rename_i hm
      obtain ⟨rfl, rfl⟩ := List.cons.inj h
      simp [hm, blocksFrom, ih]
    · rename_i hm
      obtain ⟨rfl, rfl⟩ := List.cons.inj h
      simp [hm, ih]

theorem blocksFrom_dropLast : ∀ (ps : List (List Mark)) (id entry : Nat),
    blocksFrom id entry ps.dropLast = (blocksFrom id entry ps).dropLast
  | [], _, _ => rfl
  | [_], _, _ => rfl
  | p :: q :: ps, id, entry => by
    simp only [List.dropLast_cons_cons, blocksFrom]
    exact congrArg _ (blocksFrom_dropLast (q :: ps) (id + 1) (entry + p.length))

/-- **The blocks start at the first operation and at the marks that start a block**; the one that
is still open at the end is left out. -/
theorem entry_blocksOf (ops : List TraceOp) :
    (blocksOf ops).map (·.entry) =
      let entries := (0 :: startPositions (marks ops)).map fun (i : Nat) => (i : Int)
      if keepsLast ops then entries else entries.dropLast := by
  obtain ⟨p, ps, h⟩ := exists_pieces (marks ops)
  have hall : (blocksFrom 0 0 (pieces (marks ops))).map (·.entry) =
      (0 :: startPositions (marks ops)).map fun (i : Nat) => (i : Int) := by
    have htail := entry_blocksFrom_tail h 1 0
    rw [h]
    simpa [blocksFrom] using htail
  rw [blocksOf_eq, keptPieces]
  split
  · exact hall
  · rw [blocksFrom_dropLast, List.map_dropLast, hall]

/-! ## 4. The block that is still open at the end -/

/-- `OpensAt ops k`: the block that is open at the end of the trace starts at `k`, which is the
last place where the trace is cut, or 0 if there is none. -/
def OpensAt (ops : List TraceOp) (k : Nat) : Prop :=
  (∀ j, SplitsAt ops j → j ≤ k) ∧ (SplitsAt ops k ∨ k = 0 ∧ ∀ j, ¬ SplitsAt ops j)

theorem exists_mark_of_splitsAt {ops : List TraceOp} {j : Nat} (h : SplitsAt ops j) :
    ∃ m, (marks ops)[j]? = some m ∧ m.starts = true := by
  have hlt : j < ops.length := by
    cases j with
    | zero =>
      obtain ⟨op, -, hop, -⟩ := h
      exact List.length_pos_iff.mpr (by rintro rfl; simp at hop)
    | succ j =>
      obtain ⟨-, op, -, hop, -⟩ := h
      exact (List.getElem?_eq_some_iff.mp hop).1
  rw [← length_marks] at hlt
  exact ⟨_, List.getElem?_eq_getElem hlt,
    (starts_iff_splitsAt (List.getElem?_eq_getElem hlt)).2.mpr h⟩

/-- The last piece starts where the trace is cut last. -/
theorem opensAt_of_last_piece {ops : List TraceOp} {front : List (List Mark)} {last : List Mark}
    (h : pieces (marks ops) = front ++ [last]) : OpensAt ops front.flatten.length := by
  have hflat : front.flatten ++ last = marks ops := by
    have := flatten_pieces (marks ops)
    rw [h] at this
    simpa using this
  -- a cut at or after the last piece is one of its operations that start a block
  have hinside : ∀ j, SplitsAt ops j → front.flatten.length ≤ j →
      ∃ m, last[j - front.flatten.length]? = some m ∧ m.starts = true := by
    intro j hj hle
    obtain ⟨m, hm, hs⟩ := exists_mark_of_splitsAt hj
    rw [← hflat, List.getElem?_append_right hle] at hm
    exact ⟨m, hm, hs⟩
  cases front with
  | nil =>
    obtain ⟨hnone, -⟩ := pieces_shape h
    have hno : ∀ j, ¬ SplitsAt ops j := by
      intro j hj
      obtain ⟨m, hm, hs⟩ := hinside j hj (Nat.zero_le _)
      exact absurd hs (by simp [hnone m (List.mem_of_getElem? hm)])
    exact ⟨fun j hj => absurd hj (hno j), Or.inr ⟨rfl, hno⟩⟩
  | cons p front =>
    obtain ⟨-, hlater⟩ := pieces_shape h
    obtain ⟨m, r, rfl, hm, hr⟩ := hlater last (by simp)
    constructor
    · intro j hj
      rcases Nat.lt_or_ge (p :: front).flatten.length j with hlt | hge
      · obtain ⟨x, hx, hs⟩ := hinside j hj (Nat.le_of_lt hlt)
        obtain ⟨d, hd⟩ : ∃ d, j - (p :: front).flatten.length = d + 1 :=
          ⟨j - (p :: front).flatten.length - 1, by omega⟩
        rw [hd, List.getElem?_cons_succ] at hx
        exact absurd hs (by simp [hr x (List.mem_of_getElem? hx)])
      · exact hge
    · have hget : (marks ops)[(p :: front).flatten.length]? = some m := by
        rw [← hflat, List.getElem?_append_right (Nat.le_refl _), Nat.sub_self]
        rfl
      exact Or.inl ((starts_iff_splitsAt hget).2.mp hm)

/-- The last piece of a trace that has operations is not empty. -/
theorem last_piece_ne_nil : ∀ {ms : List Mark} {front : List (List Mark)} {last : List Mark},
    pieces ms = front ++ [last] → ms ≠ [] → last ≠ []
  | ms, [], last, h, hne => by
    rintro rfl
    have := flatten_pieces ms
    rw [h] at this
    exact hne (by simpa using this.symm)
  | ms, p :: front, last, h, _ => by
    obtain ⟨-, hlater⟩ := pieces_shape h
    obtain ⟨m, r, rfl, -⟩ := hlater last (by simp)
    simp

/-! ## 5. The partition -/

/-- What the blocks of a trace are: consecutive, complete up to the block that is still open, each
with its own operations. -/
structure Partitions (ops : List TraceOp) (bs : List TraceBlock) : Prop where
  /-- The first block starts at the first operation. -/
  first_entry : ∀ b, bs.head? = some b → b.entry = 0
  /-- Each next block starts right after the one before. -/
  next_entry : ∀ (i : Nat) (a b : TraceBlock), bs[i]? = some a → bs[i + 1]? = some b →
    b.entry = a.exit + 1
  /-- A block lies inside the trace; it is empty if its exit is just before its entry. -/
  bounds : ∀ b ∈ bs, 0 ≤ b.entry ∧ b.entry ≤ b.exit + 1 ∧ b.exit < ops.length
  /-- A block holds exactly the operations between its bounds. -/
  holds : ∀ b ∈ bs, b.ops.map (·.toTraceOp) = slice ops b.entry b.exit
  /-- Blocks have numbers of their own. -/
  number : ∀ (i : Nat) (b : TraceBlock), bs[i]? = some b → b.id = i
  /-- The operations of a block refer to it. -/
  owned : ∀ b ∈ bs, ∀ op ∈ b.ops, op.owner = b.id
  /-- What the blocks hold is a front part of the trace. -/
  front : bs.flatMap (fun b => b.ops.map (·.toTraceOp)) = ops.take (coveredCount bs)
  /-- They hold all of it unless the last operation opens or resumes a frame. -/
  complete_iff : coveredCount bs = ops.length ↔
    ops = [] ∨ ∃ last, ops.getLast? = some last ∧ last.pc ≠ 0 ∧ last.opcode.opensFrame = false
  /-- What they do not hold is the block that is still open at the end. -/
  rest_open : coveredCount bs ≠ ops.length → OpensAt ops (coveredCount bs)

theorem keepsLast_iff (ops : List TraceOp) : keepsLast ops = true ↔
    ∃ last, ops.getLast? = some last ∧ last.pc ≠ 0 ∧ last.opcode.opensFrame = false := by
  unfold keepsLast
  split
  · rename_i op hop
    simp [hop]
  · rename_i hnone
    simp [hnone]

/-- How much of a trace its blocks hold: all of it, or what lies before the last piece. -/
theorem coveredCount_blocksOf (ops : List TraceOp) :
    (keepsLast ops = true ∧ coveredCount (blocksOf ops) = ops.length) ∨
      (keepsLast ops = false ∧ ∃ front last, pieces (marks ops) = front ++ [last] ∧
        coveredCount (blocksOf ops) = front.flatten.length ∧
        front.flatten.length + last.length = ops.length) := by
  rw [blocksOf_eq, coveredCount_blocksFrom]
  cases hk : keepsLast ops with
  | true => exact Or.inl ⟨rfl, by rw [keptPieces, if_pos hk, flatten_pieces, length_marks]⟩
  | false =>
    obtain ⟨p, ps, hps⟩ := exists_pieces (marks ops)
    rcases List.eq_nil_or_concat (pieces (marks ops)) with h | ⟨front, last, h⟩
    · exact absurd hps (by simp [h])
    · rw [List.concat_eq_append] at h
      have hlen : front.flatten.length + last.length = ops.length := by
        rw [← length_marks ops, ← flatten_pieces (marks ops), h]
        simp
      exact Or.inr ⟨rfl, front, last, h, by simp [keptPieces, hk, h], hlen⟩

theorem slice_append (a b c : List TraceOp) :
    slice (a ++ (b ++ c)) a.length ((a.length : Int) + b.length - 1) = b := by
  have hlen : ((a.length : Int) + b.length - 1 + 1 - a.length).toNat = b.length := by omega
  rw [slice, hlen, Int.toNat_natCast, List.drop_left, List.take_left]

/-- A block lies inside the trace and holds what lies between its bounds. -/
theorem holds_of_mem_blocksOf {ops : List TraceOp} {b : TraceBlock} (hb : b ∈ blocksOf ops) :
    (0 ≤ b.entry ∧ b.entry ≤ b.exit + 1 ∧ b.exit < ops.length) ∧
      b.ops.map (·.toTraceOp) = slice ops b.entry b.exit := by
  obtain ⟨i, hi⟩ := List.getElem?_of_mem hb
  obtain ⟨p, rest, -, hmarks, rfl⟩ := getElem?_blocksOf hi
  generalize ((keptPieces ops).take i).flatten = before at hmarks
  have hops := map_op_marks ops
  rw [hmarks, List.map_append, List.map_append] at hops
  have hlen := congrArg List.length hops
  simp only [List.length_append, List.length_map] at hlen
  have hslice := slice_append (before.map (·.op)) (p.map (·.op)) (rest.map (·.op))
  rw [hops, List.length_map, List.length_map] at hslice
  refine ⟨?_, by rw [TraceBlock.toTraceOp_ofPiece, ← hslice]; rfl⟩
  simp only [TraceBlock.ofPiece]
  omega

/-- The next block starts where the one before ends. -/
theorem entry_succ_blocksOf {ops : List TraceOp} {i : Nat} {a b : TraceBlock}
    (ha : (blocksOf ops)[i]? = some a) (hb : (blocksOf ops)[i + 1]? = some b) :
    b.entry = a.exit + 1 := by
  obtain ⟨p, -, hp, -, rfl⟩ := getElem?_blocksOf ha
  obtain ⟨q, -, -, -, rfl⟩ := getElem?_blocksOf hb
  have htake : (keptPieces ops).take (i + 1) = (keptPieces ops).take i ++ [p] := by
    rw [List.take_add_one, hp]
    rfl
  simp only [TraceBlock.ofPiece, htake, List.flatten_append, List.length_append,
    List.flatten_cons, List.flatten_nil, List.append_nil]
  omega

theorem toTraceOp_blocksOf (ops : List TraceOp) :
    (blocksOf ops).flatMap (fun b => b.ops.map (·.toTraceOp)) =
      ops.take (coveredCount (blocksOf ops)) := by
  obtain ⟨rest, hrest⟩ := flatten_keptPieces ops
  have hops := map_op_marks ops
  rw [← hrest, List.map_append] at hops
  have htake : (((keptPieces ops).flatten.map (·.op)) ++ rest.map (·.op)).take
      ((keptPieces ops).flatten.map (·.op)).length = (keptPieces ops).flatten.map (·.op) :=
    List.take_left
  rw [hops, List.length_map] at htake
  rw [blocksOf_eq, toTraceOp_blocksFrom, coveredCount_blocksFrom, htake]

/-- The blocks hold the whole trace exactly if the last one is kept or there is nothing to hold. -/
theorem coveredCount_eq_length_iff (ops : List TraceOp) :
    coveredCount (blocksOf ops) = ops.length ↔ ops = [] ∨ keepsLast ops = true := by
  rcases coveredCount_blocksOf ops with ⟨hk, hc⟩ | ⟨hk, front, last, hpieces, hc, hlen⟩
  · simp [hk, hc]
  · rw [hc, hk]
    constructor
    · intro heq
      refine Or.inl (Classical.byContradiction fun hne => ?_)
      have hmarks : marks ops ≠ [] := by
        intro hnil
        exact hne (by rw [← map_op_marks ops, hnil]; rfl)
      have := List.length_pos_iff.mpr (last_piece_ne_nil hpieces hmarks)
      omega
    · rintro (rfl | hkeep)
      · simp only [List.length_nil] at hlen ⊢
        omega
      · exact absurd hkeep (by simp)

theorem opensAt_coveredCount {ops : List TraceOp}
    (h : coveredCount (blocksOf ops) ≠ ops.length) : OpensAt ops (coveredCount (blocksOf ops)) := by
  rcases coveredCount_blocksOf ops with ⟨-, hc⟩ | ⟨-, front, last, hpieces, hc, -⟩
  · exact absurd hc h
  · rw [hc]
    exact opensAt_of_last_piece hpieces

/-- **A trace is cut into blocks without loss**, whatever its operations are and however they are
nested. -/
theorem partitions_blocksOf (ops : List TraceOp) : Partitions ops (blocksOf ops) where
  first_entry := by
    intro b hb
    obtain ⟨p, rest, -, -, rfl⟩ := getElem?_blocksOf (i := 0) (List.head?_eq_getElem? ▸ hb)
    rfl
  next_entry := fun i a b => entry_succ_blocksOf
  bounds := fun b hb => (holds_of_mem_blocksOf hb).1
  holds := fun b hb => (holds_of_mem_blocksOf hb).2
  number := by
    intro i b hb
    obtain ⟨p, -, -, -, rfl⟩ := getElem?_blocksOf hb
    rfl
  owned := by
    intro b hb op hop
    obtain ⟨m, -, -, -, howner⟩ := mem_ops_blocksOf hb hop
    exact howner
  front := toTraceOp_blocksOf ops
  complete_iff := (coveredCount_eq_length_iff ops).trans (or_congr_right (keepsLast_iff ops))
  rest_open := opensAt_coveredCount

end TraceLift
