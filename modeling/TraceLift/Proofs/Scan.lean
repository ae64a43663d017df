/-
# Cutting a trace by splitting one growing block

`blocksOf` marks all operations first and then cuts.  The same blocks come out of ONE PASS with
one open block: each operation is put into it, and where a block starts the open one is split in
front of the operation.  The pass can fail in two places.  The distance between two operations
may not be known, and a split may be given bounds that are not there.

Neither happens with legal opcodes (`scanFrom_eq`), so the pass gives the blocks of the trace, and
these partition it (`scanBlocks_partitions`).
-/
import TraceLift.Proofs.Legal
import TraceLift.Proofs.Partition

namespace TraceLift

/-! ## 1. The pass -/

/-- Whether an operation is the next one of the same code after another, where the length of the
earlier one has to be known. -/
def TraceOp.followsChecked (op prev : TraceOp) : Except Fault Bool := do
  let gap ← prev.opcode.pcGap
  return op.pc - prev.pc == gap && !prev.opcode.possiblyHalts

/-- The mark of the next operation.  The distance to the one before is looked up only for a call
or creation that no frame was entered at. -/
def markOp (prev : TraceOp) (prevNumber loc number : Nat) (depth : Int) (op : TraceOp) :
    Except Fault Mark := do
  let number := if op.pc = 0 ∧ loc ≠ 0 then number + 1 else number
  if op.pc = 0 then
    let (starts, depth) := if loc = 0 then (false, 1) else (true, depth + 1)
    return { op, place := { loc, depth, number }, starts }
  else if op.opcode.opensFrame then
    let next ← if prevNumber = number then op.followsChecked prev else pure false
    let (starts, depth) := if next then (false, depth) else (true, depth - 1)
    return { op, place := { loc, depth, number }, starts }
  else return { op, place := { loc, depth, number }, starts := false }

/-- A block with one more operation. -/
def TraceBlock.extend (b : TraceBlock) (m : Mark) : TraceBlock :=
  { b with ops := b.ops ++ [{ m.op with place := m.place, owner := b.id }] }

/-- Puts the operations from position `loc` on into the open block, which is split where a block
starts: the blocks that are closed, and the one that is open at the end. -/
def scanFrom (prev : TraceOp) (prevNumber loc number : Nat) (depth : Int) (current : TraceBlock) :
    List TraceOp → Except Fault (List TraceBlock × TraceBlock)
  | [] => return ([], current)
  | op :: ops => do
    let m ← markOp prev prevNumber loc number depth op
    if m.starts then
      let (closed, fresh) ← (current.extend m).split loc (current.id + 1)
      let (bs, last) ← scanFrom op m.place.number (loc + 1) m.place.number m.place.depth fresh ops
      return (closed :: bs, last)
    else scanFrom op m.place.number (loc + 1) m.place.number m.place.depth (current.extend m) ops

/-- The blocks of a trace, found in one pass. -/
def scanBlocks (ops : List TraceOp) : Except Fault (List TraceBlock) :=
  match ops.getLast? with
  | none => return []
  | some last => do
    let (bs, current) ← scanFrom last (frameCount ops) 0 0 0
      { id := 0, entry := 0, exit := (ops.length : Int) - 1, ops := [] } ops
    return if keepsLast ops then bs ++ [current] else bs

/-! ## 2. One step -/

theorem followsChecked_eq {op prev : TraceOp} {gap : Int} (h : prev.opcode.pcGap = .ok gap) :
    op.followsChecked prev = .ok (op.follows prev) := by
  simp [TraceOp.followsChecked, TraceOp.follows, h, bind, Except.bind, pure, Except.pure]

/-- **One mark**: where the distance is known, the pass marks as `markFrom` does. -/
theorem markOp_eq {prev : TraceOp} {gap : Int} (h : prev.opcode.pcGap = .ok gap) (op : TraceOp)
    (prevNumber loc number : Nat) (depth : Int) (ops : List TraceOp) :
    ∃ m, markOp prev prevNumber loc number depth op = .ok m ∧
      markFrom prev prevNumber loc number depth (op :: ops) =
        m :: markFrom op m.place.number (loc + 1) m.place.number m.place.depth ops := by
  simp only [markOp, markFrom, followsChecked_eq h, bind, Except.bind, pure, Except.pure]
  by_cases hpc : op.pc = 0
  · by_cases hloc : loc = 0 <;> simp [hpc, hloc]
  · by_cases hcall : op.opcode.opensFrame = true
    · by_cases hnumber : prevNumber = number
      · cases op.follows prev <;> simp [hpc, hcall, hnumber]
      · simp [hpc, hcall, hnumber]
    · simp [hpc, hcall]

/-- The open block: it holds a piece, and ends where the trace does. -/
def TraceBlock.opened (id entry : Nat) (exit : Int) (p : List Mark) : TraceBlock :=
  { ofPiece id entry p with exit }

theorem TraceBlock.opened_id (id entry : Nat) (exit : Int) (p : List Mark) :
    (opened id entry exit p).id = id := rfl

theorem TraceBlock.extend_opened (id entry : Nat) (exit : Int) (p : List Mark) (m : Mark) :
    (opened id entry exit p).extend m = opened id entry exit (p ++ [m]) := by
  simp [extend, opened, ofPiece]

/-- **One split** in front of the last operation leaves the piece before it, and opens a block with
that operation. -/
theorem TraceBlock.split_opened (id entry : Nat) {exit : Int} (hexit : 0 ≤ exit) (p : List Mark)
    (m : Mark) :
    (opened id entry exit (p ++ [m])).split ((entry + p.length : Nat) : Int) (id + 1) =
      .ok (ofPiece id entry p, opened (id + 1) (entry + p.length) exit [m]) := by
  have hmake : BlockHead.make (some ((entry + p.length : Nat) : Int)) (some exit) =
      .ok { entry := some ((entry + p.length : Nat) : Int), exit := some exit } := by
    have hentry : ¬ ((entry + p.length : Nat) : Int) < 0 := by omega
    have hexit' : ¬ exit < 0 := by omega
    simp only [BlockHead.make, Option.any_some, decide_eq_true_eq, hentry, hexit', if_false]
  have hcut : cutPoint (p ++ [m]).length (((entry + p.length : Nat) : Int) - (entry : Nat)) =
      p.length := by
    have hdistance : ((entry + p.length : Nat) : Int) - (entry : Nat) = p.length := by omega
    rw [cutPoint, hdistance, if_pos (by omega), Int.toNat_natCast]
  simp only [split, opened, ofPiece, hmake, List.length_map, hcut]
  simp [owned]

/-! ## 3. The whole pass -/

/-- **The pass cuts where `pieces` cuts.**  The open block already holds the piece `p`, and takes
the first piece of what follows; at the end of the trace its bounds are those of a block. -/
theorem scanFrom_eq : ∀ (ops : List TraceOp) (id entry : Nat) (p : List Mark) {prev : TraceOp}
    {prevNumber loc number length : Nat} {depth : Int} {q : List Mark} {qs : List (List Mark)},
    (∀ op ∈ prev :: ops, op.opcode.Legal) → entry + p.length = loc → loc + ops.length = length →
    pieces (markFrom prev prevNumber loc number depth ops) = q :: qs →
    ∃ bs last, scanFrom prev prevNumber loc number depth
        (.opened id entry ((length : Int) - 1) p) ops = .ok (bs, last) ∧
      blocksFrom id entry ((p ++ q) :: qs) = bs ++ [last]
  | [], id, entry, p, _, _, _, _, _, _, _, _, _, rfl, rfl, hpieces => by
    obtain ⟨rfl, rfl⟩ := List.cons.inj hpieces
    refine ⟨[], _, rfl, ?_⟩
    simp [blocksFrom, TraceBlock.opened, TraceBlock.ofPiece]
  | op :: ops, id, entry, p, prev, prevNumber, _, number, _, depth, q, qs, hlegal, rfl, rfl,
      hpieces => by
    obtain ⟨hprev, hops⟩ := List.forall_mem_cons.mp hlegal
    obtain ⟨gap, hgap⟩ := hprev.pcGap_ok
    obtain ⟨m, hm, hmarks⟩ := markOp_eq hgap op prevNumber (entry + p.length) number depth ops
    obtain ⟨q', qs', hrest⟩ := exists_pieces
      (markFrom op m.place.number (entry + p.length + 1) m.place.number m.place.depth ops)
    rw [hmarks, pieces_cons hrest] at hpieces
    have hlength : entry + p.length + 1 + ops.length = entry + p.length + (op :: ops).length := by
      simp only [List.length_cons]
      omega
    simp only [scanFrom, hm, bind, Except.bind, TraceBlock.extend_opened]
    cases hstarts : m.starts with
    | true =>
      rw [hstarts, if_pos rfl] at hpieces
      obtain ⟨rfl, rfl⟩ := List.cons.inj hpieces
      obtain ⟨bs, last, hscan, hblocks⟩ := scanFrom_eq ops (id + 1) (entry + p.length) [m] hops
        (show entry + p.length + [m].length = entry + p.length + 1 from rfl) hlength hrest
      have hexit : 0 ≤ ((entry + p.length + (op :: ops).length : Nat) : Int) - 1 := by
        simp only [List.length_cons]
        omega
      refine ⟨.ofPiece id entry p :: bs, last, ?_, ?_⟩
      · simp only [if_true, TraceBlock.opened_id, TraceBlock.split_opened id entry hexit p m, hscan]
        rfl
      · rw [List.append_nil, List.cons_append, ← hblocks]
        rfl
    | false =>
      rw [hstarts, if_neg (by simp)] at hpieces
      obtain ⟨rfl, rfl⟩ := List.cons.inj hpieces
      obtain ⟨bs, last, hscan, hblocks⟩ := scanFrom_eq ops id entry (p ++ [m]) hops
        (show entry + (p ++ [m]).length = entry + p.length + 1 by simp [Nat.add_assoc])
        hlength hrest
      refine ⟨bs, last, hscan, ?_⟩
      rw [← hblocks, List.append_assoc]
      rfl

/-- The pass gives the blocks of the trace. -/
theorem scanBlocks_eq {ops : List TraceOp} (hlegal : ∀ op ∈ ops, op.opcode.Legal) :
    scanBlocks ops = .ok (blocksOf ops) := by
  unfold scanBlocks
  split
  · rename_i hnone
    rw [List.getLast?_eq_none_iff.mp hnone]
    rfl
  · rename_i last hlast
    obtain ⟨q, qs, hpieces⟩ := exists_pieces (markFrom last (frameCount ops) 0 0 0 ops)
    obtain ⟨bs, current, hscan, hblocks⟩ := scanFrom_eq ops 0 0 []
      (List.forall_mem_cons.mpr ⟨hlegal last (List.mem_of_getLast? hlast), hlegal⟩)
      (Nat.zero_add 0) (Nat.zero_add _) hpieces
    have hall : blocksFrom 0 0 (pieces (marks ops)) = bs ++ [current] := by
      rw [marks, hlast, ← hblocks, hpieces]
      rfl
    have hopen : TraceBlock.opened 0 0 ((ops.length : Int) - 1) [] =
        { id := 0, entry := 0, exit := (ops.length : Int) - 1, ops := [] } := rfl
    rw [← hopen, hscan, blocksOf_eq, keptPieces]
    cases keepsLast ops with
    | true => exact congrArg _ hall.symm
    | false =>
      have hfront : bs = blocksFrom 0 0 (pieces (marks ops)).dropLast := by
        rw [blocksFrom_dropLast, hall, List.dropLast_concat]
      exact congrArg _ hfront

/-- **A trace is cut into blocks without loss and without failure.**  For every list of operations
with legal opcodes, whatever their program counters and however they are nested, the pass
succeeds; what it returns are the blocks of the trace, and they partition it. -/
theorem scanBlocks_partitions (ops : List TraceOp) (hlegal : ∀ op ∈ ops, op.opcode.Legal) :
    ∃ bs, scanBlocks ops = .ok bs ∧ bs = blocksOf ops ∧ Partitions ops bs :=
  ⟨blocksOf ops, scanBlocks_eq hlegal, rfl, partitions_blocksOf ops⟩

/-- A trace whose first operation starts a block, and whose last one opens one that is lost. -/
def cutAtBothEnds : List TraceOp :=
  [{ pc := 7, opcode := .call }, { pc := 9, opcode := .add }, { pc := 0, opcode := .push 1 },
    { pc := 2, opcode := .stop }, { pc := 10, opcode := .standIn 0xb0 },
    { pc := 11, opcode := .call }]

theorem scanBlocks_cutAtBothEnds :
    (∀ op ∈ cutAtBothEnds, op.opcode.Legal) ∧ ∃ bs, scanBlocks cutAtBothEnds = .ok bs ∧
      bs.map (fun b => (b.entry, b.exit)) = [(0, -1), (0, 1), (2, 4)] ∧
      Partitions cutAtBothEnds bs := by
  have hlegal : ∀ op ∈ cutAtBothEnds, op.opcode.Legal := by decide +kernel
  obtain ⟨bs, hscan, hbs, hpartitions⟩ := scanBlocks_partitions cutAtBothEnds hlegal
  refine ⟨hlegal, bs, hscan, ?_, hpartitions⟩
  rw [hbs]
  decide +kernel

end TraceLift
