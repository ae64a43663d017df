/-
# Copies of blocks in the graph of a trace

Every block of the graph of a trace can be copied, and the copy says the same without its records
(`exists_copied_of_ofTrace`).  A graph with a copy in place of a block has the files of the graph in
which the block's operations have lost their records (`factFiles_substitute`), and these differ from
the files of the graph itself unless the block holds no operation of the trace
(`factFiles_unrecorded_ne`).
-/
import TraceLift.Proofs.Copying

namespace TraceLift

open Conversion

/-! ## 1. Blocks of the graph of a trace -/

namespace Conversion

theorem make_of_convertBlock {c c' : Conversion} {b : TraceBlock} {t : TacBlock}
    (h : c.convertBlock b = .ok (c', t)) :
    ∃ head, BlockHead.make (some t.entry) (some t.exit) = .ok head := by
  unfold convertBlock at h
  split at h
  · obtain ⟨_, -, h⟩ := bind_eq_ok_iff.mp h
    obtain ⟨_, -, h⟩ := bind_eq_ok_iff.mp h
    obtain ⟨head, hhead, h⟩ := bind_eq_ok_iff.mp h
    cases h
    exact ⟨head, hhead⟩
  · exact absurd h (by simp)

variable {block : Nat} {store store' : Store} {stack stack' : Stack Operand}

theorem Converts.isSome_iff {op : PlacedOp} {tac : Option TacOp}
    (h : Converts block store stack op store' stack' tac) : tac.isSome ↔ Acts op.opcode := by
  cases h with
  | swap hop | dup _ hop | drop _ _ hop => simp [Acts, hop]
  | act hop | bind hop => simp [hop]

/-- Operations that do nothing but rearrange the stack. -/
def Rearrange (ops : List PlacedOp) : Prop := ∀ op ∈ ops, ¬ Acts op.opcode

/-- Only such operations leave nothing. -/
theorem eq_nil_iff_of_convertOps : ∀ {ops : List PlacedOp} {store store' : Store}
    {stack stack' : Stack Operand} {tacs : List TacOp},
    convertOps block store stack ops = .ok (store', stack', tacs) → (tacs = [] ↔ Rearrange ops)
  | [], _, _, _, _, _, h => by
    cases h
    simp [Rearrange]
  | op :: ops, _, _, _, _, _, h => by
    obtain ⟨_, _, tac, rest, hop, hops, rfl⟩ := convertOps_cons_eq_ok_iff.mp h
    rw [Rearrange, List.forall_mem_cons, List.append_eq_nil_iff, eq_nil_iff_of_convertOps hops,
      ← hop.isSome_iff]
    cases tac <;> simp [Rearrange]

/-- **What a converted block holds**: a filler, if its operations only rearrange the stack, and
otherwise operations of the trace. -/
theorem ops_of_convertBlock {c c' : Conversion} {b : TraceBlock} {t : TacBlock}
    (h : c.convertBlock b = .ok (c', t)) :
    (Rearrange t.source ∧ ∃ pc, t.ops = [filler pc]) ∨
      (¬ Rearrange t.source ∧ ∃ o ∈ t.ops, o.place ≠ none) := by
  obtain ⟨first, _, _, _, tacs, hstep⟩ := blockStep_of_convertBlock h
  rw [hstep.source, hstep.ops, ← eq_nil_iff_of_convertOps hstep.converts, orFiller]
  cases htacs : tacs with
  | nil => exact .inl ⟨rfl, first.pc, rfl⟩
  | cons o rest =>
    refine .inr ⟨by simp, o, List.mem_cons_self, fun hnone => ?_⟩
    have hplaced := fromTrace_convertOps hstep.converts
    have ho : o ∈ fromTrace tacs := by
      rw [hplaced, htacs]
      exact List.mem_cons_self
    rw [fromTrace, List.mem_filter, hnone] at ho
    exact absurd ho.2 (by simp)

end Conversion

namespace Graph

variable {g : Graph} {ops : List TraceOp}

theorem proper_of_ofTrace (h : ofTrace ops = .ok g) : ∀ v ∈ g.machine.store, v.Proper := by
  obtain ⟨c, ts, hconvert, hmade⟩ := madeFrom_of_ofTrace h
  refine Machine.proper_of_run hmade.pass ?_
  exact extends_proper.convertBlocks (c := {}) (fun v hv => absurd hv (by simp)) hconvert

theorem serials_numberOps (b : Block) (first : Nat) :
    (b.numberOps first).ops.map (·.serial) = List.range' first b.ops.length := by
  simp only [Block.numberOps, List.map_map]
  exact List.zipIdx_map_snd first b.ops

theorem nodup_numberBlocks : ∀ (bs : List Block) (first : Nat),
    ∀ b ∈ numberBlocks first bs, (b.ops.map (·.serial)).Nodup
  | [], _ => fun b hb => absurd hb (by simp [numberBlocks])
  | b :: bs, first => by
    rw [numberBlocks]
    refine List.forall_mem_cons.mpr ⟨?_, nodup_numberBlocks bs _⟩
    rw [serials_numberOps]
    exact List.nodup_range'

theorem map_ops_connect (g : Graph) : g.connect.blocks.map (·.ops) = g.blocks.map (·.ops) := by
  unfold connect
  split
  · rfl
  · refine List.foldlRecOn (motive := fun g' : Graph => g'.blocks.map (·.ops) = g.blocks.map (·.ops))
      _ _ rfl ?_
    rintro g' h ⟨⟨pred, n⟩, succ⟩ -
    refine Eq.trans ?_ h
    refine List.ext_getElem? fun i => ?_
    simp only [modify, List.getElem?_map, List.getElem?_modify]
    cases g'.blocks[i]? with
    | none => rfl
    | some b => split <;> rfl

/-- **No two operations of a block have the same number.** -/
theorem nodup_serials_of_ofTrace (h : ofTrace ops = .ok g) :
    ∀ b ∈ g.blocks, (b.ops.map (·.serial)).Nodup := by
  obtain ⟨⟨c, ts⟩, hconvert, h⟩ := bind_eq_ok_iff.mp h
  dsimp only at h
  split at h
  · rename_i g₁ happly
    obtain ⟨hgraph, -⟩ := apply_eq_none happly rfl
    obtain rfl : g₁.connect = g := Except.ok.inj h
    intro b hb
    have hmem : b.ops ∈ g₁.blocks.map (·.ops) := by
      rw [← map_ops_connect]
      exact List.mem_map_of_mem hb
    obtain ⟨b₁, hb₁, hops⟩ := List.mem_map.mp hmem
    rw [hgraph] at hb₁
    rw [← hops]
    exact nodup_numberBlocks _ 0 b₁ hb₁
  · exact absurd h (by simp)

/-- **All blocks of the graph of a trace can be copied.** -/
theorem copiable_of_ofTrace (h : ofTrace ops = .ok g) {b : Block} (hb : b ∈ g.blocks) :
    g.Copiable b := by
  obtain ⟨c, ts, hconvert, hmade⟩ := madeFrom_of_ofTrace h
  obtain ⟨t, ht, i, hcontent⟩ := hmade.exists_tacBlock hb
  have hreadable := readable_of_ofTrace h
  constructor
  case head =>
    have hentry : b.entry = some t.entry := congrArg (·.entry) hcontent
    have hexit : b.exit = some t.exit := congrArg (·.exit) hcontent
    rw [hentry, hexit]
    exact forall_of_convertBlocks (fun hblock => make_of_convertBlock hblock) hconvert t ht
  case gap => exact congrArg (·.gap) hcontent
  case entryStack => exact congrArg (·.entryStack.items) hcontent
  case exitStack => exact congrArg (·.exitStack.items) hcontent
  case within =>
    intro op hop
    refine hreadable.within ?_
    rw [Graph.ops, ← List.flatMap_map, map_snd_members hmade.order]
    exact List.mem_flatMap.mpr ⟨b, hb, hop⟩
  case serials => exact nodup_serials_of_ofTrace h b hb

/-- **What a block of the graph of a trace holds**: only a filler, if the operations that it stands
for rearrange the stack, and otherwise operations of the trace. -/
theorem ops_of_ofTrace (h : ofTrace ops = .ok g) {b : Block} (hb : b ∈ g.blocks) :
    (Rearrange b.source ∧ ∀ op ∈ b.ops, op.unrecorded = op) ∨
      (¬ Rearrange b.source ∧ ∃ op ∈ b.ops, op.place ≠ none) := by
  obtain ⟨c, ts, hconvert, hmade⟩ := madeFrom_of_ofTrace h
  obtain ⟨t, ht, i, hcontent⟩ := hmade.exists_tacBlock hb
  have hsource : b.source = t.source := congrArg (·.source) hcontent
  have hops : b.ops.map (·.unnumbered) = t.ops.map (·.unnumbered) := congrArg (·.ops) hcontent
  have hcases := forall_of_convertBlocks (fun hblock => ops_of_convertBlock hblock) hconvert t ht
  rw [hsource]
  rcases hcases with ⟨hrearrange, pc, hfiller⟩ | ⟨hacts, o, ho, hplace⟩
  · refine .inl ⟨hrearrange, fun op hop => ?_⟩
    have hmem := List.mem_map_of_mem (f := (·.unnumbered)) hop
    rw [hops, hfiller, List.map_singleton, List.mem_singleton] at hmem
    obtain ⟨-, -, -, hbinding, hvalue, hplace, -⟩ := TacOp.mk.inj hmem
    cases op
    simp_all [TacOp.unrecorded, filler]
  · obtain ⟨op, hop, -, -, -, hsame⟩ := TacOp.exists_of_unnumbered hops.symm ho
    exact .inr ⟨hacts, op, hop, hsame ▸ hplace⟩

end Graph

/-! ## 2. A copy in place of a block -/

namespace Graph

/-- The graph once it is known where each block falls through to. -/
def withFallthrough (g : Graph) (next : Nat → Option Nat) : Graph :=
  { g with blocks := g.blocks.mapIdx fun n (b : Block) => { b with fallthrough := some (next n) } }

/-- The graph with one block in place of another. -/
def substitute (g : Graph) (n new : Nat) : Graph :=
  { g with order := g.order.map fun m => if m = n then new else m }

/-- The graph in which nothing is recorded of the operations of a block. -/
def unrecorded (g : Graph) (n : Nat) : Graph :=
  g.modify n fun b => { b with ops := b.ops.map (·.unrecorded) }

variable {g g' : Graph} {ops : List TraceOp} {n : Nat} {b copy : Block}

theorem exists_copied_of_ofTrace (h : ofTrace ops = .ok g) (next : Nat → Option Nat)
    (hb : g.block? n = some b) :
    ∃ g' copy, (g.withFallthrough next).copyBlock n = .ok (g', g.blocks.length) ∧
      (g.withFallthrough next).Copied b g' copy := by
  have hcopiable : g.Copiable b := copiable_of_ofTrace h (List.mem_of_getElem? hb)
  have hblock : (g.withFallthrough next).block? n =
      some { b with fallthrough := some (next n) } := by
    rw [block?, withFallthrough, List.getElem?_mapIdx, show g.blocks[n]? = some b from hb]
    rfl
  have hlength : (g.withFallthrough next).blocks.length = g.blocks.length := by
    simp [withFallthrough]
  obtain ⟨g', copy, hmade, hcopied⟩ := exists_copied hblock (fun v hv => proper_of_ofTrace h v hv)
    ⟨hcopiable.head, hcopiable.gap, hcopiable.entryStack, hcopiable.exitStack, hcopiable.within,
      hcopiable.serials⟩ rfl
  rw [hlength] at hmade
  exact ⟨g', copy, hmade, hcopied.order, hcopied.blocks, hcopied.store, hcopied.source, hcopied.gap,
    hcopied.entryStack, hcopied.ops⟩

theorem blocks_unrecorded (hb : g.block? n = some b) :
    (g.unrecorded n).blocks = g.blocks.set n { b with ops := b.ops.map (·.unrecorded) } := by
  have hn := (List.getElem?_eq_some_iff.mp hb).1
  refine List.ext_getElem? fun i => ?_
  rw [unrecorded, modify, List.getElem?_modify, List.getElem?_set]
  by_cases hi : n = i
  · subst hi
    rw [if_pos rfl, if_pos hn, show g.blocks[n]? = some b from hb]
    simp
  · simp [hi]

theorem unrecorded_eq_self (hb : g.block? n = some b) (h : ∀ op ∈ b.ops, op.unrecorded = op) :
    g.unrecorded n = g := by
  have hops : b.ops.map (·.unrecorded) = b.ops :=
    (List.map_congr_left h).trans (List.map_id' b.ops)
  have hblocks : (g.unrecorded n).blocks = g.blocks := by
    rw [blocks_unrecorded hb, hops, ← (List.getElem?_eq_some_iff.mp hb).2]
    exact List.set_getElem_self _
  show { g with blocks := (g.unrecorded n).blocks } = g
  rw [hblocks]

theorem map_snd_members_unrecorded (horder : g.order = List.range g.blocks.length)
    (hb : g.block? n = some b) : (g.unrecorded n).members.map (·.2) =
      g.blocks.set n { b with ops := b.ops.map (·.unrecorded) } := by
  rw [map_snd_members, blocks_unrecorded hb]
  rw [blocks_unrecorded hb, List.length_set]
  exact horder

/-- The blocks of a graph after a substitution. -/
theorem map_snd_members_substitute {bs : List Block} (horder : g.order = List.range bs.length)
    (hblocks : g.blocks = bs ++ [copy]) (hn : n < bs.length) :
    (g.substitute n bs.length).members.map (·.2) = bs.set n copy := by
  have hset := filterMap_getElem?_range (bs.set n copy)
  rw [List.length_set] at hset
  rw [members, List.map_filterMap, ← hset]
  simp only [substitute, horder, List.filterMap_map]
  refine List.filterMap_congr fun m hm => ?_
  have hm := List.mem_range.mp hm
  simp only [Function.comp_apply, Option.map_map, Function.comp_def, Option.map_id', block?,
    hblocks, List.getElem?_set]
  by_cases hnm : m = n
  · subst hnm
    rw [if_pos rfl, if_pos rfl, if_pos hm, List.getElem?_concat_length]
  · rw [if_neg hnm, if_neg (Ne.symm hnm), List.getElem?_append_left hm]

/-- An operation whose variables are in the store says the same in a store that still has them. -/
theorem tells_of_within {store store' : Store}
    (hstore : ∀ k < store.size, store'[k]? = store[k]?) {op : TacOp} (hop : op.Within store.size) :
    Tells store store' op op := by
  have hlookup : ∀ a ∈ op.args, a.lookup store' = a.lookup store := by
    intro a ha
    cases a with
    | var k =>
      have hk : k < store.size := (hop.args _ ha).elim id fun ⟨w, hw⟩ => by cases hw
      simp only [Operand.lookup, hstore k hk]
    | literal | entry | blank => rfl
  refine ⟨⟨rfl, rfl, ?_, ?_, ?_⟩, rfl⟩
  · exact List.map_congr_left fun a ha => by simp only [Operand.name, hlookup a ha]
  · exact List.map_congr_left fun a ha => by simp only [Operand.values, hlookup a ha]
  · unfold TacOp.result? TacOp.target
    cases hb : op.binding with
    | none => rfl
    | some b =>
      have hk : b.target < store.size := hop.target b.target (by simp [TacOp.target?, hb])
      simp only [hstore b.target hk]

/-- **The files of a graph with a copy in place of a block** are those that the graph would have if
nothing were recorded of the block's operations. -/
theorem factFiles_substitute (h : ofTrace ops = .ok g) {next : Nat → Option Nat}
    (hb : g.block? n = some b) (hcopied : (g.withFallthrough next).Copied b g' copy)
    (opcodes : List String) :
    (g'.substitute n g.blocks.length).factFiles opcodes = (g.unrecorded n).factFiles opcodes := by
  obtain ⟨c, ts, hconvert, hmade⟩ := madeFrom_of_ofTrace h
  have hn := (List.getElem?_eq_some_iff.mp hb).1
  have hlength : (g.withFallthrough next).blocks.length = g.blocks.length := by
    simp [withFallthrough]
  have hnew : (g'.substitute n g.blocks.length).members.map (·.2) =
      (g.withFallthrough next).blocks.set n copy := by
    rw [← hlength]
    refine map_snd_members_substitute ?_ hcopied.blocks (hlength.symm ▸ hn)
    rw [hcopied.order, hlength]
    exact hmade.order
  refine factFiles_congr ?_ opcodes
  rw [map_snd_members_unrecorded hmade.order hb, hnew]
  refine List.forall₂_iff_get.mpr ⟨by simp [hlength], fun i hi hi' => ?_⟩
  simp only [List.get_eq_getElem, List.getElem_set]
  by_cases hni : n = i
  · have hcopiable := copiable_of_ofTrace h (List.mem_of_getElem? hb)
    simp only [hni, if_true]
    refine ⟨hcopied.gap.trans hcopiable.gap.symm, hcopiable.entryStack, hcopied.entryStack, ?_⟩
    rw [List.forall₂_map_left_iff]
    refine hcopied.ops.imp fun op op' hop => ⟨⟨hop.1.opcode, hop.1.pc, hop.1.names, hop.1.values, ?_⟩,
      hop.2.place⟩
    exact hop.1.result.trans (TacOp.alike_unrecorded op _).result.symm
  · have hcopiable := copiable_of_ofTrace h (List.getElem_mem (by simpa using hi))
    simp only [hni, if_false, withFallthrough, List.getElem_mapIdx]
    refine ⟨rfl, hcopiable.entryStack, hcopiable.entryStack, ?_⟩
    exact List.forall₂_same.mpr fun op hop =>
      tells_of_within hcopied.store (hcopiable.within op hop)

end Graph

/-! ## 3. Records show -/

open Text.Tsv in
/-- The row of an operation is longer than it would be if nothing were recorded of it. -/
theorem TacOp.length_row (op : TacOp) :
    (row op.unrecorded.opRow.fields).toList.length + op.place.toList.length ≤
      (row op.opRow.fields).toList.length := by
  have hrow : ∀ a b c : String, (row [a, b, c]).toList.length =
      (field a).toList.length + (field b).toList.length + (field c).toList.length + 3 := by
    intro a b c
    simp only [row, String.toList_append, String.toList_intercalate, List.map_cons, List.map_nil,
      List.length_append, List.intercalate]
    simp
    omega
  simp only [OpRow.fields, hrow, opRow, unrecorded, loc?]
  cases op.place with
  | none => simp
  | some p =>
    have hloc : 0 < (field (toString p.loc)).toList.length := by
      rw [(bare_toString p.loc).field, Nat.toString_eq_repr, Nat.repr_eq_ofList_toDigits,
        String.toList_ofList]
      exact List.length_pos_iff.mpr Nat.toDigits_ne_nil
    have hnone : (field (numberField (none : Option Nat))).toList.length = 0 := by decide
    simp only [Option.map_some, Option.map_none, hnone, Option.toList_some, List.length_singleton]
    show _ ≤ _ + (field (toString p.loc)).toList.length + 3
    omega

/-- The text of the relation of operations. -/
def opText (l : List TacOp) : String := Text.Tsv.file (l.map fun op => op.opRow.fields)

theorem toList_opText_append (l l' : List TacOp) :
    (opText (l ++ l')).toList = (opText l).toList ++ (opText l').toList := by
  simp only [opText, Text.Tsv.file, List.map_append, String.toList_join, List.flatMap_append]

theorem toList_opText_cons (op : TacOp) (l : List TacOp) :
    (opText (op :: l)).toList = (Text.Tsv.row op.opRow.fields).toList ++ (opText l).toList := by
  simp only [opText, Text.Tsv.file, List.map_cons, String.toList_join, List.flatMap_cons]

theorem length_opText (l : List TacOp) :
    (opText (l.map (·.unrecorded))).toList.length + (l.flatMap (·.place.toList)).length ≤
      (opText l).toList.length := by
  induction l with
  | nil => exact Nat.le_refl _
  | cons op l ih =>
    have hrow := op.length_row
    simp only [List.map_cons, List.flatMap_cons, toList_opText_cons, List.length_append]
    omega

namespace Graph

variable {g g' : Graph} {ops : List TraceOp} {n : Nat} {b copy : Block}

theorem ops_unrecorded (horder : g.order = List.range g.blocks.length)
    (hb : g.block? n = some b) :
    ∃ before after, g.ops = before ++ b.ops ++ after ∧
      (g.unrecorded n).ops = before ++ b.ops.map (·.unrecorded) ++ after := by
  obtain ⟨hn, hget⟩ := List.getElem?_eq_some_iff.mp hb
  have hops : ∀ g : Graph, g.ops = (g.members.map (·.2)).flatMap (·.ops) := fun g => by
    rw [Graph.ops, List.flatMap_map]
  have hblocks : g.blocks = g.blocks.take n ++ b :: g.blocks.drop (n + 1) := by
    rw [← hget, List.getElem_cons_drop, List.take_append_drop]
  refine ⟨(g.blocks.take n).flatMap (·.ops), (g.blocks.drop (n + 1)).flatMap (·.ops), ?_, ?_⟩
  · rw [hops, map_snd_members horder]
    conv => lhs; rw [hblocks]
    simp
  · rw [hops, map_snd_members_unrecorded horder hb, List.set_eq_take_append_cons_drop, if_pos hn]
    simp

/-- The files of the graph exist also if nothing is recorded of the operations of a block. -/
theorem factFiles_unrecorded (h : ofTrace ops = .ok g) (hb : g.block? n = some b) :
    ∃ flow, (g.unrecorded n).factFiles [] = .ok ((g.unrecorded n).relationFiles [] flow) := by
  obtain ⟨c, ts, hconvert, hmade⟩ := madeFrom_of_ofTrace h
  have hmembers := map_snd_members_unrecorded hmade.order hb
  have hblocks : ∀ b' ∈ (g.unrecorded n).members.map (·.2), b'.gap = false ∧
      b'.entryStack.items = [] ∧ ∀ op ∈ b'.ops, op.Within g.machine.store.size := by
    rw [hmembers]
    intro b' hb'
    rcases List.mem_or_eq_of_mem_set hb' with hb' | rfl
    · have hcopiable := copiable_of_ofTrace h hb'
      exact ⟨hcopiable.gap, hcopiable.entryStack, hcopiable.within⟩
    · have hcopiable := copiable_of_ofTrace h (List.mem_of_getElem? hb)
      refine ⟨hcopiable.gap, hcopiable.entryStack, fun op hop => ?_⟩
      obtain ⟨op₀, hop₀, rfl⟩ := List.mem_map.mp hop
      have hwithin := hcopiable.within op₀ hop₀
      exact ⟨hwithin.args, op₀.target?_unrecorded ▸ hwithin.target⟩
  have hgap : (g.unrecorded n).members.any (·.2.gap) = false := by
    rw [List.any_eq_false]
    intro m hm
    rw [(hblocks m.2 (List.mem_map_of_mem hm)).1]
    exact Bool.false_ne_true
  obtain ⟨flow, hflow, -⟩ := flowFactsFrom_eq (g := g.unrecorded n) (readable_of_ofTrace h).numbered
    _ none (fun b' hb' => (hblocks b' hb').2.1) (fun b' hb' => (hblocks b' hb').2.2)
  refine ⟨flow, factFiles_of_relations ?_ (by simp) hflow⟩
  rw [opFiles, hgap]
  rfl

/-- **Records show**: a graph has other files if nothing is recorded of the operations of a
block. -/
theorem factFiles_unrecorded_ne (h : ofTrace ops = .ok g) (hb : g.block? n = some b) {op : TacOp}
    (hop : op ∈ b.ops) (hplace : op.place ≠ none) :
    (g.unrecorded n).factFiles [] ≠ g.factFiles [] := by
  obtain ⟨c, ts, hconvert, hmade⟩ := madeFrom_of_ofTrace h
  have hreadable := readable_of_ofTrace h
  obtain ⟨flow, hflow, -⟩ := hreadable.flowFacts_eq
  obtain ⟨flow', hfiles'⟩ := factFiles_unrecorded h hb
  rw [hreadable.factFiles_eq (by simp) hflow, hfiles']
  intro hsame
  -- the texts of the first file are compared by their lengths
  have htext : opText (g.unrecorded n).ops = opText g.ops := by
    have hfirst := (Prod.mk.inj (List.cons.inj (Except.ok.inj hsame)).1).2
    rw [opRows, opRows, List.map_map, List.map_map] at hfirst
    exact hfirst
  obtain ⟨before, after, hops, hops'⟩ := ops_unrecorded hmade.order hb
  have hlength := congrArg (fun s : String => s.toList.length) htext
  simp only [hops, hops', toList_opText_append, List.length_append] at hlength
  have hshorter := length_opText b.ops
  have hpos : 0 < (b.ops.flatMap (·.place.toList)).length := by
    obtain ⟨p, hp⟩ := Option.ne_none_iff_exists'.mp hplace
    exact List.length_pos_of_mem (List.mem_flatMap.mpr ⟨op, hop, by rw [hp]; exact List.mem_cons_self⟩)
  omega

end Graph

/-- **What a copy of a block keeps, and what it does not.**  In the graph of a trace, any block can
be copied once it is known where blocks fall through to.  The copy stands for the same operations of
the trace, and its own operations say the same as those of the block, one by one: opcode, program
counter, names and values of operands and result.  But what was recorded of them is gone, so that
with the copy in place of the block the files are those of a graph without these records.  So
records and files stay the same exactly if there were no records, which is when the operations that
the block stands for only rearrange the stack. -/
theorem copy_keeps_all_but_records {ops : List TraceOp} {g : Graph} (h : Graph.ofTrace ops = .ok g)
    (next : Nat → Option Nat) {n : Nat} {b : Block} (hb : g.block? n = some b) :
    ∃ g' copy, (g.withFallthrough next).copyBlock n = .ok (g', g.blocks.length) ∧
      g'.block? g.blocks.length = some copy ∧ copy.source = b.source ∧
      List.Forall₂ (fun op op' => TacOp.Alike g.machine.store op g'.machine.store op' ∧
        op'.Unrecorded) b.ops copy.ops ∧
      (∀ opcodes, (g'.substitute n g.blocks.length).factFiles opcodes =
        (g.unrecorded n).factFiles opcodes) ∧
      (List.Forall₂ TacOp.SameRecord b.ops copy.ops ↔ Rearrange b.source) ∧
      ((∀ opcodes, (g'.substitute n g.blocks.length).factFiles opcodes = g.factFiles opcodes) ↔
        Rearrange b.source) := by
  obtain ⟨g', copy, hmade, hcopied⟩ := Graph.exists_copied_of_ofTrace h next hb
  have hfiles := Graph.factFiles_substitute h hb hcopied
  have hblock : g'.block? g.blocks.length = some copy := by
    rw [Graph.block?, hcopied.blocks, List.getElem?_append_right (by simp [Graph.withFallthrough])]
    simp [Graph.withFallthrough]
  refine ⟨g', copy, hmade, hblock, hcopied.source, hcopied.ops, hfiles, ?_⟩
  rcases Graph.ops_of_ofTrace h (List.mem_of_getElem? hb) with
    ⟨hrearrange, hnone⟩ | ⟨hacts, op, hop, hplace⟩
  · simp only [hrearrange, iff_true]
    constructor
    · refine ((List.forall₂_and_left _ _).mpr ⟨hnone, hcopied.ops⟩).imp fun op op' hop => ?_
      have hunrecorded := op.unrecorded_unrecorded
      rw [hop.1] at hunrecorded
      exact hunrecorded.sameRecord hop.2.2
    · intro opcodes
      rw [hfiles, Graph.unrecorded_eq_self hb hnone]
  · simp only [hacts, iff_false]
    refine ⟨fun hsame => hplace ?_, fun hsame => ?_⟩
    · have hnone : List.Forall₂ (fun op op' : TacOp => op.place = none ∧ True) b.ops copy.ops :=
        hsame.mp (fun _ _ hrecord hop => ⟨hrecord.place.symm.trans hop.2.place, trivial⟩) hcopied.ops
      exact ((List.forall₂_and_left _ _).mp hnone).1 op hop
    · exact Graph.factFiles_unrecorded_ne h hb hop hplace ((hfiles []).symm.trans (hsame []))

/-- A frame that only drops an item, and a frame that pushes a word and stops. -/
def dropThenPush : List TraceOp :=
  [{ pc := 0, opcode := .pop }, { pc := 0, opcode := .push 1, value := some 5 },
    { pc := 2, opcode := .stop }]

theorem kept_dropThenPush : ∃ g, Graph.ofTrace dropThenPush = .ok g ∧
    (∃ b g', g.block? 0 = some b ∧ (g.withFallthrough some).copyBlock 0 = .ok (g', 2) ∧
      ∀ opcodes, (g'.substitute 0 2).factFiles opcodes = g.factFiles opcodes) ∧
    ∃ b g', g.block? 1 = some b ∧ (g.withFallthrough some).copyBlock 1 = .ok (g', 2) ∧
      (∀ opcodes, (g'.substitute 1 2).factFiles opcodes = (g.unrecorded 1).factFiles opcodes) ∧
      ¬ ∀ opcodes, (g'.substitute 1 2).factFiles opcodes = g.factFiles opcodes := by
  have hread : (Graph.ofTrace dropThenPush).toOption.map
      (fun g => g.blocks.map fun b => b.source.map (·.opcode)) =
      some [[.pop], [.push 1, .stop]] := by decide +kernel
  cases hg : Graph.ofTrace dropThenPush with
  | error e => simp [hg, Except.toOption] at hread
  | ok g =>
    rw [hg, Except.toOption, Option.map_some, Option.some.injEq] at hread
    have hlength : g.blocks.length = 2 := by simpa using congrArg List.length hread
    have hsource : ∀ n, (g.block? n).map (fun b => b.source.map (·.opcode)) =
        [[.pop], [.push 1, .stop]][n]? := by
      intro n
      rw [← hread, List.getElem?_map]
      rfl
    have hdecide : ∀ b : Block, Rearrange b.source ↔ ∀ op ∈ b.source.map (·.opcode), ¬ Acts op := by
      intro b
      simp [Rearrange]
    refine ⟨g, rfl, ?_, ?_⟩
    · obtain ⟨b, hb, hops⟩ := Option.map_eq_some_iff.mp (hsource 0)
      obtain ⟨g', copy, hmade, -, -, -, -, -, hfiles⟩ := copy_keeps_all_but_records hg some hb
      rw [hlength] at hmade hfiles
      refine ⟨b, g', hb, hmade, hfiles.mpr ?_⟩
      rw [hdecide, hops]
      decide
    · obtain ⟨b, hb, hops⟩ := Option.map_eq_some_iff.mp (hsource 1)
      obtain ⟨g', copy, hmade, -, -, -, hunrecorded, -, hfiles⟩ :=
        copy_keeps_all_but_records hg some hb
      rw [hlength] at hmade hunrecorded hfiles
      refine ⟨b, g', hb, hmade, hunrecorded, fun hsame => ?_⟩
      have hrearrange := hfiles.mp hsame
      rw [hdecide, hops] at hrearrange
      exact absurd hrearrange (by decide)

/-- A word is pushed, and the transaction stops. -/
def constantAndStop : List TraceOp :=
  [{ pc := 0, opcode := .push 1, value := some 5 }, { pc := 2, opcode := .stop }]

/-- The copy of the only block does not know the positions of its operations, and neither do the
files that are written with the copy in place of the block. -/
theorem lost_constantAndStop : ∃ g b g' copy, Graph.ofTrace constantAndStop = .ok g ∧
    g.block? 0 = some b ∧ (g.withFallthrough fun _ => none).copyBlock 0 = .ok (g', 1) ∧
    g'.block? 1 = some copy ∧ b.ops.map (·.loc?) = [some 0, some 1] ∧
    copy.ops.map (·.loc?) = [none, none] ∧
    (g'.substitute 0 1).factFiles [] ≠ g.factFiles [] := by
  have hread : ((Graph.ofTrace constantAndStop).toOption.bind fun g =>
      ((g.withFallthrough fun _ => none).copyBlock 0).toOption.map fun r =>
        ((g.block? 0).map fun b => b.ops.map (·.loc?),
          r.2, (r.1.block? 1).map fun b => b.ops.map (·.loc?),
          decide ((r.1.substitute 0 1).factFiles [] = g.factFiles []))) =
      some (some [some 0, some 1], 1, some [none, none], false) := by decide +kernel
  cases hg : Graph.ofTrace constantAndStop with
  | error e => simp [hg, Except.toOption] at hread
  | ok g =>
    rw [hg, Except.toOption, Option.bind_some] at hread
    cases hmade : (g.withFallthrough fun _ => none).copyBlock 0 with
    | error e => simp [hmade, Except.toOption] at hread
    | ok r =>
      simp only [hmade, Except.toOption, Option.map_some, Option.some.injEq, Prod.mk.injEq] at hread
      obtain ⟨hb, hnew, hc, hfiles⟩ := hread
      obtain ⟨b, hb, hlocs⟩ := Option.map_eq_some_iff.mp hb
      obtain ⟨copy, hc, hlocs'⟩ := Option.map_eq_some_iff.mp hc
      exact ⟨g, b, r.1, copy, rfl, hb, by rw [hmade, ← hnew], hc, hlocs, hlocs',
        of_decide_eq_false hfiles⟩

end TraceLift
