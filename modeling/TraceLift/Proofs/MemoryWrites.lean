/-
# What a store of one byte writes

A store to memory replaces a stretch of bytes by the bytes of a number.  Three things have to fit
together: the offset and the number are read off the TEXTS of the operands, the number is written
with a given width, and the width need not be the length of the stretch.

* **Operands.**  The text of a constant is read back as its value (`readOperand_of_const`).
* **Bytes.**  Where there is room for the width (`Room.Holds`), a number that fits it is written as
  that many bytes, most significant first, and one that does not is refused (`encode_natCast`).
* **Stretches.**  What lies before the stretch stays, and what lies behind it is moved by the
  difference of the lengths (`replace_natCast`).

For `MSTORE8` the stretch is one byte and the width is EIGHT BYTES, where it should be one.  So
the byte asked for ends up seven places too far, everything behind it is moved by seven places,
and a value that does not fit eight bytes stops the pass, where only its last byte counts
(`byte_store_inserts`).  In no case is one byte written.
-/
import Mathlib.Algebra.Order.Ring.Nat
import TraceLift.Proofs.Numerals
import TraceLift.Tac.Fold

namespace TraceLift

/-! ## 1. Operands -/

/-- The operand is a variable that has exactly one value, and is shown by it. -/
def Operand.IsConst (store : Store) (a : Operand) (w : Int) : Prop :=
  ∃ v, a.lookup store = .ok v ∧ v.kind = .plain ∧ v.values.const? = some w

/-- A word written in the code is a constant. -/
theorem Operand.isConst_literal {n : Nat} (h : (n : Int) < Word.card) (store : Store) :
    (literal n).IsConst store n := by
  have hword : Word.reduce n = n := Int.emod_eq_of_lt (by omega) h
  refine ⟨_, rfl, rfl, ?_⟩
  simp only [Variable.ofValues, Variable.words, List.map_cons, List.map_nil, hword]
  rfl

/-- The text of a constant is the value in hexadecimal. -/
theorem Variable.render_of_const {v : Variable} {w : Int} (hkind : v.kind = .plain)
    (hconst : v.values.const? = some w) : v.render = Text.hex w := by
  unfold ValueSet.const? at hconst
  split at hconst
  · rename_i s hvalues
    split at hconst
    · rename_i x hlist
      simp [render, hkind, hvalues, hlist, Option.some.inj hconst]
    · exact absurd hconst (by simp)
  · exact absurd hconst (by simp)

/-- **A constant operand is read as its value.** -/
theorem Machine.readOperand_of_const {store : Store} {a : Operand} {n : Nat}
    (h : a.IsConst store n) : readOperand store a = .ok (n : Int) := by
  obtain ⟨v, hlookup, hkind, hconst⟩ := h
  have hrender : a.render store = .ok ("0x" ++ Text.hexDigits n) := by
    simp only [Operand.render, hlookup]
    rw [Variable.render_of_const hkind hconst, Text.hex, if_neg (by omega), Int.natAbs_natCast]
  have hmark : ("0x" ++ Text.hexDigits n).startsWith "0x" = true := by
    rw [String.startsWith_string_iff, String.toList_append]
    exact List.prefix_append _ _
  have hdigits : String.ofList (("0x" ++ Text.hexDigits n).toList.drop 2) = Text.hexDigits n := by
    rw [String.toList_append]
    exact String.ofList_toList
  simp only [readOperand, hrender, hmark, if_true, hdigits, Text.readHex?_hexDigits]

/-! ## 2. Bytes -/

/-- So many bytes can be counted, and there is room for them. -/
def Room.Holds (room : Room) (width : Nat) : Prop :=
  width + Memory.overhead ≤ Word.maxCount ∧ width ≤ room.size

instance (room : Room) (width : Nat) : Decidable (room.Holds width) :=
  inferInstanceAs (Decidable (_ ∧ _))

/-- There is always room for as many bytes as a word has bits. -/
theorem Room.holds_of_le {width : Nat} (h : width ≤ 256) (room : Room) : room.Holds width := by
  have hword := room.word_le
  have hcount : Word.maxCount = 9223372036854775807 := rfl
  have hoverhead : Memory.overhead = 33 := rfl
  exact ⟨by omega, by omega⟩

namespace Memory

theorem length_bigEndian (n width : Nat) : (bigEndian n width).length = width := by
  induction width generalizing n with
  | zero => rfl
  | succ width ih => simp [bigEndian, ih]

/-- Byte `k` of a number, counted from the most significant of `width` bytes. -/
theorem getElem?_bigEndian {n width k : Nat} (hk : k < width) :
    (bigEndian n width)[k]? = some (UInt8.ofNat (n / 256 ^ (width - 1 - k))) := by
  induction width generalizing n with
  | zero => omega
  | succ width ih =>
    rw [bigEndian]
    by_cases hlast : k = width
    · subst hlast
      rw [List.getElem?_append_right (by rw [length_bigEndian]), length_bigEndian]
      simp
    · have hlt : k < width := by omega
      rw [List.getElem?_append_left (by rwa [length_bigEndian]), ih hlt, Nat.div_div_eq_div_mul,
        ← Nat.pow_succ', show (width - 1 - k).succ = width + 1 - 1 - k by omega]

theorem bigEndian_zero (width : Nat) : bigEndian 0 width = List.replicate width 0 := by
  induction width with
  | zero => rfl
  | succ width ih =>
    rw [bigEndian, Nat.zero_div, ih, List.replicate_succ']
    rfl

/-- The bytes of a number that fits a width, written wider, are preceded by zeros. -/
theorem bigEndian_add {n width : Nat} (h : n < 256 ^ width) (extra : Nat) :
    bigEndian n (width + extra) = List.replicate extra 0 ++ bigEndian n width := by
  induction width generalizing n with
  | zero =>
    obtain rfl : n = 0 := by omega
    rw [Nat.zero_add, bigEndian_zero]
    exact (List.append_nil _).symm
  | succ width ih =>
    have hrest : n / 256 < 256 ^ width := by
      rw [Nat.div_lt_iff_lt_mul (by decide), ← Nat.pow_succ]
      exact h
    rw [show width + 1 + extra = width + extra + 1 by omega, bigEndian, ih hrest, bigEndian,
      List.append_assoc]

/-- **The number of bytes that a number needs.** -/
theorem byteLength_le_iff {n width : Nat} : byteLength n ≤ width ↔ n < 256 ^ width := by
  have hpow : 256 ^ width = 2 ^ (8 * width) := by rw [Nat.pow_mul]
  unfold byteLength
  split
  · rename_i hzero
    subst hzero
    simp
  · rename_i hpos
    rw [hpow, ← Nat.log2_lt hpos]
    omega

/-- Where there is room for the width, the number decides. -/
theorem encode_of_holds {room : Room} {width : Nat} (h : room.Holds width) (value : Int) :
    encode value width room =
      if value < 0 then .error .doesNotFit
      else if (width : Int) < byteLength value.natAbs then .error .doesNotFit
      else .ok (List.replicate (width - byteLength value.natAbs) 0 ++
        bigEndian value.natAbs (byteLength value.natAbs)) := by
  obtain ⟨hcounted, hroom⟩ := h
  have hcount : Word.maxCount = 9223372036854775807 := rfl
  have hoverhead : overhead = 33 := rfl
  unfold encode
  rw [if_neg (by omega), if_neg (by omega), if_neg (by omega), if_neg (by omega)]
  simp only [length_bigEndian, Int.toNat_natCast]

/-- **Writing a number with a width**: its bytes if it fits, and a refusal otherwise. -/
theorem encode_natCast {room : Room} {width : Nat} (h : room.Holds width) (n : Nat) :
    encode n width room =
      if n < 256 ^ width then .ok (bigEndian n width) else .error .doesNotFit := by
  rw [encode_of_holds h, if_neg (by omega), Int.natAbs_natCast]
  by_cases hfits : n < 256 ^ width
  · have hlength := byteLength_le_iff.mpr hfits
    have hbytes := bigEndian_add (byteLength_le_iff.mp (Nat.le_refl (byteLength n)))
      (width - byteLength n)
    rw [show byteLength n + (width - byteLength n) = width by omega] at hbytes
    rw [if_neg (by omega), if_pos hfits, hbytes]
  · have hlength := mt byteLength_le_iff.mp hfits
    rw [if_pos (by omega), if_neg hfits]

/-! ## 3. Stretches -/

/-- **Replacing a stretch**: what lies before it, the new bytes, what lies behind it. -/
theorem replace_natCast (memory : Memory) (offset span : Nat) (bytes : List UInt8) :
    memory.replace offset (offset + span : Nat) bytes =
      memory.take offset ++ bytes ++ memory.drop (offset + span) := by
  have hclamp : ∀ n : Nat, clamp memory.length n = min n memory.length := by
    intro n
    rw [clamp, if_neg (by omega), Int.toNat_natCast]
  have hstop : max (min offset memory.length) (min (offset + span) memory.length) =
      min (offset + span) memory.length := by omega
  have htake : memory.take (min offset memory.length) = memory.take offset := by
    rw [List.take_eq_take_iff]
    omega
  have hdrop : memory.drop (min (offset + span) memory.length) = memory.drop (offset + span) := by
    rcases Nat.le_total (offset + span) memory.length with hle | hle
    · rw [Nat.min_eq_left hle]
    · rw [Nat.min_eq_right hle, List.drop_length, List.drop_eq_nil_of_le hle]
  simp only [replace, hclamp, hstop, htake, hdrop]

/-- A write replaces a stretch by the bytes of its number. -/
theorem write_eq (memory : Memory) (offset span : Nat) (width value : Int) (room : Room) :
    memory.write offset span width value room = (encode value width room).map fun bytes =>
      memory.take offset ++ bytes ++ memory.drop (offset + span) := by
  unfold write
  cases encode value width room with
  | error e => rfl
  | ok bytes => exact congrArg Except.ok (replace_natCast memory offset span bytes)

end Memory

/-! ## 4. Stores of one byte -/

/-- The stores, each with the number of bytes it replaces and the number it writes. -/
def Opcode.stores : List (Opcode × Int × Int) := [(mstore, 32, 32), (mstore8, 1, 8)]

namespace Machine

variable {m : Machine} {op : TacOp} {a b : Operand} {offset value : Nat}

/-- A store with constant operands writes the second at the first, and changes nothing else. -/
theorem storeBytes_of_const (hoffset : op.args[0]? = some a) (hvalue : op.args[1]? = some b)
    (ha : a.IsConst m.store offset) (hb : b.IsConst m.store value) (span width : Int)
    (room : Room) : m.storeBytes op span width room =
      (m.memory.write offset span width value room).map fun memory => { m with memory } := by
  have harg₀ : op.arg 0 = .ok a := by rw [TacOp.arg, hoffset]
  have harg₁ : op.arg 1 = .ok b := by rw [TacOp.arg, hvalue]
  simp only [storeBytes, harg₀, harg₁, bind, Except.bind, readOperand_of_const ha,
    readOperand_of_const hb]
  cases m.memory.write offset span width value room <;> rfl

/-- In a pass each store comes to its own case. -/
theorem step_store {span width : Int} (hop : (op.opcode, span, width) ∈ Opcode.stores)
    (useSets : Bool) (room : Room) :
    m.step useSets op room = m.storeBytes op span width room := by
  have hcases : ∀ c ∈ Opcode.stores, c.1.same .const = false ∧
      (c.1.same .calldatacopy || c.1.same .codecopy || c.1.same .returndatacopy) = false ∧
      c.1.same .extcodecopy = false ∧ (c.1.readsEnvironment || c.1.readsWorld) = false ∧
      (c.1.same .mload || c.1.same .sload) = false ∧ c.1.same .sstore = false ∧
      ((c.1.same .mstore = true ∧ c.2 = (32, 32)) ∨
        (c.1.same .mstore = false ∧ c.1.same .mstore8 = true ∧ c.2 = (1, 8))) := by
    decide +kernel
  obtain ⟨h₁, h₂, h₃, h₄, h₅, h₆, ⟨h₇, hwidths⟩ | ⟨h₇, h₈, hwidths⟩⟩ := hcases _ hop
  · obtain ⟨rfl, rfl⟩ := Prod.mk.inj hwidths
    simp only [step, h₁, h₂, h₃, h₄, h₅, h₆, h₇, if_true, if_false, Bool.false_eq_true]
  · obtain ⟨rfl, rfl⟩ := Prod.mk.inj hwidths
    simp only [step, h₁, h₂, h₃, h₄, h₅, h₆, h₇, h₈, if_true, if_false, Bool.false_eq_true]

/-- The pass over a store of one byte with constant operands. -/
theorem run_mstore8 (hop : op.opcode = .mstore8) (hargs : op.args = [a, b])
    (ha : a.IsConst m.store offset) (hb : b.IsConst m.store value) (useSets : Bool)
    (room : Room) : m.run useSets [op] room =
      if value < 256 ^ 8 then
        ({ m with memory := m.memory.take offset ++ Memory.bigEndian value 8 ++
            m.memory.drop (offset + 1) }, none)
      else (m, some .doesNotFit) := by
  have hop : (op.opcode, (1 : Int), (8 : Int)) ∈ Opcode.stores := by
    rw [hop]
    exact .tail _ (.head _)
  have hstep : m.step useSets op room = (m.memory.write offset (1 : Nat) (8 : Nat) value room).map
      fun memory => { m with memory } := by
    rw [step_store hop]
    exact storeBytes_of_const (by rw [hargs]; rfl) (by rw [hargs]; rfl) ha hb 1 8 room
  rw [Memory.write_eq, Memory.encode_natCast (room.holds_of_le (by decide))] at hstep
  by_cases hfits : value < 256 ^ 8
  · rw [if_pos hfits] at hstep ⊢
    simp only [run, hstep, Except.map]
  · rw [if_neg hfits] at hstep ⊢
    simp only [run, hstep, Except.map]

end Machine

/-- One byte was written: it is the last byte of the value, every other byte is where and what it
was, and the memory has grown only if the byte lies at its end. -/
structure OneByteWritten (before : Memory) (offset value : Nat) (after : Memory) : Prop where
  byte : after[offset]? = some (UInt8.ofNat value)
  others : ∀ i < before.length, i ≠ offset → after[i]? = before[i]?
  length : after.length = max before.length (offset + 1)

/-- Eight bytes were put in the place of one: those before it stay, those behind it are seven
places further. -/
structure EightBytesInserted (before : Memory) (offset value : Nat) (after : Memory) : Prop where
  front : ∀ i < offset, after[i]? = before[i]?
  bytes : ∀ k < 8, after[offset + k]? = some (UInt8.ofNat (value / 256 ^ (7 - k)))
  moved : ∀ i, offset < i → after[i + 7]? = before[i]?
  length : after.length = max before.length (offset + 1) + 7

theorem eightBytesInserted {before : Memory} {offset : Nat} (h : offset ≤ before.length)
    (value : Nat) : EightBytesInserted before offset value
      (before.take offset ++ Memory.bigEndian value 8 ++ before.drop (offset + 1)) := by
  have hfront : (before.take offset).length = offset := by
    rw [List.length_take]
    omega
  have hmiddle : (before.take offset ++ Memory.bigEndian value 8).length = offset + 8 := by
    rw [List.length_append, hfront, Memory.length_bigEndian]
  refine ⟨fun i hi => ?_, fun k hk => ?_, fun i hi => ?_, ?_⟩
  · rw [List.append_assoc, List.getElem?_append_left (by omega), List.getElem?_take_of_lt hi]
  · rw [List.getElem?_append_left (by omega), List.getElem?_append_right (by omega), hfront,
      Nat.add_sub_cancel_left, Memory.getElem?_bigEndian hk]
  · rw [List.getElem?_append_right (by omega), hmiddle, List.getElem?_drop]
    congr 1
    omega
  · rw [List.length_append, hmiddle, List.length_drop]
    omega

/-- **A store of one byte writes eight.**  For every memory, every offset up to its end, every value
and any room: if the value fits eight bytes, the pass puts its eight bytes, most significant first,
in the place of the byte at the offset, and changes nothing else; if it does not fit, the pass stops
there and leaves everything as it was.  In no case is one byte written. -/
theorem byte_store_inserts {m : Machine} {op : TacOp} {a b : Operand} {offset value : Nat}
    (hop : op.opcode = .mstore8) (hargs : op.args = [a, b]) (ha : a.IsConst m.store offset)
    (hb : b.IsConst m.store value) (hoffset : offset ≤ m.memory.length) (useSets : Bool)
    (room : Room) :
    (value < 256 ^ 8 → ∃ after, m.run useSets [op] room = ({ m with memory := after }, none) ∧
      EightBytesInserted m.memory offset value after) ∧
    (256 ^ 8 ≤ value → m.run useSets [op] room = (m, some .doesNotFit)) ∧
    ¬ ∃ m', m.run useSets [op] room = (m', none) ∧
      OneByteWritten m.memory offset value m'.memory := by
  have hrun := Machine.run_mstore8 hop hargs ha hb useSets room
  have hinserted := eightBytesInserted hoffset value
  refine ⟨fun hfits => ?_, fun hlarge => ?_, ?_⟩
  · rw [if_pos hfits] at hrun
    exact ⟨_, hrun, hinserted⟩
  · rw [if_neg (Nat.not_lt.mpr hlarge)] at hrun
    exact hrun
  · rintro ⟨m', hdone, hwritten⟩
    rw [hrun] at hdone
    split at hdone
    · obtain rfl := congrArg Prod.fst hdone
      -- the memory is seven bytes too long
      have hlength := hwritten.length
      rw [hinserted.length] at hlength
      omega
    · simp at hdone

/-- A machine whose memory holds two bytes. -/
def twoBytes : Machine := { memory := [0xaa, 0xbb] }

/-- The store of a byte over the second one. -/
def storeSecond (value : Nat) : TacOp :=
  { opcode := .mstore8, args := [.literal 1, .literal value], pc := 0 }

theorem storeSecond_twoBytes :
    (Operand.literal 1).IsConst twoBytes.store 1 ∧
      (Operand.literal 0x12).IsConst twoBytes.store 0x12 ∧
      ∃ after, twoBytes.run false [storeSecond 0x12] = ({ twoBytes with memory := after }, none) ∧
        after[8]? = some 0x12 ∧ after.length = 9 := by
  have hoffset := Operand.isConst_literal (n := 1) (by decide) twoBytes.store
  have hvalue := Operand.isConst_literal (n := 0x12) (by decide) twoBytes.store
  have hop : (storeSecond 0x12).opcode = .mstore8 := rfl
  obtain ⟨hfits, -⟩ := byte_store_inserts hop rfl hoffset hvalue (by decide) false .usual
  obtain ⟨after, hrun, hinserted⟩ := hfits (by decide)
  exact ⟨hoffset, hvalue, after, hrun, hinserted.bytes 7 (by decide), hinserted.length⟩

/-- The second byte should become `0x12`, and it becomes zero; a value of nine bytes stops the
pass. -/
theorem not_oneByteWritten_twoBytes :
    (twoBytes.run false [storeSecond 0x12]).1.memory = [0xaa, 0, 0, 0, 0, 0, 0, 0, 0x12] ∧
      (twoBytes.run false [storeSecond (256 ^ 8)]).2 = some .doesNotFit ∧
      ¬ ∀ (m : Machine) (op : TacOp) (a b : Operand) (offset value : Nat) (useSets : Bool),
        op.opcode = .mstore8 → op.args = [a, b] → a.IsConst m.store offset →
        b.IsConst m.store value → offset ≤ m.memory.length → (value : Int) < Word.card →
        ∃ m', m.run useSets [op] = (m', none) ∧
          OneByteWritten m.memory offset value m'.memory := by
  have hoffset := Operand.isConst_literal (n := 1) (by decide) twoBytes.store
  have hvalue := Operand.isConst_literal (n := 0x12) (by decide) twoBytes.store
  have hlarge := Operand.isConst_literal (n := 256 ^ 8) (by decide) twoBytes.store
  have hop : ∀ value, (storeSecond value).opcode = .mstore8 := fun _ => rfl
  have hrun := Machine.run_mstore8 (hop 0x12) rfl hoffset hvalue false .usual
  have hstops := Machine.run_mstore8 (hop (256 ^ 8)) rfl hoffset hlarge false .usual
  rw [if_pos (by decide)] at hrun
  rw [if_neg (by decide)] at hstops
  refine ⟨by rw [hrun]; rfl, by rw [hstops], fun h => ?_⟩
  obtain ⟨m', hdone, hwritten⟩ := h twoBytes (storeSecond 0x12) _ _ 1 0x12 false rfl rfl hoffset
    hvalue (by decide) (by decide)
  rw [hrun] at hdone
  obtain rfl := congrArg Prod.fst hdone
  exact absurd hwritten.length (by decide)

end TraceLift
