/-
# Sign extension, and the bytes of a word

Two functions of `Word` do not do what the machine does, and this module says exactly what they do
and when that is the same.

**Sign extension.**  The machine takes the low `b + 1` bytes of a word and copies their highest bit
UPWARD into all bits above.  `Word.signExtend` has the mask the other way round: it copies that bit
DOWNWARD into all bits below and keeps the bits above (`levelled`).  The two words have their parts
exchanged, so they are equal only if all bits of the word are (`levelled_eq_signExtended_iff`).
The mask is read from a text with a digit for each bit, which can be too long to be held
(`MaskHeld`); how long it may be depends on the room that there is, and the statements are for any
room.

**Bytes.**  The machine counts the bytes of a word from zero at the most significant one.
`Word.byteAt` shifts by one byte too many, so it gives the byte BEFORE the one asked for, zero for
the first, and fails as soon as the shift would be negative.
-/
import TraceLift.Proofs.MachineWords

namespace TraceLift

/-! ## 1. The machine -/

namespace MachineWord

/-- The low `b + 1` bytes of a word with their highest bit copied into all bits above.  From 31 on
there are none above. -/
def signExtended (b v : MachineWord) : MachineWord :=
  if b.toNat ≤ 30 then (v.setWidth (8 * (b.toNat + 1))).signExtend 256 else v

/-- Byte `i` of a word, counted from the most significant; zero where there is none. -/
def byteFromTop (v : MachineWord) (i : Nat) : Nat :=
  if i < 32 then (v.extractLsb' (8 * (31 - i)) 8).toNat else 0

theorem getLsbD_signExtended (b v : MachineWord) {i : Nat} (hi : i < 256) :
    (signExtended b v).getLsbD i =
      if i < 8 * (b.toNat + 1) then v.getLsbD i else v.getLsbD (8 * (b.toNat + 1) - 1) := by
  unfold signExtended
  split
  · rw [BitVec.getLsbD_signExtend, BitVec.msb_setWidth]
    split <;> simp [*]
  · rw [if_pos (by omega)]

/-! ## 2. What is computed -/

/-- The bits from position `n` up. -/
def high (n : Nat) : MachineWord := BitVec.allOnes 256 <<< n

/-- A word with its low `n` bits all equal to the highest of them, and the bits above kept. -/
def levelled (n : Nat) (v : MachineWord) : MachineWord :=
  if v.getLsbD (n - 1) then v ||| ~~~high n else v &&& high n

/-- The byte before byte `i`; zero before the first. -/
def byteBefore (v : MachineWord) (i : Nat) : Nat := if i = 0 then 0 else v.byteFromTop (i - 1)

theorem getLsbD_high (n : Nat) {i : Nat} (hi : i < 256) : (high n).getLsbD i = !decide (i < n) := by
  rw [high, BitVec.getLsbD_shiftLeft, BitVec.getLsbD_allOnes]
  simp [hi, show i - n < 256 by omega]

theorem getLsbD_levelled (n : Nat) (v : MachineWord) {i : Nat} (hi : i < 256) :
    (levelled n v).getLsbD i = if i < n then v.getLsbD (n - 1) else v.getLsbD i := by
  unfold levelled
  split
  · rename_i hsign
    rw [BitVec.getLsbD_or, BitVec.getLsbD_not, getLsbD_high n hi, hsign]
    by_cases hlow : i < n <;> simp [hi, hlow]
  · rename_i hsign
    rw [BitVec.getLsbD_and, getLsbD_high n hi, Bool.eq_false_iff.mpr hsign]
    by_cases hlow : i < n <;> simp [hlow]

/-- **The parts are exchanged.** -/
theorem levelled_eq_signExtended_iff (b v : MachineWord) :
    levelled (8 * (b.toNat + 1)) v = signExtended b v ↔
      v = 0 ∨ v = BitVec.allOnes 256 ∧ b.toNat ≤ 31 := by
  constructor
  · intro heq
    -- below the sign bit one word has its copies and the other has the bits of `v`, above it the
    -- other way round
    have hbits : ∀ i < 256, v.getLsbD i = v.getLsbD (8 * (b.toNat + 1) - 1) := by
      intro i hi
      have hbit := congrArg (·.getLsbD i) heq
      simp only [getLsbD_levelled _ v hi, getLsbD_signExtended b v hi] at hbit
      split at hbit
      · exact hbit.symm
      · exact hbit
    cases hsign : v.getLsbD (8 * (b.toNat + 1) - 1) with
    | false =>
      refine .inl (BitVec.eq_of_getLsbD_eq fun i hi => ?_)
      rw [hbits i hi, hsign]
      simp
    | true =>
      refine .inr ⟨BitVec.eq_of_getLsbD_eq fun i hi => ?_, ?_⟩
      · rw [hbits i hi, hsign, BitVec.getLsbD_allOnes, decide_eq_true hi]
      · have := BitVec.lt_of_getLsbD hsign
        omega
  · intro h
    refine BitVec.eq_of_getLsbD_eq fun i hi => ?_
    rw [getLsbD_levelled _ v hi, getLsbD_signExtended b v hi]
    rcases h with rfl | ⟨rfl, hb⟩
    · simp
    · have hsign : 8 * (b.toNat + 1) - 1 < 256 := by omega
      simp only [BitVec.getLsbD_allOnes, hi, hsign]

end MachineWord

/-! ## 3. Sign extension -/

namespace Word

open MachineWord

theorem highMask_eq (n : Nat) : highMask n = (high n).toNat := by
  unfold highMask
  split
  · have hcast : (Int.pow 2 (256 - n) - 1 : Int) * Int.pow 2 n =
        ((2 ^ (256 - n) - 1) <<< n : Nat) := by
      rw [Nat.shiftLeft_eq, Int.natCast_mul, Int.natCast_sub Nat.one_le_two_pow, Int.natCast_pow,
        Int.natCast_pow]
      rfl
    rw [hcast, Int.natCast_inj]
    refine Nat.eq_of_testBit_eq fun i => ?_
    rw [Nat.testBit_shiftLeft, Nat.testBit_two_pow_sub_one, BitVec.testBit_toNat]
    by_cases hi : i < 256
    · rw [getLsbD_high n hi, Bool.eq_iff_iff]
      simp
      omega
    · rw [BitVec.getLsbD_of_ge _ _ (Nat.not_lt.mp hi), Bool.eq_false_iff]
      simp
      omega
  · rw [high, BitVec.shiftLeft_eq_zero (by omega)]
    rfl

/-- The complement of a mask has ones above the word, which reduction drops. -/
theorem ofInt_bitOr_bitNot (v m : MachineWord) :
    BitVec.ofInt 256 (bitOr v.toNat (bitNot m.toNat)) = v ||| ~~~m := by
  have hclear : bitOr v.toNat (bitNot m.toNat) = bitNot (m ^^^ (m &&& v)).toNat := by
    have hneg : bitNot m.toNat = Int.negSucc m.toNat := by
      rw [bitNot, Int.negSucc_eq]
      omega
    rw [hneg, BitVec.toNat_xor, BitVec.toNat_and, bitNot]
    change Int.negSucc _ = _
    rw [Int.negSucc_eq, bitClear]
    omega
  rw [hclear, ofInt_not]
  refine BitVec.eq_of_getLsbD_eq fun i hi => ?_
  simp only [BitVec.getLsbD_not, BitVec.getLsbD_xor, BitVec.getLsbD_and, BitVec.getLsbD_or, hi]
  cases m.getLsbD i <;> cases v.getLsbD i <;> rfl

theorem maxCount_eq : maxCount = 9223372036854775807 := rfl

/-- Of the two counts of digits only the number of zeros can be out of range. -/
theorem not_counted_iff {p : Int} (hp : 0 ≤ p) :
    (!isCount (256 - p) || !isCount p) = true ↔ maxCount < p := by
  have hcount := maxCount_eq
  simp only [isCount, Bool.or_eq_true, Bool.not_eq_true', Bool.and_eq_false_iff,
    decide_eq_false_iff_not]
  omega

/-- The digits of the mask for `b` can be counted, and there is room for them. -/
def MaskHeld (room : Room) (b : MachineWord) : Prop :=
  8 * (b.toNat + 1 : Int) ≤ maxCount ∧ 8 * (b.toNat + 1) ≤ room.size

instance (room : Room) (b : MachineWord) : Decidable (MaskHeld room b) :=
  inferInstanceAs (Decidable (_ ∧ _))

theorem signExtend_of_held {room : Room} {b : MachineWord} (h : MaskHeld room b)
    (v : MachineWord) : (signExtend b.toNat v.toNat room).map reduce =
      .ok ((levelled (8 * (b.toNat + 1)) v).toNat : Int) := by
  obtain ⟨hcount, hroom⟩ := h
  have hword := room.word_le
  have hposition : (8 * (b.toNat + 1 : Int)).toNat = 8 * (b.toNat + 1) := by omega
  unfold signExtend
  dsimp only
  rw [hposition, highMask_eq, bitAt_natCast, BitVec.testBit_toNat]
  rw [if_neg (by rw [not_counted_iff (by omega)]; omega), if_neg (by omega), if_neg (by omega),
    levelled]
  split
  · rw [Except.map, reduce_eq, ofInt_bitOr_bitNot]
  · rw [Except.map, reduce_eq, ofInt_and]

theorem signExtend_of_not_held {room : Room} {b : MachineWord} (h : ¬ MaskHeld room b) (v : Int) :
    signExtend b.toNat v room =
      .error (if maxCount < 8 * (b.toNat + 1 : Int) then .tooLong else .outOfMemory) := by
  unfold signExtend
  dsimp only
  by_cases hcount : maxCount < 8 * (b.toNat + 1 : Int)
  · rw [if_pos ((not_counted_iff (by omega)).mpr hcount), if_pos hcount]
  · have hroom : ¬ 8 * (b.toNat + 1) ≤ room.size := fun hroom => h ⟨Int.not_lt.mp hcount, hroom⟩
    rw [if_neg (by rw [not_counted_iff (by omega)]; omega), if_pos (by omega), if_neg hcount]

/-- **Sign extension.**  For all words `b` and `v` and whatever room there is: as long as its mask
can be held, the function spreads the sign bit of the low `b + 1` bytes downward, and otherwise it
fails.  It gives the machine's sign extension exactly if `v` is zero and the mask can be held, or
all bits of `v` are set and `b` is at most 31. -/
theorem signExtend_agrees_iff (room : Room) (b v : MachineWord) :
    (signExtend b.toNat v.toNat room).map reduce =
        (if MaskHeld room b then .ok ((levelled (8 * (b.toNat + 1)) v).toNat : Int)
        else .error (if maxCount < 8 * (b.toNat + 1 : Int) then .tooLong else .outOfMemory)) ∧
      ((signExtend b.toNat v.toNat room).map reduce = .ok ((signExtended b v).toNat : Int) ↔
        v = 0 ∧ MaskHeld room b ∨ v = BitVec.allOnes 256 ∧ b.toNat ≤ 31) := by
  by_cases hheld : MaskHeld room b
  · rw [signExtend_of_held hheld, if_pos hheld]
    refine ⟨rfl, ?_⟩
    rw [Except.ok.injEq, Int.natCast_inj, BitVec.toNat_inj, levelled_eq_signExtended_iff]
    simp [hheld]
  · rw [signExtend_of_not_held hheld, if_neg hheld]
    have hlarge : ¬ b.toNat ≤ 31 := by
      intro hb
      have hword := room.word_le
      have hcount := maxCount_eq
      exact hheld ⟨by omega, by omega⟩
    simp [Except.map, hheld, hlarge]

/-- The byte `0x80` is negative, so 248 ones belong above it; whatever room there is, the function
sets the bits below. -/
theorem not_signExtended_negativeByte :
    (∀ room, (signExtend 0 0x80 room).map reduce = .ok 0xff) ∧
      ((signExtended 0 0x80).toNat : Int) = card - 0x80 ∧
      ∀ room, ¬ ∀ b v : MachineWord,
        (signExtend b.toNat v.toNat room).map reduce = .ok ((signExtended b v).toNat : Int) := by
  have hgiven : ∀ room, (signExtend 0 0x80 room).map reduce = .ok 0xff := by
    intro room
    have hword := room.word_le
    have hheld : MaskHeld room 0 := ⟨by decide, Nat.le_trans (by decide) hword⟩
    have hlevelled : ((levelled 8 0x80).toNat : Int) = 0xff := by decide +kernel
    exact (signExtend_of_held hheld 0x80).trans (congrArg Except.ok hlevelled)
  refine ⟨hgiven, by decide +kernel, fun room h => ?_⟩
  have hbyte : (signExtend 0 0x80 room).map reduce = .ok ((signExtended 0 0x80).toNat : Int) :=
    h 0 0x80
  rw [hgiven, Except.ok.injEq] at hbyte
  exact absurd hbyte (by decide +kernel)

/-! ## 4. Bytes -/

theorem byteAt_eq (b v : MachineWord) :
    byteAt b.toNat v.toNat =
      if b.toNat ≤ 32 then .ok (byteBefore v b.toNat : Int) else .error .negativeShift := by
  unfold byteAt
  by_cases hb : b.toNat ≤ 32
  · rw [if_pos (by omega), if_pos hb]
    have hshift : ((32 - (b.toNat : Int)) * 8).toNat = 8 * (32 - b.toNat) := by omega
    have hmask : bitAnd ((v.toNat : Int) >>> ((32 - (b.toNat : Int)) * 8).toNat) 0xff =
        (v.toNat >>> (8 * (32 - b.toNat)) % 2 ^ 8 : Nat) := by
      rw [hshift, ← Nat.and_two_pow_sub_one_eq_mod]
      rfl
    rw [hmask, byteBefore]
    split
    · rename_i hzero
      rw [hzero, Nat.shiftRight_eq_div_pow, Nat.div_eq_of_lt v.isLt]
      rfl
    · rw [byteFromTop, if_pos (by omega), BitVec.extractLsb'_toNat,
        show 31 - (b.toNat - 1) = 32 - b.toNat by omega]
  · rw [if_neg (by omega), if_neg hb]

end Word

namespace MachineWord

/-- A word whose bytes are all equal to the one before is zero. -/
theorem eq_zero_of_bytes {v : MachineWord}
    (h : ∀ i ≤ 32, v.byteFromTop i = v.byteBefore i) : v = 0 := by
  have hbytes : ∀ i < 32, v.byteFromTop i = 0 := by
    intro i hi
    induction i with
    | zero => exact h 0 (by omega)
    | succ i ih =>
      rw [h (i + 1) (by omega)]
      exact ih (by omega)
  refine BitVec.eq_of_getLsbD_eq fun j hj => ?_
  have hbyte := hbytes (31 - j / 8) (by omega)
  rw [byteFromTop, if_pos (by omega), show 31 - (31 - j / 8) = j / 8 by omega] at hbyte
  have hbit := congrArg (Nat.testBit · (j % 8)) hbyte
  simp only [BitVec.testBit_toNat, BitVec.getLsbD_extractLsb', Nat.zero_testBit,
    show j % 8 < 8 by omega, Nat.div_add_mod, decide_true, Bool.true_and] at hbit
  rw [hbit]
  simp

end MachineWord

open Word MachineWord

/-- **Bytes.**  For every word `v` and every index `b`, the function gives the byte before byte `b`
as long as `b` is at most 32, and fails from there on.  So it gives byte `b` exactly if `b` is at
most 32 and that byte is equal to the one before it; it does so at every index up to 32 only for the
word zero. -/
theorem byteAt_agrees_iff (v : MachineWord) :
    (∀ b : MachineWord,
      byteAt b.toNat v.toNat =
          (if b.toNat ≤ 32 then .ok (byteBefore v b.toNat : Int) else .error .negativeShift) ∧
        (byteAt b.toNat v.toNat = .ok (byteFromTop v b.toNat : Int) ↔
          b.toNat ≤ 32 ∧ byteFromTop v b.toNat = byteBefore v b.toNat)) ∧
      ((∀ b : MachineWord, b.toNat ≤ 32 →
          byteAt b.toNat v.toNat = .ok (byteFromTop v b.toNat : Int)) ↔ v = 0) := by
  have hiff : ∀ b : MachineWord, byteAt b.toNat v.toNat = .ok (byteFromTop v b.toNat : Int) ↔
      b.toNat ≤ 32 ∧ byteFromTop v b.toNat = byteBefore v b.toNat := by
    intro b
    rw [byteAt_eq]
    split
    · simp [*, eq_comm]
    · simp [*]
  refine ⟨fun b => ⟨byteAt_eq b v, hiff b⟩, fun h => eq_zero_of_bytes fun i hi => ?_, ?_⟩
  · have htoNat : (BitVec.ofNat 256 i).toNat = i := by
      rw [BitVec.toNat_ofNat, Nat.mod_eq_of_lt (by omega)]
    have hbyte := ((hiff (.ofNat 256 i)).mp (h (.ofNat 256 i) (by omega))).2
    rwa [htoNat] at hbyte
  · rintro rfl b hb
    refine (hiff b).mpr ⟨hb, ?_⟩
    simp [byteFromTop, byteBefore]

/-- The last byte of `0x12` is `0x12`, and the function gives the one before; past index 32 there is
no byte at all, and the function fails. -/
theorem not_byteFromTop_lastByte :
    byteAt 31 0x12 = .ok 0 ∧ byteFromTop 0x12 31 = 0x12 ∧
      byteAt 33 0x12 = .error .negativeShift ∧ byteFromTop 0x12 33 = 0 ∧
      ¬ ∀ b v : MachineWord, byteAt b.toNat v.toNat = .ok (byteFromTop v b.toNat : Int) := by
  have hgiven : byteAt 31 0x12 = .ok 0 := rfl
  refine ⟨hgiven, by decide +kernel, rfl, rfl, fun h => ?_⟩
  have hbyte : byteAt 31 0x12 = .ok (byteFromTop 0x12 31 : Int) := h 31 0x12
  rw [hgiven, Except.ok.injEq] at hbyte
  exact absurd hbyte (by decide +kernel)

end TraceLift
